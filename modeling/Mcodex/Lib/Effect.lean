import Mathlib.Logic.Basic

/-!
# Effectful programs and their weakest preconditions

`Prog σ ε α` is a program over a state `σ` that returns an `α`, raises an `ε`, or exhausts the fuel
of one of its loops; the state reached is kept in every case, as it is when an asynchronous Rust
function returns early. `wp x Q E s` says that `x`, started in `s`, ends in the postcondition `Q` on
a value and in `E` on an interrupt. The rules below read `wp` through every way programs are built
here: sequencing, error conversion, running on a part of the state, and loops.
-/

namespace Mcodex.Effect

universe u

/-- What stops a program short of a value: a raised error, or a loop running out of fuel. -/
inductive Interrupt (ε : Type u) where
  | raised (e : ε)
  | outOfFuel

/-- A program over the state `σ`, raising errors in `ε` and returning values in `α`. -/
abbrev Prog (σ ε α : Type u) := EStateM (Interrupt ε) σ α

section
variable {σ τ ε ε' α β : Type u}

/-! ## Outcomes without a state -/

/-- A sequence of two fallible steps succeeds exactly when both do. -/
theorem bind_eq_ok {x : Except ε α} {f : α → Except ε β} {b : β} :
    x >>= f = .ok b ↔ ∃ a, x = .ok a ∧ f a = .ok b := by
  cases x <;> simp [bind, Except.bind]

/-- What a fallible step leaves of a state when its failure is undone. -/
def orElseKeep (s : σ) (x : Except ε σ) : σ :=
  match x with
  | .ok s' => s'
  | .error _ => s

/-- A relation that holds of a step's outcome, and of a state with itself, holds of what the step
leaves when its failure is undone. -/
theorem orElseKeep_rel {R : σ → σ → Prop} {s : σ} {x : Except ε σ} (hrefl : R s s)
    (h : ∀ s', x = .ok s' → R s s') : R s (orElseKeep s x) := by
  cases x with
  | ok s' => exact h s' rfl
  | error e => exact hrefl

/-! ## Running programs -/

/-- Raise an error of the program's own error type. -/
def raise (e : ε) : Prog σ ε α := throw (.raised e)

/-- `x` with its raised errors converted by `f`; running out of fuel is not an error. -/
def mapErr (f : ε → ε') (x : Prog σ ε α) : Prog σ ε' α := fun s =>
  match x s with
  | .ok a s' => .ok a s'
  | .error (.raised e) s' => .error (.raised (f e)) s'
  | .error .outOfFuel s' => .error .outOfFuel s'

/-- `x` with its raised error handed over as a value. -/
def attempt (x : Prog σ ε α) : Prog σ ε' (Except ε α) := fun s =>
  match x s with
  | .ok a s' => .ok (.ok a) s'
  | .error (.raised e) s' => .ok (.error e) s'
  | .error .outOfFuel s' => .error .outOfFuel s'

/-- Raise a failed outcome, return a successful one. -/
def orRaise : Except ε α → Prog σ ε α
  | .ok a => pure a
  | .error e => raise e

/-- `x` run on the part of the state that `get` reads and `put` writes back. -/
def onPart (get : τ → σ) (put : σ → τ → τ) (x : Prog σ ε α) : Prog τ ε α := fun t =>
  match x (get t) with
  | .ok a s => .ok a (put s t)
  | .error e s => .error e (put s t)

/-- Repeat `body` from the loop state `b` until it returns a result, at most `fuel` times. -/
def iterate (body : β → Prog σ ε (β ⊕ α)) : Nat → β → Prog σ ε α
  | 0, _ => throw .outOfFuel
  | fuel + 1, b => do
    match ← body b with
    | .inl b' => iterate body fuel b'
    | .inr a => pure a

/-! ## Weakest preconditions -/

/-- `x` run from `s` ends in `Q` on a value and in `E` on an interrupt. -/
def wp (x : Prog σ ε α) (Q : α → σ → Prop) (E : Interrupt ε → σ → Prop) (s : σ) : Prop :=
  match x s with
  | .ok a s' => Q a s'
  | .error e s' => E e s'

variable {x : Prog σ ε α} {Q Q' : α → σ → Prop} {E E' : Interrupt ε → σ → Prop} {s s' : σ}

theorem wp.of_ok (h : wp x Q E s) {a : α} (hx : x s = .ok a s') : Q a s' := by
  simpa [wp, hx] using h

theorem wp.of_error (h : wp x Q E s) {e : Interrupt ε} (hx : x s = .error e s') : E e s' := by
  simpa [wp, hx] using h

theorem wp.imp (h : wp x Q E s) (hQ : ∀ a s', Q a s' → Q' a s') (hE : ∀ e s', E e s' → E' e s') :
    wp x Q' E' s := by
  unfold wp at h ⊢
  split <;> simp_all

theorem wp_true : wp x (fun _ _ => True) (fun _ _ => True) s := by
  unfold wp
  split <;> trivial

theorem wp.imp_ok (h : wp x Q E s) (hQ : ∀ a s', Q a s' → Q' a s') : wp x Q' E s :=
  h.imp hQ fun _ _ => id

theorem wp.and (h : wp x Q E s) (h' : wp x Q' E' s) :
    wp x (fun a s' => Q a s' ∧ Q' a s') (fun e s' => E e s' ∧ E' e s') s := by
  unfold wp at h h' ⊢
  split <;> simp_all

/-- A postcondition may speak of the run itself. -/
theorem wp.with_run (h : wp x Q E s) : wp x (fun a s' => x s = .ok a s' ∧ Q a s') E s := by
  unfold wp at h ⊢
  split
  · next hx =>
    rw [hx] at h
    exact ⟨hx, h⟩
  · next hx =>
    rw [hx] at h
    exact h

/-- `x` from `s` ends in `s'`, with a value or an interrupt. -/
def LeadsTo (x : Prog σ ε α) (s s' : σ) : Prop :=
  (∃ a, x s = .ok a s') ∨ ∃ e, x s = .error e s'

theorem LeadsTo.of_wp {I : σ → Prop} (hx : LeadsTo x s s')
    (h : wp x (fun _ => I) (fun _ => I) s) : I s' :=
  hx.elim (fun ⟨_, hx⟩ => h.of_ok hx) fun ⟨_, hx⟩ => h.of_error hx

@[simp] theorem wp_pure (a : α) : wp (pure a : Prog σ ε α) Q E s ↔ Q a s := Iff.rfl

@[simp] theorem wp_bind (x : Prog σ ε β) (f : β → Prog σ ε α) :
    wp (x >>= f) Q E s ↔ wp x (fun b s' => wp (f b) Q E s') E s := by
  simp only [wp, bind, EStateM.bind]
  cases x s <;> rfl

@[simp] theorem wp_map (x : Prog σ ε β) (f : β → α) :
    wp (f <$> x) Q E s ↔ wp x (fun b s' => Q (f b) s') E s := by
  simp only [wp, Functor.map, EStateM.map]
  cases x s <;> rfl

@[simp] theorem wp_throw (e : Interrupt ε) : wp (throw e : Prog σ ε α) Q E s ↔ E e s := Iff.rfl

@[simp] theorem wp_raise (e : ε) : wp (raise e : Prog σ ε α) Q E s ↔ E (.raised e) s := Iff.rfl

@[simp] theorem wp_get {Q : σ → σ → Prop} : wp (get : Prog σ ε σ) Q E s ↔ Q s s := Iff.rfl

@[simp] theorem wp_set {Q : PUnit → σ → Prop} (t : σ) :
    wp (set t : Prog σ ε PUnit) Q E s ↔ Q ⟨⟩ t := Iff.rfl

@[simp] theorem wp_modify {Q : PUnit → σ → Prop} (f : σ → σ) :
    wp (modify f : Prog σ ε PUnit) Q E s ↔ Q ⟨⟩ (f s) := Iff.rfl

@[simp] theorem wp_mapErr (f : ε' → ε) (x : Prog σ ε' α) :
    wp (mapErr f x) Q E s ↔
      wp x Q (fun | .raised e => E (.raised (f e)) | .outOfFuel => E .outOfFuel) s := by
  simp only [wp, mapErr]
  rcases x s with _ | ⟨_ | _, _⟩ <;> rfl

@[simp] theorem wp_attempt {Q : Except ε' α → σ → Prop} (x : Prog σ ε' α) :
    wp (attempt x : Prog σ ε _) Q E s ↔
      wp x (fun a => Q (.ok a)) (fun | .raised e => Q (.error e) | .outOfFuel => E .outOfFuel) s := by
  simp only [wp, attempt]
  rcases x s with _ | ⟨_ | _, _⟩ <;> rfl

@[simp] theorem wp_orRaise_ok (a : α) : wp (orRaise (.ok a) : Prog σ ε α) Q E s ↔ Q a s := Iff.rfl

@[simp] theorem wp_orRaise_error (e : ε) :
    wp (orRaise (.error e) : Prog σ ε α) Q E s ↔ E (.raised e) s := Iff.rfl

@[simp] theorem wp_onPart {Q : α → τ → Prop} {E : Interrupt ε → τ → Prop} {t : τ}
    (get : τ → σ) (put : σ → τ → τ) (x : Prog σ ε α) :
    wp (onPart get put x) Q E t ↔
      wp x (fun a s => Q a (put s t)) (fun e s => E e (put s t)) (get t) := by
  simp only [wp, onPart]
  cases x (get t) <;> rfl

/-- The interrupt is a raised error that satisfies `P`. -/
def Stops (P : ε → σ → Prop) : Interrupt ε → σ → Prop
  | .raised e, s => P e s
  | .outOfFuel, _ => False

@[simp] theorem stops_raised {P : ε → σ → Prop} {e : ε} : Stops P (.raised e) s ↔ P e s := Iff.rfl

theorem wp.imp_stops {P P' : ε → σ → Prop} (h : wp x Q (Stops P) s)
    (hQ : ∀ a s', Q a s' → Q' a s') (hP : ∀ e s', P e s' → P' e s') :
    wp x Q' (Stops P') s := by
  refine h.imp hQ fun e s' he => ?_
  cases e with
  | raised e => exact hP e s' he
  | outOfFuel => exact he.elim

theorem wp_mapErr_stops {P : ε → σ → Prop} {f : ε' → ε} {x : Prog σ ε' α}
    (h : wp x Q (Stops fun e => P (f e)) s) : wp (mapErr f x) Q (Stops P) s := by
  rw [wp_mapErr]
  refine h.imp (fun _ _ => id) fun e s' he => ?_
  cases e with
  | raised e => exact he
  | outOfFuel => exact he.elim

theorem wp_attempt_stops {Q : Except ε' α → σ → Prop} {x : Prog σ ε' α}
    (h : wp x (fun a => Q (.ok a)) (Stops fun e => Q (.error e)) s) :
    wp (attempt x : Prog σ ε _) Q E s := by
  rw [wp_attempt]
  refine h.imp (fun _ _ => id) fun e s' he => ?_
  cases e with
  | raised e => exact he
  | outOfFuel => exact he.elim

/-- A list of steps that each return what a function computes returns what it computes on the
list. -/
theorem wp_mapM {f : β → Prog σ ε α} (g : β → α) (I : σ → Prop)
    (hf : ∀ b s, I s → wp (f b) (fun a s' => a = g b ∧ I s') E s) :
    ∀ (l : List β) {s : σ}, I s → wp (l.mapM f) (fun as s' => as = l.map g ∧ I s') E s
  | [], _, hs => by
    rw [List.mapM_nil]
    exact ⟨rfl, hs⟩
  | b :: l, s, hs => by
    rw [List.mapM_cons, wp_bind]
    refine (hf b s hs).imp_ok fun a s' ⟨ha, hs'⟩ => ?_
    rw [wp_bind]
    refine (wp_mapM g I hf l hs').imp_ok fun as s'' ⟨has, hs''⟩ => ?_
    exact ⟨by rw [ha, has, List.map_cons], hs''⟩

/-- **Loop rule.** An invariant of the loop state and the program state that one round preserves,
and that a round which returns turns into the postcondition, bounds the whole loop. -/
theorem wp_iterate {body : β → Prog σ ε (β ⊕ α)} (I : β → σ → Prop)
    (hbody : ∀ b s, I b s → wp (body b) (fun r s' =>
      match r with
      | .inl b' => I b' s'
      | .inr a => Q a s') E s)
    (hfuel : ∀ b s, I b s → E .outOfFuel s) :
    ∀ fuel {b : β} {s : σ}, I b s → wp (iterate body fuel b) Q E s
  | 0, _, _, h => hfuel _ _ h
  | fuel + 1, b, s, h => by
    unfold iterate
    rw [wp_bind]
    refine (hbody b s h).imp_ok fun r s' hr => ?_
    cases r with
    | inl b' => exact wp_iterate I hbody hfuel fuel hr
    | inr a => exact hr

/-- **Termination rule.** A measure that drops with every round that goes on, below the fuel at the
start, keeps the loop from running out of fuel. -/
theorem wp_iterate_terminates {body : β → Prog σ ε (β ⊕ α)} (I : β → σ → Prop) (μ : β → σ → Nat)
    (hbody : ∀ b s, I b s → wp (body b) (fun r s' =>
      match r with
      | .inl b' => I b' s' ∧ μ b' s' < μ b s
      | .inr a => Q a s') E s) :
    ∀ fuel {b : β} {s : σ}, I b s → μ b s < fuel → wp (iterate body fuel b) Q E s
  | 0, _, _, _, hlt => absurd hlt (Nat.not_lt_zero _)
  | fuel + 1, b, s, h, hlt => by
    unfold iterate
    rw [wp_bind]
    refine (hbody b s h).imp_ok fun r s' hr => ?_
    cases r with
    | inl b' => exact wp_iterate_terminates I μ hbody fuel hr.1 (by omega)
    | inr a => exact hr

/-- **Staged loops.** A round that begins with `first` and goes on unchanged where `first` asks for
another round: the loop is the loop of `first` alone, and then the rest of a round with the fuel
that is left. -/
theorem iterate_stages {γ : Type u} {body : β → Prog σ ε (β ⊕ α)} {b : β}
    {first : Prog σ ε (PUnit ⊕ γ)} {next : γ → Prog σ ε (β ⊕ α)}
    (hbody : body b = first >>= Sum.elim (fun _ => pure (.inl b)) next) : ∀ fuel s,
    match iterate (fun _ => first) fuel ⟨⟩ s with
    | .error e s' => iterate body fuel b s = .error e s'
    | .ok c s' => ∃ fuel', iterate body fuel b s =
      (next c >>= Sum.elim (iterate body fuel') pure) s'
  | 0, s => rfl
  | fuel + 1, s => by
    simp only [iterate, hbody, bind, EStateM.bind]
    rcases first s with ⟨_ | c, s'⟩ | ⟨e, s'⟩
    · exact iterate_stages hbody fuel s'
    · refine ⟨fuel, ?_⟩
      simp only [Sum.elim_inr]
      rcases next c s' with ⟨_ | a, s''⟩ | ⟨e, s''⟩ <;> rfl
    · rfl

end

end Mcodex.Effect
