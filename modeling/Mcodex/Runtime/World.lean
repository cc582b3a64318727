import Mcodex.AccountPool.Startup
import Mcodex.Lib.Effect

/-!
# The world of the account-pool manager

The manager runs against the store, a clock and a file system. `Env` holds what it cannot predict:
its clock readings, which of its fallible calls fail and with which message, and whether an auth
session is still current. `World` is the store with the numbers of readings and calls made so far.
A call of the state runtime is one fallible transaction: it fails and changes nothing, or it runs.
-/

namespace Mcodex.Runtime

open AccountPool Effect

/-- Clock readings, failures of fallible calls and answers of auth sessions, in order. -/
structure Env where
  clock : Nat → Int
  fails : Nat → Option String
  authCurrent : Nat → Bool

/-- The store, and how much of the environment has been used. -/
structure World where
  db : Db
  ticks : Nat
  calls : Nat

/-- `Utc::now`. -/
def utcNow {ε : Type} (env : Env) : Prog World ε Int := fun w =>
  .ok (env.clock w.ticks) { w with ticks := w.ticks + 1 }

/-- One transaction of the state runtime. -/
def call {α : Type} (env : Env) (f : Db → α × Db) : Prog World String α := fun w =>
  match env.fails w.calls with
  | some message => .error (.raised message) { w with calls := w.calls + 1 }
  | none => .ok (f w.db).1 { w with db := (f w.db).2, calls := w.calls + 1 }

/-- A read of the state runtime. -/
def read {α : Type} (env : Env) (f : Db → α) : Prog World String α :=
  call env fun db => (f db, db)

/-- A fallible call that reads and writes none of the tables: an event appended to the log of the
pool, or a marker file written or removed. -/
def perform (env : Env) : Prog World String Unit := read env fun _ => ()

/-- A transaction that can fail of its own accord, and then rolls back. -/
def transact (env : Env) (f : Db → Except String Db) : Prog World String Unit := do
  let outcome ← call env fun db =>
    match f db with
    | .ok db' => (Except.ok (), db')
    | .error message => (Except.error message, db)
  orRaise outcome

/-- `LeaseScopedAuthSession::ensure_current`: whether the session is still current. -/
def ensureCurrent {ε : Type} (env : Env) : Prog World ε Bool := fun w =>
  .ok (env.authCurrent w.calls) { w with calls := w.calls + 1 }

/-! ## Specifications -/

/-- What is known of an environment: a predicate that its readings satisfy, whether they never go
back, and whether calls may fail. -/
structure Conditions where
  reading : Int → Prop
  ordered : Prop
  failing : Prop

/-- The conditions after a reading. -/
def Conditions.since (K : Conditions) (now : Int) : Conditions :=
  { K with reading := fun now' => K.reading now' ∧ (K.ordered → now ≤ now') }

/-- No reading is before `t`. -/
def Conditions.From (K : Conditions) (t : Int) : Prop := ∀ now, K.reading now → t ≤ now

/-- The world `w` holds the store `db`, and from it on the environment meets the conditions. -/
structure Env.At (env : Env) (K : Conditions) (db : Db) (w : World) : Prop where
  db : w.db = db
  reading : ∀ n, w.ticks ≤ n → K.reading (env.clock n)
  ordered : K.ordered → ∀ n n', w.ticks ≤ n → n ≤ n' → env.clock n ≤ env.clock n'
  failing : ∀ n message, env.fails n = some message → K.failing

section
variable {α ε : Type} {env : Env} {K : Conditions} {w : World} {db : Db}

/-- What is left by a failed call, where calls may fail: the store as it was. -/
def Env.Failed (env : Env) (K : Conditions) (db : Db) (_ : String) (w : World) : Prop :=
  K.failing ∧ env.At K db w

theorem Env.At.of_since {now : Int} (h : env.At (K.since now) db w) : env.At K db w :=
  ⟨h.db, fun n hn => (h.reading n hn).1, h.ordered, h.failing⟩

@[simp] theorem wp_utcNow_iff {Q : Int → World → Prop} {E : Interrupt ε → World → Prop} :
    wp (utcNow env) Q E w ↔ Q (env.clock w.ticks) { w with ticks := w.ticks + 1 } := Iff.rfl

/-- The world after a clock reading. -/
theorem Env.At.tick (h : env.At K db w) :
    env.At (K.since (env.clock w.ticks)) db { w with ticks := w.ticks + 1 } :=
  ⟨h.db, fun n hn => ⟨h.reading n (Nat.le_of_succ_le hn), fun ho =>
      h.ordered ho _ n le_rfl (Nat.le_of_succ_le hn)⟩,
    fun ho n n' hn => h.ordered ho n n' (Nat.le_of_succ_le hn), h.failing⟩

/-- A clock reading. -/
theorem wp_utcNow {Q : Int → World → Prop} {E : Interrupt ε → World → Prop} (h : env.At K db w)
    (hQ : ∀ now w', K.reading now → env.At K db w' → Q now w') : wp (utcNow env) Q E w :=
  hQ _ _ (h.reading _ le_rfl) h.tick.of_since

/-- A transaction runs, or fails and changes nothing. -/
theorem wp_call {f : Db → α × Db} {Q : α → World → Prop} {E : Interrupt String → World → Prop}
    (h : env.At K db w) (hQ : ∀ w', env.At K (f db).2 w' → Q (f db).1 w')
    (hE : ∀ message w', K.failing → env.At K db w' → E (.raised message) w') :
    wp (call env f) Q E w := by
  obtain ⟨rfl, hreading, hordered, hfailing⟩ := h
  unfold wp call
  cases hfails : env.fails w.calls with
  | none => exact hQ _ ⟨rfl, hreading, hordered, hfailing⟩
  | some message => exact hE _ _ (hfailing _ _ hfails) ⟨rfl, hreading, hordered, hfailing⟩

/-- A read returns what the store holds. -/
theorem wp_read {f : Db → α} {Q : α → World → Prop} {P : String → World → Prop}
    (h : env.At K db w) (hQ : ∀ w', env.At K db w' → Q (f db) w')
    (hP : ∀ message w', env.Failed K db message w' → P message w') :
    wp (read env f) Q (Stops P) w := wp_call h hQ fun message w' hf h' => hP message w' ⟨hf, h'⟩

theorem wp_perform {Q : Unit → World → Prop} {P : String → World → Prop}
    (h : env.At K db w) (hQ : ∀ w', env.At K db w' → Q () w')
    (hP : ∀ message w', env.Failed K db message w' → P message w') :
    wp (perform env) Q (Stops P) w := wp_read h hQ hP

theorem wp_ensureCurrent {Q : Bool → World → Prop} {E : Interrupt ε → World → Prop}
    (h : env.At K db w) (hQ : ∀ current w', env.At K db w' → Q current w') :
    wp (ensureCurrent env) Q E w := hQ _ _ ⟨h.db, h.reading, h.ordered, h.failing⟩

end

/-- An environment in which nothing fails, stopped at an instant. -/
def stoppedEnv (now : Int) : Env where
  clock _ := now
  fails _ := none
  authCurrent _ := true

theorem stoppedEnv_at (now : Int) (db : Db) (ticks calls : Nat) :
    (stoppedEnv now).At ⟨(· = now), True, False⟩ db ⟨db, ticks, calls⟩ :=
  ⟨rfl, fun _ _ => rfl, fun _ _ _ _ _ => le_rfl, nofun⟩

end Mcodex.Runtime
