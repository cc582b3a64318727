import Mcodex.ApplyPatch.Parser

/-!
# Finding the lines of a chunk

The lines that a chunk replaces are sought at four levels, each of which forgives more than the one
before. For a chunk at the end of the file only the last lines are looked at, before the start as
well: the search does not go on from the start where they do not match (`seekSequence_meets_iff`).
-/

namespace Mcodex.ApplyPatch

open Text

/-- Typographic dashes, quotes and spaces become plain ones. -/
def normaliseChar (c : Char) : Char :=
  let n := c.toNat
  if (0x2010 ≤ n && n ≤ 0x2015) || n = 0x2212 then '-'
  else if 0x2018 ≤ n && n ≤ 0x201B then '\''
  else if 0x201C ≤ n && n ≤ 0x201F then '"'
  else if n = 0xA0 || (0x2002 ≤ n && n ≤ 0x200A) || n = 0x202F || n = 0x205F || n = 0x3000 then ' '
  else c

def normalise (s : Line) : Line := (trim s).map normaliseChar

/-- How lines are compared, strictest first. -/
inductive Level
  | exact
  | trimEnd
  | trim
  | normalise
  deriving DecidableEq

namespace Level

def all : List Level := [.exact, .trimEnd, .trim, .normalise]

def rank : Level → Nat
  | .exact => 0
  | .trimEnd => 1
  | .trim => 2
  | .normalise => 3

/-- What is compared of a line. -/
def view : Level → Line → Line
  | .exact => id
  | .trimEnd => Text.trimEnd
  | .trim => Text.trim
  | .normalise => ApplyPatch.normalise

end Level

section
variable (lines pattern : List Line)

/-- The pattern stands in the lines at an index. -/
def MatchesAt (level : Level) (i : Nat) : Prop :=
  i + pattern.length ≤ lines.length ∧
    ((lines.drop i).take pattern.length).map level.view = pattern.map level.view

instance (level : Level) (i : Nat) : Decidable (MatchesAt lines pattern level i) :=
  inferInstanceAs (Decidable (_ ∧ _))

/-- One loop: the first index from `searchStart` on at which the pattern stands. -/
def seekAt (searchStart : Nat) (level : Level) : Option Nat :=
  (List.range' searchStart (lines.length - pattern.length + 1 - searchStart)).find? fun i =>
    MatchesAt lines pattern level i

def seekSequence (start : Nat) (eof : Bool) : Option Nat :=
  if pattern.isEmpty then some start
  else if lines.length < pattern.length then none
  else
    let searchStart := if eof && pattern.length ≤ lines.length then lines.length - pattern.length
      else start
    Level.all.findSome? (seekAt lines pattern searchStart)

end

section
variable {lines pattern : List Line} {level level' : Level} {start searchStart i j : Nat}
  {eof : Bool} {s s' : Line}

/-! ## Levels -/

/-- White space at the end of a line is forgotten by `trim` too. -/
theorem trim_trimEnd (s : Line) : trim (Text.trimEnd s) = trim s := by
  obtain ⟨r, hr⟩ : Text.trimEnd s <+: s := List.rdropWhile_prefix _ _
  have hspace : Text.trimEnd r = [] := by
    have hself : Text.trimEnd (Text.trimEnd s ++ r) = Text.trimEnd s := by rw [hr]
    rw [trimEnd_append] at hself
    split at hself
    · assumption
    · exact List.append_right_eq_self.1 hself
  by_cases hnil : trimStart (Text.trimEnd s) = []
  · have hall : trimStart (Text.trimEnd s ++ r) = [] := by
      rw [trimStart, List.dropWhile_eq_nil_iff] at hnil ⊢
      rw [Text.trimEnd, List.rdropWhile_eq_nil_iff] at hspace
      intro c hc
      exact (List.mem_append.1 hc).elim (hnil c) (hspace c)
    rw [trim, trim, hnil, ← hall, hr]
  · conv_rhs => rw [← hr, trim_append r hnil, trimEnd_append, if_pos hspace]
    rfl

/-- What a level compares is computed from what a stricter one compares. -/
theorem view_of_le (h : level.rank ≤ level'.rank) :
    ∃ f : Line → Line, ∀ s, level'.view s = f (level.view s) := by
  have htrimEnd : ∀ s, Level.trim.view s = Level.trim.view (Level.trimEnd.view s) :=
    fun s => (trim_trimEnd s).symm
  cases level' with
  | exact =>
    cases level with
    | exact => exact ⟨id, fun _ => rfl⟩
    | trimEnd | trim | normalise => cases h
  | trimEnd =>
    cases level with
    | exact => exact ⟨Text.trimEnd, fun _ => rfl⟩
    | trimEnd => exact ⟨id, fun _ => rfl⟩
    | trim | normalise => simp [Level.rank] at h
  | trim =>
    cases level with
    | exact => exact ⟨trim, fun _ => rfl⟩
    | trimEnd => exact ⟨trim, htrimEnd⟩
    | trim => exact ⟨id, fun _ => rfl⟩
    | normalise => simp [Level.rank] at h
  | normalise =>
    cases level with
    | exact => exact ⟨normalise, fun _ => rfl⟩
    | trimEnd => exact ⟨normalise, fun s => congrArg (List.map normaliseChar) (htrimEnd s)⟩
    | trim => exact ⟨List.map normaliseChar, fun _ => rfl⟩
    | normalise => exact ⟨id, fun _ => rfl⟩

/-- What stands at a level stands at those that forgive more. -/
theorem MatchesAt.mono (h : MatchesAt lines pattern level i) (hrank : level.rank ≤ level'.rank) :
    MatchesAt lines pattern level' i := by
  obtain ⟨f, hf⟩ := view_of_le hrank
  have hview : level'.view = f ∘ level.view := funext hf
  refine ⟨h.1, ?_⟩
  rw [hview, ← List.map_map, h.2, List.map_map]

/-! ## The search -/

theorem seekAt_eq_some : seekAt lines pattern searchStart level = some i ↔
    searchStart ≤ i ∧ MatchesAt lines pattern level i ∧
      ∀ j, searchStart ≤ j → j < i → ¬MatchesAt lines pattern level j := by
  rw [seekAt, List.find?_range'_eq_some]
  simp only [decide_eq_true_eq, List.mem_range'_1, Bool.not_eq_true', decide_eq_false_iff_not]
  constructor
  · rintro ⟨hmatch, ⟨hstart, -⟩, hfirst⟩
    exact ⟨hstart, hmatch, hfirst⟩
  · rintro ⟨hstart, hmatch, hfirst⟩
    have hle := hmatch.1
    exact ⟨hmatch, ⟨hstart, by omega⟩, hfirst⟩

theorem seekAt_eq_none : seekAt lines pattern searchStart level = none ↔
    ∀ i, searchStart ≤ i → ¬MatchesAt lines pattern level i := by
  rw [seekAt, List.find?_range'_eq_none]
  simp only [Bool.not_eq_true', decide_eq_false_iff_not]
  refine ⟨fun h i hstart hmatch => ?_, fun h i hstart _ => h i hstart⟩
  have hle := hmatch.1
  exact h i hstart (by omega) hmatch

/-- The pattern stands somewhere at or after an index. -/
def MatchesFrom (lines pattern : List Line) (start : Nat) (level : Level) : Prop :=
  ∃ i, start ≤ i ∧ MatchesAt lines pattern level i

theorem MatchesFrom.mono (h : MatchesFrom lines pattern start level)
    (hrank : level.rank ≤ level'.rank) : MatchesFrom lines pattern start level' := by
  obtain ⟨i, hstart, hmatch⟩ := h
  exact ⟨i, hstart, hmatch.mono hrank⟩

/-- The levels before one in the list are those that are stricter. -/
theorem mem_before_iff {before after : List Level} (h : Level.all = before ++ level :: after) :
    level' ∈ before ↔ level'.rank < level.rank := by
  have hsorted : Level.all.Pairwise fun level level' => level.rank < level'.rank := by decide
  have hmem : level' ∈ before ++ level :: after := h ▸ by cases level' <;> decide
  rw [h, List.pairwise_append, List.pairwise_cons] at hsorted
  obtain ⟨-, ⟨hafter, -⟩, hbefore⟩ := hsorted
  refine ⟨fun hlevel => hbefore level' hlevel level List.mem_cons_self, fun hrank => ?_⟩
  rcases List.mem_append.1 hmem with hlevel | hlevel
  · exact hlevel
  · rcases List.mem_cons.1 hlevel with rfl | hlevel
    · exact absurd hrank (Nat.lt_irrefl _)
    · exact absurd hrank (hafter level' hlevel).asymm

/-- The loops at the four levels: the first one that finds something decides. -/
theorem findSome_seekAt_eq_some :
    Level.all.findSome? (seekAt lines pattern searchStart) = some i ↔
      ∃ level, seekAt lines pattern searchStart level = some i ∧
        ∀ level', level'.rank < level.rank → ¬MatchesFrom lines pattern searchStart level' := by
  have hnone : ∀ level', seekAt lines pattern searchStart level' = none ↔
      ¬MatchesFrom lines pattern searchStart level' := by
    intro level'
    rw [seekAt_eq_none, MatchesFrom]
    simp only [not_exists, not_and]
  rw [List.findSome?_eq_some_iff]
  constructor
  · rintro ⟨before, level, after, hall, hsome, hbefore⟩
    exact ⟨level, hsome, fun level' hrank =>
      (hnone level').1 (hbefore level' ((mem_before_iff hall).2 hrank))⟩
  · rintro ⟨level, hsome, hstricter⟩
    obtain ⟨before, after, hall⟩ := List.append_of_mem (show level ∈ Level.all by
      cases level <;> decide)
    exact ⟨before, level, after, hall, hsome, fun level' hlevel =>
      (hnone level').2 (hstricter level' ((mem_before_iff hall).1 hlevel))⟩

theorem findSome_seekAt_eq_none :
    Level.all.findSome? (seekAt lines pattern searchStart) = none ↔
      ∀ level, ¬MatchesFrom lines pattern searchStart level := by
  rw [List.findSome?_eq_none_iff]
  simp only [seekAt_eq_none, MatchesFrom, not_exists, not_and]
  exact ⟨fun h level => h level (by cases level <;> decide), fun h level _ => h level⟩

/-- Where the search begins. -/
def searchStartOf (lines pattern : List Line) (start : Nat) (eof : Bool) : Nat :=
  if eof then lines.length - pattern.length else start

theorem seekSequence_eq (hne : pattern ≠ []) : seekSequence lines pattern start eof =
    Level.all.findSome? (seekAt lines pattern (searchStartOf lines pattern start eof)) := by
  rw [seekSequence, if_neg (by rwa [List.isEmpty_iff])]
  split
  · rename_i hshort
    refine (findSome_seekAt_eq_none.2 ?_).symm
    rintro level ⟨i, -, hle, -⟩
    omega
  · rename_i hlong
    simp only [Nat.not_lt.1 hlong, decide_true, Bool.and_true, searchStartOf]

/-! ## The contract -/

/-- What the documentation of `seek_sequence` asks of a result: it is found exactly if the pattern
stands at or after the start, at the strictest level at which it stands there, where it ends the
file if that is preferred and possible, and else at the first index. -/
structure Meets (lines pattern : List Line) (start : Nat) (eof : Bool) (result : Option Nat) :
    Prop where
  isSome_iff : result.isSome ↔ ∃ level, MatchesFrom lines pattern start level
  strictest : ∀ i ∈ result, start ≤ i ∧ ∃ level, MatchesAt lines pattern level i ∧
    (∀ level', level'.rank < level.rank → ¬MatchesFrom lines pattern start level') ∧
    if eof ∧ start ≤ lines.length - pattern.length ∧
        MatchesAt lines pattern level (lines.length - pattern.length) then
      i = lines.length - pattern.length
    else ∀ j, start ≤ j → MatchesAt lines pattern level j → i ≤ j

theorem matchesFrom_last : MatchesFrom lines pattern (lines.length - pattern.length) level ↔
    MatchesAt lines pattern level (lines.length - pattern.length) := by
  refine ⟨?_, fun h => ⟨_, le_rfl, h⟩⟩
  rintro ⟨i, hi, hmatch⟩
  have hle := hmatch.1
  obtain rfl : i = lines.length - pattern.length := by omega
  exact hmatch

theorem seekSequence_meets (hne : pattern ≠ []) :
    Meets lines pattern start false (seekSequence lines pattern start false) := by
  rw [seekSequence_eq hne]
  show Meets lines pattern start false (Level.all.findSome? (seekAt lines pattern start))
  cases hresult : Level.all.findSome? (seekAt lines pattern start) with
  | none =>
    rw [findSome_seekAt_eq_none] at hresult
    exact ⟨⟨nofun, fun ⟨level, hfrom⟩ => absurd hfrom (hresult level)⟩, nofun⟩
  | some i =>
    obtain ⟨level, hsome, hstricter⟩ := findSome_seekAt_eq_some.1 hresult
    obtain ⟨hstart, hmatch, hfirst⟩ := seekAt_eq_some.1 hsome
    refine ⟨⟨fun _ => ⟨level, i, hstart, hmatch⟩, fun _ => rfl⟩, ?_⟩
    intro i' hi'
    obtain rfl := Option.some.inj hi'
    refine ⟨hstart, level, hmatch, hstricter, ?_⟩
    rw [if_neg (by simp)]
    exact fun j hj hmatch' => Nat.le_of_not_lt fun hlt => hfirst j hj hlt hmatch'

/-- **The contract of the search** is met exactly if the end of the file is not asked for, or the
pattern stands at the last lines at each level at which it stands at or after the start, and at no
other one. -/
theorem seekSequence_meets_iff (lines pattern : List Line) (start : Nat) (eof : Bool)
    (hne : pattern ≠ []) :
    Meets lines pattern start eof (seekSequence lines pattern start eof) ↔
      eof = false ∨ ∀ level, MatchesAt lines pattern level (lines.length - pattern.length) ↔
        MatchesFrom lines pattern start level := by
  cases eof with
  | false => exact iff_of_true (seekSequence_meets hne) (.inl rfl)
  | true =>
    rw [seekSequence_eq hne]
    show Meets lines pattern start true
      (Level.all.findSome? (seekAt lines pattern (lines.length - pattern.length))) ↔ _
    simp only [Bool.true_eq_false, false_or]
    cases hresult : Level.all.findSome? (seekAt lines pattern (lines.length - pattern.length)) with
    | none =>
      rw [findSome_seekAt_eq_none] at hresult
      simp only [matchesFrom_last] at hresult
      constructor
      · intro h level
        exact iff_of_false (hresult level) fun hfrom => nomatch h.isSome_iff.2 ⟨level, hfrom⟩
      · intro h
        exact ⟨⟨nofun, fun ⟨level, hfrom⟩ => absurd ((h level).2 hfrom) (hresult level)⟩, nofun⟩
    | some i =>
      obtain ⟨level, hsome, hstricter⟩ := findSome_seekAt_eq_some.1 hresult
      obtain ⟨hlast, hmatch, -⟩ := seekAt_eq_some.1 hsome
      have hle := hmatch.1
      obtain rfl : i = lines.length - pattern.length := by omega
      constructor
      · intro h level'
        obtain ⟨hstart, level, hmatch, hstricter, -⟩ := h.strictest _ rfl
        refine ⟨fun hmatch' => ⟨_, hstart, hmatch'⟩, fun hfrom => hmatch.mono ?_⟩
        exact Nat.le_of_not_lt fun hrank => hstricter level' hrank hfrom
      · intro h
        obtain ⟨j, hj, hmatch'⟩ := (h level).1 hmatch
        have hle' := hmatch'.1
        refine ⟨⟨fun _ => ⟨level, j, hj, hmatch'⟩, fun _ => rfl⟩, ?_⟩
        intro i hi
        obtain rfl := Option.some.inj hi
        refine ⟨by omega, level, hmatch, fun level' hrank hfrom => ?_, ?_⟩
        · exact hstricter level' hrank (matchesFrom_last.2 ((h level').2 hfrom))
        · rw [if_pos ⟨rfl, by omega, hmatch⟩]

/-- The last lines match as well as those at the start. -/
theorem seekSequence_meets_iff_end :
    Meets [['a'], ['b']] [['b']] 0 true (seekSequence [['a'], ['b']] [['b']] 0 true) ↔
      true = false ∨ ∀ level, MatchesAt [['a'], ['b']] [['b']] level
        ([['a'], ['b']].length - [['b']].length) ↔ MatchesFrom [['a'], ['b']] [['b']] 0 level :=
  seekSequence_meets_iff _ _ _ _ (by decide)

/-- The pattern stands at the start of the file and not at its end. -/
theorem seekSequence_no_fallback :
    ¬∀ (lines pattern : List Line) (start : Nat) (eof : Bool), pattern ≠ [] →
      Meets lines pattern start eof (seekSequence lines pattern start eof) := by
  intro h
  have hmeets := h [['a'], ['b']] [['a']] 0 true (by decide)
  have hsome := hmeets.isSome_iff.2 ⟨.exact, 0, le_rfl, by decide⟩
  have hnone : seekSequence [['a'], ['b']] [['a']] 0 true = none := by decide
  rw [hnone] at hsome
  cases hsome

end

end Mcodex.ApplyPatch
