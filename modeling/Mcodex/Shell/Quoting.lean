import Mathlib.Data.List.Infix

/-!
# Quoting in a shell word

`removeQuotes` is what bash makes of a word that is left alone by expansions: quotes go, and so does
a backslash outside quotes, and one in double quotes before a character that it escapes. A word is
written as parts, one after the other. Taking the quotes off every part gives the word that bash
makes exactly when there is no such backslash (`stripped_eq_value`), since a removed character is
missed in the length.
-/

namespace Mcodex.Shell

inductive QuoteState where
  | unquoted
  | singleQuoted
  | doubleQuoted
  deriving DecidableEq, Repr

/-- The characters that a backslash escapes in double quotes. -/
def escapable : List Char := ['$', '`', '"', '\\', '\n']

/-- Quote removal. A backslash before a line break continues the line, so both go. -/
def removeQuotes : QuoteState → List Char → List Char
  | _, [] => []
  | .unquoted, c :: text =>
    if c = '\\' then
      match text with
      | [] => [c]
      | d :: text =>
        if d = '\n' then removeQuotes .unquoted text else d :: removeQuotes .unquoted text
    else if c = '\'' then removeQuotes .singleQuoted text
    else if c = '"' then removeQuotes .doubleQuoted text
    else c :: removeQuotes .unquoted text
  | .singleQuoted, c :: text =>
    if c = '\'' then removeQuotes .unquoted text else c :: removeQuotes .singleQuoted text
  | .doubleQuoted, c :: text =>
    if c = '\\' then
      match text with
      | [] => [c]
      | d :: text =>
        if d = '\n' then removeQuotes .doubleQuoted text
        else if d ∈ escapable then d :: removeQuotes .doubleQuoted text
        else c :: d :: removeQuotes .doubleQuoted text
    else if c = '"' then removeQuotes .unquoted text
    else c :: removeQuotes .doubleQuoted text

/-! ## Text outside quotes -/

/-- Text outside quotes: characters that quote or expand nothing, and escaped ones. -/
inductive Bare : List Char → Prop where
  | nil : Bare []
  | plain {c : Char} {text : List Char} (hc : c ∉ ['\'', '"', '\\', '$', '`']) (h : Bare text) :
    Bare (c :: text)
  | escape (c : Char) {text : List Char} (h : Bare text) : Bare ('\\' :: c :: text)

theorem removeQuotes_escape (c : Char) (text : List Char) :
    removeQuotes .unquoted ('\\' :: c :: text) =
      if c = '\n' then removeQuotes .unquoted text else c :: removeQuotes .unquoted text := by
  rw [removeQuotes.eq_def]
  exact if_pos rfl

theorem removeQuotes_plain {c : Char} (hc : c ∉ ['\'', '"', '\\', '$', '`']) (text : List Char) :
    removeQuotes .unquoted (c :: text) = c :: removeQuotes .unquoted text := by
  simp only [List.mem_cons, not_or] at hc
  obtain ⟨hsingle, hdouble, hbackslash, -⟩ := hc
  rw [removeQuotes.eq_def]
  exact (if_neg hbackslash).trans ((if_neg hsingle).trans (if_neg hdouble))

section
variable {text : List Char}

theorem Bare.removeQuotes_append (h : Bare text) (rest : List Char) :
    removeQuotes .unquoted (text ++ rest) =
      removeQuotes .unquoted text ++ removeQuotes .unquoted rest := by
  induction h with
  | nil => rw [List.nil_append, removeQuotes, List.nil_append]
  | plain hc h ih =>
    rw [List.cons_append, removeQuotes_plain hc, removeQuotes_plain hc, ih, List.cons_append]
  | escape c h ih =>
    rw [List.cons_append, List.cons_append, removeQuotes_escape, removeQuotes_escape, ih]
    split
    · rfl
    · rw [List.cons_append]

theorem Bare.removeQuotes_eq_self (h : Bare text) (hfree : '\\' ∉ text) :
    removeQuotes .unquoted text = text := by
  induction h with
  | nil => rw [removeQuotes]
  | plain hc h ih => rw [removeQuotes_plain hc, ih fun hm => hfree (List.mem_cons_of_mem _ hm)]
  | escape c h ih => exact absurd List.mem_cons_self hfree

theorem Bare.length_le (h : Bare text) : (removeQuotes .unquoted text).length ≤ text.length := by
  induction h with
  | nil => exact Nat.le_refl _
  | plain hc h ih =>
    rw [removeQuotes_plain hc, List.length_cons, List.length_cons]
    omega
  | escape c h ih =>
    rw [removeQuotes_escape, List.length_cons, List.length_cons]
    split
    · omega
    · rw [List.length_cons]
      omega

theorem Bare.length_lt (h : Bare text) (hmem : '\\' ∈ text) :
    (removeQuotes .unquoted text).length < text.length := by
  induction h with
  | nil => cases hmem
  | @plain c text hc h ih =>
    have hne : '\\' ≠ c := by
      rintro rfl
      exact hc (by decide)
    have hlt := ih ((List.mem_cons.1 hmem).resolve_left hne)
    rw [removeQuotes_plain hc, List.length_cons, List.length_cons]
    omega
  | escape c h ih =>
    have hle := h.length_le
    rw [removeQuotes_escape, List.length_cons, List.length_cons]
    split
    · omega
    · rw [List.length_cons]
      omega

end

/-! ## Text in double quotes -/

/-- Text in double quotes: characters that end nothing and expand nothing, and escaped ones. -/
inductive DoubleQuoted : List Char → Prop where
  | nil : DoubleQuoted []
  | plain {c : Char} {text : List Char} (hc : c ∉ ['"', '\\', '$', '`']) (h : DoubleQuoted text) :
    DoubleQuoted (c :: text)
  | escape (c : Char) {text : List Char} (h : DoubleQuoted text) : DoubleQuoted ('\\' :: c :: text)

/-- No backslash stands before a character that it escapes in double quotes. -/
def EscapeFree (text : List Char) : Prop := ∀ c ∈ escapable, ¬ ['\\', c] <:+: text

instance (text : List Char) : Decidable (EscapeFree text) := List.decidableBAll _ _

theorem escapeFree_cons {a : Char} {text : List Char} :
    EscapeFree (a :: text) ↔ (a = '\\' → ∀ c ∈ text.head?, c ∉ escapable) ∧ EscapeFree text := by
  have hpre : ∀ c, ['\\', c] <+: a :: text ↔ a = '\\' ∧ text.head? = some c := by
    intro c
    rw [List.cons_prefix_cons]
    cases text with
    | nil => simp
    | cons d text => simp [List.cons_prefix_cons, eq_comm]
  simp only [EscapeFree, List.infix_cons_iff, hpre, not_or]
  constructor
  · intro h
    exact ⟨fun ha c hc hmem => (h c hmem).1 ⟨ha, hc⟩, fun c hmem => (h c hmem).2⟩
  · intro h c hmem
    exact ⟨fun hc => h.1 hc.1 c hc.2 hmem, h.2 c hmem⟩

theorem removeQuotes_quotedEscape (c : Char) (text : List Char) :
    removeQuotes .doubleQuoted ('\\' :: c :: text) =
      if c = '\n' then removeQuotes .doubleQuoted text
      else if c ∈ escapable then c :: removeQuotes .doubleQuoted text
      else '\\' :: c :: removeQuotes .doubleQuoted text := by
  rw [removeQuotes.eq_def]
  exact if_pos rfl

theorem removeQuotes_quotedPlain {c : Char} (hc : c ∉ ['"', '\\', '$', '`']) (text : List Char) :
    removeQuotes .doubleQuoted (c :: text) = c :: removeQuotes .doubleQuoted text := by
  simp only [List.mem_cons, not_or] at hc
  obtain ⟨hdouble, hbackslash, -⟩ := hc
  rw [removeQuotes.eq_def]
  exact (if_neg hbackslash).trans (if_neg hdouble)

section
variable {text : List Char}

theorem DoubleQuoted.removeQuotes_append (h : DoubleQuoted text) (rest : List Char) :
    removeQuotes .doubleQuoted (text ++ '"' :: rest) =
      removeQuotes .doubleQuoted text ++ removeQuotes .unquoted rest := by
  induction h with
  | nil =>
    show removeQuotes .doubleQuoted ('"' :: rest) = removeQuotes .unquoted rest
    rw [removeQuotes.eq_def]
    exact (if_neg (by decide)).trans (if_pos rfl)
  | plain hc h ih =>
    rw [List.cons_append, removeQuotes_quotedPlain hc, removeQuotes_quotedPlain hc, ih,
      List.cons_append]
  | escape c h ih =>
    rw [List.cons_append, List.cons_append, removeQuotes_quotedEscape, removeQuotes_quotedEscape, ih]
    split
    · rfl
    · split
      · rw [List.cons_append]
      · rw [List.cons_append, List.cons_append]

theorem DoubleQuoted.removeQuotes_eq_self (h : DoubleQuoted text) (hfree : EscapeFree text) :
    removeQuotes .doubleQuoted text = text := by
  induction h with
  | nil => rw [removeQuotes]
  | plain hc h ih => rw [removeQuotes_quotedPlain hc, ih (escapeFree_cons.1 hfree).2]
  | escape c h ih =>
    obtain ⟨hhead, hrest⟩ := escapeFree_cons.1 hfree
    have hc : c ∉ escapable := hhead rfl c rfl
    have hne : c ≠ '\n' := by
      rintro rfl
      exact hc (by decide)
    rw [removeQuotes_quotedEscape, if_neg hne, if_neg hc, ih (escapeFree_cons.1 hrest).2]

theorem DoubleQuoted.length_le (h : DoubleQuoted text) :
    (removeQuotes .doubleQuoted text).length ≤ text.length := by
  induction h with
  | nil => exact Nat.le_refl _
  | plain hc h ih =>
    rw [removeQuotes_quotedPlain hc, List.length_cons, List.length_cons]
    omega
  | escape c h ih =>
    rw [removeQuotes_quotedEscape, List.length_cons, List.length_cons]
    split
    · omega
    · split
      · rw [List.length_cons]
        omega
      · rw [List.length_cons, List.length_cons]
        omega

theorem DoubleQuoted.length_lt (h : DoubleQuoted text) (hescape : ¬ EscapeFree text) :
    (removeQuotes .doubleQuoted text).length < text.length := by
  induction h with
  | nil => exact absurd (by decide) hescape
  | @plain c text hc h ih =>
    have hne : c ≠ '\\' := by
      rintro rfl
      exact hc (by decide)
    have hlt := ih fun hfree => hescape (escapeFree_cons.2 ⟨fun heq => absurd heq hne, hfree⟩)
    rw [removeQuotes_quotedPlain hc, List.length_cons, List.length_cons]
    omega
  | @escape c text h ih =>
    have hle := h.length_le
    rw [removeQuotes_quotedEscape, List.length_cons, List.length_cons]
    split
    · omega
    · split
      · rw [List.length_cons]
        omega
      · next hc =>
        -- the backslash stays, so one is removed further on
        have hne : c ≠ '\\' := by
          rintro rfl
          exact hc (by decide)
        have hlt := ih fun hfree => hescape <| escapeFree_cons.2
          ⟨fun _ d hd => Option.some.inj hd ▸ hc,
            escapeFree_cons.2 ⟨fun heq => absurd heq hne, hfree⟩⟩
        rw [List.length_cons, List.length_cons]
        omega

end

theorem removeQuotes_singleQuoted {text : List Char} (h : '\'' ∉ text) (rest : List Char) :
    removeQuotes .singleQuoted (text ++ '\'' :: rest) = text ++ removeQuotes .unquoted rest := by
  induction text with
  | nil => rw [List.nil_append, removeQuotes, if_pos rfl, List.nil_append]
  | cons c text ih =>
    have hc : c ≠ '\'' := by
      rintro rfl
      exact h List.mem_cons_self
    rw [List.cons_append, removeQuotes, if_neg hc, ih fun hm => h (List.mem_cons_of_mem _ hm),
      List.cons_append]

/-! ## Words -/

/-- A part of a word. -/
inductive Part where
  | bare (text : List Char)
  | doubleQuoted (text : List Char)
  | singleQuoted (text : List Char)

namespace Part

def WellFormed : Part → Prop
  | bare text => Bare text
  | doubleQuoted text => DoubleQuoted text
  | singleQuoted text => '\'' ∉ text

/-- The part as it is written. -/
def source : Part → List Char
  | bare text => text
  | doubleQuoted text => '"' :: (text ++ ['"'])
  | singleQuoted text => '\'' :: (text ++ ['\''])

/-- The part less its quotes. -/
def stripped : Part → List Char
  | bare text => text
  | doubleQuoted text => text
  | singleQuoted text => text

/-- What bash makes of the part. -/
def value : Part → List Char
  | bare text => removeQuotes .unquoted text
  | doubleQuoted text => removeQuotes .doubleQuoted text
  | singleQuoted text => text

/-- No backslash of the part is removed. -/
def Plain : Part → Prop
  | bare text => '\\' ∉ text
  | doubleQuoted text => EscapeFree text
  | singleQuoted _ => True

variable {part : Part}

theorem removeQuotes_source (h : part.WellFormed) (rest : List Char) :
    removeQuotes .unquoted (part.source ++ rest) = part.value ++ removeQuotes .unquoted rest := by
  cases part with
  | bare text => exact Bare.removeQuotes_append h rest
  | doubleQuoted text =>
    have hopen : removeQuotes .unquoted ('"' :: (text ++ '"' :: rest)) =
        removeQuotes .doubleQuoted (text ++ '"' :: rest) := by
      rw [removeQuotes.eq_def]
      exact (if_neg (by decide)).trans ((if_neg (by decide)).trans (if_pos rfl))
    rw [source, List.cons_append, List.append_assoc, List.singleton_append, hopen]
    exact DoubleQuoted.removeQuotes_append h rest
  | singleQuoted text =>
    have hopen : removeQuotes .unquoted ('\'' :: (text ++ '\'' :: rest)) =
        removeQuotes .singleQuoted (text ++ '\'' :: rest) := by
      rw [removeQuotes.eq_def]
      exact (if_neg (by decide)).trans (if_pos rfl)
    rw [source, List.cons_append, List.append_assoc, List.singleton_append, hopen]
    exact removeQuotes_singleQuoted h rest

theorem value_eq_stripped (h : part.WellFormed) (hplain : part.Plain) :
    part.value = part.stripped := by
  cases part with
  | bare text => exact Bare.removeQuotes_eq_self h hplain
  | doubleQuoted text => exact DoubleQuoted.removeQuotes_eq_self h hplain
  | singleQuoted text => rfl

theorem length_value_le (h : part.WellFormed) : part.value.length ≤ part.stripped.length := by
  cases part with
  | bare text => exact Bare.length_le h
  | doubleQuoted text => exact DoubleQuoted.length_le h
  | singleQuoted text => exact Nat.le_refl _

theorem length_value_lt (h : part.WellFormed) (hplain : ¬ part.Plain) :
    part.value.length < part.stripped.length := by
  cases part with
  | bare text => exact Bare.length_lt h (not_not.1 hplain)
  | doubleQuoted text => exact DoubleQuoted.length_lt h hplain
  | singleQuoted text => exact absurd trivial hplain

end Part

section
variable {parts : List Part}

/-- Bash makes of a word what it makes of the parts. -/
theorem removeQuotes_parts (h : ∀ part ∈ parts, part.WellFormed) :
    removeQuotes .unquoted (parts.flatMap Part.source) = parts.flatMap Part.value := by
  induction parts with
  | nil => rw [List.flatMap_nil, removeQuotes, List.flatMap_nil]
  | cons part parts ih =>
    rw [List.flatMap_cons, List.flatMap_cons,
      Part.removeQuotes_source (h part List.mem_cons_self),
      ih fun p hp => h p (List.mem_cons_of_mem _ hp)]

theorem length_values_le (h : ∀ part ∈ parts, part.WellFormed) :
    (parts.flatMap Part.value).length ≤ (parts.flatMap Part.stripped).length := by
  induction parts with
  | nil => exact Nat.le_refl _
  | cons part parts ih =>
    have hpart := Part.length_value_le (h part List.mem_cons_self)
    have hparts := ih fun p hp => h p (List.mem_cons_of_mem _ hp)
    rw [List.flatMap_cons, List.flatMap_cons, List.length_append, List.length_append]
    omega

/-- The word less its quotes is the one that bash makes when no backslash is removed, and only
then. -/
theorem stripped_eq_value (h : ∀ part ∈ parts, part.WellFormed) :
    parts.flatMap Part.stripped = parts.flatMap Part.value ↔ ∀ part ∈ parts, part.Plain := by
  induction parts with
  | nil => simp
  | cons part parts ih =>
    have hpart := h part List.mem_cons_self
    have hparts : ∀ p ∈ parts, p.WellFormed := fun p hp => h p (List.mem_cons_of_mem _ hp)
    have hle := Part.length_value_le hpart
    have hles := length_values_le hparts
    rw [List.flatMap_cons, List.flatMap_cons, List.forall_mem_cons, ← ih hparts]
    constructor
    · intro heq
      have hlength := congrArg List.length heq
      rw [List.length_append, List.length_append] at hlength
      obtain ⟨-, hrest⟩ := List.append_inj heq (by omega)
      refine ⟨?_, hrest⟩
      by_contra hplain
      have hlt := Part.length_value_lt hpart hplain
      omega
    · rintro ⟨hplain, hrest⟩
      rw [Part.value_eq_stripped hpart hplain, hrest]

end

end Mcodex.Shell
