import Mathlib.Data.List.DropRight

/-!
# Text as Rust reads it

A text is the list of its characters. `str::trim` and its relatives drop characters with the Unicode
property `White_Space`, which are more than those that `String.trim` drops; `str::lines` ends lines
at `\n` and `\r\n` and gives no line for the end of the last one.
-/

namespace Mcodex.Text

/-- Texts are compared character by character. -/
instance lawfulBEqText : LawfulBEq (List Char) := inferInstance

/-- `char::is_whitespace`. -/
def isWhitespace (c : Char) : Bool :=
  let n := c.toNat
  (9 ≤ n && n ≤ 13) || n = 0x20 || n = 0x85 || n = 0xA0 || n = 0x1680 ||
    (0x2000 ≤ n && n ≤ 0x200A) || n = 0x2028 || n = 0x2029 || n = 0x202F || n = 0x205F || n = 0x3000

/-- `str::trim_start`. -/
def trimStart (s : List Char) : List Char := s.dropWhile isWhitespace

/-- `str::trim_end`. -/
def trimEnd (s : List Char) : List Char := s.rdropWhile isWhitespace

/-- `str::trim`. -/
def trim (s : List Char) : List Char := trimEnd (trimStart s)

/-- `str::strip_prefix`. -/
def stripPrefix (pre s : List Char) : Option (List Char) :=
  if pre.isPrefixOf s then some (s.drop pre.length) else none

/-- A line less the carriage return of its line break. -/
def stripCr (line : List Char) : List Char :=
  if line.getLast? = some '\r' then line.dropLast else line

/-- `str::lines`. -/
def lines (s : List Char) : List (List Char) :=
  let pieces := s.splitOn '\n'
  pieces.dropLast.map stripCr ++ pieces.getLast?.toList.filter (· ≠ [])

/-- `str::to_ascii_lowercase`. -/
def toAsciiLowercase (s : List Char) : List Char := s.map Char.toLower

/-- `char::is_ascii_digit`. -/
def isAsciiDigit (c : Char) : Bool := '0' ≤ c && c ≤ '9'

theorem stripPrefix_append (pre s : List Char) : stripPrefix pre (pre ++ s) = some s := by
  rw [stripPrefix, if_pos (List.isPrefixOf_iff_prefix.2 (List.prefix_append pre s)),
    List.drop_left]

/-- Two markers that differ early are no prefixes of one text. -/
theorem stripPrefix_eq_none {pre m : List Char} (k : Nat) (hpre : k ≤ pre.length)
    (hm : k ≤ m.length) (h : pre.take k ≠ m.take k) (s : List Char) :
    stripPrefix pre (m ++ s) = none := by
  refine if_neg fun hstart => h ?_
  obtain ⟨r, hr⟩ := List.isPrefixOf_iff_prefix.1 hstart
  have htake : (pre ++ r).take k = pre.take k := List.take_append_of_le_length hpre
  rw [← htake, hr, List.take_append_of_le_length hm]

/-! ## Trimmed texts -/

section
variable {s : List Char} {c : Char}

theorem trimStart_eq_self (h : ∀ c ∈ s.head?, isWhitespace c = false) : trimStart s = s := by
  cases s with
  | nil => rfl
  | cons c s =>
    have hc : isWhitespace c = false := h c rfl
    rw [trimStart, List.dropWhile_cons, hc]
    rfl

theorem trimEnd_eq_self (h : ∀ c ∈ s.getLast?, isWhitespace c = false) : trimEnd s = s := by
  rw [trimEnd, List.rdropWhile_eq_self_iff]
  intro hne
  rw [h _ (List.getLast?_eq_getLast_of_ne_nil hne)]
  exact Bool.false_ne_true

theorem trim_eq_self (hhead : ∀ c ∈ s.head?, isWhitespace c = false)
    (hlast : ∀ c ∈ s.getLast?, isWhitespace c = false) : trim s = s := by
  rw [trim, trimStart_eq_self hhead, trimEnd_eq_self hlast]

theorem trim_eq_self_of_ends {last : Char} (hhead : s.head? = some c)
    (hc : isWhitespace c = false) (hlast : s.getLast? = some last)
    (hend : isWhitespace last = false) : trim s = s := by
  refine trim_eq_self ?_ ?_
  · rw [hhead]
    rintro _ ⟨⟩
    exact hc
  · rw [hlast]
    rintro _ ⟨⟩
    exact hend

/-- A text that begins with no whitespace is not blank. -/
theorem trim_ne_nil (h : s.head? = some c) (hc : isWhitespace c = false) : trim s ≠ [] := by
  cases s with
  | nil => cases h
  | cons x s =>
    obtain rfl := Option.some.inj h
    rw [trim, trimStart_eq_self (by simpa using hc), trimEnd, Ne, List.rdropWhile_eq_nil_iff]
    intro hall
    exact absurd (hall x List.mem_cons_self) (by simp [hc])

theorem head_trimStart (h : c ∈ (trimStart s).head?) : isWhitespace c = false := by
  have hdrop := List.head?_dropWhile_not isWhitespace s
  rw [← trimStart, h] at hdrop
  exact hdrop

theorem getLast_trimEnd (h : c ∈ (trimEnd s).getLast?) : isWhitespace c = false := by
  have hne : s.rdropWhile isWhitespace ≠ [] := by
    rintro hnil
    rw [trimEnd, hnil] at h
    cases h
  have hlast := List.rdropWhile_last_not isWhitespace s hne
  rw [trimEnd, List.getLast?_eq_getLast_of_ne_nil hne] at h
  rw [← Option.some.inj h]
  exact Bool.not_eq_true _ ▸ hlast

theorem getLast_trim (h : c ∈ (trim s).getLast?) : isWhitespace c = false := getLast_trimEnd h

theorem trimEnd_append (s r : List Char) :
    trimEnd (s ++ r) = if trimEnd r = [] then trimEnd s else s ++ trimEnd r := by
  simp only [trimEnd, List.rdropWhile, List.reverse_append, List.dropWhile_append,
    List.isEmpty_iff, List.reverse_eq_nil_iff]
  split
  · rfl
  · rw [List.reverse_append, List.reverse_reverse]

/-- A text that goes on after a trimmed one is trimmed in front in the same way. -/
theorem trim_append (r : List Char) (h : trimStart s ≠ []) :
    trim (s ++ r) = trimEnd (trimStart s ++ r) := by
  rw [trim, trimStart, List.dropWhile_append, if_neg (by rwa [List.isEmpty_iff])]
  rfl

theorem trimEnd_prefix_append (s r : List Char) : trimEnd s <+: trimEnd (s ++ r) := by
  rw [trimEnd_append]
  split
  · exact List.prefix_rfl
  · exact (List.rdropWhile_prefix _ _).trans (List.prefix_append _ _)

theorem trim_isPrefix {l : List Char} (h : s <+: l) (hne : trim s ≠ []) : trim s <+: trim l := by
  obtain ⟨r, rfl⟩ := h
  have hstart : trimStart s ≠ [] := by
    intro hnil
    rw [trim, hnil] at hne
    exact hne rfl
  rw [trim_append r hstart]
  exact trimEnd_prefix_append _ r

theorem trimStart_suffix (s : List Char) : trimStart s <:+ s := List.dropWhile_suffix _

theorem trimEnd_prefixOf (s : List Char) : trimEnd s <+: s := List.rdropWhile_prefix _ _

theorem length_trim_le (s : List Char) : (trim s).length ≤ s.length :=
  (trimEnd_prefixOf _).length_le.trans (trimStart_suffix s).length_le

/-- A text that is not shorter once it is trimmed is trimmed. -/
theorem trim_eq_self_of_length (h : s.length ≤ (trim s).length) : trim s = s := by
  have hstart : trimStart s = s :=
    (trimStart_suffix s).eq_of_length_le (h.trans (trimEnd_prefixOf _).length_le)
  have hend : trimEnd (trimStart s) = trimStart s :=
    (trimEnd_prefixOf _).eq_of_length_le ((trimStart_suffix s).length_le.trans h)
  rw [trim, hend, hstart]

theorem trim_trim (s : List Char) : trim (trim s) = trim s := by
  refine trim_eq_self (fun c hc => ?_) fun c hc => getLast_trim hc
  have hhead : (trim s).head? = (trimStart s).head? := by
    obtain ⟨rest, hrest⟩ := trimEnd_prefixOf (trimStart s)
    rw [← hrest, trim, List.head?_append]
    cases htrim : trimEnd (trimStart s) with
    | nil =>
      rw [trim, htrim] at hc
      cases hc
    | cons => rfl
  rw [hhead] at hc
  exact head_trimStart hc

end

/-! ## Lines -/

/-- A line as a text that ends lines with `\n` has it. -/
def OneLine (line : List Char) : Prop := '\n' ∉ line ∧ line.getLast? ≠ some '\r'

instance (line : List Char) : Decidable (OneLine line) := inferInstanceAs (Decidable (_ ∧ _))

theorem stripCr_eq_self {line : List Char} (h : line.getLast? ≠ some '\r') : stripCr line = line :=
  if_neg h

theorem OneLine.append {pre line : List Char} (hpre : OneLine pre) (hline : OneLine line) :
    OneLine (pre ++ line) := by
  refine ⟨by simp [hpre.1, hline.1], ?_⟩
  have hlast := hline.2
  rw [List.getLast?_append]
  cases hline : line.getLast? with
  | none => exact hpre.2
  | some c =>
    rw [hline] at hlast
    exact hlast

/-- Lines, each ended by a line break. -/
def contentsOf (ls : List (List Char)) : List Char := ls.flatMap (· ++ ['\n'])

theorem contentsOf_cons (line : List Char) (ls : List (List Char)) :
    contentsOf (line :: ls) = line ++ '\n' :: contentsOf ls := by
  simp [contentsOf]

/-- The pieces of a text of lines, and what comes after the last line break. -/
theorem splitOn_contentsOf {ls : List (List Char)} (h : ∀ line ∈ ls, OneLine line)
    {last : List Char} (hlast : '\n' ∉ last) :
    (contentsOf ls ++ last).splitOn '\n' = ls ++ [last] := by
  induction ls with
  | nil => exact List.splitOn_eq_singleton hlast
  | cons line ls ih =>
    rw [contentsOf_cons, List.append_assoc, List.cons_append,
      List.splitOn_append_cons_self_of_not_mem (h line List.mem_cons_self).1,
      ih fun l hl => h l (List.mem_cons_of_mem _ hl), List.cons_append]

/-- Lines are read back from their text. -/
theorem lines_contentsOf {ls : List (List Char)} (h : ∀ line ∈ ls, OneLine line)
    {last : List Char} (hlast : '\n' ∉ last) (hne : last ≠ []) :
    lines (contentsOf ls ++ last) = ls ++ [last] := by
  have hstrip : ls.map stripCr = ls := by
    refine (List.map_congr_left fun l hl => ?_).trans (List.map_id ls)
    exact stripCr_eq_self (h l hl).2
  rw [lines, splitOn_contentsOf h hlast]
  simp [hstrip, hne]

/-- A first line is the start of its text. -/
theorem firstLine_isPrefix (text : List Char) : (lines text).head?.getD [] <+: text := by
  have hstrip : ∀ line, stripCr line <+: line := fun line => by
    unfold stripCr
    split
    · exact List.dropLast_prefix line
    · exact List.prefix_refl line
  have htext : ['\n'].intercalate (text.splitOn '\n') = text := List.intercalate_splitOn '\n'
  unfold lines
  cases hpieces : text.splitOn '\n' with
  | nil => exact List.nil_prefix
  | cons piece pieces =>
    rw [hpieces] at htext
    cases pieces with
    | nil =>
      rw [List.intercalate_singleton] at htext
      rw [htext]
      cases text with
      | nil => exact List.nil_prefix
      | cons c text => exact List.prefix_refl _
    | cons next pieces =>
      rw [List.intercalate_cons_cons, List.append_assoc] at htext
      exact (hstrip piece).trans ⟨_, htext⟩

/-- Joining lines with line breaks leaves out the last one. -/
theorem intercalate_append_singleton (ls : List (List Char)) (last : List Char) :
    ['\n'].intercalate (ls ++ [last]) = contentsOf ls ++ last := by
  induction ls with
  | nil => simp [contentsOf, List.intercalate]
  | cons line ls ih =>
    have hjoin : contentsOf (line :: ls) ++ last = line ++ '\n' :: (contentsOf ls ++ last) := by
      rw [contentsOf_cons, List.append_assoc, List.cons_append]
    rw [hjoin, ← ih]
    cases ls with
    | nil => simp [List.intercalate, List.intersperse]
    | cons line' ls => simp [List.intercalate, List.intersperse]

/-- The pieces of a text that goes on: all but the last stay, and the last goes on. -/
theorem splitOn_append (c : Char) (s r : List Char) :
    ∃ front p q back, s.splitOn c = front ++ [p] ∧ (s ++ r).splitOn c = front ++ (p ++ q) :: back ∧
      (front = [] ∧ p = s ∨ front ≠ [] ∧ ∃ pre, s = pre ++ c :: p) := by
  induction s with
  | nil =>
    obtain ⟨q, back, hr⟩ := List.exists_cons_of_ne_nil (List.splitOn_ne_nil c r)
    exact ⟨[], [], q, back, rfl, hr, .inl ⟨rfl, rfl⟩⟩
  | cons x s ih =>
    obtain ⟨front, p, q, back, hs, hsr, hp⟩ := ih
    rw [List.cons_append, List.splitOn_cons_eq_if_modifyHead, List.splitOn_cons_eq_if_modifyHead,
      hs, hsr]
    split
    · next hx =>
      refine ⟨[] :: front, p, q, back, rfl, rfl, .inr ⟨List.cons_ne_nil _ _, ?_⟩⟩
      have hxc : x = c := by simpa using hx
      rcases hp with ⟨-, rfl⟩ | ⟨-, pre, rfl⟩
      · exact ⟨[], by rw [hxc]; rfl⟩
      · exact ⟨x :: pre, rfl⟩
    · rcases hp with ⟨rfl, rfl⟩ | ⟨hfront, pre, rfl⟩
      · exact ⟨[], x :: p, q, back, rfl, rfl, .inl ⟨rfl, rfl⟩⟩
      · obtain ⟨a, front, rfl⟩ := List.exists_cons_of_ne_nil hfront
        exact ⟨(x :: a) :: front, p, q, back, rfl, rfl,
          .inr ⟨List.cons_ne_nil _ _, x :: pre, rfl⟩⟩

/-- The lines of a trimmed text and of a text that begins with it: all but the last are the same,
and the last goes on. -/
theorem lines_isPrefix {s l : List Char} (h : s <+: l) (hne : s ≠ [])
    (hlast : ∀ c ∈ s.getLast?, isWhitespace c = false) :
    ∃ front p q back, lines s = front ++ [p] ∧ lines l = front ++ q :: back ∧ p <+: q ∧ p ≠ [] ∧
      ∀ c ∈ p.getLast?, isWhitespace c = false := by
  obtain ⟨r, rfl⟩ := h
  obtain ⟨front, p, q, back, hs, hsr, hp⟩ := splitOn_append '\n' s r
  have hpne : p ≠ [] := by
    rintro rfl
    rcases hp with ⟨-, rfl⟩ | ⟨-, pre, rfl⟩
    · exact hne rfl
    · have hnewline : isWhitespace '\n' = false := hlast '\n' (by simp)
      exact absurd hnewline (by decide)
  have hplast : ∀ c ∈ p.getLast?, isWhitespace c = false := by
    rcases hp with ⟨-, rfl⟩ | ⟨-, pre, rfl⟩
    · exact hlast
    · intro c hc
      refine hlast c ?_
      rw [List.getLast?_append_cons, List.getLast?_cons_of_ne_nil hpne]
      exact hc
  have hcr : stripCr p = p := by
    refine stripCr_eq_self fun hcr => ?_
    exact absurd (hplast '\r' hcr) (by decide)
  have hpq : p <+: stripCr (p ++ q) := by
    cases q using List.reverseRecOn with
    | nil =>
      have hself : stripCr (p ++ []) = p := by rw [List.append_nil, hcr]
      exact hself.symm ▸ List.prefix_refl p
    | append_singleton q c =>
      unfold stripCr
      split
      · rw [← List.append_assoc, List.dropLast_concat]
        exact List.prefix_append _ _
      · exact List.prefix_append _ _
  have hs : lines s = front.map stripCr ++ [p] := by
    rw [lines, hs]
    simp [hpne]
  cases back with
  | nil =>
    refine ⟨_, p, p ++ q, [], hs, ?_, List.prefix_append _ _, hpne, hplast⟩
    rw [lines, hsr]
    simp [hpne]
  | cons b back =>
    have hlast : (front ++ (p ++ q) :: b :: back).getLast? = (b :: back).getLast? := by
      rw [List.getLast?_append_cons, List.getLast?_cons_cons]
    refine ⟨_, p, stripCr (p ++ q), (b :: back).dropLast.map stripCr ++
      (b :: back).getLast?.toList.filter (· ≠ []), hs, ?_, hpq, hpne, hplast⟩
    rw [lines, hsr, hlast, List.dropLast_append_of_ne_nil (List.cons_ne_nil _ _),
      List.dropLast_cons_of_ne_nil (List.cons_ne_nil _ _), List.map_append, List.map_cons,
      List.append_assoc, List.cons_append]

end Mcodex.Text
