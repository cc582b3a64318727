import Mathlib.Data.List.Flatten
import Mathlib.Data.List.Infix

/-!
# UTF-8

`str::from_utf8` reads bytes character by character. Where it fails it says how many bytes before
are valid, and whether what follows is wrong or only cut off. On the bytes of a text it gives the
text (`fromUtf8_encode`), and where the bytes of a text are cut within a character it says that they
are cut off there (`fromUtf8_encode_append`). A text's bytes are those that `String.utf8EncodeChar`
gives for its characters.
-/

namespace Mcodex.Utf8

/-- `utf8_char_width`: the length of the encoding that begins with a byte, which is zero where none
does. -/
def charWidth (first : UInt8) : Nat :=
  let b := first.toNat
  if b < 0x80 then 1
  else if b < 0xC2 then 0
  else if b < 0xE0 then 2
  else if b < 0xF0 then 3
  else if b < 0xF5 then 4
  else 0

/-- The bits of the character that a first byte holds. -/
def leadBits (first : UInt8) : Nat :=
  let b := first.toNat
  if b < 0x80 then b
  else if b < 0xE0 then b - 0xC0
  else if b < 0xF0 then b - 0xE0
  else b - 0xF0

/-- The least and the greatest byte that may follow a first one. -/
def secondRange (first : UInt8) : Nat × Nat :=
  let b := first.toNat
  if b = 0xE0 then (0xA0, 0xBF)
  else if b = 0xED then (0x80, 0x9F)
  else if b = 0xF0 then (0x90, 0xBF)
  else if b = 0xF4 then (0x80, 0x8F)
  else (0x80, 0xBF)

/-- The continuation bytes of a character of which `read` bytes are read, the next of them in a
range. The error is the length of what is wrong, or none where the bytes end. -/
def readTail (value lo hi read : Nat) :
    Nat → List UInt8 → Except (Option Nat) (Nat × List UInt8)
  | 0, rest => .ok (value, rest)
  | _ + 1, [] => .error none
  | count + 1, b :: rest =>
    if lo ≤ b.toNat ∧ b.toNat ≤ hi then
      readTail (value * 64 + (b.toNat - 0x80)) 0x80 0xBF (read + 1) count rest
    else .error (some read)

/-- The first character of the bytes. -/
def decodeChar (first : UInt8) (rest : List UInt8) : Except (Option Nat) (Char × List UInt8) :=
  match charWidth first with
  | 0 => .error (some 1)
  | count + 1 =>
    (readTail (leadBits first) (secondRange first).1 (secondRange first).2 1 count rest).map
      fun (value, rest) => (Char.ofNat value, rest)

theorem readTail_length_le {value lo hi read count value' : Nat} {bytes rest : List UInt8}
    (h : readTail value lo hi read count bytes = .ok (value', rest)) :
    rest.length ≤ bytes.length := by
  induction count generalizing value lo hi read bytes with
  | zero =>
    cases h
    exact Nat.le_refl _
  | succ count ih =>
    cases bytes with
    | nil => cases h
    | cons b bytes =>
      rw [readTail] at h
      split at h
      · exact Nat.le_succ_of_le (ih h)
      · cases h

theorem decodeChar_length_le {first : UInt8} {bytes rest : List UInt8} {c : Char}
    (h : decodeChar first bytes = .ok (c, rest)) : rest.length ≤ bytes.length := by
  rw [decodeChar] at h
  split at h
  · cases h
  · cases hread :
      readTail (leadBits first) (secondRange first).1 (secondRange first).2 1 _ bytes with
    | error errorLen =>
      rw [hread] at h
      cases h
    | ok result =>
      rw [hread] at h
      cases h
      exact readTail_length_le hread

/-- `Utf8Error`. -/
structure Utf8Error where
  validUpTo : Nat
  errorLen : Option Nat
  deriving DecidableEq, Repr

/-- The text of the bytes from an offset on. -/
def fromUtf8From (offset : Nat) : List UInt8 → Except Utf8Error (List Char)
  | [] => .ok []
  | first :: bytes =>
    match _hchar : decodeChar first bytes with
    | .error errorLen => .error ⟨offset, errorLen⟩
    | .ok (c, rest) => (fromUtf8From (offset + charWidth first) rest).map (c :: ·)
termination_by bytes => bytes.length
decreasing_by exact Nat.lt_succ_of_le (decodeChar_length_le _hchar)

/-- `str::from_utf8`. -/
def fromUtf8 (bytes : List UInt8) : Except Utf8Error (List Char) := fromUtf8From 0 bytes

/-- `str::as_bytes`. -/
def encode (text : List Char) : List UInt8 := text.flatMap String.utf8EncodeChar

section
variable {c : Char} {first b : UInt8} {bytes pre rest : List UInt8} {text : List Char}
  {value lo hi read offset : Nat}

/-! ## The bytes of a character -/

/-- Continuation bytes, the first of them in a range. -/
def Continues (lo hi : Nat) : List UInt8 → Prop
  | [] => True
  | b :: rest => (lo ≤ b.toNat ∧ b.toNat ≤ hi) ∧ Continues 0x80 0xBF rest

/-- The value of the continuation bytes after that of what is before. -/
def assemble (value : Nat) (bytes : List UInt8) : Nat :=
  bytes.foldl (fun value b => value * 64 + (b.toNat - 0x80)) value

theorem readTail_append (h : Continues lo hi bytes) :
    readTail value lo hi read bytes.length (bytes ++ rest) = .ok (assemble value bytes, rest) := by
  induction bytes generalizing value lo hi read with
  | nil => rfl
  | cons b bytes ih =>
    rw [List.cons_append, List.length_cons, readTail, if_pos h.1, ih h.2, assemble, assemble,
      List.foldl_cons]

theorem readTail_of_cut (h : Continues lo hi bytes) (hpre : pre <+: bytes) (hne : pre ≠ bytes) :
    readTail value lo hi read bytes.length pre = .error none := by
  induction bytes generalizing value lo hi read pre with
  | nil => exact absurd (List.prefix_nil.1 hpre) hne
  | cons b bytes ih =>
    cases pre with
    | nil => rfl
    | cons b' pre =>
      obtain ⟨rfl, hrest⟩ := List.cons_prefix_cons.1 hpre
      rw [List.length_cons, readTail, if_pos h.1]
      exact ih h.2 hrest fun heq => hne (congrArg _ heq)

theorem toNat_ofNat {n : Nat} (h : n < 256) : (UInt8.ofNat n).toNat = n :=
  UInt8.toNat_ofNat_of_lt' h

/-- What a first byte and the bytes after it say of the value they hold. -/
structure Shape (value : Nat) (first : UInt8) (bytes : List UInt8) : Prop where
  width : charWidth first = bytes.length + 1
  continues : Continues (secondRange first).1 (secondRange first).2 bytes
  value_eq : assemble (leadBits first) bytes = value

theorem shape_one (h : value < 0x80) : Shape value (UInt8.ofNat value) [] := by
  have hfirst : (UInt8.ofNat value).toNat = value := toNat_ofNat (by omega)
  constructor
  · rw [charWidth, hfirst, if_pos h]
    rfl
  · trivial
  · rw [assemble, List.foldl_nil, leadBits, hfirst, if_pos h]

theorem shape_two (hge : 0x80 ≤ value) (hlt : value < 0x800) :
    Shape value (UInt8.ofNat (value / 64 % 0x20 + 0xc0)) [UInt8.ofNat (value % 0x40 + 0x80)] := by
  have hfirst : (UInt8.ofNat (value / 64 % 0x20 + 0xc0)).toNat = value / 64 + 0xC0 := by
    rw [toNat_ofNat (by omega)]
    omega
  have hsecond : (UInt8.ofNat (value % 0x40 + 0x80)).toNat = value % 64 + 0x80 :=
    toNat_ofNat (by omega)
  constructor
  · simp only [charWidth, hfirst]
    split_ifs <;> first | rfl | omega
  · simp only [Continues, secondRange, hfirst, hsecond, and_true]
    split_ifs <;> dsimp only <;> omega
  · simp only [assemble, List.foldl_cons, List.foldl_nil, leadBits, hfirst, hsecond]
    split_ifs <;> omega

theorem shape_three (hge : 0x800 ≤ value) (hlt : value < 0x10000)
    (hsurrogate : value < 0xD800 ∨ 0xDFFF < value) :
    Shape value (UInt8.ofNat (value / 4096 % 0x10 + 0xe0))
      [UInt8.ofNat (value / 64 % 0x40 + 0x80), UInt8.ofNat (value % 0x40 + 0x80)] := by
  have hfirst : (UInt8.ofNat (value / 4096 % 0x10 + 0xe0)).toNat = value / 4096 + 0xE0 := by
    rw [toNat_ofNat (by omega)]
    omega
  have hsecond : (UInt8.ofNat (value / 64 % 0x40 + 0x80)).toNat = value / 64 % 64 + 0x80 :=
    toNat_ofNat (by omega)
  have hthird : (UInt8.ofNat (value % 0x40 + 0x80)).toNat = value % 64 + 0x80 :=
    toNat_ofNat (by omega)
  constructor
  · simp only [charWidth, hfirst]
    split_ifs <;> first | rfl | omega
  · -- the second byte leaves out what is too small, and the surrogates
    simp only [Continues, secondRange, hfirst, hsecond, hthird, and_true]
    split_ifs <;> dsimp only <;> omega
  · simp only [assemble, List.foldl_cons, List.foldl_nil, leadBits, hfirst, hsecond, hthird]
    split_ifs <;> omega

theorem shape_four (hge : 0x10000 ≤ value) (hlt : value < 0x110000) :
    Shape value (UInt8.ofNat (value / 262144 % 0x08 + 0xf0))
      [UInt8.ofNat (value / 4096 % 0x40 + 0x80), UInt8.ofNat (value / 64 % 0x40 + 0x80),
        UInt8.ofNat (value % 0x40 + 0x80)] := by
  have hfirst : (UInt8.ofNat (value / 262144 % 0x08 + 0xf0)).toNat = value / 262144 + 0xF0 := by
    rw [toNat_ofNat (by omega)]
    omega
  have hsecond : (UInt8.ofNat (value / 4096 % 0x40 + 0x80)).toNat = value / 4096 % 64 + 0x80 :=
    toNat_ofNat (by omega)
  have hthird : (UInt8.ofNat (value / 64 % 0x40 + 0x80)).toNat = value / 64 % 64 + 0x80 :=
    toNat_ofNat (by omega)
  have hfourth : (UInt8.ofNat (value % 0x40 + 0x80)).toNat = value % 64 + 0x80 :=
    toNat_ofNat (by omega)
  constructor
  · simp only [charWidth, hfirst]
    split_ifs <;> first | rfl | omega
  · -- the second byte leaves out what is too small, and what is too large
    simp only [Continues, secondRange, hfirst, hsecond, hthird, hfourth, and_true]
    split_ifs <;> dsimp only <;> omega
  · simp only [assemble, List.foldl_cons, List.foldl_nil, leadBits, hfirst, hsecond, hthird,
      hfourth]
    split_ifs <;> omega

/-- The first byte of a character says how many follow, and all of them hold its bits. -/
theorem utf8EncodeChar_shape (c : Char) :
    ∃ first bytes, String.utf8EncodeChar c = first :: bytes ∧ Shape c.toNat first bytes := by
  have hvalid : c.toNat < 0xD800 ∨ (0xDFFF < c.toNat ∧ c.toNat < 0x110000) := c.valid
  have hval : c.val.toNat = c.toNat := rfl
  unfold String.utf8EncodeChar
  dsimp only
  rw [hval]
  split
  · exact ⟨_, _, rfl, shape_one (by omega)⟩
  split
  · exact ⟨_, _, rfl, shape_two (by omega) (by omega)⟩
  split
  · exact ⟨_, _, rfl, shape_three (by omega) (by omega) (by omega)⟩
  · exact ⟨_, _, rfl, shape_four (by omega) (by omega)⟩

theorem Shape.decodeChar_append (h : Shape c.toNat first bytes) :
    decodeChar first (bytes ++ rest) = .ok (c, rest) := by
  rw [decodeChar, h.width]
  dsimp only
  rw [readTail_append h.continues, h.value_eq, Except.map, Char.ofNat_toNat]

theorem Shape.decodeChar_of_cut (h : Shape value first bytes) (hpre : pre <+: bytes)
    (hne : pre ≠ bytes) : decodeChar first pre = .error none := by
  rw [decodeChar, h.width]
  dsimp only
  rw [readTail_of_cut h.continues hpre hne, Except.map]

theorem le_secondRange (first : UInt8) : 0x80 ≤ (secondRange first).1 := by
  unfold secondRange
  dsimp only
  split_ifs <;> decide

theorem le_of_mem_continues (h : Continues lo hi bytes) (hlo : 0x80 ≤ lo) (hb : b ∈ bytes) :
    0x80 ≤ b.toNat := by
  induction bytes generalizing lo hi with
  | nil => cases hb
  | cons b' bytes ih =>
    rcases List.mem_cons.1 hb with rfl | hb
    · exact hlo.trans h.1.1
    · exact ih h.2 (Nat.le_refl _) hb

/-- An ASCII byte is the whole of its character. -/
theorem toNat_of_mem_utf8EncodeChar (h : b ∈ String.utf8EncodeChar c) (hb : b.toNat < 0x80) :
    c.toNat = b.toNat := by
  obtain ⟨first, bytes, hchar, hshape⟩ := utf8EncodeChar_shape c
  rw [hchar] at h
  rcases List.mem_cons.1 h with rfl | h
  · have hwidth := hshape.width
    rw [charWidth, if_pos hb] at hwidth
    have hnil : bytes = [] := List.eq_nil_of_length_eq_zero (Nat.succ.inj hwidth).symm
    have hvalue := hshape.value_eq
    rw [hnil, assemble, List.foldl_nil, leadBits, if_pos hb] at hvalue
    exact hvalue.symm
  · exact absurd (le_of_mem_continues hshape.continues (le_secondRange first) h) (not_le.2 hb)

/-! ## The bytes of a text -/

theorem encode_cons (c : Char) (text : List Char) :
    encode (c :: text) = String.utf8EncodeChar c ++ encode text := List.flatMap_cons

theorem encode_append (text text' : List Char) :
    encode (text ++ text') = encode text ++ encode text' := List.flatMap_append

theorem utf8EncodeChar_ne_nil (c : Char) : String.utf8EncodeChar c ≠ [] := by
  obtain ⟨first, bytes, hbytes, -⟩ := utf8EncodeChar_shape c
  rw [hbytes]
  exact List.cons_ne_nil _ _

theorem encode_eq_nil : encode text = [] ↔ text = [] := by
  cases text with
  | nil => exact iff_of_true rfl rfl
  | cons c text =>
    rw [encode_cons]
    exact iff_of_false (fun h => utf8EncodeChar_ne_nil c (List.append_eq_nil_iff.1 h).1)
      (List.cons_ne_nil _ _)

/-- The bytes are the beginning of those of the text, within its first character. -/
def Cut (bytes : List UInt8) (text : List Char) : Prop :=
  bytes = [] ∨ ∃ c text', text = c :: text' ∧ bytes <+: String.utf8EncodeChar c ∧
    bytes ≠ String.utf8EncodeChar c

/-- Where the bytes of a text are cut, they are those of a text and the beginning of a character. -/
theorem exists_cut (h : pre <+: encode text) :
    ∃ text₁ text₂ bytes, text = text₁ ++ text₂ ∧ pre = encode text₁ ++ bytes ∧ Cut bytes text₂ := by
  induction text generalizing pre with
  | nil => exact ⟨[], [], [], rfl, List.prefix_nil.1 h, .inl rfl⟩
  | cons c text ih =>
    rw [encode_cons] at h
    by_cases hwhole : String.utf8EncodeChar c <+: pre
    · obtain ⟨pre, rfl⟩ := hwhole
      obtain ⟨text₁, text₂, bytes, rfl, rfl, hcut⟩ := ih ((List.prefix_append_right_inj _).1 h)
      exact ⟨c :: text₁, text₂, bytes, rfl, by rw [encode_cons, List.append_assoc], hcut⟩
    · have hwithin : pre <+: String.utf8EncodeChar c :=
        (List.prefix_or_prefix_of_prefix h (List.prefix_append _ _)).resolve_right hwhole
      exact ⟨[], c :: text, pre, rfl, rfl,
        .inr ⟨c, text, rfl, hwithin, fun heq => hwhole (heq ▸ List.prefix_rfl)⟩⟩

theorem fromUtf8From_of_ok (h : decodeChar first bytes = .ok (c, rest)) :
    fromUtf8From offset (first :: bytes) =
      (fromUtf8From (offset + charWidth first) rest).map (c :: ·) := by
  rw [fromUtf8From]
  split
  · rename_i hchar
    rw [h] at hchar
    cases hchar
  · rename_i hchar
    rw [h] at hchar
    cases hchar
    rfl

theorem fromUtf8From_of_error {errorLen : Option Nat}
    (h : decodeChar first bytes = .error errorLen) :
    fromUtf8From offset (first :: bytes) = .error ⟨offset, errorLen⟩ := by
  rw [fromUtf8From]
  split
  · rename_i hchar
    rw [h] at hchar
    cases hchar
    rfl
  · rename_i hchar
    rw [h] at hchar
    cases hchar

/-- The characters of a text are read, and then what follows its bytes. -/
theorem fromUtf8From_append (offset : Nat) (text : List Char) (bytes : List UInt8) :
    fromUtf8From offset (encode text ++ bytes) =
      (fromUtf8From (offset + (encode text).length) bytes).map (text ++ ·) := by
  induction text generalizing offset with
  | nil =>
    rw [encode, List.flatMap_nil, List.nil_append, List.length_nil, Nat.add_zero]
    cases fromUtf8From offset bytes <;> rfl
  | cons c text ih =>
    obtain ⟨first, tail, htail, hshape⟩ := utf8EncodeChar_shape c
    have hlength : (encode (c :: text)).length = charWidth first + (encode text).length := by
      rw [encode_cons, htail, List.length_append, List.length_cons, hshape.width]
    rw [hlength, encode_cons, htail, List.cons_append, List.cons_append, List.append_assoc,
      fromUtf8From_of_ok hshape.decodeChar_append, ih, Nat.add_assoc]
    cases fromUtf8From (offset + (charWidth first + (encode text).length)) bytes <;> rfl

/-- The bytes of a text are read as the text. -/
theorem fromUtf8_encode (text : List Char) : fromUtf8 (encode text) = .ok text := by
  have h := fromUtf8From_append 0 text []
  rw [List.append_nil] at h
  rw [fromUtf8, h, fromUtf8From, Except.map, List.append_nil]

/-- Bytes that are cut within a character are cut off after the text before it. -/
theorem fromUtf8_encode_append {text' : List Char} (hcut : Cut bytes text') (hne : bytes ≠ []) :
    fromUtf8 (encode text ++ bytes) = .error ⟨(encode text).length, none⟩ := by
  obtain ⟨c, -, -, hpre, hshort⟩ := hcut.resolve_left hne
  obtain ⟨first, tail, htail, hshape⟩ := utf8EncodeChar_shape c
  obtain ⟨b, bytes, rfl⟩ := List.exists_cons_of_ne_nil hne
  rw [htail] at hpre hshort
  obtain ⟨rfl, hrest⟩ := List.cons_prefix_cons.1 hpre
  have hdecode := hshape.decodeChar_of_cut hrest fun heq => hshort (congrArg _ heq)
  rw [fromUtf8, fromUtf8From_append, fromUtf8From_of_error hdecode, Except.map, Nat.zero_add]

end

end Mcodex.Utf8
