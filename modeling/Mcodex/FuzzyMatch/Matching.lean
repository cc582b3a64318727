import Mathlib.Data.Int.Notation
import Mathlib.Data.List.Destutter
import Mathlib.Data.List.Flatten
import Mathlib.Data.List.Sort
import Mcodex.FuzzyMatch.Lowercase

/-!
# Fuzzy matching

`fuzzy_match` of `utils/fuzzy-match/src/lib.rs` looks for the characters of a lowercased needle in
the lowercased haystack, each one as early as it can, and answers with the characters of the
haystack that were hit. So it finds every subsequence (`fuzzyMatch_spec`). The haystack is
lowercased by the character and the needle as a text, and the two differ at a final capital sigma.
Exactly then a match of the expansions is missed or marked by other characters
(`fuzzyMatch_answers_iff`).
-/

namespace Mcodex.FuzzyMatch

/-- The lowercased haystack, where each character has the index of the one it comes from. -/
def CaseTables.lowered (t : CaseTables) (haystack : List Char) : List (Char × Nat) :=
  haystack.zipIdx.flatMap fun (ch, origIdx) => (t.lower ch).map (·, origIdx)

/-- A place of the lowercased haystack where a character was found. -/
structure Hit where
  lowerPos : Nat
  origIdx : Nat
  deriving DecidableEq, Repr

/-- The search for one character from position `cur` on, with what is left after it. -/
def seek (nc : Char) (cur : Nat) : List (Char × Nat) → Option (Hit × List (Char × Nat))
  | [] => none
  | (lc, origIdx) :: rest =>
    if lc = nc then some (⟨cur, origIdx⟩, rest) else seek nc (cur + 1) rest

/-- The search for the characters of the needle, one after the other. -/
def seekAll : List Char → Nat → List (Char × Nat) → Option (List Hit)
  | [], _, _ => some []
  | nc :: needle, cur, lowered =>
    (seek nc cur lowered).bind fun (hit, rest) =>
      (seekAll needle (hit.lowerPos + 1) rest).map (hit :: ·)

/-- `fuzzy_match`. -/
def fuzzyMatch (t : CaseTables) (haystack needle : List Char) : Option (List Nat × Int32) :=
  if needle.isEmpty then some ([], Int32.maxValue)
  else
    let lowered := t.lowered haystack
    let loweredNeedle := t.toLowercase needle
    (seekAll loweredNeedle 0 lowered).map fun hits =>
      let resultOrigIndices := hits.map Hit.origIdx
      let firstLowerPos :=
        match resultOrigIndices with
        | [] => 0
        | targetOrig :: _ => (lowered.findIdx? fun entry => entry.2 = targetOrig).getD 0
      let lastLowerPos := (hits.getLast?.map Hit.lowerPos).getD firstLowerPos
      let window := Int32.ofNat lastLowerPos - Int32.ofNat firstLowerPos + 1 -
        Int32.ofNat loweredNeedle.length
      let score := max window 0
      let score := if firstLowerPos = 0 then score - 100 else score
      ((resultOrigIndices.insertionSort (· ≤ ·)).destutter (· ≠ ·), score)

/-! ## What a match is -/

/-- The indices are those of the characters of the haystack whose expansions hold the characters of
the text, found in this order. -/
def CaseTables.Marks (t : CaseTables) (haystack text : List Char) (indices : List Nat) : Prop :=
  ∃ entries : List (Char × Nat), entries.Sublist (t.lowered haystack) ∧
    entries.map Prod.fst = text ∧ ∀ i, i ∈ indices ↔ i ∈ entries.map Prod.snd

/-- What a fuzzy match answers: whether the expansions of the needle are a subsequence of those of
the haystack, and then which characters of the haystack hold them. -/
structure Answers (t : CaseTables) (haystack needle : List Char)
    (answer : Option (List Nat × Int32)) : Prop where
  isSome_iff : answer.isSome ↔ (t.expand needle).Sublist (t.expand haystack)
  of_sublist : needle.Sublist haystack → answer.isSome
  increasing : ∀ indices score, answer = some (indices, score) → indices.Pairwise (· < ·)
  valid : ∀ indices score, answer = some (indices, score) → ∀ i ∈ indices, i < haystack.length
  marks : ∀ indices score, answer = some (indices, score) →
    t.Marks haystack (t.expand needle) indices

section
variable {t : CaseTables} {haystack needle text : List Char} {indices : List Nat}
  {lowered rest : List (Char × Nat)} {nc c : Char} {cur i : Nat} {hit : Hit} {hits : List Hit}

/-! ## The lowercased haystack -/

theorem map_fst_lowered : (t.lowered haystack).map Prod.fst = t.expand haystack := by
  have hpiece : ∀ entry : Char × Nat,
      ((t.lower entry.1).map (·, entry.2)).map Prod.fst = t.lower entry.1 := fun entry => by
    rw [List.map_map]
    exact List.map_id' _
  calc (t.lowered haystack).map Prod.fst
      = haystack.zipIdx.flatMap fun entry => t.lower entry.1 := by
        rw [CaseTables.lowered, List.map_flatMap]
        exact List.flatMap_congr fun entry _ => hpiece entry
    _ = (haystack.zipIdx.map Prod.fst).flatMap t.lower := by rw [List.flatMap_map]
    _ = t.expand haystack := by rw [List.zipIdx_map_fst, CaseTables.expand]

theorem mem_lowered :
    (c, i) ∈ t.lowered haystack ↔ ∃ ch, haystack[i]? = some ch ∧ c ∈ t.lower ch := by
  constructor
  · intro h
    obtain ⟨⟨ch, j⟩, hmem, hpiece⟩ := List.mem_flatMap.1 h
    obtain ⟨lc, hlc, heq⟩ := List.mem_map.1 hpiece
    cases heq
    exact ⟨ch, List.mem_zipIdx_iff_getElem?.1 hmem, hlc⟩
  · rintro ⟨ch, hch, hc⟩
    exact List.mem_flatMap.2 ⟨(ch, i), List.mem_zipIdx_iff_getElem?.2 hch, List.mem_map_of_mem hc⟩

theorem lt_length_of_mem_lowered (h : (c, i) ∈ t.lowered haystack) : i < haystack.length := by
  obtain ⟨ch, hch, -⟩ := mem_lowered.1 h
  exact (List.getElem?_eq_some_iff.1 hch).1

/-- The indices do not decrease. -/
theorem pairwise_lowered : (t.lowered haystack).Pairwise fun a b => a.2 ≤ b.2 := by
  rw [CaseTables.lowered, List.pairwise_flatMap]
  constructor
  · rintro ⟨ch, j⟩ -
    rw [List.pairwise_map]
    exact List.pairwise_of_forall fun _ _ => Nat.le_refl _
  · have hidx : haystack.zipIdx.Pairwise fun a b => a.2 < b.2 := by
      rw [← List.pairwise_map, List.zipIdx_map_snd]
      exact List.pairwise_lt_range'
    refine hidx.imp fun hlt a ha b hb => ?_
    obtain ⟨_, -, rfl⟩ := List.mem_map.1 ha
    obtain ⟨_, -, rfl⟩ := List.mem_map.1 hb
    exact Nat.le_of_lt hlt

theorem expand_sublist (h : needle.Sublist haystack) :
    (t.expand needle).Sublist (t.expand haystack) := h.flatMap t.lower

/-! ## The search -/

/-- A character that is found is the first of its kind. -/
theorem seek_eq_some (h : seek nc cur lowered = some (hit, rest)) :
    ∃ skipped, lowered = skipped ++ (nc, hit.origIdx) :: rest ∧ nc ∉ skipped.map Prod.fst := by
  induction lowered generalizing cur with
  | nil => cases h
  | cons entry lowered ih =>
    obtain ⟨lc, origIdx⟩ := entry
    rw [seek] at h
    split at h
    · rename_i heq
      subst heq
      cases h
      exact ⟨[], rfl, List.not_mem_nil⟩
    · rename_i hne
      obtain ⟨skipped, rfl, hskipped⟩ := ih h
      refine ⟨(lc, origIdx) :: skipped, rfl, ?_⟩
      rw [List.map_cons, List.mem_cons, not_or]
      exact ⟨fun heq => hne heq.symm, hskipped⟩

theorem seek_isSome (cur : Nat) (h : nc ∈ lowered.map Prod.fst) :
    (seek nc cur lowered).isSome := by
  induction lowered generalizing cur with
  | nil => cases h
  | cons entry lowered ih =>
    rw [seek]
    split
    · rfl
    · rename_i hne
      rw [List.map_cons, List.mem_cons] at h
      exact ih _ (h.resolve_left fun heq => hne heq.symm)

/-- Characters that differ from the first of a subsequence take no part in it. -/
theorem sublist_of_cons_sublist {a : Char} {skipped l m : List Char} (hskipped : a ∉ skipped)
    (h : (a :: l).Sublist (skipped ++ a :: m)) : l.Sublist m := by
  induction skipped with
  | nil => exact List.cons_sublist_cons.1 h
  | cons b skipped ih =>
    rw [List.mem_cons, not_or] at hskipped
    exact ih hskipped.2 (h.of_cons_of_ne hskipped.1)

/-- The hits are a subsequence of the haystack that reads the text. -/
theorem seekAll_eq_some (h : seekAll text cur lowered = some hits) :
    hits.length = text.length ∧ (text.zip (hits.map Hit.origIdx)).Sublist lowered := by
  induction text generalizing cur lowered hits with
  | nil =>
    cases h
    exact ⟨rfl, List.nil_sublist _⟩
  | cons nc text ih =>
    obtain ⟨⟨hit, rest⟩, hseek, hrest⟩ := Option.bind_eq_some_iff.1 h
    obtain ⟨hits, hhits, rfl⟩ := Option.map_eq_some_iff.1 hrest
    obtain ⟨hlength, hsublist⟩ := ih hhits
    obtain ⟨skipped, rfl, -⟩ := seek_eq_some hseek
    refine ⟨congrArg (· + 1) hlength, ?_⟩
    rw [List.map_cons, List.zip_cons_cons]
    exact (hsublist.cons_cons _).trans (List.sublist_append_right _ _)

/-- To take each character as early as possible misses no subsequence. -/
theorem seekAll_isSome (h : text.Sublist (lowered.map Prod.fst)) :
    (seekAll text cur lowered).isSome := by
  induction text generalizing cur lowered with
  | nil => rfl
  | cons nc text ih =>
    obtain ⟨⟨hit, rest⟩, hseek⟩ :=
      Option.isSome_iff_exists.1 (seek_isSome cur (h.mem List.mem_cons_self))
    obtain ⟨skipped, rfl, hskipped⟩ := seek_eq_some hseek
    rw [List.map_append, List.map_cons] at h
    rw [seekAll, hseek, Option.bind_some, Option.isSome_map]
    exact ih (sublist_of_cons_sublist hskipped h)

theorem seekAll_isSome_iff :
    (seekAll text cur lowered).isSome ↔ text.Sublist (lowered.map Prod.fst) := by
  refine ⟨fun h => ?_, seekAll_isSome⟩
  obtain ⟨hits, hhits⟩ := Option.isSome_iff_exists.1 h
  obtain ⟨hlength, hsublist⟩ := seekAll_eq_some hhits
  have hfst := hsublist.map Prod.fst
  rwa [List.map_fst_zip (by rw [List.length_map, hlength])] at hfst

/-! ## The indices -/

/-- Indices that do not decrease are sorted, and increase once the repetitions are gone. -/
theorem destutter_insertionSort (h : indices.Pairwise (· ≤ ·)) :
    ((indices.insertionSort (· ≤ ·)).destutter (· ≠ ·)) = indices.dedup := by
  rw [h.insertionSort_eq, h.destutter_eq_dedup]

theorem pairwise_lt_dedup (h : indices.Pairwise (· ≤ ·)) : indices.dedup.Pairwise (· < ·) :=
  ((h.sublist (List.dedup_sublist _)).and (List.nodup_dedup _)).imp fun hle => by
    exact Nat.lt_of_le_of_ne hle.1 hle.2

/-- What `fuzzy_match` does with the lowercased needle. -/
theorem fuzzyMatch_spec (t : CaseTables) (haystack needle : List Char) :
    ((fuzzyMatch t haystack needle).isSome ↔
      (t.toLowercase needle).Sublist (t.expand haystack)) ∧
    ∀ indices score, fuzzyMatch t haystack needle = some (indices, score) →
      indices.Pairwise (· < ·) ∧ t.Marks haystack (t.toLowercase needle) indices := by
  unfold fuzzyMatch
  split
  · rename_i hempty
    rw [List.isEmpty_iff] at hempty
    subst hempty
    refine ⟨iff_of_true rfl (List.nil_sublist _), fun indices score heq => ?_⟩
    cases heq
    exact ⟨.nil, [], List.nil_sublist _, rfl, fun i => Iff.rfl⟩
  · dsimp only
    constructor
    · rw [Option.isSome_map, seekAll_isSome_iff, map_fst_lowered]
    · intro indices score heq
      obtain ⟨hits, hhits, heq⟩ := Option.map_eq_some_iff.1 heq
      cases heq
      obtain ⟨hlength, hsublist⟩ := seekAll_eq_some hhits
      have hsnd : ((t.toLowercase needle).zip (hits.map Hit.origIdx)).map Prod.snd =
          hits.map Hit.origIdx :=
        List.map_snd_zip (by rw [List.length_map, hlength])
      have hsorted : (hits.map Hit.origIdx).Pairwise (· ≤ ·) := by
        rw [← hsnd, List.pairwise_map]
        exact pairwise_lowered.sublist hsublist
      rw [destutter_insertionSort hsorted]
      refine ⟨pairwise_lt_dedup hsorted, _, hsublist, ?_, fun i => ?_⟩
      · exact List.map_fst_zip (by rw [List.length_map, hlength])
      · rw [hsnd, List.mem_dedup]

/-! ## Final sigmas -/

/-- A final small sigma is the only character that its character expands to. -/
theorem eq_of_final_mem_lowered (ht : t.Standard) (hfinal : ('ς', i) ∈ t.lowered haystack)
    (h : (c, i) ∈ t.lowered haystack) : c = 'ς' := by
  obtain ⟨ch, hch, hmem⟩ := mem_lowered.1 hfinal
  obtain ⟨ch', hch', hmem'⟩ := mem_lowered.1 h
  obtain rfl := Option.some.inj (hch.symm.trans hch')
  rw [ht.lower_final ch hmem] at hmem'
  exact List.mem_singleton.1 hmem'

/-- The entries of the lowercased haystack that are final small sigmas. -/
def finals (entries : List (Char × Nat)) : List (Char × Nat) :=
  entries.filter fun entry => entry.1 = 'ς'

theorem mem_finals {entries : List (Char × Nat)} {entry : Char × Nat} :
    entry ∈ finals entries ↔ entry ∈ entries ∧ entry.1 = 'ς' := by
  rw [finals, List.mem_filter, decide_eq_true_iff]

theorem length_finals (entries : List (Char × Nat)) :
    (finals entries).length = (entries.map Prod.fst).count 'ς' := by
  rw [finals, ← List.countP_eq_length_filter, List.count, List.countP_map]
  rfl

/-- No two of them are of one character. -/
theorem nodup_finals (ht : t.Standard) : (finals (t.lowered haystack)).Nodup := by
  have hidx : haystack.zipIdx.Pairwise fun a b => a.2 ≠ b.2 := by
    rw [← List.pairwise_map, List.zipIdx_map_snd]
    exact List.nodup_range'
  rw [finals, CaseTables.lowered, List.filter_flatMap, List.nodup_flatMap]
  constructor
  · rintro ⟨ch, j⟩ -
    dsimp only
    by_cases hmem : 'ς' ∈ t.lower ch
    · rw [ht.lower_final ch hmem]
      exact (List.nodup_singleton _).filter _
    · have hnone : ((t.lower ch).map (·, j)).filter (fun entry => entry.1 = 'ς') = [] := by
        rw [List.filter_eq_nil_iff]
        rintro entry hentry heq
        obtain ⟨lc, hlc, rfl⟩ := List.mem_map.1 hentry
        exact hmem (of_decide_eq_true heq ▸ hlc)
      rw [hnone]
      exact List.nodup_nil
  · refine hidx.imp fun hne entry ha hb => ?_
    obtain ⟨_, -, rfl⟩ := List.mem_map.1 (List.mem_of_mem_filter ha)
    obtain ⟨_, -, heq⟩ := List.mem_map.1 (List.mem_of_mem_filter hb)
    exact hne (congrArg Prod.snd heq).symm

/-- What is marked by the same characters of the haystack has as many final small sigmas. -/
theorem count_eq_of_marks (ht : t.Standard) {text text' : List Char}
    (h : t.Marks haystack text indices) (h' : t.Marks haystack text' indices) :
    text.count 'ς' = text'.count 'ς' := by
  obtain ⟨entries, hsub, rfl, hmem⟩ := h
  obtain ⟨entries', hsub', rfl, hmem'⟩ := h'
  have hfinals : ∀ {l l' : List (Char × Nat)}, l.Sublist (t.lowered haystack) →
      l'.Sublist (t.lowered haystack) → (∀ i, i ∈ l.map Prod.snd → i ∈ l'.map Prod.snd) →
      ∀ entry, entry ∈ finals l → entry ∈ finals l' := by
    rintro l l' hl hl' hsnd ⟨c, i⟩ hentry
    obtain ⟨hentry, rfl : c = 'ς'⟩ := mem_finals.1 hentry
    obtain ⟨⟨c', i'⟩, hother, rfl : i' = i⟩ :=
      List.mem_map.1 (hsnd i (List.mem_map_of_mem hentry))
    have hc : c' = 'ς' := eq_of_final_mem_lowered ht (hl.subset hentry) (hl'.subset hother)
    exact mem_finals.2 ⟨hc ▸ hother, rfl⟩
  have hperm : (finals entries).Perm (finals entries') := by
    refine (List.perm_ext_iff_of_nodup ((nodup_finals ht).sublist (hsub.filter _))
      ((nodup_finals ht).sublist (hsub'.filter _))).2 fun entry => ⟨?_, ?_⟩
    · exact hfinals hsub hsub' (fun i hi => (hmem' i).1 ((hmem i).2 hi)) entry
    · exact hfinals hsub' hsub (fun i hi => (hmem i).1 ((hmem' i).2 hi)) entry
  rw [← length_finals, ← length_finals, hperm.length_eq]

/-- A fuzzy match answers whether the expansions of the needle are found, and where, exactly when no
capital sigma of the needle ends a word, or when neither the expansions nor the lowercased needle
are found at all. -/
theorem fuzzyMatch_answers_iff (ht : t.Standard) (haystack needle : List Char) :
    Answers t haystack needle (fuzzyMatch t haystack needle) ↔
      ¬ t.HasFinalSigma needle ∨
        (¬ (t.expand needle).Sublist (t.expand haystack) ∧
          ¬ (t.toLowercase needle).Sublist (t.expand haystack)) := by
  obtain ⟨hsome, hmarks⟩ := fuzzyMatch_spec t haystack needle
  constructor
  · intro h
    by_contra hnot
    rw [not_or, not_not] at hnot
    obtain ⟨hsigma, hfound⟩ := hnot
    have hcount := count_lt_toLowercase ht hsigma
    cases hanswer : fuzzyMatch t haystack needle with
    | none =>
      rw [hanswer] at h hsome
      exact hfound ⟨fun hsub => Bool.false_ne_true (h.isSome_iff.2 hsub),
        fun hsub => Bool.false_ne_true (hsome.2 hsub)⟩
    | some answer =>
      obtain ⟨indices, score⟩ := answer
      have heq := count_eq_of_marks ht (h.marks indices score hanswer)
        (hmarks indices score hanswer).2
      exact Nat.ne_of_lt hcount heq
  · rintro (hsigma | ⟨hexpand, hlower⟩)
    · rw [toLowercase_eq ht hsigma] at hsome hmarks
      refine ⟨hsome, fun hsub => hsome.2 (expand_sublist hsub),
        fun indices score heq => (hmarks indices score heq).1, fun indices score heq i hi => ?_,
        fun indices score heq => (hmarks indices score heq).2⟩
      obtain ⟨entries, hsub, -, hmem⟩ := (hmarks indices score heq).2
      obtain ⟨⟨c, j⟩, hentry, rfl : j = i⟩ := List.mem_map.1 ((hmem i).1 hi)
      exact lt_length_of_mem_lowered (hsub.subset hentry)
    · have hnone : fuzzyMatch t haystack needle = none :=
        Option.not_isSome_iff_eq_none.1 fun h => hlower (hsome.1 h)
      rw [hnone]
      exact ⟨⟨nofun, fun hsub => absurd hsub hexpand⟩,
        fun hsub => absurd (expand_sublist hsub) hexpand, nofun, nofun, nofun⟩

end

/-! ## A needle that misses itself -/

/-- The tables at the Greek letters alpha and sigma. -/
def greek : CaseTables where
  lower c := if c = 'Α' then ['α'] else if c = 'Σ' then ['σ'] else [c]
  cased c := c ∈ ['Α', 'α', 'Σ', 'σ', 'ς']
  caseIgnorable _ := false

theorem greek_standard : greek.Standard where
  lower_sigma := rfl
  lower_final c h := by
    simp only [greek] at h ⊢
    split at h
    · simp at h
    split at h
    · simp at h
    · rename_i halpha hsigma
      rw [if_neg halpha, if_neg hsigma, List.mem_singleton.1 h]

/-- With small letters the needle is found. -/
theorem fuzzyMatch_answers_small :
    Answers greek ['Α', 'Σ'] ['α', 'σ'] (fuzzyMatch greek ['Α', 'Σ'] ['α', 'σ']) := by
  refine (fuzzyMatch_answers_iff greek_standard _ _).2 (.inl ?_)
  rintro ⟨before, after, heq, -⟩
  have hmem : 'Σ' ∈ ['α', 'σ'] := heq ▸ List.mem_append_right _ List.mem_cons_self
  exact absurd hmem (by decide)

/-- The last sigma of the needle becomes a final one, and that of the haystack does not. -/
theorem not_answers_finalSigma :
    ¬ Answers greek ['Α', 'Σ'] ['Α', 'Σ'] (fuzzyMatch greek ['Α', 'Σ'] ['Α', 'Σ']) :=
  fun h => absurd (h.of_sublist (List.Sublist.refl _)) (by decide)

end Mcodex.FuzzyMatch
