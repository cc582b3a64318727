import Mathlib.Data.List.Sort
import Mathlib.Data.List.Nodup

/-!
# Reading a listing page by page

A page holds the next entries of a listing, and a cursor to resume after the last of them. The
cursor is less than a position: all that it tells of an entry is whether the entry's key is past
it. So the pages hold the whole listing exactly when the cursor of each page's last entry separates
it from the entries that follow, which entries with equal keys cannot be.
-/

namespace Mcodex.Paging

universe u v w

/-- A listing, from the largest key to the smallest, as each reading of it finds it. Entries with
equal keys may come in another order each time. -/
structure Source (α : Type u) (κ : Type v) (τ : Type w) [LinearOrder κ] where
  key : α → κ
  /-- What an entry leaves behind to resume after it. -/
  cursor : α → Option τ
  past : τ → κ → Bool
  fetch : Option τ → List α
  /-- The reader takes something after the last entry for more. -/
  trailing : Bool
  past_of_le : ∀ {c k k'}, k' ≤ k → past c k → past c k'
  fetch_sorted : ∀ anchor, (fetch anchor).Pairwise fun x y => key y ≤ key x
  fetch_perm : ∀ c, (fetch (some c)).Perm ((fetch none).filter fun x => past c (key x))
  cursor_of_key : ∀ {x y}, x ∈ fetch none → y ∈ fetch none → key x = key y → cursor x = cursor y

namespace Source

section
variable {α : Type u} {κ : Type v} {τ : Type w} [LinearOrder κ] (s : Source α κ τ) (size : Nat)

/-- Something follows the page after an anchor. -/
def more (anchor : Option τ) : Bool :=
  size < (s.fetch anchor).length || (s.trailing && (s.fetch anchor).length == size)

/-- A page, and the cursor to the next one. -/
def page (anchor : Option τ) : List α × Option τ :=
  ((s.fetch anchor).take size,
    if s.more size anchor then ((s.fetch anchor).take size).getLast?.bind s.cursor else none)

/-- Following the cursors from an anchor until there is none reads these entries. -/
inductive Reads : Option τ → List α → Prop
  | last {anchor : Option τ} (hlast : (s.page size anchor).2 = none) :
    Reads anchor (s.page size anchor).1
  | next {anchor : Option τ} {c : τ} {rest : List α} (hnext : (s.page size anchor).2 = some c)
    (hrest : Reads (some c) rest) : Reads anchor ((s.page size anchor).1 ++ rest)

/-- The cursor of each entry that can end a page separates it from those after it. -/
def Resumes : Prop :=
  ∀ pre last post, s.fetch none = pre ++ last :: post → size ∣ pre.length + 1 →
    (post ≠ [] → ∃ c, s.cursor last = some c ∧ ¬ s.past c (s.key last) ∧
      ∀ x ∈ post, s.past c (s.key x)) ∧
    (post = [] → s.trailing → ∀ c, s.cursor last = some c → ¬ s.past c (s.key last))

/-- After a number of entries, an anchor stands for the others. -/
def Stage (n : Nat) (anchor : Option τ) : Prop :=
  (s.fetch anchor).Perm ((s.fetch none).drop n)

variable {s size} {anchor : Option τ} {c : τ} {n : Nat} {pre post xs ys : List α} {last x : α}

theorem fetch_map_key {anchor : Option τ} (h : (s.fetch anchor).Perm xs)
    (hxs : xs.Pairwise fun x y => s.key y ≤ s.key x) :
    (s.fetch anchor).map s.key = xs.map s.key := by
  have hfetch : ((s.fetch anchor).map s.key).Pairwise fun k k' => k' ≤ k :=
    List.pairwise_map.2 (s.fetch_sorted anchor)
  have hkeys : (xs.map s.key).Pairwise fun k k' => k' ≤ k := List.pairwise_map.2 hxs
  exact (h.map s.key).eq_of_pairwise (fun k k' _ _ hk hk' => le_antisymm hk' hk) hfetch hkeys

theorem mem_fetch_some : x ∈ s.fetch (some c) ↔ x ∈ s.fetch none ∧ s.past c (s.key x) :=
  (s.fetch_perm c).mem_iff.trans List.mem_filter

theorem not_past_of_le {k k' : κ} (h : k' ≤ k) (hpast : ¬ s.past c k') : ¬ s.past c k :=
  fun hk => hpast (s.past_of_le h hk)

theorem drop_of_split (hfetch : s.fetch none = pre ++ last :: post) :
    (s.fetch none).drop (pre.length + 1) = post := by
  rw [hfetch, ← List.drop_drop, List.drop_left]
  rfl

/-- A cursor between an entry and those after it stands for the latter. -/
theorem Stage.of_split (hfetch : s.fetch none = pre ++ last :: post)
    (hlast : ¬ s.past c (s.key last)) (hpost : ∀ x ∈ post, s.past c (s.key x)) :
    s.Stage (pre.length + 1) (some c) := by
  have hsorted := s.fetch_sorted none
  rw [hfetch, List.pairwise_append] at hsorted
  have hpre : ∀ x ∈ pre, ¬ s.past c (s.key x) := by
    intro x hx
    exact not_past_of_le (hsorted.2.2 x hx last List.mem_cons_self) hlast
  have hfilter : (s.fetch none).filter (fun x => s.past c (s.key x)) = post := by
    rw [hfetch, List.filter_append, List.filter_eq_nil_iff.2 hpre, List.nil_append,
      List.filter_cons_of_neg (p := fun x => s.past c (s.key x)) hlast, List.filter_eq_self.2 hpost]
  rw [Stage, drop_of_split hfetch, ← hfilter]
  exact s.fetch_perm c

theorem drop_sorted : ((s.fetch none).drop n).Pairwise fun x y => s.key y ≤ s.key x :=
  (s.fetch_sorted none).sublist (List.drop_sublist n _)

theorem Stage.length (h : s.Stage n anchor) :
    (s.fetch anchor).length = (s.fetch none).length - n := by
  rw [List.Perm.length_eq h, List.length_drop]

/-- The last entry of a full page has the key of the entry at that place of the listing. -/
theorem Stage.last_key (h : s.Stage n anchor) (hsize : 0 < size)
    (hfetch : s.fetch none = pre ++ last :: post) (hlength : pre.length + 1 = n + size) :
    ∃ x ∈ s.fetch anchor, ((s.fetch anchor).take size).getLast? = some x ∧
      s.key x = s.key last ∧ s.cursor x = s.cursor last := by
  have hkeys := fetch_map_key h drop_sorted
  have hat : ((s.fetch none).drop n)[size - 1]? = some last := by
    rw [List.getElem?_drop, hfetch, show n + (size - 1) = pre.length by omega]
    simp
  have hkey : ((s.fetch anchor).map s.key)[size - 1]? = some (s.key last) := by
    rw [hkeys, List.getElem?_map, hat]
    rfl
  rw [List.getElem?_map, Option.map_eq_some_iff] at hkey
  obtain ⟨x, hx, hxkey⟩ := hkey
  have hmem : x ∈ s.fetch anchor := List.mem_of_getElem? hx
  have hlt : size - 1 < (s.fetch anchor).length := (List.getElem?_eq_some_iff.1 hx).1
  refine ⟨x, hmem, ?_, hxkey, ?_⟩
  · rw [List.getLast?_take, if_neg (by omega), hx]
    rfl
  · refine s.cursor_of_key ?_ ?_ hxkey
    · exact List.mem_of_mem_drop (List.Perm.mem_iff h |>.1 hmem)
    · rw [hfetch]
      simp

/-- The entries after a full page are those after its place of the listing, whichever of equal
keys they are. -/
theorem Stage.drop_keys (h : s.Stage n anchor) (hfetch : s.fetch none = pre ++ last :: post)
    (hlength : pre.length + 1 = n + size) :
    ((s.fetch anchor).drop size).map s.key = post.map s.key := by
  rw [List.map_drop, fetch_map_key h drop_sorted, ← List.map_drop, List.drop_drop, ← hlength,
    drop_of_split hfetch]

/-- The next page goes on where a full page ends. -/
theorem Stage.fetch_next (h : s.Stage n anchor) (hfetch : s.fetch none = pre ++ last :: post)
    (hlength : pre.length + 1 = n + size) (hlast : ¬ s.past c (s.key last))
    (hpast : ∀ x ∈ post, s.past c (s.key x)) :
    (s.fetch (some c)).Perm ((s.fetch anchor).drop size) := by
  have hsorted := s.fetch_sorted none
  rw [hfetch, List.pairwise_append] at hsorted
  have hbefore : ∀ x ∈ pre ++ [last], ¬ s.past c (s.key x) := by
    intro x hx
    rcases List.mem_append.1 hx with hx | hx
    · exact not_past_of_le (hsorted.2.2 x hx last List.mem_cons_self) hlast
    · rw [List.mem_singleton.1 hx]
      exact hlast
  have hsplit : (s.fetch none).drop n = (pre ++ [last]).drop n ++ post := by
    rw [hfetch, List.append_cons pre, List.drop_append_of_le_length]
    rw [List.length_append, List.length_singleton]
    omega
  have htake : ∀ x ∈ (s.fetch anchor).take size, ¬ s.past c (s.key x) := by
    intro x hx
    have hx' : s.key x ∈ (((s.fetch none).drop n).take size).map s.key := by
      rw [List.map_take, ← fetch_map_key h drop_sorted, ← List.map_take]
      exact List.mem_map_of_mem hx
    rw [hsplit, List.take_append_of_le_length (by simp; omega)] at hx'
    obtain ⟨y, hy, hyx⟩ := List.mem_map.1 hx'
    rw [← hyx]
    exact hbefore y (List.mem_of_mem_drop (List.mem_of_mem_take hy))
  have hdrop : ∀ x ∈ (s.fetch anchor).drop size, s.past c (s.key x) := by
    intro x hx
    have hx' : s.key x ∈ post.map s.key := by
      rw [← h.drop_keys hfetch hlength]
      exact List.mem_map_of_mem hx
    obtain ⟨y, hy, hyx⟩ := List.mem_map.1 hx'
    rw [← hyx]
    exact hpast y hy
  have hfilter : (s.fetch anchor).filter (fun x => s.past c (s.key x)) =
      (s.fetch anchor).drop size := by
    conv_lhs => rw [← List.take_append_drop size (s.fetch anchor)]
    rw [List.filter_append, List.filter_eq_nil_iff.2 htake, List.filter_eq_self.2 hdrop,
      List.nil_append]
  have hpost : ((s.fetch none).drop n).filter (fun x => s.past c (s.key x)) = post := by
    rw [hsplit, List.filter_append,
      List.filter_eq_nil_iff.2 fun x hx => hbefore x (List.mem_of_mem_drop hx),
      List.filter_eq_self.2 hpast, List.nil_append]
  have hstage := Stage.of_split hfetch hlast hpast
  rw [Stage, drop_of_split hfetch] at hstage
  rw [← hfilter]
  refine hstage.trans ?_
  rw [← hpost]
  exact (List.Perm.filter _ h).symm

theorem page_of_length_lt (h : (s.fetch anchor).length < size) :
    s.page size anchor = (s.fetch anchor, none) := by
  have hmore : ¬ s.more size anchor := by
    simp only [more, Bool.or_eq_true, decide_eq_true_eq, Bool.and_eq_true, beq_iff_eq, not_or,
      not_and]
    exact ⟨by omega, fun _ => by omega⟩
  rw [page, List.take_of_length_le h.le, if_neg hmore]

theorem page_snd_of_length_gt (h : size < (s.fetch anchor).length) :
    (s.page size anchor).2 = ((s.fetch anchor).take size).getLast?.bind s.cursor := by
  have hmore : s.more size anchor := by simp [more, h]
  rw [page, if_pos hmore]

theorem page_snd_of_length_eq (h : (s.fetch anchor).length = size) :
    (s.page size anchor).2 =
      if s.trailing then ((s.fetch anchor).take size).getLast?.bind s.cursor else none := by
  have hmore : s.more size anchor = s.trailing := by simp [more, h]
  rw [page, hmore]

theorem reads_nil (hsize : 0 < size) (h : s.fetch anchor = []) : s.Reads size anchor [] := by
  have hpage : s.page size anchor = ([], none) := by
    rw [← h]
    exact page_of_length_lt (by rw [h]; exact hsize)
  have hreads : s.Reads size anchor (s.page size anchor).1 := .last (by rw [hpage])
  rwa [hpage] at hreads

/-- The listing at a stage goes on with a page, and what is after it. -/
theorem exists_split (hn : n + size ≤ (s.fetch none).length) (hsize : 0 < size) :
    ∃ pre last post, s.fetch none = pre ++ last :: post ∧ pre.length + 1 = n + size := by
  have hlt : n + size - 1 < (s.fetch none).length := by omega
  refine ⟨(s.fetch none).take (n + size - 1), (s.fetch none)[n + size - 1],
    (s.fetch none).drop (n + size - 1 + 1), ?_, ?_⟩
  · rw [List.getElem_cons_drop, List.take_append_drop]
  · rw [List.length_take, min_eq_left hlt.le]
    omega

/-- If each page's cursor separates, following them reads all that an anchor stands for. -/
theorem Stage.reads (hsize : 0 < size) (hresumes : s.Resumes size) (hn : size ∣ n)
    (h : s.Stage n anchor) :
    ∃ ys, s.Reads size anchor ys ∧ ys.Perm (s.fetch anchor) ∧
      ys.Pairwise fun x y => s.key y ≤ s.key x := by
  induction hm : (s.fetch anchor).length using Nat.strongRecOn generalizing n anchor with
  | _ m ih =>
  subst hm
  by_cases hshort : (s.fetch anchor).length < size
  · have hpage := page_of_length_lt hshort
    have hreads : s.Reads size anchor (s.page size anchor).1 := .last (by rw [hpage])
    rw [hpage] at hreads
    exact ⟨_, hreads, List.Perm.refl _, s.fetch_sorted anchor⟩
  · have hlength := h.length
    obtain ⟨pre, last, post, hfetch, hpre⟩ := exists_split (s := s) (n := n) (by omega) hsize
    have hdvd : size ∣ pre.length + 1 := hpre ▸ Nat.dvd_add hn (Nat.dvd_refl size)
    obtain ⟨hmore, hdone⟩ := hresumes pre last post hfetch hdvd
    obtain ⟨x, -, hx, -, hcursor⟩ := h.last_key hsize hfetch hpre
    have htotal : (s.fetch none).length = n + size + post.length := by
      rw [hfetch, List.length_append, List.length_cons]
      omega
    by_cases hpost : post = []
    · -- The page ends with the listing: at most an empty page follows.
      rw [hpost, List.length_nil] at htotal
      have hfull : (s.fetch anchor).length = size := by omega
      have hitems : (s.page size anchor).1 = s.fetch anchor :=
        List.take_of_length_le hfull.le
      have hsnd := page_snd_of_length_eq hfull
      rw [hx, Option.bind_some, hcursor] at hsnd
      have hreads : s.Reads size anchor (s.page size anchor).1 := by
        cases hnext : (s.page size anchor).2 with
        | none => exact .last hnext
        | some c =>
          rw [hnext] at hsnd
          split at hsnd
          · rename_i htrailing
            have hpast := hdone hpost htrailing c hsnd.symm
            have hstage := Stage.of_split hfetch hpast (fun x hx => by rw [hpost] at hx; cases hx)
            have hempty : s.fetch (some c) = [] := by
              rw [Stage, hpre, List.drop_of_length_le (by omega)] at hstage
              exact hstage.eq_nil
            have hrest := Reads.next hnext (reads_nil hsize hempty)
            rwa [List.append_nil] at hrest
          · cases hsnd
      rw [hitems] at hreads
      exact ⟨_, hreads, List.Perm.refl _, s.fetch_sorted anchor⟩
    · obtain ⟨c, hc, hlast, hpast⟩ := hmore hpost
      have hpos : 0 < post.length := List.length_pos_iff.2 hpost
      have hstage := Stage.of_split hfetch hlast hpast
      rw [hpre] at hstage
      have hnext : (s.page size anchor).2 = some c := by
        rw [page_snd_of_length_gt (by omega), hx, Option.bind_some, hcursor, hc]
      have hlength' := hstage.length
      obtain ⟨ys, hreads, hperm, hsorted⟩ :=
        ih _ (by omega) (Nat.dvd_add hn (Nat.dvd_refl size)) hstage rfl
      have hrest : (s.fetch (some c)).Perm ((s.fetch anchor).drop size) :=
        h.fetch_next hfetch hpre hlast hpast
      refine ⟨_, Reads.next hnext hreads, ?_, ?_⟩
      · have happend := (hperm.trans hrest).append_left ((s.fetch anchor).take size)
        rwa [List.take_append_drop] at happend
      · have hall := s.fetch_sorted anchor
        rw [← List.take_append_drop size (s.fetch anchor), List.pairwise_append] at hall
        refine List.pairwise_append.2 ⟨hall.1, hsorted, fun x hx y hy => ?_⟩
        exact hall.2.2 x hx y ((hperm.trans hrest).mem_iff.1 hy)

theorem Reads.unique (h : s.Reads size anchor xs) : ∀ {ys}, s.Reads size anchor ys → xs = ys := by
  induction h with
  | last hlast =>
    intro ys hys
    cases hys with
    | last _ => rfl
    | next hnext _ => rw [hlast] at hnext; cases hnext
  | next hnext _ ih =>
    intro ys hys
    cases hys with
    | last hlast => rw [hlast] at hnext; cases hnext
    | next hnext' hrest' =>
      rw [hnext, Option.some.injEq] at hnext'
      subst hnext'
      rw [ih hrest']

theorem Reads.isPrefix (h : s.Reads size anchor ys) : (s.fetch anchor).take size <+: ys := by
  cases h with
  | last _ => exact List.prefix_refl _
  | next _ _ => exact List.prefix_append _ _

/-- A cursor that its own page's last entry is past would read that page again and again. -/
theorem not_past_of_reads (hsize : 0 < size) (hx : x ∈ s.fetch anchor)
    (hlast : ((s.fetch anchor).take size).getLast? = some x) (hc : s.cursor x = some c)
    (hmem : ∀ y ∈ s.fetch anchor, y ∈ s.fetch none) (hnodup : (s.fetch anchor).Nodup)
    (hreads : s.Reads size (some c) ys) (hys : ys.Perm ((s.fetch anchor).drop size)) :
    ¬ s.past c (s.key x) := by
  intro hpast
  have hall := s.fetch_sorted anchor
  rw [← List.take_append_drop size (s.fetch anchor)] at hnodup hall
  have hxtake := List.mem_of_getLast? hlast
  have hxfetch : x ∈ s.fetch (some c) := mem_fetch_some.2 ⟨hmem x hx, hpast⟩
  have hxys : x ∉ ys := fun h => (List.nodup_append.1 hnodup).2.2 x hxtake x (hys.mem_iff.1 h) rfl
  have hxdrop : x ∈ (s.fetch (some c)).drop size := by
    rw [← List.take_append_drop size (s.fetch (some c)), List.mem_append] at hxfetch
    exact hxfetch.resolve_left fun h => hxys (hreads.isPrefix.subset h)
  have hlong : size < (s.fetch (some c)).length := by
    have hpos := List.length_pos_of_mem hxdrop
    rw [List.length_drop] at hpos
    omega
  -- All entries of the page from `c` have the key of `x`, so its cursor is `c` again.
  have hkeys : ∀ y ∈ (s.fetch (some c)).take size, s.key y = s.key x := by
    intro y hy
    have hyx : s.key x ≤ s.key y := by
      have hsorted := s.fetch_sorted (some c)
      rw [← List.take_append_drop size (s.fetch (some c)), List.pairwise_append] at hsorted
      exact hsorted.2.2 y hy x hxdrop
    have hydrop := hys.mem_iff.1 (hreads.isPrefix.subset hy)
    exact le_antisymm ((List.pairwise_append.1 hall).2.2 x hxtake y hydrop) hyx
  obtain ⟨z, hz⟩ : ∃ z, ((s.fetch (some c)).take size).getLast? = some z := by
    cases hcase : ((s.fetch (some c)).take size).getLast? with
    | some z => exact ⟨z, rfl⟩
    | none =>
      have hnil := List.getLast?_eq_none_iff.1 hcase
      have := congrArg List.length hnil
      rw [List.length_take, List.length_nil] at this
      omega
  have hzmem := List.mem_of_getLast? hz
  have hznone := (mem_fetch_some.1 (List.mem_of_mem_take hzmem)).1
  have hnext : (s.page size (some c)).2 = some c := by
    rw [page_snd_of_length_gt hlong, hz, Option.bind_some,
      s.cursor_of_key hznone (hmem x hx) (hkeys z hzmem), hc]
  cases hreads with
  | last hnone => rw [hnext] at hnone; cases hnone
  | next hnext' hrest =>
    rw [hnext, Option.some.injEq] at hnext'
    subst hnext'
    have hloop := hrest.unique (Reads.next hnext hrest)
    have := congrArg List.length hloop
    rw [List.length_append, show (s.page size (some c)).1 = (s.fetch (some c)).take size from rfl,
      List.length_take] at this
    omega

/-- What is read in order after a page is past the page's cursor. -/
theorem past_of_reads (hsize : 0 < size) (hreads : s.Reads size (some c) ys)
    (hsorted : ys.Pairwise fun x y => s.key y ≤ s.key x) : ∀ y ∈ ys, s.past c (s.key y) := by
  cases hfetch : s.fetch (some c) with
  | nil =>
    rw [hreads.unique (reads_nil hsize hfetch)]
    intro y hy
    cases hy
  | cons x xs =>
    obtain ⟨rest, rfl⟩ : ∃ rest, ys = x :: rest := by
      obtain ⟨rest, hrest⟩ := hreads.isPrefix
      obtain ⟨k, rfl⟩ := Nat.exists_eq_add_one.2 hsize
      rw [hfetch, List.take_succ_cons, List.cons_append] at hrest
      exact ⟨_, hrest.symm⟩
    have hx : s.past c (s.key x) := (mem_fetch_some.1 (hfetch ▸ List.mem_cons_self)).2
    intro y hy
    cases hy with
    | head => exact hx
    | tail _ hy => exact s.past_of_le ((List.pairwise_cons.1 hsorted).1 y hy) hx

theorem Stage.step (h : s.Stage n anchor) (hsize : 0 < size) (hnodup : (s.fetch none).Nodup)
    (hfetch : s.fetch none = pre ++ last :: post) (hlength : pre.length + 1 = n + size)
    (hreads : s.Reads size anchor ys) (hperm : ys.Perm (s.fetch anchor))
    (hsorted : ys.Pairwise fun x y => s.key y ≤ s.key x) :
    (post ≠ [] → ∃ c rest, s.cursor last = some c ∧ ¬ s.past c (s.key last) ∧
      (∀ x ∈ post, s.past c (s.key x)) ∧ s.Reads size (some c) rest ∧
      rest.Perm (s.fetch (some c)) ∧ rest.Pairwise fun x y => s.key y ≤ s.key x) ∧
    (post = [] → s.trailing → ∀ c, s.cursor last = some c → ¬ s.past c (s.key last)) := by
  obtain ⟨x, hx, hlast, hkey, hcursor⟩ := h.last_key hsize hfetch hlength
  have htotal : (s.fetch anchor).length = size + post.length := by
    rw [h.length, hfetch, List.length_append, List.length_cons]
    omega
  have hmem : ∀ y ∈ s.fetch anchor, y ∈ s.fetch none := fun y hy =>
    List.mem_of_mem_drop (List.Perm.mem_iff h |>.1 hy)
  have hnodup' : (s.fetch anchor).Nodup :=
    (List.Perm.nodup_iff h).2 (hnodup.sublist (List.drop_sublist n _))
  cases hreads with
  | last hnone =>
    have hshort : ((s.fetch anchor).take size).length = (s.fetch anchor).length := hperm.length_eq
    rw [List.length_take] at hshort
    have hnil : post = [] := List.length_eq_zero_iff.1 (by omega)
    refine ⟨fun hpost => absurd hnil hpost, fun _ htrailing c hc => ?_⟩
    rw [page_snd_of_length_eq (by rw [htotal, hnil]; rfl), if_pos htrailing, hlast,
      Option.bind_some, hcursor, hc] at hnone
    cases hnone
  | next hnext hrest =>
    rename_i c rest
    have hperm' : rest.Perm ((s.fetch anchor).drop size) := by
      refine (List.perm_append_left_iff ((s.fetch anchor).take size)).1 ?_
      rw [List.take_append_drop]
      exact hperm
    have hc : s.cursor x = some c := by
      rcases Nat.eq_or_lt_of_le (show size ≤ (s.fetch anchor).length by omega) with heq | hlt
      · rw [page_snd_of_length_eq heq.symm, hlast, Option.bind_some] at hnext
        split at hnext
        · exact hnext
        · cases hnext
      · rw [page_snd_of_length_gt hlt, hlast, Option.bind_some] at hnext
        exact hnext
    have hpast := not_past_of_reads hsize hx hlast hc hmem hnodup' hrest hperm'
    rw [hkey] at hpast
    rw [hcursor] at hc
    refine ⟨fun _ => ?_, fun _ _ c' hc' => ?_⟩
    · have hsorted' := (List.pairwise_append.1 hsorted).2.1
      have hposts : ∀ y ∈ post, s.past c (s.key y) := by
        intro y hy
        have hy' : s.key y ∈ ((s.fetch anchor).drop size).map s.key := by
          rw [h.drop_keys hfetch hlength]
          exact List.mem_map_of_mem hy
        obtain ⟨z, hz, hzy⟩ := List.mem_map.1 hy'
        rw [← hzy]
        exact past_of_reads hsize hrest hsorted' z (hperm'.mem_iff.2 hz)
      exact ⟨c, rest, hc, hpast, hposts, hrest,
        hperm'.trans (h.fetch_next hfetch hlength hpast hposts).symm, hsorted'⟩
    · rw [hc, Option.some.injEq] at hc'
      subst hc'
      exact hpast

/-- If following the cursors reads all that an anchor stands for, each later page's cursor
separates. -/
theorem Stage.resumes (hsize : 0 < size) (hnodup : (s.fetch none).Nodup) (hn : size ∣ n)
    (h : s.Stage n anchor) (hreads : s.Reads size anchor ys) (hperm : ys.Perm (s.fetch anchor))
    (hsorted : ys.Pairwise fun x y => s.key y ≤ s.key x)
    (hfetch : s.fetch none = pre ++ last :: post) (hdvd : size ∣ pre.length + 1)
    (hlt : n < pre.length + 1) :
    (post ≠ [] → ∃ c, s.cursor last = some c ∧ ¬ s.past c (s.key last) ∧
      ∀ x ∈ post, s.past c (s.key x)) ∧
    (post = [] → s.trailing → ∀ c, s.cursor last = some c → ¬ s.past c (s.key last)) := by
  induction hm : pre.length + 1 - n using Nat.strongRecOn generalizing n anchor ys with
  | _ m ih =>
  subst hm
  have hle : n + size ≤ pre.length + 1 := by
    obtain ⟨i, rfl⟩ := hn
    obtain ⟨j, hj⟩ := hdvd
    rw [hj] at hlt ⊢
    calc size * i + size = size * (i + 1) := (Nat.mul_succ size i).symm
      _ ≤ size * j := Nat.mul_le_mul_left size (Nat.lt_of_mul_lt_mul_left hlt)
  have htotal : (s.fetch none).length = pre.length + 1 + post.length := by
    rw [hfetch, List.length_append, List.length_cons]
    omega
  rcases Nat.eq_or_lt_of_le hle with heq | hmore
  · obtain ⟨hpost, hdone⟩ := h.step hsize hnodup hfetch heq.symm hreads hperm hsorted
    refine ⟨fun hne => ?_, hdone⟩
    obtain ⟨c, -, hc, hlast, hpast, -⟩ := hpost hne
    exact ⟨c, hc, hlast, hpast⟩
  · have hsplit : n + size ≤ (s.fetch none).length := by omega
    obtain ⟨pre', last', post', hfetch', hpre'⟩ := exists_split hsplit hsize
    have hne : post' ≠ [] := by
      rintro rfl
      have := congrArg List.length hfetch'
      rw [List.length_append, List.length_cons, List.length_nil] at this
      omega
    obtain ⟨c, rest, -, hlast, hpast, hrest, hrestperm, hrestsorted⟩ :=
      (h.step hsize hnodup hfetch' hpre' hreads hperm hsorted).1 hne
    have hstage := Stage.of_split hfetch' hlast hpast
    rw [hpre'] at hstage
    exact ih _ (by omega) (Nat.dvd_add hn (Nat.dvd_refl size)) hstage hrest hrestperm hrestsorted
      hmore rfl

/-- Following the cursors reads the listing, each entry once and in order, exactly when the cursor
of each entry that can end a page separates it from those after it. -/
theorem reads_iff (hsize : 0 < size) (hnodup : (s.fetch none).Nodup) :
    (∃ ys, s.Reads size none ys ∧ ys.Perm (s.fetch none) ∧
      ys.Pairwise fun x y => s.key y ≤ s.key x) ↔ s.Resumes size := by
  have hstage : s.Stage 0 none := List.Perm.refl _
  constructor
  · rintro ⟨ys, hreads, hperm, hsorted⟩ pre last post hfetch hdvd
    exact hstage.resumes hsize hnodup (Nat.dvd_zero size) hreads hperm hsorted hfetch hdvd
      (Nat.succ_pos _)
  · intro hresumes
    exact hstage.reads hsize hresumes (Nat.dvd_zero size)

end

end Source

end Mcodex.Paging
