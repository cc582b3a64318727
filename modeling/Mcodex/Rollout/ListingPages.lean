import Mcodex.Lib.Paging
import Mcodex.Rollout.Listing
import Mathlib.Data.Prod.Lex

/-!
# Following the cursors of a listing

Both listings read the files in one order, newest first, and a page is a page of that order
(`Paging.Source`). Its cursor is the time of its last thread alone, though the order uses the id as
well: following the cursors returns every thread once exactly when no page ends between two threads
of the same time (`threads_paged`).
-/

namespace Mcodex.Rollout.Listing

open Paging

section
variable (formats : Formats)

/-! ## The files in the order of the walk -/

def dayFiles (year month : List Char) (day : Nat × Day) : List Visited :=
  collectRolloutDayFiles formats [year, month, day.2.1] day.2.2

def monthFiles (year : List Char) (month : Nat × Month) : List Visited :=
  (collectDirsDesc u8 month.2.2).flatMap (dayFiles formats year month.2.1)

def yearFiles (year : Nat × Year) : List Visited :=
  (collectDirsDesc u8 year.2.2).flatMap (monthFiles formats year.2.1)

/-- The rollout files of the sessions directory. -/
def rolloutFiles (root : List Year) : List Visited :=
  (collectDirsDesc u16 root).flatMap (yearFiles formats)

/-- Each file lies in the directory of its day, no two directories of a level have one number, and
no two files one id. -/
structure SessionsLayout (root : List Year) : Prop where
  day : ∀ year ∈ collectDirsDesc u16 root, ∀ month ∈ collectDirsDesc u8 year.2.2,
    ∀ day ∈ collectDirsDesc u8 month.2.2, ∀ visited ∈ dayFiles formats year.2.1 month.2.1 day,
      formats.date visited.ts = (year.1, month.1, day.1)
  years : (root.filterMap fun dir => u16 dir.1).Nodup
  months : ∀ year ∈ root, (year.2.filterMap fun dir => u8 dir.1).Nodup
  days : ∀ year ∈ root, ∀ month ∈ year.2, (month.2.filterMap fun dir => u8 dir.1).Nodup
  ids : ((rolloutFiles formats root).map (·.id)).Nodup

variable {formats} {root : List Year}

theorem collectDirsDesc_perm {α : Type} (parse : List Char → Option Nat)
    (dirs : List (List Char × α)) :
    (collectDirsDesc parse dirs).Perm
      (dirs.filterMap fun dir => (parse dir.1).map fun n => (n, dir)) :=
  List.perm_insertionSort _ _

theorem mem_of_mem_collectDirsDesc {α : Type} {parse : List Char → Option Nat}
    {dirs : List (List Char × α)} {dir : Nat × List Char × α}
    (h : dir ∈ collectDirsDesc parse dirs) : dir.2 ∈ dirs := by
  obtain ⟨dir', hdir', heq⟩ := List.mem_filterMap.1 ((collectDirsDesc_perm parse dirs).mem_iff.1 h)
  obtain ⟨n, -, rfl⟩ := Option.map_eq_some_iff.1 heq
  exact hdir'

/-- Directories of distinct numbers are collected by falling numbers. -/
theorem collectDirsDesc_sorted {α : Type} {parse : List Char → Option Nat}
    {dirs : List (List Char × α)} (h : (dirs.filterMap fun dir => parse dir.1).Nodup) :
    (collectDirsDesc parse dirs).Pairwise fun dir dir' => dir'.1 < dir.1 := by
  have hle : (collectDirsDesc parse dirs).Pairwise fun dir dir' => dir'.1 ≤ dir.1 := by
    have htotal : Std.Total fun dir dir' : Nat × List Char × α => dir'.1 ≤ dir.1 :=
      ⟨fun dir dir' => le_total dir'.1 dir.1⟩
    have htrans : IsTrans (Nat × List Char × α) fun dir dir' => dir'.1 ≤ dir.1 :=
      ⟨fun _ _ _ h h' => le_trans h' h⟩
    exact List.pairwise_insertionSort _ _
  have hnodup : ((collectDirsDesc parse dirs).map (·.1)).Nodup := by
    refine (((collectDirsDesc_perm parse dirs).map (·.1)).nodup_iff).2 ?_
    rw [List.map_filterMap]
    have heq : (fun dir : List Char × α => ((parse dir.1).map fun n => (n, dir)).map (·.1)) =
        fun dir => parse dir.1 := by
      funext dir
      rw [Option.map_map]
      exact Option.map_id'
    rw [heq]
    exact h
  exact (hle.and (List.pairwise_map.1 hnodup)).imp fun h => lt_of_le_of_ne h.1 (Ne.symm h.2)

theorem dayFiles_sorted (year month : List Char) (day : Nat × Day) :
    (dayFiles formats year month day).Pairwise fun a b => newestFirst (a.ts, a.id) (b.ts, b.id) := by
  have htotal : Std.Total fun a b : Visited => newestFirst (a.ts, a.id) (b.ts, b.id) := by
    refine ⟨fun a b => ?_⟩
    simp only [newestFirst]
    omega
  have htrans : IsTrans Visited fun a b => newestFirst (a.ts, a.id) (b.ts, b.id) := by
    refine ⟨fun a b c h h' => ?_⟩
    simp only [newestFirst] at h h' ⊢
    omega
  exact List.pairwise_insertionSort _ _

/-- A later day holds later files. -/
theorem newestFirst_of_date {a b : Visited} {y m d y' m' d' : Nat}
    (ha : formats.date a.ts = (y, m, d)) (hb : formats.date b.ts = (y', m', d'))
    (h : y' < y ∨ y' = y ∧ (m' < m ∨ m' = m ∧ d' < d)) :
    newestFirst (a.ts, a.id) (b.ts, b.id) := by
  refine Or.inl (lt_of_not_ge fun hle => ?_)
  have hdate := formats.date_le hle
  rw [ha, hb] at hdate
  simp only at hdate
  omega

/-- Under the layout, the walk visits the files newest first. -/
theorem SessionsLayout.sorted (h : SessionsLayout formats root) :
    (rolloutFiles formats root).Pairwise fun a b => newestFirst (a.ts, a.id) (b.ts, b.id) := by
  refine List.pairwise_flatMap.2 ⟨fun year hyear => ?_, ?_⟩
  · have hyear' := mem_of_mem_collectDirsDesc hyear
    refine List.pairwise_flatMap.2 ⟨fun month hmonth => ?_, ?_⟩
    · have hmonth' := mem_of_mem_collectDirsDesc hmonth
      refine List.pairwise_flatMap.2 ⟨fun day _ => dayFiles_sorted _ _ day, ?_⟩
      refine (collectDirsDesc_sorted (h.days _ hyear' _ hmonth')).imp_of_mem ?_
      intro day day' hday hday' hlt a ha b hb
      exact newestFirst_of_date (h.day _ hyear _ hmonth _ hday _ ha)
        (h.day _ hyear _ hmonth _ hday' _ hb) (Or.inr ⟨rfl, Or.inr ⟨rfl, hlt⟩⟩)
    · refine (collectDirsDesc_sorted (h.months _ hyear')).imp_of_mem ?_
      intro month month' hmonth hmonth' hlt a ha b hb
      obtain ⟨day, hday, ha⟩ := List.mem_flatMap.1 ha
      obtain ⟨day', hday', hb⟩ := List.mem_flatMap.1 hb
      exact newestFirst_of_date (h.day _ hyear _ hmonth _ hday _ ha)
        (h.day _ hyear _ hmonth' _ hday' _ hb) (Or.inr ⟨rfl, Or.inl hlt⟩)
  · refine (collectDirsDesc_sorted h.years).imp_of_mem ?_
    intro year year' hyear hyear' hlt a ha b hb
    obtain ⟨month, hmonth, ha⟩ := List.mem_flatMap.1 ha
    obtain ⟨month', hmonth', hb⟩ := List.mem_flatMap.1 hb
    obtain ⟨day, hday, ha⟩ := List.mem_flatMap.1 ha
    obtain ⟨day', hday', hb⟩ := List.mem_flatMap.1 hb
    exact newestFirst_of_date (h.day _ hyear _ hmonth _ hday _ ha)
      (h.day _ hyear' _ hmonth' _ hday' _ hb) (Or.inl hlt)

/-! ## The walk below the scan cap -/

section
variable {σ α : Type} {visit : σ → Visited → Nat → σ × Bool}

variable (visit) in
theorem walkFiles_scanned : ∀ (files : List Visited) (scanned : Nat) (visitor : σ),
    scanned + files.length ≤ maxScanFiles →
    (walkFiles visit files scanned visitor).scanned ≤ scanned + files.length
  | [], _, _, _ => le_refl _
  | file :: files, scanned, visitor, h => by
    rw [List.length_cons] at h ⊢
    rw [walkFiles, if_neg (by omega)]
    split
    · exact Nat.add_le_add_left (Nat.succ_le_succ (Nat.zero_le _)) _
    · rename_i visitor' _
      have hrest := walkFiles_scanned files (scanned + 1) visitor' (by omega)
      omega

theorem walkFiles_append : ∀ (files files' : List Visited) (scanned : Nat) (visitor : σ),
    walkFiles visit (files ++ files') scanned visitor =
      let walked := walkFiles visit files scanned visitor
      if walked.stopped then walked
      else walkFiles visit files' walked.scanned walked.visitor
  | [], _, _, _ => rfl
  | file :: files, files', scanned, visitor => by
    rw [List.cons_append, walkFiles, walkFiles]
    split
    · rfl
    · split
      · rfl
      · exact walkFiles_append files files' _ _

/-- A level whose directories are walked file by file is walked file by file. -/
theorem walkDirs_eq {walk : α → Nat → σ → Walk σ} {files : α → List Visited} :
    ∀ (dirs : List α) (scanned : Nat) (visitor : σ),
      (∀ dir ∈ dirs, ∀ scanned visitor, scanned + (files dir).length < maxScanFiles →
        walk dir scanned visitor = walkFiles visit (files dir) scanned visitor) →
      scanned + (dirs.flatMap files).length < maxScanFiles →
      walkDirs walk dirs scanned visitor = walkFiles visit (dirs.flatMap files) scanned visitor
  | [], _, _, _, _ => rfl
  | dir :: dirs, scanned, visitor, hwalk, hcap => by
    rw [List.flatMap_cons, List.length_append] at hcap
    have hscanned := walkFiles_scanned visit (files dir) scanned visitor (by omega)
    rw [walkDirs, if_neg (by omega), List.flatMap_cons, walkFiles_append,
      hwalk dir List.mem_cons_self scanned visitor (by omega)]
    dsimp only
    split
    · rfl
    · exact walkDirs_eq dirs _ _ (fun dir hdir => hwalk dir (List.mem_cons_of_mem _ hdir))
        (by omega)

theorem walkRolloutFiles_eq (visitor : σ) (hcap : (rolloutFiles formats root).length < maxScanFiles) :
    walkRolloutFiles formats visit root visitor =
      walkFiles visit (rolloutFiles formats root) 0 visitor := by
  refine walkDirs_eq _ 0 visitor (fun year _ scanned visitor hyear => ?_) ?_
  swap
  · rw [Nat.zero_add]
    exact hcap
  refine walkDirs_eq _ scanned visitor (fun month _ scanned visitor hmonth => ?_) hyear
  exact walkDirs_eq _ scanned visitor (fun day _ scanned visitor hday => rfl) hmonth

variable (visit) in
theorem walkRolloutFiles_scanned (visitor : σ)
    (hcap : (rolloutFiles formats root).length < maxScanFiles) :
    (walkRolloutFiles formats visit root visitor).scanned < maxScanFiles := by
  rw [walkRolloutFiles_eq visitor hcap]
  have hscanned := walkFiles_scanned visit (rolloutFiles formats root) 0 visitor
    (by omega)
  omega

end

theorem walkFiles_visitByUpdatedAt : ∀ (files candidates : List Visited) (scanned : Nat),
    scanned + files.length ≤ maxScanFiles →
    (walkFiles visitByUpdatedAt files scanned candidates).visitor = candidates ++ files
  | [], candidates, _, _ => (List.append_nil candidates).symm
  | file :: files, candidates, scanned, h => by
    rw [List.length_cons] at h
    rw [walkFiles, if_neg (by omega), visitByUpdatedAt]
    dsimp only
    rw [walkFiles_visitByUpdatedAt files _ _ (by omega), List.append_assoc]
    rfl

/-! ## One loop over the files -/

section
variable (formats) (pageSize : Nat) (config : ThreadListConfig) (time : Visited → Int)

/-- The loop of both listings over files whose times fall. -/
def pageFiles : List Visited → PageState → PageState
  | [], state => state
  | file :: files, state =>
    match consider formats pageSize config (time file) state file with
    | (state, true) => state
    | (state, false) => pageFiles files state

/-- A file whose thread the listing returns. -/
def isMatch (file : Visited) : Bool := (threadItem formats config file).isSome

/-- Something follows the first so many matching files. -/
def leftover : Nat → List Visited → Bool
  | _, [] => false
  | 0, _ :: _ => true
  | n + 1, file :: files =>
    if isMatch formats config file then leftover n files else leftover (n + 1) files

/-- The last file has no thread that the listing returns. -/
def trailing (files : List Visited) : Bool :=
  files.getLast?.any fun file => !isMatch formats config file

variable {formats pageSize config time}

theorem pageCandidates_eq (candidates : List Visited) (state : PageState) :
    pageCandidates formats pageSize config candidates state =
      pageFiles formats pageSize config updatedAtOrEpoch candidates state := by
  induction candidates generalizing state with
  | nil => rfl
  | cons candidate candidates ih =>
    rw [pageCandidates, pageFiles]
    rcases consider formats pageSize config (updatedAtOrEpoch candidate) state candidate with
      ⟨state', _ | _⟩
    · exact ih state'
    · rfl

theorem walkFiles_visitByCreatedAt : ∀ (files : List Visited) (scanned : Nat) (state : PageState),
    scanned + files.length < maxScanFiles →
    (walkFiles (visitByCreatedAt formats pageSize config) files scanned state).visitor =
      pageFiles formats pageSize config (·.ts) files state
  | [], _, _, _ => rfl
  | file :: files, scanned, state, h => by
    rw [List.length_cons] at h
    have hcap : (decide (maxScanFiles ≤ scanned + 1) && decide (pageSize ≤ state.items.length)) =
        false := by
      simp only [Bool.and_eq_false_iff, decide_eq_false_iff_not]
      omega
    rw [walkFiles, if_neg (by omega), visitByCreatedAt, hcap, pageFiles]
    simp only [Bool.false_eq_true, if_false]
    rcases consider formats pageSize config file.ts state file with ⟨state', _ | _⟩
    · exact walkFiles_visitByCreatedAt files (scanned + 1) state' (by omega)
    · rfl

theorem leftover_eq (n : Nat) (files : List Visited) :
    leftover formats config n files = (n < (files.filter (isMatch formats config)).length ||
      (trailing formats config files &&
        (files.filter (isMatch formats config)).length == n)) := by
  induction files generalizing n with
  | nil => simp [leftover, trailing]
  | cons file files ih =>
    have htrailing : files ≠ [] →
        trailing formats config (file :: files) = trailing formats config files := by
      intro hne
      rw [trailing, List.getLast?_cons_of_ne_nil hne]
      rfl
    cases hmatch : isMatch formats config file with
    | true =>
      rw [List.filter_cons_of_pos hmatch, List.length_cons]
      cases n with
      | zero => simp [leftover]
      | succ n =>
        rw [leftover, if_pos hmatch, ih]
        cases files with
        | nil => simp [trailing, hmatch]
        | cons file' files =>
          rw [htrailing (List.cons_ne_nil _ _)]
          simp
    | false =>
      rw [List.filter_cons_of_neg (by rw [hmatch]; exact Bool.false_ne_true)]
      cases files with
      | nil => cases n <;> simp [leftover, trailing, hmatch]
      | cons file' files =>
        rw [htrailing (List.cons_ne_nil _ _)]
        cases n with
        | zero =>
          have hrest := ih 0
          rw [leftover] at hrest
          rw [leftover]
          exact hrest
        | succ n => rw [leftover, hmatch, if_neg Bool.false_ne_true, ih]

variable (formats pageSize config time) in
/-- Past the anchor, the loop takes matching files until the page is full. -/
theorem pageFiles_passed : ∀ (files : List Visited) (state : PageState),
    state.anchor.passed → state.moreMatchesAvailable = false → state.items.length ≤ pageSize →
    (pageFiles formats pageSize config time files state).items =
        state.items ++ (files.filterMap (threadItem formats config)).take
          (pageSize - state.items.length) ∧
      (pageFiles formats pageSize config time files state).moreMatchesAvailable =
        leftover formats config (pageSize - state.items.length) files
  | [], state, _, hmore, _ => ⟨by simp [pageFiles], hmore.trans (by cases pageSize - _ <;> rfl)⟩
  | file :: files, state, hpassed, hmore, hlength => by
    rw [pageFiles, consider, AnchorState.shouldSkip, if_pos hpassed]
    simp only [Bool.false_eq_true, if_false]
    by_cases hfull : state.items.length = pageSize
    · rw [if_pos hfull]
      simp only [hfull, Nat.sub_self, List.take_zero, List.append_nil, true_and]
      rfl
    · rw [if_neg hfull]
      obtain ⟨k, hk⟩ : ∃ k, pageSize - state.items.length = k + 1 :=
        ⟨pageSize - state.items.length - 1, by omega⟩
      cases hitem : threadItem formats config file with
      | none =>
        have ih := pageFiles_passed files { state with items := state.items ++ [] } hpassed hmore
          (by simpa using hlength)
        rw [List.filterMap_cons_none hitem]
        refine ⟨?_, ?_⟩
        · simpa using ih.1
        · have hmatch : isMatch formats config file = false := by rw [isMatch, hitem]; rfl
          rw [hk, leftover, hmatch, if_neg Bool.false_ne_true, ← hk]
          simpa using ih.2
      | some item =>
        have ih := pageFiles_passed files { state with items := state.items ++ [item] } hpassed
          hmore (by simp; omega)
        have hlength' : pageSize - (state.items ++ [item]).length = k := by
          rw [List.length_append, List.length_singleton]
          omega
        simp only [hlength'] at ih
        rw [List.filterMap_cons_some hitem, hk, List.take_succ_cons]
        refine ⟨?_, ?_⟩
        · simpa using ih.1
        · have hmatch : isMatch formats config file = true := by rw [isMatch, hitem]; rfl
          rw [leftover, if_pos hmatch]
          exact ih.2

theorem pageFiles_skip {files : List Visited} {state : PageState} {file : Visited}
    (hpassed : ¬ state.anchor.passed) (htime : state.anchor.ts ≤ time file) :
    pageFiles formats pageSize config time (file :: files) state =
      pageFiles formats pageSize config time files state := by
  rw [pageFiles, consider, AnchorState.shouldSkip, if_neg hpassed, if_neg (not_lt.2 htime)]
  rfl

/-- A file is past the cursor. -/
def past (cursor : Option Int) (t : Int) : Bool := cursor.all fun c => t < c

variable (formats config) in
/-- The page of files whose times fall: those past the cursor are its files. -/
theorem pageFiles_eq (hsize : 0 < pageSize) : ∀ (files : List Visited) (cursor : Option Int),
    files.Pairwise (fun a b => time b ≤ time a) →
    let page := pageFiles formats pageSize config time files ⟨[], .new cursor, false⟩
    let found := files.filter fun file => past cursor (time file)
    page.items = (found.filterMap (threadItem formats config)).take pageSize ∧
      page.moreMatchesAvailable = leftover formats config pageSize found
  | files, none, _ => by
    have hfound : (files.filter fun file => past none (time file)) = files :=
      List.filter_eq_self.2 fun _ _ => rfl
    have h := pageFiles_passed formats pageSize config time files ⟨[], .new none, false⟩ rfl rfl
      (Nat.zero_le _)
    simp only [hfound]
    simpa using h
  | [], some c, _ => ⟨by simp [pageFiles], rfl⟩
  | file :: files, some c, hsorted => by
    rw [List.pairwise_cons] at hsorted
    by_cases htime : time file < c
    · have hfound : ((file :: files).filter fun file => past (some c) (time file)) =
          file :: files := by
        refine List.filter_eq_self.2 fun file' hfile' => decide_eq_true ?_
        rcases List.mem_cons.1 hfile' with rfl | hfile'
        · exact htime
        · exact lt_of_le_of_lt (hsorted.1 file' hfile') htime
      have hpage : pageFiles formats pageSize config time (file :: files)
            ⟨[], .new (some c), false⟩ =
          pageFiles formats pageSize config time (file :: files) ⟨[], ⟨c, true⟩, false⟩ := by
        simp only [pageFiles, consider, AnchorState.shouldSkip, AnchorState.new, htime, if_pos]
        rfl
      have h := pageFiles_passed formats pageSize config time (file :: files)
        ⟨[], ⟨c, true⟩, false⟩ rfl rfl (Nat.zero_le _)
      simp only [hfound, hpage]
      simpa using h
    · have hfound : ((file :: files).filter fun file => past (some c) (time file)) =
          files.filter fun file => past (some c) (time file) :=
        List.filter_cons_of_neg (by simpa [past] using htime)
      have hskip : pageFiles formats pageSize config time (file :: files)
            ⟨[], .new (some c), false⟩ =
          pageFiles formats pageSize config time files ⟨[], .new (some c), false⟩ :=
        pageFiles_skip Bool.false_ne_true (not_lt.1 htime)
      simp only [hfound, hskip]
      exact pageFiles_eq hsize files (some c) hsorted.2

end

/-! ## The listing and its pages -/

section
variable (formats) (pageSize : Nat) (config : ThreadListConfig) (sortKey : ThreadSortKey)

/-- The time that a listing sorts by. -/
def sortTime (file : Visited) : Int :=
  match sortKey with
  | .createdAt => file.ts
  | .updatedAt => updatedAtOrEpoch file

/-- The rollout files in the order of the listing. -/
def listing (root : List Year) : List Visited :=
  match sortKey with
  | .createdAt => rolloutFiles formats root
  | .updatedAt => (rolloutFiles formats root).insertionSort fun a b =>
    newestFirst (updatedAtOrEpoch a, a.id) (updatedAtOrEpoch b, b.id)

/-- The files whose threads the listing returns. -/
def matching (root : List Year) : List Visited :=
  (listing formats sortKey root).filter (isMatch formats config)

/-- The threads that the listing is to return. -/
def threads (root : List Year) : List ThreadItem :=
  (listing formats sortKey root).filterMap (threadItem formats config)

/-- The time that the next cursor gets from the last file of a page: that of its name, or that of
its last update. -/
def resumeTime (file : Visited) : Option Int :=
  match sortKey with
  | .createdAt => some file.ts
  | .updatedAt => ((threadItem formats config file).bind (·.updatedAt)).bind formats.parseRfc3339

/-- The threads that the pages hold from a cursor on, when their cursors are followed. -/
inductive Follows (root : List Year) : Option Int → List ThreadItem → Prop
  | last {cursor : Option Int}
    (hlast : (getThreads formats pageSize config (some root) cursor sortKey).nextCursor = none) :
    Follows root cursor (getThreads formats pageSize config (some root) cursor sortKey).items
  | next {cursor : Option Int} {c : Int} {rest : List ThreadItem}
    (hnext : (getThreads formats pageSize config (some root) cursor sortKey).nextCursor = some c)
    (hrest : Follows root (some c) rest) :
    Follows root cursor
      ((getThreads formats pageSize config (some root) cursor sortKey).items ++ rest)

/-- The last file of each page that something follows gives a cursor that is no later than its own
time, and later than that of every matching file after it. -/
def PagesSeparate (root : List Year) : Prop :=
  ∀ pre last post, matching formats config sortKey root = pre ++ last :: post →
    pageSize ∣ pre.length + 1 →
    (post ≠ [] → ∃ c, resumeTime formats config sortKey last = some c ∧
      c ≤ sortTime sortKey last ∧ ∀ file ∈ post, sortTime sortKey file < c) ∧
    (post = [] → trailing formats config (listing formats sortKey root) →
      ∀ c, resumeTime formats config sortKey last = some c → c ≤ sortTime sortKey last)

variable {formats pageSize config sortKey}

theorem listing_perm : (listing formats sortKey root).Perm (rolloutFiles formats root) := by
  cases sortKey with
  | createdAt => exact List.Perm.refl _
  | updatedAt => exact List.perm_insertionSort _ _

theorem SessionsLayout.listing_ids (h : SessionsLayout formats root) :
    ((listing formats sortKey root).map (·.id)).Nodup :=
  (listing_perm.map (·.id)).nodup_iff.2 h.ids

theorem SessionsLayout.eq_of_id (h : SessionsLayout formats root) {a b : Visited}
    (ha : a ∈ listing formats sortKey root) (hb : b ∈ listing formats sortKey root)
    (hid : a.id = b.id) : a = b :=
  List.inj_on_of_nodup_map h.listing_ids ha hb hid

theorem SessionsLayout.listing_sorted (h : SessionsLayout formats root) :
    (listing formats sortKey root).Pairwise fun a b =>
      newestFirst (sortTime sortKey a, a.id) (sortTime sortKey b, b.id) := by
  cases sortKey with
  | createdAt => exact h.sorted
  | updatedAt =>
    have htotal : Std.Total fun a b : Visited =>
        newestFirst (updatedAtOrEpoch a, a.id) (updatedAtOrEpoch b, b.id) := by
      refine ⟨fun a b => ?_⟩
      simp only [newestFirst]
      omega
    have htrans : IsTrans Visited fun a b =>
        newestFirst (updatedAtOrEpoch a, a.id) (updatedAtOrEpoch b, b.id) := by
      refine ⟨fun a b c h h' => ?_⟩
      simp only [newestFirst] at h h' ⊢
      omega
    exact List.pairwise_insertionSort (fun a b : Visited =>
      newestFirst (updatedAtOrEpoch a, a.id) (updatedAtOrEpoch b, b.id)) _

variable (sortKey) in
theorem SessionsLayout.times_sorted (h : SessionsLayout formats root) :
    (listing formats sortKey root).Pairwise fun a b => sortTime sortKey b ≤ sortTime sortKey a :=
  h.listing_sorted.imp fun hnewest => hnewest.elim le_of_lt fun heq => heq.1.le

variable (pageSize config sortKey) in
/-- Below the cap, a page is what the loop finds in the listing. -/
theorem getThreads_eq (hcap : (rolloutFiles formats root).length < maxScanFiles)
    (cursor : Option Int) :
    ∃ scanned < maxScanFiles, getThreads formats pageSize config (some root) cursor sortKey =
      threadsPage formats (pageFiles formats pageSize config (sortTime sortKey)
        (listing formats sortKey root) ⟨[], .new cursor, false⟩) scanned sortKey := by
  cases sortKey with
  | createdAt =>
    refine ⟨_, walkRolloutFiles_scanned (visitByCreatedAt formats pageSize config)
      ⟨[], .new cursor, false⟩ hcap, ?_⟩
    rw [walkRolloutFiles_eq _ hcap, show sortTime .createdAt = (·.ts) from rfl, listing,
      ← walkFiles_visitByCreatedAt _ 0 _ (by omega), ← walkRolloutFiles_eq _ hcap]
    rfl
  | updatedAt =>
    refine ⟨_, walkRolloutFiles_scanned visitByUpdatedAt [] hcap, ?_⟩
    rw [show sortTime .updatedAt = updatedAtOrEpoch from rfl, listing, ← pageCandidates_eq]
    have hwalk := walkFiles_visitByUpdatedAt (rolloutFiles formats root) [] 0 (by omega)
    rw [← walkRolloutFiles_eq _ hcap, List.nil_append] at hwalk
    conv_rhs => rw [← hwalk]
    rfl

variable (config sortKey) in
/-- A page of the listing: the first matching files past the cursor. -/
theorem SessionsLayout.getThreads_page (h : SessionsLayout formats root)
    (hcap : (rolloutFiles formats root).length < maxScanFiles) (hsize : 0 < pageSize)
    (cursor : Option Int) :
    let page := getThreads formats pageSize config (some root) cursor sortKey
    let found := (listing formats sortKey root).filter fun file =>
      past cursor (sortTime sortKey file)
    page.items = (found.filterMap (threadItem formats config)).take pageSize ∧
      page.nextCursor = if leftover formats config pageSize found then
        buildNextCursor formats page.items sortKey else none := by
  obtain ⟨hitems, hmore⟩ := pageFiles_eq formats config hsize
    (listing formats sortKey root) cursor (h.times_sorted sortKey)
  obtain ⟨scanned, hscanned, heq⟩ := getThreads_eq pageSize config sortKey hcap cursor
  have hreached : decide (maxScanFiles ≤ scanned) = false := decide_eq_false (by omega)
  rw [heq]
  refine ⟨hitems, ?_⟩
  simp only [threadsPage, hreached, Bool.false_and, Bool.or_false]
  rw [hmore]

/-! ## The listing as a source of pages -/

variable (pageSize config sortKey) in
/-- The matching files, by time and id, of which a cursor knows the time. -/
def SessionsLayout.source (h : SessionsLayout formats root) :
    Source Visited (Int ×ₗ Nat) Int where
  key file := toLex (sortTime sortKey file, file.id)
  cursor := resumeTime formats config sortKey
  past c k := (ofLex k).1 < c
  fetch cursor := (matching formats config sortKey root).filter fun file =>
    past cursor (sortTime sortKey file)
  trailing := trailing formats config (listing formats sortKey root)
  past_of_le := by
    intro c k k' hle hpast
    have hfst : (ofLex k').1 ≤ (ofLex k).1 :=
      (Prod.Lex.toLex_le_toLex.1 hle).elim le_of_lt fun heq => heq.1.le
    exact decide_eq_true (lt_of_le_of_lt hfst (of_decide_eq_true hpast))
  fetch_sorted cursor := by
    refine (h.listing_sorted.sublist (List.filter_sublist.trans List.filter_sublist)).imp ?_
    intro a b hnewest
    exact Prod.Lex.toLex_le_toLex.2 hnewest
  fetch_perm c := by
    have hnone : ((matching formats config sortKey root).filter fun file =>
        past none (sortTime sortKey file)) = matching formats config sortKey root :=
      List.filter_eq_self.2 fun _ _ => rfl
    rw [hnone]
    exact List.Perm.refl _
  cursor_of_key := by
    intro a b ha hb hkey
    have hid : a.id = b.id := (Prod.mk.inj (toLex.injective hkey)).2
    have hmem : ∀ {file}, file ∈ (matching formats config sortKey root).filter (fun file =>
        past none (sortTime sortKey file)) → file ∈ listing formats sortKey root := fun hfile =>
      List.mem_of_mem_filter (List.mem_of_mem_filter hfile)
    rw [h.eq_of_id (hmem ha) (hmem hb) hid]

/-- The files that a page is taken from are found in the listing. -/
theorem SessionsLayout.source_fetch (h : SessionsLayout formats root) (cursor : Option Int) :
    (h.source config sortKey).fetch cursor =
      ((listing formats sortKey root).filter fun file =>
        past cursor (sortTime sortKey file)).filter (isMatch formats config) :=
  List.filter_comm _ _ _

theorem SessionsLayout.source_fetch_none (h : SessionsLayout formats root) :
    (h.source config sortKey).fetch none = matching formats config sortKey root :=
  List.filter_eq_self.2 fun _ _ => rfl

theorem filterMap_matching (files : List Visited) :
    (files.filter (isMatch formats config)).filterMap (threadItem formats config) =
      files.filterMap (threadItem formats config) := by
  rw [List.filterMap_filter]
  refine List.filterMap_congr fun file _ => ?_
  rw [isMatch]
  cases threadItem formats config file <;> rfl

theorem take_filterMap (n : Nat) (files : List Visited) :
    (files.filterMap (threadItem formats config)).take n =
      ((files.filter (isMatch formats config)).take n).filterMap (threadItem formats config) := by
  rw [← filterMap_matching]
  induction files generalizing n with
  | nil => simp
  | cons file files ih =>
    cases hitem : threadItem formats config file with
    | none => 
      rw [List.filter_cons_of_neg (by simp [isMatch, hitem])]
      exact ih n
    | some item =>
      rw [List.filter_cons_of_pos (by simp [isMatch, hitem])]
      cases n with
      | zero => rfl
      | succ n => simp [List.filterMap_cons_some hitem, ih]

/-- What a file in the directories was collected by. -/
theorem mem_rolloutFiles {file : Visited} (h : file ∈ rolloutFiles formats root) :
    file.path.getLast? = some file.file.name ∧
      parseTimestampUuidFromFilename formats file.file.name = some (file.ts, file.id) := by
  obtain ⟨year, -, h⟩ := List.mem_flatMap.1 h
  obtain ⟨month, -, h⟩ := List.mem_flatMap.1 h
  obtain ⟨day, -, h⟩ := List.mem_flatMap.1 h
  obtain ⟨file', -, heq⟩ := List.mem_filterMap.1 ((List.perm_insertionSort _ _).mem_iff.1 h)
  split at heq
  · cases heq
  · obtain ⟨⟨ts, id⟩, hparse, rfl⟩ := Option.map_eq_some_iff.1 heq
    exact ⟨List.getLast?_concat .., hparse⟩

theorem threadItem_path {file : Visited} {item : ThreadItem}
    (h : threadItem formats config file = some item) : item.path = file.path := by
  rw [threadItem, buildThreadItem] at h
  split at h
  · cases h
  · split at h
    · cases h
    · split at h
      · cases h
      · split at h
        · cases h
          rfl
        · cases h

variable (root) in
theorem buildNextCursor_eq {files : List Visited}
    (hfiles : ∀ file ∈ files, file ∈ rolloutFiles formats root ∧ isMatch formats config file) :
    buildNextCursor formats (files.filterMap (threadItem formats config)) sortKey =
      files.getLast?.bind (resumeTime formats config sortKey) := by
  rcases List.eq_nil_or_concat files with rfl | ⟨init, last, rfl⟩
  · rfl
  · obtain ⟨hmem, hmatch⟩ := hfiles last (by simp)
    obtain ⟨item, hitem⟩ := Option.isSome_iff_exists.1 hmatch
    obtain ⟨hpath, hparse⟩ := mem_rolloutFiles hmem
    rw [List.concat_eq_append, List.getLast?_concat, List.filterMap_append,
      List.filterMap_cons_some hitem, List.filterMap_nil, buildNextCursor, List.getLast?_concat]
    simp only [Option.bind_eq_bind, Option.bind_some, threadItem_path hitem, hpath, hparse]
    cases sortKey with
    | createdAt => rfl
    | updatedAt => simp [resumeTime, hitem]

/-- A full page takes something for more exactly when the source does. -/
theorem SessionsLayout.leftover_eq_more (h : SessionsLayout formats root) (hsize : 0 < pageSize)
    (cursor : Option Int) :
    leftover formats config pageSize ((listing formats sortKey root).filter fun file =>
      past cursor (sortTime sortKey file)) = (h.source config sortKey).more pageSize cursor := by
  rw [leftover_eq, Source.more, ← h.source_fetch]
  congr 1
  -- Only a page that ends the matching files asks whether a file follows.
  cases hfull : ((h.source config sortKey).fetch cursor).length == pageSize with
  | false => rw [Bool.and_false, Bool.and_false]
  | true =>
    rw [Bool.and_true, Bool.and_true]
    have hlast : ((listing formats sortKey root).filter fun file =>
        past cursor (sortTime sortKey file)).getLast? = (listing formats sortKey root).getLast? := by
      rcases List.eq_nil_or_concat (listing formats sortKey root) with hnil | ⟨init, last, heq⟩
      · rw [hnil]
        rfl
      · obtain ⟨file, hfile⟩ : ∃ file, file ∈ (h.source config sortKey).fetch cursor :=
          List.exists_mem_of_length_pos (by rw [beq_iff_eq.1 hfull]; exact hsize)
        obtain ⟨hfile, hpast⟩ := List.mem_filter.1 hfile
        have hfile := List.mem_of_mem_filter hfile
        have hsorted := h.times_sorted sortKey
        rw [heq, List.concat_eq_append] at hfile hsorted ⊢
        have hle : sortTime sortKey last ≤ sortTime sortKey file := by
          rcases List.mem_append.1 hfile with hinit | hone
          · exact (List.pairwise_append.1 hsorted).2.2 file hinit last List.mem_cons_self
          · rw [List.mem_singleton.1 hone]
        have hlastPast : past cursor (sortTime sortKey last) := by
          cases cursor with
          | none => rfl
          | some c => exact decide_eq_true (lt_of_le_of_lt hle (of_decide_eq_true hpast))
        rw [List.filter_append, List.filter_cons_of_pos
          (p := fun file => past cursor (sortTime sortKey file)) hlastPast, List.filter_nil,
          List.getLast?_concat, List.getLast?_concat]
    rw [trailing, hlast]
    rfl

variable (config sortKey) in
theorem SessionsLayout.page_eq (h : SessionsLayout formats root)
    (hcap : (rolloutFiles formats root).length < maxScanFiles) (hsize : 0 < pageSize)
    (cursor : Option Int) :
    let page := getThreads formats pageSize config (some root) cursor sortKey
    let page' := (h.source config sortKey).page pageSize cursor
    page.items = page'.1.filterMap (threadItem formats config) ∧ page.nextCursor = page'.2 := by
  obtain ⟨hitems, hnext⟩ := h.getThreads_page config sortKey hcap hsize cursor
  have hitems' : (getThreads formats pageSize config (some root) cursor sortKey).items =
      ((h.source config sortKey).page pageSize cursor).1.filterMap (threadItem formats config) := by
    rw [hitems, take_filterMap, Source.page, h.source_fetch]
  refine ⟨hitems', ?_⟩
  rw [hnext, h.leftover_eq_more hsize, hitems', buildNextCursor_eq root]
  · rfl
  · intro file hfile
    have hmem := List.mem_of_mem_filter (List.mem_of_mem_take hfile)
    exact ⟨listing_perm.mem_iff.1 (List.mem_of_mem_filter hmem), (List.mem_filter.1 hmem).2⟩

theorem SessionsLayout.follows_iff (h : SessionsLayout formats root)
    (hcap : (rolloutFiles formats root).length < maxScanFiles) (hsize : 0 < pageSize)
    {cursor : Option Int} {items : List ThreadItem} :
    Follows formats pageSize config sortKey root cursor items ↔
      ∃ files, (h.source config sortKey).Reads pageSize cursor files ∧
        items = files.filterMap (threadItem formats config) := by
  have hpage := h.page_eq config sortKey hcap hsize
  constructor
  · intro hfollows
    induction hfollows with
    | last hlast => 
      refine ⟨_, .last ?_, (hpage _).1⟩
      rw [← (hpage _).2]
      exact hlast
    | next hnext _ ih =>
      obtain ⟨files, hreads, rfl⟩ := ih
      rw [(hpage _).2] at hnext
      refine ⟨_, .next hnext hreads, ?_⟩
      rw [List.filterMap_append, (hpage _).1]
  · rintro ⟨files, hreads, rfl⟩
    induction hreads with
    | last hlast =>
      rw [← (hpage _).1]
      refine .last ?_
      rw [(hpage _).2]
      exact hlast
    | next hnext _ ih =>
      rw [List.filterMap_append, ← (hpage _).1]
      refine .next ?_ ih
      rw [(hpage _).2]
      exact hnext

theorem SessionsLayout.mem_listing_of_reads (h : SessionsLayout formats root)
    {cursor : Option Int} {files : List Visited}
    (hreads : (h.source config sortKey).Reads pageSize cursor files) :
    ∀ file ∈ files, file ∈ matching formats config sortKey root := by
  induction hreads with
  | last _ => exact fun file hfile => List.mem_of_mem_filter (List.mem_of_mem_take hfile)
  | next _ _ ih =>
    intro file hfile
    rcases List.mem_append.1 hfile with hpage | hrest
    · exact List.mem_of_mem_filter (List.mem_of_mem_take hpage)
    · exact ih file hrest

/-- Threads tell their files apart: a path names the file, and its name the id. -/
theorem SessionsLayout.filterMap_inj (h : SessionsLayout formats root) :
    ∀ {files files' : List Visited}, (∀ file ∈ files, file ∈ matching formats config sortKey root) →
      (∀ file ∈ files', file ∈ matching formats config sortKey root) →
      files.filterMap (threadItem formats config) = files'.filterMap (threadItem formats config) →
      files = files'
  | [], [], _, _, _ => rfl
  | [], file' :: _, _, hmem', heq => by
    obtain ⟨item, hitem⟩ := Option.isSome_iff_exists.1
      (List.mem_filter.1 (hmem' file' List.mem_cons_self)).2
    rw [List.filterMap_nil, List.filterMap_cons_some hitem] at heq
    cases heq
  | file :: _, [], hmem, _, heq => by
    obtain ⟨item, hitem⟩ := Option.isSome_iff_exists.1
      (List.mem_filter.1 (hmem file List.mem_cons_self)).2
    rw [List.filterMap_nil, List.filterMap_cons_some hitem] at heq
    cases heq
  | file :: files, file' :: files', hmem, hmem', heq => by
    rw [List.forall_mem_cons] at hmem hmem'
    obtain ⟨hfile, hmatch⟩ := List.mem_filter.1 hmem.1
    obtain ⟨hfile', hmatch'⟩ := List.mem_filter.1 hmem'.1
    obtain ⟨item, hitem⟩ := Option.isSome_iff_exists.1 hmatch
    obtain ⟨item', hitem'⟩ := Option.isSome_iff_exists.1 hmatch'
    rw [List.filterMap_cons_some hitem, List.filterMap_cons_some hitem', List.cons.injEq] at heq
    obtain ⟨hpath, hparse⟩ := mem_rolloutFiles (listing_perm.mem_iff.1 hfile)
    obtain ⟨hpath', hparse'⟩ := mem_rolloutFiles (listing_perm.mem_iff.1 hfile')
    have hname : file.file.name = file'.file.name := by
      rw [← threadItem_path hitem, heq.1, threadItem_path hitem', hpath'] at hpath
      exact (Option.some.inj hpath).symm
    rw [hname, hparse'] at hparse
    have hid : file'.id = file.id := (Prod.mk.inj (Option.some.inj hparse)).2
    rw [h.eq_of_id hfile hfile' hid.symm, h.filterMap_inj hmem.2 hmem'.2 heq.2]

theorem SessionsLayout.resumes_iff (h : SessionsLayout formats root) :
    (h.source config sortKey).Resumes pageSize ↔
      PagesSeparate formats pageSize config sortKey root := by
  rw [Source.Resumes, h.source_fetch_none]
  have hpast : ∀ c file, ((h.source config sortKey).past c ((h.source config sortKey).key file) =
      true) ↔ sortTime sortKey file < c := fun c file => decide_eq_true_iff
  simp only [hpast, not_lt]
  rfl

theorem SessionsLayout.matching_nodup (h : SessionsLayout formats root) :
    (matching formats config sortKey root).Nodup :=
  h.listing_ids.of_map.sublist List.filter_sublist

end

end

/-! ## Two threads of one second -/

section

def uuids : List (List Char × Nat) :=
  [("11111111-1111-4111-8111-111111111111".toList, 0x11111111111141118111111111111111),
    ("22222222-2222-4222-8222-222222222222".toList, 0x22222222222242228222222222222222)]

/-- The formats, at 10 o'clock of a day. -/
def tenOClock : Formats where
  parseUuid s := uuids.lookup s
  parseTimestamp s := if s = "2025-09-01T10-00-00".toList then some 1756720800000000000 else none
  date _ := (2025, 9, 1)
  formatRfc3339 t :=
    if t = 1756720800000000000 then some "2025-09-01T10:00:00Z".toList else none
  parseRfc3339 s :=
    if s = "2025-09-01T10:00:00Z".toList then some 1756720800000000000 else none
  pathsMatchAfterNormalization path path' := path = path'
  date_le _ := Or.inr ⟨rfl, Or.inr ⟨rfl, le_refl _⟩⟩

def rolloutFile (id : List Char) : RolloutFile where
  name := "rollout-2025-09-01T10-00-00-".toList ++ id ++ ".jsonl".toList
  lines := [
    .parsed ⟨"2025-09-01T10:00:00Z".toList, .sessionMeta ⟨id, "2025-09-01T10:00:00Z".toList,
      "/work".toList, "cli".toList, some "openai".toList⟩⟩,
    .parsed ⟨"2025-09-01T10:00:00Z".toList, .userMessage⟩]
  modified := some 1756720800000000000

def twoThreads : List Year :=
  [("2025".toList, [("09".toList, [("01".toList, uuids.map fun id => rolloutFile id.1)])])]

def unfiltered : ThreadListConfig := ⟨[], none, none, "openai".toList⟩

theorem sessionsLayout_twoThreads : SessionsLayout tenOClock twoThreads where
  day := by decide +kernel
  years := by decide +kernel
  months := by decide +kernel
  days := by decide +kernel
  ids := by decide +kernel

end

end Mcodex.Rollout.Listing
