import Mcodex.Lib.Paging
import Mcodex.Threads.Metadata

/-!
# Paging through the threads table

A query selects the rows that pass the filter and lie past the anchor, sorted by one column of
milliseconds, and the next anchor is the instant that this column of the page's last row stands for.
Which of two rows with one value comes first is left to SQLite. Following the anchors returns every
row once exactly when no page ends between two rows of one value, and all rows can be read
(`threads_listed`).
-/

namespace Mcodex.Threads

open Table Paging

inductive SortKey where
  | createdAt
  | updatedAt
  deriving DecidableEq, Repr

inductive SortDirection where
  | asc
  | desc
  deriving DecidableEq, Repr

structure ThreadFilterOptions where
  archivedOnly : Bool
  allowedSources : List (List Char)
  modelProviders : Option (List (List Char))
  cwdFilters : Option (List (List Char))
  anchor : Option Int
  sortKey : SortKey
  sortDirection : SortDirection
  searchTerm : Option (List Char)
  deriving DecidableEq, Repr

abbrev KeyedRow := ThreadId × ThreadRow

def SortKey.column : SortKey → KeyedRow → Int
  | createdAt, row => row.2.createdAtMs
  | updatedAt, row => row.2.updatedAtMs

/-- `instr(text, term) > 0`. -/
def contains (text term : List Char) : Bool := text.tails.any term.isPrefixOf

/-- A value is sorted before another, or has its place. -/
def SortDirection.Before : SortDirection → Int → Int → Prop
  | asc, a, b => a ≤ b
  | desc, a, b => b ≤ a

/-- `ORDER BY column`. Rows of one value come in any order, which may differ between queries. -/
structure Sqlite where
  orderBy : (KeyedRow → Int) → SortDirection → List KeyedRow → List KeyedRow
  orderBy_perm : ∀ column direction rows, (orderBy column direction rows).Perm rows
  orderBy_sorted : ∀ column direction rows,
    (orderBy column direction rows).Pairwise fun a b => direction.Before (column a) (column b)

namespace ThreadFilterOptions

variable (options : ThreadFilterOptions)

/-- The conditions of `push_thread_filters` but the anchor's. -/
def passes (row : KeyedRow) : Bool :=
  row.2.archived == options.archivedOnly && row.2.firstUserMessage != [] &&
    (options.allowedSources.isEmpty || options.allowedSources.contains row.2.source) &&
    (options.modelProviders.all fun providers =>
      providers.isEmpty || providers.contains row.2.modelProvider) &&
    (options.cwdFilters.all fun cwds => cwds.contains row.2.cwd) &&
    options.searchTerm.all (contains row.2.title)

/-- A value is past an anchor. -/
def past (anchor value : Int) : Bool :=
  match options.sortDirection with
  | .asc => datetimeToEpochMillis anchor < value
  | .desc => value < datetimeToEpochMillis anchor

end ThreadFilterOptions

def anchorFromItem (item : ThreadMetadata) : SortKey → Int
  | .createdAt => item.createdAt
  | .updatedAt => item.updatedAt

structure ThreadsPage where
  items : List ThreadMetadata
  nextAnchor : Option Int
  numScannedRows : Nat
  deriving DecidableEq, Repr

section
variable (sqlite : Sqlite) (chrono : Chrono)

/-- The rows of the query, before its limit. -/
def query (threads : Keyed ThreadId ThreadRow) (options : ThreadFilterOptions) : List KeyedRow :=
  sqlite.orderBy options.sortKey.column options.sortDirection
    ((threads.entries.map fun entry => (entry.1, entry.2)).filter fun row =>
      options.passes row && options.anchor.all (options.past · (options.sortKey.column row)))

/-- `list_threads`. It fails where a row cannot be read. -/
def listThreads (threads : Keyed ThreadId ThreadRow) (pageSize : Nat)
    (options : ThreadFilterOptions) : Option ThreadsPage := do
  let rows := (query sqlite threads options).take (pageSize + 1)
  let items ← rows.mapM fun row => row.2.metadata chrono row.1
  let page := if pageSize < items.length then items.dropLast else items
  return {
    items := page
    nextAnchor := if pageSize < items.length then
        page.getLast?.map fun item => anchorFromItem item options.sortKey
      else none
    numScannedRows := items.length }

/-- The items that the pages hold from an anchor on, when their anchors are followed. -/
inductive Lists (threads : Keyed ThreadId ThreadRow) (pageSize : Nat)
    (options : ThreadFilterOptions) : Option Int → List ThreadMetadata → Prop
  | last {anchor : Option Int} {page : ThreadsPage}
    (hpage : listThreads sqlite chrono threads pageSize { options with anchor } = some page)
    (hlast : page.nextAnchor = none) : Lists threads pageSize options anchor page.items
  | next {anchor : Option Int} {page : ThreadsPage} {c : Int} {rest : List ThreadMetadata}
    (hpage : listThreads sqlite chrono threads pageSize { options with anchor } = some page)
    (hnext : page.nextAnchor = some c) (hrest : Lists threads pageSize options (some c) rest) :
    Lists threads pageSize options anchor (page.items ++ rest)

/-- The rows that a listing is to return. -/
def passing (threads : Keyed ThreadId ThreadRow) (options : ThreadFilterOptions) :
    List KeyedRow :=
  (threads.entries.map fun entry => (entry.1, entry.2)).filter options.passes

/-- Following the anchors from none lists each row that passes the filter once, in order. -/
def ListsAll (threads : Keyed ThreadId ThreadRow) (pageSize : Nat)
    (options : ThreadFilterOptions) : Prop :=
  ∃ (rows : List KeyedRow) (items : List ThreadMetadata), rows.Perm (passing threads options) ∧
    (rows.Pairwise fun a b => options.sortDirection.Before (options.sortKey.column a)
      (options.sortKey.column b)) ∧
    (rows.mapM fun row => row.2.metadata chrono row.1) = some items ∧
    Lists sqlite chrono threads pageSize options none items

/-- The instant that a row is sorted by. -/
def sortInstant (options : ThreadFilterOptions) (row : KeyedRow) : Option Int :=
  epochMillisToDatetime chrono (options.sortKey.column row)

/-- Each row that passes the filter can be read, and the anchor of each that a page can end with
separates it from the rows after it. -/
def AnchorsSeparate (threads : Keyed ThreadId ThreadRow) (pageSize : Nat)
    (options : ThreadFilterOptions) : Prop :=
  (∀ row ∈ passing threads options, (row.2.metadata chrono row.1).isSome) ∧
    ∀ pre last post, query sqlite threads { options with anchor := none } = pre ++ last :: post →
      pageSize ∣ pre.length + 1 → post ≠ [] →
      ∃ c, sortInstant chrono options last = some c ∧
        ¬ options.past c (options.sortKey.column last) ∧
        ∀ row ∈ post, options.past c (options.sortKey.column row)

variable {sqlite : Sqlite} {chrono : Chrono} {threads : Keyed ThreadId ThreadRow}
  {options : ThreadFilterOptions} {pageSize : Nat} {anchor : Option Int}

/-! ## Reading rows -/

theorem metadata_eq_some {id : ThreadId} {row : ThreadRow} {item : ThreadMetadata}
    (h : row.metadata chrono id = some item) :
    item.id = id ∧ epochMillisToDatetime chrono row.createdAtMs = some item.createdAt ∧
      epochMillisToDatetime chrono row.updatedAtMs = some item.updatedAt := by
  simp only [ThreadRow.metadata, Option.bind_eq_bind, Option.bind_eq_some_iff] at h
  obtain ⟨createdAt, hcreated, updatedAt, hupdated, heq⟩ := h
  cases heq
  exact ⟨rfl, hcreated, hupdated⟩

/-- The instant that a row is sorted by is that of its item. -/
theorem sortInstant_eq {row : KeyedRow} {item : ThreadMetadata}
    (h : row.2.metadata chrono row.1 = some item) :
    sortInstant chrono options row = some (anchorFromItem item options.sortKey) := by
  obtain ⟨-, hcreated, hupdated⟩ := metadata_eq_some h
  rw [sortInstant]
  cases options.sortKey with
  | createdAt => exact hcreated
  | updatedAt => exact hupdated

theorem map_of_mapM {α β : Type} {f : α → Option β} : ∀ {rows : List α} {items : List β},
    rows.mapM f = some items → rows.map f = items.map some
  | [], _, h => by
    cases h
    rfl
  | row :: rows, items, h => by
    simp only [List.mapM_cons, Option.bind_eq_bind, Option.bind_eq_some_iff, Option.pure_def,
      Option.some.injEq] at h
    obtain ⟨item, hitem, rest, hrest, rfl⟩ := h
    rw [List.map_cons, List.map_cons, hitem, map_of_mapM hrest]

theorem mapM_of_map {α β : Type} {f : α → Option β} : ∀ {rows : List α} {items : List β},
    rows.map f = items.map some → rows.mapM f = some items
  | [], [], _ => rfl
  | row :: rows, item :: items, h => by
    rw [List.map_cons, List.map_cons, List.cons.injEq] at h
    rw [List.mapM_cons, h.1, mapM_of_map h.2]
    rfl

theorem exists_map_some {α β : Type} {f : α → Option β} : ∀ {rows : List α},
    (∀ row ∈ rows, (f row).isSome) → ∃ items : List β, rows.map f = items.map some
  | [], _ => ⟨[], rfl⟩
  | row :: rows, h => by
    rw [List.forall_mem_cons] at h
    obtain ⟨item, hitem⟩ := Option.isSome_iff_exists.1 h.1
    obtain ⟨items, hitems⟩ := exists_map_some h.2
    exact ⟨item :: items, by rw [List.map_cons, List.map_cons, hitem, hitems]⟩

/-- The rows that a query finds pass the filter. -/
theorem query_subset : ∀ row ∈ query sqlite threads { options with anchor },
    row ∈ passing threads options := by
  intro row hrow
  obtain ⟨hmem, hpass⟩ := List.mem_filter.1 ((sqlite.orderBy_perm _ _ _).mem_iff.1 hrow)
  exact List.mem_filter.2 ⟨hmem, (Bool.and_eq_true_iff.1 hpass).1⟩

theorem query_perm : (query sqlite threads { options with anchor }).Perm
    ((passing threads options).filter fun row =>
      anchor.all (options.past · (options.sortKey.column row))) := by
  refine (sqlite.orderBy_perm _ _ _).trans ?_
  rw [passing, List.filter_filter]
  refine List.Perm.of_eq (List.filter_congr fun row _ => ?_)
  exact Bool.and_comm _ _

variable (sqlite) in
theorem query_none_perm :
    (query sqlite threads { options with anchor := none }).Perm (passing threads options) := by
  refine query_perm.trans (List.Perm.of_eq ?_)
  exact List.filter_eq_self.2 fun _ _ => rfl

theorem passing_ids : ((passing threads options).map (·.1)).Nodup := by
  have hids : ((threads.entries.map fun entry => (entry.1, entry.2)).map (·.1)).Nodup := by
    rw [List.map_map]
    exact threads.nodupKeys
  exact hids.sublist (List.filter_sublist.map _)

/-! ## The table as a source of pages -/

/-- A value in the order of the listing, largest first. -/
def SortDirection.signed : SortDirection → Int → Int
  | asc, value => -value
  | desc, value => value

theorem SortDirection.before_iff {direction : SortDirection} {a b : Int} :
    direction.Before a b ↔ direction.signed b ≤ direction.signed a := by
  cases direction with
  | asc => exact (Int.neg_le_neg_iff).symm
  | desc => exact Iff.rfl

theorem SortDirection.signed_signed {direction : SortDirection} {a : Int} :
    direction.signed (direction.signed a) = a := by
  cases direction with
  | asc => exact Int.neg_neg a
  | desc => rfl

variable (sqlite chrono threads options) in
/-- The rows that pass the filter, as the queries of its anchors find them. -/
def source : Source KeyedRow Int Int where
  key row := options.sortDirection.signed (options.sortKey.column row)
  cursor := sortInstant chrono options
  past c k := options.past c (options.sortDirection.signed k)
  fetch anchor := query sqlite threads { options with anchor }
  trailing := false
  past_of_le := by
    intro c k k' hle hpast
    rw [ThreadFilterOptions.past] at hpast ⊢
    cases hdirection : options.sortDirection with
    | asc =>
      rw [hdirection] at hpast
      have hlt := of_decide_eq_true hpast
      refine decide_eq_true ?_
      simp only [SortDirection.signed] at hlt ⊢
      omega
    | desc =>
      rw [hdirection] at hpast
      exact decide_eq_true (lt_of_le_of_lt hle (of_decide_eq_true hpast))
  fetch_sorted anchor :=
    (sqlite.orderBy_sorted options.sortKey.column options.sortDirection _).imp fun h =>
      SortDirection.before_iff.1 h
  fetch_perm c := by
    have hpast : ∀ row : KeyedRow, options.past c (options.sortDirection.signed
        (options.sortDirection.signed (options.sortKey.column row))) =
          options.past c (options.sortKey.column row) := fun row => by
      rw [SortDirection.signed_signed]
    simp only [hpast]
    exact query_perm.trans ((query_none_perm sqlite).symm.filter _)
  cursor_of_key := by
    intro row row' _ _ hkey
    have hcolumn := congrArg options.sortDirection.signed hkey
    rw [SortDirection.signed_signed, SortDirection.signed_signed] at hcolumn
    rw [sortInstant, sortInstant, hcolumn]

theorem signed_past {c : Int} {row : KeyedRow} :
    (source sqlite chrono threads options).past c
      ((source sqlite chrono threads options).key row) =
        options.past c (options.sortKey.column row) :=
  congrArg (options.past c) SortDirection.signed_signed

variable (pageSize) in
/-- Where the rows can be read, a page is a page of the source. -/
theorem listThreads_eq (hread : ∀ row ∈ passing threads options,
      (row.2.metadata chrono row.1).isSome) (anchor : Option Int) :
    ∃ page, listThreads sqlite chrono threads pageSize { options with anchor } = some page ∧
      (((source sqlite chrono threads options).page pageSize anchor).1.map fun row =>
        row.2.metadata chrono row.1) = page.items.map some ∧
      page.nextAnchor = ((source sqlite chrono threads options).page pageSize anchor).2 := by
  obtain ⟨found, hfound⟩ : ∃ found : List ThreadMetadata,
      ((query sqlite threads { options with anchor }).take
      (pageSize + 1)).map (fun row => row.2.metadata chrono row.1) = found.map some :=
    exists_map_some fun row hrow => hread row (query_subset row (List.mem_of_mem_take hrow))
  have hlength : found.length =
      min (pageSize + 1) (query sqlite threads { options with anchor }).length := by
    have := congrArg List.length hfound
    rw [List.length_map, List.length_map, List.length_take] at this
    exact this.symm
  have hitems : (((query sqlite threads { options with anchor }).take pageSize).map fun row =>
      row.2.metadata chrono row.1) =
        (if pageSize < found.length then found.dropLast else found).map some := by
    split
    · rw [List.map_dropLast, ← hfound, ← List.map_dropLast, List.dropLast_eq_take, List.take_take,
        List.length_take, show min (min (pageSize + 1) (query sqlite threads
          { options with anchor }).length - 1) (pageSize + 1) = pageSize by omega]
    · rw [← hfound, List.take_of_length_le (by omega), List.take_of_length_le (by omega)]
  refine ⟨⟨if pageSize < found.length then found.dropLast else found,
    if pageSize < found.length then (if pageSize < found.length then found.dropLast
      else found).getLast?.map fun item => anchorFromItem item options.sortKey else none,
    found.length⟩, by rw [listThreads, mapM_of_map hfound]; rfl, hitems, ?_⟩
  have hmore : (source sqlite chrono threads options).more pageSize anchor =
      decide (pageSize < found.length) := by
    rw [Source.more, show (source sqlite chrono threads options).trailing = false from rfl,
      Bool.false_and, Bool.or_false]
    refine decide_eq_decide.2 ?_
    rw [show (source sqlite chrono threads options).fetch anchor =
      query sqlite threads { options with anchor } from rfl, hlength]
    omega
  rw [Source.page, hmore]
  by_cases hlong : pageSize < found.length
  · simp only [hlong, decide_true, if_true] at hitems ⊢
    -- The last row of the page and its item are sorted by one instant.
    have hlast := congrArg List.getLast? hitems
    rw [List.getLast?_map, List.getLast?_map] at hlast
    rw [show (source sqlite chrono threads options).fetch anchor =
      query sqlite threads { options with anchor } from rfl]
    cases hrow : ((query sqlite threads { options with anchor }).take pageSize).getLast? with
    | none =>
      rw [hrow, Option.map_none, eq_comm, Option.map_eq_none_iff] at hlast
      rw [hlast]
      rfl
    | some row =>
      rw [hrow, Option.map_some, eq_comm, Option.map_eq_some_iff] at hlast
      obtain ⟨item, hitem, hmetadata⟩ := hlast
      rw [hitem]
      exact (sortInstant_eq hmetadata.symm).symm
  · simp only [hlong, decide_false, if_false, Bool.false_eq_true]

theorem lists_iff (hread : ∀ row ∈ passing threads options,
      (row.2.metadata chrono row.1).isSome) {items : List ThreadMetadata} :
    Lists sqlite chrono threads pageSize options anchor items ↔
      ∃ rows, (source sqlite chrono threads options).Reads pageSize anchor rows ∧
        (rows.map fun row => row.2.metadata chrono row.1) = items.map some := by
  constructor
  · intro hlists
    induction hlists with
    | last hpage hlast =>
      obtain ⟨page, hpage', hitems, hnext⟩ := listThreads_eq pageSize hread _
      rw [hpage, Option.some.injEq] at hpage'
      subst hpage'
      exact ⟨_, .last (hnext ▸ hlast), hitems⟩
    | next hpage hlast _ ih =>
      obtain ⟨page, hpage', hitems, hnext⟩ := listThreads_eq pageSize hread _
      rw [hpage, Option.some.injEq] at hpage'
      subst hpage'
      obtain ⟨rows, hreads, hrest⟩ := ih
      refine ⟨_, .next (hnext ▸ hlast) hreads, ?_⟩
      rw [List.map_append, List.map_append, hitems, hrest]
  · rintro ⟨rows, hreads, hrows⟩
    induction hreads generalizing items with
    | last hlast =>
      obtain ⟨page, hpage, hitems, hnext⟩ := listThreads_eq pageSize hread _
      rw [hitems] at hrows
      rw [← List.map_injective_iff.2 (Option.some_injective _) hrows]
      exact .last hpage (hnext.trans hlast)
    | next hnext _ ih =>
      obtain ⟨page, hpage, hitems, hnext'⟩ := listThreads_eq pageSize hread _
      rw [List.map_append, hitems] at hrows
      obtain ⟨items₁, items₂, rfl, h₁, h₂⟩ := List.map_eq_append_iff.1 hrows.symm
      rw [← List.map_injective_iff.2 (Option.some_injective _) h₁.symm]
      exact .next hpage (hnext'.trans hnext) (ih h₂.symm)

theorem passing_of_reads {rows : List KeyedRow}
    (hreads : (source sqlite chrono threads options).Reads pageSize anchor rows) :
    ∀ row ∈ rows, row ∈ passing threads options := by
  induction hreads with
  | last _ => exact fun row hrow => query_subset row (List.mem_of_mem_take hrow)
  | next _ _ ih =>
    intro row hrow
    rcases List.mem_append.1 hrow with hpage | hrest
    · exact query_subset row (List.mem_of_mem_take hpage)
    · exact ih row hrest

/-- Rows are told apart by their ids, which their items have. -/
theorem rows_inj : ∀ {rows rows' : List KeyedRow} {items : List ThreadMetadata},
    (∀ row ∈ rows, row ∈ passing threads options) →
    (∀ row ∈ rows', row ∈ passing threads options) →
    (rows.map fun row => row.2.metadata chrono row.1) = items.map some →
    (rows'.map fun row => row.2.metadata chrono row.1) = items.map some → rows = rows'
  | [], [], _, _, _, _, _ => rfl
  | [], _ :: _, [], _, _, _, h => by cases h
  | _ :: _, [], [], _, _, h, _ => by cases h
  | [], _, _ :: _, _, _, h, _ => by cases h
  | _, [], _ :: _, _, _, _, h => by cases h
  | row :: rows, row' :: rows', item :: items, hmem, hmem', h, h' => by
    rw [List.forall_mem_cons] at hmem hmem'
    rw [List.map_cons, List.map_cons, List.cons.injEq] at h h'
    have hid : row.1 = row'.1 := (metadata_eq_some h.1).1.symm.trans (metadata_eq_some h'.1).1
    rw [List.inj_on_of_nodup_map passing_ids hmem.1 hmem'.1 hid, rows_inj hmem.2 hmem'.2 h.2 h'.2]

theorem resumes_iff :
    (source sqlite chrono threads options).Resumes pageSize ↔
      ∀ pre last post, query sqlite threads { options with anchor := none } = pre ++ last :: post →
        pageSize ∣ pre.length + 1 → post ≠ [] →
        ∃ c, sortInstant chrono options last = some c ∧
          ¬ options.past c (options.sortKey.column last) ∧
          ∀ row ∈ post, options.past c (options.sortKey.column row) := by
  rw [Source.Resumes]
  simp only [signed_past]
  exact forall₃_congr fun pre last post => forall₂_congr fun hquery hdvd =>
    ⟨fun h => h.1, fun h => ⟨h, fun _ htrailing => absurd htrailing Bool.false_ne_true⟩⟩

theorem listsAll_iff (hsize : 0 < pageSize) :
    ListsAll sqlite chrono threads pageSize options ↔
      AnchorsSeparate sqlite chrono threads pageSize options := by
  have hnodup : ((source sqlite chrono threads options).fetch none).Nodup :=
    (query_none_perm sqlite).nodup_iff.2 passing_ids.of_map
  have hkey : ∀ {rows : List KeyedRow}, (rows.Pairwise fun a b => options.sortDirection.Before
      (options.sortKey.column a) (options.sortKey.column b)) ↔
        rows.Pairwise fun a b => (source sqlite chrono threads options).key b ≤
          (source sqlite chrono threads options).key a :=
    ⟨fun h => h.imp SortDirection.before_iff.1, fun h => h.imp SortDirection.before_iff.2⟩
  rw [AnchorsSeparate, ← resumes_iff, ← Source.reads_iff hsize hnodup]
  constructor
  · rintro ⟨rows, items, hperm, hsorted, hmetadata, hlists⟩
    have hmap := map_of_mapM hmetadata
    have hread : ∀ row ∈ passing threads options, (row.2.metadata chrono row.1).isSome := by
      intro row hrow
      have hmem := List.mem_map_of_mem (f := fun row : KeyedRow => row.2.metadata chrono row.1)
        (hperm.mem_iff.2 hrow)
      rw [hmap] at hmem
      obtain ⟨item, -, hitem⟩ := List.mem_map.1 hmem
      rw [← hitem]
      rfl
    obtain ⟨rows', hreads, hmap'⟩ := (lists_iff hread).1 hlists
    have heq := rows_inj (fun row hrow => hperm.mem_iff.1 hrow) (passing_of_reads hreads) hmap hmap'
    subst heq
    exact ⟨hread, rows, hreads, hperm.trans (query_none_perm sqlite).symm, hkey.1 hsorted⟩
  · rintro ⟨hread, rows, hreads, hperm, hsorted⟩
    obtain ⟨items, hitems⟩ := exists_map_some (f := fun row : KeyedRow =>
      row.2.metadata chrono row.1) fun row hrow => hread row (passing_of_reads hreads row hrow)
    exact ⟨rows, items, hperm.trans (query_none_perm sqlite), hkey.2 hsorted, mapM_of_map hitems,
      (lists_iff hread).2 ⟨rows, hreads, hitems⟩⟩

end

/-! ## Tables that a process reaches -/

inductive ThreadOp where
  | upsertThread (metadata : ThreadMetadata)
  | insertThreadIfAbsent (metadata : ThreadMetadata)
  | touchThreadUpdatedAt (id : ThreadId) (updatedAt : Int)
  deriving DecidableEq, Repr

def ThreadOp.run (chrono : Chrono) (store : ThreadStore) : ThreadOp → ThreadStore
  | upsertThread metadata => (store.upsertThread chrono metadata).1
  | insertThreadIfAbsent metadata => (store.insertThreadIfAbsent chrono metadata).1
  | touchThreadUpdatedAt id updatedAt => (store.touchThreadUpdatedAt chrono id updatedAt).1

/-- The table after the calls of a process. -/
def tableAfter (chrono : Chrono) (ops : List ThreadOp) : Keyed ThreadId ThreadRow :=
  (ops.foldl (ThreadOp.run chrono) .new).threads

/-- **Paging through the threads table.** Whatever calls filled it, following the anchors lists
every row that passes the filter once and in order, exactly when each of them can be read and the
anchor of each row that a page can end with separates it from the rows after it. -/
theorem threads_listed {sqlite : Sqlite} {chrono : Chrono} {options : ThreadFilterOptions}
    {pageSize : Nat} (ops : List ThreadOp) (hsize : 0 < pageSize) :
    ListsAll sqlite chrono (tableAfter chrono ops) pageSize options ↔
      AnchorsSeparate sqlite chrono (tableAfter chrono ops) pageSize options :=
  listsAll_iff hsize

section

instance (direction : SortDirection) (a b : Int) : Decidable (direction.Before a b) :=
  match direction with
  | .asc => inferInstanceAs (Decidable (a ≤ b))
  | .desc => inferInstanceAs (Decidable (b ≤ a))

/-- Rows of one value in the order of the table. -/
def stableSqlite : Sqlite where
  orderBy column direction rows :=
    rows.insertionSort fun a b => direction.Before (column a) (column b)
  orderBy_perm _ _ _ := List.perm_insertionSort _ _
  orderBy_sorted column direction rows := by
    have htotal : Std.Total fun a b : KeyedRow => direction.Before (column a) (column b) := by
      cases direction with
      | asc => exact ⟨fun a b => le_total (column a) (column b)⟩
      | desc => exact ⟨fun a b => le_total (column b) (column a)⟩
    have htrans : IsTrans KeyedRow fun a b => direction.Before (column a) (column b) := by
      cases direction with
      | asc => exact ⟨fun _ _ _ h h' => le_trans h h'⟩
      | desc => exact ⟨fun _ _ _ h h' => le_trans h' h⟩
    exact List.pairwise_insertionSort _ _

def sameSecond (id : ThreadId) : ThreadMetadata where
  id := id
  rolloutPath := "/sessions/rollout.jsonl".toList
  createdAt := 1756720800000000000
  updatedAt := 1756720800000000000
  source := "cli".toList
  agentNickname := none
  agentRole := none
  agentPath := none
  modelProvider := "openai".toList
  model := none
  reasoningEffort := none
  cwd := "/work".toList
  cliVersion := "1".toList
  title := "hello".toList
  sandboxPolicy := "read-only".toList
  approvalMode := "on-request".toList
  tokensUsed := 0
  firstUserMessage := some "hello".toList
  archivedAt := none
  gitSha := none
  gitBranch := none
  gitOriginUrl := none

def twoRows : List ThreadOp := [.upsertThread (sameSecond 1), .upsertThread (sameSecond 2)]

def newestCreated : ThreadFilterOptions where
  archivedOnly := false
  allowedSources := []
  modelProviders := none
  cwdFilters := none
  anchor := none
  sortKey := .createdAt
  sortDirection := .desc
  searchTerm := none

/-- One page for both rows lists them. -/
theorem threads_listed_twoRows :
    ListsAll stableSqlite utc (tableAfter utc twoRows) 2 newestCreated := by
  refine (threads_listed twoRows (by decide)).2 ⟨by decide +kernel, ?_⟩
  intro pre last post hquery hdvd hpost
  have hlength := congrArg List.length hquery
  rw [show (query stableSqlite (tableAfter utc twoRows) { newestCreated with
    anchor := none }).length = 2 by decide +kernel, List.length_append, List.length_cons] at hlength
  have hpos := List.length_pos_iff.2 hpost
  omega

/-- With pages of one row, the second row of an instant is never listed. -/
theorem threads_unlisted :
    ¬ ListsAll stableSqlite utc (tableAfter utc twoRows) 1 newestCreated := by
  rintro ⟨rows, items, hperm, -, hmetadata, hlists⟩
  have hlength : items.length = 2 := by
    have hmap := congrArg List.length (map_of_mapM hmetadata)
    rw [List.length_map, List.length_map, hperm.length_eq] at hmap
    rw [← hmap]
    decide +kernel
  have hfirst : listThreads stableSqlite utc (tableAfter utc twoRows) 1
      { newestCreated with anchor := none } =
        some ⟨[{ sameSecond 2 with updatedAt := 1756720800001000000 }],
          some 1756720800000000000, 2⟩ := by decide +kernel
  have hsecond : listThreads stableSqlite utc (tableAfter utc twoRows) 1
      { newestCreated with anchor := some 1756720800000000000 } = some ⟨[], none, 0⟩ := by
    decide +kernel
  cases hlists with
  | last hpage hlast =>
    rw [hfirst, Option.some.injEq] at hpage
    subst hpage
    cases hlast
  | next hpage hnext hrest =>
    rw [hfirst, Option.some.injEq] at hpage
    subst hpage
    cases hnext
    cases hrest with
    | last hpage' _ =>
      rw [hsecond, Option.some.injEq] at hpage'
      subst hpage'
      cases hlength
    | next hpage' hnext' _ =>
      rw [hsecond, Option.some.injEq] at hpage'
      subst hpage'
      cases hnext'

end

end Mcodex.Threads
