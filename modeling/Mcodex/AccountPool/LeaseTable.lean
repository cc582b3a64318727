import Mathlib.Data.List.Sort
import Mcodex.AccountPool.Types
import Mcodex.Lib.Table

/-!
# The `account_leases` table

Rows of `account_leases` in insertion order. `LeaseTable` carries the schema's constraints: the
primary key and the two partial unique indexes on unreleased rows, so a table that breaks them
cannot be built. Every statement that writes the table is an insertion that the constraints admit
or an update of unreleased rows, and a released row is never written again (`LeaseTable.Later`).
-/

namespace Mcodex.AccountPool

open Table

/-! ## Rows -/

/-- A row of `account_leases`; instants in whole seconds. -/
structure LeaseRow where
  leaseId : Nat
  accountId : AccountId
  poolId : PoolId
  holderInstanceId : HolderId
  leaseEpoch : Nat
  acquiredAt : Int
  renewedAt : Int
  expiresAt : Int
  releasedAt : Option Int
  deriving DecidableEq, Repr

namespace LeaseRow

/-- `released_at IS NULL`. -/
def Unreleased (r : LeaseRow) : Prop := r.releasedAt = none

instance : DecidablePred Unreleased := fun r => inferInstanceAs (Decidable (r.releasedAt = none))

/-- `released_at IS NULL AND expires_at > now`. -/
def LiveAt (now : Int) (r : LeaseRow) : Prop := r.Unreleased ∧ now < r.expiresAt

instance (now : Int) : DecidablePred (LiveAt now) := fun _ => inferInstanceAs (Decidable (_ ∧ _))

def leaseKey (r : LeaseRow) : LeaseKey where
  leaseId := r.leaseId
  accountId := r.accountId
  leaseEpoch := r.leaseEpoch

/-- The record that `load_lease` reads from a row. -/
def record (r : LeaseRow) : AccountLeaseRecord where
  leaseId := r.leaseId
  poolId := r.poolId
  accountId := r.accountId
  holderInstanceId := r.holderInstanceId
  leaseEpoch := r.leaseEpoch
  acquiredAt := epochSecondsToDatetime r.acquiredAt
  renewedAt := epochSecondsToDatetime r.renewedAt
  expiresAt := epochSecondsToDatetime r.expiresAt
  releasedAt := r.releasedAt.map epochSecondsToDatetime

@[simp] theorem record_leaseKey (r : LeaseRow) : r.record.leaseKey = r.leaseKey := rfl

/-- `r'` is `r` at a later moment: the lease it records is the same, and a released row is not
written any more. -/
structure Later (r r' : LeaseRow) : Prop where
  leaseId : r'.leaseId = r.leaseId
  accountId : r'.accountId = r.accountId
  poolId : r'.poolId = r.poolId
  holderInstanceId : r'.holderInstanceId = r.holderInstanceId
  leaseEpoch : r'.leaseEpoch = r.leaseEpoch
  frozen : ¬r.Unreleased → r' = r

theorem Later.refl (r : LeaseRow) : r.Later r := ⟨rfl, rfl, rfl, rfl, rfl, fun _ => rfl⟩

theorem Later.trans {r₁ r₂ r₃ : LeaseRow} (h : r₁.Later r₂) (h' : r₂.Later r₃) : r₁.Later r₃ where
  leaseId := h'.leaseId.trans h.leaseId
  accountId := h'.accountId.trans h.accountId
  poolId := h'.poolId.trans h.poolId
  holderInstanceId := h'.holderInstanceId.trans h.holderInstanceId
  leaseEpoch := h'.leaseEpoch.trans h.leaseEpoch
  frozen hr := by
    have h₂ := h.frozen hr
    exact (h'.frozen (h₂ ▸ hr)).trans h₂

theorem Later.leaseKey {r r' : LeaseRow} (h : r.Later r') : r'.leaseKey = r.leaseKey := by
  simp [LeaseRow.leaseKey, h.leaseId, h.accountId, h.leaseEpoch]

/-- A row that is unreleased now was unreleased before. -/
theorem Later.unreleased {r r' : LeaseRow} (h : r.Later r') (hr : r'.Unreleased) :
    r.Unreleased := by
  by_contra hn
  exact hn (h.frozen hn ▸ hr)

end LeaseRow

/-- What an `UPDATE account_leases` sets. -/
inductive LeaseEdit where
  | release (releasedAt : Int)
  | renew (renewedAt expiresAt : Int)
  deriving DecidableEq, Repr

namespace LeaseEdit

def apply : LeaseEdit → LeaseRow → LeaseRow
  | .release at_, r => { r with releasedAt := some at_ }
  | .renew now expires, r => { r with renewedAt := now, expiresAt := expires }

theorem later_apply (e : LeaseEdit) {r : LeaseRow} (hr : r.Unreleased) : r.Later (e.apply r) := by
  cases e <;> exact ⟨rfl, rfl, rfl, rfl, rfl, fun h => absurd hr h⟩

end LeaseEdit

/-! ## The table -/

/-- `account_leases` with its primary key and its two partial unique indexes
(`account_leases_active_account_idx`, `account_leases_active_holder_idx`). -/
structure LeaseTable where
  rows : List LeaseRow
  idsFresh : ∀ r ∈ rows, r.leaseId < rows.length
  idsUnique : rows.Pairwise fun r r' => r.leaseId ≠ r'.leaseId
  activeAccount : UniqueOn LeaseRow.Unreleased LeaseRow.accountId rows
  activeHolder : UniqueOn LeaseRow.Unreleased LeaseRow.holderInstanceId rows
  deriving DecidableEq, Repr

namespace LeaseTable

/-- The table of a new database. -/
def empty : LeaseTable where
  rows := []
  idsFresh := by simp
  idsUnique := .nil
  activeAccount := .nil
  activeHolder := .nil

section
variable {t t' t'' : LeaseTable} {r r' : LeaseRow}

@[ext] theorem ext (h : t.rows = t'.rows) : t = t' := by
  cases t; cases t'; congr

theorem eq_of_leaseId (hr : r ∈ t.rows) (hr' : r' ∈ t.rows) (h : r.leaseId = r'.leaseId) :
    r = r' := by
  by_contra hne
  have : Std.Symm fun r r' : LeaseRow => r.leaseId ≠ r'.leaseId := ⟨fun _ _ h => h.symm⟩
  exact t.idsUnique.forall hr hr' hne h

/-- A table at a later moment: rows are kept, in order, each at a later moment of its own. -/
def Later (t t' : LeaseTable) : Prop :=
  ∀ (i : Nat) (r : LeaseRow), t.rows[i]? = some r → ∃ r', t'.rows[i]? = some r' ∧ r.Later r'

theorem Later.refl (t : LeaseTable) : t.Later t := fun _ r h => ⟨r, h, .refl r⟩

theorem Later.trans (h : t.Later t') (h' : t'.Later t'') : t.Later t'' := by
  intro i r hr
  obtain ⟨r', hr', hl⟩ := h i r hr
  obtain ⟨r'', hr'', hl'⟩ := h' i r' hr'
  exact ⟨r'', hr'', hl.trans hl'⟩

theorem Later.of_mem (h : t.Later t') (hr : r ∈ t.rows) : ∃ r' ∈ t'.rows, r.Later r' := by
  obtain ⟨i, hi⟩ := List.mem_iff_getElem?.1 hr
  obtain ⟨r', hr', hl⟩ := h i r hi
  exact ⟨r', List.mem_of_getElem? hr', hl⟩

/-! ## Updates -/

/-- The rows that `UPDATE … WHERE cond AND released_at IS NULL` rewrites. -/
def Selects (cond : LeaseRow → Bool) (r : LeaseRow) : Bool := decide r.Unreleased && cond r

theorem later_edit (cond : LeaseRow → Bool) (e : LeaseEdit) (r : LeaseRow) :
    r.Later (if Selects cond r then e.apply r else r) := by
  split
  · refine e.later_apply ?_
    simp only [Selects, Bool.and_eq_true, decide_eq_true_eq] at *
    tauto
  · exact .refl r

/-- `UPDATE account_leases SET e WHERE cond AND released_at IS NULL`. -/
def updateUnreleased (t : LeaseTable) (cond : LeaseRow → Bool) (e : LeaseEdit) : LeaseTable where
  rows := updateWhere (Selects cond) e.apply t.rows
  idsFresh := by
    intro r hr
    obtain ⟨r₀, h₀, rfl⟩ := mem_updateWhere.1 hr
    rw [(later_edit cond e r₀).leaseId]
    simpa [updateWhere] using t.idsFresh r₀ h₀
  idsUnique := by
    refine List.pairwise_map.2 (t.idsUnique.imp fun {r r'} h => ?_)
    rwa [(later_edit cond e r).leaseId, (later_edit cond e r').leaseId]
  activeAccount := t.activeAccount.map (fun r => (later_edit cond e r).accountId)
    fun r => (later_edit cond e r).unreleased
  activeHolder := t.activeHolder.map (fun r => (later_edit cond e r).holderInstanceId)
    fun r => (later_edit cond e r).unreleased

/-- `rows_affected` of `updateUnreleased`. -/
def rowsAffected (t : LeaseTable) (cond : LeaseRow → Bool) : Nat := t.rows.countP (Selects cond)

theorem later_updateUnreleased (t : LeaseTable) (cond : LeaseRow → Bool) (e : LeaseEdit) :
    t.Later (t.updateUnreleased cond e) := by
  intro i r hr
  refine ⟨_, ?_, later_edit cond e r⟩
  simp [updateUnreleased, updateWhere, hr]

theorem mem_updateUnreleased {cond : LeaseRow → Bool} {e : LeaseEdit} :
    r ∈ (t.updateUnreleased cond e).rows ↔
      ∃ r₀ ∈ t.rows, r = if Selects cond r₀ then e.apply r₀ else r₀ :=
  mem_updateWhere

/-- Releasing leaves unreleased exactly the unreleased rows that the condition passes over. -/
theorem mem_release_unreleased {cond : LeaseRow → Bool} {now : Int} :
    r ∈ (t.updateUnreleased cond (.release now)).rows ∧ r.Unreleased ↔
      r ∈ t.rows ∧ r.Unreleased ∧ cond r = false := by
  rw [mem_updateUnreleased]
  constructor
  · rintro ⟨⟨r₀, h₀, rfl⟩, hu⟩
    by_cases hs : Selects cond r₀
    · simp [hs, LeaseEdit.apply, LeaseRow.Unreleased] at hu
    · simp only [hs, Bool.false_eq_true, if_false] at hu ⊢
      refine ⟨h₀, hu, ?_⟩
      simpa [Selects, hu] using hs
  · rintro ⟨hr, hu, hc⟩
    exact ⟨⟨r, hr, by simp [Selects, hc]⟩, hu⟩

/-! ## Insertion -/

/-- Columns of a row to insert; the identifier and the epoch are computed. -/
structure Draft where
  accountId : AccountId
  poolId : PoolId
  holderInstanceId : HolderId
  acquiredAt : Int
  expiresAt : Int
  deriving DecidableEq, Repr

/-- `COALESCE((SELECT MAX(lease_epoch) + 1 … WHERE account_id = …), 1)`. -/
def nextEpoch (t : LeaseTable) (accountId : AccountId) : Nat :=
  match ((t.rows.filter (·.accountId = accountId)).map (·.leaseEpoch)).max? with
  | some e => e + 1
  | none => 1

/-- The row that `INSERT INTO account_leases` writes for a draft: a new identifier, the next epoch
of the account, `renewed_at` the acquisition time, unreleased. -/
def draftRow (t : LeaseTable) (d : Draft) : LeaseRow where
  leaseId := t.rows.length
  accountId := d.accountId
  poolId := d.poolId
  holderInstanceId := d.holderInstanceId
  leaseEpoch := t.nextEpoch d.accountId
  acquiredAt := d.acquiredAt
  renewedAt := d.acquiredAt
  expiresAt := d.expiresAt
  releasedAt := none

/-- The two partial unique indexes admit an unreleased row of this account and holder. -/
def Admits (t : LeaseTable) (accountId : AccountId) (holderInstanceId : HolderId) : Prop :=
  ∀ r ∈ t.rows, r.Unreleased →
    r.accountId ≠ accountId ∧ r.holderInstanceId ≠ holderInstanceId

instance (t : LeaseTable) (a : AccountId) (h : HolderId) : Decidable (t.Admits a h) :=
  inferInstanceAs (Decidable (∀ r ∈ t.rows, _))

/-- `INSERT INTO account_leases`; `none` is a unique-constraint violation. -/
def insert (t : LeaseTable) (d : Draft) : Option LeaseTable :=
  if h : t.Admits d.accountId d.holderInstanceId then
    some {
      rows := t.rows ++ [t.draftRow d]
      idsFresh := by
        intro r hr
        rcases List.mem_append.1 hr with hr | hr
        · have := t.idsFresh r hr
          simp; omega
        · rw [List.mem_singleton.1 hr]
          simp [draftRow]
      idsUnique := by
        refine List.pairwise_append.2 ⟨t.idsUnique, List.pairwise_singleton _ _, fun r hr r' hr' => ?_⟩
        rw [List.mem_singleton.1 hr']
        exact Nat.ne_of_lt (t.idsFresh r hr)
      activeAccount := t.activeAccount.append fun r hr hu => (h r hr hu).1
      activeHolder := t.activeHolder.append fun r hr hu => (h r hr hu).2 }
  else none

theorem insert_eq_some {d : Draft} : t.insert d = some t' ↔
    t.Admits d.accountId d.holderInstanceId ∧ t'.rows = t.rows ++ [t.draftRow d] := by
  unfold insert
  split
  · rename_i h
    simp only [Option.some.injEq, h, true_and]
    exact ⟨fun e => e ▸ rfl, fun e => ext e.symm⟩
  · simp_all

theorem insert_isSome {d : Draft} (h : t.Admits d.accountId d.holderInstanceId) :
    ∃ t', t.insert d = some t' ∧ t'.rows = t.rows ++ [t.draftRow d] := by
  simp [insert, h]

theorem later_insert {d : Draft} (h : t.insert d = some t') : t.Later t' := by
  intro i r hr
  refine ⟨r, ?_, .refl r⟩
  rw [(insert_eq_some.1 h).2, List.getElem?_append_left]
  · exact hr
  · exact (List.getElem?_eq_some_iff.1 hr).1

/-- The next epoch of an account is above the epochs of its rows. -/
theorem lt_nextEpoch (hr : r ∈ t.rows) : r.leaseEpoch < t.nextEpoch r.accountId := by
  have hmem : r.leaseEpoch ∈ (t.rows.filter (·.accountId = r.accountId)).map (·.leaseEpoch) :=
    List.mem_map.2 ⟨r, List.mem_filter.2 ⟨hr, by simp⟩, rfl⟩
  unfold nextEpoch
  split
  · rename_i e he
    have := (List.max?_eq_some_iff.1 he).2 _ hmem
    omega
  · rename_i he
    rw [List.max?_eq_none_iff.1 he] at hmem
    cases hmem

end

end LeaseTable

end Mcodex.AccountPool
