import Tulux.GeoNetRouter.LocationTable
import Tulux.Lib.CheckedInt

/-! When an entry of the location table has expired: for `Find`, and for a sweep of
`RefreshTask`. -/
namespace Tulux.GeoNetRouter
open QCoder SortedMap CheckedInt

/-- The entry is older than the lifetime, which is in seconds. -/
def LocTableEntry.Old (e : LocTableEntry) (lifeTime : ℤ) (now : ℕ) : Prop :=
  lifeTime * 1000 < e.age now

instance (e : LocTableEntry) (lifeTime : ℤ) (now : ℕ) : Decidable (e.Old lifeTime now) :=
  inferInstanceAs (Decidable (_ < _))

namespace Table

/-- The loop of a sweep over the rest of the table. An entry that is erased is the one that the loop
goes on from, and there is nothing to go on from then. -/
def sweepFrom (lifeTime : ℤ) (now : ℕ) (table : Table) : Table → Option Table
  | [] => some table
  | e :: rest => if e.2.outdated lifeTime now then none else sweepFrom lifeTime now table rest

def sweep (lifeTime : ℤ) (now : ℕ) (table : Table) : Option Table :=
  sweepFrom lifeTime now table table

/-- `Find` and a sweep take the old entries for expired, without an overflow. `Find` takes nothing
away that it is not asked for, and a sweep takes away all old entries and no others. -/
structure OneExpiry (f : ℕ → ℕ) (lifeTime : ℤ) (now : ℕ) (table : Table) : Prop where
  noOverflow : Fits 32 (lifeTime * 1000000) ∧ Fits 32 (lifeTime * 1000)
  finds : ∀ e ∈ table, e.2.expired lifeTime now = true ↔ e.2.Old lifeTime now
  outdates : ∀ e ∈ table, e.2.outdated lifeTime now = true ↔ e.2.Old lifeTime now
  findOnly : ∀ addr addr', addr ≠ addr' →
    lookup f addr' (table.find f lifeTime now addr) = lookup f addr' table
  sweeps : table.sweep lifeTime now = some (table.filter fun e => !decide (e.2.Old lifeTime now))

section Expiry
variable {f : ℕ → ℕ} {lifeTime : ℤ} {now : ℕ} {table rest : Table} {e : LocTableEntry}

/-- A sweep comes to its end when nothing is outdated, and then changes nothing. -/
theorem sweepFrom_eq (table rest : Table) : sweepFrom lifeTime now table rest =
    if ∀ e ∈ rest, e.2.outdated lifeTime now = false then some table else none := by
  induction rest with
  | nil => simp [sweepFrom]
  | cons e rest ih =>
    rw [sweepFrom, ih]
    cases hold : e.2.outdated lifeTime now with
    | true => exact (if_pos rfl).trans (if_neg (by simp [hold])).symm
    | false => exact (if_neg (by simp)).trans (if_congr (by simp [hold]) rfl rfl)

/-- Where a sweep comes to its end it does what it is for. -/
theorem refresh_of_sweep {table' : Table} (h : table.sweep lifeTime now = some table') :
    table' = table.refresh lifeTime now := by
  rw [sweep, sweepFrom_eq] at h
  split_ifs at h with hnone
  obtain rfl := Option.some.inj h
  refine (List.filter_eq_self.mpr fun e he => ?_).symm
  rw [hnone e he, Bool.not_false]

theorem find_findOnly (f : ℕ → ℕ) (lifeTime : ℤ) (now : ℕ) (table : Table) {addr addr' : ℕ}
    (hne : addr ≠ addr') :
    lookup f addr' (table.find f lifeTime now addr) = lookup f addr' table := by
  unfold Table.find
  split
  · split_ifs
    · exact lookup_erase_of_ne hne
    · rfl
  · rfl

theorem fits_iff : Fits 32 (lifeTime * 1000000) ∧ Fits 32 (lifeTime * 1000) ↔
    -2147 ≤ lifeTime ∧ lifeTime ≤ 2147 := by
  unfold Fits
  omega

/-- The threshold of `Find` is a thousand times too great. -/
theorem expired_iff (hmin : 0 ≤ lifeTime) (hmax : lifeTime ≤ 2147) :
    e.expired lifeTime now = true ↔ lifeTime * 1000000 < e.age now := by
  unfold LocTableEntry.expired u32
  rw [decide_eq_true_iff]
  omega

theorem outdated_iff (hmin : 0 ≤ lifeTime) (hmax : lifeTime ≤ 2147) :
    e.outdated lifeTime now = true ↔ e.Old lifeTime now := by
  unfold LocTableEntry.outdated LocTableEntry.Old u32
  rw [decide_eq_true_iff]
  omega

/-- A table whose entry is of the first second. -/
def firstSecond : Table := [(0, .ofLpv ⟨readAddr (fun _ => 0) 0, ntohl 1000, 0, 0, 1⟩ false)]

end Expiry

end Table

end Tulux.GeoNetRouter
