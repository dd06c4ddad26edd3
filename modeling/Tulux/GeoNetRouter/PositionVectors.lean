import Tulux.GeoNetRouter.LocationTable
import Tulux.Lib.GuardedRun
import Tulux.Lib.SerialNumber

/-! The timestamps of the position vectors that the location table stores and hands out, over runs
of `Update`. -/
namespace Tulux.GeoNetRouter
open SortedMap GuardedRun SerialNumber

/-- The timestamp of one vector is ahead of that of another modulo `2 ^ 32`. -/
def Newer (tst tst' : ℕ) : Prop := Ahead (2 ^ 32) (ntohl tst) (ntohl tst')

instance (tst tst' : ℕ) : Decidable (Newer tst tst') := inferInstanceAs (Decidable (Ahead _ _ _))

namespace LocTableEntry

/-- The stored vector with the place and the time of the destination of a packet. -/
def withDestination (e : LocTableEntry) (dePv : Spv) : Lpv :=
  { e.lpv with latitude := dePv.latitude, longitude := dePv.longitude, tst := dePv.tst }

/-- The destination vector of a packet with the place and the time of the stored one. -/
def storedDestination (e : LocTableEntry) (dePv : Spv) : Spv :=
  { dePv with tst := e.lpv.tst, latitude := e.lpv.latitude, longitude := e.lpv.longitude }

/-- What `Update` makes of the destination vector of the packet. -/
def updatedDePv (e : LocTableEntry) (dePv : Spv) : Spv :=
  if e.isNeighbor ∧ moves (ntohl e.lpv.tst) (ntohl dePv.tst) then e.storedDestination dePv
  else dePv

end LocTableEntry

/-- The vector that `Update` is called with. -/
inductive PositionVector where
  | source (soPv : Lpv)
  | destination (dePv : Spv)

namespace PositionVector

/-- The vector is stored exactly when it is newer than the stored one. A neighbour keeps the stored
one, and the packet gets it only when it is newer than that of the packet. -/
def KeepsTime (e e' : LocTableEntry) : PositionVector → Prop
  | source soPv => e'.lpv = if Newer soPv.tst e.lpv.tst then soPv else e.lpv
  | destination dePv =>
    if e.isNeighbor then
      e'.lpv = e.lpv ∧ (e.updatedDePv dePv ≠ dePv → Newer e.lpv.tst dePv.tst)
    else e'.lpv = if Newer dePv.tst e.lpv.tst then e.withDestination dePv else e.lpv

/-- The timestamp of a source is not less than the stored one as a number, or half of the way round
from it; that of the destination of a neighbour is not greater by less than half; the vector of
another destination is newer, or the same as the stored one. -/
def InOrder (e : LocTableEntry) : PositionVector → Prop
  | source soPv =>
    ntohl e.lpv.tst ≤ ntohl soPv.tst ∨ ntohl e.lpv.tst - ntohl soPv.tst = 2 ^ 31
  | destination dePv =>
    if e.isNeighbor then
      ntohl dePv.tst ≤ ntohl e.lpv.tst ∨ 2 ^ 31 ≤ ntohl dePv.tst - ntohl e.lpv.tst
    else Newer dePv.tst e.lpv.tst ∨ e.withDestination dePv = e.lpv

end PositionVector

/-- A call of `Update`, with what the keys of the table show when it is made. -/
structure UpdateCall where
  view : ℕ → ℕ
  now : ℕ
  key : ℕ
  isNeighbor : Bool
  vector : PositionVector

namespace Table

/-- `Update` with its `Find`. -/
def updateCall (lifeTime : ℤ) (table : Table) (call : UpdateCall) : Table :=
  let table := table.find call.view lifeTime call.now (call.view call.key)
  match call.vector with
  | .source soPv => table.update call.view call.key soPv call.isNeighbor
  | .destination dePv => table.updateSpv call.view call.key dePv call.isNeighbor

/-- The entry that `Update` finds. -/
def foundBy (lifeTime : ℤ) (table : Table) (call : UpdateCall) : Option LocTableEntry :=
  table.found call.view lifeTime call.now (call.view call.key)

/-- An update keeps the time of the entry that it finds. -/
def KeepsTime (lifeTime : ℤ) (table : Table) (call : UpdateCall) : Prop :=
  ∀ e, table.foundBy lifeTime call = some e →
    ∃ e', lookup call.view (call.view call.key) (table.updateCall lifeTime call) = some e' ∧
      call.vector.KeepsTime e e'

/-- The vector of an update comes in order. -/
def InOrder (lifeTime : ℤ) (table : Table) (call : UpdateCall) : Prop :=
  ∀ e, table.foundBy lifeTime call = some e → call.vector.InOrder e

end Table

section Update
variable {lifeTime : ℤ} {table : Table} {call : UpdateCall} {e : LocTableEntry} {soPv : Lpv}
  {dePv : Spv} {tst tst' : ℕ}

theorem newer_iff : Newer tst tst' ↔ ntohl tst' < ntohl tst ∧ ntohl tst - ntohl tst' < 2 ^ 31 ∨
    ntohl tst < ntohl tst' ∧ 2 ^ 31 < ntohl tst' - ntohl tst := by
  rw [Newer, ahead_iff (ntohl_lt tst) (ntohl_lt tst')]
  omega

theorem moves_iff : LocTableEntry.moves tst tst' = true ↔
    tst' < tst ∧ tst - tst' < 2 ^ 31 ∨ tst < tst' ∧ tst' - tst < 2 ^ 31 := by
  unfold LocTableEntry.moves
  rw [decide_eq_true_iff]
  omega

theorem lookup_updateCall (h : table.foundBy lifeTime call = some e) :
    lookup call.view (call.view call.key) (table.updateCall lifeTime call) =
      some (match call.vector with
        | .source soPv => e.updateLpv soPv
        | .destination dePv => e.updateSpv dePv) := by
  have hlookup := (Option.filter_eq_some_iff.mp h).1
  unfold Table.updateCall Table.update Table.updateSpv
  rw [find_of_found h]
  dsimp only
  cases call.vector with
  | source soPv =>
    simp only [hlookup]
    rw [lookup_modify_self, hlookup, Option.map_some]
  | destination dePv =>
    simp only [hlookup]
    rw [lookup_modify_self, hlookup, Option.map_some]

/-- The stored vector moves both ways: to an older one, and not over the wrap. -/
theorem updateLpv_iff :
    (e.updateLpv soPv).lpv = (if Newer soPv.tst e.lpv.tst then soPv else e.lpv) ↔
      ntohl e.lpv.tst ≤ ntohl soPv.tst ∨ ntohl e.lpv.tst - ntohl soPv.tst = 2 ^ 31 := by
  have hso := ntohl_lt soPv.tst
  have hlpv := ntohl_lt e.lpv.tst
  unfold LocTableEntry.updateLpv
  dsimp only
  rw [if_congr moves_iff rfl rfl, if_congr newer_iff rfl rfl]
  by_cases hsame : ntohl soPv.tst = ntohl e.lpv.tst
  · rw [if_neg (by omega), if_neg (by omega)]
    exact iff_of_true rfl (.inl hsame.ge)
  · have hne : soPv ≠ e.lpv := fun h => hsame (by rw [h])
    split_ifs with hmoves hnewer hnewer
    · exact iff_of_true rfl (by omega)
    · exact iff_of_false hne (by omega)
    · exact iff_of_false hne.symm (by omega)
    · exact iff_of_true rfl (by omega)

theorem updateSpv_iff (hneighbor : e.isNeighbor = false) : (e.updateSpv dePv).lpv =
      (if Newer dePv.tst e.lpv.tst then e.withDestination dePv else e.lpv) ↔
    Newer dePv.tst e.lpv.tst ∨ e.withDestination dePv = e.lpv := by
  have hstored : (e.updateSpv dePv).lpv = e.withDestination dePv := by
    unfold LocTableEntry.updateSpv
    rw [hneighbor]
    rfl
  rw [hstored]
  by_cases hnewer : Newer dePv.tst e.lpv.tst
  · simp [hnewer]
  · simp [hnewer]

/-- The vector of the packet moves both ways too. -/
theorem updatedDePv_iff (hneighbor : e.isNeighbor = true) :
    (e.updatedDePv dePv ≠ dePv → Newer e.lpv.tst dePv.tst) ↔
      ntohl dePv.tst ≤ ntohl e.lpv.tst ∨ 2 ^ 31 ≤ ntohl dePv.tst - ntohl e.lpv.tst := by
  unfold LocTableEntry.updatedDePv
  rw [hneighbor, if_congr (and_iff_right rfl) rfl rfl, if_congr moves_iff rfl rfl, newer_iff]
  split_ifs with hmoves
  · have hne : e.storedDestination dePv ≠ dePv := by
      intro h
      have htst : e.lpv.tst = dePv.tst := congrArg Spv.tst h
      rw [htst] at hmoves
      omega
    rw [forall_prop_of_true hne]
    omega
  · exact iff_of_true (fun h => absurd rfl h) (by omega)

theorem keepsTime_iff (lifeTime : ℤ) (table : Table) (call : UpdateCall) :
    table.KeepsTime lifeTime call ↔ table.InOrder lifeTime call := by
  refine forall₂_congr fun e he => ?_
  simp only [lookup_updateCall he, Option.some_inj, exists_eq_left']
  cases call.vector with
  | source soPv => exact updateLpv_iff
  | destination dePv =>
    simp only [PositionVector.KeepsTime, PositionVector.InOrder]
    by_cases hneighbor : e.isNeighbor = true
    · have hkeeps : (e.updateSpv dePv).lpv = e.lpv := if_pos hneighbor
      rw [if_pos hneighbor, if_pos hneighbor, and_iff_right hkeeps]
      exact updatedDePv_iff hneighbor
    · rw [if_neg hneighbor, if_neg hneighbor]
      exact updateSpv_iff (Bool.eq_false_of_not_eq_true hneighbor)

/-- In a run of updates no vector goes back in time exactly when every update comes in order: the
second half of each comparison lets older vectors in and keeps those out that are newer over the
wrap, and the vector of a destination is stored without any comparison. -/
theorem vectors_keepTime_iff (lifeTime : ℤ) (table : Table) (calls : List UpdateCall) :
    Always (Table.updateCall lifeTime) (Table.KeepsTime lifeTime) table calls ↔
      Always (Table.updateCall lifeTime) (Table.InOrder lifeTime) table calls :=
  always_congr (keepsTime_iff lifeTime)

/-- A vector of the time `tst`. -/
def vectorOf (tst : ℕ) : Lpv := ⟨readAddr (fun _ => 0) 0, ntohl tst, 0, 0, 1⟩

/-- A table whose entry is of the time `tst`. -/
def tableOf (tst : ℕ) : Table := [(0, .ofLpv (vectorOf tst) false)]

def callOf (now : ℕ) (vector : PositionVector) : UpdateCall := ⟨fun _ => 0, now, 0, false, vector⟩

/-- The vector of a second before replaces the stored one, and so does the vector of a destination;
the one that comes six milliseconds later, over the wrap, does not. -/
theorem vectors_not_keepTime :
    ¬ Always (Table.updateCall 20) (Table.KeepsTime 20) (tableOf 2000)
      [callOf 2000 (.source (vectorOf 1000))] ∧
    ¬ Always (Table.updateCall 20) (Table.KeepsTime 20) (tableOf 2000)
      [callOf 2000 (.destination ⟨⟨0, 0⟩, ntohl 1000, 0, 0⟩)] ∧
    ¬ Always (Table.updateCall 20) (Table.KeepsTime 20) (tableOf (2 ^ 32 - 1))
      [callOf 5 (.source (vectorOf 5))] := by
  have hentry {tst : ℕ} {call : UpdateCall}
      (hcall : Always (Table.updateCall 20) (Table.KeepsTime 20) (tableOf tst) [call])
      (hview : call.view = fun _ => 0) (hkey : call.key = 0)
      (hlives : (LocTableEntry.ofLpv (vectorOf tst) false).expired 20 call.now = false) :=
    (keepsTime_iff _ _ _).mp (always_cons.mp hcall).1 _
      (Option.filter_eq_some_iff.mpr ⟨by rw [hview, hkey]; rfl, by rw [hlives]; rfl⟩)
  refine ⟨fun h => ?_, fun h => ?_, fun h => ?_⟩
  · rcases hentry h rfl rfl (by decide +kernel) with hle | hhalf
    · exact absurd hle (by decide +kernel)
    · exact absurd hhalf (by decide +kernel)
  · rcases hentry h rfl rfl (by decide +kernel) with hnewer | hsame
    · exact absurd hnewer (by decide +kernel)
    · exact absurd (congrArg Lpv.tst hsame) (by decide +kernel)
  · rcases hentry h rfl rfl (by decide +kernel) with hle | hhalf
    · exact absurd hle (by decide +kernel)
    · exact absurd hhalf (by decide +kernel)

end Update

end Tulux.GeoNetRouter
