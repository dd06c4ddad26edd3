import Tulux.GeoNetRouter.Runs

/-! The count of the neighbours over runs of the router. It is kept beside the table that the flags
are in. -/
namespace Tulux.GeoNetRouter
open QCoder SortedMap GuardedRun

namespace Table

/-- The number of entries whose neighbour flag is set. -/
def neighbors (table : Table) : ℕ := table.countP fun e => e.2.isNeighbor

end Table

def NeighborCountExact (core : Core) : Prop := core.neighborCount = core.locTable.neighbors

/-- No neighbour leaves the table, no beacon comes from a station that is a neighbour, and no other
entry begins with its flag set. -/
def CountsNeighbors (cfg : GnConfig) (core : Core) : Op → Prop
  | .find now addr => ∀ e, lookup core.view addr core.locTable = some e →
    e.expired cfg.lifetimeLocTE now → e.isNeighbor = false
  | .update soPv isNeighbor =>
    lookup core.view (core.view (soPv + 2)) core.locTable = none → isNeighbor = false
  | .updateNeighbor soPv _ =>
    ∀ e, lookup core.view (core.view (soPv + 2)) core.locTable = some e → e.isNeighbor = false
  | .updateSpv dePv isNeighbor =>
    lookup core.view (core.view (dePv + 2)) core.locTable = none → isNeighbor = false
  | .remove addr => ∀ e, lookup core.view addr core.locTable = some e → e.isNeighbor = false
  | .refresh now => ∀ e ∈ core.locTable, e.2.outdated cfg.lifetimeLocTE now →
    e.2.isNeighbor = false
  | _ => True

section Tables
variable {f : ℕ → ℕ} {table : Table} {lifeTime : ℤ}

/-- An entry that is taken away counts if it is a neighbour. -/
theorem neighbors_erase (a : ℕ) :
    Table.neighbors (erase f a table) = table.neighbors ↔
      ∀ e, lookup f a table = some e → e.isNeighbor = false := by
  unfold Table.neighbors
  cases h : lookup f a table with
  | none => simp [erase_of_none h]
  | some e =>
    rw [← countP_erase (p := LocTableEntry.isNeighbor) h]
    cases hflag : e.isNeighbor <;> simp [hflag]

theorem neighbors_find (now a : ℕ) :
    (table.find f lifeTime now a).neighbors = table.neighbors ↔
      ∀ e, lookup f a table = some e → e.expired lifeTime now → e.isNeighbor = false := by
  unfold Table.find
  cases h : lookup f a table with
  | none => simp
  | some e =>
    dsimp only
    split_ifs with hexpired
    · rw [neighbors_erase, h]
      simp [hexpired]
    · refine iff_of_true rfl fun e' he' hexpired' => ?_
      obtain rfl := Option.some.inj he'
      exact absurd hexpired' hexpired

theorem neighbors_insert {key : ℕ} (h : lookup f (f key) table = none) (e : LocTableEntry) :
    Table.neighbors (SortedMap.insert f key e table) =
      table.neighbors + if e.isNeighbor then 1 else 0 := countP_insert h

theorem neighbors_update (key : ℕ) (soPv : Lpv) (isNeighbor : Bool) :
    (table.update f key soPv isNeighbor).neighbors = table.neighbors ↔
      (lookup f (f key) table = none → isNeighbor = false) := by
  unfold Table.update
  cases h : lookup f (f key) table with
  | none =>
    dsimp only
    rw [neighbors_insert h]
    cases isNeighbor <;> simp [LocTableEntry.ofLpv]
  | some e =>
    refine iff_of_true ?_ (by simp)
    exact countP_modify_of_eq (p := LocTableEntry.isNeighbor) fun _ =>
      LocTableEntry.isNeighbor_updateLpv soPv

theorem neighbors_updateSpv (key : ℕ) (dePv : Spv) (isNeighbor : Bool) :
    (table.updateSpv f key dePv isNeighbor).neighbors = table.neighbors ↔
      (lookup f (f key) table = none → isNeighbor = false) := by
  unfold Table.updateSpv
  cases h : lookup f (f key) table with
  | none =>
    dsimp only
    rw [neighbors_insert h]
    cases isNeighbor <;> simp [LocTableEntry.ofSpv, LocTableEntry.ofLpv]
  | some e =>
    refine iff_of_true ?_ (by simp)
    exact countP_modify_of_eq (p := LocTableEntry.isNeighbor) fun _ => rfl

/-- The entry that a beacon updates and then flags is one neighbour more unless it was one. -/
theorem neighbors_updateNeighbor (key : ℕ) (soPv : Lpv) (isNeighbor : Bool) :
    Table.neighbors (modify f (f key) (fun e => { e with isNeighbor := true })
        (table.update f key soPv isNeighbor)) = table.neighbors + 1 ↔
      ∀ e, lookup f (f key) table = some e → e.isNeighbor = false := by
  unfold Table.update
  cases h : lookup f (f key) table with
  | none =>
    refine iff_of_true ?_ (by simp)
    dsimp only
    have hlookup : lookup f (f key) (SortedMap.insert f key (.ofLpv soPv isNeighbor) table) =
        some (.ofLpv soPv isNeighbor) := by
      rw [insert_of_none h, lookup_set_self]
    have hflag := countP_modify (g := fun e => { e with isNeighbor := true })
      (p := LocTableEntry.isNeighbor) hlookup
    have hinsert := neighbors_insert h (.ofLpv soPv isNeighbor)
    unfold Table.neighbors at hinsert ⊢
    simp only [if_true] at hflag
    omega
  | some e =>
    dsimp only
    have hlookup : lookup f (f key) (modify f (f key) (fun e => e.updateLpv soPv) table) =
        some (e.updateLpv soPv) := by
      rw [lookup_modify_self, h, Option.map_some]
    have hflag := countP_modify (g := fun e => { e with isNeighbor := true })
      (p := LocTableEntry.isNeighbor) hlookup
    have hsame : (modify f (f key) (fun e => e.updateLpv soPv) table).countP
        (fun e => e.2.isNeighbor) = table.countP fun e => e.2.isNeighbor :=
      countP_modify_of_eq (p := LocTableEntry.isNeighbor) fun _ =>
        LocTableEntry.isNeighbor_updateLpv soPv
    unfold Table.neighbors
    rw [LocTableEntry.isNeighbor_updateLpv, hsame] at hflag
    cases hneighbor : e.isNeighbor
    · refine iff_of_true ?_ (by simp [hneighbor])
      simp only [hneighbor, if_true] at hflag
      simpa using hflag
    · refine iff_of_false ?_ (by simp [hneighbor])
      simp only [hneighbor, if_true] at hflag
      omega

theorem neighbors_refresh (now : ℕ) :
    (table.refresh lifeTime now).neighbors = table.neighbors ↔
      ∀ e ∈ table, e.2.outdated lifeTime now → e.2.isNeighbor = false := by
  unfold Table.neighbors Table.refresh
  rw [List.countP_filter]
  induction table with
  | nil => simp
  | cons e table ih =>
    rw [List.countP_cons, List.countP_cons, List.forall_mem_cons, ← ih]
    have hle : table.countP (fun e => e.2.isNeighbor && !e.2.outdated lifeTime now) ≤
        table.countP fun e => e.2.isNeighbor :=
      List.countP_mono_left fun e _ he => (Bool.and_eq_true_iff.mp he).1
    cases hflag : e.2.isNeighbor <;> cases houtdated : e.2.outdated lifeTime now
    · simp
    · simp
    · simp
    · simp
      omega

end Tables

section Runs
variable {cfg : GnConfig} {core : Core}

theorem neighborCountExact_step_iff (h : NeighborCountExact core) (op : Op) :
    NeighborCountExact (core.step cfg op) ↔ CountsNeighbors cfg core op := by
  have hsame {table : Table} : NeighborCountExact { core with locTable := table } ↔
      table.neighbors = core.locTable.neighbors := by
    unfold NeighborCountExact at h ⊢
    rw [h, Nat.cast_inj]
    exact eq_comm
  cases op with
  | write mem => exact iff_of_true h trivial
  | find now addr => exact hsame.trans (neighbors_find _ _)
  | update soPv isNeighbor => exact hsame.trans (neighbors_update _ _ _)
  | updateNeighbor soPv isNeighbor =>
    refine Iff.trans ?_ (neighbors_updateNeighbor (soPv + 2) (readLpv core.mem soPv) isNeighbor)
    change core.neighborCount + 1 = _ ↔ _
    rw [h]
    norm_cast
    exact eq_comm
  | updateSpv dePv isNeighbor => exact hsame.trans (neighbors_updateSpv _ _ _)
  | isDuplicated addr sn =>
    refine iff_of_true (hsame.mpr ?_) trivial
    exact countP_modify_of_eq (p := LocTableEntry.isNeighbor)
      fun _ => LocTableEntry.isNeighbor_record _
  | setLsPending addr =>
    refine iff_of_true (hsame.mpr ?_) trivial
    exact countP_modify_of_eq (p := LocTableEntry.isNeighbor) fun _ => rfl
  | remove addr => exact hsame.trans (neighbors_erase _)
  | refresh now => exact hsame.trans (neighbors_refresh _)
  | nextSn => exact iff_of_true h trivial
  | queue op => exact iff_of_true h trivial
  | startLs key => exact iff_of_true h trivial

end Runs

end Tulux.GeoNetRouter
