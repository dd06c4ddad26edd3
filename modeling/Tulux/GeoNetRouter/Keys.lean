import Tulux.GeoNetRouter.Runs

/-! What the keys of the maps show over runs of the router. They point into the packets that were
received and into the parameters that the callers gave. -/
namespace Tulux.GeoNetRouter
open QCoder SortedMap GuardedRun

/-- The address of an entry. -/
def LocTableEntry.addr (e : LocTableEntry) : ℕ := e.gnAddr.mid

namespace Core

/-- The keys of all maps. -/
def keys (core : Core) : List ℕ :=
  core.locTable.map Prod.fst ++ core.queues.ucMapQueue.map Prod.fst ++
    core.queues.lsMapQueue.map Prod.fst ++ core.lsMap.map Prod.fst

/-- The address that an operation makes an entry for. -/
def updates (core : Core) : Op → Option ℕ
  | .update soPv _ | .updateNeighbor soPv _ => some (core.view (soPv + 2))
  | .updateSpv dePv _ => some (core.view (dePv + 2))
  | _ => none

end Core

/-- Every key shows the address that it was made for, so that the maps are sorted, and every entry
of the table that has not expired is found. -/
structure KeysKept (cfg : GnConfig) (core : Core) : Prop where
  locTable : Indexed core.view LocTableEntry.addr core.locTable
  ucMapQueue : Indexed core.view AddressQueue.addr core.queues.ucMapQueue
  lsMapQueue : Indexed core.view AddressQueue.addr core.queues.lsMapQueue
  lsMap : Indexed core.view id core.lsMap
  found : ∀ e ∈ core.locTable, ∀ now, e.2.expired cfg.lifetimeLocTE now = false →
    core.locTable.found core.view cfg.lifetimeLocTE now e.2.addr = some e.2

/-- The addresses that keys point to are not written over with other ones. -/
def KeyBytesKept (core : Core) : Op → Prop
  | .write mem => ∀ key ∈ core.keys, midAt mem key = core.view key
  | _ => True

instance (core : Core) (op : Op) : Decidable (KeyBytesKept core op) :=
  match op with
  | .write mem => inferInstanceAs (Decidable (∀ key ∈ core.keys, midAt mem key = core.view key))
  | .find _ _ | .update _ _ | .updateNeighbor _ _ | .updateSpv _ _ | .isDuplicated _ _
  | .setLsPending _ | .remove _ | .refresh _ | .nextSn | .queue _ | .startLs _ => .isTrue trivial

/-- The operation does not take the entry of an address away: it has not expired and is not
removed. -/
def Outlasts (cfg : GnConfig) (a : ℕ) (core : Core) : Op → Prop
  | .find now addr => addr = a →
    ∀ e, lookup core.view a core.locTable = some e → e.expired cfg.lifetimeLocTE now = false
  | .remove addr => addr ≠ a
  | .refresh now =>
    ∀ e, lookup core.view a core.locTable = some e → e.outdated cfg.lifetimeLocTE now = false
  | _ => True

/-- An address that was updated is found, as long as its entry is not taken away. -/
def FoundAgain (cfg : GnConfig) (core : Core) (ops : List Op) : Prop :=
  ∀ pre op post, pre ++ op :: post <+: ops → ∀ a,
    (final (Core.step cfg) core pre).updates op = some a →
    Always (Core.step cfg) (Outlasts cfg a) (final (Core.step cfg) core (pre ++ [op])) post →
    ∃ e, e.addr = a ∧ ∀ now, e.expired cfg.lifetimeLocTE now = false →
      (final (Core.step cfg) core (pre ++ op :: post)).locTable.found
        (final (Core.step cfg) core (pre ++ op :: post)).view cfg.lifetimeLocTE now a = some e

section Tables
variable {f : ℕ → ℕ} {table : Table} {lifeTime : ℤ} {e : LocTableEntry}

theorem found_of_lookup {now a : ℕ} (h : lookup f a table = some e)
    (hlives : e.expired lifeTime now = false) :
    Table.found f lifeTime now a table = some e := by
  unfold Table.found
  rw [h, Option.filter_some, hlives]
  rfl

theorem indexed_find (h : Indexed f LocTableEntry.addr table) (now a : ℕ) :
    Indexed f LocTableEntry.addr (table.find f lifeTime now a) := by
  unfold Table.find
  split
  · split_ifs
    · exact h.erase _
    · exact h
  · exact h

theorem indexed_update (h : Indexed f LocTableEntry.addr table) (key : ℕ) {soPv : Lpv}
    (hkey : f key = soPv.gnAddr.mid) (isNeighbor : Bool) :
    Indexed f LocTableEntry.addr (table.update f key soPv isNeighbor) := by
  unfold Table.update
  split
  · refine h.modify _ fun e => ?_
    unfold LocTableEntry.addr
    rw [LocTableEntry.gnAddr_updateLpv]
  · exact h.insert hkey

theorem indexed_updateSpv (h : Indexed f LocTableEntry.addr table) (key : ℕ) {dePv : Spv}
    (hkey : f key = dePv.gnAddr.mid) (isNeighbor : Bool) :
    Indexed f LocTableEntry.addr (table.updateSpv f key dePv isNeighbor) := by
  unfold Table.updateSpv
  split
  · exact h.modify _ fun _ => rfl
  · exact h.insert hkey

theorem lookup_insert_isSome (key : ℕ) (v : LocTableEntry) (table : Table) :
    (lookup f (f key) (SortedMap.insert f key v table)).isSome := by
  unfold SortedMap.insert
  split_ifs with h
  · exact h
  · rw [lookup_set_self]
    rfl

theorem lookup_update_isSome (key : ℕ) (soPv : Lpv) (isNeighbor : Bool) (table : Table) :
    (lookup f (f key) (table.update f key soPv isNeighbor)).isSome := by
  unfold Table.update
  split
  next e h =>
    rw [lookup_modify_self, h]
    rfl
  · exact lookup_insert_isSome _ _ _

theorem lookup_updateSpv_isSome (key : ℕ) (dePv : Spv) (isNeighbor : Bool) (table : Table) :
    (lookup f (f key) (table.updateSpv f key dePv isNeighbor)).isSome := by
  unfold Table.updateSpv
  split
  next e h =>
    rw [lookup_modify_self, h]
    rfl
  · exact lookup_insert_isSome _ _ _

/-- The entry of another address stays. -/
theorem lookup_modify_isSome {a b : ℕ} {g : LocTableEntry → LocTableEntry}
    (h : (lookup f a table).isSome) : (lookup f a (modify f b g table)).isSome := by
  by_cases hab : b = a
  · rw [hab, lookup_modify_self, Option.isSome_map]
    exact h
  · rw [lookup_modify_of_ne hab]
    exact h

theorem lookup_set_isSome {a : ℕ} (key : ℕ) (v : LocTableEntry)
    (h : (lookup f a table).isSome) : (lookup f a (set f key v table)).isSome := by
  by_cases hkey : f key = a
  · rw [← hkey, lookup_set_self]
    rfl
  · rw [lookup_set_of_ne hkey]
    exact h

theorem lookup_insert_isSome_of {a : ℕ} (key : ℕ) (v : LocTableEntry)
    (h : (lookup f a table).isSome) :
    (lookup f a (SortedMap.insert f key v table)).isSome := by
  unfold SortedMap.insert
  split_ifs
  · exact h
  · exact lookup_set_isSome _ _ h

theorem lookup_update_isSome_of {a : ℕ} (key : ℕ) (soPv : Lpv) (isNeighbor : Bool)
    (h : (lookup f a table).isSome) :
    (lookup f a (table.update f key soPv isNeighbor)).isSome := by
  unfold Table.update
  split
  · exact lookup_modify_isSome h
  · exact lookup_insert_isSome_of _ _ h

theorem lookup_updateSpv_isSome_of {a : ℕ} (key : ℕ) (dePv : Spv) (isNeighbor : Bool)
    (h : (lookup f a table).isSome) :
    (lookup f a (table.updateSpv f key dePv isNeighbor)).isSome := by
  unfold Table.updateSpv
  split
  · exact lookup_modify_isSome h
  · exact lookup_insert_isSome_of _ _ h

end Tables

section Queues
variable {f : ℕ → ℕ} {cfg : GnConfig} {queues : Queues}

theorem indexed_enqueueMap {mkId : ℕ → QueueId} {e : Qelement} {key : ℕ}
    {m m' : List (ℕ × AddressQueue)} {log log' : QueueLog} (hm : Indexed f AddressQueue.addr m)
    (h : enqueueMap f cfg mkId e key m log = some (m', log')) :
    Indexed f AddressQueue.addr m' := by
  obtain ⟨q, -, hpush⟩ := Option.map_eq_some_iff.mp h
  obtain ⟨rfl, -⟩ := Prod.mk.inj hpush
  exact hm.modify _ fun _ => rfl

/-- The keys of both maps of queues show the addresses of their queues. -/
def QueuesIndexed (f : ℕ → ℕ) (queues : Queues) : Prop :=
  Indexed f AddressQueue.addr queues.ucMapQueue ∧ Indexed f AddressQueue.addr queues.lsMapQueue

theorem queuesIndexed_enqueue (h : QueuesIndexed f queues) (call : EnqueueCall) :
    QueuesIndexed f (queues.enqueue f cfg call) := by
  unfold Queues.enqueue
  dsimp only
  split_ifs
  · cases call.addr with
    | none => exact h
    | some key =>
      dsimp only
      split
      next hmap => exact ⟨indexed_enqueueMap h.1 hmap, h.2⟩
      · exact ⟨h.1.insert rfl, h.2⟩
  · cases call.addr with
    | none => exact h
    | some key =>
      dsimp only
      split
      next hmap => exact ⟨h.1, indexed_enqueueMap h.2 hmap⟩
      · exact ⟨h.1.insert rfl, h.2⟩
  · exact h
  · exact h

theorem indexed_flushMap {mkId : ℕ → QueueId} {drops : Qelement → Bool} {turns key : ℕ}
    {m : List (ℕ × AddressQueue)} {log : QueueLog} (h : Indexed f AddressQueue.addr m) :
    Indexed f AddressQueue.addr (flushMap f mkId drops turns key m log).1 := by
  unfold flushMap
  split
  · exact h
  · exact h.modify _ fun _ => rfl

theorem queuesIndexed_flushUc (h : QueuesIndexed f queues) (call : FlushCall) :
    QueuesIndexed f (queues.flushUc f call).1 := by
  unfold Queues.flushUc
  split_ifs
  · cases call.addr with
    | none => exact h
    | some key => exact ⟨indexed_flushMap h.1, h.2⟩
  · exact h

theorem queuesIndexed_flushLs (h : QueuesIndexed f queues) (call : FlushCall) :
    QueuesIndexed f (queues.flushLs f call).1 := by
  unfold Queues.flushLs
  split_ifs
  · cases call.addr with
    | none => exact h
    | some key => exact ⟨h.1, indexed_flushMap h.2⟩
  · exact h

theorem queuesIndexed_flush (h : QueuesIndexed f queues) (call : FlushCall) :
    QueuesIndexed f (queues.flushQueueSync f call) := by
  have huc := queuesIndexed_flushUc h call
  have hls := queuesIndexed_flushLs huc call
  unfold Queues.flushQueueSync
  dsimp only
  split_ifs
  · unfold Queues.flushBc
    split_ifs <;> exact hls
  · exact hls
  · exact huc

theorem queuesIndexed_step (h : QueuesIndexed f queues) (op : QueueOp) :
    QueuesIndexed f (queues.step f cfg op) := by
  cases op with
  | enqueue call => exact queuesIndexed_enqueue h call
  | flush call => exact queuesIndexed_flush h call

end Queues

/-! ### Steps -/

section Steps
variable {cfg : GnConfig} {core : Core} {a : ℕ}

theorem KeysKept.of_indexed (htable : Indexed core.view LocTableEntry.addr core.locTable)
    (hqueues : QueuesIndexed core.view core.queues) (hls : Indexed core.view id core.lsMap) :
    KeysKept cfg core :=
  ⟨htable, hqueues.1, hqueues.2, hls, fun _ he _ hlives =>
    found_of_lookup (htable.lookup he) hlives⟩

theorem KeysKept.queues (h : KeysKept cfg core) : QueuesIndexed core.view core.queues :=
  ⟨h.ucMapQueue, h.lsMapQueue⟩

/-- A write keeps the keys exactly when it keeps what they show. -/
theorem keysKept_write_iff (h : KeysKept cfg core) (mem : Memory) :
    KeysKept cfg (core.step cfg (.write mem)) ↔ KeyBytesKept core (.write mem) := by
  have hkeys : KeyBytesKept core (.write mem) ↔
      (∀ e ∈ core.locTable, midAt mem e.1 = core.view e.1) ∧
      (∀ e ∈ core.queues.ucMapQueue, midAt mem e.1 = core.view e.1) ∧
      (∀ e ∈ core.queues.lsMapQueue, midAt mem e.1 = core.view e.1) ∧
      ∀ e ∈ core.lsMap, midAt mem e.1 = core.view e.1 := by
    unfold KeyBytesKept Core.keys
    simp only [List.forall_mem_append, List.forall_mem_map, and_assoc]
  rw [hkeys, ← h.locTable.congr_iff, ← h.ucMapQueue.congr_iff, ← h.lsMapQueue.congr_iff,
    ← h.lsMap.congr_iff]
  constructor
  · exact fun h' => ⟨h'.locTable, h'.ucMapQueue, h'.lsMapQueue, h'.lsMap⟩
  · exact fun ⟨htable, huc, hls, hrequests⟩ => .of_indexed htable ⟨huc, hls⟩ hrequests

theorem keysKept_step (h : KeysKept cfg core) {op : Op} (hop : KeyBytesKept core op) :
    KeysKept cfg (core.step cfg op) := by
  cases op with
  | write mem => exact (keysKept_write_iff h mem).mpr hop
  | find now addr => exact .of_indexed (indexed_find h.locTable _ _) h.queues h.lsMap
  | update soPv isNeighbor =>
    exact .of_indexed (indexed_update h.locTable _ rfl _) h.queues h.lsMap
  | updateNeighbor soPv isNeighbor =>
    exact .of_indexed ((indexed_update h.locTable _ rfl _).modify _ fun _ => rfl) h.queues h.lsMap
  | updateSpv dePv isNeighbor =>
    exact .of_indexed (indexed_updateSpv h.locTable _ rfl _) h.queues h.lsMap
  | isDuplicated addr sn =>
    refine .of_indexed (h.locTable.modify _ fun _ => ?_) h.queues h.lsMap
    unfold LocTableEntry.addr
    rw [LocTableEntry.gnAddr_record]
  | setLsPending addr => exact .of_indexed (h.locTable.modify _ fun _ => rfl) h.queues h.lsMap
  | remove addr => exact .of_indexed (h.locTable.erase _) h.queues h.lsMap
  | refresh now => exact .of_indexed (h.locTable.sublist List.filter_sublist) h.queues h.lsMap
  | nextSn => exact .of_indexed h.locTable h.queues h.lsMap
  | queue op => exact .of_indexed h.locTable (queuesIndexed_step h.queues op) h.lsMap
  | startLs key =>
    exact .of_indexed h.locTable h.queues (h.lsMap.insert (id_eq _).symm)

theorem keysKept_step_iff (h : KeysKept cfg core) (op : Op) :
    KeysKept cfg (core.step cfg op) ↔ KeyBytesKept core op := by
  cases op with
  | write mem => exact keysKept_write_iff h mem
  | _ => exact iff_of_true (keysKept_step h trivial) trivial

theorem lookup_view_write {mem : Memory}
    (hmem : KeyBytesKept core (.write mem)) :
    lookup (midAt mem) a core.locTable = lookup core.view a core.locTable := by
  refine lookup_congr fun e he => hmem e.1 ?_
  unfold Core.keys
  simp only [List.mem_append, List.mem_map]
  exact .inl (.inl (.inl ⟨e, he, rfl⟩))

theorem isSome_step (h : KeysKept cfg core) {op : Op} (hop : KeyBytesKept core op)
    (houtlasts : Outlasts cfg a core op) (ha : (lookup core.view a core.locTable).isSome) :
    (lookup (core.step cfg op).view a (core.step cfg op).locTable).isSome := by
  obtain ⟨e, he⟩ := Option.isSome_iff_exists.mp ha
  cases op with
  | write mem =>
    have hlookup : lookup (midAt mem) a core.locTable = some e :=
      (lookup_view_write hop).trans he
    exact Option.isSome_of_eq_some hlookup
  | find now addr =>
    change (lookup core.view a (core.locTable.find core.view _ now addr)).isSome
    unfold Table.find
    split
    next e' he' =>
      split_ifs with hexpired
      · by_cases haddr : addr = a
        · subst haddr
          obtain rfl := Option.some.inj (he.symm.trans he')
          exact absurd hexpired (by rw [houtlasts rfl e he]; decide)
        · rw [lookup_erase_of_ne haddr]
          exact ha
      · exact ha
    · exact ha
  | update soPv isNeighbor => exact lookup_update_isSome_of _ _ _ ha
  | updateNeighbor soPv isNeighbor =>
    exact lookup_modify_isSome (lookup_update_isSome_of _ _ _ ha)
  | updateSpv dePv isNeighbor => exact lookup_updateSpv_isSome_of _ _ _ ha
  | isDuplicated addr sn => exact lookup_modify_isSome ha
  | setLsPending addr => exact lookup_modify_isSome ha
  | remove addr =>
    have hlookup := (lookup_erase_of_ne (f := core.view) (m := core.locTable) houtlasts).trans he
    exact Option.isSome_of_eq_some hlookup
  | refresh now =>
    obtain ⟨key, hkey, hmem⟩ := mem_of_lookup he
    have hstays : (key, e) ∈ core.locTable.refresh cfg.lifetimeLocTE now :=
      List.mem_filter.mpr ⟨hmem, by rw [houtlasts e he]; rfl⟩
    have hlookup := lookup_of_mem (h.locTable.sublist List.filter_sublist).sorted hstays
    rw [hkey] at hlookup
    exact Option.isSome_of_eq_some hlookup
  | nextSn => exact ha
  | queue op => exact ha
  | startLs key => exact ha

/-- An update leaves an entry of its address. -/
theorem isSome_updates {op : Op} (h : core.updates op = some a) :
    (lookup (core.step cfg op).view a (core.step cfg op).locTable).isSome := by
  cases op with
  | update soPv isNeighbor =>
    obtain rfl := Option.some.inj h
    exact lookup_update_isSome _ _ _ _
  | updateNeighbor soPv isNeighbor =>
    obtain rfl := Option.some.inj h
    exact lookup_modify_isSome (lookup_update_isSome _ _ _ _)
  | updateSpv dePv isNeighbor =>
    obtain rfl := Option.some.inj h
    exact lookup_updateSpv_isSome _ _ _ _
  | _ => cases h

end Steps

/-! ### Runs -/

section Runs
variable {cfg : GnConfig} {geometry : Geometry} {core : Core} {ops : List Op}

theorem keysKept_init (cfg : GnConfig) (mem : Memory) : KeysKept cfg (.init mem) :=
  .of_indexed indexed_nil ⟨indexed_nil, indexed_nil⟩ indexed_nil

theorem keysKept_final (h : KeysKept cfg core)
    (hops : Always (Core.step cfg) KeyBytesKept core ops) :
    KeysKept cfg (final (Core.step cfg) core ops) :=
  hops.final (fun _ _ h hop => keysKept_step h hop) h

theorem isSome_final {a : ℕ} (h : KeysKept cfg core)
    (hops : Always (Core.step cfg) KeyBytesKept core ops)
    (houtlasts : Always (Core.step cfg) (Outlasts cfg a) core ops)
    (ha : (lookup core.view a core.locTable).isSome) :
    (lookup (final (Core.step cfg) core ops).view a
      (final (Core.step cfg) core ops).locTable).isSome := by
  induction ops generalizing core with
  | nil => exact ha
  | cons op ops ih =>
    obtain ⟨hop, hops⟩ := always_cons.mp hops
    obtain ⟨houtlast, houtlasts⟩ := always_cons.mp houtlasts
    exact ih (keysKept_step h hop) hops houtlasts (isSome_step h hop houtlast ha)

theorem foundAgain (h : KeysKept cfg core)
    (hops : Always (Core.step cfg) KeyBytesKept core ops) : FoundAgain cfg core ops := by
  rintro pre op post ⟨rest, rfl⟩ a hupdates houtlasts
  have hall := (always_append.mp hops).1
  obtain ⟨hpre, hpost⟩ := always_append.mp hall
  obtain ⟨hop, hpost⟩ := always_cons.mp hpost
  have hbefore := keysKept_step (keysKept_final h hpre) hop
  rw [final_append] at houtlasts
  have hsome := isSome_final hbefore hpost houtlasts (isSome_updates hupdates)
  rw [final_append, final_cons]
  obtain ⟨e, he⟩ := Option.isSome_iff_exists.mp hsome
  have hafter := keysKept_final hbefore hpost
  exact ⟨e, hafter.locTable.label_eq he, fun now hlives => found_of_lookup he hlives⟩

end Runs

end Tulux.GeoNetRouter
