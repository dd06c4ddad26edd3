import Tulux.QApplication.LdmSlots

/-! The garbage collector of the LDM, with the timestamps of the stored messages and the clock. -/
namespace Tulux.QApplication
open QCoder SortedMap

/-- The LDM with the times of the BSMs in its slots. The ids of a `std::map` are in order. -/
structure TimedLdm extends Ldm where
  timestampMs : ℕ → UInt64
  sorted : Sorted (fun key => key) bsmIdMap

namespace TimedLdm

/-- `timestamp_ms` of the BSM that the contents of a slot point to, if they point to one. -/
def storedTimestamp (ldm : TimedLdm) (i : ℕ) : Option UInt64 :=
  (ldm.bsmContents[i]?).join.map fun _ => ldm.timestampMs i

def purge (ldm : TimedLdm) (id i : ℕ) : TimedLdm :=
  { ldm with
    bsmFreeContents := ldm.bsmFreeContents ++ [i]
    bsmIdMap := set (fun key => key) id .dirtyData ldm.bsmIdMap
    sorted := sorted_set ldm.sorted }

/-- The difference is one of 64 bit numbers. -/
def isOld (threshold : UInt8) (now timestamp : UInt64) : Bool :=
  decide (threshold.toNat * 10000 < (now - timestamp).toNat)

/-- The body of the loop of `gbCollector`. The clock is read for every entry. -/
def gbEntry (now : ℕ → UInt64) (threshold : UInt8) (ldm : TimedLdm) (element : ℕ × BsmIndex) :
    Option TimedLdm :=
  match ldm.getIndex element.1, element.2 with
  | some (.index _), .index i => do
    let timestamp ← ldm.storedTimestamp i
    if isOld threshold (now element.1) timestamp then some (ldm.purge element.1 i) else some ldm
  | some (.index _), .dirtyData => none
  | _, _ => some ldm

/-- One sweep of `gbCollector`. -/
def gbCollector (ldm : TimedLdm) (now : ℕ → UInt64) (threshold : UInt8) : Option TimedLdm :=
  ldm.bsmIdMap.foldlM (gbEntry now threshold) ldm

/-- A slot that the collector takes for old under an id. -/
def oldSlot (ldm : TimedLdm) (now : ℕ → UInt64) (threshold : UInt8) (id i : ℕ) : Bool :=
  (ldm.storedTimestamp i).any (isOld threshold (now id))

/-- The slots that a sweep frees. -/
def freedSlots (ldm : TimedLdm) (now : ℕ → UInt64) (threshold : UInt8) : List ℕ :=
  ldm.bsmIdMap.filterMap fun e => Ldm.oldIndex (ldm.oldSlot now threshold e.1) e.2

/-- The map behind a sweep. -/
def swept (ldm : TimedLdm) (now : ℕ → UInt64) (threshold : UInt8) : Ldm :=
  { ldm.toLdm with
    bsmFreeContents := ldm.bsmFreeContents ++ ldm.freedSlots now threshold
    bsmIdMap := ldm.bsmIdMap.map fun e =>
      (e.1, Ldm.markOld (ldm.oldSlot now threshold e.1) e.2) }

/-- Every id that has a slot has a BSM there. -/
def Stored (ldm : TimedLdm) (m : List (ℕ × BsmIndex)) : Prop :=
  ∀ id i, (id, BsmIndex.index i) ∈ m → (ldm.storedTimestamp i).isSome

/-- The BSM of an id is older than the threshold, in seconds. -/
def Expired (ldm : TimedLdm) (now : ℕ → UInt64) (threshold : UInt8) (id : ℕ) : Prop :=
  ∃ i timestamp, ldm.getIndex id = some (.index i) ∧ ldm.storedTimestamp i = some timestamp ∧
    timestamp.toNat + 1000 * threshold.toNat < (now id).toNat

/-- A sweep comes to its end, marks exactly the expired ids, frees each of their slots once and
leaves all else. -/
def PurgesExpired (ldm : TimedLdm) (now : ℕ → UInt64) (threshold : UInt8) : Prop :=
  ∃ ldm', ldm.gbCollector now threshold = some ldm' ∧
    ldm'.bsmContents = ldm.bsmContents ∧ ldm'.timestampMs = ldm.timestampMs ∧
    (∀ id, ldm.Expired now threshold id → ldm'.getIndex id = some .dirtyData) ∧
    (∀ id, ¬ ldm.Expired now threshold id → ldm'.getIndex id = ldm.getIndex id) ∧
    ∃ freed : List ℕ, ldm'.bsmFreeContents = ldm.bsmFreeContents ++ freed ∧ freed.Nodup ∧
      ∀ i, i ∈ freed ↔ ∃ id, ldm.Expired now threshold id ∧ ldm.getIndex id = some (.index i)

/-- No more than a tenth of the limit of the code, or beyond that limit; a time ahead of the clock
is so far ahead that the difference wraps to a small one. -/
def AgeSafe (threshold : UInt8) (now timestamp : UInt64) : Prop :=
  (timestamp ≤ now → now.toNat ≤ timestamp.toNat + 1000 * threshold.toNat ∨
    timestamp.toNat + 10000 * threshold.toNat < now.toNat) ∧
  (now < timestamp → 2 ^ 64 + now.toNat ≤ timestamp.toNat + 10000 * threshold.toNat)

variable {ldm ldm' : TimedLdm} (now : ℕ → UInt64) (threshold : UInt8) {id i : ℕ}

/-! ### The age -/

/-- The limit of the code is ten times the threshold. -/
theorem isOld_iff_expired (now timestamp : UInt64) :
    (isOld threshold now timestamp = true ↔
      timestamp.toNat + 1000 * threshold.toNat < now.toNat) ↔
      AgeSafe threshold now timestamp := by
  have hnow : now.toNat < 2 ^ 64 := now.toNat_lt
  have htime : timestamp.toNat < 2 ^ 64 := timestamp.toNat_lt
  have hdif : (now - timestamp).toNat = (2 ^ 64 - timestamp.toNat + now.toNat) % 2 ^ 64 :=
    UInt64.toNat_sub now timestamp
  rw [AgeSafe, isOld, decide_eq_true_iff, hdif, UInt64.le_iff_toNat_le, UInt64.lt_iff_toNat_lt]
  omega

/-! ### What a sweep does -/

theorem sorted_keys_ne {m m' : List (ℕ × BsmIndex)} {w : BsmIndex}
    (h : Sorted (fun key => key) (m ++ (id, w) :: m')) : ∀ e ∈ m, e.1 < id := by
  unfold Sorted at h
  rw [List.map_append, List.map_cons, List.pairwise_append] at h
  exact fun e he => h.2.2 e.1 (List.mem_map_of_mem he) id List.mem_cons_self

theorem set_append_cons {m m' : List (ℕ × BsmIndex)} {v w : BsmIndex}
    (h : ∀ e ∈ m, e.1 < id) :
    set (fun key => key) id v (m ++ (id, w) :: m') = m ++ (id, v) :: m' := by
  induction m with
  | nil => simp [SortedMap.set]
  | cons e m ih =>
    obtain ⟨hlt, hrest⟩ := List.forall_mem_cons.mp h
    rw [List.cons_append, SortedMap.set, if_neg hlt.not_gt, if_neg hlt.ne', ih hrest,
      List.cons_append]

theorem storedTimestamp_congr (hcontents : ldm'.bsmContents = ldm.bsmContents)
    (htime : ldm'.timestampMs = ldm.timestampMs) (i : ℕ) :
    ldm'.storedTimestamp i = ldm.storedTimestamp i := by
  unfold storedTimestamp
  rw [hcontents, htime]

/-- One entry of a sweep: its id is marked when its slot is old, and the entries around it stay. -/
theorem gbEntry_eq {m m' : List (ℕ × BsmIndex)} {w : BsmIndex}
    (hmap : ldm.bsmIdMap = m ++ (id, w) :: m') (hstored : ldm.Stored [(id, w)]) :
    ∃ ldm', gbEntry now threshold ldm (id, w) = some ldm' ∧
      ldm'.timestampMs = ldm.timestampMs ∧ ldm'.toLdm =
      { ldm.toLdm with
        bsmFreeContents := ldm.bsmFreeContents ++
          (Ldm.oldIndex (ldm.oldSlot now threshold id) w).toList
        bsmIdMap := m ++ (id, Ldm.markOld (ldm.oldSlot now threshold id) w) :: m' } := by
  have hmem : (id, w) ∈ ldm.bsmIdMap := by simp [hmap]
  have hfound : ldm.getIndex id = some w := lookup_of_mem ldm.sorted hmem
  have hsame : ldm.toLdm = { ldm.toLdm with
      bsmFreeContents := ldm.bsmFreeContents ++ []
      bsmIdMap := m ++ (id, w) :: m' } := by rw [List.append_nil, ← hmap]
  unfold gbEntry
  cases w with
  | dirtyData =>
    simp only [hfound]
    exact ⟨ldm, rfl, rfl, hsame⟩
  | index i =>
    obtain ⟨timestamp, htime⟩ := Option.isSome_iff_exists.mp (hstored id i List.mem_cons_self)
    have hslot : ldm.oldSlot now threshold id i = isOld threshold (now id) timestamp := by
      rw [oldSlot, htime, Option.any_some]
    simp only [hfound, htime, Option.bind_eq_bind, Option.bind_some, Ldm.oldIndex_index,
      Ldm.markOld_index, hslot]
    cases isOld threshold (now id) timestamp with
    | false => exact ⟨ldm, rfl, rfl, hsame⟩
    | true =>
      have hset : SortedMap.set (fun key => key) id BsmIndex.dirtyData ldm.bsmIdMap =
          m ++ (id, .dirtyData) :: m' := by
        have hsorted := ldm.sorted
        rw [hmap] at hsorted ⊢
        exact set_append_cons (sorted_keys_ne hsorted)
      refine ⟨ldm.purge id i, rfl, rfl, ?_⟩
      simp only [purge, hset, if_true, Option.toList_some]

/-- The entries of the rest of a sweep, behind those that were looked at. -/
theorem foldlM_gbEntry {m m' : List (ℕ × BsmIndex)} (hmap : ldm.bsmIdMap = m ++ m')
    (hstored : ldm.Stored m') :
    ∃ ldm', m'.foldlM (gbEntry now threshold) ldm = some ldm' ∧
      ldm'.timestampMs = ldm.timestampMs ∧ ldm'.toLdm =
      { ldm.toLdm with
        bsmFreeContents := ldm.bsmFreeContents ++
          m'.filterMap fun e => Ldm.oldIndex (ldm.oldSlot now threshold e.1) e.2
        bsmIdMap := m ++ m'.map fun e =>
          (e.1, Ldm.markOld (ldm.oldSlot now threshold e.1) e.2) } := by
  induction m' generalizing ldm m with
  | nil =>
    refine ⟨ldm, rfl, rfl, ?_⟩
    simp only [List.filterMap_nil, List.map_nil, ← hmap, List.append_nil]
  | cons e m' ih =>
    obtain ⟨id, w⟩ := e
    have hfirst : ldm.Stored [(id, w)] := fun id' i h =>
      hstored id' i (List.mem_cons.mpr (.inl (List.mem_singleton.mp h)))
    obtain ⟨next, hentry, htime, hnext⟩ :=
      gbEntry_eq now threshold hmap hfirst
    have hsame (i : ℕ) : next.storedTimestamp i = ldm.storedTimestamp i :=
      storedTimestamp_congr (by rw [hnext]) htime i
    have hslot : next.oldSlot now threshold = ldm.oldSlot now threshold := by
      funext id i
      rw [oldSlot, hsame, oldSlot]
    have hrest : next.Stored m' := fun id i h => by
      rw [hsame]
      exact hstored id i (List.mem_cons_of_mem _ h)
    have hmap' : next.bsmIdMap =
        (m ++ [(id, Ldm.markOld (ldm.oldSlot now threshold id) w)]) ++ m' := by
      rw [hnext, List.append_assoc, List.singleton_append]
    obtain ⟨last, hrun, htime', hlast⟩ := ih hmap' hrest
    refine ⟨last, ?_, htime'.trans htime, ?_⟩
    · rw [List.foldlM_cons, hentry]
      exact hrun
    · rw [hlast, hnext, hslot, List.filterMap_cons, List.map_cons]
      cases Ldm.oldIndex (ldm.oldSlot now threshold id) w <;>
        simp only [Option.toList_none, Option.toList_some, List.append_nil, List.append_assoc,
          List.singleton_append]

variable {now threshold}

theorem stored_of_gbEntry {w : BsmIndex} {next : TimedLdm} (hmem : (id, w) ∈ ldm.bsmIdMap)
    (hentry : gbEntry now threshold ldm (id, w) = some next) : ldm.Stored [(id, w)] := by
  have hfound : ldm.getIndex id = some w := lookup_of_mem ldm.sorted hmem
  intro id' i h
  obtain ⟨rfl, rfl⟩ := Prod.mk.inj (List.mem_singleton.mp h)
  cases htime : ldm.storedTimestamp i with
  | some timestamp => rfl
  | none => simp [gbEntry, hfound, htime] at hentry

/-- A sweep that comes to its end has found a BSM at every slot. -/
theorem stored_of_foldlM {m m' : List (ℕ × BsmIndex)} (hmap : ldm.bsmIdMap = m ++ m')
    (hrun : m'.foldlM (gbEntry now threshold) ldm = some ldm') : ldm.Stored m' := by
  induction m' generalizing ldm m with
  | nil => exact fun _ _ h => absurd h List.not_mem_nil
  | cons e m' ih =>
    obtain ⟨id, w⟩ := e
    rw [List.foldlM_cons] at hrun
    obtain ⟨next, hentry, hrest⟩ := Option.bind_eq_some_iff.mp hrun
    have hfirst := stored_of_gbEntry (by simp [hmap]) hentry
    obtain ⟨next', hentry', htime, hnext⟩ := gbEntry_eq now threshold
      hmap hfirst
    obtain rfl := Option.some.inj (hentry.symm.trans hentry')
    have hmap' : next.bsmIdMap =
        (m ++ [(id, Ldm.markOld (ldm.oldSlot now threshold id) w)]) ++ m' := by
      rw [hnext, List.append_assoc, List.singleton_append]
    intro id' i h
    rcases List.mem_cons.mp h with heq | hmem
    · exact hfirst id' i (List.mem_singleton.mpr heq)
    · rw [← storedTimestamp_congr (by rw [hnext]) htime i]
      exact ih hmap' hrest id' i hmem

/-- A sweep comes to its end exactly when every slot in the map has a BSM, and marks and frees at
once what is old. -/
theorem gbCollector_eq_some_iff : ldm.gbCollector now threshold = some ldm' ↔
    ldm.Stored ldm.bsmIdMap ∧ ldm'.timestampMs = ldm.timestampMs ∧
      ldm'.toLdm = ldm.swept now threshold := by
  constructor
  · intro hrun
    have hstored := stored_of_foldlM (m := []) rfl hrun
    obtain ⟨last, hlast, htime, hswept⟩ :=
      foldlM_gbEntry now threshold (m := []) rfl hstored
    obtain rfl := Option.some.inj (hrun.symm.trans hlast)
    exact ⟨hstored, htime, hswept⟩
  · rintro ⟨hstored, htime, hswept⟩
    obtain ⟨last, hlast, htime', hswept'⟩ :=
      foldlM_gbEntry now threshold (m := []) rfl hstored
    have heq : ldm' = last := by
      cases ldm'
      cases last
      simp only [mk.injEq] at *
      exact ⟨hswept.trans hswept'.symm, htime.trans htime'.symm⟩
    rw [heq]
    exact hlast

/-- With one reading of the clock for all entries a sweep is the pass `collect`. -/
theorem swept_eq_collect (ldm : TimedLdm) (time : UInt64) (threshold : UInt8) :
    ldm.swept (fun _ => time) threshold =
      ldm.collect fun i => (ldm.storedTimestamp i).any (isOld threshold time) := rfl

/-! ### What is purged -/

theorem getIndex_eq_some_iff {w : BsmIndex} :
    ldm.getIndex id = some w ↔ (id, w) ∈ ldm.bsmIdMap := by
  constructor
  · intro hfound
    obtain ⟨key, rfl, hmem⟩ := mem_of_lookup hfound
    exact hmem
  · exact lookup_of_mem ldm.sorted

theorem getIndex_swept (ldm : TimedLdm) (now : ℕ → UInt64) (threshold : UInt8) (id : ℕ) :
    (ldm.swept now threshold).getIndex id =
      (ldm.getIndex id).map (Ldm.markOld (ldm.oldSlot now threshold id)) := by
  unfold Ldm.getIndex swept
  dsimp only
  induction ldm.bsmIdMap with
  | nil => rfl
  | cons e m ih =>
    rw [List.map_cons, lookup_cons, ih, lookup_cons]
    split_ifs with hid
    · rw [hid, Option.map_some]
    · rfl

theorem expired_iff {timestamp : UInt64} (hfound : ldm.getIndex id = some (.index i))
    (htime : ldm.storedTimestamp i = some timestamp) : ldm.Expired now threshold id ↔
      timestamp.toNat + 1000 * threshold.toNat < (now id).toNat := by
  constructor
  · rintro ⟨i', timestamp', hfound', htime', hage⟩
    rw [hfound, Option.some_inj, BsmIndex.index.injEq] at hfound'
    rw [← hfound', htime, Option.some_inj] at htime'
    rwa [htime']
  · exact fun hage => ⟨i, timestamp, hfound, htime, hage⟩

theorem oldSlot_eq {timestamp : UInt64} (htime : ldm.storedTimestamp i = some timestamp) (id : ℕ) :
    ldm.oldSlot now threshold id i = isOld threshold (now id) timestamp := by
  rw [oldSlot, htime, Option.any_some]

theorem oldIndex_eq_some {old : ℕ → Bool} {w : BsmIndex} :
    Ldm.oldIndex old w = some i ↔ w = .index i ∧ old i = true := by
  cases w with
  | dirtyData => simp
  | index j =>
    rw [Ldm.oldIndex_index, BsmIndex.index.injEq]
    constructor
    · intro h
      split_ifs at h with hold
      obtain rfl := Option.some.inj h
      exact ⟨rfl, hold⟩
    · rintro ⟨rfl, hold⟩
      rw [if_pos hold]

theorem mem_freedSlots : i ∈ ldm.freedSlots now threshold ↔
    ∃ id, ldm.getIndex id = some (.index i) ∧ ldm.oldSlot now threshold id i = true := by
  simp only [freedSlots, List.mem_filterMap, oldIndex_eq_some, getIndex_eq_some_iff, Prod.exists]
  constructor
  · rintro ⟨id, w, hmem, rfl, hold⟩
    exact ⟨id, hmem, hold⟩
  · rintro ⟨id, hmem, hold⟩
    exact ⟨id, _, hmem, rfl, hold⟩

/-- No slot is freed twice exactly when no two ids have one that is old for both. -/
theorem nodup_freedSlots : (ldm.freedSlots now threshold).Nodup ↔
    ∀ id id' i, ldm.getIndex id = some (.index i) → ldm.getIndex id' = some (.index i) →
      ldm.oldSlot now threshold id i = true → ldm.oldSlot now threshold id' i = true →
      id = id' := by
  unfold freedSlots List.Nodup
  rw [List.pairwise_filterMap]
  simp only [getIndex_eq_some_iff, oldIndex_eq_some]
  constructor
  · intro h id id' i hmem hmem' hold hold'
    by_contra hne
    have hsymm : Std.Symm fun e e' : ℕ × BsmIndex => ∀ b,
        e.2 = .index b ∧ ldm.oldSlot now threshold e.1 b = true → ∀ b',
          e'.2 = .index b' ∧ ldm.oldSlot now threshold e'.1 b' = true → b ≠ b' :=
      ⟨fun _ _ h b hb b' hb' => (h b' hb' b hb).symm⟩
    exact h.forall hmem hmem' (fun heq => hne (congrArg Prod.fst heq)) i ⟨rfl, hold⟩ i
      ⟨rfl, hold'⟩ rfl
  · intro h
    have hsorted := List.pairwise_map.mp ldm.sorted
    refine hsorted.imp_of_mem fun {e e'} he he' hlt => ?_
    rintro i ⟨hi, hold⟩ i' ⟨hi', hold'⟩ rfl
    obtain ⟨id, w⟩ := e
    obtain ⟨id', w'⟩ := e'
    obtain ⟨rfl, rfl⟩ := And.intro hi hi'
    exact hlt.ne (h id id' i he he' hold hold')

/-- The entries whose slots are old for the code are the expired ones. -/
def OldExpired (ldm : TimedLdm) (now : ℕ → UInt64) (threshold : UInt8) : Prop :=
  ∀ id i, ldm.getIndex id = some (.index i) →
    (ldm.oldSlot now threshold id i = true ↔ ldm.Expired now threshold id)

theorem getIndex_swept_of_expired (hold : ldm.OldExpired now threshold)
    (hid : ldm.Expired now threshold id) :
    (ldm.swept now threshold).getIndex id = some .dirtyData := by
  have hexpired := hid
  obtain ⟨i, -, hfound, -⟩ := hid
  rw [getIndex_swept, hfound, Option.map_some, Ldm.markOld_index,
    if_pos ((hold id i hfound).mpr hexpired)]

theorem getIndex_swept_of_not_expired (hold : ldm.OldExpired now threshold)
    (hid : ¬ ldm.Expired now threshold id) :
    (ldm.swept now threshold).getIndex id = ldm.getIndex id := by
  rw [getIndex_swept]
  cases hfound : ldm.getIndex id with
  | none => rfl
  | some w =>
    cases w with
    | dirtyData => rfl
    | index i => rw [Option.map_some, Ldm.markOld_index, if_neg (mt (hold id i hfound).mp hid)]

theorem purgesExpired_iff_oldExpired : ldm.PurgesExpired now threshold ↔
    ldm.Stored ldm.bsmIdMap ∧ ldm.OldExpired now threshold ∧
      (ldm.freedSlots now threshold).Nodup := by
  constructor
  · rintro ⟨ldm', hrun, -, -, hdirty, hkept, freed, hfree, hnodup, -⟩
    obtain ⟨hstored, -, hswept⟩ := gbCollector_eq_some_iff.mp hrun
    rw [hswept] at hdirty hkept hfree
    obtain rfl : ldm.freedSlots now threshold = freed := List.append_cancel_left hfree
    refine ⟨hstored, fun id i hfound => ?_, hnodup⟩
    have hafter := getIndex_swept ldm now threshold id
    rw [hfound, Option.map_some, Ldm.markOld_index] at hafter
    constructor
    · intro hold
      by_contra hid
      rw [hkept id hid, hfound, if_pos hold] at hafter
      cases hafter
    · intro hid
      by_contra hold
      rw [hdirty id hid, if_neg hold] at hafter
      cases hafter
  · rintro ⟨hstored, hold, hnodup⟩
    obtain ⟨ldm', hrun, htime, hswept⟩ := foldlM_gbEntry now threshold (m := []) rfl hstored
    have hswept : ldm'.toLdm = ldm.swept now threshold := hswept
    refine ⟨ldm', hrun, by rw [hswept]; rfl, htime, fun id hid => ?_, fun id hid => ?_,
      ldm.freedSlots now threshold, by rw [hswept]; rfl, hnodup, fun i => ?_⟩
    · rw [hswept, getIndex_swept_of_expired hold hid]
    · rw [hswept, getIndex_swept_of_not_expired hold hid]
    · rw [mem_freedSlots]
      exact exists_congr fun id =>
        ⟨fun h => ⟨(hold id i h.1).mp h.2, h.1⟩, fun h => ⟨h.2, (hold id i h.2).mpr h.1⟩⟩

/-- A sweep purges exactly the expired entries when every id in the map has a BSM, no age is
between one and ten times the threshold, no timestamp is ahead of the clock unless the difference
wraps around to a small one, and no slot has two expired ids. -/
theorem purgesExpired_iff (ldm : TimedLdm) (now : ℕ → UInt64) (threshold : UInt8) :
    ldm.PurgesExpired now threshold ↔
      (∀ id i, ldm.getIndex id = some (.index i) → ∃ timestamp,
        ldm.storedTimestamp i = some timestamp ∧ AgeSafe threshold (now id) timestamp) ∧
      ∀ id id' i, ldm.Expired now threshold id → ldm.Expired now threshold id' →
        ldm.getIndex id = some (.index i) → ldm.getIndex id' = some (.index i) → id = id' := by
  have hentry (id i : ℕ) (hfound : ldm.getIndex id = some (.index i)) : (∃ timestamp,
      ldm.storedTimestamp i = some timestamp ∧ AgeSafe threshold (now id) timestamp) ↔
      (ldm.storedTimestamp i).isSome ∧
        (ldm.oldSlot now threshold id i = true ↔ ldm.Expired now threshold id) := by
    cases htime : ldm.storedTimestamp i with
    | none => simp
    | some timestamp =>
      rw [oldSlot_eq htime, expired_iff hfound htime, isOld_iff_expired]
      simp
  rw [purgesExpired_iff_oldExpired, nodup_freedSlots]
  constructor
  · rintro ⟨hstored, hold, hnodup⟩
    refine ⟨fun id i hfound => ?_, fun id id' i hid hid' hfound hfound' => ?_⟩
    · exact (hentry id i hfound).mpr
        ⟨hstored id i (getIndex_eq_some_iff.mp hfound), hold id i hfound⟩
    · exact hnodup id id' i hfound hfound' ((hold id i hfound).mpr hid)
        ((hold id' i hfound').mpr hid')
  · rintro ⟨hages, hshared⟩
    have hold : ldm.OldExpired now threshold := fun id i hfound =>
      ((hentry id i hfound).mp (hages id i hfound)).2
    refine ⟨fun id i hmem => ?_, hold, fun id id' i hfound hfound' hid hid' => ?_⟩
    · have hfound := getIndex_eq_some_iff.mpr hmem
      exact ((hentry id i hfound).mp (hages id i hfound)).1
    · exact hshared id id' i ((hold id i hfound).mp hid) ((hold id' i hfound').mp hid') hfound
        hfound'

/-- With a threshold of one second, a BSM that is two seconds old stays, and one that is a
millisecond ahead of the clock goes. -/
theorem not_purgesExpired :
    ¬ (⟨⟨[some callocBsm], [], [(7, .index 0)]⟩, fun _ => 1000, List.pairwise_singleton _ _⟩ :
      TimedLdm).PurgesExpired (fun _ => 3000) 1 ∧
    ¬ (⟨⟨[some callocBsm], [], [(7, .index 0)]⟩, fun _ => 1000, List.pairwise_singleton _ _⟩ :
      TimedLdm).PurgesExpired (fun _ => 999) 1 := by
  rw [purgesExpired_iff_oldExpired, purgesExpired_iff_oldExpired]
  constructor
  · rintro ⟨-, hold, -⟩
    have hslot := (hold 7 0 rfl).mpr ⟨0, 1000, rfl, rfl, by decide⟩
    exact absurd hslot (by decide)
  · rintro ⟨-, hold, -⟩
    have hage := (expired_iff (i := 0) rfl rfl).mp ((hold 7 0 rfl).mp (by decide))
    exact absurd hage (by decide)

end TimedLdm

end Tulux.QApplication
