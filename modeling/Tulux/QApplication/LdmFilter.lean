import Tulux.QApplication.LdmCollector

/-! The filter of received BSMs and its count of lost packets, over runs of the receiver and the
collector. -/
namespace Tulux.QApplication
open QCoder GuardedRun SortedMap LdmRun

namespace TimedLdm

theorem bsmIdMap_getFreeBsm (ldm : Ldm) (junk : Option BsmValue) :
    (ldm.getFreeBsm junk).2.bsmIdMap = ldm.bsmIdMap := by
  unfold Ldm.getFreeBsm
  split <;> rfl

/-- A BSM is decoded into a free slot. What was in the slot is overwritten. -/
def decodeFree (ldm : TimedLdm) (bsm : BsmValue) (timestamp : UInt64) : ℕ × TimedLdm :=
  let (index, free) := ldm.toLdm.getFreeBsm none
  (index,
    { bsmContents := free.bsmContents.set index (some bsm)
      bsmFreeContents := free.bsmFreeContents
      bsmIdMap := ldm.bsmIdMap
      timestampMs := Function.update ldm.timestampMs index timestamp
      sorted := ldm.sorted })

def setIndex (ldm : TimedLdm) (id index : ℕ) : TimedLdm :=
  ⟨ldm.toLdm.setIndex id index, ldm.timestampMs, sorted_updateIndex ldm.sorted _⟩

def collect (ldm : TimedLdm) (old : ℕ → Bool) : TimedLdm :=
  ⟨ldm.toLdm.collect old, ldm.timestampMs, sorted_collect ldm.sorted old⟩

end TimedLdm

/-- `tuncExceeded` is the comparison of `tuncs[id]`, a `float`, with `tuncThresh`. -/
structure FilterThresholds where
  packeLossThresh : UInt32
  ageThresh : UInt32
  distanceThresh : UInt32
  positionCertaintyThresh : UInt32
  tuncExceeded : ℕ → Bool

/-- The LDM with what its filter knows of the ids. -/
structure FilterLdm where
  ldm : TimedLdm
  bsmPacketsLost : ℕ → Option ℤ
  maliciousIds : List ℕ

namespace FilterLdm

/-- A difference of `unsigned` numbers. -/
def packetDif (msgCount prevMsgCount : ℕ) : ℕ := u32 ((msgCount : ℤ) - prevMsgCount)

def countLost (bsmPacketsLost : ℕ → Option ℤ) (id dif : ℕ) : ℕ → Option ℤ :=
  if 1 < dif ∧ dif < 127 then
    match bsmPacketsLost id with
    | none => Function.update bsmPacketsLost id (some dif)
    | some lost => Function.update bsmPacketsLost id (some (s32 (lost + dif)))
  else bsmPacketsLost

/-- What `filterBsm` does with the BSM that the map has for the id. -/
def comparePrevious (s : FilterLdm) (bsm prev : BsmValue) (timestamp prevTimestamp : UInt64) :
    FilterLdm :=
  { s with
    maliciousIds :=
      if timestamp = prevTimestamp then s.maliciousIds ++ [bsm.id] else s.maliciousIds
    bsmPacketsLost := countLost s.bsmPacketsLost bsm.id (packetDif bsm.msgCount prev.msgCount) }

/-- The last part of `filterBsm`. Reading `bsmPacketsLost` makes an entry. -/
def runFilter (thresh : FilterThresholds) (s : FilterLdm) (id age : ℕ) : Bool × FilterLdm :=
  let lost := (s.bsmPacketsLost id).getD 0
  let distance := 0
  let positionCertainty := 0
  let s := { s with bsmPacketsLost := Function.update s.bsmPacketsLost id (some lost) }
  if u32 lost > thresh.packeLossThresh.toNat ∨ age > thresh.ageThresh.toNat ∨
      distance < thresh.distanceThresh.toNat ∨
      positionCertainty > thresh.positionCertaintyThresh.toNat ∨ thresh.tuncExceeded id = true then
    (true, { s with maliciousIds := s.maliciousIds ++ [id] })
  else
    -- the source returns no value here
    (false, s)

/-- The age is the lower half of the timestamp. -/
def filterBsm (thresh : FilterThresholds) (s : FilterLdm) (index : ℕ) :
    Option (Bool × FilterLdm) := do
  let bsm ← (s.ldm.bsmContents[index]?).join
  if bsm.id ∈ s.maliciousIds then return (true, s)
  match s.ldm.getIndex bsm.id with
  | some (.index i) =>
    let prev ← (s.ldm.bsmContents[i]?).join
    return (s.comparePrevious bsm prev (s.ldm.timestampMs index) (s.ldm.timestampMs i)).runFilter
      thresh bsm.id ((s.ldm.timestampMs i).toNat % 2 ^ 32)
  | some .dirtyData => return s.runFilter thresh bsm.id (2 ^ 32 - 1)
  | none => return s.runFilter thresh bsm.id 0

/-- A BSM is decoded into a free slot, filtered, and stored unless the filter holds it back; the
slot is then left to nobody. -/
def receive (thresh : FilterThresholds) (s : FilterLdm) (bsm : BsmValue) (timestamp : UInt64) :
    Option (Bool × FilterLdm) := do
  let (index, ldm) := s.ldm.decodeFree bsm timestamp
  let (filtered, s) ← filterBsm thresh { s with ldm := ldm } index
  if filtered then return (true, s)
  else return (false, { s with ldm := s.ldm.setIndex bsm.id index })

end FilterLdm

inductive FilterEvent where
  | receive (bsm : BsmValue) (timestamp : UInt64)
  | collect (old : ℕ → Bool)

namespace FilterLdm

/-- There is no state behind a null pointer. -/
def step (thresh : FilterThresholds) (s : Option FilterLdm) : FilterEvent → Option FilterLdm
  | .receive bsm timestamp => do
    let s ← s
    let (_, s) ← s.receive thresh bsm timestamp
    return s
  | .collect old => s.map fun s => { s with ldm := s.ldm.collect old }

/-- The messages of an id come through the filter. -/
def Accepts (thresh : FilterThresholds) (id : ℕ) (s : Option FilterLdm) : FilterEvent → Prop
  | .receive bsm timestamp => bsm.id = id →
    ∃ s', (s.bind fun s => s.receive thresh bsm timestamp) = some (false, s')
  | .collect _ => True

/-- The `MsgCount`s of an id in a run. -/
def counts (id : ℕ) (events : List FilterEvent) : List ℕ :=
  events.filterMap fun
    | .receive bsm _ => if bsm.id = id then some bsm.msgCount else none
    | .collect _ => none

/-- The counts between two that follow each other. -/
def gap (c c' : ℕ) : ℤ := ((c' : ℤ) - c - 1) % 128

def skipped : List ℕ → ℤ
  | c :: c' :: cs => gap c c' + skipped (c' :: cs)
  | _ => 0

def lost (s : FilterLdm) (id : ℕ) : ℤ := (s.bsmPacketsLost id).getD 0

/-- In every state of a run the packets lost of an id are the counts skipped. -/
def CountsLost (thresh : FilterThresholds) (id : ℕ) (s : Option FilterLdm)
    (events : List FilterEvent) : Prop :=
  ∀ xs, xs <+: events → ∃ s', final (step thresh) s xs = some s' ∧
    s'.lost id = skipped (counts id xs)

def start (size : ℕ) (junk : ℕ → Option BsmValue) (timestampMs : ℕ → UInt64) : FilterLdm :=
  ⟨⟨.new size junk, timestampMs, sorted_nil⟩, fun _ => none, []⟩

/-! ### Counts -/

theorem skipped_concat (cs : List ℕ) (c : ℕ) :
    skipped (cs ++ [c]) = skipped cs + (cs.getLast?.elim 0 fun last => gap last c) := by
  induction cs with
  | nil => rfl
  | cons c₁ cs ih =>
    cases cs with
    | nil => simp [skipped]
    | cons c₂ cs =>
      rw [List.getLast?_cons_cons, List.cons_append, List.cons_append, skipped,
        ← List.cons_append, ih, skipped, add_assoc]

theorem skipped_eq_zero {cs : List ℕ} (h : cs.IsChain fun c c' => c' = (c + 1) % 128) :
    skipped cs = 0 := by
  induction h with
  | nil | singleton => rfl
  | cons_cons hc _ ih =>
    rw [skipped, ih, gap, hc]
    omega

theorem counts_concat (id : ℕ) (events : List FilterEvent) (event : FilterEvent) :
    counts id (events ++ [event]) = counts id events ++ counts id [event] := List.filterMap_append

/-! ### The filter -/

variable (thresh : FilterThresholds) (s : FilterLdm)

/-- The count of the BSM that the map has for an id. -/
def prevCount (ldm : Ldm) (id : ℕ) : Option ℕ := (ldm.findBsm id).map BsmValue.msgCount

/-- The packets lost behind a message, with the count before it. -/
def addLost (lost : ℤ) (prev : Option ℕ) (c : ℕ) : ℤ :=
  prev.elim lost fun p =>
    if 1 < packetDif c p ∧ packetDif c p < 127 then s32 (lost + packetDif c p) else lost

theorem runFilter_spec (id age : ℕ) : ∃ filtered s',
    s.runFilter thresh id age = (filtered, s') ∧ s'.ldm = s.ldm ∧ s'.lost = s.lost := by
  have hlost : (fun id' => (Function.update s.bsmPacketsLost id (some (s.lost id)) id').getD 0) =
      s.lost := by
    funext id'
    by_cases hid : id' = id
    · rw [hid, Function.update_self, Option.getD_some]
    · rw [Function.update_of_ne hid, lost]
  unfold runFilter
  dsimp only
  split_ifs
  · exact ⟨true, _, rfl, rfl, hlost⟩
  · exact ⟨false, _, rfl, rfl, hlost⟩

theorem countLost_of_ne {bsmPacketsLost : ℕ → Option ℤ} {id id' dif : ℕ} (hid : id' ≠ id) :
    countLost bsmPacketsLost id dif id' = bsmPacketsLost id' := by
  unfold countLost
  split_ifs
  · cases bsmPacketsLost id with
    | none => exact Function.update_of_ne hid _ _
    | some lost => exact Function.update_of_ne hid _ _
  · rfl

theorem countLost_self {bsmPacketsLost : ℕ → Option ℤ} {id dif : ℕ} :
    (countLost bsmPacketsLost id dif id).getD 0 =
      if 1 < dif ∧ dif < 127 then s32 ((bsmPacketsLost id).getD 0 + dif)
      else (bsmPacketsLost id).getD 0 := by
  unfold countLost
  split_ifs with hdif
  · cases bsmPacketsLost id with
    | none =>
      have hsmall : s32 dif = dif := s32_of_lt (by omega)
      simp [hsmall]
    | some lost => simp
  · rfl

variable {s} {index : ℕ} {bsm : BsmValue}

/-- The filter finds the messages that it reads, leaves the map and the other ids, and counts the
packets between the message and the one before it. -/
theorem filterBsm_spec (hbsm : (s.ldm.bsmContents[index]?).join = some bsm)
    (hstored : ∀ i, s.ldm.getIndex bsm.id = some (.index i) →
      ((s.ldm.bsmContents[i]?).join).isSome) :
    ∃ filtered s', filterBsm thresh s index = some (filtered, s') ∧ s'.ldm = s.ldm ∧
      (∀ id, id ≠ bsm.id → s'.lost id = s.lost id) ∧ (filtered = false →
        s'.lost bsm.id = addLost (s.lost bsm.id) (prevCount s.ldm.toLdm bsm.id) bsm.msgCount) := by
  unfold filterBsm
  rw [hbsm]
  simp only [Option.bind_eq_bind, Option.bind_some, Option.pure_def]
  split_ifs with hmalicious
  · exact ⟨true, s, rfl, rfl, fun _ _ => rfl, fun h => by cases h⟩
  · cases hfound : s.ldm.getIndex bsm.id with
    | none =>
      have hprev : prevCount s.ldm.toLdm bsm.id = none := by simp [prevCount, Ldm.findBsm, hfound]
      obtain ⟨filtered, s', hrun, hldm, hlost⟩ := runFilter_spec thresh s bsm.id 0
      exact ⟨filtered, s', congrArg some hrun, hldm, fun id _ => by rw [hlost],
        fun _ => by rw [hlost, hprev]; rfl⟩
    | some w =>
      cases w with
      | dirtyData =>
        have hprev : prevCount s.ldm.toLdm bsm.id = none := by simp [prevCount, Ldm.findBsm, hfound]
        obtain ⟨filtered, s', hrun, hldm, hlost⟩ := runFilter_spec thresh s bsm.id (2 ^ 32 - 1)
        exact ⟨filtered, s', congrArg some hrun, hldm, fun id _ => by rw [hlost],
          fun _ => by rw [hlost, hprev]; rfl⟩
      | index i =>
        obtain ⟨prev, hslot⟩ := Option.isSome_iff_exists.mp (hstored i hfound)
        have hprev : prevCount s.ldm.toLdm bsm.id = some prev.msgCount := by
          simp [prevCount, Ldm.findBsm, hfound, hslot]
        simp only [hslot, Option.bind_some]
        obtain ⟨filtered, s', hrun, hldm, hlost⟩ := runFilter_spec thresh
          (s.comparePrevious bsm prev (s.ldm.timestampMs index) (s.ldm.timestampMs i)) bsm.id
          ((s.ldm.timestampMs i).toNat % 2 ^ 32)
        refine ⟨filtered, s', congrArg some hrun, hldm, fun id hid => ?_, fun _ => ?_⟩
        · rw [hlost]
          exact congrArg (Option.getD · 0) (countLost_of_ne hid)
        · rw [hlost, hprev]
          exact countLost_self

/-! ### The slots -/

/-- Every slot is free, in the map or out, and not more than once. -/
def SlotsOnce (ldm : Ldm) (out : List ℕ) : Prop :=
  ∀ i, ldm.bsmFreeContents.count i + (mapped ldm).count i + out.count i ≤
    if i < ldm.bsmContents.length then 1 else 0

theorem count_mapped_pos {ldm : Ldm} {id i : ℕ} (h : ldm.getIndex id = some (.index i)) :
    0 < (mapped ldm).count i := by
  obtain ⟨key, -, hmem⟩ := mem_of_lookup h
  exact List.count_pos_iff.mpr (List.mem_filterMap.mpr ⟨_, hmem, rfl⟩)

theorem slotsOnce_decodeFree {ldm : TimedLdm} (h : SlotsOnce ldm.toLdm []) (bsm : BsmValue)
    (timestamp : UInt64) : SlotsOnce (ldm.decodeFree bsm timestamp).2.toLdm
      [(ldm.decodeFree bsm timestamp).1] := by
  intro i
  have hbefore := h i
  have hcount := getFreeBsm_holders ldm.toLdm none i
  have hlength := getFreeBsm_length ldm.toLdm none
  rw [mapped, TimedLdm.bsmIdMap_getFreeBsm] at hcount
  simp only [TimedLdm.decodeFree, mapped, List.length_set, List.count_nil, Nat.add_zero] at *
  rw [hcount, hlength]
  by_cases hfree : ldm.bsmFreeContents = []
  · simp only [hfree, true_and, if_true] at *
    split_ifs at * <;> omega
  · simp only [hfree, false_and, if_false] at *
    exact hbefore

theorem getElem?_getFreeBsm {ldm : Ldm} {i : ℕ} (hi : i < ldm.bsmContents.length) :
    (ldm.getFreeBsm none).2.bsmContents[i]? = ldm.bsmContents[i]? := by
  unfold Ldm.getFreeBsm
  split
  · rfl
  · exact List.getElem?_append_left hi

/-- A slot in the map keeps what it has when another BSM is decoded. -/
theorem getElem?_decodeFree {ldm : TimedLdm} (h : SlotsOnce ldm.toLdm []) {timestamp : UInt64}
    {id i : ℕ} (hfound : ldm.getIndex id = some (.index i)) :
    (ldm.decodeFree bsm timestamp).2.bsmContents[i]? = ldm.bsmContents[i]? := by
  have hpos := count_mapped_pos hfound
  have hi := h i
  have hother := slotsOnce_decodeFree h bsm timestamp i
  have hlt : i < ldm.bsmContents.length := by
    by_contra hge
    rw [if_neg hge] at hi
    omega
  have hne : (ldm.decodeFree bsm timestamp).1 ≠ i := by
    rintro rfl
    have hmapped : mapped (ldm.decodeFree bsm timestamp).2.toLdm = mapped ldm.toLdm := rfl
    rw [hmapped, List.count_singleton_self] at hother
    split_ifs at hother <;> omega
  exact (List.getElem?_set_ne hne).trans (getElem?_getFreeBsm hlt)

theorem getElem?_decodeFree_self {ldm : TimedLdm} (h : SlotsOnce ldm.toLdm []) (bsm : BsmValue)
    (timestamp : UInt64) : (ldm.decodeFree bsm timestamp).2.bsmContents[
      (ldm.decodeFree bsm timestamp).1]? = some (some bsm) := by
  have hself := slotsOnce_decodeFree h bsm timestamp (ldm.decodeFree bsm timestamp).1
  rw [List.count_singleton_self] at hself
  have hlt : (ldm.decodeFree bsm timestamp).1 <
      (ldm.decodeFree bsm timestamp).2.bsmContents.length := by
    by_contra hge
    rw [if_neg hge] at hself
    omega
  have hlt' : (ldm.getFreeBsm none).1 < (ldm.getFreeBsm none).2.bsmContents.length := by
    rwa [TimedLdm.decodeFree, List.length_set] at hlt
  exact List.getElem?_set_self hlt'

theorem prevCount_decodeFree {ldm : TimedLdm} (h : SlotsOnce ldm.toLdm []) (timestamp : UInt64)
    (id : ℕ) : prevCount (ldm.decodeFree bsm timestamp).2.toLdm id = prevCount ldm.toLdm id := by
  have hmap : (ldm.decodeFree bsm timestamp).2.getIndex id = ldm.getIndex id := rfl
  unfold prevCount Ldm.findBsm
  rw [hmap]
  cases hfound : ldm.getIndex id with
  | none => rfl
  | some w =>
    cases w with
    | dirtyData => rfl
    | index i =>
      exact congrArg (fun slot => (Option.join slot).map BsmValue.msgCount)
        (getElem?_decodeFree h hfound)

/-! ### Runs -/

/-- Every slot in the map has a BSM, and the one of `id` is the last that came. The slots that are
out are not in the map. -/
structure Tracks (id : ℕ) (last : Option ℕ) (out : List ℕ) (ldm : TimedLdm) : Prop where
  slots : SlotsOnce ldm.toLdm out
  stored : ∀ id' i, ldm.getIndex id' = some (.index i) → ∃ bsm,
    ldm.bsmContents[i]? = some (some bsm) ∧ (id' = id → last = some bsm.msgCount)

variable {id : ℕ} {last : Option ℕ} {out : List ℕ} {ldm : TimedLdm}

theorem Tracks.prevCount (h : Tracks id last out ldm) {p : ℕ}
    (hp : FilterLdm.prevCount ldm.toLdm id = some p) : last = some p := by
  unfold FilterLdm.prevCount Ldm.findBsm at hp
  cases hfound : ldm.getIndex id with
  | none => simp [hfound] at hp
  | some w =>
    cases w with
    | dirtyData => simp [hfound] at hp
    | index i =>
      obtain ⟨bsm, hslot, hlast⟩ := h.stored id i hfound
      rw [hlast rfl]
      simpa [hfound, hslot] using hp

theorem Tracks.decodeFree (h : Tracks id last [] ldm) (bsm : BsmValue) (timestamp : UInt64) :
    Tracks id last [(ldm.decodeFree bsm timestamp).1] (ldm.decodeFree bsm timestamp).2 where
  slots := slotsOnce_decodeFree h.slots bsm timestamp
  stored id' i hfound := by
    obtain ⟨bsm', hslot, hlast⟩ := h.stored id' i hfound
    exact ⟨bsm', (getElem?_decodeFree h.slots hfound).trans hslot, hlast⟩

/-- The slot of a message that is held back is left to nobody. -/
theorem Tracks.leave (h : Tracks id last out ldm) : Tracks id last [] ldm where
  slots i := by
    have hi := h.slots i
    rw [List.count_nil]
    omega
  stored := h.stored

theorem Tracks.setIndex (h : Tracks id last [index] ldm)
    (hbsm : ldm.bsmContents[index]? = some (some bsm)) :
    Tracks id (if bsm.id = id then some bsm.msgCount else last) [] (ldm.setIndex bsm.id index) := by
  have hcontents : (ldm.setIndex bsm.id index).bsmContents = ldm.bsmContents :=
    Ldm.bsmContents_updateIndex _
  constructor
  · intro i
    have hcount := count_updateIndex bsm.id index ldm.sorted i
    rw [List.count_nil, hcontents]
    exact hcount.trans_le (h.slots i)
  · intro id' i hfound
    rw [hcontents]
    by_cases hid : bsm.id = id'
    · obtain rfl := hid
      obtain rfl : index = i := BsmIndex.index.inj
        (Option.some.inj (Ldm.getIndex_setIndex_self.symm.trans hfound))
      exact ⟨bsm, hbsm, fun hid => if_pos hid⟩
    · obtain ⟨bsm', hslot, hlast⟩ := h.stored id' i
        ((Ldm.getIndex_setIndex_of_ne hid).symm.trans hfound)
      exact ⟨bsm', hslot, fun hid' => by rw [if_neg (hid' ▸ hid), hlast hid']⟩

theorem Tracks.collect (h : Tracks id last out ldm) (old : ℕ → Bool) :
    Tracks id last out (ldm.collect old) where
  slots i := by
    have hcount := count_collect ldm.toLdm old i
    exact (Nat.add_le_add_right hcount.le _).trans (h.slots i)
  stored id' i hfound := by
    have hmap := (getIndex_collect ldm.toLdm old id').symm.trans hfound
    obtain ⟨w, hw, hmark⟩ := Option.map_eq_some_iff.mp hmap
    cases w with
    | dirtyData => cases hmark
    | index j =>
      rw [Ldm.markOld_index] at hmark
      split_ifs at hmark
      exact h.stored id' i (hw.trans (congrArg some hmark))

/-- A message is received, whatever the filter makes of it. The packets lost are counted from the
message before it that is in the map. -/
theorem Tracks.receive (h : Tracks id last [] s.ldm) (bsm : BsmValue) (timestamp : UInt64) :
    ∃ filtered s', s.receive thresh bsm timestamp = some (filtered, s') ∧
      (bsm.id ≠ id → Tracks id last [] s'.ldm ∧ s'.lost id = s.lost id) ∧
      (bsm.id = id → filtered = false → Tracks id (some bsm.msgCount) [] s'.ldm ∧
        s'.lost id = addLost (s.lost id) (FilterLdm.prevCount s.ldm.toLdm id) bsm.msgCount) := by
  have hdecoded := h.decodeFree bsm timestamp
  have hself := getElem?_decodeFree_self h.slots bsm timestamp
  obtain ⟨filtered, s', hfilter, hldm, hother, hcount⟩ := filterBsm_spec thresh
    (s := { s with ldm := (s.ldm.decodeFree bsm timestamp).2 })
    (congrArg Option.join hself) fun i hfound => by
      obtain ⟨bsm', hslot, -⟩ := hdecoded.stored bsm.id i hfound
      exact congrArg (Option.isSome ∘ Option.join) hslot
  rw [prevCount_decodeFree h.slots] at hcount
  have hset := hdecoded.setIndex hself
  dsimp only at hldm
  rw [← hldm] at hdecoded hset
  unfold FilterLdm.receive
  dsimp only
  rw [hfilter]
  cases filtered with
  | true =>
    exact ⟨true, s', rfl, fun hid => ⟨hdecoded.leave, hother id (Ne.symm hid)⟩,
      fun _ hfiltered => by cases hfiltered⟩
  | false =>
    refine ⟨false, _, rfl, fun hid => ⟨?_, hother id (Ne.symm hid)⟩, fun hid _ => ⟨?_, ?_⟩⟩
    · rw [if_neg hid] at hset
      exact hset
    · rw [if_pos hid] at hset
      exact hset
    · exact hid ▸ hcount rfl

variable {thresh} {event : FilterEvent} {events : List FilterEvent}

/-- A step of a run is none of `id`, or one that brings its next count. -/
theorem Tracks.step (h : Tracks id last [] s.ldm) (haccepts : Accepts thresh id (some s) event) :
    ∃ s', FilterLdm.step thresh (some s) event = some s' ∧
      (counts id [event] = [] ∧ Tracks id last [] s'.ldm ∧ s'.lost id = s.lost id ∨
        ∃ c, counts id [event] = [c] ∧ Tracks id (some c) [] s'.ldm ∧
          s'.lost id = addLost (s.lost id) (FilterLdm.prevCount s.ldm.toLdm id) c) := by
  cases event with
  | collect old => exact ⟨_, rfl, .inl ⟨rfl, h.collect old, rfl⟩⟩
  | receive bsm timestamp =>
    obtain ⟨filtered, s', hreceive, hother, hself⟩ := h.receive thresh bsm timestamp
    have hstep : FilterLdm.step thresh (some s) (.receive bsm timestamp) = some s' := by
      simp [FilterLdm.step, hreceive]
    refine ⟨s', hstep, ?_⟩
    by_cases hid : bsm.id = id
    · obtain ⟨s₁, haccepts⟩ := haccepts hid
      obtain ⟨rfl, -⟩ := Prod.mk.inj (Option.some.inj (hreceive.symm.trans haccepts))
      exact .inr ⟨bsm.msgCount, by simp [counts, hid], hself hid rfl⟩
    · exact .inl ⟨by simp [counts, hid], hother hid⟩

/-! ### The count -/

variable {size : ℕ} {junk : ℕ → Option BsmValue} {timestampMs : ℕ → UInt64}

theorem tracks_start : Tracks id none [] (start size junk timestampMs).ldm where
  slots i := by simp [start, mapped, Ldm.new, List.nodup_range.count]
  stored id' i hfound := by cases hfound

/-- The state behind a run in which all messages of `id` are accepted. -/
theorem tracks_final
    (haccepted : Always (FilterLdm.step thresh) (Accepts thresh id)
      (some (start size junk timestampMs)) events) :
    ∃ s, final (FilterLdm.step thresh) (some (start size junk timestampMs)) events = some s ∧
      Tracks id (counts id events).getLast? [] s.ldm := by
  induction events using List.reverseRecOn with
  | nil => exact ⟨_, rfl, tracks_start⟩
  | append_singleton events event ih =>
    obtain ⟨hbefore, hlast⟩ := always_append.mp haccepted
    obtain ⟨s, hs, htracks⟩ := ih hbefore
    rw [hs] at hlast
    obtain ⟨s', hstep, hcount⟩ := htracks.step (always_cons.mp hlast).1
    refine ⟨s', ?_, ?_⟩
    · rw [final_append, hs]
      exact hstep
    · rw [counts_concat]
      rcases hcount with ⟨hnone, htracks', -⟩ | ⟨c, hsome, htracks', -⟩
      · rw [hnone, List.append_nil]
        exact htracks'
      · rw [hsome, List.getLast?_concat]
        exact htracks'

/-- Where nothing was lost so far, the count goes on right with the next number only. -/
theorem addLost_zero_iff {prev : Option ℕ} {c : ℕ} (hprev : ∀ p, prev = some p → last = some p)
    (hc : c < 128) (hlast : ∀ p, last = some p → p < 128) :
    addLost 0 prev c = (last.elim 0 fun p => gap p c) ↔ ∀ p ∈ last, c = (p + 1) % 128 := by
  cases last with
  | none =>
    obtain rfl : prev = none := Option.eq_none_iff_forall_ne_some.mpr fun p hp => by
      cases hprev p hp
    simp [addLost]
  | some p =>
    have hp := hlast p rfl
    simp only [Option.elim_some, Option.mem_some_iff, forall_eq', gap]
    cases prev with
    | none =>
      simp only [addLost, Option.elim_none]
      omega
    | some p' =>
      obtain rfl := Option.some.inj (hprev p' rfl)
      simp only [addLost, Option.elim_some, packetDif, u32, zero_add]
      split_ifs with hdif
      · rw [s32_of_lt (by omega)]
        omega
      · omega

/-- The packets lost are counted right in every state of a run exactly when none are lost: a gap is
counted one too high, and not at all over the wrap from 127 to 0, from 0 to 127 or where a count
comes again. -/
theorem lost_eq_skipped_iff (thresh : FilterThresholds) (size : ℕ) (junk : ℕ → Option BsmValue)
    (timestampMs : ℕ → UInt64) (id : ℕ) (events : List FilterEvent)
    (haccepted : Always (step thresh) (Accepts thresh id) (some (start size junk timestampMs))
      events) (hcounts : ∀ c ∈ counts id events, c < 128) :
    CountsLost thresh id (some (start size junk timestampMs)) events ↔
      (counts id events).IsChain fun c c' => c' = (c + 1) % 128 := by
  unfold CountsLost at *
  induction events using List.reverseRecOn with
  | nil =>
    refine iff_of_true (fun xs hxs => ?_) List.IsChain.nil
    obtain rfl := List.prefix_nil.mp hxs
    exact ⟨_, rfl, rfl⟩
  | append_singleton events event ih =>
    obtain ⟨hbefore, hlast⟩ := always_append.mp haccepted
    obtain ⟨s, hs, htracks⟩ := tracks_final hbefore
    rw [hs] at hlast
    obtain ⟨s', hstep, hcount⟩ := htracks.step (always_cons.mp hlast).1
    have hs' : final (FilterLdm.step thresh) (some (start size junk timestampMs))
        (events ++ [event]) = some s' := by
      rw [final_append, hs]
      exact hstep
    rw [counts_concat] at hcounts ⊢
    have ih := ih hbefore fun c hc => hcounts c (List.mem_append_left _ hc)
    simp only [List.prefix_concat_iff, forall_eq_or_imp, hs', Option.some_inj,
      exists_eq_left', counts_concat]
    rw [ih, and_comm]
    -- so far the sum and the count are 0
    have hlost (hchain : (counts id events).IsChain fun c c' => c' = (c + 1) % 128) :
        s.lost id = 0 := by
      obtain ⟨s₁, hs₁, hlost⟩ := ih.mpr hchain events (List.prefix_refl _)
      obtain rfl := Option.some.inj (hs.symm.trans hs₁)
      rw [hlost, skipped_eq_zero hchain]
    rcases hcount with ⟨hnone, -, hsame⟩ | ⟨c, hsome, -, hadd⟩
    · rw [hnone, List.append_nil, and_iff_left_iff_imp]
      intro hchain
      rw [hsame, hlost hchain, skipped_eq_zero hchain]
    · rw [hsome, List.isChain_append]
      refine and_congr_right fun hchain => ?_
      rw [hadd, hlost hchain, skipped_concat, skipped_eq_zero hchain, zero_add,
        addLost_zero_iff (fun p hp => htracks.prevCount hp)]
      · simp
      · exact hcounts c (List.mem_append_right _ (by rw [hsome]; exact List.mem_cons_self))
      · exact fun p hp => hcounts p (List.mem_append_left _ (List.mem_of_getLast? hp))

/-- Thresholds that hold nothing back in the runs below. -/
def openThresholds : FilterThresholds := ⟨10, 4294967295, 0, 0, fun _ => false⟩

def numbered (msgCount : ℕ) (timestamp : UInt64) : FilterEvent :=
  .receive { callocBsm with msgCount := msgCount, id := 7 } timestamp

def emptyLdm : FilterLdm := start 2 (fun _ => none) fun _ => 0

/-- Two messages that follow each other over the wrap, with a sweep behind them. -/
theorem lost_eq_skipped_wrap :
    CountsLost openThresholds 7 (some emptyLdm)
        [numbered 127 1, numbered 0 2, .collect fun _ => true] ↔
      (counts 7 [numbered 127 1, numbered 0 2, .collect fun _ => true]).IsChain
        fun c c' => c' = (c + 1) % 128 :=
  lost_eq_skipped_iff openThresholds 2 (fun _ => none) (fun _ => 0) 7 _
    (always_cons.mpr ⟨fun _ => ⟨_, rfl⟩, always_cons.mpr ⟨fun _ => ⟨_, rfl⟩,
      always_cons.mpr ⟨trivial, always_nil⟩⟩⟩) (by decide)

/-- From 5 to 8 two packets are lost and three are counted, and from 126 to 1 two are lost and none
is counted. -/
theorem lost_ne_skipped :
    (Always (step openThresholds) (Accepts openThresholds 7) (some emptyLdm)
        [numbered 5 1, numbered 8 2] ∧
      ¬ CountsLost openThresholds 7 (some emptyLdm) [numbered 5 1, numbered 8 2]) ∧
    (Always (step openThresholds) (Accepts openThresholds 7) (some emptyLdm)
        [numbered 126 1, numbered 1 2] ∧
      ¬ CountsLost openThresholds 7 (some emptyLdm) [numbered 126 1, numbered 1 2]) := by
  have hrun (events : List FilterEvent) (n : ℤ)
      (hlost : (final (step openThresholds) (some emptyLdm) events).map (fun s => s.lost 7) =
        some n) (hskipped : n ≠ skipped (counts 7 events)) :
      ¬ CountsLost openThresholds 7 (some emptyLdm) events := by
    intro h
    obtain ⟨s, hs, heq⟩ := h events (List.prefix_refl _)
    rw [hs, Option.map_some, Option.some_inj] at hlost
    exact hskipped (hlost.symm.trans heq)
  constructor
  · refine ⟨?_, hrun _ 3 (by decide +kernel) (by decide)⟩
    exact always_cons.mpr ⟨fun _ => ⟨_, rfl⟩, always_cons.mpr ⟨fun _ => ⟨_, rfl⟩, always_nil⟩⟩
  · refine ⟨?_, hrun _ 0 (by decide +kernel) (by decide)⟩
    exact always_cons.mpr ⟨fun _ => ⟨_, rfl⟩, always_cons.mpr ⟨fun _ => ⟨_, rfl⟩, always_nil⟩⟩

end FilterLdm

end Tulux.QApplication
