import Tulux.QCoder.J2735Decode

/-! The messages that `SaeApplication` fills in. The positions and rates of the location source are
given as the integers that their products are cut to; `timestamp_ms` shows in `secMarkMs` only. -/
namespace Tulux.QApplication
open QCoder

/-- `srand` and `rand`. -/
structure RandomSource (σ : Type) where
  srand : ℕ → σ
  rand : σ → ℕ × σ

/-- What `fillBsmCan` reads of `current_dynamic_vehicle_state_t`. -/
structure VehicleState where
  prndl : ℕ
  events : ℕ
  steeringWheelAngle : ℤ
  brakeStatus : ℕ
  exteriorLights : ℕ
  frontWiperStatus : ℤ

/-- What `fillBsmLocation` reads of the location source, in the units of the message. -/
structure LocationInfo where
  latitude : ℤ
  longitude : ℤ
  altitude : ℤ
  semiMajor : ℕ
  semiMinor : ℕ
  azimuth : ℕ
  heading : ℕ
  speed : ℕ
  latAccel : ℤ
  longAccel : ℤ
  vertAccel : ℤ
  yawRate : ℤ

structure Configuration where
  vehicleLength : ℕ
  vehicleWidth : ℕ
  enableVehicleExt : Bool

/-! ### Filling a message -/

/-- A bit set in an `int`. -/
def setBit (x : ℤ) (bit : ℕ) : ℤ := s32 (u32 x ||| bit : ℕ)

def fillBsmCan (dp : VehicleState) (bsm : BsmValue) : BsmValue :=
  let bsm := { bsm with transmissionState := dp.prndl }
  let bsm := if dp.events ≠ 0 then
      { bsm with
        hasSafetyExtension := 1
        vehsafeopts := setBit bsm.vehsafeopts 0x8
        events := dp.events >>> 3 }
    else bsm
  let bsm := { bsm with
    steeringWheelAngle := dp.steeringWheelAngle
    brakes := dp.brakeStatus }
  let bsm := if dp.exteriorLights ≠ 0 then
      { bsm with
        hasSafetyExtension := 1
        vehsafeopts := setBit bsm.vehsafeopts 0x1
        lightsInUse := dp.exteriorLights }
    else bsm
  { bsm with
    hasSupplementalExtension := 1
    suppvehopts := setBit bsm.suppvehopts 0x20
    weatheropts := bsm.weatheropts ||| 0x1
    statusFront := dp.frontWiperStatus
    wiperopts := bsm.wiperopts ||| 0x2 }

def fillBsmLocation (location : LocationInfo) (bsm : BsmValue) : BsmValue :=
  { bsm with
    latitude := location.latitude
    longitude := location.longitude
    elevation := location.altitude
    semiMajorAxisAccuracy := location.semiMajor
    semiMinorAxisAccuracy := location.semiMinor
    semiMajorAxisOrientation := location.azimuth
    headingDegrees := location.heading
    speed := location.speed
    accelLat := location.latAccel
    accelLon := location.longAccel
    accelVert := location.vertAccel
    accelYaw := location.yawRate }

/-- What one send reads: the message that is sent, two times and the sources of data. -/
structure SendInput where
  content : ℕ
  seedTime : ℕ
  timestamp : ℕ
  vehicle : VehicleState
  location : LocationInfo

variable {σ : Type}

section Fill
variable (source : RandomSource σ) (configuration : Configuration)

/-- `memset` with zeros. -/
def clearBsm (_ : BsmValue) : BsmValue := callocBsm

/-- The message is cleared first, so that the id and the counter are 0 where they are looked at. -/
def fillBsm (input : SendInput) (bsm : BsmValue) : BsmValue :=
  let bsm := clearBsm bsm
  let state := source.srand input.seedTime
  let bsm := fillBsmLocation input.location (fillBsmCan input.vehicle bsm)
  let (bsm, state) := if bsm.id = 0 then
      let (value, state) := source.rand state
      ({ bsm with id := value }, state)
    else (bsm, state)
  let ext := if configuration.enableVehicleExt then 1 else 0
  let bsm := { bsm with
    vehicleLengthCm := configuration.vehicleLength
    vehicleWidthCm := configuration.vehicleWidth
    hasSafetyExtension := ext
    hasSupplementalExtension := ext }
  let bsm := if bsm.msgCount = 0 then
      { bsm with msgCount := (source.rand state).1 % 127 + 1 }
    else { bsm with msgCount := (bsm.msgCount + 1) % 127 }
  { bsm with secMarkMs := input.timestamp % 60000 }

/-! ### Runs of sends -/

/-- The messages of the application, by their place among `txSimMsg`, `spsContents` and
`eventContents`. -/
abbrev Contents := ℕ → BsmValue

def send (contents : Contents) (input : SendInput) : Contents :=
  Function.update contents input.content
    (fillBsm source configuration input (contents input.content))

/-- The messages that a run of sends hands to the encoder. -/
def sentBsms : Contents → List SendInput → List BsmValue
  | _, [] => []
  | contents, input :: inputs =>
    let contents := send source configuration contents input
    contents input.content :: sentBsms contents inputs

end Fill

/-- Every message has the counter behind that of the one before, and all have one id. -/
def MessageCounterLaw (bsms : List BsmValue) : Prop :=
  bsms.IsChain (fun bsm next => next.msgCount = (bsm.msgCount + 1) % 128) ∧
    ∀ bsm ∈ bsms, ∀ next ∈ bsms, next.id = bsm.id

/-- The first number that is drawn with a seed. -/
def firstDraw (source : RandomSource σ) (seed : ℕ) : ℕ := (source.rand (source.srand seed)).1

def secondDraw (source : RandomSource σ) (seed : ℕ) : ℕ :=
  (source.rand (source.rand (source.srand seed)).2).1

/-- The draws with the times of the sends happen to follow each other. -/
def DrawsInStep (source : RandomSource σ) (inputs : List SendInput) : Prop :=
  inputs.IsChain (fun input next => secondDraw source next.seedTime % 127 + 1 =
    (secondDraw source input.seedTime % 127 + 1 + 1) % 128) ∧
    ∀ input ∈ inputs, ∀ next ∈ inputs,
      firstDraw source next.seedTime = firstDraw source input.seedTime

section Counter
variable {source : RandomSource σ} {configuration : Configuration}

theorem fillBsmCan_id (dp : VehicleState) (bsm : BsmValue) : (fillBsmCan dp bsm).id = bsm.id := by
  unfold fillBsmCan
  split_ifs <;> rfl

theorem fillBsmCan_msgCount (dp : VehicleState) (bsm : BsmValue) :
    (fillBsmCan dp bsm).msgCount = bsm.msgCount := by
  unfold fillBsmCan
  split_ifs <;> rfl

/-- The id and the counter are drawn anew. -/
theorem fillBsm_draws (source : RandomSource σ) (configuration : Configuration)
    (input : SendInput) (bsm : BsmValue) :
    (fillBsm source configuration input bsm).id = firstDraw source input.seedTime ∧
      (fillBsm source configuration input bsm).msgCount =
        secondDraw source input.seedTime % 127 + 1 := by
  have hid : (fillBsmLocation input.location
      (fillBsmCan input.vehicle (clearBsm bsm))).id = 0 :=
    fillBsmCan_id input.vehicle callocBsm
  have hcount : (fillBsmLocation input.location
      (fillBsmCan input.vehicle (clearBsm bsm))).msgCount = 0 :=
    fillBsmCan_msgCount input.vehicle callocBsm
  unfold fillBsm
  simp only [hid, hcount, if_true]
  exact ⟨rfl, rfl⟩

theorem map_sentBsms (source : RandomSource σ) (configuration : Configuration)
    (contents : Contents) (inputs : List SendInput) :
    (sentBsms source configuration contents inputs).map (fun bsm => (bsm.id, bsm.msgCount)) =
      inputs.map fun input =>
        (firstDraw source input.seedTime, secondDraw source input.seedTime % 127 + 1) := by
  induction inputs generalizing contents with
  | nil => rfl
  | cons input inputs ih =>
    obtain ⟨hid, hcount⟩ := fillBsm_draws source configuration input (contents input.content)
    rw [sentBsms, List.map_cons, List.map_cons, ih, send, Function.update_self, hid, hcount]

theorem messageCounterLaw_map (bsms : List BsmValue) :
    MessageCounterLaw bsms ↔
      (bsms.map fun bsm => (bsm.id, bsm.msgCount)).IsChain
          (fun bsm next => next.2 = (bsm.2 + 1) % 128) ∧
        ∀ bsm ∈ bsms.map (fun bsm => (bsm.id, bsm.msgCount)),
          ∀ next ∈ bsms.map (fun bsm => (bsm.id, bsm.msgCount)), next.1 = bsm.1 := by
  rw [MessageCounterLaw, List.isChain_map]
  simp only [List.forall_mem_map]

/-- A counter that is never 0 ends before 128. -/
theorem length_counters (count : ℕ) (counts : List ℕ)
    (hchain : (count :: counts).IsChain (fun count next => next = (count + 1) % 128))
    (hrange : ∀ n ∈ count :: counts, 0 < n ∧ n ≤ 127) : count + counts.length ≤ 127 := by
  induction counts generalizing count with
  | nil => simpa using (hrange count (List.mem_singleton_self count)).2
  | cons next counts ih =>
    rw [List.isChain_cons_cons] at hchain
    have hcount := (hrange count List.mem_cons_self).2
    have hnext := (hrange next (List.mem_cons_of_mem _ List.mem_cons_self)).1
    have hrest := ih next hchain.2 fun n hn => hrange n (List.mem_cons_of_mem _ hn)
    rw [List.length_cons]
    omega

theorem length_of_law {bsms : List BsmValue} (hlaw : MessageCounterLaw bsms)
    (hrange : ∀ bsm ∈ bsms, 0 < bsm.msgCount ∧ bsm.msgCount ≤ 127) : bsms.length ≤ 127 := by
  cases bsms with
  | nil => exact Nat.zero_le 127
  | cons bsm bsms =>
    have hfirst := (hrange bsm List.mem_cons_self).1
    have hcounts := length_counters bsm.msgCount (bsms.map BsmValue.msgCount)
      (by rw [← List.map_cons, List.isChain_map]; exact hlaw.1)
      (by rw [← List.map_cons]; simpa only [List.forall_mem_map] using hrange)
    rw [List.length_map] at hcounts
    rw [List.length_cons]
    omega

/-- The law holds of a run of sends where the draws follow each other by chance, and of no run of
more than 127 sends. -/
theorem messageCounterLaw_iff (source : RandomSource σ) (configuration : Configuration)
    (contents : Contents) (inputs : List SendInput) :
    (MessageCounterLaw (sentBsms source configuration contents inputs) ↔
        DrawsInStep source inputs) ∧
      (MessageCounterLaw (sentBsms source configuration contents inputs) → inputs.length ≤ 127) := by
  have hmap := map_sentBsms source configuration contents inputs
  constructor
  · rw [messageCounterLaw_map, hmap, List.isChain_map, DrawsInStep]
    simp only [List.forall_mem_map]
  · intro hlaw
    have hlength := congrArg List.length hmap
    rw [List.length_map, List.length_map] at hlength
    rw [← hlength]
    apply length_of_law hlaw
    have hdrawn (pair : ℕ × ℕ) (hpair : pair ∈ inputs.map fun input =>
        (firstDraw source input.seedTime, secondDraw source input.seedTime % 127 + 1)) :
        0 < pair.2 ∧ pair.2 ≤ 127 := by
      obtain ⟨input, -, rfl⟩ := List.mem_map.mp hpair
      dsimp only
      omega
    intro bsm hbsm
    exact hdrawn (bsm.id, bsm.msgCount) (hmap ▸ List.mem_map_of_mem hbsm)

end Counter

/-- The generator of the C standard's example. -/
def exampleSource : RandomSource ℕ where
  srand seed := seed
  rand state :=
    let state := (state * 1103515245 + 12345) % 2 ^ 32
    (state / 65536 % 32768, state)

def exampleInput (time : ℕ) : SendInput where
  content := 0
  seedTime := time
  timestamp := time
  vehicle := ⟨0, 0, 0, 0, 0, 0⟩
  location := ⟨0, 0, 0, 0, 0, 0, 0, 0, 0, 0, 0, 0⟩

/-- Two sends 100 ms apart. -/
theorem messageCounter_jumps :
    ¬ MessageCounterLaw (sentBsms exampleSource ⟨0, 0, false⟩ (fun _ => callocBsm)
      [exampleInput 1000, exampleInput 1100]) := by
  rw [messageCounterLaw_map, map_sentBsms]
  decide

end Tulux.QApplication
