import Tulux.QCoder.J2735Message

/-! What a round trip of a message restores: the ranges of the fields of Part II, and the message
with the encoded fields taken over from another one. A field behind a clear option is not
encoded. -/
namespace Tulux.QCoder

/-- The value fits in an unsigned field of `n` bits. -/
def Fits (n : ℕ) (x : ℤ) : Prop := 0 ≤ x ∧ x < 2 ^ n

instance (n : ℕ) (x : ℤ) : Decidable (Fits n x) := inferInstanceAs (Decidable (_ ∧ _))

/-- The options of a bit mask are set. -/
abbrev Has (opts mask : ℕ) : Prop := opts &&& mask ≠ 0

/-- An option decides whether the field is taken over. -/
def takeIf {α : Type} (c : Prop) [Decidable c] (new old : α) : α := if c then new else old

/-! ### The safety extension -/

structure AccuracyFits (a : PosAccuracy) : Prop where
  semiMajor : Fits 8 a.semiMajor
  semiMinor : Fits 8 a.semiMinor
  orientation : Fits 16 a.orientation

/-- The initial position; there is no `utcTime`. -/
structure PositionFits (fpv : FullPositionVector) : Prop where
  opts : fpv.opts < 0x80
  lon : -1799999999 ≤ fpv.lon ∧ fpv.lon ≤ 1800000001
  lat : -900000000 ≤ fpv.lat ∧ fpv.lat ≤ 900000001
  elevation : Has fpv.opts 0x40 → Fits 16 (fpv.elevation - -4096)
  heading : Has fpv.opts 0x20 → Fits 15 fpv.heading
  speed : Has fpv.opts 0x10 → Fits 13 fpv.speed
  posAccuracy : Has fpv.opts 0x8 → AccuracyFits fpv.posAccuracy
  timeConfidence : Has fpv.opts 0x4 → Fits 6 fpv.timeConfidence
  posConfidence : Has fpv.opts 0x2 →
    Fits 4 fpv.posConfidence.xy ∧ Fits 4 fpv.posConfidence.elevation
  motionConfidence : Has fpv.opts 0x1 → Fits 3 fpv.motionConfidenceSet.headingConfidence ∧
    Fits 3 fpv.motionConfidenceSet.speedConfidence ∧
    Fits 2 fpv.motionConfidenceSet.throttleConfidence

def takePosition (fpv old : FullPositionVector) : FullPositionVector where
  opts := fpv.opts
  utcTime := old.utcTime
  lon := fpv.lon
  lat := fpv.lat
  elevation := takeIf (Has fpv.opts 0x40) fpv.elevation old.elevation
  heading := takeIf (Has fpv.opts 0x20) fpv.heading old.heading
  speed := takeIf (Has fpv.opts 0x10) fpv.speed old.speed
  posAccuracy := takeIf (Has fpv.opts 0x8) fpv.posAccuracy old.posAccuracy
  timeConfidence := takeIf (Has fpv.opts 0x4) fpv.timeConfidence old.timeConfidence
  posConfidence := takeIf (Has fpv.opts 0x2) fpv.posConfidence old.posConfidence
  motionConfidenceSet := takeIf (Has fpv.opts 0x1) fpv.motionConfidenceSet old.motionConfidenceSet

/-- The heading is coarse, and the time offset has a step of 10 ms. -/
structure CrumbFits (crumb : PhPoint) : Prop where
  opts : crumb.opts < 8
  latOffset : Fits 18 (crumb.latOffset - -131072)
  lonOffset : Fits 18 (crumb.lonOffset - -131072)
  eleOffset : Fits 12 (crumb.eleOffset - -2048)
  timeOffset : 10 ≤ crumb.timeOffsetMs ∧ crumb.timeOffsetMs ≤ 655360 ∧ crumb.timeOffsetMs % 10 = 0
  speed : Has crumb.opts 0x4 → Fits 13 crumb.speed
  accy : Has crumb.opts 0x2 → AccuracyFits crumb.accy
  heading : Has crumb.opts 0x1 → crumb.headingAvailable = 1 →
    crumb.headingMicrodegrees % 1500 = 0 ∧ crumb.headingMicrodegrees < 360000

/-- A heading that is not available is encoded as such. -/
def HasHeading (crumb : PhPoint) : Prop := Has crumb.opts 0x1 ∧ crumb.headingAvailable = 1

instance (crumb : PhPoint) : Decidable (HasHeading crumb) := inferInstanceAs (Decidable (_ ∧ _))

def takeCrumb (crumb old : PhPoint) : PhPoint where
  opts := crumb.opts
  latOffset := crumb.latOffset
  lonOffset := crumb.lonOffset
  eleOffset := crumb.eleOffset
  timeOffsetMs := crumb.timeOffsetMs
  speed := takeIf (Has crumb.opts 0x4) crumb.speed old.speed
  accy := takeIf (Has crumb.opts 0x2) crumb.accy old.accy
  headingMicrodegrees :=
    takeIf (HasHeading crumb) crumb.headingMicrodegrees old.headingMicrodegrees
  headingAvailable := takeIf (HasHeading crumb) 1 0

def takePathHistory (phopts : ℤ) (ph old : PathHistory) : PathHistory where
  initialPosition := takeIf (Has (u32 phopts) 0x2)
    (takePosition ph.initialPosition old.initialPosition) old.initialPosition
  gnssStatus := takeIf (Has (u32 phopts) 0x1) ph.gnssStatus old.gnssStatus
  qtyCrumbs := ph.qtyCrumbs
  phCrumb := fun m =>
    takeIf (m < ph.qtyCrumbs) (takeCrumb (ph.phCrumb m) (old.phCrumb m)) (old.phCrumb m)

/-- `is_straight` is not encoded; it follows from the radius. -/
def takePrediction (pp : PathPrediction) : PathPrediction :=
  { pp with isStraight := if pp.radius = 0 then 1 else 0 }

structure PathHistoryFits (v : BsmValue) : Prop where
  opts : Fits 2 v.phopts
  position : Has (u32 v.phopts) 0x2 → PositionFits v.ph.initialPosition
  gnssStatus : Has (u32 v.phopts) 0x1 → v.ph.gnssStatus < 2 ^ 8
  qtyCrumbs : 1 ≤ v.ph.qtyCrumbs ∧ v.ph.qtyCrumbs ≤ 23
  crumbs : ∀ m : ℕ, m < v.ph.qtyCrumbs → CrumbFits (v.ph.phCrumb m)

structure SafetyFits (v : BsmValue) : Prop where
  opts : Fits 4 v.vehsafeopts
  events : Has (u32 v.vehsafeopts) 0x8 → v.events < 2 ^ 13
  pathHistory : Has (u32 v.vehsafeopts) 0x4 → PathHistoryFits v
  pathPrediction : Has (u32 v.vehsafeopts) 0x2 →
    Fits 16 (v.pp.radius - -32767) ∧ v.pp.confidence < 2 ^ 8
  lights : Has (u32 v.vehsafeopts) 0x1 → v.lightsInUse < 2 ^ 9

def takeSafety (v b : BsmValue) : BsmValue :=
  let opts := u32 v.vehsafeopts
  { b with
    hasSafetyExtension := 1
    vehsafeopts := v.vehsafeopts
    events := takeIf (Has opts 0x8) v.events b.events
    phopts := takeIf (Has opts 0x4) v.phopts b.phopts
    ph := takeIf (Has opts 0x4) (takePathHistory v.phopts v.ph b.ph) b.ph
    pp := takeIf (Has opts 0x2) (takePrediction v.pp) b.pp
    lightsInUse := takeIf (Has opts 0x1) v.lightsInUse b.lightsInUse }

/-! ### The special extension -/

structure EmergencyDetailsFit (v : BsmValue) : Prop where
  opts : v.edopts < 2 ^ 2
  sspRights : Fits 5 v.vehicleAlerts.sspRights
  sirenUse : Fits 2 v.vehicleAlerts.sirenUse
  lightsUse : Fits 3 v.vehicleAlerts.lightsUse
  multi : Fits 2 v.vehicleAlerts.multi
  events : Has v.edopts 0x2 →
    Fits 5 v.vehicleAlerts.events.sspRights ∧ Fits 16 v.vehicleAlerts.events.event
  responseType : Has v.edopts 0x1 → Fits 3 v.vehicleAlerts.responseType

def takeAlerts (opts : ℕ) (alerts old : EmergencyDetails) : EmergencyDetails where
  sspRights := alerts.sspRights
  sirenUse := alerts.sirenUse
  lightsUse := alerts.lightsUse
  multi := alerts.multi
  events := takeIf (Has opts 0x2) alerts.events old.events
  responseType := takeIf (Has opts 0x1) alerts.responseType old.responseType

/-- There is no regional extension. -/
structure EventDescriptionFits (v : BsmValue) : Prop where
  opts : v.eventopts < 2 ^ 5
  typeEvent : Fits 16 v.description.typeEvent
  descs : Has v.eventopts 0x10 → 1 ≤ v.description.sizeDesc ∧ v.description.sizeDesc ≤ 8 ∧
    ∀ m : ℕ, m < v.description.sizeDesc → Fits 16 (v.description.desc m)
  priority : Has v.eventopts 0x8 → Fits 8 v.description.priority
  heading : Has v.eventopts 0x4 → Fits 16 v.description.heading
  extent : Has v.eventopts 0x2 → Fits 4 v.description.extent
  regional : ¬ Has v.eventopts 0x1

def takeDescription (opts : ℕ) (event old : EventDescription) : EventDescription where
  typeEvent := event.typeEvent
  sizeDesc := takeIf (Has opts 0x10) event.sizeDesc old.sizeDesc
  desc := fun m => takeIf (Has opts 0x10 ∧ m < event.sizeDesc) (event.desc m) (old.desc m)
  priority := takeIf (Has opts 0x8) event.priority old.priority
  heading := takeIf (Has opts 0x4) event.heading old.heading
  extent := takeIf (Has opts 0x2) event.extent old.extent

/-- There is no trailer data. -/
structure SpecialFits (v : BsmValue) : Prop where
  opts : Fits 3 v.specvehopts
  details : Has (u32 v.specvehopts) 0x4 → EmergencyDetailsFit v
  description : Has (u32 v.specvehopts) 0x2 → EventDescriptionFits v
  trailer : ¬ Has (u32 v.specvehopts) 0x1

def takeSpecial (v b : BsmValue) : BsmValue :=
  let opts := u32 v.specvehopts
  { b with
    hasSpecialExtension := 1
    specvehopts := v.specvehopts
    edopts := takeIf (Has opts 0x4) v.edopts b.edopts
    vehicleAlerts :=
      takeIf (Has opts 0x4) (takeAlerts v.edopts v.vehicleAlerts b.vehicleAlerts) b.vehicleAlerts
    eventopts := takeIf (Has opts 0x2) v.eventopts b.eventopts
    description := takeIf (Has opts 0x2)
      (takeDescription v.eventopts v.description b.description) b.description }

/-! ### The supplemental extension -/

/-- The mass is one that a code stands for. -/
def MassDecodable (massKg : ℕ) : Prop := ∃ n < 256, massKg = u32 (vehicleMassDecode n)

structure VehicleDataFits (veh : VehicleData) : Prop where
  options : veh.options < 2 ^ 4
  height : Has veh.options 0x8 → veh.heightCm % 5 = 0 ∧ veh.heightCm / 5 < 2 ^ 7
  bumpers : Has veh.options 0x4 →
    veh.frontBumperHeightCm < 2 ^ 7 ∧ veh.rearBumperHeightCm < 2 ^ 7
  mass : Has veh.options 0x2 → MassDecodable veh.massKg
  trailerWeight : Has veh.options 0x1 → veh.trailerWeight < 2 ^ 16

def takeVehicleData (veh old : VehicleData) : VehicleData where
  options := veh.options
  heightCm := takeIf (Has veh.options 0x8) veh.heightCm old.heightCm
  frontBumperHeightCm :=
    takeIf (Has veh.options 0x4) veh.frontBumperHeightCm old.frontBumperHeightCm
  rearBumperHeightCm := takeIf (Has veh.options 0x4) veh.rearBumperHeightCm old.rearBumperHeightCm
  massKg := takeIf (Has veh.options 0x2) veh.massKg old.massKg
  trailerWeight := takeIf (Has veh.options 0x1) veh.trailerWeight old.trailerWeight

structure WeatherProbeFits (v : BsmValue) : Prop where
  opts : v.weatheropts < 2 ^ 3
  airTemp : Has v.weatheropts 0x4 → Fits 8 v.airTemp
  airPressure : Has v.weatheropts 0x2 → Fits 8 v.airPressure
  wipers : Has v.weatheropts 0x1 → v.wiperopts < 2 ^ 2 ∧ Fits 4 v.statusFront ∧
    Fits 7 v.rateFront ∧ (Has v.wiperopts 0x2 → Fits 4 v.statusRear) ∧
    (Has v.wiperopts 0x1 → Fits 7 v.rateRear)

def takeWeatherProbe (v b : BsmValue) : BsmValue :=
  let wipers := Has v.weatheropts 0x1
  { b with
    weatheropts := v.weatheropts
    airTemp := takeIf (Has v.weatheropts 0x4) v.airTemp b.airTemp
    airPressure := takeIf (Has v.weatheropts 0x2) v.airPressure b.airPressure
    wiperopts := takeIf wipers v.wiperopts b.wiperopts
    statusFront := takeIf wipers v.statusFront b.statusFront
    rateFront := takeIf wipers v.rateFront b.rateFront
    statusRear := takeIf (wipers ∧ Has v.wiperopts 0x2) v.statusRear b.statusRear
    rateRear := takeIf (wipers ∧ Has v.wiperopts 0x1) v.rateRear b.rateRear }

structure SupplementalFits (v : BsmValue) : Prop where
  opts : Fits 10 v.suppvehopts
  handled : HandledOptions (u32 v.suppvehopts)
  vehicleClass : Has (u32 v.suppvehopts) 0x200 → Fits 8 v.vehicleClass
  vehicleData : Has (u32 v.suppvehopts) 0x80 → VehicleDataFits v.veh
  weatherProbe : Has (u32 v.suppvehopts) 0x20 → WeatherProbeFits v

def takeSupplemental (v b : BsmValue) : BsmValue :=
  let opts := u32 v.suppvehopts
  let b := takeIf (Has opts 0x20) (takeWeatherProbe v b) b
  { b with
    hasSupplementalExtension := 1
    suppvehopts := v.suppvehopts
    vehicleClass := takeIf (Has opts 0x200) v.vehicleClass b.vehicleClass
    veh := takeIf (Has opts 0x80) (takeVehicleData v.veh b.veh) b.veh }

/-! ### Part II -/

/-- The number of extensions is right, and the fields of each are in range. -/
structure PartIIFits (v : BsmValue) : Prop where
  partII : v.hasPartII ≠ 0
  qty : v.qtyPartIIExtensions = (if v.hasSafetyExtension ≠ 0 then 1 else 0) +
    (if v.hasSpecialExtension ≠ 0 then 1 else 0) +
    (if v.hasSupplementalExtension ≠ 0 then 1 else 0)
  present : 0 < v.qtyPartIIExtensions
  safety : v.hasSafetyExtension ≠ 0 → SafetyFits v
  special : v.hasSpecialExtension ≠ 0 → SpecialFits v
  supplemental : v.hasSupplementalExtension ≠ 0 → SupplementalFits v

/-- The extensions that are present, in order. -/
def takePartII (v b : BsmValue) : BsmValue :=
  let b := { b with qtyPartIIExtensions := v.qtyPartIIExtensions }
  let b := takeIf (v.hasSafetyExtension ≠ 0) (takeSafety v b) b
  let b := takeIf (v.hasSpecialExtension ≠ 0) (takeSpecial v b) b
  takeIf (v.hasSupplementalExtension ≠ 0) (takeSupplemental v b) b

end Tulux.QCoder
