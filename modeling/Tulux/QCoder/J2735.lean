import Tulux.Lib.BitParser
import Tulux.QCoder.AsnbufMerge

/-! The basic safety message of `j2735.h` and its encoder in `j2735.c`. An `unsigned` or a bit
field is a natural number, an `int` an integer. `timestamp_ms`, the trailers and the regional
extensions are left out. -/
namespace Tulux.QCoder
open BitParser

/-- An `int` passed as a `uint32_t`. -/
def u32 (x : ℤ) : ℕ := (x % 2 ^ 32).toNat

/-- A `uint32_t` stored in an `int`. -/
def s32 (x : ℤ) : ℤ := Int.bmod x (2 ^ 32)

@[simp] theorem u32_natCast_of_lt {x : ℕ} (h : x < 2 ^ 32) : u32 x = x := by
  rw [u32]
  omega

theorem s32_of_lt {x : ℤ} (h : -2 ^ 31 ≤ x ∧ x < 2 ^ 31) : s32 x = x := by
  rw [s32, Int.bmod]
  split_ifs <;> omega

/-! ### The message -/

structure PosAccuracy where
  semiMajor : ℤ
  semiMinor : ℤ
  orientation : ℤ
  deriving DecidableEq

structure PosConfidenceSet where
  xy : ℤ
  elevation : ℤ
  deriving DecidableEq

structure MotionConfidenceSet where
  headingConfidence : ℤ
  speedConfidence : ℤ
  throttleConfidence : ℤ
  deriving DecidableEq

structure DDateTime where
  opts : ℕ
  year : ℕ
  month : ℕ
  day : ℕ
  hour : ℕ
  minute : ℕ
  second : ℕ
  offset : ℤ
  deriving DecidableEq

structure FullPositionVector where
  opts : ℕ
  utcTime : DDateTime
  lon : ℤ
  lat : ℤ
  elevation : ℤ
  heading : ℤ
  speed : ℤ
  posAccuracy : PosAccuracy
  timeConfidence : ℤ
  posConfidence : PosConfidenceSet
  motionConfidenceSet : MotionConfidenceSet
  deriving DecidableEq

structure PhPoint where
  opts : ℕ
  latOffset : ℤ
  lonOffset : ℤ
  eleOffset : ℤ
  timeOffsetMs : ℤ
  speed : ℤ
  accy : PosAccuracy
  headingMicrodegrees : ℕ
  headingAvailable : ℕ
  deriving DecidableEq

structure PathHistory where
  initialPosition : FullPositionVector
  gnssStatus : ℕ
  qtyCrumbs : ℤ
  phCrumb : ℕ → PhPoint

structure PathPrediction where
  isStraight : ℕ
  radius : ℤ
  confidence : ℕ
  deriving DecidableEq

structure VehicleData where
  options : ℕ
  heightCm : ℕ
  frontBumperHeightCm : ℕ
  rearBumperHeightCm : ℕ
  massKg : ℕ
  trailerWeight : ℕ
  deriving DecidableEq

structure PrivilegedEvents where
  sspRights : ℤ
  event : ℤ
  deriving DecidableEq

structure EmergencyDetails where
  sspRights : ℤ
  sirenUse : ℤ
  lightsUse : ℤ
  multi : ℤ
  events : PrivilegedEvents
  responseType : ℤ
  deriving DecidableEq

structure EventDescription where
  typeEvent : ℤ
  sizeDesc : ℤ
  desc : ℕ → ℤ
  priority : ℤ
  heading : ℤ
  extent : ℤ

/-- `bsm_value_t`. -/
structure BsmValue where
  msgCount : ℕ
  id : ℕ
  secMarkMs : ℕ
  latitude : ℤ
  longitude : ℤ
  elevation : ℤ
  semiMajorAxisAccuracy : ℕ
  semiMinorAxisAccuracy : ℕ
  semiMajorAxisOrientation : ℕ
  transmissionState : ℕ
  speed : ℕ
  headingDegrees : ℕ
  steeringWheelAngle : ℤ
  accelLon : ℤ
  accelLat : ℤ
  accelVert : ℤ
  accelYaw : ℤ
  brakes : ℕ
  vehicleWidthCm : ℕ
  vehicleLengthCm : ℕ
  hasPartII : ℕ
  qtyPartIIExtensions : ℤ
  hasRegionalExtensions : ℕ
  hasSafetyExtension : ℕ
  hasSpecialExtension : ℕ
  hasSupplementalExtension : ℕ
  vehsafeopts : ℤ
  phopts : ℤ
  ph : PathHistory
  pp : PathPrediction
  events : ℕ
  lightsInUse : ℕ
  specvehopts : ℤ
  edopts : ℕ
  eventopts : ℕ
  vehicleAlerts : EmergencyDetails
  description : EventDescription
  suppvehopts : ℤ
  vehicleClass : ℤ
  veh : VehicleData
  weatheropts : ℕ
  wiperopts : ℕ
  airTemp : ℤ
  airPressure : ℤ
  rateFront : ℤ
  rateRear : ℤ
  statusFront : ℤ
  statusRear : ℤ

/-- The 8 bit code of a mass, or -1 for an unknown one. -/
def vehicleMassDecode (n : ℕ) : ℤ :=
  if n = 255 then -1
  else if n = 254 then 170001
  else
    let (kg, n) : ℤ × ℕ := if 200 < n then (2000 * (n - 200), 200) else (0, n)
    let (kg, n) : ℤ × ℕ := if 80 < n then (kg + 500 * (n - 80), 80) else (kg, n)
    kg + n * 50

def vehicleMassEncode (massKg : ℤ) : ℕ :=
  let encVal : ℤ :=
    if massKg < 0 then 255
    else if 170001 ≤ massKg then 254
    else if massKg ≤ 80 * 50 then massKg / 50
    else if massKg ≤ 80 * 50 + (200 - 81) * 500 then 80 + (massKg - 80 * 50) / 500
    -- the division rounds towards zero, and the difference may be negative
    else 200 + (massKg - (80 * 50 + (200 - 80) * 500)).tdiv 2000
  (encVal % 256).toNat

/-! ### Extensions

The sequences of `asn_ncat_bits`. An error leaves what is built so far. -/

abbrev Builder := EStateM Unit Abuf Unit

def put (data : ℤ) (bitlen : ℕ) : Builder := modify (ncat (u32 data) bitlen)

/-- The initial position; there is no `utcTime`. -/
def putInitialPosition (fpv : FullPositionVector) : Builder := do
  let opts := fpv.opts &&& 0x7f
  put 0 1
  put opts 8
  put (fpv.lon - -1799999999) 32
  put (fpv.lat - -900000000) 31
  optional (opts &&& 0x20 ≠ 0) (put fpv.heading 15)
  optional (opts &&& 0x40 ≠ 0) (put (fpv.elevation - -4096) 16)
  optional (opts &&& 0x20 ≠ 0) (put fpv.heading 15)
  optional (opts &&& 0x8 ≠ 0) do
    put fpv.posAccuracy.semiMajor 8
    put fpv.posAccuracy.semiMinor 8
    put fpv.posAccuracy.orientation 16
  optional (opts &&& 0x4 ≠ 0) (put fpv.timeConfidence 6)
  optional (opts &&& 0x2 ≠ 0) do
    put fpv.posConfidence.xy 4
    put fpv.posConfidence.elevation 4
  optional (opts &&& 0x1 ≠ 0) do
    put fpv.motionConfidenceSet.headingConfidence 3
    put fpv.motionConfidenceSet.speedConfidence 3
    put fpv.motionConfidenceSet.throttleConfidence 2

/-- The coarse heading of a crumb. -/
def coarseHeading (crumb : PhPoint) : ℕ :=
  if crumb.headingAvailable = 1 then crumb.headingMicrodegrees / 1500 else 240

def putCrumb (crumb : PhPoint) : Builder := do
  put 0 1
  put crumb.opts 3
  put (crumb.latOffset - -131072) 18
  put (crumb.lonOffset - -131072) 18
  put (crumb.eleOffset - -2048) 12
  put ((crumb.timeOffsetMs - 1).tdiv 10) 16
  optional (crumb.opts &&& 0x4 ≠ 0) (put crumb.speed 13)
  optional (crumb.opts &&& 0x2 ≠ 0) do
    put crumb.accy.semiMajor 8
    put crumb.accy.semiMinor 8
    put crumb.accy.orientation 16
  optional (crumb.opts &&& 0x1 ≠ 0) (put (coarseHeading crumb) 8)

/-- The loop over `n` crumbs from `m` on. -/
def putCrumbs (phCrumb : ℕ → PhPoint) (m : ℕ) : ℕ → Builder
  | 0 => pure ()
  | n + 1 => do
    putCrumb (phCrumb m)
    putCrumbs phCrumb (m + 1) n

def putPathHistory (v : BsmValue) : Builder := do
  put 0 1
  put v.phopts 2
  optional (u32 v.phopts &&& 0x2 ≠ 0) (putInitialPosition v.ph.initialPosition)
  optional (u32 v.phopts &&& 0x1 ≠ 0) (put v.ph.gnssStatus 8)
  put (v.ph.qtyCrumbs - 1) 5
  putCrumbs v.ph.phCrumb 0 v.ph.qtyCrumbs.toNat

def putVehicleSafetyExt (v : BsmValue) : Builder := do
  put 0 1
  put v.vehsafeopts 4
  optional (u32 v.vehsafeopts &&& 0x8 ≠ 0) do
    put 0 1
    put v.events 13
  optional (u32 v.vehsafeopts &&& 0x4 ≠ 0) (putPathHistory v)
  optional (u32 v.vehsafeopts &&& 0x2 ≠ 0) do
    put 0 1
    put (v.pp.radius - -32767) 16
    put v.pp.confidence 8
  optional (u32 v.vehsafeopts &&& 0x1 ≠ 0) do
    put 0 1
    put v.lightsInUse 9

def putEmergencyDetails (v : BsmValue) : Builder := do
  put 0 1
  put v.edopts 2
  put v.vehicleAlerts.sspRights 5
  put v.vehicleAlerts.sirenUse 2
  put v.vehicleAlerts.lightsUse 3
  put v.vehicleAlerts.multi 2
  optional (v.edopts &&& 0x2 ≠ 0) do
    put 0 1
    put v.vehicleAlerts.sspRights 5
    put v.vehicleAlerts.events.event 16
  optional (v.edopts &&& 0x1 ≠ 0) do
    put 0 1
    put v.vehicleAlerts.responseType 3

/-- The loop over `n` description codes from `m` on. -/
def putDescs (desc : ℕ → ℤ) (m : ℕ) : ℕ → Builder
  | 0 => pure ()
  | n + 1 => do
    put (desc m) 16
    putDescs desc (m + 1) n

def putEventDescription (v : BsmValue) : Builder := do
  put 0 1
  put v.eventopts 5
  put v.description.typeEvent 16
  optional (v.eventopts &&& 0x10 ≠ 0) do
    put (v.description.sizeDesc - 1) 3
    putDescs v.description.desc 0 v.description.sizeDesc.toNat
  optional (v.eventopts &&& 0x8 ≠ 0) (put v.description.priority 8)
  optional (v.eventopts &&& 0x4 ≠ 0) (put v.description.heading 16)
  optional (v.eventopts &&& 0x2 ≠ 0) (put v.description.extent 4)

def putSpecialExt (v : BsmValue) : Builder := do
  put 0 1
  put v.specvehopts 3
  optional (u32 v.specvehopts &&& 0x4 ≠ 0) (putEmergencyDetails v)
  optional (u32 v.specvehopts &&& 0x2 ≠ 0) (putEventDescription v)

def putVehicleData (veh : VehicleData) : Builder := do
  put 0 1
  put veh.options 4
  optional (veh.options &&& 0x8 ≠ 0) (put (veh.heightCm / 5 : ℕ) 7)
  optional (veh.options &&& 0x4 ≠ 0) do
    put veh.frontBumperHeightCm 7
    put veh.rearBumperHeightCm 7
  optional (veh.options &&& 0x2 ≠ 0) (put (vehicleMassEncode (s32 veh.massKg)) 8)
  optional (veh.options &&& 0x1 ≠ 0) (put veh.trailerWeight 16)

def putWeatherProbe (v : BsmValue) : Builder := do
  put 0 1
  put v.weatheropts 3
  optional (v.weatheropts &&& 0x4 ≠ 0) (put v.airTemp 8)
  optional (v.weatheropts &&& 0x2 ≠ 0) (put v.airPressure 8)
  optional (v.weatheropts &&& 0x1 ≠ 0) do
    put v.wiperopts 2
    put v.statusFront 4
    put v.rateFront 7
    optional (v.wiperopts &&& 0x2 ≠ 0) (put v.statusRear 4)
    optional (v.wiperopts &&& 0x1 ≠ 0) (put v.rateRear 7)

/-- The options that are not handled end the extension. -/
def putSupplementalExt (v : BsmValue) : Builder := do
  let opts := u32 v.suppvehopts
  put 0 1
  put v.suppvehopts 10
  optional (opts &&& 0x200 ≠ 0) (put v.vehicleClass 8)
  optional (opts &&& 0x100 ≠ 0) (throw ())
  optional (opts &&& 0x80 ≠ 0) (putVehicleData v.veh)
  optional (opts &&& 0x40 ≠ 0) (throw ())
  optional (opts &&& 0x20 ≠ 0) (putWeatherProbe v)
  optional (opts &&& 0x1f ≠ 0) (throw ())

/-- The extension is padded and gets its length, unless it ended with an error. -/
def buildExt (fields : Builder) (abp : Abuf) : Abuf :=
  match fields abp with
  | .ok _ abp => asnPushLen (abufPadToEvenOctet abp)
  | .error _ abp => abp

def buildVehicleSafetyExt (v : BsmValue) : Abuf → Abuf := buildExt (putVehicleSafetyExt v)

def buildSpecialExt (v : BsmValue) : Abuf → Abuf := buildExt (putSpecialExt v)

def buildSupplementalExt (v : BsmValue) : Abuf → Abuf := buildExt (putSupplementalExt v)

/-! ### The encoder -/

/-- A shift of a `uint32_t`. -/
def shl32 (x n : ℕ) : ℕ := x <<< n % 2 ^ 32

/-- The words of the core data. -/
def coreWords (v : BsmValue) : List ℕ :=
  let lat := u32 (v.latitude - -900000000)
  let lon := u32 (v.longitude - -1799999999)
  let ele := u32 (v.elevation - -4096)
  let swa := u32 (v.steeringWheelAngle - -126)
  let accLon := u32 (v.accelLon - -2000)
  let accLat := u32 (v.accelLat - -2000)
  let accVert := u32 (v.accelVert - -127)
  let accYaw := u32 (v.accelYaw - -32767)
  [ (if v.hasPartII ≠ 0 then 0x40000000 else 0) ||| shl32 v.msgCount 22 ||| v.id >>> 10,
    shl32 v.id 22 ||| shl32 v.secMarkMs 6 ||| lat >>> 25,
    shl32 lat 7 ||| lon >>> 25,
    shl32 lon 7 ||| ele >>> 9,
    shl32 ele 23 ||| shl32 v.semiMajorAxisAccuracy 15 ||| shl32 v.semiMinorAxisAccuracy 7 |||
      v.semiMajorAxisOrientation >>> 9,
    shl32 v.semiMajorAxisOrientation 23 ||| shl32 v.transmissionState 20 ||| shl32 v.speed 7 |||
      v.headingDegrees >>> 8,
    shl32 v.headingDegrees 24 ||| shl32 swa 16 ||| shl32 accLon 4 ||| accLat >>> 8,
    shl32 accLat 24 ||| shl32 accVert 16 ||| accYaw,
    shl32 v.brakes 16 ||| shl32 v.vehicleWidthCm 7 ||| v.vehicleLengthCm >>> 5 ]

/-- A store of a word in network order. -/
def storeWord (bp : Abuf) (p w : ℕ) : Abuf :=
  (((bp.setByte p (UInt8.ofNat (w >>> 24))).setByte (p + 1) (UInt8.ofNat (w >>> 16))).setByte
    (p + 2) (UInt8.ofNat (w >>> 8))).setByte (p + 3) (UInt8.ofNat w)

/-- Without room nothing is stored; the source stores through a null pointer there. -/
def putWord (bp : Abuf) (w : ℕ) : Abuf :=
  match abufPut bp 4 with
  | (some p32, bp) => storeWord bp p32 w
  | (none, bp) => bp

/-- The last 5 bits of the length follow the words. -/
def encodeCore (v : BsmValue) (bp : Abuf) : Abuf :=
  let bp := (coreWords v).foldl putWord bp
  match abufPut bp 1 with
  | (some p8, bp) =>
    { bp.setByte p8 (UInt8.ofNat (v.vehicleLengthCm <<< 3)) with
      tail := bp.tail - 1
      tailBitsLeft := 3 }
  | (none, bp) => { bp with tail := bp.tail - 1, tailBitsLeft := 3 }

/-- The safety extension; the buffer of the extensions is purged behind it. -/
def addSafetyExt (v : BsmValue) (bp ext : Abuf) : Abuf × Abuf :=
  let bp := ncat 0 6 bp
  let ext := abufReserveHeadspace ext (8 - bp.tailBitsLeft)
  let ext := abufTrim (buildVehicleSafetyExt v ext)
  ((abufMerge (abufTrim bp) ext).2, abufPurge ext 20)

/-- Another extension; the buffer of the extensions is purged before it. -/
def addExt (id : ℕ) (build : Abuf → Abuf) (bp ext : Abuf) : Abuf × Abuf :=
  let bp := ncat id 6 bp
  let ext := abufReserveHeadspace (abufPurge ext 20) (8 - bp.tailBitsLeft)
  let ext := abufTrim (build ext)
  ((abufMerge bp ext).2, ext)

/-- `block` is the address of the buffer of the extensions. -/
def encodePartII (block : ℕ) (v : BsmValue) (bp : Abuf) : Abuf :=
  let ext := abufAlloc block 2000 20
  let bp := ncat (u32 (v.qtyPartIIExtensions - 1)) 3 bp
  let (bp, ext) := if v.hasSafetyExtension ≠ 0 then addSafetyExt v bp ext else (bp, ext)
  let (bp, ext) :=
    if v.hasSpecialExtension ≠ 0 then addExt 1 (buildSpecialExt v) bp ext else (bp, ext)
  if v.hasSupplementalExtension ≠ 0 then (addExt 2 (buildSupplementalExt v) bp ext).1 else bp

/-- The message id and the length go in front of the message. -/
def encodeAsBsm (block : ℕ) (v : BsmValue) (bp : Abuf) : Abuf :=
  let bp := encodeCore v bp
  let bp := if v.hasPartII ≠ 0 then encodePartII block v bp else bp
  push 20 16 (asnPushLen bp)

end Tulux.QCoder
