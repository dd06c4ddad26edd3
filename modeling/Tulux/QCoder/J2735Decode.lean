import Tulux.QCoder.J2735

/-! The decoder of `j2735.c`. It reads a memory; `timestamp_ms`, which depends on the clock, is
left out. -/
namespace Tulux.QCoder
open BitParser

/-- The byte pointer, the bits left there, and the message so far. -/
structure DecodeState where
  p8 : ℕ
  bitsLeft : ℕ
  bsm : BsmValue

/-- An error carries the result of the decoder. -/
abbrev Decoder (α : Type) := EStateM ℤ DecodeState α

/-! ### Steps -/

def update (g : BsmValue → BsmValue) : Decoder Unit :=
  modify fun st => { st with bsm := g st.bsm }

def getBits (mem : ℕ → UInt8) (n : ℕ) : Decoder ℕ := fun st =>
  let (v, p8, bitsLeft) := getNextNBits mem st.p8 n st.bitsLeft
  .ok v { st with p8 := p8, bitsLeft := bitsLeft }

/-- A field of `n` bits that is stored in the message. -/
def field (mem : ℕ → UInt8) (n : ℕ) (store : ℕ → BsmValue → BsmValue) : Decoder Unit := do
  let v ← getBits mem n
  update (store v)

/-- The extension marker, which is not looked at. -/
def isExtended (mem : ℕ → UInt8) : Decoder Unit := do
  let _ ← getBits mem 1
  pure ()

def getLen (mem : ℕ → UInt8) : Decoder ℤ := fun st =>
  let (len, p8, bitsLeft) := parseAsnVariableLengthEnc mem st.p8 st.bitsLeft
  .ok len { st with p8 := p8, bitsLeft := bitsLeft }

/-- `goto BSM_too_short` or `goto bsm_decode_err`. -/
def bsmDecodeErr {α : Type} : Decoder α := throw (-1)

/-- The message has to reach further than `n` more bits need. -/
def checkRoom (lastByteP : ℤ) (n : ℕ) : Decoder Unit := fun st =>
  if lastByteP - st.p8 < calcBytesNeededForNMoreBits n st.bitsLeft then .error (-1) st
  else .ok () st

/-! ### The safety extension -/

def BsmValue.setFpv (g : FullPositionVector → FullPositionVector) (b : BsmValue) : BsmValue :=
  { b with ph.initialPosition := g b.ph.initialPosition }

def BsmValue.setCrumb (m : ℕ) (g : PhPoint → PhPoint) (b : BsmValue) : BsmValue :=
  { b with ph.phCrumb := Function.update b.ph.phCrumb m (g (b.ph.phCrumb m)) }

def FullPositionVector.setUtc (g : DDateTime → DDateTime) (fpv : FullPositionVector) :
    FullPositionVector :=
  { fpv with utcTime := g fpv.utcTime }

section Safety
variable (mem : ℕ → UInt8)

def fpvField (n : ℕ) (store : ℕ → FullPositionVector → FullPositionVector) : Decoder Unit :=
  field mem n fun v b => b.setFpv (store v)

def utcField (n : ℕ) (store : ℕ → DDateTime → DDateTime) : Decoder Unit :=
  fpvField mem n fun v fpv => fpv.setUtc (store v)

def crumbField (m n : ℕ) (store : ℕ → PhPoint → PhPoint) : Decoder Unit :=
  field mem n fun v b => b.setCrumb m (store v)

/-- A time zone offset above the largest one is cut. -/
def timeZone (v : ℕ) : ℤ :=
  let val := s32 (-840 + v)
  if val ≤ 840 then val else 840

def decodeUtcTime : Decoder Unit := do
  let opts ← getBits mem 7
  update fun b => b.setFpv fun fpv => fpv.setUtc fun utc => { utc with opts := opts }
  optional (opts &&& 0x40 ≠ 0) (utcField mem 12 fun v utc => { utc with year := v })
  optional (opts &&& 0x20 ≠ 0) (utcField mem 4 fun v utc => { utc with month := v })
  optional (opts &&& 0x10 ≠ 0) (utcField mem 5 fun v utc => { utc with day := v })
  optional (opts &&& 0x8 ≠ 0) (utcField mem 5 fun v utc => { utc with hour := v })
  optional (opts &&& 0x4 ≠ 0) (utcField mem 6 fun v utc => { utc with minute := v })
  optional (opts &&& 0x2 ≠ 0) (utcField mem 16 fun v utc => { utc with second := v })
  optional (opts &&& 0x1 ≠ 0) (utcField mem 11 fun v utc => { utc with offset := timeZone v })

def decodeInitialPosition : Decoder Unit := do
  isExtended mem
  let opts ← getBits mem 8
  update fun b => b.setFpv fun fpv => { fpv with opts := opts }
  optional (opts &&& 0x80 ≠ 0) (decodeUtcTime mem)
  fpvField mem 32 fun v fpv => { fpv with lon := s32 (-1799999999 + v) }
  fpvField mem 31 fun v fpv => { fpv with lat := s32 (-900000000 + v) }
  optional (opts &&& 0x40 ≠ 0)
    (fpvField mem 16 fun v fpv => { fpv with elevation := s32 (-4096 + v) })
  optional (opts &&& 0x20 ≠ 0) (fpvField mem 15 fun v fpv => { fpv with heading := v })
  optional (opts &&& 0x10 ≠ 0) (fpvField mem 13 fun v fpv => { fpv with speed := v })
  optional (opts &&& 0x8 ≠ 0) do
    fpvField mem 8 fun v fpv => { fpv with posAccuracy.semiMajor := v }
    fpvField mem 8 fun v fpv => { fpv with posAccuracy.semiMinor := v }
    fpvField mem 16 fun v fpv => { fpv with posAccuracy.orientation := v }
  optional (opts &&& 0x4 ≠ 0) (fpvField mem 6 fun v fpv => { fpv with timeConfidence := v })
  optional (opts &&& 0x2 ≠ 0) do
    fpvField mem 4 fun v fpv => { fpv with posConfidence.xy := v }
    fpvField mem 4 fun v fpv => { fpv with posConfidence.elevation := v }
  optional (opts &&& 0x1 ≠ 0) do
    fpvField mem 3 fun v fpv => { fpv with motionConfidenceSet.headingConfidence := v }
    fpvField mem 3 fun v fpv => { fpv with motionConfidenceSet.speedConfidence := v }
    fpvField mem 2 fun v fpv => { fpv with motionConfidenceSet.throttleConfidence := v }

/-- A code from 240 on leaves the heading unavailable. -/
def storeHeading (v : ℕ) (crumb : PhPoint) : PhPoint :=
  if v < 240 then { crumb with headingAvailable := 1, headingMicrodegrees := v * 1500 } else crumb

def decodeCrumb (m : ℕ) : Decoder Unit := do
  isExtended mem
  let opts ← getBits mem 3
  update fun b => b.setCrumb m fun crumb => { crumb with opts := opts }
  crumbField mem m 18 fun v crumb => { crumb with latOffset := s32 (v + -131072) }
  crumbField mem m 18 fun v crumb => { crumb with lonOffset := s32 (v + -131072) }
  crumbField mem m 12 fun v crumb => { crumb with eleOffset := s32 (v + -2048) }
  crumbField mem m 16 fun v crumb => { crumb with timeOffsetMs := s32 (10 * (v + 1)) }
  optional (opts &&& 0x4 ≠ 0) (crumbField mem m 13 fun v crumb => { crumb with speed := v })
  optional (opts &&& 0x2 ≠ 0) do
    crumbField mem m 8 fun v crumb => { crumb with accy.semiMajor := v }
    crumbField mem m 8 fun v crumb => { crumb with accy.semiMinor := v }
    crumbField mem m 16 fun v crumb => { crumb with accy.orientation := v }
  update fun b => b.setCrumb m fun crumb => { crumb with headingAvailable := 0 }
  optional (opts &&& 0x1 ≠ 0) (crumbField mem m 8 storeHeading)

/-- The loop over `n` crumbs from `m` on. -/
def decodeCrumbs (m : ℕ) : ℕ → Decoder Unit
  | 0 => pure ()
  | n + 1 => do
    decodeCrumb mem m
    decodeCrumbs (m + 1) n

def decodePathHistory : Decoder Unit := do
  isExtended mem
  let phOpts ← getBits mem 2
  update fun b => { b with phopts := phOpts }
  optional (phOpts &&& 0x2 ≠ 0) (decodeInitialPosition mem)
  optional (phOpts &&& 0x1 ≠ 0) (field mem 8 fun v b => { b with ph.gnssStatus := v })
  let count ← getBits mem 5
  update fun b => { b with ph.qtyCrumbs := count + 1 }
  optional (23 < count + 1) bsmDecodeErr
  decodeCrumbs mem 0 (count + 1)

/-- `is_straight` is taken from the radius before its offset is added. -/
def storeRadius (v : ℕ) (pp : PathPrediction) : PathPrediction :=
  { pp with isStraight := if v = 32767 then 1 else 0, radius := v + -32767 }

def decodeVehicleSafetyFields : Decoder Unit := do
  isExtended mem
  let options ← getBits mem 4
  update fun b => { b with vehsafeopts := options }
  optional (options &&& 0x8 ≠ 0) do
    isExtended mem
    field mem 13 fun v b => { b with events := v }
  optional (options &&& 0x4 ≠ 0) (decodePathHistory mem)
  optional (options &&& 0x2 ≠ 0) do
    isExtended mem
    field mem 16 fun v b => { b with pp := storeRadius v b.pp }
    field mem 8 fun v b => { b with pp.confidence := v }
  optional (options &&& 0x1 ≠ 0) do
    isExtended mem
    field mem 9 fun v b => { b with lightsInUse := v }

/-- Returns the bits left behind the length. -/
def decodeVehicleSafetyExt (lastByteP : ℤ) : Decoder ℕ := do
  update fun b => { b with hasSafetyExtension := 1 }
  checkRoom lastByteP 8
  let sequenceLen ← getLen mem
  let st ← get
  optional (lastByteP - st.p8 < u32 (sequenceLen - 1)) bsmDecodeErr
  decodeVehicleSafetyFields mem
  pure st.bitsLeft

/-! ### The special extension -/

def decodeEmergencyDetails : Decoder Unit := do
  isExtended mem
  let edopts ← getBits mem 2
  update fun b => { b with edopts := edopts }
  field mem 5 fun v b => { b with vehicleAlerts.sspRights := v }
  field mem 2 fun v b => { b with vehicleAlerts.sirenUse := v }
  field mem 3 fun v b => { b with vehicleAlerts.lightsUse := v }
  field mem 2 fun v b => { b with vehicleAlerts.multi := v }
  optional (edopts &&& 0x2 ≠ 0) do
    isExtended mem
    field mem 5 fun v b => { b with vehicleAlerts.events.sspRights := v }
    field mem 16 fun v b => { b with vehicleAlerts.events.event := v }
  optional (edopts &&& 0x1 ≠ 0) do
    isExtended mem
    field mem 3 fun v b => { b with vehicleAlerts.responseType := v }

/-- The loop over `n` description codes from `m` on. -/
def decodeDescs (m : ℕ) : ℕ → Decoder Unit
  | 0 => pure ()
  | n + 1 => do
    field mem 16 fun v b => { b with description.desc := Function.update b.description.desc m v }
    decodeDescs (m + 1) n

def decodeEventDescription : Decoder Unit := do
  isExtended mem
  let eventopts ← getBits mem 5
  update fun b => { b with eventopts := eventopts }
  field mem 16 fun v b => { b with description.typeEvent := v }
  optional (eventopts &&& 0x10 ≠ 0) do
    let count ← getBits mem 3
    update fun b => { b with description.sizeDesc := count + 1 }
    decodeDescs mem 0 (count + 1)
  optional (eventopts &&& 0x8 ≠ 0) (field mem 8 fun v b => { b with description.priority := v })
  optional (eventopts &&& 0x4 ≠ 0) (field mem 16 fun v b => { b with description.heading := v })
  optional (eventopts &&& 0x2 ≠ 0) (field mem 4 fun v b => { b with description.extent := v })

def decodeSpecialFields (lastByteP : ℤ) : Decoder Unit := do
  isExtended mem
  checkRoom lastByteP 3
  let specvehopts ← getBits mem 3
  update fun b => { b with specvehopts := specvehopts }
  optional (specvehopts &&& 0x4 ≠ 0) (decodeEmergencyDetails mem)
  optional (specvehopts &&& 0x2 ≠ 0) (decodeEventDescription mem)
  optional (specvehopts &&& 0x1 ≠ 0) (isExtended mem)

def decodeSpecialExt (lastByteP : ℤ) : Decoder ℕ := do
  update fun b => { b with hasSpecialExtension := 1 }
  let _ ← getLen mem
  let st ← get
  decodeSpecialFields mem lastByteP
  pure st.bitsLeft

/-! ### The supplemental extension -/

def decodeVehicleData (lastByteP : ℤ) : Decoder Unit := do
  checkRoom lastByteP 5
  isExtended mem
  let opts ← getBits mem 4
  update fun b => { b with veh.options := opts }
  optional (opts &&& 0x8 ≠ 0) do
    checkRoom lastByteP 7
    field mem 7 fun v b => { b with veh.heightCm := v * 5 }
  optional (opts &&& 0x4 ≠ 0) do
    checkRoom lastByteP 14
    field mem 7 fun v b => { b with veh.frontBumperHeightCm := v }
    field mem 7 fun v b => { b with veh.rearBumperHeightCm := v }
  optional (opts &&& 0x2 ≠ 0) do
    checkRoom lastByteP 8
    field mem 8 fun v b => { b with veh.massKg := u32 (vehicleMassDecode v) }
  optional (opts &&& 0x1 ≠ 0) do
    checkRoom lastByteP 16
    field mem 16 fun v b => { b with veh.trailerWeight := v }

def decodeWeatherProbe : Decoder Unit := do
  isExtended mem
  let opts ← getBits mem 3
  update fun b => { b with weatheropts := opts }
  optional (opts &&& 0x4 ≠ 0) (field mem 8 fun v b => { b with airTemp := v })
  optional (opts &&& 0x2 ≠ 0) (field mem 8 fun v b => { b with airPressure := v })
  optional (opts &&& 0x1 ≠ 0) do
    let wiperopts ← getBits mem 2
    update fun b => { b with wiperopts := wiperopts }
    field mem 4 fun v b => { b with statusFront := v }
    field mem 7 fun v b => { b with rateFront := v }
    optional (wiperopts &&& 0x2 ≠ 0) (field mem 4 fun v b => { b with statusRear := v })
    optional (wiperopts &&& 0x1 ≠ 0) (field mem 7 fun v b => { b with rateRear := v })

/-- The options that are not handled are errors. -/
def decodeSupplementalFields (lastByteP : ℤ) : Decoder Unit := do
  checkRoom lastByteP 11
  isExtended mem
  let opts ← getBits mem 10
  update fun b => { b with suppvehopts := opts }
  optional (opts &&& 0x200 ≠ 0) (field mem 8 fun v b => { b with vehicleClass := v })
  optional (opts &&& 0x100 ≠ 0) bsmDecodeErr
  optional (opts &&& 0x80 ≠ 0) (decodeVehicleData mem lastByteP)
  optional (opts &&& 0x40 ≠ 0) bsmDecodeErr
  optional (opts &&& 0x20 ≠ 0) (decodeWeatherProbe mem)
  optional (opts &&& 0x1f ≠ 0) bsmDecodeErr

def decodeSupplementalExt (lastByteP : ℤ) : Decoder ℕ := do
  update fun b => { b with hasSupplementalExtension := 1 }
  let _ ← getLen mem
  let st ← get
  decodeSupplementalFields mem lastByteP
  pure st.bitsLeft

/-! ### The message -/

def decodeExt (lastByteP : ℤ) : ℕ → Decoder ℕ
  | 0 => decodeVehicleSafetyExt mem lastByteP
  | 1 => decodeSpecialExt mem lastByteP
  | 2 => decodeSupplementalExt mem lastByteP
  | _ => bsmDecodeErr

/-- The padding of an extension is skipped. -/
def skipPadding (saveBitsLeft : ℕ) : Decoder Unit :=
  modify fun st =>
    if st.bitsLeft ≠ 0 then
      if saveBitsLeft ≤ st.bitsLeft then { st with bitsLeft := saveBitsLeft }
      else { st with p8 := st.p8 + 1, bitsLeft := saveBitsLeft }
    else st

/-- The loop over the extensions. -/
def decodeExts (lastByteP : ℤ) : ℕ → Decoder Unit
  | 0 => pure ()
  | n + 1 => do
    checkRoom lastByteP 6
    let id ← getBits mem 6
    let saveBitsLeft ← decodeExt mem lastByteP id
    skipPadding saveBitsLeft
    decodeExts lastByteP n

def decodePartII (lastByteP : ℤ) : Decoder Unit := do
  checkRoom lastByteP 3
  let qty ← getBits mem 3
  update fun b => { b with qtyPartIIExtensions := qty + 1 }
  let st ← get
  optional (lastByteP ≤ st.p8) bsmDecodeErr
  decodeExts mem lastByteP (qty + 1)

/-- The core data, from the words at `p`. A byte too short, the last bits of the length stay 0. -/
def decodeCore (p : ℕ) (lastByteP : ℤ) (b : BsmValue) : BsmValue :=
  let w (i : ℕ) : ℕ := ntohl mem (p + 4 * i)
  let b := { b with
    hasPartII := w 0 &&& 0x40000000
    hasRegionalExtensions := w 0 &&& 0x20000000
    msgCount := (w 0 &&& 0x1fc00000) >>> 22
    id := (w 0 &&& 0x003fffff) <<< 10 ||| (w 1 &&& 0xffc00000) >>> 22
    secMarkMs := (w 1 &&& 0x003fffc0) >>> 6
    latitude := s32 (((w 1 &&& 0x3f) <<< 25 ||| (w 2 &&& 0xffffff80) >>> 7 : ℕ) + -900000000)
    longitude := s32 (((w 2 &&& 0x7f) <<< 25 ||| (w 3 &&& 0xffffff80) >>> 7 : ℕ) + -1799999999)
    elevation := s32 (((w 3 &&& 0x7f) <<< 9 ||| (w 4 &&& 0xff800000) >>> 23 : ℕ) + -4096)
    semiMajorAxisAccuracy := (w 4 &&& 0x007f8000) >>> 15
    semiMinorAxisAccuracy := (w 4 &&& 0x7f80) >>> 7
    semiMajorAxisOrientation := (w 4 &&& 0x7f) <<< 9 ||| (w 5 &&& 0xff800000) >>> 23
    transmissionState := (w 5 &&& 0x00700000) >>> 20
    speed := (w 5 &&& 0x000fff80) >>> 7
    headingDegrees := (w 5 &&& 0x7f) <<< 8 ||| (w 6 &&& 0xff000000) >>> 24
    steeringWheelAngle := s32 (((w 6 &&& 0x00ff0000) >>> 16 : ℕ) + -126)
    accelLon := s32 (((w 6 &&& 0x0000fff0) >>> 4 : ℕ) + -2000)
    accelLat := s32 (((w 6 &&& 0xf) <<< 8 ||| (w 7 &&& 0xff000000) >>> 24 : ℕ) + -2000)
    accelVert := s32 (((w 7 &&& 0x00ff0000) >>> 16 : ℕ) + -127)
    accelYaw := s32 ((w 7 &&& 0x0000ffff : ℕ) + -32767)
    brakes := ntohs mem (p + 32)
    vehicleWidthCm := (w 8 &&& 0x0001ff80) >>> 7
    vehicleLengthCm := (w 8 &&& 0x7f) <<< 5 }
  if (p + 36 : ℕ) ≤ lastByteP then
    { b with vehicleLengthCm := b.vehicleLengthCm ||| ((mem (p + 36)).toNat &&& 0xf8) >>> 3 }
  else b

end Safety

/-- The message that `calloc` returns. -/
def callocBsm : BsmValue where
  msgCount := 0
  id := 0
  secMarkMs := 0
  latitude := 0
  longitude := 0
  elevation := 0
  semiMajorAxisAccuracy := 0
  semiMinorAxisAccuracy := 0
  semiMajorAxisOrientation := 0
  transmissionState := 0
  speed := 0
  headingDegrees := 0
  steeringWheelAngle := 0
  accelLon := 0
  accelLat := 0
  accelVert := 0
  accelYaw := 0
  brakes := 0
  vehicleWidthCm := 0
  vehicleLengthCm := 0
  hasPartII := 0
  qtyPartIIExtensions := 0
  hasRegionalExtensions := 0
  hasSafetyExtension := 0
  hasSpecialExtension := 0
  hasSupplementalExtension := 0
  vehsafeopts := 0
  phopts := 0
  ph :=
    { initialPosition :=
        { opts := 0
          utcTime := ⟨0, 0, 0, 0, 0, 0, 0, 0⟩
          lon := 0
          lat := 0
          elevation := 0
          heading := 0
          speed := 0
          posAccuracy := ⟨0, 0, 0⟩
          timeConfidence := 0
          posConfidence := ⟨0, 0⟩
          motionConfidenceSet := ⟨0, 0, 0⟩ }
      gnssStatus := 0
      qtyCrumbs := 0
      phCrumb := fun _ => ⟨0, 0, 0, 0, 0, 0, ⟨0, 0, 0⟩, 0, 0⟩ }
  pp := ⟨0, 0, 0⟩
  events := 0
  lightsInUse := 0
  specvehopts := 0
  edopts := 0
  eventopts := 0
  vehicleAlerts := ⟨0, 0, 0, 0, ⟨0, 0⟩, 0⟩
  description := ⟨0, 0, fun _ => 0, 0, 0, 0⟩
  suppvehopts := 0
  vehicleClass := 0
  veh := ⟨0, 0, 0, 0, 0, 0⟩
  weatheropts := 0
  wiperopts := 0
  airTemp := 0
  airPressure := 0
  rateFront := 0
  rateRear := 0
  statusFront := 0
  statusRear := 0

/-- Returns the result and the message, from the payload at `data`. -/
def decodeAsBsm (mem : ℕ → UInt8) (data : ℕ) (payloadLen : ℤ) (bsm : BsmValue) : ℤ × BsmValue :=
  let lastByteP : ℤ := data + payloadLen - 1
  if payloadLen < 31 then (-1, bsm)
  else if ntohl mem data &&& 0x80000000 ≠ 0 then (0, bsm)
  else
    let bsm := decodeCore mem data lastByteP bsm
    if bsm.hasPartII ≠ 0 then
      match decodePartII mem lastByteP { p8 := data + 36, bitsLeft := 3, bsm := bsm } with
      | .ok _ st => (0, st.bsm)
      | .error result st => (result, st.bsm)
    else (0, bsm)

end Tulux.QCoder
