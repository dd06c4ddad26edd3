import Tulux.Lib.Loop
import Tulux.Lib.Strtol
import Tulux.QApplication.FilledBsm

/-! The messages that `bsm_utils.c` makes of the lines of a CSV file. A text is a list of bytes
without the zero at its end, and a column that is computed in floating point is given by the
integer it is cut to. -/
namespace Tulux.QCoder
open QApplication (setBit)

abbrev CsvText := List UInt8

/-- The library's `atoi`: a `long` that keeps to its range, cut to an `int`. -/
def atoi (t : CsvText) : ℤ :=
  s32 (max (-2 ^ 63) (min (2 ^ 63 - 1) ((Strtol.strtol 10 t).getD 0)))

/-- The four octets of an identifier in the other order, by way of its hexadecimal digits. -/
def idShift (a : ℕ) : ℕ :=
  a % 2 ^ 8 * 2 ^ 24 + a / 2 ^ 8 % 2 ^ 8 * 2 ^ 16 + a / 2 ^ 16 % 2 ^ 8 * 2 ^ 8 + a / 2 ^ 24 % 2 ^ 8

/-- What is computed in floating point of a text, or of its `atoi`. -/
structure CsvFloats where
  latitude : CsvText → ℤ
  longitude : CsvText → ℤ
  elevation : CsvText → ℤ
  axisAccuracy : CsvText → ℕ
  axisOrientation : CsvText → ℕ
  heading : CsvText → ℕ
  yaw : ℤ → ℤ
  crumbHeading : ℤ → ℕ
  radius : CsvText → ℤ
  heightCm : CsvText → ℕ

def bsmInit (bsm : BsmValue) : BsmValue :=
  { bsm with
    id := 3234398499
    msgCount := 127
    secMarkMs := 65535
    latitude := 900000001
    longitude := 1800000001
    elevation := -4096
    semiMajorAxisAccuracy := 255
    semiMinorAxisAccuracy := 255
    semiMajorAxisOrientation := 65535
    speed := 8191
    headingDegrees := 28800
    transmissionState := 7
    steeringWheelAngle := 127
    accelLon := 2001
    accelLat := 2001
    accelVert := -127
    accelYaw := 32767
    brakes := 1 <<< 15
    vehicleWidthCm := 0
    vehicleLengthCm := 0 }

/-! ### Columns -/

/-- A column without a text. -/
def missingColumn (k : ℕ) (bsm : BsmValue) : BsmValue :=
  match k with
  | 17 => { bsm with id := 0x10000000 }
  | 19 => { bsm with secMarkMs := 65535 }
  | 20 => { bsm with latitude := 900000001 }
  | 21 => { bsm with longitude := 1800000001 }
  | 22 => { bsm with elevation := -4096 }
  | 23 => { bsm with semiMajorAxisAccuracy := 255 }
  | 24 => { bsm with semiMinorAxisAccuracy := 255 }
  | 25 => { bsm with semiMajorAxisOrientation := 65535 }
  | 26 => { bsm with transmissionState := 7 }
  | 27 => { bsm with speed := 8191 }
  | 28 => { bsm with headingDegrees := 28800 }
  | 29 => { bsm with steeringWheelAngle := 127 }
  | 30 => { bsm with accelLon := 2001 }
  | 31 => { bsm with accelLat := 2001 }
  | 32 => { bsm with accelVert := -127 }
  | 33 => { bsm with accelYaw := 32767 }
  | _ => bsm

/-- An acceleration in m/s², between -20 and 20. -/
def csvAcceleration (n : ℤ) : ℤ :=
  if 2000 < 100 * n then 2000 else if 100 * n < -2000 then -2000 else 100 * n

def csvSteering (n : ℤ) : ℤ :=
  if 188 < n then 126 else if n < -191 then -128 else (2 * n).tdiv 3

/-- An `int` shifted and set in a `uint16_t`. -/
def orWord (w : ℕ) (n : ℤ) (shift : ℕ) : ℕ := w ||| u32 n <<< shift % 2 ^ 16

/-- The columns of the core data. -/
def coreColumn (fp : CsvFloats) (k : ℕ) (t : CsvText) (bsm : BsmValue) : BsmValue :=
  match k with
  | 16 => { bsm with msgCount := u32 (atoi t) }
  | 17 => { bsm with id := idShift (u32 (atoi t)) }
  | 19 => { bsm with secMarkMs := u32 (atoi t) }
  | 20 => { bsm with latitude := fp.latitude t }
  | 21 => { bsm with longitude := fp.longitude t }
  | 22 => { bsm with elevation := fp.elevation t }
  | 23 => { bsm with semiMajorAxisAccuracy := fp.axisAccuracy t }
  | 24 => { bsm with semiMinorAxisAccuracy := fp.axisAccuracy t }
  | 25 => { bsm with semiMajorAxisOrientation := fp.axisOrientation t }
  | 26 => { bsm with transmissionState := u32 (atoi t) }
  | 27 => { bsm with speed := u32 ((s32 (atoi t * 250)).tdiv 18) }
  | 28 => { bsm with headingDegrees := fp.heading t }
  | 29 => { bsm with steeringWheelAngle := csvSteering (atoi t) }
  | 30 => { bsm with accelLon := csvAcceleration (atoi t) }
  | 31 => { bsm with accelLat := csvAcceleration (atoi t) }
  | 32 => { bsm with accelVert := s32 (atoi t * 50) }
  | 33 => { bsm with accelYaw := fp.yaw (atoi t) }
  | 34 => { bsm with brakes := orWord bsm.brakes (atoi t) 7 }
  | 35 => { bsm with brakes := orWord bsm.brakes (atoi t) 3 }
  | 36 => { bsm with brakes := orWord bsm.brakes (atoi t) 5 }
  | 37 => { bsm with brakes := orWord bsm.brakes (atoi t) 9 }
  | 38 => { bsm with vehicleWidthCm := u32 (atoi t) }
  | 39 => { bsm with vehicleLengthCm := u32 (atoi t) }
  | _ => bsm

/-- An option of the safety extension. -/
def safetyOption (opt : ℕ) (bsm : BsmValue) : BsmValue :=
  { bsm with
    hasPartII := 1
    hasSafetyExtension := 1
    vehsafeopts := setBit bsm.vehsafeopts opt }

def eventColumn (shift : ℕ) (t : CsvText) (bsm : BsmValue) : BsmValue :=
  { safetyOption 0x8 bsm with events := orWord bsm.events (atoi t) shift }

def lightColumn (shift : ℕ) (t : CsvText) (bsm : BsmValue) : BsmValue :=
  { safetyOption 0x1 bsm with lightsInUse := orWord bsm.lightsInUse (atoi t) shift }

/-- An option of the supplemental extension. -/
def supplementalOption (opt : ℕ) (bsm : BsmValue) : BsmValue :=
  { bsm with
    hasPartII := 1
    hasSupplementalExtension := 1
    suppvehopts := setBit bsm.suppvehopts opt }

def weatherColumn (bsm : BsmValue) : BsmValue :=
  { supplementalOption 0x20 bsm with weatheropts := bsm.weatheropts ||| 0x1 }

def vehicleColumn (opt : ℕ) (store : VehicleData → VehicleData) (bsm : BsmValue) : BsmValue :=
  { supplementalOption 0x80 bsm with
    veh := store { bsm.veh with options := bsm.veh.options ||| opt } }

/-- The `switch`, but for the columns 15 and 47. Column 43 is the one of the events that does not
set `has_safety_extension`. -/
def column (fp : CsvFloats) (k : ℕ) (t : CsvText) (bsm : BsmValue) : BsmValue :=
  match k with
  | 40 => eventColumn 12 t bsm
  | 41 => eventColumn 10 t bsm
  | 42 => eventColumn 9 t bsm
  | 43 =>
    { bsm with
      hasPartII := 1
      vehsafeopts := setBit bsm.vehsafeopts 0x8
      events := orWord bsm.events (atoi t) 8 }
  | 44 => eventColumn 5 t bsm
  | 45 => eventColumn 3 t bsm
  | 46 => eventColumn 0 t bsm
  | 163 => { safetyOption 0x2 bsm with pp := { bsm.pp with radius := fp.radius t } }
  | 164 =>
    { safetyOption 0x2 bsm with pp := { bsm.pp with confidence := u32 (atoi t * 2) % 2 ^ 8 } }
  | 165 => lightColumn 8 t bsm
  | 166 => lightColumn 7 t bsm
  | 167 => lightColumn 6 t bsm
  | 168 => lightColumn 5 t bsm
  | 169 => lightColumn 4 t bsm
  | 170 => lightColumn 3 t bsm
  | 171 => lightColumn 2 t bsm
  | 172 => lightColumn 1 t bsm
  | 173 => lightColumn 0 t bsm
  | 174 => { weatherColumn bsm with statusFront := atoi t }
  | 175 => { weatherColumn bsm with rateFront := atoi t }
  | 176 => { weatherColumn bsm with wiperopts := bsm.wiperopts ||| 0x2, statusRear := atoi t }
  | 178 => vehicleColumn 0x8 (fun veh => { veh with heightCm := fp.heightCm t }) bsm
  | 179 => vehicleColumn 0x4 (fun veh => { veh with frontBumperHeightCm := fp.heightCm t }) bsm
  | 180 => vehicleColumn 0x4 (fun veh => { veh with rearBumperHeightCm := fp.heightCm t }) bsm
  | 181 => vehicleColumn 0x2 (fun veh => { veh with massKg := u32 (atoi t) }) bsm
  | _ => coreColumn fp k t bsm

/-! ### The path history -/

section Line
variable (fp : CsvFloats) (columns : List CsvText)

/-- `tokens[k]`, where there is one. -/
def token (k : ℤ) : Option CsvText := if 0 ≤ k then columns[k.toNat]? else none

def maxPathHistoryPointsQty : ℕ := 23

/-- The pass `m` over the five columns of a crumb, from column `first` on. -/
def csvCrumb (first : ℤ) (m : ℕ) (bsm : BsmValue) : Option BsmValue :=
  if m < maxPathHistoryPointsQty then do
    let lat ← token columns (first + 5 * m)
    let lon ← token columns (first + 5 * m + 1)
    let ele ← token columns (first + 5 * m + 2)
    let time ← token columns (first + 5 * m + 3)
    let heading ← token columns (first + 5 * m + 4)
    some { bsm with
      ph := { bsm.ph with
        phCrumb := Function.update bsm.ph.phCrumb m { bsm.ph.phCrumb m with
          latOffset := atoi lat
          lonOffset := atoi lon
          eleOffset := atoi ele
          timeOffsetMs := atoi time
          opts := 1
          headingAvailable := 1
          headingMicrodegrees := fp.crumbHeading (atoi heading) } } }
  else none

/-- The first `n` passes. -/
def csvCrumbs (first : ℤ) (bsm : BsmValue) : ℕ → Option BsmValue
  | 0 => some bsm
  | n + 1 => (csvCrumbs first bsm n).bind (csvCrumb fp columns first n)

/-! ### Lines -/

/-- The column that is next, and the message so far. -/
structure CsvState where
  a : ℤ
  msgId : ℤ
  bsm : BsmValue

/-- The program comes to `encode_msg`, or it reads or writes outside the arrays. -/
inductive CsvEnd where
  | encoded (mc : MsgContents)
  | outside

/-- Column 47 with a count. -/
def historyOption (count : ℤ) (bsm : BsmValue) : BsmValue :=
  { safetyOption 0x4 bsm with ph := { bsm.ph with qtyCrumbs := count } }

/-- The column behind the crumbs. -/
def behindCrumbs (a count : ℤ) : ℤ := s32 (s32 (a + s32 (5 * count)) + 1)

def maskBits (x : ℤ) (mask : ℕ) : ℤ := s32 (u32 x &&& mask : ℕ)

/-- An extension is counted, if it is there. -/
def countIf (present : Prop) [Decidable present] (bsm : BsmValue) : BsmValue :=
  if present then { bsm with qtyPartIIExtensions := bsm.qtyPartIIExtensions + 1 } else bsm

/-- Only the options of a mask are left, if a word is 0. -/
def maskIfZero (word mask : ℕ) (bsm : BsmValue) : BsmValue :=
  if word = 0 then { bsm with vehsafeopts := maskBits bsm.vehsafeopts mask } else bsm

/-- The number of extensions, and the options that an event or a light keeps. -/
def csvOptions (bsm : BsmValue) : BsmValue :=
  let bsm := countIf (bsm.hasSafetyExtension = 1) bsm
  let bsm := countIf (bsm.hasSpecialExtension ≠ 0) bsm
  let bsm := countIf (bsm.hasSupplementalExtension ≠ 0) bsm
  let bsm := maskIfZero bsm.events (1 <<< 3 - 1) bsm
  maskIfZero bsm.lightsInUse (1 <<< 0 - 1) bsm

/-- No bytes, at no address. -/
def nullAbuf : Abuf := ⟨fun _ => 0, 0, 0, 0, 0, 0, 0, 0⟩

/-- What `encode_msg` gets. The security header is allocated, but no part of the message. -/
def csvContents (msgId : ℤ) (bsm : BsmValue) : MsgContents :=
  { freshContents nullAbuf with
    msgId := msgId
    wsmp := some { callocWsmp with nHeader := .ofData 3, tpid := 0, psid := 1 }
    j2735Msg := some bsm }

/-- A pass of the loop over the columns. -/
def csvPass (st : CsvState) : CsvState ⊕ CsvEnd :=
  if st.a < columns.length then
    match token columns st.a with
    | none => .inr .outside
    | some t =>
      if t = [] ∨ t = [0x0a] then
        .inl { st with a := st.a + 1, bsm := missingColumn st.a.toNat st.bsm }
      else if st.a = 15 then .inl { st with a := st.a + 1, msgId := 20 }
      else if st.a = 47 then
        if atoi t = 0 then .inl { st with a := st.a + 1 }
        else
          match csvCrumbs fp columns (st.a + 1) (historyOption (atoi t) st.bsm) (atoi t).toNat with
          | none => .inr .outside
          | some bsm => .inl { st with a := behindCrumbs st.a (atoi t), bsm := bsm }
      else .inl { st with a := st.a + 1, bsm := column fp st.a.toNat t st.bsm }
  else .inr (.encoded (csvContents st.msgId (csvOptions st.bsm)))

def csvStart : CsvState :=
  ⟨0, 0, bsmInit { callocBsm with brakes := 1 <<< 15, suppvehopts := 0 }⟩

/-- The columns of a line, between its commas. -/
def csvColumns (line : CsvText) : List CsvText := line.splitOn 0x2c

/-- The entries of `tokens`. -/
def csvTokens : ℕ := 1000

/-- The loop over the columns, once they are all stored. -/
def encodeSinglelineFromCsv (line : CsvText) (fuel : ℕ) : Option CsvEnd :=
  if (csvColumns line).length ≤ csvTokens then Loop.run (csvPass fp (csvColumns line)) csvStart fuel
  else some .outside

end Line

end Tulux.QCoder
