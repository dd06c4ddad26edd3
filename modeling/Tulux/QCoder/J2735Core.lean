import Mathlib.Data.Nat.Bitwise
import Tulux.QCoder.J2735Parse

/-! The decoder reads back the core data, word by word. -/
namespace Tulux.QCoder
open BitString

/-! ### What is restored -/

/-- The ranges of the core data; the last bit of the brake status is padding. -/
structure CoreFits (v : BsmValue) : Prop where
  msgCount : v.msgCount < 2 ^ 7
  id : v.id < 2 ^ 32
  secMarkMs : v.secMarkMs < 2 ^ 16
  latitude : -900000000 ≤ v.latitude ∧ v.latitude ≤ 900000001
  longitude : -1799999999 ≤ v.longitude ∧ v.longitude ≤ 1800000001
  elevation : -4096 ≤ v.elevation ∧ v.elevation ≤ 61439
  semiMajorAxisAccuracy : v.semiMajorAxisAccuracy < 2 ^ 8
  semiMinorAxisAccuracy : v.semiMinorAxisAccuracy < 2 ^ 8
  semiMajorAxisOrientation : v.semiMajorAxisOrientation < 2 ^ 16
  transmissionState : v.transmissionState < 2 ^ 3
  speed : v.speed < 2 ^ 13
  headingDegrees : v.headingDegrees < 2 ^ 15
  steeringWheelAngle : -126 ≤ v.steeringWheelAngle ∧ v.steeringWheelAngle ≤ 127
  accelLon : -2000 ≤ v.accelLon ∧ v.accelLon ≤ 2001
  accelLat : -2000 ≤ v.accelLat ∧ v.accelLat ≤ 2001
  accelVert : -127 ≤ v.accelVert ∧ v.accelVert ≤ 127
  accelYaw : -32767 ≤ v.accelYaw ∧ v.accelYaw ≤ 32767
  brakes : v.brakes < 2 ^ 16 ∧ v.brakes % 2 = 0
  vehicleWidthCm : v.vehicleWidthCm < 2 ^ 10
  vehicleLengthCm : v.vehicleLengthCm < 2 ^ 12

/-- The core data of `v`. The padding of the brake status is the first bit of the width. -/
def takeCore (v b : BsmValue) : BsmValue :=
  { b with
    hasPartII := if v.hasPartII ≠ 0 then 0x40000000 else 0
    hasRegionalExtensions := 0
    msgCount := v.msgCount
    id := v.id
    secMarkMs := v.secMarkMs
    latitude := v.latitude
    longitude := v.longitude
    elevation := v.elevation
    semiMajorAxisAccuracy := v.semiMajorAxisAccuracy
    semiMinorAxisAccuracy := v.semiMinorAxisAccuracy
    semiMajorAxisOrientation := v.semiMajorAxisOrientation
    transmissionState := v.transmissionState
    speed := v.speed
    headingDegrees := v.headingDegrees
    steeringWheelAngle := v.steeringWheelAngle
    accelLon := v.accelLon
    accelLat := v.accelLat
    accelVert := v.accelVert
    accelYaw := v.accelYaw
    brakes := v.brakes + v.vehicleWidthCm / 2 ^ 9
    vehicleWidthCm := v.vehicleWidthCm
    vehicleLengthCm := v.vehicleLengthCm }

/-! ### Words -/

/-- Parts of a word that do not overlap. -/
theorem or_eq_add {a b k : ℕ} (ha : a % 2 ^ k = 0) (hb : b < 2 ^ k) : a ||| b = a + b := by
  have hshift : (a / 2 ^ k) <<< k = a := by
    rw [Nat.shiftLeft_eq, Nat.div_mul_cancel (Nat.dvd_of_mod_eq_zero ha)]
  rw [← hshift, Nat.shiftLeft_add_eq_or_of_lt hb]

theorem or_or_eq_add {a b c k m : ℕ} (ha : a % 2 ^ k = 0) (hb : b < 2 ^ k)
    (hab : (a + b) % 2 ^ m = 0) (hc : c < 2 ^ m) : a ||| b ||| c = a + b + c := by
  rw [or_eq_add ha hb, or_eq_add hab hc]

theorem or_or_or_eq_add {a b c d k m n : ℕ} (ha : a % 2 ^ k = 0) (hb : b < 2 ^ k)
    (hab : (a + b) % 2 ^ m = 0) (hc : c < 2 ^ m) (habc : (a + b + c) % 2 ^ n = 0)
    (hd : d < 2 ^ n) : a ||| b ||| c ||| d = a + b + c + d := by
  rw [or_or_eq_add ha hb hab hc, or_eq_add habc hd]

theorem shl32_eq (x n : ℕ) : shl32 x n = x * 2 ^ n % 2 ^ 32 := by
  rw [shl32, Nat.shiftLeft_eq]

/-- A word of the memory, by its bits. -/
theorem ntohl_eq (mem : ℕ → UInt8) (a : ℕ) :
    ntohl mem a = toNat (window (memBits mem) (8 * a) 32) := by
  rw [← window_next_byte mem (c := a + 3) (by omega : 8 * a + 24 = 8 * (a + 3)),
    ← window_next_byte mem (c := a + 2) (by omega : 8 * a + 16 = 8 * (a + 2)),
    ← window_next_byte mem (c := a + 1) (by omega : 8 * a + 8 = 8 * (a + 1)), window_byte,
    toNat_natBits_of_lt (UInt8.toNat_lt _)]
  simp only [ntohl, Nat.shiftLeft_or_distrib, ← Nat.shiftLeft_add]

theorem ntohl_of_hasAt {mem : ℕ → UInt8} {a w : ℕ} (h : HasAt (memBits mem) (8 * a) (natBits 32 w))
    (hw : w < 2 ^ 32) : ntohl mem a = w := by
  rw [ntohl_eq, h.toNat, Nat.mod_eq_of_lt hw]

theorem ntohs_eq (mem : ℕ → UInt8) (a : ℕ) :
    ntohs mem a = toNat (window (memBits mem) (8 * a) 16) := by
  rw [← window_next_byte mem (c := a + 1) (by omega : 8 * a + 8 = 8 * (a + 1)),
    window_byte, toNat_natBits_of_lt (UInt8.toNat_lt _)]
  rfl

theorem toNat_u32 {x : ℤ} (h : 0 ≤ x ∧ x < 2 ^ 32) : u32 x = x.toNat := by
  rw [u32, Int.emod_eq_of_lt h.1 h.2]

/-- The words hold the fields side by side. -/
theorem coreWords_eq {v : BsmValue} (h : CoreFits v) : coreWords v =
    let lat := (v.latitude - -900000000).toNat
    let lon := (v.longitude - -1799999999).toNat
    let ele := (v.elevation - -4096).toNat
    let swa := (v.steeringWheelAngle - -126).toNat
    let accLon := (v.accelLon - -2000).toNat
    let accLat := (v.accelLat - -2000).toNat
    let accVert := (v.accelVert - -127).toNat
    let accYaw := (v.accelYaw - -32767).toNat
    [ (if v.hasPartII ≠ 0 then 2 ^ 30 else 0) + v.msgCount * 2 ^ 22 + v.id / 2 ^ 10,
      v.id % 2 ^ 10 * 2 ^ 22 + v.secMarkMs * 2 ^ 6 + lat / 2 ^ 25,
      lat % 2 ^ 25 * 2 ^ 7 + lon / 2 ^ 25,
      lon % 2 ^ 25 * 2 ^ 7 + ele / 2 ^ 9,
      ele % 2 ^ 9 * 2 ^ 23 + v.semiMajorAxisAccuracy * 2 ^ 15 + v.semiMinorAxisAccuracy * 2 ^ 7 +
        v.semiMajorAxisOrientation / 2 ^ 9,
      v.semiMajorAxisOrientation % 2 ^ 9 * 2 ^ 23 + v.transmissionState * 2 ^ 20 +
        v.speed * 2 ^ 7 + v.headingDegrees / 2 ^ 8,
      v.headingDegrees % 2 ^ 8 * 2 ^ 24 + swa * 2 ^ 16 + accLon * 2 ^ 4 + accLat / 2 ^ 8,
      accLat % 2 ^ 8 * 2 ^ 24 + accVert * 2 ^ 16 + accYaw,
      v.brakes * 2 ^ 16 + v.vehicleWidthCm * 2 ^ 7 + v.vehicleLengthCm / 2 ^ 5 ] := by
  obtain ⟨hmsg, hid, hsec, hlat, hlon, hele, hmajor, hminor, horient, htrans, hspeed, hheading,
    hswa, haccLon, haccLat, haccVert, haccYaw, hbrakes, hwidth, hlength⟩ := h
  unfold coreWords
  rw [toNat_u32 (x := v.latitude - -900000000) (by omega),
    toNat_u32 (x := v.longitude - -1799999999) (by omega),
    toNat_u32 (x := v.elevation - -4096) (by omega),
    toNat_u32 (x := v.steeringWheelAngle - -126) (by omega),
    toNat_u32 (x := v.accelLon - -2000) (by omega),
    toNat_u32 (x := v.accelLat - -2000) (by omega),
    toNat_u32 (x := v.accelVert - -127) (by omega),
    toNat_u32 (x := v.accelYaw - -32767) (by omega)]
  simp only [shl32_eq, Nat.shiftRight_eq_div_pow]
  congr 1
  · have hflag : (if v.hasPartII ≠ 0 then 0x40000000 else 0) % 2 ^ 30 = 0 := by split_ifs <;> rfl
    rw [or_or_eq_add hflag (k := 30) (m := 22) (by omega) (by omega) (by omega)]
    split_ifs <;> omega
  congr 1
  · rw [or_or_eq_add (k := 22) (m := 6) (by omega) (by omega) (by omega) (by omega)]
    omega
  congr 1
  · rw [or_eq_add (k := 7) (by omega) (by omega)]
    omega
  congr 1
  · rw [or_eq_add (k := 7) (by omega) (by omega)]
    omega
  congr 1
  · rw [or_or_or_eq_add (k := 23) (m := 15) (n := 7) (by omega) (by omega) (by omega) (by omega)
      (by omega) (by omega)]
    omega
  congr 1
  · rw [or_or_or_eq_add (k := 23) (m := 20) (n := 7) (by omega) (by omega) (by omega) (by omega)
      (by omega) (by omega)]
    omega
  congr 1
  · rw [or_or_or_eq_add (k := 24) (m := 16) (n := 4) (by omega) (by omega) (by omega) (by omega)
      (by omega) (by omega)]
    omega
  congr 1
  · rw [or_or_eq_add (k := 24) (m := 16) (by omega) (by omega) (by omega) (by omega)]
    omega
  congr 1
  rw [or_or_eq_add (k := 17) (m := 7) (by omega) (by omega) (by omega) (by omega)]
  omega

/-- The words of a stream, one behind the other. -/
theorem hasAt_words {f : ℕ → Bool} {pos i : ℕ} {ws : List ℕ}
    (h : HasAt f pos (ws.map (natBits 32)).flatten) (hi : i < ws.length) :
    HasAt f (pos + 32 * i) (natBits 32 ws[i]) := by
  induction ws generalizing pos i with
  | nil => exact absurd hi (Nat.not_lt_zero i)
  | cons w ws ih =>
    cases i with
    | zero => exact h.left
    | succ i =>
      have hrest := h.right
      rw [length_natBits] at hrest
      have hnext := ih hrest (Nat.lt_of_succ_lt_succ hi)
      rwa [show pos + 32 + 32 * i = pos + 32 * (i + 1) by omega] at hnext

theorem ntohs_of_hasAt {mem : ℕ → UInt8} {a w : ℕ} (h : HasAt (memBits mem) (8 * a) (natBits 16 w)) :
    ntohs mem a = w % 2 ^ 16 := by
  rw [ntohs_eq, h.toNat]

/-- A field within a word. -/
theorem wordField (x n k : ℕ) {mask : ℕ} (h : mask = lowMask n <<< k) :
    (x &&& mask) >>> k = x / 2 ^ k % 2 ^ n := by
  rw [h, and_mask_shiftRight]

theorem wordEnd (x n : ℕ) {mask : ℕ} (h : mask = lowMask n) : x &&& mask = x % 2 ^ n := by
  rw [h, and_lowMask]

theorem wordFlag (x k : ℕ) {mask : ℕ} (h : mask = 2 ^ k) : x &&& mask = x / 2 ^ k % 2 * 2 ^ k := by
  rw [h, Nat.and_two_pow, Nat.toNat_testBit]

/-- A field that goes over to the next word. -/
theorem joinFields {x y n : ℕ} (h : y < 2 ^ n) : x <<< n ||| y = x * 2 ^ n + y := by
  rw [← Nat.shiftLeft_add_eq_or_of_lt h, Nat.shiftLeft_eq]

theorem coreWords_lt {v : BsmValue} (h : CoreFits v) : ∀ w ∈ coreWords v, w < 2 ^ 32 := by
  rw [coreWords_eq h]
  obtain ⟨hmsg, hid, hsec, hlat, hlon, hele, hmajor, hminor, horient, htrans, hspeed, hheading,
    hswa, haccLon, haccLat, haccVert, haccYaw, hbrakes, hwidth, hlength⟩ := h
  simp only [List.mem_cons, List.not_mem_nil, or_false, forall_eq_or_imp, forall_eq]
  refine ⟨?_, ?_, ?_, ?_, ?_, ?_, ?_, ?_, ?_⟩
  · split_ifs <;> omega
  all_goals omega

/-- The words hold the core data. -/
structure CoreWords (v : BsmValue) (w : ℕ → ℕ) : Prop where
  w₀ : w 0 = (if v.hasPartII ≠ 0 then 2 ^ 30 else 0) + v.msgCount * 2 ^ 22 + v.id / 2 ^ 10
  w₁ : w 1 = v.id % 2 ^ 10 * 2 ^ 22 + v.secMarkMs * 2 ^ 6 +
    (v.latitude - -900000000).toNat / 2 ^ 25
  w₂ : w 2 = (v.latitude - -900000000).toNat % 2 ^ 25 * 2 ^ 7 +
    (v.longitude - -1799999999).toNat / 2 ^ 25
  w₃ : w 3 = (v.longitude - -1799999999).toNat % 2 ^ 25 * 2 ^ 7 +
    (v.elevation - -4096).toNat / 2 ^ 9
  w₄ : w 4 = (v.elevation - -4096).toNat % 2 ^ 9 * 2 ^ 23 + v.semiMajorAxisAccuracy * 2 ^ 15 +
    v.semiMinorAxisAccuracy * 2 ^ 7 + v.semiMajorAxisOrientation / 2 ^ 9
  w₅ : w 5 = v.semiMajorAxisOrientation % 2 ^ 9 * 2 ^ 23 + v.transmissionState * 2 ^ 20 +
    v.speed * 2 ^ 7 + v.headingDegrees / 2 ^ 8
  w₆ : w 6 = v.headingDegrees % 2 ^ 8 * 2 ^ 24 + (v.steeringWheelAngle - -126).toNat * 2 ^ 16 +
    (v.accelLon - -2000).toNat * 2 ^ 4 + (v.accelLat - -2000).toNat / 2 ^ 8
  w₇ : w 7 = (v.accelLat - -2000).toNat % 2 ^ 8 * 2 ^ 24 +
    (v.accelVert - -127).toNat * 2 ^ 16 + (v.accelYaw - -32767).toNat
  w₈ : w 8 = v.brakes * 2 ^ 16 + v.vehicleWidthCm * 2 ^ 7 + v.vehicleLengthCm / 2 ^ 5

section Words
variable {v : BsmValue} {w : ℕ → ℕ}

/-- The flags, the message count and the temporary id. -/
theorem CoreWords.head (hw : CoreWords v w) (h : CoreFits v) :
    w 0 &&& 0x40000000 = (if v.hasPartII ≠ 0 then 0x40000000 else 0) ∧
      w 0 &&& 0x20000000 = 0 ∧
      (w 0 &&& 0x1fc00000) >>> 22 = v.msgCount ∧
      (w 0 &&& 0x003fffff) <<< 10 ||| (w 1 &&& 0xffc00000) >>> 22 = v.id ∧
      (w 1 &&& 0x003fffc0) >>> 6 = v.secMarkMs := by
  have h₀ := hw.w₀
  have h₁ := hw.w₁
  have hmsg := h.msgCount
  have hid := h.id
  have hsec := h.secMarkMs
  have hlat := h.latitude
  refine ⟨?_, ?_, ?_, ?_, ?_⟩
  · rw [wordFlag _ 30 (by rfl)]
    split_ifs at h₀ ⊢ <;> omega
  · rw [wordFlag _ 29 (by rfl)]
    split_ifs at h₀ <;> omega
  · rw [wordField _ 7 22 (by rfl)]
    split_ifs at h₀ <;> omega
  · rw [wordField _ 10 22 (by rfl), wordEnd _ 22 (by rfl), joinFields (by omega)]
    split_ifs at h₀ <;> omega
  · rw [wordField _ 16 6 (by rfl)]
    omega

/-- A value comes back from its distance to an offset. -/
theorem s32_toNat_add {x offset : ℤ} {n : ℕ} (hn : n = (x - offset).toNat) (h : offset ≤ x)
    (hx : -2 ^ 31 ≤ x ∧ x < 2 ^ 31) : s32 (n + offset) = x := by
  rw [hn, Int.toNat_of_nonneg (sub_nonneg.mpr h), sub_add_cancel, s32_of_lt hx]

/-- The position. -/
theorem CoreWords.position (hw : CoreWords v w) (h : CoreFits v) :
    s32 (((w 1 &&& 0x3f) <<< 25 ||| (w 2 &&& 0xffffff80) >>> 7 : ℕ) + -900000000) = v.latitude ∧
      s32 (((w 2 &&& 0x7f) <<< 25 ||| (w 3 &&& 0xffffff80) >>> 7 : ℕ) + -1799999999) = v.longitude ∧
      s32 (((w 3 &&& 0x7f) <<< 9 ||| (w 4 &&& 0xff800000) >>> 23 : ℕ) + -4096) = v.elevation := by
  have h₁ := hw.w₁
  have h₂ := hw.w₂
  have h₃ := hw.w₃
  have h₄ := hw.w₄
  have hsec := h.secMarkMs
  have hlat := h.latitude
  have hlon := h.longitude
  have hele := h.elevation
  have hmajor := h.semiMajorAxisAccuracy
  have hminor := h.semiMinorAxisAccuracy
  have horient := h.semiMajorAxisOrientation
  have hlat' : (v.latitude - -900000000).toNat < 2 ^ 31 := by omega
  have hlon' : (v.longitude - -1799999999).toNat < 2 ^ 32 := by omega
  have hele' : (v.elevation - -4096).toNat < 2 ^ 16 := by omega
  refine ⟨s32_toNat_add ?_ hlat.1 (by omega), s32_toNat_add ?_ hlon.1 (by omega),
    s32_toNat_add ?_ hele.1 (by omega)⟩
  all_goals
    clear hlat hlon hele
    generalize (v.latitude - -900000000).toNat = lat at *
    generalize (v.longitude - -1799999999).toNat = lon at *
    generalize (v.elevation - -4096).toNat = ele at *
  · rw [wordField _ 25 7 (by rfl), wordEnd _ 6 (by rfl), joinFields (by omega)]
    omega
  · rw [wordField _ 25 7 (by rfl), wordEnd _ 7 (by rfl), joinFields (by omega)]
    omega
  · rw [wordField _ 9 23 (by rfl), wordEnd _ 7 (by rfl), joinFields (by omega)]
    omega

/-- The accuracy of the position, and the transmission. -/
theorem CoreWords.accuracy (hw : CoreWords v w) (h : CoreFits v) :
    (w 4 &&& 0x007f8000) >>> 15 = v.semiMajorAxisAccuracy ∧
      (w 4 &&& 0x7f80) >>> 7 = v.semiMinorAxisAccuracy ∧
      (w 4 &&& 0x7f) <<< 9 ||| (w 5 &&& 0xff800000) >>> 23 = v.semiMajorAxisOrientation ∧
      (w 5 &&& 0x00700000) >>> 20 = v.transmissionState ∧
      (w 5 &&& 0x000fff80) >>> 7 = v.speed := by
  have h₄ := hw.w₄
  have h₅ := hw.w₅
  have hele := h.elevation
  have hmajor := h.semiMajorAxisAccuracy
  have hminor := h.semiMinorAxisAccuracy
  have horient := h.semiMajorAxisOrientation
  have htrans := h.transmissionState
  have hspeed := h.speed
  have hheading := h.headingDegrees
  refine ⟨?_, ?_, ?_, ?_, ?_⟩
  · rw [wordField _ 8 15 (by rfl)]
    omega
  · rw [wordField _ 8 7 (by rfl)]
    omega
  · rw [wordField _ 9 23 (by rfl), wordEnd _ 7 (by rfl), joinFields (by omega)]
    omega
  · rw [wordField _ 3 20 (by rfl)]
    omega
  · rw [wordField _ 13 7 (by rfl)]
    omega

/-- The heading, the wheel and the accelerations. -/
theorem CoreWords.motion (hw : CoreWords v w) (h : CoreFits v) :
    (w 5 &&& 0x7f) <<< 8 ||| (w 6 &&& 0xff000000) >>> 24 = v.headingDegrees ∧
      s32 (((w 6 &&& 0x00ff0000) >>> 16 : ℕ) + -126) = v.steeringWheelAngle ∧
      s32 (((w 6 &&& 0x0000fff0) >>> 4 : ℕ) + -2000) = v.accelLon ∧
      s32 (((w 6 &&& 0xf) <<< 8 ||| (w 7 &&& 0xff000000) >>> 24 : ℕ) + -2000) = v.accelLat ∧
      s32 (((w 7 &&& 0x00ff0000) >>> 16 : ℕ) + -127) = v.accelVert ∧
      s32 ((w 7 &&& 0x0000ffff : ℕ) + -32767) = v.accelYaw := by
  have h₅ := hw.w₅
  have h₆ := hw.w₆
  have h₇ := hw.w₇
  have hswa := h.steeringWheelAngle
  have haccLon := h.accelLon
  have haccLat := h.accelLat
  have haccVert := h.accelVert
  have haccYaw := h.accelYaw
  have hswa' : (v.steeringWheelAngle - -126).toNat < 2 ^ 8 := by omega
  have haccLon' : (v.accelLon - -2000).toNat < 2 ^ 12 := by omega
  have haccLat' : (v.accelLat - -2000).toNat < 2 ^ 12 := by omega
  have haccVert' : (v.accelVert - -127).toNat < 2 ^ 8 := by omega
  have haccYaw' : (v.accelYaw - -32767).toNat < 2 ^ 16 := by omega
  have hheading := h.headingDegrees
  refine ⟨?_, s32_toNat_add ?_ hswa.1 (by omega), s32_toNat_add ?_ haccLon.1 (by omega),
    s32_toNat_add ?_ haccLat.1 (by omega), s32_toNat_add ?_ haccVert.1 (by omega),
    s32_toNat_add ?_ haccYaw.1 (by omega)⟩
  all_goals
    clear hswa haccLon haccLat haccVert haccYaw
    generalize (v.steeringWheelAngle - -126).toNat = swa at *
    generalize (v.accelLon - -2000).toNat = accLon at *
    generalize (v.accelLat - -2000).toNat = accLat at *
    generalize (v.accelVert - -127).toNat = accVert at *
    generalize (v.accelYaw - -32767).toNat = accYaw at *
  · rw [wordField _ 8 24 (by rfl), wordEnd _ 7 (by rfl), joinFields (by omega)]
    omega
  · rw [wordField _ 8 16 (by rfl)]
    omega
  · rw [wordField _ 12 4 (by rfl)]
    omega
  · rw [wordField _ 8 24 (by rfl), wordEnd _ 4 (by rfl), joinFields (by omega)]
    omega
  · rw [wordField _ 8 16 (by rfl)]
    omega
  · rw [wordEnd _ 16 (by rfl)]
    omega

/-- The brake status with a bit of the width, and the size. -/
theorem CoreWords.size (hw : CoreWords v w) (h : CoreFits v) :
    w 8 / 2 ^ 16 % 2 ^ 16 = v.brakes + v.vehicleWidthCm / 2 ^ 9 ∧
      (w 8 &&& 0x0001ff80) >>> 7 = v.vehicleWidthCm ∧
      (w 8 &&& 0x7f) <<< 5 ||| v.vehicleLengthCm % 2 ^ 5 = v.vehicleLengthCm := by
  have h₈ := hw.w₈
  have hbrakes := h.brakes
  have hwidth := h.vehicleWidthCm
  have hlength := h.vehicleLengthCm
  refine ⟨?_, ?_, ?_⟩
  · rw [Nat.mod_eq_of_lt (by omega)]
    omega
  · rw [wordField _ 10 7 (by rfl)]
    omega
  · rw [wordEnd _ 7 (by rfl), joinFields (by omega)]
    omega

end Words

/-- The core data is read from the words and the last byte. -/
theorem decodeCore_of_hasAt {mem : ℕ → UInt8} {p : ℕ} {lastByteP : ℤ} {v : BsmValue} (b : BsmValue)
    (h : CoreFits v) (hbits : HasAt (memBits mem) (8 * p) (coreBits v))
    (hlast : (p + 36 : ℕ) ≤ lastByteP) : decodeCore mem p lastByteP b = takeCore v b := by
  obtain ⟨w, hw⟩ : ∃ w : ℕ → ℕ, w = fun i => ntohl mem (p + 4 * i) := ⟨_, rfl⟩
  have hlen : (coreWords v).length = 9 := rfl
  have hat {i : ℕ} (hi : i < (coreWords v).length) :
      HasAt (memBits mem) (8 * (p + 4 * i)) (natBits 32 (coreWords v)[i]) := by
    rw [show 8 * (p + 4 * i) = 8 * p + 32 * i by omega]
    exact hasAt_words hbits.left hi
  have hword {i : ℕ} (hi : i < (coreWords v).length) : w i = (coreWords v)[i] := by
    rw [hw]
    exact ntohl_of_hasAt (hat hi) (coreWords_lt h _ (List.getElem_mem hi))
  have hwords : CoreWords v w := by
    constructor
    all_goals
      rw [hword (by omega)]
      simp only [coreWords_eq h, List.getElem_cons_zero, List.getElem_cons_succ]
  have hend : ((mem (p + 36)).toNat &&& 0xf8) >>> 3 = v.vehicleLengthCm % 2 ^ 5 := by
    have hbyte := toNat_window_byte mem (p + 36) (n := 5) (k := 3) (by omega)
    have hflat : ((coreWords v).map (natBits 32)).flatten.length = 288 := by simp [coreWords]
    have hright := hbits.right
    rw [hflat, show 8 * p + 288 = 8 * (p + 36) by omega] at hright
    rw [wordField _ 5 3 (by rfl), ← hbyte]
    exact hright.toNat
  have hbrakes : ntohs mem (p + 32) = w 8 / 2 ^ 16 % 2 ^ 16 := by
    have hlast := hat (i := 8) (by omega)
    rw [natBits_add 16 16] at hlast
    rw [hword (i := 8) (by omega), ntohs_of_hasAt hlast.left]
  have hhead := hwords.head h
  have hposition := hwords.position h
  have haccuracy := hwords.accuracy h
  have hmotion := hwords.motion h
  have hsize := hwords.size h
  unfold decodeCore takeCore
  rw [← hw]
  dsimp only
  rw [if_pos hlast]
  simp only [hend, hbrakes, hhead, hposition, haccuracy, hmotion, hsize]

end Tulux.QCoder
