import Tulux.QCoder.J2735Core
import Tulux.QCoder.J2735Parse

/-! The core data of `j2735.c`, read bit after bit, and what the masks and shifts make of it. -/
namespace Tulux.QCoder
open BitString BitParser

/-! ### Reading one field after another -/

/-- The fields of the core data with their widths; an offset of the standard is added to a signed
one. Returns the extension marker. -/
def readCore (mem : ℕ → UInt8) : Decoder ℕ := do
  let extended ← getBits mem 1
  field mem 1 fun v b => { b with hasPartII := v }
  field mem 1 fun v b => { b with hasRegionalExtensions := v }
  field mem 7 fun v b => { b with msgCount := v }
  field mem 32 fun v b => { b with id := v }
  field mem 16 fun v b => { b with secMarkMs := v }
  field mem 31 fun v b => { b with latitude := s32 (v + -900000000) }
  field mem 32 fun v b => { b with longitude := s32 (v + -1799999999) }
  field mem 16 fun v b => { b with elevation := s32 (v + -4096) }
  field mem 8 fun v b => { b with semiMajorAxisAccuracy := v }
  field mem 8 fun v b => { b with semiMinorAxisAccuracy := v }
  field mem 16 fun v b => { b with semiMajorAxisOrientation := v }
  field mem 3 fun v b => { b with transmissionState := v }
  field mem 13 fun v b => { b with speed := v }
  field mem 15 fun v b => { b with headingDegrees := v }
  field mem 8 fun v b => { b with steeringWheelAngle := s32 (v + -126) }
  field mem 12 fun v b => { b with accelLon := s32 (v + -2000) }
  field mem 12 fun v b => { b with accelLat := s32 (v + -2000) }
  field mem 8 fun v b => { b with accelVert := s32 (v + -127) }
  field mem 16 fun v b => { b with accelYaw := s32 (v + -32767) }
  field mem 15 fun v b => { b with brakes := v }
  field mem 10 fun v b => { b with vehicleWidthCm := v }
  field mem 12 fun v b => { b with vehicleLengthCm := v }
  pure extended

/-- What the words make of the fields: the flags keep their places in the first word, and the brake
status has a bit of padding, which is the first bit of the width. -/
def inWords (b : BsmValue) : BsmValue :=
  { b with
    hasPartII := b.hasPartII * 0x40000000
    hasRegionalExtensions := b.hasRegionalExtensions * 0x20000000
    brakes := 2 * b.brakes + b.vehicleWidthCm / 2 ^ 9 }

/-- `decode_as_bsm` with the core data read so. -/
def readAsBsm (mem : ℕ → UInt8) (data : ℕ) (payloadLen : ℤ) (bsm : BsmValue) : ℤ × BsmValue :=
  let lastByteP : ℤ := data + payloadLen - 1
  match readCore mem { p8 := data, bitsLeft := 8, bsm := bsm } with
  | .error result st => (result, st.bsm)
  | .ok extended st =>
    if extended ≠ 0 then (0, bsm)
    else
      let st := { st with bsm := inWords st.bsm }
      if st.bsm.hasPartII ≠ 0 then
        match decodePartII mem lastByteP st with
        | .ok _ st => (0, st.bsm)
        | .error result st => (result, st.bsm)
      else (0, st.bsm)

section Read
variable {mem : ℕ → UInt8} {pos n : ℕ}

/-- The bits from `pos` on as a number. -/
def bitsAt (mem : ℕ → UInt8) (pos n : ℕ) : ℕ := toNat (window (memBits mem) pos n)

theorem bitsAt_lt (mem : ℕ → UInt8) (pos n : ℕ) : bitsAt mem pos n < 2 ^ n := by
  have hlt := toNat_lt (window (memBits mem) pos n)
  rwa [length_window] at hlt

theorem bitsAt_add (mem : ℕ → UInt8) (pos m n : ℕ) :
    bitsAt mem pos (m + n) = bitsAt mem pos m * 2 ^ n + bitsAt mem (pos + m) n := by
  rw [bitsAt, window_add, toNat_append, length_window]
  rfl

/-- A field of a longer string. -/
theorem bitsAt_sub (mem : ℕ → UInt8) (pos k n r : ℕ) :
    bitsAt mem (pos + k) n = bitsAt mem pos (k + n + r) / 2 ^ r % 2 ^ n := by
  have hlast := bitsAt_lt mem (pos + (k + n)) r
  have hfield := bitsAt_lt mem (pos + k) n
  rw [bitsAt_add, Nat.mul_comm, Nat.mul_add_div (by positivity), Nat.div_eq_of_lt hlast,
    Nat.add_zero, bitsAt_add, Nat.mul_comm, Nat.mul_add_mod, Nat.mod_eq_of_lt hfield]

/-- The state at a position. -/
def cursorAt (pos : ℕ) (b : BsmValue) : DecodeState := ⟨pos / 8, 8 - pos % 8, b⟩

theorem getBits_bind {α : Type} (hn : n ≤ 32) (k : ℕ → Decoder α) (b : BsmValue) :
    (getBits mem n >>= k) (cursorAt pos b) =
      k (bitsAt mem pos n) (cursorAt (pos + n) b) := by
  apply bind_ok
  rw [getBits, cursorAt, getNextNBits_eq mem pos hn]
  rfl

theorem field_bind {α : Type} (hn : n ≤ 32) (store : ℕ → BsmValue → BsmValue)
    (k : Unit → Decoder α) (b : BsmValue) :
    (field mem n store >>= k) (cursorAt pos b) =
      k () (cursorAt (pos + n) (store (bitsAt mem pos n) b)) := by
  apply bind_ok
  rw [field, getBits_bind hn]
  rfl

/-- The message with the fields from `pos` on. -/
def storeCore (mem : ℕ → UInt8) (pos : ℕ) (b : BsmValue) : BsmValue :=
  { b with
    hasPartII := bitsAt mem (pos + 1) 1
    hasRegionalExtensions := bitsAt mem (pos + 2) 1
    msgCount := bitsAt mem (pos + 3) 7
    id := bitsAt mem (pos + 10) 32
    secMarkMs := bitsAt mem (pos + 42) 16
    latitude := s32 (bitsAt mem (pos + 58) 31 + -900000000)
    longitude := s32 (bitsAt mem (pos + 89) 32 + -1799999999)
    elevation := s32 (bitsAt mem (pos + 121) 16 + -4096)
    semiMajorAxisAccuracy := bitsAt mem (pos + 137) 8
    semiMinorAxisAccuracy := bitsAt mem (pos + 145) 8
    semiMajorAxisOrientation := bitsAt mem (pos + 153) 16
    transmissionState := bitsAt mem (pos + 169) 3
    speed := bitsAt mem (pos + 172) 13
    headingDegrees := bitsAt mem (pos + 185) 15
    steeringWheelAngle := s32 (bitsAt mem (pos + 200) 8 + -126)
    accelLon := s32 (bitsAt mem (pos + 208) 12 + -2000)
    accelLat := s32 (bitsAt mem (pos + 220) 12 + -2000)
    accelVert := s32 (bitsAt mem (pos + 232) 8 + -127)
    accelYaw := s32 (bitsAt mem (pos + 240) 16 + -32767)
    brakes := bitsAt mem (pos + 256) 15
    vehicleWidthCm := bitsAt mem (pos + 271) 10
    vehicleLengthCm := bitsAt mem (pos + 281) 12 }

theorem readCore_eq (mem : ℕ → UInt8) (pos : ℕ) (b : BsmValue) :
    readCore mem (cursorAt pos b) =
      .ok (bitsAt mem pos 1) (cursorAt (pos + 293) (storeCore mem pos b)) := by
  unfold readCore
  simp (disch := norm_num) only [getBits_bind, field_bind, Nat.add_assoc, Nat.reduceAdd]
  rfl

end Read

/-! ### Masks and shifts -/

section Words
variable {mem : ℕ → UInt8} {a a' pos mask mask' : ℕ}

/-- `n` bits of the word at `a`, with `k` bits before them and `r` behind them. -/
theorem wordField_bitsAt (k n r : ℕ) (hmask : mask = lowMask n <<< r) (h : k + n + r = 32)
    (hpos : pos = 8 * a + k) : (ntohl mem a &&& mask) >>> r = bitsAt mem pos n := by
  rw [wordField _ n r hmask, hpos, bitsAt_sub mem (8 * a) k n r, h, ntohl_eq]
  rfl

theorem wordFlag_bitsAt (k r : ℕ) (hmask : mask = 2 ^ r) (h : k + 1 + r = 32)
    (hpos : pos = 8 * a + k) : ntohl mem a &&& mask = bitsAt mem pos 1 * 2 ^ r := by
  rw [wordFlag _ r hmask, hpos, bitsAt_sub mem (8 * a) k 1 r, h, ntohl_eq]
  rfl

theorem wordEnd_bitsAt (k n : ℕ) (hmask : mask = lowMask n) (h : k + n = 32)
    (hpos : pos = 8 * a + k) : ntohl mem a &&& mask = bitsAt mem pos n := by
  rw [wordEnd _ n hmask, hpos, bitsAt_sub mem (8 * a) k n 0, Nat.add_zero, h, ntohl_eq, Nat.pow_zero,
    Nat.div_one]
  rfl

/-- A field whose last `n` bits are in the next word. -/
theorem wordFields_bitsAt (k m n r : ℕ) (hmask : mask = lowMask m) (hmask' : mask' = lowMask n <<< r)
    (h : k + m = 32) (h' : n + r = 32) (ha : a' = a + 4) (hpos : pos = 8 * a + k) :
    (ntohl mem a &&& mask) <<< n ||| (ntohl mem a' &&& mask') >>> r = bitsAt mem pos (m + n) := by
  rw [wordField_bitsAt 0 n r hmask' (by omega) rfl, wordEnd_bitsAt k m hmask h hpos,
    joinFields (bitsAt_lt _ _ _), bitsAt_add, show pos + m = 8 * a' + 0 by omega]

/-- The last field ends in a byte. -/
theorem wordByte_bitsAt (k m n r : ℕ) (hmask : mask = lowMask m) (hmask' : mask' = lowMask n <<< r)
    (h : k + m = 32) (h' : n + r = 8) (ha : a' = a + 4) (hpos : pos = 8 * a + k) :
    (ntohl mem a &&& mask) <<< n ||| ((mem a').toNat &&& mask') >>> r = bitsAt mem pos (m + n) := by
  have hbyte : ((mem a').toNat &&& mask') >>> r = bitsAt mem (8 * a') n := by
    rw [wordField _ n r hmask', ← toNat_window_byte mem a' h'.le,
      show 8 * a' + (8 - r - n) = 8 * a' by omega]
    rfl
  rw [hbyte, wordEnd_bitsAt k m hmask h hpos, joinFields (bitsAt_lt _ _ _), bitsAt_add,
    show pos + m = 8 * a' by omega]

end Words

section Core
variable (mem : ℕ → UInt8) (p : ℕ)

/-- The flags, the message count, the temporary id and the time. -/
theorem coreHead_bitsAt :
    ntohl mem p &&& 0x40000000 = bitsAt mem (8 * p + 1) 1 * 0x40000000 ∧
      ntohl mem p &&& 0x20000000 = bitsAt mem (8 * p + 2) 1 * 0x20000000 ∧
      (ntohl mem p &&& 0x1fc00000) >>> 22 = bitsAt mem (8 * p + 3) 7 ∧
      (ntohl mem p &&& 0x003fffff) <<< 10 ||| (ntohl mem (p + 4) &&& 0xffc00000) >>> 22 =
        bitsAt mem (8 * p + 10) 32 ∧
      (ntohl mem (p + 4) &&& 0x003fffc0) >>> 6 = bitsAt mem (8 * p + 42) 16 := by
  refine ⟨?_, ?_, ?_, ?_, ?_⟩
  · exact wordFlag_bitsAt 1 30 (by rfl) (by rfl) (by rfl)
  · exact wordFlag_bitsAt 2 29 (by rfl) (by rfl) (by rfl)
  · exact wordField_bitsAt 3 7 22 (by rfl) (by rfl) (by rfl)
  · exact wordFields_bitsAt 10 22 10 22 (by rfl) (by rfl) (by rfl) (by rfl) (by rfl) (by rfl)
  · exact wordField_bitsAt 10 16 6 (by rfl) (by rfl) (by omega)

theorem corePosition_bitsAt :
    (ntohl mem (p + 4) &&& 0x3f) <<< 25 ||| (ntohl mem (p + 8) &&& 0xffffff80) >>> 7 =
        bitsAt mem (8 * p + 58) 31 ∧
      (ntohl mem (p + 8) &&& 0x7f) <<< 25 ||| (ntohl mem (p + 12) &&& 0xffffff80) >>> 7 =
        bitsAt mem (8 * p + 89) 32 ∧
      (ntohl mem (p + 12) &&& 0x7f) <<< 9 ||| (ntohl mem (p + 16) &&& 0xff800000) >>> 23 =
        bitsAt mem (8 * p + 121) 16 := by
  refine ⟨?_, ?_, ?_⟩
  · exact wordFields_bitsAt 26 6 25 7 (by rfl) (by rfl) (by rfl) (by rfl) (by rfl) (by omega)
  · exact wordFields_bitsAt 25 7 25 7 (by rfl) (by rfl) (by rfl) (by rfl) (by rfl) (by omega)
  · exact wordFields_bitsAt 25 7 9 23 (by rfl) (by rfl) (by rfl) (by rfl) (by rfl) (by omega)

theorem coreAccuracy_bitsAt :
    (ntohl mem (p + 16) &&& 0x007f8000) >>> 15 = bitsAt mem (8 * p + 137) 8 ∧
      (ntohl mem (p + 16) &&& 0x7f80) >>> 7 = bitsAt mem (8 * p + 145) 8 ∧
      (ntohl mem (p + 16) &&& 0x7f) <<< 9 ||| (ntohl mem (p + 20) &&& 0xff800000) >>> 23 =
        bitsAt mem (8 * p + 153) 16 ∧
      (ntohl mem (p + 20) &&& 0x00700000) >>> 20 = bitsAt mem (8 * p + 169) 3 ∧
      (ntohl mem (p + 20) &&& 0x000fff80) >>> 7 = bitsAt mem (8 * p + 172) 13 := by
  refine ⟨?_, ?_, ?_, ?_, ?_⟩
  · exact wordField_bitsAt 9 8 15 (by rfl) (by rfl) (by omega)
  · exact wordField_bitsAt 17 8 7 (by rfl) (by rfl) (by omega)
  · exact wordFields_bitsAt 25 7 9 23 (by rfl) (by rfl) (by rfl) (by rfl) (by rfl) (by omega)
  · exact wordField_bitsAt 9 3 20 (by rfl) (by rfl) (by omega)
  · exact wordField_bitsAt 12 13 7 (by rfl) (by rfl) (by omega)

theorem coreMotion_bitsAt :
    (ntohl mem (p + 20) &&& 0x7f) <<< 8 ||| (ntohl mem (p + 24) &&& 0xff000000) >>> 24 =
        bitsAt mem (8 * p + 185) 15 ∧
      (ntohl mem (p + 24) &&& 0x00ff0000) >>> 16 = bitsAt mem (8 * p + 200) 8 ∧
      (ntohl mem (p + 24) &&& 0x0000fff0) >>> 4 = bitsAt mem (8 * p + 208) 12 ∧
      (ntohl mem (p + 24) &&& 0xf) <<< 8 ||| (ntohl mem (p + 28) &&& 0xff000000) >>> 24 =
        bitsAt mem (8 * p + 220) 12 ∧
      (ntohl mem (p + 28) &&& 0x00ff0000) >>> 16 = bitsAt mem (8 * p + 232) 8 ∧
      ntohl mem (p + 28) &&& 0x0000ffff = bitsAt mem (8 * p + 240) 16 := by
  refine ⟨?_, ?_, ?_, ?_, ?_, ?_⟩
  · exact wordFields_bitsAt 25 7 8 24 (by rfl) (by rfl) (by rfl) (by rfl) (by rfl) (by omega)
  · exact wordField_bitsAt 8 8 16 (by rfl) (by rfl) (by omega)
  · exact wordField_bitsAt 16 12 4 (by rfl) (by rfl) (by omega)
  · exact wordFields_bitsAt 28 4 8 24 (by rfl) (by rfl) (by rfl) (by rfl) (by rfl) (by omega)
  · exact wordField_bitsAt 8 8 16 (by rfl) (by rfl) (by omega)
  · exact wordEnd_bitsAt 16 16 (by rfl) (by rfl) (by omega)

/-- The bit behind the brake status is the first one of the width. -/
theorem coreBrakes_bitsAt : ntohs mem (p + 32) =
    2 * bitsAt mem (8 * p + 256) 15 + bitsAt mem (8 * p + 271) 10 / 2 ^ 9 := by
  have hword : ntohs mem (p + 32) = bitsAt mem (8 * p + 256) (15 + 1) := by
    rw [ntohs_eq, Nat.mul_add]
    rfl
  have hlow := bitsAt_lt mem (8 * p + 272) 9
  have hwidth : bitsAt mem (8 * p + 271) 10 = _ := bitsAt_add mem (8 * p + 271) 1 9
  rw [bitsAt_add, show 8 * p + 256 + 15 = 8 * p + 271 by rfl] at hword
  rw [show 8 * p + 271 + 1 = 8 * p + 272 by rfl] at hwidth
  omega

theorem coreSize_bitsAt :
    (ntohl mem (p + 32) &&& 0x0001ff80) >>> 7 = bitsAt mem (8 * p + 271) 10 ∧
      (ntohl mem (p + 32) &&& 0x7f) <<< 5 ||| ((mem (p + 36)).toNat &&& 0xf8) >>> 3 =
        bitsAt mem (8 * p + 281) 12 := by
  refine ⟨?_, ?_⟩
  · exact wordField_bitsAt 15 10 7 (by rfl) (by rfl) (by omega)
  · exact wordByte_bitsAt 25 7 5 3 (by rfl) (by rfl) (by rfl) (by rfl) (by rfl) (by omega)

/-- The masks and shifts cut out the fields. -/
theorem decodeCore_eq {lastByteP : ℤ} (b : BsmValue) (hlast : (p + 36 : ℕ) ≤ lastByteP) :
    decodeCore mem p lastByteP b = inWords (storeCore mem (8 * p) b) := by
  have hhead := coreHead_bitsAt mem p
  have hposition := corePosition_bitsAt mem p
  have haccuracy := coreAccuracy_bitsAt mem p
  have hmotion := coreMotion_bitsAt mem p
  have hbrakes := coreBrakes_bitsAt mem p
  have hsize := coreSize_bitsAt mem p
  unfold decodeCore inWords storeCore
  dsimp only
  rw [if_pos hlast]
  simp only [Nat.mul_zero, Nat.mul_one, Nat.reduceMul, Nat.add_zero, hhead, hposition, haccuracy,
    hmotion, hbrakes, hsize]

/-- The extension marker is the first bit of the first word. -/
theorem coreExtended_bitsAt : ntohl mem p &&& 0x80000000 = bitsAt mem (8 * p) 1 * 0x80000000 :=
  wordFlag_bitsAt 0 31 (by rfl) (by rfl) (by rfl)

theorem readCore_run (bsm : BsmValue) : readCore mem ⟨p, 8, bsm⟩ =
    .ok (bitsAt mem (8 * p) 1) ⟨p + 36, 3, storeCore mem (8 * p) bsm⟩ := by
  have hread := readCore_eq mem (8 * p) bsm
  simp only [cursorAt] at hread
  rwa [show 8 * p / 8 = p by omega, show 8 - 8 * p % 8 = 8 by omega,
    show (8 * p + 293) / 8 = p + 36 by omega, show 8 - (8 * p + 293) % 8 = 3 by omega] at hread

/-- The two decoders go on with Part II at the same bit. -/
theorem decodeAsBsm_eq_readAsBsm {payloadLen : ℤ} (bsm : BsmValue) (h : 37 ≤ payloadLen) :
    decodeAsBsm mem p payloadLen bsm = readAsBsm mem p payloadLen bsm := by
  have hextended : ntohl mem p &&& 0x80000000 ≠ 0 ↔ bitsAt mem (8 * p) 1 ≠ 0 := by
    rw [coreExtended_bitsAt]
    omega
  unfold decodeAsBsm readAsBsm
  rw [readCore_run]
  dsimp only
  rw [if_neg (by omega), decodeCore_eq mem p bsm (by omega)]
  exact if_congr hextended rfl rfl

/-- The masks and shifts do the same as reading the fields one after another, up to the places of
the two flags and the padding of the brake status. -/
theorem decodeCore_sequential {payloadLen : ℤ} (bsm : BsmValue) (h : 37 ≤ payloadLen) :
    ∃ extended b, readCore mem ⟨p, 8, bsm⟩ = .ok extended ⟨p + 36, 3, b⟩ ∧
      decodeCore mem p (p + payloadLen - 1) bsm = inWords b ∧
      decodeAsBsm mem p payloadLen bsm = readAsBsm mem p payloadLen bsm :=
  ⟨_, _, readCore_run mem p bsm, decodeCore_eq mem p bsm (by omega),
    decodeAsBsm_eq_readAsBsm mem p bsm h⟩

theorem decodeCore_sequential_zeros :
    ∃ extended b, readCore (fun _ => 0) ⟨0, 8, callocBsm⟩ = .ok extended ⟨36, 3, b⟩ ∧
      decodeCore (fun _ => 0) 0 ((0 : ℕ) + 37 - 1) callocBsm = inWords b ∧
      decodeAsBsm (fun _ => 0) 0 37 callocBsm = readAsBsm (fun _ => 0) 0 37 callocBsm :=
  decodeCore_sequential (fun _ => 0) 0 callocBsm le_rfl

/-- Part II is announced, and the width has its first bit set. -/
def flaggedCore (i : ℕ) : UInt8 := if i = 0 then 0x40 else if i = 33 then 1 else 0

/-- The flag is not 1 but its mask, and the brake status is not 0. -/
theorem not_decodeCore_sequential :
    ∃ b, readCore flaggedCore ⟨0, 8, callocBsm⟩ = .ok 0 ⟨36, 3, b⟩ ∧
      (b.hasPartII = 1 ∧ (decodeCore flaggedCore 0 36 callocBsm).hasPartII = 0x40000000) ∧
      (b.brakes = 0 ∧ (decodeCore flaggedCore 0 36 callocBsm).brakes = 1) := by
  refine ⟨storeCore flaggedCore 0 callocBsm, ?_, ⟨rfl, rfl⟩, rfl, rfl⟩
  rw [readCore_run flaggedCore 0 callocBsm]
  rfl

end Core

end Tulux.QCoder
