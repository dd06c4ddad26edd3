import Tulux.Lib.Cursor
import Tulux.QCoder.J2735Sequential

/-! The number of bits of each part of a Part II extension, as its options announce it, and that the
decoder of `j2735.c` moves by this number. -/
namespace Tulux.QCoder
open BitString BitParser Cursor

/-! ### Sizes -/

/-- A part of `n` bits that is there when the bit `mask` of the options is set. -/
def optSize (opts mask n : ℕ) : ℕ := if opts &&& mask ≠ 0 then n else 0

def utcTimeSize (opts : ℕ) : ℕ :=
  7 + optSize opts 0x40 12 + optSize opts 0x20 4 + optSize opts 0x10 5 + optSize opts 0x8 5 +
    optSize opts 0x4 6 + optSize opts 0x2 16 + optSize opts 0x1 11

section Sizes
variable (mem : ℕ → UInt8)

/-- The extension bit, the options and the date, the position and its optional details. -/
def initialPositionSize (pos : ℕ) : ℕ :=
  let opts := bitsAt mem (pos + 1) 8
  9 + optSize opts 0x80 (utcTimeSize (bitsAt mem (pos + 9) 7)) + 63 + optSize opts 0x40 16 +
    optSize opts 0x20 15 + optSize opts 0x10 13 + optSize opts 0x8 32 + optSize opts 0x4 6 +
    optSize opts 0x2 8 + optSize opts 0x1 8

def crumbSize (pos : ℕ) : ℕ :=
  let opts := bitsAt mem (pos + 1) 3
  68 + optSize opts 0x4 13 + optSize opts 0x2 32 + optSize opts 0x1 8

/-- The crumbs one after the other. -/
def crumbsSize (pos : ℕ) : ℕ → ℕ
  | 0 => 0
  | n + 1 => crumbSize mem pos + crumbsSize (pos + crumbSize mem pos) n

def pathHistorySize (pos : ℕ) : ℕ :=
  let opts := bitsAt mem (pos + 1) 2
  let head := 3 + optSize opts 0x2 (initialPositionSize mem (pos + 3)) + optSize opts 0x1 8
  head + 5 + crumbsSize mem (pos + head + 5) (bitsAt mem (pos + head) 5 + 1)

def safetySize (pos : ℕ) : ℕ :=
  let opts := bitsAt mem (pos + 1) 4
  let head := 5 + optSize opts 0x8 14
  head + optSize opts 0x4 (pathHistorySize mem (pos + head)) + optSize opts 0x2 25 +
    optSize opts 0x1 10

def emergencyDetailsSize (pos : ℕ) : ℕ :=
  let opts := bitsAt mem (pos + 1) 2
  15 + optSize opts 0x2 22 + optSize opts 0x1 4

def eventDescriptionSize (pos : ℕ) : ℕ :=
  let opts := bitsAt mem (pos + 1) 5
  22 + optSize opts 0x10 (3 + 16 * (bitsAt mem (pos + 22) 3 + 1)) + optSize opts 0x8 8 +
    optSize opts 0x4 16 + optSize opts 0x2 4

def specialSize (pos : ℕ) : ℕ :=
  let opts := bitsAt mem (pos + 1) 3
  let head := 4 + optSize opts 0x4 (emergencyDetailsSize mem (pos + 4))
  head + optSize opts 0x2 (eventDescriptionSize mem (pos + head)) + optSize opts 0x1 1

def vehicleDataSize (pos : ℕ) : ℕ :=
  let opts := bitsAt mem (pos + 1) 4
  5 + optSize opts 0x8 7 + optSize opts 0x4 14 + optSize opts 0x2 8 + optSize opts 0x1 16

def wiperSize (opts : ℕ) : ℕ := 13 + optSize opts 0x2 4 + optSize opts 0x1 7

def weatherProbeSize (pos : ℕ) : ℕ :=
  let opts := bitsAt mem (pos + 1) 3
  let head := 4 + optSize opts 0x4 8 + optSize opts 0x2 8
  head + optSize opts 0x1 (wiperSize (bitsAt mem (pos + head) 2))

def supplementalSize (pos : ℕ) : ℕ :=
  let opts := bitsAt mem (pos + 1) 10
  let head := 11 + optSize opts 0x200 8
  let body := head + optSize opts 0x80 (vehicleDataSize mem (pos + head))
  body + optSize opts 0x20 (weatherProbeSize mem (pos + body))

/-- The known fields of the extension `id`. -/
def contentSize (id pos : ℕ) : ℕ :=
  match id with
  | 0 => safetySize mem pos
  | 1 => specialSize mem pos
  | _ => supplementalSize mem pos

end Sizes

/-! ### Steps -/

/-- The decoder is at a position. -/
def CursorAt (pos : ℕ) (st : DecodeState) : Prop := st.p8 = pos / 8 ∧ st.bitsLeft = 8 - pos % 8

section Steps
variable {mem : ℕ → UInt8} {n : ℕ}

theorem spans_getBits (mem : ℕ → UInt8) (hn : n ≤ 32) :
    Spans CursorAt (getBits mem n) (fun pos => bitsAt mem pos n) (fun _ => n) := by
  intro pos st v st' hat h
  rw [getBits, hat.1, hat.2, getNextNBits_eq mem pos hn] at h
  cases h
  exact ⟨rfl, rfl, rfl⟩

theorem covers_update (g : BsmValue → BsmValue) : Covers CursorAt (update g) (fun _ => 0) := by
  intro pos st a st' hat h
  cases h
  exact ⟨rfl, hat⟩

theorem covers_field (hn : n ≤ 32) (store : ℕ → BsmValue → BsmValue) :
    Covers CursorAt (field mem n store) (fun _ => n) :=
  (spans_getBits mem hn).bind fun v => covers_update (store v)

theorem covers_isExtended : Covers CursorAt (isExtended mem) (fun _ => 1) :=
  (spans_getBits mem (by norm_num)).bind fun _ => covers_pure

theorem covers_checkRoom (lastByteP : ℤ) (n : ℕ) :
    Covers CursorAt (checkRoom lastByteP n) (fun _ => 0) := by
  intro pos st a st' hat h
  unfold checkRoom at h
  split_ifs at h
  cases h
  exact ⟨rfl, hat⟩

/-- A field that is there when a bit of the options is set. -/
theorem covers_optField (hn : n ≤ 32) (opts mask : ℕ) (store : ℕ → BsmValue → BsmValue) :
    Covers CursorAt (optional (opts &&& mask ≠ 0) (field mem n store))
      (fun _ => optSize opts mask n) :=
  (covers_field hn store).optional

theorem covers_opt {p : Decoder Unit} {f : ℕ → ℕ} (opts mask : ℕ) (hp : Covers CursorAt p f) :
    Covers CursorAt (optional (opts &&& mask ≠ 0) p) (fun pos => optSize opts mask (f pos)) :=
  hp.optional

theorem covers_utcTime :
    Covers CursorAt (decodeUtcTime mem) (fun pos => utcTimeSize (bitsAt mem pos 7)) := by
  refine ((spans_getBits mem (by norm_num)).bind fun opts => (covers_update _).seq
    ((covers_optField (by norm_num) _ _ _).seq ((covers_optField (by norm_num) _ _ _).seq
      ((covers_optField (by norm_num) _ _ _).seq ((covers_optField (by norm_num) _ _ _).seq
        ((covers_optField (by norm_num) _ _ _).seq ((covers_optField (by norm_num) _ _ _).seq
          (covers_optField (by norm_num) _ _ _)))))))).of_eq fun pos => ?_
  simp only [utcTimeSize]
  omega

theorem covers_initialPosition :
    Covers CursorAt (decodeInitialPosition mem) (initialPositionSize mem) := by
  refine (covers_isExtended.seq ((spans_getBits mem (by norm_num)).bind fun opts =>
    (covers_update _).seq ((covers_opt opts _ covers_utcTime).seq
      ((covers_field (by norm_num) _).seq ((covers_field (by norm_num) _).seq
        ((covers_optField (by norm_num) _ _ _).seq ((covers_optField (by norm_num) _ _ _).seq
          ((covers_optField (by norm_num) _ _ _).seq ((covers_opt opts _
            ((covers_field (by norm_num) _).seq ((covers_field (by norm_num) _).seq
              (covers_field (by norm_num) _)))).seq ((covers_optField (by norm_num) _ _ _).seq
                ((covers_opt opts _ ((covers_field (by norm_num) _).seq
                  (covers_field (by norm_num) _))).seq (covers_opt opts _
                    ((covers_field (by norm_num) _).seq ((covers_field (by norm_num) _).seq
                      (covers_field (by norm_num) _))))))))))))))).of_eq fun pos => ?_
  simp only [initialPositionSize, Nat.add_assoc, Nat.reduceAdd]
  omega

theorem covers_crumb (m : ℕ) : Covers CursorAt (decodeCrumb mem m) (crumbSize mem) := by
  refine (covers_isExtended.seq ((spans_getBits mem (by norm_num)).bind fun opts =>
    (covers_update _).seq ((covers_field (by norm_num) _).seq ((covers_field (by norm_num) _).seq
      ((covers_field (by norm_num) _).seq ((covers_field (by norm_num) _).seq
        ((covers_optField (by norm_num) _ _ _).seq ((covers_opt opts _
          ((covers_field (by norm_num) _).seq ((covers_field (by norm_num) _).seq
            (covers_field (by norm_num) _)))).seq ((covers_update _).seq
              (covers_optField (by norm_num) _ _ _)))))))))).of_eq fun pos => ?_
  simp only [crumbSize, Nat.reduceAdd]
  omega

theorem covers_crumbs (m n : ℕ) :
    Covers CursorAt (decodeCrumbs mem m n) (fun pos => crumbsSize mem pos n) := by
  induction n generalizing m with
  | zero => exact covers_pure
  | succ n ih => exact (covers_crumb m).seq (ih (m + 1))

theorem covers_pathHistory : Covers CursorAt (decodePathHistory mem) (pathHistorySize mem) := by
  refine (covers_isExtended.seq ((spans_getBits mem (by norm_num)).bind fun opts =>
    (covers_update _).seq ((covers_opt opts _ covers_initialPosition).seq
      ((covers_optField (by norm_num) _ _ _).seq ((spans_getBits mem (by norm_num)).bind fun count =>
        (covers_update _).seq ((covers_unless _).seq
          (covers_crumbs 0 (count + 1)))))))).of_eq fun pos => ?_
  simp only [pathHistorySize, Nat.add_assoc, Nat.reduceAdd, Nat.zero_add]
  omega

theorem covers_safety :
    Covers CursorAt (decodeVehicleSafetyFields mem) (safetySize mem) := by
  refine (covers_isExtended.seq ((spans_getBits mem (by norm_num)).bind fun opts =>
    (covers_update _).seq ((covers_opt opts _ (covers_isExtended.seq
      (covers_field (by norm_num) _))).seq ((covers_opt opts _ covers_pathHistory).seq
        ((covers_opt opts _ (covers_isExtended.seq ((covers_field (by norm_num) _).seq
          (covers_field (by norm_num) _)))).seq (covers_opt opts _ (covers_isExtended.seq
            (covers_field (by norm_num) _)))))))).of_eq fun pos => ?_
  simp only [safetySize, Nat.add_assoc, Nat.reduceAdd, Nat.zero_add]
  omega

theorem covers_emergencyDetails :
    Covers CursorAt (decodeEmergencyDetails mem) (emergencyDetailsSize mem) := by
  refine (covers_isExtended.seq ((spans_getBits mem (by norm_num)).bind fun opts =>
    (covers_update _).seq ((covers_field (by norm_num) _).seq ((covers_field (by norm_num) _).seq
      ((covers_field (by norm_num) _).seq ((covers_field (by norm_num) _).seq
        ((covers_opt opts _ (covers_isExtended.seq ((covers_field (by norm_num) _).seq
          (covers_field (by norm_num) _)))).seq (covers_opt opts _ (covers_isExtended.seq
            (covers_field (by norm_num) _)))))))))).of_eq fun pos => ?_
  simp only [emergencyDetailsSize, Nat.reduceAdd]
  omega

theorem covers_descs (m n : ℕ) : Covers CursorAt (decodeDescs mem m n) (fun _ => 16 * n) := by
  induction n generalizing m with
  | zero => exact covers_pure
  | succ n ih =>
    refine ((covers_field (by norm_num) _).seq (ih (m + 1))).of_eq fun pos => ?_
    omega

theorem covers_eventDescription :
    Covers CursorAt (decodeEventDescription mem) (eventDescriptionSize mem) := by
  refine (covers_isExtended.seq ((spans_getBits mem (by norm_num)).bind fun opts =>
    (covers_update _).seq ((covers_field (by norm_num) _).seq ((covers_opt opts _
      ((spans_getBits mem (by norm_num)).bind fun count => (covers_update _).seq
        (covers_descs 0 (count + 1)))).seq ((covers_optField (by norm_num) _ _ _).seq
          ((covers_optField (by norm_num) _ _ _).seq
            (covers_optField (by norm_num) _ _ _))))))).of_eq fun pos => ?_
  simp only [eventDescriptionSize, Nat.add_assoc, Nat.reduceAdd, Nat.zero_add]
  omega

theorem covers_special (lastByteP : ℤ) :
    Covers CursorAt (decodeSpecialFields mem lastByteP) (specialSize mem) := by
  refine (covers_isExtended.seq ((covers_checkRoom _ _).seq
    ((spans_getBits mem (by norm_num)).bind fun opts => (covers_update _).seq
      ((covers_opt opts _ covers_emergencyDetails).seq ((covers_opt opts _
        covers_eventDescription).seq (covers_opt opts _ covers_isExtended)))))).of_eq fun pos => ?_
  simp only [specialSize, Nat.add_assoc, Nat.reduceAdd, Nat.zero_add]
  omega

theorem covers_vehicleData (lastByteP : ℤ) :
    Covers CursorAt (decodeVehicleData mem lastByteP) (vehicleDataSize mem) := by
  refine ((covers_checkRoom _ _).seq (covers_isExtended.seq
    ((spans_getBits mem (by norm_num)).bind fun opts => (covers_update _).seq
      ((covers_opt opts _ ((covers_checkRoom _ _).seq (covers_field (by norm_num) _))).seq
        ((covers_opt opts _ ((covers_checkRoom _ _).seq ((covers_field (by norm_num) _).seq
          (covers_field (by norm_num) _)))).seq ((covers_opt opts _ ((covers_checkRoom _ _).seq
            (covers_field (by norm_num) _))).seq (covers_opt opts _ ((covers_checkRoom _ _).seq
              (covers_field (by norm_num) _))))))))).of_eq fun pos => ?_
  simp only [vehicleDataSize, Nat.reduceAdd, Nat.zero_add, Nat.add_zero]
  omega

theorem covers_wiper :
    Covers CursorAt (do
      let wiperopts ← getBits mem 2
      update fun b => { b with wiperopts := wiperopts }
      field mem 4 fun v b => { b with statusFront := v }
      field mem 7 fun v b => { b with rateFront := v }
      optional (wiperopts &&& 0x2 ≠ 0) (field mem 4 fun v b => { b with statusRear := v })
      optional (wiperopts &&& 0x1 ≠ 0) (field mem 7 fun v b => { b with rateRear := v }))
      (fun pos => wiperSize (bitsAt mem pos 2)) := by
  refine ((spans_getBits mem (by norm_num)).bind fun wiper => (covers_update _).seq
    ((covers_field (by norm_num) _).seq ((covers_field (by norm_num) _).seq
      ((covers_optField (by norm_num) wiper _ _).seq
        (covers_optField (by norm_num) wiper _ _))))).of_eq fun pos => ?_
  simp only [wiperSize]
  omega

theorem covers_weatherProbe : Covers CursorAt (decodeWeatherProbe mem) (weatherProbeSize mem) := by
  refine (covers_isExtended.seq ((spans_getBits mem (by norm_num)).bind fun opts =>
    (covers_update _).seq ((covers_optField (by norm_num) _ _ _).seq
      ((covers_optField (by norm_num) _ _ _).seq
        (covers_opt opts _ covers_wiper))))).of_eq fun pos => ?_
  simp only [weatherProbeSize, Nat.add_assoc, Nat.reduceAdd, Nat.zero_add]
  omega

theorem covers_supplemental (lastByteP : ℤ) :
    Covers CursorAt (decodeSupplementalFields mem lastByteP) (supplementalSize mem) := by
  refine ((covers_checkRoom _ _).seq (covers_isExtended.seq
    ((spans_getBits mem (by norm_num)).bind fun opts => (covers_update _).seq
      ((covers_optField (by norm_num) _ _ _).seq ((covers_unless _).seq
        ((covers_opt opts _ (covers_vehicleData _)).seq ((covers_unless _).seq
          ((covers_opt opts _ covers_weatherProbe).seq (covers_unless _))))))))).of_eq fun pos => ?_
  simp only [supplementalSize, Nat.add_assoc, Nat.reduceAdd, Nat.zero_add, Nat.add_zero]
  omega

end Steps

end Tulux.QCoder
