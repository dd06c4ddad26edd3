import Tulux.Lib.ByteCode
import Tulux.Lib.Cells
import Tulux.Lib.GuardedRun

/-! The parcels that requests and responses are made of: values behind each other in a buffer that
grows as they are written. -/
namespace Tulux.Libril
open ByteCode GuardedRun

abbrev int32Max : ℕ := 2 ^ 31 - 1

/-- The values of `status_t` that a parcel returns. -/
inductive Status where
  | noError
  | noMemory
  | badValue
  | notEnoughData
  deriving DecidableEq, Repr

/-- A byte of the buffer that nothing has written is `none`. -/
structure Parcel where
  mError : Status
  hasData : Bool
  mData : ℕ → Option UInt8
  mDataSize : ℕ
  mDataCapacity : ℕ
  mDataPos : ℕ
  /-- Something was written outside the buffer, or into one that is released. -/
  undefined : Bool

def padSize (n : ℕ) : ℕ := (n + 3) / 4 * 4

/-- The low `n` bytes of `v`, the low byte first. -/
def leBytes (n v : ℕ) : List UInt8 := (beBytes n v).reverse

def unitBytes (s : List UInt16) : List UInt8 := s.flatMap fun u => leBytes 2 u.toNat

/-- The UTF-16 units of a string of bytes. -/
def units : List UInt8 → List UInt16
  | low :: high :: bytes => UInt16.ofNat (value [high, low]) :: units bytes
  | _ => []

@[simp] theorem length_leBytes (n v : ℕ) : (leBytes n v).length = n := by
  rw [leBytes, List.length_reverse, length_beBytes]

@[simp] theorem length_unitBytes (s : List UInt16) : (unitBytes s).length = 2 * s.length := by
  rw [unitBytes, List.length_flatMap]
  simp [Nat.mul_comm]

theorem units_unitBytes (s : List UInt16) : units (unitBytes s) = s := by
  induction s with
  | nil => rfl
  | cons u s ih =>
    have hu : value (beBytes 2 u.toNat) = u.toNat := value_beBytes_of_lt u.toNat_lt
    have hcons : unitBytes (u :: s) = leBytes 2 u.toNat ++ unitBytes s := rfl
    rw [hcons]
    change UInt16.ofNat (value (beBytes 2 u.toNat)) :: units (unitBytes s) = u :: s
    rw [hu, UInt16.ofNat_toNat, ih]

namespace Parcel

def new : Parcel := ⟨.noError, false, fun _ => none, 0, 0, 0, false⟩

def dataSize (p : Parcel) : ℕ := max p.mDataSize p.mDataPos

def dataAvail (p : Parcel) : ℕ := p.dataSize - p.mDataPos

/-! ### Writing -/

section Writing
-- the sizes that the allocator can serve
variable (alloc : ℕ → Bool)

def continueWrite (p : Parcel) (desired : ℕ) : Status × Parcel :=
  if int32Max < desired then (.badValue, p)
  else if p.hasData then
    if p.mDataCapacity < desired then
      if alloc desired then
        (.noError, { p with
          mData := fun i => if i < p.mDataCapacity then p.mData i else none
          mDataCapacity := desired })
      else (.noMemory, { p with mError := .noMemory })
    else
      (.noError, { p with
        mDataSize := min p.mDataSize desired
        mDataPos := min p.mDataPos desired })
  else if alloc desired then
    (.noError, { p with
      hasData := true
      mData := fun _ => none
      mDataSize := 0
      mDataPos := 0
      mDataCapacity := desired })
  else (.noMemory, { p with mError := .noMemory })

def growData (p : Parcel) (len : ℕ) : Status × Parcel :=
  if int32Max < len then (.badValue, p)
  else
    let newSize := (p.mDataSize + len) * 3 / 2
    if newSize ≤ p.mDataSize then (.noMemory, p) else p.continueWrite alloc newSize

def setDataSize (p : Parcel) (size : ℕ) : Status × Parcel :=
  if int32Max < size then (.badValue, p)
  else
    match p.continueWrite alloc size with
    | (.noError, p) => (.noError, { p with mDataSize := size })
    | (err, p) => (err, p)

/-- It aborts for a position that does not fit. -/
def setDataPosition (p : Parcel) (pos : ℕ) : Option Parcel :=
  if int32Max < pos then none else some { p with mDataPos := pos }

def setDataCapacity (p : Parcel) (size : ℕ) : Status × Parcel :=
  if int32Max < size then (.badValue, p)
  else if p.mDataCapacity < size then p.continueWrite alloc size
  else (.noError, p)

def restartWrite (p : Parcel) (desired : ℕ) : Status × Parcel :=
  if int32Max < desired then (.badValue, p)
  -- `realloc` releases the buffer and returns null
  else if p.hasData ∧ desired = 0 then
    (.noError, { p with mDataSize := 0, mDataPos := 0, undefined := true })
  else if alloc desired then
    (.noError, { p with
      hasData := true
      mData := fun i => if i < p.mDataCapacity then p.mData i else none
      mDataCapacity := desired
      mDataSize := 0
      mDataPos := 0 })
  else if p.mDataCapacity < desired then (.noMemory, { p with mError := .noMemory })
  else (.noError, { p with mDataSize := 0, mDataPos := 0 })

/-- Bytes come into the buffer. -/
def copy (p : Parcel) (a : ℕ) (bytes : List UInt8) : Parcel :=
  { p with
    mData := Cells.put p.mData a bytes
    undefined := p.undefined || decide (bytes ≠ [] ∧ p.mDataCapacity < a + bytes.length) }

def setData (p : Parcel) (buffer : List UInt8) : Status × Parcel :=
  if int32Max < buffer.length then (.badValue, p)
  else
    match p.restartWrite alloc buffer.length with
    | (.noError, p) => (.noError, { p.copy 0 buffer with mDataSize := buffer.length })
    | (err, p) => (err, p)

def finishWrite (p : Parcel) (len : ℕ) : Parcel :=
  { p with mDataPos := p.mDataPos + len, mDataSize := max p.mDataSize (p.mDataPos + len) }

/-- The capacity is not compared again behind `growData`. -/
def writeAligned (p : Parcel) (val : List UInt8) : Status × Parcel :=
  if p.mDataPos + val.length ≤ p.mDataCapacity then
    (.noError, (p.copy p.mDataPos val).finishWrite val.length)
  else
    match p.growData alloc val.length with
    | (.noError, p) => (.noError, (p.copy p.mDataPos val).finishWrite val.length)
    | (err, p) => (err, p)

def writeInt32 (p : Parcel) (val : Int32) : Status × Parcel :=
  p.writeAligned alloc (leBytes 4 val.toUInt32.toNat)

def writeUint64 (p : Parcel) (val : UInt64) : Status × Parcel :=
  p.writeAligned alloc (leBytes 8 val.toNat)

/-- The mask clears what is behind the bytes in their last word. -/
def pad (p : Parcel) (len : ℕ) : Parcel :=
  (p.copy (p.mDataPos + len) (List.replicate (padSize len - len) 0)).finishWrite (padSize len)

/-- Where the bytes go. -/
def writeInplace (p : Parcel) (len : ℕ) : Option ℕ × Parcel :=
  if int32Max < len then (none, p)
  else if p.mDataPos + padSize len ≤ p.mDataCapacity then (some p.mDataPos, p.pad len)
  else
    match p.growData alloc (padSize len) with
    | (.noError, p) => (some p.mDataPos, p.pad len)
    | (_, p) => (none, p)

def write (p : Parcel) (data : List UInt8) : Status × Parcel :=
  if int32Max < data.length then (.badValue, p)
  else
    match p.writeInplace alloc data.length with
    | (some a, p) => (.noError, p.copy a data)
    | (none, p) => (p.mError, p)

def writeString16 (p : Parcel) : Option (List UInt16) → Status × Parcel
  | none => p.writeInt32 alloc (-1)
  | some str =>
    match p.writeInt32 alloc (Int32.ofNat str.length) with
    | (.noError, p) =>
      match p.writeInplace alloc (2 * str.length + 2) with
      | (some a, p) =>
        (.noError, (p.copy a (unitBytes str)).copy (a + 2 * str.length) [0, 0])
      | (none, p) => (p.mError, p)
    | (err, p) => (err, p)

end Writing

/-! ### Reading -/

/-- The bytes at an address. One that nothing has written is read as it happens to be. -/
def bytesAt (p : Parcel) (a n : ℕ) : List UInt8 := (Cells.fetch p.mData a n).map fun b => b.getD 0

def readAligned (p : Parcel) (n : ℕ) : Option (ℕ × Parcel) :=
  if p.mDataPos + n ≤ p.mDataSize then
    some (value (p.bytesAt p.mDataPos n).reverse, { p with mDataPos := p.mDataPos + n })
  else none

def readInt32 (p : Parcel) : Option (Int32 × Parcel) :=
  (p.readAligned 4).map fun r => (.ofUInt32 (.ofNat r.1), r.2)

/-- The form without a status. -/
def readInt32D (p : Parcel) : Int32 × Parcel := p.readInt32.getD (0, p)

def readUint64 (p : Parcel) : Option (UInt64 × Parcel) :=
  (p.readAligned 8).map fun r => (.ofNat r.1, r.2)

/-- The address of the next bytes. -/
def readInplace (p : Parcel) (len : ℕ) : Option (ℕ × Parcel) :=
  if int32Max < len then none
  else if p.mDataPos + padSize len ≤ p.mDataSize then
    some (p.mDataPos, { p with mDataPos := p.mDataPos + padSize len })
  else none

def read (p : Parcel) (len : ℕ) : Option (List UInt8 × Parcel) :=
  (p.readInplace len).map fun r => (p.bytesAt r.1 len, r.2)

/-- The address and the length of a string. Its terminator is not looked at. -/
def readString16Inplace (p : Parcel) : Option (ℕ × ℕ) × Parcel :=
  let (size, p) := p.readInt32D
  if 0 ≤ size.toInt ∧ size.toInt < int32Max then
    match p.readInplace (2 * (size.toInt.toNat + 1)) with
    | some (a, p) => (some (a, size.toInt.toNat), p)
    | none => (none, p)
  else (none, p)

def readString16 (p : Parcel) : List UInt16 × Parcel :=
  match p.readString16Inplace with
  | (some (a, n), p) => (units (p.bytesAt a (2 * n)), p)
  | (none, p) => ([], p)

end Parcel

/-! ### Items -/

inductive Item where
  | int32 (val : Int32)
  | uint64 (val : UInt64)
  | string16 (str : Option (List UInt16))
  | data (bytes : List UInt8)
  deriving DecidableEq, Repr

/-- What a reader asks for. -/
inductive Kind where
  | int32
  | uint64
  | string16
  | data (len : ℕ)

namespace Item

def kind : Item → Kind
  | int32 _ => .int32
  | uint64 _ => .uint64
  | string16 _ => .string16
  | data bytes => .data bytes.length

/-- The bytes, and zeros up to the next word. -/
def padded (bytes : List UInt8) : List UInt8 :=
  bytes ++ List.replicate (padSize bytes.length - bytes.length) 0

def encode : Item → List UInt8
  | int32 val => leBytes 4 val.toUInt32.toNat
  | uint64 val => leBytes 8 val.toNat
  | string16 none => leBytes 4 (-1 : Int32).toUInt32.toNat
  | string16 (some str) =>
    leBytes 4 (Int32.ofNat str.length).toUInt32.toNat ++ padded (unitBytes str ++ [0, 0])
  | data bytes => padded bytes

end Item

namespace Parcel

def writeItem (alloc : ℕ → Bool) (p : Parcel) : Item → Status × Parcel
  | .int32 val => p.writeInt32 alloc val
  | .uint64 val => p.writeUint64 alloc val
  | .string16 str => p.writeString16 alloc str
  | .data bytes => p.write alloc bytes

def readItem (p : Parcel) : Kind → Option Item × Parcel
  | .int32 => match p.readInt32 with
    | some (val, p) => (some (.int32 val), p)
    | none => (none, p)
  | .uint64 => match p.readUint64 with
    | some (val, p) => (some (.uint64 val), p)
    | none => (none, p)
  | .string16 => match p.readString16Inplace with
    | (some (a, n), p) => (some (.string16 (some (units (p.bytesAt a (2 * n))))), p)
    | (none, p) => (some (.string16 none), p)
  | .data len => match p.read len with
    | some (bytes, p) => (some (.data bytes), p)
    | none => (none, p)

def readItems (p : Parcel) : List Kind → List (Option Item)
  | [] => []
  | kind :: kinds => (p.readItem kind).1 :: (p.readItem kind).2.readItems kinds

end Parcel

/-! ### Contents -/

/-- The bytes of a parcel and the position in them, without a buffer. -/
structure Contents where
  bytes : List UInt8
  pos : ℕ
  pos_le : pos ≤ bytes.length

namespace Contents
variable {c : Contents}

def write (c : Contents) (enc : List UInt8) : Contents where
  bytes := Cells.overwrite c.bytes c.pos enc
  pos := c.pos + enc.length
  pos_le := by
    rw [Cells.length_overwrite c.pos_le]
    exact le_max_right _ _

/-- The position is set inside the contents. -/
def moveTo (c : Contents) (pos : ℕ) (h : pos ≤ c.bytes.length) : Contents := ⟨c.bytes, pos, h⟩

theorem write_nil (c : Contents) : c.write [] = c := by
  simp [write, Cells.overwrite]

theorem write_pos (c : Contents) (enc : List UInt8) : (c.write enc).pos = c.pos + enc.length := rfl

theorem write_at_end (h : c.pos = c.bytes.length) (enc : List UInt8) :
    (c.write enc).bytes = c.bytes ++ enc := by
  change Cells.overwrite c.bytes c.pos enc = _
  rw [h, Cells.overwrite_length]

theorem length_write (c : Contents) (enc : List UInt8) :
    (c.write enc).bytes.length = max c.bytes.length (c.pos + enc.length) :=
  Cells.length_overwrite c.pos_le

theorem write_append (c : Contents) (s t : List UInt8) :
    c.write (s ++ t) = (c.write s).write t := by
  have htake : (c.bytes.take c.pos ++ s).length = c.pos + s.length := by
    rw [List.length_append, List.length_take_of_le c.pos_le]
  have hdrop (rest : List UInt8) :
      (c.bytes.take c.pos ++ s ++ rest).drop (c.pos + s.length + t.length) =
        rest.drop t.length := by
    rw [← List.drop_drop, List.drop_left' htake]
  simp only [write, Cells.overwrite, Contents.mk.injEq]
  refine ⟨?_, by rw [List.length_append, Nat.add_assoc]⟩
  rw [List.take_left' htake, hdrop, List.drop_drop, List.length_append, Nat.add_assoc]
  simp only [List.append_assoc]

end Contents

namespace Parcel
variable {alloc : ℕ → Bool} {p : Parcel} {c : Contents} {n len desired a : ℕ}
  {enc bytes s t : List UInt8}

/-- The buffer is large enough for the contents, and every byte of them was written. -/
structure Holds (p : Parcel) (c : Contents) : Prop where
  defined : p.undefined = false
  size : p.mDataSize = c.bytes.length
  bytes : Cells.Shows p.mData 0 c.bytes
  pos : p.mDataPos = c.pos
  capacity : p.mDataSize ≤ p.mDataCapacity
  small : p.mDataCapacity ≤ int32Max
  fresh : p.hasData = false → p.mDataCapacity = 0

/-! ### The buffer -/

theorem holds_new : new.Holds ⟨[], 0, le_rfl⟩ where
  defined := rfl
  size := rfl
  bytes := fun _ hi => absurd hi (Nat.not_lt_zero _)
  pos := rfl
  capacity := le_rfl
  small := Nat.zero_le _
  fresh := fun _ => rfl

theorem Holds.pos_le (h : p.Holds c) : p.mDataPos ≤ p.mDataSize := by
  rw [h.pos, h.size]
  exact c.pos_le

theorem Holds.continueWrite (h : p.Holds c) (alloc : ℕ → Bool)
    (hdesired : p.mDataSize ≤ desired) :
    (p.continueWrite alloc desired).2.Holds c ∧
      ((p.continueWrite alloc desired).1 = .noError →
        desired ≤ (p.continueWrite alloc desired).2.mDataCapacity) := by
  have hpos := h.pos_le
  have hcapacity := h.capacity
  unfold Parcel.continueWrite
  split_ifs with hlarge hdata hgrow halloc halloc
  · exact ⟨h, fun herr => absurd herr (by decide)⟩
  · refine ⟨⟨h.defined, h.size, h.bytes.congr fun i _ hi => ?_, h.pos, hdesired,
      not_lt.mp hlarge, fun hno => absurd (hdata.symm.trans hno) (by decide)⟩, fun _ => le_rfl⟩
    rw [← h.size] at hi
    exact if_pos (by omega)
  · exact ⟨⟨h.defined, h.size, h.bytes, h.pos, h.capacity, h.small, h.fresh⟩,
      fun herr => absurd herr (by decide)⟩
  · refine ⟨⟨h.defined, ?_, h.bytes, ?_, ?_, h.small, h.fresh⟩, fun _ => not_lt.mp hgrow⟩
    · exact (min_eq_left hdesired).trans h.size
    · exact (min_eq_left (by omega)).trans h.pos
    · exact (min_le_left _ _).trans h.capacity
  · have hempty : p.mDataCapacity = 0 := h.fresh (by simpa using hdata)
    have hnil : c.bytes.length = 0 := by
      rw [← h.size]
      omega
    have hzero : c.pos = 0 := Nat.le_zero.mp (hnil ▸ c.pos_le)
    refine ⟨⟨h.defined, hnil.symm, fun i hi => ?_, hzero.symm, Nat.zero_le _,
      not_lt.mp hlarge, fun hno => absurd hno (by simp)⟩, fun _ => le_rfl⟩
    exact absurd hi (by omega)
  · exact ⟨⟨h.defined, h.size, h.bytes, h.pos, h.capacity, h.small, h.fresh⟩,
      fun herr => absurd herr (by decide)⟩

/-- The allocator can serve what a parcel of `n` bytes may ask for. -/
def Room (alloc : ℕ → Bool) (n : ℕ) : Prop :=
  n * 3 / 2 ≤ int32Max ∧ ∀ m ≤ n * 3 / 2, alloc m = true

theorem Room.mono {m : ℕ} (h : Room alloc n) (hm : m ≤ n) : Room alloc m := by
  have hle : m * 3 / 2 ≤ n * 3 / 2 := Nat.div_le_div_right (Nat.mul_le_mul_right 3 hm)
  exact ⟨hle.trans h.1, fun k hk => h.2 k (hk.trans hle)⟩

theorem continueWrite_room (hsmall : desired ≤ int32Max) (halloc : alloc desired = true) :
    (p.continueWrite alloc desired).1 = .noError := by
  unfold Parcel.continueWrite
  rw [if_neg (not_lt.mpr hsmall)]
  split_ifs <;> rfl

theorem Holds.growData (h : p.Holds c) (alloc : ℕ → Bool)
    (hlen : p.mDataCapacity < p.mDataPos + len) :
    match p.growData alloc len with
    | (.noError, p') => p'.Holds c ∧ p'.mDataPos + len ≤ p'.mDataCapacity
    | (_, p') => p'.Holds c ∧ ¬ Room alloc (c.bytes.length + len) := by
  have hpos := h.pos_le
  have hcapacity := h.capacity
  unfold Parcel.growData
  dsimp only
  rw [← h.size]
  split_ifs with hlarge hsmall
  · exact ⟨h, fun hroom => absurd hroom.1 (by omega)⟩
  · exact absurd hsmall (by omega)
  · have hsize : p.mDataSize ≤ (p.mDataSize + len) * 3 / 2 := by omega
    obtain ⟨hholds, hgrown⟩ := h.continueWrite alloc hsize
    have hserved : Room alloc (p.mDataSize + len) → _ :=
      fun hroom => continueWrite_room (p := p) hroom.1 (hroom.2 _ le_rfl)
    revert hholds hgrown hserved
    rcases p.continueWrite alloc _ with ⟨err, p'⟩
    intro hholds hgrown hserved
    cases err with
    | noError =>
      have hsame : p'.mDataPos = p.mDataPos := hholds.pos.trans h.pos.symm
      have hsum : p'.mDataPos + len ≤ (p.mDataSize + len) * 3 / 2 := by omega
      exact ⟨hholds, hsum.trans (hgrown rfl)⟩
    | noMemory | badValue | notEnoughData =>
      exact ⟨hholds, fun hroom => absurd (hserved hroom) (by simp)⟩

/-! ### One write -/

theorem le_padSize (n : ℕ) : n ≤ padSize n := by
  unfold padSize
  omega

@[simp] theorem length_padded (bytes : List UInt8) :
    (Item.padded bytes).length = padSize bytes.length := by
  simp [Item.padded, Nat.add_sub_cancel' (le_padSize _)]

theorem copy_copy (h : a + s.length + t.length ≤ p.mDataCapacity) :
    (p.copy a s).copy (a + s.length) t = p.copy a (s ++ t) := by
  have hs : ¬ p.mDataCapacity < a + s.length := by omega
  have ht : ¬ p.mDataCapacity < a + s.length + t.length := by omega
  have hst : ¬ p.mDataCapacity < a + (s.length + t.length) := by omega
  simp [copy, Cells.put_put, hs, ht, hst]

/-- The bytes that are put in front of the padding. -/
theorem copy_pad (h : p.mDataPos + padSize bytes.length ≤ p.mDataCapacity) :
    (p.pad bytes.length).copy p.mDataPos bytes =
      (p.copy p.mDataPos (Item.padded bytes)).finishWrite (Item.padded bytes).length := by
  have hpad := le_padSize bytes.length
  have hs : ¬ p.mDataCapacity < p.mDataPos + bytes.length := by omega
  have hzeros : ¬ p.mDataCapacity <
      p.mDataPos + bytes.length + (padSize bytes.length - bytes.length) := by omega
  have hall : ¬ p.mDataCapacity < p.mDataPos + padSize bytes.length := not_lt.mpr h
  simp [copy, pad, finishWrite, Item.padded, Cells.put_put_swap, hs, hzeros, hall,
    Nat.add_sub_cancel' hpad]

theorem Holds.put (h : p.Holds c) (hroom : p.mDataPos + enc.length ≤ p.mDataCapacity) :
    ((p.copy p.mDataPos enc).finishWrite enc.length).Holds (c.write enc) := by
  have hcapacity := h.capacity
  refine ⟨?_, ?_, ?_, ?_, ?_, h.small, h.fresh⟩
  · have hnot : ¬ p.mDataCapacity < p.mDataPos + enc.length := not_lt.mpr hroom
    simp [finishWrite, copy, h.defined, hnot]
  · have hlength := Cells.length_overwrite (t := enc) c.pos_le
    simp only [finishWrite, copy, Contents.write]
    rw [hlength, h.size, h.pos]
  · simp only [finishWrite, copy, Contents.write]
    rw [h.pos]
    exact h.bytes.put c.pos_le
  · simp only [finishWrite, copy, Contents.write]
    rw [h.pos]
  · exact max_le hcapacity hroom

/-- What is written is there, or the contents are as before and the status tells. -/
theorem Holds.writeAligned (h : p.Holds c) (alloc : ℕ → Bool) (val : List UInt8) :
    match p.writeAligned alloc val with
    | (.noError, p') => p'.Holds (c.write val)
    | (_, p') => p'.Holds c ∧ ¬ Room alloc (c.bytes.length + val.length) := by
  unfold Parcel.writeAligned
  split_ifs with hroom
  · exact h.put hroom
  · have hgrown := h.growData alloc (not_le.mp hroom)
    revert hgrown
    rcases p.growData alloc val.length with ⟨err, p'⟩
    intro hgrown
    cases err with
    | noError => exact hgrown.1.put hgrown.2
    | noMemory | badValue | notEnoughData => exact hgrown

/-- The bytes that are copied to where `writeInplace` points, and the padding behind them. -/
theorem Holds.writeInplace (h : p.Holds c) (alloc : ℕ → Bool) (n : ℕ) :
    match p.writeInplace alloc n with
    | (some a, p') => p'.mDataPos = a + padSize n ∧ p'.mDataPos ≤ p'.mDataCapacity ∧
        ∀ bytes : List UInt8, bytes.length = n →
          (p'.copy a bytes).Holds (c.write (Item.padded bytes))
    | (none, p') => p'.Holds c ∧ ¬ Room alloc (c.bytes.length + padSize n) := by
  have hput {p : Parcel} (h : p.Holds c) (hroom : p.mDataPos + padSize n ≤ p.mDataCapacity)
      (bytes : List UInt8) (hbytes : bytes.length = n) :
      ((p.pad n).copy p.mDataPos bytes).Holds (c.write (Item.padded bytes)) := by
    subst hbytes
    rw [copy_pad hroom]
    exact h.put (by rwa [length_padded])
  have hpad := le_padSize n
  unfold Parcel.writeInplace
  split_ifs with hlarge hroom
  · exact ⟨h, fun hroom => absurd hroom.1 (by omega)⟩
  · exact ⟨rfl, hroom, hput h hroom⟩
  · have hgrown := h.growData alloc (not_le.mp hroom)
    revert hgrown
    rcases p.growData alloc (padSize n) with ⟨err, p'⟩
    intro hgrown
    cases err with
    | noError => exact ⟨rfl, hgrown.2, hput hgrown.1 hgrown.2⟩
    | noMemory | badValue | notEnoughData => exact hgrown

/-! ### Items in a parcel -/

/-- Of an item that does not fit, nothing is written, or the length of a string. -/
def Written (alloc : ℕ → Bool) (c : Contents) (enc : List UInt8) (p : Parcel) : Prop :=
  ∃ part, part <+: enc ∧ p.Holds (c.write part) ∧
    (Room alloc (c.bytes.length + enc.length) → part = enc)

theorem Holds.written (h : p.Holds (c.write enc)) : Written alloc c enc p :=
  ⟨enc, List.prefix_rfl, h, fun _ => rfl⟩

theorem Holds.unwritten (h : p.Holds c) (hroom : ¬ Room alloc (c.bytes.length + enc.length)) :
    Written alloc c enc p :=
  ⟨[], List.nil_prefix, by rwa [Contents.write_nil], fun hthere => absurd hthere hroom⟩

theorem Holds.aligned (h : p.Holds c) (alloc : ℕ → Bool) (val : List UInt8) :
    Written alloc c val (p.writeAligned alloc val).2 := by
  have hwrite := h.writeAligned alloc val
  revert hwrite
  rcases p.writeAligned alloc val with ⟨err, p'⟩
  intro hwrite
  cases err with
  | noError => exact Holds.written hwrite
  | noMemory | badValue | notEnoughData => exact hwrite.1.unwritten hwrite.2

theorem Holds.write (h : p.Holds c) (alloc : ℕ → Bool) (data : List UInt8) :
    Written alloc c (Item.padded data) (p.write alloc data).2 := by
  have hpad := le_padSize data.length
  unfold Parcel.write
  split_ifs with hlarge
  · refine h.unwritten fun hroom => absurd hroom.1 ?_
    rw [length_padded]
    omega
  · have hplace := h.writeInplace alloc data.length
    revert hplace
    rcases p.writeInplace alloc data.length with ⟨_ | a, p'⟩
    · intro hplace
      exact hplace.1.unwritten (by rw [length_padded]; exact hplace.2)
    · exact fun hplace => Holds.written (hplace.2.2 data rfl)

theorem Holds.writeString16 (h : p.Holds c) (alloc : ℕ → Bool) (str : Option (List UInt16)) :
    Written alloc c (Item.string16 str).encode (p.writeString16 alloc str).2 := by
  cases str with
  | none => exact h.aligned alloc _
  | some str =>
    have hlen : (unitBytes str ++ [0, 0]).length = 2 * str.length + 2 := by
      rw [List.length_append, length_unitBytes]
      rfl
    have hwrite := h.writeAligned alloc (leBytes 4 (Int32.ofNat str.length).toUInt32.toNat)
    unfold Parcel.writeString16 writeInt32
    dsimp only
    revert hwrite
    rcases p.writeAligned alloc _ with ⟨err, p'⟩
    intro hwrite
    have hfailed (hholds : p'.Holds c ∧ ¬ Room alloc (c.bytes.length +
        (leBytes 4 (Int32.ofNat str.length).toUInt32.toNat).length)) :
        Written alloc c (Item.string16 (some str)).encode p' :=
      hholds.1.unwritten fun hroom => hholds.2 (hroom.mono (by simp [Item.encode]))
    cases err with
    | noMemory | badValue | notEnoughData => exact hfailed hwrite
    | noError =>
      have hplace := Holds.writeInplace hwrite alloc (2 * str.length + 2)
      dsimp only
      revert hplace
      rcases p'.writeInplace alloc _ with ⟨_ | a, p''⟩
      · intro hplace
        refine ⟨leBytes 4 (Int32.ofNat str.length).toUInt32.toNat, List.prefix_append _ _, hplace.1,
          fun hroom => absurd (hroom.mono ?_) hplace.2⟩
        rw [Contents.length_write, Item.encode, List.length_append, length_padded, hlen]
        have hpos := c.pos_le
        omega
      · rintro ⟨hpos, hcapacity, hcopy⟩
        have hpad := le_padSize (2 * str.length + 2)
        have hend : a + 2 * str.length = a + (unitBytes str).length := by rw [length_unitBytes]
        dsimp only
        rw [hend, copy_copy (by rw [length_unitBytes, List.length_cons, List.length_singleton]; omega)]
        refine Holds.written ?_
        rw [Item.encode, Contents.write_append]
        exact hcopy _ hlen

theorem Holds.writeItem (h : p.Holds c) (alloc : ℕ → Bool) (item : Item) :
    Written alloc c item.encode (p.writeItem alloc item).2 := by
  cases item with
  | int32 val => exact h.aligned alloc _
  | uint64 val => exact h.aligned alloc _
  | string16 str => exact h.writeString16 alloc str
  | data bytes => exact h.write alloc bytes

/-! ### Reading items -/

theorem Holds.moveTo {pos : ℕ} (h : p.Holds c) (hpos : pos ≤ c.bytes.length) :
    { p with mDataPos := pos }.Holds (c.moveTo pos hpos) where
  defined := h.defined
  size := h.size
  bytes := h.bytes
  pos := rfl
  capacity := h.capacity
  small := h.small
  fresh := h.fresh

/-- What a reader has still in front of it. -/
def Ahead (p : Parcel) (s : List UInt8) : Prop := ∃ c, p.Holds c ∧ c.bytes.drop c.pos = s

theorem Ahead.skip (h : p.Ahead (s ++ t)) :
    p.mDataPos + s.length ≤ p.mDataSize ∧
      { p with mDataPos := p.mDataPos + s.length }.Ahead t ∧
        ∀ r u, s = r ++ u → p.bytesAt p.mDataPos r.length = r := by
  obtain ⟨c, hholds, hdrop⟩ := h
  have hlength := congrArg List.length hdrop
  rw [List.length_drop, List.length_append] at hlength
  have hpos := c.pos_le
  have hle : c.pos + s.length ≤ c.bytes.length := by omega
  refine ⟨by rw [hholds.pos, hholds.size]; exact hle, ⟨c.moveTo _ hle, ?_, ?_⟩, ?_⟩
  · rw [hholds.pos]
    exact hholds.moveTo hle
  · rw [Contents.moveTo, ← List.drop_drop, hdrop, List.drop_left]
  · rintro r u rfl
    have hbytes : c.bytes = c.bytes.take c.pos ++ r ++ (u ++ t) := by
      rw [List.append_assoc, ← List.append_assoc r, ← hdrop, List.take_append_drop]
    have hthere := hholds.bytes
    rw [hbytes] at hthere
    have hfetch := hthere.part.fetch
    rw [Nat.zero_add, List.length_take_of_le hpos] at hfetch
    rw [bytesAt, hholds.pos, hfetch, List.map_map]
    exact List.map_id r

theorem Ahead.readAligned (h : p.Ahead (s ++ t)) :
    p.readAligned s.length =
      some (value s.reverse, { p with mDataPos := p.mDataPos + s.length }) := by
  obtain ⟨hle, -, hbytes⟩ := h.skip
  rw [Parcel.readAligned, if_pos hle, hbytes s [] (by simp)]

theorem Ahead.small (h : p.Ahead s) : s.length ≤ int32Max := by
  obtain ⟨c, hholds, rfl⟩ := h
  have hsize := hholds.size
  have hcapacity := hholds.capacity
  have hsmall := hholds.small
  rw [List.length_drop]
  omega

theorem Ahead.readInt32 {val : Int32} (h : p.Ahead (leBytes 4 val.toUInt32.toNat ++ t)) :
    p.readInt32 = some (val, { p with mDataPos := p.mDataPos + 4 }) := by
  have hread := h.readAligned
  rw [length_leBytes, leBytes, List.reverse_reverse, value_beBytes_of_lt val.toUInt32.toNat_lt] at hread
  rw [Parcel.readInt32, hread, Option.map_some, UInt32.ofNat_toNat]

theorem Ahead.readUint64 {val : UInt64} (h : p.Ahead (leBytes 8 val.toNat ++ t)) :
    p.readUint64 = some (val, { p with mDataPos := p.mDataPos + 8 }) := by
  have hread := h.readAligned
  rw [length_leBytes, leBytes, List.reverse_reverse, value_beBytes_of_lt val.toNat_lt] at hread
  rw [Parcel.readUint64, hread, Option.map_some, UInt64.ofNat_toNat]

theorem Ahead.readInplace (h : p.Ahead (Item.padded bytes ++ t)) :
    p.readInplace bytes.length =
      some (p.mDataPos, { p with mDataPos := p.mDataPos + (Item.padded bytes).length }) := by
  obtain ⟨hle, -, -⟩ := h.skip
  have hsmall := h.small
  have hpad := le_padSize bytes.length
  rw [length_padded] at hle ⊢
  rw [List.length_append, length_padded] at hsmall
  rw [Parcel.readInplace, if_neg (by omega), if_pos hle]

/-- A string that was written is handed out whole. -/
theorem Ahead.readString16Inplace {str : List UInt16}
    (h : p.Ahead ((Item.string16 (some str)).encode ++ t)) :
    ∃ a p', p.readString16Inplace = (some (a, str.length), p') ∧ p'.Ahead t ∧
      p'.bytesAt a (2 * str.length) = unitBytes str := by
  have hsmall := h.small
  rw [Item.encode, List.append_assoc] at h hsmall
  have hlen : (unitBytes str ++ [0, 0]).length = 2 * (str.length + 1) := by
    rw [List.length_append, length_unitBytes, List.length_cons, List.length_singleton]
    omega
  have hpad := le_padSize (2 * (str.length + 1))
  simp only [List.length_append, length_padded, length_leBytes] at hsmall
  rw [← List.length_append, hlen] at hsmall
  have hmax : int32Max = 2 ^ 31 - 1 := rfl
  have hsize : (Int32.ofNat str.length).toInt = str.length :=
    Int32.toInt_ofNat_of_lt (by omega)
  have hnext := h.skip.2.1
  rw [length_leBytes] at hnext
  have hplace := hnext.readInplace
  rw [hlen] at hplace
  obtain ⟨-, hrest, hbytes⟩ := hnext.skip
  have hunits := hbytes (unitBytes str) _ (List.append_assoc _ _ _)
  rw [length_unitBytes] at hunits
  refine ⟨_, _, ?_, hrest, hunits⟩
  rw [Parcel.readString16Inplace, readInt32D, h.readInt32, Option.getD_some]
  dsimp only
  rw [hsize, if_pos ⟨by omega, by omega⟩, Int.toNat_natCast, hplace]

theorem Ahead.readItem {item : Item} (h : p.Ahead (item.encode ++ t)) :
    ∃ p', p.readItem item.kind = (some item, p') ∧ p'.Ahead t := by
  have hrest := h.skip.2.1
  cases item with
  | int32 val =>
    refine ⟨_, ?_, hrest⟩
    simp only [Parcel.readItem, Item.kind, Ahead.readInt32 h]
    rfl
  | uint64 val =>
    refine ⟨_, ?_, hrest⟩
    simp only [Parcel.readItem, Item.kind, Ahead.readUint64 h]
    rfl
  | data bytes =>
    refine ⟨_, ?_, hrest⟩
    have hbytes := h.skip.2.2 bytes _ rfl
    simp only [Parcel.readItem, Item.kind, Parcel.read, Ahead.readInplace h, Option.map_some]
    rw [bytesAt] at hbytes ⊢
    simp only [hbytes]
    rfl
  | string16 str =>
    cases str with
    | none =>
      refine ⟨_, ?_, hrest⟩
      have hnegative : ¬ (0 ≤ (-1 : Int32).toInt ∧ (-1 : Int32).toInt < int32Max) := by decide
      simp only [Parcel.readItem, Item.kind, Parcel.readString16Inplace, readInt32D,
        Ahead.readInt32 h, Option.getD_some, if_neg hnegative]
      rfl
    | some str =>
      obtain ⟨a, p', hread, hahead, hunits⟩ := h.readString16Inplace
      refine ⟨p', ?_, hahead⟩
      simp only [Parcel.readItem, Item.kind, hread]
      rw [hunits, units_unitBytes]

theorem Ahead.readItems {items : List Item} (h : p.Ahead (items.flatMap Item.encode)) :
    p.readItems (items.map Item.kind) = items.map some := by
  induction items generalizing p with
  | nil => rfl
  | cons item items ih =>
    obtain ⟨p', hread, hrest⟩ := Ahead.readItem h
    rw [List.map_cons, List.map_cons, Parcel.readItems, hread, ih hrest]

/-! ### Whole parcels -/

def writeItems (alloc : ℕ → Bool) (p : Parcel) (items : List Item) : Parcel :=
  items.foldl (fun p item => (p.writeItem alloc item).2) p

theorem Holds.writeItems {items : List Item} (h : p.Holds c) (hend : c.pos = c.bytes.length)
    (hroom : Room alloc (c.bytes ++ items.flatMap Item.encode).length) :
    ∃ c', (p.writeItems alloc items).Holds c' ∧ c'.bytes = c.bytes ++ items.flatMap Item.encode ∧
      c'.pos = c'.bytes.length := by
  induction items generalizing p c with
  | nil => exact ⟨c, h, (List.append_nil _).symm, hend⟩
  | cons item items ih =>
    rw [List.flatMap_cons, ← List.append_assoc] at hroom
    obtain ⟨part, -, hholds, hall⟩ := h.writeItem alloc item
    obtain rfl := hall (hroom.mono (by simp only [List.length_append]; omega))
    have hbytes := Contents.write_at_end hend item.encode
    have hpos : (c.write item.encode).pos = (c.write item.encode).bytes.length := by
      rw [hbytes, List.length_append, Contents.write_pos, hend]
    rw [← hbytes] at hroom
    obtain ⟨c', hholds', hbytes', hpos'⟩ := ih hholds hpos hroom
    refine ⟨c', hholds', ?_, hpos'⟩
    rw [hbytes', hbytes, List.flatMap_cons, List.append_assoc]

/-- What `data()` and `dataSize()` give. -/
theorem Holds.contents (h : p.Holds c) : p.bytesAt 0 p.dataSize = c.bytes := by
  have hsize : p.dataSize = c.bytes.length := by
    rw [dataSize, max_eq_left h.pos_le, h.size]
  rw [hsize, bytesAt, h.bytes.fetch, List.map_map]
  exact List.map_id _

theorem Holds.fill {buffer : List UInt8} (h : p.Holds ⟨[], 0, le_rfl⟩)
    (hroom : buffer.length ≤ p.mDataCapacity) :
    { p.copy 0 buffer with mDataSize := buffer.length }.Holds ⟨buffer, 0, Nat.zero_le _⟩ where
  defined := by simp [copy, h.defined, hroom]
  size := rfl
  bytes := by
    have hput := h.bytes.put (t := buffer) (a := 0) (Nat.zero_le _)
    simpa [Cells.overwrite, copy] using hput
  pos := h.pos
  capacity := hroom
  small := h.small
  fresh := h.fresh

theorem Holds.setData (h : p.Holds c) (alloc : ℕ → Bool) (buffer : List UInt8)
    (hkeep : p.hasData = true → buffer ≠ []) :
    ∃ c', (p.setData alloc buffer).2.Holds c' ∧
      (buffer.length ≤ int32Max → alloc buffer.length = true →
        c' = ⟨buffer, 0, Nat.zero_le _⟩) := by
  unfold Parcel.setData Parcel.restartWrite
  split_ifs with hlarge hreleased halloc hgrow
  · exact ⟨c, h, fun hsmall => absurd hsmall (not_le.mpr hlarge)⟩
  · exact absurd (List.length_eq_zero_iff.mp hreleased.2) (hkeep hreleased.1)
  · refine ⟨_, Holds.fill ⟨h.defined, rfl, fun _ hi => absurd hi (Nat.not_lt_zero _), rfl,
      Nat.zero_le _, not_lt.mp hlarge, fun hno => absurd hno (by simp)⟩ le_rfl, fun _ _ => rfl⟩
  · exact ⟨c, ⟨h.defined, h.size, h.bytes, h.pos, h.capacity, h.small, h.fresh⟩,
      fun _ hserved => absurd hserved halloc⟩
  · refine ⟨_, Holds.fill ⟨h.defined, rfl, fun _ hi => absurd hi (Nat.not_lt_zero _), rfl,
      Nat.zero_le _, h.small, h.fresh⟩ (not_lt.mp hgrow), fun _ _ => rfl⟩

/-- What was written into a parcel is read from one that is made of its bytes. -/
theorem parcel_round_trip (alloc : ℕ → Bool) (items : List Item)
    (hroom : Room alloc (items.flatMap Item.encode).length) :
    ((new.setData alloc ((new.writeItems alloc items).bytesAt 0
      (new.writeItems alloc items).dataSize)).2).readItems (items.map Item.kind) = items.map some := by
  obtain ⟨c, hholds, hbytes, -⟩ := holds_new.writeItems rfl hroom
  have hsmall : c.bytes.length * 3 / 2 ≤ int32Max := by
    rw [hbytes]
    exact hroom.1
  have halloc : alloc c.bytes.length = true := hroom.2 _ (by rw [hbytes, List.nil_append]; omega)
  rw [hholds.contents]
  obtain ⟨c', hread, hsame⟩ := holds_new.setData alloc c.bytes fun hdata => absurd hdata (by decide)
  obtain rfl := hsame (by omega) halloc
  exact Ahead.readItems ⟨_, hread, by rw [List.drop_zero, hbytes]; rfl⟩

/-- A token, a name, no name and three bytes. -/
def someItems : List Item :=
  [.int32 (-2), .string16 (some [0x61, 0x2014]), .string16 none, .data [1, 2, 3]]

theorem parcel_round_trip_some :
    ((new.setData (fun _ => true) ((new.writeItems (fun _ => true) someItems).bytesAt 0
      (new.writeItems (fun _ => true) someItems).dataSize)).2).readItems
        [.int32, .string16, .string16, .data 3] = someItems.map some :=
  parcel_round_trip (fun _ => true) someItems ⟨by decide, fun _ _ => rfl⟩

/-! ### Any use of a parcel -/

/-- Nothing was written outside the buffer, and every byte that goes out was written. -/
structure Sound (p : Parcel) : Prop where
  defined : p.undefined = false
  pos_le : p.mDataPos ≤ p.mDataSize
  capacity : p.dataSize ≤ p.mDataCapacity
  written : ∀ i < p.dataSize, (p.mData i).isSome

theorem Holds.sound (h : p.Holds c) : p.Sound := by
  have hsize : p.dataSize = p.mDataSize := max_eq_left h.pos_le
  refine ⟨h.defined, h.pos_le, hsize.trans_le h.capacity, fun i hi => ?_⟩
  rw [hsize, h.size] at hi
  have hthere := h.bytes i hi
  rw [Nat.zero_add, List.getElem?_eq_getElem hi] at hthere
  rw [hthere]
  rfl

theorem Holds.readAligned (h : p.Holds c) (n : ℕ) {r : ℕ × Parcel}
    (hread : p.readAligned n = some r) : ∃ c', r.2.Holds c' := by
  unfold Parcel.readAligned at hread
  split_ifs at hread with hle
  cases hread
  exact ⟨_, h.moveTo (hle.trans_eq h.size)⟩

theorem Holds.readInplace (h : p.Holds c) (n : ℕ) {r : ℕ × Parcel}
    (hread : p.readInplace n = some r) : ∃ c', r.2.Holds c' := by
  unfold Parcel.readInplace at hread
  split_ifs at hread with hlarge hle
  cases hread
  exact ⟨_, h.moveTo (hle.trans_eq h.size)⟩

theorem Holds.readInt32D (h : p.Holds c) : ∃ c', p.readInt32D.2.Holds c' := by
  unfold Parcel.readInt32D Parcel.readInt32
  cases hread : p.readAligned 4 with
  | none => exact ⟨c, h⟩
  | some r => exact h.readAligned 4 hread

theorem Holds.readString16Inplace (h : p.Holds c) : ∃ c', p.readString16Inplace.2.Holds c' := by
  obtain ⟨c', hsize⟩ := h.readInt32D
  unfold Parcel.readString16Inplace
  revert hsize
  rcases p.readInt32D with ⟨size, p'⟩
  intro hsize
  dsimp only at hsize ⊢
  split_ifs with hvalid
  · cases hread : p'.readInplace (2 * (size.toInt.toNat + 1)) with
    | none => exact ⟨c', hsize⟩
    | some r => exact hsize.readInplace _ hread
  · exact ⟨c', hsize⟩

theorem Holds.readItem (h : p.Holds c) (kind : Kind) : ∃ c', (p.readItem kind).2.Holds c' := by
  cases kind with
  | int32 =>
    simp only [Parcel.readItem, Parcel.readInt32]
    cases hread : p.readAligned 4 with
    | none => exact ⟨c, h⟩
    | some r => exact h.readAligned 4 hread
  | uint64 =>
    simp only [Parcel.readItem, Parcel.readUint64]
    cases hread : p.readAligned 8 with
    | none => exact ⟨c, h⟩
    | some r => exact h.readAligned 8 hread
  | data len =>
    simp only [Parcel.readItem, Parcel.read]
    cases hread : p.readInplace len with
    | none => exact ⟨c, h⟩
    | some r => exact h.readInplace len hread
  | string16 =>
    have hread := h.readString16Inplace
    simp only [Parcel.readItem]
    revert hread
    rcases p.readString16Inplace with ⟨_ | _, p'⟩ <;> exact id

/-- A call of the program that uses the parcel. -/
inductive ParcelOp where
  | write (item : Item)
  | read (kind : Kind)
  | setDataPosition (pos : ℕ)
  | setDataSize (size : ℕ)
  | setDataCapacity (size : ℕ)
  | setData (buffer : List UInt8)

def step (alloc : ℕ → Bool) (p : Parcel) : ParcelOp → Parcel
  | .write item => (p.writeItem alloc item).2
  | .read kind => (p.readItem kind).2
  | .setDataPosition pos => (p.setDataPosition pos).getD p
  | .setDataSize size => (p.setDataSize alloc size).2
  | .setDataCapacity size => (p.setDataCapacity alloc size).2
  | .setData buffer => (p.setData alloc buffer).2

/-- Positions and sizes are set inside the data, and a parcel with a buffer is not given an empty
one. -/
def Allowed (p : Parcel) : ParcelOp → Prop
  | .write _ | .read _ | .setDataCapacity _ => True
  | .setDataPosition pos => pos ≤ p.mDataSize
  | .setDataSize size => size ≤ p.mDataSize
  | .setData buffer => p.hasData = true → buffer ≠ []

instance (p : Parcel) : (op : ParcelOp) → Decidable (p.Allowed op)
  | .write _ | .read _ | .setDataCapacity _ => isTrue trivial
  | .setDataPosition pos => inferInstanceAs (Decidable (pos ≤ p.mDataSize))
  | .setDataSize size => inferInstanceAs (Decidable (size ≤ p.mDataSize))
  | .setData buffer => inferInstanceAs (Decidable (p.hasData = true → buffer ≠ []))

theorem Holds.cut {size : ℕ} (h : p.Holds c) (hsize : size ≤ p.mDataSize) :
    { p with mDataSize := size, mDataPos := min p.mDataPos size }.Holds
      ⟨c.bytes.take size, min c.pos size,
        le_min (min_le_right _ _) ((min_le_left _ _).trans c.pos_le) |>.trans_eq
          List.length_take.symm⟩ where
  defined := h.defined
  size := by
    rw [List.length_take, min_eq_left (hsize.trans_eq h.size)]
  bytes := fun i hi => by
    rw [List.length_take] at hi
    rw [h.bytes i (lt_min_iff.mp hi).2, List.getElem?_take_of_lt (lt_min_iff.mp hi).1]
  pos := by rw [h.pos]
  capacity := hsize.trans h.capacity
  small := h.small
  fresh := h.fresh

theorem Holds.setDataSize {size : ℕ} (h : p.Holds c) (alloc : ℕ → Bool)
    (hsize : size ≤ p.mDataSize) :
    ∃ c', (p.setDataSize alloc size).2.Holds c' := by
  have hcapacity := h.capacity
  have hfull : ¬ p.mDataCapacity < size := by omega
  cases hdata : p.hasData with
  | true =>
    unfold Parcel.setDataSize Parcel.continueWrite
    rw [if_pos hdata, if_neg hfull]
    split_ifs with hlarge
    · exact ⟨c, h⟩
    · exact ⟨_, h.cut hsize⟩
  | false =>
    -- nothing is in it
    have hempty := h.fresh hdata
    have hzero : size = 0 := by omega
    have hnil : p.mDataSize = 0 := by omega
    obtain ⟨hholds, -⟩ := h.continueWrite alloc (hnil.trans_le (Nat.zero_le size))
    unfold Parcel.setDataSize
    split_ifs with hlarge
    · exact ⟨c, h⟩
    · revert hholds
      rcases p.continueWrite alloc size with ⟨err, p'⟩
      intro hholds
      have hsame : { p' with mDataSize := size } = p' := by
        rw [hzero, ← hnil, h.size, ← hholds.size]
      refine ⟨c, ?_⟩
      cases err with
      | noError => exact hsame ▸ hholds
      | noMemory | badValue | notEnoughData => exact hholds

theorem Holds.setDataCapacity (h : p.Holds c) (alloc : ℕ → Bool) (size : ℕ) :
    (p.setDataCapacity alloc size).2.Holds c := by
  unfold Parcel.setDataCapacity
  split_ifs with hlarge hgrow
  · exact h
  · exact (h.continueWrite alloc (h.capacity.trans hgrow.le)).1
  · exact h

theorem Holds.setDataPosition {pos : ℕ} (h : p.Holds c) (hpos : pos ≤ p.mDataSize) :
    ∃ c', ((p.setDataPosition pos).getD p).Holds c' := by
  unfold Parcel.setDataPosition
  split_ifs with hlarge
  · exact ⟨c, h⟩
  · exact ⟨_, h.moveTo (hpos.trans_eq h.size)⟩

theorem Holds.step {op : ParcelOp} (h : p.Holds c) (alloc : ℕ → Bool) (hallowed : p.Allowed op) :
    ∃ c', (p.step alloc op).Holds c' := by
  cases op with
  | write item =>
    obtain ⟨part, -, hholds, -⟩ := h.writeItem alloc item
    exact ⟨_, hholds⟩
  | read kind => exact h.readItem kind
  | setDataPosition pos => exact h.setDataPosition hallowed
  | setDataSize size => exact h.setDataSize alloc hallowed
  | setDataCapacity size => exact ⟨c, h.setDataCapacity alloc size⟩
  | setData buffer =>
    obtain ⟨c', hholds, -⟩ := h.setData alloc buffer hallowed
    exact ⟨c', hholds⟩

/-- A string, and a number over its length. -/
def rewound : List ParcelOp :=
  [.write (.string16 (some [0x61])), .setDataPosition 0, .write (.int32 7), .read .int32]

-- a position behind the data: the buffer that is grown ends before it
example : (final (step fun _ => true) new
    [.write (.int32 1), .setDataPosition 100, .write (.int32 2)]).undefined = true := by decide

end Parcel

end Tulux.Libril
