import Tulux.Lib.BitString

/-! The bit buffers of `asnbuf.h`. A pointer is an address in the memory of its buffer; 32-bit
words are natural numbers below `2 ^ 32`. Allocation succeeds. -/
namespace Tulux.QCoder

/-- `abuf_t`, with the memory block it points into. -/
structure Abuf where
  mem : ℕ → UInt8
  head : ℕ
  size : ℕ
  headHeadspaceBits : ℕ
  tailBitsLeft : ℕ
  data : ℕ
  tail : ℕ
  endp : ℕ

namespace Abuf

def setByte (bp : Abuf) (a : ℕ) (b : UInt8) : Abuf :=
  { bp with mem := Function.update bp.mem a b }

/-- `memcpy` of `n` bytes from another buffer. -/
def copyBytes (bp : Abuf) (dst : ℕ) (src : ℕ → UInt8) (a n : ℕ) : Abuf :=
  { bp with mem := fun i => if dst ≤ i ∧ i < dst + n then src (a + (i - dst)) else bp.mem i }

end Abuf

/-- The mask of the `n` low bits. -/
def lowMask (n : ℕ) : ℕ := 1 <<< n - 1

/-! ### Buffers -/

/-- `calloc` returns the address `head`. -/
def abufAlloc (head size headroom : ℕ) : Abuf where
  mem := fun _ => 0
  head := head
  size := size
  headHeadspaceBits := 0
  tailBitsLeft := 8
  data := head + headroom
  tail := head + headroom
  endp := head + size

def abufPurge (bp : Abuf) (headroom : ℕ) : Abuf :=
  if headroom < bp.size then
    { bp with
      mem := fun a => if bp.head ≤ a ∧ a < bp.head + bp.size then 0 else bp.mem a
      data := bp.head + headroom
      tail := bp.head + headroom
      tailBitsLeft := 8
      headHeadspaceBits := 0 }
  else bp

def abufReset (bp : Abuf) (headroom : ℕ) : Abuf :=
  { bp with
    data := bp.head + headroom
    tail := bp.head + headroom
    tailBitsLeft := 8
    headHeadspaceBits := 0
    endp := bp.head + bp.size }

def abufIsaligned (bp : Abuf) : Bool := bp.headHeadspaceBits = 0 ∨ bp.headHeadspaceBits = 8

def abufTrim (bp : Abuf) : Abuf :=
  let bp := if bp.headHeadspaceBits = 8 then
      { bp with data := bp.data + 1, headHeadspaceBits := 0 }
    else bp
  if bp.tailBitsLeft = 8 then { bp with tail := bp.tail - 1, tailBitsLeft := 0 } else bp

def abufBitsLen (bp : Abuf) : ℤ :=
  ((bp.tail : ℤ) - bp.data + 1) * 8 - bp.headHeadspaceBits - bp.tailBitsLeft

def abufByteLen (bp : Abuf) : ℤ := bp.tail - bp.data + if bp.tailBitsLeft ≠ 8 then 1 else 0

def abufTailroom (bp : Abuf) : ℤ := bp.endp - bp.tail

def abufHeadroomBits (bp : Abuf) : ℤ := ((bp.data : ℤ) - bp.head) * 8 + bp.headHeadspaceBits

/-- The number of bytes needed for `bitlen` more bits, or -1 when they do not fit. -/
def abufCheckPutTailroom (bp : Abuf) (bitlen : ℕ) : ℤ :=
  if 0 < bitlen then
    if bp.tailBitsLeft < bitlen then
      let tailroomB : ℤ := ((bitlen - bp.tailBitsLeft + 7) / 8 : ℕ)
      if abufTailroom bp < tailroomB then -1 else tailroomB
    else 0
  else 1

def abufTailReady (bp : Abuf) : Abuf :=
  if bp.tailBitsLeft < 1 ∧ abufTailroom bp ≠ 0 then
    { bp with tail := bp.tail + 1, tailBitsLeft := 8 }
  else bp

/-- Returns the old tail, or nothing when there is no room. -/
def abufPut (bp : Abuf) (bytes : ℕ) : Option ℕ × Abuf :=
  if bp.endp < bp.tail + bytes then (none, bp)
  else (some bp.tail, { bp with tail := bp.tail + bytes })

/-- `abuf_put` of an `int`. -/
def abufPutInt (bp : Abuf) (bytes : ℤ) : Option ℕ × Abuf :=
  if bp.endp < bp.tail + bytes then (none, bp)
  else (some bp.tail, { bp with tail := (bp.tail + bytes).toNat })

theorem abufPutInt_natCast (bp : Abuf) (bytes : ℕ) : abufPutInt bp bytes = abufPut bp bytes := by
  unfold abufPutInt abufPut
  split_ifs with hlt hlt' <;> first | omega | rfl

/-- Returns the old data pointer, or nothing when it is now past the tail. -/
def abufPull (bp : Abuf) (bytes : ℕ) : Option ℕ × Abuf :=
  (if bp.tail < bp.data + bytes then none else some bp.data,
    { bp with data := bp.data + bytes })

/-! ### Appending -/

/-- The loop of `asn_ncat_bits` over whole bytes. -/
def ncatBytes (bp : Abuf) (data bitsToAdd : ℕ) : Abuf × ℕ :=
  if 8 ≤ bitsToAdd then
    let byte := (data &&& (0xff <<< (bitsToAdd - 8))) >>> (bitsToAdd - 8)
    ncatBytes { bp.setByte bp.tail (UInt8.ofNat byte) with tail := bp.tail + 1 } data
      (bitsToAdd - 8)
  else (bp, bitsToAdd)
termination_by bitsToAdd

/-- `asn_ncat_bits` behind the first byte. -/
def ncatMore (bp : Abuf) (data bitsToAdd : ℕ) : ℤ × Abuf :=
  if 0 ≤ abufCheckPutTailroom bp bitsToAdd then
    let (bp, bitsToAdd) := ncatBytes (abufTailReady bp) data bitsToAdd
    let bp := if bitsToAdd ≠ 0 then
        let bits := UInt8.ofNat ((data &&& lowMask bitsToAdd) <<< (8 - bitsToAdd))
        { bp.setByte bp.tail bits with tailBitsLeft := bp.tailBitsLeft - bitsToAdd }
      else bp
    (0, abufTailReady bp)
  else (-1, abufTailReady bp)

def asnNcatBits (bp : Abuf) (data bitlen : ℕ) : ℤ × Abuf :=
  let left := bp.tailBitsLeft
  if bitlen = 0 then (-1, bp)
  else if bitlen ≤ left then
    if bitlen = 8 ∧ left = 8 then
      (0, { bp.setByte bp.tail (UInt8.ofNat data) with tail := bp.tail + 1 })
    else
      let bits := UInt8.ofNat ((data &&& lowMask bitlen) <<< (left - bitlen))
      (0, abufTailReady { bp.setByte bp.tail (bp.mem bp.tail ||| bits) with
        tailBitsLeft := left - bitlen })
  else
    let bits := UInt8.ofNat ((data &&& (lowMask left <<< (bitlen - left))) >>> (bitlen - left))
    ncatMore { bp.setByte bp.tail (bp.mem bp.tail ||| bits) with tailBitsLeft := 0 } data
      (bitlen - left)

/-- `asn_ncat_bits` where the caller ignores the result. -/
def ncat (data bitlen : ℕ) (bp : Abuf) : Abuf := (asnNcatBits bp data bitlen).2

/-- A word in network order. -/
def ntohl (mem : ℕ → UInt8) (a : ℕ) : ℕ :=
  (mem a).toNat <<< 24 ||| (mem (a + 1)).toNat <<< 16 ||| (mem (a + 2)).toNat <<< 8 |||
    (mem (a + 3)).toNat

def ntohs (mem : ℕ → UInt8) (a : ℕ) : ℕ := (mem a).toNat <<< 8 ||| (mem (a + 1)).toNat

/-- The loop of `asn_ncat` over the words of the source. -/
def ncatWords (bp : Abuf) (src : ℕ → UInt8) (a remaining : ℕ) : Abuf :=
  if 32 ≤ remaining then ncatWords (ncat (ntohl src a) 4 bp) src (a + 4) (remaining - 4)
  else if remaining ≠ 0 then ncat (ntohl src a) remaining bp
  else bp
termination_by remaining

def asnNcat (bp : Abuf) (src : ℕ → UInt8) (a bytes : ℕ) : ℤ × Abuf :=
  if bytes = 0 then (0, bp)
  else
    let bp := abufTailReady bp
    if bp.tailBitsLeft = 8 then
      match abufPut bp bytes with
      | (some dst, bp) => (0, bp.copyBytes dst src a bytes)
      | (none, bp) => (-1, bp)
    else (0, ncatWords bp src a (bytes * 8))

def abufReserveHeadspace (bp : Abuf) (reservedBits : ℕ) : Abuf :=
  { ncat 0 reservedBits bp with headHeadspaceBits := reservedBits }

/-- The length is cut to 8 bits before it is used. -/
def abufPadToEvenOctet (bp : Abuf) : Abuf :=
  let bitLen := (abufBitsLen bp % 256).toNat
  if 0 < bitLen ∧ bitLen % 8 ≠ 0 then ncat 0 (8 - bitLen % 8) bp else bp

/-! ### Pushing -/

/-- The loop of `asn_push_bits` over whole bytes. -/
def pushBytes (bp : Abuf) (data bitsToAdd : ℕ) : Abuf × ℕ × ℕ :=
  if 8 ≤ bitsToAdd then
    pushBytes { bp.setByte bp.data (UInt8.ofNat (data &&& 0xff)) with
      data := bp.data - 1, headHeadspaceBits := 8 } (data >>> 8) (bitsToAdd - 8)
  else (bp, data, bitsToAdd)
termination_by bitsToAdd

/-- `asn_push_bits` in the first byte. -/
def pushFirst (bp : Abuf) (data qty : ℕ) : Abuf :=
  let space := bp.headHeadspaceBits
  let cleared := bp.mem bp.data &&& ~~~UInt8.ofNat (lowMask qty <<< (8 - space))
  let bits := UInt8.ofNat ((data &&& lowMask qty) <<< (8 - space))
  let bp : Abuf := { bp.setByte bp.data (cleared ||| bits) with headHeadspaceBits := space - qty }
  if bp.headHeadspaceBits < 1 then { bp with data := bp.data - 1, headHeadspaceBits := 8 } else bp

/-- `asn_push_bits` in front of the first byte. -/
def pushMore (bp : Abuf) (data bitsToAdd : ℕ) : Abuf :=
  let (bp, data, rest) := pushBytes bp data bitsToAdd
  let bp := if rest ≠ 0 then
      { bp.setByte bp.data (UInt8.ofNat (data &&& lowMask rest)) with
        headHeadspaceBits := 8 - rest }
    else bp
  if bp.headHeadspaceBits = 8 then { bp with data := bp.data + 1, headHeadspaceBits := 0 } else bp

def asnPushBits (bp : Abuf) (data bitsToAdd : ℕ) : ℤ × Abuf :=
  if bitsToAdd ≠ 0 ∧ (bitsToAdd : ℤ) ≤ abufHeadroomBits bp then
    let space := bp.headHeadspaceBits
    let qty := if bitsToAdd < space then bitsToAdd else space
    (bitsToAdd, pushMore (pushFirst bp data qty) (data >>> qty) (bitsToAdd - qty))
  else (-1, bp)

/-- `asn_push_bits` where the caller ignores the result. -/
def push (data bitsToAdd : ℕ) (bp : Abuf) : Abuf := (asnPushBits bp data bitsToAdd).2

/-- The first branch of both length encodings. -/
def pushLenByte (bp : Abuf) (len : ℕ) : ℤ × Abuf :=
  if bp.headHeadspaceBits = 8 then
    (8, { bp.setByte bp.data (UInt8.ofNat len) with headHeadspaceBits := 0 })
  else if bp.headHeadspaceBits = 0 then
    if bp.head < bp.data then
      (8, { bp.setByte (bp.data - 1) (UInt8.ofNat len) with data := bp.data - 1 })
    else (-1, bp)
  else asnPushBits bp len 8

/-- Two bytes: bit 15 set, bit 13 cleared. -/
def asnTwoBytes (len : ℕ) : ℕ := (len ||| 0x8000) &&& 0xDFFF

def asnPushEncodedLen (bp : Abuf) (len : ℤ) : ℤ × Abuf :=
  if 0 < len then
    if len < 0x80 then pushLenByte bp len.toNat
    else if len < 0x4000 then asnPushBits bp (asnTwoBytes len.toNat) 16
    else (-1, bp)
  else (0, bp)

def asnPushCerEncodedLen (bp : Abuf) (len : ℤ) : ℤ × Abuf :=
  if 0 < len then
    if len < 0x80 then pushLenByte bp len.toNat
    else
      let noctets :=
        if len < 0x100 then 1 else if len < 0x10000 then 2 else if len < 0x1000000 then 3
        else if len < 0x100000000 then 4 else 0
      if noctets = 0 then (0, bp)
      else (0, push 1 1 (push noctets 7 (push len.toNat (8 * noctets) bp)))
  else (0, bp)

def asnPutEncodedLen (bp : Abuf) (len : ℤ) : ℤ × Abuf :=
  if 0 < len then
    if len < 0x80 then (0, ncat len.toNat 8 bp)
    else if len < 0x4000 then
      -- the bytes are swapped before they are appended
      let two := asnTwoBytes len.toNat
      (0, ncat ((two &&& 0xff) <<< 8 ||| two >>> 8) 16 bp)
    else (1, bp)
  else (0, bp)

/-- The length in bytes, rounded up. -/
def bytesForBits (len : ℤ) : ℤ := len.tdiv 8 + if len.tmod 8 ≠ 0 then 1 else 0

def asnPushLen (bp : Abuf) : Abuf := (asnPushEncodedLen bp (bytesForBits (abufBitsLen bp))).2

def asnPushIeee16092Len (bp : Abuf) : Abuf :=
  (asnPushCerEncodedLen bp (bytesForBits (abufBitsLen bp))).2

/-! ### Merging -/

/-- Returns the length of the first buffer, or -1, and the first buffer. -/
def abufMerge (first addOn : Abuf) : ℤ × Abuf :=
  let len := abufByteLen addOn
  if addOn.headHeadspaceBits ≠ 0 ∨ first.tailBitsLeft ≠ 0 then
    let addOn := addOn.setByte addOn.data (addOn.mem addOn.data ||| first.mem first.tail)
    match abufPutInt first (len - 1) with
    | (some cp, first) =>
      let first := { first.copyBytes cp addOn.mem addOn.data len.toNat with
        tailBitsLeft := addOn.tailBitsLeft }
      (abufByteLen first, first)
    | (none, first) => (-1, first)
  else
    let (cp, first) := abufPutInt first len
    -- a null pointer, which is 0, is advanced before it is tested
    let cp := cp.getD 0 + 1
    let first := { first.copyBytes cp addOn.mem addOn.data len.toNat with
      tailBitsLeft := addOn.tailBitsLeft }
    (abufByteLen first, first)

/-- The loop of `abuf_merge_second` over the `n` bytes before `cp`. -/
def mergeSecondBytes (first : Abuf) (cp : ℕ) : ℕ → Abuf → Abuf
  | 0, combined => combined
  | n + 1, combined => mergeSecondBytes first (cp - 1) n (push (first.mem cp).toNat 8 combined)

/-- Returns the combined buffer; the result of the source is -1 in every case. -/
def abufMergeSecond (first combined : Abuf) : Abuf :=
  mergeSecondBytes first first.tail (first.tail + 1 - first.data) combined

/-! ### Reading -/

/-- The result is cut to 8 bits. -/
def calcBytesNeededForNMoreBits (n bitsLeft : ℕ) : ℕ :=
  ((((n : ℤ) - bitsLeft).tdiv 8 + 1) % 256).toNat

/-- The last branch of `get_next_n_bits`, from the second byte on. -/
def getMoreBits (mem : ℕ → UInt8) (cp n result : ℕ) : ℕ × ℕ :=
  if 8 < n then getMoreBits mem (cp + 1) (n - 8) (result <<< 8 ||| (mem cp).toNat)
  else (result ||| ((mem cp).toNat &&& (lowMask n <<< (8 - n))) >>> (8 - n), cp)
termination_by n

/-- The switch of `get_next_n_bits`: the value, its last byte and the bits left there. -/
def nextBitsSwitch (mem : ℕ → UInt8) (cp n bitsLeft : ℕ) (addtlBytesNeeded : ℕ) : ℕ × ℕ × ℕ :=
  let byte (a : ℕ) : ℕ := (mem a).toNat
  let first := byte cp &&& lowMask bitsLeft
  -- the high bits of the last byte
  let last (a bits : ℕ) : ℕ := (byte a &&& (lowMask bits <<< (8 - bits))) >>> (8 - bits)
  match addtlBytesNeeded with
  | 0 => ((byte cp &&& (lowMask n <<< (bitsLeft - n))) >>> (bitsLeft - n), cp, bitsLeft - n)
  | 1 =>
    let bits := n - bitsLeft
    (first <<< bits ||| last (cp + 1) bits, cp + 1, 8 - bits)
  | 2 =>
    let bits := n - 8 - bitsLeft
    (first <<< (8 + bits) ||| byte (cp + 1) <<< bits ||| last (cp + 2) bits, cp + 2, 8 - bits)
  | 3 =>
    let bits := n - 16 - bitsLeft
    (((first <<< 8 ||| byte (cp + 1)) <<< 8 ||| byte (cp + 2)) <<< bits ||| last (cp + 3) bits,
      cp + 3, 8 - bits)
  | 4 =>
    let bits := n - 24 - bitsLeft
    ((((first <<< 8 ||| byte (cp + 1)) <<< 8 ||| byte (cp + 2)) <<< 8 ||| byte (cp + 3)) <<< bits
      ||| last (cp + 4) bits, cp + 4, 8 - bits)
  | _ =>
    let (result, cp) := getMoreBits mem (cp + 1) (n - bitsLeft) first
    (result, cp, bitsLeft)

/-- The value read, the byte after it and the bits left there. -/
def getNextNBits (mem : ℕ → UInt8) (cp n bitsLeft : ℕ) : ℕ × ℕ × ℕ :=
  let addtl := if bitsLeft < n then calcBytesNeededForNMoreBits n bitsLeft else 0
  let (result, cp, bitsLeft) := nextBitsSwitch mem cp n bitsLeft addtl
  if bitsLeft = 0 then (result, cp + 1, 8) else (result, cp, bitsLeft)

def parseAsnVariableLengthEnc (mem : ℕ → UInt8) (cp bitsLeft : ℕ) : ℤ × ℕ × ℕ :=
  if 7 < bitsLeft then
    if (mem cp).toNat &&& 0x80 ≠ 0 then
      if (mem cp).toNat &&& 0x40 ≠ 0 then (-1, cp, bitsLeft)
      else ((ntohs mem cp &&& 0x7fff : ℕ), cp + 2, bitsLeft)
    else ((mem cp).toNat, cp + 1, bitsLeft)
  else
    let (byte1, cp, bitsLeft) := getNextNBits mem cp 8 bitsLeft
    if byte1 < 0x80 then (byte1, cp, bitsLeft)
    else if byte1 &&& 0x40 ≠ 0 then (-1, cp, bitsLeft)
    else
      let (byte2, cp, bitsLeft) := getNextNBits mem cp 8 bitsLeft
      (((byte1 &&& 0x7f) <<< 8 ||| byte2 : ℕ), cp, bitsLeft)

/-- The loop of `parse_asn_CER_len_enc`; a length of -1 is not set yet. -/
def cerOctets (mem : ℕ → UInt8) : ℕ → ℕ → ℕ → ℕ → ℕ × ℕ × ℕ
  | 0, length, cp, bitsLeft => (length, cp, bitsLeft)
  | noctets + 1, length, cp, bitsLeft =>
    let (byte, cp, bitsLeft) := getNextNBits mem cp 8 bitsLeft
    let length := if length = 2 ^ 64 - 1 then byte else (length <<< 8 % 2 ^ 64) ||| byte
    cerOctets mem noctets length cp bitsLeft

/-- The length has 64 bits. -/
def parseAsnCerLenEnc (mem : ℕ → UInt8) (cp bitsLeft : ℕ) : ℕ × ℕ × ℕ :=
  if (mem cp).toNat &&& 0x80 ≠ 0 then
    let (noctets, cp, bitsLeft) := getNextNBits mem cp 7 7
    cerOctets mem noctets (2 ^ 64 - 1) cp bitsLeft
  else ((mem cp).toNat, cp + 1, bitsLeft)

end Tulux.QCoder
