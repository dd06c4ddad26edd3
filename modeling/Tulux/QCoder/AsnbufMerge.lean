import Tulux.QCoder.AsnbufPush

/-! Blocks of a bit buffer: fresh buffers, padding, lengths in front, and joined buffers. -/
namespace Tulux.QCoder
open BitString

section Blocks
variable {bp : Abuf} {s : List Bool}

/-! ### Fresh buffers -/

theorem holds_nil_of_zero (hspace : bp.headHeadspaceBits = 0) (hleft : bp.tailBitsLeft = 8)
    (hempty : bp.tail = bp.data) (hzero : ∀ i, bp.data ≤ i → i < bp.endp → bp.mem i = 0) :
    Holds bp [] := by
  have hstart : bp.start = 8 * bp.data := by rw [Abuf.start, hspace, Nat.add_zero]
  have hstop : bp.stop = 8 * bp.data := by rw [Abuf.stop, hleft, hempty, Nat.add_sub_cancel]
  constructor
  · omega
  · omega
  · rw [hstart, hstop]
    rfl
  · exact hasAt_nil _ _
  · intro i hl hr
    omega
  · intro i hl hr
    rw [memBits, hzero (i / 8) (by omega) (by omega), UInt8.toNat_zero, Nat.zero_testBit]

theorem holds_alloc (head size headroom : ℕ) : Holds (abufAlloc head size headroom) [] :=
  holds_nil_of_zero rfl rfl rfl fun _ _ _ => rfl

theorem holds_purge {headroom : ℕ} (hsize : headroom < bp.size)
    (hend : bp.endp = bp.head + bp.size) : Holds (abufPurge bp headroom) [] := by
  unfold abufPurge
  rw [if_pos hsize]
  apply holds_nil_of_zero rfl rfl rfl
  intro i hl hr
  dsimp only at hl hr ⊢
  rw [if_pos (by omega)]

/-- The bits that are reserved do not count. -/
theorem Holds.reserve {r : ℕ} (h : Holds bp []) (hspace : bp.headHeadspaceBits = 0) (hr : r ≤ 8)
    (hroom : bp.stop + r ≤ 8 * bp.endp) :
    Holds (abufReserveHeadspace bp r) [] ∧ (abufReserveHeadspace bp r).headHeadspaceBits = r ∧
      (abufReserveHeadspace bp r).data = bp.data ∧ (abufReserveHeadspace bp r).head = bp.head ∧
      (abufReserveHeadspace bp r).size = bp.size ∧ (abufReserveHeadspace bp r).endp = bp.endp := by
  obtain ⟨hbits, hfront⟩ := appends_ncat 0 r bp [] h (by rwa [length_natBits])
  rw [List.nil_append, natBits_zero] at hbits
  have hstart : (ncat 0 r bp).start = 8 * bp.data := by
    rw [hfront.start, Abuf.start, hspace, Nat.add_zero]
  have hlength := hbits.length
  rw [hstart, List.length_replicate] at hlength
  have hstart' : (abufReserveHeadspace bp r).start = 8 * bp.data + r :=
    congrArg (8 * · + r) hfront.data
  refine ⟨?_, rfl, hfront.data, hfront.head, hfront.size, hfront.endp⟩
  constructor
  · exact hr
  · exact hbits.bitsLeft
  · rw [hstart']
    exact hlength
  · exact hasAt_nil _ _
  · intro i hl hr'
    rw [hstart'] at hl hr'
    have hzero := hbits.bits.get (i := i - 8 * bp.data) (by rw [List.length_replicate]; omega)
    rwa [List.getElem_replicate, hstart, Nat.add_sub_cancel' (by omega)] at hzero
  · exact hbits.behind

/-! ### Lengths -/

theorem Holds.bitsLen (h : Holds bp s) : abufBitsLen bp = s.length := by
  have hlength := h.length
  have hle := h.bitsLeft
  rw [Abuf.start, Abuf.stop] at hlength
  rw [abufBitsLen]
  omega

theorem bytesForBits_eq (n : ℕ) : bytesForBits n = ((n + 7) / 8 : ℕ) := by
  rw [bytesForBits, Int.tdiv_eq_ediv_of_nonneg (Int.natCast_nonneg n),
    Int.tmod_eq_emod_of_nonneg (Int.natCast_nonneg n)]
  split_ifs <;> omega

/-- The zeros behind `n` bits that make their number even in octets. -/
def padding (n : ℕ) : List Bool := List.replicate ((8 - n % 8) % 8) false

theorem length_padding (n : ℕ) : (padding n).length = (8 - n % 8) % 8 := List.length_replicate

theorem Holds.pad (h : Holds bp s) (hroom : bp.stop + 7 ≤ 8 * bp.endp) :
    Holds (abufPadToEvenOctet bp) (s ++ padding s.length) ∧
      SameFront bp (abufPadToEvenOctet bp) := by
  unfold abufPadToEvenOctet
  dsimp only
  have hlen : (abufBitsLen bp % 256).toNat = s.length % 256 := by
    rw [h.bitsLen]
    rfl
  rw [hlen]
  split_ifs with hpad
  · have hzeros : padding s.length = natBits (8 - s.length % 256 % 8) 0 := by
      rw [natBits_zero, padding]
      congr 1
      omega
    rw [hzeros]
    apply appends_ncat
    · exact h
    · rw [length_natBits]
      omega
  · have hnone : padding s.length = [] := by
      rw [padding, show (8 - s.length % 8) % 8 = 0 by omega, List.replicate_zero]
    rw [hnone, List.append_nil]
    exact ⟨h, SameFront.refl bp⟩

theorem length_lenBits (len : ℕ) : (lenBits len).length = if len < 0x80 then 8 else 16 := by
  rw [lenBits]
  split_ifs <;> rw [length_natBits]

/-- A byte in front. -/
theorem Holds.pushLenByte {n : ℕ} (h : Holds bp s) (hspace : bp.headHeadspaceBits < 8)
    (hhead : 0 < bp.head) (hroom : 8 * bp.head + 8 ≤ bp.start) :
    ∃ bp', pushLenByte bp n = (8, bp') ∧ Holds bp' (natBits 8 n ++ s) ∧ SameBack bp bp' ∧
      bp'.start + 8 = bp.start ∧ bp'.headHeadspaceBits < 8 := by
  have hstart : bp.start = 8 * bp.data + bp.headHeadspaceBits := rfl
  unfold QCoder.pushLenByte
  rw [if_neg (by omega)]
  split_ifs with hzero hdata
  · -- the byte before the first one is free
    have hlaid := laid_byteBefore (v := n) hzero (by omega)
    refine ⟨_, rfl, h.lay hlaid fun i hl hr => ?_, hlaid.back, hlaid.start, hspace⟩
    simp only [Abuf.start, Abuf.setByte, hzero] at hl hr
    omega
  · omega
  · exact h.pushBits hspace hhead (by omega) hroom

/-- The length of the string goes in front of it. -/
theorem Holds.pushLen (h : Holds bp s) (hspace : bp.headHeadspaceBits < 8) (hhead : 0 < bp.head)
    (hpos : 0 < s.length) (hlen : (s.length + 7) / 8 < 0x4000)
    (hroom : 8 * bp.head + 16 ≤ bp.start) :
    Holds (asnPushLen bp) (lenBits ((s.length + 7) / 8) ++ s) ∧ SameBack bp (asnPushLen bp) ∧
      (asnPushLen bp).start + (lenBits ((s.length + 7) / 8)).length = bp.start ∧
      (asnPushLen bp).headHeadspaceBits < 8 := by
  obtain ⟨len, hlen_eq⟩ : ∃ len, len = (s.length + 7) / 8 := ⟨_, rfl⟩
  rw [asnPushLen, h.bitsLen, bytesForBits_eq, ← hlen_eq, asnPushEncodedLen, if_pos (by omega),
    Int.toNat_natCast, length_lenBits, lenBits]
  by_cases hshort : len < 0x80
  · obtain ⟨bp', heq, hholds⟩ := h.pushLenByte (n := len) hspace hhead (by omega)
    rw [if_pos (by omega), heq, if_pos hshort, if_pos hshort]
    exact hholds
  · obtain ⟨bp', heq, hholds⟩ := h.pushBits (n := 16) (v := asnTwoBytes len) hspace hhead
      (by omega) hroom
    rw [if_neg (by omega), if_pos (by omega), heq, if_neg hshort, if_neg hshort]
    exact hholds

/-- A length in one byte for the 1609.2 header. -/
theorem Holds.pushCerLen (h : Holds bp s) (hspace : bp.headHeadspaceBits < 8)
    (hhead : 0 < bp.head) (hpos : 0 < s.length) (hlen : (s.length + 7) / 8 < 0x80)
    (hroom : 8 * bp.head + 8 ≤ bp.start) :
    Holds (asnPushIeee16092Len bp) (natBits 8 ((s.length + 7) / 8) ++ s) ∧
      SameBack bp (asnPushIeee16092Len bp) ∧ (asnPushIeee16092Len bp).start + 8 = bp.start ∧
      (asnPushIeee16092Len bp).headHeadspaceBits < 8 := by
  obtain ⟨bp', heq, hholds⟩ := h.pushLenByte (n := (s.length + 7) / 8) hspace hhead hroom
  rw [asnPushIeee16092Len, h.bitsLen, bytesForBits_eq, asnPushCerEncodedLen, if_pos (by omega),
    if_pos (by omega), Int.toNat_natCast, heq]
  exact hholds

end Blocks

/-! ### Joining -/

/-- A string that ends on an octet is not followed by an empty one. -/
theorem Holds.trim {bp : Abuf} {s : List Bool} (h : Holds bp s)
    (hspace : bp.headHeadspaceBits < 8) (hpos : 0 < s.length) :
    Holds (abufTrim bp) s ∧ (abufTrim bp).head = bp.head ∧ (abufTrim bp).endp = bp.endp ∧
      (abufTrim bp).data = bp.data ∧ (abufTrim bp).headHeadspaceBits = bp.headHeadspaceBits ∧
      (abufTrim bp).tailBitsLeft < 8 := by
  have hlength := h.length
  have hle := h.bitsLeft
  unfold abufTrim
  dsimp only
  rw [if_neg hspace.ne]
  split_ifs with hleft
  · have hstop : ({ bp with tail := bp.tail - 1, tailBitsLeft := 0 } : Abuf).stop = bp.stop := by
      rw [Abuf.stop, hleft] at hlength
      rw [Abuf.stop, Abuf.stop, hleft]
      dsimp only
      omega
    refine ⟨?_, rfl, rfl, rfl, rfl, Nat.zero_lt_succ 7⟩
    constructor
    · exact h.headspace
    · exact Nat.zero_le 8
    · rw [hstop]
      exact h.length
    · exact h.bits
    · exact h.front
    · rw [hstop]
      exact h.behind
  · exact ⟨h, rfl, rfl, rfl, rfl, by omega⟩

theorem abufTrim_of_lt {bp : Abuf} (hspace : bp.headHeadspaceBits < 8)
    (hleft : bp.tailBitsLeft < 8) : abufTrim bp = bp := by
  unfold abufTrim
  dsimp only
  rw [if_neg hspace.ne, if_neg hleft.ne]

section Join
variable {first addOn : Abuf} {s t : List Bool}

/-- The bytes that `abuf_merge` copies. -/
theorem memBits_copyBytes (bp : Abuf) (dst : ℕ) (src : ℕ → UInt8) (a n i : ℕ) :
    memBits (bp.copyBytes dst src a n).mem i =
      if 8 * dst ≤ i ∧ i < 8 * (dst + n) then memBits src (8 * a + (i - 8 * dst))
      else memBits bp.mem i := by
  change ((if dst ≤ i / 8 ∧ i / 8 < dst + n then src (a + (i / 8 - dst)) else bp.mem (i / 8)) :
    UInt8).toNat.testBit (7 - i % 8) = _
  by_cases hin : 8 * dst ≤ i ∧ i < 8 * (dst + n)
  · rw [if_pos (by omega), if_pos hin, memBits,
      show (8 * a + (i - 8 * dst)) / 8 = a + (i / 8 - dst) by omega,
      show (8 * a + (i - 8 * dst)) % 8 = i % 8 by omega]
  · rw [if_neg (by omega), if_neg hin, memBits]

/-- The bytes of the second buffer are copied to `dst`, where the string of the first one ends as
many bits into the byte as are reserved in the second. Bits of the first buffer stay in this byte. -/
theorem Holds.join {mem : ℕ → UInt8} {dst len tail : ℕ} (h : Holds first s) (h' : Holds addOn t)
    (hreserved : ∀ i, 8 * addOn.data ≤ i → i < addOn.start → memBits addOn.mem i = false)
    (hstop : first.stop = 8 * dst + addOn.headHeadspaceBits) (hleft : addOn.tailBitsLeft < 8)
    (hin : addOn.stop ≤ 8 * addOn.endp) (hroom : first.stop + t.length ≤ 8 * first.endp)
    (hlen : addOn.tail + 1 = addOn.data + len) (htail : tail + 1 = dst + len)
    (hbit : ∀ i, memBits mem i = if 8 * dst ≤ i ∧ i < 8 * (dst + len) then
      memBits addOn.mem (8 * addOn.data + (i - 8 * dst)) ||
        (decide (i < 8 * dst + 8) && memBits first.mem i) else memBits first.mem i) :
    Holds { first with mem := mem, tail := tail, tailBitsLeft := addOn.tailBitsLeft } (s ++ t) := by
  have hlength := h.length
  have hlength' := h'.length
  have hspace' := h'.headspace
  have hstart' : addOn.start = 8 * addOn.data + addOn.headHeadspaceBits := rfl
  have hstop' : addOn.stop = 8 * addOn.tail + (8 - addOn.tailBitsLeft) := by
    rw [Abuf.stop]
    omega
  constructor
  · exact h.headspace
  · exact hleft.le
  · rw [List.length_append]
    change first.start + _ = 8 * tail + 8 - addOn.tailBitsLeft
    omega
  · change HasAt (memBits mem) first.start _
    rw [hasAt_append]
    constructor
    · apply hasAt_shift h.bits
      intro i hi
      rw [hbit]
      split_ifs with hin
      · rw [hreserved _ (by omega) (by omega), decide_eq_true (by omega), Bool.true_and,
          Bool.false_or]
      · rfl
    · apply hasAt_shift h'.bits
      intro i hi
      rw [hbit, if_pos (by omega), show 8 * addOn.data + (first.start + s.length + i - 8 * dst) =
        addOn.start + i by omega]
      by_cases hbyte : first.start + s.length + i < 8 * dst + 8
      · rw [h.behind _ (by omega) (by omega), Bool.and_false, Bool.or_false]
      · rw [decide_eq_false hbyte, Bool.false_and, Bool.or_false]
  · intro i hl hr
    change i < first.start at hr
    rw [hbit]
    split_ifs with hin
    · rw [hreserved _ (by omega) (by omega), h.front i hl hr, Bool.and_false, Bool.or_false]
    · exact h.front i hl hr
  · intro i hl hr
    change 8 * tail + 8 - addOn.tailBitsLeft ≤ i at hl
    change i < 8 * first.endp at hr
    rw [hbit]
    split_ifs with hin
    · rw [h'.behind _ (by omega) (by omega), h.behind i (by omega) hr, Bool.and_false,
        Bool.or_false]
    · exact h.behind i (by omega) hr

/-- The bytes that are copied over the last one of the first buffer, where the first is merged. -/
theorem memBits_shared (len i : ℕ) : memBits (first.copyBytes first.tail
    (addOn.setByte addOn.data (addOn.mem addOn.data ||| first.mem first.tail)).mem addOn.data
      len).mem i = if 8 * first.tail ≤ i ∧ i < 8 * (first.tail + len) then
        memBits addOn.mem (8 * addOn.data + (i - 8 * first.tail)) ||
          (decide (i < 8 * first.tail + 8) && memBits first.mem i) else memBits first.mem i := by
  rw [memBits_copyBytes, memBits_setByte]
  by_cases hin : 8 * first.tail ≤ i ∧ i < 8 * (first.tail + len)
  · rw [if_pos hin, if_pos hin]
    by_cases hbyte : i < 8 * first.tail + 8
    · have hi : i = 8 * first.tail + (i - 8 * first.tail) := by omega
      rw [if_pos (by omega), UInt8.toNat_or, Nat.testBit_or, decide_eq_true hbyte, Bool.true_and,
        memBits_byte _ _ (by omega), hi, memBits_byte _ _ (by omega)]
      congr 2 <;> omega
    · rw [if_neg (by omega), decide_eq_false hbyte, Bool.false_and, Bool.or_false]
  · rw [if_neg hin, if_neg hin]

/-- The last byte of the first buffer and the first byte of the second become one. -/
theorem Holds.mergeShared (h : Holds first s) (h' : Holds addOn t)
    (hpos : 0 < first.tail + addOn.headHeadspaceBits)
    (hreserved : ∀ i, 8 * addOn.data ≤ i → i < addOn.start → memBits addOn.mem i = false)
    (hjoin : first.tailBitsLeft + addOn.headHeadspaceBits = 8) (hleft : addOn.tailBitsLeft < 8)
    (hin : addOn.stop ≤ 8 * addOn.endp) (hroom : first.stop + t.length ≤ 8 * first.endp) :
    Holds (abufMerge first addOn).2 (s ++ t) ∧ SameFront first (abufMerge first addOn).2 ∧
      (abufMerge first addOn).2.tailBitsLeft = addOn.tailBitsLeft := by
  have hlength := h.length
  have hlength' := h'.length
  have hstop : first.stop = 8 * first.tail + addOn.headHeadspaceBits := by
    rw [Abuf.stop]
    omega
  have hstart' : addOn.start = 8 * addOn.data + addOn.headHeadspaceBits := rfl
  have hstop' : addOn.stop = 8 * addOn.tail + (8 - addOn.tailBitsLeft) := by
    rw [Abuf.stop]
    omega
  obtain ⟨len, hlen⟩ : ∃ len, addOn.tail + 1 = addOn.data + len :=
    ⟨addOn.tail + 1 - addOn.data, by omega⟩
  have hbytes : abufByteLen addOn = len := by
    rw [abufByteLen, if_pos (by omega)]
    omega
  obtain ⟨tail, htail⟩ : ∃ tail, tail + 1 = first.tail + len := ⟨first.tail + len - 1, by omega⟩
  have hput : abufPutInt first ((len : ℤ) - 1) = (some first.tail, { first with tail := tail }) := by
    rw [abufPutInt, if_neg (by omega), show (first.tail + ((len : ℤ) - 1)).toNat = tail by omega]
  unfold abufMerge
  dsimp only
  rw [if_pos (by omega), hbytes, hput]
  refine ⟨?_, ⟨rfl, rfl, rfl, rfl, rfl⟩, rfl⟩
  have hholds := h.join h' hreserved hstop hleft hin hroom hlen htail (memBits_shared len)
  exact hholds

/-- Where bits of the byte are with either buffer. -/
theorem Holds.merge (h : Holds first s) (h' : Holds addOn t)
    (hjoin : first.tailBitsLeft + addOn.headHeadspaceBits = 8)
    (hspace : 0 < addOn.headHeadspaceBits) (hspace' : addOn.headHeadspaceBits < 8)
    (hleft : addOn.tailBitsLeft < 8) (htail : addOn.tail < addOn.endp)
    (hroom : first.stop + t.length ≤ 8 * first.endp) :
    Holds (abufMerge first addOn).2 (s ++ t) ∧ SameFront first (abufMerge first addOn).2 ∧
      (abufMerge first addOn).2.tailBitsLeft = addOn.tailBitsLeft := by
  have hreserved (i : ℕ) (hl : 8 * addOn.data ≤ i) (hr : i < addOn.start) :
      memBits addOn.mem i = false := by
    refine h'.front i ?_ hr
    rw [Abuf.start]
    omega
  refine h.mergeShared h' (by omega) hreserved hjoin hleft ?_ hroom
  rw [Abuf.stop]
  omega

/-- `asn_push_bits` where the caller ignores the result. -/
theorem Holds.push {bp : Abuf} {n v : ℕ} (h : Holds bp s) (hspace : bp.headHeadspaceBits < 8)
    (hhead : 0 < bp.head) (hn : 0 < n) (hroom : 8 * bp.head + n ≤ bp.start) :
    Holds (push v n bp) (natBits n v ++ s) ∧ SameBack bp (push v n bp) ∧
      (push v n bp).start + n = bp.start ∧ (push v n bp).headHeadspaceBits < 8 := by
  obtain ⟨bp', heq, hholds⟩ := h.pushBits (v := v) hspace hhead hn hroom
  rw [QCoder.push, heq]
  exact hholds

/-- The bytes up to one are those in front of it, and it. -/
theorem window_bytes_succ (mem : ℕ → UInt8) {n cp : ℕ} (hn : n ≤ cp) :
    window (memBits mem) (8 * (cp + 1 - (n + 1))) (8 * (n + 1)) =
      window (memBits mem) (8 * (cp - 1 + 1 - n)) (8 * n) ++ natBits 8 (mem cp).toNat := by
  rw [Nat.mul_succ, window_add, ← window_byte mem cp,
    show 8 * (cp + 1 - (n + 1)) + 8 * n = 8 * cp by omega]
  cases n with
  | zero => rfl
  | succ n => rw [show cp - 1 + 1 - (n + 1) = cp + 1 - (n + 1 + 1) by omega]

theorem Holds.mergeBytes {combined : Abuf} (first : Abuf) (n cp : ℕ) (h : Holds combined t) (hn : n ≤ cp + 1)
    (hspace : combined.headHeadspaceBits < 8) (hhead : 0 < combined.head)
    (hroom : 8 * combined.head + 8 * n ≤ combined.start) :
    Holds (mergeSecondBytes first cp n combined)
        (window (memBits first.mem) (8 * (cp + 1 - n)) (8 * n) ++ t) ∧
      SameBack combined (mergeSecondBytes first cp n combined) ∧
      (mergeSecondBytes first cp n combined).start + 8 * n = combined.start ∧
      (mergeSecondBytes first cp n combined).headHeadspaceBits < 8 := by
  induction n generalizing cp combined t with
  | zero =>
    rw [mergeSecondBytes, Nat.mul_zero, window, List.nil_append]
    exact ⟨h, SameBack.refl combined, rfl, hspace⟩
  | succ n ih =>
    obtain ⟨hpush, hback, hstart, hspace'⟩ :=
      h.push (n := 8) (v := (first.mem cp).toNat) hspace hhead (by omega) (by omega)
    have hhead' := hback.head
    obtain ⟨hholds, hback', hstart', hspace''⟩ := ih (cp - 1) hpush (by omega) hspace'
      (by omega) (by omega)
    rw [mergeSecondBytes, window_bytes_succ first.mem (Nat.le_of_succ_le_succ hn), List.append_assoc]
    exact ⟨hholds, hback.trans hback', by omega, hspace''⟩

/-- The first buffer is copied in front of the second. -/
theorem Holds.mergeSecond {combined : Abuf} (h : Holds first s) (h' : Holds combined t)
    (hspace : first.headHeadspaceBits = 0) (hleft : first.tailBitsLeft = 0)
    (hspace' : combined.headHeadspaceBits < 8) (hhead : 0 < combined.head)
    (hroom : 8 * combined.head + s.length ≤ combined.start) :
    Holds (abufMergeSecond first combined) (s ++ t) ∧
      SameBack combined (abufMergeSecond first combined) ∧
      (abufMergeSecond first combined).start + s.length = combined.start ∧
      (abufMergeSecond first combined).headHeadspaceBits < 8 := by
  have hlength := h.length
  rw [Abuf.start, Abuf.stop, hspace, hleft] at hlength
  obtain ⟨n, hn⟩ : ∃ n, n = first.tail + 1 - first.data := ⟨_, rfl⟩
  have hs : s.length = 8 * n := by omega
  have hbits : window (memBits first.mem) (8 * (first.tail + 1 - n)) (8 * n) = s := by
    have hat := h.bits
    rwa [HasAt, Abuf.start, hspace, Nat.add_zero, hs,
      show first.data = first.tail + 1 - n by omega] at hat
  have hmerge := h'.mergeBytes first n first.tail (by omega) hspace' hhead (by omega)
  rw [hbits] at hmerge
  rw [abufMergeSecond, ← hn, hs]
  exact hmerge

end Join

end Tulux.QCoder
