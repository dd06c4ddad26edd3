import Tulux.QCoder.AsnbufSpec

/-! Putting bits in front of a bit buffer, whatever its memory holds. -/
namespace Tulux.QCoder
open BitString

/-- Pushing leaves the back of the buffer alone. -/
structure SameBack (bp bp' : Abuf) : Prop where
  head : bp'.head = bp.head
  size : bp'.size = bp.size
  endp : bp'.endp = bp.endp
  tail : bp'.tail = bp.tail
  bitsLeft : bp'.tailBitsLeft = bp.tailBitsLeft

namespace SameBack
variable {bp bp' bp'' : Abuf}

theorem refl (bp : Abuf) : SameBack bp bp := ⟨rfl, rfl, rfl, rfl, rfl⟩

theorem trans (h : SameBack bp bp') (h' : SameBack bp' bp'') : SameBack bp bp'' where
  head := h'.head.trans h.head
  size := h'.size.trans h.size
  endp := h'.endp.trans h.endp
  tail := h'.tail.trans h.tail
  bitsLeft := h'.bitsLeft.trans h.bitsLeft

theorem stop (h : SameBack bp bp') : bp'.stop = bp.stop := by
  rw [Abuf.stop, Abuf.stop, h.tail, h.bitsLeft]

end SameBack

/-- The string of bits in the buffer. -/
def Abuf.bits (bp : Abuf) : List Bool := window (memBits bp.mem) bp.start (bp.stop - bp.start)

/-- `n` bits of `v` are put in front, and nothing behind the first byte is written. -/
structure Laid (bp bp' : Abuf) (n v : ℕ) : Prop where
  back : SameBack bp bp'
  headspace : bp'.headHeadspaceBits ≤ 8
  start : bp'.start + n = bp.start
  keep : ∀ i, bp.start ≤ i → memBits bp'.mem i = memBits bp.mem i
  new : ∀ j < n, memBits bp'.mem (bp'.start + j) = v.testBit (n - 1 - j)
  bytes : ∀ a, bp.data < a → bp'.mem a = bp.mem a

/-- The bits before the string in its first byte are clear. -/
def FrontClear (bp : Abuf) : Prop :=
  ∀ i, 8 * (bp.start / 8) ≤ i → i < bp.start → memBits bp.mem i = false

section Laid
variable {bp bp' bp'' : Abuf} {m n v : ℕ}

theorem Laid.comp (h : Laid bp bp' m v) (h' : Laid bp' bp'' n (v >>> m))
    (hdata : bp'.data ≤ bp.data) : Laid bp bp'' (n + m) v where
  back := h.back.trans h'.back
  headspace := h'.headspace
  start := by
    have hfirst := h.start
    have hsecond := h'.start
    omega
  keep := by
    have hfirst := h.start
    intro i hi
    rw [h'.keep i (by omega), h.keep i hi]
  new := by
    have hsecond := h'.start
    intro j hj
    by_cases hjn : j < n
    · rw [h'.new j hjn, Nat.testBit_shiftRight]
      congr 1
      omega
    · have hpos : bp''.start + j = bp'.start + (j - n) := by omega
      rw [hpos, h'.keep _ (Nat.le_add_right _ _), h.new _ (by omega)]
      congr 1
      omega
  bytes := fun a ha => (h'.bytes a (hdata.trans_lt ha)).trans (h.bytes a ha)

/-- A step that moves the pointer and writes nothing. -/
theorem laid_zero (hback : SameBack bp bp') (hspace : bp'.headHeadspaceBits ≤ 8)
    (hstart : bp'.start = bp.start) (hmem : bp'.mem = bp.mem) : Laid bp bp' 0 v where
  back := hback
  headspace := hspace
  start := hstart
  keep := fun i _ => by rw [hmem]
  new := fun j hj => absurd hj (Nat.not_lt_zero j)
  bytes := fun a _ => by rw [hmem]

/-- The first byte is full. -/
theorem laid_retreat (hspace : bp.headHeadspaceBits = 0) (hdata : 0 < bp.data) :
    Laid bp { bp with data := bp.data - 1, headHeadspaceBits := 8 } 0 v := by
  apply laid_zero
  · exact ⟨rfl, rfl, rfl, rfl, rfl⟩
  · exact le_rfl
  · simp only [Abuf.start, hspace]
    omega
  · rfl

/-- Nothing of the first byte is used. -/
theorem laid_skip (hspace : bp.headHeadspaceBits = 8) :
    Laid bp { bp with data := bp.data + 1, headHeadspaceBits := 0 } 0 v := by
  apply laid_zero
  · exact ⟨rfl, rfl, rfl, rfl, rfl⟩
  · exact Nat.zero_le 8
  · simp only [Abuf.start, hspace]
    omega
  · rfl

/-- `n` bits are put into the first byte, below what is left of its headspace. -/
theorem laid_fill {b : UInt8} (hspace : bp.headHeadspaceBits ≤ 8) (hn : n ≤ bp.headHeadspaceBits)
    (hb : ∀ j < 8, bp.headHeadspaceBits - n ≤ j → b.toNat.testBit (7 - j) =
      if bp.headHeadspaceBits ≤ j then (bp.mem bp.data).toNat.testBit (7 - j)
      else v.testBit (bp.headHeadspaceBits - 1 - j)) :
    Laid bp { bp.setByte bp.data b with headHeadspaceBits := bp.headHeadspaceBits - n } n v := by
  have hstart : bp.start = 8 * bp.data + bp.headHeadspaceBits := rfl
  constructor
  · exact ⟨rfl, rfl, rfl, rfl, rfl⟩
  · exact (Nat.sub_le _ _).trans hspace
  · change 8 * bp.data + (bp.headHeadspaceBits - n) + n = _
    omega
  · intro i hi
    change memBits (bp.setByte bp.data b).mem i = _
    rw [memBits_setByte]
    split_ifs with hdata
    · have hpos : i = 8 * bp.data + i % 8 := by omega
      rw [hb _ (Nat.mod_lt _ (by omega)) (by omega), if_pos (by omega)]
      conv_rhs => rw [hpos, memBits_byte _ _ (Nat.mod_lt _ (by omega))]
    · rfl
  · intro j hj
    change memBits (bp.setByte bp.data b).mem (8 * bp.data + (bp.headHeadspaceBits - n) + j) = _
    rw [Nat.add_assoc, memBits_setByte, if_pos (by omega), Nat.mul_add_mod,
      Nat.mod_eq_of_lt (by omega), hb _ (by omega) (by omega), if_neg (by omega)]
    congr 1
    omega
  · intro a ha
    exact Function.update_of_ne ha.ne' _ _

/-! ### The loops -/

/-- The bits that are put into a byte whose other bits stay. -/
theorem testBit_cleared {byte : UInt8} {k i : ℕ} (hk : n + k ≤ 8) (hi : i < 8) :
    (byte &&& ~~~UInt8.ofNat (lowMask n <<< k) |||
      UInt8.ofNat ((v &&& lowMask n) <<< k)).toNat.testBit i =
      if k ≤ i ∧ i < n + k then v.testBit (i - k) else byte.toNat.testBit i := by
  have hmask : (UInt8.ofNat (lowMask n <<< k)).toNat = lowMask n <<< k := by
    have := toNat_ofNat_bits (x := lowMask n) hk
    rwa [lowMask_eq, Nat.mod_eq_of_lt (Nat.sub_lt (by positivity) one_pos), ← lowMask_eq] at this
  have hkept : (byte &&& ~~~UInt8.ofNat (lowMask n <<< k)).toNat.testBit i =
      (byte.toNat.testBit i && !(lowMask n <<< k).testBit i) := by
    have hmaskbit : (UInt8.ofNat (lowMask n <<< k)).toBitVec.getLsbD i =
        (lowMask n <<< k).testBit i := congrArg (Nat.testBit · i) hmask
    have hbytebit : byte.toBitVec.getLsbD i = byte.toNat.testBit i := rfl
    change (byte &&& ~~~UInt8.ofNat (lowMask n <<< k)).toBitVec.getLsbD i = _
    rw [UInt8.toBitVec_and, UInt8.toBitVec_not, BitVec.getLsbD_and, BitVec.getLsbD_not, hmaskbit,
      hbytebit, decide_eq_true hi, Bool.true_and]
  have hlow : k ≤ i ∧ i < n + k ↔ k ≤ i ∧ i - k < n := by omega
  rw [UInt8.toNat_or, Nat.testBit_or, hkept, and_lowMask, toNat_ofNat_bits hk,
    Nat.testBit_shiftLeft, Nat.testBit_shiftLeft, lowMask_eq, Nat.testBit_two_pow_sub_one,
    Nat.testBit_mod_two_pow]
  simp only [hlow]
  by_cases hki : k ≤ i <;> by_cases hin : i - k < n <;> simp [hki, hin]

theorem laid_pushFirst (hspace : bp.headHeadspaceBits ≤ 8) (hdata : 0 < bp.data)
    (hn : n ≤ bp.headHeadspaceBits) : Laid bp (pushFirst bp v n) n v ∧
      (pushFirst bp v n).data ≤ bp.data ∧ (pushFirst bp v n).headHeadspaceBits =
        if n < bp.headHeadspaceBits then bp.headHeadspaceBits - n else 8 := by
  have hfill := laid_fill (n := n) (v := v) hspace hn (b := bp.mem bp.data &&&
      ~~~UInt8.ofNat (lowMask n <<< (8 - bp.headHeadspaceBits)) |||
      UInt8.ofNat ((v &&& lowMask n) <<< (8 - bp.headHeadspaceBits))) (by
    intro j hj hle
    rw [testBit_cleared (by omega) (by omega)]
    by_cases hold : bp.headHeadspaceBits ≤ j
    · rw [if_neg (by omega), if_pos hold]
    · rw [if_pos (by omega), if_neg hold]
      congr 1
      omega)
  unfold QCoder.pushFirst
  dsimp only
  by_cases hlt : n < bp.headHeadspaceBits
  · rw [if_neg (by omega), if_pos hlt]
    exact ⟨hfill, le_rfl, rfl⟩
  · rw [if_pos (by omega), if_neg hlt]
    have hretreat := hfill.comp (laid_retreat (v := v >>> n) (by dsimp only; omega) hdata) le_rfl
    rw [Nat.zero_add] at hretreat
    exact ⟨hretreat, Nat.sub_le _ _, rfl⟩

/-- A whole byte is put into an unused one. -/
theorem laid_byte (hspace : bp.headHeadspaceBits = 8) :
    Laid bp { bp.setByte bp.data (UInt8.ofNat v) with headHeadspaceBits := 0 } 8 v := by
  have hfill := laid_fill (n := 8) (v := v) (b := UInt8.ofNat v) hspace.le hspace.ge (by
    intro j hj _
    rw [if_neg (by omega), UInt8.toNat_ofNat', Nat.testBit_mod_two_pow, decide_eq_true (by omega),
      Bool.true_and, hspace])
  rwa [hspace] at hfill

theorem laid_pushBytes (hspace : bp.headHeadspaceBits = 8) (hhead : 0 < bp.head)
    (hroom : 8 * bp.head + m ≤ bp.start) : ∃ bp',
      pushBytes bp v m = (bp', v >>> (m - m % 8), m % 8) ∧ Laid bp bp' (m - m % 8) v ∧
      bp'.headHeadspaceBits = 8 ∧ bp'.data ≤ bp.data := by
  induction bp, v, m using pushBytes.induct with
  | case1 bp v m h8 ih =>
    have hstart : bp.start = 8 * bp.data + 8 := by rw [Abuf.start, hspace]
    have hbyte : Laid bp { bp.setByte bp.data (UInt8.ofNat (v &&& 0xff)) with
        data := bp.data - 1, headHeadspaceBits := 8 } 8 v := by
      have hcut : UInt8.ofNat (v &&& 0xff) = UInt8.ofNat v := by
        apply UInt8.toNat_inj.mp
        rw [UInt8.toNat_ofNat', UInt8.toNat_ofNat', Nat.and_two_pow_sub_one_eq_mod v 8, Nat.mod_mod]
      rw [hcut]
      exact (laid_byte hspace).comp (laid_retreat rfl (by change 0 < bp.data; omega)) le_rfl
    obtain ⟨bp', heq, hlaid, hspace', hdata'⟩ := ih rfl hhead (by
      change 8 * bp.head + (m - 8) ≤ 8 * (bp.data - 1) + 8
      omega)
    have hsplit : m - m % 8 = (m - 8 - (m - 8) % 8) + 8 := by omega
    rw [pushBytes, if_pos h8, heq, Nat.mod_eq_sub_mod h8, ← Nat.shiftRight_add]
    refine ⟨bp', ?_, ?_, hspace', hdata'.trans (Nat.sub_le _ _)⟩
    · rw [Nat.mod_eq_sub_mod h8] at hsplit
      rw [hsplit, Nat.add_comm 8]
    · have hboth := hbyte.comp hlaid (Nat.sub_le _ _)
      rwa [← hsplit, Nat.mod_eq_sub_mod h8] at hboth
  | case2 bp v m h8 =>
    have hmod : m % 8 = m := Nat.mod_eq_of_lt (by omega)
    rw [pushBytes, if_neg h8, hmod, Nat.sub_self]
    exact ⟨bp, rfl, laid_zero (.refl bp) hspace.le rfl rfl, hspace, le_rfl⟩

/-- Behind the loop either no byte is begun, or the first byte was written whole. -/
theorem laid_pushMore (hspace : bp.headHeadspaceBits = 8) (hhead : 0 < bp.head)
    (hroom : 8 * bp.head + n ≤ bp.start) : Laid bp (pushMore bp v n) n v ∧
      (pushMore bp v n).headHeadspaceBits < 8 ∧ FrontClear (pushMore bp v n) := by
  obtain ⟨bp', heq, hlaid, hspace', hdata'⟩ := laid_pushBytes (v := v) hspace hhead hroom
  unfold pushMore
  rw [heq]
  dsimp only
  by_cases hrest : n % 8 = 0
  · rw [if_neg (not_not_intro hrest), if_pos hspace']
    have hskip := hlaid.comp (laid_skip hspace') hdata'
    rw [hrest, Nat.sub_zero, Nat.zero_add] at hskip
    refine ⟨hskip, Nat.zero_lt_succ 7, fun i hl hr => ?_⟩
    simp only [Abuf.start] at hl hr
    omega
  · have hbyte : (UInt8.ofNat (v >>> (n - n % 8) &&& lowMask (n % 8))).toNat =
        v >>> (n - n % 8) % 2 ^ (n % 8) := by
      rw [and_lowMask]
      exact toNat_ofNat_bits (m := 0) (by omega)
    have hfill := laid_fill (n := n % 8) (v := v >>> (n - n % 8))
      (b := UInt8.ofNat (v >>> (n - n % 8) &&& lowMask (n % 8))) hspace'.le (by omega) (by
        intro j hj hle
        rw [if_neg (by omega), hbyte, Nat.testBit_mod_two_pow, decide_eq_true (by omega),
          Bool.true_and, hspace'])
    rw [hspace'] at hfill
    have hboth := hlaid.comp hfill hdata'
    rw [Nat.add_sub_cancel' (Nat.mod_le n 8)] at hboth
    rw [if_pos hrest, if_neg (by dsimp only; omega)]
    refine ⟨hboth, by dsimp only; omega, fun i hl hr => ?_⟩
    change 8 * ((8 * bp'.data + (8 - n % 8)) / 8) ≤ i at hl
    change i < 8 * bp'.data + (8 - n % 8) at hr
    change memBits (bp'.setByte bp'.data _).mem i = false
    rw [memBits_setByte, if_pos (by omega), hbyte]
    apply Nat.testBit_lt_two_pow
    exact (Nat.mod_lt _ (by positivity)).trans_le (Nat.pow_le_pow_right (by omega) (by omega))

theorem pushMore_zero {data : ℕ} (h : ¬ bp.headHeadspaceBits = 8) : pushMore bp data 0 = bp := by
  unfold pushMore
  rw [pushBytes, if_neg (Nat.not_succ_le_zero 7)]
  exact if_neg h

/-! ### `asn_push_bits` -/

/-- With room, the bits lie in front, less than a byte of headspace is left, and a clear headspace
stays clear. -/
theorem laid_pushBits (hspace : bp.headHeadspaceBits ≤ 8) (hhead : 0 < bp.head) (hn : 0 < n)
    (hroom : 8 * bp.head + n ≤ bp.start) : ∃ bp', asnPushBits bp v n = ((n : ℤ), bp') ∧
      Laid bp bp' n v ∧ bp'.headHeadspaceBits < 8 ∧
      (bp.headHeadspaceBits < 8 → FrontClear bp → FrontClear bp') := by
  have hstart : bp.start = 8 * bp.data + bp.headHeadspaceBits := rfl
  have hcond : n ≠ 0 ∧ (n : ℤ) ≤ abufHeadroomBits bp := by
    rw [abufHeadroomBits]
    omega
  unfold asnPushBits
  rw [if_pos hcond]
  refine ⟨_, rfl, ?_⟩
  by_cases hlt : n < bp.headHeadspaceBits
  · -- the bits fit into the first byte
    obtain ⟨hlaid, -, hspace'⟩ := laid_pushFirst (v := v) hspace (by omega) hlt.le
    rw [if_pos hlt] at hspace'
    rw [if_pos hlt, Nat.sub_self, pushMore_zero (by omega)]
    refine ⟨hlaid, by omega, fun _ hclear => ?_⟩
    unfold pushFirst
    dsimp only
    rw [if_neg (by omega)]
    intro i hl hr
    change 8 * ((8 * bp.data + (bp.headHeadspaceBits - n)) / 8) ≤ i at hl
    change i < 8 * bp.data + (bp.headHeadspaceBits - n) at hr
    change memBits (bp.setByte bp.data _).mem i = false
    rw [memBits_setByte, if_pos (by omega), testBit_cleared (by omega) (by omega),
      if_neg (by omega)]
    have hold := hclear i (by omega) (by omega)
    rwa [memBits, show i / 8 = bp.data by omega] at hold
  · obtain ⟨hlaid, hdata, hspace'⟩ := laid_pushFirst (v := v) hspace (by omega) le_rfl
    have hhead' := hlaid.back.head
    have hstart' := hlaid.start
    rw [if_neg (lt_irrefl _)] at hspace'
    rw [if_neg hlt]
    obtain ⟨hmore, hspace'', hclear⟩ := laid_pushMore (v := v >>> bp.headHeadspaceBits)
      (n := n - bp.headHeadspaceBits) hspace' (by omega) (by omega)
    have hboth := hlaid.comp hmore hdata
    rw [Nat.sub_add_cancel (by omega)] at hboth
    exact ⟨hboth, hspace'', fun _ _ => hclear⟩

theorem Laid.bits (h : Laid bp bp' n v) (hstring : bp.start ≤ bp.stop) :
    bp'.bits = natBits n v ++ bp.bits := by
  have hstart := h.start
  have hstop := h.back.stop
  unfold Abuf.bits
  rw [show bp'.stop - bp'.start = n + (bp.stop - bp.start) by omega, window_add,
    window_natBits h.new, hstart]
  congr 1
  apply window_shift
  intro i _
  exact h.keep _ (Nat.le_add_right _ i)

/-- `asn_push_bits` puts the bits in front of the string and touches no byte behind the first one;
without room it changes nothing. -/
theorem asnPushBits_prepends (v : ℕ) (hhead : 0 < bp.head) (hspace : bp.headHeadspaceBits < 8)
    (hstring : bp.start ≤ bp.stop) (hn : 0 < n) :
    (n ≤ abufHeadroomBits bp → ∃ bp', asnPushBits bp v n = ((n : ℤ), bp') ∧
      bp'.bits = natBits n v ++ bp.bits ∧ (∀ a, bp.data < a → bp'.mem a = bp.mem a) ∧
      SameBack bp bp' ∧ bp'.headHeadspaceBits < 8) ∧
    (abufHeadroomBits bp < n → asnPushBits bp v n = (-1, bp)) := by
  constructor
  · intro hroom
    have hstart : bp.start = 8 * bp.data + bp.headHeadspaceBits := rfl
    rw [abufHeadroomBits] at hroom
    obtain ⟨bp', heq, hlaid, hspace', -⟩ := laid_pushBits (v := v) hspace.le hhead hn (by omega)
    exact ⟨bp', heq, hlaid.bits hstring, hlaid.bytes, hlaid.back, hspace'⟩
  · intro hnone
    unfold asnPushBits
    exact if_neg fun hroom => absurd hroom.2 (not_le.mpr hnone)

/-- A buffer of 2 bytes behind 4 bytes of headroom, with garbage in the 3 bits of headspace. -/
def crowdedBuffer : Abuf where
  mem := fun _ => 0xff
  head := 16
  size := 6
  headHeadspaceBits := 3
  tailBitsLeft := 4
  data := 20
  tail := 21
  endp := 22

theorem asnPushBits_prepends_crowded :
    ∃ bp', asnPushBits crowdedBuffer 0x12345 17 = (17, bp') ∧
      bp'.bits = natBits 17 0x12345 ++ crowdedBuffer.bits := by
  have hhead : 0 < crowdedBuffer.head := by decide
  obtain ⟨bp', heq, hbits, -⟩ := (asnPushBits_prepends (n := 17) 0x12345 hhead (by decide)
    (by decide) (by decide)).1 (by decide)
  exact ⟨bp', heq, hbits⟩

end Laid

/-! ### Buffers that nothing is written around -/

section Front
variable {bp bp' : Abuf} {s : List Bool} {n v : ℕ}

theorem Holds.lay (h : Holds bp s) (hlaid : Laid bp bp' n v) (hclear : FrontClear bp') :
    Holds bp' (natBits n v ++ s) where
  headspace := hlaid.headspace
  bitsLeft := hlaid.back.bitsLeft ▸ h.bitsLeft
  length := by
    rw [hlaid.back.stop, List.length_append, length_natBits, ← Nat.add_assoc, hlaid.start,
      h.length]
  bits := by
    rw [hasAt_append]
    constructor
    · rw [HasAt, length_natBits]
      exact window_natBits hlaid.new
    · rw [length_natBits, hlaid.start]
      apply hasAt_shift h.bits
      intro i _
      exact hlaid.keep _ (Nat.le_add_right _ i)
  front := hclear
  behind := by
    have hlength := h.length
    intro i hl hr
    rw [hlaid.back.stop] at hl
    rw [hlaid.back.endp] at hr
    rw [hlaid.keep i (by omega)]
    exact h.behind i hl hr

/-- `asn_push_bits` puts a field in front and leaves less than a byte of headspace. -/
theorem Holds.pushBits (h : Holds bp s) (hspace : bp.headHeadspaceBits < 8) (hhead : 0 < bp.head)
    (hn : 0 < n) (hroom : 8 * bp.head + n ≤ bp.start) :
    ∃ bp', asnPushBits bp v n = ((n : ℤ), bp') ∧ Holds bp' (natBits n v ++ s) ∧ SameBack bp bp' ∧
      bp'.start + n = bp.start ∧ bp'.headHeadspaceBits < 8 := by
  obtain ⟨bp', heq, hlaid, hspace', hclear⟩ := laid_pushBits (v := v) hspace.le hhead hn hroom
  exact ⟨bp', heq, h.lay hlaid (hclear hspace h.front), hlaid.back, hlaid.start, hspace'⟩

/-- The byte in front of a string that begins on a byte boundary. -/
theorem laid_byteBefore (hspace : bp.headHeadspaceBits = 0) (hdata : 0 < bp.data) :
    Laid bp { bp.setByte (bp.data - 1) (UInt8.ofNat v) with data := bp.data - 1 } 8 v := by
  have hretreat := laid_retreat (v := v) hspace hdata
  have hboth := hretreat.comp (laid_byte rfl) (Nat.sub_le _ _)
  obtain ⟨mem, head, size, headspace, left, data, tail, endp⟩ := bp
  cases hspace
  exact hboth

end Front

end Tulux.QCoder
