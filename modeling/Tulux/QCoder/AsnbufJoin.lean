import Tulux.QCoder.AsnbufMerge

/-! `abuf_merge` of any two buffers that meet between two bytes or share one. -/
namespace Tulux.QCoder
open BitString

/-- A buffer in its block. The bits that are reserved at its head are zero. -/
structure InBlock (bp : Abuf) (s : List Bool) : Prop extends Holds bp s where
  pos : 0 < bp.data
  inside : bp.stop ≤ 8 * bp.endp
  reserved : ∀ i, 8 * bp.data ≤ i → i < bp.start → memBits bp.mem i = false

/-- The unused bits of the first buffer and the reserved ones of the second add up to bytes. -/
def Meets (first addOn : Abuf) : Prop :=
  (first.tailBitsLeft = 0 ∨ first.tailBitsLeft = 8) ∧
      (addOn.headHeadspaceBits = 0 ∨ addOn.headHeadspaceBits = 8) ∨
    first.tailBitsLeft + addOn.headHeadspaceBits = 8

/-- The strings are joined, or the first buffer stays as it is when they have no room in it. -/
structure Merges (first addOn : Abuf) (s t : List Bool) : Prop where
  joined : first.stop + t.length ≤ 8 * first.endp → Holds (abufMerge first addOn).2 (s ++ t)
  full : ¬ first.stop + t.length ≤ 8 * first.endp → abufMerge first addOn = (-1, first)

/-- With room, the second buffer ends inside a byte or is trimmed, and does not reserve a byte for
one that the first has free; else both do, and the second has zeros only. Without room, a byte is
shared, and the copy ends more than a byte behind the block. -/
def MergeSafe (first addOn : Abuf) (t : List Bool) : Prop :=
  if first.stop + t.length ≤ 8 * first.endp then
    addOn.tailBitsLeft < 8 ∧ ¬ (first.tailBitsLeft = 8 ∧ addOn.headHeadspaceBits = 8) ∨
      first.tailBitsLeft = 8 ∧ addOn.headHeadspaceBits = 8 ∧ addOn.tailBitsLeft = 8 ∧
        ∀ b ∈ t, b = false
  else (addOn.headHeadspaceBits ≠ 0 ∨ first.tailBitsLeft ≠ 0) ∧
    (first.endp : ℤ) + 1 < first.tail + abufByteLen addOn

instance (first addOn : Abuf) : Decidable (Meets first addOn) :=
  inferInstanceAs (Decidable (_ ∨ _))

instance (first addOn : Abuf) (t : List Bool) : Decidable (MergeSafe first addOn t) :=
  inferInstanceAs (Decidable (ite _ _ _))

/-! ### What a merge does -/

section Merge
variable {first addOn : Abuf} {s t : List Bool}

theorem Holds.byteLen_nonneg {bp : Abuf} (h : Holds bp s) : 0 ≤ abufByteLen bp := by
  have hlength := h.length
  have hleft := h.bitsLeft
  rw [Abuf.start, Abuf.stop] at hlength
  rw [abufByteLen]
  split_ifs <;> omega

/-- With a whole byte left the last byte is not counted. -/
theorem byteLen_of_free {bp : Abuf} (h : bp.tailBitsLeft = 8) (hle : bp.data ≤ bp.tail) :
    abufByteLen bp = (bp.tail - bp.data : ℕ) := by
  rw [abufByteLen, if_neg (not_not_intro h), Nat.cast_sub hle, add_zero]

theorem byteLen_of_used {bp : Abuf} (h : bp.tailBitsLeft ≠ 8) (hle : bp.data ≤ bp.tail + 1) :
    abufByteLen bp = (bp.tail + 1 - bp.data : ℕ) := by
  rw [abufByteLen, if_pos h, Nat.cast_sub hle]
  push_cast
  ring

/-- A byte is shared, and there is room by the check of the source. -/
theorem abufMerge_shared (hshared : addOn.headHeadspaceBits ≠ 0 ∨ first.tailBitsLeft ≠ 0) {len : ℕ}
    (hlen : abufByteLen addOn = len) (hput : first.tail + len ≤ first.endp + 1) :
    ∃ m, abufMerge first addOn = (abufByteLen m, m) ∧ SameFront first m ∧
      m.tail = (first.tail + ((len : ℤ) - 1)).toNat ∧ m.tailBitsLeft = addOn.tailBitsLeft ∧
      ∀ i, memBits m.mem i = if 8 * first.tail ≤ i ∧ i < 8 * (first.tail + len) then
        memBits addOn.mem (8 * addOn.data + (i - 8 * first.tail)) ||
          (decide (i < 8 * first.tail + 8) && memBits first.mem i) else memBits first.mem i := by
  unfold abufMerge abufPutInt
  dsimp only
  rw [if_pos hshared, hlen, if_neg (by omega)]
  exact ⟨_, rfl, ⟨rfl, rfl, rfl, rfl, rfl⟩, rfl, rfl, memBits_shared len⟩

theorem abufMerge_full (hshared : addOn.headHeadspaceBits ≠ 0 ∨ first.tailBitsLeft ≠ 0)
    (hput : (first.endp : ℤ) + 1 < first.tail + abufByteLen addOn) :
    abufMerge first addOn = (-1, first) := by
  unfold abufMerge abufPutInt
  dsimp only
  rw [if_pos hshared, if_pos (by omega)]

/-- Between two bytes, the source never reports an error. -/
theorem abufMerge_aligned (haligned : ¬ (addOn.headHeadspaceBits ≠ 0 ∨ first.tailBitsLeft ≠ 0)) :
    ∃ m, abufMerge first addOn = (abufByteLen m, m) ∧ m.tailBitsLeft = addOn.tailBitsLeft := by
  unfold abufMerge
  dsimp only
  rw [if_neg haligned]
  exact ⟨_, rfl, rfl⟩

theorem abufMerge_aligned_put
    (haligned : ¬ (addOn.headHeadspaceBits ≠ 0 ∨ first.tailBitsLeft ≠ 0)) {len : ℕ}
    (hlen : abufByteLen addOn = len) (hput : first.tail + len ≤ first.endp) :
    (abufMerge first addOn).2 =
      { first with
        mem := (first.copyBytes (first.tail + 1) addOn.mem addOn.data len).mem
        tail := first.tail + len
        tailBitsLeft := addOn.tailBitsLeft } := by
  unfold abufMerge
  dsimp only
  rw [if_neg haligned, hlen, abufPutInt_natCast, abufPut, if_neg (by omega)]
  rfl

/-- Whatever is copied, the result is the length of a buffer, unless it is -1. -/
theorem abufMerge_ne_full (h : Holds first s) {m : Abuf}
    (hmerge : abufMerge first addOn = (abufByteLen m, m)) :
    abufMerge first addOn ≠ (-1, first) := by
  intro hfull
  rw [hmerge, Prod.mk.injEq] at hfull
  obtain ⟨hlen, rfl⟩ := hfull
  have hnonneg := h.byteLen_nonneg
  omega

/-! ### Between two bytes -/

theorem merges_aligned_iff (h : InBlock first s) (h' : InBlock addOn t)
    (hleft : first.tailBitsLeft = 0) (hspace : addOn.headHeadspaceBits = 0) :
    Merges first addOn s t ↔ MergeSafe first addOn t := by
  have haligned : ¬ (addOn.headHeadspaceBits ≠ 0 ∨ first.tailBitsLeft ≠ 0) := by omega
  have hlength := h.length
  have hlength' := h'.length
  have hleft' := h'.bitsLeft
  have hstop : first.stop = 8 * first.tail + 8 := by rw [Abuf.stop, hleft]; omega
  have hstart' : addOn.start = 8 * addOn.data := by rw [Abuf.start, hspace, Nat.add_zero]
  have hstop' : addOn.stop = 8 * addOn.tail + (8 - addOn.tailBitsLeft) := by rw [Abuf.stop]; omega
  unfold MergeSafe
  by_cases hroom : first.stop + t.length ≤ 8 * first.endp
  · rw [if_pos hroom]
    by_cases htrim : addOn.tailBitsLeft = 8
    · -- the last byte of the second buffer is lost
      refine iff_of_false (fun hmerges => ?_) (by omega)
      have hlen := byteLen_of_free htrim (by omega)
      have hjoined := (hmerges.joined hroom).length
      rw [abufMerge_aligned_put haligned hlen (by omega), List.length_append] at hjoined
      change first.start + _ = 8 * (first.tail + _) + 8 - addOn.tailBitsLeft at hjoined
      omega
    · refine iff_of_true ⟨fun _ => ?_, fun hnot => absurd hroom hnot⟩ (.inl ⟨by omega, by omega⟩)
      obtain ⟨len, hlen⟩ : ∃ len, addOn.tail + 1 = addOn.data + len :=
        ⟨addOn.tail + 1 - addOn.data, by omega⟩
      have hbytes : abufByteLen addOn = len := by
        rw [byteLen_of_used htrim (by omega), hlen, Nat.add_sub_cancel_left]
      have hbehind : first.stop = 8 * (first.tail + 1) + addOn.headHeadspaceBits := by omega
      rw [abufMerge_aligned_put haligned hbytes (by omega)]
      refine h.join h'.toHolds h'.reserved hbehind (by omega) h'.inside hroom hlen (by omega)
        fun i => ?_
      rw [memBits_copyBytes]
      split_ifs with hin
      · rw [h.behind i (by omega) (by omega), Bool.and_false, Bool.or_false]
      · rfl
  · rw [if_neg hroom]
    refine iff_of_false (fun hmerges => ?_) fun hsafe => haligned hsafe.1
    obtain ⟨m, hm, -⟩ := abufMerge_aligned haligned
    exact abufMerge_ne_full h.toHolds hm (hmerges.full hroom)

/-! ### A byte that is shared -/

/-- Without room, the source finds out exactly if a byte more than the block would not do. -/
theorem full_iff (h : Holds first s) (h' : Holds addOn t)
    (hshared : addOn.headHeadspaceBits ≠ 0 ∨ first.tailBitsLeft ≠ 0) :
    abufMerge first addOn = (-1, first) ↔
      (first.endp : ℤ) + 1 < first.tail + abufByteLen addOn := by
  constructor
  · intro hfull
    by_contra hput
    obtain ⟨len, hlen⟩ := Int.eq_ofNat_of_zero_le h'.byteLen_nonneg
    obtain ⟨m, hm, -⟩ := abufMerge_shared hshared hlen (by omega)
    exact abufMerge_ne_full h hm hfull
  · exact abufMerge_full hshared

theorem merges_full_iff (h : Holds first s) (h' : Holds addOn t)
    (hshared : addOn.headHeadspaceBits ≠ 0 ∨ first.tailBitsLeft ≠ 0)
    (hroom : ¬ first.stop + t.length ≤ 8 * first.endp) :
    Merges first addOn s t ↔ MergeSafe first addOn t := by
  rw [MergeSafe, if_neg hroom, and_iff_right hshared, ← full_iff h h' hshared]
  exact ⟨fun hmerges => hmerges.full hroom, fun hfull => ⟨fun hyes => absurd hyes hroom,
    fun _ => hfull⟩⟩

theorem merges_shared_iff (h : InBlock first s) (h' : InBlock addOn t)
    (hjoin : first.tailBitsLeft + addOn.headHeadspaceBits = 8) :
    Merges first addOn s t ↔ MergeSafe first addOn t := by
  have hshared : addOn.headHeadspaceBits ≠ 0 ∨ first.tailBitsLeft ≠ 0 := by omega
  have hlength := h.length
  have hlength' := h'.length
  have hpos := h.pos
  have hleft' := h'.bitsLeft
  have hstart : first.start = 8 * first.data + first.headHeadspaceBits := rfl
  have hstop : first.stop = 8 * first.tail + addOn.headHeadspaceBits := by rw [Abuf.stop]; omega
  have hstart' : addOn.start = 8 * addOn.data + addOn.headHeadspaceBits := rfl
  have hstop' : addOn.stop = 8 * addOn.tail + (8 - addOn.tailBitsLeft) := by rw [Abuf.stop]; omega
  by_cases hroom : first.stop + t.length ≤ 8 * first.endp
  · rw [MergeSafe, if_pos hroom]
    by_cases htrim : addOn.tailBitsLeft = 8
    · -- the last byte of the second buffer is lost
      refine iff_of_false (fun hmerges => ?_) (by omega)
      have hlen := byteLen_of_free htrim (by omega)
      obtain ⟨m, hm, hfront, htail, hbits, -⟩ := abufMerge_shared hshared hlen (by omega)
      have hjoined := (hmerges.joined hroom).length
      rw [hm, hfront.start, List.length_append, Abuf.stop, htail, hbits] at hjoined
      omega
    · refine iff_of_true ⟨fun _ => ?_, fun hnot => absurd hroom hnot⟩ (.inl ⟨by omega, by omega⟩)
      exact (h.mergeShared h'.toHolds (by omega) h'.reserved hjoin (by omega) h'.inside hroom).1
  · exact merges_full_iff h.toHolds h'.toHolds hshared hroom

/-! ### A byte that both have free -/

/-- Where a free byte meets a reserved one, a zero byte gets between the strings. -/
theorem holds_zeros_iff (h : InBlock first s) (h' : InBlock addOn t)
    (hleft : first.tailBitsLeft = 8) (hspace : addOn.headHeadspaceBits = 8)
    (htrim : addOn.tailBitsLeft = 8) (hroom : first.stop + t.length ≤ 8 * first.endp) :
    Holds (abufMerge first addOn).2 (s ++ t) ↔ ∀ b ∈ t, b = false := by
  have hlength := h.length
  have hlength' := h'.length
  have hstop : first.stop = 8 * first.tail := by rw [Abuf.stop, hleft]; omega
  have hstart' : addOn.start = 8 * addOn.data + 8 := by rw [Abuf.start, hspace]
  have hstop' : addOn.stop = 8 * addOn.tail := by rw [Abuf.stop, htrim]; omega
  obtain ⟨len, hlen⟩ : ∃ len, addOn.tail = addOn.data + len :=
    ⟨addOn.tail - addOn.data, by omega⟩
  have hbytes : abufByteLen addOn = len := by
    rw [byteLen_of_free htrim (by omega), hlen, Nat.add_sub_cancel_left]
  have hshared : addOn.headHeadspaceBits ≠ 0 ∨ first.tailBitsLeft ≠ 0 := by omega
  obtain ⟨m, hm, hfront, htail, hbits, hbit⟩ := abufMerge_shared hshared hbytes (by omega)
  -- the copied bits are the reserved byte and then the string
  have hcopied (j : ℕ) (hj : j < 8 * len) (hend : 8 * first.tail + j < 8 * first.endp) :
      memBits m.mem (8 * first.tail + j) = memBits addOn.mem (8 * addOn.data + j) := by
    rw [hbit, if_pos (by omega), h.behind _ (by omega) hend, Bool.and_false, Bool.or_false,
      Nat.add_sub_cancel_left]
  have hzero (j : ℕ) (hj : j < 8) : memBits addOn.mem (8 * addOn.data + j) = false :=
    h'.reserved _ (by omega) (by omega)
  have hstring (j : ℕ) (hj : j < t.length) :
      memBits addOn.mem (8 * addOn.data + (8 + j)) = t[j] := by
    rw [← Nat.add_assoc, ← hstart']
    exact h'.bits.get hj
  rw [hm]
  constructor
  · intro hholds
    have hright := hholds.bits.right
    have hall (j : ℕ) (hj : j < t.length) : t[j] = false := by
      induction j using Nat.strong_induction_on with
      | _ j ih =>
        have hget := hright.get hj
        rw [hfront.start, show first.start + s.length + j = 8 * first.tail + j by omega,
          hcopied j (by omega) (by omega)] at hget
        by_cases hfirst : j < 8
        · rw [← hget, hzero j hfirst]
        · rw [← hget, show j = 8 + (j - 8) by omega, hstring (j - 8) (by omega)]
          exact ih (j - 8) (by omega) (by omega)
    intro b hb
    obtain ⟨j, hj, rfl⟩ := List.mem_iff_getElem.mp hb
    exact hall j hj
  · intro hall
    have hfalse (j : ℕ) (hj : j < 8 * len) : memBits addOn.mem (8 * addOn.data + j) = false := by
      by_cases hfirst : j < 8
      · exact hzero j hfirst
      · rw [show j = 8 + (j - 8) by omega, hstring (j - 8) (by omega)]
        exact hall _ (List.getElem_mem _)
    have hmtail : m.stop = 8 * first.tail + t.length := by
      rw [Abuf.stop, htail, hbits, htrim]
      omega
    constructor
    · rw [hfront.headspace]
      exact h.headspace
    · exact hbits.trans_le h'.bitsLeft
    · rw [hfront.start, List.length_append, hmtail]
      omega
    · rw [hfront.start, hasAt_append]
      constructor
      · apply hasAt_shift h.bits
        intro i hi
        rw [hbit, if_neg (by omega)]
      · apply hasAt_shift h'.bits
        intro i hi
        rw [show first.start + s.length + i = 8 * first.tail + i by omega,
          hcopied i (by omega) (by omega), hfalse i (by omega), hstart', Nat.add_assoc,
          hfalse (8 + i) (by omega)]
    · intro i hl hr
      rw [hfront.start] at hl hr
      rw [hbit, if_neg (by omega)]
      exact h.front i hl hr
    · intro i hl hr
      change m.stop ≤ i at hl
      rw [hmtail] at hl
      rw [hfront.endp] at hr
      by_cases hin : i < 8 * (first.tail + len)
      · have hi := hcopied (i - 8 * first.tail) (by omega) (by omega)
        rwa [hfalse _ (by omega), Nat.add_sub_cancel' (by omega)] at hi
      · rw [hbit, if_neg (by omega)]
        exact h.behind i (by omega) hr

theorem merges_free_iff (h : InBlock first s) (h' : InBlock addOn t)
    (hleft : first.tailBitsLeft = 8) (hspace : addOn.headHeadspaceBits = 8) :
    Merges first addOn s t ↔ MergeSafe first addOn t := by
  have hshared : addOn.headHeadspaceBits ≠ 0 ∨ first.tailBitsLeft ≠ 0 := by omega
  have hlength := h.length
  have hlength' := h'.length
  have hleft' := h'.bitsLeft
  have hstop : first.stop = 8 * first.tail := by rw [Abuf.stop, hleft]; omega
  have hstart' : addOn.start = 8 * addOn.data + 8 := by rw [Abuf.start, hspace]
  have hstop' : addOn.stop = 8 * addOn.tail + (8 - addOn.tailBitsLeft) := by rw [Abuf.stop]; omega
  by_cases hroom : first.stop + t.length ≤ 8 * first.endp
  · rw [MergeSafe, if_pos hroom]
    by_cases htrim : addOn.tailBitsLeft = 8
    · have hzeros := holds_zeros_iff h h' hleft hspace htrim hroom
      constructor
      · intro hmerges
        exact .inr ⟨hleft, hspace, htrim, hzeros.mp (hmerges.joined hroom)⟩
      · rintro (⟨hlt, -⟩ | ⟨-, -, -, hall⟩)
        · omega
        · exact ⟨fun _ => hzeros.mpr hall, fun hnot => absurd hroom hnot⟩
    · -- the free byte is counted among those of the second buffer
      refine iff_of_false (fun hmerges => ?_) (by omega)
      have hlen := byteLen_of_used htrim (by omega)
      obtain ⟨m, hm, hfront, htail, hbits, -⟩ := abufMerge_shared hshared hlen (by omega)
      have hjoined := (hmerges.joined hroom).length
      rw [hm, hfront.start, List.length_append, Abuf.stop, htail, hbits] at hjoined
      omega
  · exact merges_full_iff h.toHolds h'.toHolds hshared hroom

/-- Two buffers that meet are merged as they should be exactly when it is safe. -/
theorem merges_iff (h : InBlock first s) (h' : InBlock addOn t) (hmeets : Meets first addOn) :
    Merges first addOn s t ↔ MergeSafe first addOn t := by
  by_cases hjoin : first.tailBitsLeft + addOn.headHeadspaceBits = 8
  · exact merges_shared_iff h h' hjoin
  · obtain ⟨hleft, hspace⟩ := hmeets.resolve_right hjoin
    rcases hleft with hleft | hleft <;> rcases hspace with hspace | hspace
    · exact merges_aligned_iff h h' hleft hspace
    · omega
    · omega
    · exact merges_free_iff h h' hleft hspace

theorem InBlock.trim {bp : Abuf} (h : InBlock bp s) (hspace : bp.headHeadspaceBits < 8)
    (hpos : 0 < s.length) : InBlock (abufTrim bp) s := by
  obtain ⟨hholds, -, hend, hdata, hspace', -⟩ := h.toHolds.trim hspace hpos
  have hstart : (abufTrim bp).start = bp.start := by rw [Abuf.start, Abuf.start, hdata, hspace']
  have hmem : (abufTrim bp).mem = bp.mem := by
    unfold abufTrim
    dsimp only
    split_ifs <;> rfl
  refine ⟨hholds, by rw [hdata]; exact h.pos, ?_, ?_⟩
  · have hlength := h.length
    have hlength' := hholds.length
    have hinside := h.inside
    rw [hend]
    omega
  · rw [hdata, hstart, hmem]
    exact h.reserved

theorem inBlock_byte (v size : ℕ) (hsize : 0 < size) :
    InBlock (ncat v 8 (abufAlloc 1 size 0)) (natBits 8 v) := by
  obtain ⟨hholds, hfront⟩ := appends_ncat v 8 _ _ (holds_alloc 1 size 0) (by
    rw [length_natBits]
    change 8 * 1 + 8 - 8 + 8 ≤ 8 * (1 + size)
    omega)
  refine ⟨hholds, ?_, ?_, ?_⟩
  · rw [hfront.data]
    exact Nat.one_pos
  · change 8 * (1 + 1) + 8 - 8 ≤ 8 * (1 + size)
    omega
  · intro i hl hr
    rw [hfront.data] at hl
    rw [hfront.start] at hr
    change i < 8 * 1 at hr
    change 8 * 1 ≤ i at hl
    omega

/-- Two trimmed bytes. -/
theorem merges_iff_bytes :
    Merges (abufTrim (ncat 0xa5 8 (abufAlloc 1 4 0))) (abufTrim (ncat 0x5a 8 (abufAlloc 1 4 0)))
        (natBits 8 0xa5) (natBits 8 0x5a) ↔
      MergeSafe (abufTrim (ncat 0xa5 8 (abufAlloc 1 4 0)))
        (abufTrim (ncat 0x5a 8 (abufAlloc 1 4 0))) (natBits 8 0x5a) :=
  merges_iff ((inBlock_byte 0xa5 4 (by decide)).trim (by decide) (by decide))
    ((inBlock_byte 0x5a 4 (by decide)).trim (by decide) (by decide)) (by decide)

/-- A byte that is not trimmed is lost, and a byte for which there is no room is copied. -/
theorem not_merges :
    let first (size : ℕ) := abufTrim (ncat 0xa5 8 (abufAlloc 1 size 0))
    let addOn := ncat 0x5a 8 (abufAlloc 1 4 0)
    (InBlock (first 4) (natBits 8 0xa5) ∧ InBlock addOn (natBits 8 0x5a) ∧ Meets (first 4) addOn ∧
      (first 4).stop + 8 ≤ 8 * (first 4).endp ∧
        ¬ Merges (first 4) addOn (natBits 8 0xa5) (natBits 8 0x5a)) ∧
    InBlock (first 1) (natBits 8 0xa5) ∧ InBlock (abufTrim addOn) (natBits 8 0x5a) ∧
      Meets (first 1) (abufTrim addOn) ∧ ¬ (first 1).stop + 8 ≤ 8 * (first 1).endp ∧
        (abufMerge (first 1) (abufTrim addOn)).1 = 2 ∧
          ¬ Merges (first 1) (abufTrim addOn) (natBits 8 0xa5) (natBits 8 0x5a) := by
  intro first addOn
  have haddOn : InBlock addOn (natBits 8 0x5a) := inBlock_byte 0x5a 4 (by decide)
  constructor
  · have h := (inBlock_byte 0xa5 4 (by decide)).trim (by decide) (by decide)
    exact ⟨h, haddOn, by decide, by decide, fun hmerges =>
      absurd ((merges_aligned_iff h haddOn (by decide) (by decide)).mp hmerges) (by decide)⟩
  · have h := (inBlock_byte 0xa5 1 (by decide)).trim (by decide) (by decide)
    have haddOn := haddOn.trim (by decide) (by decide)
    exact ⟨h, haddOn, by decide, by decide, by decide, fun hmerges =>
      absurd ((merges_aligned_iff h haddOn (by decide) (by decide)).mp hmerges) (by decide)⟩

end Merge

end Tulux.QCoder
