import Tulux.QCoder.AsnbufRead

/-! A bit buffer holds a string of bits. The operations of `asnbuf.h` append to the string, put
bits in front of it, and join two of them. -/
namespace Tulux.QCoder
open BitString

namespace Abuf

/-- The position of the first bit. -/
def start (bp : Abuf) : ℕ := 8 * bp.data + bp.headHeadspaceBits

/-- The position behind the last bit. -/
def stop (bp : Abuf) : ℕ := 8 * bp.tail + 8 - bp.tailBitsLeft

end Abuf

/-- The buffer holds the bits `s`. The bits before them in their first byte are zero, and so are
the bits behind them up to the end of the buffer. -/
structure Holds (bp : Abuf) (s : List Bool) : Prop where
  headspace : bp.headHeadspaceBits ≤ 8
  bitsLeft : bp.tailBitsLeft ≤ 8
  length : bp.start + s.length = bp.stop
  bits : HasAt (memBits bp.mem) bp.start s
  front : ∀ i, 8 * (bp.start / 8) ≤ i → i < bp.start → memBits bp.mem i = false
  behind : ∀ i, bp.stop ≤ i → i < 8 * bp.endp → memBits bp.mem i = false

/-- Appending leaves the front of the buffer alone. -/
structure SameFront (bp bp' : Abuf) : Prop where
  head : bp'.head = bp.head
  size : bp'.size = bp.size
  endp : bp'.endp = bp.endp
  data : bp'.data = bp.data
  headspace : bp'.headHeadspaceBits = bp.headHeadspaceBits

/-- `f` appends the bits `s`, if there is room for them. -/
def Appends (f : Abuf → Abuf) (s : List Bool) : Prop :=
  ∀ bp t, Holds bp t → bp.stop + s.length ≤ 8 * bp.endp →
    Holds (f bp) (t ++ s) ∧ SameFront bp (f bp)

namespace SameFront
variable {bp bp' bp'' : Abuf}

theorem refl (bp : Abuf) : SameFront bp bp := ⟨rfl, rfl, rfl, rfl, rfl⟩

theorem trans (h : SameFront bp bp') (h' : SameFront bp' bp'') : SameFront bp bp'' where
  head := h'.head.trans h.head
  size := h'.size.trans h.size
  endp := h'.endp.trans h.endp
  data := h'.data.trans h.data
  headspace := h'.headspace.trans h.headspace

theorem start (h : SameFront bp bp') : bp'.start = bp.start := by
  rw [Abuf.start, Abuf.start, h.data, h.headspace]

end SameFront

namespace Holds
variable {bp bp' : Abuf} {s t : List Bool}

/-- What a step has to do to append a field. -/
theorem append {n v : ℕ} (h : Holds bp s) (hfront : SameFront bp bp')
    (hleft : bp'.tailBitsLeft ≤ 8) (hstop : bp'.stop = bp.stop + n)
    (hkeep : ∀ i < bp.stop, memBits bp'.mem i = memBits bp.mem i)
    (hnew : ∀ j < n, memBits bp'.mem (bp.stop + j) = v.testBit (n - 1 - j))
    (hclean : ∀ i, bp.stop + n ≤ i → i < 8 * bp.endp → memBits bp'.mem i = false) :
    Holds bp' (s ++ natBits n v) where
  headspace := hfront.headspace ▸ h.headspace
  bitsLeft := hleft
  length := by
    rw [hfront.start, List.length_append, length_natBits, ← Nat.add_assoc, h.length, hstop]
  bits := by
    have hlength := h.length
    rw [hfront.start, hasAt_append]
    constructor
    · apply hasAt_shift h.bits
      intro i hi
      exact hkeep _ (by omega)
    · rw [h.length, HasAt, length_natBits]
      exact window_natBits hnew
  front := by
    have hlength := h.length
    intro i hl hr
    rw [hfront.start] at hl hr
    rw [hkeep i (by omega)]
    exact h.front i hl hr
  behind := by
    intro i hl hr
    rw [hfront.endp] at hr
    exact hclean i (by omega) hr

end Holds

/-! ### Appending -/

namespace Appends
variable {f g : Abuf → Abuf} {s t : List Bool}

theorem nil : Appends (fun bp => bp) [] := by
  intro bp t h _
  rw [List.append_nil]
  exact ⟨h, SameFront.refl bp⟩

theorem comp (hf : Appends f s) (hg : Appends g t) : Appends (fun bp => g (f bp)) (s ++ t) := by
  intro bp u h hroom
  have hlength := h.length
  rw [List.length_append] at hroom
  obtain ⟨hfs, hff⟩ := hf bp u h (by omega)
  have hflength := hfs.length
  rw [hff.start, List.length_append] at hflength
  have hfend := hff.endp
  obtain ⟨hgs, hgf⟩ := hg (f bp) (u ++ s) hfs (by omega)
  exact ⟨by rwa [← List.append_assoc], hff.trans hgf⟩

/-- An option that is appended only when it is there. -/
theorem ite {c : Prop} [Decidable c] (hf : Appends f s) :
    Appends (fun bp => if c then f bp else bp) (if c then s else []) := by
  by_cases hc : c
  · simpa only [if_pos hc] using hf
  · simpa only [if_neg hc] using nil

end Appends

theorem memBits_setByte (bp : Abuf) (a : ℕ) (b : UInt8) (i : ℕ) :
    memBits (bp.setByte a b).mem i =
      if i / 8 = a then b.toNat.testBit (7 - i % 8) else memBits bp.mem i := by
  change memBits (Function.update bp.mem a b) i = _
  split_ifs with h
  · rw [memBits, h, Function.update_self]
  · exact memBits_update_ne bp.mem b h

section Steps
variable {bp : Abuf} {s : List Bool} {n v : ℕ}

/-- Nothing has been written behind the string. -/
theorem Holds.mem_tail (h : Holds bp s) (hleft : bp.tailBitsLeft = 8) (hroom : bp.tail < bp.endp) :
    bp.mem bp.tail = 0 := by
  apply byte_eq_zero
  intro j hj
  have hstop : bp.stop = 8 * bp.tail := by rw [Abuf.stop, hleft]; omega
  exact h.behind _ (by omega) (by omega)

/-- `n` bits are put into the last byte, above what is left of it. -/
theorem Holds.fill {b : UInt8} (h : Holds bp s) (hn : n ≤ bp.tailBitsLeft)
    (hroom : bp.tail < bp.endp)
    (hb : b.toNat = (bp.mem bp.tail).toNat ||| (v % 2 ^ n) <<< (bp.tailBitsLeft - n)) :
    Holds { bp.setByte bp.tail b with tailBitsLeft := bp.tailBitsLeft - n } (s ++ natBits n v) := by
  have hle := h.bitsLeft
  have hstop : bp.stop = 8 * bp.tail + (8 - bp.tailBitsLeft) := by rw [Abuf.stop]; omega
  have hbyte (j : ℕ) (hj : j < 8) : memBits (bp.setByte bp.tail b).mem (8 * bp.tail + j) =
      (memBits bp.mem (8 * bp.tail + j) ||
        (decide (bp.tailBitsLeft - n ≤ 7 - j) &&
          (v % 2 ^ n).testBit (7 - j - (bp.tailBitsLeft - n)))) := by
    rw [memBits_setByte, if_pos (by omega), memBits_byte _ _ hj, hb, Nat.testBit_or,
      Nat.testBit_shiftLeft, Nat.mul_add_mod, Nat.mod_eq_of_lt hj]
  apply h.append (n := n) (v := v)
  · exact ⟨rfl, rfl, rfl, rfl, rfl⟩
  · exact (Nat.sub_le _ _).trans hle
  · rw [hstop, Abuf.stop]
    dsimp only [Abuf.setByte]
    omega
  · intro i hi
    change memBits (bp.setByte bp.tail b).mem i = _
    by_cases htail : i / 8 = bp.tail
    · rw [show i = 8 * bp.tail + i % 8 by omega, hbyte _ (by omega),
        Nat.testBit_lt_two_pow (i := 7 - i % 8 - (bp.tailBitsLeft - n)), Bool.and_false,
        Bool.or_false]
      exact (Nat.mod_lt _ (by positivity)).trans_le (Nat.pow_le_pow_right (by omega) (by omega))
    · rw [memBits_setByte, if_neg htail]
  · intro j hj
    change memBits (bp.setByte bp.tail b).mem _ = _
    rw [hstop, Nat.add_assoc, hbyte _ (by omega), ← Nat.add_assoc, ← hstop,
      h.behind _ (by omega) (by omega), Bool.false_or, decide_eq_true (by omega), Bool.true_and,
      Nat.testBit_mod_two_pow, decide_eq_true (by omega), Bool.true_and]
    congr 1
    omega
  · intro i hl hr
    change memBits (bp.setByte bp.tail b).mem i = _
    by_cases htail : i / 8 = bp.tail
    · rw [show i = 8 * bp.tail + i % 8 by omega, hbyte _ (by omega),
        show 8 * bp.tail + i % 8 = i by omega, h.behind i (by omega) hr,
        decide_eq_false (by omega), Bool.false_and, Bool.or_false]
    · rw [memBits_setByte, if_neg htail]
      exact h.behind i (by omega) hr

/-- The last byte is full. -/
theorem Holds.advance (h : Holds bp s) (hleft : bp.tailBitsLeft = 0) :
    Holds { bp with tail := bp.tail + 1, tailBitsLeft := 8 } s := by
  have hstop : ({ bp with tail := bp.tail + 1, tailBitsLeft := 8 } : Abuf).stop = bp.stop := by
    rw [Abuf.stop, Abuf.stop, hleft]
    dsimp only
    omega
  constructor
  · exact h.headspace
  · exact le_rfl
  · rw [hstop]
    exact h.length
  · exact h.bits
  · exact h.front
  · rw [hstop]
    exact h.behind

theorem Holds.tailReady (h : Holds bp s) : Holds (abufTailReady bp) s := by
  unfold abufTailReady
  split_ifs with hc
  · exact h.advance (by omega)
  · exact h

theorem SameFront.tailReady {bp' : Abuf} (h : SameFront bp bp') :
    SameFront bp (abufTailReady bp') := by
  unfold abufTailReady
  split_ifs
  · exact ⟨h.head, h.size, h.endp, h.data, h.headspace⟩
  · exact h

theorem tailReady_eq (hleft : bp.tailBitsLeft = 0) (hroom : bp.tail < bp.endp) :
    abufTailReady bp = { bp with tail := bp.tail + 1, tailBitsLeft := 8 } := by
  rw [abufTailReady, if_pos]
  rw [abufTailroom]
  omega

theorem Holds.putByte (h : Holds bp s) (hleft : bp.tailBitsLeft = 8) (hroom : bp.tail < bp.endp) :
    Holds { bp.setByte bp.tail (UInt8.ofNat v) with tail := bp.tail + 1 } (s ++ natBits 8 v) := by
  have hfill := h.fill (n := 8) (v := v) (b := UInt8.ofNat v) hleft.ge hroom
    (by rw [h.mem_tail hleft hroom, hleft, UInt8.toNat_ofNat']; simp)
  have hadvance := hfill.advance (by dsimp only; omega)
  obtain ⟨mem, head, size, headspace, left, data, tail, endp⟩ := bp
  cases hleft
  exact hadvance

/-- What is left after whole bytes fits in the last byte. -/
theorem Holds.ncatBytes (m : ℕ) (h : Holds bp s) (hleft : bp.tailBitsLeft = 8)
    (hroom : bp.stop + m ≤ 8 * bp.endp) :
    ∃ bp', ncatBytes bp v m = (bp', m % 8) ∧ SameFront bp bp' ∧ bp'.tailBitsLeft = 8 ∧
      Holds bp' (s ++ natBits (m - m % 8) (v / 2 ^ (m % 8))) := by
  induction m using Nat.strong_induction_on generalizing bp s with
  | _ m ih =>
    unfold QCoder.ncatBytes
    have hstop : bp.stop = 8 * bp.tail := by rw [Abuf.stop, hleft]; omega
    split_ifs with hm
    · have hbyte : (v &&& (0xff <<< (m - 8))) >>> (m - 8) = v / 2 ^ (m - 8) % 2 ^ 8 :=
        and_mask_shiftRight v 8 (m - 8)
      have hput := h.putByte (v := v / 2 ^ (m - 8) % 2 ^ 8) hleft (by omega)
      rw [natBits_mod] at hput
      have hput_stop : ({ bp.setByte bp.tail (UInt8.ofNat (v / 2 ^ (m - 8) % 2 ^ 8)) with
          tail := bp.tail + 1 } : Abuf).stop = bp.stop + 8 := by
        rw [hstop, Abuf.stop]
        change 8 * (bp.tail + 1) + 8 - bp.tailBitsLeft = _
        omega
      obtain ⟨bp', heq, hfront, hleft', hholds⟩ := ih (m - 8) (by omega) hput hleft
        (by rw [hput_stop]; change _ ≤ 8 * bp.endp; omega)
      refine ⟨bp', ?_, ?_, hleft', ?_⟩
      · dsimp only
        rw [hbyte, heq, Nat.mod_eq_sub_mod hm]
      · exact ⟨hfront.head, hfront.size, hfront.endp, hfront.data, hfront.headspace⟩
      · obtain ⟨k, hk⟩ : ∃ k, k = m - 8 - (m - 8) % 8 := ⟨_, rfl⟩
        have hjoin : natBits 8 (v / 2 ^ (m - 8)) ++ natBits k (v / 2 ^ ((m - 8) % 8)) =
            natBits (m - m % 8) (v / 2 ^ (m % 8)) := by
          rw [Nat.mod_eq_sub_mod hm, show m - (m - 8) % 8 = 8 + k by omega, natBits_add,
            Nat.div_div_eq_div_mul, ← pow_add, show (m - 8) % 8 + k = m - 8 by omega]
        rwa [← hjoin, ← List.append_assoc, hk]
    · have hmod : m % 8 = m := Nat.mod_eq_of_lt (by omega)
      refine ⟨bp, ?_, SameFront.refl bp, hleft, ?_⟩
      · rw [hmod]
      · rwa [hmod, Nat.sub_self, natBits, List.append_nil]

/-- The bits of a field that go into one byte. -/
theorem toNat_ofNat_bits {x k m : ℕ} (hkm : k + m ≤ 8) :
    (UInt8.ofNat ((x % 2 ^ k) <<< m)).toNat = (x % 2 ^ k) <<< m := by
  have hlt : x % 2 ^ k < 2 ^ k := Nat.mod_lt _ (by positivity)
  have hle : 2 ^ k * 2 ^ m ≤ 2 ^ 8 := by
    rw [← pow_add]
    exact Nat.pow_le_pow_right (by omega) hkm
  rw [UInt8.toNat_ofNat', Nat.shiftLeft_eq]
  apply Nat.mod_eq_of_lt
  exact (Nat.mul_lt_mul_of_pos_right hlt (by positivity)).trans_le hle

/-- There is room for bits behind a byte that is full. -/
theorem abufCheckPutTailroom_nonneg {m : ℕ} (hm : 0 < m) (hleft : bp.tailBitsLeft = 0)
    (hroom : bp.stop + m ≤ 8 * bp.endp) : 0 ≤ abufCheckPutTailroom bp m := by
  rw [Abuf.stop, hleft] at hroom
  rw [abufCheckPutTailroom, if_pos hm, hleft, if_pos hm]
  dsimp only
  rw [if_neg]
  · exact Int.natCast_nonneg _
  · rw [abufTailroom]
    omega

theorem Holds.ncatMore {m : ℕ} (h : Holds bp s) (hm : 0 < m) (hleft : bp.tailBitsLeft = 0)
    (hroom : bp.stop + m ≤ 8 * bp.endp) :
    ∃ bp', ncatMore bp v m = (0, bp') ∧ SameFront bp bp' ∧ Holds bp' (s ++ natBits m v) := by
  have hstop : bp.stop = 8 * bp.tail + 8 := by rw [Abuf.stop, hleft]; omega
  have hcheck := abufCheckPutTailroom_nonneg hm hleft hroom
  have hready := h.advance hleft
  obtain ⟨bp', heq, hfront, hleft', hholds⟩ := hready.ncatBytes (v := v) m rfl (by
    change 8 * (bp.tail + 1) + 8 - 8 + m ≤ 8 * bp.endp
    omega)
  have hfront' : SameFront bp bp' :=
    ⟨hfront.head, hfront.size, hfront.endp, hfront.data, hfront.headspace⟩
  have hstop' : bp'.stop = bp.stop + (m - m % 8) := by
    have hlength' := hholds.length
    rw [hfront'.start, List.length_append, length_natBits] at hlength'
    have hlength := h.length
    omega
  have htail' : bp'.stop = 8 * bp'.tail := by rw [Abuf.stop, hleft']; omega
  have hend := hfront'.endp
  have hjoin : natBits (m - m % 8) (v / 2 ^ (m % 8)) ++ natBits (m % 8) v = natBits m v := by
    rw [← natBits_add, Nat.sub_add_cancel (Nat.mod_le m 8)]
  unfold QCoder.ncatMore
  rw [if_pos hcheck, tailReady_eq hleft (by omega), heq]
  dsimp only
  by_cases hrest : m % 8 = 0
  · rw [if_neg (not_not_intro hrest)]
    refine ⟨_, rfl, hfront'.tailReady, ?_⟩
    have hnone : natBits (m % 8) v = [] := by rw [hrest, natBits]
    rw [hnone, List.append_nil] at hjoin
    rw [← hjoin]
    exact hholds.tailReady
  · rw [if_pos hrest]
    have hfill := hholds.fill (n := m % 8) (v := v)
      (b := UInt8.ofNat ((v &&& lowMask (m % 8)) <<< (8 - m % 8))) (by omega) (by omega) (by
        rw [hholds.mem_tail hleft' (by omega), and_lowMask, toNat_ofNat_bits (by omega), hleft',
          UInt8.toNat_zero, Nat.zero_or])
    rw [List.append_assoc, hjoin] at hfill
    refine ⟨_, rfl, SameFront.tailReady ?_, hfill.tailReady⟩
    exact ⟨hfront'.head, hfront'.size, hfront'.endp, hfront'.data, hfront'.headspace⟩

theorem appends_ncat (v n : ℕ) : Appends (ncat v n) (natBits n v) := by
  intro bp s h hroom
  rw [length_natBits] at hroom
  have hle := h.bitsLeft
  have hstop : bp.stop = 8 * bp.tail + (8 - bp.tailBitsLeft) := by rw [Abuf.stop]; omega
  unfold ncat asnNcatBits
  dsimp only
  split_ifs with hz hn h8
  · rw [hz, natBits, List.append_nil]
    exact ⟨h, SameFront.refl bp⟩
  · obtain ⟨rfl, hleft⟩ := h8
    exact ⟨h.putByte hleft (by omega), rfl, rfl, rfl, rfl, rfl⟩
  · -- the field fits in the last byte
    have hfill := h.fill (v := v) (b := bp.mem bp.tail ||| UInt8.ofNat
      ((v &&& lowMask n) <<< (bp.tailBitsLeft - n))) hn (by omega)
      (by rw [UInt8.toNat_or, and_lowMask, toNat_ofNat_bits (by omega)])
    exact ⟨hfill.tailReady, SameFront.tailReady ⟨rfl, rfl, rfl, rfl, rfl⟩⟩
  · -- the last byte is filled first
    have hjoin : natBits bp.tailBitsLeft (v / 2 ^ (n - bp.tailBitsLeft)) ++
        natBits (n - bp.tailBitsLeft) v = natBits n v := by
      rw [← natBits_add, Nat.add_sub_cancel' (by omega)]
    have hfill := h.fill (v := v / 2 ^ (n - bp.tailBitsLeft)) (b := bp.mem bp.tail ||| UInt8.ofNat
      ((v &&& (lowMask bp.tailBitsLeft <<< (n - bp.tailBitsLeft))) >>> (n - bp.tailBitsLeft)))
      le_rfl (by omega) (by
        rw [UInt8.toNat_or, and_mask_shiftRight, Nat.sub_self]
        exact congrArg _ (toNat_ofNat_bits (m := 0) (by omega)))
    rw [Nat.sub_self] at hfill
    obtain ⟨bp', heq, hfront, hholds⟩ := hfill.ncatMore (v := v) (m := n - bp.tailBitsLeft)
      (by omega) rfl (by
        change 8 * bp.tail + 8 - 0 + _ ≤ 8 * bp.endp
        omega)
    rw [heq]
    rw [List.append_assoc, hjoin] at hholds
    exact ⟨hholds, hfront.head, hfront.size, hfront.endp, hfront.data, hfront.headspace⟩

end Steps

end Tulux.QCoder
