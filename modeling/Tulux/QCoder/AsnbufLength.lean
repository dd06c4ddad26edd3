import Tulux.QCoder.AsnbufMerge

/-! The length of a bit buffer does not get negative, also when there is no room. -/
namespace Tulux.QCoder

/-- What every operation of `asnbuf.h` keeps, from a buffer that was allocated on. -/
structure Settled (bp : Abuf) : Prop where
  head : 0 < bp.head
  data : 0 < bp.data
  headspace : bp.headHeadspaceBits < 8
  bitsLeft : bp.tailBitsLeft ≤ 8
  length : 0 ≤ abufByteLen bp

/-- Appending moves the end on. -/
structure Extends (bp bp' : Abuf) : Prop where
  front : SameFront bp bp'
  bitsLeft : bp'.tailBitsLeft ≤ 8
  length : abufByteLen bp ≤ abufByteLen bp'

/-- Pushing moves the start back. -/
structure Prepends (bp bp' : Abuf) : Prop where
  back : SameBack bp bp'
  pos : 0 < bp'.data
  data : bp'.data ≤ bp.data
  headspace : bp'.headHeadspaceBits < 8

section Steps
variable {bp bp' bp'' : Abuf}

theorem Extends.refl (h : bp.tailBitsLeft ≤ 8) : Extends bp bp := ⟨.refl bp, h, le_rfl⟩

theorem Extends.trans (h : Extends bp bp') (h' : Extends bp' bp'') : Extends bp bp'' where
  front := h.front.trans h'.front
  bitsLeft := h'.bitsLeft
  length := h.length.trans h'.length

theorem Prepends.refl (h : Settled bp) : Prepends bp bp :=
  ⟨.refl bp, h.data, le_rfl, h.headspace⟩

theorem Prepends.trans (h : Prepends bp bp') (h' : Prepends bp' bp'') : Prepends bp bp'' where
  back := h.back.trans h'.back
  pos := h'.pos
  data := h'.data.trans h.data
  headspace := h'.headspace

theorem Settled.extend (h : Settled bp) (h' : Extends bp bp') : Settled bp' where
  head := h'.front.head ▸ h.head
  data := h'.front.data ▸ h.data
  headspace := h'.front.headspace ▸ h.headspace
  bitsLeft := h'.bitsLeft
  length := h.length.trans h'.length

theorem Settled.prepend (h : Settled bp) (h' : Prepends bp bp') : Settled bp' where
  head := h'.back.head ▸ h.head
  data := h'.pos
  headspace := h'.headspace
  bitsLeft := h'.back.bitsLeft ▸ h.bitsLeft
  length := by
    have hlen := h.length
    have hdata := h'.data
    rw [abufByteLen] at hlen ⊢
    rw [h'.back.tail, h'.back.bitsLeft]
    omega

/-! ### Appending -/

/-- A step that sets the tail and the bits left there. -/
theorem Extends.of_tail {bp' : Abuf} (hfront : SameFront bp bp') (hleft : bp'.tailBitsLeft ≤ 8)
    (htail : bp.tail < bp'.tail ∨ bp.tail ≤ bp'.tail ∧ bp'.tailBitsLeft < 8 ∨
      bp.tail = bp'.tail ∧ bp.tailBitsLeft = bp'.tailBitsLeft) : Extends bp bp' := by
  refine ⟨hfront, hleft, ?_⟩
  rw [abufByteLen, abufByteLen, hfront.data]
  rcases htail with htail | ⟨htail, hlt⟩ | ⟨htail, hleft⟩
  · split_ifs <;> omega
  · rw [if_pos (show bp'.tailBitsLeft ≠ 8 by omega)]
    split_ifs <;> omega
  · rw [htail, hleft]

theorem extends_tailReady (h : bp.tailBitsLeft ≤ 8) : Extends bp (abufTailReady bp) := by
  unfold abufTailReady
  split_ifs with hready
  · exact .of_tail ⟨rfl, rfl, rfl, rfl, rfl⟩ le_rfl (.inl (Nat.lt_succ_self _))
  · exact .refl h

/-- Some of the bits of a byte are taken. -/
theorem extends_bits {a left : ℕ} {byte : UInt8} (hleft : left < 8) :
    Extends bp { bp.setByte a byte with tailBitsLeft := left } :=
  .of_tail ⟨rfl, rfl, rfl, rfl, rfl⟩ hleft.le (.inr (.inl ⟨le_rfl, hleft⟩))

theorem extends_ncatBytes (data n : ℕ) (h : bp.tailBitsLeft ≤ 8) :
    Extends bp (ncatBytes bp data n).1 := by
  induction bp, n using ncatBytes.induct data with
  | case1 bp n hn byte ih =>
    rw [ncatBytes, if_pos hn]
    have hstep : Extends bp { bp.setByte bp.tail (UInt8.ofNat byte) with tail := bp.tail + 1 } :=
      .of_tail ⟨rfl, rfl, rfl, rfl, rfl⟩ h (.inl (Nat.lt_succ_self _))
    exact hstep.trans (ih h)
  | case2 bp n hn =>
    rw [ncatBytes, if_neg hn]
    exact .refl h

theorem extends_ncatMore (data n : ℕ) (h : bp.tailBitsLeft ≤ 8) :
    Extends bp (ncatMore bp data n).2 := by
  have hready := extends_tailReady h
  unfold ncatMore
  split_ifs with hroom
  · have hbytes := extends_ncatBytes data n hready.bitsLeft
    rcases hrun : ncatBytes (abufTailReady bp) data n with ⟨bp₁, rest⟩
    rw [hrun] at hbytes
    refine hready.trans (hbytes.trans ?_)
    dsimp only
    split_ifs with hrest
    · have hlt : bp₁.tailBitsLeft - rest < 8 := by
        have hleft := hbytes.bitsLeft
        dsimp only at hleft
        omega
      exact (extends_bits hlt).trans (extends_tailReady hlt.le)
    · exact extends_tailReady hbytes.bitsLeft
  · exact hready

theorem extends_ncat (data n : ℕ) (h : bp.tailBitsLeft ≤ 8) : Extends bp (ncat data n bp) := by
  unfold ncat asnNcatBits
  dsimp only
  split_ifs with hn hfits hbyte
  · exact .refl h
  · exact .of_tail ⟨rfl, rfl, rfl, rfl, rfl⟩ h (.inl (Nat.lt_succ_self _))
  · have hlt : bp.tailBitsLeft - n < 8 := by omega
    exact (extends_bits hlt).trans (extends_tailReady hlt.le)
  · exact (extends_bits (Nat.zero_lt_succ 7)).trans (extends_ncatMore data _ (Nat.zero_le 8))

theorem extends_pad (h : bp.tailBitsLeft ≤ 8) : Extends bp (abufPadToEvenOctet bp) := by
  unfold abufPadToEvenOctet
  dsimp only
  split_ifs
  · exact extends_ncat _ _ h
  · exact .refl h

theorem abufPut_bitsLeft (bp : Abuf) (n : ℕ) : (abufPut bp n).2.tailBitsLeft = bp.tailBitsLeft := by
  unfold abufPut
  split_ifs <;> rfl

theorem le_abufPut_tail (bp : Abuf) (n : ℕ) : bp.tail ≤ (abufPut bp n).2.tail := by
  unfold abufPut
  split_ifs
  · exact le_rfl
  · exact Nat.le_add_right _ _

theorem sameFront_abufPut (bp : Abuf) (n : ℕ) : SameFront bp (abufPut bp n).2 := by
  unfold abufPut
  split_ifs <;> exact ⟨rfl, rfl, rfl, rfl, rfl⟩

theorem extends_abufPut (n : ℕ) (h : bp.tailBitsLeft ≤ 8) : Extends bp (abufPut bp n).2 := by
  refine .of_tail (sameFront_abufPut bp n) ((abufPut_bitsLeft bp n).trans_le h) ?_
  rcases (le_abufPut_tail bp n).lt_or_eq with hlt | heq
  · exact .inl hlt
  · exact .inr (.inr ⟨heq, (abufPut_bitsLeft bp n).symm⟩)

/-- Bytes go behind the buffer, and the bits left in the last one are those of another buffer. -/
theorem extends_put_bits (bp : Abuf) (m : ℕ → UInt8) {left : ℕ} (n : ℕ) (hleft : left < 8) :
    Extends bp { (abufPut bp n).2 with mem := m, tailBitsLeft := left } := by
  have hfront := sameFront_abufPut bp n
  exact .of_tail ⟨hfront.head, hfront.size, hfront.endp, hfront.data, hfront.headspace⟩ hleft.le
    (.inr (.inl ⟨le_abufPut_tail bp n, hleft⟩))

/-- Both branches of a merge put bytes behind the first buffer and take over the bits left. -/
theorem extends_merge {addOn : Abuf} (h : bp.tailBitsLeft ≤ 8) (hadd : addOn.tailBitsLeft < 8)
    (hlen : 0 < abufByteLen addOn) : Extends bp (abufMerge bp addOn).2 := by
  obtain ⟨n, hn⟩ : ∃ n : ℕ, abufByteLen addOn = (n + 1 : ℕ) :=
    ⟨(abufByteLen addOn).toNat - 1, by omega⟩
  unfold abufMerge
  dsimp only
  rw [hn, show ((n + 1 : ℕ) : ℤ) - 1 = n by omega, abufPutInt_natCast, abufPutInt_natCast]
  split_ifs with hc
  · have hext := extends_abufPut n h
    have hbits := fun m => extends_put_bits bp m n hadd
    rcases hput : abufPut bp n with ⟨_ | cp, bp₁⟩ <;> rw [hput] at hext hbits
    · exact hext
    · exact hbits _
  · exact extends_put_bits bp _ (n + 1) hadd

/-! ### Pushing -/

theorem sameBack_pushBytes (bp : Abuf) (data n : ℕ) : SameBack bp (pushBytes bp data n).1 := by
  induction bp, data, n using pushBytes.induct with
  | case1 bp data n h8 ih =>
    rw [pushBytes, if_pos h8]
    exact ⟨ih.head, ih.size, ih.endp, ih.tail, ih.bitsLeft⟩
  | case2 bp data n h8 =>
    rw [pushBytes, if_neg h8]
    exact .refl bp

theorem sameBack_pushFirst (bp : Abuf) (data qty : ℕ) : SameBack bp (pushFirst bp data qty) := by
  unfold pushFirst
  dsimp only
  split_ifs <;> exact ⟨rfl, rfl, rfl, rfl, rfl⟩

theorem sameBack_pushMore (data n : ℕ) : SameBack bp (pushMore bp data n) := by
  have hback := sameBack_pushBytes bp data n
  unfold pushMore
  rcases hrun : pushBytes bp data n with ⟨bp₁, data₁, rest⟩
  rw [hrun] at hback
  dsimp only at hback ⊢
  split_ifs <;> exact ⟨hback.head, hback.size, hback.endp, hback.tail, hback.bitsLeft⟩

theorem sameBack_pushBits (bp : Abuf) (data n : ℕ) : SameBack bp (asnPushBits bp data n).2 := by
  unfold asnPushBits
  split_ifs
  · exact (sameBack_pushFirst bp data _).trans (sameBack_pushMore _ _)
  · exact .refl bp

theorem sameBack_pushLenByte (len : ℕ) : SameBack bp (pushLenByte bp len).2 := by
  unfold QCoder.pushLenByte
  split_ifs
  · exact ⟨rfl, rfl, rfl, rfl, rfl⟩
  · exact ⟨rfl, rfl, rfl, rfl, rfl⟩
  · exact .refl bp
  · exact sameBack_pushBits _ len 8

theorem sameBack_pushLen : SameBack bp (asnPushLen bp) := by
  unfold asnPushLen asnPushEncodedLen
  split_ifs
  · exact sameBack_pushLenByte _
  · exact sameBack_pushBits _ _ 16
  · exact .refl bp
  · exact .refl bp

/-- The bytes that are pushed fit in front of the data. -/
theorem pushBytes_spec (data n : ℕ) (hn : n ≤ 8 * bp.data) (hspace : bp.headHeadspaceBits = 8) :
    (pushBytes bp data n).1.data + n / 8 = bp.data ∧ (pushBytes bp data n).2.2 = n % 8 ∧
      (pushBytes bp data n).1.headHeadspaceBits = 8 := by
  induction bp, data, n using pushBytes.induct with
  | case1 bp data n h8 ih =>
    rw [pushBytes, if_pos h8]
    obtain ⟨hdata, hrest, hspace'⟩ := ih (by change n - 8 ≤ 8 * (bp.data - 1); omega) rfl
    refine ⟨?_, ?_, hspace'⟩
    · change _ = bp.data - 1 at hdata
      omega
    · rw [hrest]
      omega
  | case2 bp data n h8 =>
    rw [pushBytes, if_neg h8]
    exact ⟨by dsimp only; omega, by dsimp only; omega, hspace⟩

/-- In front of the first byte, where `n` bits have room behind the byte at `head`. -/
theorem pushMore_spec (data n : ℕ) (hspace : bp.headHeadspaceBits = 8) (hhead : 0 < bp.head)
    (hn : n + 8 * bp.head ≤ 8 * (bp.data + 1)) :
    0 < (pushMore bp data n).data ∧ (pushMore bp data n).data ≤ bp.data + 1 ∧
      (pushMore bp data n).headHeadspaceBits < 8 := by
  obtain ⟨hdata, hrest, hspace'⟩ := pushBytes_spec data n (by omega) hspace
  unfold pushMore
  rcases hrun : pushBytes bp data n with ⟨bp₁, data₁, rest⟩
  rw [hrun] at hdata hrest hspace'
  dsimp only at hdata hrest hspace' ⊢
  split_ifs with h0 h8
  · change 8 - rest = 8 at h8
    omega
  · refine ⟨?_, ?_, ?_⟩
    · change 0 < bp₁.data
      omega
    · change bp₁.data ≤ bp.data + 1
      omega
    · change 8 - rest < 8
      omega
  · refine ⟨Nat.succ_pos bp₁.data, ?_, Nat.zero_lt_succ 7⟩
    change bp₁.data + 1 ≤ bp.data + 1
    omega

theorem Settled.pushBits (h : Settled bp) (data n : ℕ) :
    Prepends bp (asnPushBits bp data n).2 := by
  have hhead := h.head
  have hpos := h.data
  have hspace := h.headspace
  have hback := sameBack_pushBits bp data n
  unfold asnPushBits at hback ⊢
  split_ifs at hback ⊢ with hroom
  · obtain ⟨hn, hroom⟩ := hroom
    rw [abufHeadroomBits] at hroom
    dsimp only at hback ⊢
    by_cases hlt : n < bp.headHeadspaceBits
    · -- the bits fit into the first byte
      rw [if_pos hlt, Nat.sub_self]
      have hkeep : ¬ bp.headHeadspaceBits - n < 1 := by omega
      have hfull : ¬ bp.headHeadspaceBits - n = 8 := by omega
      simp only [pushFirst, if_neg hkeep]
      rw [pushMore_zero hfull]
      exact ⟨⟨rfl, rfl, rfl, rfl, rfl⟩, hpos, le_rfl, (Nat.sub_le _ _).trans_lt hspace⟩
    · rw [if_neg hlt] at hback ⊢
      have hfront := sameBack_pushFirst bp data bp.headHeadspaceBits
      have hfirst : (pushFirst bp data bp.headHeadspaceBits).headHeadspaceBits = 8 ∧
          (pushFirst bp data bp.headHeadspaceBits).data = bp.data - 1 := by
        have hnone : bp.headHeadspaceBits - bp.headHeadspaceBits < 1 := by omega
        simp only [pushFirst, if_pos hnone]
        exact ⟨trivial, rfl⟩
      obtain ⟨hpos', hle, hspace'⟩ := pushMore_spec (data >>> bp.headHeadspaceBits)
        (n - bp.headHeadspaceBits) hfirst.1 (hfront.head ▸ hhead)
        (by rw [hfirst.2, hfront.head]; omega)
      exact ⟨hback, hpos', by rw [hfirst.2] at hle; omega, hspace'⟩
  · exact .refl h

theorem Settled.push (h : Settled bp) (data n : ℕ) : Settled (push data n bp) :=
  h.prepend (h.pushBits data n)

theorem Settled.pushLenByte (h : Settled bp) (len : ℕ) :
    Prepends bp (pushLenByte bp len).2 := by
  have hhead := h.head
  have hpos := h.data
  have hspace := h.headspace
  unfold QCoder.pushLenByte
  split_ifs with h8 h0 hroom
  · omega
  · refine ⟨⟨rfl, rfl, rfl, rfl, rfl⟩, ?_, Nat.sub_le _ _, hspace⟩
    change 0 < bp.data - 1
    omega
  · exact .refl h
  · exact h.pushBits len 8

theorem Settled.pushLen (h : Settled bp) : Settled (asnPushLen bp) := by
  refine h.prepend ?_
  unfold asnPushLen asnPushEncodedLen
  split_ifs
  · exact h.pushLenByte _
  · exact h.pushBits _ 16
  · exact .refl h
  · exact .refl h

/-- The octets of a long length and their number. -/
theorem Settled.pushOctets (h : Settled bp) (len noctets : ℕ) :
    Settled (if noctets = 0 then ((0 : ℤ), bp)
      else (0, QCoder.push 1 1 (QCoder.push noctets 7 (QCoder.push len (8 * noctets) bp)))).2 := by
  split_ifs
  · exact h
  · exact ((h.push len (8 * noctets)).push noctets 7).push 1 1

theorem Settled.pushIeee16092Len (h : Settled bp) : Settled (asnPushIeee16092Len bp) := by
  unfold asnPushIeee16092Len asnPushCerEncodedLen
  by_cases hlen : 0 < bytesForBits (abufBitsLen bp)
  · rw [if_pos hlen]
    by_cases hbyte : bytesForBits (abufBitsLen bp) < 0x80
    · rw [if_pos hbyte]
      exact h.prepend (h.pushLenByte _)
    · rw [if_neg hbyte]
      exact h.pushOctets _ _
  · rw [if_neg hlen]
    exact h

theorem Settled.mergeSecondBytes (h : Settled bp) (first : Abuf) (n cp : ℕ) :
    Settled (mergeSecondBytes first cp n bp) := by
  induction n generalizing cp bp with
  | zero => exact h
  | succ n ih => exact ih (h.push _ 8) (cp - 1)

theorem Settled.mergeSecond (h : Settled bp) (first : Abuf) : Settled (abufMergeSecond first bp) :=
  h.mergeSecondBytes first _ _

/-! ### Buffers with reserved bits -/

theorem pushBytes_le (bp : Abuf) (data n : ℕ) : (pushBytes bp data n).1.data ≤ bp.data ∧
    (bp.headHeadspaceBits = 8 → (pushBytes bp data n).1.headHeadspaceBits = 8) := by
  induction bp, data, n using pushBytes.induct with
  | case1 bp data n h8 ih =>
    rw [pushBytes, if_pos h8]
    obtain ⟨hdata, hspace⟩ := ih
    exact ⟨hdata.trans (Nat.sub_le _ _), fun _ => hspace rfl⟩
  | case2 bp data n h8 =>
    rw [pushBytes, if_neg h8]
    exact ⟨le_rfl, fun hspace => hspace⟩

theorem pushMore_le (data n : ℕ) (hspace : bp.headHeadspaceBits = 8) :
    (pushMore bp data n).data ≤ bp.data + 1 ∧ (pushMore bp data n).headHeadspaceBits < 8 := by
  obtain ⟨hdata, hspace'⟩ := pushBytes_le bp data n
  unfold pushMore
  rcases hrun : pushBytes bp data n with ⟨bp₁, data₁, rest⟩
  rw [hrun] at hdata hspace'
  have hspace₁ := hspace' hspace
  dsimp only at hdata hspace₁ ⊢
  split_ifs with h0 h8
  · change 8 - rest = 8 at h8
    omega
  · refine ⟨hdata.trans (Nat.le_succ _), ?_⟩
    change 8 - rest < 8
    omega
  · exact ⟨Nat.succ_le_succ hdata, Nat.zero_lt_succ 7⟩

/-- What is pushed goes in front, also where a whole byte is reserved. -/
theorem pushBits_le (data n : ℕ) (hpos : 0 < bp.data) (hspace : bp.headHeadspaceBits ≤ 8) :
    (asnPushBits bp data n).2 = bp ∨ (asnPushBits bp data n).2.data ≤ bp.data ∧
      (asnPushBits bp data n).2.headHeadspaceBits < 8 := by
  unfold asnPushBits
  split_ifs with hroom
  · obtain ⟨hn, -⟩ := hroom
    dsimp only
    right
    by_cases hlt : n < bp.headHeadspaceBits
    · rw [if_pos hlt, Nat.sub_self]
      have hkeep : ¬ bp.headHeadspaceBits - n < 1 := by omega
      have hfull : ¬ bp.headHeadspaceBits - n = 8 := by omega
      simp only [pushFirst, if_neg hkeep]
      rw [pushMore_zero hfull]
      refine ⟨le_rfl, ?_⟩
      change bp.headHeadspaceBits - n < 8
      omega
    · rw [if_neg hlt]
      have hfirst : (pushFirst bp data bp.headHeadspaceBits).headHeadspaceBits = 8 ∧
          (pushFirst bp data bp.headHeadspaceBits).data = bp.data - 1 := by
        have hnone : bp.headHeadspaceBits - bp.headHeadspaceBits < 1 := by omega
        simp only [pushFirst, if_pos hnone]
        exact ⟨trivial, rfl⟩
      obtain ⟨hle, hspace'⟩ := pushMore_le (data >>> bp.headHeadspaceBits)
        (n - bp.headHeadspaceBits) hfirst.1
      exact ⟨by rw [hfirst.2] at hle; omega, hspace'⟩
  · exact .inl rfl

theorem pushLen_le (hpos : 0 < bp.data) (hspace : bp.headHeadspaceBits ≤ 8) :
    asnPushLen bp = bp ∨ (asnPushLen bp).data ≤ bp.data ∧ (asnPushLen bp).headHeadspaceBits < 8 := by
  unfold asnPushLen asnPushEncodedLen QCoder.pushLenByte
  split_ifs with hlen hbyte h8 h0 hroom htwo
  · exact .inr ⟨le_rfl, Nat.zero_lt_succ 7⟩
  · refine .inr ⟨Nat.sub_le _ _, ?_⟩
    change bp.headHeadspaceBits < 8
    omega
  · exact .inl rfl
  · exact pushBits_le _ 8 hpos hspace
  · exact pushBits_le _ 16 hpos hspace
  · exact .inl rfl
  · exact .inl rfl

/-- There is a bit behind the reserved ones. -/
structure Begun (bp : Abuf) : Prop where
  pos : 0 < bp.data
  headspace : bp.headHeadspaceBits ≤ 8
  bitsLeft : bp.tailBitsLeft ≤ 8
  length : 1 + bp.headHeadspaceBits / 8 ≤ abufByteLen bp

theorem Begun.extend (h : Begun bp) (h' : Extends bp bp') : Begun bp' where
  pos := h'.front.data ▸ h.pos
  headspace := h'.front.headspace ▸ h.headspace
  bitsLeft := h'.bitsLeft
  length := by
    have hlength := h.length.trans h'.length
    rwa [h'.front.headspace]

theorem begun_of_holds {s : List Bool} (h : Holds bp s) (hdata : 0 < bp.data) (hpos : 0 < s.length) :
    Begun bp := by
  refine ⟨hdata, h.headspace, h.bitsLeft, ?_⟩
  have hlength := h.length
  have hspace := h.headspace
  have hleft := h.bitsLeft
  rw [Abuf.start, Abuf.stop] at hlength
  rw [abufByteLen]
  split_ifs <;> omega

/-- A length in front is pushed into reserved bits first. -/
theorem Begun.pushLen (h : Begun bp) : (asnPushLen bp).tailBitsLeft ≤ 8 ∧
    1 + (asnPushLen bp).headHeadspaceBits / 8 ≤ abufByteLen (asnPushLen bp) := by
  have hback : SameBack bp (asnPushLen bp) := sameBack_pushLen
  have hlength := h.length
  refine ⟨hback.bitsLeft.trans_le h.bitsLeft, ?_⟩
  rcases pushLen_le h.pos h.headspace with hsame | ⟨hdata, hspace⟩
  · rwa [hsame]
  · rw [abufByteLen] at hlength ⊢
    rw [hback.tail, hback.bitsLeft]
    omega

theorem byteLen_trim_pos (h : 1 + bp.headHeadspaceBits / 8 ≤ abufByteLen bp) :
    0 < abufByteLen (abufTrim bp) := by
  have hone : (if (0 : ℕ) ≠ 8 then (1 : ℤ) else 0) = 1 := rfl
  unfold abufTrim
  rw [abufByteLen] at h
  dsimp only
  split_ifs with h8 hleft hleft
  · rw [if_neg (not_not_intro hleft)] at h
    simp only [abufByteLen, hone]
    omega
  · rw [if_pos hleft] at h
    simp only [abufByteLen, if_pos hleft]
    omega
  · rw [if_neg (not_not_intro hleft)] at h
    simp only [abufByteLen, hone]
    omega
  · rw [if_pos hleft] at h
    simp only [abufByteLen, if_pos hleft]
    omega

/-- A trimmed buffer has the same length. -/
theorem byteLen_trim (hspace : bp.headHeadspaceBits < 8) (hlen : 0 ≤ abufByteLen bp) :
    0 ≤ abufByteLen (abufTrim bp) := by
  unfold abufTrim
  rw [if_neg hspace.ne]
  dsimp only
  split_ifs with hleft
  · rw [abufByteLen, hleft, if_neg (by simp)] at hlen
    rw [abufByteLen, if_pos (show (0 : ℕ) ≠ 8 by decide)]
    change 0 ≤ ((bp.tail - 1 : ℕ) : ℤ) - bp.data + 1
    omega
  · exact hlen

theorem Settled.trim (h : Settled bp) : Settled (abufTrim bp) := by
  have hlen := byteLen_trim h.headspace h.length
  unfold abufTrim at hlen ⊢
  rw [if_neg h.headspace.ne] at hlen ⊢
  dsimp only at hlen ⊢
  split_ifs at hlen ⊢
  · exact ⟨h.head, h.data, h.headspace, Nat.zero_le 8, hlen⟩
  · exact h

theorem trim_bitsLeft (h : bp.tailBitsLeft ≤ 8) : (abufTrim bp).tailBitsLeft < 8 := by
  unfold abufTrim
  dsimp only
  split_ifs with h8 hleft hleft
  · exact Nat.zero_lt_succ 7
  · exact lt_of_le_of_ne h hleft
  · exact Nat.zero_lt_succ 7
  · exact lt_of_le_of_ne h hleft

end Steps

end Tulux.QCoder
