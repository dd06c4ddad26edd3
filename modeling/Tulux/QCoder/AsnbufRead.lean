import Tulux.QCoder.Asnbuf

/-! Reading a bit buffer returns the bits of its memory. The position of a reader is a number of
bits: its byte is `pos / 8`, and `8 - pos % 8` bits are left there. -/
namespace Tulux.QCoder
open BitString

theorem lowMask_eq (n : ℕ) : lowMask n = 2 ^ n - 1 := by rw [lowMask, Nat.one_shiftLeft]

theorem and_lowMask (x n : ℕ) : x &&& lowMask n = x % 2 ^ n := by
  rw [lowMask_eq, Nat.and_two_pow_sub_one_eq_mod]

theorem and_mask_shiftRight (x n k : ℕ) : (x &&& (lowMask n <<< k)) >>> k = x / 2 ^ k % 2 ^ n := by
  rw [Nat.shiftRight_and_distrib, Nat.shiftLeft_shiftRight, and_lowMask, Nat.shiftRight_eq_div_pow]

theorem calcBytesNeeded_eq {n bitsLeft : ℕ} (hn : n ≤ 32) (hl : bitsLeft < n) :
    calcBytesNeededForNMoreBits n bitsLeft = (n - bitsLeft) / 8 + 1 := by
  rw [calcBytesNeededForNMoreBits, ← Nat.cast_sub hl.le]
  have hdiv : ((n - bitsLeft : ℕ) : ℤ).tdiv 8 = ((n - bitsLeft) / 8 : ℕ) := by
    rw [Int.tdiv_eq_ediv_of_nonneg (Int.natCast_nonneg _)]
    rfl
  rw [hdiv]
  omega

section Bytes
variable (mem : ℕ → UInt8)

/-- Reading on over a whole byte. -/
theorem window_next_byte {pos a c : ℕ} (h : pos + a = 8 * c) :
    toNat (window (memBits mem) pos a) <<< 8 ||| (mem c).toNat =
      toNat (window (memBits mem) pos (a + 8)) := by
  have hbyte := toNat_window_byte mem c (n := 8) (k := 0) (by omega)
  rw [pow_zero, Nat.div_one, Nat.mod_eq_of_lt (UInt8.toNat_lt _)] at hbyte
  rw [window_add, toNat_append_or, length_window, h]
  exact congrArg _ hbyte.symm

/-- Reading on over the first bits of a byte. -/
theorem window_last_bits {pos a c n : ℕ} (h : pos + a = 8 * c) (hn : n ≤ 8) :
    toNat (window (memBits mem) pos a) <<< n |||
        ((mem c).toNat &&& (lowMask n <<< (8 - n))) >>> (8 - n) =
      toNat (window (memBits mem) pos (a + n)) := by
  have hbits := toNat_window_byte mem c (n := n) (k := 8 - n) (by omega)
  rw [show 8 - (8 - n) - n = 0 by omega, Nat.add_zero] at hbits
  rw [window_add, toNat_append_or, length_window, h, hbits, and_mask_shiftRight]

/-- What is left of the first byte. -/
theorem window_first {pos n : ℕ} (h : pos % 8 + n ≤ 8) :
    toNat (window (memBits mem) pos n) = (mem (pos / 8)).toNat / 2 ^ (8 - pos % 8 - n) % 2 ^ n := by
  rw [← toNat_window_byte mem (pos / 8) (by omega)]
  congr 2
  omega

end Bytes

/-- The branches of the switch for `m + 1` more bytes. -/
theorem nextBitsSwitch_eq (mem : ℕ → UInt8) {pos left m bits : ℕ} (hleft : left = 8 - pos % 8)
    (hm : m ≤ 3) (hbits : bits < 8) :
    nextBitsSwitch mem (pos / 8) (left + 8 * m + bits) left (m + 1) =
      (toNat (window (memBits mem) pos (left + 8 * m + bits)), pos / 8 + (m + 1), 8 - bits) := by
  have hfirst : (mem (pos / 8)).toNat &&& lowMask left =
      toNat (window (memBits mem) pos left) := by
    rw [window_first mem (by omega), and_lowMask, show 8 - pos % 8 - left = 0 by omega, pow_zero,
      Nat.div_one]
  have hstart (j : ℕ) : pos + (left + 8 * j) = 8 * (pos / 8 + (j + 1)) := by omega
  have hbyte (j : ℕ) := window_next_byte mem (hstart j)
  have hlast := window_last_bits mem (hstart m) hbits.le
  interval_cases m
  · rw [← hlast, nextBitsSwitch, hfirst, show left + 8 * 0 + bits - left = bits by omega]
    rfl
  · rw [← hlast, ← hbyte 0, nextBitsSwitch, hfirst,
      show left + 8 * 1 + bits - 8 - left = bits by omega, Nat.shiftLeft_or_distrib,
      ← Nat.shiftLeft_add]
    rfl
  · rw [← hlast, ← hbyte 1, ← hbyte 0, nextBitsSwitch, hfirst,
      show left + 8 * 2 + bits - 16 - left = bits by omega]
    rfl
  · rw [← hlast, ← hbyte 2, ← hbyte 1, ← hbyte 0, nextBitsSwitch, hfirst,
      show left + 8 * 3 + bits - 24 - left = bits by omega]
    rfl

/-- `get_next_n_bits` returns the next `n` bits and moves past them. -/
theorem getNextNBits_eq (mem : ℕ → UInt8) (pos : ℕ) {n : ℕ} (hn : n ≤ 32) :
    getNextNBits mem (pos / 8) n (8 - pos % 8) =
      (toNat (window (memBits mem) pos n), (pos + n) / 8, 8 - (pos + n) % 8) := by
  obtain ⟨left, hleft⟩ : ∃ left, left = 8 - pos % 8 := ⟨_, rfl⟩
  rw [getNextNBits, ← hleft]
  dsimp only
  by_cases hl : left < n
  · obtain ⟨m, bits, hbits, hsum⟩ : ∃ m bits, bits < 8 ∧ n = left + 8 * m + bits :=
      ⟨(n - left) / 8, (n - left) % 8, Nat.mod_lt _ (by omega), by omega⟩
    have hm : m ≤ 3 := by omega
    have hcp : (pos + n) / 8 = pos / 8 + (m + 1) := by omega
    have hnext : 8 - (pos + n) % 8 = 8 - bits := by omega
    rw [if_pos hl, calcBytesNeeded_eq hn hl, show (n - left) / 8 = m by omega, hcp, hnext, hsum,
      nextBitsSwitch_eq mem hleft hm hbits]
    exact if_neg (by dsimp only; omega)
  · rw [if_neg hl, nextBitsSwitch]
    dsimp only
    rw [and_mask_shiftRight, window_first mem (by omega), ← hleft]
    split_ifs with hz
    · rw [show (pos + n) / 8 = pos / 8 + 1 by omega, show (pos + n) % 8 = 0 by omega]
    · rw [show (pos + n) / 8 = pos / 8 by omega, show 8 - (pos + n) % 8 = left - n by omega]

/-- A field that the memory holds is read back. -/
theorem getNextNBits_of_hasAt {mem : ℕ → UInt8} {pos n v : ℕ}
    (h : HasAt (memBits mem) pos (natBits n v)) (hn : n ≤ 32) (hv : v < 2 ^ n) :
    getNextNBits mem (pos / 8) n (8 - pos % 8) = (v, (pos + n) / 8, 8 - (pos + n) % 8) := by
  rw [getNextNBits_eq mem pos hn, h.toNat, Nat.mod_eq_of_lt hv]

/-! ### Lengths -/

/-- A length in one or two bytes. -/
def lenBits (len : ℕ) : List Bool :=
  if len < 0x80 then natBits 8 len else natBits 16 (asnTwoBytes len)

theorem asnTwoBytes_eq {len : ℕ} (h : len < 0x2000) : asnTwoBytes len = 0x8000 + len := by
  have hlow : len &&& 0x1FFF = len := Nat.and_two_pow_sub_one_of_lt_two_pow (n := 13) h
  have hkeep : len &&& 0xDFFF = len := by
    calc len &&& 0xDFFF = len &&& 0x1FFF &&& 0xDFFF := by rw [hlow]
      _ = len &&& 0x1FFF := by rw [Nat.and_assoc]; rfl
      _ = len := hlow
  rw [asnTwoBytes, Nat.and_or_distrib_right, hkeep, Nat.or_comm]
  exact (Nat.shiftLeft_add_eq_or_of_lt (i := 15) (b := len) (by omega) 1).symm

/-- A byte of the memory, by its bits. -/
theorem byte_of_hasAt {mem : ℕ → UInt8} {pos v : ℕ} (h : HasAt (memBits mem) pos (natBits 8 v))
    (hpos : pos % 8 = 0) (hv : v < 2 ^ 8) : (mem (pos / 8)).toNat = v := by
  have hbyte := window_byte mem (pos / 8)
  rw [show 8 * (pos / 8) = pos by omega] at hbyte
  rw [HasAt, length_natBits, hbyte] at h
  have hnat := congrArg toNat h
  rwa [toNat_natBits_of_lt hv, toNat_natBits_of_lt (UInt8.toNat_lt _)] at hnat

/-- The flags of the first byte of a length. -/
theorem lenByte_flags {k : ℕ} (hk : k < 0x40) : (0x80 + k) &&& 0x80 ≠ 0 ∧ (0x80 + k) &&& 0x40 = 0 ∧
    (0x80 + k) &&& 0x7f = k := by
  revert k
  decide

/-- Two bytes with the flag of the long form. -/
theorem natBits_long {len : ℕ} :
    natBits 16 (0x8000 + len) = natBits 8 (0x80 + len / 256) ++ natBits 8 (len % 256) := by
  rw [show (16 : ℕ) = 8 + 8 by rfl, natBits_add, show (0x8000 + len) / 2 ^ 8 = 0x80 + len / 256 by
    omega]
  congr 1
  apply natBits_congr
  omega

theorem join_lenBytes (len : ℕ) : (len / 256) <<< 8 ||| len % 256 = len := by
  rw [← Nat.shiftLeft_add_eq_or_of_lt (by omega), Nat.shiftLeft_eq]
  omega

section Lengths
variable {mem : ℕ → UInt8} {pos len : ℕ}

theorem parse_short_of_hasAt (h : HasAt (memBits mem) pos (natBits 8 len)) (hlen : len < 0x80) :
    parseAsnVariableLengthEnc mem (pos / 8) (8 - pos % 8) =
      ((len : ℤ), (pos + 8) / 8, 8 - (pos + 8) % 8) := by
  unfold parseAsnVariableLengthEnc
  by_cases haligned : pos % 8 = 0
  · have hflag : len &&& 0x80 = 0 := by
      rw [← Nat.and_two_pow_sub_one_of_lt_two_pow (n := 7) hlen, Nat.and_assoc]
      exact Nat.and_zero _
    rw [if_pos (by omega), byte_of_hasAt h haligned (by omega), if_neg (not_not_intro hflag)]
    congr 2 <;> omega
  · rw [if_neg (by omega), getNextNBits_of_hasAt h (by norm_num) (by omega)]
    exact if_pos hlen

theorem parse_long_of_hasAt (h : HasAt (memBits mem) pos (natBits 16 (0x8000 + len)))
    (hlen : len < 0x4000) : parseAsnVariableLengthEnc mem (pos / 8) (8 - pos % 8) =
      ((len : ℤ), (pos + 16) / 8, 8 - (pos + 16) % 8) := by
  obtain ⟨hflag, hfrag, hhigh⟩ := lenByte_flags (k := len / 256) (by omega)
  have hjoin := join_lenBytes len
  rw [natBits_long] at h
  have hfirst := h.left
  have hsecond := h.right
  rw [length_natBits] at hsecond
  unfold parseAsnVariableLengthEnc
  by_cases haligned : pos % 8 = 0
  · have hbyte := byte_of_hasAt hsecond (by omega) (by omega)
    rw [show (pos + 8) / 8 = pos / 8 + 1 by omega] at hbyte
    rw [if_pos (by omega), ntohs, byte_of_hasAt hfirst haligned (by omega), if_pos hflag,
      if_neg (not_not_intro hfrag), hbyte, ← Nat.shiftLeft_add_eq_or_of_lt (by omega),
      Nat.shiftLeft_eq, show 0x7fff = 2 ^ 15 - 1 by rfl, Nat.and_two_pow_sub_one_eq_mod,
      show ((0x80 + len / 256) * 2 ^ 8 + len % 256) % 2 ^ 15 = len by omega,
      show (pos + 16) / 8 = pos / 8 + 2 by omega, show (pos + 16) % 8 = pos % 8 by omega]
  · rw [if_neg (by omega), getNextNBits_of_hasAt hfirst (by norm_num) (by omega)]
    dsimp only
    rw [if_neg (by omega), if_neg (not_not_intro hfrag),
      getNextNBits_of_hasAt hsecond (by norm_num) (by omega), hhigh, hjoin]

/-- A length is read back, on a byte boundary or not. -/
theorem parseAsnVariableLengthEnc_of_hasAt (h : HasAt (memBits mem) pos (lenBits len))
    (hlen : len < 0x2000) : parseAsnVariableLengthEnc mem (pos / 8) (8 - pos % 8) =
      ((len : ℤ), (pos + (lenBits len).length) / 8, 8 - (pos + (lenBits len).length) % 8) := by
  by_cases hshort : len < 0x80
  · have hbits : lenBits len = natBits 8 len := if_pos hshort
    rw [hbits] at h ⊢
    rw [length_natBits]
    exact parse_short_of_hasAt h hshort
  · have hbits : lenBits len = natBits 16 (0x8000 + len) := by
      rw [lenBits, if_neg hshort, asnTwoBytes_eq hlen]
    rw [hbits] at h ⊢
    rw [length_natBits]
    exact parse_long_of_hasAt h (by omega)

end Lengths

end Tulux.QCoder
