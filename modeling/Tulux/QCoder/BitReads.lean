import Tulux.QCoder.AsnbufRead

/-! The bytes that a bit reader touches, and those that the requested bits are in. -/
namespace Tulux.QCoder

/-! ### Reads -/

/-- The bytes that the last branch of `get_next_n_bits` reads behind the first one. -/
def getMoreBitsReads (cp n : ℕ) : List ℕ :=
  if 8 < n then cp :: getMoreBitsReads (cp + 1) (n - 8) else [cp]
termination_by n

/-- The bytes that the switch of `get_next_n_bits` reads. -/
def nextBitsReads (cp n bitsLeft : ℕ) : ℕ → List ℕ
  | 0 => [cp]
  | 1 => [cp, cp + 1]
  | 2 => [cp, cp + 1, cp + 2]
  | 3 => [cp, cp + 1, cp + 2, cp + 3]
  | 4 => [cp, cp + 1, cp + 2, cp + 3, cp + 4]
  | _ => cp :: getMoreBitsReads (cp + 1) (n - bitsLeft)

def getNextNBitsReads (cp n bitsLeft : ℕ) : List ℕ :=
  nextBitsReads cp n bitsLeft
    (if bitsLeft < n then calcBytesNeededForNMoreBits n bitsLeft else 0)

section Congruence
variable {mem mem' : ℕ → UInt8} {cp n bitsLeft addtl : ℕ}

theorem getMoreBits_congr {result : ℕ} (h : ∀ a ∈ getMoreBitsReads cp n, mem a = mem' a) :
    getMoreBits mem cp n result = getMoreBits mem' cp n result := by
  induction cp, n using getMoreBitsReads.induct generalizing result with
  | case1 cp n hmore ih =>
    rw [getMoreBitsReads, if_pos hmore, List.forall_mem_cons] at h
    rw [getMoreBits, if_pos hmore, h.1, ih h.2]
    conv_rhs => rw [getMoreBits, if_pos hmore]
  | case2 cp n hmore =>
    rw [getMoreBitsReads, if_neg hmore, List.forall_mem_singleton] at h
    rw [getMoreBits, if_neg hmore, h, getMoreBits, if_neg hmore]

theorem nextBitsSwitch_congr (h : ∀ a ∈ nextBitsReads cp n bitsLeft addtl, mem a = mem' a) :
    nextBitsSwitch mem cp n bitsLeft addtl = nextBitsSwitch mem' cp n bitsLeft addtl := by
  match addtl with
  | 0 | 1 | 2 | 3 | 4 =>
    simp only [nextBitsReads, List.forall_mem_cons] at h
    simp only [nextBitsSwitch, h]
  | k + 5 =>
    simp only [nextBitsReads, List.forall_mem_cons] at h
    simp only [nextBitsSwitch, h.1, getMoreBits_congr h.2]

/-- The result depends on the bytes that are read, and on no others. -/
theorem getNextNBits_congr (h : ∀ a ∈ getNextNBitsReads cp n bitsLeft, mem a = mem' a) :
    getNextNBits mem cp n bitsLeft = getNextNBits mem' cp n bitsLeft := by
  unfold getNextNBits
  dsimp only
  rw [nextBitsSwitch_congr h]

end Congruence

/-! ### Requested bits -/

/-- Some of the `n` bits from the first of the `bitsLeft` ones in byte `cp` on are in byte `a`. -/
def HasBits (cp n bitsLeft a : ℕ) : Prop := ∃ i < n, cp + (8 - bitsLeft + i) / 8 = a

/-- Only bytes with requested bits are read, and the number of further bytes is that of the ones
that the bits reach. -/
structure BitReadsExact (n bitsLeft : ℕ) : Prop where
  reads : ∀ cp, ∀ a ∈ getNextNBitsReads cp n bitsLeft, HasBits cp n bitsLeft a
  further : ∀ cp a, HasBits cp n bitsLeft a ↔
    cp ≤ a ∧ a ≤ cp + calcBytesNeededForNMoreBits n bitsLeft

section Exact
variable {cp n bitsLeft a : ℕ} (hn : 1 ≤ n) (hl : 1 ≤ bitsLeft) (hl' : bitsLeft ≤ 8)

include hn hl hl' in
/-- The last bit is in the last byte. -/
theorem hasBits_iff : HasBits cp n bitsLeft a ↔ cp ≤ a ∧ a ≤ cp + (n + 7 - bitsLeft) / 8 := by
  constructor
  · rintro ⟨i, hi, rfl⟩
    omega
  · rintro ⟨hle, hle'⟩
    obtain ⟨k, rfl⟩ := Nat.exists_eq_add_of_le hle
    rcases k.eq_zero_or_pos with rfl | hk
    · exact ⟨0, hn, by omega⟩
    · -- the first bit of a further byte
      exact ⟨8 * k - (8 - bitsLeft), by omega, by omega⟩

variable (hn' : n ≤ 32)

include hl hn' in
/-- A field is read from the current byte or up to the byte that its number of bits leads to. -/
theorem mem_getNextNBitsReads : a ∈ getNextNBitsReads cp n bitsLeft ↔
    cp ≤ a ∧ a ≤ cp + if bitsLeft < n then (n - bitsLeft) / 8 + 1 else 0 := by
  unfold getNextNBitsReads
  split_ifs with hlt
  · rw [calcBytesNeeded_eq hn' hlt]
    obtain ⟨k, hk⟩ : ∃ k, k = (n - bitsLeft) / 8 := ⟨_, rfl⟩
    have hle : k ≤ 3 := by omega
    rw [← hk]
    interval_cases k
    all_goals
      simp only [nextBitsReads, List.mem_cons, List.not_mem_nil, or_false]
      omega
  · simp only [nextBitsReads, List.mem_singleton]
    omega

include hn hl hl' hn' in
theorem reads_needed_iff : (∀ cp, ∀ a ∈ getNextNBitsReads cp n bitsLeft, HasBits cp n bitsLeft a) ↔
    n ≤ bitsLeft ∨ ¬ 8 ∣ n - bitsLeft := by
  constructor
  · intro h
    by_contra hnot
    obtain ⟨hlt, hdvd⟩ := not_or.mp hnot
    rw [not_not] at hdvd
    -- the byte behind a field that ends with its byte
    have hread := h 0 ((n - bitsLeft) / 8 + 1)
      ((mem_getNextNBitsReads hl hn').mpr ⟨Nat.zero_le _, by rw [if_pos (by omega)]; omega⟩)
    have hlast := ((hasBits_iff hn hl hl').mp hread).2
    omega
  · intro h cp a ha
    obtain ⟨hle, hle'⟩ := (mem_getNextNBitsReads hl hn').mp ha
    refine (hasBits_iff hn hl hl').mpr ⟨hle, ?_⟩
    split_ifs at hle' with hlt
    · omega
    · omega

include hn hl hl' hn' in
theorem calcBytesNeeded_further_iff :
    (∀ cp a, HasBits cp n bitsLeft a ↔
      cp ≤ a ∧ a ≤ cp + calcBytesNeededForNMoreBits n bitsLeft) ↔
    bitsLeft < n ∧ ¬ 8 ∣ n - bitsLeft := by
  have hcalc : calcBytesNeededForNMoreBits n bitsLeft =
      if bitsLeft < n then (n - bitsLeft) / 8 + 1 else 1 := by
    split_ifs with hlt
    · exact calcBytesNeeded_eq hn' hlt
    · have hdiv : ((n : ℤ) - bitsLeft).tdiv 8 = 0 := by
        rw [← neg_sub, Int.neg_tdiv, Int.tdiv_eq_ediv_of_nonneg (by omega)]
        omega
      rw [calcBytesNeededForNMoreBits, hdiv]
      rfl
  simp only [hasBits_iff hn hl hl', hcalc]
  constructor
  · intro h
    have hlast := (h 0 ((n + 7 - bitsLeft) / 8)).mp (by omega)
    have hfurther := (h 0 (if bitsLeft < n then (n - bitsLeft) / 8 + 1 else 1)).mpr (by omega)
    split_ifs at hlast hfurther with hlt
    · omega
    · omega
  · rintro ⟨hlt, hdvd⟩ cp a
    rw [if_pos hlt]
    omega

include hn hl hl' hn' in
/-- Reads and numbers are right exactly for a field that goes on behind the current byte and does
not end with a byte. -/
theorem bitReadsExact_iff : BitReadsExact n bitsLeft ↔ bitsLeft < n ∧ ¬ 8 ∣ n - bitsLeft := by
  constructor
  · intro h
    exact (calcBytesNeeded_further_iff hn hl hl' hn').mp h.further
  · intro h
    exact ⟨(reads_needed_iff hn hl hl' hn').mpr (.inr h.2),
      (calcBytesNeeded_further_iff hn hl hl' hn').mpr h⟩

end Exact

/-- Nine bits from the first bit of a byte on. -/
theorem bitReadsExact_nine : BitReadsExact 9 8 :=
  (bitReadsExact_iff (by norm_num) (by norm_num) (by norm_num) (by norm_num)).mpr
    ⟨by norm_num, by norm_num⟩

/-- The third byte is read for two whole bytes, and one more byte is asked for where a byte is
enough. -/
theorem not_bitReadsExact : 2 ∈ getNextNBitsReads 0 16 8 ∧ ¬ HasBits 0 16 8 2 ∧
    calcBytesNeededForNMoreBits 8 8 = 1 ∧ ¬ BitReadsExact 16 8 ∧ ¬ BitReadsExact 8 8 := by
  have hread : 2 ∈ getNextNBitsReads 0 16 8 := by decide
  have hbits : ¬ HasBits 0 16 8 2 := by
    rintro ⟨i, hi, heq⟩
    omega
  refine ⟨hread, hbits, by decide, fun h => hbits (h.reads 0 2 hread), fun h => ?_⟩
  obtain ⟨i, hi, heq⟩ := (h.further 0 1).mpr ⟨by norm_num, by decide⟩
  omega

end Tulux.QCoder
