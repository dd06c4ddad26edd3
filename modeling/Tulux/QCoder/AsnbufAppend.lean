import Tulux.QCoder.AsnbufMerge

/-! `asn_ncat` at any alignment: the bits that it appends, and the bytes of the source that it
reads. -/
namespace Tulux.QCoder
open BitString

/-! ### The bytes that are read -/

/-- The loads of the loop of `asn_ncat`, a word in each pass. -/
def ncatWordsReads (a remaining : ℕ) : List ℕ :=
  if 32 ≤ remaining then List.range' a 4 ++ ncatWordsReads (a + 4) (remaining - 4)
  else if remaining ≠ 0 then List.range' a 4
  else []
termination_by remaining

def ncatReads (bp : Abuf) (a bytes : ℕ) : List ℕ :=
  if bytes = 0 then []
  else if (abufTailReady bp).tailBitsLeft = 8 then
    if (abufTailReady bp).endp < (abufTailReady bp).tail + bytes then [] else List.range' a bytes
  else ncatWordsReads a (bytes * 8)

section Reads
variable {bp : Abuf} {src src' : ℕ → UInt8} {a n : ℕ}

theorem ntohl_congr (h : ∀ i ∈ List.range' a 4, src i = src' i) : ntohl src a = ntohl src' a := by
  have hbyte (k : ℕ) (hk : k < 4) : src (a + k) = src' (a + k) := by
    apply h
    rw [List.mem_range'_1]
    omega
  have h0 := hbyte 0 (by norm_num)
  rw [Nat.add_zero] at h0
  rw [ntohl, ntohl, h0, hbyte 1 (by norm_num), hbyte 2 (by norm_num), hbyte 3 (by norm_num)]

theorem ncatWords_congr (h : ∀ i ∈ ncatWordsReads a n, src i = src' i) :
    ncatWords bp src a n = ncatWords bp src' a n := by
  induction bp, a, n using ncatWords.induct src with
  | case1 bp a n hn ih =>
    rw [ncatWordsReads, if_pos hn] at h
    obtain ⟨hword, hrest⟩ := List.forall_mem_append.mp h
    rw [ncatWords, if_pos hn, ih hrest, ntohl_congr hword, ncatWords.eq_1 bp, if_pos hn]
  | case2 bp a n hn hpos =>
    rw [ncatWordsReads, if_neg hn, if_pos hpos] at h
    rw [ncatWords, if_neg hn, if_pos hpos, ntohl_congr h, ncatWords, if_neg hn, if_pos hpos]
  | case3 bp a n hn hzero =>
    rw [ncatWords, if_neg hn, if_neg hzero, ncatWords, if_neg hn, if_neg hzero]

/-- Only the bytes of the list are read. -/
theorem asnNcat_congr (h : ∀ i ∈ ncatReads bp a n, src i = src' i) :
    asnNcat bp src a n = asnNcat bp src' a n := by
  unfold ncatReads at h
  unfold asnNcat
  by_cases hzero : n = 0
  · rw [if_pos hzero, if_pos hzero]
  rw [if_neg hzero] at h ⊢
  rw [if_neg hzero]
  dsimp only
  by_cases hleft : (abufTailReady bp).tailBitsLeft = 8
  · rw [if_pos hleft] at h ⊢
    rw [if_pos hleft, abufPut]
    by_cases hroom : (abufTailReady bp).endp < (abufTailReady bp).tail + n
    · rw [if_pos hroom]
    · rw [if_neg hroom] at h ⊢
      dsimp only [Abuf.copyBytes]
      congr 3
      funext i
      split_ifs with hi
      · apply h
        rw [List.mem_range'_1]
        omega
      · rfl
  · rw [if_neg hleft] at h ⊢
    rw [if_neg hleft, ncatWords_congr h]

/-- The word for the last bits is loaded after one word for each 4 bits before them. -/
theorem exists_mem_ncatWordsReads (hn : 0 < n) :
    ∃ i ∈ ncatWordsReads a n, a + (n - 31) + 3 ≤ i := by
  induction a, n using ncatWordsReads.induct with
  | case1 a n h32 ih =>
    obtain ⟨i, hi, hle⟩ := ih (by omega)
    rw [ncatWordsReads, if_pos h32]
    exact ⟨i, List.mem_append_right _ hi, by omega⟩
  | case2 a n h32 hpos =>
    rw [ncatWordsReads, if_neg h32, if_pos hpos]
    refine ⟨a + 3, ?_, by omega⟩
    rw [List.mem_range'_1]
    omega
  | case3 a n h32 hzero => omega

end Reads

/-! ### The bits that are appended -/

/-- The bits of `n` bytes go behind those of the buffer, and only these bytes are read. -/
structure AppendsOctets (bp : Abuf) (s : List Bool) (src : ℕ → UInt8) (a n : ℕ) : Prop where
  result : (asnNcat bp src a n).1 = 0
  appended : Holds (asnNcat bp src a n).2 (s ++ window (memBits src) (8 * a) (8 * n))
  front : SameFront bp (asnNcat bp src a n).2
  reads : ∀ i ∈ ncatReads bp a n, a ≤ i ∧ i < a + n

section Append
variable {bp : Abuf} {s : List Bool} {src : ℕ → UInt8} {a n : ℕ}

/-- The `memcpy` behind a full byte. -/
theorem Holds.copyBytes (h : Holds bp s) (hleft : bp.tailBitsLeft = 8) :
    Holds (({ bp with tail := bp.tail + n } : Abuf).copyBytes bp.tail src a n)
      (s ++ window (memBits src) (8 * a) (8 * n)) := by
  have hlength := h.length
  have hstop : bp.stop = 8 * bp.tail := by rw [Abuf.stop, hleft]; omega
  have hbit (i : ℕ) : memBits (({ bp with tail := bp.tail + n } : Abuf).copyBytes bp.tail src
      a n).mem i = if 8 * bp.tail ≤ i ∧ i < 8 * (bp.tail + n) then
        memBits src (8 * a + (i - 8 * bp.tail)) else memBits bp.mem i :=
    memBits_copyBytes _ _ _ _ _ _
  constructor
  · exact h.headspace
  · exact h.bitsLeft
  · rw [List.length_append, length_window]
    change bp.start + _ = 8 * (bp.tail + n) + 8 - bp.tailBitsLeft
    omega
  · change HasAt _ bp.start _
    rw [hasAt_append]
    constructor
    · apply hasAt_shift h.bits
      intro i hi
      rw [hbit, if_neg (by omega)]
    · rw [HasAt, length_window]
      apply window_shift
      intro i hi
      rw [hbit, if_pos (by omega)]
      congr 1
      omega
  · intro i hl hr
    change i < bp.start at hr
    rw [hbit, if_neg (by omega)]
    exact h.front i hl hr
  · intro i hl hr
    change 8 * (bp.tail + n) + 8 - bp.tailBitsLeft ≤ i at hl
    change i < 8 * bp.endp at hr
    rw [hbit, if_neg (by omega)]
    exact h.behind i (by omega) hr

theorem appendsOctets_zero (h : Holds bp s) : AppendsOctets bp s src a 0 := by
  have hcall : asnNcat bp src a 0 = (0, bp) := by rw [asnNcat, if_pos rfl]
  constructor
  · rw [hcall]
  · rw [hcall, Nat.mul_zero, window, List.append_nil]
    exact h
  · rw [hcall]
    exact .refl bp
  · rw [ncatReads, if_pos rfl]
    exact fun i hi => absurd hi List.not_mem_nil

theorem appendsOctets_aligned (h : Holds bp s) (hleft : bp.tailBitsLeft = 8) (hn : n ≠ 0)
    (hroom : bp.stop + 8 * n ≤ 8 * bp.endp) : AppendsOctets bp s src a n := by
  have hready : abufTailReady bp = bp := by rw [abufTailReady, if_neg (by omega)]
  have hput : ¬ bp.endp < bp.tail + n := by
    rw [Abuf.stop, hleft] at hroom
    omega
  have hcall : asnNcat bp src a n =
      (0, ({ bp with tail := bp.tail + n } : Abuf).copyBytes bp.tail src a n) := by
    rw [asnNcat, if_neg hn, hready]
    dsimp only
    rw [if_pos hleft, abufPut, if_neg hput]
  constructor
  · rw [hcall]
  · rw [hcall]
    exact h.copyBytes hleft
  · rw [hcall]
    exact ⟨rfl, rfl, rfl, rfl, rfl⟩
  · intro i hi
    rw [ncatReads, if_neg hn, hready, if_pos hleft, if_neg hput, List.mem_range'_1] at hi
    exact hi

/-- The bytes are appended exactly where the tail stands between two bytes, or there are none:
inside a byte, the loop goes on by a word for every 4 bits. -/
theorem appendsOctets_iff (src : ℕ → UInt8) (a : ℕ) (h : Holds bp s) (hleft : 1 ≤ bp.tailBitsLeft)
    (hroom : bp.stop + 8 * n ≤ 8 * bp.endp) :
    AppendsOctets bp s src a n ↔ bp.tailBitsLeft = 8 ∨ n = 0 := by
  constructor
  · intro happends
    by_contra hnot
    obtain ⟨hinside, hn⟩ := not_or.mp hnot
    have hready : abufTailReady bp = bp := by rw [abufTailReady, if_neg (by omega)]
    obtain ⟨i, hi, hle⟩ := exists_mem_ncatWordsReads (a := a) (n := n * 8) (by omega)
    have hread := happends.reads i (by rwa [ncatReads, if_neg hn, hready, if_neg hinside])
    omega
  · rintro (haligned | rfl)
    · by_cases hn : n = 0
      · subst hn
        exact appendsOctets_zero h
      · exact appendsOctets_aligned h haligned hn hroom
    · exact appendsOctets_zero h

/-- A byte into an empty buffer. -/
theorem appendsOctets_iff_empty :
    AppendsOctets (abufAlloc 1 4 1) [] (fun _ => 0xa5) 0 1 ↔
      (abufAlloc 1 4 1).tailBitsLeft = 8 ∨ 1 = 0 :=
  appendsOctets_iff _ _ (holds_alloc 1 4 1) (by decide) (by decide)

end Append

/-- Behind 4 bits, the byte 0xa5 that a zero byte follows is appended as zeros. -/
theorem not_appendsOctets :
    let bp := ncat 0xf 4 (abufAlloc 1 8 0)
    let src (i : ℕ) : UInt8 := if i = 0 then 0xa5 else 0
    Holds bp (natBits 4 0xf) ∧ 1 ≤ bp.tailBitsLeft ∧ bp.stop + 8 * 1 ≤ 8 * bp.endp ∧
      Holds (asnNcat bp src 0 1).2 (natBits 4 0xf ++ natBits 8 0) ∧
        window (memBits src) (8 * 0) (8 * 1) = natBits 8 0xa5 ∧
          ¬ AppendsOctets bp (natBits 4 0xf) src 0 1 := by
  intro bp src
  obtain ⟨hholds, hfront⟩ := appends_ncat 0xf 4 (abufAlloc 1 8 0) [] (holds_alloc 1 8 0) (by decide)
  obtain ⟨hzeros, -⟩ := appends_ncat (ntohl src 0) 8 bp _ hholds (by decide)
  have hcall : asnNcat bp src 0 1 = (0, ncat (ntohl src 0) 8 bp) := by
    have hready : abufTailReady bp = bp := by rw [abufTailReady, if_neg (by decide)]
    rw [asnNcat, if_neg (by decide), hready]
    dsimp only
    rw [if_neg (by decide), ncatWords, if_neg (by decide), if_pos (by decide)]
  refine ⟨hholds, by decide, by decide, ?_, by decide, fun happends => ?_⟩
  · rw [hcall]
    have hword : natBits 8 (ntohl src 0) = natBits 8 0 := by decide
    rwa [hword] at hzeros
  · have hbits := (appendsOctets_iff _ _ hholds (by decide) (by decide)).mp happends
    exact absurd hbits (by decide)

end Tulux.QCoder
