import Tulux.Lib.GuardedRun
import Tulux.QCoder.AsnbufPush

/-! Where the appending functions of `asnbuf.h` write, and what they leave when there is no room. -/
namespace Tulux.QCoder
open BitString GuardedRun

/-! ### The bytes that are written -/

/-- The stores of `asn_ncat_bits` behind the first byte. -/
def ncatMoreWrites (bp : Abuf) (bitsToAdd : ℕ) : List ℕ :=
  if 0 ≤ abufCheckPutTailroom bp bitsToAdd then
    List.range' (abufTailReady bp).tail (bitsToAdd / 8) ++
      if bitsToAdd % 8 ≠ 0 then [(abufTailReady bp).tail + bitsToAdd / 8] else []
  else []

def ncatBitsWrites (bp : Abuf) (bitlen : ℕ) : List ℕ :=
  if bitlen = 0 then []
  else if bitlen ≤ bp.tailBitsLeft then [bp.tail]
  else bp.tail :: ncatMoreWrites { bp with tailBitsLeft := 0 } (bitlen - bp.tailBitsLeft)

def ncatWordsWrites (bp : Abuf) (src : ℕ → UInt8) (a remaining : ℕ) : List ℕ :=
  if 32 ≤ remaining then
    ncatBitsWrites bp 4 ++ ncatWordsWrites (ncat (ntohl src a) 4 bp) src (a + 4) (remaining - 4)
  else ncatBitsWrites bp remaining
termination_by remaining

def ncatWrites (bp : Abuf) (src : ℕ → UInt8) (a bytes : ℕ) : List ℕ :=
  if bytes = 0 then []
  else if (abufTailReady bp).tailBitsLeft = 8 then
    if bp.endp < (abufTailReady bp).tail + bytes then []
    else List.range' (abufTailReady bp).tail bytes
  else ncatWordsWrites (abufTailReady bp) src a (bytes * 8)

/-! ### Appends -/

/-- A call that appends, with its arguments; `bytes` copies from another memory. -/
inductive Append where
  | bits (data : ℕ) (bitlen : ℤ)
  | bytes (src : ℕ → UInt8) (a : ℕ) (total : ℤ)
  | put (count : ℤ)

namespace Append

/-- Returns whether there was an error. -/
def run (bp : Abuf) : Append → Bool × Abuf
  | bits data bitlen => ((asnNcatBits bp data bitlen.toNat).1 < 0, (asnNcatBits bp data bitlen.toNat).2)
  | bytes src a total => ((asnNcat bp src a total.toNat).1 < 0, (asnNcat bp src a total.toNat).2)
  | put count => ((abufPutInt bp count).1.isNone, (abufPutInt bp count).2)

def step (bp : Abuf) (op : Append) : Abuf := (op.run bp).2

/-- The number of bits that are to be appended. -/
def width : Append → ℕ
  | bits _ bitlen => bitlen.toNat
  | bytes _ _ total => 8 * total.toNat
  | put count => 8 * count.toNat

/-- The bytes that the call writes. -/
def writes (bp : Abuf) : Append → List ℕ
  | bits _ bitlen => ncatBitsWrites bp bitlen.toNat
  | bytes src a total => ncatWrites bp src a total.toNat
  | put _ => []

def Fits (bp : Abuf) (op : Append) : Prop := bp.stop + op.width ≤ 8 * bp.endp

/-- The call stays in the buffer, and without room it is an error and appends nothing. -/
structure Clean (bp : Abuf) (op : Append) : Prop where
  writes : ∀ a ∈ op.writes bp, a < bp.endp
  data : bp.data ≤ (op.step bp).tail
  tail : (op.step bp).tail ≤ bp.endp
  fails : ¬ Fits bp op → (op.run bp).1 = true ∧ (op.step bp).bits = bp.bits ∧
    (op.step bp).tail = bp.tail ∧ (op.step bp).tailBitsLeft = bp.tailBitsLeft

/-- What makes a call clean: bits need room for all of them, bytes only where the tail is inside a
byte, and space may not end at the end of the buffer with bits left. -/
def Safe (bp : Abuf) : Append → Prop
  | bits _ bitlen => bitlen ≤ 0 ∨ bp.stop + bitlen.toNat ≤ 8 * bp.endp
  | bytes _ _ total =>
    total ≤ 0 ∨ bp.tailBitsLeft = 8 ∨ bp.stop + 8 * total.toNat ≤ 8 * bp.endp
  | put count => bp.data ≤ bp.tail + count ∧ (bp.tail + count = bp.endp → bp.tailBitsLeft = 8)

end Append

/-- The tail is in the buffer, and has a bit left except at its end. -/
structure Ready (bp : Abuf) : Prop where
  pos : 0 < bp.data
  data : bp.data ≤ bp.tail
  tail : bp.tail ≤ bp.endp
  left : 1 ≤ bp.tailBitsLeft
  bitsLeft : bp.tailBitsLeft ≤ 8
  full : bp.tail = bp.endp → bp.tailBitsLeft = 8

/-- A buffer of `abuf_alloc` or `abuf_reset`. -/
inductive Emptied : Abuf → Prop
  | alloc (head size headroom : ℕ) (hhead : 0 < head) (hroom : headroom < size) :
      Emptied (abufAlloc head size headroom)
  | reset (bp : Abuf) (headroom : ℕ) (hhead : 0 < bp.head) (hroom : headroom ≤ bp.size) :
      Emptied (abufReset bp headroom)

theorem Emptied.ready {bp : Abuf} (h : Emptied bp) : Ready bp := by
  cases h with
  | alloc head size headroom hhead hroom =>
    constructor <;> dsimp only [abufAlloc] <;> omega
  | reset bp headroom hhead hroom =>
    constructor <;> dsimp only [abufReset] <;> omega

/-! ### Room -/

/-- `n` bits are appended, in a buffer that stays ready. -/
structure Grown (bp bp' : Abuf) (n : ℕ) : Prop where
  front : SameFront bp bp'
  ready : Ready bp'
  stop : bp'.stop = bp.stop + n

section Room
variable {bp bp' bp'' : Abuf} {m n v : ℕ}

theorem Grown.refl (h : Ready bp) : Grown bp bp 0 := ⟨SameFront.refl bp, h, rfl⟩

theorem Grown.trans (h : Grown bp bp' m) (h' : Grown bp' bp'' n) : Grown bp bp'' (m + n) where
  front := h.front.trans h'.front
  ready := h'.ready
  stop := by rw [h'.stop, h.stop, Nat.add_assoc]

theorem Ready.stop_le (h : Ready bp) : bp.stop ≤ 8 * bp.endp := by
  have htail := h.tail
  have hfull := h.full
  have hleft := h.left
  rw [Abuf.stop]
  omega

theorem Ready.tailReady (h : Ready bp) : abufTailReady bp = bp := by
  have hleft := h.left
  rw [abufTailReady, if_neg (by omega)]

theorem tail_tailReady (bp : Abuf) : (abufTailReady bp).tail =
    if bp.tailBitsLeft < 1 ∧ abufTailroom bp ≠ 0 then bp.tail + 1 else bp.tail := by
  unfold abufTailReady
  split_ifs <;> rfl

/-- The stores do not depend on what is in the memory. -/
theorem ncatMoreWrites_setByte (bp : Abuf) (m a : ℕ) (byte : UInt8) :
    ncatMoreWrites (bp.setByte a byte) m = ncatMoreWrites bp m := by
  have hcheck : abufCheckPutTailroom (bp.setByte a byte) m = abufCheckPutTailroom bp m := rfl
  have htail : (abufTailReady (bp.setByte a byte)).tail = (abufTailReady bp).tail := by
    rw [tail_tailReady, tail_tailReady]
    rfl
  rw [ncatMoreWrites, ncatMoreWrites, hcheck, htail]

/-- After bits are taken, a full byte is left behind. -/
theorem grown_take (byte : UInt8) (h : Ready bp) (hn : n ≤ bp.tailBitsLeft)
    (hroom : bp.tail < bp.endp) :
    Grown bp (abufTailReady { bp.setByte bp.tail byte with tailBitsLeft := bp.tailBitsLeft - n })
      n := by
  obtain ⟨hpos, hdata, -, hleft, hbitsLeft, -⟩ := h
  by_cases hfull : bp.tailBitsLeft - n = 0
  · have hadvance : abufTailReady
        { bp.setByte bp.tail byte with tailBitsLeft := bp.tailBitsLeft - n } =
        { bp.setByte bp.tail byte with tail := bp.tail + 1, tailBitsLeft := 8 } :=
      tailReady_eq hfull hroom
    rw [hadvance]
    refine ⟨⟨rfl, rfl, rfl, rfl, rfl⟩, ?_, ?_⟩
    · constructor <;> dsimp only [Abuf.setByte] <;> omega
    · dsimp only [Abuf.setByte, Abuf.stop]
      omega
  · rw [abufTailReady, if_neg (fun hc => hfull (Nat.lt_one_iff.mp hc.1))]
    refine ⟨⟨rfl, rfl, rfl, rfl, rfl⟩, ?_, ?_⟩
    · constructor <;> dsimp only [Abuf.setByte] <;> omega
    · dsimp only [Abuf.setByte, Abuf.stop]
      omega

theorem ncatBytes_tail (bp : Abuf) (v m : ℕ) : ∃ bp', ncatBytes bp v m = (bp', m % 8) ∧
    SameFront bp bp' ∧ bp'.tailBitsLeft = bp.tailBitsLeft ∧ bp'.tail = bp.tail + m / 8 := by
  induction bp, m using ncatBytes.induct v with
  | case1 bp m hm byte ih =>
    obtain ⟨bp', heq, hfront, hleft, htail⟩ := ih
    rw [ncatBytes, if_pos hm]
    refine ⟨bp', ?_, ?_, hleft, ?_⟩
    · rw [heq, Nat.mod_eq_sub_mod hm]
    · exact ⟨hfront.head, hfront.size, hfront.endp, hfront.data, hfront.headspace⟩
    · rw [htail]
      dsimp only
      omega
  | case2 bp m hm =>
    rw [ncatBytes, if_neg hm]
    exact ⟨bp, by rw [Nat.mod_eq_of_lt (by omega)], .refl bp, rfl, by omega⟩

/-- Behind a byte that is full. -/
theorem ncatMore_fits (bp : Abuf) (v : ℕ) (hpos : 0 < bp.data) (hdata : bp.data ≤ bp.tail) (hleft : bp.tailBitsLeft = 0)
    (hm : 0 < m) (hroom : bp.stop + m ≤ 8 * bp.endp) :
    (ncatMore bp v m).1 = 0 ∧ Grown bp (ncatMore bp v m).2 m ∧
      ∀ a ∈ ncatMoreWrites bp m, a < bp.endp := by
  have hstop : bp.stop = 8 * bp.tail + 8 := by rw [Abuf.stop, hleft]; omega
  have hcheck := abufCheckPutTailroom_nonneg hm hleft hroom
  obtain ⟨bp', heq, hfront, hleft', htail'⟩ := ncatBytes_tail (abufTailReady bp) v m
  rw [ncatMore, ncatMoreWrites, if_pos hcheck, if_pos hcheck, heq]
  rw [tailReady_eq hleft (by omega)] at hfront hleft' htail' ⊢
  have hready : Ready bp' := by
    have hend := hfront.endp
    have hdata' := hfront.data
    dsimp only at hleft' htail' hend hdata'
    constructor <;> omega
  have hfront' : SameFront bp bp' :=
    ⟨hfront.head, hfront.size, hfront.endp, hfront.data, hfront.headspace⟩
  have hend := hfront'.endp
  dsimp only at hleft' htail' ⊢
  refine ⟨rfl, ?_, ?_⟩
  · split_ifs with hrest
    · have hgrown := grown_take (n := m % 8)
        (UInt8.ofNat ((v &&& lowMask (m % 8)) <<< (8 - m % 8))) hready (by omega) (by omega)
      refine ⟨hfront'.trans hgrown.front, hgrown.ready, ?_⟩
      rw [hgrown.stop, hstop, Abuf.stop]
      omega
    · rw [hready.tailReady]
      refine ⟨hfront', hready, ?_⟩
      rw [hstop, Abuf.stop]
      omega
  · intro a ha
    rw [List.mem_append, List.mem_range'_1] at ha
    rcases ha with ha | ha
    · omega
    · split_ifs at ha with hrest
      · rw [List.mem_singleton] at ha
        omega
      · exact absurd ha List.not_mem_nil

/-- Without room the tail moves on behind an error, if there is one. -/
theorem ncatMore_fails (bp : Abuf) (v m : ℕ) :
    (ncatMore bp v m).1 = 0 ∨ (ncatMore bp v m).2 = abufTailReady bp := by
  rw [ncatMore]
  split_ifs with hcheck
  · exact Or.inl rfl
  · exact Or.inr rfl

theorem asnNcatBits_fits (h : Ready bp) (hn : 0 < n) (hroom : bp.stop + n ≤ 8 * bp.endp) :
    (asnNcatBits bp v n).1 = 0 ∧ Grown bp (asnNcatBits bp v n).2 n ∧
      ∀ a ∈ ncatBitsWrites bp n, a < bp.endp := by
  have hbitsLeft := h.bitsLeft
  have hleft := h.left
  have hstop : bp.stop = 8 * bp.tail + (8 - bp.tailBitsLeft) := by rw [Abuf.stop]; omega
  have htail : bp.tail < bp.endp := by omega
  unfold asnNcatBits ncatBitsWrites
  dsimp only
  rw [if_neg hn.ne', if_neg hn.ne']
  by_cases hfirst : n ≤ bp.tailBitsLeft
  · rw [if_pos hfirst, if_pos hfirst]
    have hwrite : ∀ a ∈ [bp.tail], a < bp.endp := by simpa using htail
    split_ifs with hbyte
    · obtain ⟨rfl, h8⟩ := hbyte
      have hadvance : abufTailReady { bp.setByte bp.tail (UInt8.ofNat v) with
          tailBitsLeft := bp.tailBitsLeft - 8 } =
          { bp.setByte bp.tail (UInt8.ofNat v) with tail := bp.tail + 1, tailBitsLeft := 8 } :=
        tailReady_eq (Nat.sub_eq_zero_of_le hbitsLeft) htail
      have hsame : ({ bp.setByte bp.tail (UInt8.ofNat v) with tail := bp.tail + 1 } : Abuf) =
          { bp.setByte bp.tail (UInt8.ofNat v) with tail := bp.tail + 1, tailBitsLeft := 8 } := by
        simp only [Abuf.setByte, h8]
      have hgrown := grown_take (UInt8.ofNat v) h hfirst htail
      rw [hadvance, ← hsame] at hgrown
      exact ⟨rfl, hgrown, hwrite⟩
    · exact ⟨rfl, grown_take _ h hfirst htail, hwrite⟩
  · rw [if_neg hfirst, if_neg hfirst]
    obtain ⟨first, hbyte⟩ : ∃ first, first = bp.mem bp.tail ||| UInt8.ofNat
        ((v &&& (lowMask bp.tailBitsLeft <<< (n - bp.tailBitsLeft))) >>> (n - bp.tailBitsLeft)) :=
      ⟨_, rfl⟩
    rw [← hbyte]
    obtain ⟨hresult, hgrown, hwrites⟩ := ncatMore_fits { bp.setByte bp.tail first with
      tailBitsLeft := 0 } v (m := n - bp.tailBitsLeft) h.pos h.data rfl (by omega)
      (by dsimp only [Abuf.setByte, Abuf.stop]; omega)
    refine ⟨hresult, ⟨?_, hgrown.ready, ?_⟩, ?_⟩
    · have hfront := hgrown.front
      exact ⟨hfront.head, hfront.size, hfront.endp, hfront.data, hfront.headspace⟩
    · rw [hgrown.stop, hstop]
      dsimp only [Abuf.setByte, Abuf.stop]
      omega
    · have hsame := ncatMoreWrites_setByte { bp with tailBitsLeft := 0 } (n - bp.tailBitsLeft)
        bp.tail first
      rw [← hsame]
      exact List.forall_mem_cons.mpr ⟨htail, hwrites⟩

/-- An error comes after the tail has moved. -/
theorem asnNcatBits_error (h : Ready bp) (hn : 0 < n)
    (herror : (asnNcatBits bp v n).1 < 0) (htail : (asnNcatBits bp v n).2.tail = bp.tail)
    (hleft : (asnNcatBits bp v n).2.tailBitsLeft = bp.tailBitsLeft) : False := by
  have hpos := h.left
  unfold asnNcatBits at herror htail hleft
  dsimp only at herror htail hleft
  rw [if_neg hn.ne'] at herror htail hleft
  by_cases hfirst : n ≤ bp.tailBitsLeft
  · rw [if_pos hfirst] at herror
    split_ifs at herror <;> exact absurd herror (lt_irrefl 0)
  · rw [if_neg hfirst] at herror htail hleft
    rcases ncatMore_fails _ _ _ with hresult | hready
    · rw [hresult] at herror
      exact absurd herror (lt_irrefl 0)
    · rw [hready] at htail hleft
      unfold abufTailReady at htail hleft
      split_ifs at htail hleft
      · exact absurd htail (Nat.succ_ne_self _)
      · dsimp only at hleft
        omega

theorem ncatWords_fits (h : Ready bp) (src : ℕ → UInt8) (a : ℕ)
    (hroom : bp.stop + n ≤ 8 * bp.endp) : Grown bp (ncatWords bp src a n) n ∧
      ∀ i ∈ ncatWordsWrites bp src a n, i < bp.endp := by
  induction bp, a, n using ncatWords.induct src with
  | case1 bp a n hn ih =>
    obtain ⟨-, hgrown, hwrites⟩ := asnNcatBits_fits (v := ntohl src a) h (n := 4) (by norm_num)
      (by omega)
    have hend := hgrown.front.endp
    have hstop := hgrown.stop
    obtain ⟨hrest, hrestWrites⟩ := ih hgrown.ready (by rw [ncat]; omega)
    rw [ncatWords, ncatWordsWrites, if_pos hn, if_pos hn]
    refine ⟨?_, List.forall_mem_append.mpr ⟨hwrites, ?_⟩⟩
    · have hall := hgrown.trans hrest
      rwa [Nat.add_sub_cancel' (by omega)] at hall
    · rw [← hend]
      exact hrestWrites
  | case2 bp a n hn hpos =>
    obtain ⟨-, hgrown, hwrites⟩ := asnNcatBits_fits (v := ntohl src a) h
      (Nat.pos_of_ne_zero hpos) hroom
    rw [ncatWords, ncatWordsWrites, if_neg hn, if_neg hn, if_pos hpos]
    exact ⟨hgrown, hwrites⟩
  | case3 bp a n hn hzero =>
    obtain rfl := not_not.mp hzero
    rw [ncatWords, ncatWordsWrites, if_neg hn, if_neg hn, if_neg hzero, ncatBitsWrites, if_pos rfl]
    exact ⟨.refl h, fun i hi => absurd hi List.not_mem_nil⟩

/-- Space at a byte boundary, or before the end. -/
theorem grown_put (h : Ready bp) (hend : bp.tail + n = bp.endp → bp.tailBitsLeft = 8)
    (hroom : bp.tail + n ≤ bp.endp) : Grown bp { bp with tail := bp.tail + n } (8 * n) := by
  obtain ⟨hpos, hdata, -, hleft, hbitsLeft, -⟩ := h
  refine ⟨⟨rfl, rfl, rfl, rfl, rfl⟩, ?_, ?_⟩
  · exact ⟨hpos, hdata.trans (Nat.le_add_right _ _), hroom, hleft, hbitsLeft, hend⟩
  · dsimp only [Abuf.stop]
    omega

end Room

/-! ### The rest of the memory -/

section Memory
variable {bp : Abuf} {i m n v : ℕ}

theorem mem_tailReady (bp : Abuf) : (abufTailReady bp).mem = bp.mem := by
  unfold abufTailReady
  split_ifs <;> rfl

theorem mem_setByte_of_ne {a : ℕ} (h : i ≠ a) (byte : UInt8) :
    (bp.setByte a byte).mem i = bp.mem i := by
  rw [Abuf.setByte]
  exact Function.update_of_ne h byte bp.mem

theorem mem_ncatBytes (h : i ∉ List.range' bp.tail (m / 8)) :
    (ncatBytes bp v m).1.mem i = bp.mem i := by
  induction bp, m using ncatBytes.induct v with
  | case1 bp m hm byte ih =>
    rw [List.mem_range'_1] at h
    rw [ncatBytes, if_pos hm]
    dsimp only
    rw [ih]
    · exact mem_setByte_of_ne (by omega) _
    · rw [List.mem_range'_1]
      dsimp only
      omega
  | case2 bp m hm => rw [ncatBytes, if_neg hm]

theorem mem_ncatMore (h : i ∉ ncatMoreWrites bp m) : (ncatMore bp v m).2.mem i = bp.mem i := by
  unfold ncatMoreWrites at h
  unfold ncatMore
  split_ifs at h ⊢ with hcheck hrest
  · obtain ⟨hbytes, hlast⟩ := not_or.mp (mt List.mem_append.mpr h)
    obtain ⟨bp', heq, -, -, htail⟩ := ncatBytes_tail (abufTailReady bp) v m
    have hmem := mem_ncatBytes (v := v) hbytes
    rw [heq, mem_tailReady] at hmem
    rw [heq]
    dsimp only at hmem ⊢
    rw [if_pos hrest, mem_tailReady]
    rw [← htail, List.mem_singleton] at hlast
    exact (mem_setByte_of_ne hlast _).trans hmem
  · obtain ⟨bp', heq, -, -, -⟩ := ncatBytes_tail (abufTailReady bp) v m
    rw [List.append_nil] at h
    have hmem := mem_ncatBytes (v := v) h
    rw [heq, mem_tailReady] at hmem
    rw [heq]
    dsimp only at hmem ⊢
    rwa [if_neg hrest, mem_tailReady]
  · rw [mem_tailReady]

theorem mem_asnNcatBits (h : i ∉ ncatBitsWrites bp n) : (asnNcatBits bp v n).2.mem i = bp.mem i := by
  unfold ncatBitsWrites at h
  unfold asnNcatBits
  dsimp only
  split_ifs at h ⊢ with hzero hfirst hbyte
  · rfl
  · exact mem_setByte_of_ne (by simpa using h) _
  · rw [mem_tailReady]
    exact mem_setByte_of_ne (by simpa using h) _
  · obtain ⟨hne, hmore⟩ := not_or.mp (mt List.mem_cons.mpr h)
    rw [mem_ncatMore]
    · exact mem_setByte_of_ne hne _
    · have hsame := ncatMoreWrites_setByte { bp with tailBitsLeft := 0 } (n - bp.tailBitsLeft)
        bp.tail
      rw [← hsame] at hmore
      exact hmore

theorem mem_ncatWords (src : ℕ → UInt8) (a : ℕ) (h : i ∉ ncatWordsWrites bp src a n) :
    (ncatWords bp src a n).mem i = bp.mem i := by
  induction bp, a, n using ncatWords.induct src with
  | case1 bp a n hn ih =>
    rw [ncatWordsWrites, if_pos hn] at h
    obtain ⟨hfirst, hrest⟩ := not_or.mp (mt List.mem_append.mpr h)
    rw [ncatWords, if_pos hn, ih hrest]
    exact mem_asnNcatBits hfirst
  | case2 bp a n hn hpos =>
    rw [ncatWordsWrites, if_neg hn] at h
    rw [ncatWords, if_neg hn, if_pos hpos]
    exact mem_asnNcatBits h
  | case3 bp a n hn hzero => rw [ncatWords, if_neg hn, if_neg hzero]

theorem mem_asnNcat (src : ℕ → UInt8) (a : ℕ) (h : i ∉ ncatWrites bp src a n) :
    (asnNcat bp src a n).2.mem i = bp.mem i := by
  unfold ncatWrites at h
  unfold asnNcat
  by_cases hzero : n = 0
  · rw [if_pos hzero]
  rw [if_neg hzero] at h ⊢
  dsimp only
  by_cases hleft : (abufTailReady bp).tailBitsLeft = 8
  · rw [if_pos hleft] at h ⊢
    have hend : (abufTailReady bp).endp = bp.endp := by
      unfold abufTailReady
      split_ifs <;> rfl
    by_cases hroom : bp.endp < (abufTailReady bp).tail + n
    · rw [abufPut, hend, if_pos hroom]
      dsimp only
      rw [mem_tailReady]
    · rw [if_neg hroom, List.mem_range'_1] at h
      rw [abufPut, hend, if_neg hroom]
      dsimp only [Abuf.copyBytes]
      rw [if_neg h, mem_tailReady]
  · rw [if_neg hleft] at h ⊢
    dsimp only
    rw [mem_ncatWords src a h, mem_tailReady]

end Memory

/-! ### Steps -/

namespace Append
variable {bp : Abuf}

/-- Only the bytes of the list are written. -/
theorem mem_step {op : Append} {i : ℕ} (h : i ∉ op.writes bp) : (op.step bp).mem i = bp.mem i := by
  cases op with
  | bits data bitlen => exact mem_asnNcatBits h
  | bytes src a total => exact mem_asnNcat src a h
  | put count =>
    rw [step, run, abufPutInt]
    split_ifs <;> rfl

theorem clean_of_grown {op : Append} {n : ℕ} (h : Grown bp (op.step bp) n)
    (hwrites : ∀ a ∈ op.writes bp, a < bp.endp) (hfits : Fits bp op) : Clean bp op := by
  have hend := h.front.endp
  have hdata := h.front.data
  refine ⟨hwrites, ?_, ?_, fun hnot => absurd hfits hnot⟩
  · rw [← hdata]
    exact h.ready.data
  · rw [← hend]
    exact h.ready.tail

/-- An error before anything is done. -/
theorem clean_of_unchanged {op : Append} (h : Ready bp) (hstep : op.step bp = bp)
    (hwrites : op.writes bp = []) (herror : ¬ Fits bp op → (op.run bp).1 = true) : Clean bp op := by
  refine ⟨?_, ?_, ?_, fun hnot => ⟨herror hnot, ?_, ?_, ?_⟩⟩
  · rw [hwrites]
    exact fun a ha => absurd ha List.not_mem_nil
  · rw [hstep]
    exact h.data
  · rw [hstep]
    exact h.tail
  · rw [hstep]
  · rw [hstep]
  · rw [hstep]

section Step
variable (h : Ready bp)
include h

theorem bits_spec {data : ℕ} {bitlen : ℤ} (hsafe : (bits data bitlen).Safe bp) :
    Clean bp (bits data bitlen) ∧ Ready ((bits data bitlen).step bp) := by
  by_cases hn : bitlen ≤ 0
  · have hzero : bitlen.toNat = 0 := Int.toNat_eq_zero.mpr hn
    have hstep : (bits data bitlen).step bp = bp := by
      rw [step, run, hzero, asnNcatBits, if_pos rfl]
    refine ⟨clean_of_unchanged h hstep ?_ fun _ => ?_, ?_⟩
    · rw [writes, hzero, ncatBitsWrites, if_pos rfl]
    · rw [run, hzero, asnNcatBits, if_pos rfl]
      rfl
    · rwa [hstep]
  · obtain ⟨-, hgrown, hwrites⟩ := asnNcatBits_fits (v := data) h (n := bitlen.toNat) (by omega)
      (hsafe.resolve_left hn)
    exact ⟨clean_of_grown hgrown hwrites (hsafe.resolve_left hn), hgrown.ready⟩

theorem bytes_spec {src : ℕ → UInt8} {a : ℕ} {total : ℤ} (hsafe : (bytes src a total).Safe bp) :
    Clean bp (bytes src a total) ∧ Ready ((bytes src a total).step bp) := by
  obtain ⟨n, hn⟩ : ∃ n, n = total.toNat := ⟨_, rfl⟩
  have hrun : (bytes src a total).run bp =
      (decide ((asnNcat bp src a n).1 < 0), (asnNcat bp src a n).2) := by rw [run, hn]
  have hwrites : (bytes src a total).writes bp = ncatWrites bp src a n := by rw [writes, hn]
  have hfits : Fits bp (bytes src a total) ↔ bp.stop + 8 * n ≤ 8 * bp.endp := by
    rw [Fits, width, hn]
  by_cases hzero : n = 0
  · have hstep : (bytes src a total).step bp = bp := by
      rw [step, hrun, asnNcat, if_pos hzero]
    refine ⟨clean_of_unchanged h hstep ?_ fun hnot => absurd ?_ hnot, by rwa [hstep]⟩
    · rw [hwrites, ncatWrites, if_pos hzero]
    · rw [hfits, hzero]
      exact h.stop_le
  by_cases hleft : bp.tailBitsLeft = 8
  · by_cases hroom : bp.endp < bp.tail + n
    · have hcopy : asnNcat bp src a n = (-1, bp) := by
        rw [asnNcat, if_neg hzero, h.tailReady]
        dsimp only
        rw [if_pos hleft, abufPut, if_pos hroom]
      have hstep : (bytes src a total).step bp = bp := by rw [step, hrun, hcopy]
      refine ⟨clean_of_unchanged h hstep ?_ fun _ => ?_, by rwa [hstep]⟩
      · rw [hwrites, ncatWrites, if_neg hzero, h.tailReady, if_pos hleft, if_pos hroom]
      · rw [hrun, hcopy]
        rfl
    · have hstep : (bytes src a total).step bp =
          ({ bp with tail := bp.tail + n } : Abuf).copyBytes bp.tail src a n := by
        rw [step, hrun, asnNcat, if_neg hzero, h.tailReady]
        dsimp only
        rw [if_pos hleft, abufPut, if_neg hroom]
      obtain ⟨hfront, hready, hstop⟩ := grown_put h (fun _ => hleft) (not_lt.mp hroom)
      have hgrown : Grown bp ((bytes src a total).step bp) (8 * n) := by
        rw [hstep]
        refine ⟨⟨rfl, rfl, rfl, rfl, rfl⟩, ?_, hstop⟩
        exact ⟨hready.pos, hready.data, hready.tail, hready.left, hready.bitsLeft, hready.full⟩
      refine ⟨clean_of_grown hgrown ?_ ?_, hgrown.ready⟩
      · rw [hwrites, ncatWrites, if_neg hzero, h.tailReady, if_pos hleft, if_neg hroom]
        intro i hi
        rw [List.mem_range'_1] at hi
        omega
      · rw [hfits, Abuf.stop]
        omega
  · have hroom : bp.stop + 8 * n ≤ 8 * bp.endp := by
      rcases hsafe with hle | h8 | hroom
      · omega
      · exact absurd h8 hleft
      · rwa [hn]
    obtain ⟨hgrown, hall⟩ := ncatWords_fits h src a (n := n * 8) (by omega)
    have hstep : (bytes src a total).step bp = ncatWords bp src a (n * 8) := by
      rw [step, hrun, asnNcat, if_neg hzero, h.tailReady]
      dsimp only
      rw [if_neg hleft]
    rw [← hstep] at hgrown
    refine ⟨clean_of_grown hgrown ?_ (hfits.mpr hroom), hgrown.ready⟩
    rw [hwrites, ncatWrites, if_neg hzero, h.tailReady, if_neg hleft]
    exact hall

theorem put_spec {count : ℤ} (hsafe : (put count).Safe bp) :
    Clean bp (put count) ∧ Ready ((put count).step bp) := by
  obtain ⟨hdata, hend⟩ := hsafe
  by_cases hroom : bp.endp < bp.tail + count
  · have hstep : (put count).step bp = bp := by rw [step, run, abufPutInt, if_pos hroom]
    refine ⟨clean_of_unchanged h hstep rfl fun _ => ?_, by rwa [hstep]⟩
    rw [run, abufPutInt, if_pos hroom]
    rfl
  · obtain ⟨hpos, -, htail, hleft, hbitsLeft, hfull⟩ := h
    have hstep : (put count).step bp = { bp with tail := (bp.tail + count).toNat } := by
      rw [step, run, abufPutInt, if_neg hroom]
    refine ⟨⟨fun i hi => absurd hi List.not_mem_nil, ?_, ?_, fun hnot => absurd ?_ hnot⟩, ?_⟩
    · rw [hstep]
      dsimp only
      omega
    · rw [hstep]
      dsimp only
      omega
    · rw [Fits, width, Abuf.stop]
      omega
    · rw [hstep]
      constructor <;> dsimp only <;> omega

theorem spec {op : Append} (hsafe : op.Safe bp) : Clean bp op ∧ Ready (op.step bp) := by
  cases op with
  | bits data bitlen => exact bits_spec h hsafe
  | bytes src a total => exact bytes_spec h hsafe
  | put count => exact put_spec h hsafe

/-- A clean call is safe: without room, neither bits nor bytes inside a byte are refused cleanly. -/
theorem Clean.safe {op : Append} (hclean : Clean bp op) : op.Safe bp := by
  cases op with
  | bits data bitlen =>
    by_contra hunsafe
    obtain ⟨hpos, hroom⟩ := not_or.mp hunsafe
    obtain ⟨herror, -, htail, hleft⟩ := hclean.fails hroom
    exact asnNcatBits_error h (by omega) (of_decide_eq_true herror) htail hleft
  | bytes src a total =>
    by_contra hunsafe
    obtain ⟨hpos, hunsafe⟩ := not_or.mp hunsafe
    obtain ⟨hleft, hroom⟩ := not_or.mp hunsafe
    obtain ⟨herror, -⟩ := hclean.fails hroom
    have hzero : total.toNat ≠ 0 := by omega
    rw [run, asnNcat, if_neg hzero, h.tailReady] at herror
    dsimp only at herror
    rw [if_neg hleft] at herror
    exact absurd (of_decide_eq_true herror) (lt_irrefl 0)
  | put count =>
    have hpos := h.pos
    have hdata := hclean.data
    have htail := hclean.tail
    by_cases hroom : bp.endp < bp.tail + count
    · exact ⟨by have := h.data; have := h.tail; omega, by omega⟩
    · have hstep : (put count).step bp = { bp with tail := (bp.tail + count).toNat } := by
        rw [step, run, abufPutInt, if_neg hroom]
      rw [hstep] at hdata
      dsimp only at hdata
      refine ⟨by omega, fun hend => ?_⟩
      by_contra hleft
      have hfails := hclean.fails (by
        have hbits := h.bitsLeft
        have htail := h.tail
        rw [Fits, width, Abuf.stop]
        omega)
      rw [run, abufPutInt, if_neg hroom] at hfails
      exact absurd hfails.1 Bool.false_ne_true

end Step

end Append

/-- In a buffer from `abuf_alloc` or `abuf_reset`, the calls of a run are clean exactly when they are
all safe where they are made. -/
theorem append_clean_iff {bp : Abuf} (h : Emptied bp) (ops : List Append) :
    Always Append.step Append.Clean bp ops ↔
      Always Append.step Append.Safe bp ops :=
  always_iff_always (fun _ _ hready hsafe => (Append.spec hready hsafe).2)
    (fun _ _ hready => ⟨Append.Clean.safe hready, fun hsafe => (Append.spec hready hsafe).1⟩) h.ready

/-- Four bits, a byte across the next boundary, and one more byte than there is room for. -/
theorem append_clean_iff_four :
    Always Append.step Append.Clean (abufAlloc 1 4 1)
        [.bits 5 4, .bits 0xff 8, .bytes (fun _ => 0) 0 1, .put 1] ↔
      Always Append.step Append.Safe (abufAlloc 1 4 1)
        [.bits 5 4, .bits 0xff 8, .bytes (fun _ => 0) 0 1, .put 1] :=
  append_clean_iff (.alloc 1 4 1 Nat.one_pos (by norm_num)) _

/-- A buffer of one byte, and the byte. -/
def fullBuffer : Abuf := Append.step (abufAlloc 1 1 0) (.bits 0xff 8)

/-- The second byte is written behind a buffer of one byte, without an error. -/
theorem not_append_clean : Emptied (abufAlloc 1 1 0) ∧
    (Append.bits 0xff 8).writes fullBuffer = [fullBuffer.endp] ∧
      ((Append.bits 0xff 8).run fullBuffer).1 = false ∧
        ¬ Always Append.step Append.Clean (abufAlloc 1 1 0) [.bits 0xff 8, .bits 0xff 8] := by
  refine ⟨.alloc 1 1 0 Nat.one_pos Nat.one_pos, rfl, rfl, fun h => ?_⟩
  obtain ⟨-, hsecond, -⟩ := (always_cons.mp h).imp id always_cons.mp
  have hwritten := hsecond.writes fullBuffer.endp (List.mem_singleton.mpr rfl)
  exact lt_irrefl _ hwritten

end Tulux.QCoder
