import Tulux.QCoder.AsnbufMerge

/-! The lengths of `asnbuf.h`: one or two bytes in UPER, and in CER the octets behind their number.
Each has a writer in front, UPER also one at the end, and a reader. -/
namespace Tulux.QCoder
open BitString

/-! ### Writers in front -/

/-- The bits `s` are now in front of the string. -/
structure Pushed (bp bp' : Abuf) (s : List Bool) : Prop where
  bits : bp'.bits = s ++ bp.bits
  start : bp'.start + s.length = bp.start
  back : SameBack bp bp'
  headspace : bp'.headHeadspaceBits < 8

/-- `f` puts the bits in front of every buffer with room, whatever the offset of its string. -/
def PushesBits (f : Abuf → Abuf) (s : List Bool) : Prop :=
  ∀ bp, 0 < bp.head → bp.headHeadspaceBits ≤ 8 → bp.start ≤ bp.stop →
    8 * bp.head + s.length ≤ bp.start → Pushed bp (f bp) s

section Push
variable {bp bp' : Abuf} {f g : Abuf → Abuf} {s t : List Bool} {n v : ℕ}

theorem Laid.pushed (h : Laid bp bp' n v) (hstring : bp.start ≤ bp.stop)
    (hspace : bp'.headHeadspaceBits < 8) : Pushed bp bp' (natBits n v) where
  bits := h.bits hstring
  start := by rw [length_natBits, h.start]
  back := h.back
  headspace := hspace

theorem pushesBits_push (v : ℕ) (hn : 0 < n) : PushesBits (push v n) (natBits n v) := by
  intro bp hhead hspace hstring hroom
  rw [length_natBits] at hroom
  obtain ⟨bp', heq, hlaid, hspace', -⟩ := laid_pushBits (v := v) hspace hhead hn hroom
  rw [push, heq]
  exact hlaid.pushed hstring hspace'

theorem Pushed.trans {bp'' : Abuf} (h : Pushed bp bp' s) (h' : Pushed bp' bp'' t) :
    Pushed bp bp'' (t ++ s) where
  bits := by rw [h'.bits, h.bits, List.append_assoc]
  start := by
    have hfirst := h.start
    have hsecond := h'.start
    rw [List.length_append]
    omega
  back := h.back.trans h'.back
  headspace := h'.headspace

/-- The next writer has the room that the first one has left. -/
theorem Pushed.next (h : Pushed bp bp' s) (hg : PushesBits g t) (hhead : 0 < bp.head)
    (hstring : bp.start ≤ bp.stop) (hroom : 8 * bp.head + (t ++ s).length ≤ bp.start) :
    Pushed bp (g bp') (t ++ s) := by
  have hstart := h.start
  have hstop := h.back.stop
  have hhead' := h.back.head
  rw [List.length_append] at hroom
  exact h.trans (hg bp' (by omega) h.headspace.le (by omega) (by omega))

theorem PushesBits.comp (hf : PushesBits f s) (hg : PushesBits g t) :
    PushesBits (fun bp => g (f bp)) (t ++ s) := by
  intro bp hhead hspace hstring hroom
  have hfirst : Pushed bp (f bp) s := by
    rw [List.length_append] at hroom
    exact hf bp hhead hspace hstring (by omega)
  exact hfirst.next hg hhead hstring hroom

/-- A length of one byte. -/
theorem pushesBits_lenByte (len : ℕ) :
    PushesBits (fun bp => (pushLenByte bp len).2) (natBits 8 len) := by
  intro bp hhead hspace hstring hroom
  rw [length_natBits] at hroom
  have hstart : bp.start = 8 * bp.data + bp.headHeadspaceBits := rfl
  change Pushed bp (pushLenByte bp len).2 _
  unfold pushLenByte
  split_ifs with h8 h0 hdata
  · exact (laid_byte h8).pushed hstring (Nat.zero_lt_succ 7)
  · exact (laid_byteBefore h0 (by omega)).pushed hstring (h0.trans_lt (Nat.zero_lt_succ 7))
  · omega
  · exact pushesBits_push len (by norm_num) bp hhead hspace hstring (by rwa [length_natBits])

theorem hasAt_bits (bp : Abuf) : HasAt (memBits bp.mem) bp.start bp.bits := by
  rw [HasAt, Abuf.bits, length_window]

theorem hasAt_of_bits (h : bp.bits = s ++ t) : HasAt (memBits bp.mem) bp.start s := by
  have hat := hasAt_bits bp
  rw [h] at hat
  exact hat.left

end Push

/-! ### UPER -/

/-- What `asn_push_encoded_len` writes. -/
def pushedLenBits (len : ℕ) : List Bool :=
  if len < 0x80 then natBits 8 len else natBits 16 (0x8000 + len % 0x2000)

/-- What `asn_put_encoded_len` writes: the bytes of a long length are swapped. -/
def putLenBits (len : ℕ) : List Bool :=
  if len < 0x80 then natBits 8 len
  else natBits 8 (len % 256) ++ natBits 8 (0x80 + len % 0x2000 / 256)

section Uper
variable {len : ℕ}

/-- Bit 13 is cleared. -/
theorem asnTwoBytes_mod (h : len < 0x4000) : asnTwoBytes len = 0x8000 + len % 0x2000 := by
  have hall : (len ||| 0x8000) &&& 0xDFFF = (len % 0x2000 ||| 0x8000) &&& 0xDFFF := by
    have hkeep : len &&& 0xDFFF = len % 0x2000 &&& 0xDFFF := by
      calc len &&& 0xDFFF = len &&& 0x3FFF &&& 0xDFFF := by
            rw [Nat.and_two_pow_sub_one_of_lt_two_pow (n := 14) h]
        _ = len &&& 0x1FFF &&& 0xDFFF := by rw [Nat.and_assoc, Nat.and_assoc]; rfl
        _ = len % 0x2000 &&& 0xDFFF := by rw [Nat.and_two_pow_sub_one_eq_mod len 13]
    rw [Nat.and_or_distrib_right, Nat.and_or_distrib_right, hkeep]
  rw [asnTwoBytes, hall]
  exact asnTwoBytes_eq (Nat.mod_lt _ (by norm_num))

theorem pushesBits_encodedLen (hpos : 0 < len) (hlen : len < 0x4000) :
    PushesBits (fun bp => (asnPushEncodedLen bp len).2) (pushedLenBits len) := by
  intro bp hhead hspace hstring hroom
  change Pushed bp (asnPushEncodedLen bp len).2 _
  unfold asnPushEncodedLen
  rw [if_pos (by omega), Int.toNat_natCast]
  by_cases hshort : len < 0x80
  · have hbits : pushedLenBits len = natBits 8 len := if_pos hshort
    rw [if_pos (by omega)]
    rw [hbits] at hroom ⊢
    exact pushesBits_lenByte len bp hhead hspace hstring hroom
  · have hbits : pushedLenBits len = natBits 16 (0x8000 + len % 0x2000) := if_neg hshort
    rw [if_neg (by omega), if_pos (by omega)]
    rw [hbits] at hroom ⊢
    rw [asnTwoBytes_mod hlen]
    exact pushesBits_push _ (by norm_num) bp hhead hspace hstring hroom

theorem appends_encodedLen (hpos : 0 < len) (hlen : len < 0x4000) :
    Appends (fun bp => (asnPutEncodedLen bp len).2) (putLenBits len) := by
  intro bp t h hroom
  dsimp only
  unfold asnPutEncodedLen
  rw [if_pos (by omega), Int.toNat_natCast]
  by_cases hshort : len < 0x80
  · have hbits : putLenBits len = natBits 8 len := if_pos hshort
    rw [if_pos (by omega)]
    rw [hbits] at hroom ⊢
    exact appends_ncat len 8 bp t h hroom
  · obtain ⟨low, hlow⟩ : ∃ low, low = len % 256 := ⟨_, rfl⟩
    obtain ⟨high, hhigh⟩ : ∃ high, high = 0x80 + len % 0x2000 / 256 := ⟨_, rfl⟩
    have htwo : asnTwoBytes len = high * 256 + low := by
      rw [asnTwoBytes_mod hlen]
      omega
    have hswap : natBits 16 ((asnTwoBytes len &&& 0xff) <<< 8 ||| asnTwoBytes len >>> 8) =
        putLenBits len := by
      have hfirst : asnTwoBytes len &&& 0xff = low := by
        rw [htwo, Nat.and_two_pow_sub_one_eq_mod _ 8]
        omega
      have hsecond : asnTwoBytes len >>> 8 = high := by
        rw [htwo, Nat.shiftRight_eq_div_pow]
        omega
      rw [putLenBits, if_neg hshort, ← hlow, ← hhigh, hfirst, hsecond, natBits_two,
        ← Nat.shiftLeft_add_eq_or_of_lt (by omega), Nat.shiftRight_eq_div_pow, Nat.shiftLeft_eq]
      have hle : high < 256 := by omega
      clear hfirst hsecond htwo hlow hhigh
      congr 1 <;> apply natBits_congr <;> omega
    rw [if_neg (by omega), if_pos (by omega)]
    rw [← hswap] at hroom ⊢
    exact appends_ncat _ 16 bp t h hroom

/-- For one length: both writers emit the same bits at every offset, and the reader returns the
length and stops behind them at every offset. -/
structure UperRoundTrip (len : ℕ) (s : List Bool) : Prop where
  size : s.length = 8 ∨ s.length = 16
  push : PushesBits (fun bp => (asnPushEncodedLen bp len).2) s
  put : Appends (fun bp => (asnPutEncodedLen bp len).2) s
  parse : ∀ mem pos, HasAt (memBits mem) pos s → parseAsnVariableLengthEnc mem (pos / 8)
    (8 - pos % 8) = ((len : ℤ), (pos + s.length) / 8, 8 - (pos + s.length) % 8)

/-- A writer in front determines what it emits. -/
theorem PushesBits.unique {f : Abuf → Abuf} {s t : List Bool} (hs : PushesBits f s)
    (ht : PushesBits f t) (hlen : s.length ≤ 16) (hlen' : t.length ≤ 16) : s = t := by
  have hempty : (abufAlloc 1 8 4).bits = [] := rfl
  have hstart : (abufAlloc 1 8 4).start = 40 := rfl
  have hfirst := hs (abufAlloc 1 8 4) (by decide) (by decide) (by decide)
    (by rw [hstart]; change 8 * 1 + _ ≤ 40; omega)
  have hsecond := ht (abufAlloc 1 8 4) (by decide) (by decide) (by decide)
    (by rw [hstart]; change 8 * 1 + _ ≤ 40; omega)
  have hbits := hfirst.bits.symm.trans hsecond.bits
  rwa [hempty, List.append_nil, List.append_nil] at hbits

theorem Appends.unique {f : Abuf → Abuf} {s t : List Bool} (hs : Appends f s) (ht : Appends f t)
    (hlen : s.length ≤ 16) (hsize : s.length = t.length) : s = t := by
  have hstop : (abufAlloc 1 8 4).stop = 40 := rfl
  obtain ⟨hholds, -⟩ := hs _ [] (holds_alloc 1 8 4)
    (by rw [hstop]; change 40 + _ ≤ 8 * 9; omega)
  obtain ⟨hholds', -⟩ := ht _ [] (holds_alloc 1 8 4)
    (by rw [hstop]; change 40 + _ ≤ 8 * 9; omega)
  have hbits := hholds.bits
  have hbits' := hholds'.bits
  rw [List.nil_append, HasAt] at hbits hbits'
  rw [← hbits, hsize, hbits']

theorem uperRoundTrip_of (hpos : 0 < len)
    (h : len < 0x80 ∨ len < 0x2000 ∧ len % 256 = 0x80 + len / 256) :
    UperRoundTrip len (pushedLenBits len) := by
  have hput := appends_encodedLen hpos (by omega)
  rcases h with hshort | ⟨hlen, hbytes⟩
  · have hbits : pushedLenBits len = natBits 8 len := if_pos hshort
    have hsame : putLenBits len = pushedLenBits len := (if_pos hshort).trans hbits.symm
    refine ⟨?_, pushesBits_encodedLen hpos (by omega), hsame ▸ hput, fun mem pos hat => ?_⟩
    · rw [hbits, length_natBits]
      exact Or.inl rfl
    · rw [hbits] at hat ⊢
      rw [length_natBits]
      exact parse_short_of_hasAt hat hshort
  · have hlong : ¬ len < 0x80 := by omega
    have hmod : len % 0x2000 = len := Nat.mod_eq_of_lt hlen
    have hbits : pushedLenBits len = natBits 16 (0x8000 + len) := by
      rw [pushedLenBits, if_neg hlong, hmod]
    have hsame : putLenBits len = pushedLenBits len := by
      rw [hbits, natBits_long, putLenBits, if_neg hlong, hmod, hbytes]
    refine ⟨?_, pushesBits_encodedLen hpos (by omega), hsame ▸ hput, fun mem pos hat => ?_⟩
    · rw [hbits, length_natBits]
      exact Or.inr rfl
    · rw [hbits] at hat ⊢
      rw [length_natBits]
      exact parse_long_of_hasAt hat (by omega)

/-- In a round trip the bytes of a long length are the same in both orders, and the bit that is
cleared was clear. -/
theorem UperRoundTrip.bytes {s : List Bool} (h : UperRoundTrip len s) (hlong : ¬ len < 0x80)
    (hlen : len < 0x4000) : len < 0x2000 ∧ len % 256 = 0x80 + len / 256 := by
  have hpush := pushesBits_encodedLen (by omega : 0 < len) hlen
  have hput := appends_encodedLen (by omega : 0 < len) hlen
  have hbits : pushedLenBits len = natBits 16 (0x8000 + len % 0x2000) := if_neg hlong
  have hswap : putLenBits len = natBits 8 (len % 256) ++ natBits 8 (0x80 + len % 0x2000 / 256) :=
    if_neg hlong
  have hsize : s.length ≤ 16 := by rcases h.size with h8 | h16 <;> omega
  have hs : s = natBits 16 (0x8000 + len % 0x2000) := by
    rw [← hbits]
    refine h.push.unique hpush hsize ?_
    rw [hbits, length_natBits]
  have hs' : s = natBits 8 (len % 256) ++ natBits 8 (0x80 + len % 0x2000 / 256) := by
    rw [← hswap]
    refine h.put.unique hput hsize ?_
    rw [hs, hswap, List.length_append, length_natBits, length_natBits, length_natBits]
  -- what the reader makes of these bits
  have hread : len % 0x2000 = len := by
    obtain ⟨hholds, -⟩ := appends_ncat (0x8000 + len % 0x2000) 16 _ [] (holds_alloc 1 8 4)
      (by rw [length_natBits]; decide)
    have hat := hholds.bits
    rw [List.nil_append] at hat
    have hlong' := parse_long_of_hasAt hat (by omega)
    rw [← hs] at hat
    have hparse := h.parse _ _ hat
    rw [hlong', Prod.mk.injEq] at hparse
    exact_mod_cast hparse.1
  have hfirst := hs'.symm.trans hs
  rw [natBits_long, hread] at hfirst
  have hbyte := congrArg toNat (List.append_inj hfirst (by
    rw [length_natBits, length_natBits])).1
  rw [toNat_natBits_of_lt (by omega), toNat_natBits_of_lt (by omega)] at hbyte
  exact ⟨by omega, hbyte⟩

/-- The two writers swap the bytes of a long length or not, and both clear its bit 13. -/
theorem uperRoundTrip_iff (hpos : 0 < len) (hlen : len < 0x4000) :
    (∃ s, UperRoundTrip len s) ↔ len < 0x80 ∨ len < 0x2000 ∧ len % 256 = 0x80 + len / 256 := by
  constructor
  · rintro ⟨s, h⟩
    by_cases hshort : len < 0x80
    · exact Or.inl hshort
    · exact Or.inr (h.bytes hshort hlen)
  · exact fun h => ⟨_, uperRoundTrip_of hpos h⟩

theorem uperRoundTrip_iff_palindrome : (∃ s, UperRoundTrip 0x181 s) ↔
    0x181 < 0x80 ∨ 0x181 < 0x2000 ∧ 0x181 % 256 = 0x80 + 0x181 / 256 :=
  uperRoundTrip_iff (by norm_num) (by norm_num)

/-- 200 is 80c8 in front and c880 at the end. -/
theorem not_uperRoundTrip_200 : ¬ ∃ s, UperRoundTrip 200 s := by
  rintro ⟨s, h⟩
  obtain ⟨-, hbytes⟩ := h.bytes (by norm_num) (by norm_num)
  exact absurd hbytes (by norm_num)

end Uper

/-! ### CER -/

/-- The number of octets of a length. -/
def cerOctetCount (len : ℕ) : ℕ :=
  if len < 0x100 then 1 else if len < 0x10000 then 2 else if len < 0x1000000 then 3 else 4

def cerLenBits (len : ℕ) : List Bool :=
  if len < 0x80 then natBits 8 len
  else natBits 8 (0x80 + cerOctetCount len) ++ natBits (8 * cerOctetCount len) len

section Cer
variable {len : ℕ}

theorem lt_cerOctets (hlen : len < 2 ^ 32) : len < 2 ^ (8 * cerOctetCount len) := by
  unfold cerOctetCount
  split_ifs <;> omega

theorem cerOctetCount_mem (len : ℕ) : 1 ≤ cerOctetCount len ∧ cerOctetCount len ≤ 4 := by
  unfold cerOctetCount
  split_ifs <;> omega

theorem length_cerLenBits (len : ℕ) : (cerLenBits len).length =
    if len < 0x80 then 8 else 8 + 8 * cerOctetCount len := by
  unfold cerLenBits
  split_ifs <;> simp

/-- The count of octets and its flag are one byte. -/
theorem natBits_flag {n : ℕ} (hn : n < 0x80) : natBits 1 1 ++ natBits 7 n = natBits 8 (0x80 + n) := by
  rw [show (8 : ℕ) = 1 + 7 by rfl, natBits_add]
  congr 1
  · apply natBits_congr
    omega
  · apply natBits_congr
    omega

theorem pushesBits_cerLen (hpos : 0 < len) (hlen : len < 2 ^ 31) :
    PushesBits (fun bp => (asnPushCerEncodedLen bp len).2) (cerLenBits len) := by
  intro bp hhead hspace hstring hroom
  change Pushed bp (asnPushCerEncodedLen bp len).2 _
  unfold asnPushCerEncodedLen
  rw [if_pos (by omega), Int.toNat_natCast]
  by_cases hshort : len < 0x80
  · have hbits : cerLenBits len = natBits 8 len := if_pos hshort
    rw [if_pos (by omega)]
    rw [hbits] at hroom ⊢
    exact pushesBits_lenByte len bp hhead hspace hstring hroom
  · obtain ⟨hone, hfour⟩ := cerOctetCount_mem len
    have hcount : (if (len : ℤ) < 0x100 then 1 else if (len : ℤ) < 0x10000 then 2
        else if (len : ℤ) < 0x1000000 then 3 else if (len : ℤ) < 0x100000000 then 4 else 0) =
        cerOctetCount len := by
      unfold cerOctetCount
      split_ifs <;> omega
    have hbits : cerLenBits len =
        natBits 1 1 ++ (natBits 7 (cerOctetCount len) ++ natBits (8 * cerOctetCount len) len) := by
      rw [cerLenBits, if_neg hshort, ← natBits_flag (by omega), List.append_assoc]
    rw [if_neg (by omega)]
    dsimp only
    rw [hcount, if_neg (by omega)]
    rw [hbits] at hroom ⊢
    have hoctets := pushesBits_push len (n := 8 * cerOctetCount len) (by omega)
    have hnoctets := hoctets.comp (pushesBits_push (cerOctetCount len) (n := 7) (by norm_num))
    exact (hnoctets.comp (pushesBits_push 1 Nat.one_pos)) bp hhead hspace hstring hroom

/-- The loop over the octets: `m` of them are read, and `n` are left. -/
theorem cerOctets_eq (mem : ℕ → UInt8) (pos : ℕ) {m n : ℕ} (hm : 0 < m) (hmn : m + n ≤ 4)
    (hpos : pos % 8 = 0) :
    cerOctets mem n (toNat (window (memBits mem) pos (8 * m))) ((pos + 8 * m) / 8) 8 =
      (toNat (window (memBits mem) pos (8 * (m + n))), (pos + 8 * (m + n)) / 8, 8) := by
  induction n generalizing m with
  | zero => rfl
  | succ n ih =>
    have hread := getNextNBits_eq mem (pos + 8 * m) (n := 8) (by norm_num)
    rw [show 8 - (pos + 8 * m) % 8 = 8 by omega, show 8 - (pos + 8 * m + 8) % 8 = 8 by omega]
      at hread
    have hsmall : toNat (window (memBits mem) pos (8 * m)) < 2 ^ (8 * m) := by
      have hlt := toNat_lt (window (memBits mem) pos (8 * m))
      rwa [length_window] at hlt
    have hbound : 2 ^ (8 * m) ≤ 2 ^ 32 := Nat.pow_le_pow_right (by norm_num) (by omega)
    have hunset : toNat (window (memBits mem) pos (8 * m)) ≠ 2 ^ 64 - 1 := by omega
    have hjoin : toNat (window (memBits mem) pos (8 * m)) <<< 8 % 2 ^ 64 |||
        toNat (window (memBits mem) (pos + 8 * m) 8) =
        toNat (window (memBits mem) pos (8 * (m + 1))) := by
      rw [Nat.shiftLeft_eq, Nat.mod_eq_of_lt (by omega), ← Nat.shiftLeft_eq, Nat.mul_succ,
        window_add, toNat_append_or, length_window]
    have hrest := ih (m := m + 1) (by omega) (by omega)
    rw [show m + 1 + n = m + (n + 1) by omega] at hrest
    rw [cerOctets, hread]
    dsimp only
    rw [if_neg hunset, hjoin, ← hrest]
    congr 1

/-- A length is read back on a byte boundary. -/
theorem parseAsnCerLenEnc_of_hasAt {mem : ℕ → UInt8} {pos : ℕ}
    (h : HasAt (memBits mem) pos (cerLenBits len)) (hpos : pos % 8 = 0) (hlen : len < 2 ^ 31) :
    parseAsnCerLenEnc mem (pos / 8) 8 = (len, (pos + (cerLenBits len).length) / 8, 8) := by
  unfold parseAsnCerLenEnc
  by_cases hshort : len < 0x80
  · have hbits : cerLenBits len = natBits 8 len := if_pos hshort
    have hflag : len &&& 0x80 = 0 := by
      rw [← Nat.and_two_pow_sub_one_of_lt_two_pow (n := 7) hshort, Nat.and_assoc]
      exact Nat.and_zero _
    rw [hbits] at h ⊢
    rw [byte_of_hasAt h hpos (by omega), if_neg (not_not_intro hflag), length_natBits]
    congr 2
    omega
  · obtain ⟨hone, hfour⟩ := cerOctetCount_mem len
    obtain ⟨n, hn⟩ : ∃ n, n = cerOctetCount len := ⟨_, rfl⟩
    have hbits : cerLenBits len = natBits 8 (0x80 + n) ++ natBits (8 * n) len := by
      rw [cerLenBits, if_neg hshort, hn]
    rw [← hn] at hone hfour
    rw [hbits] at h ⊢
    have hoctets := h.right
    rw [length_natBits] at hoctets
    have hflags := lenByte_flags (k := n) (by omega)
    have hcount : getNextNBits mem (pos / 8) 7 7 = (n, pos / 8 + 1, 8) := by
      have hcountbits : HasAt (memBits mem) (pos + 1) (natBits 7 n) := by
        have hsplit := h.left
        rw [← natBits_flag (by omega)] at hsplit
        exact hsplit.right
      have hread := getNextNBits_of_hasAt hcountbits (by norm_num) (by omega)
      rw [show (pos + 1) / 8 = pos / 8 by omega, show 8 - (pos + 1) % 8 = 7 by omega,
        show (pos + 1 + 7) / 8 = pos / 8 + 1 by omega, show 8 - (pos + 1 + 7) % 8 = 8 by omega]
        at hread
      exact hread
    have hvalue : toNat (window (memBits mem) (pos + 8) (8 * n)) = len := by
      rw [hoctets.toNat, Nat.mod_eq_of_lt]
      rw [hn]
      exact lt_cerOctets (by omega)
    rw [byte_of_hasAt h.left hpos (by omega), if_pos hflags.1, hcount, List.length_append,
      length_natBits, length_natBits]
    dsimp only
    obtain ⟨k, rfl⟩ : ∃ k, n = k + 1 := ⟨n - 1, by omega⟩
    have hfirst := getNextNBits_eq mem (pos + 8) (n := 8) (by norm_num)
    rw [show (pos + 8) / 8 = pos / 8 + 1 by omega, show 8 - (pos + 8) % 8 = 8 by omega,
      show 8 - (pos + 8 + 8) % 8 = 8 by omega] at hfirst
    have hloop := cerOctets_eq mem (pos + 8) (m := 1) (n := k) Nat.one_pos (by omega) (by omega)
    rw [Nat.mul_one, Nat.add_comm 1 k, hvalue] at hloop
    rw [cerOctets, hfirst]
    dsimp only
    rw [if_pos rfl, hloop]
    congr 2
    omega

end Cer

end Tulux.QCoder
