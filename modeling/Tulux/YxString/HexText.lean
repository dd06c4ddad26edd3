import Tulux.YxString.Search

/-! Hexadecimal text in `yx_string.c`. Counters and lengths are 16 bits wide. -/
namespace Tulux.YxString
open Loop

def yxStrHex2char (sbyte : UInt8) : UInt8 :=
  if sbyte &&& 0x0f < 0x0a then (sbyte &&& 0x0f) + 0x30 else (sbyte &&& 0x0f) - 0x0a + 0x41

def yxStrChar2hex (schar : UInt8) : UInt8 :=
  if 0x30 ≤ schar ∧ schar ≤ 0x39 then schar - 0x30
  else if 0x41 ≤ schar ∧ schar ≤ 0x46 then schar - 0x41 + 0x0a
  else if 0x61 ≤ schar ∧ schar ≤ 0x66 then schar - 0x61 + 0x0a
  else 0

/-- A digit, or a letter from A to F. -/
def IsHexChar (c : UInt8) : Prop := 0x30 ≤ c ∧ c ≤ 0x39 ∨ 0x41 ≤ c ∧ c ≤ 0x46

instance (c : UInt8) : Decidable (IsHexChar c) := inferInstanceAs (Decidable (_ ∨ _))

/-- The counter, the next byte to read, and the bytes written so far. -/
structure TextState where
  i : UInt16
  sptr : ℕ
  dst : List UInt8

/-- The two characters of a byte. -/
def hexPair (stemp : UInt8) : List UInt8 :=
  [yxStrHex2char (stemp >>> 4), yxStrHex2char (stemp &&& 0x0f)]

def hex2asciiPass (src : List UInt8) (len : UInt16) (st : TextState) :
    TextState ⊕ (UInt16 × List UInt8) :=
  if st.i ≤ len then
    .inl ⟨st.i + 1, st.sptr + 1, st.dst ++ hexPair (byteAt src st.sptr)⟩
  else .inr (2 * len, st.dst)

/-- Returns the length it tells, and what it writes. -/
def yxStrHex2ascii (src : List UInt8) (len : UInt16) : ℕ → Option (UInt16 × List UInt8) :=
  run (hex2asciiPass src len) ⟨1, 0, []⟩

def ascii2hexPass (src : List UInt8) (len : UInt16) (st : TextState) :
    TextState ⊕ (UInt16 × List UInt8) :=
  if st.i ≤ len then
    let dtemp := yxStrChar2hex (byteAt src st.sptr) <<< 4
    .inl ⟨st.i + 1, st.sptr + 2, st.dst ++ [yxStrChar2hex (byteAt src (st.sptr + 1)) ||| dtemp]⟩
  else .inr (len, st.dst)

/-- Fails on an odd length. -/
def yxStrAscii2hex (src : List UInt8) (len : UInt16) (fuel : ℕ) : Option (UInt16 × List UInt8) :=
  if len % 2 ≠ 0 then some (0, []) else run (ascii2hexPass src (len / 2)) ⟨1, 0, []⟩ fuel

/-! ### Characters -/

theorem isHexChar_hex2char (b : UInt8) : IsHexChar (yxStrHex2char b) := by
  have h : ∀ n < 256, IsHexChar (yxStrHex2char (UInt8.ofNat n)) := by decide +kernel
  simpa using h b.toNat b.toNat_lt

theorem char2hex_hexPair (b : UInt8) :
    yxStrChar2hex (yxStrHex2char (b &&& 0x0f)) |||
      yxStrChar2hex (yxStrHex2char (b >>> 4)) <<< 4 = b := by
  have h : ∀ n < 256, yxStrChar2hex (yxStrHex2char (UInt8.ofNat n &&& 0x0f)) |||
      yxStrChar2hex (yxStrHex2char (UInt8.ofNat n >>> 4)) <<< 4 = UInt8.ofNat n := by
    decide +kernel
  simpa using h b.toNat b.toNat_lt

theorem length_flatMap_hexPair (src : List UInt8) :
    (src.flatMap hexPair).length = 2 * src.length := by
  induction src with
  | nil => rfl
  | cons b src ih => simp [hexPair, ih]; omega

/-- The characters of the byte at `i`. -/
theorem byteAt_flatMap_hexPair {src : List UInt8} {i : ℕ} (hi : i < src.length) :
    byteAt (src.flatMap hexPair) (2 * i) = yxStrHex2char (byteAt src i >>> 4) ∧
      byteAt (src.flatMap hexPair) (2 * i + 1) = yxStrHex2char (byteAt src i &&& 0x0f) := by
  induction src generalizing i with
  | nil => simp at hi
  | cons b src ih =>
    cases i with
    | zero => simp [byteAt, hexPair]
    | succ i => simpa [byteAt, hexPair, Nat.mul_add] using ih (by simpa using hi)

/-! ### Loops -/

section Loops
variable {src : List UInt8} {len : UInt16}

theorem hex2ascii_yields (hlen : src.length = len.toNat) (hfit : src.length < 65535) :
    Yields (yxStrHex2ascii src len) (2 * len, src.flatMap hexPair) := by
  -- the characters of the first `sptr` bytes are written
  let inv (st : TextState) : Prop := st.i.toNat = st.sptr + 1 ∧ st.sptr ≤ src.length ∧
    st.dst = (src.take st.sptr).flatMap hexPair
  have go (st st' : TextState) (h : inv st) (hp : hex2asciiPass src len st = .inl st') :
      inv st' ∧ src.length - st'.sptr < src.length - st.sptr := by
    obtain ⟨hi, hs, hd⟩ := h
    unfold hex2asciiPass at hp
    split_ifs at hp with hle
    obtain rfl := Sum.inl.inj hp
    rw [UInt16.le_iff_toNat_le] at hle
    have hlt : st.sptr < src.length := by omega
    refine ⟨⟨?_, hlt, ?_⟩, ?_⟩
    · rw [UInt16.toNat_add]
      simp only [UInt16.toNat_one]
      omega
    · rw [hd, List.take_add_one, byteAt_eq hlt, Option.toList_some, List.flatMap_append]
      simp
    · dsimp only
      omega
  have done (st : TextState) (r : UInt16 × List UInt8) (h : inv st)
      (hp : hex2asciiPass src len st = .inr r) : r = (2 * len, src.flatMap hexPair) := by
    obtain ⟨hi, hs, hd⟩ := h
    unfold hex2asciiPass at hp
    split_ifs at hp with hle
    obtain rfl := Sum.inr.inj hp
    rw [UInt16.le_iff_toNat_le] at hle
    rw [hd, List.take_of_length_le (by omega)]
  obtain ⟨r, hr, rfl⟩ := yields_of_invariant (hex2asciiPass src len) inv
    (fun st => src.length - st.sptr) _ go done (s := ⟨1, 0, []⟩) ⟨rfl, Nat.zero_le _, rfl⟩
  exact hr

/-- A 16 bit counter never passes 65535. -/
theorem hex2ascii_endless (hlen : len.toNat = 65535) : Endless (yxStrHex2ascii src len) := by
  refine endless_of_invariant (hex2asciiPass src len) (fun _ => True) (fun st _ => ?_) trivial
  have hle : st.i ≤ len := by
    rw [UInt16.le_iff_toNat_le, hlen]
    have := st.i.toNat_lt
    omega
  exact ⟨_, by rw [hex2asciiPass, if_pos hle], trivial⟩

theorem ascii2hex_yields (hlen : len.toNat = 2 * src.length) (hfit : src.length ≤ 32767) :
    Yields (yxStrAscii2hex (src.flatMap hexPair) len) (UInt16.ofNat src.length, src) := by
  have heven : ¬ len % 2 ≠ 0 := by
    rw [not_not, ← UInt16.toNat_inj, UInt16.toNat_mod, hlen]
    simp
  have hhalf : (len / 2).toNat = src.length := by
    rw [UInt16.toNat_div, hlen]
    simp
  have hrun : yxStrAscii2hex (src.flatMap hexPair) len =
      run (ascii2hexPass (src.flatMap hexPair) (len / 2)) ⟨1, 0, []⟩ := by
    funext fuel
    rw [yxStrAscii2hex, if_neg heven]
  -- the first `k` bytes are restored
  let inv (st : TextState) : Prop := ∃ k, st.i.toNat = k + 1 ∧ st.sptr = 2 * k ∧
    k ≤ src.length ∧ st.dst = src.take k
  have go (st st' : TextState) (h : inv st)
      (hp : ascii2hexPass (src.flatMap hexPair) (len / 2) st = .inl st') :
      inv st' ∧ 2 * src.length - st'.sptr < 2 * src.length - st.sptr := by
    obtain ⟨k, hi, hs, hk, hd⟩ := h
    unfold ascii2hexPass at hp
    dsimp only at hp
    split_ifs at hp with hle
    obtain rfl := Sum.inl.inj hp
    rw [UInt16.le_iff_toNat_le, hhalf] at hle
    have hlt : k < src.length := by omega
    obtain ⟨hhigh, hlow⟩ := byteAt_flatMap_hexPair hlt
    refine ⟨⟨k + 1, ?_, ?_, hlt, ?_⟩, ?_⟩
    · rw [UInt16.toNat_add]
      simp only [UInt16.toNat_one]
      omega
    · dsimp only
      omega
    · rw [hs, hhigh, hlow, char2hex_hexPair, hd, List.take_add_one, byteAt_eq hlt,
        Option.toList_some]
    · dsimp only
      omega
  have done (st : TextState) (r : UInt16 × List UInt8) (h : inv st)
      (hp : ascii2hexPass (src.flatMap hexPair) (len / 2) st = .inr r) :
      r = (UInt16.ofNat src.length, src) := by
    obtain ⟨k, hi, hs, hk, hd⟩ := h
    unfold ascii2hexPass at hp
    dsimp only at hp
    split_ifs at hp with hle
    obtain rfl := Sum.inr.inj hp
    rw [UInt16.le_iff_toNat_le, hhalf] at hle
    rw [hd, List.take_of_length_le (by omega), ← hhalf, UInt16.ofNat_toNat]
  obtain ⟨r, hr, rfl⟩ := yields_of_invariant _ inv (fun st => 2 * src.length - st.sptr) _ go done
    (s := ⟨1, 0, []⟩) ⟨0, rfl, rfl, Nat.zero_le _, rfl⟩
  rw [hrun]
  exact hr

end Loops

/-! ### Round trip -/

/-- `yx_str_hex2ascii` ends, writes two hexadecimal characters for each byte and tells how many
characters it wrote, and `yx_str_ascii2hex` restores the bytes and their number. -/
def HexRestored (src : List UInt8) : Prop :=
  ∃ n dst, Yields (yxStrHex2ascii src (UInt16.ofNat src.length)) (n, dst) ∧
    dst.length = 2 * src.length ∧ (∀ c ∈ dst, IsHexChar c) ∧ n.toNat = dst.length ∧
    Yields (yxStrAscii2hex dst n) (UInt16.ofNat src.length, src)

theorem hexRestored_iff {src : List UInt8} (hsrc : src.length ≤ 65535) :
    HexRestored src ↔ src.length ≤ 32767 := by
  have hlen : (UInt16.ofNat src.length).toNat = src.length := by
    exact UInt16.toNat_ofNat_of_lt' (by simp only [UInt16.size]; omega)
  have htwice : (2 * UInt16.ofNat src.length).toNat = 2 * src.length % 65536 := by
    rw [UInt16.toNat_mul, hlen]
    simp
  constructor
  · rintro ⟨n, dst, hr, hdst, -, hn, -⟩
    by_cases hfit : src.length < 65535
    · obtain ⟨rfl, rfl⟩ := Prod.mk.inj (hr.unique (hex2ascii_yields hlen.symm hfit))
      rw [htwice, hdst] at hn
      omega
    · exact absurd hr (hex2ascii_endless (by omega)).not_yields
  · intro hfit
    refine ⟨2 * UInt16.ofNat src.length, src.flatMap hexPair,
      hex2ascii_yields hlen.symm (by omega), length_flatMap_hexPair src, ?_, ?_,
      ascii2hex_yields (by omega) hfit⟩
    · intro c hc
      obtain ⟨b, -, hb⟩ := List.mem_flatMap.mp hc
      rcases List.mem_pair.mp hb with rfl | rfl
      · exact isHexChar_hex2char _
      · exact isHexChar_hex2char _
    · rw [htwice, length_flatMap_hexPair]
      omega

theorem hexRestored_two : [(0x5a : UInt8), 0x0f].length ≤ 65535 ∧
    (HexRestored [0x5a, 0x0f] ↔ [(0x5a : UInt8), 0x0f].length ≤ 32767) :=
  ⟨by decide, hexRestored_iff (by decide)⟩

/-- With 65535 bytes `yx_str_hex2ascii` does not end. -/
theorem not_hexRestored : ¬ HexRestored (List.replicate 65535 0) := by
  rintro ⟨n, dst, hr, -⟩
  rw [List.length_replicate] at hr
  exact (hex2ascii_endless (by decide)).not_yields hr

end Tulux.YxString
