import Tulux.YxString.HexText

/-! Decimal text in `yx_string.c`. The text is built in place, with pointers that may run below its
start. -/
namespace Tulux.YxString
open Loop

/-- The memory around the output pointer, and the offsets stored to so far. -/
structure OutBuf where
  mem : ℤ → UInt8
  written : List ℤ

def OutBuf.store (out : OutBuf) (a : ℤ) (v : UInt8) : OutBuf :=
  ⟨Function.update out.mem a v, out.written ++ [a]⟩

structure DigitState where
  data : UInt32
  dptr : ℤ
  len : UInt8
  out : OutBuf

/-- The digits, the last one first. -/
def digitPass (st : DigitState) : DigitState ⊕ (UInt8 × OutBuf) :=
  let out := st.out.store st.dptr (yxStrHex2char (st.data % 10).toUInt8)
  if st.data < 10 then .inr (st.len + 1, out)
  else .inl ⟨st.data / 10, st.dptr + 1, st.len + 1, out⟩

structure SwapState where
  i : UInt8
  out : OutBuf

def swapPass (len : UInt8) (st : SwapState) : SwapState ⊕ OutBuf :=
  if st.i.toNat < len.toNat / 2 then
    let last : ℤ := len.toNat - 1 - st.i.toNat
    let temp := st.out.mem st.i.toNat
    .inl ⟨st.i + 1, (st.out.store st.i.toNat (st.out.mem last)).store last temp⟩
  else .inr st.out

structure ShiftState where
  i : UInt8
  dptr : ℤ
  out : OutBuf

/-- The digits move to the end of the text, and zeros fill its start. -/
def shiftPass (len reflen : UInt8) (st : ShiftState) : ShiftState ⊕ OutBuf :=
  if st.i ≤ reflen then
    let v := if st.i ≤ len then st.out.mem st.dptr else 0x30
    .inl ⟨st.i + 1, st.dptr - 1, st.out.store (st.dptr + (reflen.toNat - len.toNat)) v⟩
  else .inr st.out

def yxStrDec2ascii (mem : ℤ → UInt8) (data : UInt32) (reflen : UInt8) (fuel : ℕ) :
    Option (UInt8 × OutBuf) :=
  (run digitPass ⟨data, 0, 0, ⟨mem, []⟩⟩ fuel).bind fun (len, out) =>
    if len ≠ 0 then
      (run (swapPass len) ⟨0, out⟩ fuel).bind fun out =>
        if len < reflen then
          (run (shiftPass len reflen) ⟨1, len.toNat - 1, out⟩ fuel).map fun out => (reflen, out)
        else some (len, out)
    else some (len, out)

def yxStrAscii2dec (sptr : List UInt8) (len : UInt8) : UInt32 :=
  (sptr.take len.toNat).foldl (fun result c => result * 10 + (yxStrChar2hex c).toUInt32) 0

/-! ### Digits -/

/-- The number of decimal digits; 0 has one. -/
def decLen (data : ℕ) : ℕ := max 1 (Nat.digits 10 data).length

/-- The character of the digit with the weight `10 ^ k`. -/
def decChar (data k : ℕ) : UInt8 := UInt8.ofNat (0x30 + (Nat.digits 10 data).getD k 0)

theorem decLen_eq (data : ℕ) : decLen data = Nat.log 10 data + 1 := by
  rw [decLen]
  rcases Nat.eq_zero_or_pos data with rfl | hpos
  · simp
  · rw [Nat.length_digits 10 data (by decide) (by omega)]
    omega

theorem decLen_le (data : UInt32) : decLen data.toNat ≤ 10 := by
  have hlt : data.toNat < 10 ^ 10 := data.toNat_lt.trans (by decide)
  rw [decLen_eq]
  have := Nat.log_lt_of_lt_pow' (by decide) hlt
  omega

theorem decChar_eq (data k : ℕ) : decChar data k = UInt8.ofNat (0x30 + data / 10 ^ k % 10) := by
  rw [decChar, Nat.getD_digits data k (by decide)]

theorem decChar_of_le {data k : ℕ} (h : decLen data ≤ k) : decChar data k = 0x30 := by
  rw [decChar, List.getD_eq_getElem?_getD, List.getElem?_eq_none ((le_max_right _ _).trans h)]
  rfl

theorem char2hex_decChar (data k : ℕ) :
    (yxStrChar2hex (decChar data k)).toNat = data / 10 ^ k % 10 := by
  have h : ∀ d < 10, (yxStrChar2hex (UInt8.ofNat (0x30 + d))).toNat = d := by decide
  rw [decChar_eq]
  exact h _ (Nat.mod_lt _ (by decide))

theorem hex2char_digit {data : UInt32} {n k : ℕ} (h : data.toNat = n / 10 ^ k) :
    yxStrHex2char (data % 10).toUInt8 = decChar n k := by
  have hchar : ∀ d < 10, yxStrHex2char (UInt8.ofNat d) = UInt8.ofNat (0x30 + d) := by decide
  have hdigit : (data % 10).toUInt8 = UInt8.ofNat (n / 10 ^ k % 10) := by
    rw [← UInt8.toNat_inj, UInt32.toNat_toUInt8, UInt32.toNat_mod, h]
    rfl
  rw [hdigit, decChar_eq]
  exact hchar _ (Nat.mod_lt _ (by decide))

/-! ### The text in memory -/

/-- The text is `c 0` to `c (n - 1)`, and nothing is written beside it. -/
structure Text (mem : ℤ → UInt8) (out : OutBuf) (n : ℕ) (c : ℕ → UInt8) : Prop where
  text : ∀ j < n, out.mem j = c j
  rest : ∀ a : ℤ, ¬ (0 ≤ a ∧ a < n) → out.mem a = mem a
  written : ∀ a : ℤ, a ∈ out.written ↔ 0 ≤ a ∧ a < n

namespace Text
variable {mem : ℤ → UInt8} {out : OutBuf} {n : ℕ} {c c' : ℕ → UInt8}

theorem congr (h : Text mem out n c) (heq : ∀ j < n, c j = c' j) : Text mem out n c' :=
  ⟨fun j hj => (h.text j hj).trans (heq j hj), h.rest, h.written⟩

theorem extend (h : Text mem out n c) (hc : ∀ j < n, c' j = c j) :
    Text mem (out.store n (c' n)) (n + 1) c' := by
  refine ⟨fun j hj => ?_, fun a ha => ?_, fun a => ?_⟩
  · by_cases hjn : j = n
    · subst hjn
      exact Function.update_self _ _ _
    · have hlt : j < n := by omega
      have hne : (j : ℤ) ≠ n := by exact_mod_cast hjn
      simp only [OutBuf.store, Function.update_of_ne hne, h.text j hlt, hc j hlt]
  · have hne : a ≠ n := by omega
    simp only [OutBuf.store, Function.update_of_ne hne]
    exact h.rest a (by omega)
  · simp only [OutBuf.store, List.mem_append, List.mem_singleton, h.written]
    omega

theorem store (h : Text mem out n c) {j : ℕ} (hj : j < n) (v : UInt8) :
    Text mem (out.store j v) n (Function.update c j v) := by
  refine ⟨fun i hi => ?_, fun a ha => ?_, fun a => ?_⟩
  · by_cases hij : i = j
    · subst hij
      simp [OutBuf.store]
    · have hne : (i : ℤ) ≠ j := by exact_mod_cast hij
      simp only [OutBuf.store, Function.update_of_ne hne, Function.update_of_ne hij, h.text i hi]
  · have hne : a ≠ j := by omega
    simp only [OutBuf.store, Function.update_of_ne hne]
    exact h.rest a ha
  · simp only [OutBuf.store, List.mem_append, List.mem_singleton, h.written]
    omega

end Text

/-! ### Loops -/

section Loops
variable {mem : ℤ → UInt8} {out : OutBuf}

/-- The digits come out with the last one first. -/
theorem digits_yield (mem : ℤ → UInt8) (data : UInt32) :
    ∃ len out, Yields (run digitPass ⟨data, 0, 0, ⟨mem, []⟩⟩) (len, out) ∧
      len.toNat = decLen data.toNat ∧ Text mem out (decLen data.toNat) (decChar data.toNat) := by
  have hlog := decLen_eq data.toNat
  have hten := decLen_le data
  let inv (st : DigitState) : Prop := ∃ k, k ≤ Nat.log 10 data.toNat ∧ st.dptr = k ∧
    st.len.toNat = k ∧ st.data.toNat = data.toNat / 10 ^ k ∧
    Text mem st.out k (decChar data.toNat)
  let post (r : UInt8 × OutBuf) : Prop := r.1.toNat = decLen data.toNat ∧
    Text mem r.2 (decLen data.toNat) (decChar data.toNat)
  -- the digit of the weight `10 ^ k` is stored
  have stored (st : DigitState) (k : ℕ) (hd : st.dptr = k)
      (hdata : st.data.toNat = data.toNat / 10 ^ k)
      (ht : Text mem st.out k (decChar data.toNat)) :
      Text mem (st.out.store st.dptr (yxStrHex2char (st.data % 10).toUInt8)) (k + 1)
        (decChar data.toNat) := by
    rw [hd, hex2char_digit hdata]
    exact ht.extend fun _ _ => rfl
  have count (len : UInt8) (k : ℕ) (hk : k ≤ Nat.log 10 data.toNat) (hlen : len.toNat = k) :
      (len + 1).toNat = k + 1 := by
    rw [UInt8.toNat_add, hlen]
    simp only [UInt8.toNat_one]
    omega
  have go (st st' : DigitState) (h : inv st) (hp : digitPass st = .inl st') :
      inv st' ∧ st'.data.toNat < st.data.toNat := by
    obtain ⟨k, hk, hd, hl, hdata, ht⟩ := h
    unfold digitPass at hp
    dsimp only at hp
    split_ifs at hp with hlast
    obtain rfl := Sum.inl.inj hp
    rw [UInt32.lt_iff_toNat_lt, UInt32.toNat_ofNat, hdata, not_lt] at hlast
    have hge : 10 ≤ data.toNat / 10 ^ k := hlast
    have hpow : 10 ^ (k + 1) ≤ data.toNat := by
      rw [pow_succ, Nat.mul_comm]
      exact (Nat.le_div_iff_mul_le (by positivity)).mp hge
    have hnext : (st.data / 10).toNat = data.toNat / 10 ^ (k + 1) := by
      rw [UInt32.toNat_div, hdata, pow_succ, ← Nat.div_div_eq_div_mul]
      rfl
    refine ⟨⟨k + 1, ?_, ?_, count _ k hk hl, hnext, stored st k hd hdata ht⟩, ?_⟩
    · exact Nat.le_log_of_pow_le (by decide) hpow
    · simp [hd]
    · rw [UInt32.toNat_div]
      exact Nat.div_lt_self (by rw [hdata]; omega) (by decide)
  have done (st : DigitState) (r : UInt8 × OutBuf) (h : inv st) (hp : digitPass st = .inr r) :
      post r := by
    obtain ⟨k, hk, hd, hl, hdata, ht⟩ := h
    unfold digitPass at hp
    dsimp only at hp
    split_ifs at hp with hlast
    obtain rfl := Sum.inr.inj hp
    rw [UInt32.lt_iff_toNat_lt, UInt32.toNat_ofNat, hdata] at hlast
    have hpow : data.toNat < 10 ^ (k + 1) := by
      rw [pow_succ, Nat.mul_comm]
      exact (Nat.div_lt_iff_lt_mul (by positivity)).mp hlast
    have hlast : Nat.log 10 data.toNat < k + 1 := Nat.log_lt_of_lt_pow' (by omega) hpow
    have hlen : decLen data.toNat = k + 1 := by omega
    refine ⟨?_, ?_⟩
    · rw [hlen]
      exact count _ k hk hl
    · rw [hlen]
      exact stored st k hd hdata ht
  have start : inv ⟨data, 0, 0, ⟨mem, []⟩⟩ := by
    refine ⟨0, Nat.zero_le _, rfl, rfl, by simp, fun j hj => absurd hj (by omega), fun _ _ => rfl,
      fun a => ?_⟩
    simp
  obtain ⟨⟨len, out⟩, hr, hlen, ht⟩ :=
    yields_of_invariant digitPass inv (fun st => st.data.toNat) post go done start
  exact ⟨len, out, hr, hlen, ht⟩

/-- The text is turned round. -/
theorem swaps_yield {len : UInt8} {c : ℕ → UInt8} (h : Text mem out len.toNat c) :
    ∃ out', Yields (run (swapPass len) ⟨0, out⟩) out' ∧
      Text mem out' len.toNat fun j => c (len.toNat - 1 - j) := by
  have hbyte := len.toNat_lt
  set n := len.toNat with hn
  -- the outer `i` characters on both sides have been exchanged
  let swapped (i j : ℕ) : UInt8 := if j < i ∨ n ≤ i + j then c (n - 1 - j) else c j
  let inv (st : SwapState) : Prop :=
    st.i.toNat ≤ n / 2 ∧ Text mem st.out n (swapped st.i.toNat)
  have go (st st' : SwapState) (h : inv st) (hp : swapPass len st = .inl st') :
      inv st' ∧ n / 2 - st'.i.toNat < n / 2 - st.i.toNat := by
    obtain ⟨hi, ht⟩ := h
    unfold swapPass at hp
    dsimp only at hp
    split_ifs at hp with hlt
    obtain rfl := Sum.inl.inj hp
    have hnext : (st.i + 1).toNat = st.i.toNat + 1 := by
      rw [UInt8.toNat_add]
      simp only [UInt8.toNat_one]
      omega
    set i := st.i.toNat with hidef
    have hlast : ((n : ℤ) - 1 - (i : ℤ)) = ((n - 1 - i : ℕ) : ℤ) := by omega
    refine ⟨⟨by dsimp only; omega, ?_⟩, by dsimp only; omega⟩
    dsimp only
    rw [hnext, ← hn, hlast, ht.text _ (by omega), ht.text _ (by omega)]
    refine ((ht.store (by omega) _).store (by omega) _).congr fun j hj => ?_
    by_cases hjl : j = n - 1 - i
    · subst hjl
      rw [Function.update_self]
      simp only [swapped]
      rw [if_neg (by omega), if_pos (by omega)]
      congr 1
      omega
    · rw [Function.update_of_ne hjl]
      by_cases hji : j = i
      · subst hji
        rw [Function.update_self]
        simp only [swapped]
        rw [if_neg (by omega), if_pos (by omega)]
      · rw [Function.update_of_ne hji]
        simp only [swapped]
        by_cases hc : j < i ∨ n ≤ i + j
        · rw [if_pos hc, if_pos (by omega)]
        · rw [if_neg hc, if_neg (by omega)]
  have done (st : SwapState) (out' : OutBuf) (h : inv st) (hp : swapPass len st = .inr out') :
      Text mem out' n fun j => c (n - 1 - j) := by
    obtain ⟨hi, ht⟩ := h
    unfold swapPass at hp
    dsimp only at hp
    split_ifs at hp with hlt
    obtain rfl := Sum.inr.inj hp
    refine ht.congr fun j hj => ?_
    simp only [swapped]
    split_ifs with hc
    · rfl
    · congr 1
      omega
  have start : inv ⟨0, out⟩ := by
    refine ⟨Nat.zero_le _, h.congr fun j hj => ?_⟩
    simp only [swapped]
    rw [if_neg]
    simp only [UInt8.toNat_zero]
    omega
  exact yields_of_invariant (swapPass len) inv (fun st => n / 2 - st.i.toNat) _ go done start

/-- Fill the text up to `reflen` characters. -/
theorem shifts_yield {len reflen : UInt8} {c : ℕ → UInt8} (h : Text mem out len.toNat c)
    (hlen : len < reflen) (hfit : reflen ≠ 255) :
    ∃ out', Yields (run (shiftPass len reflen) ⟨1, len.toNat - 1, out⟩) out' ∧
      Text mem out' reflen.toNat fun j =>
        if j < reflen.toNat - len.toNat then 0x30 else c (j - (reflen.toNat - len.toNat)) := by
  have hbyte := reflen.toNat_lt
  have hmax : reflen.toNat ≠ 255 := fun he => hfit (UInt8.toNat_inj.mp he)
  rw [UInt8.lt_iff_toNat_lt] at hlen
  set n := len.toNat with hn
  set m := reflen.toNat with hm
  let shifted (j : ℕ) : UInt8 := if j < m - n then 0x30 else c (j - (m - n))
  -- the last `k` characters are in place, and those before them as they were
  let inv (st : ShiftState) : Prop := ∃ k, st.i.toNat = k + 1 ∧ k ≤ m ∧
    st.dptr = n - 1 - k ∧ (∀ j < m, m - k ≤ j → st.out.mem j = shifted j) ∧
    (∀ a : ℤ, ¬ (m - k ≤ a ∧ a < m) → st.out.mem a = out.mem a) ∧
    ∀ a : ℤ, a ∈ st.out.written ↔ 0 ≤ a ∧ a < n ∨ m - k ≤ a ∧ a < m
  have go (st st' : ShiftState) (hs : inv st) (hp : shiftPass len reflen st = .inl st') :
      inv st' ∧ m + 1 - st'.i.toNat < m + 1 - st.i.toNat := by
    obtain ⟨k, hi, hk, hd, hplace, hsame, hwritten⟩ := hs
    unfold shiftPass at hp
    dsimp only at hp
    by_cases hle : st.i ≤ reflen
    swap
    · rw [if_neg hle] at hp
      exact nomatch hp
    rw [if_pos hle] at hp
    rw [UInt8.le_iff_toNat_le] at hle
    have hv : (if st.i ≤ len then st.out.mem st.dptr else 0x30) = shifted (m - 1 - k) := by
      simp only [shifted, UInt8.le_iff_toNat_le, hi]
      by_cases hik : k + 1 ≤ n
      · have hat : st.dptr = ((n - 1 - k : ℕ) : ℤ) := by omega
        rw [if_pos (by omega), if_neg (by omega), hat, hsame _ (by omega), h.text _ (by omega)]
        congr 1
        omega
      · rw [if_neg (by omega), if_pos (by omega)]
    have hto : st.dptr + ((m : ℤ) - n) = ((m - 1 - k : ℕ) : ℤ) := by omega
    have hnext : (st.i + 1).toNat = k + 1 + 1 := by
      rw [UInt8.toNat_add, hi]
      simp only [UInt8.toNat_one]
      omega
    rw [← hn, ← hm, hv, hto] at hp
    obtain rfl := Sum.inl.inj hp
    refine ⟨⟨k + 1, hnext, by omega, by dsimp only; omega, fun j hj hkj => ?_, fun a ha => ?_,
      fun a => ?_⟩, by dsimp only; omega⟩
    · by_cases hjk : j = m - 1 - k
      · subst hjk
        exact Function.update_self _ _ _
      · have hne : (j : ℤ) ≠ ((m - 1 - k : ℕ) : ℤ) := by exact_mod_cast hjk
        simp only [OutBuf.store, Function.update_of_ne hne]
        exact hplace j hj (by omega)
    · have hne : a ≠ ((m - 1 - k : ℕ) : ℤ) := by omega
      simp only [OutBuf.store, Function.update_of_ne hne]
      exact hsame a (by omega)
    · simp only [OutBuf.store, List.mem_append, List.mem_singleton, hwritten]
      omega
  have done (st : ShiftState) (out' : OutBuf) (hs : inv st)
      (hp : shiftPass len reflen st = .inr out') : Text mem out' m shifted := by
    obtain ⟨k, hi, hk, hd, hplace, hsame, hwritten⟩ := hs
    unfold shiftPass at hp
    dsimp only at hp
    by_cases hle : st.i ≤ reflen
    · rw [if_pos hle] at hp
      exact nomatch hp
    rw [if_neg hle] at hp
    obtain rfl := Sum.inr.inj hp
    rw [UInt8.le_iff_toNat_le] at hle
    refine ⟨fun j hj => hplace j hj (by omega), fun a ha => ?_, fun a => ?_⟩
    · rw [hsame a (by omega)]
      exact h.rest a (by omega)
    · rw [hwritten]
      omega
  have start : inv ⟨1, n - 1, out⟩ := by
    refine ⟨0, rfl, Nat.zero_le _, by simp, fun j hj hmj => by omega, fun _ _ => rfl, fun a => ?_⟩
    rw [h.written]
    omega
  exact yields_of_invariant (shiftPass len reflen) inv (fun st => m + 1 - st.i.toNat) _ go done start

/-- An 8 bit counter never passes 255. -/
theorem shifts_endless {len reflen : UInt8} (hfit : reflen = 255) (st : ShiftState) :
    Endless (run (shiftPass len reflen) st) := by
  refine endless_of_invariant (shiftPass len reflen) (fun _ => True) (fun st _ => ?_) trivial
  have hle : st.i ≤ reflen := by
    rw [UInt8.le_iff_toNat_le, hfit]
    have := st.i.toNat_lt
    exact Nat.le_of_lt_succ this
  exact ⟨_, by rw [shiftPass, if_pos hle], trivial⟩

end Loops

/-! ### Round trip -/

/-- `n` characters, the last one of the weight 1. -/
def decText (data n : ℕ) : List UInt8 := (List.range n).map fun j => decChar data (n - 1 - j)

@[simp] theorem length_decText (data n : ℕ) : (decText data n).length = n := by simp [decText]

theorem decChar_div (data k : ℕ) : decChar (data / 10) k = decChar data (k + 1) := by
  rw [decChar_eq, decChar_eq, Nat.div_div_eq_div_mul, pow_succ, Nat.mul_comm]

/-- The text of `data` is the text of its tens, then its last digit. -/
theorem decText_succ (data n : ℕ) :
    decText data (n + 1) = decText (data / 10) n ++ [decChar data 0] := by
  simp only [decText, List.range_succ, List.map_append, List.map_cons, List.map_nil]
  congr 1
  · refine List.map_congr_left fun j hj => ?_
    have hjn : j < n := List.mem_range.mp hj
    rw [decChar_div]
    congr 1
    omega
  · simp

theorem ascii2dec_decText {data n : ℕ} {len : UInt8} (hlen : len.toNat = n) (hn : data < 10 ^ n) :
    yxStrAscii2dec (decText data n) len = UInt32.ofNat data := by
  rw [yxStrAscii2dec, hlen, List.take_of_length_le (by simp)]
  clear hlen
  induction n generalizing data with
  | zero =>
    have hzero : data = 0 := by omega
    simp [hzero, decText]
  | succ n ih =>
    have htens : data / 10 < 10 ^ n := by
      rw [Nat.div_lt_iff_lt_mul (by decide)]
      rwa [pow_succ] at hn
    have hdigit : (yxStrChar2hex (decChar data 0)).toUInt32 = UInt32.ofNat (data % 10) := by
      rw [← UInt32.toNat_inj, UInt8.toNat_toUInt32, char2hex_decChar, UInt32.toNat_ofNat']
      omega
    rw [decText_succ, List.foldl_append, ih htens, List.foldl_cons, List.foldl_nil, hdigit]
    calc UInt32.ofNat (data / 10) * 10 + UInt32.ofNat (data % 10)
        = UInt32.ofNat (data / 10 * 10 + data % 10) := by
          rw [UInt32.ofNat_add, UInt32.ofNat_mul]
          rfl
      _ = UInt32.ofNat data := by
          congr 1
          omega

/-- The first `n` bytes of the text. -/
def OutBuf.read (out : OutBuf) (n : ℕ) : List UInt8 := (List.range n).map fun j : ℕ => out.mem j

theorem Text.read_eq {mem : ℤ → UInt8} {out : OutBuf} {n : ℕ} {c : ℕ → UInt8}
    (h : Text mem out n c) : out.read n = (List.range n).map c := by
  rw [OutBuf.read]
  exact List.map_congr_left fun j hj => h.text j (List.mem_range.mp hj)

/-- `yx_str_dec2ascii` ends, writes the digits of `data` after as many zeros as `reflen` asks for
and nothing else, and returns their number; `yx_str_ascii2dec` restores `data`. -/
def DecRestored (mem : ℤ → UInt8) (data : UInt32) (reflen : UInt8) : Prop :=
  ∃ n out, Yields (yxStrDec2ascii mem data reflen) (n, out) ∧
    n.toNat = max reflen.toNat (decLen data.toNat) ∧
    Text mem out n.toNat (fun j => decChar data.toNat (n.toNat - 1 - j)) ∧
    yxStrAscii2dec (out.read n.toNat) n = data

theorem decRestored_of_text {mem : ℤ → UInt8} {data : UInt32} {reflen n : UInt8} {out : OutBuf}
    (hr : Yields (yxStrDec2ascii mem data reflen) (n, out))
    (hn : n.toNat = max reflen.toNat (decLen data.toNat))
    (ht : Text mem out n.toNat fun j => decChar data.toNat (n.toNat - 1 - j)) :
    DecRestored mem data reflen := by
  refine ⟨n, out, hr, hn, ht, ?_⟩
  have hlt : data.toNat < 10 ^ n.toNat := by
    refine Nat.lt_pow_of_log_lt (by decide) ?_
    have := decLen_eq data.toNat
    omega
  rw [ht.read_eq]
  exact (ascii2dec_decText rfl hlt).trans UInt32.ofNat_toNat

/-- What is left to do behind the exchange. -/
def padText (reflen : UInt8) (p : UInt8 × OutBuf) (fuel : ℕ) : Option (UInt8 × OutBuf) :=
  if p.1 < reflen then
    (run (shiftPass p.1 reflen) ⟨1, p.1.toNat - 1, p.2⟩ fuel).map fun out => (reflen, out)
  else some (p.1, p.2)

theorem padText_of_lt {reflen len : UInt8} (h : len < reflen) (out : OutBuf) :
    padText reflen (len, out) = fun fuel =>
      (run (shiftPass len reflen) ⟨1, len.toNat - 1, out⟩ fuel).map fun out => (reflen, out) := by
  funext fuel
  exact if_pos h

theorem padText_of_not_lt {reflen len : UInt8} (h : ¬ len < reflen) (out : OutBuf) :
    padText reflen (len, out) = fun _ => some (len, out) := by
  funext fuel
  exact if_neg h

/-- The digits and the exchange end, and the digits are in their order. -/
theorem dec2ascii_yields_iff (mem : ℤ → UInt8) (data : UInt32) (reflen : UInt8) :
    ∃ len out, len.toNat = decLen data.toNat ∧
      (Text mem out len.toNat fun j => decChar data.toNat (len.toNat - 1 - j)) ∧
      ∀ r, Yields (yxStrDec2ascii mem data reflen) r ↔ Yields (padText reflen (len, out)) r := by
  have hpos := decLen_eq data.toNat
  obtain ⟨len, out, hdigits, hlen, htext⟩ := digits_yield mem data
  rw [← hlen] at htext
  obtain ⟨out', hswaps, htext'⟩ := swaps_yield htext
  have hne : len ≠ 0 := by
    rintro rfl
    simp only [UInt8.toNat_zero] at hlen
    omega
  let turned (p : UInt8 × OutBuf) (fuel : ℕ) : Option (UInt8 × OutBuf) :=
    if p.1 ≠ 0 then
      (run (swapPass p.1) ⟨0, p.2⟩ fuel).bind fun out => padText reflen (p.1, out) fuel
    else some (p.1, p.2)
  have hturned : turned (len, out) = fun fuel =>
      (run (swapPass len) ⟨0, out⟩ fuel).bind fun out => padText reflen (len, out) fuel := by
    funext fuel
    exact if_pos hne
  have hrun : yxStrDec2ascii mem data reflen = fun fuel =>
      (run digitPass ⟨data, 0, 0, ⟨mem, []⟩⟩ fuel).bind fun p => turned p fuel := rfl
  refine ⟨len, out', hlen, htext', fun r => ?_⟩
  rw [hrun, hdigits.bind_iff, hturned, hswaps.bind_iff]

/-- Up to 255 characters the last loop does not end. -/
theorem DecRestored.ne {mem : ℤ → UInt8} {data : UInt32} {reflen : UInt8}
    (h : DecRestored mem data reflen) : reflen ≠ 255 := by
  intro hfit
  obtain ⟨n, out', hr, -⟩ := h
  obtain ⟨len, out, hlen, -, hyields⟩ := dec2ascii_yields_iff mem data reflen
  have hlt : len < reflen := by
    rw [UInt8.lt_iff_toNat_lt, hlen, hfit]
    exact lt_of_le_of_lt (decLen_le data) (by decide)
  rw [hyields, padText_of_lt hlt] at hr
  exact ((shifts_endless hfit _).map _).not_yields hr

theorem decRestored_of_ne (mem : ℤ → UInt8) (data : UInt32) {reflen : UInt8}
    (hfit : reflen ≠ 255) : DecRestored mem data reflen := by
  obtain ⟨len, out, hlen, htext, hyields⟩ := dec2ascii_yields_iff mem data reflen
  by_cases hlt : len < reflen
  · obtain ⟨out', hr, ht⟩ := shifts_yield htext hlt hfit
    have hle := UInt8.lt_iff_toNat_lt.mp hlt
    refine decRestored_of_text ((hyields (reflen, out')).mpr ?_) (by omega) ?_
    · rw [padText_of_lt hlt]
      exact hr.map _
    · refine ht.congr fun j hj => ?_
      split_ifs with hzero
      · exact (decChar_of_le (by omega)).symm
      · congr 1
        omega
  · have hle : ¬ len.toNat < reflen.toNat := fun h => hlt (UInt8.lt_iff_toNat_lt.mpr h)
    refine decRestored_of_text ((hyields (len, out)).mpr ?_) (by omega) htext
    rw [padText_of_not_lt hlt]
    exact yields_some _

theorem decRestored_iff (mem : ℤ → UInt8) (data : UInt32) (reflen : UInt8) :
    DecRestored mem data reflen ↔ reflen ≠ 255 :=
  ⟨DecRestored.ne, decRestored_of_ne mem data⟩

theorem not_decRestored : ¬ DecRestored (fun _ => 0) 7899 255 := fun h => h.ne rfl

end Tulux.YxString
