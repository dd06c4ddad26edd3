import Mathlib.Tactic

/-! Strings of bits, most significant bit first, and streams and memories that contain them. -/
namespace BitString

/-- The `n` low bits of `v`. -/
def natBits : ℕ → ℕ → List Bool
  | 0, _ => []
  | n + 1, v => v.testBit n :: natBits n v

/-- The number with the bits `s`. -/
def toNat : List Bool → ℕ
  | [] => 0
  | b :: s => 2 ^ s.length * b.toNat + toNat s

/-- The `n` bits of a stream from `pos` on. -/
def window (f : ℕ → Bool) (pos : ℕ) : ℕ → List Bool
  | 0 => []
  | n + 1 => f pos :: window f (pos + 1) n

/-- The stream has the bits `s` at `pos`. -/
def HasAt (f : ℕ → Bool) (pos : ℕ) (s : List Bool) : Prop := window f pos s.length = s

section Numbers

@[simp] theorem length_natBits (n v : ℕ) : (natBits n v).length = n := by
  induction n with
  | zero => rfl
  | succ n ih => rw [natBits, List.length_cons, ih]

theorem natBits_add (m n v : ℕ) : natBits (m + n) v = natBits m (v / 2 ^ n) ++ natBits n v := by
  induction m with
  | zero => rw [Nat.zero_add, natBits, List.nil_append]
  | succ m ih =>
    rw [Nat.succ_add, natBits, natBits, ih, Nat.testBit_div_two_pow, List.cons_append]

theorem natBits_congr {n v w : ℕ} (h : v % 2 ^ n = w % 2 ^ n) : natBits n v = natBits n w := by
  induction n with
  | zero => rfl
  | succ n ih =>
    have hbit : v.testBit n = w.testBit n := by
      have := congrArg (Nat.testBit · n) h
      simpa [Nat.testBit_mod_two_pow] using this
    have hlow : v % 2 ^ n = w % 2 ^ n := by
      have hdvd : 2 ^ n ∣ 2 ^ (n + 1) := pow_dvd_pow 2 n.le_succ
      rw [← Nat.mod_mod_of_dvd v hdvd, h, Nat.mod_mod_of_dvd w hdvd]
    rw [natBits, natBits, hbit, ih hlow]

theorem natBits_mod (n v : ℕ) : natBits n (v % 2 ^ n) = natBits n v :=
  natBits_congr (Nat.mod_mod v _)

theorem natBits_two (v : ℕ) : natBits 16 v = natBits 8 (v >>> 8) ++ natBits 8 v := by
  rw [show 16 = 8 + 8 by rfl, natBits_add, Nat.shiftRight_eq_div_pow]

theorem natBits_three (v : ℕ) : natBits 24 v =
    natBits 8 (v >>> 16) ++ natBits 8 (v >>> 8) ++ natBits 8 v := by
  rw [show 24 = 16 + 8 by rfl, natBits_add, show 16 = 8 + 8 by rfl, natBits_add]
  simp only [Nat.shiftRight_eq_div_pow, Nat.div_div_eq_div_mul, ← pow_add, Nat.reduceAdd]

theorem natBits_zero (n : ℕ) : natBits n 0 = List.replicate n false := by
  induction n with
  | zero => rfl
  | succ n ih => rw [natBits, ih, Nat.zero_testBit, List.replicate_succ]

theorem toNat_append (s t : List Bool) : toNat (s ++ t) = toNat s * 2 ^ t.length + toNat t := by
  induction s with
  | nil => simp [toNat]
  | cons b s ih =>
    rw [List.cons_append, toNat, ih, toNat, List.length_append, pow_add]
    ring

theorem toNat_lt (s : List Bool) : toNat s < 2 ^ s.length := by
  induction s with
  | nil => simp [toNat]
  | cons b s ih =>
    have hb : 2 ^ s.length * b.toNat ≤ 2 ^ s.length * 1 :=
      Nat.mul_le_mul_left _ (Bool.toNat_le b)
    rw [toNat, List.length_cons, pow_succ]
    omega

theorem toNat_natBits (n v : ℕ) : toNat (natBits n v) = v % 2 ^ n := by
  induction n with
  | zero => rw [natBits, toNat, pow_zero, Nat.mod_one]
  | succ n ih =>
    rw [natBits, toNat, ih, length_natBits, Nat.mod_pow_succ, Nat.testBit_eq_decide_div_mod_eq,
      add_comm]
    rcases Nat.mod_two_eq_zero_or_one (v / 2 ^ n) with h | h <;> simp [h]

theorem toNat_natBits_of_lt {n v : ℕ} (h : v < 2 ^ n) : toNat (natBits n v) = v := by
  rw [toNat_natBits, Nat.mod_eq_of_lt h]

theorem natBits_toNat (s : List Bool) : natBits s.length (toNat s) = s := by
  induction s with
  | nil => rfl
  | cons b s ih =>
    have hlow : natBits s.length (toNat (b :: s)) = s := by
      rw [toNat, natBits_congr (Nat.mul_add_mod _ _ _), ih]
    have hbit : (toNat (b :: s)).testBit s.length = b := by
      rw [toNat, Nat.testBit_two_pow_mul_add _ (toNat_lt s), if_neg (Nat.lt_irrefl _), Nat.sub_self]
      cases b <;> rfl
    rw [List.length_cons, natBits, hlow, hbit]

theorem toNat_append_or (s t : List Bool) : toNat (s ++ t) = toNat s <<< t.length ||| toNat t := by
  rw [toNat_append, ← Nat.shiftLeft_eq, Nat.shiftLeft_add_eq_or_of_lt (toNat_lt t)]

end Numbers

section Streams
variable {f g : ℕ → Bool} {pos : ℕ}

@[simp] theorem length_window (f : ℕ → Bool) (pos n : ℕ) : (window f pos n).length = n := by
  induction n generalizing pos with
  | zero => rfl
  | succ n ih => rw [window, List.length_cons, ih]

theorem window_add (f : ℕ → Bool) (pos m n : ℕ) :
    window f pos (m + n) = window f pos m ++ window f (pos + m) n := by
  induction m generalizing pos with
  | zero => rw [Nat.zero_add, window, List.nil_append, Nat.add_zero]
  | succ m ih =>
    rw [Nat.succ_add, window, window, ih, List.cons_append, Nat.add_assoc, Nat.add_comm 1 m]

theorem window_shift {d n : ℕ} (h : ∀ i, i < n → f (pos + i) = g (d + i)) :
    window f pos n = window g d n := by
  induction n generalizing pos d with
  | zero => rfl
  | succ n ih =>
    have hhead := h 0 (by omega)
    rw [Nat.add_zero, Nat.add_zero] at hhead
    rw [window, window, hhead]
    congr 1
    apply ih
    intro i hi
    have htail := h (i + 1) (by omega)
    rwa [← Nat.add_assoc, ← Nat.add_assoc, Nat.add_right_comm, Nat.add_right_comm d] at htail

theorem window_natBits {n v : ℕ} (h : ∀ i < n, f (pos + i) = v.testBit (n - 1 - i)) :
    window f pos n = natBits n v := by
  induction n generalizing pos with
  | zero => rfl
  | succ n ih =>
    have hhead := h 0 (by omega)
    rw [Nat.add_zero, Nat.add_sub_cancel, Nat.sub_zero] at hhead
    rw [window, natBits, hhead]
    congr 1
    apply ih
    intro i hi
    have htail := h (i + 1) (by omega)
    rwa [← Nat.add_assoc, Nat.add_right_comm, Nat.add_sub_cancel, Nat.add_comm i,
      ← Nat.sub_sub] at htail

theorem hasAt_nil (f : ℕ → Bool) (pos : ℕ) : HasAt f pos [] := rfl

theorem hasAt_append {s t : List Bool} :
    HasAt f pos (s ++ t) ↔ HasAt f pos s ∧ HasAt f (pos + s.length) t := by
  rw [HasAt, List.length_append, window_add]
  constructor
  · intro h
    exact List.append_inj h (by rw [length_window])
  · rintro ⟨hs, ht⟩
    rw [hs, ht]

theorem HasAt.left {s t : List Bool} (h : HasAt f pos (s ++ t)) : HasAt f pos s :=
  (hasAt_append.mp h).1

theorem HasAt.right {s t : List Bool} (h : HasAt f pos (s ++ t)) : HasAt f (pos + s.length) t :=
  (hasAt_append.mp h).2

theorem HasAt.get {s : List Bool} (h : HasAt f pos s) {i : ℕ} (hi : i < s.length) :
    f (pos + i) = s[i] := by
  induction s generalizing pos i with
  | nil => exact absurd hi (Nat.not_lt_zero i)
  | cons b s ih =>
    rw [HasAt, List.length_cons, window, List.cons.injEq] at h
    cases i with
    | zero => exact h.1
    | succ i =>
      rw [List.getElem_cons_succ, ← Nat.add_assoc, Nat.add_right_comm]
      exact ih h.2 (Nat.lt_of_succ_lt_succ hi)

/-- What a field of `n` bits reads as. -/
theorem HasAt.toNat {n v : ℕ} (h : HasAt f pos (natBits n v)) :
    toNat (window f pos n) = v % 2 ^ n := by
  rw [HasAt, length_natBits] at h
  rw [h, toNat_natBits]

/-- A stream has the bits that it reads as. -/
theorem hasAt_window (f : ℕ → Bool) (pos n : ℕ) :
    HasAt f pos (natBits n (BitString.toNat (window f pos n))) := by
  have hbits := natBits_toNat (window f pos n)
  rw [length_window] at hbits
  rw [HasAt, hbits, length_window]

theorem hasAt_shift {d : ℕ} {s : List Bool} (h : HasAt f pos s)
    (hg : ∀ i < s.length, g (d + i) = f (pos + i)) : HasAt g d s := by
  rw [HasAt, window_shift hg]
  exact h

end Streams

/-! ### Memories -/

/-- The bits of a memory, from address 0 on. -/
def memBits (mem : ℕ → UInt8) (i : ℕ) : Bool := (mem (i / 8)).toNat.testBit (7 - i % 8)

section Memories
variable {mem : ℕ → UInt8}

theorem memBits_byte (mem : ℕ → UInt8) (a : ℕ) {j : ℕ} (hj : j < 8) :
    memBits mem (8 * a + j) = (mem a).toNat.testBit (7 - j) := by
  rw [memBits, Nat.mul_add_div (by omega), Nat.div_eq_of_lt hj, Nat.add_zero, Nat.mul_add_mod,
    Nat.mod_eq_of_lt hj]

/-- Bits within one byte. -/
theorem toNat_window_byte (mem : ℕ → UInt8) (a : ℕ) {n k : ℕ} (h : n + k ≤ 8) :
    toNat (window (memBits mem) (8 * a + (8 - k - n)) n) = (mem a).toNat / 2 ^ k % 2 ^ n := by
  have hw : window (memBits mem) (8 * a + (8 - k - n)) n = natBits n ((mem a).toNat / 2 ^ k) := by
    apply window_natBits
    intro i hi
    rw [Nat.add_assoc, memBits_byte mem a (by omega), Nat.testBit_div_two_pow]
    congr 1
    omega
  rw [hw, toNat_natBits]

theorem window_byte (mem : ℕ → UInt8) (a : ℕ) :
    window (memBits mem) (8 * a) 8 = natBits 8 (mem a).toNat := by
  apply window_natBits
  intro i hi
  rw [memBits_byte mem a hi]

/-- A byte is determined by its bits. -/
theorem byte_eq_zero {a : ℕ} (h : ∀ j < 8, memBits mem (8 * a + j) = false) : mem a = 0 := by
  apply UInt8.toNat_inj.mp
  apply Nat.eq_of_testBit_eq
  intro i
  rw [UInt8.toNat_zero, Nat.zero_testBit]
  by_cases hi : i < 8
  · have := h (7 - i) (by omega)
    rwa [memBits_byte mem a (by omega), show 7 - (7 - i) = i by omega] at this
  · exact Nat.testBit_lt_two_pow
      ((UInt8.toNat_lt _).trans_le (Nat.pow_le_pow_right (by omega) (by omega)))

theorem memBits_update_ne (mem : ℕ → UInt8) {a i : ℕ} (b : UInt8) (h : i / 8 ≠ a) :
    memBits (Function.update mem a b) i = memBits mem i := by
  rw [memBits, memBits, Function.update_of_ne h]

end Memories

end BitString
