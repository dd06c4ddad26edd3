import Mathlib.Data.List.Basic
import Mathlib.Logic.Function.Basic
import Mathlib.Tactic.NormNum
import Mathlib.Tactic.SplitIfs
import Tulux.Lib.BitString

/-! Codes of bytes: strings in a memory, numbers in big-endian bytes, and codes that announce their
length in their first byte. -/
namespace ByteCode
open BitString

/-! ### Strings in a memory -/

/-- The memory with the string at `a`. -/
def store (mem : ℕ → UInt8) (a : ℕ) : List UInt8 → ℕ → UInt8
  | [] => mem
  | b :: s => store (Function.update mem a b) (a + 1) s

/-- The `n` bytes at `a`. -/
def load (mem : ℕ → UInt8) (a : ℕ) : ℕ → List UInt8
  | 0 => []
  | n + 1 => mem a :: load mem (a + 1) n

section Memory
variable {mem : ℕ → UInt8} {a i : ℕ} {s : List UInt8}

@[simp] theorem length_load (mem : ℕ → UInt8) (a n : ℕ) : (load mem a n).length = n := by
  induction n generalizing a with
  | zero => rfl
  | succ n ih => simp [load, ih]

theorem load_add (mem : ℕ → UInt8) (a m n : ℕ) :
    load mem a (m + n) = load mem a m ++ load mem (a + m) n := by
  induction m generalizing a with
  | zero => rw [Nat.zero_add, load, List.nil_append, Nat.add_zero]
  | succ m ih =>
    rw [Nat.succ_add, load, load, ih, List.cons_append, Nat.add_assoc, Nat.add_comm 1 m]

/-- The strings are next to each other. -/
theorem load_append {t : List UInt8} : load mem a (s ++ t).length = s ++ t ↔
    load mem a s.length = s ∧ load mem (a + s.length) t.length = t := by
  rw [List.length_append, load_add]
  refine ⟨fun h => List.append_inj h (length_load _ _ _), ?_⟩
  rintro ⟨hs, ht⟩
  rw [hs, ht]

theorem load_cons {b : UInt8} : load mem a (b :: s).length = b :: s ↔
    mem a = b ∧ load mem (a + 1) s.length = s := by
  rw [List.length_cons, load, List.cons.injEq]

theorem store_before (h : i < a) : store mem a s i = mem i := by
  induction s generalizing mem a with
  | nil => rfl
  | cons b s ih =>
    rw [store, ih (Nat.lt_succ_of_lt h)]
    exact Function.update_of_ne h.ne b mem

theorem store_behind (h : a + s.length ≤ i) : store mem a s i = mem i := by
  induction s generalizing mem a with
  | nil => rfl
  | cons b s ih =>
    rw [List.length_cons] at h
    rw [store, ih (by omega)]
    exact Function.update_of_ne (by omega : i ≠ a) b mem

theorem load_store (mem : ℕ → UInt8) (a : ℕ) (s : List UInt8) :
    load (store mem a s) a s.length = s := by
  induction s generalizing mem a with
  | nil => rfl
  | cons b s ih =>
    rw [List.length_cons, load, store, ih, store_before (Nat.lt_succ_self a)]
    simp

theorem load_congr {mem' : ℕ → UInt8} {n : ℕ} (h : ∀ i, a ≤ i → i < a + n → mem' i = mem i) :
    load mem' a n = load mem a n := by
  induction n generalizing a with
  | zero => rfl
  | succ n ih =>
    rw [load, load, h a le_rfl (by omega), ih fun i hlow hhigh => h i (by omega) (by omega)]

theorem load_store_before {b n : ℕ} (h : a + n ≤ b) : load (store mem b s) a n = load mem a n :=
  load_congr fun _ _ hi => store_before (hi.trans_le h)

theorem load_store_behind {b n : ℕ} (h : b + s.length ≤ a) :
    load (store mem b s) a n = load mem a n :=
  load_congr fun _ hi _ => store_behind (h.trans hi)

end Memory

/-! ### Numbers -/

/-- The low `n` bytes of `v`, the high byte first. -/
def beBytes : ℕ → ℕ → List UInt8
  | 0, _ => []
  | n + 1, v => UInt8.ofNat (v / 256 ^ n) :: beBytes n v

/-- The number of a string. -/
def value : List UInt8 → ℕ
  | [] => 0
  | b :: s => b.toNat * 256 ^ s.length + value s

section Numbers
variable {n v w : ℕ}

@[simp] theorem length_beBytes (n v : ℕ) : (beBytes n v).length = n := by
  induction n with
  | zero => rfl
  | succ n ih => simp [beBytes, ih]

theorem beBytes_cons (n v : ℕ) :
    ∃ b s, beBytes (n + 1) v = b :: s ∧ b.toNat = v / 256 ^ n % 256 :=
  ⟨_, _, rfl, UInt8.toNat_ofNat'⟩

theorem value_lt (s : List UInt8) : value s < 256 ^ s.length := by
  induction s with
  | nil => exact Nat.one_pos
  | cons b s ih =>
    have hb : b.toNat + 1 ≤ 256 := b.toNat_lt
    calc value (b :: s) < b.toNat * 256 ^ s.length + 256 ^ s.length :=
          Nat.add_lt_add_left ih _
      _ = (b.toNat + 1) * 256 ^ s.length := by rw [Nat.add_one_mul]
      _ ≤ 256 * 256 ^ s.length := Nat.mul_le_mul_right _ hb
      _ = 256 ^ (b :: s).length := by rw [List.length_cons, Nat.pow_succ, Nat.mul_comm]

theorem value_beBytes (n v : ℕ) : value (beBytes n v) = v % 256 ^ n := by
  induction n with
  | zero => rw [beBytes, value, Nat.pow_zero, Nat.mod_one]
  | succ n ih =>
    have hbyte : (UInt8.ofNat (v / 256 ^ n)).toNat = v / 256 ^ n % 256 := UInt8.toNat_ofNat'
    rw [beBytes, value, length_beBytes, ih, hbyte, Nat.pow_succ, Nat.mod_mul, Nat.mul_comm,
      Nat.add_comm]

theorem value_beBytes_of_lt (h : v < 256 ^ n) : value (beBytes n v) = v := by
  rw [value_beBytes, Nat.mod_eq_of_lt h]

theorem eq_of_value_eq {s t : List UInt8} (h : s.length = t.length) (hv : value s = value t) :
    s = t := by
  induction s generalizing t with
  | nil => exact (List.eq_nil_of_length_eq_zero h.symm).symm
  | cons a s ih =>
    cases t with
    | nil => exact absurd h (Nat.succ_ne_zero _)
    | cons b t =>
      have hlength : s.length = t.length := Nat.succ_inj.mp h
      have hs := value_lt s
      have ht := value_lt t
      rw [hlength] at hs
      rw [value, value, hlength] at hv
      have hpos : 0 < 256 ^ t.length := Nat.pow_pos (by norm_num)
      have hhead : a.toNat = b.toNat := by
        have hdiv := congrArg (· / 256 ^ t.length) hv
        simpa [Nat.mul_comm, Nat.mul_add_div hpos, Nat.div_eq_of_lt hs, Nat.div_eq_of_lt ht]
          using hdiv
      rw [hhead] at hv
      rw [UInt8.toNat_inj.mp hhead, ih hlength (Nat.add_left_cancel hv)]

theorem beBytes_value (s : List UInt8) : beBytes s.length (value s) = s :=
  eq_of_value_eq (length_beBytes _ _) (value_beBytes_of_lt (value_lt s))

/-- Strings of one length are ordered as their numbers. -/
theorem lt_iff_value_lt {s t : List UInt8} (h : s.length = t.length) :
    s < t ↔ value s < value t := by
  induction s generalizing t with
  | nil =>
    obtain rfl : t = [] := List.eq_nil_of_length_eq_zero h.symm
    simp
  | cons a s ih =>
    cases t with
    | nil => exact absurd h (Nat.succ_ne_zero _)
    | cons b t =>
      have hlength : s.length = t.length := Nat.succ_inj.mp h
      have hs := value_lt s
      have ht := value_lt t
      rw [hlength] at hs
      rw [List.cons_lt_cons_iff, ih hlength, value, value, hlength, UInt8.lt_iff_toNat_lt,
        ← UInt8.toNat_inj]
      rcases Nat.lt_trichotomy a.toNat b.toNat with hab | hab | hab
      · have hmul : (a.toNat + 1) * 256 ^ t.length ≤ b.toNat * 256 ^ t.length :=
          Nat.mul_le_mul_right _ hab
        rw [Nat.add_one_mul] at hmul
        exact iff_of_true (Or.inl hab) (by omega)
      · rw [hab]
        simp
      · have hmul : (b.toNat + 1) * 256 ^ t.length ≤ a.toNat * 256 ^ t.length :=
          Nat.mul_le_mul_right _ hab
        rw [Nat.add_one_mul] at hmul
        exact iff_of_false (by omega) (by omega)

end Numbers

/-! ### Bits -/

/-- The bits of a string of bytes. -/
def byteBits (s : List UInt8) : List Bool := s.flatMap fun b => natBits 8 b.toNat

section Bits
variable {mem : ℕ → UInt8} {a : ℕ} {s : List UInt8}

theorem byteBits_cons (b : UInt8) (s : List UInt8) :
    byteBits (b :: s) = natBits 8 b.toNat ++ byteBits s := rfl

theorem byteBits_append (s t : List UInt8) : byteBits (s ++ t) = byteBits s ++ byteBits t :=
  List.flatMap_append

@[simp] theorem length_byteBits (s : List UInt8) : (byteBits s).length = 8 * s.length := by
  induction s with
  | nil => rfl
  | cons b s ih =>
    rw [byteBits_cons, List.length_append, length_natBits, ih, List.length_cons]
    omega

theorem natBits_toNat_ofNat (v : ℕ) : natBits 8 (UInt8.ofNat v).toNat = natBits 8 v := by
  rw [UInt8.toNat_ofNat']
  exact natBits_mod 8 v

theorem byteBits_byte (v : ℕ) : byteBits [UInt8.ofNat v] = natBits 8 v := by
  rw [byteBits_cons, natBits_toNat_ofNat]
  exact List.append_nil _

theorem byteBits_beBytes (n v : ℕ) : byteBits (beBytes n v) = natBits (8 * n) v := by
  induction n with
  | zero => rfl
  | succ n ih =>
    have hpow : 256 ^ n = 2 ^ (8 * n) := by rw [Nat.pow_mul]
    rw [beBytes, byteBits_cons, natBits_toNat_ofNat, ih, hpow, Nat.mul_succ, Nat.add_comm,
      natBits_add]

/-- A string of bytes is its string of bits. -/
theorem hasAt_byteBits : HasAt (memBits mem) (8 * a) (byteBits s) ↔ load mem a s.length = s := by
  induction s generalizing a with
  | nil => exact iff_of_true rfl rfl
  | cons b s ih =>
    have hbyte : HasAt (memBits mem) (8 * a) (natBits 8 b.toNat) ↔ mem a = b := by
      rw [HasAt, length_natBits, window_byte]
      refine ⟨fun h => ?_, fun h => by rw [h]⟩
      have hnat := congrArg toNat h
      rw [toNat_natBits_of_lt (mem a).toNat_lt, toNat_natBits_of_lt b.toNat_lt] at hnat
      exact UInt8.toNat_inj.mp hnat
    rw [byteBits_cons, hasAt_append, length_natBits, hbyte, load_cons, ← ih, Nat.mul_succ]

end Bits

/-! ### Codes -/

/-- No code is the front of another. -/
def PrefixFree {α : Type*} (code : α → List UInt8) : Prop := ∀ x y, code x <+: code y → x = y

/-- A code that announces its length in its first byte, and can be decoded, is prefix-free. -/
theorem prefixFree_of_announced {α : Type*} {code : α → List UInt8} {size : UInt8 → ℕ}
    (hsize : ∀ x, ∃ b s, code x = b :: s ∧ size b = (code x).length)
    (hinj : Function.Injective code) : PrefixFree code := by
  intro x y hstarts
  obtain ⟨b, s, hx, hsx⟩ := hsize x
  obtain ⟨c, t, hy, hsy⟩ := hsize y
  have hhead : b = c := by
    rw [hx, hy] at hstarts
    exact (List.cons_prefix_cons.mp hstarts).1
  have hlength : (code x).length = (code y).length := by rw [← hsx, ← hsy, hhead]
  exact hinj (hstarts.eq_of_length hlength)

end ByteCode
