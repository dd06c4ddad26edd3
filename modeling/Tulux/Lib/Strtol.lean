import Mathlib.Data.Nat.Digits.Defs
import Mathlib.Tactic

/-! Numbers in texts, as the C library reads them: white space, a sign, for base 16 a prefix, and
the digits up to the first other character. -/
namespace Strtol

def isSpace (c : UInt8) : Bool := c == 0x20 || (9 ≤ c.toNat && c.toNat ≤ 13)

/-- Letters are digits from 10 on; what is no digit has the value `base`. -/
def digitValue (base : ℕ) (c : UInt8) : ℕ :=
  if 0x30 ≤ c.toNat ∧ c.toNat ≤ 0x39 then c.toNat - 0x30
  else if 0x41 ≤ c.toNat ∧ c.toNat ≤ 0x5a then c.toNat - 0x41 + 10
  else if 0x61 ≤ c.toNat ∧ c.toNat ≤ 0x7a then c.toNat - 0x61 + 10
  else base

def digit (base : ℕ) (c : UInt8) : Option ℕ :=
  if digitValue base c < base then some (digitValue base c) else none

def digits (base : ℕ) : List UInt8 → List ℕ
  | [] => []
  | c :: s =>
    match digit base c with
    | some d => d :: digits base s
    | none => []

/-- Whether there is a minus, and what follows the sign. -/
def sign : List UInt8 → Bool × List UInt8
  | [] => (false, [])
  | c :: s => if c = 0x2d then (true, s) else if c = 0x2b then (false, s) else (false, c :: s)

/-- `0x` belongs to the number when a digit follows. -/
def skipBase (base : ℕ) : List UInt8 → List UInt8
  | z :: x :: c :: s =>
    if base = 16 ∧ z = 0x30 ∧ (x = 0x78 ∨ x = 0x58) ∧ (digit 16 c).isSome then c :: s
    else z :: x :: c :: s
  | s => s

/-- The number that a text starts with, if it does, in any size. -/
def strtol (base : ℕ) (s : List UInt8) : Option ℤ :=
  let (minus, s) := sign (s.dropWhile isSpace)
  match digits base (skipBase base s) with
  | [] => none
  | ds =>
    let n : ℕ := Nat.ofDigits base ds.reverse
    some (if minus then -n else n)

/-- A character that ends every number and starts none. -/
structure Stops (base : ℕ) (c : UInt8) : Prop where
  space : isSpace c = false
  minus : c ≠ 0x2d
  plus : c ≠ 0x2b
  digit : digit base c = none
  hexDigit : Strtol.digit 16 c = none
  hexPrefix : c ≠ 0x78 ∧ c ≠ 0x58

section Append
variable {base : ℕ} {c : UInt8} (s rest : List UInt8)

theorem dropWhile_append (h : isSpace c = false) :
    (s ++ c :: rest).dropWhile isSpace = s.dropWhile isSpace ++ c :: rest := by
  induction s with
  | nil => rw [List.nil_append, List.dropWhile_cons, h]; rfl
  | cons c' s ih =>
    rw [List.cons_append, List.dropWhile_cons, List.dropWhile_cons, ih]
    split_ifs <;> rfl

theorem sign_append (h : Stops base c) :
    sign (s ++ c :: rest) = ((sign s).1, (sign s).2 ++ c :: rest) := by
  cases s with
  | nil => simp [sign, h.minus, h.plus]
  | cons c' s =>
    rw [List.cons_append, sign, sign]
    split_ifs <;> rfl

theorem skipBase_append (h : Stops base c) :
    skipBase base (s ++ c :: rest) = skipBase base s ++ c :: rest := by
  have hzero : c ≠ 0x30 := by
    rintro rfl
    exact absurd h.hexDigit (by decide)
  match s with
  | [] => cases rest with
    | nil => rfl
    | cons x rest =>
      cases rest with
      | nil => rfl
      | cons y rest => simp [skipBase, hzero]
  | [z] =>
    cases rest with
    | nil => rfl
    | cons y rest => simp [skipBase, h.hexPrefix]
  | [z, x] => simp [skipBase, h.hexDigit]
  | z :: x :: y :: s =>
    simp only [List.cons_append, skipBase]
    split_ifs <;> rfl

theorem digits_append (h : digit base c = none) : digits base (s ++ c :: rest) = digits base s := by
  induction s with
  | nil => simp [digits, h]
  | cons c' s ih =>
    rw [List.cons_append, digits, digits, ih]

/-- A number ends where a character stops it. -/
theorem strtol_append (h : Stops base c) : strtol base (s ++ c :: rest) = strtol base s := by
  unfold strtol
  rw [dropWhile_append s rest h.space, sign_append _ rest h]
  dsimp only
  rw [skipBase_append _ rest h, digits_append _ rest h.digit]

end Append

/-! ### Texts of digits -/

section Digits
variable {base : ℕ} {s : List UInt8}

theorem digit_lt {c : UInt8} {d : ℕ} (h : digit base c = some d) : d < base := by
  unfold digit at h
  split_ifs at h with hlt
  obtain rfl := Option.some.inj h
  exact hlt

theorem length_digits (h : ∀ c ∈ s, (digit base c).isSome) : (digits base s).length = s.length := by
  induction s with
  | nil => rfl
  | cons c s ih =>
    obtain ⟨hc, hs⟩ := List.forall_mem_cons.mp h
    obtain ⟨d, hd⟩ := Option.isSome_iff_exists.mp hc
    rw [digits, hd]
    exact congrArg (· + 1) (ih hs)

theorem digits_lt {d : ℕ} (h : d ∈ digits base s) : d < base := by
  induction s with
  | nil => cases h
  | cons c s ih =>
    rw [digits] at h
    cases hd : digit base c with
    | none => simp [hd] at h
    | some d' =>
      rw [hd] at h
      rcases List.mem_cons.mp h with rfl | hmem
      · exact digit_lt hd
      · exact ih hmem

/-- The value of a text of digits. -/
def value (base : ℕ) (s : List UInt8) : ℕ := Nat.ofDigits base (digits base s).reverse

theorem value_lt (hbase : 1 < base) (s : List UInt8) :
    value base s < base ^ (digits base s).length := by
  rw [value, ← List.length_reverse]
  exact Nat.ofDigits_lt_base_pow_length hbase fun d hd => digits_lt (List.mem_reverse.mp hd)

theorem isSpace_of_digit {c : UInt8} (h : (digit base c).isSome) : isSpace c = false := by
  have hlt : digitValue base c < base := by
    by_contra hge
    rw [digit, if_neg hge] at h
    cases h
  by_contra hspace
  have hrange : c.toNat < 0x30 := by
    rw [Bool.not_eq_false, isSpace, Bool.or_eq_true, beq_iff_eq] at hspace
    rcases hspace with rfl | hrange
    · decide
    · simp only [Bool.and_eq_true, decide_eq_true_eq] at hrange
      omega
  unfold digitValue at hlt
  split_ifs at hlt <;> omega

/-- Hexadecimal digits are no white space, signs or prefix. -/
theorem strtol_hex (hs : s ≠ []) (h : ∀ c ∈ s, (digit 16 c).isSome) :
    strtol 16 s = some (value 16 s : ℤ) := by
  have hne {c c' : UInt8} (hc : (digit 16 c).isSome) (hc' : digit 16 c' = none) : c ≠ c' := by
    rintro rfl
    rw [hc'] at hc
    cases hc
  have hspaces : s.dropWhile isSpace = s := by
    cases s with
    | nil => rfl
    | cons c s => rw [List.dropWhile_cons, isSpace_of_digit (h c List.mem_cons_self)]; rfl
  have hsign : sign s = (false, s) := by
    cases s with
    | nil => rfl
    | cons c s =>
      have hc := h c List.mem_cons_self
      rw [sign, if_neg (hne hc (by decide)), if_neg (hne hc (by decide))]
  have hbase : skipBase 16 s = s := by
    match s with
    | [] | [_] | [_, _] => rfl
    | z :: x :: c :: s =>
      have hx := h x (by simp)
      have hupper : x ≠ 0x78 := hne hx (by decide)
      have hlower : x ≠ 0x58 := hne hx (by decide)
      simp [skipBase, hupper, hlower]
  have hlength := length_digits h
  unfold strtol
  rw [hspaces, hsign]
  dsimp only
  rw [hbase]
  cases hdigits : digits 16 s with
  | nil =>
    rw [hdigits] at hlength
    exact absurd (List.length_eq_zero_iff.mp hlength.symm) hs
  | cons d ds => simp [value, hdigits]

end Digits

end Strtol
