import Mathlib.Tactic

/-! Signed integers of a width, whose operations have no result when it does not fit. -/
namespace CheckedInt

/-- A number of `w` bits with its sign. -/
def Fits (w : ℕ) (n : ℤ) : Prop := -2 ^ (w - 1) ≤ n ∧ n < 2 ^ (w - 1)

instance (w : ℕ) (n : ℤ) : Decidable (Fits w n) := inferInstanceAs (Decidable (_ ∧ _))

/-- The result of an operation, unless it overflows. -/
def checked (w : ℕ) (n : ℤ) : Option ℤ := if Fits w n then some n else none

variable {w : ℕ} {m n : ℤ}

theorem checked_bind_eq_some {α : Type*} {f : ℤ → Option α} {r : α} :
    (checked w n).bind f = some r ↔ Fits w n ∧ f n = some r := by
  unfold checked
  split_ifs with h <;> simp [h]

theorem fits_iff_lt (hn : 0 ≤ n) : Fits w n ↔ n < 2 ^ (w - 1) := by
  have hpos : (0 : ℤ) < 2 ^ (w - 1) := by positivity
  exact and_iff_right (by omega)

theorem Fits.mono (h : Fits w n) (hm : 0 ≤ m) (hle : m ≤ n) : Fits w m :=
  (fits_iff_lt hm).mpr (hle.trans_lt h.2)

/-- The difference of two numbers that are not negative. -/
theorem Fits.sub (hm : Fits w m) (hn : Fits w n) (hm0 : 0 ≤ m) (hn0 : 0 ≤ n) : Fits w (m - n) := by
  unfold Fits at *
  omega

end CheckedInt
