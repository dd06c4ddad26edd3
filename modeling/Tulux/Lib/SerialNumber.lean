import Mathlib.Tactic

/-! Numbers that are counted modulo `m`, and which of two of them is ahead. -/
namespace SerialNumber

/-- `a` is ahead of `b` by less than half of the way round. -/
def Ahead (m a b : ℕ) : Prop := 0 < ((a : ℤ) - b) % m ∧ 2 * (((a : ℤ) - b) % m) < m

instance (m a b : ℕ) : Decidable (Ahead m a b) := inferInstanceAs (Decidable (_ ∧ _))

variable {m a b : ℕ}

/-- Of two numbers below `m` one is ahead that is greater by less than a half, or less by more than
a half. -/
theorem ahead_iff (ha : a < m) (hb : b < m) :
    Ahead m a b ↔ b < a ∧ 2 * (a - b) < m ∨ a < b ∧ m < 2 * (b - a) := by
  unfold Ahead
  rcases le_or_gt b a with hle | hlt
  · rw [Int.emod_eq_of_lt (by omega) (by omega)]
    omega
  · have hround : ((a : ℤ) - b) % m = a - b + m := by
      rw [← Int.add_emod_right, Int.emod_eq_of_lt (by omega) (by omega)]
    rw [hround]
    omega

end SerialNumber
