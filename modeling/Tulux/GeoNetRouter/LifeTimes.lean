import Tulux.GeoNetRouter.Transmit

/-! The lifetimes of packets as bytes: six bits of a multiplier and two of a base. -/
namespace Tulux.GeoNetRouter

/-- The unit of the base of a byte, in milliseconds. -/
def lifeTimeUnit (b : ℕ) : ℕ := base2ms.getD (b % 4) 0

/-- A byte stands for a lifetime, rounded down to a multiple of its unit. -/
structure StandsFor (b lt : ℕ) : Prop where
  multiplier : b >>> 2 < 2 ^ 6
  le : decodeLifeTime b ≤ lt
  close : lt - decodeLifeTime b < lifeTimeUnit b

/-- The longest lifetime that a byte can have. -/
def maxLifeTime : ℕ := 6300000

/-- A lifetime gets a byte that stands for it, whatever is in memory, or the greatest one when it is
too long; when it comes from a byte it is kept as it is. -/
structure KeepsLifeTime (lt : ℕ) : Prop where
  encoded : lt ≤ maxLifeTime → ∃ b, (∀ junk, encodeLifeTime junk lt = b) ∧ StandsFor b lt
  greatest : maxLifeTime < lt → ∀ junk, encodeLifeTime junk lt = 2 ^ 8 - 1
  again : (∃ b < 2 ^ 8, decodeLifeTime b = lt) →
    ∀ junk, decodeLifeTime (encodeLifeTime junk lt) = lt

section LifeTimes
variable {b c m lt : ℕ}

theorem decodeLifeTime_add (m : ℕ) (hc : c < 4) :
    decodeLifeTime (m <<< 2 + c) = m * base2ms.getD c 0 := by
  have hm : (m <<< 2 + c) >>> 2 = m := by
    rw [Nat.shiftLeft_eq, Nat.shiftRight_eq_div_pow]
    omega
  have hbase : (m <<< 2 + c) % 4 = c := by
    rw [Nat.shiftLeft_eq]
    omega
  rw [decodeLifeTime, hm, hbase]

/-- The multiple of a unit that is rounded down to stands for a lifetime. -/
theorem standsFor_div {unit : ℕ} (hc : c < 4) (hunit : base2ms.getD c 0 = unit) (hpos : 0 < unit)
    (hm : lt / unit < 2 ^ 6) : StandsFor ((lt / unit) <<< 2 + c) lt := by
  have hdecode := decodeLifeTime_add (lt / unit) hc
  rw [hunit] at hdecode
  constructor
  · rw [Nat.shiftLeft_eq, Nat.shiftRight_eq_div_pow]
    omega
  · rw [hdecode]
    exact Nat.div_mul_le_self lt unit
  · have hbase : ((lt / unit) <<< 2 + c) % 4 = c := by
      rw [Nat.shiftLeft_eq]
      omega
    rw [hdecode, lifeTimeUnit, hbase, hunit, mul_comm, ← Nat.mod_eq_sub_mul_div]
    exact Nat.mod_lt lt hpos

theorem encodeLifeTime_of_lt (junk : ℕ) (h : lt < 1000) :
    encodeLifeTime junk lt = (lt / 50) <<< 2 := if_pos h

theorem encodeLifeTime_of_seconds (junk : ℕ) (hmin : 1000 < lt) (hmax : lt < 10000) :
    encodeLifeTime junk lt = (lt / 1000) <<< 2 + 1 := by
  rw [encodeLifeTime, if_neg (by omega), if_pos ⟨hmin, hmax⟩]

/-- Other lifetimes get what is in memory. -/
theorem encodeLifeTime_of_not (junk : ℕ) (h : lt = 1000 ∨ 10000 ≤ lt) :
    encodeLifeTime junk lt = junk := by
  rw [encodeLifeTime, if_neg (by omega), if_neg (by omega)]

/-- The lifetimes of bytes that are less than ten seconds. -/
theorem decodeLifeTime_lt_iff (h : lt < 10000) :
    (∃ b < 2 ^ 8, decodeLifeTime b = lt) ↔ lt ≤ 3150 ∧ 50 ∣ lt ∨ 1000 ∣ lt := by
  constructor
  · rintro ⟨b, hb, rfl⟩
    have hm : b >>> 2 < 2 ^ 6 := by
      rw [Nat.shiftRight_eq_div_pow]
      omega
    unfold decodeLifeTime at h ⊢
    have hc := Nat.mod_lt b (show 0 < 4 by decide)
    generalize b % 4 = c at h hc ⊢
    interval_cases c <;> simp only [base2ms, List.getD_cons_zero, List.getD_cons_succ] at h ⊢ <;>
      omega
  · rintro (⟨hmax, m, rfl⟩ | ⟨m, rfl⟩)
    · refine ⟨m <<< 2 + 0, ?_, ?_⟩
      · rw [Nat.shiftLeft_eq]
        omega
      · rw [decodeLifeTime_add m (by decide)]
        exact mul_comm m 50
    · refine ⟨m <<< 2 + 1, ?_, ?_⟩
      · rw [Nat.shiftLeft_eq]
        omega
      · rw [decodeLifeTime_add m (by decide)]
        exact mul_comm m 1000

theorem keepsLifeTime_of_lt (h : lt < 1000) : KeepsLifeTime lt where
  encoded _ := ⟨_, fun junk => encodeLifeTime_of_lt junk h,
    standsFor_div (c := 0) (by decide) rfl (by decide) (by omega)⟩
  greatest hmax := absurd hmax (by unfold maxLifeTime; omega)
  again hbyte junk := by
    have hmul := (decodeLifeTime_lt_iff (by omega)).mp hbyte
    rw [encodeLifeTime_of_lt junk h, ← Nat.add_zero ((lt / 50) <<< 2),
      decodeLifeTime_add _ (by decide)]
    exact Nat.div_mul_cancel (by omega)

theorem keepsLifeTime_of_seconds_iff (hmin : 1000 < lt) (hmax : lt < 10000) :
    KeepsLifeTime lt ↔ (lt ≤ 3150 ∧ 50 ∣ lt → 1000 ∣ lt) := by
  have hencode (junk : ℕ) := encodeLifeTime_of_seconds junk hmin hmax
  have hdecode (junk : ℕ) : decodeLifeTime (encodeLifeTime junk lt) = lt / 1000 * 1000 := by
    rw [hencode, decodeLifeTime_add _ (by decide)]
    rfl
  constructor
  · intro h hmul
    have hagain := h.again ((decodeLifeTime_lt_iff hmax).mpr (.inl hmul)) 0
    rw [hdecode] at hagain
    exact ⟨lt / 1000, by omega⟩
  · intro h
    refine ⟨fun _ => ⟨_, hencode, standsFor_div (by decide) rfl (by decide) (by omega)⟩,
      fun hover => absurd hover (by unfold maxLifeTime; omega), fun hbyte junk => ?_⟩
    have hmul : 1000 ∣ lt := ((decodeLifeTime_lt_iff hmax).mp hbyte).elim h id
    rw [hdecode, Nat.div_mul_cancel hmul]

/-- What is in memory is kept for no lifetime. -/
theorem not_keepsLifeTime (h : lt = 1000 ∨ 10000 ≤ lt) : ¬ KeepsLifeTime lt := by
  intro hkeeps
  have hjunk (junk : ℕ) := encodeLifeTime_of_not junk h
  by_cases hmax : lt ≤ maxLifeTime
  · obtain ⟨b, hb, -⟩ := hkeeps.encoded hmax
    have heq := (hb 0).trans (hb 1).symm
    rw [hjunk, hjunk] at heq
    cases heq
  · have heq := hkeeps.greatest (not_le.mp hmax) 0
    rw [hjunk] at heq
    cases heq

/-- The source has a result below a second, and from there below ten seconds. There the unit is a
second although bytes can be finer up to 3150 milliseconds. -/
theorem keepsLifeTime_iff (lt : ℕ) : KeepsLifeTime lt ↔
    lt < 1000 ∨ 1000 < lt ∧ lt < 10000 ∧ (lt ≤ 3150 ∧ 50 ∣ lt → 1000 ∣ lt) := by
  by_cases hsmall : lt < 1000
  · exact iff_of_true (keepsLifeTime_of_lt hsmall) (.inl hsmall)
  · rw [or_iff_right hsmall]
    by_cases hseconds : 1000 < lt ∧ lt < 10000
    · rw [keepsLifeTime_of_seconds_iff hseconds.1 hseconds.2, and_iff_right hseconds.1,
        and_iff_right hseconds.2]
    · exact iff_of_false (not_keepsLifeTime (by omega)) fun h => hseconds ⟨h.1, h.2.1⟩

/-- A lifetime of a minute gets what is in memory, and one of 1050 milliseconds the byte of a
second. -/
theorem not_keepsLifeTime_minute : ¬ KeepsLifeTime 60000 ∧ ¬ KeepsLifeTime 1050 :=
  ⟨not_keepsLifeTime (by decide), fun h =>
    absurd ((keepsLifeTime_of_seconds_iff (by decide) (by decide)).mp h) (by decide)⟩

end LifeTimes

end Tulux.GeoNetRouter
