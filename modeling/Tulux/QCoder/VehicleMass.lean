import Tulux.QCoder.J2735

/-! The 8 bit scale of vehicle masses: steps of 50 kg up to 4 tons, of half a ton up to 64 tons and
of two tons up to 170 tons, and two codes for the masses that are not known or larger. -/
namespace Tulux.QCoder

/-! ### The pieces of the decoder -/

section Decode
variable {n : ℕ}

theorem vehicleMassDecode_low (h : n ≤ 80) : vehicleMassDecode n = 50 * n := by
  simp only [vehicleMassDecode, if_neg (show ¬ n = 255 by omega), if_neg (show ¬ n = 254 by omega),
    if_neg (show ¬ 200 < n by omega), if_neg (show ¬ 80 < n by omega)]
  ring

theorem vehicleMassDecode_middle (h : 80 ≤ n) (h' : n ≤ 200) :
    vehicleMassDecode n = 4000 + 500 * ((n : ℤ) - 80) := by
  rcases h.eq_or_lt with rfl | hlt
  · rw [vehicleMassDecode_low le_rfl]
    norm_num
  · simp only [vehicleMassDecode, if_neg (show ¬ n = 255 by omega),
      if_neg (show ¬ n = 254 by omega), if_neg (show ¬ 200 < n by omega), if_pos hlt]
    push_cast
    ring

theorem vehicleMassDecode_high (h : 200 ≤ n) (h' : n ≤ 253) :
    vehicleMassDecode n = 64000 + 2000 * ((n : ℤ) - 200) := by
  rcases h.eq_or_lt with rfl | hlt
  · rw [vehicleMassDecode_middle (by norm_num) le_rfl]
    norm_num
  · simp only [vehicleMassDecode, if_neg (show ¬ n = 255 by omega),
      if_neg (show ¬ n = 254 by omega), if_pos hlt, if_pos (show 80 < 200 by norm_num)]
    push_cast
    ring

@[simp] theorem vehicleMassDecode_unknown : vehicleMassDecode 255 = -1 := rfl

@[simp] theorem vehicleMassDecode_over : vehicleMassDecode 254 = 170001 := rfl

end Decode

/-! ### The pieces of the encoder -/

section Encode
variable {m : ℤ}

theorem vehicleMassEncode_low (h : 0 ≤ m) (h' : m ≤ 4000) :
    (vehicleMassEncode m : ℤ) = m / 50 := by
  simp only [vehicleMassEncode, if_neg (show ¬ m < 0 by omega),
    if_neg (show ¬ 170001 ≤ m by omega), if_pos (show m ≤ 80 * 50 by omega)]
  omega

theorem vehicleMassEncode_middle (h : 4000 ≤ m) (h' : m ≤ 63500) :
    (vehicleMassEncode m : ℤ) = 80 + (m - 4000) / 500 := by
  rcases h.eq_or_lt with rfl | hlt
  · exact vehicleMassEncode_low (by norm_num) le_rfl
  · simp only [vehicleMassEncode, if_neg (show ¬ m < 0 by omega),
      if_neg (show ¬ 170001 ≤ m by omega), if_neg (show ¬ m ≤ 80 * 50 by omega),
      if_pos (show m ≤ 80 * 50 + (200 - 81) * 500 by omega)]
    omega

/-- The last half ton below 64 tons is already in the last piece, where it is less than the first
step. -/
theorem vehicleMassEncode_joint (h : 63500 < m) (h' : m < 64000) :
    (vehicleMassEncode m : ℤ) = 200 := by
  have hzero : (m - (80 * 50 + (200 - 80) * 500)).tdiv 2000 = 0 := by
    have hneg : (-(64000 - m)).tdiv 2000 = -((64000 - m).tdiv 2000) := Int.neg_tdiv _ _
    rw [show m - (80 * 50 + (200 - 80) * 500) = -(64000 - m) by ring, hneg,
      Int.tdiv_eq_ediv_of_nonneg (by omega)]
    omega
  simp only [vehicleMassEncode, if_neg (show ¬ m < 0 by omega),
    if_neg (show ¬ 170001 ≤ m by omega), if_neg (show ¬ m ≤ 80 * 50 by omega),
    if_neg (show ¬ m ≤ 80 * 50 + (200 - 81) * 500 by omega), hzero]
  rfl

theorem vehicleMassEncode_high (h : 64000 ≤ m) (h' : m ≤ 170000) :
    (vehicleMassEncode m : ℤ) = 200 + (m - 64000) / 2000 := by
  simp only [vehicleMassEncode, if_neg (show ¬ m < 0 by omega),
    if_neg (show ¬ 170001 ≤ m by omega), if_neg (show ¬ m ≤ 80 * 50 by omega),
    if_neg (show ¬ m ≤ 80 * 50 + (200 - 81) * 500 by omega)]
  rw [Int.tdiv_eq_ediv_of_nonneg (by omega)]
  omega

theorem vehicleMassEncode_unknown (h : m < 0) : vehicleMassEncode m = 255 := by
  simp only [vehicleMassEncode, if_pos h]
  rfl

theorem vehicleMassEncode_over (h : 170000 < m) : vehicleMassEncode m = 254 := by
  simp only [vehicleMassEncode, if_neg (show ¬ m < 0 by omega), if_pos (show 170001 ≤ m by omega)]
  rfl

/-- Where a mass is, by the piece that its code is computed in. -/
theorem vehicleMassEncode_cases (h : 0 ≤ m) (h' : m ≤ 170000) :
    (m ≤ 4000 ∧ (vehicleMassEncode m : ℤ) = m / 50) ∨
    ((4000 ≤ m ∧ m ≤ 63500) ∧ (vehicleMassEncode m : ℤ) = 80 + (m - 4000) / 500) ∨
    ((63500 < m ∧ m < 64000) ∧ (vehicleMassEncode m : ℤ) = 200) ∨
    (64000 ≤ m ∧ (vehicleMassEncode m : ℤ) = 200 + (m - 64000) / 2000) := by
  rcases le_or_gt m 4000 with hlow | hlow
  · exact .inl ⟨hlow, vehicleMassEncode_low h hlow⟩
  rcases le_or_gt m 63500 with hmiddle | hmiddle
  · exact .inr (.inl ⟨⟨hlow.le, hmiddle⟩, vehicleMassEncode_middle hlow.le hmiddle⟩)
  rcases lt_or_ge m 64000 with hjoint | hjoint
  · exact .inr (.inr (.inl ⟨⟨hmiddle, hjoint⟩, vehicleMassEncode_joint hmiddle hjoint⟩))
  · exact .inr (.inr (.inr ⟨hjoint, vehicleMassEncode_high hjoint h'⟩))

end Encode

/-! ### The scale -/

/-- A mass is not less than what its code stands for, and less than what the next one does. -/
def MassTruncated (m : ℤ) : Prop :=
  vehicleMassDecode (vehicleMassEncode m) ≤ m ∧ m < vehicleMassDecode (vehicleMassEncode m + 1)

/-- What the scale is to do with a mass, and with the codes. -/
structure MassScale (m : ℤ) : Prop where
  ordered : ∀ m', 0 ≤ m → m ≤ m' → m' ≤ 170000 → vehicleMassEncode m ≤ vehicleMassEncode m'
  truncated : 0 ≤ m → m ≤ 170000 → MassTruncated m
  codes : ∀ n ≤ 253, vehicleMassEncode (vehicleMassDecode n) = n
  unknown : m < 0 → vehicleMassEncode m = 255 ∧ vehicleMassDecode (vehicleMassEncode m) = -1
  larger : 170000 < m →
    vehicleMassEncode m = 254 ∧ vehicleMassDecode (vehicleMassEncode m) = 170001

section Scale
variable {m m' : ℤ} {n : ℕ}

theorem vehicleMassEncode_mono (h : 0 ≤ m) (hle : m ≤ m') (h' : m' ≤ 170000) :
    vehicleMassEncode m ≤ vehicleMassEncode m' := by
  have hcode := vehicleMassEncode_cases h (hle.trans h')
  have hcode' := vehicleMassEncode_cases (h.trans hle) h'
  omega

/-- A code that stands for a mass. -/
theorem vehicleMassEncode_vehicleMassDecode (h : n ≤ 253) :
    vehicleMassEncode (vehicleMassDecode n) = n := by
  rcases le_or_gt n 80 with hlow | hlow
  · rw [vehicleMassDecode_low hlow]
    have hcode := vehicleMassEncode_low (m := 50 * n) (by omega) (by omega)
    omega
  rcases lt_or_ge n 200 with hmiddle | hmiddle
  · rw [vehicleMassDecode_middle hlow.le hmiddle.le]
    have hcode := vehicleMassEncode_middle (m := 4000 + 500 * ((n : ℤ) - 80)) (by omega) (by omega)
    omega
  · rw [vehicleMassDecode_high hmiddle h]
    have hcode := vehicleMassEncode_high (m := 64000 + 2000 * ((n : ℤ) - 200)) (by omega) (by omega)
    omega

theorem massTruncated_low (h : 0 ≤ m) (h' : m < 4000) : MassTruncated m := by
  have hcode := vehicleMassEncode_low h h'.le
  rw [MassTruncated, vehicleMassDecode_low (by omega), vehicleMassDecode_low (by omega)]
  push_cast
  omega

theorem massTruncated_middle (h : 4000 ≤ m) (h' : m ≤ 63500) : MassTruncated m := by
  have hcode := vehicleMassEncode_middle h h'
  rw [MassTruncated, vehicleMassDecode_middle (by omega) (by omega),
    vehicleMassDecode_middle (by omega) (by omega)]
  push_cast
  omega

theorem massTruncated_high (h : 64000 ≤ m) (h' : m ≤ 170000) : MassTruncated m := by
  have hcode := vehicleMassEncode_high h h'
  rw [MassTruncated, vehicleMassDecode_high (by omega) (by omega)]
  rcases lt_or_ge m 170000 with hlt | hge
  · rw [vehicleMassDecode_high (by omega) (by omega)]
    push_cast
    omega
  · -- behind the last step is the code for larger masses
    have hlast : vehicleMassEncode m + 1 = 254 := by omega
    rw [hlast, vehicleMassDecode_over]
    omega

theorem not_massTruncated_joint (h : 63500 < m) (h' : m < 64000) : ¬ MassTruncated m := by
  have hcode := vehicleMassEncode_joint h h'
  rw [MassTruncated, vehicleMassDecode_high (by omega) (by omega)]
  omega

theorem massTruncated_iff (h : 0 ≤ m) (h' : m ≤ 170000) :
    MassTruncated m ↔ ¬ (63500 < m ∧ m < 64000) := by
  constructor
  · rintro htruncated ⟨hlt, hlt'⟩
    exact not_massTruncated_joint hlt hlt' htruncated
  · intro hjoint
    rcases lt_or_ge m 4000 with hlow | hlow
    · exact massTruncated_low h hlow
    rcases le_or_gt m 63500 with hmiddle | hmiddle
    · exact massTruncated_middle hlow hmiddle
    · exact massTruncated_high (by omega) h'

/-- The scale is right but for the last half ton below 64 tons. -/
theorem massScale_iff (m : ℤ) : MassScale m ↔ ¬ (63500 < m ∧ m < 64000) := by
  constructor
  · rintro h ⟨hlt, hlt'⟩
    exact not_massTruncated_joint hlt hlt' (h.truncated (by omega) (by omega))
  · intro hjoint
    refine ⟨fun m' => vehicleMassEncode_mono, fun h h' => (massTruncated_iff h h').mpr hjoint,
      fun n => vehicleMassEncode_vehicleMassDecode, fun h => ?_, fun h => ?_⟩
    · rw [vehicleMassEncode_unknown h]
      exact ⟨rfl, rfl⟩
    · rw [vehicleMassEncode_over h]
      exact ⟨rfl, rfl⟩

/-- 63600 kg become 64000 kg. -/
theorem not_massScale : vehicleMassDecode (vehicleMassEncode 63600) = 64000 ∧ ¬ MassScale 63600 := by
  refine ⟨by decide +kernel, fun h => ?_⟩
  exact absurd (h.truncated (by norm_num) (by norm_num)).1 (by decide +kernel)

end Scale

end Tulux.QCoder
