import Tulux.GeoNetRouter.Packet
import Tulux.Lib.CheckedInt

/-! The place of a point with respect to an area around the origin. -/
namespace Tulux.GeoNetRouter
open CheckedInt

/-! ### The source -/

/-- An `int` that is not more than another one is inside, or on the border. -/
def sideOf (a d : ℤ) : ℤ := if a = d then 0 else if d < a then 1 else -1

/-- The second part of `GeoRelativePosition`, with the squares. -/
def squaresPosition (x y a b : ℤ) : GeoAreaType → Option ℤ
  | .circle => do
    let d ← checked 32 (x + y)
    return sideOf a d
  | .rect => do
    let ab ← checked 32 (a * b)
    let bx ← checked 32 (b * x)
    let ay ← checked 32 (a * y)
    let fx ← checked 32 (ab - bx)
    let fy ← checked 32 (ab - ay)
    return min fx fy
  | .elip => do
    let ab ← checked 32 (a * b)
    let bx ← checked 32 (b * x)
    let ay ← checked 32 (a * y)
    let d ← checked 32 (bx + ay)
    return sideOf ab d

/-- There is no result when an `int` overflows. -/
def geoRelativePosition (x y a b : ℤ) (type : GeoAreaType) : Option ℤ :=
  if x = 0 ∧ y = 0 then some 1
  else do
    let x ← checked 32 (x * x)
    let y ← checked 32 (y * y)
    let a ← checked 32 (a * a)
    let b ← checked 32 (b * b)
    squaresPosition x y a b type

/-! ### Areas -/

def Inside (x y a b : ℤ) : GeoAreaType → Prop
  | .circle => x ^ 2 + y ^ 2 < a ^ 2
  | .rect => |x| < a ∧ |y| < b
  | .elip => (x : ℚ) ^ 2 / a ^ 2 + (y : ℚ) ^ 2 / b ^ 2 < 1

def OnBorder (x y a b : ℤ) : GeoAreaType → Prop
  | .circle => x ^ 2 + y ^ 2 = a ^ 2
  | .rect => |x| = a ∧ |y| ≤ b ∨ |x| ≤ a ∧ |y| = b
  | .elip => (x : ℚ) ^ 2 / a ^ 2 + (y : ℚ) ^ 2 / b ^ 2 = 1

def Outside (x y a b : ℤ) : GeoAreaType → Prop
  | .circle => a ^ 2 < x ^ 2 + y ^ 2
  | .rect => a < |x| ∨ b < |y|
  | .elip => 1 < (x : ℚ) ^ 2 / a ^ 2 + (y : ℚ) ^ 2 / b ^ 2

/-- The sign of a number tells where the point is. -/
def TellsPlace (x y a b : ℤ) (type : GeoAreaType) (f : ℤ) : Prop :=
  (Inside x y a b type → 0 < f) ∧ (OnBorder x y a b type → f = 0) ∧
    (Outside x y a b type → f < 0)

/-- The squares, and what the source makes of them for an area, are less than `2 ^ 31`. -/
def SquaresFit (x y a b : ℤ) (type : GeoAreaType) : Prop :=
  (x ^ 2 < 2 ^ 31 ∧ y ^ 2 < 2 ^ 31 ∧ a ^ 2 < 2 ^ 31 ∧ b ^ 2 < 2 ^ 31) ∧
    match type with
    | .circle => x ^ 2 + y ^ 2 < 2 ^ 31
    | .rect => a ^ 2 * b ^ 2 < 2 ^ 31 ∧ b ^ 2 * x ^ 2 < 2 ^ 31 ∧ a ^ 2 * y ^ 2 < 2 ^ 31
    | .elip => a ^ 2 * b ^ 2 < 2 ^ 31 ∧ b ^ 2 * x ^ 2 + a ^ 2 * y ^ 2 < 2 ^ 31

section Place
variable {x y a b r : ℤ} {type : GeoAreaType}

/-! ### Results -/

/-- The number that comes out of the squares when nothing overflows. -/
def exactPosition (x y a b : ℤ) : GeoAreaType → ℤ
  | .circle => sideOf (a ^ 2) (x ^ 2 + y ^ 2)
  | .rect => min (a ^ 2 * b ^ 2 - b ^ 2 * x ^ 2) (a ^ 2 * b ^ 2 - a ^ 2 * y ^ 2)
  | .elip => sideOf (a ^ 2 * b ^ 2) (b ^ 2 * x ^ 2 + a ^ 2 * y ^ 2)

theorem fits_sq_iff : Fits 32 (x ^ 2) ↔ x ^ 2 < 2 ^ 31 := fits_iff_lt (sq_nonneg x)

theorem squaresPosition_eq_some : squaresPosition (x ^ 2) (y ^ 2) (a ^ 2) (b ^ 2) type = some r ↔
    (match type with
      | .circle => x ^ 2 + y ^ 2 < 2 ^ 31
      | .rect => a ^ 2 * b ^ 2 < 2 ^ 31 ∧ b ^ 2 * x ^ 2 < 2 ^ 31 ∧ a ^ 2 * y ^ 2 < 2 ^ 31
      | .elip => a ^ 2 * b ^ 2 < 2 ^ 31 ∧ b ^ 2 * x ^ 2 + a ^ 2 * y ^ 2 < 2 ^ 31) ∧
      exactPosition x y a b type = r := by
  have hab : 0 ≤ a ^ 2 * b ^ 2 := by positivity
  have hbx : 0 ≤ b ^ 2 * x ^ 2 := by positivity
  have hay : 0 ≤ a ^ 2 * y ^ 2 := by positivity
  cases type with
  | circle =>
    have hxy : 0 ≤ x ^ 2 + y ^ 2 := by positivity
    simp only [squaresPosition, exactPosition, Option.bind_eq_bind, checked_bind_eq_some,
      fits_iff_lt hxy]
    simp
  | rect =>
    simp only [squaresPosition, exactPosition, Option.bind_eq_bind, checked_bind_eq_some,
      Option.pure_def, Option.some_inj]
    constructor
    · rintro ⟨hfab, hfbx, hfay, -, -, hr⟩
      exact ⟨⟨hfab.2, hfbx.2, hfay.2⟩, hr⟩
    · rintro ⟨⟨hfab, hfbx, hfay⟩, hr⟩
      have hfab := (fits_iff_lt (w := 32) hab).mpr hfab
      have hfbx := (fits_iff_lt (w := 32) hbx).mpr hfbx
      have hfay := (fits_iff_lt (w := 32) hay).mpr hfay
      exact ⟨hfab, hfbx, hfay, hfab.sub hfbx hab hbx, hfab.sub hfay hab hay, hr⟩
  | elip =>
    have hsum : 0 ≤ b ^ 2 * x ^ 2 + a ^ 2 * y ^ 2 := by positivity
    simp only [squaresPosition, exactPosition, Option.bind_eq_bind, checked_bind_eq_some,
      Option.pure_def, Option.some_inj]
    constructor
    · rintro ⟨hfab, -, -, hfsum, hr⟩
      exact ⟨⟨hfab.2, hfsum.2⟩, hr⟩
    · rintro ⟨⟨hfab, hfsum⟩, hr⟩
      have hfsum := (fits_iff_lt (w := 32) hsum).mpr hfsum
      have hfab := (fits_iff_lt (w := 32) hab).mpr hfab
      exact ⟨hfab, hfsum.mono hbx (by omega), hfsum.mono hay (by omega), hfsum, hr⟩

theorem geoRelativePosition_eq_some (hne : ¬ (x = 0 ∧ y = 0)) :
    geoRelativePosition x y a b type = some r ↔
      SquaresFit x y a b type ∧ exactPosition x y a b type = r := by
  rw [geoRelativePosition, if_neg hne]
  simp only [Option.bind_eq_bind, checked_bind_eq_some, ← sq, fits_sq_iff,
    squaresPosition_eq_some, SquaresFit, and_assoc]

/-! ### Signs -/

variable (ha : 1 ≤ a) (hb : 1 ≤ b)

theorem sideOf_pos {a d : ℤ} : 0 < sideOf a d ↔ d < a := by
  unfold sideOf
  split_ifs <;> omega

theorem sideOf_eq_zero {a d : ℤ} : sideOf a d = 0 ↔ d = a := by
  unfold sideOf
  split_ifs <;> simp <;> omega

theorem sideOf_neg {a d : ℤ} : sideOf a d < 0 ↔ a < d := by
  unfold sideOf
  split_ifs <;> omega

include ha in
theorem sq_lt_iff : x ^ 2 < a ^ 2 ↔ |x| < a := by
  rw [sq_lt_sq, abs_of_pos (by omega : 0 < a)]

include ha in
theorem sq_le_iff : x ^ 2 ≤ a ^ 2 ↔ |x| ≤ a := by
  rw [sq_le_sq, abs_of_pos (by omega : 0 < a)]

include ha hb in
/-- The equation of an ellipse without its divisions. -/
theorem ellipse_eq : (x : ℚ) ^ 2 / a ^ 2 + (y : ℚ) ^ 2 / b ^ 2 =
    ((b ^ 2 * x ^ 2 + a ^ 2 * y ^ 2 : ℤ) : ℚ) / ((a ^ 2 * b ^ 2 : ℤ) : ℚ) := by
  have ha0 : (a : ℚ) ≠ 0 := by exact_mod_cast (by omega : a ≠ 0)
  have hb0 : (b : ℚ) ≠ 0 := by exact_mod_cast (by omega : b ≠ 0)
  push_cast
  field_simp

include ha hb in
theorem tellsPlace_exactPosition : TellsPlace x y a b type (exactPosition x y a b type) := by
  have hapos : 0 < a ^ 2 := by positivity
  have hbpos : 0 < b ^ 2 := by positivity
  cases type with
  | circle => exact ⟨sideOf_pos.mpr, sideOf_eq_zero.mpr, sideOf_neg.mpr⟩
  | rect =>
    have hx : a ^ 2 * b ^ 2 - b ^ 2 * x ^ 2 = b ^ 2 * (a ^ 2 - x ^ 2) := by ring
    have hy : a ^ 2 * b ^ 2 - a ^ 2 * y ^ 2 = a ^ 2 * (b ^ 2 - y ^ 2) := by ring
    unfold exactPosition
    rw [hx, hy]
    refine ⟨fun h => ?_, fun h => ?_, fun h => ?_⟩
    · have hxa := (sq_lt_iff ha).mpr h.1
      have hyb := (sq_lt_iff hb).mpr h.2
      exact lt_min (mul_pos hbpos (by omega)) (mul_pos hapos (by omega))
    · rcases h with ⟨hxa, hyb⟩ | ⟨hxa, hyb⟩
      · have hyb := (sq_le_iff hb).mpr hyb
        rw [← sq_abs x, hxa, sub_self, mul_zero]
        exact min_eq_left (mul_nonneg hapos.le (by omega))
      · have hxa := (sq_le_iff ha).mpr hxa
        rw [← sq_abs y, hyb, sub_self, mul_zero]
        exact min_eq_right (mul_nonneg hbpos.le (by omega))
    · rcases h with hxa | hyb
      · have hxa := not_le.mp (mt (sq_le_iff ha).mp hxa.not_ge)
        exact (min_le_left _ _).trans_lt (mul_neg_of_pos_of_neg hbpos (by omega))
      · have hyb := not_le.mp (mt (sq_le_iff hb).mp hyb.not_ge)
        exact (min_le_right _ _).trans_lt (mul_neg_of_pos_of_neg hapos (by omega))
  | elip =>
    have hden : (0 : ℚ) < ((a ^ 2 * b ^ 2 : ℤ) : ℚ) := by
      exact_mod_cast mul_pos hapos hbpos
    refine ⟨fun h => sideOf_pos.mpr ?_, fun h => sideOf_eq_zero.mpr ?_,
      fun h => sideOf_neg.mpr ?_⟩
    · rw [Inside, ellipse_eq ha hb, div_lt_one hden] at h
      exact_mod_cast h
    · rw [OnBorder, ellipse_eq ha hb, div_eq_one_iff_eq hden.ne'] at h
      exact_mod_cast h
    · rw [Outside, ellipse_eq ha hb, one_lt_div hden] at h
      exact_mod_cast h

include ha hb in
/-- The middle of an area is inside it. -/
theorem tellsPlace_middle : TellsPlace 0 0 a b type 1 := by
  have hapos : 0 < a ^ 2 := by positivity
  have hinside : Inside 0 0 a b type := by
    cases type with
    | circle => simpa [Inside] using hapos
    | rect => exact ⟨by simpa using by omega, by simpa using by omega⟩
    | elip => simp [Inside]
  have htells : TellsPlace 0 0 a b type (exactPosition 0 0 a b type) :=
    tellsPlace_exactPosition ha hb
  have hpos := htells.1 hinside
  exact ⟨fun _ => one_pos, fun hborder => absurd (htells.2.1 hborder) hpos.ne',
    fun houtside => absurd (htells.2.2 houtside) hpos.not_gt⟩

/-- The source tells the place of a point, without an overflow, exactly when the point is the middle
of the area or the squares and their products fit. -/
theorem geoRelativePosition_tellsPlace_iff (x y a b : ℤ) (type : GeoAreaType) (ha : 1 ≤ a)
    (hb : 1 ≤ b) :
    (∃ f, geoRelativePosition x y a b type = some f ∧ TellsPlace x y a b type f) ↔
      x = 0 ∧ y = 0 ∨ SquaresFit x y a b type := by
  by_cases hmiddle : x = 0 ∧ y = 0
  · obtain ⟨rfl, rfl⟩ := hmiddle
    exact iff_of_true ⟨1, rfl, tellsPlace_middle ha hb⟩ (.inl ⟨rfl, rfl⟩)
  · rw [or_iff_right hmiddle]
    simp only [geoRelativePosition_eq_some hmiddle, and_assoc, exists_and_left, exists_eq_left']
    exact and_iff_left (tellsPlace_exactPosition ha hb)

theorem geoRelativePosition_tellsPlace_near :
    (∃ f, geoRelativePosition 30 40 200 100 .elip = some f ∧ TellsPlace 30 40 200 100 .elip f) ↔
      (30 : ℤ) = 0 ∧ (40 : ℤ) = 0 ∨ SquaresFit 30 40 200 100 .elip :=
  geoRelativePosition_tellsPlace_iff 30 40 200 100 .elip (by decide) (by decide)

/-- A point in 57 kilometres in a circle of 60, and a point beside a rectangle of 300 by 200
metres. -/
theorem geoRelativePosition_overflows :
    (¬ ∃ f, geoRelativePosition 40000 40000 60000 1 .circle = some f ∧
      TellsPlace 40000 40000 60000 1 .circle f) ∧
    ¬ ∃ f, geoRelativePosition 400 0 300 200 .rect = some f ∧ TellsPlace 400 0 300 200 .rect f := by
  have hcircle : geoRelativePosition 40000 40000 60000 1 .circle = none := by decide +kernel
  have hrect : geoRelativePosition 400 0 300 200 .rect = none := by decide +kernel
  simp [hcircle, hrect]

end Place

end Tulux.GeoNetRouter
