import Mathlib.Data.Nat.ModEq
import Mathlib.Order.Bounds.Basic
import Mathlib.Tactic

/-! The times of remote vehicles from the milliseconds of their minute. -/
namespace Tulux.QApplication

/-- The `timestamp_ms` that `calc_rv_timestamp` sets. -/
def calcRvTimestamp (timeNow : UInt64) (secMarkMs : UInt32) : UInt64 :=
  let rem := (timeNow % 60000).toUInt32
  if secMarkMs < rem then timeNow / 60000 + secMarkMs.toUInt64
  else timeNow / 60000 - 1 + secMarkMs.toUInt64

/-- `calc_timestamp_from_secmark` at the time `millis`. -/
def calcTimestampFromSecmark (millis : UInt64) (secMarkMs : UInt32) : UInt64 :=
  let min := millis / 60000
  let rem := millis % 60000
  if secMarkMs.toUInt64 ≤ rem then min * 60000 + secMarkMs.toUInt64
  else (min - 1) * 60000 + secMarkMs.toUInt64

/-! ### The last time with a mark -/

/-- The last time up to `now` whose remainder by `period` is `mark`. -/
def IsLast (period now mark t : ℕ) : Prop := IsGreatest {t | t ≤ now ∧ t ≡ mark [MOD period]} t

/-- It is in the same period, or in the one before when its mark is still to come. -/
def lastTime (period now mark : ℕ) : ℕ :=
  if mark ≤ now % period then now / period * period + mark else (now / period - 1) * period + mark

section Last
variable {period now mark : ℕ}

theorem isLast_lastTime (hmark : mark < period) (hnow : period ≤ now) :
    IsLast period now mark (lastTime period now mark) := by
  have hdiv := Nat.div_add_mod' now period
  have hpos : 1 ≤ now / period := Nat.div_pos hnow (by omega)
  obtain ⟨k, hk⟩ : ∃ k, now / period = k + 1 := ⟨now / period - 1, by omega⟩
  have hlt := Nat.mod_lt now (show 0 < period by omega)
  -- of two times with the same mark the later one is a period later at least
  have hmod (t : ℕ) (ht : t ≡ mark [MOD period]) : t = t / period * period + mark := by
    have hrem : t % period = mark % period := ht
    rw [Nat.mod_eq_of_lt hmark] at hrem
    rw [← hrem, Nat.div_add_mod']
  have hself (q : ℕ) : q * period + mark ≡ mark [MOD period] := by
    rw [Nat.ModEq, Nat.mul_add_mod']
  have hbound (q t : ℕ) (ht : t ≡ mark [MOD period]) (hlt : t < (q + 1) * period + mark) :
      t ≤ q * period + mark := by
    rw [hmod t ht] at hlt ⊢
    have hq : t / period < q + 1 :=
      lt_of_mul_lt_mul_right (Nat.lt_of_add_lt_add_right hlt) (by omega)
    exact Nat.add_le_add_right (Nat.mul_le_mul_right period (by omega)) mark
  rw [hk, Nat.succ_mul] at hdiv
  unfold lastTime
  rw [hk]
  split_ifs with hreached
  · refine ⟨⟨?_, hself _⟩, ?_⟩
    · rw [Nat.succ_mul]
      omega
    · rintro t ⟨htle, ht⟩
      refine hbound (k + 1) t ht ?_
      rw [Nat.succ_mul, Nat.succ_mul]
      omega
  · rw [Nat.add_sub_cancel]
    refine ⟨⟨by omega, hself _⟩, ?_⟩
    rintro t ⟨htle, ht⟩
    refine hbound k t ht ?_
    rw [Nat.succ_mul]
    omega

end Last

/-! ### The two reconstructions -/

section Reconstruction
variable {timeNow : UInt64} {secMarkMs : UInt32}

theorem toNat_sub_one (hnow : 60000 ≤ timeNow.toNat) :
    (timeNow / 60000 - 1).toNat = timeNow.toNat / 60000 - 1 := by
  have hone : (1 : UInt64) ≤ timeNow / 60000 := by
    rw [UInt64.le_iff_toNat_le, UInt64.toNat_div]
    exact Nat.div_pos hnow (by decide)
  rw [UInt64.toNat_sub_of_le _ _ hone, UInt64.toNat_div]
  rfl

theorem toNat_calcTimestampFromSecmark (hnow : 60000 ≤ timeNow.toNat)
    (hmark : secMarkMs.toNat < 60000) : (calcTimestampFromSecmark timeNow secMarkMs).toNat =
      lastTime 60000 timeNow.toNat secMarkMs.toNat := by
  have hlt := timeNow.toNat_lt
  have hcond : secMarkMs.toUInt64 ≤ timeNow % 60000 ↔
      secMarkMs.toNat ≤ timeNow.toNat % 60000 := by
    rw [UInt64.le_iff_toNat_le, UInt64.toNat_mod, UInt32.toNat_toUInt64]
    rfl
  have hdiv : (timeNow / 60000).toNat = timeNow.toNat / 60000 := UInt64.toNat_div _ _
  have hperiod : (60000 : UInt64).toNat = 60000 := rfl
  unfold calcTimestampFromSecmark lastTime
  dsimp only
  rw [apply_ite UInt64.toNat]
  simp only [hcond, UInt64.toNat_add, UInt64.toNat_mul, UInt32.toNat_toUInt64, hdiv, hperiod,
    toNat_sub_one hnow]
  split_ifs <;> omega

theorem toNat_calcRvTimestamp (hnow : 60000 ≤ timeNow.toNat)
    (hmark : secMarkMs.toNat < 60000) : (calcRvTimestamp timeNow secMarkMs).toNat =
      if secMarkMs.toNat < timeNow.toNat % 60000 then timeNow.toNat / 60000 + secMarkMs.toNat
      else timeNow.toNat / 60000 - 1 + secMarkMs.toNat := by
  have hlt := timeNow.toNat_lt
  have hcond : secMarkMs < (timeNow % 60000).toUInt32 ↔
      secMarkMs.toNat < timeNow.toNat % 60000 := by
    have hperiod : (60000 : UInt64).toNat = 60000 := rfl
    rw [UInt32.lt_iff_toNat_lt, UInt64.toNat_toUInt32, UInt64.toNat_mod, hperiod,
      Nat.mod_eq_of_lt (show timeNow.toNat % 60000 < 2 ^ 32 by omega)]
  have hdiv : (timeNow / 60000).toNat = timeNow.toNat / 60000 := UInt64.toNat_div _ _
  unfold calcRvTimestamp
  dsimp only
  rw [apply_ite UInt64.toNat]
  simp only [hcond, UInt64.toNat_add, UInt32.toNat_toUInt64, hdiv, toNat_sub_one hnow]
  split_ifs <;> omega

/-- The time is the last one with the mark, and the one that the decoder has for it. -/
def RightTimestamp (timeNow : UInt64) (secMarkMs : UInt32) (timestamp : UInt64) : Prop :=
  IsLast 60000 timeNow.toNat secMarkMs.toNat timestamp.toNat ∧
    timestamp = calcTimestampFromSecmark timeNow secMarkMs

theorem rightTimestamp_iff (hnow : 60000 ≤ timeNow.toNat) (hmark : secMarkMs.toNat < 60000)
    (timestamp : UInt64) : RightTimestamp timeNow secMarkMs timestamp ↔
      timestamp.toNat = lastTime 60000 timeNow.toNat secMarkMs.toNat := by
  have hlast := isLast_lastTime hmark hnow
  constructor
  · rintro ⟨h, -⟩
    exact h.unique hlast
  · intro h
    refine ⟨?_, ?_⟩
    · rwa [h]
    · rw [← UInt64.toNat_inj, h, toNat_calcTimestampFromSecmark hnow hmark]

/-- The minutes are counted as milliseconds, so that the time is right only in the first minute
that has one before it, and there only when the mark is still to come. -/
theorem calcRvTimestamp_right_iff (timeNow : UInt64) (secMarkMs : UInt32)
    (hnow : 60000 ≤ timeNow.toNat) (hmark : secMarkMs.toNat < 60000) :
    RightTimestamp timeNow secMarkMs (calcRvTimestamp timeNow secMarkMs) ↔
      timeNow.toNat < 120000 ∧ timeNow.toNat % 60000 < secMarkMs.toNat := by
  rw [rightTimestamp_iff hnow hmark, toNat_calcRvTimestamp hnow hmark, lastTime]
  split_ifs <;> omega

/-- Half a minute after the first one. -/
theorem calcRvTimestamp_right_first : RightTimestamp 90000 45000 (calcRvTimestamp 90000 45000) ↔
    (90000 : UInt64).toNat < 120000 ∧ (90000 : UInt64).toNat % 60000 < (45000 : UInt32).toNat :=
  calcRvTimestamp_right_iff 90000 45000 (by decide) (by decide)

/-- Three minutes and a second, with the mark half a second before: the time is 503, and not
180500. -/
theorem calcRvTimestamp_not_right :
    calcRvTimestamp 181000 500 = 503 ∧ calcTimestampFromSecmark 181000 500 = 180500 ∧
      ¬ RightTimestamp 181000 500 (calcRvTimestamp 181000 500) := by
  refine ⟨by decide, by decide, fun h => ?_⟩
  exact absurd h.2 (by decide)

end Reconstruction

end Tulux.QApplication
