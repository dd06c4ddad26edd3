import Tulux.QApplication.SaeApplication
import Tulux.QCoder.EncodeMsg

/-! What the messages of `SaeApplication` announce of their extensions. -/
namespace Tulux.QApplication
open QCoder

/-- The flags, the counter and the options of Part II agree. -/
structure SelfConsistent (bsm : BsmValue) : Prop where
  partII : PartIIMatches bsm
  safety : bsm.vehsafeopts ≠ 0 → bsm.hasSafetyExtension ≠ 0
  supplemental : bsm.hasSupplementalExtension ≠ 0 → bsm.suppvehopts ≠ 0

/-- With the extension enabled, the events and the lights of the vehicle are encoded. -/
structure Reports (configuration : Configuration) (dp : VehicleState) (bsm : BsmValue) : Prop where
  events : configuration.enableVehicleExt = true → dp.events ≠ 0 →
    bsm.hasPartII ≠ 0 ∧ bsm.hasSafetyExtension ≠ 0 ∧ Has (u32 bsm.vehsafeopts) 0x8
  lights : configuration.enableVehicleExt = true → dp.exteriorLights ≠ 0 →
    bsm.hasPartII ≠ 0 ∧ bsm.hasSafetyExtension ≠ 0 ∧ Has (u32 bsm.vehsafeopts) 0x1

section Filled
variable {σ : Type} (source : RandomSource σ) (configuration : Configuration) (input : SendInput)
  (bsm : BsmValue)

/-- The flags are set by the configuration alone, after the options. -/
theorem fillBsm_extensions :
    (fillBsm source configuration input bsm).hasSafetyExtension =
        (if configuration.enableVehicleExt then 1 else 0) ∧
      (fillBsm source configuration input bsm).hasSpecialExtension = 0 ∧
      (fillBsm source configuration input bsm).hasSupplementalExtension =
        if configuration.enableVehicleExt then 1 else 0 := by
  unfold fillBsm fillBsmCan
  dsimp only
  split_ifs <;> exact ⟨rfl, rfl, rfl⟩

/-- Part II is never announced. -/
theorem fillBsm_partII : (fillBsm source configuration input bsm).hasPartII = 0 ∧
    (fillBsm source configuration input bsm).qtyPartIIExtensions = 0 := by
  unfold fillBsm fillBsmCan
  dsimp only
  split_ifs <;> exact ⟨rfl, rfl⟩

theorem setBit_natCast (x bit : ℕ) (hx : x < 2 ^ 31) (hbit : bit < 2 ^ 31) :
    setBit x bit = (x ||| bit : ℕ) := by
  have hor : x ||| bit < 2 ^ 31 := Nat.or_lt_two_pow hx hbit
  rw [setBit, u32_natCast_of_lt (by omega), s32_of_lt (by omega)]

theorem fillBsmCan_vehsafeopts (dp : VehicleState) : (fillBsmCan dp callocBsm).vehsafeopts =
    (if dp.events ≠ 0 then 0x8 else 0) + if dp.exteriorLights ≠ 0 then 0x1 else 0 := by
  have hevents : setBit 0 0x8 = 8 := by
    exact_mod_cast setBit_natCast 0 0x8 (by decide) (by decide)
  have hlights : setBit 0 0x1 = 1 := by
    exact_mod_cast setBit_natCast 0 0x1 (by decide) (by decide)
  have hboth : setBit 8 0x1 = 9 := by
    exact_mod_cast setBit_natCast 8 0x1 (by decide) (by decide)
  have hnone : callocBsm.vehsafeopts = 0 := rfl
  unfold fillBsmCan
  simp only [hnone]
  split_ifs
  · rw [hevents, hboth]
    norm_num
  · rw [hlights, zero_add]
  · rw [hevents, add_zero]
  · rw [add_zero]

/-- The options keep what the vehicle reports. -/
theorem fillBsm_vehsafeopts : (fillBsm source configuration input bsm).vehsafeopts =
    (if input.vehicle.events ≠ 0 then 0x8 else 0) +
      if input.vehicle.exteriorLights ≠ 0 then 0x1 else 0 := by
  rw [← fillBsmCan_vehsafeopts]
  unfold fillBsm
  dsimp only
  split_ifs <;> rfl

/-- A message is consistent exactly when it has no extension: with the extension enabled it has no
Part II, and else the events and the lights set options that no flag belongs to. -/
theorem fillBsm_selfConsistent_iff :
    SelfConsistent (fillBsm source configuration input bsm) ∧
        Reports configuration input.vehicle (fillBsm source configuration input bsm) ↔
      configuration.enableVehicleExt = false ∧ input.vehicle.events = 0 ∧
        input.vehicle.exteriorLights = 0 := by
  obtain ⟨hsafety, hspecial, hsupplemental⟩ := fillBsm_extensions source configuration input bsm
  obtain ⟨hpartII, hqty⟩ := fillBsm_partII source configuration input bsm
  have hopts := fillBsm_vehsafeopts source configuration input bsm
  constructor
  · rintro ⟨hconsistent, -⟩
    have hdisabled : configuration.enableVehicleExt = false := by
      by_contra henabled
      rw [Bool.not_eq_false] at henabled
      rw [if_pos henabled] at hsafety
      have hcount : 0 < extensionCount (fillBsm source configuration input bsm) := by
        rw [extensionCount, hsafety]
        exact Nat.add_pos_left (Nat.add_pos_left Nat.one_pos _) _
      exact absurd hpartII (hconsistent.partII.1.mpr hcount)
    have hnone : (fillBsm source configuration input bsm).vehsafeopts = 0 := by
      by_contra hsome
      exact hconsistent.safety hsome (by rw [hsafety, hdisabled]; rfl)
    rw [hopts] at hnone
    refine ⟨hdisabled, ?_, ?_⟩
    · by_contra hevents
      rw [if_pos hevents] at hnone
      split_ifs at hnone <;> omega
    · by_contra hlights
      rw [if_pos hlights] at hnone
      split_ifs at hnone <;> omega
  · rintro ⟨hdisabled, hevents, hlights⟩
    rw [hdisabled] at hsafety hsupplemental
    refine ⟨⟨⟨?_, ?_⟩, fun hsome => ?_, fun hsome => absurd hsupplemental hsome⟩, ?_⟩
    · rw [hpartII, extensionCount, hsafety, hspecial, hsupplemental]
      decide
    · rw [hqty, extensionCount, hsafety, hspecial, hsupplemental]
      rfl
    · rw [hopts, hevents, hlights] at hsome
      exact absurd rfl hsome
    · exact ⟨fun _ h => absurd hevents h, fun _ h => absurd hlights h⟩

end Filled

/-- The anti-lock brakes are active and the extension is enabled: there is no Part II. -/
theorem not_selfConsistent :
    ¬ (SelfConsistent (fillBsm exampleSource ⟨500, 180, true⟩
          { exampleInput 1000 with vehicle := ⟨2, 0x20, 0, 0, 0, 0⟩ } callocBsm) ∧
        Reports ⟨500, 180, true⟩ ⟨2, 0x20, 0, 0, 0, 0⟩ (fillBsm exampleSource ⟨500, 180, true⟩
          { exampleInput 1000 with vehicle := ⟨2, 0x20, 0, 0, 0, 0⟩ } callocBsm)) := by
  rintro ⟨-, hreports⟩
  have hpartII := (hreports.events rfl (by decide)).1
  exact hpartII rfl

end Tulux.QApplication
