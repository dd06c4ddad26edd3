import Tulux.QCoder.J2735Parse

/-! The decoder reads back the safety extension. -/
namespace Tulux.QCoder
open BitString BitParser

section Safety
variable {mem : ℕ → UInt8} {pos n : ℕ}

/-! ### Crumbs -/

theorem setCrumb_setCrumb (m : ℕ) (g h : PhPoint → PhPoint) (b : BsmValue) :
    (b.setCrumb m h).setCrumb m g = b.setCrumb m (g ∘ h) := by
  simp [BsmValue.setCrumb]

theorem reads_crumbField {x : ℤ} {m : ℕ} {store : ℕ → PhPoint → PhPoint} {g : PhPoint → PhPoint}
    (hx : Fits n x) (hn : n ≤ 32) (hg : ∀ v : ℕ, (v : ℤ) = x → store v = g) :
    Reads mem pos (crumbField mem m n store) (fieldBits n x) () (BsmValue.setCrumb m g) :=
  reads_value hx hn fun v hv => by rw [hg v hv]

theorem coarseHeading_lt {crumb : PhPoint} (h : CrumbFits crumb) (hopt : Has crumb.opts 0x1) :
    coarseHeading crumb < 2 ^ 8 := by
  have hheading := h.heading hopt
  unfold coarseHeading
  split_ifs with havail
  · have := (hheading havail).2
    omega
  · norm_num

theorem storeHeading_coarse {crumb : PhPoint} (h : CrumbFits crumb) (hopt : Has crumb.opts 0x1)
    (c : PhPoint) (hc : c.headingAvailable = 0) : storeHeading (coarseHeading crumb) c =
      { c with
        headingMicrodegrees :=
          takeIf (HasHeading crumb) crumb.headingMicrodegrees c.headingMicrodegrees
        headingAvailable := takeIf (HasHeading crumb) 1 0 } := by
  have hheading := h.heading hopt
  by_cases havail : crumb.headingAvailable = 1
  · obtain ⟨hstep, hlt⟩ := hheading havail
    have hback : crumb.headingMicrodegrees / 1500 * 1500 = crumb.headingMicrodegrees := by omega
    have hhas : HasHeading crumb := ⟨hopt, havail⟩
    rw [storeHeading, coarseHeading, if_pos havail, if_pos (by omega), hback, takeIf, takeIf,
      if_pos hhas, if_pos hhas]
  · have hhas : ¬ HasHeading crumb := fun hhas => havail hhas.2
    rw [storeHeading, coarseHeading, if_neg havail, if_neg (by omega), takeIf, takeIf,
      if_neg hhas, if_neg hhas, ← hc]

theorem reads_crumb {crumb : PhPoint} (h : CrumbFits crumb) (m : ℕ) :
    Reads mem pos (decodeCrumb mem m) (crumbBits crumb) ()
      (BsmValue.setCrumb m (takeCrumb crumb)) := by
  have htime := h.timeOffset
  have hticks : 10 * ((crumb.timeOffsetMs - 1).tdiv 10 + 1) = crumb.timeOffsetMs := by
    rw [Int.tdiv_eq_ediv_of_nonneg (by omega)]
    omega
  apply Parses.to
  · unfold decodeCrumb crumbBits
    apply Parses.cons reads_isExtended
    apply Parses.cons (reads_opts h.opts (by norm_num))
    apply Parses.after (reads_update _)
    apply Parses.cons
    · apply reads_crumbField h.latOffset (by norm_num)
      intro v hv
      rw [hv, sub_add_cancel, s32_of_lt (by have := h.latOffset; unfold Fits at this; omega)]
    apply Parses.cons
    · apply reads_crumbField h.lonOffset (by norm_num)
      intro v hv
      rw [hv, sub_add_cancel, s32_of_lt (by have := h.lonOffset; unfold Fits at this; omega)]
    apply Parses.cons
    · apply reads_crumbField h.eleOffset (by norm_num)
      intro v hv
      rw [hv, sub_add_cancel, s32_of_lt (by have := h.eleOffset; unfold Fits at this; omega)]
    apply Parses.cons
    · apply reads_crumbField (show Fits 16 _ by unfold Fits; omega) (by norm_num)
      intro v hv
      rw [hv, hticks, s32_of_lt (by omega)]
    apply Parses.cons
    · apply Parses.optional
      intro hopt
      apply reads_crumbField (h.speed hopt) (by norm_num)
      intro v hv
      rw [hv]
    apply Parses.cons
    · apply Parses.optional
      intro hopt
      have haccy := h.accy hopt
      apply Parses.cons
      · apply reads_crumbField haccy.semiMajor (by norm_num)
        intro v hv
        rw [hv]
      apply Parses.cons
      · apply reads_crumbField haccy.semiMinor (by norm_num)
        intro v hv
        rw [hv]
      apply Parses.last
      apply reads_crumbField haccy.orientation (by norm_num)
      intro v hv
      rw [hv]
    apply Parses.after (reads_update _)
    apply Parses.last
    apply Parses.optional
    intro hopt
    rw [fieldBits_natCast (coarseHeading_lt h hopt) (by norm_num)]
    exact reads_field (by norm_num) (coarseHeading_lt h hopt) _
  · intro b
    have hcrumb (g : PhPoint → PhPoint) (hg : ∀ c, g c = takeCrumb crumb c) :
        b.setCrumb m g = b.setCrumb m (takeCrumb crumb) := by rw [funext hg]
    by_cases hspeed : Has crumb.opts 0x4 <;> by_cases haccy : Has crumb.opts 0x2 <;>
      by_cases hheading : Has crumb.opts 0x1 <;>
      simp only [Function.comp_apply, hspeed, haccy, hheading, if_true, if_false, id, 
        not_false_eq_true, ne_eq, setCrumb_setCrumb] <;>
      apply hcrumb <;> intro c <;>
      simp only [Function.comp_apply, takeCrumb, takeIf, hspeed, haccy, hheading, HasHeading,
        storeHeading_coarse h, not_false_eq_true, if_true, if_false, false_and, true_and, 
        ne_eq]

/-- The crumbs of a message are changed. -/
def BsmValue.setCrumbs (g : (ℕ → PhPoint) → ℕ → PhPoint) (b : BsmValue) : BsmValue :=
  { b with ph.phCrumb := g b.ph.phCrumb }

theorem reads_crumbs {phCrumb : ℕ → PhPoint} (m n : ℕ)
    (h : ∀ i < n, CrumbFits (phCrumb (m + i))) :
    Reads mem pos (decodeCrumbs mem m n) (crumbsBits phCrumb m n) ()
      (BsmValue.setCrumbs (takeRange (fun i => takeCrumb (phCrumb i)) m n)) := by
  induction n generalizing m pos with
  | zero =>
    apply Parses.to
    · exact Parses.pure ()
    · intro b
      rw [BsmValue.setCrumbs, takeRange_zero]
      rfl
  | succ n ih =>
    have hfirst := h 0 (by omega)
    apply Parses.to
    · rw [decodeCrumbs, crumbsBits]
      apply Parses.append (reads_crumb hfirst m)
      apply ih
      intro i hi
      have hnext := h (i + 1) (by omega)
      rwa [show m + (i + 1) = m + 1 + i by omega] at hnext
    · intro b
      rw [BsmValue.setCrumbs, ← takeRange_succ]
      rfl

/-! ### The initial position -/

theorem reads_fpvField {x : ℤ} {store : ℕ → FullPositionVector → FullPositionVector}
    {g : FullPositionVector → FullPositionVector}
    (hx : Fits n x) (hn : n ≤ 32) (hg : ∀ v : ℕ, (v : ℤ) = x → store v = g) :
    Reads mem pos (fpvField mem n store) (fieldBits n x) () (BsmValue.setFpv g) :=
  reads_value hx hn fun v hv => by rw [hg v hv]

theorem setFpv_setFpv (g h : FullPositionVector → FullPositionVector) (b : BsmValue) :
    (b.setFpv h).setFpv g = b.setFpv (g ∘ h) := rfl

/-- The fields in the order in which they are read. -/
def positionBits (fpv : FullPositionVector) : List Bool :=
  [ fieldBits 1 0,
    fieldBits 8 fpv.opts,
    fieldBits 32 (fpv.lon - -1799999999),
    fieldBits 31 (fpv.lat - -900000000),
    if fpv.opts &&& 0x40 ≠ 0 then fieldBits 16 (fpv.elevation - -4096) else [],
    if fpv.opts &&& 0x20 ≠ 0 then fieldBits 15 fpv.heading else [],
    if fpv.opts &&& 0x10 ≠ 0 then fieldBits 13 fpv.speed else [],
    if fpv.opts &&& 0x8 ≠ 0 then
      [ fieldBits 8 fpv.posAccuracy.semiMajor,
        fieldBits 8 fpv.posAccuracy.semiMinor,
        fieldBits 16 fpv.posAccuracy.orientation ].flatten
    else [],
    if fpv.opts &&& 0x4 ≠ 0 then fieldBits 6 fpv.timeConfidence else [],
    if fpv.opts &&& 0x2 ≠ 0 then
      [ fieldBits 4 fpv.posConfidence.xy,
        fieldBits 4 fpv.posConfidence.elevation ].flatten
    else [],
    if fpv.opts &&& 0x1 ≠ 0 then
      [ fieldBits 3 fpv.motionConfidenceSet.headingConfidence,
        fieldBits 3 fpv.motionConfidenceSet.speedConfidence,
        fieldBits 2 fpv.motionConfidenceSet.throttleConfidence ].flatten
    else [] ].flatten

theorem PositionFits.and_opts {fpv : FullPositionVector} (h : PositionFits fpv) :
    fpv.opts &&& 0x7f = fpv.opts :=
  Nat.and_two_pow_sub_one_of_lt_two_pow (n := 7) h.opts

theorem reads_initialPosition {fpv : FullPositionVector} (h : PositionFits fpv) :
    Reads mem pos (decodeInitialPosition mem) (positionBits fpv) ()
      (BsmValue.setFpv (takePosition fpv)) := by
  have hutc : fpv.opts &&& 0x80 = 0 := by
    rw [← h.and_opts, Nat.and_assoc]
    exact Nat.and_zero _
  have hlon := h.lon
  have hlat := h.lat
  apply Parses.to
  · unfold decodeInitialPosition positionBits
    apply Parses.cons reads_isExtended
    apply Parses.cons (reads_opts (lt_trans h.opts (by norm_num)) (by norm_num))
    apply Parses.after (reads_update _)
    apply Parses.after (Parses.absent (not_not_intro hutc))
    apply Parses.cons
    · apply reads_fpvField (show Fits 32 _ by unfold Fits; omega) (by norm_num)
      intro v hv
      rw [hv, show -1799999999 + (fpv.lon - -1799999999) = fpv.lon by ring, s32_of_lt (by omega)]
    apply Parses.cons
    · apply reads_fpvField (show Fits 31 _ by unfold Fits; omega) (by norm_num)
      intro v hv
      rw [hv, show -900000000 + (fpv.lat - -900000000) = fpv.lat by ring, s32_of_lt (by omega)]
    apply Parses.cons
    · apply Parses.optional
      intro hopt
      have helevation := h.elevation hopt
      apply reads_fpvField helevation (by norm_num)
      intro v hv
      unfold Fits at helevation
      rw [hv, show -4096 + (fpv.elevation - -4096) = fpv.elevation by ring, s32_of_lt (by omega)]
    apply Parses.cons
    · apply Parses.optional
      intro hopt
      apply reads_fpvField (h.heading hopt) (by norm_num)
      intro v hv
      rw [hv]
    apply Parses.cons
    · apply Parses.optional
      intro hopt
      apply reads_fpvField (h.speed hopt) (by norm_num)
      intro v hv
      rw [hv]
    apply Parses.cons
    · apply Parses.optional
      intro hopt
      have haccuracy := h.posAccuracy hopt
      apply Parses.cons
      · apply reads_fpvField haccuracy.semiMajor (by norm_num)
        intro v hv
        rw [hv]
      apply Parses.cons
      · apply reads_fpvField haccuracy.semiMinor (by norm_num)
        intro v hv
        rw [hv]
      apply Parses.last
      apply reads_fpvField haccuracy.orientation (by norm_num)
      intro v hv
      rw [hv]
    apply Parses.cons
    · apply Parses.optional
      intro hopt
      apply reads_fpvField (h.timeConfidence hopt) (by norm_num)
      intro v hv
      rw [hv]
    apply Parses.cons
    · apply Parses.optional
      intro hopt
      have hconfidence := h.posConfidence hopt
      apply Parses.cons
      · apply reads_fpvField hconfidence.1 (by norm_num)
        intro v hv
        rw [hv]
      apply Parses.last
      apply reads_fpvField hconfidence.2 (by norm_num)
      intro v hv
      rw [hv]
    apply Parses.last
    apply Parses.optional
    intro hopt
    have hconfidence := h.motionConfidence hopt
    apply Parses.cons
    · apply reads_fpvField hconfidence.1 (by norm_num)
      intro v hv
      rw [hv]
    apply Parses.cons
    · apply reads_fpvField hconfidence.2.1 (by norm_num)
      intro v hv
      rw [hv]
    apply Parses.last
    apply reads_fpvField hconfidence.2.2 (by norm_num)
    intro v hv
    rw [hv]
  · intro b
    have hposition (g : FullPositionVector → FullPositionVector)
        (hg : ∀ old, g old = takePosition fpv old) :
        b.setFpv g = b.setFpv (takePosition fpv) := by rw [funext hg]
    by_cases helevation : Has fpv.opts 0x40 <;> by_cases hheading : Has fpv.opts 0x20 <;>
      by_cases hspeed : Has fpv.opts 0x10 <;> by_cases haccuracy : Has fpv.opts 0x8 <;>
      by_cases htime : Has fpv.opts 0x4 <;> by_cases hpos : Has fpv.opts 0x2 <;>
      by_cases hmotion : Has fpv.opts 0x1 <;>
      simp only [Function.comp_apply, helevation, hheading, hspeed, haccuracy, htime, hpos, hmotion,
        if_true, if_false, id, not_false_eq_true, ne_eq, setFpv_setFpv] <;>
      apply hposition <;> intro old <;>
      simp only [Function.comp_apply, takePosition, takeIf, helevation, hheading, hspeed, haccuracy,
        htime, hpos, hmotion, not_false_eq_true, if_true, if_false, ne_eq]

/-- The heading is written twice and the speed never. Without them the orders are the same. -/
theorem initialPositionBits_plain {fpv : FullPositionVector} (h : PositionFits fpv)
    (hheading : ¬ Has fpv.opts 0x20) (hspeed : ¬ Has fpv.opts 0x10) :
    initialPositionBits fpv = positionBits fpv := by
  simp only [initialPositionBits, positionBits, h.and_opts, if_neg hheading, if_neg hspeed,
    List.flatten_cons, List.nil_append]

/-! ### The extension -/

theorem reads_pathHistory {v : BsmValue} (h : PathHistoryFits v)
    (hplain : Has (u32 v.phopts) 0x2 → ¬ Has v.ph.initialPosition.opts 0x20 ∧
      ¬ Has v.ph.initialPosition.opts 0x10) :
    Reads mem pos (decodePathHistory mem) (pathHistoryBits v) ()
      fun b => { b with phopts := v.phopts, ph := takePathHistory v.phopts v.ph b.ph } := by
  obtain ⟨n, hn⟩ : ∃ n : ℕ, v.ph.qtyCrumbs = n + 1 := ⟨(v.ph.qtyCrumbs - 1).toNat, by
    have hqty := h.qtyCrumbs
    omega⟩
  have hqty := h.qtyCrumbs
  have hcount : fieldBits 5 (v.ph.qtyCrumbs - 1) = fieldBits 5 (n : ℤ) := by rw [hn]; simp
  apply Parses.to
  · unfold decodePathHistory pathHistoryBits
    apply Parses.cons reads_isExtended
    apply Parses.cons (reads_intOpts h.opts (by norm_num))
    apply Parses.after (reads_update _)
    apply Parses.cons
    · apply Parses.optional
      intro hopt
      rw [initialPositionBits_plain (h.position hopt) (hplain hopt).1 (hplain hopt).2]
      exact reads_initialPosition (h.position hopt)
    apply Parses.cons
    · apply Parses.optional
      intro hopt
      rw [fieldBits_natCast (h.gnssStatus hopt) (by norm_num)]
      exact reads_field (by norm_num) (h.gnssStatus hopt) _
    rw [hcount]
    apply Parses.cons (reads_opts (v := n) (by norm_num; omega) (by norm_num))
    apply Parses.after (reads_update _)
    apply Parses.after (Parses.absent (by omega))
    apply Parses.last
    rw [show v.ph.qtyCrumbs.toNat = n + 1 by omega]
    apply reads_crumbs
    intro i hi
    rw [Nat.zero_add]
    exact h.crumbs i (by omega)
  · intro b
    have hopts : ((u32 v.phopts : ℕ) : ℤ) = v.phopts := (u32_of_lt h.opts (by norm_num)).1
    have htake : takePathHistory v.phopts v.ph b.ph =
        { initialPosition := if Has (u32 v.phopts) 0x2 then
            takePosition v.ph.initialPosition b.ph.initialPosition else b.ph.initialPosition
          gnssStatus := if Has (u32 v.phopts) 0x1 then v.ph.gnssStatus else b.ph.gnssStatus
          qtyCrumbs := n + 1
          phCrumb := takeRange (fun i => takeCrumb (v.ph.phCrumb i)) 0 (n + 1) b.ph.phCrumb } := by
      rw [takePathHistory, takeRange_all _ _ _ (x := n + 1) (by push_cast; rfl), hn]
      rfl
    simp only [htake]
    by_cases hposition : Has (u32 v.phopts) 0x2 <;> by_cases hgnss : Has (u32 v.phopts) 0x1 <;>
      simp only [Function.comp_apply, hposition, hgnss, if_true, if_false, id, not_false_eq_true,
        ne_eq, hopts] <;> rfl

/-- The initial position has neither a heading nor a speed. -/
def PlainPosition (v : BsmValue) : Prop :=
  Has (u32 v.vehsafeopts) 0x4 → Has (u32 v.phopts) 0x2 →
    ¬ Has v.ph.initialPosition.opts 0x20 ∧ ¬ Has v.ph.initialPosition.opts 0x10

/-- The fields behind the length. -/
theorem reads_safetyFields {v : BsmValue} (h : SafetyFits v) (hplain : PlainPosition v) :
    Reads mem pos (decodeVehicleSafetyFields mem) (vehicleSafetyBits v) ()
      fun b => { takeSafety v b with hasSafetyExtension := b.hasSafetyExtension } := by
  apply Parses.to
  · unfold decodeVehicleSafetyFields vehicleSafetyBits
    apply Parses.cons reads_isExtended
    apply Parses.cons (reads_intOpts h.opts (by norm_num))
    apply Parses.after (reads_update _)
    apply Parses.cons
    · apply Parses.optional
      intro hopt
      apply Parses.cons reads_isExtended
      apply Parses.last
      rw [fieldBits_natCast (h.events hopt) (by norm_num)]
      exact reads_field (by norm_num) (h.events hopt) _
    apply Parses.cons
    · apply Parses.optional
      intro hopt
      exact reads_pathHistory (h.pathHistory hopt) (hplain hopt)
    apply Parses.cons
    · apply Parses.optional
      intro hopt
      obtain ⟨hradius, hconfidence⟩ := h.pathPrediction hopt
      apply Parses.cons reads_isExtended
      apply Parses.cons
      · apply reads_value hradius (by norm_num)
        intro x hx
        have hstraight : (x = 32767) ↔ (v.pp.radius = 0) := by omega
        simp only [storeRadius, hx, hstraight, sub_add_cancel]
        rfl
      apply Parses.last
      rw [fieldBits_natCast hconfidence (by norm_num)]
      exact reads_field (by norm_num) hconfidence _
    apply Parses.last
    apply Parses.optional
    intro hopt
    apply Parses.cons reads_isExtended
    apply Parses.last
    rw [fieldBits_natCast (h.lights hopt) (by norm_num)]
    exact reads_field (by norm_num) (h.lights hopt) _
  · intro b
    have hopts : ((u32 v.vehsafeopts : ℕ) : ℤ) = v.vehsafeopts :=
      (u32_of_lt h.opts (by norm_num)).1
    by_cases hevents : Has (u32 v.vehsafeopts) 0x8 <;>
      by_cases hhistory : Has (u32 v.vehsafeopts) 0x4 <;>
      by_cases hprediction : Has (u32 v.vehsafeopts) 0x2 <;>
      by_cases hlights : Has (u32 v.vehsafeopts) 0x1 <;>
      simp only [Function.comp_apply, hevents, hhistory, hprediction, hlights, if_true, if_false,
        id, not_false_eq_true, ne_eq, hopts, takeSafety, takeIf] <;> rfl

end Safety

end Tulux.QCoder
