import Tulux.QCoder.J2735Parse

/-! The decoder reads back the special and the supplemental extension. -/
namespace Tulux.QCoder
open BitString BitParser

/-! ### The special extension -/

section Special
variable {mem : ℕ → UInt8} {pos n : ℕ}

/-- The rights of a privileged event are not encoded; those of the details are written there. -/
def asEncoded (v : BsmValue) : BsmValue :=
  { v with vehicleAlerts.events.sspRights := v.vehicleAlerts.sspRights }

theorem reads_emergencyDetails {v : BsmValue} (h : EmergencyDetailsFit v) :
    Reads mem pos (decodeEmergencyDetails mem) (emergencyDetailsBits v) ()
      fun b => { b with
        edopts := v.edopts
        vehicleAlerts := takeAlerts v.edopts (asEncoded v).vehicleAlerts b.vehicleAlerts } := by
  apply Parses.to
  · unfold decodeEmergencyDetails emergencyDetailsBits
    apply Parses.cons reads_isExtended
    apply Parses.cons (reads_opts h.opts (by norm_num))
    apply Parses.after (reads_update _)
    apply Parses.cons
    · apply reads_value h.sspRights (by norm_num)
      intro x hx
      rw [hx]
    apply Parses.cons
    · apply reads_value h.sirenUse (by norm_num)
      intro x hx
      rw [hx]
    apply Parses.cons
    · apply reads_value h.lightsUse (by norm_num)
      intro x hx
      rw [hx]
    apply Parses.cons
    · apply reads_value h.multi (by norm_num)
      intro x hx
      rw [hx]
    apply Parses.cons
    · apply Parses.optional
      intro hopt
      apply Parses.cons reads_isExtended
      apply Parses.cons
      · apply reads_value h.sspRights (by norm_num)
        intro x hx
        rw [hx]
      apply Parses.last
      apply reads_value (h.events hopt).2 (by norm_num)
      intro x hx
      rw [hx]
    apply Parses.last
    apply Parses.optional
    intro hopt
    apply Parses.cons reads_isExtended
    apply Parses.last
    apply reads_value (h.responseType hopt) (by norm_num)
    intro x hx
    rw [hx]
  · intro b
    by_cases hevents : Has v.edopts 0x2 <;> by_cases hresponse : Has v.edopts 0x1 <;>
      simp only [Function.comp_apply, hevents, hresponse, if_true, if_false, id,
        not_false_eq_true, ne_eq, takeAlerts, takeIf] <;> rfl

theorem reads_descs {desc : ℕ → ℤ} (m n : ℕ) (h : ∀ i < n, Fits 16 (desc (m + i))) :
    Reads mem pos (decodeDescs mem m n) (descsBits desc m n) ()
      fun b => { b with description.desc := takeRange (fun i _ => desc i) m n b.description.desc } := by
  induction n generalizing m pos with
  | zero =>
    apply Parses.to
    · exact Parses.pure ()
    · intro b
      rw [takeRange_zero]
      rfl
  | succ n ih =>
    have hfirst := h 0 (by omega)
    apply Parses.to
    · rw [decodeDescs, descsBits]
      apply Parses.append
      · apply reads_value hfirst (by norm_num)
        intro x hx
        rw [hx]
      apply ih
      intro i hi
      have hnext := h (i + 1) (by omega)
      rwa [show m + (i + 1) = m + 1 + i by omega] at hnext
    · intro b
      rw [← takeRange_succ]
      rfl

theorem reads_eventDescription {v : BsmValue} (h : EventDescriptionFits v) :
    Reads mem pos (decodeEventDescription mem) (eventDescriptionBits v) ()
      fun b => { b with
        eventopts := v.eventopts
        description := takeDescription v.eventopts v.description b.description } := by
  obtain ⟨n, hn⟩ : ∃ n : ℕ, n = (v.description.sizeDesc - 1).toNat := ⟨_, rfl⟩
  apply Parses.to
  · unfold decodeEventDescription eventDescriptionBits
    apply Parses.cons reads_isExtended
    apply Parses.cons (reads_opts h.opts (by norm_num))
    apply Parses.after (reads_update _)
    apply Parses.cons
    · apply reads_value h.typeEvent (by norm_num)
      intro x hx
      rw [hx]
    apply Parses.cons
    · apply Parses.optional
      intro hopt
      obtain ⟨hpos, hle, hdescs⟩ := h.descs hopt
      rw [show v.description.sizeDesc - 1 = (n : ℤ) by omega,
        show v.description.sizeDesc.toNat = n + 1 by omega]
      apply Parses.cons (reads_opts (by norm_num; omega) (by norm_num))
      apply Parses.after (reads_update _)
      apply Parses.last
      apply reads_descs
      intro i hi
      rw [Nat.zero_add]
      exact hdescs i (by omega)
    apply Parses.cons
    · apply Parses.optional
      intro hopt
      apply reads_value (h.priority hopt) (by norm_num)
      intro x hx
      rw [hx]
    apply Parses.cons
    · apply Parses.optional
      intro hopt
      apply reads_value (h.heading hopt) (by norm_num)
      intro x hx
      rw [hx]
    apply Parses.last
    apply Parses.optional
    intro hopt
    apply reads_value (h.extent hopt) (by norm_num)
    intro x hx
    rw [hx]
  · intro b
    have htake : takeDescription v.eventopts v.description b.description =
        { typeEvent := v.description.typeEvent
          sizeDesc :=
            if Has v.eventopts 0x10 then v.description.sizeDesc else b.description.sizeDesc
          desc := if Has v.eventopts 0x10 then
            takeRange (fun i _ => v.description.desc i) 0 (n + 1) b.description.desc
            else b.description.desc
          priority := if Has v.eventopts 0x8 then v.description.priority else b.description.priority
          heading := if Has v.eventopts 0x4 then v.description.heading else b.description.heading
          extent := if Has v.eventopts 0x2 then v.description.extent else b.description.extent } := by
      have hdesc : (fun m : ℕ => takeIf (Has v.eventopts 0x10 ∧ m < v.description.sizeDesc)
          (v.description.desc m) (b.description.desc m)) = if Has v.eventopts 0x10 then
            takeRange (fun i _ => v.description.desc i) 0 (n + 1) b.description.desc
            else b.description.desc := by
        funext i
        by_cases hopt : Has v.eventopts 0x10
        · have hsize := h.descs hopt
          rw [if_pos hopt, takeRange_all _ _ _ (x := v.description.sizeDesc) (by omega)]
          simp only [takeIf, and_iff_right hopt]
        · rw [if_neg hopt, takeIf, if_neg fun hand => hopt hand.1]
      rw [takeDescription, hdesc]
      rfl
    have hsize : Has v.eventopts 0x10 → (n : ℤ) + 1 = v.description.sizeDesc := by
      intro hopt
      have hdescs := h.descs hopt
      omega
    simp only [htake]
    by_cases hdescs : Has v.eventopts 0x10 <;> by_cases hpriority : Has v.eventopts 0x8 <;>
      by_cases hheading : Has v.eventopts 0x4 <;> by_cases hextent : Has v.eventopts 0x2 <;>
      simp only [Function.comp_apply, hdescs, hpriority, hheading, hextent, if_true, if_false, id,
        not_false_eq_true, ne_eq, hsize]

/-- The fields behind the length, before an end that is further than a byte. -/
theorem reads_specialFields {v : BsmValue} {lastByteP : ℤ} (h : SpecialFits v)
    (hend : (pos : ℤ) + 9 < 8 * (lastByteP + 1)) :
    Reads mem pos (decodeSpecialFields mem lastByteP) (specialBits v) ()
      fun b => { takeSpecial (asEncoded v) b with hasSpecialExtension := b.hasSpecialExtension } := by
  apply Parses.to
  · unfold decodeSpecialFields specialBits
    apply Parses.cons reads_isExtended
    apply Parses.after
    · apply reads_checkRoom (by norm_num) (by norm_num)
      rw [length_fieldBits]
      omega
    apply Parses.cons (reads_intOpts h.opts (by norm_num))
    apply Parses.after (reads_update _)
    apply Parses.cons
    · apply Parses.optional
      intro hopt
      exact reads_emergencyDetails (h.details hopt)
    rw [← List.append_nil ([_] : List (List Bool)).flatten]
    apply Parses.append
    · apply Parses.last
      apply Parses.optional
      intro hopt
      exact reads_eventDescription (h.description hopt)
    exact Parses.absent h.trailer
  · intro b
    have hopts : ((u32 v.specvehopts : ℕ) : ℤ) = v.specvehopts :=
      (u32_of_lt h.opts (by norm_num)).1
    have hsame : (asEncoded v).specvehopts = v.specvehopts := rfl
    by_cases hdetails : Has (u32 v.specvehopts) 0x4 <;>
      by_cases hdescription : Has (u32 v.specvehopts) 0x2 <;>
      simp only [Function.comp_apply, hdetails, hdescription, if_true, if_false, id,
        not_false_eq_true, ne_eq, hopts, takeSpecial, hsame, takeIf] <;> rfl

end Special

/-! ### The supplemental extension -/

section Supplemental
variable {mem : ℕ → UInt8} {pos n : ℕ} {lastByteP : ℤ}

/-- A code stands for one mass only. -/
theorem vehicleMassEncode_decode {n : ℕ} (h : n < 256) :
    vehicleMassEncode (s32 (u32 (vehicleMassDecode n))) = n := by
  revert n
  decide +kernel

/-- There is room for a field that lies before the end. -/
theorem reads_roomFor (hn : 7 ≤ n) (hn' : n ≤ 32) (h : (pos : ℤ) + n + 1 < 8 * (lastByteP + 1)) :
    Reads mem pos (checkRoom lastByteP n) [] () id :=
  reads_checkRoom (by omega) hn' (by omega)

theorem reads_vehicleData {v : BsmValue} (h : VehicleDataFits v.veh)
    (hroom : (pos : ℤ) + 8 < 8 * (lastByteP + 1))
    (hend : (pos : ℤ) + (vehicleDataBits v.veh).length + 1 < 8 * (lastByteP + 1)) :
    Reads mem pos (decodeVehicleData mem lastByteP) (vehicleDataBits v.veh) ()
      fun b => { b with veh := takeVehicleData v.veh b.veh } := by
  simp only [vehicleDataBits, List.flatten_cons, List.flatten_nil, List.length_append,
    apply_ite List.length, length_fieldBits, List.length_nil] at hend
  apply Parses.to
  · unfold decodeVehicleData vehicleDataBits
    apply Parses.after (reads_checkRoom (by norm_num) (by norm_num) (by omega))
    apply Parses.cons reads_isExtended
    apply Parses.cons (reads_opts h.options (by norm_num))
    apply Parses.after (reads_update _)
    apply Parses.cons
    · apply Parses.optional
      intro hopt
      have hheight := (h.height hopt).2
      apply Parses.after
      · apply reads_roomFor (by norm_num) (by norm_num)
        simp only [length_fieldBits]
        split_ifs at hend <;> omega
      rw [fieldBits_natCast hheight (by norm_num)]
      exact reads_field (by norm_num) hheight _
    apply Parses.cons
    · apply Parses.optional
      intro hopt
      obtain ⟨hfront, hrear⟩ := h.bumpers hopt
      apply Parses.after
      · apply reads_roomFor (by norm_num) (by norm_num)
        simp only [length_fieldBits, apply_ite List.length, List.length_nil]
        split_ifs at hend ⊢ <;> omega
      rw [fieldBits_natCast hfront (by norm_num), fieldBits_natCast hrear (by norm_num)]
      apply Parses.cons (reads_field (by norm_num) hfront _)
      apply Parses.last
      exact reads_field (by norm_num) hrear _
    apply Parses.cons
    · apply Parses.optional
      intro hopt
      have hmass : vehicleMassEncode (s32 v.veh.massKg) < 2 ^ 8 := by
        obtain ⟨m, hm, hmass⟩ := h.mass hopt
        rw [hmass, vehicleMassEncode_decode hm]
        exact hm
      apply Parses.after
      · apply reads_roomFor (by norm_num) (by norm_num)
        simp only [length_fieldBits, apply_ite List.length, List.length_append, List.flatten_cons,
          List.flatten_nil, List.length_nil]
        split_ifs at hend ⊢ <;> omega
      rw [fieldBits_natCast hmass (by norm_num)]
      exact reads_field (by norm_num) hmass _
    apply Parses.last
    apply Parses.optional
    intro hopt
    have hweight := h.trailerWeight hopt
    apply Parses.after
    · apply reads_roomFor (by norm_num) (by norm_num)
      simp only [length_fieldBits, apply_ite List.length, List.length_append, List.flatten_cons,
        List.flatten_nil, List.length_nil]
      split_ifs at hend ⊢ <;> omega
    rw [fieldBits_natCast hweight (by norm_num)]
    exact reads_field (by norm_num) hweight _
  · intro b
    have hheight : Has v.veh.options 0x8 → v.veh.heightCm / 5 * 5 = v.veh.heightCm := by
      intro hopt
      have hstep := (h.height hopt).1
      omega
    have hmass : Has v.veh.options 0x2 →
        u32 (vehicleMassDecode (vehicleMassEncode (s32 v.veh.massKg))) = v.veh.massKg := by
      intro hopt
      obtain ⟨m, hm, hmass⟩ := h.mass hopt
      rw [hmass, vehicleMassEncode_decode hm]
    by_cases hopt : Has v.veh.options 0x8 <;> by_cases hbumpers : Has v.veh.options 0x4 <;>
      by_cases hopt' : Has v.veh.options 0x2 <;> by_cases hweight : Has v.veh.options 0x1 <;>
      simp only [Function.comp_apply, hopt, hbumpers, hopt', hweight, if_true, if_false, id,
        not_false_eq_true, ne_eq, hheight, hmass, takeVehicleData, takeIf]

theorem reads_weatherProbe {v : BsmValue} (h : WeatherProbeFits v) :
    Reads mem pos (decodeWeatherProbe mem) (weatherProbeBits v) () (takeWeatherProbe v) := by
  apply Parses.to
  · unfold decodeWeatherProbe weatherProbeBits
    apply Parses.cons reads_isExtended
    apply Parses.cons (reads_opts h.opts (by norm_num))
    apply Parses.after (reads_update _)
    apply Parses.cons
    · apply Parses.optional
      intro hopt
      apply reads_value (h.airTemp hopt) (by norm_num)
      intro x hx
      rw [hx]
    apply Parses.cons
    · apply Parses.optional
      intro hopt
      apply reads_value (h.airPressure hopt) (by norm_num)
      intro x hx
      rw [hx]
    apply Parses.last
    apply Parses.optional
    intro hopt
    obtain ⟨hwipers, hstatus, hrate, hrear, hrear'⟩ := h.wipers hopt
    apply Parses.cons (reads_opts hwipers (by norm_num))
    apply Parses.after (reads_update _)
    apply Parses.cons
    · apply reads_value hstatus (by norm_num)
      intro x hx
      rw [hx]
    apply Parses.cons
    · apply reads_value hrate (by norm_num)
      intro x hx
      rw [hx]
    apply Parses.cons
    · apply Parses.optional
      intro hopt'
      apply reads_value (hrear hopt') (by norm_num)
      intro x hx
      rw [hx]
    apply Parses.last
    apply Parses.optional
    intro hopt'
    apply reads_value (hrear' hopt') (by norm_num)
    intro x hx
    rw [hx]
  · intro b
    by_cases htemp : Has v.weatheropts 0x4 <;> by_cases hpressure : Has v.weatheropts 0x2 <;>
      by_cases hwipers : Has v.weatheropts 0x1 <;> by_cases hstatus : Has v.wiperopts 0x2 <;>
      by_cases hrate : Has v.wiperopts 0x1 <;>
      simp only [Function.comp_apply, htemp, hpressure, hwipers, hstatus, hrate, if_true, if_false,
        id, not_false_eq_true, ne_eq, takeWeatherProbe, takeIf, and_self, and_true, and_false]

/-- The vehicle data is the last part, and none of it is there. -/
def EndsWithoutVehicleData (v : BsmValue) : Prop :=
  Has (u32 v.suppvehopts) 0x80 ∧ v.veh.options = 0 ∧ ¬ Has (u32 v.suppvehopts) 0x20

instance (v : BsmValue) : Decidable (EndsWithoutVehicleData v) :=
  inferInstanceAs (Decidable (_ ∧ _ ∧ _))

theorem length_vehicleDataBits {veh : VehicleData} (h : VehicleDataFits veh) :
    5 + (if veh.options = 0 then 0 else 7) ≤ (vehicleDataBits veh).length := by
  have hlt := h.options
  simp only [vehicleDataBits, List.flatten_cons, List.flatten_nil, List.length_append,
    apply_ite List.length, length_fieldBits, List.length_nil]
  revert hlt
  generalize veh.options = opts
  revert opts
  decide

theorem length_weatherProbeBits (v : BsmValue) : 4 ≤ (weatherProbeBits v).length := by
  simp only [weatherProbeBits, List.flatten_cons, List.length_append, length_fieldBits]
  omega

/-- The fields behind the length, with two bits before the end, or with four. -/
theorem reads_supplementalFields {v : BsmValue} (h : SupplementalFits v)
    (hend : (pos : ℤ) + (supplementalBits v).length + 1 < 8 * (lastByteP + 1))
    (hlast : EndsWithoutVehicleData v →
      (pos : ℤ) + (supplementalBits v).length + 3 < 8 * (lastByteP + 1)) :
    Reads mem pos (decodeSupplementalFields mem lastByteP) (supplementalBits v) ()
      fun b => { takeSupplemental v b with
        hasSupplementalExtension := b.hasSupplementalExtension } := by
  have hweather := length_weatherProbeBits v
  simp only [supplementalBits, List.flatten_cons, List.flatten_nil, List.length_append,
    apply_ite List.length, length_fieldBits, List.length_nil] at hend hlast
  apply Parses.to
  · unfold decodeSupplementalFields supplementalBits
    apply Parses.after
    · apply reads_checkRoom (by norm_num) (by norm_num)
      omega
    apply Parses.cons reads_isExtended
    apply Parses.cons (reads_intOpts h.opts (by norm_num))
    apply Parses.after (reads_update _)
    apply Parses.cons
    · apply Parses.optional
      intro hopt
      apply reads_value (h.vehicleClass hopt) (by norm_num)
      intro x hx
      rw [hx]
    apply Parses.after (Parses.absent (not_not_intro h.handled.classDetails))
    apply Parses.cons
    · apply Parses.optional
      intro hopt
      have hdata := h.vehicleData hopt
      have hlen := length_vehicleDataBits hdata
      have hempty : ¬ u32 v.suppvehopts &&& 0x20 ≠ 0 → v.veh.options = 0 →
          EndsWithoutVehicleData v := fun hprobe hnone => ⟨hopt, hnone, hprobe⟩
      apply reads_vehicleData hdata
      · simp only [length_fieldBits, apply_ite List.length, List.length_nil]
        by_cases hprobe : u32 v.suppvehopts &&& 0x20 ≠ 0
        · rw [if_pos hopt, if_pos hprobe] at hend
          split_ifs at hend ⊢ <;> omega
        · rw [if_neg hprobe, if_pos hopt] at hend hlast
          by_cases hnone : v.veh.options = 0
          · have hlast' := hlast (hempty hprobe hnone)
            split_ifs at hlast' ⊢ <;> omega
          · rw [if_neg hnone] at hlen
            split_ifs at hend ⊢ <;> omega
      · simp only [length_fieldBits, apply_ite List.length, List.length_nil]
        split_ifs at hend ⊢ <;> omega
    apply Parses.after (Parses.absent (not_not_intro h.handled.weatherReport))
    rw [← List.append_nil ([_] : List (List Bool)).flatten]
    apply Parses.append
    · apply Parses.last
      apply Parses.optional
      intro hopt
      exact reads_weatherProbe (h.weatherProbe hopt)
    exact Parses.absent (not_not_intro h.handled.others)
  · intro b
    have hopts : ((u32 v.suppvehopts : ℕ) : ℤ) = v.suppvehopts :=
      (u32_of_lt h.opts (by norm_num)).1
    by_cases hclass : Has (u32 v.suppvehopts) 0x200 <;>
      by_cases hvehicle : Has (u32 v.suppvehopts) 0x80 <;>
      by_cases hprobe : Has (u32 v.suppvehopts) 0x20 <;>
      simp only [Function.comp_apply, hclass, hvehicle, hprobe, if_true, if_false, id,
        not_false_eq_true, ne_eq, hopts, takeSupplemental, takeIf] <;> rfl

theorem length_supplementalBits_of_ends {v : BsmValue} (h : EndsWithoutVehicleData v) :
    (supplementalBits v).length = 16 + if u32 v.suppvehopts &&& 0x200 ≠ 0 then 8 else 0 := by
  obtain ⟨hvehicle, hnone, hprobe⟩ := h
  have hlen : (vehicleDataBits v.veh).length = 5 := by
    simp [vehicleDataBits, hnone]
  simp only [supplementalBits, List.flatten_cons, List.flatten_nil, List.length_append,
    apply_ite List.length, length_fieldBits, List.length_nil, if_pos hvehicle, if_neg hprobe, hlen]
  omega

/-- The check before the vehicle data fails where it lies in the last byte. -/
theorem stops_supplementalFields {v : BsmValue} (h : SupplementalFits v)
    (hlast : EndsWithoutVehicleData v)
    (hend : 8 * (lastByteP + 1) = (pos : ℤ) + (supplementalBits v).length + 2) :
    Stops DecodesAt (memBits mem) pos (decodeSupplementalFields mem lastByteP)
      (supplementalBits v) (-1) := by
  rw [length_supplementalBits_of_ends hlast] at hend
  obtain ⟨hvehicle, hnone, hprobe⟩ := hlast
  unfold decodeSupplementalFields supplementalBits
  apply Stops.after
  · apply reads_checkRoom (by norm_num) (by norm_num)
    split_ifs at hend <;> omega
  apply Stops.cons reads_isExtended
  apply Stops.cons (reads_intOpts h.opts (by norm_num))
  apply Stops.after (reads_update _)
  apply Stops.cons
  · apply Parses.optional
    intro hopt
    apply reads_value (h.vehicleClass hopt) (by norm_num)
    intro x hx
    rw [hx]
  apply Stops.after (Parses.absent (not_not_intro h.handled.classDetails))
  apply Stops.first
  rw [BitParser.optional, if_pos hvehicle]
  apply Stops.first
  apply stops_checkRoom (by norm_num) (by norm_num)
  simp only [length_fieldBits, apply_ite List.length, List.length_nil]
  split_ifs at hend ⊢ <;> omega

end Supplemental

end Tulux.QCoder
