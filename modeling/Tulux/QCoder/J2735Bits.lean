import Tulux.QCoder.J2735Decode

/-! The bits of a basic safety message, and that the encoder appends them. -/
namespace Tulux.QCoder
open BitString BitParser

/-! ### The bits of the extensions -/

/-- The low bits of an `int`. -/
def fieldBits (n : ℕ) (x : ℤ) : List Bool := natBits n (u32 x)

def initialPositionBits (fpv : FullPositionVector) : List Bool :=
  let opts := fpv.opts &&& 0x7f
  [ fieldBits 1 0,
    fieldBits 8 opts,
    fieldBits 32 (fpv.lon - -1799999999),
    fieldBits 31 (fpv.lat - -900000000),
    if opts &&& 0x20 ≠ 0 then fieldBits 15 fpv.heading else [],
    if opts &&& 0x40 ≠ 0 then fieldBits 16 (fpv.elevation - -4096) else [],
    if opts &&& 0x20 ≠ 0 then fieldBits 15 fpv.heading else [],
    if opts &&& 0x8 ≠ 0 then
      [ fieldBits 8 fpv.posAccuracy.semiMajor,
        fieldBits 8 fpv.posAccuracy.semiMinor,
        fieldBits 16 fpv.posAccuracy.orientation ].flatten
    else [],
    if opts &&& 0x4 ≠ 0 then fieldBits 6 fpv.timeConfidence else [],
    if opts &&& 0x2 ≠ 0 then
      [ fieldBits 4 fpv.posConfidence.xy,
        fieldBits 4 fpv.posConfidence.elevation ].flatten
    else [],
    if opts &&& 0x1 ≠ 0 then
      [ fieldBits 3 fpv.motionConfidenceSet.headingConfidence,
        fieldBits 3 fpv.motionConfidenceSet.speedConfidence,
        fieldBits 2 fpv.motionConfidenceSet.throttleConfidence ].flatten
    else [] ].flatten

def crumbBits (crumb : PhPoint) : List Bool :=
  [ fieldBits 1 0,
    fieldBits 3 crumb.opts,
    fieldBits 18 (crumb.latOffset - -131072),
    fieldBits 18 (crumb.lonOffset - -131072),
    fieldBits 12 (crumb.eleOffset - -2048),
    fieldBits 16 ((crumb.timeOffsetMs - 1).tdiv 10),
    if crumb.opts &&& 0x4 ≠ 0 then fieldBits 13 crumb.speed else [],
    if crumb.opts &&& 0x2 ≠ 0 then
      [ fieldBits 8 crumb.accy.semiMajor,
        fieldBits 8 crumb.accy.semiMinor,
        fieldBits 16 crumb.accy.orientation ].flatten
    else [],
    if crumb.opts &&& 0x1 ≠ 0 then fieldBits 8 (coarseHeading crumb) else [] ].flatten

def crumbsBits (phCrumb : ℕ → PhPoint) (m : ℕ) : ℕ → List Bool
  | 0 => []
  | n + 1 => crumbBits (phCrumb m) ++ crumbsBits phCrumb (m + 1) n

def pathHistoryBits (v : BsmValue) : List Bool :=
  [ fieldBits 1 0,
    fieldBits 2 v.phopts,
    if u32 v.phopts &&& 0x2 ≠ 0 then initialPositionBits v.ph.initialPosition else [],
    if u32 v.phopts &&& 0x1 ≠ 0 then fieldBits 8 v.ph.gnssStatus else [],
    fieldBits 5 (v.ph.qtyCrumbs - 1),
    crumbsBits v.ph.phCrumb 0 v.ph.qtyCrumbs.toNat ].flatten

def vehicleSafetyBits (v : BsmValue) : List Bool :=
  [ fieldBits 1 0,
    fieldBits 4 v.vehsafeopts,
    if u32 v.vehsafeopts &&& 0x8 ≠ 0 then [ fieldBits 1 0, fieldBits 13 v.events ].flatten else [],
    if u32 v.vehsafeopts &&& 0x4 ≠ 0 then pathHistoryBits v else [],
    if u32 v.vehsafeopts &&& 0x2 ≠ 0 then
      [ fieldBits 1 0,
        fieldBits 16 (v.pp.radius - -32767),
        fieldBits 8 v.pp.confidence ].flatten
    else [],
    if u32 v.vehsafeopts &&& 0x1 ≠ 0 then
      [ fieldBits 1 0, fieldBits 9 v.lightsInUse ].flatten
    else [] ].flatten

def emergencyDetailsBits (v : BsmValue) : List Bool :=
  [ fieldBits 1 0,
    fieldBits 2 v.edopts,
    fieldBits 5 v.vehicleAlerts.sspRights,
    fieldBits 2 v.vehicleAlerts.sirenUse,
    fieldBits 3 v.vehicleAlerts.lightsUse,
    fieldBits 2 v.vehicleAlerts.multi,
    if v.edopts &&& 0x2 ≠ 0 then
      [ fieldBits 1 0,
        fieldBits 5 v.vehicleAlerts.sspRights,
        fieldBits 16 v.vehicleAlerts.events.event ].flatten
    else [],
    if v.edopts &&& 0x1 ≠ 0 then
      [ fieldBits 1 0, fieldBits 3 v.vehicleAlerts.responseType ].flatten
    else [] ].flatten

def descsBits (desc : ℕ → ℤ) (m : ℕ) : ℕ → List Bool
  | 0 => []
  | n + 1 => fieldBits 16 (desc m) ++ descsBits desc (m + 1) n

def eventDescriptionBits (v : BsmValue) : List Bool :=
  [ fieldBits 1 0,
    fieldBits 5 v.eventopts,
    fieldBits 16 v.description.typeEvent,
    if v.eventopts &&& 0x10 ≠ 0 then
      [ fieldBits 3 (v.description.sizeDesc - 1),
        descsBits v.description.desc 0 v.description.sizeDesc.toNat ].flatten
    else [],
    if v.eventopts &&& 0x8 ≠ 0 then fieldBits 8 v.description.priority else [],
    if v.eventopts &&& 0x4 ≠ 0 then fieldBits 16 v.description.heading else [],
    if v.eventopts &&& 0x2 ≠ 0 then fieldBits 4 v.description.extent else [] ].flatten

def specialBits (v : BsmValue) : List Bool :=
  [ fieldBits 1 0,
    fieldBits 3 v.specvehopts,
    if u32 v.specvehopts &&& 0x4 ≠ 0 then emergencyDetailsBits v else [],
    if u32 v.specvehopts &&& 0x2 ≠ 0 then eventDescriptionBits v else [] ].flatten

def vehicleDataBits (veh : VehicleData) : List Bool :=
  [ fieldBits 1 0,
    fieldBits 4 veh.options,
    if veh.options &&& 0x8 ≠ 0 then fieldBits 7 (veh.heightCm / 5 : ℕ) else [],
    if veh.options &&& 0x4 ≠ 0 then
      [ fieldBits 7 veh.frontBumperHeightCm, fieldBits 7 veh.rearBumperHeightCm ].flatten
    else [],
    if veh.options &&& 0x2 ≠ 0 then fieldBits 8 (vehicleMassEncode (s32 veh.massKg)) else [],
    if veh.options &&& 0x1 ≠ 0 then fieldBits 16 veh.trailerWeight else [] ].flatten

def weatherProbeBits (v : BsmValue) : List Bool :=
  [ fieldBits 1 0,
    fieldBits 3 v.weatheropts,
    if v.weatheropts &&& 0x4 ≠ 0 then fieldBits 8 v.airTemp else [],
    if v.weatheropts &&& 0x2 ≠ 0 then fieldBits 8 v.airPressure else [],
    if v.weatheropts &&& 0x1 ≠ 0 then
      [ fieldBits 2 v.wiperopts,
        fieldBits 4 v.statusFront,
        fieldBits 7 v.rateFront,
        if v.wiperopts &&& 0x2 ≠ 0 then fieldBits 4 v.statusRear else [],
        if v.wiperopts &&& 0x1 ≠ 0 then fieldBits 7 v.rateRear else [] ].flatten
    else [] ].flatten

/-- An extension with handled options only. -/
def supplementalBits (v : BsmValue) : List Bool :=
  let opts := u32 v.suppvehopts
  [ fieldBits 1 0,
    fieldBits 10 v.suppvehopts,
    if opts &&& 0x200 ≠ 0 then fieldBits 8 v.vehicleClass else [],
    if opts &&& 0x80 ≠ 0 then vehicleDataBits v.veh else [],
    if opts &&& 0x20 ≠ 0 then weatherProbeBits v else [] ].flatten

/-! ### Lengths -/

section Lengths

@[simp] theorem length_fieldBits (n : ℕ) (x : ℤ) : (fieldBits n x).length = n := length_natBits n _

theorem length_initialPositionBits (fpv : FullPositionVector) :
    (initialPositionBits fpv).length ≤ 172 := by
  unfold initialPositionBits
  dsimp only
  simp only [List.flatten_cons, List.flatten_nil, List.length_append, apply_ite List.length,
    length_fieldBits, List.length_nil]
  split_ifs <;> omega

theorem length_crumbBits (crumb : PhPoint) : (crumbBits crumb).length ≤ 121 := by
  simp only [crumbBits, List.flatten_cons, List.flatten_nil, List.length_append,
    apply_ite List.length, length_fieldBits, List.length_nil]
  split_ifs <;> omega

theorem length_crumbsBits (phCrumb : ℕ → PhPoint) (m n : ℕ) :
    (crumbsBits phCrumb m n).length ≤ 121 * n := by
  induction n generalizing m with
  | zero => simp [crumbsBits]
  | succ n ih =>
    have hfirst := length_crumbBits (phCrumb m)
    have hrest := ih (m + 1)
    rw [crumbsBits, List.length_append]
    omega

/-- Optional bits are bounded where the option is set. -/
theorem length_optional_le {c : Prop} [Decidable c] {s : List Bool} {n : ℕ}
    (h : c → s.length ≤ n) : (if c then s else []).length ≤ n := by
  by_cases hc : c
  · simpa [hc] using h hc
  · simp [hc]

theorem length_vehicleSafetyBits (v : BsmValue)
    (h : u32 v.vehsafeopts &&& 0x4 ≠ 0 → v.ph.qtyCrumbs ≤ 23) :
    5 ≤ (vehicleSafetyBits v).length ∧ (vehicleSafetyBits v).length ≤ 3100 := by
  have hcrumbs := length_crumbsBits v.ph.phCrumb 0 v.ph.qtyCrumbs.toNat
  have hposition := length_initialPositionBits v.ph.initialPosition
  have hhistory : (if u32 v.vehsafeopts &&& 0x4 ≠ 0 then pathHistoryBits v else []).length ≤ 2990 := by
    apply length_optional_le
    intro hopt
    have hqty := h hopt
    simp only [pathHistoryBits, List.flatten_cons, List.flatten_nil, List.length_append,
      apply_ite List.length, length_fieldBits, List.length_nil]
    split_ifs <;> omega
  simp only [vehicleSafetyBits, List.flatten_cons, List.flatten_nil, List.length_append,
    length_fieldBits, List.length_nil]
  simp only [apply_ite List.length, List.length_append, length_fieldBits, List.length_nil]
    at hhistory ⊢
  split_ifs at hhistory ⊢ <;> omega

theorem length_descsBits (desc : ℕ → ℤ) (m n : ℕ) : (descsBits desc m n).length = 16 * n := by
  induction n generalizing m with
  | zero => rfl
  | succ n ih =>
    rw [descsBits, List.length_append, ih, length_fieldBits]
    omega

theorem length_specialBits (v : BsmValue) (h : u32 v.specvehopts &&& 0x2 ≠ 0 →
    v.eventopts &&& 0x10 ≠ 0 → v.description.sizeDesc ≤ 8) :
    4 ≤ (specialBits v).length ∧ (specialBits v).length ≤ 3100 := by
  have hdetails : (emergencyDetailsBits v).length ≤ 50 := by
    simp only [emergencyDetailsBits, List.flatten_cons, List.flatten_nil, List.length_append,
      apply_ite List.length, length_fieldBits, List.length_nil]
    split_ifs <;> omega
  have hdescs : u32 v.specvehopts &&& 0x2 ≠ 0 →
      (if v.eventopts &&& 0x10 ≠ 0 then
        [ fieldBits 3 (v.description.sizeDesc - 1),
          descsBits v.description.desc 0 v.description.sizeDesc.toNat ].flatten
      else []).length ≤ 131 := by
    intro hopt
    apply length_optional_le
    intro hlist
    have hsize := h hopt hlist
    simp only [List.flatten_cons, List.flatten_nil, List.length_append, length_fieldBits,
      length_descsBits, List.length_nil]
    omega
  have hdescription :
      (if u32 v.specvehopts &&& 0x2 ≠ 0 then eventDescriptionBits v else []).length ≤ 200 := by
    apply length_optional_le
    intro hopt
    have hlist := hdescs hopt
    unfold eventDescriptionBits
    rw [List.flatten_cons, List.flatten_cons, List.flatten_cons, List.flatten_cons]
    simp only [List.length_append] at hlist ⊢
    simp only [List.flatten_cons, List.flatten_nil, List.length_append, apply_ite List.length,
      length_fieldBits, length_descsBits, List.length_nil] at hlist ⊢
    split_ifs at hlist ⊢ <;> omega
  simp only [specialBits, List.flatten_cons, List.flatten_nil, List.length_append,
    apply_ite List.length, length_fieldBits, List.length_nil]
  simp only [apply_ite List.length, List.length_nil] at hdescription
  split_ifs at hdescription ⊢ <;> omega

theorem length_supplementalBits (v : BsmValue) :
    11 ≤ (supplementalBits v).length ∧ (supplementalBits v).length ≤ 3100 := by
  have hvehicle : (vehicleDataBits v.veh).length ≤ 50 := by
    simp only [vehicleDataBits, List.flatten_cons, List.flatten_nil, List.length_append,
      apply_ite List.length, length_fieldBits, List.length_nil]
    split_ifs <;> omega
  have hweather : (weatherProbeBits v).length ≤ 50 := by
    simp only [weatherProbeBits, List.flatten_cons, List.flatten_nil, List.length_append,
      apply_ite List.length, length_fieldBits, List.length_nil]
    split_ifs <;> omega
  simp only [supplementalBits, List.flatten_cons, List.flatten_nil, List.length_append,
    apply_ite List.length, length_fieldBits, List.length_nil]
  split_ifs <;> omega

end Lengths

/-! ### Building -/

/-- The builder appends the bits `s`, if there is room for them. -/
def Writes (p : Builder) (s : List Bool) : Prop :=
  ∀ bp t, Holds bp t → bp.stop + s.length ≤ 8 * bp.endp →
    ∃ bp', p bp = .ok () bp' ∧ Holds bp' (t ++ s) ∧ SameFront bp bp'

namespace Writes
variable {p q : Builder} {s : List Bool} {ss : List (List Bool)}

theorem nil : Writes (pure ()) [] := by
  intro bp t h _
  refine ⟨bp, rfl, ?_, SameFront.refl bp⟩
  rwa [List.append_nil]

theorem put (data : ℤ) (n : ℕ) : Writes (put data n) (fieldBits n data) := by
  intro bp t h hroom
  exact ⟨_, rfl, appends_ncat (u32 data) n bp t h hroom⟩

theorem append {t : List Bool} (hp : Writes p s) (hq : Writes q t) :
    Writes (p >>= fun _ => q) (s ++ t) := by
  intro bp u h hroom
  rw [List.length_append] at hroom
  obtain ⟨bp', heq, hholds, hfront⟩ := hp bp u h (by omega)
  have hlength := h.length
  have hlength' := hholds.length
  have hend := hfront.endp
  rw [hfront.start, List.length_append] at hlength'
  obtain ⟨bp'', heq', hholds', hfront'⟩ := hq bp' (u ++ s) hholds (by omega)
  refine ⟨bp'', ?_, ?_, hfront.trans hfront'⟩
  · rw [bind_ok heq, heq']
  · rwa [← List.append_assoc]

theorem cons (hp : Writes p s) (hq : Writes q ss.flatten) :
    Writes (p >>= fun _ => q) (s :: ss).flatten :=
  hp.append hq

theorem last (hp : Writes p s) : Writes p [s].flatten := by
  rwa [List.flatten_cons, List.flatten_nil, List.append_nil]

theorem optional {c : Prop} [Decidable c] (hp : Writes p s) :
    Writes (optional c p) (if c then s else []) := by
  unfold BitParser.optional
  split_ifs
  · exact hp
  · exact nil

/-- A part that is not there. -/
theorem skip {c : Prop} [Decidable c] (hc : ¬c) (hq : Writes q s) :
    Writes (BitParser.optional c p >>= fun _ => q) s := by
  unfold BitParser.optional
  rw [if_neg hc]
  exact nil.append hq

end Writes

section Builders

theorem writes_initialPosition (fpv : FullPositionVector) :
    Writes (putInitialPosition fpv) (initialPositionBits fpv) := by
  unfold putInitialPosition initialPositionBits
  dsimp only
  repeat' first
    | apply Writes.put
    | apply Writes.optional
    | apply Writes.last
    | apply Writes.cons

theorem writes_crumb (crumb : PhPoint) : Writes (putCrumb crumb) (crumbBits crumb) := by
  unfold putCrumb crumbBits
  repeat' first
    | apply Writes.put
    | apply Writes.optional
    | apply Writes.last
    | apply Writes.cons

theorem writes_crumbs (phCrumb : ℕ → PhPoint) (m n : ℕ) :
    Writes (putCrumbs phCrumb m n) (crumbsBits phCrumb m n) := by
  induction n generalizing m with
  | zero => exact Writes.nil
  | succ n ih => exact (writes_crumb (phCrumb m)).append (ih (m + 1))

theorem writes_pathHistory (v : BsmValue) : Writes (putPathHistory v) (pathHistoryBits v) := by
  unfold putPathHistory pathHistoryBits
  apply Writes.cons (Writes.put _ _)
  apply Writes.cons (Writes.put _ _)
  apply Writes.cons (Writes.optional (writes_initialPosition _))
  apply Writes.cons (Writes.optional (Writes.put _ _))
  apply Writes.cons (Writes.put _ _)
  exact Writes.last (writes_crumbs _ _ _)

theorem writes_vehicleSafety (v : BsmValue) :
    Writes (putVehicleSafetyExt v) (vehicleSafetyBits v) := by
  unfold putVehicleSafetyExt vehicleSafetyBits
  apply Writes.cons (Writes.put _ _)
  apply Writes.cons (Writes.put _ _)
  apply Writes.cons (Writes.optional ((Writes.put _ _).cons (Writes.put _ _).last))
  apply Writes.cons (Writes.optional (writes_pathHistory v))
  apply Writes.cons
  · exact Writes.optional ((Writes.put _ _).cons ((Writes.put _ _).cons (Writes.put _ _).last))
  · exact (Writes.optional ((Writes.put _ _).cons (Writes.put _ _).last)).last

theorem writes_emergencyDetails (v : BsmValue) :
    Writes (putEmergencyDetails v) (emergencyDetailsBits v) := by
  unfold putEmergencyDetails emergencyDetailsBits
  repeat' first
    | apply Writes.put
    | apply Writes.optional
    | apply Writes.last
    | apply Writes.cons

theorem writes_descs (desc : ℕ → ℤ) (m n : ℕ) :
    Writes (putDescs desc m n) (descsBits desc m n) := by
  induction n generalizing m with
  | zero => exact Writes.nil
  | succ n ih => exact (Writes.put (desc m) 16).append (ih (m + 1))

theorem writes_eventDescription (v : BsmValue) :
    Writes (putEventDescription v) (eventDescriptionBits v) := by
  unfold putEventDescription eventDescriptionBits
  apply Writes.cons (Writes.put _ _)
  apply Writes.cons (Writes.put _ _)
  apply Writes.cons (Writes.put _ _)
  apply Writes.cons (Writes.optional ((Writes.put _ _).cons (writes_descs _ _ _).last))
  apply Writes.cons (Writes.optional (Writes.put _ _))
  apply Writes.cons (Writes.optional (Writes.put _ _))
  exact (Writes.optional (Writes.put _ _)).last

theorem writes_special (v : BsmValue) : Writes (putSpecialExt v) (specialBits v) := by
  unfold putSpecialExt specialBits
  apply Writes.cons (Writes.put _ _)
  apply Writes.cons (Writes.put _ _)
  apply Writes.cons (Writes.optional (writes_emergencyDetails v))
  exact (Writes.optional (writes_eventDescription v)).last

theorem writes_vehicleData (veh : VehicleData) :
    Writes (putVehicleData veh) (vehicleDataBits veh) := by
  unfold putVehicleData vehicleDataBits
  repeat' first
    | apply Writes.put
    | apply Writes.optional
    | apply Writes.last
    | apply Writes.cons

theorem writes_weatherProbe (v : BsmValue) : Writes (putWeatherProbe v) (weatherProbeBits v) := by
  unfold putWeatherProbe weatherProbeBits
  repeat' first
    | apply Writes.put
    | apply Writes.optional
    | apply Writes.last
    | apply Writes.cons

/-- Only the classification, the vehicle data and the weather probe are handled. -/
structure HandledOptions (opts : ℕ) : Prop where
  classDetails : opts &&& 0x100 = 0
  weatherReport : opts &&& 0x40 = 0
  others : opts &&& 0x1f = 0

theorem writes_supplemental {v : BsmValue} (h : HandledOptions (u32 v.suppvehopts)) :
    Writes (putSupplementalExt v) (supplementalBits v) := by
  unfold putSupplementalExt supplementalBits
  dsimp only
  apply Writes.cons (Writes.put _ _)
  apply Writes.cons (Writes.put _ _)
  apply Writes.cons (Writes.optional (Writes.put _ _))
  apply Writes.skip (not_not_intro h.classDetails)
  apply Writes.cons (Writes.optional (writes_vehicleData v.veh))
  apply Writes.skip (not_not_intro h.weatherReport)
  apply Writes.cons (Writes.optional (writes_weatherProbe v))
  rw [BitParser.optional, if_neg (not_not_intro h.others)]
  exact Writes.nil

end Builders

/-! ### An extension -/

/-- The length of an extension, and its fields with their padding. -/
def extBits (s : List Bool) : List Bool := lenBits ((s.length + 7) / 8) ++ (s ++ padding s.length)

theorem length_padded (s : List Bool) : (s ++ padding s.length).length = 8 * ((s.length + 7) / 8) := by
  rw [List.length_append, length_padding]
  omega

/-- The fields go into a reserved buffer, and their length in front of them. -/
theorem Holds.buildExt {p : Builder} {s : List Bool} {abp : Abuf} (h : Holds abp [])
    (hp : Writes p s) (hspace : abp.headHeadspaceBits < 8) (hhead : 0 < abp.head)
    (hpos : 0 < s.length) (hlen : (s.length + 7) / 8 < 0x4000)
    (hfront : 8 * abp.head + 16 ≤ abp.start) (hroom : abp.stop + s.length + 7 ≤ 8 * abp.endp) :
    Holds (buildExt p abp) (extBits s) ∧ (buildExt p abp).endp = abp.endp ∧
      (buildExt p abp).head = abp.head ∧ (buildExt p abp).size = abp.size ∧
      (buildExt p abp).headHeadspaceBits < 8 ∧
      (buildExt p abp).start + (lenBits ((s.length + 7) / 8)).length = abp.start := by
  obtain ⟨bp, heq, hholds, hsame⟩ := hp abp [] h (by omega)
  rw [List.nil_append] at hholds
  have hlength := h.length
  have hlength' := hholds.length
  have hend := hsame.endp
  rw [hsame.start] at hlength'
  rw [List.length_nil] at hlength
  obtain ⟨hpad, hsame'⟩ := hholds.pad (by omega)
  have hsame'' := hsame.trans hsame'
  have hbytes : ((s ++ padding s.length).length + 7) / 8 = (s.length + 7) / 8 := by
    rw [length_padded]
    omega
  have hstart := hsame''.start
  have hhead' := hsame''.head
  have hspace' := hsame''.headspace
  have hlen' := length_padded s
  obtain ⟨hpush, hback, hstart', hspace''⟩ := hpad.pushLen (by omega) (by omega) (by omega)
    (by omega) (by omega)
  rw [hbytes] at hpush hstart'
  have hbuild : QCoder.buildExt p abp = asnPushLen (abufPadToEvenOctet bp) := by
    rw [QCoder.buildExt, heq]
  rw [hbuild]
  exact ⟨hpush, hback.endp.trans hsame''.endp, hback.head.trans hhead',
    hback.size.trans hsame''.size, hspace'', by omega⟩

end Tulux.QCoder
