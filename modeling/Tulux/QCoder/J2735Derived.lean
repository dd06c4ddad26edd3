import Tulux.QCoder.AsnbufRead
import Tulux.QCoder.J2735Coded

/-! The fields that the decoder derives agree with the codes in the message. -/
namespace Tulux.QCoder
open BitParser Outcome

/-- The fields that are derived from codes. -/
@[ext]
structure Derived where
  isStraight : ℕ
  radius : ℤ
  headingAvailable : ℕ → ℕ
  qtyCrumbs : ℤ
  sizeDesc : ℤ
  hasSafety : ℕ
  hasSpecial : ℕ
  hasSupplemental : ℕ

def BsmValue.derived (b : BsmValue) : Derived :=
  ⟨b.pp.isStraight, b.pp.radius, fun m => (b.ph.phCrumb m).headingAvailable, b.ph.qtyCrumbs,
    b.description.sizeDesc, b.hasSafetyExtension, b.hasSpecialExtension, b.hasSupplementalExtension⟩

abbrev stDerived (st : DecodeState) : Derived := st.bsm.derived

/-- An error is -1. -/
abbrev TellsDerived {α : Type} (p : Decoder α) (R : Derived → α → Derived → Prop) : Prop :=
  Tells stDerived (· = -1) p R

abbrev PreservesDerived {α : Type} (p : Decoder α) : Prop := Preserves stDerived (· = -1) p

section Keep
variable {mem : ℕ → UInt8} {lastByteP : ℤ}

theorem tells_update {g : BsmValue → BsmValue} (g' : Derived → Derived)
    (hg : ∀ b, (g b).derived = g' b.derived) : TellsDerived (update g) fun d _ d' => d' = g' d :=
  Tells.of_ok fun st => ⟨_, _, rfl, hg st.bsm⟩

theorem preserves_update {g : BsmValue → BsmValue} (hg : ∀ b, (g b).derived = b.derived) :
    PreservesDerived (update g) := tells_update _ hg

theorem preserves_getBits (n : ℕ) : PreservesDerived (getBits mem n) :=
  Tells.of_ok fun _ => ⟨_, _, rfl, rfl⟩

theorem preserves_isExtended : PreservesDerived (isExtended mem) :=
  (preserves_getBits 1).bind fun _ => Preserves.pure ()

theorem preserves_getLen : PreservesDerived (getLen mem) := Tells.of_ok fun _ => ⟨_, _, rfl, rfl⟩

theorem preserves_checkRoom (n : ℕ) : PreservesDerived (checkRoom lastByteP n) := by
  refine ⟨fun st a st' h => ?_, fun st e st' h => ?_⟩
  · unfold checkRoom at h
    split_ifs at h
    cases h
    rfl
  · unfold checkRoom at h
    split_ifs at h
    cases h
    rfl

theorem preserves_get : PreservesDerived (get : Decoder DecodeState) :=
  Tells.of_ok fun st => ⟨st, st, rfl, rfl⟩

theorem preserves_field (n : ℕ) {store : ℕ → BsmValue → BsmValue}
    (hs : ∀ v b, (store v b).derived = b.derived) : PreservesDerived (field mem n store) :=
  (preserves_getBits n).bind fun v => preserves_update (hs v)

theorem preserves_bsmDecodeErr {α : Type} : PreservesDerived (bsmDecodeErr : Decoder α) :=
  Tells.throw rfl

theorem derived_setCrumb {m : ℕ} {g : PhPoint → PhPoint}
    (hg : ∀ crumb, (g crumb).headingAvailable = crumb.headingAvailable) (b : BsmValue) :
    (b.setCrumb m g).derived = b.derived := by
  have hsame : (fun i => ((b.setCrumb m g).ph.phCrumb i).headingAvailable) =
      fun i => (b.ph.phCrumb i).headingAvailable := by
    funext i
    by_cases hi : i = m
    · subst hi
      simp [BsmValue.setCrumb, hg]
    · simp [BsmValue.setCrumb, hi]
  rw [BsmValue.derived, hsame]
  rfl

theorem preserves_crumbField (m n : ℕ) {store : ℕ → PhPoint → PhPoint}
    (hs : ∀ v crumb, (store v crumb).headingAvailable = crumb.headingAvailable) :
    PreservesDerived (crumbField mem m n store) :=
  preserves_field n fun v => derived_setCrumb (hs v)

theorem preserves_utcTime : PreservesDerived (decodeUtcTime mem) := by
  unfold decodeUtcTime utcField fpvField
  repeat' first
    | with_reducible apply Preserves.bind
    | with_reducible apply Preserves.optional
    | with_reducible apply preserves_field
    | with_reducible apply preserves_update
    | with_reducible apply preserves_getBits
    | with_reducible apply preserves_isExtended
    | intro
  all_goals rfl

theorem preserves_initialPosition : PreservesDerived (decodeInitialPosition mem) := by
  unfold decodeInitialPosition fpvField
  repeat' first
    | with_reducible apply Preserves.bind
    | with_reducible apply Preserves.optional
    | with_reducible apply preserves_field
    | with_reducible apply preserves_update
    | with_reducible apply preserves_getBits
    | with_reducible apply preserves_isExtended
    | with_reducible apply preserves_utcTime
    | intro
  all_goals rfl

theorem preserves_emergencyDetails : PreservesDerived (decodeEmergencyDetails mem) := by
  unfold decodeEmergencyDetails
  repeat' first
    | with_reducible apply Preserves.bind
    | with_reducible apply Preserves.optional
    | with_reducible apply preserves_field
    | with_reducible apply preserves_update
    | with_reducible apply preserves_getBits
    | with_reducible apply preserves_isExtended
    | intro
  all_goals rfl

theorem preserves_descs (m n : ℕ) : PreservesDerived (decodeDescs mem m n) := by
  induction n generalizing m with
  | zero => exact Preserves.pure ()
  | succ n ih =>
    refine Preserves.bind ?_ fun _ => ih (m + 1)
    exact preserves_field 16 fun _ _ => rfl

theorem preserves_vehicleData : PreservesDerived (decodeVehicleData mem lastByteP) := by
  unfold decodeVehicleData
  repeat' first
    | with_reducible apply Preserves.bind
    | with_reducible apply Preserves.optional
    | with_reducible apply preserves_field
    | with_reducible apply preserves_update
    | with_reducible apply preserves_getBits
    | with_reducible apply preserves_isExtended
    | with_reducible apply preserves_checkRoom
    | intro
  all_goals rfl

theorem preserves_weatherProbe : PreservesDerived (decodeWeatherProbe mem) := by
  unfold decodeWeatherProbe
  repeat' first
    | with_reducible apply Preserves.bind
    | with_reducible apply Preserves.optional
    | with_reducible apply preserves_field
    | with_reducible apply preserves_update
    | with_reducible apply preserves_getBits
    | with_reducible apply preserves_isExtended
    | intro
  all_goals rfl

theorem preserves_supplementalFields : PreservesDerived (decodeSupplementalFields mem lastByteP) := by
  unfold decodeSupplementalFields
  repeat' first
    | with_reducible apply Preserves.bind
    | with_reducible apply Preserves.optional
    | with_reducible apply preserves_field
    | with_reducible apply preserves_update
    | with_reducible apply preserves_getBits
    | with_reducible apply preserves_isExtended
    | with_reducible apply preserves_checkRoom
    | with_reducible apply preserves_bsmDecodeErr
    | with_reducible apply preserves_vehicleData
    | with_reducible apply preserves_weatherProbe
    | intro
  all_goals rfl

end Keep

/-! ### What the codes say -/

/-- The heading option is set, and the code is not the one for an unavailable heading or above. -/
def CodedCrumb.available (crumb : CodedCrumb) : Bool :=
  crumb.opts &&& 0x1 ≠ 0 && crumb.heading.any (· < 240)

def CodedCrumb.flag (crumb : CodedCrumb) : ℕ := if crumb.available then 1 else 0

/-- The flags of the crumbs from `m` on. -/
def fillHeadings (m : ℕ) : List CodedCrumb → (ℕ → ℕ) → ℕ → ℕ
  | [], old => old
  | crumb :: crumbs, old => fillHeadings (m + 1) crumbs (Function.update old m crumb.flag)

def Derived.setHeading (m x : ℕ) (d : Derived) : Derived :=
  { d with headingAvailable := Function.update d.headingAvailable m x }

section Tell
variable {mem : ℕ → UInt8} {lastByteP : ℤ}

theorem derived_headingAvailable (m : ℕ) (g : PhPoint → PhPoint) (b : BsmValue) :
    (b.setCrumb m g).derived =
      b.derived.setHeading m (g (b.ph.phCrumb m)).headingAvailable := by
  have hsame : (fun i => ((b.setCrumb m g).ph.phCrumb i).headingAvailable) =
      Function.update (fun i => (b.ph.phCrumb i).headingAvailable) m
        (g (b.ph.phCrumb m)).headingAvailable := by
    funext i
    by_cases hi : i = m
    · subst hi
      simp [BsmValue.setCrumb]
    · simp [BsmValue.setCrumb, hi]
  rw [BsmValue.derived, hsame]
  rfl

theorem tells_codedField (n : ℕ) {store : ℕ → BsmValue → BsmValue} {g : ℕ → Derived → Derived}
    (hg : ∀ v b, (store v b).derived = g v b.derived) :
    TellsDerived (codedField mem n store) fun d v d' => d' = g v d := by
  refine (preserves_getBits n).bind fun v => ?_
  refine ((tells_update _ (hg v)).bind fun _ => Tells.pure v).mono ?_
  rintro d _ d' ⟨_, _, rfl, rfl, rfl⟩
  rfl

/-- The last part of a crumb. -/
theorem tells_heading (m opts : ℕ) : TellsDerived (do
    update fun b => b.setCrumb m fun crumb => { crumb with headingAvailable := 0 }
    let heading ← optionally (opts &&& 0x1 ≠ 0)
      (codedField mem 8 fun v b => b.setCrumb m (storeHeading v))
    pure (⟨opts, heading⟩ : CodedCrumb)) fun d crumb d' => d' = d.setHeading m crumb.flag := by
  have hstore (v : ℕ) (b : BsmValue) : (b.setCrumb m (storeHeading v)).derived =
      b.derived.setHeading m (if v < 240 then 1 else b.derived.headingAvailable m) := by
    rw [derived_headingAvailable, storeHeading]
    split_ifs <;> rfl
  refine Tells.mono ((tells_update (fun d => d.setHeading m 0)
    (derived_headingAvailable m _)).bind fun _ =>
      ((tells_codedField (g := fun v d => d.setHeading m (if v < 240 then 1 else d.headingAvailable m))
        8 hstore).optionally).bind fun heading => Tells.pure (CodedCrumb.mk opts heading)) ?_
  rintro d crumb d' ⟨_, _, rfl, heading, _, hread, rfl, rfl⟩
  rcases hread with ⟨hno, rfl, rfl⟩ | ⟨ho, v, rfl, rfl⟩
  · simp [CodedCrumb.flag, CodedCrumb.available]
  · have hodd : opts % 2 = 1 := by
      rw [Nat.and_one_is_mod] at ho
      omega
    simp [CodedCrumb.flag, CodedCrumb.available, Derived.setHeading, hodd]

theorem tells_codedCrumb (m : ℕ) : TellsDerived (codedCrumb mem m) fun d crumb d' =>
    d' = d.setHeading m crumb.flag := by
  unfold codedCrumb
  refine preserves_isExtended.bind fun _ => (preserves_getBits 3).bind fun opts => ?_
  refine Preserves.bind (preserves_update (derived_setCrumb fun _ => rfl)) fun _ => ?_
  refine Preserves.bind (preserves_crumbField m 18 fun _ _ => rfl) fun _ => ?_
  refine Preserves.bind (preserves_crumbField m 18 fun _ _ => rfl) fun _ => ?_
  refine Preserves.bind (preserves_crumbField m 12 fun _ _ => rfl) fun _ => ?_
  refine Preserves.bind (preserves_crumbField m 16 fun _ _ => rfl) fun _ => ?_
  refine Preserves.bind (Preserves.optional (preserves_crumbField m 13 fun _ _ => rfl)) fun _ => ?_
  refine Preserves.bind (Preserves.optional ?_) fun _ => tells_heading m opts
  refine Preserves.bind (preserves_crumbField m 8 fun _ _ => rfl) fun _ => ?_
  refine Preserves.bind (preserves_crumbField m 8 fun _ _ => rfl) fun _ => ?_
  exact preserves_crumbField m 16 fun _ _ => rfl

theorem tells_codedCrumbs (m n : ℕ) : TellsDerived (codedCrumbs mem m n) fun d crumbs d' =>
    crumbs.length = n ∧
      d' = { d with headingAvailable := fillHeadings m crumbs d.headingAvailable } := by
  induction n generalizing m with
  | zero =>
    refine (Tells.pure []).mono ?_
    rintro d crumbs d' ⟨rfl, rfl⟩
    exact ⟨rfl, rfl⟩
  | succ n ih =>
    refine ((tells_codedCrumb m).bind fun crumb => (ih (m + 1)).bind fun crumbs =>
      Tells.pure (crumb :: crumbs)).mono ?_
    rintro d _ d' ⟨crumb, _, rfl, crumbs, _, ⟨hlen, rfl⟩, rfl, rfl⟩
    exact ⟨congrArg (· + 1) hlen, rfl⟩

theorem tells_codedPathHistory : TellsDerived (codedPathHistory mem) fun d crumbs d' =>
    (1 ≤ crumbs.length ∧ crumbs.length ≤ 23) ∧
      d' = { d with
        qtyCrumbs := crumbs.length
        headingAvailable := fillHeadings 0 crumbs d.headingAvailable } := by
  unfold codedPathHistory
  refine preserves_isExtended.bind fun _ => (preserves_getBits 2).bind fun phOpts => ?_
  refine Preserves.bind (preserves_update fun _ => rfl) fun _ => ?_
  refine (Preserves.optional preserves_initialPosition).bind fun _ => ?_
  refine Preserves.bind (Preserves.optional (preserves_field 8 fun _ _ => rfl)) fun _ => ?_
  refine (preserves_getBits 5).bind fun count => ?_
  refine Tells.mono ((tells_update (fun d => { d with qtyCrumbs := count + 1 }) fun _ => rfl).bind
    fun _ => Tells.bind (R := fun d _ d' => count + 1 ≤ 23 ∧ d' = d) ?_ fun _ =>
      tells_codedCrumbs 0 (count + 1)) ?_
  · unfold BitParser.optional
    split_ifs with hc
    · exact Tells.throw rfl
    · exact Tells.of_ok fun st => ⟨_, st, rfl, by omega, rfl⟩
  · rintro d crumbs d' ⟨_, _, rfl, _, _, ⟨hle, rfl⟩, hlen, rfl⟩
    refine ⟨by omega, ?_⟩
    rw [hlen]
    push_cast
    rfl

theorem tells_codedPathPrediction : TellsDerived (codedPathPrediction mem) fun d radius d' =>
    d' = { d with isStraight := if radius = 32767 then 1 else 0, radius := radius + -32767 } := by
  unfold codedPathPrediction
  refine preserves_isExtended.bind fun _ => ?_
  refine Tells.mono ((tells_codedField (g := fun v d =>
    { d with isStraight := if v = 32767 then 1 else 0, radius := v + -32767 }) 16
      fun _ _ => rfl).bind fun radius =>
        Tells.bind (R := fun d _ d' => d' = d) (preserves_field 8 fun _ _ => rfl) fun _ =>
          Tells.pure radius) ?_
  rintro d _ d' ⟨radius, _, rfl, _, _, rfl, rfl, rfl⟩
  rfl

/-- The derived fields behind the parts of an extension. -/
def CodedParts.derive (parts : CodedParts) (d : Derived) : Derived :=
  { d with
    isStraight := parts.radius.elim d.isStraight fun r => if r = 32767 then 1 else 0
    radius := parts.radius.elim d.radius fun r => r + -32767
    headingAvailable := parts.crumbs.elim d.headingAvailable fun crumbs =>
      fillHeadings 0 crumbs d.headingAvailable
    qtyCrumbs := parts.crumbs.elim d.qtyCrumbs fun crumbs => crumbs.length
    sizeDesc := parts.descs.elim d.sizeDesc fun n => n }

/-- The numbers of crumbs and of descriptions are in their ranges. -/
structure CodedParts.Ranged (parts : CodedParts) : Prop where
  crumbs : ∀ crumbs ∈ parts.crumbs, 1 ≤ crumbs.length ∧ crumbs.length ≤ 23
  descs : ∀ n ∈ parts.descs, 1 ≤ n ∧ n ≤ 8

theorem tells_codedSafetyFields : TellsDerived (codedSafetyFields mem) fun d parts d' =>
    parts.Ranged ∧ d' = parts.derive d := by
  unfold codedSafetyFields
  refine preserves_isExtended.bind fun _ => (preserves_getBits 4).bind fun options => ?_
  refine Preserves.bind (preserves_update fun _ => rfl) fun _ => ?_
  refine Preserves.bind (Preserves.optional (preserves_isExtended.bind fun _ =>
    preserves_field 13 fun _ _ => rfl)) fun _ => ?_
  refine Tells.mono (tells_codedPathHistory.optionally.bind fun crumbs =>
    tells_codedPathPrediction.optionally.bind fun radius =>
      Preserves.bind (Preserves.optional (preserves_isExtended.bind fun _ =>
        preserves_field 9 fun _ _ => rfl)) fun _ => Tells.pure (CodedParts.mk crumbs radius none)) ?_
  rintro d _ d' ⟨crumbs, _, hcrumbs, radius, _, hradius, rfl, rfl⟩
  rcases hcrumbs with ⟨-, rfl, rfl⟩ | ⟨-, cs, rfl, hlen, rfl⟩
  · rcases hradius with ⟨-, rfl, rfl⟩ | ⟨-, r, rfl, rfl⟩
    · exact ⟨⟨nofun, nofun⟩, rfl⟩
    · exact ⟨⟨nofun, nofun⟩, rfl⟩
  · have hranged : ∀ crumbs ∈ some cs, 1 ≤ crumbs.length ∧ crumbs.length ≤ 23 := by
      simpa using hlen
    rcases hradius with ⟨-, rfl, rfl⟩ | ⟨-, r, rfl, rfl⟩
    · exact ⟨⟨hranged, nofun⟩, rfl⟩
    · exact ⟨⟨hranged, nofun⟩, rfl⟩

/-- A value of three bits. -/
theorem getNextNBits_three_lt (cp bitsLeft : ℕ) : (getNextNBits mem cp 3 bitsLeft).1 < 8 := by
  have hvalue : (getNextNBits mem cp 3 bitsLeft).1 = (nextBitsSwitch mem cp 3 bitsLeft
      (if bitsLeft < 3 then calcBytesNeededForNMoreBits 3 bitsLeft else 0)).1 := by
    rw [getNextNBits]
    dsimp only
    split_ifs <;> rfl
  rw [hvalue]
  split_ifs with hl
  · have hone : calcBytesNeededForNMoreBits 3 bitsLeft = 1 := by
      rw [calcBytesNeeded_eq (by norm_num) hl]
      omega
    rw [hone, nextBitsSwitch]
    dsimp only
    rw [and_lowMask, and_mask_shiftRight]
    have hfirst : ((mem cp).toNat % 2 ^ bitsLeft) <<< (3 - bitsLeft) < 2 ^ 3 := by
      rw [Nat.shiftLeft_eq]
      calc (mem cp).toNat % 2 ^ bitsLeft * 2 ^ (3 - bitsLeft)
          < 2 ^ bitsLeft * 2 ^ (3 - bitsLeft) :=
            Nat.mul_lt_mul_of_pos_right (Nat.mod_lt _ (by positivity)) (by positivity)
        _ = 2 ^ 3 := by rw [← pow_add, Nat.add_sub_cancel' hl.le]
    have hlast (x : ℕ) : x % 2 ^ (3 - bitsLeft) < 2 ^ 3 :=
      (Nat.mod_lt _ (by positivity)).trans_le (Nat.pow_le_pow_right (by norm_num) (Nat.sub_le _ _))
    exact Nat.or_lt_two_pow hfirst (hlast _)
  · rw [nextBitsSwitch]
    dsimp only
    rw [and_mask_shiftRight]
    exact Nat.mod_lt _ (by norm_num)

theorem tells_codedDescription : TellsDerived (codedDescription mem) fun d n d' =>
    (1 ≤ n ∧ n ≤ 8) ∧ d' = { d with sizeDesc := n } := by
  unfold codedDescription
  refine Tells.mono (Tells.bind (R := fun d v d' => v < 8 ∧ d' = d) ?_ fun count =>
    (tells_update (fun d => { d with sizeDesc := count + 1 }) fun _ => rfl).bind fun _ =>
      Preserves.bind (preserves_descs 0 (count + 1)) fun _ => Tells.pure (count + 1)) ?_
  · exact Tells.of_ok fun st => ⟨_, _, rfl, getNextNBits_three_lt st.p8 st.bitsLeft, rfl⟩
  · rintro d _ d' ⟨count, _, ⟨hlt, rfl⟩, _, _, rfl, rfl, rfl⟩
    refine ⟨by omega, ?_⟩
    push_cast
    rfl

theorem tells_codedEventDescription :
    TellsDerived (codedEventDescription mem) fun d descs d' =>
      (∀ n ∈ descs, 1 ≤ n ∧ n ≤ 8) ∧
        d' = { d with sizeDesc := descs.elim d.sizeDesc fun n => n } := by
  unfold codedEventDescription
  refine preserves_isExtended.bind fun _ => (preserves_getBits 5).bind fun eventopts => ?_
  refine Preserves.bind (preserves_update fun _ => rfl) fun _ => ?_
  refine Preserves.bind (preserves_field 16 fun _ _ => rfl) fun _ => ?_
  refine Tells.mono (tells_codedDescription.optionally.bind fun descs =>
    Preserves.bind (Preserves.optional (preserves_field 8 fun _ _ => rfl)) fun _ =>
    Preserves.bind (Preserves.optional (preserves_field 16 fun _ _ => rfl)) fun _ =>
    Preserves.bind (Preserves.optional (preserves_field 4 fun _ _ => rfl)) fun _ =>
      Tells.pure descs) ?_
  rintro d _ d' ⟨descs, _, hdescs, rfl, rfl⟩
  rcases hdescs with ⟨-, rfl, rfl⟩ | ⟨-, n, rfl, hn, rfl⟩
  · exact ⟨nofun, rfl⟩
  · exact ⟨by simpa using hn, rfl⟩

theorem tells_codedSpecialFields :
    TellsDerived (codedSpecialFields mem lastByteP) fun d parts d' =>
      parts.Ranged ∧ d' = parts.derive d := by
  unfold codedSpecialFields
  refine preserves_isExtended.bind fun _ => (preserves_checkRoom 3).bind fun _ => ?_
  refine (preserves_getBits 3).bind fun specvehopts => ?_
  refine Preserves.bind (preserves_update fun _ => rfl) fun _ => ?_
  refine (Preserves.optional preserves_emergencyDetails).bind fun _ => ?_
  refine Tells.mono (tells_codedEventDescription.optionally.bind fun descs =>
    (Preserves.optional preserves_isExtended).bind fun _ =>
      Tells.pure (CodedParts.mk none none descs.join)) ?_
  rintro d _ d' ⟨descs, _, hdescs, rfl, rfl⟩
  rcases hdescs with ⟨-, rfl, rfl⟩ | ⟨-, o, rfl, ho, rfl⟩
  · exact ⟨⟨nofun, nofun⟩, rfl⟩
  · exact ⟨⟨nofun, ho⟩, rfl⟩

/-- The derived fields behind an extension. -/
def CodedExt.derive (ext : CodedExt) (d : Derived) : Derived :=
  { ext.parts.derive d with
    hasSafety := if ext.id = 0 then 1 else d.hasSafety
    hasSpecial := if ext.id = 1 then 1 else d.hasSpecial
    hasSupplemental := if ext.id = 2 then 1 else d.hasSupplemental }

theorem tells_pair {α : Type} {p : Decoder α} {R : Derived → α → Derived → Prop}
    (hp : TellsDerived p R) (n : ℕ) :
    TellsDerived (do let a ← p; pure (n, a)) fun d r d' => R d r.2 d' := by
  refine (hp.bind fun a => Tells.pure (n, a)).mono ?_
  rintro d _ d' ⟨a, _, hR, rfl, rfl⟩
  exact hR

theorem tells_codedExt (id : ℕ) : TellsDerived (codedExt mem lastByteP id) fun d r d' =>
    r.2.Ranged ∧ d' = (CodedExt.mk id r.2).derive d := by
  match id with
  | 0 =>
    refine Tells.mono ((tells_update (fun d => { d with hasSafety := 1 }) fun _ => rfl).bind
      fun _ => (preserves_checkRoom 8).bind fun _ => preserves_getLen.bind fun _ =>
        preserves_get.bind fun st => (Preserves.optional preserves_bsmDecodeErr).bind fun _ =>
          tells_pair tells_codedSafetyFields st.bitsLeft) ?_
    rintro d r d' ⟨_, _, rfl, hranged, rfl⟩
    exact ⟨hranged, rfl⟩
  | 1 =>
    refine Tells.mono ((tells_update (fun d => { d with hasSpecial := 1 }) fun _ => rfl).bind
      fun _ => preserves_getLen.bind fun _ => preserves_get.bind fun st =>
        tells_pair tells_codedSpecialFields st.bitsLeft) ?_
    rintro d r d' ⟨_, _, rfl, hranged, rfl⟩
    exact ⟨hranged, rfl⟩
  | 2 =>
    have hfields : TellsDerived (decodeSupplementalExt mem lastByteP) fun d _ d' =>
        d' = { d with hasSupplemental := 1 } := by
      refine Tells.mono ((tells_update (fun d => { d with hasSupplemental := 1 })
        fun _ => rfl).bind fun _ => preserves_getLen.bind fun _ => preserves_get.bind fun st =>
          preserves_supplementalFields.bind fun _ => Preserves.pure st.bitsLeft) ?_
      rintro d _ d' ⟨_, _, rfl, rfl⟩
      rfl
    refine Tells.mono (hfields.bind fun n => Tells.pure (n, ({} : CodedParts))) ?_
    rintro d _ d' ⟨_, _, rfl, rfl, rfl⟩
    exact ⟨⟨nofun, nofun⟩, rfl⟩
  | n + 3 => exact Tells.throw rfl

theorem preserves_skipPadding (n : ℕ) : PreservesDerived (skipPadding n) := by
  refine Preserves.modify fun st => ?_
  split_ifs <;> rfl

theorem tells_codedExts (n : ℕ) : TellsDerived (codedExts mem lastByteP n) fun d exts d' =>
    (∀ ext ∈ exts, ext.parts.Ranged) ∧ d' = exts.foldl (fun d ext => ext.derive d) d := by
  induction n with
  | zero =>
    refine (Tells.pure []).mono ?_
    rintro d _ d' ⟨rfl, rfl⟩
    exact ⟨nofun, rfl⟩
  | succ n ih =>
    refine (preserves_checkRoom 6).bind fun _ => (preserves_getBits 6).bind fun id => ?_
    refine Tells.mono ((tells_codedExt id).bind (T := fun r d exts d' => ∃ later,
      exts = ⟨id, r.2⟩ :: later ∧ (∀ ext ∈ later, ext.parts.Ranged) ∧
        d' = later.foldl (fun d ext => ext.derive d) d) fun r => ?_) ?_
    · refine Tells.mono ((preserves_skipPadding r.1).bind fun _ => ih.bind fun later =>
        Tells.pure (⟨id, r.2⟩ :: later)) ?_
      rintro d _ d' ⟨later, _, ⟨hranged, rfl⟩, rfl, rfl⟩
      exact ⟨later, rfl, hranged, rfl⟩
    · rintro d _ d' ⟨r, _, ⟨hranged, rfl⟩, later, rfl, hlater, rfl⟩
      exact ⟨List.forall_mem_cons.mpr ⟨hranged, hlater⟩, rfl⟩

theorem tells_codedPartII : TellsDerived (codedPartII mem lastByteP) fun d exts d' =>
    (∀ ext ∈ exts, ext.parts.Ranged) ∧ d' = exts.foldl (fun d ext => ext.derive d) d := by
  unfold codedPartII
  refine (preserves_checkRoom 3).bind fun _ => (preserves_getBits 3).bind fun qty => ?_
  refine Preserves.bind (preserves_update fun _ => rfl) fun _ => ?_
  exact preserves_get.bind fun st => (Preserves.optional preserves_bsmDecodeErr).bind fun _ =>
    tells_codedExts (qty + 1)

end Tell

/-! ### The message -/

/-- The last of the codes, when there is one. -/
def lastCode {α : Type} (code : CodedExt → Option α) (exts : List CodedExt) : Option α :=
  exts.reverse.findSome? code

/-- The derived fields say what the codes say. A field that is not in the message is not derived. -/
structure DerivedAgree (exts : List CodedExt) (bsm : BsmValue) : Prop where
  straight : bsm.pp.isStraight ≠ 0 ↔ bsm.pp.radius = 32767
  heading : ∀ crumbs, lastCode (·.parts.crumbs) exts = some crumbs →
    bsm.ph.qtyCrumbs = crumbs.length ∧ ∀ (m : ℕ) (crumb : CodedCrumb), crumbs[m]? = some crumb →
      ((bsm.ph.phCrumb m).headingAvailable ≠ 0 ↔
        crumb.opts &&& 0x1 ≠ 0 ∧ ∃ v ∈ crumb.heading, v < 240)
  qtyCrumbs : lastCode (·.parts.crumbs) exts ≠ none →
    1 ≤ bsm.ph.qtyCrumbs ∧ bsm.ph.qtyCrumbs ≤ 23
  sizeDesc : lastCode (·.parts.descs) exts ≠ none →
    1 ≤ bsm.description.sizeDesc ∧ bsm.description.sizeDesc ≤ 8
  safety : bsm.hasSafetyExtension ≠ 0 ↔ ∃ ext ∈ exts, ext.id = 0
  special : bsm.hasSpecialExtension ≠ 0 ↔ ∃ ext ∈ exts, ext.id = 1
  supplemental : bsm.hasSupplementalExtension ≠ 0 ↔ ∃ ext ∈ exts, ext.id = 2

section Message
variable {exts : List CodedExt}

theorem lastCode_concat {α : Type} (code : CodedExt → Option α) (exts : List CodedExt)
    (ext : CodedExt) : lastCode code (exts ++ [ext]) = (code ext).or (lastCode code exts) := by
  rw [lastCode, List.reverse_append]
  simp only [List.reverse_cons, List.reverse_nil, List.nil_append, List.cons_append,
    List.findSome?_cons]
  cases code ext <;> rfl

theorem fillHeadings_of_lt {crumbs : List CodedCrumb} {m : ℕ} {old : ℕ → ℕ} {i : ℕ} (hi : i < m) :
    fillHeadings m crumbs old i = old i := by
  induction crumbs generalizing m old with
  | nil => rfl
  | cons crumb crumbs ih =>
    rw [fillHeadings, ih (by omega), Function.update_of_ne (by omega)]

theorem fillHeadings_get {crumbs : List CodedCrumb} {m : ℕ} {old : ℕ → ℕ} {i : ℕ}
    {crumb : CodedCrumb} (hi : crumbs[i]? = some crumb) :
    fillHeadings m crumbs old (m + i) = crumb.flag := by
  induction crumbs generalizing m old i with
  | nil => simp at hi
  | cons first crumbs ih =>
    cases i with
    | zero =>
      obtain rfl : first = crumb := by simpa using hi
      rw [fillHeadings, fillHeadings_of_lt (by omega)]
      exact Function.update_self _ _ _
    | succ i =>
      rw [fillHeadings, show m + (i + 1) = m + 1 + i by omega]
      exact ih (by simpa using hi)

/-- The derived fields of a message with these extensions. -/
structure Says (exts : List CodedExt) (d : Derived) : Prop where
  isStraight : d.isStraight =
    (lastCode (·.parts.radius) exts).elim 0 fun r => if r = 32767 then 1 else 0
  radius : d.radius = (lastCode (·.parts.radius) exts).elim 0 fun r => (r : ℤ) + -32767
  crumbs : ∀ crumbs, lastCode (·.parts.crumbs) exts = some crumbs →
    d.qtyCrumbs = crumbs.length ∧ (1 ≤ crumbs.length ∧ crumbs.length ≤ 23) ∧
      ∀ (i : ℕ) (crumb : CodedCrumb), crumbs[i]? = some crumb → d.headingAvailable i = crumb.flag
  descs : ∀ n, lastCode (·.parts.descs) exts = some n → d.sizeDesc = n ∧ 1 ≤ n ∧ n ≤ 8
  safety : d.hasSafety ≠ 0 ↔ ∃ ext ∈ exts, ext.id = 0
  special : d.hasSpecial ≠ 0 ↔ ∃ ext ∈ exts, ext.id = 1
  supplemental : d.hasSupplemental ≠ 0 ↔ ∃ ext ∈ exts, ext.id = 2

theorem says_nil : Says [] callocBsm.derived := by
  constructor <;> simp [lastCode, callocBsm, BsmValue.derived]

/-- One more extension. -/
theorem Says.concat {d : Derived} {ext : CodedExt} (h : Says exts d) (hr : ext.parts.Ranged) :
    Says (exts ++ [ext]) (ext.derive d) := by
  have hflag (x id : ℕ) (hx : x ≠ 0 ↔ ∃ e ∈ exts, e.id = id) :
      (if ext.id = id then 1 else x) ≠ 0 ↔ ∃ e ∈ exts ++ [ext], e.id = id := by
    simp only [List.mem_append, List.mem_singleton, or_and_right, exists_or, exists_eq_left, ← hx]
    split_ifs with hid
    · simp [hid]
    · simp [hid]
  refine ⟨?_, ?_, fun crumbs hc => ?_, fun n hn => ?_, hflag _ 0 h.safety, hflag _ 1 h.special,
    hflag _ 2 h.supplemental⟩
  · rw [lastCode_concat]
    cases hp : ext.parts.radius with
    | none => simp [CodedExt.derive, CodedParts.derive, hp, h.isStraight]
    | some r => simp [CodedExt.derive, CodedParts.derive, hp]
  · rw [lastCode_concat]
    cases hp : ext.parts.radius with
    | none => simp [CodedExt.derive, CodedParts.derive, hp, h.radius]
    | some r => simp [CodedExt.derive, CodedParts.derive, hp]
  · rw [lastCode_concat] at hc
    cases hp : ext.parts.crumbs with
    | none =>
      rw [hp, Option.none_or] at hc
      simpa [CodedExt.derive, CodedParts.derive, hp] using h.crumbs crumbs hc
    | some cs =>
      rw [hp, Option.some_or, Option.some.injEq] at hc
      subst hc
      refine ⟨by simp [CodedExt.derive, CodedParts.derive, hp], hr.crumbs cs hp,
        fun i crumb hi => ?_⟩
      have hfill : fillHeadings 0 cs d.headingAvailable (0 + i) = crumb.flag := fillHeadings_get hi
      rw [Nat.zero_add] at hfill
      simpa [CodedExt.derive, CodedParts.derive, hp] using hfill
  · rw [lastCode_concat] at hn
    cases hp : ext.parts.descs with
    | none =>
      rw [hp, Option.none_or] at hn
      simpa [CodedExt.derive, CodedParts.derive, hp] using h.descs n hn
    | some k =>
      rw [hp, Option.some_or, Option.some.injEq] at hn
      subst hn
      exact ⟨by simp [CodedExt.derive, CodedParts.derive, hp], hr.descs k hp⟩

theorem says_foldl (hr : ∀ ext ∈ exts, ext.parts.Ranged) :
    Says exts (exts.foldl (fun d ext => ext.derive d) callocBsm.derived) := by
  induction exts using List.reverseRecOn with
  | nil => exact says_nil
  | append_singleton exts ext ih =>
    rw [List.foldl_append]
    exact (ih fun e he => hr e (List.mem_append_left _ he)).concat (hr ext (by simp))

theorem derived_decodeCore (mem : ℕ → UInt8) (p : ℕ) (lastByteP : ℤ) (b : BsmValue) :
    (decodeCore mem p lastByteP b).derived = b.derived := by
  unfold decodeCore
  dsimp only
  split_ifs <;> rfl

/-- A message that is decoded without an error has the derived fields that its codes say. -/
theorem decodeAsBsm_says {mem : ℕ → UInt8} {data : ℕ} {payloadLen : ℤ} {bsm : BsmValue}
    (h : decodeAsBsm mem data payloadLen callocBsm = (0, bsm)) :
    Says (codedMessage mem data payloadLen callocBsm) bsm.derived := by
  rw [codedMessage]
  unfold decodeAsBsm at h
  dsimp only at h ⊢
  split_ifs at h with hlen hext hpart
  · exact absurd (congrArg Prod.fst h) (by norm_num)
  · rw [if_pos (Or.inr hext), ← (Prod.mk.inj h).2]
    exact says_nil
  · rw [if_neg (not_or.mpr ⟨hlen, hext⟩), if_pos hpart]
    set st : DecodeState := ⟨data + 36, 3, decodeCore mem data (data + payloadLen - 1) callocBsm⟩
    have htell := @tells_codedPartII mem (data + payloadLen - 1)
    rw [← forget_codedPartII] at h
    cases hrun : codedPartII mem (data + payloadLen - 1) st with
    | ok exts st' =>
      have hforget : forget (codedPartII mem (data + payloadLen - 1)) st = .ok () st' :=
        bind_eq_ok.mpr ⟨exts, st', hrun, rfl⟩
      rw [hforget] at h
      obtain ⟨hranged, hd⟩ := htell.ok st exts st' hrun
      have hst : stDerived st = callocBsm.derived := derived_decodeCore _ _ _ _
      rw [hst] at hd
      have hbsm : st'.bsm = bsm := congrArg Prod.snd h
      have hd : st'.bsm.derived = _ := hd
      rw [← hbsm, hd]
      exact says_foldl hranged
    | error e st' =>
      have hforget : forget (codedPartII mem (data + payloadLen - 1)) st = .error e st' :=
        bind_eq_error.mpr (Or.inl hrun)
      rw [hforget] at h
      have he : e = -1 := htell.error st e st' hrun
      have hz : e = 0 := congrArg Prod.fst h
      omega
  · rw [if_neg (not_or.mpr ⟨hlen, hext⟩), if_neg hpart, ← (Prod.mk.inj h).2, derived_decodeCore]
    exact says_nil

/-- The straight radius is compared before its offset is added. -/
theorem derivedAgree_iff {mem : ℕ → UInt8} {data : ℕ} {payloadLen : ℤ} {bsm : BsmValue}
    (h : decodeAsBsm mem data payloadLen callocBsm = (0, bsm)) :
    DerivedAgree (codedMessage mem data payloadLen callocBsm) bsm ↔
      ∀ r ∈ lastCode (·.parts.radius) (codedMessage mem data payloadLen callocBsm),
        r ≠ 32767 ∧ r ≠ 65534 := by
  have hsays := decodeAsBsm_says h
  set exts := codedMessage mem data payloadLen callocBsm
  have hstraight : (bsm.pp.isStraight ≠ 0 ↔ bsm.pp.radius = 32767) ↔
      ∀ r ∈ lastCode (·.parts.radius) exts, r ≠ 32767 ∧ r ≠ 65534 := by
    have hs : bsm.pp.isStraight = _ := hsays.isStraight
    have hr : bsm.pp.radius = _ := hsays.radius
    rw [hs, hr]
    cases lastCode (·.parts.radius) exts with
    | none => simp
    | some r =>
      simp only [Option.elim_some, Option.mem_some_iff, forall_eq']
      split_ifs <;> omega
  constructor
  · exact fun hagree => hstraight.mp hagree.straight
  · intro hcodes
    refine ⟨hstraight.mpr hcodes, fun crumbs hc => ?_, fun hc => ?_, fun hd => ?_, hsays.safety,
      hsays.special, hsays.supplemental⟩
    · obtain ⟨hqty, -, hflags⟩ := hsays.crumbs crumbs hc
      refine ⟨hqty, fun m crumb hm => ?_⟩
      have hflag : (bsm.ph.phCrumb m).headingAvailable = crumb.flag := hflags m crumb hm
      rw [hflag, CodedCrumb.flag, CodedCrumb.available]
      simp [Option.any_eq_true]
    · obtain ⟨crumbs, hc⟩ := Option.ne_none_iff_exists'.mp hc
      obtain ⟨hqty, hrange, -⟩ := hsays.crumbs crumbs hc
      have hqty : bsm.ph.qtyCrumbs = crumbs.length := hqty
      omega
    · obtain ⟨n, hn⟩ := Option.ne_none_iff_exists'.mp hd
      obtain ⟨hsize, hrange⟩ := hsays.descs n hn
      have hsize : bsm.description.sizeDesc = n := hsize
      omega

/-- A message with a path prediction; its last bytes hold the code of the radius. -/
def predictionMessage (last : List UInt8) (i : ℕ) : UInt8 :=
  ((0x40 :: List.replicate 36 0) ++ last).getD i 0

private theorem eq_of_fst {α β : Type} {p : α × β} {a : α} (h : p.1 = a) : p = (a, p.2) :=
  Prod.ext h rfl

theorem derivedAgree_iff_prediction :
    ∃ bsm, decodeAsBsm (predictionMessage [0, 0x10, 0x40, 0, 0, 0]) 0 46 callocBsm = (0, bsm) ∧
      (DerivedAgree
          (codedMessage (predictionMessage [0, 0x10, 0x40, 0, 0, 0]) 0 46 callocBsm) bsm ↔
        ∀ r ∈ lastCode (·.parts.radius)
            (codedMessage (predictionMessage [0, 0x10, 0x40, 0, 0, 0]) 0 46 callocBsm),
          r ≠ 32767 ∧ r ≠ 65534) := by
  have hret : (decodeAsBsm (predictionMessage [0, 0x10, 0x40, 0, 0, 0]) 0 46 callocBsm).1 = 0 := by
    decide +kernel
  exact ⟨_, eq_of_fst hret, derivedAgree_iff (eq_of_fst hret)⟩

/-- The code 32767, for the radius 0, is taken for a straight path. -/
theorem not_derivedAgree :
    ∃ bsm, decodeAsBsm (predictionMessage [0, 0x10, 0x47, 0xff, 0xf0, 0]) 0 46 callocBsm =
        (0, bsm) ∧
      ¬ DerivedAgree
        (codedMessage (predictionMessage [0, 0x10, 0x47, 0xff, 0xf0, 0]) 0 46 callocBsm) bsm := by
  have hret : (decodeAsBsm (predictionMessage [0, 0x10, 0x47, 0xff, 0xf0, 0]) 0 46
      callocBsm).1 = 0 := by
    decide +kernel
  have hcode : lastCode (·.parts.radius)
      (codedMessage (predictionMessage [0, 0x10, 0x47, 0xff, 0xf0, 0]) 0 46 callocBsm) =
        some 32767 := by
    decide +kernel
  obtain ⟨bsm, hbsm⟩ : ∃ bsm,
      decodeAsBsm (predictionMessage [0, 0x10, 0x47, 0xff, 0xf0, 0]) 0 46 callocBsm = (0, bsm) :=
    ⟨_, eq_of_fst hret⟩
  have hsays := decodeAsBsm_says hbsm
  have hstraight := hsays.isStraight
  have hradius := hsays.radius
  rw [hcode] at hstraight hradius
  refine ⟨bsm, hbsm, fun hagree => ?_⟩
  have hone : bsm.pp.isStraight = 1 := hstraight
  have hzero : bsm.pp.radius = 0 := hradius
  have hflag := hagree.straight
  rw [hone, hzero] at hflag
  exact absurd (hflag.mp one_ne_zero) (by decide)

end Message

end Tulux.QCoder
