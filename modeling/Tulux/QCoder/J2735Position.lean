import Tulux.QCoder.J2735RoundTrip

/-! The initial position of a path history, which is written in another order than it is read. -/
namespace Tulux.QCoder
open BitString BitParser

/-! ### Frames -/

section Frames
variable {mem : ℕ → UInt8} {n : ℕ} {lastByteP : ℤ} {Q : PathHistory → Prop}

/-- `Q` holds of the path history of the message so far. -/
def OfHistory (Q : PathHistory → Prop) (st : DecodeState) : Prop := Q st.bsm.ph

theorem keeps_getBits : Keeps (OfHistory Q) (getBits mem n) := fun _ h => h

theorem keeps_update {g : BsmValue → BsmValue} (hg : ∀ b, Q b.ph → Q (g b).ph) :
    Keeps (OfHistory Q) (update g) :=
  fun st h => hg st.bsm h

theorem keeps_field {store : ℕ → BsmValue → BsmValue} (hg : ∀ v b, Q b.ph → Q (store v b).ph) :
    Keeps (OfHistory Q) (field mem n store) :=
  keeps_getBits.bind fun v => keeps_update (hg v)

theorem keeps_isExtended : Keeps (OfHistory Q) (isExtended mem) :=
  keeps_getBits.bind fun _ => Keeps.pure ()

theorem keeps_error : Keeps (OfHistory Q) (bsmDecodeErr : Decoder Unit) := fun _ h => h

theorem keeps_skipPadding : Keeps (OfHistory Q) (skipPadding n) := by
  intro st h
  change Q (if _ then _ else _ : DecodeState).bsm.ph
  split_ifs <;> exact h

/-- The crumbs are stored next to the position. -/
theorem keeps_decodeCrumb (hg : ∀ g ph, Q ph → Q { ph with phCrumb := g }) (m : ℕ) :
    Keeps (OfHistory Q) (decodeCrumb mem m) := by
  have hset (g : PhPoint → PhPoint) (b : BsmValue) (h : Q b.ph) : Q (b.setCrumb m g).ph :=
    hg _ b.ph h
  have hfield (n : ℕ) (store : ℕ → PhPoint → PhPoint) :
      Keeps (OfHistory Q) (crumbField mem m n store) := keeps_field fun v b => hset (store v) b
  have haccy : Keeps (OfHistory Q) (do
      crumbField mem m 8 fun v crumb => { crumb with accy.semiMajor := v }
      crumbField mem m 8 fun v crumb => { crumb with accy.semiMinor := v }
      crumbField mem m 16 fun v crumb => { crumb with accy.orientation := v }) :=
    (hfield _ _).bind fun _ => (hfield _ _).bind fun _ => hfield _ _
  have hopts (opts : ℕ) :
      Keeps (OfHistory Q) (update fun b => b.setCrumb m fun crumb => { crumb with opts := opts }) :=
    keeps_update (hset _)
  have havailable : Keeps (OfHistory Q)
      (update fun b => b.setCrumb m fun crumb => { crumb with headingAvailable := 0 }) :=
    keeps_update (hset _)
  unfold decodeCrumb
  apply keeps_isExtended.bind
  intro _
  apply keeps_getBits.bind
  intro opts
  apply (hopts opts).bind
  intro _
  apply (hfield _ _).bind
  intro _
  apply (hfield _ _).bind
  intro _
  apply (hfield _ _).bind
  intro _
  apply (hfield _ _).bind
  intro _
  apply (hfield _ _).optional.bind
  intro _
  apply haccy.optional.bind
  intro _
  apply havailable.bind
  intro _
  exact (hfield _ _).optional

theorem keeps_decodeCrumbs (hg : ∀ g ph, Q ph → Q { ph with phCrumb := g }) (m n : ℕ) :
    Keeps (OfHistory Q) (decodeCrumbs mem m n) := by
  induction n generalizing m with
  | zero => exact Keeps.pure ()
  | succ n ih => exact (keeps_decodeCrumb hg m).bind fun _ => ih (m + 1)

end Frames

/-! ### A message with a path history -/

/-- The first crumb of a path, at the lowest offsets. -/
def lowestCrumb : PhPoint := ⟨0, -131072, -131072, -2048, 10, 0, ⟨0, 0, 0⟩, 0, 0⟩

/-- The path history is the only part, and it has one crumb. -/
def historyMessage (fpv : FullPositionVector) : BsmValue :=
  { callocBsm with
    hasPartII := 1
    qtyPartIIExtensions := 1
    hasSafetyExtension := 1
    vehsafeopts := 4
    phopts := 2
    ph := ⟨fpv, 0, 1, fun _ => lowestCrumb⟩ }

section Message
variable {mem : ℕ → UInt8} {pos p : ℕ} {lastByteP : ℤ} {fpv : FullPositionVector}
  {Q : PathHistory → Prop}

theorem historyMessage_core : CoreFits (historyMessage fpv) := by
  constructor <;> simp [historyMessage, callocBsm]

theorem historyMessage_partII (h : PositionFits fpv) : PartIIFits (historyMessage fpv) where
  partII := one_ne_zero
  qty := rfl
  present := one_pos
  safety _ :=
    { opts := by simp [historyMessage, Fits]
      events := fun hopt => (hopt (show u32 4 &&& 8 = 0 by decide)).elim
      pathHistory := fun _ =>
        { opts := by simp [historyMessage, Fits]
          position := fun _ => h
          gnssStatus := fun hopt => (hopt (show u32 2 &&& 1 = 0 by decide)).elim
          qtyCrumbs := by simp [historyMessage]
          crumbs := fun m _ =>
            { opts := by simp [historyMessage, lowestCrumb]
              latOffset := by simp [historyMessage, lowestCrumb, Fits]
              lonOffset := by simp [historyMessage, lowestCrumb, Fits]
              eleOffset := by simp [historyMessage, lowestCrumb, Fits]
              timeOffset := by simp [historyMessage, lowestCrumb]
              speed := fun hopt => (hopt (Nat.zero_and _)).elim
              accy := fun hopt => (hopt (Nat.zero_and _)).elim
              heading := fun hopt => (hopt (Nat.zero_and _)).elim } }
      pathPrediction := fun hopt => (hopt (show u32 4 &&& 2 = 0 by decide)).elim
      lights := fun hopt => (hopt (show u32 4 &&& 1 = 0 by decide)).elim }
  special h := absurd rfl h
  supplemental h := absurd rfl h

theorem leads_safetyFields
    (h : Leads DecodesAt (memBits mem) (pos + 5) (decodePathHistory mem)
      (pathHistoryBits (historyMessage fpv)) (OfHistory Q)) :
    Leads DecodesAt (memBits mem) pos (decodeVehicleSafetyFields mem)
      (vehicleSafetyBits (historyMessage fpv)) (OfHistory Q) := by
  have hopts : u32 (historyMessage fpv).vehsafeopts = 4 := rfl
  have hbits : vehicleSafetyBits (historyMessage fpv) =
      fieldBits 1 0 ++ (natBits 4 4 ++ pathHistoryBits (historyMessage fpv)) := by
    simp [vehicleSafetyBits, hopts, fieldBits]
  rw [hbits]
  unfold decodeVehicleSafetyFields
  apply Leads.append reads_isExtended
  apply Leads.append (reads_getBits (by norm_num) (by norm_num))
  apply Leads.after (reads_update _)
  apply Leads.after (Parses.absent (by decide))
  apply Leads.first h
  intro _
  apply Keeps.bind
  · apply Keeps.optional
    apply Keeps.bind keeps_isExtended
    intro _
    apply Keeps.bind
    · apply keeps_field
      exact fun _ _ hb => hb
    intro _
    apply keeps_field
    exact fun _ _ hb => hb
  intro _
  apply Keeps.optional
  apply Keeps.bind keeps_isExtended
  intro _
  apply keeps_field
  exact fun _ _ hb => hb

/-- What the path history leads to is kept to the end of Part II. -/
theorem leads_partII
    (hend : (pos : ℤ) + (partIIBits (historyMessage fpv)).length + 1 < 8 * (lastByteP + 1))
    (h : ∀ pos, Leads DecodesAt (memBits mem) pos (decodePathHistory mem)
      (pathHistoryBits (historyMessage fpv)) (OfHistory Q)) :
    Leads DecodesAt (memBits mem) pos (decodePartII mem lastByteP)
      (partIIBits (historyMessage fpv)) (OfHistory Q) := by
  obtain ⟨s, hs⟩ : ∃ s, s = vehicleSafetyBits (historyMessage fpv) := ⟨_, rfl⟩
  obtain ⟨hpos, hlen⟩ := length_vehicleSafetyBits (historyMessage fpv) fun _ => by
    simp [historyMessage]
  have hbits : partIIBits (historyMessage fpv) = natBits 3 0 ++ (natBits 6 0 ++
      (lenBits ((s.length + 7) / 8) ++ (s ++ padding s.length))) := by
    rw [hs]
    simp [partIIBits, historyMessage, callocBsm, extensionBits, extBits, fieldBits, u32]
  have hlens := length_lenBits ((s.length + 7) / 8)
  have hpad := length_padding s.length
  rw [← hs] at hpos hlen
  rw [hbits] at hend ⊢
  simp only [List.length_append, length_natBits] at hend
  push_cast at hend
  unfold decodePartII
  apply Leads.after
  · apply reads_checkRoom (by norm_num) (by norm_num)
    split_ifs at hlens <;> omega
  apply Leads.append (reads_getBits (by norm_num) (by norm_num))
  apply Leads.after (reads_update _)
  apply Leads.getState
  intro b st hat
  have hp8 := hat.p8
  rw [length_natBits] at hp8 ⊢
  apply Leads.after
  · apply Parses.absent
    split_ifs at hlens <;> omega
  rw [decodeExts]
  apply Leads.after
  · apply reads_checkRoom (by norm_num) (by norm_num)
    push_cast
    split_ifs at hlens <;> omega
  apply Leads.append (reads_getBits (by norm_num) (by norm_num))
  rw [length_natBits]
  apply Leads.first
  · change Leads _ _ _ (decodeVehicleSafetyExt mem lastByteP) _ _
    unfold decodeVehicleSafetyExt
    apply Leads.after (reads_update _)
    apply Leads.after
    · apply reads_checkRoom (by norm_num) (by norm_num)
      push_cast
      split_ifs at hlens <;> omega
    apply Leads.append (reads_getLen (by omega))
    apply Leads.getState
    intro b' st' hat'
    have hp8' := hat'.p8
    apply Leads.after
    · apply Parses.absent
      rw [u32]
      split_ifs at hlens <;> omega
    apply Leads.left
    apply Leads.first
    · rw [hs]
      exact leads_safetyFields (h _)
    · exact fun _ => Keeps.pure _
  · intro left
    apply Keeps.bind keeps_skipPadding
    exact fun _ => Keeps.pure ()

/-- The path history that the decoder returns. -/
theorem decodeAsBsm_leads (hv : PositionFits fpv)
    (hbits : HasAt (memBits mem) (8 * p) (bsmBits (historyMessage fpv)))
    (h : ∀ pos, Leads DecodesAt (memBits mem) pos (decodePathHistory mem)
      (pathHistoryBits (historyMessage fpv)) (OfHistory Q)) (bsm : BsmValue) :
    Q (decodeAsBsm mem p (((bsmBits (historyMessage fpv)).length + 7) / 8 : ℕ) bsm).2.ph := by
  have hend := partII_end (historyMessage_partII hv)
  have hcount := extCount_bounds (historyMessage_partII hv)
  have hpart := hbits.right
  rw [length_coreBits, if_pos (historyMessage_partII hv).partII] at hpart
  rw [decodeAsBsm_of_core historyMessage_core hbits.left (by omega),
    if_pos (historyMessage_partII hv).partII]
  have hleads : Leads DecodesAt (memBits mem) (8 * p + 293)
      (decodePartII mem
        ((p : ℤ) + (((bsmBits (historyMessage fpv)).length + 7) / 8 : ℕ) - 1))
      (partIIBits (historyMessage fpv)) (OfHistory Q) := by
    apply leads_partII _ h
    omega
  obtain ⟨st, hfinal, hst⟩ := hleads hpart _ _ (decodesAt_partII (takeCore (historyMessage fpv) bsm))
  subst hfinal
  revert hst
  unfold OfHistory finalState
  cases decodePartII mem _ _ <;> exact id

end Message

/-! ### The two orders -/

/-- The fields that always are there. -/
def positionHead (fpv : FullPositionVector) : List Bool :=
  [ fieldBits 1 0,
    fieldBits 8 fpv.opts,
    fieldBits 32 (fpv.lon - -1799999999),
    fieldBits 31 (fpv.lat - -900000000) ].flatten

/-- The optional fields that are written have the same bit everywhere. -/
structure Uniform (b : Bool) (fpv : FullPositionVector) : Prop where
  elevation : fieldBits 16 (fpv.elevation - -4096) = List.replicate 16 b
  heading : fieldBits 15 fpv.heading = List.replicate 15 b
  semiMajor : fieldBits 8 fpv.posAccuracy.semiMajor = List.replicate 8 b
  semiMinor : fieldBits 8 fpv.posAccuracy.semiMinor = List.replicate 8 b
  orientation : fieldBits 16 fpv.posAccuracy.orientation = List.replicate 16 b
  timeConfidence : fieldBits 6 fpv.timeConfidence = List.replicate 6 b
  xy : fieldBits 4 fpv.posConfidence.xy = List.replicate 4 b
  elevationConfidence : fieldBits 4 fpv.posConfidence.elevation = List.replicate 4 b
  headingConfidence :
    fieldBits 3 fpv.motionConfidenceSet.headingConfidence = List.replicate 3 b
  speedConfidence : fieldBits 3 fpv.motionConfidenceSet.speedConfidence = List.replicate 3 b
  throttleConfidence :
    fieldBits 2 fpv.motionConfidenceSet.throttleConfidence = List.replicate 2 b

section Orders
variable {b : Bool} {fpv : FullPositionVector}

theorem optional_replicate {c : Prop} [Decidable c] (n : ℕ) :
    (if c then List.replicate n b else []) = List.replicate (if c then n else 0) b := by
  split_ifs <;> rfl

/-- The length of the optional fields, of each one once and without the speed. -/
def commonLength (opts : ℕ) : ℕ :=
  (if opts &&& 0x40 ≠ 0 then 16 else 0) + (if opts &&& 0x20 ≠ 0 then 15 else 0) +
    (if opts &&& 0x8 ≠ 0 then 32 else 0) + (if opts &&& 0x4 ≠ 0 then 6 else 0) +
    (if opts &&& 0x2 ≠ 0 then 8 else 0) + (if opts &&& 0x1 ≠ 0 then 8 else 0)

theorem Uniform.written (h : Uniform b fpv) (hfits : PositionFits fpv) :
    initialPositionBits fpv = positionHead fpv ++ List.replicate
      (commonLength fpv.opts + if fpv.opts &&& 0x20 ≠ 0 then 15 else 0) b := by
  simp only [initialPositionBits, positionHead, hfits.and_opts, h.elevation, h.heading, h.semiMajor,
    h.semiMinor, h.orientation, h.timeConfidence, h.xy, h.elevationConfidence, h.headingConfidence,
    h.speedConfidence, h.throttleConfidence, List.flatten_cons, List.flatten_nil,
    List.append_nil, List.append_assoc, optional_replicate, List.replicate_append_replicate, Nat.reduceAdd]
  congr 5
  unfold commonLength
  omega

theorem Uniform.read (h : Uniform b fpv)
    (hspeed : fpv.opts &&& 0x10 ≠ 0 → fieldBits 13 fpv.speed = List.replicate 13 b) :
    positionBits fpv = positionHead fpv ++ List.replicate
      (commonLength fpv.opts + if fpv.opts &&& 0x10 ≠ 0 then 13 else 0) b := by
  have hbits : (if fpv.opts &&& 0x10 ≠ 0 then fieldBits 13 fpv.speed else []) =
      List.replicate (if fpv.opts &&& 0x10 ≠ 0 then 13 else 0) b := by
    split_ifs with hopt
    · exact hspeed hopt
    · rfl
  simp only [positionBits, positionHead, hbits, h.elevation, h.heading, h.semiMajor,
    h.semiMinor, h.orientation, h.timeConfidence, h.xy, h.elevationConfidence, h.headingConfidence,
    h.speedConfidence, h.throttleConfidence, List.flatten_cons, List.flatten_nil,
    List.append_nil, List.append_assoc, optional_replicate, List.replicate_append_replicate, Nat.reduceAdd]
  congr 5
  unfold commonLength
  omega

/-- The lowest value of every field but the speed. -/
def lowestPosition (opts : ℕ) (speed : ℤ) : FullPositionVector where
  opts := opts
  utcTime := ⟨0, 0, 0, 0, 0, 0, 0, 0⟩
  lon := -1799999999
  lat := -900000000
  elevation := -4096
  heading := 0
  speed := speed
  posAccuracy := ⟨0, 0, 0⟩
  timeConfidence := 0
  posConfidence := ⟨0, 0⟩
  motionConfidenceSet := ⟨0, 0, 0⟩

/-- The highest value of every optional field. -/
def highestPosition (opts : ℕ) : FullPositionVector where
  opts := opts
  utcTime := ⟨0, 0, 0, 0, 0, 0, 0, 0⟩
  lon := -1799999999
  lat := -900000000
  elevation := 61439
  heading := 32767
  speed := 8191
  posAccuracy := ⟨255, 255, 65535⟩
  timeConfidence := 63
  posConfidence := ⟨15, 15⟩
  motionConfidenceSet := ⟨7, 7, 3⟩

theorem lowestPosition_fits {opts : ℕ} {speed : ℤ} (h : opts < 0x80) (hspeed : Fits 13 speed) :
    PositionFits (lowestPosition opts speed) := by
  constructor <;> simp_all [lowestPosition, Fits]
  intro _
  constructor <;> simp [Fits]

theorem highestPosition_fits {opts : ℕ} (h : opts < 0x80) : PositionFits (highestPosition opts) := by
  constructor <;> simp_all [highestPosition, Fits]
  intro _
  constructor <;> simp [Fits]

theorem lowestPosition_uniform (opts : ℕ) (speed : ℤ) : Uniform false (lowestPosition opts speed) := by
  constructor <;> simp only [lowestPosition] <;> decide

theorem highestPosition_uniform (opts : ℕ) : Uniform true (highestPosition opts) := by
  constructor <;> simp only [highestPosition] <;> decide

end Orders
/-! ### What goes wrong -/

section Wrong
variable {mem : ℕ → UInt8} {pos opts : ℕ} {fpv : FullPositionVector} {Q : PathHistory → Prop}

theorem lowestCrumb_bits : crumbBits lowestCrumb = List.replicate 68 false := by
  decide

theorem pathHistoryBits_message (fpv : FullPositionVector) : pathHistoryBits (historyMessage fpv) =
    fieldBits 1 0 ++ (natBits 2 2 ++ (initialPositionBits fpv ++ List.replicate 73 false)) := by
  have hcrumbs : crumbsBits (historyMessage fpv).ph.phCrumb 0 1 = List.replicate 68 false := by
    rw [crumbsBits, crumbsBits, List.append_nil]
    exact lowestCrumb_bits
  have hopts : u32 (historyMessage fpv).phopts = 2 := rfl
  have hqty : fieldBits 5 ((historyMessage fpv).ph.qtyCrumbs - 1) = List.replicate 5 false := by
    simp only [historyMessage]
    decide
  have hone : (historyMessage fpv).ph.qtyCrumbs.toNat = 1 := rfl
  simp only [pathHistoryBits, fieldBits, hopts] at hqty ⊢
  rw [hqty, hone, hcrumbs]
  simp [historyMessage]

/-- A speed that is not written is read from the bits behind, which are zero. -/
theorem leads_speed (hopts : opts < 0x80) (hspeed : Has opts 0x10) :
    Leads DecodesAt (memBits mem) pos (decodePathHistory mem)
      (pathHistoryBits (historyMessage (lowestPosition opts 8191)))
      (OfHistory fun ph => ph.initialPosition.speed = 0) := by
  have hfits := lowestPosition_fits hopts (show Fits 13 0 by simp [Fits])
  have hwritten : initialPositionBits (lowestPosition opts 8191) =
      positionHead (lowestPosition opts 8191) ++
        List.replicate (commonLength opts + if opts &&& 0x20 ≠ 0 then 15 else 0) false :=
    (lowestPosition_uniform opts 8191).written (lowestPosition_fits hopts (by simp [Fits]))
  have hread : positionBits (lowestPosition opts 0) = positionHead (lowestPosition opts 8191) ++
      List.replicate (commonLength opts + if opts &&& 0x10 ≠ 0 then 13 else 0) false := by
    apply (lowestPosition_uniform opts 0).read
    intro _
    simp only [lowestPosition]
    decide
  obtain ⟨n, hn⟩ : ∃ n, (commonLength opts + if opts &&& 0x20 ≠ 0 then 15 else 0) + 73 =
      (commonLength opts + if opts &&& 0x10 ≠ 0 then 13 else 0) + n :=
    ⟨_, (Nat.add_sub_cancel' (by split_ifs <;> omega)).symm⟩
  have hbits : initialPositionBits (lowestPosition opts 8191) ++ List.replicate 73 false =
      positionBits (lowestPosition opts 0) ++ List.replicate n false := by
    rw [hwritten, hread, List.append_assoc, List.append_assoc, List.replicate_append_replicate,
      List.replicate_append_replicate, hn]
  rw [pathHistoryBits_message, hbits]
  unfold decodePathHistory
  apply Leads.append reads_isExtended
  apply Leads.append (reads_getBits (by norm_num) (by norm_num))
  apply Leads.after (reads_update _)
  apply Leads.left
  apply Leads.first
  · rw [BitParser.optional, if_pos (by decide)]
    apply Leads.of_parses (reads_initialPosition hfits)
    intro x n st hat
    rw [OfHistory, hat.bsm]
    exact if_pos hspeed
  intro _
  apply Keeps.bind
  · apply Keeps.optional
    apply keeps_field
    exact fun _ _ hb => hb
  intro _
  apply Keeps.bind keeps_getBits
  intro count
  apply Keeps.bind
  · apply keeps_update
    exact fun _ hb => hb
  intro _
  apply Keeps.bind (Keeps.optional keeps_error)
  intro _
  exact keeps_decodeCrumbs (fun _ _ hb => hb) _ _

/-- The second heading is read as a number of crumbs that is too large. -/
theorem leads_heading (hopts : opts < 0x80) (hheading : Has opts 0x20) (hspeed : ¬ Has opts 0x10) :
    Leads DecodesAt (memBits mem) pos (decodePathHistory mem)
      (pathHistoryBits (historyMessage (highestPosition opts)))
      (OfHistory fun ph => ph.qtyCrumbs = 32) := by
  have hfits := highestPosition_fits hopts
  have hwritten : initialPositionBits (highestPosition opts) =
      positionHead (highestPosition opts) ++
        List.replicate (commonLength opts + if opts &&& 0x20 ≠ 0 then 15 else 0) true :=
    (highestPosition_uniform opts).written hfits
  have hread : positionBits (highestPosition opts) = positionHead (highestPosition opts) ++
      List.replicate (commonLength opts + if opts &&& 0x10 ≠ 0 then 13 else 0) true :=
    (highestPosition_uniform opts).read fun hopt => absurd hopt hspeed
  have hbits : initialPositionBits (highestPosition opts) =
      positionBits (highestPosition opts) ++ (natBits 5 31 ++ List.replicate 10 true) := by
    have hones : natBits 5 31 = List.replicate 5 true := by decide
    rw [hwritten, hread, hones, List.append_assoc, List.replicate_append_replicate,
      List.replicate_append_replicate, if_pos hheading, if_neg hspeed]
  rw [pathHistoryBits_message, hbits, List.append_assoc, List.append_assoc]
  unfold decodePathHistory
  apply Leads.append reads_isExtended
  apply Leads.append (reads_getBits (by norm_num) (by norm_num))
  apply Leads.after (reads_update _)
  apply Leads.append
  · rw [BitParser.optional, if_pos (by decide)]
    exact reads_initialPosition hfits
  apply Leads.after (Parses.absent (by decide))
  apply Leads.append (reads_getBits (by norm_num) (by norm_num))
  rw [← List.nil_append (List.replicate 10 true ++ _)]
  apply Leads.left
  apply Leads.first
  · apply Leads.of_parses (reads_update _)
    intro x n st hat
    rw [OfHistory, hat.bsm]
    rfl
  intro _
  apply Keeps.bind (Keeps.optional keeps_error)
  intro _
  exact keeps_decodeCrumbs (fun _ _ hb => hb) _ _

end Wrong

/-! ### Which positions are restored -/

/-- The path history has an initial position with the options `opts`. -/
def HasPosition (v : BsmValue) (opts : ℕ) : Prop :=
  v.hasSafetyExtension ≠ 0 ∧ Has (u32 v.vehsafeopts) 0x4 ∧ Has (u32 v.phopts) 0x2 ∧
    v.ph.initialPosition.opts = opts

/-- Every message with these options is restored. -/
def PositionsRestored (opts : ℕ) : Prop :=
  ∀ (block : ℕ) (bp : Abuf) (v bsm : BsmValue), 0 < block → MessageBuffer bp → CoreFits v →
    PartIIFits v → v.hasSpecialExtension = 0 → HasPosition v opts →
      decodeBsmAt (encodeAsBsm block v bp).mem (encodeAsBsm block v bp).data bsm =
        (0, takePartII v (takeCore v bsm))

theorem historyMessage_position (fpv : FullPositionVector) :
    HasPosition (historyMessage fpv) fpv.opts :=
  ⟨one_ne_zero, show Has 4 0x4 by decide, show Has 2 0x2 by decide, rfl⟩

/-- The path history that comes back for a message. -/
theorem historyMessage_decode {fpv : FullPositionVector} (hfits : PositionFits fpv)
    {Q : PathHistory → Prop}
    (h : ∀ mem pos, Leads DecodesAt (memBits mem) pos (decodePathHistory mem)
      (pathHistoryBits (historyMessage fpv)) (OfHistory Q)) :
    Q (decodeBsmAt (encodeAsBsm 5000 (historyMessage fpv) sampleBuffer).mem
      (encodeAsBsm 5000 (historyMessage fpv) sampleBuffer).data callocBsm).2.ph := by
  obtain ⟨hdecode, hbits⟩ := decodeBsmAt_eq sampleBuffer_fresh (show 0 < 5000 by norm_num)
    (fun _ => (historyMessage_partII hfits).encodable) callocBsm
  rw [hdecode]
  exact decodeAsBsm_leads hfits hbits (h _) callocBsm

theorem historyMessage_restored (fpv : FullPositionVector) (b : BsmValue) :
    (takePartII (historyMessage fpv) b).ph = takePathHistory 2 (historyMessage fpv).ph b.ph := by
  simp [takePartII, takeSafety, takeIf, historyMessage, callocBsm, u32]

/-- The positions are restored that have neither a heading nor a speed. -/
theorem positionsRestored_iff {opts : ℕ} (h : opts < 0x80) :
    PositionsRestored opts ↔ ¬ Has opts 0x20 ∧ ¬ Has opts 0x10 := by
  constructor
  · intro hrestored
    have hback (fpv : FullPositionVector) (hfits : PositionFits fpv) (hopts : fpv.opts = opts) :=
      hrestored 5000 sampleBuffer (historyMessage fpv) callocBsm (by norm_num) sampleBuffer_fresh
        historyMessage_core (historyMessage_partII hfits) rfl
        (hopts ▸ historyMessage_position fpv)
    have hspeed : ¬ Has opts 0x10 := by
      intro hspeed
      have hfits := lowestPosition_fits h (show Fits 13 8191 by simp [Fits])
      have hzero := historyMessage_decode hfits fun _ _ => leads_speed h hspeed
      rw [hback _ hfits rfl, historyMessage_restored] at hzero
      have hkept : (takePosition (lowestPosition opts 8191)
          (takeCore (historyMessage (lowestPosition opts 8191)) callocBsm).ph.initialPosition).speed =
            8191 := if_pos hspeed
      exact absurd (hkept.symm.trans hzero) (by norm_num)
    refine ⟨?_, hspeed⟩
    intro hheading
    have hfits := highestPosition_fits h
    have hqty := historyMessage_decode hfits fun _ _ => leads_heading h hheading hspeed
    rw [hback _ hfits rfl, historyMessage_restored] at hqty
    change (1 : ℤ) = 32 at hqty
    norm_num at hqty
  · rintro ⟨hheading, hspeed⟩ block bp v bsm hblock hbp hcore hv hspecial hposition
    obtain ⟨hsafety, -, -, hopts⟩ := hposition
    obtain ⟨hdecode, hbits⟩ := decodeBsmAt_eq hbp hblock (fun _ => hv.encodable) bsm
    have hplain : PlainPosition v := by
      intro _ _
      rw [hopts]
      exact ⟨hheading, hspeed⟩
    rw [hdecode, decodeAsBsm_of_hasAt hcore hv (fun _ => hplain) (fun hends => hsafety hends.1) hbits,
      (takePartII_asEncoded_iff _).mpr fun hne => absurd hspecial hne]

/-- A position with an elevation only. -/
theorem positionsRestored_elevation : PositionsRestored 0x40 :=
  (positionsRestored_iff (by norm_num)).mpr (by decide)

/-- A heading of 327.67 degrees comes back as a path of 32 crumbs. -/
theorem heading_as_crumbs :
    let v := historyMessage (highestPosition 0x20)
    MessageBuffer sampleBuffer ∧ CoreFits v ∧ PartIIFits v ∧ HasPosition v 0x20 ∧
      v.ph.qtyCrumbs = 1 ∧
      (decodeBsmAt (encodeAsBsm 5000 v sampleBuffer).mem
        (encodeAsBsm 5000 v sampleBuffer).data callocBsm).2.ph.qtyCrumbs = 32 := by
  have hfits := highestPosition_fits (show 0x20 < 0x80 by norm_num)
  have hqty := historyMessage_decode hfits fun _ _ =>
    leads_heading (by norm_num) (by decide) (by decide)
  exact ⟨sampleBuffer_fresh, historyMessage_core, historyMessage_partII hfits,
    historyMessage_position _, rfl, hqty⟩


end Tulux.QCoder
