import Tulux.QCoder.J2735Core
import Tulux.QCoder.J2735Exts

/-! The decoder restores the message that the encoder wrote. -/
namespace Tulux.QCoder
open BitString BitParser

/-! ### Decoding a whole message -/

/-- `decode_as_bsm` behind the message id and the length of a message at `data`. -/
def decodeBsmAt (mem : ℕ → UInt8) (data : ℕ) (bsm : BsmValue) : ℤ × BsmValue :=
  let (len, p8, _) := parseAsnVariableLengthEnc mem (data + 2) 8
  decodeAsBsm mem p8 len bsm

/-- The only extension is a supplemental one that ends without vehicle data. -/
def EndsInLastByte (v : BsmValue) : Prop :=
  v.hasSafetyExtension = 0 ∧ v.hasSpecialExtension = 0 ∧ EndsWithoutVehicleData v

instance (v : BsmValue) : Decidable (EndsInLastByte v) := inferInstanceAs (Decidable (_ ∧ _ ∧ _))

theorem PartIIFits.encodable {v : BsmValue} (h : PartIIFits v) : Encodable v where
  crumbs hsafety hopt := ((h.safety hsafety).pathHistory hopt).qtyCrumbs.2
  descs hspecial hopt hlist := (((h.special hspecial).description hopt).descs hlist).2.1
  supplemental hsupp := (h.supplemental hsupp).handled

/-- An extension ends two bits before a byte. -/
theorem length_extsBits_mod (v : BsmValue) : (extsBits v).length % 8 = 6 * extCount v % 8 := by
  have hsafety := length_extensionBits_mod 0 (vehicleSafetyBits v)
  have hspecial := length_extensionBits_mod 1 (specialBits v)
  have hsupp := length_extensionBits_mod 2 (supplementalBits v)
  simp only [extsBits, extCount, List.length_append, apply_ite List.length, List.length_nil]
  split_ifs <;> omega

theorem extCount_bounds {v : BsmValue} (h : PartIIFits v) : 1 ≤ extCount v ∧ extCount v ≤ 3 := by
  have hcount := h.count.2
  have hle : extCount v ≤ 3 := by
    unfold extCount
    split_ifs <;> omega
  omega

section Decode
variable {mem : ℕ → UInt8} {p : ℕ} {v : BsmValue}

/-- There is no extension of the message itself. -/
theorem not_extended (h : CoreFits v) (hbits : HasAt (memBits mem) (8 * p) (coreBits v)) :
    ntohl mem p &&& 0x80000000 = 0 := by
  have hlen : (coreWords v).length = 9 := rfl
  have hword : ntohl mem p = (coreWords v)[0] :=
    ntohl_of_hasAt (hasAt_words (i := 0) hbits.left (by omega)) (coreWords_lt h _ (List.getElem_mem _))
  have hmsg := h.msgCount
  have hid := h.id
  rw [hword, wordFlag _ 31 (by rfl)]
  simp only [coreWords_eq h, List.getElem_cons_zero]
  split_ifs <;> omega

/-- The core data comes first, then Part II behind it. -/
theorem decodeAsBsm_of_core {len : ℕ} (h : CoreFits v)
    (hbits : HasAt (memBits mem) (8 * p) (coreBits v)) (hlen : 37 ≤ len) (bsm : BsmValue) :
    decodeAsBsm mem p len bsm =
      if v.hasPartII ≠ 0 then
        match decodePartII mem (p + (len : ℤ) - 1)
          { p8 := p + 36, bitsLeft := 3, bsm := takeCore v bsm } with
        | .ok _ st => (0, st.bsm)
        | .error result st => (result, st.bsm)
      else (0, takeCore v bsm) := by
  have hflag : (takeCore v bsm).hasPartII ≠ 0 ↔ v.hasPartII ≠ 0 := by
    change (if v.hasPartII ≠ 0 then 0x40000000 else 0) ≠ 0 ↔ _
    split_ifs with hpart <;> simp [hpart]
  unfold decodeAsBsm
  dsimp only
  rw [if_neg (by omega), if_neg (not_not_intro (not_extended h hbits)),
    decodeCore_of_hasAt bsm h hbits (by omega)]
  exact if_congr hflag rfl rfl

/-- Part II begins at the last bits of the core data. -/
theorem decodesAt_partII (b : BsmValue) :
    DecodesAt (8 * p + 293) b { p8 := p + 36, bitsLeft := 3, bsm := b } := by
  constructor
  · dsimp only
    omega
  · dsimp only
    omega
  · rfl

/-- The message ends before the last byte does. -/
theorem partII_end (h : PartIIFits v) : ((bsmBits v).length + 7) / 8 * 8 =
    293 + (partIIBits v).length + 2 * extCount v := by
  have hmod := length_extsBits_mod v
  have hcount := extCount_bounds h
  rw [bsmBits, List.length_append, length_coreBits, if_pos h.partII, partIIBits_eq,
    List.length_append, length_fieldBits]
  omega

/-- The message with everything that is encoded of `v`. -/
theorem decodeAsBsm_of_hasAt (hcore : CoreFits v) (hv : PartIIFits v)
    (hplain : v.hasSafetyExtension ≠ 0 → PlainPosition v) (hlast : ¬ EndsInLastByte v)
    (hbits : HasAt (memBits mem) (8 * p) (bsmBits v)) (bsm : BsmValue) :
    decodeAsBsm mem p (((bsmBits v).length + 7) / 8 : ℕ) bsm =
      (0, takePartII (asEncoded v) (takeCore v bsm)) := by
  have hend := partII_end hv
  have hcount := extCount_bounds hv
  have hpart := hbits.right
  rw [length_coreBits, if_pos hv.partII] at hpart
  have hlen := partIIBits_eq v
  rw [decodeAsBsm_of_core hcore hbits.left (by omega), if_pos hv.partII]
  have hreads : Reads mem (8 * p + 293)
      (decodePartII mem ((p : ℤ) + (((bsmBits v).length + 7) / 8 : ℕ) - 1)) (partIIBits v) ()
      (takePartII (asEncoded v)) := by
    apply reads_partII hv hplain
    · omega
    · intro hsupp hnone
      have htwo : 2 ≤ extCount v := by
        by_contra hone
        apply hlast
        unfold extCount at hone
        refine ⟨?_, ?_, hnone⟩ <;> split_ifs at hone <;> omega
      omega
  obtain ⟨st, hrun, hat⟩ := hreads hpart _ _ (decodesAt_partII (takeCore v bsm))
  rw [hrun, ← hat.bsm]

/-- The check before the vehicle data fails. -/
theorem decodeAsBsm_of_ends (hcore : CoreFits v) (hv : PartIIFits v) (hlast : EndsInLastByte v)
    (hbits : HasAt (memBits mem) (8 * p) (bsmBits v)) (bsm : BsmValue) :
    (decodeAsBsm mem p (((bsmBits v).length + 7) / 8 : ℕ) bsm).1 = -1 := by
  obtain ⟨hsafety, hspecial, hnone⟩ := hlast
  have hend := partII_end hv
  have hcount := extCount_bounds hv
  have hsupp : v.hasSupplementalExtension ≠ 0 := by
    intro hsupp
    simp [extCount, hsafety, hspecial, hsupp] at hcount
  have hone : extCount v = 1 := by simp [extCount, hsafety, hspecial, hsupp]
  have hpart := hbits.right
  rw [length_coreBits, if_pos hv.partII] at hpart
  rw [decodeAsBsm_of_core hcore hbits.left (by omega), if_pos hv.partII]
  have hstops : Stops DecodesAt (memBits mem) (8 * p + 293)
      (decodePartII mem ((p : ℤ) + (((bsmBits v).length + 7) / 8 : ℕ) - 1)) (partIIBits v) (-1) := by
    apply stops_partII hv hsafety hspecial hsupp hnone
    omega
  obtain ⟨st, hrun⟩ := hstops hpart _ _ (decodesAt_partII (takeCore v bsm))
  rw [hrun]

end Decode

/-! ### Encoding and decoding -/

section Buffer
variable {block : ℕ} {bp : Abuf} {v : BsmValue}

/-- Behind the message id and the length the decoder finds the bits of the message. -/
theorem decodeBsmAt_eq (h : MessageBuffer bp) (hblock : 0 < block)
    (hv : v.hasPartII ≠ 0 → Encodable v) (bsm : BsmValue) :
    let out := encodeAsBsm block v bp
    decodeBsmAt out.mem out.data bsm =
        decodeAsBsm out.mem bp.data (((bsmBits v).length + 7) / 8 : ℕ) bsm ∧
      HasAt (memBits out.mem) (8 * bp.data) (bsmBits v) := by
  intro out
  obtain ⟨hholds, hstart, hspace, -, -⟩ := h.encodeAsBsm hblock hv
  have hdata : out.start = 8 * out.data := by
    rw [Abuf.start, hspace]
    omega
  have hlen : (bsmBits v).length ≤ 9686 := by
    rw [bsmBits, List.length_append, length_coreBits]
    split_ifs with hpart
    · have hle := length_partIIBits (hv hpart)
      omega
    · simp
  have hbits := hholds.bits.right
  rw [length_natBits] at hbits
  change HasAt (memBits out.mem) (out.start + 16) _ at hbits
  change out.start + 16 + _ = _ at hstart
  have hparse := parseAsnVariableLengthEnc_of_hasAt hbits.left (by omega)
  rw [hstart, hdata, show (8 * out.data + 16) / 8 = out.data + 2 by omega,
    show 8 - (8 * out.data + 16) % 8 = 8 by omega, show 8 * bp.data / 8 = bp.data by omega] at hparse
  have hright := hbits.right
  rw [hstart] at hright
  exact ⟨by rw [decodeBsmAt, hparse], hright⟩

/-- A fresh buffer. -/
def sampleBuffer : Abuf := abufAlloc 1 2000 64

theorem sampleBuffer_fresh : MessageBuffer sampleBuffer where
  holds := holds_alloc 1 2000 64
  headspace := rfl
  bitsLeft := rfl
  head := one_pos
  headroom := by simp [sampleBuffer, abufAlloc]
  tailroom := by simp [sampleBuffer, abufAlloc]

theorem takeSupplemental_alerts (v b : BsmValue) :
    (takeSupplemental v b).vehicleAlerts = b.vehicleAlerts := by
  by_cases hprobe : Has (u32 v.suppvehopts) 0x20
  · simp only [takeSupplemental, takeIf, hprobe, if_true, not_false_eq_true, ne_eq]
    rfl
  · simp only [takeSupplemental, takeIf, hprobe, if_false]

theorem takeSpecial_rights (v b : BsmValue) (hdetails : Has (u32 v.specvehopts) 0x4)
    (hevents : Has v.edopts 0x2) : (takeSpecial v b).vehicleAlerts.events.sspRights =
      v.vehicleAlerts.events.sspRights := by
  simp only [takeSpecial, takeAlerts, takeIf, if_pos hdetails, if_pos hevents]

/-- Only the rights of a privileged event are not taken over. -/
theorem takeSpecial_asEncoded {v : BsmValue} (b : BsmValue) (hrights : Has (u32 v.specvehopts) 0x4 →
      Has v.edopts 0x2 → v.vehicleAlerts.events.sspRights = v.vehicleAlerts.sspRights) :
    takeSpecial (asEncoded v) b = takeSpecial v b := by
  have hopts : (asEncoded v).specvehopts = v.specvehopts := rfl
  have hedopts : (asEncoded v).edopts = v.edopts := rfl
  by_cases hdetails : Has (u32 v.specvehopts) 0x4
  · by_cases hevents : Has v.edopts 0x2
    · have hsame : asEncoded v = v :=
        congrArg (fun x => { v with vehicleAlerts.events.sspRights := x })
          (hrights hdetails hevents).symm
      rw [hsame]
    · simp only [takeSpecial, takeAlerts, takeIf, hopts, hedopts, if_neg hevents]
      rfl
  · simp only [takeSpecial, takeIf, hopts, if_neg hdetails]
    rfl

/-- Part II from the special extension on. -/
def takeFromSpecial (v w b : BsmValue) : BsmValue :=
  let b := takeIf (v.hasSpecialExtension ≠ 0) (takeSpecial w b) b
  takeIf (v.hasSupplementalExtension ≠ 0) (takeSupplemental v b) b

theorem takeFromSpecial_alerts (v w b : BsmValue) (hspecial : v.hasSpecialExtension ≠ 0) :
    (takeFromSpecial v w b).vehicleAlerts = (takeSpecial w b).vehicleAlerts := by
  unfold takeFromSpecial takeIf
  rw [if_pos hspecial]
  split_ifs
  · exact takeSupplemental_alerts v _
  · rfl

theorem takePartII_asEncoded_iff (b : BsmValue) :
    takePartII (asEncoded v) b = takePartII v b ↔ (v.hasSpecialExtension ≠ 0 →
      Has (u32 v.specvehopts) 0x4 → Has v.edopts 0x2 →
        v.vehicleAlerts.events.sspRights = v.vehicleAlerts.sspRights) := by
  obtain ⟨c, hc⟩ : ∃ c, c = takeIf (v.hasSafetyExtension ≠ 0)
    (takeSafety v { b with qtyPartIIExtensions := v.qtyPartIIExtensions })
    { b with qtyPartIIExtensions := v.qtyPartIIExtensions } := ⟨_, rfl⟩
  have hencoded : takePartII (asEncoded v) b = takeFromSpecial v (asEncoded v) c := by
    rw [hc]
    rfl
  have hv : takePartII v b = takeFromSpecial v v c := by
    rw [hc]
    rfl
  rw [hencoded, hv]
  constructor
  · intro hsame hspecial hdetails hevents
    have halerts := congrArg (fun b : BsmValue => b.vehicleAlerts.events.sspRights) hsame
    rw [takeFromSpecial_alerts _ _ _ hspecial, takeFromSpecial_alerts _ _ _ hspecial,
      takeSpecial_rights v c hdetails hevents,
      takeSpecial_rights (asEncoded v) c hdetails hevents] at halerts
    exact halerts.symm
  · intro hrights
    unfold takeFromSpecial
    by_cases hspecial : v.hasSpecialExtension = 0
    · simp only [takeIf, hspecial, ne_eq, not_true, if_false]
    · rw [takeSpecial_asEncoded c (hrights hspecial)]

/-- Everything that is encoded of Part II is restored, unless the check before the vehicle data
looks for a byte behind the last one. There is no heading and no speed at the initial position. -/
theorem partII_restored_iff (h : MessageBuffer bp) (hblock : 0 < block) (hcore : CoreFits v)
    (hv : PartIIFits v) (hspecial : v.hasSpecialExtension = 0)
    (hplain : v.hasSafetyExtension ≠ 0 → PlainPosition v) (bsm : BsmValue) :
    decodeBsmAt (encodeAsBsm block v bp).mem (encodeAsBsm block v bp).data bsm =
        (0, takePartII v (takeCore v bsm)) ↔
      ¬ (v.hasSafetyExtension = 0 ∧ EndsWithoutVehicleData v) := by
  obtain ⟨hdecode, hbits⟩ := decodeBsmAt_eq h hblock (fun _ => hv.encodable) bsm
  rw [hdecode]
  constructor
  · rintro hrestored ⟨hsafety, hnone⟩
    have hresult := decodeAsBsm_of_ends hcore hv ⟨hsafety, hspecial, hnone⟩ hbits bsm
    rw [hrestored] at hresult
    norm_num at hresult
  · intro hlast
    rw [decodeAsBsm_of_hasAt hcore hv hplain (fun hends => hlast ⟨hends.1, hends.2.2⟩) hbits bsm,
      (takePartII_asEncoded_iff _).mpr fun hne => absurd hspecial hne]

/-- A message with a supplemental extension that has some options. -/
def supplementalMessage (opts : ℤ) : BsmValue :=
  { callocBsm with
    hasPartII := 1
    qtyPartIIExtensions := 1
    hasSupplementalExtension := 1
    suppvehopts := opts }

theorem supplementalMessage_core (opts : ℤ) : CoreFits (supplementalMessage opts) := by
  constructor <;> simp [supplementalMessage, callocBsm]

theorem supplementalMessage_partII {opts : ℤ} (h : Fits 10 opts) (h' : HandledOptions (u32 opts)) :
    PartIIFits (supplementalMessage opts) where
  partII := one_ne_zero
  qty := rfl
  present := one_pos
  safety h := absurd rfl h
  special h := absurd rfl h
  supplemental _ :=
    { opts := h
      handled := h'
      vehicleClass := fun _ => by simp [supplementalMessage, callocBsm, Fits]
      vehicleData := fun _ =>
        { options := by simp [supplementalMessage, callocBsm]
          height := fun hopt => (hopt (Nat.zero_and _)).elim
          bumpers := fun hopt => (hopt (Nat.zero_and _)).elim
          mass := fun hopt => (hopt (Nat.zero_and _)).elim
          trailerWeight := fun hopt => (hopt (Nat.zero_and _)).elim }
      weatherProbe := fun _ =>
        { opts := by simp [supplementalMessage, callocBsm]
          airTemp := fun hopt => (hopt (Nat.zero_and _)).elim
          airPressure := fun hopt => (hopt (Nat.zero_and _)).elim
          wipers := fun hopt => (hopt (Nat.zero_and _)).elim } }

/-- The vehicle class alone. -/
theorem partII_restored_class :
    let out := encodeAsBsm 5000 (supplementalMessage 0x200) sampleBuffer
    decodeBsmAt out.mem out.data callocBsm =
      (0, takePartII (supplementalMessage 0x200) (takeCore (supplementalMessage 0x200) callocBsm)) :=
  (partII_restored_iff sampleBuffer_fresh (by norm_num) (supplementalMessage_core 0x200)
    (supplementalMessage_partII (by decide) ⟨by decide, by decide, by decide⟩) rfl
    (fun h => absurd rfl h) callocBsm).mpr (by decide)

/-- Vehicle data without its fields, alone in the message. -/
theorem vehicleData_refused :
    let v := supplementalMessage 0x80
    let out := encodeAsBsm 5000 v sampleBuffer
    MessageBuffer sampleBuffer ∧ CoreFits v ∧ PartIIFits v ∧ v.hasSpecialExtension = 0 ∧
      v.hasSafetyExtension = 0 ∧ (decodeBsmAt out.mem out.data callocBsm).1 = -1 := by
  have hv : PartIIFits (supplementalMessage 0x80) :=
    supplementalMessage_partII (by decide) ⟨by decide, by decide, by decide⟩
  have hcore := supplementalMessage_core 0x80
  obtain ⟨hdecode, hbits⟩ := decodeBsmAt_eq sampleBuffer_fresh (show 0 < 5000 by norm_num)
    (fun _ => hv.encodable) callocBsm
  refine ⟨sampleBuffer_fresh, hcore, hv, rfl, rfl, ?_⟩
  rw [hdecode]
  exact decodeAsBsm_of_ends hcore hv ⟨rfl, rfl, by decide⟩ hbits callocBsm

/-- A message with a privileged event. -/
def specialMessage (rights : ℤ) : BsmValue :=
  { callocBsm with
    hasPartII := 1
    qtyPartIIExtensions := 1
    hasSpecialExtension := 1
    specvehopts := 4
    edopts := 2
    vehicleAlerts := ⟨0, 0, 0, 0, ⟨rights, 0⟩, 0⟩ }

theorem specialMessage_core (rights : ℤ) : CoreFits (specialMessage rights) := by
  constructor <;> simp [specialMessage, callocBsm]

theorem specialMessage_partII {rights : ℤ} (h : Fits 5 rights) :
    PartIIFits (specialMessage rights) where
  partII := one_ne_zero
  qty := rfl
  present := one_pos
  safety h := absurd rfl h
  special _ :=
    { opts := by simp [specialMessage, Fits]
      details := fun _ =>
        { opts := by simp [specialMessage]
          sspRights := by simp [specialMessage, Fits]
          sirenUse := by simp [specialMessage, Fits]
          lightsUse := by simp [specialMessage, Fits]
          multi := by simp [specialMessage, Fits]
          events := fun _ => ⟨h, by simp [specialMessage, Fits]⟩
          responseType := fun _ => by simp [specialMessage, Fits] }
      description := fun hopt => (hopt (show u32 4 &&& 2 = 0 by decide)).elim
      trailer := not_not_intro (show u32 4 &&& 1 = 0 by decide) }
  supplemental h := absurd rfl h

end Buffer

end Tulux.QCoder
