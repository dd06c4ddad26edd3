import Tulux.QCoder.J2735Safety
import Tulux.QCoder.J2735Vehicle

/-! The decoder reads back Part II: the extensions in order, each with its id, its length and its
padding. -/
namespace Tulux.QCoder
open BitString BitParser

section Exts
variable {mem : ℕ → UInt8} {pos n : ℕ} {lastByteP : ℤ} {v : BsmValue} {s t : List Bool}
  {g h : BsmValue → BsmValue}

/-! ### Around the fields -/

theorem reads_getLen {len : ℕ} (hlen : len < 0x2000) :
    Reads mem pos (getLen mem) (lenBits len) len id := by
  intro hbits x st hat
  have hread := parseAsnVariableLengthEnc_of_hasAt hbits hlen
  refine ⟨{ st with
    p8 := (pos + (lenBits len).length) / 8
    bitsLeft := 8 - (pos + (lenBits len).length) % 8 }, ?_, rfl, rfl, hat.bsm⟩
  rw [getLen, hat.p8, hat.bitsLeft, hread]

theorem reads_thenReturn {α : Type} {p : Decoder Unit} (hp : Reads mem pos p s () g) (a : α) :
    Reads mem pos (do p; pure a) s a g := by
  rw [← List.append_nil s]
  apply Parses.to
  · apply Parses.append hp
    exact Parses.pure a
  · intro b
    rfl

/-- The bits left before the fields are returned. -/
theorem reads_saveBitsLeft {p : Decoder Unit} (hp : Reads mem pos p s () g) :
    Reads mem pos (do let st ← get; p; pure st.bitsLeft) s (8 - pos % 8) g := by
  apply Parses.getState
  intro b st hat
  rw [← hat.bitsLeft]
  exact reads_thenReturn hp st.bitsLeft

/-- The padding goes back to the offset of the fields. -/
theorem reads_skipPadding : Reads mem (pos + n) (skipPadding (8 - pos % 8)) (padding n) () id := by
  intro _ b st hat
  obtain ⟨hp8, hleft, hbsm⟩ := hat
  rw [length_padding]
  unfold skipPadding
  by_cases hle : 8 - pos % 8 ≤ 8 - (pos + n) % 8
  · refine ⟨{ st with bitsLeft := 8 - pos % 8 }, ?_, ?_, ?_, hbsm⟩
    · change EStateM.Result.ok _ (if _ then _ else _) = _
      rw [hleft, if_pos (by omega), if_pos hle]
    · dsimp only
      omega
    · dsimp only
      omega
  · refine ⟨{ st with p8 := st.p8 + 1, bitsLeft := 8 - pos % 8 }, ?_, ?_, ?_, hbsm⟩
    · change EStateM.Result.ok _ (if _ then _ else _) = _
      rw [hleft, if_pos (by omega), if_neg hle]
    · dsimp only
      omega
    · dsimp only
      omega

/-- An extension behind its id, without its padding. -/
def ReadsExt (mem : ℕ → UInt8) (pos : ℕ) (p : Decoder ℕ) (s : List Bool)
    (g : BsmValue → BsmValue) : Prop :=
  Reads mem pos p (lenBits ((s.length + 7) / 8) ++ s)
    (8 - (pos + (lenBits ((s.length + 7) / 8)).length) % 8) g

/-- The loop reads the id, the extension and its padding. -/
theorem reads_decodeExts_succ {id : ℕ} (hid : id < 2 ^ 6)
    (hext : ReadsExt mem (pos + 6) (decodeExt mem lastByteP id) s g)
    (hrest : Reads mem (pos + (extensionBits id s).length) (decodeExts mem lastByteP n) t () h)
    (hroom : (pos : ℤ) + 8 < 8 * (lastByteP + 1)) :
    Reads mem pos (decodeExts mem lastByteP (n + 1)) (extensionBits id s ++ t) () (h ∘ g) := by
  have hbits : extensionBits id s ++ t = natBits 6 id ++ (lenBits ((s.length + 7) / 8) ++ s ++
      (padding s.length ++ t)) := by
    simp only [extensionBits, extBits, List.append_assoc]
  rw [hbits, decodeExts]
  apply Parses.to
  · apply Parses.after (reads_checkRoom (by norm_num) (by norm_num) (by omega))
    apply Parses.append (reads_getBits (by norm_num) hid)
    rw [length_natBits]
    apply Parses.append hext
    apply Parses.append
    · rw [List.length_append, ← Nat.add_assoc]
      exact reads_skipPadding
    · have hpos : pos + 6 + (lenBits ((s.length + 7) / 8) ++ s).length + (padding s.length).length =
          pos + (extensionBits id s).length := by
        simp only [extensionBits, extBits, List.length_append, length_natBits]
        omega
      rw [hpos]
      exact hrest
  · intro b
    rfl

/-! ### The extensions -/

theorem ReadsExt.intro {p : Decoder Unit} {n : ℕ} (flag : BsmValue → BsmValue)
    (hn : n = (lenBits ((s.length + 7) / 8)).length) (hlen : s.length ≤ 3100)
    (hp : Reads mem (pos + n) p s () g) :
    ReadsExt mem pos (do update flag; let _ ← getLen mem; let st ← get; p; pure st.bitsLeft) s
      (g ∘ flag) := by
  cases hn
  apply Parses.to
  · apply Parses.after (reads_update flag)
    apply Parses.append (reads_getLen (by omega))
    exact reads_saveBitsLeft hp
  · intro b
    rfl

theorem reads_safetyExt (hv : SafetyFits v) (hplain : PlainPosition v)
    (hend : (pos : ℤ) + (extBits (vehicleSafetyBits v)).length ≤ 8 * (lastByteP + 1)) :
    ReadsExt mem pos (decodeVehicleSafetyExt mem lastByteP) (vehicleSafetyBits v) (takeSafety v) := by
  obtain ⟨hpos, hlen⟩ := length_vehicleSafetyBits v fun hopt => (hv.pathHistory hopt).qtyCrumbs.2
  have hbits := length_extBits (vehicleSafetyBits v)
  have hlens := length_lenBits (((vehicleSafetyBits v).length + 7) / 8)
  apply Parses.to
  · unfold decodeVehicleSafetyExt
    apply Parses.after (reads_update _)
    apply Parses.after
    · apply reads_checkRoom (by norm_num) (by norm_num)
      split_ifs at hbits <;> omega
    apply Parses.append (reads_getLen (by omega))
    apply Parses.getState
    intro b st hat
    have hp8 := hat.p8
    rw [← hat.bitsLeft]
    apply Parses.after
    · apply Parses.absent
      rw [u32]
      split_ifs at hbits hlens <;> omega
    exact reads_thenReturn (reads_safetyFields hv hplain) st.bitsLeft
  · intro b
    rfl

theorem reads_specialExt (hv : SpecialFits v)
    (hend : (pos : ℤ) + (extBits (specialBits v)).length + 1 < 8 * (lastByteP + 1)) :
    ReadsExt mem pos (decodeSpecialExt mem lastByteP) (specialBits v)
      (takeSpecial (asEncoded v)) := by
  obtain ⟨hpos, hlen⟩ := length_specialBits v
    fun hopt hlist => ((hv.description hopt).descs hlist).2.1
  have hbits := length_extBits (specialBits v)
  have hlens := length_lenBits (((specialBits v).length + 7) / 8)
  apply Parses.to
  · apply ReadsExt.intro _ rfl hlen
    apply reads_specialFields hv
    split_ifs at hbits hlens <;> omega
  · intro b
    rfl

theorem reads_supplementalExt (hv : SupplementalFits v)
    (hend : (pos : ℤ) + (extBits (supplementalBits v)).length + 1 < 8 * (lastByteP + 1))
    (hlast : EndsWithoutVehicleData v →
      (pos : ℤ) + (extBits (supplementalBits v)).length + 3 < 8 * (lastByteP + 1)) :
    ReadsExt mem pos (decodeSupplementalExt mem lastByteP) (supplementalBits v)
      (takeSupplemental v) := by
  obtain ⟨hpos, hlen⟩ := length_supplementalBits v
  have hbits := length_extBits (supplementalBits v)
  have hlens := length_lenBits (((supplementalBits v).length + 7) / 8)
  apply Parses.to
  · apply ReadsExt.intro _ rfl hlen
    apply reads_supplementalFields hv
    · split_ifs at hbits hlens <;> omega
    · intro hnone
      have hend' := hlast hnone
      split_ifs at hbits hlens <;> omega
  · intro b
    by_cases hprobe : Has (u32 v.suppvehopts) 0x20
    · simp only [Function.comp_apply, takeSupplemental, takeIf, hprobe, if_true,
        not_false_eq_true, ne_eq]
      rfl
    · simp only [Function.comp_apply, takeSupplemental, takeIf, hprobe, if_false]

/-! ### Part II -/

/-- An extension that may be there, before the others. -/
theorem reads_optionalExt {c : Prop} [Decidable c] {i : ℕ} (hi : i < 2 ^ 6)
    (hext : c → ReadsExt mem (pos + 6) (decodeExt mem lastByteP i) s g)
    (hroom : c → (pos : ℤ) + 8 < 8 * (lastByteP + 1))
    (hrest : Reads mem (pos + (if c then extensionBits i s else []).length)
      (decodeExts mem lastByteP n) t () h) :
    Reads mem pos (decodeExts mem lastByteP ((if c then 1 else 0) + n))
      ((if c then extensionBits i s else []) ++ t) () (h ∘ if c then g else id) := by
  by_cases hc : c
  · simp only [if_pos hc] at hrest ⊢
    rw [Nat.add_comm]
    exact reads_decodeExts_succ hi (hext hc) hrest (hroom hc)
  · simp only [if_neg hc, List.length_nil, Nat.add_zero, Nat.zero_add] at hrest ⊢
    exact hrest

/-- The extensions behind the number of extensions. -/
def extsBits (v : BsmValue) : List Bool :=
  (if v.hasSafetyExtension ≠ 0 then extensionBits 0 (vehicleSafetyBits v) else []) ++
    ((if v.hasSpecialExtension ≠ 0 then extensionBits 1 (specialBits v) else []) ++
      ((if v.hasSupplementalExtension ≠ 0 then extensionBits 2 (supplementalBits v) else []) ++ []))

def extCount (v : BsmValue) : ℕ :=
  (if v.hasSafetyExtension ≠ 0 then 1 else 0) + ((if v.hasSpecialExtension ≠ 0 then 1 else 0) +
    ((if v.hasSupplementalExtension ≠ 0 then 1 else 0) + 0))

/-- With two bits before the end, or with four where the last check needs them. -/
theorem reads_decodeExts (hv : PartIIFits v) (hplain : v.hasSafetyExtension ≠ 0 → PlainPosition v)
    (hend : (pos : ℤ) + (extsBits v).length + 1 < 8 * (lastByteP + 1))
    (hlast : v.hasSupplementalExtension ≠ 0 → EndsWithoutVehicleData v →
      (pos : ℤ) + (extsBits v).length + 3 < 8 * (lastByteP + 1)) :
    Reads mem pos (decodeExts mem lastByteP (extCount v)) (extsBits v) ()
      ((if v.hasSupplementalExtension ≠ 0 then takeSupplemental v else id) ∘
        (if v.hasSpecialExtension ≠ 0 then takeSpecial (asEncoded v) else id) ∘
          if v.hasSafetyExtension ≠ 0 then takeSafety v else id) := by
  have hone (i : ℕ) (s : List Bool) : 14 ≤ (extensionBits i s).length := by
    rw [length_extensionBits, length_extBits]
    split_ifs <;> omega
  simp only [extsBits, List.length_append, List.length_nil] at hend hlast
  apply Parses.to
  · unfold extCount extsBits
    apply reads_optionalExt (by norm_num)
    · intro hsafety
      apply reads_safetyExt (hv.safety hsafety) (hplain hsafety)
      rw [if_pos hsafety, length_extensionBits] at hend
      push_cast at hend ⊢
      omega
    · intro hsafety
      have hlen := hone 0 (vehicleSafetyBits v)
      rw [if_pos hsafety] at hend
      omega
    apply reads_optionalExt (by norm_num)
    · intro hspecial
      apply reads_specialExt (hv.special hspecial)
      rw [if_pos hspecial, length_extensionBits] at hend
      push_cast at hend ⊢
      omega
    · intro hspecial
      have hlen := hone 1 (specialBits v)
      rw [if_pos hspecial] at hend
      push_cast at hend ⊢
      omega
    apply reads_optionalExt (by norm_num)
    · intro hsupp
      apply reads_supplementalExt (hv.supplemental hsupp)
      · rw [if_pos hsupp, length_extensionBits] at hend
        push_cast at hend ⊢
        omega
      · intro hnone
        have hlast' := hlast hsupp hnone
        rw [if_pos hsupp, length_extensionBits] at hlast'
        push_cast at hlast' ⊢
        omega
    · intro hsupp
      have hlen := hone 2 (supplementalBits v)
      rw [if_pos hsupp] at hend
      push_cast at hend ⊢
      omega
    exact Parses.pure ()
  · intro b
    rfl

theorem extsBits_le (v : BsmValue) (h : PartIIFits v) : 14 ≤ (extsBits v).length := by
  have hqty := h.qty
  have hpresent := h.present
  simp only [extsBits, List.length_append, apply_ite List.length, length_extensionBits,
    length_extBits, List.length_nil]
  split_ifs at hqty ⊢ <;> omega

/-- The only extension ends in the last byte but for two bits. -/
theorem stops_decodeExts (hv : PartIIFits v) (hsafety : v.hasSafetyExtension = 0)
    (hspecial : v.hasSpecialExtension = 0) (hsupp : v.hasSupplementalExtension ≠ 0)
    (hnone : EndsWithoutVehicleData v)
    (hend : 8 * (lastByteP + 1) = (pos : ℤ) + (extsBits v).length + 2) :
    Stops DecodesAt (memBits mem) pos (decodeExts mem lastByteP (extCount v)) (extsBits v) (-1) := by
  have hcount : extCount v = 1 := by simp [extCount, hsafety, hspecial, hsupp]
  have hbits : extsBits v = natBits 6 2 ++ (lenBits (((supplementalBits v).length + 7) / 8) ++
      (supplementalBits v ++ padding (supplementalBits v).length)) := by
    simp [extsBits, hsafety, hspecial, hsupp, extensionBits, extBits]
  have hlen : (supplementalBits v).length % 8 = 0 ∧ 16 ≤ (supplementalBits v).length ∧
      (supplementalBits v).length ≤ 24 := by
    rw [length_supplementalBits_of_ends hnone]
    split_ifs <;> omega
  have hpad := length_padding (supplementalBits v).length
  rw [hbits] at hend ⊢
  simp only [List.length_append, length_natBits] at hend
  rw [hcount, decodeExts]
  apply Stops.after
  · apply reads_checkRoom (by norm_num) (by norm_num)
    omega
  apply Stops.append (reads_getBits (by norm_num) (by norm_num))
  apply Stops.first
  rw [length_natBits]
  change Stops _ _ _ (decodeSupplementalExt mem lastByteP) _ _
  unfold decodeSupplementalExt
  apply Stops.after (reads_update _)
  apply Stops.append (reads_getLen (by omega))
  apply Stops.getState
  intro b st hat
  apply Stops.first
  apply Stops.left
  apply stops_supplementalFields (hv.supplemental hsupp) hnone
  omega

theorem partIIBits_eq (v : BsmValue) :
    partIIBits v = fieldBits 3 (v.qtyPartIIExtensions - 1) ++ extsBits v := by
  simp only [partIIBits, extsBits, List.append_assoc, List.append_nil]

/-- The number of extensions in its field. -/
theorem PartIIFits.count (h : PartIIFits v) :
    Fits 3 (v.qtyPartIIExtensions - 1) ∧ u32 (v.qtyPartIIExtensions - 1) + 1 = extCount v := by
  have hqty := h.qty
  have hpresent := h.present
  rw [u32, Fits, extCount]
  split_ifs at hqty ⊢ <;> omega

theorem reads_partII (hv : PartIIFits v) (hplain : v.hasSafetyExtension ≠ 0 → PlainPosition v)
    (hend : (pos : ℤ) + (partIIBits v).length + 1 < 8 * (lastByteP + 1))
    (hlast : v.hasSupplementalExtension ≠ 0 → EndsWithoutVehicleData v →
      (pos : ℤ) + (partIIBits v).length + 3 < 8 * (lastByteP + 1)) :
    Reads mem pos (decodePartII mem lastByteP) (partIIBits v) () (takePartII (asEncoded v)) := by
  obtain ⟨hqty, hcount⟩ := hv.count
  have hlen := extsBits_le v hv
  have hvalue := (u32_of_lt hqty (by norm_num)).1
  rw [partIIBits_eq] at hend hlast ⊢
  rw [List.length_append, length_fieldBits] at hend hlast
  apply Parses.to
  · unfold decodePartII
    apply Parses.after
    · apply reads_checkRoom (by norm_num) (by norm_num)
      push_cast at hend
      omega
    apply Parses.append (reads_intOpts hqty (by norm_num))
    apply Parses.after (reads_update _)
    apply Parses.getState
    intro b st hat
    have hp8 := hat.p8
    rw [length_fieldBits] at hp8 ⊢
    apply Parses.after
    · apply Parses.absent
      push_cast at hend
      omega
    rw [hcount]
    apply reads_decodeExts hv hplain
    · push_cast at hend ⊢
      omega
    · intro hsupp hnone
      have hend' := hlast hsupp hnone
      push_cast at hend' ⊢
      omega
  · intro b
    have hstored : (u32 (v.qtyPartIIExtensions - 1) : ℤ) + 1 = v.qtyPartIIExtensions := by omega
    by_cases hsafety : v.hasSafetyExtension = 0 <;> by_cases hspecial : v.hasSpecialExtension = 0 <;>
      by_cases hsupp : v.hasSupplementalExtension = 0 <;>
      simp only [Function.comp_apply, hsafety, hspecial, hsupp, hstored, takePartII, takeIf,
        asEncoded, if_true, if_false, not_true, not_false_eq_true, ne_eq, id] <;> rfl

theorem stops_partII (hv : PartIIFits v) (hsafety : v.hasSafetyExtension = 0)
    (hspecial : v.hasSpecialExtension = 0) (hsupp : v.hasSupplementalExtension ≠ 0)
    (hnone : EndsWithoutVehicleData v)
    (hend : 8 * (lastByteP + 1) = (pos : ℤ) + (partIIBits v).length + 2) :
    Stops DecodesAt (memBits mem) pos (decodePartII mem lastByteP) (partIIBits v) (-1) := by
  obtain ⟨hqty, hcount⟩ := hv.count
  have hlen := extsBits_le v hv
  rw [partIIBits_eq] at hend ⊢
  rw [List.length_append, length_fieldBits] at hend
  push_cast at hend
  unfold decodePartII
  apply Stops.after
  · apply reads_checkRoom (by norm_num) (by norm_num)
    omega
  apply Stops.append (reads_intOpts hqty (by norm_num))
  apply Stops.after (reads_update _)
  apply Stops.getState
  intro b st hat
  have hp8 := hat.p8
  rw [length_fieldBits] at hp8 ⊢
  apply Stops.after
  · apply Parses.absent
    omega
  rw [hcount]
  apply stops_decodeExts hv hsafety hspecial hsupp hnone
  push_cast
  omega

end Exts

end Tulux.QCoder
