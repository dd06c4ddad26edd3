import Tulux.QCoder.J2735Derived
import Tulux.QCoder.J2735Sizes

/-! Where the decoder of `j2735.c` goes on behind a Part II extension. An extension is an open type:
its length in bytes is announced in front of it. -/
namespace Tulux.QCoder
open BitString BitParser Outcome Cursor

/-! ### Extensions with their places -/

/-- The first bit behind the length of an extension, its length, and the bit that is read next
behind the extension. -/
structure OpenType where
  first : ℕ
  len : ℤ
  stop : ℕ
deriving DecidableEq

/-- The decoder goes on `8 * len` bits behind the first one. -/
def SkippedByLength (t : OpenType) : Prop := (t.stop : ℤ) = t.first + 8 * t.len

instance (t : OpenType) : Decidable (SkippedByLength t) := inferInstanceAs (Decidable (_ = _))

def DecodeState.position (st : DecodeState) : ℕ := 8 * st.p8 + (8 - st.bitsLeft)

section Decoder
variable (mem : ℕ → UInt8)

/-- The bits left behind the length, the first bit there and the length. -/
def openSafetyExt (lastByteP : ℤ) : Decoder (ℕ × ℕ × ℤ) := do
  update fun b => { b with hasSafetyExtension := 1 }
  checkRoom lastByteP 8
  let sequenceLen ← getLen mem
  let st ← get
  optional (lastByteP - st.p8 < u32 (sequenceLen - 1)) bsmDecodeErr
  decodeVehicleSafetyFields mem
  pure (st.bitsLeft, st.position, sequenceLen)

def openSpecialExt (lastByteP : ℤ) : Decoder (ℕ × ℕ × ℤ) := do
  update fun b => { b with hasSpecialExtension := 1 }
  let sequenceLen ← getLen mem
  let st ← get
  decodeSpecialFields mem lastByteP
  pure (st.bitsLeft, st.position, sequenceLen)

def openSupplementalExt (lastByteP : ℤ) : Decoder (ℕ × ℕ × ℤ) := do
  update fun b => { b with hasSupplementalExtension := 1 }
  let sequenceLen ← getLen mem
  let st ← get
  decodeSupplementalFields mem lastByteP
  pure (st.bitsLeft, st.position, sequenceLen)

def openExt (lastByteP : ℤ) : ℕ → Decoder (ℕ × ℕ × ℤ)
  | 0 => openSafetyExt mem lastByteP
  | 1 => openSpecialExt mem lastByteP
  | 2 => openSupplementalExt mem lastByteP
  | _ => bsmDecodeErr

def openExts (lastByteP : ℤ) : ℕ → Decoder (List OpenType)
  | 0 => pure []
  | n + 1 => do
    checkRoom lastByteP 6
    let id ← getBits mem 6
    let (saveBitsLeft, first, len) ← openExt mem lastByteP id
    skipPadding saveBitsLeft
    let st ← get
    let exts ← openExts lastByteP n
    pure (⟨first, len, st.position⟩ :: exts)

def openPartII (lastByteP : ℤ) : Decoder (List OpenType) := do
  checkRoom lastByteP 3
  let qty ← getBits mem 3
  update fun b => { b with qtyPartIIExtensions := qty + 1 }
  let st ← get
  optional (lastByteP ≤ st.p8) bsmDecodeErr
  openExts mem lastByteP (qty + 1)

/-! ### The decoder reads the same -/

variable {mem} {lastByteP : ℤ}

theorem fst_openExt (id : ℕ) :
    Prod.fst <$> openExt mem lastByteP id = decodeExt mem lastByteP id := by
  match id with
  | 0 => simp only [openExt, decodeExt, openSafetyExt, decodeVehicleSafetyExt, map_bind, map_pure]
  | 1 => simp only [openExt, decodeExt, openSpecialExt, decodeSpecialExt, map_bind, map_pure]
  | 2 =>
    simp only [openExt, decodeExt, openSupplementalExt, decodeSupplementalExt, map_bind, map_pure]
  | n + 3 => rfl

theorem forget_openExts (n : ℕ) :
    forget (openExts mem lastByteP n) = decodeExts mem lastByteP n := by
  induction n with
  | zero => exact forget_pure []
  | succ n ih =>
    simp only [openExts, decodeExts, forget_bind, forget_pure, bind_pure_forget, ih,
      ← fst_openExt, bind_map_left]
    rfl

theorem forget_openPartII : forget (openPartII mem lastByteP) = decodePartII mem lastByteP := by
  simp only [openPartII, decodePartII, forget_bind, forget_openExts]

end Decoder

/-- The extensions of a message that is decoded without an error. -/
def openTypes (mem : ℕ → UInt8) (data : ℕ) (payloadLen : ℤ) (bsm : BsmValue) : List OpenType :=
  let lastByteP : ℤ := data + payloadLen - 1
  if payloadLen < 31 ∨ ntohl mem data &&& 0x80000000 ≠ 0 then []
  else
    let bsm := decodeCore mem data lastByteP bsm
    if bsm.hasPartII ≠ 0 then
      match openPartII mem lastByteP { p8 := data + 36, bitsLeft := 3, bsm := bsm } with
      | .ok exts _ => exts
      | .error _ _ => []
    else []

/-! ### Lengths -/

section Lengths
variable (mem : ℕ → UInt8)

/-- The length that is announced at `pos` and the number of its bits; there are no fragments. -/
def announced (pos : ℕ) : Option (ℕ × ℕ) :=
  let byte := bitsAt mem pos 8
  if byte < 0x80 then some (byte, 8)
  else if byte < 0xc0 then some ((byte - 0x80) * 256 + bitsAt mem (pos + 8) 8, 16)
  else none

/-- What the decoder takes from `pos`: a length and the first bit behind it. -/
def Announces (pos : ℕ) (v : ℤ) (first : ℕ) : Prop :=
  match announced mem pos with
  | some (len, bits) => v = len ∧ first = pos + bits
  | none => v = -1

variable {mem} {pos : ℕ} {st st' : DecodeState} {v : ℤ}

/-- From 0xc0 on the first byte is the one of a fragment. -/
theorem parse_fragment (h : 0xc0 ≤ bitsAt mem pos 8) :
    ∃ first, parseAsnVariableLengthEnc mem (pos / 8) (8 - pos % 8) =
      (-1, first / 8, 8 - first % 8) := by
  have hflags : ∀ b < 256, 0xc0 ≤ b → b &&& 0x80 ≠ 0 ∧ b &&& 0x40 ≠ 0 := by decide +kernel
  obtain ⟨hflag, hfrag⟩ := hflags _ (bitsAt_lt mem pos 8) h
  unfold parseAsnVariableLengthEnc
  by_cases haligned : pos % 8 = 0
  · have hbyte : (mem (pos / 8)).toNat = bitsAt mem pos 8 :=
      byte_of_hasAt (hasAt_window _ _ _) haligned (bitsAt_lt mem pos 8)
    refine ⟨pos, ?_⟩
    rw [if_pos (by omega), hbyte, if_pos hflag, if_pos hfrag]
  · have hread : getNextNBits mem (pos / 8) 8 (8 - pos % 8) =
        (bitsAt mem pos 8, (pos + 8) / 8, 8 - (pos + 8) % 8) :=
      getNextNBits_eq mem pos (by norm_num)
    refine ⟨pos + 8, ?_⟩
    rw [if_neg (by omega), hread]
    dsimp only
    rw [if_neg (by omega), if_pos hfrag]

theorem getLen_announces (hat : CursorAt pos st) (h : getLen mem st = .ok v st') :
    ∃ first, CursorAt first st' ∧ Announces mem pos v first := by
  have hlt := bitsAt_lt mem pos 8
  rw [getLen, hat.1, hat.2] at h
  unfold Announces announced
  dsimp only
  by_cases hshort : bitsAt mem pos 8 < 0x80
  · rw [parse_short_of_hasAt (hasAt_window _ _ _) hshort] at h
    cases h
    rw [if_pos hshort]
    exact ⟨pos + 8, ⟨rfl, rfl⟩, rfl, rfl⟩
  by_cases hlong : bitsAt mem pos 8 < 0xc0
  · have hboth : HasAt (memBits mem) pos
        (natBits 16 (0x8000 + ((bitsAt mem pos 8 - 0x80) * 256 + bitsAt mem (pos + 8) 8))) := by
      rw [show 0x8000 + ((bitsAt mem pos 8 - 0x80) * 256 + bitsAt mem (pos + 8) 8) =
        bitsAt mem pos (8 + 8) by rw [bitsAt_add]; omega]
      exact hasAt_window _ _ _
    have hnext := bitsAt_lt mem (pos + 8) 8
    rw [parse_long_of_hasAt hboth (by omega)] at h
    cases h
    rw [if_neg hshort, if_pos hlong]
    exact ⟨pos + 16, ⟨rfl, rfl⟩, rfl, rfl⟩
  · obtain ⟨first, hparse⟩ := parse_fragment (Nat.not_lt.mp hlong)
    rw [hparse] at h
    cases h
    rw [if_neg hshort, if_neg hlong]
    exact ⟨first, ⟨rfl, rfl⟩, rfl⟩

end Lengths

/-! ### Where the decoder goes on -/

section Skipping
variable {mem : ℕ → UInt8} {lastByteP v : ℤ} {pos first save : ℕ} {st st' : DecodeState}

theorem CursorAt.position (hat : CursorAt pos st) : st.position = pos := by
  rw [DecodeState.position, hat.1, hat.2]
  omega

/-- A length, a check of it and the fields. -/
theorem opened_spec {check : ℤ → DecodeState → Decoder Unit} {fields : Decoder Unit}
    {size : ℕ → ℕ} (hcheck : ∀ len st, Covers CursorAt (check len st) fun _ => 0)
    (hfields : Covers CursorAt fields size) (hat : CursorAt pos st)
    (h : (do
      let len ← getLen mem
      let st ← get
      check len st
      fields
      pure (st.bitsLeft, st.position, len)) st = .ok (save, first, v) st') :
    save = 8 - first % 8 ∧ Announces mem pos v first ∧ CursorAt (first + size first) st' := by
  obtain ⟨len, st₁, hlen, h₁⟩ := bind_eq_ok.mp h
  obtain ⟨q, hat₁, hannounces⟩ := getLen_announces hat hlen
  obtain ⟨_, _, hget, h₂⟩ := bind_eq_ok.mp h₁
  cases hget
  obtain ⟨_, st₂, hcheck', h₃⟩ := bind_eq_ok.mp h₂
  obtain ⟨-, hat₂⟩ := hcheck _ _ _ _ _ _ hat₁ hcheck'
  obtain ⟨_, st₃, hrun, hret⟩ := bind_eq_ok.mp h₃
  obtain ⟨-, hat₃⟩ := hfields _ _ _ _ hat₂ hrun
  cases hret
  rw [hat₁.position]
  exact ⟨hat₁.2, hannounces, hat₃⟩

/-- The cursor moves over the known fields, whatever the length is. -/
theorem openExt_spec {id : ℕ} (hat : CursorAt pos st)
    (h : openExt mem lastByteP id st = .ok (save, first, v) st') :
    save = 8 - first % 8 ∧ Announces mem pos v first ∧
      CursorAt (first + contentSize mem id first) st' := by
  match id with
  | 0 =>
    obtain ⟨_, st₁, hmark, h₁⟩ := bind_eq_ok.mp h
    obtain ⟨-, hat₁⟩ := covers_update _ _ _ _ _ hat hmark
    obtain ⟨_, st₂, hroom, h₂⟩ := bind_eq_ok.mp h₁
    obtain ⟨-, hat₂⟩ := covers_checkRoom _ _ _ _ _ _ hat₁ hroom
    exact opened_spec (fun _ _ => covers_unless _) covers_safety hat₂ h₂
  | 1 =>
    obtain ⟨_, st₁, hmark, h₁⟩ := bind_eq_ok.mp h
    obtain ⟨-, hat₁⟩ := covers_update _ _ _ _ _ hat hmark
    exact opened_spec (fun _ _ => covers_pure) (covers_special lastByteP) hat₁ h₁
  | 2 =>
    obtain ⟨_, st₁, hmark, h₁⟩ := bind_eq_ok.mp h
    obtain ⟨-, hat₁⟩ := covers_update _ _ _ _ _ hat hmark
    exact opened_spec (fun _ _ => covers_pure) (covers_supplemental lastByteP) hat₁ h₁
  | n + 3 => cases h

/-- The rest of the last byte is padding, counted from the first bit. -/
theorem skipPadding_spec {n : ℕ} (hat : CursorAt (first + n) st)
    (h : skipPadding (8 - first % 8) st = .ok () st') :
    CursorAt (first + 8 * ((n + 7) / 8)) st' := by
  obtain ⟨hp8, hleft⟩ := hat
  cases h
  unfold CursorAt
  dsimp only
  rw [if_pos (by omega)]
  by_cases hle : 8 - first % 8 ≤ st.bitsLeft
  · rw [if_pos hle]
    dsimp only
    omega
  · rw [if_neg hle]
    dsimp only
    omega

end Skipping

/-! ### Announced and known -/

section Sized
variable (mem : ℕ → UInt8)

/-- Each of the `n` extensions from `pos` on is announced with the bytes that its known fields
fill. -/
def WellSized : ℕ → ℕ → Prop
  | 0, _ => True
  | n + 1, pos =>
    match announced mem (pos + 6) with
    | some (len, bits) =>
      len = (contentSize mem (bitsAt mem pos 6) (pos + 6 + bits) + 7) / 8 ∧
        WellSized n (pos + 6 + bits + 8 * len)
    | none => False

/-- The extensions of a message without the extension marker that has a Part II. -/
def ExtensionsSized (data : ℕ) : Prop :=
  bitsAt mem (8 * data) 1 = 0 → bitsAt mem (8 * data + 1) 1 ≠ 0 →
    WellSized mem (bitsAt mem (8 * data + 293) 3 + 1) (8 * data + 296)

variable {mem} {lastByteP : ℤ} {pos : ℕ} {st st' : DecodeState} {exts : List OpenType}

/-- What one extension does: the decoder goes on at the next byte, counted from the first bit. -/
theorem openExts_succ {n : ℕ} (hat : CursorAt pos st)
    (h : openExts mem lastByteP (n + 1) st = .ok exts st') :
    ∃ first v rest st₁, exts =
        ⟨first, v, first + 8 * ((contentSize mem (bitsAt mem pos 6) first + 7) / 8)⟩ :: rest ∧
      Announces mem (pos + 6) v first ∧
      CursorAt (first + 8 * ((contentSize mem (bitsAt mem pos 6) first + 7) / 8)) st₁ ∧
      openExts mem lastByteP n st₁ = .ok rest st' := by
  obtain ⟨_, st₁, hroom, h₁⟩ := bind_eq_ok.mp h
  obtain ⟨-, hat₁⟩ := covers_checkRoom _ _ _ _ _ _ hat hroom
  obtain ⟨id, st₂, hid, h₂⟩ := bind_eq_ok.mp h₁
  obtain ⟨rfl, hat₂⟩ := spans_getBits mem (by norm_num) _ _ _ _ hat₁ hid
  obtain ⟨⟨save, first, v⟩, st₃, hext, h₃⟩ := bind_eq_ok.mp h₂
  obtain ⟨rfl, hannounces, hat₃⟩ := openExt_spec hat₂ hext
  obtain ⟨_, st₄, hskip, h₄⟩ := bind_eq_ok.mp h₃
  have hat₄ := skipPadding_spec hat₃ hskip
  obtain ⟨_, _, hget, h₅⟩ := bind_eq_ok.mp h₄
  cases hget
  obtain ⟨rest, st₅, hrest, hret⟩ := bind_eq_ok.mp h₅
  cases hret
  rw [hat₄.position]
  exact ⟨first, v, rest, st₄, rfl, hannounces, hat₄, hrest⟩

/-- Over all extensions: when the lengths are those of the known fields, each is skipped by its
length, and the first one that is not is not skipped so. -/
theorem openExts_skipped {n : ℕ} (hat : CursorAt pos st)
    (h : openExts mem lastByteP n st = .ok exts st') :
    (∀ t ∈ exts, SkippedByLength t) ↔ WellSized mem n pos := by
  induction n generalizing pos st exts with
  | zero =>
    cases h
    simp [WellSized]
  | succ n ih =>
    obtain ⟨first, v, rest, st₁, rfl, hannounces, hat₁, hrest⟩ := openExts_succ hat h
    rw [List.forall_mem_cons, WellSized, ih hat₁ hrest]
    unfold Announces at hannounces
    rcases hlen : announced mem (pos + 6) with _ | ⟨len, bits⟩
    · rw [hlen] at hannounces
      have hv : v = -1 := hannounces
      simp only [SkippedByLength, iff_false, not_and]
      omega
    · rw [hlen] at hannounces
      obtain ⟨rfl, rfl⟩ : v = len ∧ first = pos + 6 + bits := hannounces
      simp only [SkippedByLength]
      constructor
      · rintro ⟨hskipped, hsized⟩
        have hlen' : len = (contentSize mem (bitsAt mem pos 6) (pos + 6 + bits) + 7) / 8 := by omega
        rw [← hlen'] at hsized
        exact ⟨hlen', hsized⟩
      · rintro ⟨hlen', hsized⟩
        rw [← hlen']
        exact ⟨by omega, hsized⟩

theorem openPartII_skipped (hat : CursorAt pos st)
    (h : openPartII mem lastByteP st = .ok exts st') :
    (∀ t ∈ exts, SkippedByLength t) ↔ WellSized mem (bitsAt mem pos 3 + 1) (pos + 3) := by
  obtain ⟨_, st₁, hroom, h₁⟩ := bind_eq_ok.mp h
  obtain ⟨-, hat₁⟩ := covers_checkRoom _ _ _ _ _ _ hat hroom
  obtain ⟨qty, st₂, hqty, h₂⟩ := bind_eq_ok.mp h₁
  obtain ⟨rfl, hat₂⟩ := spans_getBits mem (by norm_num) _ _ _ _ hat₁ hqty
  obtain ⟨_, st₃, hstore, h₃⟩ := bind_eq_ok.mp h₂
  obtain ⟨-, hat₃⟩ := covers_update _ _ _ _ _ hat₂ hstore
  obtain ⟨_, _, hget, h₄⟩ := bind_eq_ok.mp h₃
  cases hget
  obtain ⟨_, st₄, hcheck, h₅⟩ := bind_eq_ok.mp h₄
  obtain ⟨-, hat₄⟩ := covers_unless _ _ _ _ _ hat₃ hcheck
  exact openExts_skipped hat₄ h₅

theorem openPartII_error {e : ℤ} (h : openPartII mem lastByteP st = .error e st') : e = -1 := by
  have hforget : forget (codedPartII mem lastByteP) st = .error e st' := by
    rw [forget_codedPartII, ← forget_openPartII]
    exact bind_eq_error.mpr (Or.inl h)
  rcases bind_eq_error.mp hforget with hcoded | ⟨_, _, -, hreturn⟩
  · exact tells_codedPartII.error _ _ _ hcoded
  · cases hreturn

end Sized

/-! ### Messages -/

section Message
variable {mem : ℕ → UInt8} {data : ℕ} {payloadLen : ℤ} {bsm : BsmValue}

theorem hasPartII_bitsAt (mem : ℕ → UInt8) (p : ℕ) (lastByteP : ℤ) (b : BsmValue) :
    (decodeCore mem p lastByteP b).hasPartII = bitsAt mem (8 * p + 1) 1 * 0x40000000 := by
  have hflag : ntohl mem (p + 4 * 0) &&& 0x40000000 = bitsAt mem (8 * p + 1) 1 * 0x40000000 :=
    wordFlag_bitsAt 1 30 (by rfl) (by rfl) (by rfl)
  rw [← hflag]
  unfold decodeCore
  dsimp only
  split_ifs
  · rfl
  · rfl

/-- The extensions of an accepted message are skipped by their lengths exactly when these are the
ones of the known fields. -/
theorem openTypes_skipped_iff (h : (decodeAsBsm mem data payloadLen bsm).1 = 0) :
    (∀ t ∈ openTypes mem data payloadLen bsm, SkippedByLength t) ↔ ExtensionsSized mem data := by
  have hextended := coreExtended_bitsAt mem data
  have hpartII := hasPartII_bitsAt mem data (data + payloadLen - 1) bsm
  unfold decodeAsBsm at h
  unfold openTypes ExtensionsSized
  dsimp only at h ⊢
  by_cases hshort : payloadLen < 31
  · rw [if_pos hshort] at h
    exact absurd h (by norm_num)
  rw [if_neg hshort] at h
  by_cases hmarker : ntohl mem data &&& 0x80000000 ≠ 0
  · rw [if_pos (Or.inr hmarker)]
    simp only [List.not_mem_nil, false_imp_iff, implies_true, true_iff]
    omega
  rw [if_neg hmarker] at h
  rw [if_neg (by tauto)]
  by_cases hflag : (decodeCore mem data (data + payloadLen - 1) bsm).hasPartII ≠ 0
  · rw [if_pos hflag] at h ⊢
    have hat : CursorAt (8 * data + 293)
        ⟨data + 36, 3, decodeCore mem data (data + payloadLen - 1) bsm⟩ := by
      unfold CursorAt
      dsimp only
      omega
    rcases hrun : openPartII mem (data + payloadLen - 1)
        ⟨data + 36, 3, decodeCore mem data (data + payloadLen - 1) bsm⟩ with ⟨exts, st⟩ | ⟨e, st⟩
    · rw [openPartII_skipped hat hrun]
      constructor
      · exact fun hsized _ _ => hsized
      · exact fun hsized => hsized (by omega) (by omega)
    · have he := openPartII_error hrun
      rw [← forget_openPartII, forget, bind_error hrun] at h
      exact absurd (he.symm.trans h) (by norm_num)
  · rw [if_neg hflag]
    simp only [List.not_mem_nil, false_imp_iff, implies_true, true_iff]
    omega

/-- A message with one special extension of the length `len`, with its extension marker and none of
its options. -/
def extendedSpecial (len : UInt8) (i : ℕ) : UInt8 :=
  ((0x40 :: List.replicate 36 0) ++ [0x04, 4 * len + 2, 0, 0, 0]).getD i 0

theorem openTypes_skipped_iff_extended :
    (∀ t ∈ openTypes (extendedSpecial 1) 0 42 callocBsm, SkippedByLength t) ↔
      ExtensionsSized (extendedSpecial 1) 0 :=
  openTypes_skipped_iff (by decide +kernel)

/-- With an addition behind the known fields, the decoder goes on in the midst of it. -/
theorem not_openTypes_skipped :
    (decodeAsBsm (extendedSpecial 2) 0 42 callocBsm).1 = 0 ∧
      openTypes (extendedSpecial 2) 0 42 callocBsm = [⟨310, 2, 318⟩] ∧
        ¬ SkippedByLength ⟨310, 2, 318⟩ := by
  decide +kernel

end Message

end Tulux.QCoder
