import Tulux.Lib.Outcome
import Tulux.QCoder.J2735Decode

/-! The codes that the decoder of `j2735.c` takes its derived fields from. Each function here reads
as the decoder does and returns these codes. -/
namespace Tulux.QCoder
open BitParser Outcome

/-- The options of a crumb, and the code of its heading when there is one. -/
structure CodedCrumb where
  opts : ℕ
  heading : Option ℕ

/-- The crumbs of a path history, the code of a radius and the number of description codes, when
they are there. -/
structure CodedParts where
  crumbs : Option (List CodedCrumb) := none
  radius : Option ℕ := none
  descs : Option ℕ := none

structure CodedExt where
  id : ℕ
  parts : CodedParts

section Coded
variable (mem : ℕ → UInt8)

def codedField (n : ℕ) (store : ℕ → BsmValue → BsmValue) : Decoder ℕ := do
  let v ← getBits mem n
  update (store v)
  pure v

def codedCrumb (m : ℕ) : Decoder CodedCrumb := do
  isExtended mem
  let opts ← getBits mem 3
  update fun b => b.setCrumb m fun crumb => { crumb with opts := opts }
  crumbField mem m 18 fun v crumb => { crumb with latOffset := s32 (v + -131072) }
  crumbField mem m 18 fun v crumb => { crumb with lonOffset := s32 (v + -131072) }
  crumbField mem m 12 fun v crumb => { crumb with eleOffset := s32 (v + -2048) }
  crumbField mem m 16 fun v crumb => { crumb with timeOffsetMs := s32 (10 * (v + 1)) }
  optional (opts &&& 0x4 ≠ 0) (crumbField mem m 13 fun v crumb => { crumb with speed := v })
  optional (opts &&& 0x2 ≠ 0) do
    crumbField mem m 8 fun v crumb => { crumb with accy.semiMajor := v }
    crumbField mem m 8 fun v crumb => { crumb with accy.semiMinor := v }
    crumbField mem m 16 fun v crumb => { crumb with accy.orientation := v }
  update fun b => b.setCrumb m fun crumb => { crumb with headingAvailable := 0 }
  let heading ← optionally (opts &&& 0x1 ≠ 0)
    (codedField mem 8 fun v b => b.setCrumb m (storeHeading v))
  pure ⟨opts, heading⟩

def codedCrumbs (m : ℕ) : ℕ → Decoder (List CodedCrumb)
  | 0 => pure []
  | n + 1 => do
    let crumb ← codedCrumb mem m
    let crumbs ← codedCrumbs (m + 1) n
    pure (crumb :: crumbs)

def codedPathHistory : Decoder (List CodedCrumb) := do
  isExtended mem
  let phOpts ← getBits mem 2
  update fun b => { b with phopts := phOpts }
  optional (phOpts &&& 0x2 ≠ 0) (decodeInitialPosition mem)
  optional (phOpts &&& 0x1 ≠ 0) (field mem 8 fun v b => { b with ph.gnssStatus := v })
  let count ← getBits mem 5
  update fun b => { b with ph.qtyCrumbs := count + 1 }
  optional (23 < count + 1) bsmDecodeErr
  codedCrumbs mem 0 (count + 1)

def codedPathPrediction : Decoder ℕ := do
  isExtended mem
  let radius ← codedField mem 16 fun v b => { b with pp := storeRadius v b.pp }
  field mem 8 fun v b => { b with pp.confidence := v }
  pure radius

def codedSafetyFields : Decoder CodedParts := do
  isExtended mem
  let options ← getBits mem 4
  update fun b => { b with vehsafeopts := options }
  optional (options &&& 0x8 ≠ 0) do
    isExtended mem
    field mem 13 fun v b => { b with events := v }
  let crumbs ← optionally (options &&& 0x4 ≠ 0) (codedPathHistory mem)
  let radius ← optionally (options &&& 0x2 ≠ 0) (codedPathPrediction mem)
  optional (options &&& 0x1 ≠ 0) do
    isExtended mem
    field mem 9 fun v b => { b with lightsInUse := v }
  pure { crumbs, radius }

/-- With the bits left behind the length. -/
def codedSafetyExt (lastByteP : ℤ) : Decoder (ℕ × CodedParts) := do
  update fun b => { b with hasSafetyExtension := 1 }
  checkRoom lastByteP 8
  let sequenceLen ← getLen mem
  let st ← get
  optional (lastByteP - st.p8 < u32 (sequenceLen - 1)) bsmDecodeErr
  let parts ← codedSafetyFields mem
  pure (st.bitsLeft, parts)

/-- The number of description codes. -/
def codedDescription : Decoder ℕ := do
  let count ← getBits mem 3
  update fun b => { b with description.sizeDesc := count + 1 }
  decodeDescs mem 0 (count + 1)
  pure (count + 1)

def codedEventDescription : Decoder (Option ℕ) := do
  isExtended mem
  let eventopts ← getBits mem 5
  update fun b => { b with eventopts := eventopts }
  field mem 16 fun v b => { b with description.typeEvent := v }
  let descs ← optionally (eventopts &&& 0x10 ≠ 0) (codedDescription mem)
  optional (eventopts &&& 0x8 ≠ 0) (field mem 8 fun v b => { b with description.priority := v })
  optional (eventopts &&& 0x4 ≠ 0) (field mem 16 fun v b => { b with description.heading := v })
  optional (eventopts &&& 0x2 ≠ 0) (field mem 4 fun v b => { b with description.extent := v })
  pure descs

def codedSpecialFields (lastByteP : ℤ) : Decoder CodedParts := do
  isExtended mem
  checkRoom lastByteP 3
  let specvehopts ← getBits mem 3
  update fun b => { b with specvehopts := specvehopts }
  optional (specvehopts &&& 0x4 ≠ 0) (decodeEmergencyDetails mem)
  let descs ← optionally (specvehopts &&& 0x2 ≠ 0) (codedEventDescription mem)
  optional (specvehopts &&& 0x1 ≠ 0) (isExtended mem)
  pure { descs := descs.join }

def codedSpecialExt (lastByteP : ℤ) : Decoder (ℕ × CodedParts) := do
  update fun b => { b with hasSpecialExtension := 1 }
  let _ ← getLen mem
  let st ← get
  let parts ← codedSpecialFields mem lastByteP
  pure (st.bitsLeft, parts)

def codedSupplementalExt (lastByteP : ℤ) : Decoder (ℕ × CodedParts) := do
  let saveBitsLeft ← decodeSupplementalExt mem lastByteP
  pure (saveBitsLeft, {})

def codedExt (lastByteP : ℤ) : ℕ → Decoder (ℕ × CodedParts)
  | 0 => codedSafetyExt mem lastByteP
  | 1 => codedSpecialExt mem lastByteP
  | 2 => codedSupplementalExt mem lastByteP
  | _ => bsmDecodeErr

def codedExts (lastByteP : ℤ) : ℕ → Decoder (List CodedExt)
  | 0 => pure []
  | n + 1 => do
    checkRoom lastByteP 6
    let id ← getBits mem 6
    let (saveBitsLeft, parts) ← codedExt mem lastByteP id
    skipPadding saveBitsLeft
    let exts ← codedExts lastByteP n
    pure (⟨id, parts⟩ :: exts)

def codedPartII (lastByteP : ℤ) : Decoder (List CodedExt) := do
  checkRoom lastByteP 3
  let qty ← getBits mem 3
  update fun b => { b with qtyPartIIExtensions := qty + 1 }
  let st ← get
  optional (lastByteP ≤ st.p8) bsmDecodeErr
  codedExts mem lastByteP (qty + 1)

/-! ### The decoder reads the same -/

variable {mem} {lastByteP : ℤ}

theorem forget_codedField (n : ℕ) (store : ℕ → BsmValue → BsmValue) :
    forget (codedField mem n store) = field mem n store := by
  simp only [codedField, field, forget_bind, forget_pure, bind_pure_forget, forget_unit]

theorem forget_codedCrumb (m : ℕ) : forget (codedCrumb mem m) = decodeCrumb mem m := by
  simp only [codedCrumb, decodeCrumb, crumbField, forget_bind, forget_pure, bind_pure_forget,
    forget_optionally, forget_codedField]

theorem forget_codedCrumbs (m n : ℕ) : forget (codedCrumbs mem m n) = decodeCrumbs mem m n := by
  induction n generalizing m with
  | zero => exact forget_pure []
  | succ n ih =>
    simp only [codedCrumbs, decodeCrumbs, forget_bind, forget_pure, bind_pure_forget, ih]
    rw [bind_const (codedCrumb mem m), forget_codedCrumb]

theorem forget_codedPathHistory : forget (codedPathHistory mem) = decodePathHistory mem := by
  simp only [codedPathHistory, decodePathHistory, forget_bind, forget_codedCrumbs]

theorem forget_codedPathPrediction : forget (codedPathPrediction mem) = (do
    isExtended mem
    field mem 16 fun v b => { b with pp := storeRadius v b.pp }
    field mem 8 fun v b => { b with pp.confidence := v }) := by
  simp only [codedPathPrediction, forget_bind, forget_pure, bind_pure_forget, forget_unit]
  rw [bind_const (codedField mem 16 _), forget_codedField]

theorem forget_codedSafetyFields :
    forget (codedSafetyFields mem) = decodeVehicleSafetyFields mem := by
  simp only [codedSafetyFields, decodeVehicleSafetyFields, forget_bind, forget_pure,
    bind_pure_forget, forget_unit, bind_const (optionally _ (codedPathHistory mem)),
    bind_const (optionally _ (codedPathPrediction mem)), forget_optionally,
    forget_codedPathHistory, forget_codedPathPrediction]

theorem forget_codedDescription : forget (codedDescription mem) = (do
    let count ← getBits mem 3
    update fun b => { b with description.sizeDesc := count + 1 }
    decodeDescs mem 0 (count + 1)) := by
  simp only [codedDescription, forget_bind, forget_pure, bind_pure_forget, forget_unit]

theorem forget_codedEventDescription :
    forget (codedEventDescription mem) = decodeEventDescription mem := by
  simp only [codedEventDescription, decodeEventDescription, forget_bind, forget_pure,
    bind_pure_forget, forget_unit, bind_const (optionally _ (codedDescription mem)),
    forget_optionally, forget_codedDescription]

theorem forget_codedSpecialFields :
    forget (codedSpecialFields mem lastByteP) = decodeSpecialFields mem lastByteP := by
  simp only [codedSpecialFields, decodeSpecialFields, forget_bind, forget_pure,
    bind_pure_forget, forget_unit, bind_const (optionally _ (codedEventDescription mem)),
    forget_optionally, forget_codedEventDescription]

/-- The bits left are returned besides the codes. -/
theorem fst_codedExt (id : ℕ) :
    Prod.fst <$> codedExt mem lastByteP id = decodeExt mem lastByteP id := by
  match id with
  | 0 =>
    simp only [codedExt, decodeExt, codedSafetyExt, decodeVehicleSafetyExt, map_bind, map_pure,
      bind_const (codedSafetyFields mem), forget_codedSafetyFields]
  | 1 =>
    simp only [codedExt, decodeExt, codedSpecialExt, decodeSpecialExt, map_bind, map_pure,
      bind_const (codedSpecialFields mem lastByteP), forget_codedSpecialFields]
  | 2 => simp only [codedExt, decodeExt, codedSupplementalExt, map_bind, map_pure, bind_pure]
  | n + 3 => rfl

theorem forget_codedExts (n : ℕ) :
    forget (codedExts mem lastByteP n) = decodeExts mem lastByteP n := by
  induction n with
  | zero => exact forget_pure []
  | succ n ih =>
    simp only [codedExts, decodeExts, forget_bind, forget_pure, bind_pure_forget, ih,
      ← fst_codedExt, bind_map_left]

theorem forget_codedPartII :
    forget (codedPartII mem lastByteP) = decodePartII mem lastByteP := by
  simp only [codedPartII, decodePartII, forget_bind, forget_codedExts]

end Coded

/-- The extensions of a message that is decoded without an error. -/
def codedMessage (mem : ℕ → UInt8) (data : ℕ) (payloadLen : ℤ) (bsm : BsmValue) : List CodedExt :=
  let lastByteP : ℤ := data + payloadLen - 1
  if payloadLen < 31 ∨ ntohl mem data &&& 0x80000000 ≠ 0 then []
  else
    let bsm := decodeCore mem data lastByteP bsm
    if bsm.hasPartII ≠ 0 then
      match codedPartII mem lastByteP { p8 := data + 36, bitsLeft := 3, bsm := bsm } with
      | .ok exts _ => exts
      | .error _ _ => []
    else []

end Tulux.QCoder
