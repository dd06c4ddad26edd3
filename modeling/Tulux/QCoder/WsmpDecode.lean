import Tulux.Lib.Outcome
import Tulux.QCoder.WsmpMessage

/-! The decoder of `wsmp.c` on the headers that its encoder builds. -/
namespace Tulux.QCoder
open BitString ByteCode BitParser Outcome

/-! ### The T header -/

section Decoder
variable {mem : ℕ → UInt8} {tail n : ℕ} {st st' : WsmpState} {w : WsmpData} {α β : Type}

/-- A length has at most 14 bits, and is behind the cursor when it has a value. -/
theorem parse_cases (mem : ℕ → UInt8) (a : ℕ) :
    (parseAsnVariableLengthEnc mem a 8).1 < 0x4000 ∧
      (parseAsnVariableLengthEnc mem a 8 = (-1, a, 8) ∨
        0 ≤ (parseAsnVariableLengthEnc mem a 8).1 ∧ a < (parseAsnVariableLengthEnc mem a 8).2.1) := by
  have hpos : 8 * a / 8 = a ∧ 8 - 8 * a % 8 = 8 := by omega
  have hlt := (mem a).toNat_lt
  by_cases hshort : (mem a).toNat < 0x80
  · have hbyte : HasAt (memBits mem) (8 * a) (natBits 8 (mem a).toNat) := hasAt_byte rfl
    have hread := parse_short_of_hasAt hbyte hshort
    rw [hpos.1, hpos.2] at hread
    rw [hread]
    dsimp only
    omega
  by_cases hlong : (mem a).toNat < 0xc0
  · have hnext := (mem (a + 1)).toNat_lt
    obtain ⟨len, hlen⟩ : ∃ len, len = ((mem a).toNat - 0x80) * 256 + (mem (a + 1)).toNat := ⟨_, rfl⟩
    have hboth : HasAt (memBits mem) (8 * a) (natBits 16 (0x8000 + len)) := by
      rw [natBits_long, hasAt_append, length_natBits]
      exact ⟨hasAt_byte (by omega), hasAt_byte (a := a + 1) (by omega)⟩
    have hread := parse_long_of_hasAt hboth (by omega)
    rw [hpos.1, hpos.2] at hread
    rw [hread]
    dsimp only
    omega
  · have hflags : ∀ b < 256, 0xc0 ≤ b → b &&& 0x80 ≠ 0 ∧ b &&& 0x40 ≠ 0 := by decide +kernel
    obtain ⟨hflag, hfrag⟩ := hflags _ hlt (by omega)
    have hnone : parseAsnVariableLengthEnc mem a 8 = (-1, a, 8) := by
      rw [parseAsnVariableLengthEnc, if_pos (by norm_num), if_pos hflag, if_pos hfrag]
    rw [hnone]
    exact ⟨by norm_num, Or.inl rfl⟩

/-- The octet of the T header stays the same. -/
abbrev KeepsTpid (p : WsmpDecoder α) : Prop := ∀ t, Keeps (fun st => st.wsmp.tpid = t) p

theorem KeepsTpid.bind {p : WsmpDecoder α} {q : α → WsmpDecoder β} (hp : KeepsTpid p)
    (hq : ∀ a, KeepsTpid (q a)) : KeepsTpid (p >>= q) :=
  fun t => (hp t).bind fun a => hq a t

theorem KeepsTpid.ite {c : Prop} [Decidable c] {p q : WsmpDecoder α} (hp : KeepsTpid p)
    (hq : KeepsTpid q) : KeepsTpid (if c then p else q) := by
  split_ifs
  · exact hp
  · exact hq

theorem KeepsTpid.of_ok {p : WsmpDecoder α} {a : α} (hp : KeepsTpid p) (h : p st = .ok a st') :
    st'.wsmp.tpid = st.wsmp.tpid :=
  (hp _).of_ok h rfl

theorem keepsTpid_pure (a : α) : KeepsTpid (pure a) := fun _ _ h => h

theorem keepsTpid_throw (e : Stop) : KeepsTpid (throw e : WsmpDecoder α) := fun _ _ h => h

theorem keepsTpid_get : KeepsTpid get := fun _ _ h => h

theorem keepsTpid_touch (a n : ℕ) : KeepsTpid (touch a n) := fun _ _ h => h

theorem keepsTpid_pull (tail n : ℕ) : KeepsTpid (pull tail n) := fun _ _ h => h

theorem keepsTpid_parseLen : KeepsTpid (parseLen mem) := fun _ _ h => h

theorem keepsTpid_setPayloadLen (len : ℤ) : KeepsTpid (setPayloadLen len) := fun _ _ h => h

theorem keepsTpid_update {g : WsmpData → WsmpData} (hg : ∀ w, (g w).tpid = w.tpid) :
    KeepsTpid (updateWsmp g) :=
  fun _ _ h => (hg _).trans h

/-! ### Extensions -/

/-- A property of the state that does not depend on what is read of an extension: the cursor goes on,
and values are stored. -/
structure Untouched (I : WsmpState → Prop) : Prop where
  moves : ∀ st data reach, st.data ≤ data → I st → I { st with data := data, reach := reach }
  stores : ∀ st wsmp, wsmp.tpid = st.wsmp.tpid → I st → I { st with wsmp := wsmp }

namespace Untouched
variable {I : WsmpState → Prop}

theorem touch (h : Untouched I) (a n : ℕ) : Keeps I (touch a n) :=
  fun st hI => h.moves st st.data _ le_rfl hI

theorem pull (h : Untouched I) (tail n : ℕ) : Keeps I (pull tail n) :=
  fun st hI => h.moves st (st.data + n) st.reach (Nat.le_add_right _ _) hI

theorem parseLen (h : Untouched I) : Keeps I (parseLen mem) := by
  intro st hI
  have hmoves : st.data ≤ (parseAsnVariableLengthEnc mem st.data 8).2.1 := by
    rcases (parse_cases mem st.data).2 with hnone | ⟨-, hlt⟩
    · rw [hnone]
    · exact hlt.le
  exact h.moves st _ _ hmoves hI

theorem update (h : Untouched I) {g : WsmpData → WsmpData} (hg : ∀ w, (g w).tpid = w.tpid) :
    Keeps I (updateWsmp g) :=
  fun st hI => h.stores st (g st.wsmp) (hg st.wsmp) hI

theorem get (_ : Untouched I) : Keeps I (get : WsmpDecoder WsmpState) := fun _ hI => hI

theorem pullExtField (h : Untouched I) (a : ℕ) : Keeps I (pullExtField mem tail a) :=
  (h.touch _ _).bind fun _ => (h.pull _ _).bind fun _ => Keeps.pure _

theorem value (h : Untouched I) (a : ℕ) {store : UInt8 → WsmpData → WsmpData}
    (hstore : ∀ v w, (store v w).tpid = w.tpid) : Keeps I (decodeValue mem tail a store) :=
  (h.touch _ _).bind fun _ => (h.update (hstore _)).bind fun _ => h.pullExtField a

theorem element (h : Untouched I) : Keeps I (decodeElement mem tail) := by
  unfold decodeElement
  refine h.get.bind fun st => (h.touch _ _).bind fun _ => ?_
  refine Keeps.ite ?_ (Keeps.ite ?_ (Keeps.ite ?_ (Keeps.ite ?_ (Keeps.ite ?_ ?_))))
  · exact (h.value _ (by intro _ _; rfl)).bind fun _ => Keeps.pure _
  · exact (h.value _ (by intro _ _; rfl)).bind fun _ => Keeps.pure _
  · exact (h.value _ (by intro _ _; rfl)).bind fun _ => Keeps.pure _
  · exact (h.pull _ _).bind fun _ => h.parseLen.bind fun _ => h.get.bind fun _ =>
      (h.update (by intro _; rfl)).bind fun _ => (h.pullExtField _).bind fun _ => Keeps.pure _
  · exact Keeps.pure _
  · exact (h.pull _ _).bind fun _ => h.parseLen.bind fun _ => h.get.bind fun _ =>
      (h.pull _ _).bind fun _ => Keeps.pure _

theorem elements (h : Untouched I) (n : ℕ) : Keeps I (decodeElements mem tail n) := by
  induction n with
  | zero => exact Keeps.pure _
  | succ n ih => exact h.element.bind fun _ => Keeps.ite ih (Keeps.pure _)

theorem extension (h : Untouched I) (n : ℕ) :
    Keeps I (wsmpDecodeWaveElementExtension mem tail n) :=
  Keeps.ite (h.parseLen.bind fun _ => h.elements _) (h.elements _)

end Untouched

theorem untouched_tpid (t : UInt8) : Untouched fun st => st.wsmp.tpid = t :=
  ⟨fun _ _ _ _ h => h, fun _ _ hsame h => hsame.trans h⟩

theorem untouched_length (len : ℤ) (data : ℕ) :
    Untouched fun st => st.payloadLen = len ∧ data ≤ st.data :=
  ⟨fun _ _ _ hle h => ⟨h.1, h.2.trans hle⟩, fun _ _ _ h => h⟩

theorem keepsTpid_extension (n : ℕ) : KeepsTpid (wsmpDecodeWaveElementExtension mem tail n) :=
  fun t => (untouched_tpid t).extension n

/-! ### Addresses -/

theorem keepsTpid_pullBytes (n : ℕ) : KeepsTpid (pullBytes tail n) := by
  unfold pullBytes
  refine (keepsTpid_pull _ _).bind fun p => ?_
  cases p with
  | none => exact keepsTpid_throw _
  | some p => exact (keepsTpid_touch _ _).bind fun _ => keepsTpid_pure _

theorem keepsTpid_psid : KeepsTpid (decodePsid mem tail) :=
  keepsTpid_get.bind fun _ => (keepsTpid_touch _ _).bind fun _ =>
    (keepsTpid_update (by intro _; rfl)).bind fun _ => (keepsTpid_pull _ _).bind fun _ => keepsTpid_pure _

theorem pullBytes_ok (h : st.data + n ≤ tail) : pullBytes tail n st =
    .ok st.data { st with data := st.data + n, reach := max st.reach (st.data + n) } := by
  have hpull : pull tail n st = .ok (some st.data) { st with data := st.data + n } := by
    rw [pull, if_neg (by omega)]
  exact BitParser.bind_ok hpull

theorem pullBytes_eq_ok {a : ℕ} (h : pullBytes tail n st = .ok a st') : st.data + n ≤ tail := by
  by_contra hroom
  have hpull : pull tail n st = .ok none { st with data := st.data + n } := by
    rw [pull, if_pos (by omega)]
  rw [pullBytes, BitParser.bind_ok hpull] at h
  change EStateM.Result.error _ _ = _ at h
  cases h

variable (mem tail) in
/-- The ports, or the PSID. -/
def decodeAddress (tpid : UInt8) : WsmpDecoder Unit := do
  if 2 ≤ tpid.toNat then
    let srcPort ← pullShort mem tail
    updateWsmp fun w => { w with ports.srcPort := srcPort }
    let dstPort ← pullShort mem tail
    updateWsmp fun w => { w with ports.dstPort := dstPort }
  else
    decodePsid mem tail

/-- Behind a version of 2016 there is no flag. -/
theorem decodeTHeader_eq (hn : n ≠ waveElemSafetyFlag) : decodeTHeader mem tail false n = (do
    let tpid ← pullByte mem tail
    updateWsmp fun w => { w with tpid := tpid }
    if 5 < tpid.toNat then throw (.retcode (-1)) else do
      decodeAddress mem tail tpid
      let len ← parseLen mem
      setPayloadLen len
      if tpid.toNat % 2 = 1 then wsmpDecodeWaveElementExtension mem tail 0 else pure ()) := by
  unfold decodeTHeader decodeAddress
  refine bind_congr fun tpid => bind_congr fun _ => ?_
  simp only [Bool.false_eq_true, if_false, if_neg hn]
  by_cases hlarge : 5 < tpid.toNat
  · rw [if_pos hlarge, if_pos hlarge]
    rfl
  by_cases hports : 2 ≤ tpid.toNat
  · simp only [if_neg hlarge, if_pos hports, bind_assoc, bind_pure_unit]
  · simp only [if_neg hlarge, if_neg hports, bind_pure_unit]

theorem keepsTpid_short : KeepsTpid (pullShort mem tail) :=
  (keepsTpid_pullBytes 2).bind fun _ => keepsTpid_pure _

theorem keepsTpid_address (tpid : UInt8) : KeepsTpid (decodeAddress mem tail tpid) := by
  unfold decodeAddress
  apply KeepsTpid.ite
  · exact keepsTpid_short.bind fun _ => (keepsTpid_update (by intro _; rfl)).bind fun _ =>
      keepsTpid_short.bind fun _ => keepsTpid_update (by intro _; rfl)
  · exact keepsTpid_psid

/-- The address of the payload's length, with the octet of the T header at `p`. -/
def lenAt (mem : ℕ → UInt8) (p : ℕ) : ℕ :=
  if (mem p).toNat < 2 then p + 1 + wsmpPsidFieldSize (mem (p + 1)) else p + 5

theorem decodeTHeader_le {savari : Bool} (h : decodeTHeader mem tail savari n st = .ok () st') :
    (mem st.data).toNat ≤ 5 := by
  by_contra hlarge
  unfold decodeTHeader at h
  obtain ⟨tpid, st₁, hbyte, hrest⟩ := bind_eq_ok.mp h
  obtain ⟨p, st₀, hpull, hp⟩ := bind_eq_ok.mp hbyte
  rw [pullBytes_ok (pullBytes_eq_ok hpull)] at hpull
  obtain ⟨rfl, rfl⟩ := EStateM.Result.ok.inj hpull
  obtain ⟨rfl, rfl⟩ := EStateM.Result.ok.inj hp
  obtain ⟨_, st₂, hset, hrest⟩ := bind_eq_ok.mp hrest
  rw [if_pos (Nat.lt_of_not_le hlarge)] at hrest
  change EStateM.Result.error _ _ = _ at hrest
  cases hrest

/-- An octet that is the flag of the older versions is not taken. -/
theorem decodeTHeader_flag (h : decodeTHeader mem tail false (mem st.data).toNat st = .ok () st') :
    (mem st.data).toNat ≠ waveElemSafetyFlag := by
  have hle := decodeTHeader_le h
  rw [waveElemSafetyFlag]
  omega

/-- The first step reads the octet. -/
theorem decodeTHeader_ok (hn : n ≠ waveElemSafetyFlag)
    (h : decodeTHeader mem tail false n st = .ok () st') :
    st.data + 1 ≤ tail ∧ (do
      decodeAddress mem tail (mem st.data)
      let len ← parseLen mem
      setPayloadLen len
      if (mem st.data).toNat % 2 = 1 then wsmpDecodeWaveElementExtension mem tail 0 else pure ())
      { st with
        data := st.data + 1
        reach := max st.reach (st.data + 1)
        wsmp := { st.wsmp with tpid := mem st.data } } = .ok () st' := by
  rw [decodeTHeader_eq hn] at h
  obtain ⟨tpid, st₁, hbyte, h⟩ := bind_eq_ok.mp h
  obtain ⟨p, st₀, hpull, hp⟩ := bind_eq_ok.mp hbyte
  have hroom := pullBytes_eq_ok hpull
  rw [pullBytes_ok hroom] at hpull
  obtain ⟨rfl, rfl⟩ := EStateM.Result.ok.inj hpull
  obtain ⟨rfl, rfl⟩ := EStateM.Result.ok.inj hp
  obtain ⟨_, st₂, hset, h⟩ := bind_eq_ok.mp h
  obtain ⟨-, rfl⟩ := EStateM.Result.ok.inj hset
  by_cases hlarge : 5 < (mem st.data).toNat
  · rw [if_pos hlarge] at h
    change EStateM.Result.error _ _ = _ at h
    cases h
  · rw [if_neg hlarge] at h
    exact ⟨hroom, h⟩

/-- The octet that is received is the byte behind the N header. -/
theorem decodeTHeader_tpid (hn : n ≠ waveElemSafetyFlag)
    (h : decodeTHeader mem tail false n st = .ok () st') : st'.wsmp.tpid = mem st.data := by
  obtain ⟨-, hrest⟩ := decodeTHeader_ok hn h
  refine KeepsTpid.of_ok ?_ hrest
  exact (keepsTpid_address _).bind fun _ => keepsTpid_parseLen.bind fun _ =>
    (keepsTpid_setPayloadLen _).bind fun _ => KeepsTpid.ite (keepsTpid_extension 0) (keepsTpid_pure _)

theorem pullShort_ok {v : ℕ} (h : pullShort mem tail st = .ok v st') :
    st'.data = st.data + 2 ∧ v = ntohs mem st.data ∧ st'.wsmp = st.wsmp := by
  obtain ⟨p, st₀, hpull, hp⟩ := bind_eq_ok.mp h
  rw [pullBytes_ok (pullBytes_eq_ok hpull)] at hpull
  obtain ⟨rfl, rfl⟩ := EStateM.Result.ok.inj hpull
  obtain ⟨rfl, rfl⟩ := EStateM.Result.ok.inj hp
  exact ⟨rfl, rfl, rfl⟩

/-- The ports have four bytes; the PSID announces its length. -/
theorem decodeAddress_ok {tpid : UInt8} (h : decodeAddress mem tail tpid st = .ok () st') :
    st'.data = (if tpid.toNat < 2 then st.data + wsmpPsidFieldSize (mem st.data) else st.data + 4) ∧
      (tpid.toNat < 2 → st'.wsmp.psid = u32 (wsmpDecodePsid mem st.data)) := by
  unfold decodeAddress at h
  by_cases hports : 2 ≤ tpid.toNat
  · have hpsid : ¬ tpid.toNat < 2 := by omega
    rw [if_pos hports] at h
    obtain ⟨src, st₁, hsrc, hrest⟩ := bind_eq_ok.mp h
    obtain ⟨_, st₂, hset, hports'⟩ := bind_eq_ok.mp hrest
    obtain ⟨dst, st₃, hdst, hlast⟩ := bind_eq_ok.mp hports'
    obtain ⟨-, rfl⟩ := EStateM.Result.ok.inj hset
    obtain ⟨-, rfl⟩ := EStateM.Result.ok.inj hlast
    obtain ⟨hdata₁, -⟩ := pullShort_ok hsrc
    obtain ⟨hdata₃, -⟩ := pullShort_ok hdst
    refine ⟨?_, fun h => absurd h hpsid⟩
    rw [if_neg hpsid]
    dsimp only at hdata₃ ⊢
    omega
  · rw [if_neg hports] at h
    obtain ⟨-, rfl⟩ := EStateM.Result.ok.inj h
    rw [if_pos (by omega)]
    exact ⟨rfl, fun _ => rfl⟩

/-- Without an extension the length of the payload comes last. -/
theorem decodeTHeader_even (hn : n ≠ waveElemSafetyFlag) (heven : (mem st.data).toNat % 2 = 0)
    (h : decodeTHeader mem tail false n st = .ok () st') :
    st'.payloadLen = (parseAsnVariableLengthEnc mem (lenAt mem st.data) 8).1 ∧
      st'.data = (parseAsnVariableLengthEnc mem (lenAt mem st.data) 8).2.1 ∧
      ((mem st.data).toNat < 2 → st'.wsmp.psid = u32 (wsmpDecodePsid mem (st.data + 1))) := by
  obtain ⟨-, hrest⟩ := decodeTHeader_ok hn h
  rw [if_neg (by omega)] at hrest
  obtain ⟨_, st₁, haddress, hrest⟩ := bind_eq_ok.mp hrest
  obtain ⟨-, rfl⟩ := EStateM.Result.ok.inj hrest
  obtain ⟨hdata, hpsid⟩ := decodeAddress_ok haddress
  have hlen : st₁.data = lenAt mem st.data := by rw [hdata, lenAt]
  rw [← hlen]
  exact ⟨rfl, rfl, hpsid⟩

/-- With an extension the cursor goes on behind the length of the payload. -/
theorem decodeTHeader_forward (hn : n ≠ waveElemSafetyFlag)
    (h : decodeTHeader mem tail false n st = .ok () st') :
    st'.payloadLen = (parseAsnVariableLengthEnc mem (lenAt mem st.data) 8).1 ∧
      (parseAsnVariableLengthEnc mem (lenAt mem st.data) 8).2.1 ≤ st'.data := by
  obtain ⟨-, hrest⟩ := decodeTHeader_ok hn h
  obtain ⟨_, st₁, haddress, hrest⟩ := bind_eq_ok.mp hrest
  obtain ⟨hdata, -⟩ := decodeAddress_ok haddress
  have hlen : st₁.data = lenAt mem st.data := by rw [hdata, lenAt]
  rw [← hlen]
  obtain ⟨len, st₂, hparse, hrest⟩ := bind_eq_ok.mp hrest
  obtain ⟨rfl, rfl⟩ := EStateM.Result.ok.inj hparse
  obtain ⟨_, st₃, hset, hrest⟩ := bind_eq_ok.mp hrest
  obtain ⟨-, rfl⟩ := EStateM.Result.ok.inj hset
  exact (Keeps.ite ((untouched_length _ _).extension 0) (Keeps.pure ())).of_ok hrest ⟨rfl, le_rfl⟩

variable (tail) in
/-- A T header with a PSID. -/
theorem decodeTHeader_psid (hn : n ≠ waveElemSafetyFlag) (htpid : mem st.data = 0)
    (htail : st.data + 1 ≤ tail) : ∃ st', decodeTHeader mem tail false n st = .ok () st' ∧
      st'.wsmp = { st.wsmp with
        tpid := 0
        psid := u32 (wsmpDecodePsid mem (st.data + 1)) } ∧
      st'.payloadLen = (parseAsnVariableLengthEnc mem (lenAt mem st.data) 8).1 ∧
      st'.data = (parseAsnVariableLengthEnc mem (lenAt mem st.data) 8).2.1 := by
  have hbyte : pullByte mem tail st = .ok (mem st.data) _ := BitParser.bind_ok (pullBytes_ok htail)
  have hlen : lenAt mem st.data = st.data + 1 + wsmpPsidFieldSize (mem (st.data + 1)) := by
    rw [lenAt, htpid]
    rfl
  rw [decodeTHeader_eq hn, BitParser.bind_ok hbyte, htpid, hlen]
  exact ⟨_, rfl, rfl, rfl, rfl⟩

end Decoder

/-! ### The N header -/

section NHeader
variable {mem : ℕ → UInt8} {tail : ℕ} {st : WsmpState} {w : WsmpData} {es : List WaveElement}

theorem allSkippable_of_values {c : UInt8} (h : ∀ e ∈ es, e.IsValue ∧ e.bytes.length < 0x80) :
    AllSkippable c es := by
  induction es generalizing c with
  | nil => exact trivial
  | cons e es ih =>
    obtain ⟨hvalue, hshort⟩ := h e List.mem_cons_self
    refine ⟨?_, ih fun x hx => h x (List.mem_cons_of_mem e hx)⟩
    rwa [WaveElement.Skippable, if_pos hvalue]

theorem sentElements_values (w : WsmpData) :
    ∀ e ∈ sentElements w, e.IsValue ∧ e.bytes.length < 0x80 := by
  have hrate : (valueElement waveElemIdRate w.rate).IsValue := Or.inl rfl
  have hpwr : (valueElement waveElemIdPwr w.pwr).IsValue := Or.inr (Or.inl rfl)
  have hchan : (valueElement waveElemIdChan w.chan).IsValue := Or.inr (Or.inr rfl)
  have hone (id : ℕ) (v : UInt8) : (valueElement id v).bytes.length < 0x80 := by
    rw [show (valueElement id v).bytes.length = 1 by rfl]
    norm_num
  intro e he
  unfold sentElements at he
  simp only [List.mem_append, List.mem_ite_nil_right, List.mem_singleton] at he
  rcases he with ⟨-, rfl⟩ | ⟨-, rfl⟩ | ⟨-, rfl⟩
  · exact ⟨hrate, hone _ _⟩
  · exact ⟨hpwr, hone _ _⟩
  · exact ⟨hchan, hone _ _⟩

/-- The option indicator says whether there are elements. -/
theorem PlainNHeader.optionIndicator (h : PlainNHeader w) :
    (countElements w).nHeader.optionIndicator = true ↔ sentElements w ≠ [] := by
  have hqty := weidQty_countElements h.load
  have hoption : (countElements w).nHeader.optionIndicator =
      if (countElements w).weidQty ≠ 0 then true else w.nHeader.optionIndicator := rfl
  rw [hoption, hqty, ← List.length_pos_iff]
  have hoption' := h.option
  rw [← List.length_pos_iff] at hoption'
  split_ifs <;> grind

/-- An N header of the version of 2016 at `a`, and the elements `es` when its option bit is set. -/
structure NHeaderAt (mem : ℕ → UInt8) (a : ℕ) (w : WsmpData) (es : List WaveElement) : Prop where
  version : w.nHeader.version = 3
  subtype : w.nHeader.subtype = 0
  octet : (mem a).toNat = (countElements w).nHeader.data
  absent : (countElements w).nHeader.optionIndicator = false → es = []
  present : (countElements w).nHeader.optionIndicator = true →
    load mem (a + 1) (extensionCode es).length = extensionCode es
  short : es.length < 0x80
  values : ∀ e ∈ es, e.IsValue ∧ e.bytes.length < 0x80

/-- The number of bytes of such a header. -/
def nHeaderLength (w : WsmpData) (es : List WaveElement) : ℕ :=
  1 + if (countElements w).nHeader.optionIndicator then (extensionCode es).length else 0

/-- The first octet says the version. -/
theorem NHeaderAt.data_mod {a : ℕ} (h : NHeaderAt mem a w es) :
    (countElements w).nHeader.data % 8 = 3 := by
  have hval : ((countElements w).nHeader.version : ℕ) = 3 := congrArg Fin.val h.version
  rw [WsmpNHeader.data, hval]
  omega

theorem NHeaderAt.decode_eq {a : ℕ} (h : NHeaderAt mem a w es) :
    decodeNHeader mem tail (countElements w).nHeader.data = (do
      updateWsmp fun x => { x with protoVersion := 3 }
      updateWsmp fun x => { x with nHeader := (countElements w).nHeader }
      if (countElements w).nHeader.optionIndicator then wsmpDecodeWaveElementExtension mem tail 0
      else pure ()) := by
  have hsubtype : (countElements w).nHeader.subtype = 0 := h.subtype
  have hof := WsmpNHeader.ofData_data (countElements w).nHeader
  unfold decodeNHeader
  simp [h.data_mod, hof, hsubtype]

variable (tail) in
/-- The elements, when the option bit is set. -/
theorem NHeaderAt.moves {s : WsmpState} (h : NHeaderAt mem st.data w es)
    (hdata : s.data = st.data + 1) :
    Moves (if (countElements w).nHeader.optionIndicator then
        wsmpDecodeWaveElementExtension mem tail 0 else pure ()) s ()
      (st.data + nHeaderLength w es) (storedAll mem (st.data + 2) es s.wsmp) := by
  unfold Moves nHeaderLength
  cases hoption : (countElements w).nHeader.optionIndicator with
  | false =>
    rw [h.absent hoption]
    exact ⟨s, rfl, hdata, rfl⟩
  | true =>
    have hcode := h.present hoption
    rw [← hdata] at hcode
    obtain ⟨st₁, hstart, hdata₁, hwsmp₁, helements⟩ :=
      decodeExtension_eq tail (h.short.trans (by norm_num)) hcode
    obtain ⟨st₂, hgo, hdata₂, hwsmp₂⟩ := decodeElements_moves tail helements
      (allSkippable_of_values h.values) 0
    have hlen : (lenBytes es.length).length = 1 := by rw [length_lenBytes, if_pos h.short]
    refine ⟨st₂, hstart.trans hgo, ?_, ?_⟩
    · rw [hdata₂, hdata₁, hdata, if_pos rfl, extensionCode, List.length_append]
      omega
    · rw [hwsmp₂, hwsmp₁, hdata₁, hdata, hlen]

variable (tail st) in
/-- The decoder gets to the T header. -/
theorem NHeaderAt.decodeHeader (h : NHeaderAt mem st.data w es) (htail : st.data + 1 ≤ tail) :
    ∃ st₁, wsmpDecodeHeader mem tail false st =
        decodeTHeader mem tail false (mem st₁.data).toNat st₁ ∧
      st₁.data = st.data + nHeaderLength w es ∧
      st₁.wsmp = storedAll mem (st.data + 2) es
        { st.wsmp with
          protoVersion := 3
          nHeader := (countElements w).nHeader } := by
  have hmod : ¬ (countElements w).nHeader.data % 8 < 3 := by
    rw [h.data_mod]
    norm_num
  have hbyte : pullByte mem tail st = .ok (mem st.data) _ := BitParser.bind_ok (pullBytes_ok htail)
  obtain ⟨s, hs⟩ : ∃ s : WsmpState, s = { st with
      data := st.data + 1
      reach := max st.reach (st.data + 1)
      wsmp := { st.wsmp with
        protoVersion := 3
        nHeader := (countElements w).nHeader } } := ⟨_, rfl⟩
  obtain ⟨st₁, hmoves, hdata₁, hwsmp₁⟩ := h.moves tail (s := s) (by rw [hs])
  have hrun : decodeNHeader mem tail (countElements w).nHeader.data
      { st with data := st.data + 1, reach := max st.reach (st.data + 1) } = .ok () st₁ := by
    rw [h.decode_eq, ← hmoves, hs]
    rfl
  refine ⟨{ st₁ with reach := max st₁.reach (st₁.data + 1) }, ?_, hdata₁, ?_⟩
  · unfold wsmpDecodeHeader
    rw [BitParser.bind_ok hbyte, h.octet]
    dsimp only
    rw [BitParser.bind_ok hrun]
    simp only [if_neg hmod]
    rfl
  · rw [hwsmp₁, hs]

/-- The octet of a header of the version of 2016 is a byte. -/
theorem nHeaderData_lt (hversion : w.nHeader.version = 3) (hsubtype : w.nHeader.subtype = 0) :
    (countElements w).nHeader.data < 256 := by
  have hversion' : ((countElements w).nHeader.version : ℕ) = 3 := congrArg Fin.val hversion
  have hsubtype' : ((countElements w).nHeader.subtype : ℕ) = 0 := congrArg Fin.val hsubtype
  have hoption := (countElements w).nHeader.optionIndicator.toNat_le
  rw [WsmpNHeader.data]
  omega

/-- The bytes of the encoder are such a header. -/
theorem nHeaderAt_of_plain {a : ℕ} (hplain : PlainNHeader w)
    (h : load mem a (nHeaderCode w).length = nHeaderCode w) :
    NHeaderAt mem a w (sentElements w) := by
  obtain ⟨hfirst, hrest⟩ := load_cons.mp h
  have hdata := nHeaderData_lt hplain.version hplain.subtype
  have hoption := hplain.optionIndicator
  constructor
  · exact hplain.version
  · exact hplain.subtype
  · rw [hfirst, UInt8.toNat_ofNat', Nat.mod_eq_of_lt hdata]
  · intro hoff
    by_contra hsome
    rw [hoption.mpr hsome] at hoff
    exact Bool.noConfusion hoff
  · intro hon
    rwa [if_neg (hoption.mp hon)] at hrest
  · exact length_sentElements_lt w
  · exact sentElements_values w

theorem length_nHeaderCode (hplain : PlainNHeader w) :
    nHeaderLength w (sentElements w) = (nHeaderCode w).length := by
  have hoption := hplain.optionIndicator
  rw [nHeaderLength, nHeaderCode, List.length_cons, Nat.add_comm]
  by_cases hnone : sentElements w = []
  · rw [if_pos hnone, if_neg fun hon => hoption.mp hon hnone]
    rfl
  · rw [if_neg hnone, if_pos (hoption.mpr hnone)]

variable (tail st) in
theorem decodeHeader_eq (hplain : PlainNHeader w)
    (h : load mem st.data (nHeaderCode w).length = nHeaderCode w) (htail : st.data + 1 ≤ tail) :
    ∃ st₁, wsmpDecodeHeader mem tail false st =
        decodeTHeader mem tail false (mem st₁.data).toNat st₁ ∧
      st₁.data = st.data + (nHeaderCode w).length ∧
      st₁.wsmp = storedAll mem (st.data + 2) (sentElements w)
        { st.wsmp with
          protoVersion := 3
          nHeader := (countElements w).nHeader } := by
  rw [← length_nHeaderCode hplain]
  exact (nHeaderAt_of_plain hplain h).decodeHeader tail st htail

end NHeader

end Tulux.QCoder
