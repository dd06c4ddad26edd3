import Tulux.Lib.ByteCode
import Tulux.QCoder.LengthCodes
import Tulux.QCoder.Wsmp

/-! The elements of a WAVE information element extension in `wsmp.c`. -/
namespace Tulux.QCoder
open BitString ByteCode

/-! ### Elements -/

/-- A length in one byte, or in two. -/
def lenBytes (len : ℕ) : List UInt8 :=
  if len < 0x80 then [UInt8.ofNat len]
  else [UInt8.ofNat (0x80 + len / 256), UInt8.ofNat (len % 256)]

/-- An element with a length that two bytes can hold. -/
structure WaveElement where
  id : UInt8
  bytes : List UInt8
  short : bytes.length < 0x4000

namespace WaveElement

/-- The id, the length and the bytes. -/
def code (e : WaveElement) : List UInt8 := e.id :: (lenBytes e.bytes.length ++ e.bytes)

/-- An element with a value of one byte. -/
def IsValue (e : WaveElement) : Prop :=
  e.id.toNat = waveElemIdRate ∨ e.id.toNat = waveElemIdPwr ∨ e.id.toNat = waveElemIdChan

def IsLoad (e : WaveElement) : Prop := e.id.toNat = waveElemIdLoad

/-- An element of the versions before 2016. -/
def IsData (e : WaveElement) : Prop :=
  e.id.toNat = waveElemIdData ∨ e.id.toNat = waveElemSafetyFlag

instance (e : WaveElement) : Decidable e.IsValue := inferInstanceAs (Decidable (_ ∨ _ ∨ _))

instance (e : WaveElement) : Decidable e.IsLoad := inferInstanceAs (Decidable (_ = _))

instance (e : WaveElement) : Decidable e.IsData := inferInstanceAs (Decidable (_ ∨ _))

/-- The elements that are skipped by their length, with the last length of a channel load: values
with a length of one byte, channel loads of 130 bytes, and others of the last length of a load. -/
def Skippable (load : UInt8) (e : WaveElement) : Prop :=
  if e.IsValue then e.bytes.length < 0x80
  else if e.IsLoad then e.bytes.length = 130
  else if e.IsData then False
  else e.bytes.length = load.toNat

instance (load : UInt8) (e : WaveElement) : Decidable (e.Skippable load) :=
  inferInstanceAs (Decidable (if e.IsValue then e.bytes.length < 0x80
    else if e.IsLoad then e.bytes.length = 130
    else if e.IsData then False
    else e.bytes.length = load.toNat))

/-- The first byte of the length. -/
def lenHead (e : WaveElement) : ℕ :=
  if e.bytes.length < 0x80 then e.bytes.length else 0x80 + e.bytes.length / 256

/-- How far the decoder moves. -/
def advance (load : UInt8) (e : WaveElement) : ℕ :=
  if e.IsValue then 2 + e.lenHead
  else if e.IsLoad then 1 + (lenBytes e.bytes.length).length + (2 + e.lenHead)
  else 1 + (lenBytes e.bytes.length).length + load.toNat

/-- What the decoder stores for the element at `a`. -/
def stored (e : WaveElement) (mem : ℕ → UInt8) (a : ℕ) (w : WsmpData) : WsmpData :=
  if e.id.toNat = waveElemIdRate then { w with rate := mem (a + 2) }
  else if e.id.toNat = waveElemIdPwr then { w with pwr := mem (a + 2) }
  else if e.id.toNat = waveElemIdChan then { w with chan := mem (a + 2) }
  else if e.IsLoad then
    { w with
      chanLoadLen := UInt8.ofNat e.bytes.length
      chanLoadPtr := a + 1 + (lenBytes e.bytes.length).length }
  else w

/-- The last length of a load, behind the element. -/
def nextLoad (load : UInt8) (e : WaveElement) : UInt8 :=
  if e.IsLoad then UInt8.ofNat e.bytes.length else load

end WaveElement

/-- The extension: the number of elements, and the elements. -/
def extensionCode (es : List WaveElement) : List UInt8 :=
  lenBytes es.length ++ es.flatMap WaveElement.code

section Length
variable {mem : ℕ → UInt8} {a len : ℕ}

theorem length_lenBytes (len : ℕ) : (lenBytes len).length = if len < 0x80 then 1 else 2 := by
  unfold lenBytes
  split_ifs <;> rfl

theorem hasAt_byte {n : ℕ} (h : (mem a).toNat = n) : HasAt (memBits mem) (8 * a) (natBits 8 n) := by
  rw [HasAt, length_natBits, window_byte, h]

theorem parse_lenBytes (hlen : len < 0x4000)
    (h : load mem a (lenBytes len).length = lenBytes len) :
    parseAsnVariableLengthEnc mem a 8 = ((len : ℤ), a + (lenBytes len).length, 8) := by
  have hpos : 8 * a / 8 = a ∧ 8 - 8 * a % 8 = 8 := by omega
  unfold lenBytes at h ⊢
  split_ifs at h ⊢ with hshort
  · have hbyte : (mem a).toNat = len := by
      rw [(List.cons.inj h).1, UInt8.toNat_ofNat', Nat.mod_eq_of_lt (by omega)]
    have hread := parse_short_of_hasAt (hasAt_byte hbyte) hshort
    rwa [hpos.1, hpos.2, show (8 * a + 8) / 8 = a + 1 by omega,
      show 8 - (8 * a + 8) % 8 = 8 by omega] at hread
  · have hfirst : (mem a).toNat = 0x80 + len / 256 := by
      rw [(List.cons.inj h).1, UInt8.toNat_ofNat', Nat.mod_eq_of_lt (by omega)]
    have hsecond : (mem (a + 1)).toNat = len % 256 := by
      rw [(List.cons.inj (List.cons.inj h).2).1, UInt8.toNat_ofNat', Nat.mod_mod]
    have hboth : HasAt (memBits mem) (8 * a) (natBits 16 (0x8000 + len)) := by
      rw [natBits_long, hasAt_append, length_natBits]
      exact ⟨hasAt_byte hfirst, hasAt_byte hsecond⟩
    have hread := parse_long_of_hasAt hboth hlen
    rwa [hpos.1, hpos.2, show (8 * a + 16) / 8 = a + 2 by omega,
      show 8 - (8 * a + 16) % 8 = 8 by omega] at hread

end Length

section Element
variable (mem : ℕ → UInt8) (tail : ℕ) {st : WsmpState}

/-- The decoder goes on at `data` with the header `wsmp`. -/
def Moves {α : Type} (p : WsmpDecoder α) (st : WsmpState) (a : α) (data : ℕ) (wsmp : WsmpData) :
    Prop :=
  ∃ st', p st = .ok a st' ∧ st'.data = data ∧ st'.wsmp = wsmp

/-- The id of the element decides. -/
theorem decodeElement_eq : decodeElement mem tail st =
    (if (mem st.data).toNat = waveElemIdRate then do
      decodeValue mem tail st.data fun v w => { w with rate := v }
      pure true
    else if (mem st.data).toNat = waveElemIdPwr then do
      decodeValue mem tail st.data fun v w => { w with pwr := v }
      pure true
    else if (mem st.data).toNat = waveElemIdChan then do
      decodeValue mem tail st.data fun v w => { w with chan := v }
      pure true
    else if (mem st.data).toNat = waveElemIdLoad then do
      let _ ← pull tail 1
      let len ← parseLen mem
      let st₁ ← get
      updateWsmp fun w => { w with chanLoadLen := UInt8.ofNat (u32 len), chanLoadPtr := st₁.data }
      pullExtField mem tail st.data
      pure true
    else if (mem st.data).toNat = waveElemIdData ∨ (mem st.data).toNat = waveElemSafetyFlag then
      pure false
    else do
      let _ ← pull tail 1
      let _ ← parseLen mem
      let st₁ ← get
      let _ ← pull tail st₁.wsmp.chanLoadLen.toNat
      pure true) { st with reach := max st.reach (st.data + 1) } := rfl

theorem moves_value (store : UInt8 → WsmpData → WsmpData) (st : WsmpState) (a : ℕ) :
    Moves (do decodeValue mem tail a store; pure true) st true
      (st.data + (2 + (mem (a + 1)).toNat)) (store (mem (a + 2)) st.wsmp) :=
  ⟨_, rfl, rfl, rfl⟩

theorem moves_load (st : WsmpState) (a : ℕ) :
    Moves (do
      let _ ← pull tail 1
      let len ← parseLen mem
      let st₁ ← get
      updateWsmp fun w => { w with chanLoadLen := UInt8.ofNat (u32 len), chanLoadPtr := st₁.data }
      pullExtField mem tail a
      pure true) st true
      ((parseAsnVariableLengthEnc mem (st.data + 1) 8).2.1 + (2 + (mem (a + 1)).toNat))
      { st.wsmp with
        chanLoadLen := UInt8.ofNat (u32 (parseAsnVariableLengthEnc mem (st.data + 1) 8).1)
        chanLoadPtr := (parseAsnVariableLengthEnc mem (st.data + 1) 8).2.1 } :=
  ⟨_, rfl, rfl, rfl⟩

theorem moves_other (st : WsmpState) :
    Moves (do
      let _ ← pull tail 1
      let _ ← parseLen mem
      let st₁ ← get
      let _ ← pull tail st₁.wsmp.chanLoadLen.toNat
      pure true) st true
      ((parseAsnVariableLengthEnc mem (st.data + 1) 8).2.1 + st.wsmp.chanLoadLen.toNat) st.wsmp :=
  ⟨_, rfl, rfl, rfl⟩

variable {mem} {e : WaveElement}

theorem WaveElement.code_length (e : WaveElement) :
    e.code.length = 1 + (lenBytes e.bytes.length).length + e.bytes.length := by
  rw [code, List.length_cons, List.length_append]
  omega

/-- The parts of an element in a memory. -/
structure WaveElement.At (e : WaveElement) (mem : ℕ → UInt8) (a : ℕ) : Prop where
  id : mem a = e.id
  len : load mem (a + 1) (lenBytes e.bytes.length).length = lenBytes e.bytes.length
  bytes : load mem (a + 1 + (lenBytes e.bytes.length).length) e.bytes.length = e.bytes

theorem WaveElement.at_of_load {a : ℕ} (h : load mem a e.code.length = e.code) : e.At mem a := by
  obtain ⟨hid, hrest⟩ := load_cons.mp h
  obtain ⟨hlen, hbytes⟩ := load_append.mp hrest
  exact ⟨hid, hlen, hbytes⟩

theorem WaveElement.At.lenHead {a : ℕ} (h : e.At mem a) : (mem (a + 1)).toNat = e.lenHead := by
  have hshort := e.short
  have hlen := h.len
  unfold lenBytes at hlen
  unfold WaveElement.lenHead
  split_ifs at hlen ⊢
  · rw [(load_cons.mp hlen).1, UInt8.toNat_ofNat', Nat.mod_eq_of_lt (by omega)]
  · rw [(load_cons.mp hlen).1, UInt8.toNat_ofNat', Nat.mod_eq_of_lt (by omega)]

/-- An element is skipped by its length just when it is one of those. -/
theorem WaveElement.advance_eq_iff (c : UInt8) (hdata : ¬ e.IsData) :
    e.advance c = e.code.length ↔ e.Skippable c := by
  have hshort := e.short
  rw [code_length, advance, Skippable, lenHead, length_lenBytes]
  split_ifs <;> omega

theorem decodeElement_moves (h : e.At mem st.data) (hdata : ¬ e.IsData) :
    Moves (decodeElement mem tail) st true (st.data + e.advance st.wsmp.chanLoadLen)
      (e.stored mem st.data st.wsmp) := by
  have hparse := parse_lenBytes e.short h.len
  have hhead := h.lenHead
  unfold Moves
  rw [decodeElement_eq, h.id]
  unfold WaveElement.advance WaveElement.stored
  by_cases hrate : e.id.toNat = waveElemIdRate
  · have hvalue : e.IsValue := Or.inl hrate
    rw [if_pos hrate, if_pos hrate, if_pos hvalue, ← hhead]
    exact moves_value _ _ _ _ _
  rw [if_neg hrate, if_neg hrate]
  by_cases hpwr : e.id.toNat = waveElemIdPwr
  · have hvalue : e.IsValue := Or.inr (Or.inl hpwr)
    rw [if_pos hpwr, if_pos hpwr, if_pos hvalue, ← hhead]
    exact moves_value _ _ _ _ _
  rw [if_neg hpwr, if_neg hpwr]
  by_cases hchan : e.id.toNat = waveElemIdChan
  · have hvalue : e.IsValue := Or.inr (Or.inr hchan)
    rw [if_pos hchan, if_pos hchan, if_pos hvalue, ← hhead]
    exact moves_value _ _ _ _ _
  have hvalue : ¬ e.IsValue := fun hv => hv.elim hrate fun hv => hv.elim hpwr hchan
  rw [if_neg hchan, if_neg hchan, if_neg hvalue]
  by_cases hload : e.IsLoad
  · have hload' : e.id.toNat = waveElemIdLoad := hload
    obtain ⟨st', hrun, hcursor, hwsmp⟩ := moves_load mem tail
      { st with reach := max st.reach (st.data + 1) } st.data
    rw [hparse, hhead] at hcursor
    rw [hparse] at hwsmp
    rw [if_pos hload', if_pos hload, if_pos hload]
    refine ⟨st', hrun, ?_, ?_⟩
    · rw [hcursor]
      dsimp only
      omega
    · rw [hwsmp, u32_natCast_of_lt (by have := e.short; omega)]
  · have hload' : ¬ e.id.toNat = waveElemIdLoad := hload
    have hdata' : ¬ (e.id.toNat = waveElemIdData ∨ e.id.toNat = waveElemSafetyFlag) := hdata
    obtain ⟨st', hrun, hcursor, hwsmp⟩ := moves_other mem tail
      { st with reach := max st.reach (st.data + 1) }
    rw [hparse] at hcursor
    rw [if_neg hload', if_neg hdata', if_neg hload, if_neg hload]
    refine ⟨st', hrun, ?_, hwsmp⟩
    rw [hcursor]
    dsimp only
    omega

theorem decodeElement_stops (h : e.At mem st.data) (hdata : e.IsData) :
    Moves (decodeElement mem tail) st false st.data st.wsmp := by
  unfold Moves
  rw [decodeElement_eq, h.id]
  rcases hdata with hid | hid <;> rw [hid] <;> exact ⟨_, rfl, rfl, rfl⟩

end Element

/-! ### Extensions -/

/-- Every element is skipped by its length. -/
def AllSkippable : UInt8 → List WaveElement → Prop
  | _, [] => True
  | c, e :: es => e.Skippable c ∧ AllSkippable (e.nextLoad c) es

/-- What is stored for the elements from `a` on. -/
def storedAll (mem : ℕ → UInt8) : ℕ → List WaveElement → WsmpData → WsmpData
  | _, [], w => w
  | a, e :: es, w => storedAll mem (a + e.code.length) es (e.stored mem a w)

section Extension
variable {mem : ℕ → UInt8} (tail : ℕ) {st : WsmpState} {e : WaveElement} {es : List WaveElement}

theorem WaveElement.IsLoad.not_isValue (h : e.IsLoad) : ¬ e.IsValue := by
  have hid : e.id.toNat = 23 := h
  unfold WaveElement.IsValue waveElemIdRate waveElemIdPwr waveElemIdChan
  omega

theorem WaveElement.stored_of_isLoad (h : e.IsLoad) (a : ℕ) (w : WsmpData) : e.stored mem a w =
    { w with
      chanLoadLen := UInt8.ofNat e.bytes.length
      chanLoadPtr := a + 1 + (lenBytes e.bytes.length).length } := by
  have hvalue := h.not_isValue
  rw [stored, if_neg fun hid => hvalue (Or.inl hid),
    if_neg fun hid => hvalue (Or.inr (Or.inl hid)),
    if_neg fun hid => hvalue (Or.inr (Or.inr hid)), if_pos h]

theorem WaveElement.chanLoadLen_stored (a : ℕ) (w : WsmpData) :
    (e.stored mem a w).chanLoadLen = e.nextLoad w.chanLoadLen := by
  unfold WaveElement.nextLoad
  by_cases hload : e.IsLoad
  · rw [stored_of_isLoad hload, if_pos hload]
  · unfold WaveElement.stored
    rw [if_neg hload, if_neg hload]
    split_ifs <;> rfl

theorem WaveElement.Skippable.not_isData {c : UInt8} (h : e.Skippable c) : ¬ e.IsData := by
  intro hdata
  unfold WaveElement.Skippable at h
  have hid : e.id.toNat = 128 ∨ e.id.toNat = 129 := hdata
  have hvalue : ¬ e.IsValue := by
    unfold WaveElement.IsValue waveElemIdRate waveElemIdPwr waveElemIdChan
    omega
  have hload : ¬ e.IsLoad := by
    unfold WaveElement.IsLoad waveElemIdLoad
    omega
  rwa [if_neg hvalue, if_neg hload, if_pos hdata] at h

/-- The loop goes over the elements, and on with those behind them. -/
theorem decodeElements_moves (h : load mem st.data (es.flatMap WaveElement.code).length =
    es.flatMap WaveElement.code) (hall : AllSkippable st.wsmp.chanLoadLen es) (n : ℕ) :
    ∃ st', decodeElements mem tail (es.length + n) st = decodeElements mem tail n st' ∧
      st'.data = st.data + (es.flatMap WaveElement.code).length ∧
        st'.wsmp = storedAll mem st.data es st.wsmp := by
  induction es generalizing st with
  | nil => exact ⟨st, by rw [List.length_nil, Nat.zero_add], rfl, rfl⟩
  | cons e es ih =>
    rw [List.flatMap_cons] at h ⊢
    obtain ⟨hfirst, hrest⟩ := load_append.mp h
    obtain ⟨hskip, hall⟩ := hall
    obtain ⟨st₁, hrun, hdata, hwsmp⟩ :=
      decodeElement_moves tail (WaveElement.at_of_load hfirst) hskip.not_isData
    rw [(e.advance_eq_iff _ hskip.not_isData).mpr hskip] at hdata
    rw [← hdata] at hrest
    have hload : st₁.wsmp.chanLoadLen = e.nextLoad st.wsmp.chanLoadLen := by
      rw [hwsmp, WaveElement.chanLoadLen_stored]
    rw [← hload] at hall
    obtain ⟨st', hgo, hdata', hwsmp'⟩ := ih hrest hall
    refine ⟨st', ?_, ?_, ?_⟩
    · rw [← hgo, List.length_cons, Nat.succ_add]
      exact BitParser.bind_ok hrun
    · rw [hdata', hdata, List.length_append, Nat.add_assoc]
    · rw [hwsmp', hdata, hwsmp, storedAll]

/-- The number of elements comes first. -/
theorem decodeExtension_eq (hshort : es.length < 0x4000)
    (h : load mem st.data (extensionCode es).length = extensionCode es) :
    ∃ st', wsmpDecodeWaveElementExtension mem tail 0 st = decodeElements mem tail es.length st' ∧
      st'.data = st.data + (lenBytes es.length).length ∧ st'.wsmp = st.wsmp ∧
        load mem st'.data (es.flatMap WaveElement.code).length = es.flatMap WaveElement.code := by
  obtain ⟨hlen, helements⟩ := load_append.mp h
  have hparse := parse_lenBytes hshort hlen
  obtain ⟨st', hrun, hdata, hwsmp⟩ : Moves (parseLen mem) st (es.length : ℤ)
      (st.data + (lenBytes es.length).length) st.wsmp := by
    unfold Moves parseLen
    rw [hparse]
    exact ⟨_, rfl, rfl, rfl⟩
  refine ⟨st', ?_, hdata, hwsmp, by rwa [hdata]⟩
  rw [wsmpDecodeWaveElementExtension, if_pos rfl]
  exact BitParser.bind_ok hrun

end Extension

/-! ### Values -/

/-- The last element of each kind has its value in the header. -/
structure HasValues (w : WsmpData) (a : ℕ) (es : List WaveElement) : Prop where
  value : ∀ pre e post v vs, es = pre ++ e :: post → e.bytes = v :: vs →
    (∀ x ∈ post, x.id ≠ e.id) → (e.id.toNat = waveElemIdRate → w.rate = v) ∧
      (e.id.toNat = waveElemIdPwr → w.pwr = v) ∧ (e.id.toNat = waveElemIdChan → w.chan = v)
  load : ∀ pre e post, es = pre ++ e :: post → e.IsLoad → (∀ x ∈ post, ¬ x.IsLoad) →
    w.chanLoadLen.toNat = e.bytes.length ∧ w.chanLoadPtr =
      a + (pre.flatMap WaveElement.code).length + 1 + (lenBytes e.bytes.length).length

/-- The extension is consumed exactly, wherever it is. -/
def ConsumedExactly (w : WsmpData) (es : List WaveElement) : Prop :=
  ∀ mem tail st, st.wsmp = w →
    load mem st.data (extensionCode es).length = extensionCode es →
    ∃ w', Moves (wsmpDecodeWaveElementExtension mem tail 0) st ()
      (st.data + (extensionCode es).length) w' ∧
      HasValues w' (st.data + (lenBytes es.length).length) es

section Values
variable {mem : ℕ → UInt8} {w : WsmpData} {e : WaveElement} {es : List WaveElement}

theorem storedAll_append (a : ℕ) (xs ys : List WaveElement) (w : WsmpData) :
    storedAll mem a (xs ++ ys) w =
      storedAll mem (a + (xs.flatMap WaveElement.code).length) ys (storedAll mem a xs w) := by
  induction xs generalizing a w with
  | nil => rfl
  | cons x xs ih =>
    rw [List.cons_append, storedAll, storedAll, ih, List.flatMap_cons, List.length_append,
      Nat.add_assoc]

/-- A field that no element of a list stores is kept. -/
theorem storedAll_keeps {α : Type} (field : WsmpData → α) (a : ℕ)
    (h : ∀ x ∈ es, ∀ a w, field (x.stored mem a w) = field w) (w : WsmpData) :
    field (storedAll mem a es w) = field w := by
  induction es generalizing a w with
  | nil => rfl
  | cons x xs ih =>
    rw [storedAll, ih _ fun y hy => h y (List.mem_cons_of_mem x hy)]
    exact h x List.mem_cons_self a w

/-- The first byte of a value is behind its length. -/
theorem WaveElement.At.first {a : ℕ} {v : UInt8} {vs : List UInt8} (h : e.At mem a)
    (hlen : e.bytes.length < 0x80) (hbytes : e.bytes = v :: vs) : mem (a + 2) = v := by
  have hat := h.bytes
  rw [length_lenBytes, if_pos hlen, hbytes] at hat
  exact (load_cons.mp hat).1

theorem allSkippable_append {c : UInt8} {xs ys : List WaveElement} : AllSkippable c (xs ++ ys) ↔
    AllSkippable c xs ∧ AllSkippable (xs.foldl WaveElement.nextLoad c) ys := by
  induction xs generalizing c with
  | nil => simp [AllSkippable]
  | cons x xs ih => simp [AllSkippable, ih, and_assoc]

theorem chanLoadLen_storedAll (a : ℕ) (es : List WaveElement) (w : WsmpData) :
    (storedAll mem a es w).chanLoadLen = es.foldl WaveElement.nextLoad w.chanLoadLen := by
  induction es generalizing a w with
  | nil => rfl
  | cons e es ih => rw [storedAll, ih, WaveElement.chanLoadLen_stored, List.foldl_cons]

section Stored
variable (e : WaveElement) (mem : ℕ → UInt8) (a : ℕ) (w : WsmpData)

theorem WaveElement.rate_stored : (e.stored mem a w).rate =
    if e.id.toNat = waveElemIdRate then mem (a + 2) else w.rate := by
  unfold WaveElement.stored
  split_ifs <;> rfl

theorem WaveElement.pwr_stored : (e.stored mem a w).pwr =
    if e.id.toNat = waveElemIdPwr then mem (a + 2) else w.pwr := by
  unfold WaveElement.stored waveElemIdRate waveElemIdPwr
  split_ifs <;> first | rfl | omega

theorem WaveElement.chan_stored : (e.stored mem a w).chan =
    if e.id.toNat = waveElemIdChan then mem (a + 2) else w.chan := by
  unfold WaveElement.stored waveElemIdRate waveElemIdPwr waveElemIdChan
  split_ifs <;> first | rfl | omega

theorem WaveElement.chanLoadPtr_stored : (e.stored mem a w).chanLoadPtr =
    if e.IsLoad then a + 1 + (lenBytes e.bytes.length).length else w.chanLoadPtr := by
  by_cases hload : e.IsLoad
  · rw [stored_of_isLoad hload, if_pos hload]
  · unfold WaveElement.stored
    rw [if_neg hload, if_neg hload]
    split_ifs <;> rfl

end Stored

/-- The value of the last element of its kind stays. -/
theorem hasValues_storedAll {a : ℕ}
    (h : load mem a (es.flatMap WaveElement.code).length = es.flatMap WaveElement.code)
    (hall : AllSkippable w.chanLoadLen es) : HasValues (storedAll mem a es w) a es := by
  constructor
  · rintro pre e post v vs rfl hbytes hlast
    rw [List.flatMap_append, List.flatMap_cons] at h
    have hat := WaveElement.at_of_load (load_append.mp (load_append.mp h).2).1
    obtain ⟨hskip, -⟩ := (allSkippable_append.mp hall).2
    obtain ⟨a₁, ha₁⟩ : ∃ a₁, a₁ = a + (pre.flatMap WaveElement.code).length := ⟨_, rfl⟩
    rw [← ha₁] at hat
    have hfirst (hvalue : e.IsValue) : mem (a₁ + 2) = v := by
      unfold WaveElement.Skippable at hskip
      rw [if_pos hvalue] at hskip
      exact hat.first hskip hbytes
    have hother {n : ℕ} (hid : e.id.toNat = n) (x : WaveElement) (hx : x ∈ post) : x.id.toNat ≠ n := by
      intro heq
      exact hlast x hx (UInt8.toNat_inj.mp (heq.trans hid.symm))
    rw [storedAll_append, storedAll, ← ha₁]
    refine ⟨fun hid => ?_, fun hid => ?_, fun hid => ?_⟩
    · rw [storedAll_keeps WsmpData.rate _ fun x hx a w => by
        rw [WaveElement.rate_stored, if_neg (hother hid x hx)]]
      rw [WaveElement.rate_stored, if_pos hid, hfirst (Or.inl hid)]
    · rw [storedAll_keeps WsmpData.pwr _ fun x hx a w => by
        rw [WaveElement.pwr_stored, if_neg (hother hid x hx)]]
      rw [WaveElement.pwr_stored, if_pos hid, hfirst (Or.inr (Or.inl hid))]
    · rw [storedAll_keeps WsmpData.chan _ fun x hx a w => by
        rw [WaveElement.chan_stored, if_neg (hother hid x hx)]]
      rw [WaveElement.chan_stored, if_pos hid, hfirst (Or.inr (Or.inr hid))]
  · rintro pre e post rfl hload hlast
    obtain ⟨hskip, -⟩ := (allSkippable_append.mp hall).2
    rw [storedAll_append, storedAll]
    constructor
    · rw [storedAll_keeps WsmpData.chanLoadLen _ fun x hx a w => by
        rw [WaveElement.chanLoadLen_stored, WaveElement.nextLoad, if_neg (hlast x hx)]]
      rw [WaveElement.chanLoadLen_stored, WaveElement.nextLoad, if_pos hload]
      unfold WaveElement.Skippable at hskip
      rw [if_neg hload.not_isValue, if_pos hload] at hskip
      rw [hskip]
      rfl
    · rw [storedAll_keeps WsmpData.chanLoadPtr _ fun x hx a w => by
        rw [WaveElement.chanLoadPtr_stored, if_neg (hlast x hx)]]
      rw [WaveElement.chanLoadPtr_stored, if_pos hload]

end Values

/-! ### Runs -/

section Runs
variable {w : WsmpData} {es xs : List WaveElement} {e : WaveElement}

theorem consumedExactly_of_allSkippable (hshort : es.length < 0x4000)
    (hall : AllSkippable w.chanLoadLen es) : ConsumedExactly w es := by
  rintro mem tail st rfl h
  obtain ⟨st₁, hrun, hdata, hwsmp, helements⟩ := decodeExtension_eq tail hshort h
  rw [← hwsmp] at hall
  obtain ⟨st₂, hgo, hdata', hwsmp'⟩ := decodeElements_moves tail helements hall 0
  refine ⟨_, ⟨st₂, hrun.trans hgo, ?_, hwsmp'⟩, ?_⟩
  · rw [hdata', hdata, extensionCode, List.length_append, Nat.add_assoc]
  · rw [← hdata]
    exact hasValues_storedAll helements hall

/-- An element that comes after skippable ones is consumed exactly only if it is skippable. -/
theorem skippable_of_consumedExactly (hshort : (xs ++ [e]).length < 0x4000)
    (hall : AllSkippable w.chanLoadLen xs) (h : ConsumedExactly w (xs ++ [e])) :
    e.Skippable (xs.foldl WaveElement.nextLoad w.chanLoadLen) := by
  obtain ⟨mem, hmem⟩ : ∃ mem, mem = store (fun _ => 0) 0 (extensionCode (xs ++ [e])) := ⟨_, rfl⟩
  obtain ⟨st₀, hzero, hw⟩ : ∃ st₀ : WsmpState, st₀.data = 0 ∧ st₀.wsmp = w :=
    ⟨⟨0, 0, w, 0⟩, rfl, rfl⟩
  have hload : load mem st₀.data (extensionCode (xs ++ [e])).length = extensionCode (xs ++ [e]) := by
    rw [hzero, hmem, load_store]
  obtain ⟨w', ⟨st, hrun, hdata, -⟩, -⟩ := h mem 0 st₀ hw hload
  obtain ⟨st₁, hstart, hdata₁, hwsmp₁, helements⟩ := decodeExtension_eq 0 hshort hload
  rw [hw] at hwsmp₁
  rw [List.flatMap_append, List.flatMap_singleton] at helements
  obtain ⟨hxs, he⟩ := load_append.mp helements
  rw [← hwsmp₁] at hall
  obtain ⟨st₂, hgo, hdata₂, hwsmp₂⟩ := decodeElements_moves 0 hxs hall 1
  have hat : e.At mem st₂.data := by
    rw [hdata₂]
    exact WaveElement.at_of_load he
  have hlast : decodeElements mem 0 1 st₂ = .ok () st := by
    rw [← hgo, ← hrun, hstart, List.length_append, List.length_singleton]
  -- the decoder stops behind the last element
  have hend : st.data = st₂.data + e.code.length := by
    have hcode : (extensionCode (xs ++ [e])).length = (lenBytes (xs ++ [e]).length).length +
        ((xs.flatMap WaveElement.code).length + e.code.length) := by
      simp only [extensionCode, List.flatMap_append, List.flatMap_singleton, List.length_append]
    omega
  have hload₂ : st₂.wsmp.chanLoadLen = xs.foldl WaveElement.nextLoad w.chanLoadLen := by
    rw [hwsmp₂, chanLoadLen_storedAll, hwsmp₁]
  by_cases hkind : e.IsData
  · obtain ⟨st₃, hstop, hdata₃, -⟩ := decodeElement_stops 0 hat hkind
    have hsame : decodeElements mem 0 1 st₂ = .ok () st₃ := BitParser.bind_ok hstop
    obtain rfl : st₃ = st := by
      rw [hsame] at hlast
      exact (EStateM.Result.ok.inj hlast).2
    rw [e.code_length] at hend
    omega
  · obtain ⟨st₃, hmove, hdata₃, -⟩ := decodeElement_moves 0 hat hkind
    have hsame : decodeElements mem 0 1 st₂ = .ok () st₃ := BitParser.bind_ok hmove
    obtain rfl : st₃ = st := by
      rw [hsame] at hlast
      exact (EStateM.Result.ok.inj hlast).2
    rw [← hload₂]
    exact (e.advance_eq_iff _ hkind).mp (by omega)

theorem allSkippable_of_consumedExactly (hshort : es.length < 0x4000)
    (h : ∀ xs, xs <+: es → ConsumedExactly w xs) : AllSkippable w.chanLoadLen es := by
  induction es using List.reverseRecOn with
  | nil => exact trivial
  | append_singleton xs e ih =>
    have hxs := ih (by rw [List.length_append] at hshort; omega)
      fun ys hys => h ys (hys.trans (List.prefix_append xs [e]))
    refine allSkippable_append.mpr ⟨hxs, ?_, trivial⟩
    exact skippable_of_consumedExactly hshort hxs (h _ List.prefix_rfl)

/-- The extensions of the first elements of a list are all consumed exactly just when the elements
are all skippable. -/
theorem consumedExactly_iff (w : WsmpData) (hshort : es.length < 0x4000) :
    (∀ xs, xs <+: es → ConsumedExactly w xs) ↔ AllSkippable w.chanLoadLen es := by
  refine ⟨allSkippable_of_consumedExactly hshort, fun hall xs hxs => ?_⟩
  obtain ⟨ys, rfl⟩ := hxs
  rw [List.length_append] at hshort
  exact consumedExactly_of_allSkippable (by omega) (allSkippable_append.mp hall).1

/-- A rate, and a channel load of 130 bytes. -/
def rateAndLoad : List WaveElement :=
  [⟨16, [12], by norm_num⟩, ⟨23, List.replicate 130 0, by rw [List.length_replicate]; norm_num⟩]

theorem consumedExactly_iff_rateAndLoad :
    (∀ xs, xs <+: rateAndLoad → ConsumedExactly callocWsmp xs) ↔
      AllSkippable callocWsmp.chanLoadLen rateAndLoad :=
  consumedExactly_iff callocWsmp (by decide)

/-- A channel load of one byte. -/
def shortLoad : WaveElement := ⟨23, [7], by decide⟩

/-- The decoder goes on two bytes behind a short channel load. -/
theorem not_consumedExactly : ¬ ConsumedExactly callocWsmp [shortLoad] := by
  intro h
  have hnone : AllSkippable callocWsmp.chanLoadLen [] := trivial
  have h' : ConsumedExactly callocWsmp ([] ++ [shortLoad]) := h
  exact absurd (skippable_of_consumedExactly (by decide) hnone h') (by decide)

end Runs

end Tulux.QCoder
