import Tulux.QCoder.WsmpTransport

/-! The header of `wsmp.c` with a PSID, from the record that is sent to the record that is received. -/
namespace Tulux.QCoder
open BitString ByteCode BitParser Outcome

/-- The receiver has the header of `w` with the values of its elements, and is at the payload with
its length. -/
structure ValuesRestored (w : WsmpData) (payload : Abuf) (mem : ℕ → UInt8) (st : WsmpState) :
    Prop where
  version : st.wsmp.nHeader.version = w.nHeader.version
  subtype : st.wsmp.nHeader.subtype = w.nHeader.subtype
  psid : st.wsmp.psid = w.psid
  rate : w.weidOpts.incRateExt = true → st.wsmp.rate = w.rate
  pwr : w.weidOpts.incPwrExt = true → st.wsmp.pwr = w.pwr
  chan : w.weidOpts.incChanExt = true → st.wsmp.chan = w.chan
  payloadLen : st.payloadLen = payloadBytes payload
  data : 8 * st.data = payload.start
  bits : HasAt (memBits mem) (8 * st.data) payload.bits

/-- The receiver also knows which elements are there. -/
structure HeaderRestored (w : WsmpData) (payload : Abuf) (mem : ℕ → UInt8) (st : WsmpState) : Prop
    extends ValuesRestored w payload mem st where
  present : st.wsmp.weidOpts = w.weidOpts

/-- What is encoded is decoded with the header of `w`. -/
def WsmpRoundTrip (block : ℕ) (loadMem : ℕ → UInt8) (verbosity : ℤ) (mc : MsgContents)
    (w : WsmpData) : Prop :=
  ∃ rx w', wsmpDecode false verbosity (receive (wsmpEncode block loadMem mc).2.abuf) = .ok () rx ∧
    rx.mc.wsmp = some w' ∧ HeaderRestored w mc.abuf rx.mc.abuf.mem
      { data := rx.mc.l3Payload, payloadLen := rx.mc.l3PayloadLen, wsmp := w', reach := rx.reach }

/-! ### Elements -/

section Elements
variable {mem : ℕ → UInt8} {a : ℕ} {w w' : WsmpData} {es : List WaveElement}

theorem NHeaderAt.elements (h : NHeaderAt mem a w es) :
    load mem (a + 2) (es.flatMap WaveElement.code).length = es.flatMap WaveElement.code := by
  cases hoption : (countElements w).nHeader.optionIndicator with
  | false =>
    rw [h.absent hoption]
    rfl
  | true =>
    have hone : (lenBytes es.length).length = 1 := by rw [length_lenBytes, if_pos h.short]
    have hcode := (load_append.mp (h.present hoption)).2
    rwa [hone] at hcode

/-- The three elements have three ids. -/
theorem HasValues.sent (h : HasValues w' a (sentElements w)) :
    (w.weidOpts.incRateExt = true → w'.rate = w.rate) ∧
      (w.weidOpts.incPwrExt = true → w'.pwr = w.pwr) ∧
      (w.weidOpts.incChanExt = true → w'.chan = w.chan) := by
  obtain ⟨xs, hxs⟩ : ∃ xs, xs = if w.weidOpts.incRateExt then [valueElement waveElemIdRate w.rate]
    else [] := ⟨_, rfl⟩
  obtain ⟨ys, hys⟩ : ∃ ys, ys = if w.weidOpts.incPwrExt then [valueElement waveElemIdPwr w.pwr]
    else [] := ⟨_, rfl⟩
  obtain ⟨zs, hzs⟩ : ∃ zs, zs = if w.weidOpts.incChanExt then [valueElement waveElemIdChan w.chan]
    else [] := ⟨_, rfl⟩
  have hsent : sentElements w = xs ++ (ys ++ zs) := by rw [hxs, hys, hzs]; rfl
  have hyid : ∀ y ∈ ys, y.id = UInt8.ofNat waveElemIdPwr := by
    rw [hys]
    simp [valueElement]
  have hzid : ∀ z ∈ zs, z.id = UInt8.ofNat waveElemIdChan := by
    rw [hzs]
    simp [valueElement]
  have hpwr : UInt8.ofNat waveElemIdPwr ≠ UInt8.ofNat waveElemIdRate := by decide
  have hchan : UInt8.ofNat waveElemIdChan ≠ UInt8.ofNat waveElemIdRate := by decide
  have hchan' : UInt8.ofNat waveElemIdChan ≠ UInt8.ofNat waveElemIdPwr := by decide
  refine ⟨fun hinc => ?_, fun hinc => ?_, fun hinc => ?_⟩
  · rw [if_pos hinc] at hxs
    refine (h.value [] _ (ys ++ zs) _ [] (hsent.trans (by rw [hxs]; rfl)) rfl ?_).1 rfl
    intro x hx
    rcases List.mem_append.mp hx with hy | hz
    · rw [hyid x hy]
      exact hpwr
    · rw [hzid x hz]
      exact hchan
  · rw [if_pos hinc] at hys
    refine (h.value xs _ zs _ [] (hsent.trans (by rw [hys]; rfl)) rfl ?_).2.1 rfl
    intro z hz
    rw [hzid z hz]
    exact hchan'
  · rw [if_pos hinc] at hzs
    refine (h.value (xs ++ ys) _ [] _ [] (hsent.trans (by rw [hzs, List.append_assoc])) rfl ?_).2.2
      rfl
    exact fun x hx => absurd hx List.not_mem_nil

/-- No element stores what is not its value. -/
theorem WaveElement.stored_keeps (e : WaveElement) (mem : ℕ → UInt8) (a : ℕ) (w : WsmpData) :
    (e.stored mem a w).weidOpts = w.weidOpts ∧ (e.stored mem a w).nHeader = w.nHeader := by
  unfold WaveElement.stored
  split_ifs <;> exact ⟨rfl, rfl⟩

end Elements

/-! ### With elements where they are announced -/

section Plain
variable {bp payload : Abuf} {w : WsmpData}

theorem IsMessage.valuesRestored (h : IsMessage bp payload (headerCode w)) (hplain : PlainNHeader w)
    (hsend : Sendable payload) (htpid : w.tpid = 0) (hpsid : w.psid ≤ 0x1020407f)
    (hpos : 0 < payloadBytes payload) (hlen : payloadBytes payload < 0x2000) :
    ∃ st, wsmpDecodeHeader bp.mem bp.tail false (receivedState bp) = .ok () st ∧
      ValuesRestored w payload bp.mem st ∧ st.wsmp.weidOpts = callocWsmp.weidOpts := by
  obtain ⟨st, hrun, hwsmp, hpayload, hcursor⟩ := h.decode hplain hsend htpid hpsid hpos hlen
  have hat := nHeaderAt_of_plain hplain h.parts.1
  obtain ⟨w₀, hw₀⟩ : ∃ w₀ : WsmpData, w₀ = { callocWsmp with
      protoVersion := 3
      nHeader := (countElements w).nHeader } := ⟨_, rfl⟩
  rw [← hw₀] at hwsmp
  have hvalues := HasValues.sent (hasValues_storedAll (w := w₀) hat.elements
    (allSkippable_of_values (sentElements_values w)))
  have hopts : (storedAll bp.mem (bp.data + 2) (sentElements w) w₀).weidOpts = w₀.weidOpts :=
    storedAll_keeps WsmpData.weidOpts _ (fun x _ a w => (x.stored_keeps bp.mem a w).1) w₀
  have hheader : (storedAll bp.mem (bp.data + 2) (sentElements w) w₀).nHeader = w₀.nHeader :=
    storedAll_keeps WsmpData.nHeader _ (fun x _ a w => (x.stored_keeps bp.mem a w).2) w₀
  refine ⟨st, hrun, ?_, ?_⟩
  · constructor
    · rw [hwsmp]
      dsimp only
      rw [hheader, hw₀]
      rfl
    · rw [hwsmp]
      dsimp only
      rw [hheader, hw₀]
      rfl
    · rw [hwsmp]
    · rw [hwsmp]
      exact hvalues.1
    · rw [hwsmp]
      exact hvalues.2.1
    · rw [hwsmp]
      exact hvalues.2.2
    · exact hpayload
    · exact hcursor
    · rw [hcursor]
      exact h.bits
  · rw [hwsmp]
    dsimp only
    rw [hopts, hw₀]

end Plain

/-! ### Elements that are announced and are not there -/

theorem length_pushedLenBits_le (len : ℕ) :
    (pushedLenBits len).length ≤ 16 ∧ (pushedLenBits len).length % 8 = 0 := by
  unfold pushedLenBits
  split_ifs <;> rw [length_natBits] <;> norm_num

/-- A length that is taken for a PSID has as many bytes. -/
theorem pushedLenBits_fieldSize {mem : ℕ → UInt8} {a len : ℕ}
    (h : HasAt (memBits mem) (8 * a) (pushedLenBits len)) :
    wsmpPsidFieldSize (mem a) = (pushedLenBits len).length / 8 := by
  have hdiv : 8 * a / 8 = a := by omega
  unfold pushedLenBits at h ⊢
  split_ifs at h ⊢ with hshort
  · have hbyte := byte_of_hasAt h (by omega) (by omega)
    rw [hdiv] at hbyte
    rw [length_natBits, wsmpPsidFieldSize_eq, if_neg (by omega), if_neg (by omega),
      if_neg (by omega)]
  · rw [natBits_long] at h
    have hbyte := byte_of_hasAt h.left (by omega) (by omega)
    rw [hdiv] at hbyte
    rw [length_natBits, wsmpPsidFieldSize_eq, if_neg (by omega), if_neg (by omega),
      if_pos (by omega)]

section Stale
variable {bp payload : Abuf} {w : WsmpData} {st : WsmpState}

/-- With the option bit and without elements, the octet of the T header is taken for their number, and
the decoder is behind the length of the payload, or without it. -/
theorem IsMessage.stale (h : IsMessage bp payload (headerCode w)) (hversion : w.nHeader.version = 3)
    (hsubtype : w.nHeader.subtype = 0) (hnone : sentElements w = [])
    (hload : w.weidOpts.incLoadExt = false) (hoption : w.nHeader.optionIndicator = true)
    (htpid : w.tpid = 0) (hpsid : w.psid ≤ 0x1020407f) (hpos : 0 < payloadBytes payload)
    (hlen : payloadBytes payload < 0x2000)
    (hrun : wsmpDecodeHeader bp.mem bp.tail false (receivedState bp) = .ok () st) :
    ¬ (st.payloadLen = payloadBytes payload ∧ 8 * st.data = payload.start) := by
  have htail : (receivedState bp).data + 1 ≤ bp.tail := by
    obtain ⟨_, _, hbyte, -⟩ := bind_eq_ok.mp hrun
    obtain ⟨_, _, hpull, -⟩ := bind_eq_ok.mp hbyte
    exact pullBytes_eq_ok hpull
  have hon : (countElements w).nHeader.optionIndicator = true := by
    have hqty := weidQty_countElements hload
    rw [hnone] at hqty
    have hkeep : (countElements w).nHeader.optionIndicator =
        if (countElements w).weidQty ≠ 0 then true else w.nHeader.optionIndicator := rfl
    rw [hkeep, hqty, if_neg (by simp), hoption]
  -- the bytes: the octet of the N header, 0, and the PSID
  have hn : nHeaderCode w = [UInt8.ofNat (countElements w).nHeader.data] := by
    rw [nHeaderCode, if_pos hnone]
  have ht : tHeaderCode w = 0 :: psidCode w.psid := by
    rw [tHeaderCode, htpid, if_pos (by decide), if_pos hpsid]
  obtain ⟨hoctet, htpidPsid⟩ := h.parts
  rw [hn] at hoctet htpidPsid
  rw [ht, List.length_singleton] at htpidPsid
  obtain ⟨hzero, hcode⟩ := load_cons.mp htpidPsid
  obtain ⟨hsize, -⟩ := wsmpDecodePsid_psidCode hpsid hcode
  have hat : NHeaderAt bp.mem (receivedState bp).data w [] := by
    constructor
    · exact hversion
    · exact hsubtype
    · change (bp.mem bp.data).toNat = _
      rw [(load_cons.mp hoctet).1, UInt8.toNat_ofNat',
        Nat.mod_eq_of_lt (nHeaderData_lt hversion hsubtype)]
    · exact fun _ => rfl
    · intro _
      change [bp.mem (bp.data + 1)] = [0]
      rw [hzero]
    · exact Nat.zero_lt_succ _
    · exact fun e he => absurd he List.not_mem_nil
  have htwo : nHeaderLength w [] = 2 := by
    rw [nHeaderLength, if_pos hon]
    rfl
  obtain ⟨st₁, hheader, hdata₁, -⟩ := hat.decodeHeader bp.tail (receivedState bp) htail
  have hq : st₁.data = bp.data + 1 + 1 := by rw [hdata₁, htwo]; rfl
  rw [hheader] at hrun
  -- the first byte of the PSID is small, and is taken for the octet of the T header
  have hle := decodeTHeader_le hrun
  obtain ⟨hpayloadLen, hforward⟩ := decodeTHeader_forward (decodeTHeader_flag hrun) hrun
  rw [← hq] at hsize
  have hone : (psidCode w.psid).length = 1 := by
    rw [← hsize, wsmpPsidFieldSize_eq, if_neg (by omega), if_neg (by omega), if_neg (by omega)]
  have hlength : (headerCode w).length = 3 := by
    rw [headerCode, hn, ht, List.length_append, List.length_singleton, List.length_cons, hone]
  have hstart := h.start
  have hbits := h.len
  rw [hlength, sentLenBits, if_pos ⟨hpos, by omega⟩] at hstart hbits
  rw [show bp.data + 3 = st₁.data + 1 by omega] at hstart hbits
  have hfield := pushedLenBits_fieldSize hbits
  have hshort := length_pushedLenBits_le (payloadBytes payload)
  have hbehind : payload.start ≤ 8 * lenAt bp.mem st₁.data := by
    unfold lenAt
    split_ifs <;> omega
  rintro ⟨hpayload, hcursor⟩
  rcases (parse_cases bp.mem (lenAt bp.mem st₁.data)).2 with hnothing | ⟨-, hlt⟩
  · rw [hnothing] at hpayloadLen
    dsimp only at hpayloadLen
    omega
  · omega

end Stale

/-! ### The round trip -/

section RoundTrip
variable {block : ℕ} {loadMem : ℕ → UInt8} {verbosity : ℤ} {mc : MsgContents} {w : WsmpData}

theorem wsmpRoundTrip_iff_header (block : ℕ) (loadMem : ℕ → UInt8) (verbosity : ℤ)
    (mc : MsgContents) (w : WsmpData) : WsmpRoundTrip block loadMem verbosity mc w ↔
      ∃ st, wsmpDecodeHeader (wsmpEncode block loadMem mc).2.abuf.mem
        (wsmpEncode block loadMem mc).2.abuf.tail false
        (receivedState (wsmpEncode block loadMem mc).2.abuf) = .ok () st ∧
        HeaderRestored w mc.abuf (wsmpEncode block loadMem mc).2.abuf.mem st := by
  apply received_iff_header
  rintro mem st reach ⟨h, hpresent⟩
  exact ⟨⟨h.version, h.subtype, h.psid, h.rate, h.pwr, h.chan, h.payloadLen, h.data, h.bits⟩,
    hpresent⟩

theorem sentElements_none (h : w.weidOpts = callocWsmp.weidOpts) : sentElements w = [] := by
  rw [sentElements, h]
  rfl

theorem WsmpRoundTrip.condition (h : WsmpRoundTrip block loadMem verbosity mc w)
    (hmc : mc.wsmp = some w) (hversion : w.nHeader.version = 3) (hsubtype : w.nHeader.subtype = 0)
    (htpid : w.tpid = 0) (hload : w.weidOpts.incLoadExt = false) (hpsid : w.psid ≤ 0x1020407f)
    (hpos : 0 < payloadBytes mc.abuf) (hlen : payloadBytes mc.abuf < 0x2000)
    (hsend : Sendable mc.abuf) :
    w.weidOpts = ⟨false, false, false, false⟩ ∧ w.nHeader.optionIndicator = false := by
  have hmsg := wsmpEncode_isMessage block loadMem hmc hload (by rw [htpid]; decide) (by omega) hsend
  obtain ⟨st, hrun, hrestored⟩ := (wsmpRoundTrip_iff_header _ _ _ _ _).mp h
  have hplain : PlainNHeader w := by
    refine ⟨hversion, hsubtype, fun hoption hnone => ?_, hload⟩
    exact hmsg.stale hversion hsubtype hnone hload hoption htpid hpsid hpos hlen hrun
      ⟨hrestored.payloadLen, hrestored.data⟩
  -- the decoder leaves the flags of a fresh record
  obtain ⟨st', hrun', -, hopts⟩ := hmsg.valuesRestored hplain hsend htpid hpsid hpos hlen
  rw [hrun] at hrun'
  obtain rfl : st = st' := (EStateM.Result.ok.inj hrun').2
  have hflags : w.weidOpts = callocWsmp.weidOpts := hrestored.present.symm.trans hopts
  refine ⟨hflags, ?_⟩
  cases hoption : w.nHeader.optionIndicator with
  | false => rfl
  | true => exact absurd (sentElements_none hflags) (hplain.option hoption)

/-- The round trip is made just by headers without elements whose option bit is not set: the receiver
does not know which elements are there, and an option bit that is left over stands for elements. -/
theorem wsmpRoundTrip_iff (block : ℕ) (loadMem : ℕ → UInt8) (verbosity : ℤ)
    (hmc : mc.wsmp = some w) (hversion : w.nHeader.version = 3) (hsubtype : w.nHeader.subtype = 0)
    (htpid : w.tpid = 0) (hload : w.weidOpts.incLoadExt = false) (hpsid : w.psid ≤ 0x1020407f)
    (hpos : 0 < payloadBytes mc.abuf) (hlen : payloadBytes mc.abuf < 0x2000)
    (hsend : Sendable mc.abuf) : WsmpRoundTrip block loadMem verbosity mc w ↔
      w.weidOpts = ⟨false, false, false, false⟩ ∧ w.nHeader.optionIndicator = false := by
  constructor
  · intro h
    exact h.condition hmc hversion hsubtype htpid hload hpsid hpos hlen hsend
  · rintro ⟨hflags, hoption⟩
    have hplain : PlainNHeader w := by
      refine ⟨hversion, hsubtype, fun hon => ?_, hload⟩
      rw [hoption] at hon
      exact Bool.noConfusion hon
    have hmsg := wsmpEncode_isMessage block loadMem hmc hload (by rw [htpid]; decide) (by omega)
      hsend
    obtain ⟨st, hrun, hvalues, hopts⟩ := hmsg.valuesRestored hplain hsend htpid hpsid hpos hlen
    rw [wsmpRoundTrip_iff_header]
    exact ⟨st, hrun, hvalues, hopts.trans hflags.symm⟩

end RoundTrip

theorem wsmpRoundTrip_iff_bare :
    WsmpRoundTrip 1000 (fun _ => 0) 0 (transportContents 0) (transportHeader 0) :=
  (wsmpRoundTrip_iff 1000 (fun _ => 0) 0 rfl rfl rfl rfl rfl (by decide) (by decide) (by decide)
    threeBytes_sendable).mpr ⟨rfl, rfl⟩

/-- A header with a transmit rate. -/
def rateHeader : WsmpData :=
  { transportHeader 0 with
    weidOpts := ⟨true, false, false, false⟩
    rate := 12 }

/-- A header without elements that was used with some. -/
def reusedHeader : WsmpData :=
  { transportHeader 0 with nHeader := WsmpNHeader.ofData 11 }

theorem not_wsmpRoundTrip :
    ¬ WsmpRoundTrip 1000 (fun _ => 0) 0 { transportContents 0 with wsmp := some rateHeader }
        rateHeader ∧
      ¬ WsmpRoundTrip 1000 (fun _ => 0) 0 { transportContents 0 with wsmp := some reusedHeader }
        reusedHeader := by
  constructor <;> intro h
  · have hflags := (h.condition rfl rfl rfl rfl rfl (by decide) (by decide) (by decide)
      threeBytes_sendable).1
    exact absurd (congrArg WsmpOptionalWeids.incRateExt hflags) (by decide)
  · have hoption := (h.condition rfl rfl rfl rfl rfl (by decide) (by decide) (by decide)
      threeBytes_sendable).2
    exact absurd hoption (by decide)

end Tulux.QCoder
