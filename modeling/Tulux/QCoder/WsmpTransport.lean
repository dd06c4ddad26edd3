import Tulux.QCoder.WsmpDecode

/-! The transport header of `wsmp.c`, from the record that is sent to the record that is received. -/
namespace Tulux.QCoder
open BitString ByteCode BitParser Outcome

/-- The receiver has the T header, and is at the payload with its length. The lowest bit of the octet
stands for an extension, which is not supported. -/
structure TransportRestored (w : WsmpData) (payload : Abuf) (mem : ℕ → UInt8) (st : WsmpState) :
    Prop where
  tpid : st.wsmp.tpid = w.tpid &&& 0xfe
  psid : w.tpid.toNat < 2 → st.wsmp.psid = w.psid
  ports : 2 ≤ w.tpid.toNat → st.wsmp.ports = w.ports
  payloadLen : st.payloadLen = payloadBytes payload
  data : 8 * st.data = payload.start
  bits : HasAt (memBits mem) (8 * st.data) payload.bits

/-- The state in which a received buffer is decoded. -/
def receivedState (bp : Abuf) : WsmpState := ⟨bp.data, 0, callocWsmp, bp.data⟩

/-- What is encoded is decoded with the T header of `w`. -/
def TransportRoundTrip (block : ℕ) (loadMem : ℕ → UInt8) (verbosity : ℤ) (mc : MsgContents)
    (w : WsmpData) : Prop :=
  ∃ rx w', wsmpDecode false verbosity (receive (wsmpEncode block loadMem mc).2.abuf) = .ok () rx ∧
    rx.mc.wsmp = some w' ∧ TransportRestored w mc.abuf rx.mc.abuf.mem
      { data := rx.mc.l3Payload, payloadLen := rx.mc.l3PayloadLen, wsmp := w', reach := rx.reach }

section Receive
variable {bp : Abuf} {mem : ℕ → UInt8} {a : ℕ}

/-- The receiver gets what the decoder of the header leaves. -/
theorem wsmpDecode_eq_ok {st : WsmpState} (verbosity : ℤ)
    (h : wsmpDecodeHeader bp.mem bp.tail false (receivedState bp) = .ok () st) :
    ∃ rx, wsmpDecode false verbosity (receive bp) = .ok () rx ∧
      rx.mc = { freshContents bp with
        abuf.data := st.data
        payloadLen := st.payloadLen
        wsmp := some st.wsmp
        l3Payload := st.data
        l3PayloadLen := st.payloadLen } := by
  obtain ⟨rx, hrx⟩ : ∃ rx : Receiver, rx = { st.toReceiver (receive bp) with
      mc.l3Payload := st.data
      mc.l3PayloadLen := st.payloadLen } := ⟨_, rfl⟩
  have hrun : wsmpDecode false verbosity (receive bp) =
      .ok () (if 2 < verbosity then printBuffer st.data st.payloadLen rx else rx) := by
    unfold wsmpDecode
    dsimp only [receive, freshContents]
    rw [show (⟨bp.data, 0, (none : Option WsmpData).getD callocWsmp, bp.data⟩ : WsmpState) =
      receivedState bp by rfl, h, hrx]
    rfl
  have hmc : (if 2 < verbosity then printBuffer st.data st.payloadLen rx else rx).mc = rx.mc := by
    unfold printBuffer
    split_ifs <;> rfl
  refine ⟨_, hrun, ?_⟩
  rw [hmc, hrx]
  rfl

theorem wsmpDecode_of_ok {st : WsmpState} (verbosity : ℤ)
    (h : wsmpDecodeHeader bp.mem bp.tail false (receivedState bp) = .ok () st) :
    ∃ rx, wsmpDecode false verbosity (receive bp) = .ok () rx ∧ rx.mc.wsmp = some st.wsmp ∧
      rx.mc.l3Payload = st.data ∧ rx.mc.l3PayloadLen = st.payloadLen ∧ rx.mc.abuf.mem = bp.mem := by
  obtain ⟨rx, hrun, hmc⟩ := wsmpDecode_eq_ok verbosity h
  refine ⟨rx, hrun, ?_⟩
  rw [hmc]
  exact ⟨rfl, rfl, rfl, rfl⟩

theorem wsmpDecode_error {e : Stop} {st : WsmpState} (verbosity : ℤ)
    (h : wsmpDecodeHeader bp.mem bp.tail false (receivedState bp) = .error e st) :
    ∀ rx, wsmpDecode false verbosity (receive bp) ≠ .ok () rx := by
  intro rx hrx
  unfold wsmpDecode at hrx
  dsimp only [receive, freshContents] at hrx
  rw [show (⟨bp.data, 0, (none : Option WsmpData).getD callocWsmp, bp.data⟩ : WsmpState) =
    receivedState bp by rfl, h] at hrx
  cases e <;> exact absurd hrx (by simp)

/-- What is received is told by the decoder of the header. -/
theorem received_iff_header {R : (ℕ → UInt8) → WsmpState → Prop}
    (hR : ∀ mem st reach, R mem st → R mem { st with reach := reach }) (bp : Abuf) (verbosity : ℤ) :
    (∃ rx w', wsmpDecode false verbosity (receive bp) = .ok () rx ∧ rx.mc.wsmp = some w' ∧
        R rx.mc.abuf.mem
          { data := rx.mc.l3Payload, payloadLen := rx.mc.l3PayloadLen, wsmp := w',
            reach := rx.reach }) ↔
      ∃ st, wsmpDecodeHeader bp.mem bp.tail false (receivedState bp) = .ok () st ∧ R bp.mem st := by
  constructor
  · rintro ⟨rx, w', hrun, hw', hrestored⟩
    cases hheader : wsmpDecodeHeader bp.mem bp.tail false (receivedState bp) with
    | ok _ st =>
      obtain ⟨rx', hrun', hwsmp, hdata, hlen, hmem⟩ := wsmpDecode_of_ok verbosity hheader
      rw [hrun] at hrun'
      obtain rfl : rx = rx' := (EStateM.Result.ok.inj hrun').2
      obtain rfl : w' = st.wsmp := Option.some.inj (hw'.symm.trans hwsmp)
      rw [hmem, hdata, hlen] at hrestored
      have hst := hR _ _ st.reach hrestored
      exact ⟨st, rfl, hst⟩
    | error e st => exact absurd hrun (wsmpDecode_error verbosity hheader rx)
  · rintro ⟨st, hheader, h⟩
    obtain ⟨rx, hrun, hwsmp, hdata, hlen, hmem⟩ := wsmpDecode_of_ok verbosity hheader
    refine ⟨rx, st.wsmp, hrun, hwsmp, ?_⟩
    rw [hmem, hdata, hlen]
    exact hR _ _ rx.reach h

theorem transportRoundTrip_iff_header (block : ℕ) (loadMem : ℕ → UInt8) (verbosity : ℤ)
    (mc : MsgContents) (w : WsmpData) : TransportRoundTrip block loadMem verbosity mc w ↔
      ∃ st, wsmpDecodeHeader (wsmpEncode block loadMem mc).2.abuf.mem
        (wsmpEncode block loadMem mc).2.abuf.tail false
        (receivedState (wsmpEncode block loadMem mc).2.abuf) = .ok () st ∧
        TransportRestored w mc.abuf (wsmpEncode block loadMem mc).2.abuf.mem st := by
  apply received_iff_header
  intro mem st reach h
  exact ⟨h.tpid, h.psid, h.ports, h.payloadLen, h.data, h.bits⟩

/-! ### Lengths and PSIDs that are read -/

theorem wsmpDecodePsid_range (mem : ℕ → UInt8) (a : ℕ) :
    0 ≤ wsmpDecodePsid mem a ∧ wsmpDecodePsid mem a < 2 ^ 31 := by
  by_cases h : (mem a).toNat < 0xf0
  · obtain ⟨psid, hpsid, hdecode, -⟩ := exists_psidCode h
    omega
  · have hmax : maxPsid < wsmpDecodePsid mem a := lt_wsmpDecodePsid (by omega)
    have hsize : wsmpPsidFieldSize (mem a) = 4 := by
      rw [wsmpPsidFieldSize_eq, if_pos (by omega)]
    have hlt := value_lt (load mem a 4)
    rw [length_load] at hlt
    rw [maxPsid] at hmax
    rw [wsmpDecodePsid_eq, hsize, show psidOffset 4 = 0xdfdfbf80 by rfl] at hmax ⊢
    omega

theorem parse_pushedLenBits {len : ℕ}
    (h : HasAt (memBits mem) (8 * a) (pushedLenBits len)) : parseAsnVariableLengthEnc mem a 8 =
      (((if len < 0x80 then len else len % 0x2000 : ℕ) : ℤ), a + (pushedLenBits len).length / 8,
        8) := by
  have hpos : 8 * a / 8 = a ∧ 8 - 8 * a % 8 = 8 := by omega
  unfold pushedLenBits at h ⊢
  split_ifs at h ⊢ with hshort
  · have hread := parse_short_of_hasAt h hshort
    rw [length_natBits]
    rwa [hpos.1, hpos.2, show (8 * a + 8) / 8 = a + 1 by omega,
      show 8 - (8 * a + 8) % 8 = 8 by omega] at hread
  · have hread := parse_long_of_hasAt h (by omega)
    rw [length_natBits]
    rwa [hpos.1, hpos.2, show (8 * a + 16) / 8 = a + 2 by omega,
      show 8 - (8 * a + 16) % 8 = 8 by omega] at hread

/-- A length does not begin with a byte of zeros. -/
theorem pushedLenBits_head {len : ℕ} (hpos : 0 < len)
    (h : HasAt (memBits mem) (8 * a) (pushedLenBits len)) : (mem a).toNat ≠ 0 := by
  have hdiv : 8 * a / 8 = a := by omega
  unfold pushedLenBits at h
  split_ifs at h with hshort
  · have hbyte := byte_of_hasAt h (by omega) (by omega)
    rw [hdiv] at hbyte
    omega
  · rw [natBits_long] at h
    have hbyte := byte_of_hasAt h.left (by omega) (by omega)
    rw [hdiv] at hbyte
    omega

end Receive

section Transport
variable {bp payload : Abuf} {w : WsmpData}

/-- The parts of a message for the decoder. -/
theorem IsMessage.parts (h : IsMessage bp payload (headerCode w)) :
    load bp.mem bp.data (nHeaderCode w).length = nHeaderCode w ∧
      load bp.mem (bp.data + (nHeaderCode w).length) (tHeaderCode w).length = tHeaderCode w :=
  load_append.mp h.header

/-- The bytes of a header, in front of the length of a payload. -/
structure HeaderAt (bp : Abuf) (w : WsmpData) (len : ℕ) : Prop where
  header : load bp.mem bp.data (headerCode w).length = headerCode w
  len : HasAt (memBits bp.mem) (8 * (bp.data + (headerCode w).length)) (sentLenBits len)
  tail : bp.data + (headerCode w).length ≤ bp.tail

/-- A header with a PSID that has a code, in front of a payload whose length has one. -/
theorem HeaderAt.decode {len : ℕ} (h : HeaderAt bp w len) (hplain : PlainNHeader w)
    (htpid : w.tpid = 0) (hpsid : w.psid ≤ 0x1020407f) (hpos : 0 < len) (hlen : len < 0x2000) :
    ∃ st, wsmpDecodeHeader bp.mem bp.tail false (receivedState bp) = .ok () st ∧
      st.wsmp = { storedAll bp.mem (bp.data + 2) (sentElements w)
          { callocWsmp with
            protoVersion := 3
            nHeader := (countElements w).nHeader } with
        tpid := 0
        psid := w.psid } ∧
      st.payloadLen = len ∧
      8 * st.data = 8 * (bp.data + (headerCode w).length) + (sentLenBits len).length := by
  obtain ⟨hn, ht⟩ : load bp.mem bp.data (nHeaderCode w).length = nHeaderCode w ∧
      load bp.mem (bp.data + (nHeaderCode w).length) (tHeaderCode w).length = tHeaderCode w :=
    load_append.mp h.header
  have hcode : tHeaderCode w = 0 :: psidCode w.psid := by
    rw [tHeaderCode, htpid, if_pos (by decide), if_pos hpsid]
  have hall : (headerCode w).length = (nHeaderCode w).length + (1 + (psidCode w.psid).length) := by
    rw [headerCode, hcode, List.length_append, List.length_cons, Nat.add_comm 1]
  rw [hcode] at ht
  obtain ⟨hoctet, hpsidCode⟩ := load_cons.mp ht
  obtain ⟨hsize, hdecode⟩ := wsmpDecodePsid_psidCode hpsid hpsidCode
  have htail := h.tail
  obtain ⟨st₁, hrun₁, hdata₁, hwsmp₁⟩ := decodeHeader_eq bp.tail (receivedState bp) hplain hn
    (by change bp.data + 1 ≤ _; omega)
  have hdata₁' : st₁.data = bp.data + (nHeaderCode w).length := hdata₁
  rw [← hdata₁'] at hoctet hsize hdecode
  have hflag : (bp.mem st₁.data).toNat ≠ waveElemSafetyFlag := by rw [hoctet]; decide
  obtain ⟨st, hrun, hwsmp, hpayload, hcursor⟩ := decodeTHeader_psid bp.tail hflag hoctet
    (by omega)
  have hat : lenAt bp.mem st₁.data = bp.data + (headerCode w).length := by
    rw [lenAt, hoctet, if_pos (by decide), hsize, hall]
    omega
  have hbits := h.len
  rw [sentLenBits, if_pos ⟨hpos, by omega⟩] at hbits ⊢
  have hread := parse_pushedLenBits hbits
  rw [hat, hread] at hpayload hcursor
  refine ⟨st, hrun₁.trans hrun, ?_, ?_, ?_⟩
  · rw [hwsmp, hwsmp₁, hdecode, u32_natCast_of_lt (by omega)]
    rfl
  · rw [hpayload]
    dsimp only
    split_ifs <;> omega
  · rw [hcursor]
    have hmod : (pushedLenBits len).length % 8 = 0 := by
      unfold pushedLenBits
      split_ifs <;> rw [length_natBits]
    dsimp only
    omega

/-- The header of a message. -/
theorem IsMessage.headerAt (h : IsMessage bp payload (headerCode w)) (hsend : Sendable payload)
    (hpos : 0 < payloadBytes payload) : HeaderAt bp w (payloadBytes payload) := by
  refine ⟨h.header, h.len, ?_⟩
  -- the last byte of the payload is behind the header
  obtain ⟨hstart, hstop, -⟩ := hsend.trim
  have hbits : payload.bits.length = payload.stop - payload.start := length_window _ _ _
  have hend : (abufTrim payload).stop ≤ 8 * (abufTrim payload).tail + 8 := Nat.sub_le _ _
  have hfront := h.start
  rw [payloadBytes] at hpos
  rw [h.tail]
  omega

theorem IsMessage.decode (h : IsMessage bp payload (headerCode w)) (hplain : PlainNHeader w)
    (hsend : Sendable payload) (htpid : w.tpid = 0) (hpsid : w.psid ≤ 0x1020407f)
    (hpos : 0 < payloadBytes payload) (hlen : payloadBytes payload < 0x2000) :
    ∃ st, wsmpDecodeHeader bp.mem bp.tail false (receivedState bp) = .ok () st ∧
      st.wsmp = { storedAll bp.mem (bp.data + 2) (sentElements w)
          { callocWsmp with
            protoVersion := 3
            nHeader := (countElements w).nHeader } with
        tpid := 0
        psid := w.psid } ∧
      st.payloadLen = payloadBytes payload ∧ 8 * st.data = payload.start := by
  obtain ⟨st, hrun, hwsmp, hpayload, hcursor⟩ :=
    (h.headerAt hsend hpos).decode hplain htpid hpsid hpos hlen
  exact ⟨st, hrun, hwsmp, hpayload, hcursor.trans h.start⟩

/-- What a restored T header says about the bytes behind the N header, at `q`. -/
structure Delivered (bp payload : Abuf) (w : WsmpData) (q : ℕ) : Prop where
  octet : bp.mem q = w.tpid &&& 0xfe
  len : (parseAsnVariableLengthEnc bp.mem (lenAt bp.mem q) 8).1 = payloadBytes payload
  cursor : 8 * (parseAsnVariableLengthEnc bp.mem (lenAt bp.mem q) 8).2.1 = payload.start
  psid : w.tpid.toNat < 2 → w.psid < 2 ^ 31

theorem IsMessage.delivered (h : IsMessage bp payload (headerCode w)) (hplain : PlainNHeader w)
    (htpid : w.tpid.toNat ≤ 3) {st : WsmpState}
    (hrun : wsmpDecodeHeader bp.mem bp.tail false (receivedState bp) = .ok () st)
    (hst : TransportRestored w payload bp.mem st) :
    Delivered bp payload w (bp.data + (nHeaderCode w).length) := by
  obtain ⟨hn, -⟩ := h.parts
  have htail : (receivedState bp).data + 1 ≤ bp.tail := by
    obtain ⟨_, _, hbyte, -⟩ := bind_eq_ok.mp hrun
    obtain ⟨_, _, hpull, -⟩ := bind_eq_ok.mp hbyte
    exact pullBytes_eq_ok hpull
  obtain ⟨st₁, hheader, hdata₁, -⟩ := decodeHeader_eq _ _ hplain hn htail
  have hdata₁' : st₁.data = bp.data + (nHeaderCode w).length := hdata₁
  rw [hheader] at hrun
  have hflag := decodeTHeader_flag hrun
  have hoctet : bp.mem st₁.data = w.tpid &&& 0xfe :=
    (decodeTHeader_tpid hflag hrun).symm.trans hst.tpid
  have heven : (bp.mem st₁.data).toNat % 2 = 0 ∧
      (w.tpid.toNat < 2 → (bp.mem st₁.data).toNat < 2) := by
    rw [hoctet]
    rcases tpid_cases htpid with ht | ht | ht | ht <;> rw [ht] <;> decide
  obtain ⟨hlen, hcursor, hpsid⟩ := decodeTHeader_even hflag heven.1 hrun
  rw [← hdata₁']
  refine ⟨hoctet, hlen ▸ hst.payloadLen, hcursor ▸ hst.data, fun ht => ?_⟩
  obtain ⟨hlo, hhi⟩ := wsmpDecodePsid_range bp.mem (st₁.data + 1)
  rw [← hst.psid ht, hpsid (heven.2 ht), u32]
  omega

/-- Behind another T header the payload is not found. -/
theorem Delivered.condition (h : IsMessage bp payload (headerCode w)) (htpid : w.tpid.toNat ≤ 3)
    (hd : Delivered bp payload w (bp.data + (nHeaderCode w).length)) :
    w.tpid = 0 ∧ w.psid ≤ 0x1020407f ∧ 0 < payloadBytes payload ∧ payloadBytes payload < 0x2000 := by
  obtain ⟨q, hq⟩ : ∃ q, q = bp.data + (nHeaderCode w).length := ⟨_, rfl⟩
  obtain ⟨n, hn⟩ : ∃ n, n = payloadBytes payload := ⟨_, rfl⟩
  have hheader : (headerCode w).length = (nHeaderCode w).length + (tHeaderCode w).length :=
    List.length_append
  obtain ⟨hoctet, hlen, hcursor, hpsid⟩ := hd
  obtain ⟨-, ht⟩ := h.parts
  have hstart := h.start
  have hbits := h.len
  rw [hheader, ← Nat.add_assoc, ← hq, ← hn] at hstart hbits
  rw [← hq] at hoctet hlen hcursor ht
  rw [← hn] at hlen ⊢
  have hsent := length_sentLenBits n
  obtain ⟨hsmall, hread⟩ := parse_cases bp.mem (lenAt bp.mem q)
  by_cases hports : w.tpid.toNat < 2
  · have hzero : bp.mem q = 0 := by
      rw [hoctet]
      rcases tpid_cases htpid with ht | ht | ht | ht <;> rw [ht] at hports ⊢ <;> revert hports <;>
        decide
    have hat : lenAt bp.mem q = q + 1 + wsmpPsidFieldSize (bp.mem (q + 1)) := by
      rw [lenAt, hzero]
      rfl
    by_cases hmax : w.psid ≤ 0x1020407f
    · -- the octet is the one that was asked for, and the length is where it was put
      have hcode : tHeaderCode w = w.tpid :: psidCode w.psid := by
        rw [tHeaderCode, if_pos hports, if_pos hmax]
      rw [hcode] at ht hstart hbits
      obtain ⟨hfirst, hcoded⟩ := load_cons.mp ht
      obtain ⟨hsize, -⟩ := wsmpDecodePsid_psidCode hmax hcoded
      rw [List.length_cons] at hstart hbits
      rw [hat, hsize, show q + 1 + (psidCode w.psid).length = q + ((psidCode w.psid).length + 1) by
        omega] at hread hlen hcursor
      refine ⟨hfirst.symm.trans hzero, hmax, ?_⟩
      by_cases hcoded : 0 < n ∧ n < 0x4000
      · rw [sentLenBits, if_pos hcoded] at hbits
        rw [parse_pushedLenBits hbits] at hlen
        dsimp only at hlen
        split_ifs at hlen <;> omega
      · rw [if_neg hcoded] at hsent
        rcases hread with hnone | ⟨hpos, hbehind⟩
        · rw [hnone] at hlen
          dsimp only at hlen
          omega
        · omega
    by_cases hlost : w.psid < 2 ^ 31
    · -- the first byte of the length is taken for the octet
      have hcode : tHeaderCode w = [] := by
        rw [tHeaderCode, if_pos hports, if_neg hmax, if_pos hlost]
      rw [hcode, List.length_nil, Nat.add_zero] at hstart hbits
      by_cases hcoded : 0 < n ∧ n < 0x4000
      · rw [sentLenBits, if_pos hcoded] at hbits
        have hhead := pushedLenBits_head hcoded.1 hbits
        rw [hzero] at hhead
        exact absurd rfl hhead
      · rw [if_neg hcoded] at hsent
        rcases hread with hnone | ⟨hpos, hbehind⟩
        · rw [hnone] at hlen
          dsimp only at hlen
          omega
        · omega
    · exact absurd (hpsid hports) hlost
  · -- the ports have two bytes in the message, and the decoder reads four
    have hcode : tHeaderCode w = [w.tpid, UInt8.ofNat (htons w.ports.srcPort),
        UInt8.ofNat (htons w.ports.dstPort)] := by
      rw [tHeaderCode, if_neg hports]
    have htwo : (bp.mem q).toNat = 2 := by
      rw [hoctet]
      rcases tpid_cases htpid with ht | ht | ht | ht <;> rw [ht] at hports ⊢ <;> revert hports <;>
        decide
    have hat : lenAt bp.mem q = q + 5 := by
      rw [lenAt, htwo]
      rfl
    have hthree : (tHeaderCode w).length = 3 := by rw [hcode]; rfl
    rw [hthree] at hstart
    rw [hat] at hread hlen hcursor
    rcases hread with hnone | ⟨hpos, hbehind⟩
    · rw [hnone] at hlen
      dsimp only at hlen
      omega
    · split_ifs at hsent <;> omega

end Transport

section RoundTrip
variable {block : ℕ} {loadMem : ℕ → UInt8} {verbosity : ℤ} {mc : MsgContents} {w : WsmpData}

theorem TransportRoundTrip.condition (h : TransportRoundTrip block loadMem verbosity mc w)
    (hmc : mc.wsmp = some w) (hplain : PlainNHeader w) (htpid : w.tpid.toNat ≤ 3)
    (hpsid : w.psid < 2 ^ 32) (hsend : Sendable mc.abuf) : w.tpid = 0 ∧ w.psid ≤ 0x1020407f ∧
      0 < payloadBytes mc.abuf ∧ payloadBytes mc.abuf < 0x2000 := by
  have hmsg := wsmpEncode_isMessage block loadMem hmc hplain.load htpid hpsid hsend
  obtain ⟨st, hrun, hst⟩ := (transportRoundTrip_iff_header _ _ _ _ _).mp h
  exact (hmsg.delivered hplain htpid hrun hst).condition hmsg htpid

/-- The T header is restored just for a PSID that has a code and without an extension, in front of a
payload whose length has a code. -/
theorem transportRoundTrip_iff (block : ℕ) (loadMem : ℕ → UInt8) (verbosity : ℤ)
    (hmc : mc.wsmp = some w) (hplain : PlainNHeader w) (htpid : w.tpid.toNat ≤ 3)
    (hpsid : w.psid < 2 ^ 32) (hsend : Sendable mc.abuf) :
    TransportRoundTrip block loadMem verbosity mc w ↔
      w.tpid = 0 ∧ w.psid ≤ 0x1020407f ∧ 0 < payloadBytes mc.abuf ∧
        payloadBytes mc.abuf < 0x2000 := by
  refine ⟨fun h => h.condition hmc hplain htpid hpsid hsend, ?_⟩
  rintro ⟨hzero, hmax, hpos, hlen⟩
  have hmsg := wsmpEncode_isMessage block loadMem hmc hplain.load htpid hpsid hsend
  obtain ⟨st, hrun, hwsmp, hpayload, hcursor⟩ := hmsg.decode hplain hsend hzero hmax hpos hlen
  refine (transportRoundTrip_iff_header _ _ _ _ _).mpr ⟨st, hrun, ?_⟩
  constructor
  · rw [hwsmp, hzero]
    rfl
  · intro _
    rw [hwsmp]
  · intro hports
    rw [hzero] at hports
    exact absurd hports (by decide)
  · exact hpayload
  · exact hcursor
  · rw [hcursor]
    exact hmsg.bits

end RoundTrip

/-- A header with the PSID of basic safety messages, and with ports. -/
def transportHeader (tpid : UInt8) : WsmpData :=
  { callocWsmp with
    nHeader := WsmpNHeader.ofData 3
    ports := ⟨0x1234, 0x5678⟩
    tpid := tpid
    psid := 0x20 }

/-- A payload of three bytes. -/
def threeBytes : Abuf := ⟨fun _ => 0, 1, 99, 0, 8, 33, 36, 100⟩

def transportContents (tpid : UInt8) : MsgContents :=
  { freshContents threeBytes with wsmp := some (transportHeader tpid) }

theorem transportHeader_plain (tpid : UInt8) : PlainNHeader (transportHeader tpid) :=
  ⟨rfl, rfl, fun h => absurd h Bool.false_ne_true, rfl⟩

theorem threeBytes_sendable : Sendable threeBytes :=
  ⟨by decide, rfl, by decide, by decide, by decide⟩

theorem transportRoundTrip_iff_psid :
    TransportRoundTrip 1000 (fun _ => 0) 0 (transportContents 0) (transportHeader 0) :=
  (transportRoundTrip_iff 1000 (fun _ => 0) 0 rfl (transportHeader_plain 0) (by decide) (by decide)
    threeBytes_sendable).mpr (by decide)

/-- An extension that is not there is announced, and ports lose one byte each. -/
theorem not_transportRoundTrip :
    ¬ TransportRoundTrip 1000 (fun _ => 0) 0 (transportContents 1) (transportHeader 1) ∧
      ¬ TransportRoundTrip 1000 (fun _ => 0) 0 (transportContents 2) (transportHeader 2) := by
  constructor <;> intro h
  · have hzero := (h.condition rfl (transportHeader_plain 1) (by decide) (by decide)
      threeBytes_sendable).1
    exact absurd hzero (by decide)
  · have hzero := (h.condition rfl (transportHeader_plain 2) (by decide) (by decide)
      threeBytes_sendable).1
    exact absurd hzero (by decide)

end Tulux.QCoder
