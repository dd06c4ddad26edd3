import Tulux.QCoder.Ieee16092
import Tulux.QCoder.J2735RoundTrip
import Tulux.QCoder.WsmpTransport

/-! `decode_msg` of `v2x_codec.c` on the SAE stack, and a message without Part II through all
layers. -/
namespace Tulux.QCoder
open BitString ByteCode

/-! ### The decoder -/

/-- The result of the decoder of the message is dropped, and the message id is returned. -/
def decodeAsJ2735 (mc : MsgContents) : ℤ × MsgContents :=
  if mc.abuf.data ≠ 0 ∧ 4 < (mc.abuf.tail - mc.abuf.data : ℤ) then
    let msgId := ntohs mc.abuf.mem mc.abuf.data
    let mc := { mc with
      abuf.data := mc.abuf.data + 2
      j2735MsgId := msgId
      msgId := msgId }
    if msgId = j2735MsgidBasicSafety then
      let (msgLen, data, _) := parseAsnVariableLengthEnc mc.abuf.mem mc.abuf.data 8
      (msgId, { mc with
        abuf.data := data
        payloadLen := msgLen
        j2735Msg := some (decodeAsBsm mc.abuf.mem data msgLen callocBsm).2 })
    else (msgId, mc)
  else (0, mc)

/-- A result is 1 for a message that is signed or encrypted. Nothing is a read through a null
pointer. -/
def decodeMsg (savari : Bool) (verbosity : ℤ) (mc : MsgContents) : Option (ℤ × MsgContents) :=
  if mc.abuf.data = 0 then some (-1, mc)
  else
    match wsmpDecode savari verbosity ⟨mc, mc.abuf.data⟩ with
    | .error .nullPointer _ => none
    | .error (.retcode code) rx => some (code, rx.mc)
    | .ok _ rx =>
      (ieee16092DecodeUnsecured rx.mc).bind fun mc => mc.ieee16092Data.map fun ie =>
        if ie.content ≠ unsecuredData then (1, mc)
        else
          let (ret, mc) := decodeAsJ2735 mc
          (if ret < 0 then ret else 0, mc)

/-! ### Messages -/

/-- A message without Part II, with the records of all layers, in a fresh buffer. -/
structure PartIMessage (mc : MsgContents) (v : BsmValue) (w : WsmpData) (ie : Ieee16092Data) :
    Prop where
  message : mc.j2735Msg = some v
  header : mc.wsmp = some w
  security : mc.ieee16092Data = some ie
  buffer : MessageBuffer mc.abuf
  core : CoreFits v
  noPartII : v.hasPartII = 0
  plain : PlainNHeader w
  tpid : w.tpid = 0
  psid : w.psid ≤ 0x1020407f
  unsecured : ie.content = unsecuredData

/-- The bytes that were sent, and nothing else. -/
structure Received (out : Abuf) (len : ℤ) (rx : Abuf) : Prop where
  data : 0 < rx.data
  tail : (rx.tail : ℤ) = rx.data + len
  bytes : ∀ i : ℕ, (i : ℤ) < len → rx.mem (rx.data + i) = out.mem (out.data + i)

/-- The core data, with the 15 bits of the brake status that are encoded. -/
structure CoreRestored (v b : BsmValue) : Prop where
  hasPartII : b.hasPartII = v.hasPartII
  msgCount : b.msgCount = v.msgCount
  id : b.id = v.id
  secMarkMs : b.secMarkMs = v.secMarkMs
  latitude : b.latitude = v.latitude
  longitude : b.longitude = v.longitude
  elevation : b.elevation = v.elevation
  semiMajorAxisAccuracy : b.semiMajorAxisAccuracy = v.semiMajorAxisAccuracy
  semiMinorAxisAccuracy : b.semiMinorAxisAccuracy = v.semiMinorAxisAccuracy
  semiMajorAxisOrientation : b.semiMajorAxisOrientation = v.semiMajorAxisOrientation
  transmissionState : b.transmissionState = v.transmissionState
  speed : b.speed = v.speed
  headingDegrees : b.headingDegrees = v.headingDegrees
  steeringWheelAngle : b.steeringWheelAngle = v.steeringWheelAngle
  accelLon : b.accelLon = v.accelLon
  accelLat : b.accelLat = v.accelLat
  accelVert : b.accelVert = v.accelVert
  accelYaw : b.accelYaw = v.accelYaw
  brakes : b.brakes / 2 = v.brakes / 2
  vehicleWidthCm : b.vehicleWidthCm = v.vehicleWidthCm
  vehicleLengthCm : b.vehicleLengthCm = v.vehicleLengthCm

/-- The decoder has the PSID, the security header and the core data of the message. -/
structure Restored (v : BsmValue) (w : WsmpData) (ie : Ieee16092Data) (mc : MsgContents) :
    Prop where
  psid : mc.wsmp.map WsmpData.psid = some w.psid
  security : mc.ieee16092Data = some ie
  core : ∃ b, mc.j2735Msg = some b ∧ CoreRestored v b

/-- A length is returned, and its bytes are decoded. -/
def SaeRoundTrip (block header : ℕ) (loadMem : ℕ → UInt8) (verbosity : ℤ) (mc : MsgContents)
    (v : BsmValue) (w : WsmpData) (ie : Ieee16092Data) : Prop :=
  let (len, out) := encodeMsg block header loadMem mc
  1 < len ∧ ∀ rx, Received out.abuf len rx →
    ∃ mc', decodeMsg false verbosity (freshContents rx) = some (0, mc') ∧ Restored v w ie mc'

/-! ### The bits that are sent -/

/-- The message in its security header. -/
def securedBits (v : BsmValue) (ie : Ieee16092Data) : List Bool :=
  unsecuredBits ie ++ cerLenBits 40 ++ messageBits v

def saeBits (v : BsmValue) (w : WsmpData) (ie : Ieee16092Data) : List Bool :=
  byteBits (headerCode w) ++ sentLenBits 43 ++ securedBits v ie

section Encode
variable {block : ℕ} {mc : MsgContents} {v : BsmValue} {w : WsmpData}
  {ie : Ieee16092Data}

theorem length_messageBits (h : v.hasPartII = 0) : (messageBits v).length = 317 := by
  have hbsm : (bsmBits v).length = 293 := by
    rw [bsmBits, if_neg (not_not_intro h), List.append_nil, length_coreBits]
  rw [messageBits, List.length_append, List.length_append, hbsm, length_natBits]
  rfl

theorem length_securedBits (h : v.hasPartII = 0) : (securedBits v ie).length = 341 := by
  rw [securedBits, List.length_append, List.length_append, length_messageBits h]
  rfl

theorem length_saeBits (h : v.hasPartII = 0) :
    (saeBits v w ie).length = 8 * (headerCode w).length + 349 := by
  rw [saeBits, List.length_append, List.length_append, length_byteBits, length_securedBits h]
  rfl

/-- The message in the buffer, with room in front of it. -/
structure Prepared (bp : Abuf) (s : List Bool) (room : ℕ) : Prop where
  head : 0 < bp.head
  start : bp.start = 8 * bp.data
  room : bp.head + room ≤ bp.data
  bits : bp.bits = s
  length : bp.start + s.length = bp.stop
  bitsLeft : bp.tailBitsLeft = 3

theorem PartIMessage.encodeBsm (h : PartIMessage mc v w ie) (hblock : 0 < block) :
    Prepared (encodeAsBsm block v mc.abuf) (messageBits v) 29 := by
  obtain ⟨hholds, hstart, hspace, hhead, -⟩ :=
    h.buffer.encodeAsBsm (v := v) hblock fun hne => absurd h.noPartII hne
  have hroom := h.buffer.headroom
  have hlen : (lenBits (((bsmBits v).length + 7) / 8)).length = 8 := by
    rw [bsmBits, if_neg (not_not_intro h.noPartII), List.append_nil, length_coreBits]
    rfl
  have hlength := hholds.length
  have hleft := hholds.bitsLeft
  have hdata : (encodeAsBsm block v mc.abuf).start = 8 * (encodeAsBsm block v mc.abuf).data := by
    rw [Abuf.start, hspace, Nat.add_zero]
  refine ⟨hhead ▸ h.buffer.head, hdata, by omega, ?_, hlength, ?_⟩
  · have hat := hholds.bits
    rw [Abuf.bits, ← hlength, Nat.add_sub_cancel_left]
    exact hat
  · rw [length_messageBits h.noPartII, Abuf.stop] at hlength
    omega

theorem Prepared.pushed {bp bp' : Abuf} {s t : List Bool} {room n : ℕ} (h : Prepared bp s room)
    (hpushed : Pushed bp bp' t) (ht : t.length = 8 * n) (hn : n ≤ room) :
    Prepared bp' (t ++ s) (room - n) := by
  have hstart := hpushed.start
  have hspace := hpushed.headspace
  have hdata : bp'.start = 8 * bp'.data + bp'.headHeadspaceBits := rfl
  have hhead := hpushed.back.head
  have hlength := h.length
  have hroom := h.room
  have hfront := h.start
  have hstop : bp'.stop = bp.stop := by
    rw [Abuf.stop, Abuf.stop, hpushed.back.tail, hpushed.back.bitsLeft]
  refine ⟨hhead ▸ h.head, by omega, by omega, ?_, ?_, hpushed.back.bitsLeft.trans h.bitsLeft⟩
  · rw [hpushed.bits, h.bits]
  · rw [List.length_append]
    omega

theorem Prepared.byteLen {bp : Abuf} {s : List Bool} {room : ℕ} (h : Prepared bp s room) :
    abufByteLen bp = ((s.length + 7) / 8 : ℕ) := by
  have hlength := h.length
  have hstart := h.start
  rw [Abuf.stop, h.bitsLeft] at hlength
  rw [abufByteLen, h.bitsLeft, if_pos (by norm_num)]
  omega

theorem Prepared.aligned {bp : Abuf} {s : List Bool} {room : ℕ} (h : Prepared bp s room) :
    bp.headHeadspaceBits = 0 := by
  have hstart := h.start
  have hdata : bp.start = 8 * bp.data + bp.headHeadspaceBits := rfl
  omega

theorem Prepared.bitsLen {bp : Abuf} {s : List Bool} {room : ℕ} (h : Prepared bp s room) :
    abufBitsLen bp = s.length := by
  have hlength := h.length
  have hstart := h.start
  rw [Abuf.stop, h.bitsLeft] at hlength
  rw [abufBitsLen, h.bitsLeft, h.aligned]
  omega

theorem Prepared.settled {bp : Abuf} {s : List Bool} {room : ℕ} (h : Prepared bp s room) :
    Settled bp := by
  have hhead := h.head
  have hroom := h.room
  refine ⟨hhead, by omega, ?_, ?_, ?_⟩
  · rw [h.aligned]
    norm_num
  · rw [h.bitsLeft]
    norm_num
  · rw [h.byteLen]
    exact Int.natCast_nonneg _

theorem Prepared.sendable {bp : Abuf} {s : List Bool} {room : ℕ} (h : Prepared bp s room)
    (hroom : 24 ≤ room) : Sendable bp := by
  have hle := h.room
  have hlength := h.length
  refine ⟨h.head, h.aligned, ?_, by omega, by omega⟩
  rw [h.bitsLeft]
  norm_num

theorem Prepared.wrappable {s : List Bool} {room : ℕ} (h : Prepared mc.abuf s room)
    (hroom : 3 ≤ room) (hlen : s.length = 317) (hsecurity : mc.ieee16092Data = some ie)
    (hunsecured : ie.content = unsecuredData) : Wrappable mc ie := by
  have hle := h.room
  have hlength := h.length
  have hstart := h.start
  have hcer : (cerLenBits ((mc.abuf.bits.length + 7) / 8)).length = 8 := by
    rw [h.bits, hlen]
    rfl
  refine ⟨hsecurity, ?_, h.head, ?_, ?_, by omega, by omega, by omega⟩
  · rw [hunsecured]
    decide
  · rw [h.aligned]
    norm_num
  · rw [h.bitsLeft]
    norm_num

theorem length_headerCode_le (hpsid : w.psid ≤ 0x1020407f) (htpid : w.tpid = 0) :
    (headerCode w).length ≤ 16 := by
  have hn := length_nHeaderCode_le w
  have hsize := psidSize_mem w.psid
  rw [headerCode, tHeaderCode, htpid, if_pos (by decide), if_pos hpsid, List.length_append,
    List.length_cons, length_psidCode]
  omega

/-- The layers put their bits in front of the message, and the number of bytes is returned. -/
theorem PartIMessage.encodeMsg (h : PartIMessage mc v w ie) (header : ℕ) (loadMem : ℕ → UInt8)
    (hblock : 0 < block) :
    ∃ out : MsgContents, encodeMsg block header loadMem mc =
        (((((saeBits v w ie).length + 7) / 8 : ℕ) : ℤ), out) ∧
      Prepared out.abuf (saeBits v w ie) (25 - (headerCode w).length) := by
  have hbsm := h.encodeBsm hblock
  have hlen := length_messageBits h.noPartII
  have hdata : mc.abuf.data ≠ 0 := by
    have hhead := h.buffer.head
    have hroom := h.buffer.headroom
    omega
  -- the message
  obtain ⟨mc₁, hmc₁⟩ : ∃ mc₁ : MsgContents, mc₁ = { mc with
    j2735MsgId := j2735MsgidBasicSafety
    abuf := encodeAsBsm block v mc.abuf } := ⟨_, rfl⟩
  have hj2735 : encodeAsJ2735 block { mc with j2735MsgId := j2735MsgidBasicSafety } = (0, mc₁) := by
    rw [hmc₁]
    exact encodeAsJ2735_eq block hdata h.message rfl
  have habuf₁ : mc₁.abuf = encodeAsBsm block v mc.abuf := by rw [hmc₁]
  rw [← habuf₁] at hbsm
  -- the security header
  have hwrap : Wrappable mc₁ ie :=
    hbsm.wrappable (by norm_num) hlen (by rw [hmc₁]; exact h.security) h.unsecured
  have hbits : mc₁.abuf.bits.length = 317 := by rw [hbsm.bits, hlen]
  obtain ⟨abuf₂, hsecure, hpushed₂⟩ := hwrap.pushed (by omega) (by omega)
  have hbitsLen := hbsm.bitsLen
  rw [ieee16092EncodeUnsecuredInt_eq (by omega) (by omega)] at hsecure
  rw [hbits] at hpushed₂
  have hsecured : Prepared abuf₂ (securedBits v ie) 26 :=
    hbsm.pushed hpushed₂ (n := 3) rfl (by norm_num)
  -- the WSMP header
  obtain ⟨mc₂, hmc₂⟩ : ∃ mc₂ : MsgContents, mc₂ = { mc₁ with abuf := abuf₂ } := ⟨_, rfl⟩
  have habuf₂ : mc₂.abuf = abuf₂ := by rw [hmc₂]
  have hwsmp : mc₂.wsmp = some w := by rw [hmc₂, hmc₁]; exact h.header
  rw [← hmc₂] at hsecure
  rw [← habuf₂] at hsecured
  have htpid := h.tpid
  have hpsid := h.psid
  have hpushed := wsmpEncode_pushed header loadMem hwsmp h.plain.load (by rw [htpid]; decide)
    (by omega) (hsecured.sendable (by norm_num))
  have htrim : abufTrim mc₂.abuf = mc₂.abuf := by
    rw [abufTrim_aligned hsecured.aligned, if_neg]
    rw [hsecured.bitsLeft]
    norm_num
  have hpayload : payloadBytes mc₂.abuf = 43 := by
    rw [payloadBytes, hsecured.bits, length_securedBits h.noPartII]
  have hcode := length_headerCode_le hpsid htpid
  rw [htrim, hpayload] at hpushed
  have hall : Prepared (wsmpEncode header loadMem mc₂).2.abuf (saeBits v w ie)
      (26 - ((headerCode w).length + 1)) := by
    refine hsecured.pushed hpushed ?_ (by omega)
    rw [List.length_append, length_byteBits]
    exact (Nat.mul_succ 8 _).symm
  have hresult : 0 ≤ (wsmpEncode header loadMem mc₂).1 := by
    rw [wsmpEncode, hwsmp]
    exact ((encodeWsm2016_spec header loadMem w hsecured.settled).2 (by rw [htpid]; decide)).1
  refine ⟨(wsmpEncode header loadMem mc₂).2, ?_, by rwa [show 25 - (headerCode w).length =
    26 - ((headerCode w).length + 1) by omega]⟩
  unfold QCoder.encodeMsg
  rw [if_neg hdata, hj2735]
  dsimp only
  rw [if_neg (lt_irrefl 0), hsecure]
  dsimp only
  rw [if_neg (by norm_num), if_neg hresult.not_gt, hall.byteLen]

end Encode

/-! ### The bits that are received -/

section Decode
variable {mc : MsgContents} {rx : Abuf} {v : BsmValue} {w : WsmpData} {ie : Ieee16092Data}

theorem coreRestored_takeCore (h : CoreFits v) (hno : v.hasPartII = 0) :
    CoreRestored v (takeCore v callocBsm) := by
  have hbrakes := h.brakes.2
  have hwidth := h.vehicleWidthCm
  constructor <;> try rfl
  · exact (if_neg (not_not_intro hno)).trans hno.symm
  · change (v.brakes + v.vehicleWidthCm / 2 ^ 9) / 2 = v.brakes / 2
    omega

theorem decodeAsJ2735_of_hasAt
    (h : HasAt (memBits mc.abuf.mem) (8 * mc.abuf.data) (messageBits v)) (hcore : CoreFits v)
    (hno : v.hasPartII = 0) (hdata : mc.abuf.data ≠ 0)
    (htail : mc.abuf.data + 40 ≤ mc.abuf.tail) :
    decodeAsJ2735 mc = (20, { mc with
      msgId := 20
      abuf.data := mc.abuf.data + 3
      payloadLen := 37
      j2735Msg := some (takeCore v callocBsm)
      j2735MsgId := 20 }) := by
  obtain ⟨p, hp⟩ : ∃ p, p = mc.abuf.data := ⟨_, rfl⟩
  have hbsm : bsmBits v = coreBits v := by
    rw [bsmBits, if_neg (not_not_intro hno), List.append_nil]
  have hlen : lenBits (((bsmBits v).length + 7) / 8) = lenBits 37 := by
    rw [hbsm, length_coreBits]
  rw [messageBits, hlen, hbsm, ← hp] at h
  have hid := ntohs_of_hasAt h.left
  have hrest := h.right
  rw [length_natBits] at hrest
  have hparse := parseAsnVariableLengthEnc_of_hasAt hrest.left (by norm_num)
  have hcoreBits := hrest.right
  rw [show (lenBits 37).length = 8 by rfl] at hparse hcoreBits
  rw [show (8 * p + 16) / 8 = p + 2 by omega, show 8 - (8 * p + 16) % 8 = 8 by omega,
    show (8 * p + 16 + 8) / 8 = p + 3 by omega] at hparse
  rw [show 8 * p + 16 + 8 = 8 * (p + 3) by omega] at hcoreBits
  have hdecode : decodeAsBsm mc.abuf.mem (p + 3) ((37 : ℕ) : ℤ) callocBsm =
      (0, takeCore v callocBsm) := by
    rw [decodeAsBsm_of_core hcore hcoreBits le_rfl, if_neg (not_not_intro hno)]
  unfold decodeAsJ2735
  rw [if_pos ⟨hdata, by omega⟩, ← hp]
  dsimp only
  rw [hid, if_pos (by decide), hparse]
  dsimp only
  rw [hdecode]
  rfl

theorem Received.hasAt {out : Abuf} {len : ℕ} {s : List Bool} (h : Received out len rx)
    (hbits : HasAt (memBits out.mem) (8 * out.data) s) (hlen : s.length ≤ 8 * len) :
    HasAt (memBits rx.mem) (8 * rx.data) s := by
  refine hasAt_shift hbits fun i hi => ?_
  have hbyte := h.bytes (i / 8) (by omega)
  rw [memBits, memBits, show (8 * rx.data + i) / 8 = rx.data + i / 8 by omega,
    show (8 * out.data + i) / 8 = out.data + i / 8 by omega, hbyte,
    show (8 * rx.data + i) % 8 = (8 * out.data + i) % 8 by omega]

/-- Every layer takes its bits. -/
theorem PartIMessage.decodeMsg (h : PartIMessage mc v w ie) (verbosity : ℤ) (hdata : 0 < rx.data)
    (htail : rx.tail = rx.data + ((saeBits v w ie).length + 7) / 8)
    (hbits : HasAt (memBits rx.mem) (8 * rx.data) (saeBits v w ie)) :
    ∃ mc', decodeMsg false verbosity (freshContents rx) = some (0, mc') ∧
      Restored v w ie mc' := by
  rw [length_saeBits h.noPartII] at htail
  have hlenBits : (sentLenBits 43).length = 8 := rfl
  -- the WSMP header
  have hfront := hbits.left
  have hlen := hfront.right
  rw [length_byteBits, ← Nat.mul_add] at hlen
  have hheader : HeaderAt rx w 43 := ⟨hasAt_byteBits.mp hfront.left, hlen, by omega⟩
  obtain ⟨st, hrun, hwsmp, -, hcursor⟩ :=
    hheader.decode h.plain h.tpid h.psid (by norm_num) (by norm_num)
  obtain ⟨r, hr, hmc⟩ := wsmpDecode_eq_ok verbosity hrun
  have hst : st.data = rx.data + (headerCode w).length + 1 := by omega
  -- the security header
  have hsecured := hbits.right
  rw [List.length_append, length_byteBits, hlenBits,
    show 8 * rx.data + (8 * (headerCode w).length + 8) = 8 * st.data by omega] at hsecured
  have hcontent : { ie with content := ie.content % 64 } = ie := by
    have hzero := h.unsecured
    obtain ⟨version, tagclass, content⟩ := ie
    obtain rfl : content = 0 := hzero
    rfl
  have hunsecured : ieee16092DecodeUnsecured r.mc = _ :=
    decodeUnsecured_of_hasAt (by rw [hmc]; exact hsecured.left) (by norm_num)
      (by rw [hmc]; change st.data < rx.tail; omega)
  rw [hcontent] at hunsecured
  obtain ⟨mc₁, hmc₁⟩ : ∃ mc₁ : MsgContents, mc₁ = { r.mc with
      abuf.data := r.mc.abuf.data + 2 + (cerLenBits 40).length / 8
      payloadLen := (40 : ℕ)
      ieee16092Data := some ie } := ⟨_, rfl⟩
  rw [← hmc₁] at hunsecured
  -- the message
  have hmem : mc₁.abuf.mem = rx.mem := by rw [hmc₁, hmc]; rfl
  have hdata₁ : mc₁.abuf.data = st.data + 3 := by rw [hmc₁, hmc]; rfl
  have htail₁ : mc₁.abuf.tail = rx.tail := by rw [hmc₁, hmc]; rfl
  have hmessage := hsecured.right
  rw [show 8 * st.data + (unsecuredBits ie ++ cerLenBits 40).length = 8 * (st.data + 3) by
    rw [Nat.mul_add]; rfl, ← hmem, ← hdata₁] at hmessage
  have hj2735 := decodeAsJ2735_of_hasAt hmessage h.core h.noPartII (by omega) (by omega)
  have hsecurity : mc₁.ieee16092Data = some ie := by rw [hmc₁]
  have hpsid : mc₁.wsmp.map WsmpData.psid = some w.psid := by
    rw [hmc₁, hmc]
    dsimp only
    rw [hwsmp]
    rfl
  refine ⟨(decodeAsJ2735 mc₁).2, ?_, ?_⟩
  swap
  · rw [hj2735]
    exact ⟨hpsid, hsecurity, _, rfl, coreRestored_takeCore h.core h.noPartII⟩
  have hne : (freshContents rx).abuf.data ≠ 0 := hdata.ne'
  unfold QCoder.decodeMsg
  rw [if_neg hne]
  change (match wsmpDecode false verbosity (receive rx) with
    | .error .nullPointer _ => none
    | .error (.retcode code) rx => some (code, rx.mc)
    | .ok _ rx => _) = _
  rw [hr]
  dsimp only
  rw [hunsecured, Option.bind_some, hsecurity, Option.map_some, if_neg (not_not_intro h.unsecured),
    hj2735]
  rfl

end Decode

/-- A message without Part II comes back through all layers: the number of its bytes is returned,
and the decoder restores it from them, wherever they are received. -/
theorem saeRoundTrip {block : ℕ} (header : ℕ) (loadMem : ℕ → UInt8) (verbosity : ℤ)
    {mc : MsgContents} {v : BsmValue} {w : WsmpData} {ie : Ieee16092Data}
    (h : PartIMessage mc v w ie) (hblock : 0 < block) :
    SaeRoundTrip block header loadMem verbosity mc v w ie := by
  obtain ⟨out, hencode, hout⟩ := h.encodeMsg header loadMem hblock
  have hlen : (saeBits v w ie).length = _ := length_saeBits h.noPartII
  have hbits := hasAt_bits out.abuf
  rw [hout.bits, hout.start] at hbits
  unfold SaeRoundTrip
  rw [hencode]
  refine ⟨by omega, fun rx hrx => ?_⟩
  have htail := hrx.tail
  exact h.decodeMsg verbosity hrx.data (by omega) (hrx.hasAt hbits (by omega))

def zeroMessage : MsgContents :=
  { freshContents sampleBuffer with
    wsmp := some (transportHeader 0)
    j2735Msg := some callocBsm
    ieee16092Data := some callocIeee16092 }

theorem saeRoundTrip_zero : SaeRoundTrip 5000 1 (fun _ => 0) 0 zeroMessage callocBsm
    (transportHeader 0) callocIeee16092 := by
  have hcore : CoreFits callocBsm := by constructor <;> simp [callocBsm]
  refine saeRoundTrip 1 (fun _ => 0) 0 ⟨rfl, rfl, rfl, sampleBuffer_fresh, hcore, rfl, ?_, rfl, ?_,
    rfl⟩ (by norm_num)
  · exact ⟨rfl, rfl, fun h => absurd h (by decide), rfl⟩
  · decide

end Tulux.QCoder
