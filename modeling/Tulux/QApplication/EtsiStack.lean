import Tulux.QApplication.EtsiApplication
import Tulux.QApplication.ReceiveLoops
import Tulux.QCoder.Etsi

/-! A message on its way through all layers of the ETSI stack, from `send` of one station to `receive`
of another one. The buffers of the messages are in the memory of the router. -/
namespace Tulux.QApplication
open QCoder GeoNetRouter GuardedRun

/-! ### Sending -/

/-- `fillBtp`. -/
def fillBtp (camDestinationPort : UInt16) (btp : BtpData) : BtpData :=
  { btp with pktType := btpPacketTypeB, dpInfo := 0, dPort := camDestinationPort }

section Send
variable {Cam Denm : Type} (codec : UperCodec Cam Denm) (cfg : GnConfig) (geometry : Geometry)
  (readings : Readings)

/-- `fillMsg`, with the CAM that `fillCam` makes of the location. -/
def fillMsg (camDestinationPort : UInt16) (cam : Cam) (mc : EtsiContents Cam Denm) :
    EtsiContents Cam Denm :=
  { mc with
    btp := mc.btp.map (fillBtp camDestinationPort)
    cam := some cam
    etsiMsgId := itsPduHeaderMessageIDCam }

/-- The parameters of `transmit`. `junk` is in what is never set. -/
def etsiData (junk : GnData) (bufLen : ℤ) : GnData :=
  { initDefaultGnData cfg junk with
    upperProt := .btpB
    pktType := .tsb
    isShb := true
    payloadLen := bufLen
    tc := 2 }

/-- The headroom that `Transmit` finds. -/
def headroomOf (bp : Abuf) : GeoNetRouter.MsgContents :=
  ⟨min bp.head bp.data, bp.data, min_le_right _ _⟩

/-- `transmit`, whose length is an `int16_t`. -/
def etsiTransmit (junk : GnData) (txcb : Bool) (bp : Abuf) (encLength : ℤ) (r : Router) : Outcome :=
  let bufLen := encLength.bmod (2 ^ 16)
  transmit cfg geometry readings (etsiData cfg junk bufLen) txcb (headroomOf bp) (toSizeT bufLen) r

/-- `send`, with its result, the message and the outcome of `transmit`. No length is 1 here, which
would ask for a signature. -/
def etsiSend (camDestinationPort : UInt16) (cam : Cam) (junk : GnData) (txcb : Bool)
    (mc : EtsiContents Cam Denm) (r : Router) : Option (ℤ × EtsiContents Cam Denm × Outcome) :=
  let mc := { mc with abuf := abufReset { mc.abuf with mem := r.core.mem } abufHeadroom }
  (encodeMsgEtsi codec (fillMsg camDestinationPort cam mc)).map fun (encLength, mc) =>
    let r := r.perform cfg (.write mc.abuf.mem)
    if 0 < encLength then
      (encLength, mc, etsiTransmit cfg geometry readings junk txcb mc.abuf encLength r)
    else (encLength, mc, ⟨encLength, [], r⟩)

/-! ### Receiving -/

/-- `receive` of the application. -/
def etsiApplicationReceive (mc : EtsiContents Cam Denm) (gn : GnData) (bufLen : ℕ) (r : Router) :
    Option (ℤ × EtsiContents Cam Denm × GnData × Router) :=
  let (ret, rx, r) := etsiReceiveGn cfg geometry readings ⟨mc.decoded, gn, .a, mc.abuf.data⟩ bufLen r
  let mc := { mc with
    decoded := false
    abuf := { mc.abuf with mem := r.core.mem, data := rx.data } }
  let decode (btpPktType : ℕ) :=
    (decodeMsgEtsi codec { mc with btpPktType := btpPktType }).map fun (_, mc) =>
      (ret, { mc with decoded := true }, rx.gn, r)
  if ret = 0 then
    match rx.gn.upperProt with
    | .btpA => decode btpPacketTypeA
    | .btpB => decode btpPacketTypeB
    | _ => some (-1, mc, rx.gn, r)
  else some (ret, mc, rx.gn, r)

/-- A datagram in the buffer of a message. -/
def inAbuf (datagram : List UInt8) (mem : Memory) (bp : Abuf) : Abuf :=
  let bp := abufReset bp abufHeadroom
  (abufPut { bp with mem := writeBytes mem bp.data datagram } datagram.length).2

/-- A turn of the receive loop with a datagram. -/
def etsiTurn (datagram : List UInt8) (mc : EtsiContents Cam Denm) (gn : GnData) (r : Router) :
    Option (ℤ × EtsiContents Cam Denm × GnData × Router) :=
  let bp := inAbuf datagram r.core.mem mc.abuf
  etsiApplicationReceive codec cfg geometry readings { mc with abuf := bp } gn datagram.length
    (r.perform cfg (.write bp.mem))

end Send

/-! ### From `send` to `receive` -/

section Delivery
variable {Cam Denm : Type} {codec : UperCodec Cam Denm} {cfg : GnConfig} {geometry : Geometry}
  {readings : Readings} {data : GnData} {mc : GeoNetRouter.MsgContents} {n : ℕ} {r : Router}

/-- A packet of one hop without store-carry-forward is sent at once. -/
theorem calls_transmit_shb (htype : data.pktType = .tsb) (hshb : data.isShb = true)
    (htc : tcScf data.tc = false) (hroom : 41 ≤ mc.headroom) (hn : n + 41 < 2 ^ 16) :
    (transmit cfg geometry readings data true mc n r).calls = [readBytes
      (transmit cfg geometry readings data true mc n r).router.core.mem (mc.data - 41) (41 + n)] := by
  obtain ⟨mc', hpush, hdata, -⟩ := MsgContents.push_of_le hroom
  unfold transmit transmitTsbOrShb transmitShb sendOrQueue
  rw [htype]
  dsimp only
  rw [hpush, ← hdata]
  dsimp only
  rw [hshb, if_pos rfl, htc, show (n + 41) % 2 ^ 16 = 41 + n by omega]
  simp

variable {cam : Cam} {bytes : List UInt8} {bits : ℕ} {btp : BtpData} {port : UInt16}
  {tx : EtsiContents Cam Denm}

/-- How many bytes are sent behind the headers of the router. -/
def sentLength (bytes : List UInt8) (bits : ℕ) : ℕ :=
  bytes.length + 4 + if bits % 8 = 0 then 0 else 1

/-- The buffer of a message, as it was allocated. -/
structure Allocated (bp : Abuf) : Prop where
  head : 0 < bp.head
  size : bp.size = abufLen
  fits : bp.head + bp.size + 1 < 2 ^ 64

/-- What `send` gives to the radio. -/
theorem etsiSend_sent (cfg : GnConfig) (geometry : Geometry) (readings : Readings) (port : UInt16)
    (h : EncodesCam codec cam bytes bits) (hbtp : tx.btp = some btp)
    (hbuffer : Allocated tx.abuf) (hfits : abufHeadroom + 46 + bytes.length ≤ abufLen)
    (junk : GnData) (r : Router) :
    ∃ (mc : EtsiContents Cam Denm) (r₁ : Router) (buf : GeoNetRouter.MsgContents),
      41 ≤ buf.headroom ∧
      readBytes r₁.core.mem buf.data (bytes.length + 4) = btpPacket (fillBtp port btp) bytes ∧
      etsiSend codec cfg geometry readings port cam junk true tx r =
        some ((sentLength bytes bits : ℤ), mc, transmit cfg geometry readings
          (etsiData cfg junk (sentLength bytes bits : ℤ)) true buf (sentLength bytes bits) r₁) := by
  obtain ⟨hhead, hsize, hend⟩ := hbuffer
  have hconst : abufHeadroom = 256 ∧ abufLen = 2048 := ⟨rfl, rfl⟩
  have hlength : 0 < sentLength bytes bits ∧ sentLength bytes bits < 2 ^ 15 := by
    unfold sentLength
    split_ifs <;> omega
  obtain ⟨mc, hencode, hmcHead, hmcData, hread⟩ := encodeMsgEtsi_cam
    (fillMsg port cam { tx with
      abuf := abufReset { tx.abuf with mem := r.core.mem } abufHeadroom })
    h rfl (congrArg (Option.map (fillBtp port)) hbtp) rfl hhead
    (show tx.abuf.head + 4 ≤ tx.abuf.head + abufHeadroom by omega) rfl rfl
    (show tx.abuf.head + abufHeadroom + bytes.length ≤ tx.abuf.head + tx.abuf.size by omega)
    (show tx.abuf.head + tx.abuf.size < 2 ^ 64 by omega)
  have hdata : mc.abuf.data = tx.abuf.head + abufHeadroom - 4 := hmcData
  have hhead' : mc.abuf.head = tx.abuf.head := hmcHead
  have hroom : 41 ≤ (headroomOf mc.abuf).headroom := by
    unfold MsgContents.headroom headroomOf
    dsimp only
    omega
  have hwrapped : (sentLength bytes bits : ℤ).bmod (2 ^ 16) = sentLength bytes bits :=
    Int.bmod_eq_of_le (by omega) (by omega)
  have hsizeT : toSizeT (sentLength bytes bits : ℤ) = sentLength bytes bits :=
    toSizeT_natCast (hlength.2.trans (by decide))
  refine ⟨mc, r.perform cfg (.write mc.abuf.mem), headroomOf mc.abuf, hroom, ?_, ?_⟩
  · change readBytes mc.abuf.mem mc.abuf.data _ = _
    rw [hmcData]
    exact hread
  · unfold etsiSend
    dsimp only
    rw [hencode, Option.map_some]
    dsimp only
    rw [if_pos (by unfold sentLength at hlength; omega)]
    unfold etsiTransmit
    dsimp only
    rw [← sentLength, hwrapped, hsizeT]

variable {cfg' : GnConfig} {geometry' : Geometry} {readings' : Readings}
  {rx : EtsiContents Cam Denm} {gn junk : GnData} {r₁ : Router} {txcb : Bool}

theorem inAbuf_of_fits {datagram : List UInt8} {bp : Abuf} (mem : Memory)
    (hfits : abufHeadroom + datagram.length ≤ bp.size) :
    inAbuf datagram mem bp = { abufReset bp abufHeadroom with
      mem := writeBytes mem (bp.head + abufHeadroom) datagram
      tail := bp.head + abufHeadroom + datagram.length } := by
  unfold inAbuf abufPut abufReset
  dsimp only
  rw [if_neg (by omega)]

theorem etsiApplicationReceive_btpB (codec : UperCodec Cam Denm) (mc : EtsiContents Cam Denm)
    {gn : GnData} {bufLen : ℕ} {rx' : RxContents} {r r' : Router} (hprot : rx'.gn.upperProt = .btpB)
    (hgn : etsiReceiveGn cfg geometry readings ⟨mc.decoded, gn, .a, mc.abuf.data⟩ bufLen r =
      (0, rx', r')) :
    etsiApplicationReceive codec cfg geometry readings mc gn bufLen r =
      (decodeMsgEtsi codec { mc with
        decoded := false
        abuf := { mc.abuf with mem := r'.core.mem, data := rx'.data }
        btpPktType := btpPacketTypeB }).map fun (_, mc) =>
          (0, { mc with decoded := true }, rx'.gn, r') := by
  unfold etsiApplicationReceive
  rw [hgn]
  dsimp only
  rw [if_pos rfl, hprot]

/-- The router of a receiver leaves the cursor at the message of one hop. -/
theorem etsiReceiveGn_shb (cfg' : GnConfig) (geometry' : Geometry) (readings' : Readings)
    (hroom : 41 ≤ mc.headroom) (hversion : u32 cfg.protocolVersion % 2 ^ 4 ≤ 1) (hn : n < 2 ^ 15)
    {a : ℕ} {r : Router} (hframe : readBytes r.core.mem a (41 + n) = readBytes (transmit cfg geometry
      readings (etsiData cfg junk n) txcb mc n r₁).router.core.mem (mc.data - 41) (41 + n))
    (hdisjoint : gn.dAddr + 6 ≤ a ∨ a + 41 + n ≤ gn.dAddr) (decoded : Bool) :
    ∃ r', etsiReceiveGn cfg' geometry' readings' ⟨decoded, gn, .a, a⟩ (41 + n) r =
        (0, ⟨false, receivedData cfg' (etsiData cfg junk n) gn, .a, a + 41⟩, r') ∧
      readBytes r'.core.mem (a + 41) n = readBytes r₁.core.mem mc.data n := by
  obtain ⟨hheaded, hpayload⟩ := headed_of_frame rfl hroom hframe
  have hreceive : ∃ r', receive cfg' geometry' readings' (a + 1)
      ((41 + n + (2 ^ 16 - 1)) % 2 ^ 16) gn r = (0, receivedData cfg' (etsiData cfg junk n) gn, r') ∧
        r'.core.mem = (r.headersRead cfg' (a + 1) gn.dAddr).core.mem :=
    receive_headed hheaded rfl (show UpperProtocol.btpB ≠ .any by decide) hversion (by omega)
      fun hshb => absurd hshb (show ¬ true = false by decide)
  obtain ⟨r', hreceive, hmem⟩ := hreceive
  have hgn : etsiReceiveGn cfg' geometry' readings' ⟨decoded, gn, .a, a⟩ (41 + n) r = _ :=
    etsiReceiveGn_accepted hreceive
  have hpl : (receivedData cfg' (etsiData cfg junk n) gn).payloadLen = n :=
    payloadLen_receivedData rfl (by omega)
  dsimp only at hgn
  rw [hpl, (cursor_iff (by omega) a).mpr (by omega)] at hgn
  refine ⟨r', hgn, ?_⟩
  rw [hmem, readBytes_headersRead r (by omega) (by omega), hpayload]

/-- What `receive` makes of the frame of a message of one hop. -/
theorem etsiTurn_received (h : EncodesCam codec cam bytes bits) {frame rest : List UInt8}
    (hlength : frame.length = 41 + n) (hbuffer : Allocated rx.abuf)
    (hfits : abufHeadroom + frame.length ≤ abufLen) {r' : Router} {gn' : GnData}
    (hgn : etsiReceiveGn cfg geometry readings ⟨rx.decoded, gn, .a, rx.abuf.head + abufHeadroom⟩
      frame.length (r.perform cfg (.write (writeBytes r.core.mem (rx.abuf.head + abufHeadroom) frame))) =
        (0, ⟨false, gn', .a, rx.abuf.head + abufHeadroom + 41⟩, r'))
    (hprot : gn'.upperProt = .btpB)
    (hmessage : readBytes r'.core.mem (rx.abuf.head + abufHeadroom + 41) n =
      btpPacket btp bytes ++ rest) :
    ∃ mc' gn' r', etsiTurn codec cfg geometry readings frame rx gn r = some (0, mc', gn', r') ∧
      mc'.decoded = true ∧ mc'.cam = some cam ∧
      mc'.btp = some ((rx.btp.getD callocBtp).received btp) := by
  obtain ⟨hhead, hsize, hend⟩ := hbuffer
  have hconst : abufHeadroom = 256 ∧ abufLen = 2048 := ⟨rfl, rfl⟩
  have hloaded := inAbuf_of_fits r.core.mem (show abufHeadroom + frame.length ≤ rx.abuf.size by omega)
  have hreceived := etsiApplicationReceive_btpB codec
    { rx with abuf := inAbuf frame r.core.mem rx.abuf }
    (r := r.perform cfg (.write (inAbuf frame r.core.mem rx.abuf).mem)) hprot
    (by rw [hloaded]; exact hgn)
  have hdecoded := decodeMsgEtsi_cam { rx with
      decoded := false
      abuf := { inAbuf frame r.core.mem rx.abuf with
        mem := r'.core.mem
        data := rx.abuf.head + abufHeadroom + 41 }
      btpPktType := btpPacketTypeB } h (Nat.succ_ne_zero _)
    (by rw [hloaded]; dsimp only; omega) (by rw [hloaded]; dsimp only; omega) hmessage
  unfold etsiTurn
  dsimp only
  rw [hreceived, hdecoded, Option.map_some]
  exact ⟨_, _, _, rfl, rfl, rfl, rfl⟩

end Delivery

/-- What one station sends with `send` comes out of `receive` of every station that hears it, with
the CAM and the destination port as they were, whatever the state of the two routers is and whatever
is in their memories: also when the CAM does not end with a whole byte and one byte more is sent, and
also in the contents that an earlier message was received in. -/
theorem cam_delivered {Cam Denm : Type} (codec : UperCodec Cam Denm) (cfg cfg' : GnConfig)
    (geometry geometry' : Geometry) (readings readings' : Readings) (port : UInt16) (cam : Cam)
    (bytes : List UInt8) (bits : ℕ) (tx rx : EtsiContents Cam Denm) (btp : BtpData)
    (junk gn : GnData) (r r' : Router) (hcam : EncodesCam codec cam bytes bits)
    (hversion : u32 cfg.protocolVersion % 2 ^ 4 ≤ 1)
    (hbtp : tx.btp = some btp) (htx : Allocated tx.abuf) (hrx : Allocated rx.abuf)
    (hfits : abufHeadroom + 46 + bytes.length ≤ abufLen)
    (hdisjoint : gn.dAddr + 6 ≤ rx.abuf.head ∨ rx.abuf.head + rx.abuf.size ≤ gn.dAddr) :
    ∃ mc outcome frame,
      etsiSend codec cfg geometry readings port cam junk true tx r =
        some ((sentLength bytes bits : ℤ), mc, outcome) ∧
      outcome.calls = [frame] ∧ frame.length = 41 + sentLength bytes bits ∧
      ∃ mc' gn' r'', etsiTurn codec cfg' geometry' readings' frame rx gn r' =
          some (0, mc', gn', r'') ∧ mc'.decoded = true ∧ mc'.cam = some cam ∧
        mc'.btp = some ((rx.btp.getD callocBtp).received (fillBtp port btp)) := by
  have hconst : abufHeadroom = 256 ∧ abufLen = 2048 := ⟨rfl, rfl⟩
  have hlength : bytes.length + 4 ≤ sentLength bytes bits ∧
      sentLength bytes bits ≤ bytes.length + 5 := by
    unfold sentLength
    split_ifs <;> omega
  obtain ⟨mc, r₁, buf, hroom, hpacket, hsend⟩ := etsiSend_sent cfg geometry readings port hcam hbtp htx
    hfits junk r
  have hcalls : (transmit cfg geometry readings (etsiData cfg junk (sentLength bytes bits)) true buf
      (sentLength bytes bits) r₁).calls = [_] :=
    calls_transmit_shb rfl rfl (show tcScf 2 = false by decide) hroom (by omega)
  refine ⟨mc, _, _, hsend, hcalls, length_readBytes _ _ _, ?_⟩
  set frame := readBytes (transmit cfg geometry readings (etsiData cfg junk (sentLength bytes bits))
    true buf (sentLength bytes bits) r₁).router.core.mem (buf.data - 41)
      (41 + sentLength bytes bits) with hframe
  have hframeLength : frame.length = 41 + sentLength bytes bits := length_readBytes _ _ _
  have hloaded : readBytes (writeBytes r'.core.mem (rx.abuf.head + abufHeadroom) frame)
      (rx.abuf.head + abufHeadroom) (41 + sentLength bytes bits) = frame := by
    rw [← hframeLength]
    exact readBytes_writeBytes _ _ frame
  obtain ⟨r₂, hgn, hpayload⟩ := etsiReceiveGn_shb cfg' geometry' readings' hroom hversion
    (by omega) (r := r'.perform cfg' (.write (writeBytes r'.core.mem
      (rx.abuf.head + abufHeadroom) frame))) (hloaded.trans hframe)
    (show gn.dAddr + 6 ≤ _ ∨ _ by have := hrx.size; omega) rx.decoded
  have hmessage : readBytes r₂.core.mem (rx.abuf.head + abufHeadroom + 41) (sentLength bytes bits) =
      btpPacket (fillBtp port btp) bytes ++ readBytes r₁.core.mem (buf.data + (bytes.length + 4))
        (sentLength bytes bits - (bytes.length + 4)) := by
    rw [hpayload, ← hpacket, ← readBytes_append]
    congr 1
    omega
  rw [← hframeLength] at hgn
  exact etsiTurn_received hcam hframeLength hrx (by omega) hgn rfl hmessage

/-- Messages of a header and one byte, with the layout that the header has in a CAM. -/
def sampleCodec : UperCodec UInt8 Unit where
  encodeCam cam size := if 7 ≤ size then ([1, 2, 0, 0, 0, 0, cam], 53) else ([], -1)
  decodeHeader bytes := bytes[1]?.map UInt8.toNat
  decodeCam bytes := bytes[6]?.map fun cam => (cam, 7)
  decodeDenm _ := none

theorem encodesCam_sampleCodec (cam : UInt8) :
    EncodesCam sampleCodec cam [1, 2, 0, 0, 0, 0, cam] 53 where
  length := rfl
  encodes _ hsize := if_pos hsize
  header _ := rfl
  decodes _ := rfl

def sampleContents : EtsiContents UInt8 Unit :=
  ⟨false, abufAlloc 4096 2048 256, some callocBtp, 0, 0, none, none⟩

theorem cam_delivered_sample :
    ∃ mc outcome frame,
      etsiSend sampleCodec (initDefaultConfig ⟨0, 7⟩) plane still 2001 40 anyData true sampleContents
        (.init (loaded [])) = some (12, mc, outcome) ∧
      outcome.calls = [frame] ∧ frame.length = 53 ∧
      ∃ mc' gn' r'', etsiTurn sampleCodec (initDefaultConfig ⟨0, 8⟩) plane still frame sampleContents
          anyData (.init (loaded [])) = some (0, mc', gn', r'') ∧ mc'.decoded = true ∧
        mc'.cam = some 40 ∧ mc'.btp = some ⟨0, 0, 2001, 0⟩ :=
  cam_delivered sampleCodec (initDefaultConfig ⟨0, 7⟩) (initDefaultConfig ⟨0, 8⟩) plane plane still still
    2001 40 [1, 2, 0, 0, 0, 0, 40] 53 sampleContents sampleContents callocBtp anyData anyData
    (.init (loaded [])) (.init (loaded [])) (encodesCam_sampleCodec 40) (by decide) rfl
    ⟨by decide, rfl, by decide⟩ ⟨by decide, rfl, by decide⟩ (by decide) (by decide)

end Tulux.QApplication
