import Tulux.GeoNetRouter.Packet
import Tulux.QCoder.AsnbufRead

/-! The ETSI stack of `v2x_codec.c`: BTP headers and the messages that the ASN.1 runtime encodes and
decodes. A result is `none` where the source goes through a null pointer. -/
namespace Tulux.QCoder
open GeoNetRouter

/-- `btp_data_t`. A packet type is 1 for A and 2 for B. -/
structure BtpData where
  pktType : ℕ
  sPort : UInt16
  dPort : UInt16
  dpInfo : UInt16
  deriving DecidableEq

def btpPacketTypeA : ℕ := 1

def btpPacketTypeB : ℕ := 2

/-- The parameters that `calloc` returns. -/
def callocBtp : BtpData := ⟨0, 0, 0, 0⟩

def itsPduHeaderMessageIDDenm : ℕ := 1

def itsPduHeaderMessageIDCam : ℕ := 2

/-- What the ETSI stack uses of `msg_contents`. -/
structure EtsiContents (Cam Denm : Type) where
  decoded : Bool
  abuf : Abuf
  btp : Option BtpData
  btpPktType : ℕ
  etsiMsgId : ℤ
  cam : Option Cam
  denm : Option Denm

/-- The calls of the ASN.1 runtime: what `uper_encode_to_buffer` writes into a buffer of so many bytes,
with the number of bits or a negative error, and what `uper_decode_complete` makes of the bytes that
it is given, with the number of those that it consumes. -/
structure UperCodec (Cam Denm : Type) where
  encodeCam : Cam → ℕ → List UInt8 × ℤ
  decodeHeader : List UInt8 → Option ℕ
  decodeCam : List UInt8 → Option (Cam × ℕ)
  decodeDenm : List UInt8 → Option (Denm × ℕ)

/-- A difference of pointers as a `size_t`. -/
def toSizeT (n : ℤ) : ℕ := (n % 2 ^ 64).toNat

def htonsBytes (n : UInt16) : List UInt8 := [.ofNat (n.toNat / 2 ^ 8), .ofNat n.toNat]

namespace Abuf

def write (bp : Abuf) (a : ℕ) (bytes : List UInt8) : Abuf :=
  { bp with mem := writeBytes bp.mem a bytes }

end Abuf

/-- `abuf_push`, with the data pointer that it returns. -/
def abufPush (bp : Abuf) (bytes : ℕ) : Option Abuf :=
  if (bp.data : ℤ) - bp.head < bytes then none else some { bp with data := bp.data - bytes }

section Etsi
variable {Cam Denm : Type} (codec : UperCodec Cam Denm) (mc : EtsiContents Cam Denm)

/-! ### BTP -/

/-- The second field of the header. -/
def BtpData.second (btp : BtpData) : UInt16 :=
  if btp.pktType = btpPacketTypeA then btp.sPort else btp.dpInfo

def btpEncode : Option (ℤ × EtsiContents Cam Denm) :=
  match mc.btp with
  | none => some (-1, mc)
  | some btp =>
    if mc.abuf.data = 0 then some (-1, mc)
    else if toSizeT ((mc.abuf.data : ℤ) - mc.abuf.head) < 4 then some (-1, mc)
    else
      (abufPush mc.abuf 4).map fun bp =>
        (0, { mc with abuf := bp.write bp.data (htonsBytes btp.dPort ++ htonsBytes btp.second) })

/-- Nothing sets the packet type here, nor where a message is received. -/
def btpDecode : Option (ℤ × EtsiContents Cam Denm) :=
  if mc.abuf.data = 0 then some (-1, mc)
  else
    let btp := mc.btp.getD callocBtp
    let (h, bp) := abufPull mc.abuf 4
    h.map fun h =>
      let dPort := UInt16.ofNat (ntohs bp.mem h)
      let other := UInt16.ofNat (ntohs bp.mem (h + 2))
      let btp :=
        if btp.pktType = btpPacketTypeA then { btp with dPort := dPort, sPort := other }
        else { btp with dPort := dPort, dpInfo := other }
      (0, { mc with abuf := bp, btp := some btp })

/-! ### Messages -/

def encodeAsCam : ℤ × EtsiContents Cam Denm :=
  match mc.cam with
  | none => (-1, mc)
  | some cam =>
    if mc.abuf.data = 0 then (-1, mc)
    else
      let (bytes, encoded) := codec.encodeCam cam (toSizeT ((mc.abuf.endp : ℤ) - mc.abuf.data))
      let bp := mc.abuf.write mc.abuf.data bytes
      if encoded < 0 then (-1, { mc with abuf := bp })
      else if encoded % 8 = 0 then
        (encoded / 8, { mc with abuf := (abufPutInt bp (encoded / 8)).2 })
      else
        (encoded / 8 + 1, { mc with
          abuf := { (abufPutInt bp (encoded / 8 + 1)).2 with
            tailBitsLeft := (8 - encoded % 8).toNat } })

/-- A DENM is refused where there is a buffer, and `encode_msg` has refused where there is none. -/
def encodeAsEtsi : ℤ × EtsiContents Cam Denm :=
  if mc.etsiMsgId = itsPduHeaderMessageIDCam then encodeAsCam codec mc else (-1, mc)

/-- `encode_msg` on the ETSI stack. -/
def encodeMsgEtsi : Option (ℤ × EtsiContents Cam Denm) :=
  if mc.abuf.data = 0 then some (-1, mc)
  else
    let (ret, mc) := encodeAsEtsi codec mc
    if ret < 0 then some (ret, mc)
    else
      (btpEncode mc).map fun (ret, mc) =>
        if ret < 0 then (ret, mc) else (abufByteLen mc.abuf, mc)

def decodeAsCam : ℤ × EtsiContents Cam Denm :=
  if mc.abuf.data = 0 then (-1, mc)
  else
    match codec.decodeCam (readBytes mc.abuf.mem mc.abuf.data
      (toSizeT ((mc.abuf.tail : ℤ) - mc.abuf.data))) with
    | none => (-1, mc)
    | some (cam, consumed) =>
      (0, { mc with cam := some cam, abuf := (abufPull mc.abuf consumed).2 })

def decodeAsDenm : ℤ × EtsiContents Cam Denm :=
  if mc.abuf.data = 0 then (-1, mc)
  else
    match codec.decodeDenm (readBytes mc.abuf.mem mc.abuf.data
      (toSizeT ((mc.abuf.tail : ℤ) - mc.abuf.data))) with
    | none => (-1, mc)
    | some (denm, consumed) =>
      (0, { mc with denm := some denm, abuf := (abufPull mc.abuf consumed).2 })

/-- The header is looked for in one byte more than there is. -/
def decodeAsEtsi : ℤ × EtsiContents Cam Denm :=
  if mc.abuf.data = 0 then (-1, mc)
  else
    match codec.decodeHeader (readBytes mc.abuf.mem mc.abuf.data
      (toSizeT ((mc.abuf.tail : ℤ) - mc.abuf.data + 1))) with
    | none => (-1, mc)
    | some messageID =>
      if messageID = itsPduHeaderMessageIDCam then decodeAsCam codec mc
      -- this case goes on into the default
      else if messageID = itsPduHeaderMessageIDDenm then (-1, (decodeAsDenm codec mc).2)
      else (-1, mc)

/-- `decode_msg` on the ETSI stack. -/
def decodeMsgEtsi : Option (ℤ × EtsiContents Cam Denm) :=
  if mc.abuf.data = 0 then some (-1, mc)
  else
    (btpDecode mc).map fun (ret, mc) => if ret < 0 then (ret, mc) else decodeAsEtsi codec mc

end Etsi

/-! ### What is encoded -/

/-- The runtime encodes a CAM in such bytes wherever they fit, and makes the same CAM of them also
with bytes behind. -/
structure EncodesCam {Cam Denm : Type} (codec : UperCodec Cam Denm) (cam : Cam) (bytes : List UInt8)
    (bits : ℕ) : Prop where
  length : bytes.length = (bits + 7) / 8
  encodes : ∀ size, bytes.length ≤ size → codec.encodeCam cam size = (bytes, (bits : ℤ))
  header : ∀ rest, codec.decodeHeader (bytes ++ rest) = some itsPduHeaderMessageIDCam
  decodes : ∀ rest, codec.decodeCam (bytes ++ rest) = some (cam, bytes.length)

/-- The bytes of a BTP packet. -/
def btpPacket (btp : BtpData) (bytes : List UInt8) : List UInt8 :=
  htonsBytes btp.dPort ++ htonsBytes btp.second ++ bytes

/-- The contents behind an encoded CAM. -/
def withCam {Cam Denm : Type} (mc : EtsiContents Cam Denm) (bytes : List UInt8) (bits : ℕ) :
    EtsiContents Cam Denm :=
  { mc with
    abuf := { mc.abuf.write mc.abuf.data bytes with
      tail := mc.abuf.data + bytes.length
      tailBitsLeft := if bits % 8 = 0 then mc.abuf.tailBitsLeft else 8 - bits % 8 } }

section Encode
variable {Cam Denm : Type} {codec : UperCodec Cam Denm} {mc : EtsiContents Cam Denm} {cam : Cam}
  {btp : BtpData} {bytes : List UInt8} {bits n a : ℕ} {mem : Memory} {bp : Abuf}

@[simp] theorem length_htonsBytes (n : UInt16) : (htonsBytes n).length = 2 := rfl

@[simp] theorem length_btpPacket (btp : BtpData) (bytes : List UInt8) :
    (btpPacket btp bytes).length = bytes.length + 4 := by
  simp [btpPacket]
  omega

theorem toSizeT_sub {a b : ℕ} (hle : b ≤ a) (hlt : a < 2 ^ 64) : toSizeT ((a : ℤ) - b) = a - b := by
  unfold toSizeT
  omega

theorem toSizeT_natCast (h : n < 2 ^ 64) : toSizeT n = n := by
  unfold toSizeT
  omega

theorem ntohs_of_htonsBytes {x : UInt16} (h : readBytes mem a 2 = htonsBytes x) :
    UInt16.ofNat (ntohs mem a) = x := by
  obtain ⟨-, hbytes⟩ := readBytes_eq_iff.mp h
  have hhi : mem a = .ofNat (x.toNat / 2 ^ 8) := hbytes 0 Nat.zero_lt_two
  have hlo : mem (a + 1) = .ofNat x.toNat := hbytes 1 Nat.one_lt_two
  have hlt := x.toNat_lt
  have hsum : ntohs mem a = x.toNat := by
    unfold ntohs
    rw [hhi, hlo, UInt8.toNat_ofNat', UInt8.toNat_ofNat', ← Nat.shiftLeft_add_eq_or_of_lt
      (Nat.mod_lt _ (by decide)), Nat.shiftLeft_eq]
    omega
  rw [hsum, UInt16.ofNat_toNat]

theorem encodeAsCam_of_encodes (h : EncodesCam codec cam bytes bits) (hcam : mc.cam = some cam)
    (hdata : mc.abuf.data ≠ 0) (htail : mc.abuf.tail = mc.abuf.data)
    (hroom : mc.abuf.data + bytes.length ≤ mc.abuf.endp) (hend : mc.abuf.endp < 2 ^ 64) :
    encodeAsCam codec mc = ((bytes.length : ℤ), withCam mc bytes bits) := by
  have hlength := h.length
  have hencode := h.encodes (toSizeT ((mc.abuf.endp : ℤ) - mc.abuf.data))
    (by rw [toSizeT_sub (by omega) hend]; omega)
  have hput (bytesPut : ℤ) (heq : bytesPut = bytes.length) :
      abufPutInt (mc.abuf.write mc.abuf.data bytes) bytesPut =
        (some mc.abuf.tail, { mc.abuf.write mc.abuf.data bytes with
          tail := mc.abuf.data + bytes.length }) := by
    subst heq
    unfold abufPutInt Abuf.write
    rw [htail]
    exact if_neg (by dsimp only; omega)
  unfold encodeAsCam withCam
  simp only [hcam, hencode, if_neg hdata]
  rw [if_neg (by omega)]
  by_cases hwhole : bits % 8 = 0
  · have hcount : (bits : ℤ) / 8 = bytes.length := by omega
    rw [if_pos (by omega), hput _ hcount, hcount, if_pos hwhole]
    rfl
  · have hcount : (bits : ℤ) / 8 + 1 = bytes.length := by omega
    have hleft : (8 - (bits : ℤ) % 8).toNat = 8 - bits % 8 := by omega
    rw [if_neg (by omega), hput _ hcount, hcount, hleft, if_neg hwhole]

theorem btpEncode_of_room (mc : EtsiContents Cam Denm) (hbtp : mc.btp = some btp)
    (hdata : mc.abuf.data ≠ 0) (hroom : mc.abuf.head + 4 ≤ mc.abuf.data) (hlt : mc.abuf.data < 2 ^ 64) :
    btpEncode mc = some (0, { mc with
      abuf := { mc.abuf with data := mc.abuf.data - 4 }.write (mc.abuf.data - 4)
        (htonsBytes btp.dPort ++ htonsBytes btp.second) }) := by
  have hsize : ¬ toSizeT ((mc.abuf.data : ℤ) - mc.abuf.head) < 4 := by
    rw [toSizeT_sub (by omega) hlt]
    omega
  have hpush : abufPush mc.abuf 4 = some { mc.abuf with data := mc.abuf.data - 4 } :=
    if_neg (by omega)
  unfold btpEncode
  rw [hbtp]
  dsimp only
  rw [if_neg hdata, if_neg hsize, hpush]
  rfl

/-- A CAM is encoded behind its BTP header, and the length counts one byte more where its last byte
is not full. -/
theorem encodeMsgEtsi_cam (mc : EtsiContents Cam Denm) (h : EncodesCam codec cam bytes bits)
    (hcam : mc.cam = some cam) (hbtp : mc.btp = some btp) (hid : mc.etsiMsgId = itsPduHeaderMessageIDCam)
    (hhead : 0 < mc.abuf.head) (hheadroom : mc.abuf.head + 4 ≤ mc.abuf.data)
    (htail : mc.abuf.tail = mc.abuf.data) (hleft : mc.abuf.tailBitsLeft = 8)
    (hroom : mc.abuf.data + bytes.length ≤ mc.abuf.endp) (hend : mc.abuf.endp < 2 ^ 64) :
    ∃ mc', encodeMsgEtsi codec mc =
        some (((bytes.length + 4 + if bits % 8 = 0 then 0 else 1 : ℕ) : ℤ), mc') ∧
      mc'.abuf.head = mc.abuf.head ∧ mc'.abuf.data = mc.abuf.data - 4 ∧
      readBytes mc'.abuf.mem (mc.abuf.data - 4) (bytes.length + 4) = btpPacket btp bytes := by
  have hdata : mc.abuf.data ≠ 0 := by omega
  have hpacket := btpEncode_of_room (withCam mc bytes bits) hbtp hdata hheadroom
    (show mc.abuf.data < 2 ^ 64 by omega)
  unfold encodeMsgEtsi encodeAsEtsi
  rw [if_neg hdata, if_pos hid, encodeAsCam_of_encodes h hcam hdata htail hroom hend]
  dsimp only
  rw [if_neg (by omega), hpacket]
  refine ⟨_, congrArg some (Prod.ext ?_ rfl), rfl, rfl, ?_⟩
  · change ((mc.abuf.data + bytes.length : ℕ) : ℤ) - (mc.abuf.data - 4 : ℕ) +
      (if (if bits % 8 = 0 then mc.abuf.tailBitsLeft else 8 - bits % 8) ≠ 8 then 1 else 0) = _
    rw [hleft]
    by_cases hwhole : bits % 8 = 0
    · simp only [hwhole, if_true, ne_eq, not_true_eq_false, if_false]
      omega
    · rw [if_neg hwhole, if_pos (by omega), if_neg hwhole]
      omega
  · have hposition : mc.abuf.data - 4 + 4 = mc.abuf.data := by omega
    have hheader := readBytes_writeBytes_add (writeBytes mc.abuf.mem mc.abuf.data bytes)
      (mc.abuf.data - 4) (htonsBytes btp.dPort ++ htonsBytes btp.second) bytes.length
    rw [Nat.add_comm bytes.length]
    refine hheader.trans (congrArg (htonsBytes btp.dPort ++ htonsBytes btp.second ++ ·) ?_)
    change readBytes _ (mc.abuf.data - 4 + 4) bytes.length = bytes
    rw [hposition, readBytes_writeBytes]

/-! ### What is decoded -/

/-- The parameters of a received packet. Its type is not among them, and nothing else sets it. -/
def BtpData.received (base btp : BtpData) : BtpData :=
  if base.pktType = btpPacketTypeA then { base with dPort := btp.dPort, sPort := btp.second }
  else { base with dPort := btp.dPort, dpInfo := btp.second }

theorem abufPull_of_le {bp : Abuf} {bytes : ℕ} (h : bp.data + bytes ≤ bp.tail) :
    abufPull bp bytes = (some bp.data, { bp with data := bp.data + bytes }) := by
  unfold abufPull
  rw [if_neg (not_lt.mpr h)]

theorem btpDecode_of_packet {rest : List UInt8} (hdata : mc.abuf.data ≠ 0)
    (hread : readBytes mc.abuf.mem mc.abuf.data n = htonsBytes btp.dPort ++ htonsBytes btp.second ++ rest)
    (hn : mc.abuf.data + n ≤ mc.abuf.tail) :
    btpDecode mc = some (0, { mc with
      abuf := { mc.abuf with data := mc.abuf.data + 4 }
      btp := some ((mc.btp.getD callocBtp).received btp) }) := by
  have hlength := congrArg List.length hread
  simp only [length_readBytes, List.length_append, length_htonsBytes] at hlength
  have hdPort : UInt16.ofNat (ntohs mc.abuf.mem mc.abuf.data) = btp.dPort :=
    ntohs_of_htonsBytes (readBytes_part (k := 0) hread (by omega))
  have hother : UInt16.ofNat (ntohs mc.abuf.mem (mc.abuf.data + 2)) = btp.second :=
    ntohs_of_htonsBytes (readBytes_part (k := 2) hread (by omega))
  unfold btpDecode
  rw [if_neg hdata, abufPull_of_le (show mc.abuf.data + 4 ≤ mc.abuf.tail by omega)]
  dsimp only [Option.map_some]
  rw [hdPort, hother]
  rfl

/-- A CAM is decoded, also with bytes behind it. -/
theorem decodeAsEtsi_cam {rest : List UInt8} (mc : EtsiContents Cam Denm)
    (h : EncodesCam codec cam bytes bits) (hdata : mc.abuf.data ≠ 0)
    (htail : mc.abuf.data + n = mc.abuf.tail) (hmax : mc.abuf.tail + 1 < 2 ^ 64)
    (hread : readBytes mc.abuf.mem mc.abuf.data n = bytes ++ rest) :
    decodeAsEtsi codec mc = (0, { mc with
      abuf := { mc.abuf with data := mc.abuf.data + bytes.length }
      cam := some cam }) := by
  have hlength := congrArg List.length hread
  rw [length_readBytes, List.length_append] at hlength
  have hsize : toSizeT ((mc.abuf.tail : ℤ) - mc.abuf.data) = n := by
    rw [toSizeT_sub (by omega) (by omega)]
    omega
  have hsize' : toSizeT ((mc.abuf.tail : ℤ) - mc.abuf.data + 1) = n + 1 := by
    have hsum : (mc.abuf.tail : ℤ) - mc.abuf.data + 1 = (mc.abuf.tail + 1 : ℕ) - mc.abuf.data := by
      omega
    rw [hsum, toSizeT_sub (by omega) hmax]
    omega
  have hheader : codec.decodeHeader (readBytes mc.abuf.mem mc.abuf.data (n + 1)) =
      some itsPduHeaderMessageIDCam := by
    rw [readBytes_append, hread, List.append_assoc]
    exact h.header _
  have hcam : decodeAsCam codec mc = (0, { mc with
      abuf := { mc.abuf with data := mc.abuf.data + bytes.length }
      cam := some cam }) := by
    unfold decodeAsCam
    rw [if_neg hdata, hsize, hread, h.decodes rest]
    dsimp only
    rw [abufPull_of_le (by omega)]
  unfold decodeAsEtsi
  rw [if_neg hdata, hsize', hheader]
  exact (if_pos rfl).trans hcam

/-- A packet with a CAM is decoded. -/
theorem decodeMsgEtsi_cam (mc : EtsiContents Cam Denm) {rest : List UInt8}
    (h : EncodesCam codec cam bytes bits) (hdata : mc.abuf.data ≠ 0) (htail : mc.abuf.data + n = mc.abuf.tail)
    (hmax : mc.abuf.tail + 1 < 2 ^ 64)
    (hread : readBytes mc.abuf.mem mc.abuf.data n = btpPacket btp bytes ++ rest) :
    decodeMsgEtsi codec mc = some (0, { mc with
      abuf := { mc.abuf with data := mc.abuf.data + 4 + bytes.length }
      btp := some ((mc.btp.getD callocBtp).received btp)
      cam := some cam }) := by
  have hlength := congrArg List.length hread
  rw [length_readBytes, List.length_append, length_btpPacket] at hlength
  rw [btpPacket, List.append_assoc] at hread
  have hmessage : readBytes mc.abuf.mem (mc.abuf.data + 4) (n - 4) = bytes ++ rest := by
    rw [readBytes_part hread (by omega)]
    change (bytes ++ rest).take (n - 4) = bytes ++ rest
    exact List.take_of_length_le (by rw [List.length_append]; omega)
  unfold decodeMsgEtsi
  rw [if_neg hdata, btpDecode_of_packet hdata hread htail.le, Option.map_some]
  dsimp only
  rw [if_neg (lt_irrefl _)]
  have hrest : mc.abuf.data + 4 + (n - 4) = mc.abuf.tail := by omega
  exact congrArg some (decodeAsEtsi_cam _ h (Nat.succ_ne_zero _) hrest hmax hmessage)

end Encode

end Tulux.QCoder
