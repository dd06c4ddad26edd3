import Tulux.GeoNetRouter.RoundTrip
import Tulux.GeoNetRouter.Runs

/-! What `EtsiApplication` does with a received frame, and what it gets of a frame that another
router has built. -/
namespace Tulux.QApplication
open QCoder GeoNetRouter

inductive BtpPacketType where
  | a
  | b

/-- What `receive` uses of `msg_contents`: `data` is the cursor of its buffer. -/
structure RxContents where
  decoded : Bool
  gn : GnData
  btpPktType : BtpPacketType
  data : ℕ

/-- `abuf_pull`, which takes an `int`. -/
def RxContents.pull (mc : RxContents) (bytes : ℤ) : RxContents :=
  { mc with data := (mc.data + bytes).toNat }

section Receive
variable (cfg : GnConfig) (geometry : Geometry) (readings : Readings)

/-- `receive` up to the removal of the headers. The lengths have 16 bits. -/
def etsiReceiveGn (mc : RxContents) (bufLen : ℕ) (r : Router) : ℤ × RxContents × Router :=
  -- the family id
  let mc := { mc with decoded := false }.pull 1
  let len := (bufLen + (2 ^ 16 - 1)) % 2 ^ 16
  let (ret, gd, r) := receive cfg geometry readings mc.data len mc.gn r
  let mc := { mc with gn := gd }
  if ret = 0 then (ret, mc.pull (len - gd.payloadLen), r) else (ret, mc, r)

def etsiReceive (decodeMsg : RxContents → RxContents) (mc : RxContents) (bufLen : ℕ) (r : Router) :
    ℤ × RxContents × Router :=
  let (ret, mc, r) := etsiReceiveGn cfg geometry readings mc bufLen r
  if ret = 0 then
    match mc.gn.upperProt with
    | .btpA => (ret, { decodeMsg { mc with btpPktType := .a } with decoded := true }, r)
    | .btpB => (ret, { decodeMsg { mc with btpPktType := .b } with decoded := true }, r)
    | _ => (-1, mc, r)
  else (ret, mc, r)

/-- Only the decoder moves the cursor any further. -/
theorem data_etsiReceive {decodeMsg : RxContents → RxContents}
    (hdecode : ∀ mc, (decodeMsg mc).data = mc.data) (mc : RxContents) (bufLen : ℕ) (r : Router) :
    (etsiReceive cfg geometry readings decodeMsg mc bufLen r).2.1.data =
      (etsiReceiveGn cfg geometry readings mc bufLen r).2.1.data := by
  unfold etsiReceive
  dsimp only
  split_ifs
  · split
    · exact hdecode _
    · exact hdecode _
    · rfl
  · rfl

end Receive

/-! ### From one router to another -/

/-- The parameters that a packet of one or several hops carries are as they were sent. -/
structure Carried (data data' : GnData) : Prop where
  upperProt : data'.upperProt = data.upperProt
  pktType : data'.pktType = data.pktType
  payloadLen : data'.payloadLen = data.payloadLen
  tc : data'.tc = data.tc
  isShb : data'.isShb = data.isShb

/-- What comes out of a frame is what was sent, and `receive` leaves the cursor at the payload. -/
structure RoundTrip (cfg : GnConfig) (geometry : Geometry) (readings : Readings) (data : GnData)
    (payload : List UInt8) (mc : RxContents) (r : Router) : Prop where
  ret : (receive cfg geometry readings (mc.data + 1) (40 + payload.length) mc.gn r).1 = 0
  carried :
    Carried data (receive cfg geometry readings (mc.data + 1) (40 + payload.length) mc.gn r).2.1
  cursor : (etsiReceiveGn cfg geometry readings mc (41 + payload.length) r).2.1.data = mc.data + 41
  payload : readBytes (etsiReceiveGn cfg geometry readings mc (41 + payload.length) r).2.2.core.mem
    (mc.data + 41) payload.length = payload

section RoundTrip
variable {cfg cfg' : GnConfig} {geometry geometry' : Geometry} {readings readings' : Readings}
  {data data' : GnData} {txcb : Bool} {mc : MsgContents} {rx : RxContents} {n bufLen : ℕ}
  {r r' : Router}

theorem payloadLen_receivedData (hpl : data.payloadLen = n) (hn : n < 2 ^ 16) :
    (receivedData cfg data data').payloadLen = n := by
  have hpl' : u32 data.payloadLen = n := by
    unfold u32
    omega
  change ((ntohs (ntohs (u32 data.payloadLen)) : ℕ) : ℤ) = n
  rw [hpl', ntohs_ntohs hn]

/-- The flag for one hop is never taken back. -/
theorem carried_receivedData_iff (htc : 0 ≤ data.tc ∧ data.tc ≤ 255)
    (hpl : data.payloadLen = n) (hn : n < 2 ^ 16) :
    Carried data (receivedData cfg data data') ↔ data.isShb ∨ data'.isShb = false := by
  have hshb : (data.isShb || data'.isShb) = data.isShb ↔ data.isShb ∨ data'.isShb = false := by
    cases data.isShb <;> cases data'.isShb <;> decide
  rw [← hshb]
  refine ⟨fun h => h.isShb, fun h => ⟨rfl, rfl, ?_, ?_, h⟩⟩
  · rw [payloadLen_receivedData hpl hn, hpl]
  · change ((u32 data.tc % 2 ^ 8 : ℕ) : ℤ) = data.tc
    unfold u32
    omega

theorem etsiReceiveGn_accepted {gd : GnData}
    (h : receive cfg geometry readings (rx.data + 1)
      ((bufLen + (2 ^ 16 - 1)) % 2 ^ 16) rx.gn r = (0, gd, r')) :
    etsiReceiveGn cfg geometry readings rx bufLen r =
      (0, { rx with
        decoded := false
        gn := gd
        data := (rx.data + 1 + (((bufLen + (2 ^ 16 - 1)) % 2 ^ 16 : ℕ) - gd.payloadLen)).toNat },
        r') := by
  unfold etsiReceiveGn
  dsimp only
  have hdata : ({ rx with decoded := false } : RxContents).pull 1 =
      { rx with decoded := false, data := rx.data + 1 } := rfl
  rw [hdata, h]
  rfl

/-- The cursor is where the length, in 16 bits, still counts the payload. -/
theorem cursor_iff (hn : n < 2 ^ 16) (a : ℕ) :
    ((a : ℤ) + 1 + (((41 + n + (2 ^ 16 - 1)) % 2 ^ 16 : ℕ) - (n : ℤ))).toNat = a + 41 ↔
      n + 40 < 2 ^ 16 := by
  omega

/-- The frame of a packet of one or several hops, as another router gets it. -/
theorem headed_of_frame (htype : data.pktType = .tsb) (hroom : 41 ≤ mc.headroom) {mem : Memory}
    {a : ℕ} (hframe : readBytes mem a (41 + n) = readBytes
      (transmit cfg geometry readings data txcb mc n r).router.core.mem (mc.data - 41) (41 + n)) :
    Headed cfg data (maxHopLimit data) mem (a + 1) ∧
      readBytes mem (a + 41) n = readBytes r.core.mem mc.data n := by
  rw [readBytes_transmit_tsb htype hroom] at hframe
  have hlength := length_header_tsb cfg readings htype r mc
  have hheader : readBytes mem (a + 1) 40 = header cfg readings data r mc := by
    rw [readBytes_part hframe (by omega), frame, List.cons_append, List.drop_succ_cons,
      List.drop_zero, List.take_left' hlength]
  refine ⟨?_, ?_⟩
  · unfold header at hheader
    rw [htype] at hheader
    dsimp only at hheader
    split_ifs at hheader
    · rw [shbHeader, List.append_assoc] at hheader
      exact headed_of_bytes hheader
    · rw [tsbHeader, List.append_assoc, List.append_assoc] at hheader
      exact headed_of_bytes hheader
  · have hcons : (3 :: header cfg readings data r mc).length = 41 := by
      rw [List.length_cons, hlength]
    rw [readBytes_part hframe le_rfl, frame, List.drop_left' hcons]
    exact List.take_of_length_le (length_readBytes _ _ _).le

end RoundTrip

/-- A packet of several hops. -/
def tsbData : GnData :=
  { anyData with upperProt := .btpB, pktType := .tsb, payloadLen := 4, maxHl := 3, tc := 2 }

def sentTsb : Router :=
  (transmit (initDefaultConfig ⟨0, 7⟩) plane still tsbData true ⟨0, 100, by decide⟩ 4
    (.init (loaded []))).router

end Tulux.QApplication
