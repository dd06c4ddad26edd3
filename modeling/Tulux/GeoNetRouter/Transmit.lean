import Mathlib.Data.UInt
import Tulux.GeoNetRouter.Router

/-! What the router does with a packet that is to be sent. The requests for addresses that it starts
are tasks of their own, so they are operations of the run and not of the call. -/
namespace Tulux.GeoNetRouter
open QCoder SortedMap GuardedRun

/-! ### Headers

They are bytes from the family id on. What the source writes to the fields of a header one after the
other is here written at once. -/

section Headers
variable (cfg : GnConfig) (readings : Readings) (data : GnData)

/-- At 1000, and from 10000 on, the source sets its argument in place of its result. -/
def encodeLifeTime (junk lt : ℕ) : ℕ :=
  if lt < 1000 then (lt / 50) <<< 2
  else if 1000 < lt ∧ lt < 10000 then (lt / 1000) <<< 2 + 1
  else junk

def headerSubtype : ℕ :=
  match data.pktType with
  | .any | .beacon | .geounicast | .tsb => if data.isShb then 0 else 1
  | .geoanycast | .geobroadcast => data.dArea.areaType.toNat
  | .ls => 0

def maxHopLimit : ℕ := if 0 < data.maxHl then u32 data.maxHl % 2 ^ 8 else 1

def lifeTime : ℕ :=
  encodeLifeTime readings.junkLifeTime
    (u32 (if data.maxLt < 0 then cfg.defaultPacketLifetime else data.maxLt))

/-- The basic header and the common header. -/
def initBhCh : List UInt8 :=
  [.ofNat (1 + u32 cfg.protocolVersion % 2 ^ 4 * 2 ^ 4), 0, .ofNat (lifeTime cfg readings data),
    .ofNat (maxHopLimit data),
    .ofNat (data.upperProt.toNat * 2 ^ 4),
    .ofNat (headerSubtype data + data.pktType.toNat * 2 ^ 4),
    .ofNat (u32 data.tc), if cfg.isMobile then 2 ^ 7 else 0] ++
  bytes16 (ntohs (u32 data.payloadLen)) ++ [.ofNat (maxHopLimit data), 0]

def initSourceLpv (epv : Epv) : List UInt8 :=
  bytes16 cfg.localAddr.bits ++ midBytes cfg.localAddr.mid ++ bytes32 (ntohl epv.tst) ++
    bytes32 (ntohl (u32 epv.latitude)) ++ bytes32 (ntohl (u32 epv.longitude)) ++
    bytes16 (ntohs (u32 epv.s) % 2 ^ 15 + epv.pai % 2 * 2 ^ 15) ++ bytes16 (ntohs epv.h)

def initDestinationArea : List UInt8 :=
  bytes32 (ntohl (u32 data.dArea.gpLatitude)) ++ bytes32 (ntohl (u32 data.dArea.gpLongitude)) ++
    bytes16 (ntohs data.dArea.distA) ++ bytes16 (ntohs data.dArea.distB) ++
    bytes16 (ntohs data.dArea.angle)

/-- The header of a TSB, and what is set of the header of a GUC. -/
def tsbHeader (epv : Epv) (sn : ℕ) : List UInt8 :=
  initBhCh cfg readings data ++ bytes16 sn ++ [0, 0] ++ initSourceLpv cfg epv

def gbcGacHeader (epv : Epv) (sn : ℕ) : List UInt8 :=
  tsbHeader cfg readings data epv sn ++ initDestinationArea data ++ [0, 0]

def shbHeader (epv : Epv) : List UInt8 :=
  initBhCh cfg readings data ++ initSourceLpv cfg epv ++ [0, 0, 0, 0]

@[simp] theorem length_bytes16 (n : ℕ) : (bytes16 n).length = 2 := rfl

@[simp] theorem length_bytes32 (n : ℕ) : (bytes32 n).length = 4 := rfl

@[simp] theorem length_midBytes (n : ℕ) : (midBytes n).length = 6 := rfl

@[simp] theorem length_initBhCh : (initBhCh cfg readings data).length = 12 := rfl

@[simp] theorem length_initSourceLpv (epv : Epv) : (initSourceLpv cfg epv).length = 24 := rfl

@[simp] theorem length_initDestinationArea : (initDestinationArea data).length = 14 := rfl

@[simp] theorem length_tsbHeader (epv : Epv) (sn : ℕ) :
    (tsbHeader cfg readings data epv sn).length = 40 := rfl

@[simp] theorem length_gbcGacHeader (epv : Epv) (sn : ℕ) :
    (gbcGacHeader cfg readings data epv sn).length = 56 := rfl

@[simp] theorem length_shbHeader (epv : Epv) : (shbHeader cfg readings data epv).length = 40 := rfl

end Headers

/-! ### Sending -/

/-- The part of `msg_contents` that the headroom is in. -/
structure MsgContents where
  head : ℕ
  data : ℕ
  head_le : head ≤ data

namespace MsgContents

def headroom (mc : MsgContents) : ℕ := mc.data - mc.head

/-- `abuf_push` behind its check. -/
def push (mc : MsgContents) (bytes : ℕ) : Option MsgContents :=
  if h : mc.headroom < bytes then none
  else some ⟨mc.head, mc.data - bytes, by have := mc.head_le; unfold headroom at h; omega⟩

theorem push_eq_none {mc : MsgContents} {bytes : ℕ} : mc.push bytes = none ↔ mc.headroom < bytes := by
  unfold push
  split_ifs with h <;> simp [h]

theorem push_of_le {mc : MsgContents} {bytes : ℕ} (h : bytes ≤ mc.headroom) :
    ∃ mc', mc.push bytes = some mc' ∧ mc'.data = mc.data - bytes ∧ mc'.data + bytes = mc.data ∧
      mc'.headroom = mc.headroom - bytes := by
  unfold push
  rw [dif_neg (not_lt.mpr h)]
  refine ⟨_, rfl, rfl, ?_, ?_⟩
  · dsimp only
    unfold headroom at h
    omega
  · unfold headroom
    dsimp only
    omega

end MsgContents

/-- What a call returns, what the callback was called with, and the router behind it. -/
structure Outcome where
  ret : ℤ
  calls : List (List UInt8)
  router : Router

section Transmit
variable (cfg : GnConfig) (geometry : Geometry) (readings : Readings) (data : GnData) (txcb : Bool)

namespace Router

/-- Writes bytes into memory. -/
def put (r : Router) (a : ℕ) (bytes : List UInt8) : Router :=
  r.perform cfg (.write (writeBytes r.core.mem a bytes))

def enqueueTx (r : Router) (qid buf bufLen : ℕ) (addr : Option ℕ) (now : ℕ) : Router :=
  r.perform cfg (.queue (.enqueue ⟨qid, readBytes r.core.mem buf bufLen, txcb, addr, now⟩))

end Router

/-- `buf` is where the family id is, and `bufLen` counts from there. -/
def transmitGuc (buf bufLen : ℕ) (r : Router) : Outcome :=
  let r := r.put cfg (buf + 1) (tsbHeader cfg readings data (readings.epv 0) r.core.sequenceNumber)
  let r := r.perform cfg .nextSn
  let locTe := r.found cfg (readings.clock 0) (r.core.view data.dAddr)
  let r := r.perform cfg (.find (readings.clock 0) (r.core.view data.dAddr))
  match locTe with
  | none => ⟨1, [], r.enqueueTx cfg txcb lsQ buf bufLen data.dAddr (readings.clock 1)⟩
  | some locTe =>
    if locTe.isNeighbor then ⟨0, [], r⟩
    else if r.core.neighborCount = 0 then
      ⟨1, [], r.enqueueTx cfg txcb ucQ buf bufLen data.dAddr (readings.clock 1)⟩
    else if cfg.nonAreaForwardingAlgorithm ≠ .cbf then
      ⟨nafGf geometry r.core.mem (buf + 1) .geounicast (readings.epv 1) r.core.locTable, [], r⟩
    else
      let (ret, r) := nafCbf cfg geometry r.core.mem (buf + 1) .geounicast (readings.clock 2)
        (readings.epv 1) r
      ⟨ret, [], r⟩

/-- The length for the callback is that of the header and the payload, without the family id. -/
def transmitGbcGac (buf bufLen : ℕ) (r : Router) : Outcome :=
  if data.dType ≠ .geoArea then ⟨-1, [], r⟩
  else
    let r := r.put cfg (buf + 1)
      (gbcGacHeader cfg readings data (readings.epv 0) r.core.sequenceNumber)
    let r := r.perform cfg .nextSn
    if r.core.neighborCount = 0 ∧ tcScf data.tc then
      ⟨0, [], r.enqueueTx cfg txcb bcQ buf bufLen none (readings.clock 0)⟩
    else
      let (ret, r) := forwardAlgorithmSelect cfg geometry readings r.core.mem (buf + 1) r
      if ret = 1 ∧ txcb then
        ⟨0, [readBytes r.core.mem buf (u32 (data.payloadLen + 56) % 2 ^ 16)], r⟩
      else ⟨ret, [], r⟩

/-- What `TransmitTSB` and `TransmitSHB` do with their header in place. -/
def sendOrQueue (buf bufLen now : ℕ) (r : Router) : Outcome :=
  if r.core.neighborCount = 0 ∧ tcScf data.tc then
    ⟨1, [], r.enqueueTx cfg txcb bcQ buf bufLen none now⟩
  else if txcb then ⟨0, [readBytes r.core.mem buf (bufLen % 2 ^ 16)], r⟩
  else ⟨-1, [], r⟩

def transmitTsb (buf bufLen : ℕ) (r : Router) : Outcome :=
  let r := r.put cfg (buf + 1) (tsbHeader cfg readings data (readings.epv 4) r.core.sequenceNumber)
  sendOrQueue cfg data txcb buf bufLen (readings.clock 5) (r.perform cfg .nextSn)

def transmitShb (buf bufLen : ℕ) (r : Router) : Outcome :=
  sendOrQueue cfg data txcb buf bufLen (readings.clock 5)
    (r.put cfg (buf + 1) (shbHeader cfg readings data (readings.epv 4)))

/-- The case of TSB and SHB, with what has been done before. -/
def transmitTsbOrShb (mc : MsgContents) (bufLen : ℕ) (before : Outcome) : Outcome :=
  match mc.push 41 with
  | none => before
  | some mc =>
    let r := before.router.put cfg mc.data [3]
    let outcome :=
      if data.isShb then transmitShb cfg readings data txcb mc.data (bufLen + 41) r
      else transmitTsb cfg readings data txcb mc.data (bufLen + 41) r
    { outcome with calls := before.calls ++ outcome.calls }

def transmit (mc : MsgContents) (bufLen : ℕ) (r : Router) : Outcome :=
  match data.pktType with
  | .geounicast =>
    match mc.push 61 with
    | none => ⟨-1, [], r⟩
    | some mc =>
      transmitGuc cfg geometry readings data txcb mc.data (bufLen + 61) (r.put cfg mc.data [3])
  | .geoanycast | .geobroadcast =>
    match mc.push 57 with
    | none => ⟨-1, [], r⟩
    | some mc =>
      -- this case goes on into the next one
      transmitTsbOrShb cfg readings data txcb mc (bufLen + 57)
        (transmitGbcGac cfg geometry readings data txcb mc.data (bufLen + 57)
          (r.put cfg mc.data [3]))
  | .tsb => transmitTsbOrShb cfg readings data txcb mc bufLen ⟨-1, [], r⟩
  | _ => ⟨-1, [], r⟩

end Transmit

end Tulux.GeoNetRouter
