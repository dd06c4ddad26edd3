import Tulux.GeoNetRouter.Router

/-! What the router does with a received packet. The flushes that it starts are tasks of their own,
so they are operations of the run and not of the call. -/
namespace Tulux.GeoNetRouter
open QCoder SortedMap GuardedRun

section Receive
variable (cfg : GnConfig) (geometry : Geometry) (readings : Readings) (buf bufLen : ℕ)

/-- The sequence number of a packet that can make several hops. -/
def packetSn (mem : Memory) (buf : ℕ) : ℕ := read16 mem (buf + 12)

/-- Where the source position vector is in such a packet. -/
abbrev soPvAt (buf : ℕ) : ℕ := buf + 16

def Router.soMid (r : Router) : ℕ := r.core.view (soPvAt buf + 2)

/-- The check for duplicates and the update for a packet of several hops. -/
def Router.processSource (r : Router) : Bool × Router :=
  let (duplicate, r) :=
    r.checkDuplicate cfg (readings.clock 0) (r.soMid buf) (packetSn r.core.mem buf)
  if duplicate then (true, r) else (false, r.update cfg readings (readings.clock 1) (soPvAt buf))

def receiveBeaconOrShb (shb : Bool) (data : GnData) (r : Router) : ℤ × GnData × Router :=
  let soPv := buf + 12
  let r := r.perform cfg (.find (readings.clock 0) (r.core.view (soPv + 2)))
  let r := r.perform cfg (.updateNeighbor soPv readings.newNeighbor)
  if shb then (0, { data with isShb := true }, r) else (1, data, r)

/-- A packet that is for this station, or that is passed on, falls off the end of the source. -/
def receiveGuc (r : Router) : ℤ × Router :=
  let mem := r.core.mem
  if gnAddrMatch (readAddr mem (buf + 40)) cfg.localAddr then
    let (duplicate, r) := r.processSource cfg readings buf
    if duplicate then (-1, r) else (readings.junkReturn, r)
  else
    let (duplicate, r) :=
      if cfg.nonAreaForwardingAlgorithm ≠ .cbf then r.processSource cfg readings buf
      else (false, r.update cfg readings (readings.clock 1) (soPvAt buf))
    if duplicate then (-1, r)
    else if mem (buf + 3) = 0 then (-1, r)
    else if r.core.neighborCount = 0 ∧ tcScf (packetTc mem buf) then (1, r)
    else if cfg.nonAreaForwardingAlgorithm = .cbf then
      (readings.junkReturn,
        (nafCbf cfg geometry mem buf .geounicast (readings.clock 2) (readings.epv 0) r).2)
    else (readings.junkReturn, r)

/-- The place of this station in the area of a packet, with the numbers in host byte order. -/
def receivedAreaPosition (mem : Memory) (epv : Epv) : ℤ :=
  geometry.geoRelativePosition epv.latitude epv.longitude (s32 (ntohl (read32 mem (buf + 40))))
    (s32 (ntohl (read32 mem (buf + 44)))) (ntohs (read16 mem (buf + 52)))
    (ntohs (read16 mem (buf + 48))) (ntohs (read16 mem (buf + 50)))
    (.ofHst ((mem (buf + 5)).toNat % 16))

def receiveGbcGac (r : Router) : ℤ × Router :=
  let mem := r.core.mem
  let f := receivedAreaPosition geometry buf mem (readings.epv 0)
  let (duplicate, r) := r.processSource cfg readings buf
  if duplicate then (-1, r)
  else
    let r :=
      if 0 < (mem (buf + 3)).toNat then
        if r.core.neighborCount = 0 then
          r.enqueueBc cfg readings (readBytes mem buf bufLen) (readings.clock 2)
        else
          let (val, r) := forwardAlgorithmSelect cfg geometry readings mem buf r
          if val = 0 then r.enqueueBc cfg readings (readBytes mem buf bufLen) (readings.clock 2)
          else r
      else r
    (if 0 ≤ f then 0 else 1, r)

def receiveLocationService (hst : ℕ) (r : Router) : ℤ × Router :=
  let mem := r.core.mem
  if hst = 0 then
    if gnAddrMatch (readAddr mem (buf + 40)) cfg.localAddr then
      let (duplicate, r) := r.processSource cfg readings buf
      (if duplicate then -1 else 1, r)
    else (-1, r)
  else if gnAddrMatch (readAddr mem (buf + 40)) cfg.localAddr then
    let (duplicate, r) := r.processSource cfg readings buf
    if duplicate then (-1, r) else (1, r.perform cfg (.setLsPending (r.soMid buf)))
  else receiveGuc cfg geometry readings buf r

def receiveTsb (r : Router) : ℤ × Router :=
  let mem := r.core.mem
  let (duplicate, r) := r.processSource cfg readings buf
  if duplicate then (-1, r)
  else if 0 < (mem (buf + 3)).toNat ∧ r.core.neighborCount = 0 ∧ tcScf (packetTc mem buf) then
    (0, r.enqueueBc cfg readings (readBytes mem buf bufLen) (readings.clock 2))
  else (0, r)

/-- `is_shb` and the area keep what they had. -/
def initDefaultGnData (data : GnData) : GnData :=
  { data with
    upperProt := .any
    pktType := .any
    payloadLen := 0
    dType := .gnAddr
    maxLt := cfg.maxPacketLifetime
    repetitionInterval := cfg.minPacketRepetitionInterval
    maxHl := -1
    tc := -1 }

/-- `ll_bc`, which is put into the destination address. -/
def llBc : List UInt8 := [0xff, 0xff, 0xff, 0xff, 0xff, 0xff]

/-- The checks of the basic header. -/
def basicHeaderOk (mem : Memory) (buf : ℕ) : Bool :=
  (mem buf).toNat / 16 ≤ 1 ∧ 0 < (mem buf).toNat % 16 ∧ (mem buf).toNat % 16 ≤ 2

/-- The checks of the common header. -/
def commonHeaderOk (mem : Memory) (buf : ℕ) : Bool :=
  let nh := (mem (buf + 4)).toNat / 16
  let ht := (mem (buf + 5)).toNat / 16
  let hst := (mem (buf + 5)).toNat % 16
  (0 < nh ∧ nh ≤ 3) ∧ (0 < ht ∧ ht ≤ 6) ∧
    (ht = PacketType.geounicast.toNat ∨ ht = PacketType.geoanycast.toNat → hst ≤ 2) ∧
    (ht = PacketType.ls.toNat ∨ ht = PacketType.tsb.toNat → hst ≤ 1)

/-- One hop less is left. -/
def decrementRhl (mem : Memory) (buf : ℕ) : Memory :=
  if 0 < (mem (buf + 3)).toNat then Function.update mem (buf + 3) (mem (buf + 3) - 1) else mem

/-- What is read of the common header. -/
def readHeader (mem : Memory) (data : GnData) : GnData :=
  { initDefaultGnData cfg data with
    upperProt := .ofNh ((mem (buf + 4)).toNat / 16)
    pktType := .ofHt ((mem (buf + 5)).toNat / 16)
    payloadLen := ntohs (read16 mem (buf + 8))
    tc := (mem (buf + 6)).toNat }

/-- The packet goes to the function for its type. -/
def dispatch (data : GnData) (r : Router) : ℤ × GnData × Router :=
  let hst := (r.core.mem (buf + 5)).toNat % 16
  match PacketType.ofHt ((r.core.mem (buf + 5)).toNat / 16) with
  | .any => (-1, data, r)
  | .beacon => receiveBeaconOrShb cfg readings buf false data r
  | .geounicast =>
    let (ret, r) := receiveGuc cfg geometry readings buf r
    (ret, data, r)
  | .geoanycast | .geobroadcast =>
    let (ret, r) := receiveGbcGac cfg geometry readings buf bufLen r
    (ret, data, r)
  | .tsb =>
    if hst = 0 then receiveBeaconOrShb cfg readings buf true data r
    else
      let (ret, r) := receiveTsb cfg readings buf bufLen r
      (ret, data, r)
  | .ls =>
    let (ret, r) := receiveLocationService cfg geometry readings buf hst r
    (ret, data, r)

/-- `Receive` of a buffer that is not null. -/
def receive (data : GnData) (r : Router) : ℤ × GnData × Router :=
  if !basicHeaderOk r.core.mem buf then (-1, data, r)
  else
    let r := r.perform cfg (.write (decrementRhl r.core.mem buf))
    if !commonHeaderOk r.core.mem buf ∨
        (r.core.mem (buf + 10)).toNat < (r.core.mem (buf + 3)).toNat then (-1, data, r)
    else
      let r := r.perform cfg (.write (writeBytes r.core.mem data.dAddr llBc))
      dispatch cfg geometry readings buf bufLen (readHeader cfg buf r.core.mem data) r

end Receive

end Tulux.GeoNetRouter
