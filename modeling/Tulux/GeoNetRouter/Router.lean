import Tulux.GeoNetRouter.LocationTable
import Tulux.GeoNetRouter.Queue
import Tulux.Lib.GuardedRun

/-! The state of the router, the operations on it that its functions are made of, and the forwarding
algorithms. -/
namespace Tulux.GeoNetRouter
open QCoder SortedMap GuardedRun

/-- The memory that keys and packets are in, and what the router keeps. The requests for addresses
are given by the address they were started for. -/
structure Core where
  mem : Memory
  neighborCount : ℤ
  sequenceNumber : ℕ
  locTable : Table
  queues : Queues
  lsMap : List (ℕ × ℕ)

/-- What can happen to the state. -/
inductive Op where
  | write (mem : Memory)
  | find (now addr : ℕ)
  | update (soPv : ℕ) (isNeighbor : Bool)
  | updateNeighbor (soPv : ℕ) (isNeighbor : Bool)
  | updateSpv (dePv : ℕ) (isNeighbor : Bool)
  | isDuplicated (addr sn : ℕ)
  | setLsPending (addr : ℕ)
  | remove (addr : ℕ)
  | refresh (now : ℕ)
  | nextSn
  | queue (op : QueueOp)
  | startLs (key : ℕ)

namespace Core

/-- What a pointer to an address shows. -/
def view (core : Core) : ℕ → ℕ := midAt core.mem

/-- `Update` of a packet whose source position vector is at `soPv`. -/
def update (core : Core) (soPv : ℕ) (isNeighbor : Bool) : Core :=
  { core with
    locTable := core.locTable.update core.view (soPv + 2) (readLpv core.mem soPv) isNeighbor }

def step (cfg : GnConfig) (core : Core) : Op → Core
  | .write mem => { core with mem := mem }
  | .find now addr =>
    { core with locTable := core.locTable.find core.view cfg.lifetimeLocTE now addr }
  | .update soPv isNeighbor => core.update soPv isNeighbor
  | .updateNeighbor soPv isNeighbor =>
    -- `setNeighbor(true)` for the entry that `Update` returns
    let core := core.update soPv isNeighbor
    { core with
      locTable := modify core.view (core.view (soPv + 2)) (fun e => { e with isNeighbor := true })
        core.locTable
      neighborCount := core.neighborCount + 1 }
  | .updateSpv dePv isNeighbor =>
    { core with
      locTable :=
        core.locTable.updateSpv core.view (dePv + 2) (readSpv core.mem dePv) isNeighbor }
  | .isDuplicated addr sn =>
    { core with locTable := modify core.view addr (fun e => e.record sn) core.locTable }
  | .setLsPending addr =>
    { core with
      locTable := modify core.view addr (fun e => { e with locationServicePending := false })
        core.locTable }
  | .remove addr => { core with locTable := erase core.view addr core.locTable }
  | .refresh now => { core with locTable := core.locTable.refresh cfg.lifetimeLocTE now }
  | .nextSn => { core with sequenceNumber := (core.sequenceNumber + 1) % 2 ^ 16 }
  | .queue op => { core with queues := core.queues.step core.view cfg op }
  | .startLs key => { core with lsMap := insert core.view key (core.view key) core.lsMap }

end Core

/-- The state with the operations that have led to it, which nothing reads. -/
structure Router where
  core : Core
  ops : List Op

/-- What a call finds outside the router: the clock and the position each time it looks, what is in
the memory of a new entry's neighbour flag, of a lifetime and of a result that are never set, and
whether there is a default callback. -/
structure Readings where
  clock : ℕ → ℕ
  epv : ℕ → Epv
  newNeighbor : Bool
  junkLifeTime : ℕ
  junkReturn : ℤ
  dfTxcb : Bool

section Router
variable (cfg : GnConfig) (geometry : Geometry) (readings : Readings)

namespace Router

def perform (r : Router) (op : Op) : Router := ⟨r.core.step cfg op, r.ops ++ [op]⟩

/-- What `Find` returns. -/
def found (r : Router) (now addr : ℕ) : Option LocTableEntry :=
  r.core.locTable.found r.core.view cfg.lifetimeLocTE now addr

/-- Whether a packet of a source that the table knows has a number that was there before. -/
def checkDuplicate (r : Router) (now addr sn : ℕ) : Bool × Router :=
  let entry := r.found cfg now addr
  let r := r.perform cfg (.find now addr)
  match entry with
  | none => (false, r)
  | some entry => (entry.isDuplicated sn, r.perform cfg (.isDuplicated addr sn))

/-- `Update` with its `Find`. -/
def update (r : Router) (now soPv : ℕ) : Router :=
  (r.perform cfg (.find now (r.core.view (soPv + 2)))).perform cfg
    (.update soPv readings.newNeighbor)

def enqueueBc (r : Router) (buffer : List UInt8) (now : ℕ) : Router :=
  r.perform cfg (.queue (.enqueue ⟨bcQ, buffer, readings.dfTxcb, none, now⟩))

end Router

/-! ### Forwarding

A packet is given by the memory it is in and where it begins there. -/

variable (mem : Memory) (buf : ℕ)

/-- The traffic class of the common header. -/
def packetTc : ℤ := (mem (buf + 6)).toNat

/-- Where a packet goes to: the destination of a GUC, or the area of a GAC and a GBC. -/
def packetTarget (pktType : PacketType) : ℤ × ℤ :=
  if pktType = .geounicast then (s32 (read32 mem (buf + 52)), s32 (read32 mem (buf + 56)))
  else (s32 (read32 mem (buf + 40)), s32 (read32 mem (buf + 44)))

def nafGf (pktType : PacketType) (epv : Epv) (table : Table) : ℤ :=
  if pktType ≠ .geounicast ∧ pktType ≠ .geoanycast then -1
  else
    let (latitude, longitude) := packetTarget mem buf pktType
    let mfr := geometry.geoDistance latitude longitude epv.latitude epv.longitude
    let (locTe, shortest) := findShortestLocTe geometry latitude longitude table
    if locTe.isSome ∧ shortest < mfr then 1
    else if tcScf (packetTc mem buf) then 0
    else 1

def nafCbf (pktType : PacketType) (now : ℕ) (epv : Epv) (r : Router) : ℤ × Router :=
  if pktType ≠ .geounicast ∧ pktType ≠ .geoanycast ∧ pktType ≠ .geobroadcast then (-1, r)
  else
    let (latitude, longitude) := packetTarget mem buf pktType
    let soAddr := readAddr mem (buf + 16)
    if gnAddrMatch soAddr cfg.localAddr then (1, r)
    else
      let locTe := r.found cfg now soAddr.mid
      let r := r.perform cfg (.find now soAddr.mid)
      match locTe with
      | some locTe =>
        if locTe.lpv.pai = 1 then
          let dle := geometry.geoDistance latitude longitude epv.latitude epv.longitude
          let dse := geometry.geoDistance latitude longitude (s32 locTe.lpv.latitude)
            (s32 locTe.lpv.longitude)
          if 0 < dse - dle then (0, r) else (-1, r)
        else (0, r)
      | none => (0, r)

/-- The timeout that is computed here is not used. -/
def afCbf (now : ℕ) (r : Router) : ℤ × Router :=
  let soAddr := readAddr mem (buf + 16)
  if gnAddrMatch soAddr cfg.localAddr then (1, r)
  else (0, r.perform cfg (.find now soAddr.mid))

/-- The place of a point in the area of a packet. The numbers are taken as they are in the
packet. -/
def areaPosition (latitude longitude : ℤ) : ℤ :=
  geometry.geoRelativePosition latitude longitude (s32 (read32 mem (buf + 40)))
    (s32 (read32 mem (buf + 44))) (read16 mem (buf + 52)) (read16 mem (buf + 48))
    (read16 mem (buf + 50)) (.ofHst ((mem (buf + 5)).toNat % 16))

def forwardAlgorithmSelect (r : Router) : ℤ × Router :=
  let ht := (mem (buf + 5)).toNat / 16
  if ht ≠ PacketType.geoanycast.toNat ∧ ht ≠ PacketType.geobroadcast.toNat then (-1, r)
  else
    let pktType := PacketType.ofHt ht
    let epv := readings.epv 1
    if 0 ≤ areaPosition geometry mem buf epv.latitude epv.longitude then
      match cfg.areaForwardingAlgorithm with
      | .simple => (1, r)
      -- this case goes on into the default
      | .cbf => (1, (afCbf cfg mem buf (readings.clock 3) r).2)
      | _ => (1, r)
    else
      let soAddr := readAddr mem (buf + 16)
      let locTe := r.found cfg (readings.clock 3) soAddr.mid
      let r := r.perform cfg (.find (readings.clock 3) soAddr.mid)
      match locTe with
      | some locTe =>
        let f := areaPosition geometry mem buf (s32 locTe.lpv.latitude) (s32 locTe.lpv.longitude)
        if locTe.lpv.pai = 1 ∧ 0 ≤ f then (-1, r)
        else
          match cfg.nonAreaForwardingAlgorithm with
          | .cbf =>
            -- and so does this one
            let r := (nafCbf cfg geometry mem buf pktType (readings.clock 4) (readings.epv 2) r).2
            (nafGf geometry mem buf pktType (readings.epv 3) r.core.locTable, r)
          | _ => (nafGf geometry mem buf pktType (readings.epv 2) r.core.locTable, r)
      | none => (1, r)

end Router

end Tulux.GeoNetRouter
