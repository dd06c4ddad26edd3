import Tulux.GeoNetRouter.Packet
import Tulux.Lib.SortedMap

/-! The forwarding queues: one queue for each unicast address and each address that is looked for,
and one for broadcasts. Addresses are given by pointers, with a view of what they point to. -/
namespace Tulux.GeoNetRouter
open QCoder SortedMap

/-- `Qelement`, with the size of the memory that its buffer was given. Packets are told apart by
`id`, which nothing reads. -/
structure Qelement where
  id : ℕ
  buffer : List UInt8
  allocated : ℕ
  hasCallback : Bool
  ts : ℤ
  deriving DecidableEq

/-- The queues, those of the maps with their address. -/
inductive QueueId where
  | uc (addr : ℕ)
  | ls (addr : ℕ)
  | bc
  deriving DecidableEq

abbrev Placed := QueueId × Qelement

/-- A queue of a map. The address is that of the key when it was put there; nothing reads it. -/
structure AddressQueue where
  addr : ℕ
  queue : List Qelement

/-- What has been done with the packets. Nothing reads it. -/
structure QueueLog where
  enqueued : List Placed
  transmitted : List (Placed × List UInt8)
  dropped : List Placed
  released : List ℕ

structure Queues where
  ucMapQueue : List (ℕ × AddressQueue)
  lsMapQueue : List (ℕ × AddressQueue)
  bcQueue : List Qelement
  log : QueueLog

namespace QueueLog

def enqueue (log : QueueLog) (x : Placed) : QueueLog :=
  { log with enqueued := log.enqueued ++ [x] }

/-- The packet leaves its queue, and its buffer is deleted. -/
def drop (log : QueueLog) (x : Placed) : QueueLog :=
  { log with dropped := log.dropped ++ [x], released := log.released ++ [x.2.id] }

/-- The callback is given the length as an `int16_t` that goes into a `uint16_t`. -/
def transmit (log : QueueLog) (x : Placed) : QueueLog :=
  if x.2.hasCallback then
    { log with transmitted :=
        log.transmitted ++ [(x, x.2.buffer.take (x.2.buffer.length % 2 ^ 16))] }
  else log

end QueueLog

def lsQ : ℕ := 1

def ucQ : ℕ := 4

def bcQ : ℕ := 8

/-! ### Enqueue -/

/-- What `Enqueue` is called with. -/
structure EnqueueCall where
  qid : ℕ
  buffer : List UInt8
  hasCallback : Bool
  addr : Option ℕ
  now : ℕ

/-- `new uint8_t(BufLen)` is one byte. -/
def newElement (call : EnqueueCall) (id : ℕ) : Qelement where
  id := id
  buffer := call.buffer
  allocated := 1
  hasCallback := call.hasCallback
  ts := s32 call.now

/-- A packet goes to the end of a queue; when the queue is full the first one is deleted. An empty
queue is not full, also where its size is set to 0 and the source takes its front. -/
def pushBack (size : ℤ) (id : QueueId) (e : Qelement) (q : List Qelement) (log : QueueLog) :
    List Qelement × QueueLog :=
  match q with
  | [] => ([e], log)
  | old :: rest =>
    if (q.length : ℤ) = size then (rest ++ [e], log.drop (id, old)) else (q ++ [e], log)

section Queues
variable (f : ℕ → ℕ) (cfg : GnConfig)

/-- The queue of an address gets a packet. A new queue goes into the map `fresh`. -/
def enqueueMap (mkId : ℕ → QueueId) (e : Qelement) (key : ℕ) (m : List (ℕ × AddressQueue))
    (log : QueueLog) : Option (List (ℕ × AddressQueue) × QueueLog) :=
  (lookup f (f key) m).map fun q =>
    let (queue, log) := pushBack cfg.ucForwardingPacketBufferSize (mkId (f key)) e q.queue log
    (modify f (f key) (fun q => { q with queue := queue }) m, log)

def Queues.enqueue (queues : Queues) (call : EnqueueCall) : Queues :=
  let e := newElement call queues.log.enqueued.length
  if call.qid &&& ucQ ≠ 0 then
    match call.addr with
    | none => queues
    | some key =>
      let log := queues.log.enqueue (.uc (f key), e)
      match enqueueMap f cfg .uc e key queues.ucMapQueue log with
      | some (m, log) => { queues with ucMapQueue := m, log := log }
      | none =>
        { queues with
          ucMapQueue := insert f key ⟨f key, [e]⟩ queues.ucMapQueue
          log := log }
  else if call.qid &&& lsQ ≠ 0 then
    match call.addr with
    | none => queues
    | some key =>
      let log := queues.log.enqueue (.ls (f key), e)
      match enqueueMap f cfg .ls e key queues.lsMapQueue log with
      | some (m, log) => { queues with lsMapQueue := m, log := log }
      | none =>
        -- a new queue goes into the other map
        { queues with
          ucMapQueue := insert f key ⟨f key, [e]⟩ queues.ucMapQueue
          log := log }
  else if call.qid &&& bcQ ≠ 0 then
    let log := queues.log.enqueue (.bc, e)
    let (queue, log) := pushBack cfg.bcForwardingPacketBufferSize .bc e queues.bcQueue log
    { queues with bcQueue := queue, log := log }
  else queues

/-! ### Flush -/

/-- What `FlushQueueSync` is called with, and how many turns its loops over the queue of an address
have made so far. `junk` is found where a buffer is too short for a header. -/
structure FlushCall where
  qid : ℕ
  addr : Option ℕ
  purge : Bool
  tsNow : ℕ
  turns : ℕ
  junk : UInt8

def base2ms : List ℕ := [50, 1000, 10000, 100000]

def decodeLifeTime (lt : ℕ) : ℕ := (lt >>> 2) * base2ms.getD (lt % 4) 0

/-- The lifetime is looked for at the front of the buffer, where the family id is. -/
def expired (call : FlushCall) (e : Qelement) : Bool :=
  decodeLifeTime (e.buffer.getD 2 call.junk).toNat < u32 (s32 call.tsNow - e.ts)

/-- The loop over the queue of an address. A packet that is sent stays where it is. -/
def drain (drops : Qelement → Bool) (id : QueueId) :
    ℕ → List Qelement → QueueLog → List Qelement × QueueLog
  | 0, q, log => (q, log)
  | _, [], log => ([], log)
  | n + 1, e :: q, log =>
    if drops e then drain drops id n q (log.drop (id, e))
    else drain drops id n (e :: q) (log.transmit (id, e))

/-- The loop over the broadcasts. -/
def drainBc (drops : Qelement → Bool) : List Qelement → QueueLog → QueueLog
  | [], log => log
  | e :: q, log =>
    drainBc drops q (if drops e then log.drop (.bc, e) else log.transmit (.bc, e))

/-- The queue of an address is flushed, and whether its loop has come to its end. -/
def flushMap (mkId : ℕ → QueueId) (drops : Qelement → Bool) (turns key : ℕ)
    (m : List (ℕ × AddressQueue)) (log : QueueLog) :
    List (ℕ × AddressQueue) × QueueLog × Bool :=
  match lookup f (f key) m with
  | none => (m, log, true)
  | some q =>
    let (queue, log) := drain drops (mkId (f key)) turns q.queue log
    (modify f (f key) (fun q => { q with queue := queue }) m, log, queue.isEmpty)

/-- The flush of the unicast queue, and whether the call goes on behind it. -/
def Queues.flushUc (queues : Queues) (call : FlushCall) : Queues × Bool :=
  if call.qid &&& ucQ ≠ 0 then
    match call.addr with
    | none => (queues, false)
    | some key =>
      let (m, log, ended) :=
        flushMap f .uc (expired call) call.turns key queues.ucMapQueue queues.log
      ({ queues with ucMapQueue := m, log := log }, ended)
  else (queues, true)

def Queues.flushLs (queues : Queues) (call : FlushCall) : Queues × Bool :=
  if call.qid &&& lsQ ≠ 0 then
    match call.addr with
    | none => (queues, false)
    | some key =>
      let (m, log, ended) := flushMap f .ls (fun e => call.purge || expired call e) call.turns
        key queues.lsMapQueue queues.log
      ({ queues with lsMapQueue := m, log := log }, ended)
  else (queues, true)

def Queues.flushBc (queues : Queues) (call : FlushCall) : Queues :=
  if call.qid &&& bcQ ≠ 0 then
    { queues with
      bcQueue := []
      log := drainBc (expired call) queues.bcQueue queues.log }
  else queues

def Queues.flushQueueSync (queues : Queues) (call : FlushCall) : Queues :=
  let (queues, ended) := queues.flushUc f call
  if ended then
    let (queues, ended) := queues.flushLs f call
    if ended then queues.flushBc call else queues
  else queues

inductive QueueOp where
  | enqueue (call : EnqueueCall)
  | flush (call : FlushCall)

def Queues.step (queues : Queues) : QueueOp → Queues
  | .enqueue call => queues.enqueue f cfg call
  | .flush call => queues.flushQueueSync f call

end Queues

/-! ### Where the loops of a flush end -/

section Flush
variable {f : ℕ → ℕ} {mkId : ℕ → QueueId} {drops : Qelement → Bool} {turns key : ℕ}
  {m : List (ℕ × AddressQueue)} {log : QueueLog} {q : AddressQueue}

/-- The loop comes to its end when all packets are dropped in its turns. -/
theorem drain_isEmpty (drops : Qelement → Bool) (id : QueueId) (n : ℕ) (q : List Qelement)
    (log : QueueLog) : (drain drops id n q log).1.isEmpty ↔
      q.length ≤ n ∧ ∀ e ∈ q, drops e := by
  induction n generalizing q log with
  | zero => cases q <;> simp [drain]
  | succ n ih =>
    cases q with
    | nil => simp [drain]
    | cons e q =>
      rw [drain]
      split_ifs with hdrops
      · rw [ih, List.length_cons, List.forall_mem_cons, and_iff_right hdrops]
        exact and_congr_left fun _ => Nat.succ_le_succ_iff.symm
      · rw [ih]
        simp [hdrops]

theorem flushMap_some (h : lookup f (f key) m = some q) :
    flushMap f mkId drops turns key m log =
      let result := drain drops (mkId (f key)) turns q.queue log
      (modify f (f key) (fun q => { q with queue := result.1 }) m, result.2,
        result.1.isEmpty) := by
  unfold flushMap
  rw [h]

theorem flushMap_none (h : lookup f (f key) m = none) :
    flushMap f mkId drops turns key m log = (m, log, true) := by
  unfold flushMap
  rw [h]

theorem flushMap_ended_iff : (flushMap f mkId drops turns key m log).2.2 = true ↔
    ∀ q, lookup f (f key) m = some q → q.queue.length ≤ turns ∧ ∀ e ∈ q.queue, drops e := by
  cases hlookup : lookup f (f key) m with
  | none =>
    rw [flushMap_none hlookup]
    simp
  | some q =>
    rw [flushMap_some hlookup]
    simp only [Option.some_inj, forall_eq']
    exact drain_isEmpty _ _ _ _ _

theorem flushUc_bcQueue (queues : Queues) (call : FlushCall) :
    (queues.flushUc f call).1.bcQueue = queues.bcQueue ∧
      (queues.flushUc f call).1.lsMapQueue = queues.lsMapQueue := by
  unfold Queues.flushUc
  split_ifs
  · cases call.addr <;> exact ⟨rfl, rfl⟩
  · exact ⟨rfl, rfl⟩

end Flush

def Queues.empty : Queues := ⟨[], [], [], ⟨[], [], [], []⟩⟩

end Tulux.GeoNetRouter
