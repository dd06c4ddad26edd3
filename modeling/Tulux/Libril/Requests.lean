import Mathlib.Data.Fintype.Basic
import Tulux.Libril.Parcel
import Tulux.Libril.RecordStream

/-! The requests of the command socket: they are kept in a list until the vendor's library completes
them, from any of its threads, and the answers go to the socket. -/
namespace Tulux.Libril
open GuardedRun

/-! ### Messages -/

/-- The messages to the command process, each with what is behind its head. -/
inductive Message where
  | response (ackExpected : Bool) (token error : Int32) (payload : List Item)
  | ack (token : Int32)
  | unsolicited (ackExpected : Bool) (number : Int32) (payload : List Item)
  deriving DecidableEq, Repr

namespace Message

/-- The values that are written into the parcel, the type of the message first. -/
def items : Message → List Item
  | response ackExpected token error payload =>
    .int32 (if ackExpected then 3 else 0) :: .int32 token :: .int32 error :: payload
  | ack token => [.int32 2, .int32 token]
  | unsolicited ackExpected number payload =>
    .int32 (if ackExpected then 4 else 1) :: .int32 number :: payload

def data (m : Message) : List UInt8 := m.items.flatMap Item.encode

end Message

/-- What `responseFunction` wrote, and what it returned. -/
abbrev Response := List Item × Int32

def errorOf (e : Int32) : Option Response → Int32
  | some (_, ret) => if ret ≠ 0 then ret else e
  | none => e

def payloadOf : Option Response → List Item
  | some (payload, _) => payload
  | none => []

/-- The parcel of `RIL_onRequestComplete`. An error of `responseFunction` is written over the one of
the request. -/
def completeParcel (alloc : ℕ → Bool) (type token e : Int32) (response : Option Response) : Parcel :=
  let p := Parcel.new.writeItems alloc [.int32 type, .int32 token]
  let errorOffset := p.mDataPos
  let p := p.writeItems alloc [.int32 e]
  match response with
  | none => p
  | some (payload, ret) =>
    let p := p.writeItems alloc payload
    if ret ≠ 0 then ((p.setDataPosition errorOffset).getD p).writeItems alloc [.int32 ret] else p

/-! ### The daemon -/

/-- A request that is kept. `no` is its number among all that were made. -/
structure RequestInfo where
  token : Int32
  isLocal : Bool
  cancelled : Bool
  wasAckSent : Bool
  no : ℕ

/-- A call of `RIL_onRequestComplete` or `RIL_onRequestAck`. -/
inductive Work where
  | complete (e : Int32) (response : Option Response)
  | ack

namespace Work

def isAck : Work → Bool
  | complete _ _ => false
  | ack => true

/-- What is sent for a request, if anything is. -/
def reply (version : ℕ) (info : RequestInfo) : Work → Option Message
  | complete e response =>
    if info.isLocal ∨ info.cancelled then none
    else some (.response (decide (13 ≤ version) && info.wasAckSent) info.token (errorOf e response)
      (payloadOf response))
  | ack => if info.cancelled then none else some (.ack info.token)

end Work

/-- A thread that has found the request `no` in the list. `message` is set once it has read it. -/
structure Call where
  pRI : ℕ
  no : ℕ
  work : Work
  message : Option (Option Message)

/-- What became of a request. -/
inductive Fate where
  | pending
  | answering
  | answered (connection : ℕ) (m : Message)
  | unanswered
  | lost
  deriving DecidableEq, Repr

/-- A request that was made: on which connection, and by whom. -/
structure Made where
  connection : ℕ
  token : Int32
  isLocal : Bool
  deriving DecidableEq, Repr

/-- What was written on a connection, and for which request. -/
structure Sent where
  connection : ℕ
  no : Option ℕ
  message : Message
  deriving DecidableEq, Repr

/-- The requests and the command socket. `connections` counts the connections that were accepted. -/
structure Requests (threads : ℕ) where
  heap : ℕ → Option RequestInfo
  pending : List ℕ
  calls : Fin threads → Option Call
  connected : Bool
  closing : Bool
  connections : ℕ
  made : List Made
  fate : ℕ → Fate
  acked : List ℕ
  sent : List Sent
  /-- A request was read or released that was released before. -/
  undefined : Bool

inductive RequestOp (threads : ℕ) where
  | processCommandBuffer (block : Option (Int32 × Int32)) (pRI : ℕ)
  | issueLocalRequest (pRI : ℕ)
  | onRequestComplete (t : Fin threads) (pRI : ℕ) (e : Int32) (response : Option Response)
  | onRequestAck (t : Fin threads) (pRI : ℕ)
  /-- The thread goes on with its call. -/
  | proceed (t : Fin threads)
  | onUnsolicitedResponse (ackExpected : Bool) (number : Int32) (payload : List Item)
  | socketClosed
  | onCommandsSocketClosed
  | listenCallback

abbrev numCommands : ℕ := 142

abbrev rilResponseAcknowledgement : Int32 := 800

abbrev rilEGenericFailure : Int32 := 2

namespace Requests
variable {threads : ℕ}

def start : Requests threads where
  heap := fun _ => none
  pending := []
  calls := fun _ => none
  connected := false
  closing := false
  connections := 0
  made := []
  fate := fun _ => .pending
  acked := []
  sent := []
  undefined := false

/-- Whether `sendResponse` can write a message. -/
def Sendable (s : Requests threads) (m : Message) : Prop :=
  s.connected = true ∧ m.data.length ≤ maxCommandBytes

instance (s : Requests threads) (m : Message) : Decidable (s.Sendable m) :=
  inferInstanceAs (Decidable (_ ∧ _))

def sendResponse (s : Requests threads) (no : Option ℕ) (m : Message) : Requests threads :=
  if s.Sendable m then { s with sent := s.sent ++ [⟨s.connections, no, m⟩] } else s

/-- A request comes to the front of the list. -/
def put (s : Requests threads) (pRI : ℕ) (token : Int32) (isLocal : Bool) : Requests threads :=
  { s with
    heap := Function.update s.heap pRI (some ⟨token, isLocal, false, false, s.made.length⟩)
    pending := pRI :: s.pending
    made := s.made ++ [⟨s.connections, token, isLocal⟩] }

def processCommandBuffer (s : Requests threads) (block : Option (Int32 × Int32)) (pRI : ℕ) :
    Requests threads :=
  match block with
  | none => s
  | some (request, token) =>
    if request = rilResponseAcknowledgement then s
    else if request.toInt < 1 ∨ numCommands ≤ request.toInt then
      s.sendResponse none (.response false token rilEGenericFailure [])
    else s.put pRI token false

/-- The token is not used. -/
def issueLocalRequest (s : Requests threads) (pRI : ℕ) : Requests threads :=
  s.put pRI (-1) true

def onRequestComplete (s : Requests threads) (t : Fin threads) (pRI : ℕ) (e : Int32)
    (response : Option Response) : Requests threads :=
  match s.heap pRI with
  | none => s
  | some info =>
    if pRI ∈ s.pending then
      { s with
        pending := s.pending.erase pRI
        calls := Function.update s.calls t (some ⟨pRI, info.no, .complete e response, none⟩)
        fate := Function.update s.fate info.no .answering }
    else s

def onRequestAck (s : Requests threads) (t : Fin threads) (pRI : ℕ) : Requests threads :=
  match s.heap pRI with
  | none => s
  | some info =>
    if pRI ∈ s.pending then
      { s with
        heap := Function.update s.heap pRI (some { info with wasAckSent := true })
        calls := Function.update s.calls t (some ⟨pRI, info.no, .ack, none⟩)
        acked := s.acked ++ [info.no] }
    else s

/-- The record is read. -/
def readInfo (s : Requests threads) (version : ℕ) (t : Fin threads) (call : Call) :
    Requests threads :=
  match s.heap call.pRI with
  | none => { s with calls := Function.update s.calls t none, undefined := true }
  | some info =>
    { s with
      calls := Function.update s.calls t
        (some { call with message := some (call.work.reply version info) }) }

/-- What becomes of a request when the call for it ends. -/
def fateOf (s : Requests threads) : Option Message → Fate
  | none => .unanswered
  | some m => if s.Sendable m then .answered s.connections m else .lost

/-- The message is sent, and a request that is complete is released. -/
def finish (s : Requests threads) (t : Fin threads) (call : Call) (m : Option Message) :
    Requests threads :=
  let s' := match m with
    | none => s
    | some m => s.sendResponse (some call.no) m
  let s' := { s' with calls := Function.update s.calls t none }
  if call.work.isAck then s'
  else
    { s' with
      heap := Function.update s.heap call.pRI none
      fate := Function.update s.fate call.no (s.fateOf m)
      undefined := s.undefined || (s.heap call.pRI).isNone }

def proceed (s : Requests threads) (version : ℕ) (t : Fin threads) : Requests threads :=
  match s.calls t with
  | none => s
  | some call =>
    match call.message with
    | none => s.readInfo version t call
    | some m => s.finish t call m

/-- The pending requests are marked, so that no response is reported. -/
def onCommandsSocketClosed (s : Requests threads) : Requests threads :=
  { s with
    heap := fun p => if p ∈ s.pending then
        (s.heap p).map fun info => { info with cancelled := true } else s.heap p
    closing := false }

/-- The event loop is in the callback of the socket from the end of the stream until the requests
are marked, and a thread makes one call at a time. -/
def step (version : ℕ) (s : Requests threads) : RequestOp threads → Requests threads
  | .processCommandBuffer block pRI => if s.connected then s.processCommandBuffer block pRI else s
  | .issueLocalRequest pRI => if s.closing then s else s.issueLocalRequest pRI
  | .onRequestComplete t pRI e response =>
    if (s.calls t).isSome then s else s.onRequestComplete t pRI e response
  | .onRequestAck t pRI => if (s.calls t).isSome then s else s.onRequestAck t pRI
  | .proceed t => s.proceed version t
  | .onUnsolicitedResponse ackExpected number payload =>
    s.sendResponse none (.unsolicited ackExpected number payload)
  | .socketClosed => if s.connected then { s with connected := false, closing := true } else s
  | .onCommandsSocketClosed => if s.closing then s.onCommandsSocketClosed else s
  | .listenCallback =>
    if s.connected ∨ s.closing then s
    else { s with connected := true, connections := s.connections + 1 }

end Requests

end Tulux.Libril
