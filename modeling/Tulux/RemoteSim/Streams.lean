import Tulux.Lib.GuardedRun
import Tulux.Lib.MessageStream
import Tulux.RemoteSim.SimConnection

/-! The two directions of the TCP connection between the daemon and the client. Each side takes
the bytes that one read returns for one message. -/
namespace Tulux.RemoteSim
open GuardedRun

/-- The messages of the daemon. -/
inductive Request where
  | apduTransfer (id : UInt32) (apdu : List UInt8)
  | cardConnect
  | cardDisconnect
  | cardPowerUp
  | cardPowerDown
  | cardReset
  | connKeepalive
  deriving DecidableEq, Repr

/-- The messages of the client. -/
inductive Response where
  | apduTransfer (data : List ℤ) (apduId : UInt8)
  | cardReset (responseAtr : List ℤ)
  | cardInserted (responseAtr : List ℤ)
  | cardRemoved
  | connKeepalive
  deriving DecidableEq, Repr

def Request.buf : Request → List UInt8
  | .apduTransfer id apdu => sendApduRequest id apdu
  | .cardConnect => sendCardConnectRequest
  | .cardDisconnect => sendCardDisconnectRequest
  | .cardPowerUp => sendCardPowerUpRequest
  | .cardPowerDown => sendCardPowerDownRequest
  | .cardReset => sendCardResetRequest
  | .connKeepalive => sendConnKeepaliveRequest

def Response.buf : Response → List UInt8
  | .apduTransfer data apduId => sendApduResponse data apduId
  | .cardReset responseAtr => sendCardResetResponse responseAtr
  | .cardInserted responseAtr => sendCardInsertedMessage responseAtr
  | .cardRemoved => sendCardRemovedMessage
  | .connKeepalive => sendConnKeepaliveResponse

theorem Request.buf_ne_nil (msg : Request) : msg.buf ≠ [] := by
  cases msg <;> simp [Request.buf, sendApduRequest, sendCardConnectRequest,
    sendCardDisconnectRequest, sendCardPowerUpRequest, sendCardPowerDownRequest,
    sendCardResetRequest, sendConnKeepaliveRequest]

theorem Response.buf_ne_nil (msg : Response) : msg.buf ≠ [] := by
  cases msg <;> simp [Response.buf, sendApduResponse, sendCardResetResponse,
    sendCardInsertedMessage, atrMessage, sendCardRemovedMessage, sendConnKeepaliveResponse]

/-- A connection; `toClient` holds the requests and `toDaemon` the responses. -/
structure Streams where
  toClient : MessageStream UInt8
  toDaemon : MessageStream UInt8

/-- How many bytes of a message a write takes, and how many a read finds, is up to TCP. -/
inductive StreamOp where
  | sendRequest (msg : Request) (taken : ℕ)
  | sendResponse (msg : Response) (taken : ℕ)
  | handleDaemonConnection (arrived : ℕ)
  | handleClientConnection (arrived : ℕ)
  deriving DecidableEq, Repr

namespace Streams

def empty : Streams := ⟨.empty, .empty⟩

def step (s : Streams) : StreamOp → Streams
  | .sendRequest msg taken => { s with toClient := s.toClient.write msg.buf taken }
  | .sendResponse msg taken => { s with toDaemon := s.toDaemon.write msg.buf taken }
  | .handleDaemonConnection arrived => { s with toClient := s.toClient.read bufLen arrived }
  | .handleClientConnection arrived => { s with toDaemon := s.toDaemon.read bufLen arrived }

/-- Each side has handled the first messages of the other, whole and in order, and finds the
others in the stream. -/
structure Faithful (s : Streams) : Prop where
  toClient : s.toClient.Faithful
  toDaemon : s.toDaemon.Faithful

/-- A write takes its message whole, and a read returns one message. -/
def WholeMessage (s : Streams) : StreamOp → Prop
  | .sendRequest msg taken => msg.buf.length ≤ taken
  | .sendResponse msg taken => msg.buf.length ≤ taken
  | .handleDaemonConnection arrived => s.toClient.ReadsOne bufLen arrived
  | .handleClientConnection arrived => s.toDaemon.ReadsOne bufLen arrived

theorem faithful_step_iff {s : Streams} (h : s.Faithful) (op : StreamOp) :
    (s.step op).Faithful ↔ s.WholeMessage op := by
  cases op with
  | sendRequest msg taken =>
    rw [WholeMessage, ← MessageStream.faithful_write_iff h.toClient]
    exact ⟨fun h' => h'.toClient, fun h' => ⟨h', h.toDaemon⟩⟩
  | sendResponse msg taken =>
    rw [WholeMessage, ← MessageStream.faithful_write_iff h.toDaemon]
    exact ⟨fun h' => h'.toDaemon, fun h' => ⟨h.toClient, h'⟩⟩
  | handleDaemonConnection arrived =>
    rw [WholeMessage, ← MessageStream.faithful_read_iff h.toClient]
    exact ⟨fun h' => h'.toClient, fun h' => ⟨h', h.toDaemon⟩⟩
  | handleClientConnection arrived =>
    rw [WholeMessage, ← MessageStream.faithful_read_iff h.toDaemon]
    exact ⟨fun h' => h'.toDaemon, fun h' => ⟨h.toClient, h'⟩⟩

theorem faithful_start : empty.Faithful :=
  ⟨MessageStream.faithful_empty, MessageStream.faithful_empty⟩

/-- The messages survive exactly when each write and each read is of one whole message. -/
theorem messages_survive_iff (ops : List StreamOp) :
    (∀ xs, xs <+: ops → (final step empty xs).Faithful) ↔ Always step WholeMessage empty ops :=
  reached_iff_always (fun _ _ (_ : True) => trivial)
    (fun _ op _ h => faithful_step_iff h op) trivial faithful_start

/-- The calls that the daemon makes for the messages it handled. -/
def modemCalls (s : Streams) : List ModemCall :=
  s.toDaemon.handled.filterMap fun bytes => handleClientMsg (readInto bytes)

/-- A keepalive and the removal of the card, in one read: the modem is not told. -/
theorem messages_not_survive :
    let ops := [.sendResponse .connKeepalive 1, .sendResponse .cardRemoved 1,
      .handleClientConnection 2]
    ¬ (∀ xs, xs <+: ops → (final step empty xs).Faithful) ∧
      (final step empty ops).toDaemon.unread = [] ∧
      modemCalls (final step empty ops) = [] := by
  refine ⟨fun h => ?_, by decide, by decide⟩
  have hsent := (h _ (List.prefix_refl _)).toDaemon.sent
  exact absurd (congrArg List.head? hsent) (by decide)

end Streams

/-! ### Runs of whole messages -/

section
open Streams
variable {ops : List StreamOp}

/-- The messages that a run sends. -/
def responsesSent (ops : List StreamOp) : List Response :=
  ops.filterMap fun op => match op with
    | .sendResponse msg _ => some msg
    | _ => none

def requestsSent (ops : List StreamOp) : List Request :=
  ops.filterMap fun op => match op with
    | .sendRequest msg _ => some msg
    | _ => none

theorem sent_final (s : Streams) (ops : List StreamOp) :
    (final step s ops).toClient.sent = s.toClient.sent ++ (requestsSent ops).map Request.buf ∧
      (final step s ops).toDaemon.sent =
        s.toDaemon.sent ++ (responsesSent ops).map Response.buf := by
  have hread (m : MessageStream UInt8) (limit arrived : ℕ) :
      (m.read limit arrived).sent = m.sent := by
    unfold MessageStream.read
    split <;> rfl
  induction ops generalizing s with
  | nil => simp [requestsSent, responsesSent]
  | cons op ops ih =>
    obtain ⟨hclient, hdaemon⟩ := ih (s.step op)
    rw [final_cons, hclient, hdaemon]
    cases op <;>
      simp [step, requestsSent, responsesSent, MessageStream.write, hread]

/-- Once all is read, each side has handled the messages of the other. -/
theorem all_handled (h : Always step WholeMessage empty ops)
    (hclient : (final step empty ops).toClient.unread = [])
    (hdaemon : (final step empty ops).toDaemon.unread = []) :
    (final step empty ops).toClient.handled = (requestsSent ops).map Request.buf ∧
      (final step empty ops).toDaemon.handled = (responsesSent ops).map Response.buf := by
  have hfaithful : (final step empty ops).Faithful :=
    h.final (fun _ op hs hop => (faithful_step_iff hs op).mpr hop) faithful_start
  obtain ⟨hrequests, hresponses⟩ := sent_final empty ops
  simp only [empty, MessageStream.empty, List.nil_append] at hrequests hresponses
  constructor
  · rw [← hrequests]
    refine hfaithful.toClient.all_handled (fun msg hmsg => ?_) hclient
    obtain ⟨request, -, rfl⟩ := List.mem_map.mp (hrequests ▸ hmsg)
    exact request.buf_ne_nil
  · rw [← hresponses]
    refine hfaithful.toDaemon.all_handled (fun msg hmsg => ?_) hdaemon
    obtain ⟨response, -, rfl⟩ := List.mem_map.mp (hresponses ▸ hmsg)
    exact response.buf_ne_nil

end

end Tulux.RemoteSim
