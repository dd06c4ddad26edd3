import Mathlib.Tactic
import Tulux.Lib.GuardedRun

/-! The timers of both sides over any number of connections. Times are in seconds; the connections
are numbered in the order in which the client sets them up. -/
namespace Tulux.RemoteSim
open GuardedRun

abbrev keepaliveMsgInterval : ℕ := 10
abbrev keepaliveMsgTimeout : ℕ := 13

/-- A connection that a timer closed: how long the side had received nothing, and the connection
whose keepalive was unanswered then. -/
structure TimedOut where
  conn : ℕ
  silence : ℕ
  unanswered : Option ℕ
  deriving DecidableEq, Repr

/-- A keepalive sent on this connection stayed unanswered for the full timeout. -/
def TimedOut.Deserved (c : TimedOut) : Prop :=
  c.unanswered = some c.conn ∧ keepaliveMsgTimeout < c.silence

/-- `clientConn` is the connection that the daemon has accepted, and `daemonConn` the one of the
client; `unanswered` is the connection on which the daemon has sent a keepalive and received
nothing since. -/
structure Timers where
  now : ℕ
  connections : ℕ
  clientConn : Option ℕ
  pendingKeepalive : Bool
  clientMsgTime : ℕ
  daemonConn : Option ℕ
  daemonMsgTime : ℕ
  unanswered : Option ℕ
  timedOut : List TimedOut
  deriving DecidableEq, Repr

/-- What a poll finds to read: nothing, bytes, or the end of the stream or an error. -/
inductive Poll where
  | quiet
  | data
  | closed
  deriving DecidableEq, Repr

/-- One pass of a loop. `error` is an error event of the poll, `seconds` passes between the two
readings of the clock, and `accepted` is the connection that an accept returns. -/
structure Pass where
  poll : Poll
  error : Bool
  seconds : ℕ
  accepted : ℕ
  deriving DecidableEq, Repr

inductive TimerOp where
  | elapse (seconds : ℕ)
  | handleClientConnection (p : Pass)
  | handleDaemonConnection (p : Pass)
  deriving DecidableEq, Repr

namespace Timers

/-! ### The daemon -/

def readClient (s : Timers) : Poll → Timers
  | .quiet => s
  | .data => { s with pendingKeepalive := false, clientMsgTime := s.now, unanswered := none }
  | .closed => { s with clientConn := none }

def closeClient (s : Timers) (error : Bool) : Timers :=
  if error then { s with clientConn := none } else s

/-- Behind the interval a keepalive is sent, and behind the timeout the connection is closed. -/
def checkClient (s : Timers) : Timers :=
  match s.clientConn with
  | none => s
  | some conn =>
    let silence := s.now - s.clientMsgTime
    if keepaliveMsgInterval < silence then
      if s.pendingKeepalive = false then
        { s with pendingKeepalive := true, unanswered := some conn }
      else if keepaliveMsgTimeout < silence then
        { s with
          clientConn := none
          pendingKeepalive := false
          timedOut := s.timedOut ++ [⟨conn, silence, s.unanswered⟩] }
      else s
    else s

def passes (s : Timers) (seconds : ℕ) : Timers := { s with now := s.now + seconds }

def handleClientConnection (s : Timers) (p : Pass) : Timers :=
  match s.clientConn with
  | some _ => (((s.readClient p.poll).closeClient p.error).passes p.seconds).checkClient
  | none => { s with clientConn := some p.accepted, clientMsgTime := s.now }

/-! ### The client -/

def readDaemon (s : Timers) : Poll → Timers
  | .quiet => s
  | .data => { s with daemonMsgTime := s.now }
  | .closed => { s with daemonConn := none }

def closeDaemon (s : Timers) (error : Bool) : Timers :=
  if error then { s with daemonConn := none } else s

/-- The client closes the connection whatever was sent on it. -/
def checkDaemon (s : Timers) : Timers :=
  match s.daemonConn with
  | none => s
  | some conn =>
    let silence := s.now - s.daemonMsgTime
    if keepaliveMsgTimeout < silence then
      { s with
        daemonConn := none
        timedOut := s.timedOut ++ [⟨conn, silence, s.unanswered⟩] }
    else s

def handleDaemonConnection (s : Timers) (p : Pass) : Timers :=
  match s.daemonConn with
  | some _ => (((s.readDaemon p.poll).closeDaemon p.error).passes p.seconds).checkDaemon
  | none =>
    { s with
      daemonConn := some s.connections
      connections := s.connections + 1
      daemonMsgTime := s.now }

def step (s : Timers) : TimerOp → Timers
  | .elapse seconds => s.passes seconds
  | .handleClientConnection p => s.handleClientConnection p
  | .handleDaemonConnection p => s.handleDaemonConnection p

def start : Timers := ⟨0, 0, none, false, 0, none, 0, none, []⟩

/-! ### When no live peer is timed out -/

/-- The timers closed only connections whose keepalive stayed unanswered. -/
def LiveKept (s : Timers) : Prop := ∀ c ∈ s.timedOut, c.Deserved

/-- What is left of the time of the client after a pass. -/
def daemonSilence (s : Timers) (p : Pass) : ℕ :=
  match p.poll with
  | .data => p.seconds
  | _ => s.now + p.seconds - s.daemonMsgTime

/-- The daemon accepts a connection with no keepalive pending. The client hears from the daemon in
time, or the keepalive of its connection is unanswered. -/
def InTime (s : Timers) : TimerOp → Prop
  | .elapse _ => True
  | .handleClientConnection _ => s.clientConn = none → s.pendingKeepalive = false
  | .handleDaemonConnection p => ∀ conn, s.daemonConn = some conn →
    p.poll = .closed ∨ p.error = true ∨ s.daemonSilence p ≤ keepaliveMsgTimeout ∨
      s.unanswered = some conn

instance (s : Timers) (op : TimerOp) : Decidable (s.InTime op) := by
  cases op with
  | elapse seconds => exact isTrue trivial
  | handleClientConnection p =>
    exact inferInstanceAs (Decidable (s.clientConn = none → s.pendingKeepalive = false))
  | handleDaemonConnection p =>
    exact decidable_of_iff (∀ conn ∈ s.daemonConn, p.poll = .closed ∨ p.error = true ∨
      s.daemonSilence p ≤ keepaliveMsgTimeout ∨ s.unanswered = some conn) Iff.rfl

/-- A pending keepalive was sent on the connection that is still there. -/
structure Sound (s : Timers) : Prop where
  pending : s.pendingKeepalive = true → ∀ conn, s.clientConn = some conn →
    s.unanswered = some conn
  kept : s.LiveKept

variable {s : Timers}

theorem Sound.readClient (h : s.Sound) (poll : Poll) : (s.readClient poll).Sound := by
  cases poll with
  | quiet => exact h
  | data => exact ⟨by simp [Timers.readClient], h.kept⟩
  | closed => exact ⟨by simp [Timers.readClient], h.kept⟩

theorem Sound.closeClient (h : s.Sound) (error : Bool) : (s.closeClient error).Sound := by
  cases error with
  | false => exact h
  | true => exact ⟨by simp [Timers.closeClient], h.kept⟩

theorem Sound.passes (h : s.Sound) (seconds : ℕ) : (s.passes seconds).Sound := ⟨h.pending, h.kept⟩

theorem Sound.checkClient (h : s.Sound) : s.checkClient.Sound := by
  unfold Timers.checkClient
  cases hconn : s.clientConn with
  | none => exact h
  | some conn =>
    dsimp only
    split_ifs with hinterval hpending htimeout
    · exact ⟨fun _ _ hconn' => hconn', h.kept⟩
    · have hdeserved : s.unanswered = some conn := h.pending (by simpa using hpending) conn hconn
      refine ⟨by simp, List.forall_mem_append.mpr ⟨h.kept, List.forall_mem_singleton.mpr ?_⟩⟩
      exact ⟨hdeserved, htimeout⟩
    · exact h
    · exact h

/-- A pass of the daemon that accepts finds no keepalive of an older connection. -/
theorem Sound.handleClientConnection (h : s.Sound) (p : Pass)
    (hop : s.clientConn = none → s.pendingKeepalive = false) :
    (s.handleClientConnection p).Sound := by
  unfold Timers.handleClientConnection
  cases hconn : s.clientConn with
  | none => exact ⟨by simp [hop hconn], h.kept⟩
  | some conn => exact (((h.readClient p.poll).closeClient p.error).passes p.seconds).checkClient

theorem Sound.handleDaemonConnection (h : s.Sound) (p : Pass)
    (hop : s.InTime (.handleDaemonConnection p)) : (s.handleDaemonConnection p).Sound := by
  unfold Timers.handleDaemonConnection
  cases hconn : s.daemonConn with
  | none => exact ⟨h.pending, h.kept⟩
  | some conn =>
    let s₁ := ((s.readDaemon p.poll).closeDaemon p.error).passes p.seconds
    have hread : s₁.Sound ∧ s₁.unanswered = s.unanswered := by
      obtain ⟨poll, error, seconds, accepted⟩ := p
      cases poll <;> cases error <;> exact ⟨⟨h.pending, h.kept⟩, rfl⟩
    change s₁.checkDaemon.Sound
    unfold Timers.checkDaemon
    cases hconn₁ : s₁.daemonConn with
    | none => exact hread.1
    | some conn₁ =>
      have hopen : conn₁ = conn ∧ p.poll ≠ .closed ∧ p.error = false ∧
          s₁.now - s₁.daemonMsgTime = s.daemonSilence p := by
        obtain ⟨poll, error, seconds, accepted⟩ := p
        cases poll <;> cases error <;>
          simp_all [s₁, readDaemon, closeDaemon, Timers.passes, daemonSilence]
      obtain ⟨rfl, hpoll, herror, hsilence⟩ := hopen
      dsimp only
      split_ifs with htimeout
      · have hunanswered : s.unanswered = some conn₁ := by
          rcases hop conn₁ hconn with hclosed | herr | htime | hdone
          · exact absurd hclosed hpoll
          · simp [herror] at herr
          · omega
          · exact hdone
        refine ⟨hread.1.pending,
          List.forall_mem_append.mpr ⟨hread.1.kept, List.forall_mem_singleton.mpr ?_⟩⟩
        exact ⟨hread.2.trans hunanswered, htimeout⟩
      · exact hread.1

theorem Sound.step (h : s.Sound) (op : TimerOp) (hop : s.InTime op) : (s.step op).Sound := by
  cases op with
  | elapse seconds => exact h.passes seconds
  | handleClientConnection p => exact h.handleClientConnection p hop
  | handleDaemonConnection p => exact h.handleDaemonConnection p hop

theorem sound_start : start.Sound := ⟨by simp [start], by simp [LiveKept, start]⟩

/-- A pass that finds nothing, and one that accepts or sets up the connection `conn`. -/
def quietPass : Pass := ⟨.quiet, false, 0, 0⟩

def acceptPass (conn : ℕ) : Pass := ⟨.quiet, false, 0, conn⟩

end Timers

end Tulux.RemoteSim
