import Tulux.Lib.Announced
import Tulux.Lib.GuardedRun

/-! The availability of the client as the modem knows it. The main thread of the daemon and the
listener of the modem's service both send availability events and write `modemConnected_`. -/
namespace Tulux.RemoteSim
open GuardedRun

/-- Where a thread is in `notifyModemConnAvailable` (`true`) or `notifyModemConnUnavailable`. -/
inductive Notify where
  | tests (available : Bool)
  | sends (available : Bool)
  | sets (available : Bool)
  deriving DecidableEq, Repr

/-- Where the main thread is: in `initDaemon`, at the top of its loop, behind
`handleClientConnection`, in a notify call, or in `deInit`. -/
inductive MainPc where
  | accepts
  | inits
  | initSets
  | loop
  | checks
  | notifies (n : Notify)
  | deInits (n : Notify)
  | tearsDown
  | exited
  deriving DecidableEq, Repr

namespace Notify

def stage : Notify → Announcer
  | .tests _ => .out
  | .sends b => .sends b
  | .sets b => .sets b

/-- Which event a call sends. -/
def available : Notify → Bool
  | .tests b => b
  | .sends b => b
  | .sets b => b

end Notify

namespace MainPc

def stage : MainPc → Announcer
  | .inits => .sends true
  | .initSets => .sets true
  | .notifies n => n.stage
  | .deInits n => n.stage
  | _ => .out

/-- Outside `deInit` the main thread tells the modem of a client. -/
def tells : MainPc → Bool
  | .inits => true
  | .initSets => true
  | .notifies n => n.available
  | _ => false

end MainPc

/-- `events` lists the availability events that the modem accepted. -/
structure Daemon where
  main : MainPc
  listener : Option Notify
  clientConnected : Bool
  modemConnected : Bool
  events : List Bool
  deriving DecidableEq, Repr

/-- `client` tells whether the client is still there when its connection is handled, and `accepted`
is the status of an event that is sent. -/
inductive DaemonOp where
  | main (client accepted : Bool)
  | listener (accepted : Bool)
  | onServiceStatusChange (available : Bool)
  | signal
  deriving DecidableEq, Repr

namespace Daemon

def init : Daemon := ⟨.accepts, none, false, false, []⟩

/-- A step of a notify call, and where it goes on. A failed event is only logged. -/
def notify (s : Daemon) (accepted : Bool) : Notify → Daemon × Option Notify
  | .tests b => (s, if s.modemConnected ≠ b then some (.sends b) else none)
  | .sends b =>
    ({ s with events := if accepted then s.events ++ [b] else s.events }, some (.sets b))
  | .sets b => ({ s with modemConnected := b }, none)

def mainStep (s : Daemon) (client accepted : Bool) : Daemon :=
  match s.main with
  | .accepts => { s with main := .inits, clientConnected := true }
  | .inits =>
    if accepted then { s with main := .initSets, events := s.events ++ [true] }
    else { s with main := .exited, clientConnected := false }
  | .initSets => { s with main := .loop, modemConnected := true }
  | .loop =>
    { s with main := .checks, clientConnected := if s.clientConnected then client else true }
  | .checks =>
    if s.clientConnected && !s.modemConnected then { s with main := .notifies (.tests true) }
    else if !s.clientConnected && s.modemConnected then { s with main := .notifies (.tests false) }
    else { s with main := .loop }
  | .notifies n =>
    let (s', next) := s.notify accepted n
    { s' with main := next.elim .loop .notifies }
  | .deInits n =>
    let (s', next) := s.notify accepted n
    { s' with main := next.elim .tearsDown .deInits }
  | .tearsDown => { s with main := .exited, clientConnected := false }
  | .exited => s

def listenerStep (s : Daemon) (accepted : Bool) : Daemon :=
  match s.listener with
  | none => s
  | some n =>
    let (s', next) := s.notify accepted n
    { s' with listener := next }

def onServiceStatusChange (s : Daemon) (available : Bool) : Daemon :=
  if s.listener = none then
    if available then
      if s.clientConnected then { s with listener := some (.tests true) } else s
    else { s with listener := some (.tests false) }
  else s

/-- The handler runs on the main thread, wherever it is. -/
def signalHandler (s : Daemon) : Daemon :=
  match s.main with
  | .deInits _ => s
  | .tearsDown => s
  | _ => { s with main := .deInits (.tests false) }

/-- Behind its exit the process does nothing. -/
def step (s : Daemon) (op : DaemonOp) : Daemon :=
  if s.main = .exited then s
  else match op with
    | .main client accepted => s.mainStep client accepted
    | .listener accepted => s.listenerStep accepted
    | .onServiceStatusChange available => s.onServiceStatusChange available
    | .signal => s.signalHandler

/-! ### The flag and the modem -/

/-- The last event that the modem accepted is `available`. -/
def lastAvailable (s : Daemon) : Bool := s.events.getLast? == some true

def listenerStage (s : Daemon) : Announcer := s.listener.elim .out Notify.stage

/-- But for a thread between its event and its write, the flag is the last event accepted; and it
is not set at the top of the loop, or behind the exit, while no client is connected. -/
structure Follows (s : Daemon) : Prop where
  flag : (∀ b, s.main.stage ≠ .sets b) → (∀ b, s.listenerStage ≠ .sets b) →
    (s.modemConnected = true ↔ s.events.getLast? = some true)
  client : s.main = .loop ∨ s.main = .exited → s.clientConnected = false →
    s.modemConnected = false

/-- A call announces its event only while the other thread announces no other, and the modem
accepts it. -/
def Clear (s : Daemon) (accepted : Bool) (other : Announcer) : Notify → Prop
  | .tests b => s.modemConnected ≠ b → ∀ c, other.past = some c → c = b
  | .sends _ => accepted = true
  | .sets _ => True

/-- The listener is not telling the modem of a client. -/
def ListenerSilent (s : Daemon) : Prop := s.listenerStage.past ≠ some true

def MainOrderly (s : Daemon) (client accepted : Bool) : Prop :=
  match s.main with
  | .inits => accepted = true ∨ (s.modemConnected = false ∧ s.ListenerSilent)
  | .loop => s.clientConnected = true → client = false → s.ListenerSilent
  | .notifies n => s.Clear accepted s.listenerStage n
  | .deInits n => s.Clear accepted s.listenerStage n
  | .tearsDown => s.modemConnected = false ∧ s.ListenerSilent
  | _ => True

/-- The events are accepted and do not overlap with others, the client that the listener tells of
stays connected until the flag is written, and the process is not left between an event and its
write. -/
def Orderly (s : Daemon) : DaemonOp → Prop
  | .main client accepted => s.MainOrderly client accepted
  | .listener accepted => ∀ n ∈ s.listener, s.Clear accepted s.main.stage n ∧
    (n = .tests true → s.modemConnected = false → s.clientConnected = true)
  | .onServiceStatusChange _ => True
  | .signal => ∀ b, s.main.stage ≠ .sets b

instance (s : Daemon) (accepted : Bool) (other : Announcer) (n : Notify) :
    Decidable (s.Clear accepted other n) := by
  cases n <;> unfold Clear <;> infer_instance

instance (s : Daemon) : Decidable s.ListenerSilent := inferInstanceAs (Decidable (_ ≠ _))

instance (s : Daemon) (client accepted : Bool) : Decidable (s.MainOrderly client accepted) := by
  unfold MainOrderly
  split <;> infer_instance

instance (s : Daemon) (op : DaemonOp) : Decidable (s.Orderly op) := by
  cases op <;> unfold Orderly <;> infer_instance

/-- Behind its condition each thread acts on a client that is there. -/
structure Sound (s : Daemon) : Prop where
  agree : Announcer.Agree s.modemConnected s.lastAvailable s.main.stage s.listenerStage
  accepts : s.main = .accepts →
    s.clientConnected = false ∧ s.modemConnected = false ∧ s.listenerStage = .out
  tells : s.main.tells = true → s.clientConnected = true
  silent : s.clientConnected = false → s.ListenerSilent
  handled : s.main = .loop ∨ s.main = .exited → s.clientConnected = false →
    s.modemConnected = false

variable {s : Daemon}

theorem lastAvailable_append (events : List Bool) (b : Bool) :
    ((events ++ [b]).getLast? == some true) = b := by
  cases b <;> simp

theorem sound_init : init.Sound := by
  refine ⟨Announcer.agree_out false, ?_, ?_, ?_, ?_⟩ <;>
    simp [init, listenerStage, MainPc.tells, ListenerSilent, Announcer.past]

/-- A step of a notify call: its thread goes from the stage of `n` to that of what is left, and the
client and the other thread stay as they are. -/
theorem notify_agree {n : Notify} {other : Announcer} {accepted : Bool}
    (h : Announcer.Agree s.modemConnected s.lastAvailable n.stage other)
    (hclear : s.Clear accepted other n) :
    Announcer.Agree (s.notify accepted n).1.modemConnected (s.notify accepted n).1.lastAvailable
      ((s.notify accepted n).2.elim .out Notify.stage) other := by
  cases n with
  | tests b =>
    by_cases hb : s.modemConnected = b
    · simpa [notify, hb, Notify.stage] using h
    · simpa [notify, hb, Notify.stage, lastAvailable] using h.enter (hclear hb)
  | sends b =>
    obtain rfl : accepted = true := hclear
    simpa [notify, lastAvailable, lastAvailable_append, Notify.stage] using h.announce
  | sets b => simpa [notify, lastAvailable] using h.record

theorem notify_rest (s : Daemon) (accepted : Bool) (n : Notify) :
    (s.notify accepted n).1.main = s.main ∧ (s.notify accepted n).1.listener = s.listener ∧
      (s.notify accepted n).1.clientConnected = s.clientConnected := by
  cases n <;> simp [notify]

/-- A call that ends leaves the flag as it tells, and goes on with what it tells. -/
theorem notify_available (s : Daemon) (accepted : Bool) (n : Notify) :
    ((s.notify accepted n).2 = none → (s.notify accepted n).1.modemConnected = n.available) ∧
      ∀ n', (s.notify accepted n).2 = some n' → n'.available = n.available := by
  cases n with
  | tests b =>
    by_cases hb : s.modemConnected = b <;> simp [notify, hb, Notify.available]
  | sends b => simp [notify, Notify.available]
  | sets b => simp [notify, Notify.available]

/-- Behind a step of a notify call the main thread goes on at `pc`. -/
theorem Sound.goesOn (h : s.Sound) {n : Notify} (hmain : s.main.stage = n.stage) {accepted : Bool}
    (hclear : s.Clear accepted s.listenerStage n) {pc : MainPc}
    (hstage : pc.stage = (s.notify accepted n).2.elim .out Notify.stage) (hpc : pc ≠ .accepts)
    (htells : pc.tells = true → s.clientConnected = true)
    (hleft : pc = .loop ∨ pc = .exited → s.clientConnected = false →
      (s.notify accepted n).1.modemConnected = false) :
    Sound { (s.notify accepted n).1 with main := pc } := by
  have hagree := notify_agree (by simpa [hmain] using h.agree) hclear
  obtain ⟨-, hlistener, hclient⟩ := notify_rest s accepted n
  have hsilent := h.silent
  simp only [ListenerSilent, listenerStage] at hsilent
  refine ⟨?_, fun hacc => absurd hacc hpc, ?_, ?_, ?_⟩
  · simpa [listenerStage, hlistener, hstage, lastAvailable] using hagree
  · simpa [hclient] using htells
  · simpa [ListenerSilent, listenerStage, hlistener, hclient] using hsilent
  · simpa [hclient] using hleft

theorem Sound.notifies (h : s.Sound) {n : Notify} (hmain : s.main = .notifies n) {accepted : Bool}
    (hclear : s.Clear accepted s.listenerStage n) (client : Bool) :
    (s.mainStep client accepted).Sound := by
  obtain ⟨hends, hgoes⟩ := notify_available s accepted n
  have hstage : s.main.stage = n.stage := by simp [hmain, MainPc.stage]
  have htells : n.available = true → s.clientConnected = true := by
    simpa [hmain, MainPc.tells] using h.tells
  simp only [mainStep, hmain]
  cases hnext : (s.notify accepted n).2 with
  | none =>
    refine h.goesOn hstage hclear (by simp [hnext, MainPc.stage]) (by simp) (by simp [MainPc.tells])
      fun _ hno => ?_
    have hnot : n.available ≠ true := fun ht => by simp [htells ht] at hno
    simpa [hends hnext] using hnot
  | some n' =>
    refine h.goesOn hstage hclear (by simp [hnext, MainPc.stage]) (by simp) ?_ (by simp)
    simpa [MainPc.tells, hgoes n' hnext] using htells

theorem Sound.deInits (h : s.Sound) {n : Notify} (hmain : s.main = .deInits n) {accepted : Bool}
    (hclear : s.Clear accepted s.listenerStage n) (client : Bool) :
    (s.mainStep client accepted).Sound := by
  have hstage : s.main.stage = n.stage := by simp [hmain, MainPc.stage]
  simp only [mainStep, hmain]
  cases hnext : (s.notify accepted n).2 with
  | none =>
    exact h.goesOn hstage hclear (by simp [hnext, MainPc.stage]) (by simp) (by simp [MainPc.tells])
      (by simp)
  | some n' =>
    exact h.goesOn hstage hclear (by simp [hnext, MainPc.stage]) (by simp) (by simp [MainPc.tells])
      (by simp)

theorem Sound.inits (h : s.Sound) (hmain : s.main = .inits) {accepted : Bool}
    (hop : accepted = true ∨ (s.modemConnected = false ∧ s.ListenerSilent)) (client : Bool) :
    (s.mainStep client accepted).Sound := by
  have hagree : Announcer.Agree s.modemConnected s.lastAvailable (.sends true) s.listenerStage := by
    simpa [hmain, MainPc.stage] using h.agree
  have hclient : s.clientConnected = true := h.tells (by simp [hmain, MainPc.tells])
  simp only [mainStep, hmain]
  cases accepted with
  | true =>
    refine ⟨?_, by simp, fun _ => hclient, by simp [hclient], by simp⟩
    simpa [listenerStage, lastAvailable, lastAvailable_append, MainPc.stage] using hagree.announce
  | false =>
    obtain ⟨hflag, hsilent⟩ := hop.resolve_left (by simp)
    exact ⟨hagree.leave, by simp, by simp [MainPc.tells], fun _ => hsilent, fun _ _ => hflag⟩

theorem Sound.mainStep (h : s.Sound) (client accepted : Bool)
    (hop : s.Orderly (.main client accepted)) : (s.mainStep client accepted).Sound := by
  have hagree := h.agree
  cases hmain : s.main with
  | accepts =>
    obtain ⟨-, -, hout⟩ := h.accepts hmain
    simp only [hmain, MainPc.stage] at hagree
    simp only [Daemon.mainStep, hmain]
    exact ⟨hagree.enter (by simp [hout, Announcer.past]), by simp, by simp, by simp, by simp⟩
  | inits => exact h.inits hmain (by simpa [Orderly, MainOrderly, hmain] using hop) client
  | initSets =>
    have hclient : s.clientConnected = true := h.tells (by simp [hmain, MainPc.tells])
    simp only [hmain, MainPc.stage] at hagree
    simp only [Daemon.mainStep, hmain]
    exact ⟨hagree.record, by simp, by simp [MainPc.tells], by simp [hclient], by simp [hclient]⟩
  | loop =>
    simp only [Orderly, MainOrderly, hmain] at hop
    simp only [hmain, MainPc.stage] at hagree
    simp only [Daemon.mainStep, hmain]
    refine ⟨hagree, by simp, by simp [MainPc.tells], fun hno => ?_, by simp⟩
    cases hc : s.clientConnected with
    | true => exact hop hc (by simpa [hc] using hno)
    | false => simp [hc] at hno
  | checks =>
    simp only [hmain, MainPc.stage] at hagree
    simp only [Daemon.mainStep, hmain]
    split_ifs with hgone hleft
    · refine ⟨hagree, by simp, fun _ => ?_, h.silent, by simp⟩
      exact (Bool.and_eq_true_iff.mp hgone).1
    · exact ⟨hagree, by simp, by simp [MainPc.tells, Notify.available], h.silent, by simp⟩
    · refine ⟨hagree, by simp, by simp [MainPc.tells], h.silent, fun _ hno => ?_⟩
      have hno' : s.clientConnected = false := hno
      simpa [hno'] using hleft
  | notifies n => exact h.notifies hmain (by simpa [Orderly, MainOrderly, hmain] using hop) client
  | deInits n => exact h.deInits hmain (by simpa [Orderly, MainOrderly, hmain] using hop) client
  | tearsDown =>
    simp only [Orderly, MainOrderly, hmain] at hop
    simp only [hmain, MainPc.stage] at hagree
    simp only [Daemon.mainStep, hmain]
    exact ⟨hagree, by simp, by simp [MainPc.tells], fun _ => hop.2, fun _ _ => hop.1⟩
  | exited =>
    simp only [Daemon.mainStep, hmain]
    exact h

/-- The listener tells of a client only while there is one. -/
theorem Sound.listenerStep (h : s.Sound) (accepted : Bool) (hop : s.Orderly (.listener accepted)) :
    (s.listenerStep accepted).Sound := by
  unfold Daemon.listenerStep
  cases hlistener : s.listener with
  | none => exact h
  | some n =>
    obtain ⟨hclear, hthere⟩ := hop n hlistener
    have hstage : s.listenerStage = n.stage := by simp [listenerStage, hlistener]
    have hagree := notify_agree (by simpa [hstage] using h.agree.symm) hclear
    obtain ⟨hmain, -, hclient⟩ := notify_rest s accepted n
    have hsilent : s.clientConnected = false → n.stage.past ≠ some true := by
      simpa [ListenerSilent, hstage] using h.silent
    dsimp only
    refine ⟨?_, fun hacc => ?_, ?_, fun hno => ?_, fun hpc hno => ?_⟩
    · simpa [listenerStage, hmain, lastAvailable] using hagree.symm
    · -- before the first client there is nothing to tell
      obtain ⟨hno, hflag, hout⟩ := h.accepts (hmain ▸ hacc)
      cases n with
      | tests b =>
        have hb : s.modemConnected = b := by
          cases b with
          | true => simp [hthere rfl hflag] at hno
          | false => exact hflag
        simpa [notify, hb, listenerStage, hno] using hb ▸ hflag
      | sends b => simp [hstage, Notify.stage] at hout
      | sets b => simp [hstage, Notify.stage] at hout
    · simpa [hmain, hclient] using h.tells
    · have hno' : s.clientConnected = false := hclient ▸ hno
      have hnot := hsilent hno'
      cases n with
      | tests b =>
        by_cases hb : s.modemConnected = b
        · simp [notify, hb, ListenerSilent, listenerStage, Announcer.past]
        · cases b with
          | true =>
            have := hthere rfl (by simpa using hb)
            simp [this] at hno'
          | false =>
            simp [notify, hb, ListenerSilent, listenerStage, Announcer.past, Notify.stage]
      | sends b =>
        simpa [notify, ListenerSilent, listenerStage, Notify.stage, Announcer.past] using hnot
      | sets b => simp [notify, ListenerSilent, listenerStage, Announcer.past]
    · have hno' : s.clientConnected = false := hclient ▸ hno
      have hflag := h.handled (hmain ▸ hpc) hno'
      cases n with
      | tests b => exact hflag
      | sends b => exact hflag
      | sets b => simpa [notify, Notify.stage, Announcer.past] using hsilent hno'

theorem Sound.onServiceStatusChange (h : s.Sound) (available : Bool) :
    (s.onServiceStatusChange available).Sound := by
  have htests (b : Bool) (hnone : s.listener = none) :
      Sound { s with listener := some (.tests b) } := by
    have hstage : s.listenerStage = .out := by simp [listenerStage, hnone]
    refine ⟨?_, fun hacc => ⟨(h.accepts hacc).1, (h.accepts hacc).2.1, rfl⟩, h.tells, ?_, h.handled⟩
    · simpa [listenerStage, hnone, Notify.stage, lastAvailable] using h.agree
    · simp [ListenerSilent, listenerStage, Notify.stage, Announcer.past]
  unfold Daemon.onServiceStatusChange
  split_ifs with hnone
  · exact htests true hnone
  · exact h
  · exact htests false hnone
  · exact h

theorem Sound.signalHandler (h : s.Sound) (hop : ∀ b, s.main.stage ≠ .sets b) :
    s.signalHandler.Sound := by
  have hagree : Announcer.Agree s.modemConnected s.lastAvailable .out s.listenerStage := by
    have hmain := h.agree
    cases hstage : s.main.stage with
    | out => exact hstage ▸ hmain
    | sends b => exact (hstage ▸ hmain).leave
    | sets b => exact absurd hstage (hop b)
  unfold Daemon.signalHandler
  split
  · exact h
  · exact h
  · exact ⟨hagree, by simp, by simp [MainPc.tells], h.silent, by simp⟩

theorem Sound.step (h : s.Sound) (op : DaemonOp) (hop : s.main ≠ .exited → s.Orderly op) :
    (s.step op).Sound := by
  unfold Daemon.step
  split_ifs with hexit
  · exact h
  · cases op with
    | main client accepted => exact h.mainStep client accepted (hop hexit)
    | listener accepted => exact h.listenerStep accepted (hop hexit)
    | onServiceStatusChange available => exact h.onServiceStatusChange available
    | signal => exact h.signalHandler (hop hexit)

theorem Sound.follows (h : s.Sound) : s.Follows := by
  constructor
  · intro hmain hlistener
    rw [h.agree.flag_eq hmain hlistener, lastAvailable, beq_iff_eq]
  · exact h.handled

/-- The flag follows the modem, and with it the client, in every run whose steps are orderly until
the process exits. -/
theorem availability_follows {ops : List DaemonOp}
    (h : Always step (fun s op => s.main ≠ .exited → s.Orderly op) init ops) :
    ∀ xs, xs <+: ops → (final step init xs).Follows := by
  intro xs hxs
  have hsound : (final step init xs).Sound :=
    h.reached (fun _ op hs hop => hs.step op hop) sound_init hxs
  exact hsound.follows

/-- The start of the daemon, with events that the modem accepts. -/
def startUp : List DaemonOp := [.main true true, .main true true, .main true true]

/-- The client leaves; the daemon tells the modem and waits for the next client. -/
theorem availability_follows_disconnect :
    let ops := startUp ++ [.main false true, .main false true, .main false true, .main false true,
      .main false true]
    (final step init ops).modemConnected = false ∧
      (final step init ops).events = [true, false] ∧
      ∀ xs, xs <+: ops → (final step init xs).Follows :=
  ⟨by decide, by decide, availability_follows (by decide)⟩

/-- The service becomes unavailable: the listener clears the flag, and the main loop sends
`available` again, which fails, and sets it. -/
theorem availability_not_followed :
    let ops := startUp ++ [.onServiceStatusChange false, .listener true, .listener true,
      .listener true, .main true false, .main true false, .main true false, .main true false,
      .main true false]
    (final step init ops).modemConnected = true ∧ (final step init ops).events = [true, false] ∧
      ¬ ∀ xs, xs <+: ops → (final step init xs).Follows := by
  refine ⟨by decide, by decide, fun h => ?_⟩
  have hflag := (h _ (List.prefix_refl _)).flag (by decide) (by decide)
  exact absurd (hflag.mp (by decide)) (by decide)

end Daemon

end Tulux.RemoteSim
