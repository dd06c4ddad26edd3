import Mathlib.Tactic
import Tulux.Lib.CondVar
import Tulux.Lib.GuardedRun

/-! The TCU states that the listener reports and the main loop of the cv2x daemon handles. Both
hold the mutex while they do so: a report is one step, and so are the way into the wait and the
handling behind it. -/
namespace Tulux.Cv2xDaemon
open GuardedRun

inductive TcuActivityState where
  | unknown
  | suspend
  | resume
  | shutdown
  deriving DecidableEq, Repr

inductive TcuActivityStateAck where
  | suspendAck
  | shutdownAck
  deriving DecidableEq, Repr

/-- The acknowledgement that a state asks for. -/
def TcuActivityState.ack : TcuActivityState → Option TcuActivityStateAck
  | .suspend => some .suspendAck
  | .shutdown => some .shutdownAck
  | _ => none

/-- `v2xMode` lists the starts (`true`) and stops of the V2X mode; `reported` and `handled` leave
`unknown` out. -/
structure Daemon where
  systemState : TcuActivityState
  main : Waiter
  exiting : Bool
  exited : Bool
  v2xMode : List Bool
  acks : List TcuActivityStateAck
  reported : List TcuActivityState
  handled : List TcuActivityState
  deriving DecidableEq, Repr

/-- A report of the listener, and the steps of the main loop: its wait begins, it wakes, and it
goes on behind the wait. -/
inductive DaemonOp where
  | onTcuActivityStateUpdate (tcuState : TcuActivityState)
  | terminationHandler
  | wait
  | wake
  | goOn
  deriving DecidableEq, Repr

namespace Daemon

def init : Daemon := ⟨.unknown, .out, false, false, [], [], [], []⟩

/-- A list of states without `unknown`. -/
def record (states : List TcuActivityState) (tcuState : TcuActivityState) :
    List TcuActivityState :=
  if tcuState = .unknown then states else states ++ [tcuState]

def onTcuActivityStateUpdate (s : Daemon) (tcuState : TcuActivityState) : Daemon :=
  { s with
    systemState := tcuState
    main := s.main.notify
    reported := record s.reported tcuState }

def handleSystemStateChange (s : Daemon) : Daemon :=
  let s' := match s.systemState with
    | .suspend =>
      { s with
        v2xMode := s.v2xMode ++ [false]
        acks := s.acks ++ [TcuActivityStateAck.suspendAck] }
    | .resume => { s with v2xMode := s.v2xMode ++ [true] }
    | .shutdown => { s with acks := s.acks ++ [TcuActivityStateAck.shutdownAck] }
    | .unknown => s
  { s' with systemState := .unknown, handled := record s.handled s.systemState }

def step (s : Daemon) (op : DaemonOp) : Daemon :=
  if s.exited then s
  else match op with
    | .onTcuActivityStateUpdate tcuState => s.onTcuActivityStateUpdate tcuState
    | .terminationHandler => { s with exiting := true, main := s.main.notify }
    | .wait => if s.main = .out then { s with main := .blocked } else s
    | .wake => { s with main := s.main.notify }
    | .goOn =>
      if s.main = .woken then
        if s.exiting then { s with exited := true }
        else { s.handleSystemStateChange with main := .out }
      else s

/-- The states handled are the first ones reported, each acknowledged as it asks for, and all of
them while the main loop is blocked. -/
structure Followed (s : Daemon) : Prop where
  handled : s.handled <+: s.reported
  blocked : s.main = .blocked → s.handled = s.reported
  acks : s.acks = s.handled.filterMap TcuActivityState.ack

/-- A state is reported only when the one before it has been handled, and the main loop begins its
wait only then. -/
def InTurn (s : Daemon) : DaemonOp → Prop
  | .onTcuActivityStateUpdate _ => s.exited = false → s.systemState = .unknown
  | .wait => s.exited = false → s.main = .out → s.systemState = .unknown
  | _ => True

instance (s : Daemon) (op : DaemonOp) : Decidable (s.InTurn op) := by
  cases op <;> unfold InTurn <;> infer_instance

/-- What is reported and not handled is the state that is stored, and the main loop is not blocked
before it. -/
structure Sound (s : Daemon) : Prop where
  reported : s.reported = record s.handled s.systemState
  blocked : s.main = .blocked → s.systemState = .unknown
  acks : s.acks = s.handled.filterMap TcuActivityState.ack

variable {s : Daemon}

@[simp] theorem record_unknown (states : List TcuActivityState) : record states .unknown = states :=
  rfl

theorem record_prefix (states : List TcuActivityState) (tcuState : TcuActivityState) :
    states <+: record states tcuState := by
  unfold record
  split_ifs <;> simp

theorem sound_init : init.Sound := ⟨rfl, by simp [init], rfl⟩

theorem Sound.followed (h : s.Sound) : s.Followed := by
  refine ⟨?_, fun hblocked => ?_, h.acks⟩
  · rw [h.reported]
    exact record_prefix _ _
  · rw [h.reported, h.blocked hblocked, record_unknown]

theorem Sound.handle (h : s.Sound) :
    Sound { s.handleSystemStateChange with main := .out } := by
  have hreported := h.reported
  have hacks := h.acks
  cases hst : s.systemState <;>
    exact ⟨by simpa [handleSystemStateChange, hst] using hreported, by simp,
      by simp [handleSystemStateChange, hst, record, TcuActivityState.ack, hacks]⟩

theorem Sound.step (h : s.Sound) (op : DaemonOp) (hop : s.InTurn op) : (s.step op).Sound := by
  unfold Daemon.step
  by_cases hexited : s.exited = true
  · rw [if_pos hexited]
    exact h
  · have hrun : s.exited = false := by simpa using hexited
    rw [if_neg hexited]
    cases op with
    | onTcuActivityStateUpdate tcuState =>
      have hreported := h.reported
      rw [hop hrun, record_unknown] at hreported
      refine ⟨?_, by simp [Daemon.onTcuActivityStateUpdate], h.acks⟩
      simp [Daemon.onTcuActivityStateUpdate, hreported]
    | terminationHandler => exact ⟨h.reported, by simp, h.acks⟩
    | wait =>
      dsimp only
      split_ifs with hout
      · exact ⟨h.reported, fun _ => hop hrun hout, h.acks⟩
      · exact h
    | wake => exact ⟨h.reported, by simp, h.acks⟩
    | goOn =>
      dsimp only
      split_ifs with hwoken hexiting
      · exact ⟨h.reported, h.blocked, h.acks⟩
      · exact h.handle
      · exact h

/-! ### States that are lost -/

/-- At least `n` of the states reported are neither handled nor stored. -/
def Lost (n : ℕ) (s : Daemon) : Prop :=
  (record s.handled s.systemState).length + n ≤ s.reported.length

theorem length_record (states : List TcuActivityState) (tcuState : TcuActivityState) :
    (record states tcuState).length = states.length + if tcuState = .unknown then 0 else 1 := by
  unfold record
  split_ifs <;> simp

/-- A state that is reported too early takes the place of one that is not handled. -/
theorem lost_report {n : ℕ} (h : s.Lost n) (tcuState : TcuActivityState) :
    (s.onTcuActivityStateUpdate tcuState).Lost (n + if s.systemState = .unknown then 0 else 1) := by
  simp only [Lost, onTcuActivityStateUpdate, length_record] at h ⊢
  omega

theorem Lost.step {n : ℕ} (h : s.Lost n) (op : DaemonOp) : (s.step op).Lost n := by
  unfold Daemon.step
  by_cases hexited : s.exited = true
  · rw [if_pos hexited]
    exact h
  · rw [if_neg hexited]
    cases op with
    | onTcuActivityStateUpdate tcuState =>
      have hlost := lost_report h tcuState
      simp only [Lost] at hlost ⊢
      omega
    | goOn =>
      dsimp only
      split_ifs with hwoken hexiting
      · exact h
      · cases hst : s.systemState <;> simpa [Lost, handleSystemStateChange, hst] using h
      · exact h
    | wait =>
      dsimp only
      split_ifs <;> exact h
    | terminationHandler => exact h
    | wake => exact h

theorem Lost.final {n : ℕ} (h : s.Lost n) (ops : List DaemonOp) : (GuardedRun.final Daemon.step s ops).Lost n := by
  induction ops generalizing s with
  | nil => exact h
  | cons op ops ih => exact ih (h.step op)

/-- A loop that is blocked with every state handled has lost none. -/
theorem Lost.eq_zero {n : ℕ} (h : s.Lost n) (hf : s.Followed) (hblocked : s.main = .blocked) :
    n = 0 ∧ s.systemState = .unknown := by
  rw [Lost, hf.blocked hblocked, length_record] at h
  split_ifs at h with hst
  · exact ⟨by omega, hst⟩
  · omega

theorem inTurn_of_followed {ops : List DaemonOp} (hlost : s.Lost 0)
    (hblocked : (final step s ops).main = .blocked)
    (h : ∀ xs, xs <+: ops → (final step s xs).Followed) : Always step InTurn s ops := by
  induction ops generalizing s with
  | nil => exact always_nil
  | cons op ops ih =>
    have hrest : ∀ xs, xs <+: ops → (final step (s.step op) xs).Followed := fun xs hxs =>
      h (op :: xs) (List.cons_prefix_cons.mpr ⟨rfl, hxs⟩)
    rw [always_cons]
    refine ⟨?_, ih (hlost.step op) hblocked hrest⟩
    cases op with
    | onTcuActivityStateUpdate tcuState =>
      intro hrun
      by_contra hst
      have hearly : (s.step (.onTcuActivityStateUpdate tcuState)).Lost 1 := by
        simpa [step, hrun, hst] using lost_report hlost tcuState
      have hnone := (hearly.final ops).eq_zero (hrest ops (List.prefix_refl _)) hblocked
      exact absurd hnone.1 one_ne_zero
    | wait =>
      intro hrun hout
      have hstep : s.step .wait = { s with main := .blocked } := by simp [step, hrun, hout]
      have hwait := (hlost.step .wait).eq_zero (hrest [] List.nil_prefix) (by simp [hstep])
      simpa [hstep] using hwait.2
    | _ => trivial

/-- No state is lost in a run that keeps the turns; and a run that ends in the wait loses none only
if it keeps them. -/
theorem states_followed (ops : List DaemonOp) :
    (Always step InTurn init ops → ∀ xs, xs <+: ops → (final step init xs).Followed) ∧
      ((final step init ops).main = .blocked →
        (∀ xs, xs <+: ops → (final step init xs).Followed) → Always step InTurn init ops) := by
  constructor
  · intro h xs hxs
    have hsound : (final step init xs).Sound :=
      h.reached (fun _ op hs hop => hs.step op hop) sound_init hxs
    exact hsound.followed
  · exact inTurn_of_followed (by simp [Lost, init])

/-- A suspend, a resume behind it, and a wake-up without a state. -/
theorem states_followed_suspend :
    let ops := [.wait, .onTcuActivityStateUpdate .suspend, .goOn, .wait,
      .onTcuActivityStateUpdate .resume, .goOn, .wait, .wake, .goOn, .wait]
    (final step init ops).handled = [.suspend, .resume] ∧
      (final step init ops).acks = [.suspendAck] ∧
      ∀ xs, xs <+: ops → (final step init xs).Followed :=
  ⟨by decide, by decide, (states_followed _).1 (by decide)⟩

/-- A suspend before the first wait is not handled, and of two states in a row the first is lost. -/
theorem states_not_followed :
    (¬ (final step init [.onTcuActivityStateUpdate .suspend, .wait]).Followed) ∧
      ¬ (final step init [.wait, .onTcuActivityStateUpdate .suspend,
        .onTcuActivityStateUpdate .resume, .goOn]).Followed := by
  constructor
  · intro h
    exact absurd (h.blocked (by decide)) (by decide)
  · intro h
    exact absurd h.handled (by decide)

end Daemon

end Tulux.Cv2xDaemon
