import Mathlib.Logic.Function.Basic
import Mathlib.Tactic
import Tulux.Lib.CondVar
import Tulux.Lib.GuardedRun

/-! The wait of `startDataCall` for its data call. The two call types have a status each and share
the mutex `dmutex_` and the condition variable `dcv_`; what happens under the mutex is one step. -/
namespace Tulux.Cv2xDaemon
open GuardedRun

inductive DataCallStatus where
  | invalid
  | netConnected
  | netNoNet
  | netIdle
  | netConnecting
  | netDisconnecting
  | netReconfigured
  | netNewaddr
  | netDeladdr
  deriving DecidableEq, Repr

/-- The statuses that end an attempt to connect. -/
def DataCallStatus.isFinal (status : DataCallStatus) : Bool :=
  status == .netConnected || status == .netNoNet

inductive DataCallType where
  | ip
  | nonIp
  deriving DecidableEq, Repr

/-- Where a caller of `startDataCall` is: outside, before the response to its request, or in
`waitDataCallConnect`. -/
inductive CallPc where
  | idle
  | requested
  | waits (w : Waiter)
  deriving DecidableEq, Repr

/-- A result of `waitDataCallConnect`: the status it read and the attempt that status belongs to,
and the final status that its own attempt had got. -/
structure Decision where
  connect : Bool
  attempt : ℕ
  storedIn : ℕ
  status : DataCallStatus
  final : Option DataCallStatus
  deriving DecidableEq, Repr

/-- It decides on the final status of its attempt. -/
structure Decision.Right (d : Decision) : Prop where
  attempt : d.storedIn = d.attempt
  status : d.final = some d.status
  connect : d.connect = true ↔ d.final = some .netConnected

/-- One call type. `storedIn` is the attempt that the status belongs to, and `final` the final
status of the current attempt that was stored last. -/
structure DataCall where
  pc : CallPc
  attempt : ℕ
  status : DataCallStatus
  storedIn : ℕ
  final : Option DataCallStatus
  decisions : List Decision
  deriving DecidableEq, Repr

namespace DataCall

def init : DataCall := ⟨.idle, 0, .invalid, 0, none, []⟩

/-- A new attempt is requested; the status stays as it is. -/
def startDataCall (c : DataCall) : DataCall :=
  if c.pc = .idle then
    { c with pc := .requested, attempt := c.attempt + 1, final := none }
  else c

def response (c : DataCall) (success : Bool) : DataCall :=
  if c.pc = .requested then { c with pc := if success then .waits .out else .idle } else c

def beginWait (c : DataCall) : DataCall :=
  if c.pc = .waits .out then { c with pc := .waits .blocked } else c

/-- `dcv_` is notified. -/
def wake (c : DataCall) : DataCall :=
  match c.pc with
  | .waits w => { c with pc := .waits w.notify }
  | _ => c

/-- A status of the call is stored. -/
def store (c : DataCall) (attempt : ℕ) (status : DataCallStatus) : DataCall :=
  { c with
    status := status
    storedIn := attempt
    final := if attempt = c.attempt ∧ status.isFinal = true then some status else c.final }

def reset (c : DataCall) : DataCall := { c with status := .invalid }

/-- Behind a wake-up the wait goes on while the status is `invalid`. -/
def goOn (c : DataCall) : DataCall :=
  if c.pc = .waits .woken then
    if c.status = .invalid then { c with pc := .waits .blocked }
    else
      { c with
        pc := .idle
        decisions := c.decisions ++
          [⟨c.status == .netConnected, c.attempt, c.storedIn, c.status, c.final⟩] }
  else c

/-- No wait is left blocked behind a final status, and each decides on that status. -/
structure Exact (c : DataCall) : Prop where
  blocked : c.pc = .waits .blocked → c.final = none
  right : ∀ d ∈ c.decisions, d.Right

def Waiting (c : DataCall) : Prop := c.pc = .waits .blocked ∨ c.pc = .waits .woken

instance (c : DataCall) : Decidable c.Waiting := inferInstanceAs (Decidable (_ ∨ _))

/-- The wait begins with no final status stored. -/
def WaitInOrder (c : DataCall) : Prop := c.pc = .waits .out → c.final = none

/-- A wake-up by something else finds no status. -/
def WakeInOrder (c : DataCall) : Prop := c.pc = .waits .blocked → c.status = .invalid

/-- During its wait a call gets only final statuses of its own attempt. -/
def StoreInOrder (c : DataCall) (attempt : ℕ) (status : DataCallStatus) : Prop :=
  c.Waiting → attempt = c.attempt ∧ status.isFinal = true

/-- A reset does not take a final status from a call that is about to read it. -/
def ResetInOrder (c : DataCall) : Prop := c.pc = .waits .woken → c.final = none

instance (c : DataCall) : Decidable c.WaitInOrder := inferInstanceAs (Decidable (_ → _))

instance (c : DataCall) : Decidable c.WakeInOrder := inferInstanceAs (Decidable (_ → _))

instance (c : DataCall) (attempt : ℕ) (status : DataCallStatus) :
    Decidable (c.StoreInOrder attempt status) := inferInstanceAs (Decidable (_ → _))

instance (c : DataCall) : Decidable c.ResetInOrder := inferInstanceAs (Decidable (_ → _))

/-- A call that is woken finds no status, or the final status of its attempt. -/
structure Sound (c : DataCall) : Prop where
  exact : c.Exact
  woken : c.pc = .waits .woken → (c.status = .invalid ∧ c.final = none) ∨
    (c.storedIn = c.attempt ∧ c.final = some c.status ∧ c.status.isFinal = true)

variable {c : DataCall}

theorem sound_init : init.Sound := by
  refine ⟨⟨?_, ?_⟩, ?_⟩ <;> simp [init]

theorem Sound.startDataCall (h : c.Sound) : c.startDataCall.Sound := by
  unfold DataCall.startDataCall
  split_ifs
  · exact ⟨⟨by simp, h.exact.right⟩, by simp⟩
  · exact h

theorem Sound.response (h : c.Sound) (success : Bool) : (c.response success).Sound := by
  unfold DataCall.response
  by_cases hpc : c.pc = .requested
  · rw [if_pos hpc]
    cases success <;> exact ⟨⟨by simp, h.exact.right⟩, by simp⟩
  · rw [if_neg hpc]
    exact h

theorem Sound.beginWait (h : c.Sound) (hop : c.WaitInOrder) : c.beginWait.Sound := by
  unfold DataCall.beginWait
  split_ifs with hpc
  · exact ⟨⟨fun _ => hop hpc, h.exact.right⟩, by simp⟩
  · exact h

theorem Sound.wake (h : c.Sound) (hop : c.WakeInOrder) : c.wake.Sound := by
  unfold DataCall.wake
  split
  · rename_i w hpc
    refine ⟨⟨by simp, h.exact.right⟩, fun hwoken => ?_⟩
    cases w with
    | out => simp at hwoken
    | blocked => exact Or.inl ⟨hop hpc, h.exact.blocked hpc⟩
    | woken => exact h.woken hpc
  · exact h

/-- The notification of its own status finds a call outside its wait, or ends the wait. -/
theorem Sound.store (h : c.Sound) {attempt : ℕ} {status : DataCallStatus}
    (hop : c.StoreInOrder attempt status) : (c.store attempt status).wake.Sound := by
  have hstored : c.Waiting → (c.store attempt status).final = some status ∧ attempt = c.attempt ∧
      status.isFinal = true := by
    intro hwaiting
    obtain ⟨hattempt, hfinal⟩ := hop hwaiting
    exact ⟨by simp [DataCall.store, hattempt, hfinal], hattempt, hfinal⟩
  cases hpc : c.pc with
  | idle => simpa [DataCall.wake, DataCall.store, hpc] using
      (⟨⟨by simp, h.exact.right⟩, by simp⟩ : Sound { c.store attempt status with pc := .idle })
  | requested => simpa [DataCall.wake, DataCall.store, hpc] using
      (⟨⟨by simp, h.exact.right⟩, by simp⟩ : Sound { c.store attempt status with pc := .requested })
  | waits w =>
    have hstep : (c.store attempt status).wake =
        { c.store attempt status with pc := .waits w.notify } := by
      simp [DataCall.wake, DataCall.store, hpc]
    rw [hstep]
    refine ⟨⟨by simp, h.exact.right⟩, fun hwoken => Or.inr ?_⟩
    have hwaiting : c.Waiting := by
      cases w with
      | out => simp at hwoken
      | blocked => exact Or.inl hpc
      | woken => exact Or.inr hpc
    obtain ⟨hfinal, hattempt, hisFinal⟩ := hstored hwaiting
    exact ⟨hattempt, hfinal, hisFinal⟩

theorem Sound.reset (h : c.Sound) (hop : c.ResetInOrder) : c.reset.Sound :=
  ⟨⟨h.exact.blocked, h.exact.right⟩, fun hwoken => Or.inl ⟨rfl, hop hwoken⟩⟩

theorem Sound.goOn (h : c.Sound) : c.goOn.Sound := by
  unfold DataCall.goOn
  split_ifs with hwoken hinvalid
  · refine ⟨⟨fun _ => ?_, h.exact.right⟩, by simp⟩
    rcases h.woken hwoken with ⟨-, hnone⟩ | ⟨-, -, hfinal⟩
    · exact hnone
    · simp [hinvalid, DataCallStatus.isFinal] at hfinal
  · obtain ⟨hattempt, hfinal, -⟩ := (h.woken hwoken).resolve_left fun hnone => hinvalid hnone.1
    have hright : Decision.Right
        ⟨c.status == .netConnected, c.attempt, c.storedIn, c.status, c.final⟩ :=
      ⟨hattempt, hfinal, by simp [hfinal]⟩
    exact ⟨⟨by simp, List.forall_mem_append.mpr
      ⟨h.exact.right, List.forall_mem_singleton.mpr hright⟩⟩, by simp⟩
  · exact h

end DataCall

/-! ### Both call types -/

/-- A notification is of a call type and of an attempt that was requested; the others are not for
this daemon. -/
inductive DataOp where
  | startDataCall (callType : DataCallType)
  | response (callType : DataCallType) (success : Bool)
  | beginWait (callType : DataCallType)
  | wake (callType : DataCallType)
  | goOn (callType : DataCallType)
  | onDataCallInfoChanged (callType : DataCallType) (attempt : ℕ) (status : DataCallStatus)
  | onServiceAvailable
  deriving DecidableEq, Repr

/-- The calls of a `DataConnectionListener`. -/
abbrev DataCalls := DataCallType → DataCall

namespace DataCalls
open DataCall

def start : DataCalls := fun _ => .init

def other : DataCallType → DataCallType
  | .ip => .nonIp
  | .nonIp => .ip

/-- A status wakes both callers. -/
def onDataCallInfoChanged (s : DataCalls) (callType : DataCallType) (attempt : ℕ)
    (status : DataCallStatus) : DataCalls :=
  if attempt ≤ (s callType).attempt then fun t =>
    if t = callType then ((s t).store attempt status).wake else (s t).wake
  else s

def step (s : DataCalls) : DataOp → DataCalls
  | .startDataCall callType => Function.update s callType (s callType).startDataCall
  | .response callType success => Function.update s callType ((s callType).response success)
  | .beginWait callType => Function.update s callType (s callType).beginWait
  | .wake callType => Function.update s callType (s callType).wake
  | .goOn callType => Function.update s callType (s callType).goOn
  | .onDataCallInfoChanged callType attempt status =>
    s.onDataCallInfoChanged callType attempt status
  | .onServiceAvailable => fun t => (s t).reset

/-- Each wait begins before the final status of its attempt; it gets nothing but such a status, and
is woken by others only without a status; and no reset comes between. -/
def InOrder (s : DataCalls) : DataOp → Prop
  | .beginWait callType => (s callType).WaitInOrder
  | .wake callType => (s callType).WakeInOrder
  | .onDataCallInfoChanged callType attempt status => attempt ≤ (s callType).attempt →
    (s callType).StoreInOrder attempt status ∧ (s (other callType)).WakeInOrder
  | .onServiceAvailable => (s .ip).ResetInOrder ∧ (s .nonIp).ResetInOrder
  | _ => True

instance (s : DataCalls) (op : DataOp) : Decidable (s.InOrder op) := by
  cases op <;> unfold InOrder <;> infer_instance

variable {s : DataCalls}

theorem sound_update (h : ∀ t, (s t).Sound) {callType : DataCallType} {c : DataCall}
    (hc : c.Sound) : ∀ t, (Function.update s callType c t).Sound := by
  intro t
  by_cases ht : t = callType
  · subst ht
    simpa using hc
  · simpa [ht] using h t

theorem sound_step (h : ∀ t, (s t).Sound) (op : DataOp) (hop : s.InOrder op) :
    ∀ t, (s.step op t).Sound := by
  cases op with
  | startDataCall callType => exact sound_update h (h callType).startDataCall
  | response callType success => exact sound_update h ((h callType).response success)
  | beginWait callType => exact sound_update h ((h callType).beginWait hop)
  | wake callType => exact sound_update h ((h callType).wake hop)
  | goOn callType => exact sound_update h (h callType).goOn
  | onDataCallInfoChanged callType attempt status =>
    intro t
    simp only [step, onDataCallInfoChanged]
    by_cases hattempt : attempt ≤ (s callType).attempt
    · obtain ⟨hstore, hwake⟩ := hop hattempt
      rw [if_pos hattempt]
      by_cases ht : t = callType
      · subst ht
        simpa using (h t).store hstore
      · have hother : t = other callType := by
          cases t <;> cases callType <;> simp_all [other]
        simpa [ht] using (h t).wake (hother ▸ hwake)
    · rw [if_neg hattempt]
      exact h t
  | onServiceAvailable =>
    intro t
    cases t with
    | ip => exact (h .ip).reset hop.1
    | nonIp => exact (h .nonIp).reset hop.2

/-- The waits are exact in every run whose steps are in order. -/
theorem data_call_waits_exact {ops : List DataOp} (h : Always step InOrder start ops) :
    ∀ xs, xs <+: ops → ∀ t, (final step start xs t).Exact := by
  intro xs hxs t
  have hsound := h.reached (fun _ op (hs : ∀ t, _) hop => sound_step hs op hop)
    (fun _ => sound_init) hxs
  exact (hsound t).exact

/-- Both calls connect, each behind its own status. -/
theorem data_call_waits_exact_both :
    let ops := [.startDataCall .ip, .startDataCall .nonIp, .response .ip true,
      .response .nonIp true, .beginWait .ip, .beginWait .nonIp,
      .onDataCallInfoChanged .ip 1 .netConnected, .goOn .nonIp, .goOn .ip,
      .onDataCallInfoChanged .nonIp 1 .netNoNet, .goOn .nonIp]
    (final step start ops .ip).decisions = [⟨true, 1, 1, .netConnected, some .netConnected⟩] ∧
      (final step start ops .nonIp).decisions = [⟨false, 1, 1, .netNoNet, some .netNoNet⟩] ∧
      ∀ xs, xs <+: ops → ∀ t, (final step start xs t).Exact :=
  ⟨by decide, by decide, data_call_waits_exact (by decide)⟩

/-- A call that is connected before its wait begins stays blocked; one that is connecting is taken
for one that has failed; and the status of the other call type wakes one that reads the status of
an earlier attempt. -/
theorem data_call_waits_not_exact :
    (¬ (final step start [.startDataCall .ip, .response .ip true,
        .onDataCallInfoChanged .ip 1 .netConnected, .beginWait .ip] .ip).Exact) ∧
    (¬ (final step start [.startDataCall .ip, .response .ip true, .beginWait .ip,
        .onDataCallInfoChanged .ip 1 .netConnecting, .goOn .ip] .ip).Exact) ∧
    ¬ (final step start [.startDataCall .ip, .response .ip true, .beginWait .ip,
        .onDataCallInfoChanged .ip 1 .netConnected, .goOn .ip, .startDataCall .ip,
        .response .ip true, .beginWait .ip, .onDataCallInfoChanged .nonIp 0 .netNoNet,
        .goOn .ip] .ip).Exact := by
  refine ⟨fun h => ?_, fun h => ?_, fun h => ?_⟩
  · exact absurd (h.blocked (by decide)) (by decide)
  · have hearly := h.right ⟨false, 1, 1, .netConnecting, none⟩ (by decide)
    exact absurd hearly.status (by decide)
  · have hstale := h.right ⟨true, 2, 1, .netConnected, none⟩ (by decide)
    exact absurd hstale.attempt (by decide)

end DataCalls

end Tulux.Cv2xDaemon
