import Mathlib.Logic.Function.Basic
import Mathlib.Tactic

/-! The telephony client of the eCall application, with the set-up and the clean-up of its manager,
and the telephony system that calls it back. Each callback is one step. -/
namespace Tulux.EcallApp

inductive CallState where
  | callIdle
  | callActive
  | callOnHold
  | callDialing
  | callIncoming
  | callWaiting
  | callAlerting
  | callEnded
  deriving DecidableEq, Repr

/-- A call in the list of the call manager. -/
structure Call where
  callIndex : ℕ
  phoneId : ℤ
  callState : CallState
  deriving DecidableEq, Repr

/-- The first incoming call of a phone. -/
def findIncoming (phoneId : ℤ) (callList : List Call) : Option ℕ :=
  (callList.find? fun call => call.callState == .callIncoming && call.phoneId == phoneId).map
    Call.callIndex

/-! ### The telephony system -/

/-- What has become of a request. -/
inductive Outcome where
  | undecided
  | connected
  | failed
  deriving DecidableEq, Repr

/-- A request to answer the call `call`, or to make a call, which is `call` once it is made. -/
structure Request where
  answers : Bool
  call : Option ℕ
  outcome : Outcome
  deriving DecidableEq, Repr

namespace Request

/-- An incoming call that ends cannot be answered any more. -/
def callEnds (r : Request) (n : ℕ) : Request :=
  if r.call = some n ∧ r.outcome = .undecided then { r with outcome := .failed } else r

/-- An answer whose call has come or gone. -/
structure Done (r : Request) : Prop where
  answers : r.answers = true
  decided : r.outcome ≠ .undecided

theorem callEnds_of_decided {r : Request} (h : r.outcome ≠ .undecided) (n : ℕ) :
    r.callEnds n = r := by
  simp [callEnds, h]

end Request

/-- The members of `TelClient` and `ECallManager`, and the telephony system: its eCalls, and the
request of each set-up whose response is due. The calls are known by their indices. -/
structure ECallSystem where
  eCall : Option ℕ
  eCallInprogress : Bool
  callListener : Bool
  phoneId : ℤ
  setups : ℕ
  cleanups : ℕ
  calls : List ℕ
  requests : ℕ → Option Request

namespace ECallSystem

def init : ECallSystem := ⟨none, false, false, -1, 0, 0, [], fun _ => none⟩

/-- Disables the thermal auto-shutdown. -/
def setup (s : ECallSystem) (phoneId : ℤ) : ECallSystem :=
  { s with phoneId := phoneId, setups := s.setups + 1 }

/-- Enables the thermal auto-shutdown. -/
def cleanup (s : ECallSystem) : ECallSystem :=
  { s with phoneId := -1, cleanups := s.cleanups + 1 }

def onCallDisconnect (s : ECallSystem) : ECallSystem :=
  if s.callListener = true then { s.cleanup with callListener := false } else s

/-- The response to `makeECall`, with the call when there is one. -/
def makeCallResponse (s : ECallSystem) : Option ℕ → ECallSystem
  | some n => { s with eCall := some n }
  | none => { s.onCallDisconnect with eCallInprogress := false }

/-- The callback of `AnswerCommandCallback`. -/
def commandResponse (s : ECallSystem) (success : Bool) : ECallSystem :=
  if success = true then s
  else { s.onCallDisconnect with eCallInprogress := false, eCall := none }

def onCallInfoChange (s : ECallSystem) (n : ℕ) (callState : CallState) : ECallSystem :=
  if callState = .callEnded ∧ s.eCall = some n then
    { s.onCallDisconnect with eCallInprogress := false, eCall := none }
  else s

/-- The telephony system takes the request of the last set-up. -/
def sendRequest (s : ECallSystem) (spCall : Option ℕ) : ECallSystem :=
  { s with
    requests := Function.update s.requests s.setups (some ⟨spCall.isSome, spCall, .undecided⟩) }

/-- The call of a request is made, or the call that it answers is connected. -/
def connect (s : ECallSystem) (k n : ℕ) : ECallSystem :=
  match s.requests k with
  | some r =>
    if r.outcome = .undecided ∧ (r.answers = true → r.call = some n) then
      { s with
        calls := n :: s.calls
        requests := Function.update s.requests k
          (some { r with call := some n, outcome := Outcome.connected }) }
    else s
  | none => s

/-- The response to a request says whether its call is there. -/
def response (s : ECallSystem) (k : ℕ) : ECallSystem :=
  match s.requests k with
  | some r =>
    let s' := { s with requests := Function.update s.requests k none }
    let success := r.outcome == .connected
    if r.answers = true then s'.commandResponse success
    else s'.makeCallResponse (if success then r.call else none)
  | none => s

/-- A call changes its state; a call that has ended is gone. -/
def notify (s : ECallSystem) (n : ℕ) (callState : CallState) : ECallSystem :=
  if callState = .callEnded then
    { s with
      calls := s.calls.erase n
      requests := fun k => (s.requests k).map (Request.callEnds · n) }.onCallInfoChange n callState
  else s.onCallInfoChange n callState

/-- A request may still lead to a call. -/
def OnItsWay (s : ECallSystem) : Prop :=
  ∃ k ≤ s.setups, (s.requests k).any (fun r => r.outcome == .undecided) = true

/-- A response without a call, while an eCall is in progress, is for that eCall, and comes when the
listener is stored. -/
def ResponseInOrder (s : ECallSystem) (k : ℕ) : Prop :=
  (s.requests k).any (fun r => r.outcome != .connected) = true → s.eCallInprogress = true →
    k = s.setups ∧ s.callListener = true

/-- An eCall ends when the client knows its call and the listener is stored. -/
def EndInOrder (s : ECallSystem) (n : ℕ) : Prop :=
  (n ∈ s.calls → s.eCall = some n) ∧ (s.eCall = some n → s.callListener = true)

instance (s : ECallSystem) (k : ℕ) : Decidable (s.ResponseInOrder k) :=
  inferInstanceAs (Decidable (_ → _))

instance (s : ECallSystem) (n : ℕ) : Decidable (s.EndInOrder n) :=
  inferInstanceAs (Decidable (_ ∧ _))

/-! What holds between the steps: no operation is in progress, or one is before its request, or one
has its request behind it. -/

/-- The requests but `k` are answers whose calls have come or gone. -/
def DoneBut (requests : ℕ → Option Request) (k : Option ℕ) : Prop :=
  ∀ j r, requests j = some r → k ≠ some j → r.Done

/-- `due` clean-ups are due. -/
structure Resting (s : ECallSystem) (due : ℕ) : Prop where
  eCall : s.eCall = none
  progress : s.eCallInprogress = false
  listener : s.callListener = false
  calls : s.calls = []
  done : DoneBut s.requests none
  counted : s.cleanups + due = s.setups

structure Starting (s : ECallSystem) : Prop where
  progress : s.eCallInprogress = true
  listener : s.callListener = false
  calls : s.calls = []
  done : DoneBut s.requests none
  counted : s.cleanups + 1 = s.setups

/-- The call the client knows, the eCalls, and the request whose response is due. -/
inductive Stage : Option ℕ → List ℕ → Option Request → Prop
  | making : Stage none [] (some ⟨false, none, .undecided⟩)
  | made (n : ℕ) : Stage none [n] (some ⟨false, some n, .connected⟩)
  | answering (n : ℕ) : Stage (some n) [] (some ⟨true, some n, .undecided⟩)
  | answered (n : ℕ) : Stage (some n) [n] (some ⟨true, some n, .connected⟩)
  | established (n : ℕ) : Stage (some n) [n] none

structure Running (s : ECallSystem) : Prop where
  progress : s.eCallInprogress = true
  done : DoneBut s.requests (some s.setups)
  counted : s.cleanups + 1 = s.setups
  stage : Stage s.eCall s.calls (s.requests s.setups)

variable {s : ECallSystem}

variable {requests : ℕ → Option Request} {current : Option ℕ}

theorem DoneBut.update {j : ℕ} {r : Option Request} (h : DoneBut requests current)
    (hr : ∀ r', r = some r' → current ≠ some j → r'.Done) :
    DoneBut (Function.update requests j r) current := by
  intro i r' hi hne
  by_cases hij : i = j
  · subst hij
    exact hr r' (by simpa using hi) hne
  · exact h i r' (by simpa [hij] using hi) hne

theorem DoneBut.callEnds (h : DoneBut requests current) (n : ℕ) :
    DoneBut (fun j => (requests j).map (Request.callEnds · n)) current := by
  intro j r hj hne
  obtain ⟨r', hr', rfl⟩ := Option.map_eq_some_iff.mp hj
  have hdone := h j r' hr' hne
  rwa [Request.callEnds_of_decided hdone.decided]

/-- The current request is done too. -/
theorem DoneBut.close {k : ℕ} (h : DoneBut requests (some k))
    (hk : ∀ r, requests k = some r → r.Done) : DoneBut requests none := by
  intro j r hj _
  by_cases hjk : k = j
  · subst hjk
    exact hk r hj
  · exact h j r hj (by simpa using hjk)

/-- Only the request of the set-up in progress can lead to a call. -/
theorem connect_of_done {k n : ℕ} (h : ∀ r, s.requests k = some r → r.Done) :
    s.connect k n = s := by
  unfold connect
  cases hr : s.requests k with
  | none => rfl
  | some r => simp [(h r hr).decided]

theorem Resting.connect {due : ℕ} (h : s.Resting due) (k n : ℕ) : (s.connect k n).Resting due := by
  rw [connect_of_done fun r hr => h.done k r hr (by simp)]
  exact h

theorem Starting.connect (h : s.Starting) (k n : ℕ) : s.connect k n = s :=
  connect_of_done fun r hr => h.done k r hr (by simp)

namespace Stage
variable {eCall : Option ℕ} {calls : List ℕ} {r : Request} {request : Option Request} {n : ℕ}

theorem connect (h : Stage eCall calls (some r)) (hopen : r.outcome = .undecided)
    (hcall : r.answers = true → r.call = some n) :
    Stage eCall (n :: calls) (some { r with call := some n, outcome := .connected }) := by
  cases h with
  | making => exact .made n
  | made m => simp at hopen
  | answering m =>
    obtain rfl : m = n := by simpa using hcall
    exact .answered m
  | answered m => simp at hopen

theorem calls_of_not_connected (h : Stage eCall calls (some r)) (hr : r.outcome ≠ .connected) :
    calls = [] := by
  cases h with
  | making => rfl
  | made m => simp at hr
  | answering m => rfl
  | answered m => simp at hr

theorem known_of_not_connected (h : Stage eCall calls (some r)) (hr : r.outcome ≠ .connected)
    (ha : r.answers = false) : eCall = none := by
  cases h with
  | making => rfl
  | made m => simp at hr
  | answering m => simp at ha
  | answered m => simp at hr

theorem one_call (h : Stage eCall calls request) : calls = [] ∨ ∃ m, calls = [m] := by
  cases h with
  | making => exact Or.inl rfl
  | made m => exact Or.inr ⟨m, rfl⟩
  | answering m => exact Or.inl rfl
  | answered m => exact Or.inr ⟨m, rfl⟩
  | established m => exact Or.inr ⟨m, rfl⟩

theorem on_its_way (h : Stage eCall [] request) :
    request.any (fun r => r.outcome == .undecided) = true := by
  cases h <;> rfl

/-- A response with a call leaves the client with that call. -/
theorem established_of_connected (h : Stage eCall calls (some r)) (hr : r.outcome = .connected) :
    ∃ m, r.call = some m ∧ calls = [m] ∧ (r.answers = true → eCall = some m) := by
  cases h with
  | making => simp at hr
  | made m => exact ⟨m, rfl, rfl, by simp⟩
  | answering m => simp at hr
  | answered m => exact ⟨m, rfl, rfl, fun _ => rfl⟩

/-- The end of the call that the client knows leaves no call. -/
theorem ends (h : Stage (some n) calls request) :
    calls.erase n = [] ∧ ∀ r, request.map (Request.callEnds · n) = some r → r.Done := by
  cases h with
  | answering m => simpa [Request.callEnds] using ⟨rfl, by simp⟩
  | answered m => simpa [Request.callEnds] using ⟨rfl, by simp⟩
  | established m => simp

/-- The end of another call leaves the eCall as it is. -/
theorem keeps (h : Stage eCall calls request) (hcall : n ∈ calls → eCall = some n)
    (hother : eCall ≠ some n) :
    Stage eCall (calls.erase n) (request.map (Request.callEnds · n)) := by
  have hnot : n ∉ calls := fun hn => hother (hcall hn)
  rw [List.erase_of_not_mem hnot]
  cases h with
  | making => simpa [Request.callEnds] using Stage.making
  | made m => simpa [Request.callEnds] using Stage.made m
  | answering m =>
    have hm : m ≠ n := by simpa using hother
    simpa [Request.callEnds, hm] using Stage.answering m
  | answered m => simpa [Request.callEnds] using Stage.answered m
  | established m => simpa using Stage.established m

end Stage

theorem Running.connect (h : s.Running) (k n : ℕ) : (s.connect k n).Running := by
  by_cases hk : k = s.setups
  · subst hk
    have hdone := h.done
    have hstage := h.stage
    unfold ECallSystem.connect
    cases hr : s.requests s.setups with
    | none => exact h
    | some r =>
      simp only
      split_ifs with hopen
      · rw [hr] at hstage
        refine ⟨h.progress, hdone.update (by simp), h.counted, ?_⟩
        simpa using hstage.connect hopen.1 hopen.2
      · exact h
  · rw [connect_of_done fun r hr => h.done k r hr (by simpa using Ne.symm hk)]
    exact h

theorem callListener_connect (k n : ℕ) : (s.connect k n).callListener = s.callListener := by
  unfold connect
  split
  · split_ifs <;> rfl
  · rfl

/-! The responses. -/

/-- Nothing is in progress. -/
structure Quiet (s : ECallSystem) : Prop where
  eCall : s.eCall = none
  progress : s.eCallInprogress = false
  listener : s.callListener = false

theorem Resting.quiet {due : ℕ} (h : s.Resting due) : s.Quiet := ⟨h.eCall, h.progress, h.listener⟩

/-- A late response changes nothing when it has a call, or when nothing is in progress. -/
theorem response_of_done {k : ℕ} (h : ∀ r, s.requests k = some r → r.Done)
    (hfail : ∀ r, s.requests k = some r → r.outcome ≠ .connected → s.Quiet) :
    s.response k = { s with requests := Function.update s.requests k none } := by
  cases hr : s.requests k with
  | none => simp [response, hr, Function.update_eq_self_iff.mpr]
  | some r =>
    have hdone := h r hr
    by_cases hconn : r.outcome = .connected
    · simp [response, hr, hdone.answers, hconn, commandResponse]
    · obtain ⟨hcall, hprogress, hlistener⟩ := hfail r hr hconn
      simp [response, hr, hdone.answers, hconn, commandResponse, onCallDisconnect, hlistener, hcall,
        hprogress]

theorem ResponseInOrder.is_current {k : ℕ} (h : s.ResponseInOrder k) (hp : s.eCallInprogress = true)
    {r : Request} (hr : s.requests k = some r) (hfail : r.outcome ≠ .connected) :
    k = s.setups ∧ s.callListener = true :=
  h (by simpa [hr] using hfail) hp

theorem Resting.response {due k : ℕ} (h : s.Resting due) : (s.response k).Resting due := by
  rw [response_of_done (fun r hr => h.done k r hr (by simp)) fun _ _ _ => h.quiet]
  exact ⟨h.eCall, h.progress, h.listener, h.calls, h.done.update (by simp), h.counted⟩

theorem Starting.response {k : ℕ} (h : s.Starting) (hin : s.ResponseInOrder k) :
    (s.response k).Starting ∧ (s.response k).eCall = s.eCall := by
  have hfail : ∀ r, s.requests k = some r → r.outcome ≠ .connected → s.Quiet := by
    intro r hr hnot
    have hlistener := (hin.is_current h.progress hr hnot).2
    simp [h.listener] at hlistener
  rw [response_of_done (fun r hr => h.done k r hr (by simp)) hfail]
  exact ⟨⟨h.progress, h.listener, h.calls, h.done.update (by simp), h.counted⟩, rfl⟩

/-- The response to the request in progress leaves its call in progress, or nothing. -/
theorem Running.response {k : ℕ} (h : s.Running) (hin : s.ResponseInOrder k) :
    ((s.response k).Running ∧ (s.response k).callListener = s.callListener) ∨
      ((s.response k).Resting 0 ∧ s.callListener = true) := by
  by_cases hk : k = s.setups
  · subst hk
    have hstage := h.stage
    cases hr : s.requests s.setups with
    | none => exact Or.inl (by simpa [ECallSystem.response, hr] using h)
    | some r =>
      rw [hr] at hstage
      by_cases hconn : r.outcome = .connected
      · obtain ⟨m, hcall, hcalls, hknown⟩ := hstage.established_of_connected hconn
        left
        have hstage' : Stage (some m) s.calls none := hcalls ▸ Stage.established m
        have hdone := h.done.update (j := s.setups) (r := none) (by simp)
        cases ha : r.answers with
        | true =>
          have heq : s.response s.setups =
              { s with requests := Function.update s.requests s.setups none } := by
            simp [ECallSystem.response, hr, ha, hconn, commandResponse]
          rw [heq]
          exact ⟨⟨h.progress, hdone, h.counted, by simpa [hknown ha] using hstage'⟩, rfl⟩
        | false =>
          have heq : s.response s.setups =
              { s with
                eCall := some m, requests := Function.update s.requests s.setups none } := by
            simp [ECallSystem.response, hr, ha, hconn, makeCallResponse, hcall]
          rw [heq]
          exact ⟨⟨h.progress, hdone, h.counted, by simpa using hstage'⟩, rfl⟩
      · right
        have hlistener := (hin.is_current h.progress hr hconn).2
        have hcalls := hstage.calls_of_not_connected hconn
        have hunknown := hstage.known_of_not_connected hconn
        have heq : s.response s.setups =
            { s.cleanup with
              eCall := none, eCallInprogress := false, callListener := false
              requests := Function.update s.requests s.setups none } := by
          cases ha : r.answers with
          | true =>
            simp [ECallSystem.response, hr, ha, hconn, commandResponse, onCallDisconnect, hlistener,
              cleanup]
          | false =>
            simp [ECallSystem.response, hr, ha, hconn, makeCallResponse, onCallDisconnect,
              hlistener, cleanup, hunknown ha]
        have hclosed := (h.done.update (j := s.setups) (r := none) (by simp)).close (by simp)
        rw [heq]
        exact ⟨⟨rfl, rfl, rfl, hcalls, hclosed, h.counted⟩, hlistener⟩
  · left
    have hfail : ∀ r, s.requests k = some r → r.outcome ≠ .connected → s.Quiet :=
      fun r hr hnot => absurd (hin.is_current h.progress hr hnot).1 hk
    rw [response_of_done (fun r hr => h.done k r hr (by simpa using Ne.symm hk)) hfail]
    have hstage := h.stage
    refine ⟨⟨h.progress, h.done.update fun _ hnone => by simp at hnone, h.counted, ?_⟩, rfl⟩
    simpa [Function.update_of_ne (Ne.symm hk)] using hstage

/-! The call state notifications. -/

theorem notify_of_not_ended {n : ℕ} {callState : CallState} (h : callState ≠ .callEnded) :
    s.notify n callState = s := by
  simp [notify, onCallInfoChange, h]

theorem notify_of_other {n : ℕ} (h : s.eCall ≠ some n) : s.notify n .callEnded =
    { s with
      calls := s.calls.erase n
      requests := fun k => (s.requests k).map (Request.callEnds · n) } := by
  simp [notify, onCallInfoChange, h]

theorem Resting.notify {due : ℕ} (h : s.Resting due) (n : ℕ) :
    (s.notify n .callEnded).Resting due := by
  rw [notify_of_other (by simp [h.eCall])]
  exact ⟨h.eCall, h.progress, h.listener, by simp [h.calls], h.done.callEnds n, h.counted⟩

theorem Starting.notify {n : ℕ} (h : s.Starting) (hin : s.EndInOrder n) :
    (s.notify n .callEnded).Starting ∧ (s.notify n .callEnded).eCall = s.eCall := by
  have hother : s.eCall ≠ some n := by
    intro hn
    simpa [h.listener] using hin.2 hn
  rw [notify_of_other hother]
  exact ⟨⟨h.progress, h.listener, by simp [h.calls], h.done.callEnds n, h.counted⟩, rfl⟩

theorem Running.notify {n : ℕ} (h : s.Running) (hin : s.EndInOrder n) :
    ((s.notify n .callEnded).Running ∧ (s.notify n .callEnded).callListener = s.callListener) ∨
      ((s.notify n .callEnded).Resting 0 ∧ s.callListener = true) := by
  by_cases hn : s.eCall = some n
  · right
    have hlistener := hin.2 hn
    have hstage := h.stage
    rw [hn] at hstage
    have heq : s.notify n .callEnded =
        { s.cleanup with
          eCall := none, eCallInprogress := false, callListener := false
          calls := s.calls.erase n
          requests := fun k => (s.requests k).map (Request.callEnds · n) } := by
      simp [ECallSystem.notify, onCallInfoChange, hn, onCallDisconnect, hlistener, cleanup]
    rw [heq]
    obtain ⟨hcalls, hlast⟩ := hstage.ends
    exact ⟨⟨rfl, rfl, rfl, hcalls, (h.done.callEnds n).close hlast, h.counted⟩, hlistener⟩
  · left
    rw [notify_of_other hn]
    exact ⟨⟨h.progress, h.done.callEnds n, h.counted, h.stage.keeps hin.1 hn⟩, rfl⟩

end ECallSystem

end Tulux.EcallApp
