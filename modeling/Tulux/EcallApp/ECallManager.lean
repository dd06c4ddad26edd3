import Mathlib.Tactic
import Tulux.EcallApp.TelClient
import Tulux.Lib.GuardedRun

/-! The manager of the eCall application. One thread triggers and answers calls, and the callbacks
come at any time between its steps. -/
namespace Tulux.EcallApp
open GuardedRun

/-- Where the thread is: outside; in `triggerECall` or `answerCall` behind the check of the progress
flag, or behind the set-up; before the request, with the call it answers; and behind the request,
which was taken or not. -/
inductive AppPc where
  | idle
  | checked (answers : Bool) (phoneId : ℤ)
  | prepared (answers : Bool)
  | starts (spCall : Option ℕ)
  | requested
  | refused (answers : Bool)
  deriving DecidableEq, Repr

structure ECallApp where
  pc : AppPc
  sys : ECallSystem

/-- The steps of the thread, of the telephony system, and the callbacks. -/
inductive ECallOp where
  | triggerECall (phoneId : ℤ)
  | answerCall (phoneId : ℤ)
  | setup
  | startECall
  | answer (callList : List Call)
  | request (accepted : Bool)
  | returns
  | connect (k n : ℕ)
  | response (k : ℕ)
  | onCallInfoChange (n : ℕ) (callState : CallState)
  | hangupCall
  | hangupResponse (success : Bool)
  deriving DecidableEq, Repr

namespace ECallApp

def init : ECallApp := ⟨.idle, .init⟩

/-- Fails while an eCall is in progress. -/
def begin (s : ECallApp) (answers : Bool) (phoneId : ℤ) : ECallApp :=
  if s.pc = .idle ∧ s.sys.eCallInprogress = false then { s with pc := .checked answers phoneId }
  else s

def setup (s : ECallApp) : ECallApp :=
  match s.pc with
  | .checked answers phoneId => ⟨.prepared answers, s.sys.setup phoneId⟩
  | _ => s

def startECall (s : ECallApp) : ECallApp :=
  if s.pc = .prepared false then ⟨.starts none, { s.sys with eCallInprogress := true }⟩ else s

def answer (s : ECallApp) (callList : List Call) : ECallApp :=
  if s.pc = .prepared true then
    match findIncoming s.sys.phoneId callList with
    | some n => ⟨.starts (some n), { s.sys with eCall := some n, eCallInprogress := true }⟩
    | none => ⟨.idle, s.sys.cleanup⟩
  else s

def request (s : ECallApp) (accepted : Bool) : ECallApp :=
  match s.pc with
  | .starts spCall =>
    if accepted then ⟨.requested, s.sys.sendRequest spCall⟩ else ⟨.refused spCall.isSome, s.sys⟩
  | _ => s

/-- The listener is stored, or the manager cleans up. -/
def returns (s : ECallApp) : ECallApp :=
  match s.pc with
  | .requested => ⟨.idle, { s.sys with callListener := true }⟩
  | .refused answers =>
    let eCall := if answers then none else s.sys.eCall
    ⟨.idle, { s.sys with eCallInprogress := false, eCall := eCall }.cleanup⟩
  | _ => s

/-- A hang-up only asks the telephony system, and its response is only printed. -/
def step (s : ECallApp) : ECallOp → ECallApp
  | .triggerECall phoneId => s.begin false phoneId
  | .answerCall phoneId => s.begin true phoneId
  | .setup => s.setup
  | .startECall => s.startECall
  | .answer callList => s.answer callList
  | .request accepted => s.request accepted
  | .returns => s.returns
  | .connect k n => { s with sys := s.sys.connect k n }
  | .response k => { s with sys := s.sys.response k }
  | .onCallInfoChange n callState => { s with sys := s.sys.notify n callState }
  | .hangupCall => s
  | .hangupResponse _ => s

/-- With no eCall, and none on its way, nothing is in progress and every set-up is cleaned up.
During an eCall it is in progress, and its clean-up has not run. -/
structure Paired (s : ECallApp) : Prop where
  without : s.pc = .idle → s.sys.calls = [] → ¬ s.sys.OnItsWay →
    s.sys.eCallInprogress = false ∧ s.sys.cleanups = s.sys.setups
  during : s.sys.calls ≠ [] →
    s.sys.eCallInprogress = true ∧ s.sys.cleanups + s.sys.calls.length = s.sys.setups

def InOrder (s : ECallApp) : ECallOp → Prop
  | .response k => s.sys.ResponseInOrder k
  | .onCallInfoChange n callState => callState = .callEnded → s.sys.EndInOrder n
  | _ => True

instance (s : ECallApp) (op : ECallOp) : Decidable (s.InOrder op) := by
  cases op <;> unfold InOrder <;> infer_instance

/-- What holds of the system at each place of the thread. -/
def SoundAt : AppPc → ECallSystem → Prop
  | .idle, sys => sys.Resting 0 ∨ (sys.Running ∧ sys.callListener = true)
  | .checked _ _, sys => sys.Resting 0
  | .prepared _, sys => sys.Resting 1
  | .starts spCall, sys => sys.Starting ∧ sys.eCall = spCall
  | .requested, sys => sys.Running ∧ sys.callListener = false
  | .refused answers, sys => sys.Starting ∧ (answers = false → sys.eCall = none)

def Sound (s : ECallApp) : Prop := SoundAt s.pc s.sys

variable {s : ECallApp}

theorem sound_init : init.Sound :=
  Or.inl ⟨rfl, rfl, rfl, rfl, fun _ _ hr => by simp [init, ECallSystem.init] at hr, rfl⟩

theorem Sound.begin (h : s.Sound) (answers : Bool) (phoneId : ℤ) :
    (s.begin answers phoneId).Sound := by
  unfold ECallApp.begin
  split_ifs with hidle
  · obtain ⟨hpc, hprogress⟩ := hidle
    have hat : SoundAt .idle s.sys := hpc ▸ h
    rcases hat with hrest | ⟨hrun, -⟩
    · exact hrest
    · simp [hrun.progress] at hprogress
  · exact h

theorem Sound.setup (h : s.Sound) : s.setup.Sound := by
  obtain ⟨pc, sys⟩ := s
  cases pc with
  | checked answers phoneId =>
    obtain ⟨hcall, hprogress, hlistener, hcalls, hdone, hcounted⟩ := h
    exact ⟨hcall, hprogress, hlistener, hcalls, hdone, congrArg (· + 1) hcounted⟩
  | _ => exact h

theorem Sound.startECall (h : s.Sound) : s.startECall.Sound := by
  unfold ECallApp.startECall
  split_ifs with hpc
  · have hat : SoundAt (.prepared false) s.sys := hpc ▸ h
    obtain ⟨hcall, -, hlistener, hcalls, hdone, hcounted⟩ := hat
    exact ⟨⟨rfl, hlistener, hcalls, hdone, hcounted⟩, hcall⟩
  · exact h

theorem Sound.answer (h : s.Sound) (callList : List Call) : (s.answer callList).Sound := by
  unfold ECallApp.answer
  by_cases hpc : s.pc = .prepared true
  · rw [if_pos hpc]
    have hat : SoundAt (.prepared true) s.sys := hpc ▸ h
    obtain ⟨hcall, hprogress, hlistener, hcalls, hdone, hcounted⟩ := hat
    cases findIncoming s.sys.phoneId callList with
    | none => exact Or.inl ⟨hcall, hprogress, hlistener, hcalls, hdone, hcounted⟩
    | some n => exact ⟨⟨rfl, hlistener, hcalls, hdone, hcounted⟩, rfl⟩
  · rw [if_neg hpc]
    exact h

theorem Sound.request (h : s.Sound) (accepted : Bool) : (s.request accepted).Sound := by
  obtain ⟨pc, sys⟩ := s
  cases pc with
  | starts spCall =>
    obtain ⟨⟨hprogress, hlistener, hcalls, hdone, hcounted⟩, hcall⟩ := h
    cases accepted with
    | true =>
      have hlate : ECallSystem.DoneBut (sys.sendRequest spCall).requests (some sys.setups) := by
        intro j r hj hne
        have hj' : j ≠ sys.setups := by simpa using Ne.symm hne
        exact hdone j r (by simpa [ECallSystem.sendRequest, hj'] using hj) (by simp)
      have hstage : ECallSystem.Stage spCall [] (some ⟨spCall.isSome, spCall, .undecided⟩) := by
        cases spCall with
        | none => exact .making
        | some n => exact .answering n
      refine ⟨⟨hprogress, hlate, hcounted, ?_⟩, hlistener⟩
      dsimp only at hcall hcalls
      simpa [ECallApp.request, ECallSystem.sendRequest, hcall, hcalls] using hstage
    | false =>
      exact ⟨⟨hprogress, hlistener, hcalls, hdone, hcounted⟩, fun hnone =>
        hcall.trans (by simpa using hnone)⟩
  | _ => exact h

theorem Sound.returns (h : s.Sound) : s.returns.Sound := by
  obtain ⟨pc, sys⟩ := s
  cases pc with
  | requested =>
    obtain ⟨⟨hprogress, hdone, hcounted, hstage⟩, -⟩ := h
    exact Or.inr ⟨⟨hprogress, hdone, hcounted, hstage⟩, rfl⟩
  | refused answers =>
    obtain ⟨⟨-, hlistener, hcalls, hdone, hcounted⟩, hcall⟩ := h
    refine Or.inl ⟨?_, rfl, hlistener, hcalls, hdone, hcounted⟩
    cases answers with
    | true => rfl
    | false => exact hcall rfl
  | _ => exact h

/-- What a callback keeps of each kind of state keeps the whole application sound. -/
theorem Sound.callback {sys' : ECallSystem} (h : s.Sound)
    (hresting : ∀ due, s.sys.Resting due → sys'.Resting due)
    (hstarting : s.sys.Starting → sys'.Starting ∧ sys'.eCall = s.sys.eCall)
    (hrunning : s.sys.Running → (sys'.Running ∧ sys'.callListener = s.sys.callListener) ∨
      (sys'.Resting 0 ∧ s.sys.callListener = true)) : Sound { s with sys := sys' } := by
  obtain ⟨pc, sys⟩ := s
  cases pc with
  | idle =>
    rcases h with hrest | ⟨hrun, hlistener⟩
    · exact Or.inl (hresting 0 hrest)
    · rcases hrunning hrun with ⟨hrun', hsame⟩ | ⟨hrest, -⟩
      · exact Or.inr ⟨hrun', hsame.trans hlistener⟩
      · exact Or.inl hrest
  | checked answers phoneId => exact hresting 0 h
  | prepared answers => exact hresting 1 h
  | starts spCall =>
    obtain ⟨hstart, hsame⟩ := hstarting h.1
    exact ⟨hstart, hsame.trans h.2⟩
  | requested =>
    obtain ⟨hrun, hlistener⟩ := h
    rcases hrunning hrun with ⟨hrun', hsame⟩ | ⟨-, hstored⟩
    · exact ⟨hrun', hsame.trans hlistener⟩
    · exact absurd (hlistener.symm.trans hstored) (by simp)
  | refused answers =>
    obtain ⟨hstart, hsame⟩ := hstarting h.1
    exact ⟨hstart, fun hnone => hsame.trans (h.2 hnone)⟩

theorem Sound.step (h : s.Sound) (op : ECallOp) (hop : s.InOrder op) : (s.step op).Sound := by
  cases op with
  | triggerECall phoneId => exact h.begin false phoneId
  | answerCall phoneId => exact h.begin true phoneId
  | setup => exact h.setup
  | startECall => exact h.startECall
  | answer callList => exact h.answer callList
  | request accepted => exact h.request accepted
  | returns => exact h.returns
  | connect k n =>
    exact h.callback (fun _ hrest => hrest.connect k n)
      (fun hstart => by simpa [hstart.connect k n] using hstart)
      (fun hrun => Or.inl ⟨hrun.connect k n, ECallSystem.callListener_connect k n⟩)
  | response k =>
    exact h.callback (fun _ hrest => hrest.response) (fun hstart => hstart.response hop)
      (fun hrun => hrun.response hop)
  | onCallInfoChange n callState =>
    by_cases hended : callState = .callEnded
    · subst hended
      exact h.callback (fun _ hrest => hrest.notify n) (fun hstart => hstart.notify (hop rfl))
        (fun hrun => hrun.notify (hop rfl))
    · simpa [ECallApp.step, ECallSystem.notify_of_not_ended hended] using h
  | hangupCall => exact h
  | hangupResponse success => exact h

theorem paired_of_no_call {due : ℕ} (h : s.sys.Resting due) (hdue : s.pc = .idle → due = 0) :
    s.Paired := by
  refine ⟨fun hpc _ _ => ⟨h.progress, ?_⟩, fun hcalls => absurd h.calls hcalls⟩
  have hcounted := h.counted
  rwa [hdue hpc] at hcounted

theorem paired_of_starting (h : s.sys.Starting) (hpc : s.pc ≠ .idle) : s.Paired :=
  ⟨fun hidle => absurd hidle hpc, fun hcalls => absurd h.calls hcalls⟩

/-- An operation whose request is under way has its call, or the call is on its way. -/
theorem paired_of_running (h : s.sys.Running) : s.Paired := by
  have hcounted := h.counted
  constructor
  · intro _ hcalls hnot
    have hstage := h.stage
    rw [hcalls] at hstage
    exact absurd ⟨s.sys.setups, le_rfl, hstage.on_its_way⟩ hnot
  · intro hcalls
    refine ⟨h.progress, ?_⟩
    rcases h.stage.one_call with hnone | ⟨n, hone⟩
    · exact absurd hnone hcalls
    · simpa [hone] using hcounted

theorem Sound.paired (h : s.Sound) : s.Paired := by
  unfold Sound at h
  cases hpc : s.pc with
  | idle =>
    rw [hpc] at h
    rcases h with hrest | ⟨hrun, -⟩
    · exact paired_of_no_call hrest fun _ => rfl
    · exact paired_of_running hrun
  | checked answers phoneId =>
    rw [hpc] at h
    exact paired_of_no_call h fun _ => rfl
  | prepared answers =>
    rw [hpc] at h
    exact paired_of_no_call h (by simp [hpc])
  | starts spCall =>
    rw [hpc] at h
    exact paired_of_starting h.1 (by simp [hpc])
  | requested =>
    rw [hpc] at h
    exact paired_of_running h.1
  | refused answers =>
    rw [hpc] at h
    exact paired_of_starting h.1 (by simp [hpc])

/-- Set-ups and clean-ups are paired in every run whose callbacks are in order. -/
theorem ecalls_paired {ops : List ECallOp} (h : Always step InOrder init ops) :
    ∀ xs, xs <+: ops → (final step init xs).Paired := by
  intro xs hxs
  have hsound : (final step init xs).Sound :=
    h.reached (fun _ op hs hop => hs.step op hop) sound_init hxs
  exact hsound.paired

/-- A made eCall that ends; a call that is answered and hung up, whose answer is reported late; and a
request that is not taken. -/
theorem ecalls_paired_three :
    let ops := [.triggerECall 1, .setup, .startECall, .request true, .connect 1 5, .returns,
      .response 1, .onCallInfoChange 5 .callActive, .onCallInfoChange 5 .callEnded,
      .answerCall 1, .setup, .answer [⟨6, 1, .callIncoming⟩], .request true, .returns,
      .connect 2 6, .hangupCall, .hangupResponse true, .onCallInfoChange 6 .callEnded,
      .response 2, .triggerECall 1, .setup, .startECall, .request false, .returns]
    (final step init ops).sys.setups = 3 ∧ (final step init ops).sys.cleanups = 3 ∧
      ∀ xs, xs <+: ops → (final step init xs).Paired :=
  ⟨by decide, by decide, ecalls_paired (by decide)⟩

/-- A failure before the listener is stored leaves its set-up; an eCall that ends before its response
leaves the progress flag set; and a late failure of an answer ends the eCall that was made since. -/
theorem ecalls_not_paired :
    (¬ (final step init [.triggerECall 1, .setup, .startECall, .request true, .response 1,
        .returns]).Paired) ∧
    (¬ (final step init [.triggerECall 1, .setup, .startECall, .request true, .returns,
        .connect 1 5, .onCallInfoChange 5 .callEnded, .response 1]).Paired) ∧
    ¬ (final step init [.answerCall 1, .setup, .answer [⟨6, 1, .callIncoming⟩], .request true,
        .returns, .onCallInfoChange 6 .callEnded, .triggerECall 1, .setup, .startECall,
        .request true, .returns, .connect 2 5, .response 1]).Paired := by
  refine ⟨fun h => ?_, fun h => ?_, fun h => ?_⟩
  · have hcleaned := h.without (by decide) (by decide) (by unfold ECallSystem.OnItsWay; decide)
    exact absurd hcleaned.2 (by decide)
  · have hcleared := h.without (by decide) (by decide) (by unfold ECallSystem.OnItsWay; decide)
    exact absurd hcleared.1 (by decide)
  · exact absurd (h.during (by decide)).1 (by decide)

end ECallApp

end Tulux.EcallApp
