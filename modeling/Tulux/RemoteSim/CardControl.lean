import Mathlib.Tactic
import Tulux.Lib.GuardedRun

/-! Opening the SAP connection and powering on the card: a request, a promise that is renewed behind
it, and a wait for the response. The responses come at any time, and the waits end at any time.
The operations are called one after the other. -/
namespace Tulux.RemoteSim
open GuardedRun

/-! ### A request and its promise -/

/-- Where an operation is: outside, behind its request, or in its wait. -/
inductive Phase where
  | idle
  | requested
  | waits
  deriving DecidableEq, Repr

/-- What an operation returned, and the response to its request that had arrived by then.
`taken` is the request whose response it took. -/
structure Returned where
  request : ℕ
  success : Bool
  arrived : Option Bool
  taken : Option ℕ
  deriving DecidableEq, Repr

/-- Success is returned exactly for a success response to this request. -/
structure Returned.Right (r : Returned) : Prop where
  success : r.success = true ↔ r.arrived = some true
  taken : ∀ n, r.taken = some n → n = r.request

/-- `value` is what the promise holds, with the request that it answers. The requests are numbered,
and those in `answered` have got their response. -/
structure PromisedCall where
  phase : Phase
  value : Option (ℕ × Bool)
  requests : ℕ
  answered : List ℕ
  arrived : Option Bool
  returned : List Returned
  setTwice : Bool
  deriving DecidableEq, Repr

namespace PromisedCall

def init : PromisedCall := ⟨.idle, none, 0, [], none, [], false⟩

/-- The last request. -/
def current (c : PromisedCall) : ℕ := c.requests - 1

/-- A request that is not accepted fails at once. -/
def send (c : PromisedCall) (accepted : Bool) : PromisedCall :=
  if accepted then
    { c with phase := .requested, requests := c.requests + 1, arrived := none }
  else { c with returned := c.returned ++ [⟨c.requests, false, none, none⟩] }

/-- A new promise. -/
def renew (c : PromisedCall) : PromisedCall :=
  if c.phase = .requested then { c with phase := .waits, value := none } else c

/-- Each request gets at most one response. -/
def CanAnswer (c : PromisedCall) (n : ℕ) : Prop := n < c.requests ∧ n ∉ c.answered

instance (c : PromisedCall) (n : ℕ) : Decidable (c.CanAnswer n) :=
  inferInstanceAs (Decidable (_ ∧ _))

/-- `set_value` throws when the promise has a value. -/
def setPromiseValue (c : PromisedCall) (n : ℕ) (isSuccess : Bool) : PromisedCall :=
  if c.value.isSome then { c with setTwice := true } else { c with value := some (n, isSuccess) }

def response (c : PromisedCall) (n : ℕ) (isSuccess : Bool) : PromisedCall :=
  if c.CanAnswer n then
    let c' := { c with
      answered := n :: c.answered
      arrived := if c.phase ≠ Phase.idle ∧ n = c.current then some isSuccess else c.arrived }
    c'.setPromiseValue n isSuccess
  else c

/-- The wait ends: with the value of the promise, or with the timeout when there is none. -/
def endWait (c : PromisedCall) : PromisedCall :=
  let c' := { c with phase := .idle }
  match c.value with
  | some (n, isSuccess) =>
    { c' with returned := c.returned ++ [⟨c.current, isSuccess, c.arrived, some n⟩] }
  | none => { c' with returned := c.returned ++ [⟨c.current, false, c.arrived, none⟩] }

/-- Whether the wait ends with success. -/
def opened (c : PromisedCall) : Bool := c.value.any Prod.snd

/-- Every operation returned what happened, and no promise was set twice. -/
structure Reports (c : PromisedCall) : Prop where
  right : ∀ r ∈ c.returned, r.Right
  once : c.setTwice = false

/-- A response finds a promise without a value. One that comes during a wait is for the request
that waits, and one that comes before the promise is renewed is no success. -/
def InOrder (c : PromisedCall) (n : ℕ) (isSuccess : Bool) : Prop :=
  c.CanAnswer n → c.value = none ∧ (c.phase = .waits → n = c.current) ∧
    (c.phase = .requested → n = c.current → isSuccess = false)

instance (c : PromisedCall) (n : ℕ) (isSuccess : Bool) : Decidable (c.InOrder n isSuccess) :=
  inferInstanceAs (Decidable (_ → _))

/-- What a wait will return is what has arrived. -/
structure Sound (c : PromisedCall) : Prop where
  reports : c.Reports
  requested : c.phase = .requested → c.arrived ≠ some true
  held : c.phase = .waits → ∀ n isSuccess, c.value = some (n, isSuccess) →
    n = c.current ∧ c.arrived = some isSuccess
  unset : c.phase = .waits → c.value = none → c.arrived ≠ some true

variable {c : PromisedCall}

theorem sound_init : init.Sound := by
  refine ⟨⟨?_, rfl⟩, ?_, ?_, ?_⟩ <;> simp [init]

/-- An operation that returns what happened is added to those that did. -/
theorem Reports.returns {r : Returned} (h : c.Reports) (hr : r.Right) :
    ∀ r' ∈ c.returned ++ [r], r'.Right :=
  List.forall_mem_append.mpr ⟨h.right, List.forall_mem_singleton.mpr hr⟩

theorem Sound.send (h : c.Sound) (hp : c.phase = .idle) (accepted : Bool) :
    (c.send accepted).Sound := by
  unfold PromisedCall.send
  cases accepted with
  | true => exact ⟨⟨h.reports.right, h.reports.once⟩, by simp, by simp, by simp⟩
  | false =>
    have hright := h.reports.returns (r := ⟨c.requests, false, none, none⟩) ⟨by simp, by simp⟩
    exact ⟨⟨hright, h.reports.once⟩, by simp [hp], by simp [hp], by simp [hp]⟩

theorem Sound.renew (h : c.Sound) : c.renew.Sound := by
  unfold PromisedCall.renew
  split_ifs with hp
  · exact ⟨⟨h.reports.right, h.reports.once⟩, by simp, by simp, fun _ _ => h.requested hp⟩
  · exact h

theorem Sound.response (h : c.Sound) {n : ℕ} {isSuccess : Bool} (hin : c.InOrder n isSuccess) :
    (c.response n isSuccess).Sound := by
  unfold PromisedCall.response
  by_cases hcan : c.CanAnswer n
  · obtain ⟨hvalue, hwaits, hearly⟩ := hin hcan
    simp only [if_pos hcan, setPromiseValue, hvalue, Option.isSome_none, Bool.false_eq_true,
      if_false]
    refine ⟨⟨h.reports.right, h.reports.once⟩, fun hp => ?_, fun hp => ?_, by simp⟩
    · -- behind the request only a failure may be lost
      have hnot := h.requested hp
      by_cases hcur : n = c.current
      · have hphase : c.phase = .requested := hp
        simp [hearly hp hcur, hcur, hphase]
      · simpa [hcur] using hnot
    · have hcur : n = c.current := hwaits hp
      have hphase : c.phase = .waits := hp
      simp [hphase, hcur, current]
  · rw [if_neg hcan]
    exact h

theorem Sound.endWait (h : c.Sound) (hp : c.phase = .waits) : c.endWait.Sound := by
  unfold PromisedCall.endWait
  cases hvalue : c.value with
  | none =>
    have hnot := h.unset hp hvalue
    have hright := h.reports.returns (r := ⟨c.current, false, c.arrived, none⟩)
      ⟨by simpa using hnot, by simp⟩
    exact ⟨⟨hright, h.reports.once⟩, by simp, by simp, by simp⟩
  | some held =>
    obtain ⟨n, isSuccess⟩ := held
    obtain ⟨hn, harrived⟩ := h.held hp n isSuccess hvalue
    have hright := h.reports.returns (r := ⟨c.current, isSuccess, c.arrived, some n⟩)
      ⟨by simp [harrived], by simp [hn]⟩
    exact ⟨⟨hright, h.reports.once⟩, by simp, by simp, by simp⟩

end PromisedCall

/-! ### The card -/

/-- What the client does: nothing, `openSapConn` (in `requestPowerOn` or not), or the rest of
`requestPowerOn` before and behind its request. -/
inductive CardPc where
  | idle
  | opens (powering : Bool)
  | sendsPowerOn
  | powers
  deriving DecidableEq, Repr

structure CardControl where
  cardPresent : Bool
  cardConnected : Bool
  pc : CardPc
  openConn : PromisedCall
  powerOn : PromisedCall
  deriving DecidableEq, Repr

/-- `accepted` is the status of the request. -/
inductive CardOp where
  | setCardPresent (isPresent : Bool)
  | setCardConnected (isConnected : Bool)
  | openSapConn (accepted : Bool)
  | requestPowerOn (accepted : Bool)
  | requestSimPowerOn (accepted : Bool)
  | renew
  | openConnResponse (n : ℕ) (isSuccess : Bool)
  | powerOnResponse (n : ℕ) (isSuccess : Bool)
  | endWait
  deriving DecidableEq, Repr

namespace CardControl

def init : CardControl := ⟨false, false, .idle, .init, .init⟩

def startOpen (s : CardControl) (powering accepted : Bool) : CardControl :=
  let sent := s.cardPresent && accepted
  { s with
    pc := if sent then .opens powering else .idle
    openConn := s.openConn.send sent }

def startPowerOn (s : CardControl) (accepted : Bool) : CardControl :=
  { s with
    pc := if accepted then .powers else .idle
    powerOn := s.powerOn.send accepted }

def renew (s : CardControl) : CardControl :=
  match s.pc with
  | .opens _ => { s with openConn := s.openConn.renew }
  | .powers => { s with powerOn := s.powerOn.renew }
  | _ => s

/-- Behind a connection that was opened `requestPowerOn` goes on. -/
def endWait (s : CardControl) : CardControl :=
  match s.pc with
  | .opens powering =>
    if s.openConn.phase = .waits then
      let opened := s.openConn.opened
      { s with
        cardConnected := s.cardConnected || opened
        pc := if opened && powering then .sendsPowerOn else .idle
        openConn := s.openConn.endWait }
    else s
  | .powers =>
    if s.powerOn.phase = .waits then { s with pc := .idle, powerOn := s.powerOn.endWait } else s
  | _ => s

def step (s : CardControl) : CardOp → CardControl
  | .setCardPresent isPresent => { s with cardPresent := isPresent }
  | .setCardConnected isConnected => { s with cardConnected := isConnected }
  | .openSapConn accepted => if s.pc = .idle then s.startOpen false accepted else s
  | .requestPowerOn accepted =>
    if s.pc = .idle then
      if s.cardConnected then s.startPowerOn accepted else s.startOpen true accepted
    else s
  | .requestSimPowerOn accepted => if s.pc = .sendsPowerOn then s.startPowerOn accepted else s
  | .renew => s.renew
  | .openConnResponse n isSuccess => { s with openConn := s.openConn.response n isSuccess }
  | .powerOnResponse n isSuccess => { s with powerOn := s.powerOn.response n isSuccess }
  | .endWait => s.endWait

/-- Both operations report what happened. -/
structure Reports (s : CardControl) : Prop where
  openConn : s.openConn.Reports
  powerOn : s.powerOn.Reports

def ResponseInOrder (s : CardControl) : CardOp → Prop
  | .openConnResponse n isSuccess => s.openConn.InOrder n isSuccess
  | .powerOnResponse n isSuccess => s.powerOn.InOrder n isSuccess
  | _ => True

instance (s : CardControl) (op : CardOp) : Decidable (s.ResponseInOrder op) := by
  cases op <;> unfold ResponseInOrder <;> infer_instance

/-- An operation that is not running is outside its call. -/
structure Sound (s : CardControl) : Prop where
  openConn : s.openConn.Sound
  powerOn : s.powerOn.Sound
  notOpening : (∀ powering, s.pc ≠ .opens powering) → s.openConn.phase = .idle
  notPowering : s.pc ≠ .powers → s.powerOn.phase = .idle

variable {s : CardControl}

theorem sound_init : init.Sound :=
  ⟨PromisedCall.sound_init, PromisedCall.sound_init, fun _ => rfl, fun _ => rfl⟩

theorem phase_response (c : PromisedCall) (n : ℕ) (isSuccess : Bool) :
    (c.response n isSuccess).phase = c.phase := by
  have hset (c : PromisedCall) : (c.setPromiseValue n isSuccess).phase = c.phase := by
    unfold PromisedCall.setPromiseValue
    split_ifs <;> rfl
  unfold PromisedCall.response
  by_cases hcan : c.CanAnswer n
  · rw [if_pos hcan, hset]
  · rw [if_neg hcan]

theorem phase_endWait (c : PromisedCall) : c.endWait.phase = .idle := by
  unfold PromisedCall.endWait
  cases c.value <;> rfl

theorem Sound.startOpen (h : s.Sound) (hopen : ∀ powering, s.pc ≠ .opens powering)
    (hpower : s.pc ≠ .powers) (powering accepted : Bool) : (s.startOpen powering accepted).Sound := by
  have hidle := h.notOpening hopen
  unfold CardControl.startOpen
  refine ⟨h.openConn.send hidle _, h.powerOn, fun hnot => ?_, fun _ => h.notPowering hpower⟩
  cases hsent : s.cardPresent && accepted with
  | false => simpa [PromisedCall.send] using hidle
  | true => simp [hsent] at hnot

theorem Sound.startPowerOn (h : s.Sound) (hopen : ∀ powering, s.pc ≠ .opens powering)
    (hpower : s.pc ≠ .powers) (accepted : Bool) : (s.startPowerOn accepted).Sound := by
  have hidle := h.notPowering hpower
  unfold CardControl.startPowerOn
  refine ⟨h.openConn, h.powerOn.send hidle _, fun _ => h.notOpening hopen, fun hnot => ?_⟩
  cases accepted with
  | false => simpa [PromisedCall.send] using hidle
  | true => simp at hnot

theorem Sound.renew (h : s.Sound) : s.renew.Sound := by
  unfold CardControl.renew
  split
  · rename_i powering hpc
    exact ⟨h.openConn.renew, h.powerOn, fun hnot => absurd hpc (hnot powering), h.notPowering⟩
  · rename_i hpc
    exact ⟨h.openConn, h.powerOn.renew, h.notOpening, fun hnot => absurd hpc hnot⟩
  · exact h

theorem Sound.endWait (h : s.Sound) : s.endWait.Sound := by
  unfold CardControl.endWait
  split
  · rename_i powering hpc
    by_cases hp : s.openConn.phase = .waits
    · rw [if_pos hp]
      exact ⟨h.openConn.endWait hp, h.powerOn, fun _ => phase_endWait _,
        fun _ => h.notPowering (by simp [hpc])⟩
    · rw [if_neg hp]
      exact h
  · rename_i hpc
    by_cases hp : s.powerOn.phase = .waits
    · rw [if_pos hp]
      exact ⟨h.openConn, h.powerOn.endWait hp, fun _ => h.notOpening (by simp [hpc]),
        fun _ => phase_endWait _⟩
    · rw [if_neg hp]
      exact h
  · exact h

theorem Sound.step (h : s.Sound) (op : CardOp) (hop : s.ResponseInOrder op) : (s.step op).Sound := by
  cases op with
  | setCardPresent isPresent => exact ⟨h.openConn, h.powerOn, h.notOpening, h.notPowering⟩
  | setCardConnected isConnected => exact ⟨h.openConn, h.powerOn, h.notOpening, h.notPowering⟩
  | openSapConn accepted =>
    dsimp only [CardControl.step]
    split_ifs with hpc
    · exact h.startOpen (by simp [hpc]) (by simp [hpc]) false accepted
    · exact h
  | requestPowerOn accepted =>
    dsimp only [CardControl.step]
    split_ifs with hpc hconn
    · exact h.startPowerOn (by simp [hpc]) (by simp [hpc]) accepted
    · exact h.startOpen (by simp [hpc]) (by simp [hpc]) true accepted
    · exact h
  | requestSimPowerOn accepted =>
    dsimp only [CardControl.step]
    split_ifs with hpc
    · exact h.startPowerOn (by simp [hpc]) (by simp [hpc]) accepted
    · exact h
  | renew => exact h.renew
  | openConnResponse n isSuccess =>
    exact ⟨h.openConn.response hop, h.powerOn,
      fun hnot => (phase_response _ n isSuccess).trans (h.notOpening hnot), h.notPowering⟩
  | powerOnResponse n isSuccess =>
    exact ⟨h.openConn, h.powerOn.response hop, h.notOpening,
      fun hnot => (phase_response _ n isSuccess).trans (h.notPowering hnot)⟩
  | endWait => exact h.endWait

end CardControl

end Tulux.RemoteSim
