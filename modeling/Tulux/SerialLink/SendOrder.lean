import Tulux.Lib.WaitingLine
import Tulux.SerialLink.Invariants

/-! The order in which the SPI driver takes the frames of `Yx_Serial_Link_Send` on a connected
link. A frame that the driver takes at once may pass frames that wait. -/
namespace Tulux.SerialLink
open WaitingLine

/-- A call of `Yx_Serial_Link_Send`, or a TX_DATA message handled. -/
inductive SendStep where
  | send (args : SendArgs)
  | txData

/-- A call that returned SUCC: whether the driver took its frame at once, and whether frames were
waiting then. -/
structure SentCall where
  frame : List UInt8
  atOnce : Bool
  behind : Bool
  deriving DecidableEq

structure SendRun where
  link : Link
  calls : List SentCall

/-- What is recorded of a call in this state. -/
def sentCall (env : Env) (args : SendArgs) (tx : Tx) : SentCall where
  frame := sendItem env args tx
  atOnce := Takes env tx (sendItem env args tx)
  behind := !yxListEmpty tx.links (.head .stWaitTxList)

def SendRun.step (env : Env) (s : SendRun) : SendStep → Option SendRun
  | .send args => (yxSerialLinkSend env args s.link.tx).map fun (sta, tx) =>
      { link := { s.link with tx := tx }
        calls := if sta then s.calls ++ [sentCall env args s.link.tx] else s.calls }
  | .txData => (yxSerialLinkTxHandle env s.link).map fun link => { s with link := link }

def SendRun.run (env : Env) (s : SendRun) (steps : List SendStep) : Option SendRun :=
  steps.foldlM (SendRun.step env) s

/-- The frames of the calls, of those the driver took at once, and of those that waited. -/
def frames (calls : List SentCall) : List (List UInt8) := calls.map SentCall.frame

def framesAtOnce (calls : List SentCall) : List (List UInt8) := frames (calls.filter (·.atOnce))

def framesQueued (calls : List SentCall) : List (List UInt8) := frames (calls.filter (!·.atOnce))

/-! ### One step -/

/-- The link is connected, and its lists have the contents `L`. -/
structure Connected (link : Link) (L : Lists) : Prop where
  held : Held link.tx L
  curr : link.curr = .connect
  flag : link.uConnectFlag = .connect
  idle : link.next = none

/-- The frames taken by the driver and those that wait, as a line. -/
def sendLine (env : Env) (tx : Tx) (L : Lists) : Line (List UInt8) :=
  ⟨takenFrames env tx, waiting tx L⟩

/-- What a call that returned SUCC does to the line. -/
def SentCall.move (c : SentCall) : Move (List UInt8) :=
  if c.atOnce then .pass c.frame else .join c.frame

section Steps
variable (env : Env) {link : Link} {L : Lists}

theorem waiting_eq_nil_iff {tx : Tx} (h : Held tx L) :
    waiting tx L = [] ↔ yxListEmpty tx.links (.head .stWaitTxList) = true := by
  rw [h.shape.empty_iff, waiting, List.map_eq_nil_iff]

theorem send_line (args : SendArgs) {tx : Tx} (h : Held tx L) :
    ∃ sta tx' L', yxSerialLinkSend env args tx = some (sta, tx') ∧ Held tx' L' ∧
      sendLine env tx' L' =
        (sendLine env tx L).run (if sta then [(sentCall env args tx).move] else []) := by
  obtain ⟨sta, tx', L', hrun, hkeep, hh, hsucc, hwait, -⟩ := yxSerialLinkSend_spec env args h
  have htaken := takenFrames_hand env hh
  refine ⟨sta, tx', L', hrun, hkeep.1, ?_⟩
  by_cases ht : Takes env tx (sendItem env args tx)
  · have hs := hsucc ht
    simp [sendLine, Line.run, Line.step, SentCall.move, sentCall, htaken, hwait, ht, hs]
  · cases sta <;>
      simp [sendLine, Line.run, Line.step, SentCall.move, sentCall, htaken, hwait, ht]

theorem txHandle_line (h : Connected link L) :
    ∃ link' L' n, yxSerialLinkTxHandle env link = some link' ∧ Connected link' L' ∧
      sendLine env link'.tx L' = (sendLine env link.tx L).run [.serve n] := by
  have hframe : Frame link.tx { link.tx with uMsgFlag := link.tx.uMsgFlag &&& ~~~2 } :=
    ⟨rfl, fun _ => rfl, rfl, rfl, le_refl _, rfl⟩
  obtain ⟨sta, tx', L', -, n, hrun, hkeep, -, -, htaken, hwait⟩ :=
    sendWaittxlistnode_spec env (h.held.frame hframe).1
  refine ⟨{ link with tx := tx' }, L', n, ?_, ⟨hkeep.1, h.curr, h.flag, h.idle⟩, ?_⟩
  · simp [yxSerialLinkTxHandle, yxSerialLinkHandle, fsmOnEvent, stateOnEvent, connectHndlr,
      takeTransition, h.curr, h.flag, h.idle, hrun]
  · rw [sendLine, htaken, hwait]
    rfl

end Steps

/-! ### Runs -/

/-- The calls of a run, seen as moves of the line. -/
structure Moved (calls : List SentCall) (l : Line (List UInt8)) (ms : List (Move (List UInt8))) :
    Prop where
  atOnce : ms.flatMap Move.passing = framesAtOnce calls
  queued : ms.flatMap Move.joining = framesQueued calls
  all : ms.flatMap Move.arriving = frames calls
  orderly : (∀ c ∈ calls, ¬ (c.atOnce ∧ c.behind)) → Orderly l ms

theorem Moved.serve {calls : List SentCall} {l : Line (List UInt8)}
    {ms : List (Move (List UInt8))} {n : ℕ} (h : Moved calls (l.step (.serve n)) ms) :
    Moved calls l (.serve n :: ms) :=
  ⟨h.atOnce, h.queued, h.all, fun hc => ⟨fun hp => absurd rfl hp, h.orderly hc⟩⟩

theorem Moved.call {calls : List SentCall} {l : Line (List UInt8)}
    {ms : List (Move (List UInt8))} {c : SentCall} (hb : c.behind = false → l.waiting = [])
    (h : Moved calls (l.step c.move) ms) : Moved (c :: calls) l (c.move :: ms) := by
  obtain ⟨frame, atOnce, behind⟩ := c
  have hp := h.atOnce
  have hq := h.queued
  have ha := h.all
  refine ⟨?_, ?_, ?_, fun hc => ⟨fun hpass => hb ?_, h.orderly fun c hm => hc c (by simp [hm])⟩⟩
  · cases atOnce <;> simp_all [framesAtOnce, frames, SentCall.move, Move.passing]
  · cases atOnce <;> simp_all [framesQueued, frames, SentCall.move, Move.joining]
  · cases atOnce <;>
      simp_all [frames, SentCall.move, Move.arriving, Move.passing, Move.joining]
  · have := hc _ List.mem_cons_self
    cases atOnce <;> simp_all [SentCall.move, Move.passing]

/-- A run moves the line by what its calls and the handled messages do. -/
theorem sendRun_line (env : Env) (steps : List SendStep) {s : SendRun} {L : Lists}
    (h : Connected s.link L) :
    ∃ s' L' calls ms, s.run env steps = some s' ∧ Connected s'.link L' ∧
      s'.calls = s.calls ++ calls ∧ Moved calls (sendLine env s.link.tx L) ms ∧
      sendLine env s'.link.tx L' = (sendLine env s.link.tx L).run ms := by
  induction steps generalizing s L with
  | nil => exact ⟨s, L, [], [], rfl, h, by simp, ⟨rfl, rfl, rfl, fun _ => trivial⟩, rfl⟩
  | cons step steps ih =>
    cases step with
    | send args =>
      obtain ⟨sta, tx', L₁, hsend, hheld, hline⟩ := send_line env args h.held
      obtain ⟨s', L', calls, ms, hrun, hc, hcalls, hm, hfinal⟩ :=
        ih (s := ⟨{ s.link with tx := tx' },
          if sta then s.calls ++ [sentCall env args s.link.tx] else s.calls⟩)
          ⟨hheld, h.curr, h.flag, h.idle⟩
      have hstep : s.run env (.send args :: steps) = some s' := by
        rw [SendRun.run, List.foldlM_cons, SendRun.step, hsend]
        exact hrun
      rw [hline] at hm hfinal
      cases sta with
      | false => exact ⟨s', L', calls, ms, hstep, hc, hcalls, hm, hfinal⟩
      | true =>
        refine ⟨s', L', sentCall env args s.link.tx :: calls, _ :: ms, hstep, hc, ?_,
          hm.call fun hb => ?_, hfinal⟩
        · simp [hcalls]
        · exact (waiting_eq_nil_iff h.held).mpr (by simpa [sentCall] using hb)
    | txData =>
      obtain ⟨link', L₁, n, htx, hconn, hline⟩ := txHandle_line env h
      obtain ⟨s', L', calls, ms, hrun, hc, hcalls, hm, hfinal⟩ := ih (s := ⟨link', s.calls⟩) hconn
      have hstep : s.run env (.txData :: steps) = some s' := by
        rw [SendRun.run, List.foldlM_cons, SendRun.step, htx]
        exact hrun
      rw [hline] at hm hfinal
      exact ⟨s', L', calls, .serve n :: ms, hstep, hc, hcalls, hm.serve, hfinal⟩

/-- A run from `link` in which each frame of a call that returned SUCC is taken by the driver once,
or still waits. The frames that waited are taken in the order of their calls, and so are those
taken at once; all are taken in the order of the calls when none was taken at once while others
waited. -/
def KeepsOrder (env : Env) (link : Link) (steps : List SendStep) : Prop :=
  ∃ s L L' new out, SendRun.run env ⟨link, []⟩ steps = some s ∧
    Shape link.tx.links L ∧ Shape s.link.tx.links L' ∧
    takenFrames env s.link.tx = takenFrames env link.tx ++ new ∧
    (new ++ waiting s.link.tx L').Perm (waiting link.tx L ++ frames s.calls) ∧
    waiting link.tx L ++ framesQueued s.calls = out ++ waiting s.link.tx L' ∧
    Interleaves (framesAtOnce s.calls) out new ∧
    ((∀ c ∈ s.calls, ¬ (c.atOnce ∧ c.behind)) →
      new ++ waiting s.link.tx L' = waiting link.tx L ++ frames s.calls)

theorem frames_perm (calls : List SentCall) :
    (framesAtOnce calls ++ framesQueued calls).Perm (frames calls) := by
  have hsplit := List.filter_append_perm (fun c : SentCall => c.atOnce) calls
  have hmap := hsplit.map SentCall.frame
  rwa [List.map_append] at hmap

theorem sends_keep_order {env : Env} {link : Link}
    (h : Reachable env (fun _ _ => True) link) (hc : link.curr = .connect)
    (steps : List SendStep) : KeepsOrder env link steps := by
  obtain ⟨L, hok⟩ := h.ok
  have hconn : Connected link L := ⟨hok.held, hc, hok.agree.mp hc, hok.idle⟩
  obtain ⟨s, L', calls, ms, hrun, hconn', hcalls, hm, hline⟩ :=
    sendRun_line env steps (s := ⟨link, []⟩) hconn
  rw [List.nil_append] at hcalls
  subst hcalls
  obtain ⟨new, out, hserved, hwait, hmix⟩ := run_order (sendLine env link.tx L) ms
  rw [← hline] at hserved hwait
  rw [hm.queued] at hwait
  rw [hm.atOnce] at hmix
  simp only [sendLine] at hserved hwait
  refine ⟨s, L, L', new, out, hrun, hok.held.shape, hconn'.held.shape, hserved, ?_, hwait, hmix,
    fun hnone => ?_⟩
  · calc List.Perm (new ++ waiting s.link.tx L')
          (framesAtOnce s.calls ++ out ++ waiting s.link.tx L') := hmix.perm.append_right _
      _ = framesAtOnce s.calls ++ (waiting link.tx L ++ framesQueued s.calls) := by
          rw [List.append_assoc, hwait]
      List.Perm _ (waiting link.tx L ++ (framesAtOnce s.calls ++ framesQueued s.calls)) := by
          simpa only [List.append_assoc] using List.perm_append_comm.append_right _
      List.Perm _ (waiting link.tx L ++ frames s.calls) := (frames_perm s.calls).append_left _
  · have hfifo := run_fifo (hm.orderly hnone)
    rw [← hline, hm.all] at hfifo
    simp only [sendLine] at hfifo
    rwa [hserved, List.append_assoc, List.append_assoc, List.append_cancel_left_eq] at hfifo

theorem sends_keep_order_connected :
    ∃ link, linkRun acceptingEnv [.handle .rxRcv [connectRequest]] = some link ∧
      link.curr = .connect ∧
      KeepsOrder acceptingEnv link [.send (noData 0x1111), .txData] := by
  obtain ⟨link, hrun, hr⟩ : ∃ link, linkRun acceptingEnv [.handle .rxRcv [connectRequest]] =
      some link ∧ Reachable acceptingEnv (fun _ _ => True) link :=
    linkRun_reachable acceptingEnv _ fun _ _ _ => trivial
  have hview : (linkRun acceptingEnv [.handle .rxRcv [connectRequest]]).map Link.curr =
      some .connect := by
    decide +kernel
  have hc : link.curr = .connect := by simpa [hrun] using hview
  exact ⟨link, hrun, hc, sends_keep_order hr hc _⟩

/-- The driver refuses the frame that is handed over third. -/
def refusingEnv : Env := { acceptingEnv with hwSend := fun n => n != 2 }

/-- The second call passes the first, whose frame was refused and waits. -/
theorem send_passes_waiting :
    ∃ link s, linkRun refusingEnv [.handle .rxRcv [connectRequest]] = some link ∧
      link.curr = .connect ∧ yxListEmpty link.tx.links (.head .stWaitTxList) = true ∧
      SendRun.run refusingEnv ⟨link, []⟩
        [.send (noData 0x1111), .send (noData 0x2222), .txData] = some s ∧
      yxListEmpty s.link.tx.links (.head .stWaitTxList) = true ∧
      (frames s.calls).length = 2 ∧
      takenFrames refusingEnv s.link.tx =
        takenFrames refusingEnv link.tx ++ (frames s.calls).reverse ∧
      takenFrames refusingEnv s.link.tx ≠ takenFrames refusingEnv link.tx ++ frames s.calls := by
  have hview : ((linkRun refusingEnv [.handle .rxRcv [connectRequest]]).bind fun link =>
      (SendRun.run refusingEnv ⟨link, []⟩
        [.send (noData 0x1111), .send (noData 0x2222), .txData]).map fun s =>
          (link.curr, yxListEmpty link.tx.links (.head .stWaitTxList),
            yxListEmpty s.link.tx.links (.head .stWaitTxList), (frames s.calls).length,
            decide (takenFrames refusingEnv s.link.tx =
              takenFrames refusingEnv link.tx ++ (frames s.calls).reverse),
            decide (takenFrames refusingEnv s.link.tx =
              takenFrames refusingEnv link.tx ++ frames s.calls))) =
      some (.connect, true, true, 2, true, false) := by
    decide +kernel
  obtain ⟨link, hlink, hview⟩ := Option.bind_eq_some_iff.mp hview
  obtain ⟨s, hrun, heq⟩ := Option.map_eq_some_iff.mp hview
  simp only [Prod.mk.injEq, decide_eq_true_eq, decide_eq_false_iff_not] at heq
  obtain ⟨hcurr, hnone, hnone', hlen, hrev, hne⟩ := heq
  exact ⟨link, s, hlink, hcurr, hnone, hrun, hnone', hlen, hrev, hne⟩

end Tulux.SerialLink
