import Tulux.SerialLink.Receive

/-! Runs of the link: what every step keeps, and under which condition on the step it keeps the
receive buffer from filling up, the buffers from leaking, and the events in line with the
state. -/
namespace Tulux.SerialLink
open CircularList Framing

/-- What holds between two messages. -/
structure LinkOk (link : Link) (L : Lists) : Prop where
  held : Held link.tx L
  rx : RxWf link
  settled : Settled link
  idle : link.next = none
  agree : link.curr = .connect ↔ link.uConnectFlag = .connect

/-- No frame head met by the plain scan declares more than 1016 bytes with 1024 bytes or more
behind its start. -/
def NoOverlong (bytes : List UInt8) : Prop :=
  ∀ s ∈ refScanner.visits bytes, startsFrame s → 1024 ≤ s.length → headLen s ≤ 1016

/-- The last event given to `event_cb`, if any. -/
def lastEvent (link : Link) : Option SlEvent := (link.called.filterMap eventOf).getLast?

def EventAgree (link : Link) : Prop := lastEvent link = some .connect ↔ link.curr = .connect

section Handle
variable {env : Env} {L L' : Lists} {link link' : Link} {bytes : List UInt8}
  {fs : List (List UInt8)}

/-- A receiver that met no overlong head has room left. -/
theorem Analyses.space (ha : Analyses env bytes fs link L link' L') (more : List UInt8)
    (hno : NoOverlong (received link ++ bytes ++ more)) : link'.rxLen < 1024 := by
  by_contra hfull
  have hlen := ha.wf.length_received
  have hle := ha.wf.len
  have hwait : scanNext (received link') = none := ha.settled.resolve_left (by omega)
  obtain ⟨hs, hshort⟩ := scanNext_none hwait (by omega)
  have hmem := (ha.passes.append more).mem_visits
    (Scanner.self_mem_visits (received link' ++ link'.rxRing ++ more))
  rw [List.append_assoc (received link')] at hmem
  have hhead := hno _ hmem (by rwa [startsFrame_append (by omega)])
    (by rw [List.length_append]; omega)
  rw [headLen_append (by omega)] at hhead
  omega

end Handle

/-- What handling a message keeps, with the conditions for the last three. -/
structure HandleSpec (env : Env) (msg : SerialMsg) (arrivals : List (List UInt8)) (link : Link)
    (L : Lists) (link' : Link) (L' : Lists) : Prop where
  ok : LinkOk link' L'
  tight : (msg = .timeRepeatTimeout → link.curr = .connect → ¬ Exhausted link.tx) →
    Tight link.tx L → Tight link'.tx L'
  event : env.eventCb = true → EventAgree link → EventAgree link'
  space : (msg = .rxRcv → NoOverlong (received link ++ (link.rxRing ++ arrivals.flatten))) →
    link.rxLen < 1024 → link'.rxLen < 1024

section Handlers
variable (env : Env) {L : Lists} {link : Link} (arrivals : List (List UInt8))

theorem slEventCb_keeps (e : SlEvent) (link : Link) (h : Held link.tx L) :
    ∃ tx' L', slEventCb env e link = some { link with
        tx := tx', called := link.called ++ if env.eventCb then [.event e] else [] } ∧
      Keeps link.tx L tx' L' := by
  unfold slEventCb
  split_ifs with hc
  · exact runCallback_keeps env (.event e) link h
  · exact ⟨link.tx, L, by rw [List.append_nil], h, id⟩

/-- Nothing but the transmit side changes, and it keeps its buffers. -/
private theorem handled_tx {msg : SerialMsg} (h : LinkOk link L) {tx' : Tx} {L' : Lists}
    (hheld : Held tx' L')
    (ht : (msg = .timeRepeatTimeout → link.curr = .connect → ¬ Exhausted link.tx) →
      Tight link.tx L → Tight tx' L') :
    HandleSpec env msg arrivals link L { link with tx := tx' } L' :=
  ⟨⟨hheld, ⟨h.rx.buf, h.rx.len⟩, h.settled, h.idle, h.agree⟩, ht, fun _ => id, fun _ => id⟩

private theorem handled_reset {msg : SerialMsg} (h : LinkOk link L) :
    HandleSpec env msg arrivals link L (rxReset link) L :=
  ⟨⟨h.held, ⟨h.rx.buf, Nat.zero_le _⟩, Or.inl (by norm_num [rxReset]), h.idle, h.agree⟩,
    fun _ => id, fun _ => id, fun _ _ => by norm_num [rxReset]⟩

/-- Exit of Disconnect, transition, entry of Connect. -/
theorem statetrans_connect (h : Held link.tx L) (hc : link.curr = .disconnect) :
    ∃ tx' L', ((statetrans env .connect link).map fun l => takeTransition true l) =
        some { link with
          tx := tx', uConnectFlag := .connect, linkReqPeriod := 30000, curr := .connect,
          next := none, called := link.called ++ if env.eventCb then [.event .connect] else [] } ∧
      Keeps link.tx L tx' L' := by
  obtain ⟨tx₁, L₁, hrun, hkeep⟩ :=
    slEventCb_keeps env .connect { link with uConnectFlag := .connect } h
  have hentry := hkeep.1.frame (sendTxReqMsg_frame tx₁)
  refine ⟨if yxListEmpty tx₁.links (.head .stWaitTxList) then tx₁ else sendTxReqMsg tx₁, L₁, ?_, ?_⟩
  · rw [statetrans, hc, stateExit, hrun]
    rfl
  · split_ifs
    · exact hkeep
    · exact hkeep.trans hentry

/-- Exit of Connect, transition, entry of Disconnect. -/
private theorem disconnects (h : Held link.tx L) (hc : link.curr = .connect) :
    ∃ tx' L', ((statetrans env .disconnect link).map fun l => takeTransition true l) =
        some { link with
          tx := tx', uConnectFlag := .wait, curr := .disconnect, next := none,
          called := link.called ++ if env.eventCb then [.event .disconnect] else [] } ∧
      Keeps link.tx L tx' L' := by
  obtain ⟨tx₁, L₁, hrun, hkeep⟩ := slEventCb_keeps env .disconnect link h
  refine ⟨tx₁, L₁, ?_, hkeep⟩
  rw [statetrans, hc, stateExit, hrun]
  rfl

private theorem lastEvent_called {link' : Link} (e : SlEvent) (hcb : env.eventCb = true)
    (hcalled : link'.called = link.called ++ if env.eventCb then [.event e] else []) :
    lastEvent link' = some e := by
  rw [lastEvent, hcalled, if_pos hcb, List.filterMap_append]
  simp [eventOf]

private theorem takeTransition_idle {link : Link} (h : link.next = none) :
    takeTransition true link = link := by
  rw [takeTransition, if_pos rfl, h]

private theorem EventAgree.of_same {link link' : Link} (hcurr : link'.curr = link.curr)
    (hev : link'.called.filterMap eventOf = link.called.filterMap eventOf)
    (h : EventAgree link) : EventAgree link' := by
  rw [EventAgree, lastEvent, hev, hcurr]
  exact h

theorem handle_connect (msg : SerialMsg) (h : LinkOk link L) (hc : link.curr = .connect) :
    ∃ link' L', fsmOnEvent env msg arrivals link = some link' ∧
      HandleSpec env msg arrivals link L link' L' := by
  have hflag : link.uConnectFlag = .connect := h.agree.mp hc
  have hstay := takeTransition_idle h.idle
  have same : HandleSpec env msg arrivals link L link L :=
    ⟨h, fun _ => id, fun _ => id, fun _ => id⟩
  rw [fsmOnEvent, stateOnEvent, hc]
  cases msg with
  | rxRcv =>
    obtain ⟨link', L', fs, hrun, ha, -⟩ := rxAnalyse_spec env arrivals h.rx h.settled h.held
    have hcurr : link'.curr = .connect := ha.effect.curr.trans hc
    have hidle : link'.next = none := ha.effect.next.trans h.idle
    have hflag' : link'.uConnectFlag = .connect := by
      rw [ha.effect.flag, hflag, ite_self]
    refine ⟨link', L', ?_, ⟨ha.keeps.1, ha.wf, ha.settled, hidle, ?_⟩, fun _ => ha.keeps.2,
      fun _ => .of_same ha.effect.curr ha.effect.events, fun hno _ => ha.space [] (by rw [List.append_nil]; exact hno rfl)⟩
    · dsimp only [connectHndlr]
      rw [hrun]
      exact congrArg some (takeTransition_idle hidle)
    · rw [hcurr, hflag']
      exact ⟨fun _ => rfl, fun _ => rfl⟩
  | timeLinkAckTimerout =>
    obtain ⟨tx', L', hrun, hkeep⟩ := disconnects env h.held hc
    refine ⟨{ link with
      tx := tx', uConnectFlag := .wait, curr := .disconnect, next := none,
      called := link.called ++ if env.eventCb then [.event .disconnect] else [] }, L', ?_,
      ⟨hkeep.1, ⟨h.rx.buf, h.rx.len⟩, h.settled, rfl, ?_⟩, fun _ => hkeep.2,
      fun hcb _ => ?_, fun _ => id⟩
    · dsimp only [connectHndlr]
      rw [Option.map_map, ← hrun]
      rfl
    · constructor <;> exact nofun
    · rw [EventAgree, lastEvent_called env .disconnect hcb rfl]
      constructor <;> exact nofun
  | timeRepeatTimeout =>
    obtain ⟨sta, tx', L', hrun, hheld, -, ht⟩ :=
      sendRepeatlistnode_keeps env (link.uConnectFlag = .disconnect) h.held
    refine ⟨{ link with tx := tx' }, L', ?_,
      handled_tx env arrivals h hheld fun hex => ht (Or.inr (hex rfl hc))⟩
    dsimp only [connectHndlr]
    rw [hrun]
    exact congrArg some (takeTransition_idle h.idle)
  | txData =>
    obtain ⟨sta, tx', L', hrun, hkeep⟩ :=
      sendWaittxlistnode_keeps env (link.uConnectFlag = .connect) h.held
    refine ⟨{ link with tx := tx' }, L', ?_,
      handled_tx env arrivals h hkeep.1 fun _ => hkeep.2⟩
    dsimp only [connectHndlr]
    rw [hrun]
    exact congrArg some (takeTransition_idle h.idle)
  | timeRxanaTimeout =>
    exact ⟨rxReset link, L, congrArg some (takeTransition_idle h.idle), handled_reset env arrivals h⟩
  | timeLinkReq => exact ⟨link, L, congrArg some hstay, same⟩
  | timeTxWaitTimeout => exact ⟨link, L, congrArg some hstay, same⟩
  | timeConnectTimeout => exact ⟨link, L, rfl, same⟩
  | none => exact ⟨link, L, rfl, same⟩

theorem handle_disconnect (msg : SerialMsg) (h : LinkOk link L) (hc : link.curr = .disconnect) :
    ∃ link' L', fsmOnEvent env msg arrivals link = some link' ∧
      HandleSpec env msg arrivals link L link' L' := by
  have hflag : link.uConnectFlag ≠ .connect := fun hf => by simp [h.agree.mpr hf] at hc
  have hstay := takeTransition_idle h.idle
  have same : HandleSpec env msg arrivals link L link L :=
    ⟨h, fun _ => id, fun _ => id, fun _ => id⟩
  rw [fsmOnEvent, stateOnEvent, hc]
  cases msg with
  | rxRcv =>
    obtain ⟨link₁, L₁, fs, hrun, ha, -⟩ := rxAnalyse_spec env arrivals h.rx h.settled h.held
    have hcurr : link₁.curr = .disconnect := ha.effect.curr.trans hc
    have hidle : link₁.next = none := ha.effect.next.trans h.idle
    by_cases hf : link₁.uConnectFlag = .connect
    · obtain ⟨tx', L', hrun', hkeep⟩ := statetrans_connect env ha.keeps.1 hcurr
      refine ⟨{ link₁ with
        tx := tx', uConnectFlag := .connect, linkReqPeriod := 30000, curr := .connect,
        next := none, called := link₁.called ++ if env.eventCb then [.event .connect] else [] },
        L', ?_, ⟨hkeep.1, ⟨ha.wf.buf, ha.wf.len⟩, ha.settled, rfl, ?_⟩,
        fun _ ht => hkeep.2 (ha.keeps.2 ht), fun hcb _ => ?_, fun hno _ => ha.space [] (by rw [List.append_nil]; exact hno rfl)⟩
      · dsimp only [disconnectHndlr]
        rw [hrun, Option.bind_some, if_pos hf, Option.map_map, ← hrun']
        rfl
      · exact ⟨fun _ => rfl, fun _ => rfl⟩
      · rw [EventAgree, lastEvent_called env .connect hcb rfl]
        exact ⟨fun _ => rfl, fun _ => rfl⟩
    · refine ⟨link₁, L₁, ?_, ⟨ha.keeps.1, ha.wf, ha.settled, hidle, ?_⟩, fun _ => ha.keeps.2,
        fun _ => .of_same ha.effect.curr ha.effect.events, fun hno _ => ha.space [] (by rw [List.append_nil]; exact hno rfl)⟩
      · dsimp only [disconnectHndlr]
        rw [hrun, Option.bind_some, if_neg hf]
        exact congrArg some (takeTransition_idle hidle)
      · rw [hcurr]
        exact ⟨nofun, fun hc => absurd hc hf⟩
  | timeConnectTimeout =>
    obtain ⟨tx', L', hrun, hkeep⟩ :=
      slEventCb_keeps env .disconnect { link with uConnectFlag := .disconnect } h.held
    refine ⟨{ link with
      tx := tx', uConnectFlag := .disconnect,
      called := link.called ++ if env.eventCb then [.event .disconnect] else [] }, L', ?_,
      ⟨hkeep.1, ⟨h.rx.buf, h.rx.len⟩, h.settled, h.idle, ?_⟩, fun _ => hkeep.2,
      fun hcb _ => ?_, fun _ => id⟩
    · dsimp only [disconnectHndlr]
      rw [hrun]
      exact congrArg some (takeTransition_idle h.idle)
    · dsimp only
      rw [hc]
      constructor <;> exact nofun
    · rw [EventAgree, lastEvent_called env .disconnect hcb rfl]
      dsimp only
      rw [hc]
      constructor <;> exact nofun
  | timeRxanaTimeout =>
    exact ⟨rxReset link, L, congrArg some (takeTransition_idle h.idle), handled_reset env arrivals h⟩
  | timeLinkAckTimerout => exact ⟨link, L, congrArg some hstay, same⟩
  | timeRepeatTimeout => exact ⟨link, L, congrArg some hstay, same⟩
  | txData => exact ⟨link, L, congrArg some hstay, same⟩
  | timeLinkReq => exact ⟨link, L, congrArg some hstay, same⟩
  | timeTxWaitTimeout => exact ⟨link, L, congrArg some hstay, same⟩
  | none => exact ⟨link, L, congrArg some hstay, same⟩

theorem handle_spec (msg : SerialMsg) (h : LinkOk link L) :
    ∃ link' L', yxSerialLinkHandle env msg arrivals link = some link' ∧
      HandleSpec env msg arrivals link L link' L' := by
  cases hc : link.curr with
  | disconnect => exact handle_disconnect env arrivals msg h hc
  | connect => exact handle_connect env arrivals msg h hc

end Handlers

/-! ### Steps -/

/-- The message that an operation makes the state machine handle, with the bytes that arrive. -/
def LinkOp.handled (link : Link) : LinkOp → Option (SerialMsg × List (List UInt8))
  | .handle msg arrivals => some (msg, arrivals)
  | .process arrivals =>
    match link.tx.queue with
    | .txData :: _ => some (.txData, [])
    | .rxRcv :: _ => some (.rxRcv, arrivals)
    | _ => none
  | _ => none

/-- The operations that set up the state machine anew. -/
def LinkOp.restarts : LinkOp → Bool
  | .reset => true
  | .sleep => true
  | _ => false

/-- The step repeats frames, one of them for the last time. -/
def RepeatsLast (link : Link) (op : LinkOp) : Prop :=
  ∃ arrivals, op.handled link = some (.timeRepeatTimeout, arrivals) ∧ link.curr = .connect ∧
    Exhausted link.tx

/-- The bytes on hand in a step that receives show no overlong head. -/
def ReceivesFitting (link : Link) (op : LinkOp) : Prop :=
  ∀ arrivals, op.handled link = some (.rxRcv, arrivals) →
    NoOverlong (received link ++ (link.rxRing ++ arrivals.flatten))

/-- The step sets up the state machine anew in the state Connect. -/
def RestartsConnected (link : Link) (op : LinkOp) : Prop :=
  op.restarts = true ∧ link.curr = .connect

structure StepSpec (env : Env) (op : LinkOp) (link : Link) (L : Lists) (link' : Link)
    (L' : Lists) : Prop where
  ok : LinkOk link' L'
  tight : ¬ RepeatsLast link op → Tight link.tx L → Tight link'.tx L'
  event : env.eventCb = true → ¬ RestartsConnected link op → EventAgree link → EventAgree link'
  space : ReceivesFitting link op → link.rxLen < 1024 → link'.rxLen < 1024

section Steps
variable {env : Env} {op : LinkOp} {L L' : Lists} {link link' : Link}

private theorem step_tx (h : LinkOk link L) {tx' : Tx} (hkeep : Keeps link.tx L tx' L') :
    StepSpec env op link L { link with tx := tx' } L' :=
  ⟨⟨hkeep.1, ⟨h.rx.buf, h.rx.len⟩, h.settled, h.idle, h.agree⟩, fun _ => hkeep.2,
    fun _ _ => id, fun _ => id⟩

/-- A step that handles a message after changing flags and the queue only. -/
private theorem step_handled {msg : SerialMsg} {arrivals : List (List UInt8)} {tx₀ : Tx}
    (h : LinkOk link L) (ho : op.handled link = some (msg, arrivals)) (htx : Frame link.tx tx₀)
    (hnodes : tx₀.nodes = link.tx.nodes) :
    ∃ link' L', yxSerialLinkHandle env msg arrivals { link with tx := tx₀ } = some link' ∧
      StepSpec env op link L link' L' := by
  obtain ⟨hheld, ht⟩ := h.held.frame htx
  have h₀ : LinkOk { link with tx := tx₀ } L :=
    ⟨hheld, ⟨h.rx.buf, h.rx.len⟩, h.settled, h.idle, h.agree⟩
  obtain ⟨link', L', hrun, hs⟩ := handle_spec env arrivals msg h₀
  refine ⟨link', L', hrun, hs.ok, fun hlast htight => hs.tight ?_ (ht htight),
    fun hcb _ => hs.event hcb, fun hfit => hs.space ?_⟩
  · rintro rfl hc ⟨L₀, hshape, i, hi, hex⟩
    dsimp only at hshape hex
    rw [hnodes] at hex
    rw [htx.links] at hshape
    exact hlast ⟨arrivals, ho, hc, L₀, hshape, i, hi, hex⟩
  · rintro rfl
    exact hfit arrivals ho

/-- The step sets the lists, the flag and the state machine anew. -/
private theorem step_restart (env : Env) (op : LinkOp) (h : LinkOk link L)
    (hop : op.restarts = true) :
    ∃ tx' L', listReset link.tx = some tx' ∧ StepSpec env op link L
      { link with tx := tx', uConnectFlag := .disconnect, curr := .disconnect, next := none }
      L' := by
  obtain ⟨tx', hrun, hkeep, -⟩ := listReset_keeps h.held
  refine ⟨tx', allFree, hrun, ⟨hkeep.1, ⟨h.rx.buf, h.rx.len⟩, h.settled, rfl, ?_⟩,
    fun _ => hkeep.2, fun _ hno hev => ?_, fun _ => id⟩
  · constructor <;> exact nofun
  · have hcurr : link.curr = .disconnect := by
      cases hc : link.curr with
      | disconnect => rfl
      | connect => exact absurd ⟨hop, hc⟩ hno
    exact hev.of_same hcurr.symm rfl

private theorem step_start (h : LinkOk link L) :
    StepSpec env op link L (yxSerialLinkStart link) L := by
  unfold yxSerialLinkStart
  split_ifs with hc
  · exact step_tx h ⟨h.held, id⟩
  · have hcurr : link.curr = .disconnect := not_not.mp hc
    have hstart : fsmOnStart { link with uConnectFlag := .disconnect } =
        { link with uConnectFlag := .disconnect } := by
      rw [fsmOnStart]
      dsimp only
      rw [hcurr]
      rfl
    rw [hstart]
    refine ⟨⟨h.held, ⟨h.rx.buf, h.rx.len⟩, h.settled, h.idle, ?_⟩, fun _ => id,
      fun _ _ hev => hev.of_same rfl rfl, fun _ => id⟩
    dsimp only
    rw [hcurr]
    constructor <;> exact nofun

/-- Every step returns, and keeps what holds between two messages. -/
theorem linkStep_spec (env : Env) (op : LinkOp) (h : LinkOk link L) :
    ∃ link' L', linkStep env link op = some link' ∧ StepSpec env op link L link' L' := by
  cases op with
  | send args =>
    obtain ⟨sta, tx', L', hrun, hkeep⟩ := yxSerialLinkSend_keeps env args h.held
    exact ⟨{ link with tx := tx' }, L', by rw [linkStep, hrun, Option.map_some], step_tx h hkeep⟩
  | send2List needAck args =>
    obtain ⟨sta, tx', L', hrun, hkeep⟩ := yxSerialLinkSend2List_keeps env
      (link.uConnectFlag = .connect) needAck args h.held
    exact ⟨{ link with tx := tx' }, L', by rw [linkStep, hrun, Option.map_some], step_tx h hkeep⟩
  | handle msg arrivals => exact step_handled h rfl (.refl _) rfl
  | rxInd =>
    have hf : Frame link.tx (rxIndCb link).tx := by
      unfold rxIndCb
      split_ifs
      · exact ⟨rfl, fun _ => rfl, rfl, rfl, le_refl _, rfl⟩
      · exact .refl _
    have heq : rxIndCb link = { link with tx := (rxIndCb link).tx } := by
      unfold rxIndCb
      split_ifs <;> rfl
    exact ⟨rxIndCb link, L, rfl, heq ▸ step_tx h (h.held.frame hf)⟩
  | process arrivals =>
    have hf (queue : List SerialMsg) (flag : UInt8) :
        Frame link.tx { link.tx with queue := queue, uMsgFlag := flag } :=
      ⟨rfl, fun _ => rfl, rfl, rfl, le_refl _, rfl⟩
    have drop (queue : List SerialMsg) : StepSpec env (.process arrivals) link L
        { link with tx := { link.tx with queue := queue } } L :=
      step_tx h (h.held.frame (hf queue link.tx.uMsgFlag))
    rw [linkStep, yxSerialLinkProcess]
    cases hq : link.tx.queue with
    | nil => exact ⟨link, L, rfl, step_tx h ⟨h.held, id⟩⟩
    | cons msg queue =>
      cases msg with
      | txData =>
        exact step_handled h (by simp only [LinkOp.handled, hq])
          (hf queue (link.tx.uMsgFlag &&& ~~~2)) rfl
      | rxRcv =>
        exact step_handled h (by simp only [LinkOp.handled, hq])
          (hf queue (link.tx.uMsgFlag &&& ~~~1)) rfl
      | _ => exact ⟨_, L, rfl, drop queue⟩
  | start => exact ⟨_, L, rfl, step_start h⟩
  | reset =>
    obtain ⟨tx', L', hrun, hs⟩ := step_restart env .reset h rfl
    refine ⟨_, L', ?_, hs⟩
    rw [linkStep, yxSerialLinkReset, hrun]
    rfl
  | sleep =>
    obtain ⟨tx', L', hrun, hs⟩ := step_restart env .sleep h rfl
    refine ⟨_, L', ?_, hs⟩
    rw [linkStep, yxSerialLinkSleep, hrun]
    rfl
  | wakeUp => exact ⟨_, L, rfl, step_start h⟩

end Steps

end Tulux.SerialLink
