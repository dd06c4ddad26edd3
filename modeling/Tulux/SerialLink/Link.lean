import Tulux.SerialLink.Nodes

/-! The receive side of `serial_link.c`, its state machine on `yx_fsm.c`, and its public calls.
Registered functions may send; they do not touch the receive buffer or the state machine. -/
namespace Tulux.SerialLink

/-- `CONNECT_FALG_TYPE_E`. -/
inductive ConnectFlag where
  | disconnect
  | wait
  | connect
  deriving DecidableEq, Repr

/-- `SerialFsm_State_t`. -/
inductive SerialState where
  | disconnect
  | connect
  deriving DecidableEq, Repr

/-- `YX_SL_EVENT_T`. -/
inductive SlEvent where
  | none
  | connect
  | disconnect
  | rxError
  deriving DecidableEq, Repr

/-- A call of a registered function: the handler of an entry of `s_rcb`, `rx_ana_cb` or
`event_cb`. -/
inductive Callback where
  | handler (i : ℕ) (frame : List UInt8)
  | rxAna (frame : List UInt8)
  | event (e : SlEvent)
  deriving DecidableEq, Repr

/-- The state of the link: `sgYxSeiralDlObj`, `sgSerialFsm` and the bytes in the receive ring.
`accepted` lists the frames with a right checksum, `called` the calls of registered functions. -/
structure Link where
  tx : Tx
  uConnectFlag : ConnectFlag
  linkReqPeriod : ℕ
  rxLen : ℕ
  rxBuf : List UInt8
  rxRing : List UInt8
  curr : SerialState
  next : Option SerialState
  accepted : List (List UInt8)
  called : List Callback

/-! ### Registered functions -/

def callbackSend (env : Env) (connected : Bool) (tx : Tx) (call : Option UInt8 × SendArgs) :
    Option Tx :=
  match call.1 with
  | none => (yxSerialLinkSend env call.2 tx).map Prod.snd
  | some needAck => (yxSerialLinkSend2List env connected needAck call.2 tx).map Prod.snd

def runCallback (env : Env) (cb : Callback) (link : Link) : Option Link :=
  ((env.calls link.called.length).foldlM
    (callbackSend env (link.uConnectFlag = .connect)) link.tx).map fun tx =>
      { link with tx := tx, called := link.called ++ [cb] }

def slEventCb (env : Env) (e : SlEvent) (link : Link) : Option Link :=
  if env.eventCb then runCallback env (.event e) link else some link

/-- The first entry for the command decides which handler is called. -/
def dispatchRcb (env : Env) (frame : List UInt8) (link : Link) : Option Link :=
  let cmd := headCmd frame
  match env.rcb.zipIdx.find? fun r => r.1.bCmd ≤ cmd ∧ cmd ≤ r.1.eCmd with
  | some (r, i) => if r.handler then runCallback env (.handler i frame) link else some link
  | none => some link

def slRxAnaCb (env : Env) (frame : List UInt8) (link : Link) : Option Link :=
  (dispatchRcb env frame link).bind fun link =>
    if env.rxAnaCb then runCallback env (.rxAna frame) link else some link

/-! ### Receiving -/

/-- What `_yx_serial_link_rxrec` does with a frame; `data` is the byte behind its head. -/
def rxFrame (env : Env) (frame : List UInt8) (data : UInt8) (link : Link) : Option Link :=
  let cmd := headCmd frame
  (delRepeatlistbycmd cmd link.tx).bind fun tx =>
    let link := { link with tx := tx, accepted := link.accepted ++ [frame] }
    if cmd = yxSerialLinkReqCmd then
      some { link with
        linkReqPeriod := data.toNat * 1000
        tx := addlinkack env cmd link.tx
        uConnectFlag := if link.uConnectFlag ≠ .connect then .connect else link.uConnectFlag }
    else if cmd = yxSerialLinkBeatCmd then some { link with tx := addlinkack env cmd link.tx }
    else slRxAnaCb env frame link

/-- The loop at `_ANALYSE`. -/
def rxrecAnalyse (env : Env) (pbuf : List UInt8) (datalen offset : ℕ) (link : Link) :
    Option (ℕ × Link) :=
  let off := offset + yxSerialLinkFindframehead ((pbuf.take datalen).drop offset)
  if datalen - off < 8 then some (off, link)
  else
    let pDlHead := pbuf.drop off
    let size := headLen pDlHead
    if size + 8 ≤ datalen - off then
      if headCrc pDlHead = itemXor pDlHead size then
        (rxFrame env (pDlHead.take (size + 8)) (pDlHead.getD 8 0) link).bind fun link =>
          if off + (size + 8) < datalen then
            rxrecAnalyse env pbuf datalen (off + (size + 8)) link
          else some (off + (size + 8), link)
      else rxrecAnalyse env pbuf datalen (off + 2) link
    else if 1024 < datalen then rxrecAnalyse env pbuf datalen (off + 2) link
    else some (off, link)
termination_by datalen - offset

/-- Returns the number of bytes done with. -/
def rxrec (env : Env) (pbuf : List UInt8) (datalen : ℕ) (link : Link) : Option (ℕ × Link) :=
  if datalen < 8 then some (0, link) else rxrecAnalyse env pbuf datalen 0 link

/-- Drop the bytes done with, and move the rest to the start of the buffer. -/
def rxShift (rxOffset : ℕ) (link : Link) : Link :=
  let rxLen := link.rxLen - rxOffset
  { link with
    rxLen := rxLen
    rxBuf := if rxLen ≠ 0 then
        RingStore.splice link.rxBuf 0 ((link.rxBuf.drop rxOffset).take rxLen)
      else link.rxBuf }

/-- One pass of the loop of `_yx_serial_link_rx_analyse`, after a read of `bytes`. -/
def rxPass (env : Env) (bytes : List UInt8) (link : Link) : Option Link :=
  let link := { link with
    rxBuf := RingStore.splice link.rxBuf link.rxLen bytes, rxLen := link.rxLen + bytes.length }
  (rxrec env link.rxBuf link.rxLen link).map fun (rxOffset, link) => rxShift rxOffset link

theorem read_decreases {ring : List UInt8} {arrivals : List (List UInt8)} {n : ℕ}
    (h : (ring ++ arrivals.headD []).take n ≠ []) :
    ((ring ++ arrivals.headD []).drop ((ring ++ arrivals.headD []).take n).length).length +
      arrivals.tail.flatten.length < ring.length + arrivals.flatten.length := by
  have hpos := List.length_pos_iff.mpr h
  have hsum : arrivals.flatten.length = (arrivals.headD []).length + arrivals.tail.flatten.length := by
    cases arrivals <;> simp
  rw [List.length_take] at hpos
  rw [List.length_drop, List.length_take, List.length_append] at *
  omega

/-- The loop of `_yx_serial_link_rx_analyse`. Before the n-th read the n-th chunk of `arrivals`
arrives in the ring; a read takes what is there, up to the space in the buffer. -/
def rxAnalyseLoop (env : Env) (ring : List UInt8) (arrivals : List (List UInt8)) (link : Link) :
    Option Link :=
  let here := ring ++ arrivals.headD []
  let bytes := here.take (1024 - link.rxLen)
  if bytes = [] then some { link with rxRing := here ++ arrivals.tail.flatten }
  else
    (rxPass env bytes link).bind fun link =>
      rxAnalyseLoop env (here.drop bytes.length) arrivals.tail link
termination_by ring.length + arrivals.flatten.length
decreasing_by exact read_decreases ‹_›

def rxAnalyse (env : Env) (arrivals : List (List UInt8)) (link : Link) : Option Link :=
  rxAnalyseLoop env link.rxRing arrivals link

def rxReset (link : Link) : Link := { link with rxLen := 0 }

/-! ### The state machine -/

def serialLinkFsmctor (link : Link) : Link := { link with curr := .disconnect, next := none }

/-- The handlers on MSG_STATE_ENTRY. -/
def stateEntry (s : SerialState) (link : Link) : Link :=
  match s with
  | .disconnect => link
  | .connect => { link with
      linkReqPeriod := 30000
      tx := if yxListEmpty link.tx.links (.head .stWaitTxList) then link.tx
        else sendTxReqMsg link.tx }

/-- The handlers on MSG_STATE_EXIT. -/
def stateExit (env : Env) (s : SerialState) (link : Link) : Option Link :=
  match s with
  | .disconnect => slEventCb env .connect { link with uConnectFlag := .connect }
  | .connect => (slEventCb env .disconnect link).map fun link =>
      { link with uConnectFlag := .wait }

/-- `FSM_STATE_TRAN`. -/
def statetrans (env : Env) (target : SerialState) (link : Link) : Option Link :=
  (stateExit env link.curr link).map fun link => { link with next := some target }

/-- The handlers return whether they have handled the message (a null result in the source). -/
def disconnectHndlr (env : Env) (msg : SerialMsg) (arrivals : List (List UInt8)) (link : Link) :
    Option (Bool × Link) :=
  match msg with
  | .rxRcv => (rxAnalyse env arrivals link).bind fun link =>
      if link.uConnectFlag = .connect then (statetrans env .connect link).map (true, ·)
      else some (true, link)
  | .timeConnectTimeout =>
      (slEventCb env .disconnect { link with uConnectFlag := .disconnect }).map (true, ·)
  | .timeRxanaTimeout => some (true, rxReset link)
  | _ => some (true, link)

def connectHndlr (env : Env) (msg : SerialMsg) (arrivals : List (List UInt8)) (link : Link) :
    Option (Bool × Link) :=
  match msg with
  | .rxRcv => (rxAnalyse env arrivals link).map (true, ·)
  | .timeLinkAckTimerout => (statetrans env .disconnect link).map (true, ·)
  | .timeLinkReq => some (true, link)
  | .timeTxWaitTimeout => some (true, link)
  | .timeRxanaTimeout => some (true, rxReset link)
  | .timeRepeatTimeout =>
      (sendRepeatlistnode env (link.uConnectFlag = .disconnect) link.tx).map fun (_, tx) =>
        (true, { link with tx := tx })
  | .txData =>
      (sendWaittxlistnode env (link.uConnectFlag = .connect) link.tx).map fun (_, tx) =>
        (true, { link with tx := tx })
  | _ => some (false, link)

def fsmOnStart (link : Link) : Link := stateEntry link.curr link

def stateOnEvent (env : Env) (msg : SerialMsg) (arrivals : List (List UInt8)) (link : Link) :
    Option (Bool × Link) :=
  match link.curr with
  | .disconnect => disconnectHndlr env msg arrivals link
  | .connect => connectHndlr env msg arrivals link

/-- The transition that a handled message has asked for, if any. -/
def takeTransition (handled : Bool) (link : Link) : Link :=
  if handled then
    match link.next with
    | some s => { stateEntry s link with curr := s, next := none }
    | none => link
  else link

def fsmOnEvent (env : Env) (msg : SerialMsg) (arrivals : List (List UInt8)) (link : Link) :
    Option Link :=
  (stateOnEvent env msg arrivals link).map fun (handled, link) => takeTransition handled link

/-! ### Public calls -/

def yxSerialLinkHandle := fsmOnEvent

def yxSerialLinkTxHandle (env : Env) (link : Link) : Option Link :=
  yxSerialLinkHandle env .txData []
    { link with tx := { link.tx with uMsgFlag := link.tx.uMsgFlag &&& ~~~2 } }

def yxSerialLinkAnalyse (env : Env) (arrivals : List (List UInt8)) (link : Link) : Option Link :=
  yxSerialLinkHandle env .rxRcv arrivals
    { link with tx := { link.tx with uMsgFlag := link.tx.uMsgFlag &&& ~~~1 } }

/-- The notice of the SPI driver that bytes have arrived. -/
def rxIndCb (link : Link) : Link :=
  if link.tx.uMsgFlag &&& 1 = 0 then
    { link with tx := { link.tx with
      uMsgFlag := link.tx.uMsgFlag ||| 1, queue := link.tx.queue ++ [.rxRcv] } }
  else link

/-- The link thread takes one message; on an empty queue it waits. -/
def yxSerialLinkProcess (env : Env) (arrivals : List (List UInt8)) (link : Link) : Option Link :=
  match link.tx.queue with
  | [] => some link
  | msg :: queue =>
    let link := { link with tx := { link.tx with queue := queue } }
    match msg with
    | .txData => yxSerialLinkTxHandle env link
    | .rxRcv => yxSerialLinkAnalyse env arrivals link
    | _ => some link

def yxSerialLinkReset (link : Link) : Option Link :=
  (listReset link.tx).map fun tx =>
    fsmOnStart (serialLinkFsmctor { link with tx := tx, uConnectFlag := .disconnect })

/-- Fails, and changes nothing, when the state is not Disconnect. -/
def yxSerialLinkStart (link : Link) : Link :=
  if link.curr ≠ .disconnect then link
  else fsmOnStart { link with uConnectFlag := .disconnect }

def yxSerialLinkSleep (link : Link) : Option Link :=
  (listReset link.tx).map fun tx =>
    serialLinkFsmctor { link with tx := tx, uConnectFlag := .disconnect }

def yxSerialLinkWakeUp (link : Link) : Link := yxSerialLinkStart link

/-- Static storage is zero before `Yx_Serial_Link_Init`. -/
def zeroTx (links : CircularList.Links Addr) : Tx where
  links := links
  nodes := fun _ => {}
  bufs := fun _ => []
  mallocCalls := 0
  obtained := []
  freed := []
  txBuf := List.replicate 1032 0
  uMsgFlag := 0
  queue := []
  handed := []

def yxSerialLinkInit (env : Env) : Option Link :=
  (initLists ⟨fun _ => none, fun _ => none⟩).bind fun links =>
    (yxSerialLinkSend env (noData 1) (zeroTx links)).map fun (_, tx) =>
      { tx := tx, uConnectFlag := .disconnect, linkReqPeriod := 0, rxLen := 0,
        rxBuf := List.replicate 1032 0, rxRing := [], curr := .disconnect, next := none,
        accepted := [], called := [] }

/-! ### Runs -/

/-- What happens to the link: calls of its functions, and messages with the bytes that arrive
while they are handled. -/
inductive LinkOp where
  | send (args : SendArgs)
  | send2List (needAck : UInt8) (args : SendArgs)
  | handle (msg : SerialMsg) (arrivals : List (List UInt8))
  | rxInd
  | process (arrivals : List (List UInt8))
  | start
  | reset
  | sleep
  | wakeUp

def linkStep (env : Env) (link : Link) : LinkOp → Option Link
  | .send args => (yxSerialLinkSend env args link.tx).map fun (_, tx) => { link with tx := tx }
  | .send2List needAck args =>
      (yxSerialLinkSend2List env (link.uConnectFlag = .connect) needAck args link.tx).map
        fun (_, tx) => { link with tx := tx }
  | .handle msg arrivals => yxSerialLinkHandle env msg arrivals link
  | .rxInd => some (rxIndCb link)
  | .process arrivals => yxSerialLinkProcess env arrivals link
  | .start => some (yxSerialLinkStart link)
  | .reset => yxSerialLinkReset link
  | .sleep => yxSerialLinkSleep link
  | .wakeUp => some (yxSerialLinkWakeUp link)

/-- The state after a run from `Yx_Serial_Link_Init`. -/
def linkRun (env : Env) (ops : List LinkOp) : Option Link :=
  (yxSerialLinkInit env).bind fun link => ops.foldlM (linkStep env) link

end Tulux.SerialLink
