import Tulux.Lib.Bell
import Tulux.SerialLink.Requests
import Tulux.SerialLink.SpiDrv

/-! The link thread, the SPI thread and the callers of the link, step by step. The steps of the
link thread lie between its accesses to the message queue, the flags and the rings; those of the
SPI thread between its accesses to the receive ring, the flags and the queue. A send is one step,
as its lock means it to be. -/
namespace Tulux.SerialLink

/-- Where the link thread is: blocked in msgrcv, behind it, behind the clearing of the flag, in
the loop of `_yx_serial_link_rx_analyse` or behind it, in the loop of
`_yx_serial_send_waittxlistnode` or behind it. -/
inductive LinkPc where
  | waits
  | received (msg : SerialMsg)
  | handles (msg : SerialMsg)
  | analyses
  | analysed
  | walks (tlist : Option Addr)
  | walked
  deriving DecidableEq, Repr

/-- Where the SPI thread is: before a transfer, before the notice it gives of the bytes it has put
in the ring, and in the notice before the flag is set and before the message is sent. -/
inductive SpiPc where
  | transfers
  | notices
  | tested
  | flagged
  deriving DecidableEq, Repr

/-- `arrived` lists the bytes that the receive ring accepted, `taken` those read from it. -/
structure Threads where
  link : Link
  spi : YxSpiDrv
  linkPc : LinkPc
  spiPc : SpiPc
  arrived : List UInt8
  taken : List UInt8

/-- What a handler does behind `_yx_serial_link_rx_analyse`. -/
def afterAnalyse (env : Env) (link : Link) : Option Link :=
  match link.curr with
  | .disconnect =>
    if link.uConnectFlag = .connect then
      (statetrans env .connect link).map (takeTransition true)
    else some (takeTransition true link)
  | .connect => some (takeTransition true link)

/-- The handlers of RX_RCV are the analysis and what they do behind it. -/
theorem handle_rxRcv_eq {env : Env} {arrivals : List (List UInt8)} {link : Link}
    (hcurr : ∀ link', rxAnalyse env arrivals link = some link' → link'.curr = link.curr) :
    yxSerialLinkHandle env .rxRcv arrivals link =
      (rxAnalyse env arrivals link).bind (afterAnalyse env) := by
  cases hrun : rxAnalyse env arrivals link with
  | none =>
    cases hc : link.curr <;>
      simp [yxSerialLinkHandle, fsmOnEvent, stateOnEvent, disconnectHndlr, connectHndlr, hc, hrun]
  | some link' =>
    have hc' := hcurr link' hrun
    cases hc : link.curr with
    | disconnect =>
      rw [hc] at hc'
      by_cases hf : link'.uConnectFlag = .connect <;>
        simp [yxSerialLinkHandle, fsmOnEvent, stateOnEvent, disconnectHndlr, afterAnalyse, hc,
          hrun, hc', hf, Function.comp_def]
    | connect =>
      rw [hc] at hc'
      simp [yxSerialLinkHandle, fsmOnEvent, stateOnEvent, connectHndlr, afterAnalyse, hc, hrun,
        hc']

/-! ### Steps -/

def Threads.setTx (s : Threads) (tx : Tx) : Threads := { s with link := { s.link with tx := tx } }

section
variable (s : Threads) (tx : Tx)

@[simp] theorem Threads.setTx_spi : (s.setTx tx).spi = s.spi := rfl
@[simp] theorem Threads.setTx_linkPc : (s.setTx tx).linkPc = s.linkPc := rfl
@[simp] theorem Threads.setTx_spiPc : (s.setTx tx).spiPc = s.spiPc := rfl
@[simp] theorem Threads.setTx_link : (s.setTx tx).link = { s.link with tx := tx } := rfl

end

/-- The next step of the link thread. It waits on an empty queue. -/
def linkTurn (env : Env) (s : Threads) : Option Threads :=
  let tx := s.link.tx
  match s.linkPc with
  | .waits =>
    match tx.queue with
    | [] => some s
    | msg :: queue => some { s.setTx { tx with queue := queue } with linkPc := .received msg }
  | .received msg =>
    match msg with
    | .txData => some { s.setTx { tx with uMsgFlag := tx.uMsgFlag &&& ~~~2 } with
        linkPc := .handles .txData }
    | .rxRcv => some { s.setTx { tx with uMsgFlag := tx.uMsgFlag &&& ~~~1 } with
        linkPc := .handles .rxRcv }
    | _ => some { s with linkPc := .waits }
  | .handles msg =>
    match msg, s.link.curr with
    | .rxRcv, _ => some { s with linkPc := .analyses }
    | .txData, .connect =>
      if s.link.uConnectFlag = .connect then
        some { s with linkPc := .walks (tx.links.next (.head .stWaitTxList)) }
      else some { s with linkPc := .waits }
    | _, _ => some { s with linkPc := .waits }
  | .analyses =>
    (yxSpiDrvRead s.spi (UInt32.ofNat (1024 - s.link.rxLen))).bind fun (bytes, spi) =>
      if bytes = [] then some { s with spi := spi, linkPc := .analysed }
      else (rxPass env bytes s.link).map fun link =>
        { s with link := link, spi := spi, taken := s.taken ++ bytes }
  | .analysed => (afterAnalyse env s.link).map fun link => { s with link := link, linkPc := .waits }
  | .walks tlist =>
    if tlist = some (.head .stWaitTxList) then some { s with linkPc := .walked }
    else (waittxTurn env tlist tx).map fun (next, tx) =>
      { s.setTx tx with
        linkPc := match next with
          | some tlist => .walks tlist
          | none => .walked }
  | .walked =>
    some { s.setTx (if yxListEmpty tx.links (.head .stWaitTxList) then tx else sendTxReqMsg tx) with
      linkPc := .waits }

/-- The next step of the SPI thread; `rxbuf` is what its transfer receives. -/
def spiTurn (s : Threads) (rxbuf : List UInt8) : Option Threads :=
  let tx := s.link.tx
  match s.spiPc with
  | .transfers => (yxRoundbufPut s.spi.rxRingBuffer rxbuf 64).map fun (n, rb) =>
      { s with
        spi := { s.spi with rxRingBuffer := rb }
        spiPc := .notices
        arrived := s.arrived ++ rxbuf.take n }
  | .notices => some { s with spiPc := if tx.uMsgFlag &&& 1 = 0 then .tested else .transfers }
  | .tested => some { s.setTx { tx with uMsgFlag := tx.uMsgFlag ||| 1 } with spiPc := .flagged }
  | .flagged => some { s.setTx { tx with queue := tx.queue ++ [.rxRcv] } with spiPc := .transfers }

/-- What happens next: a call of a send function; a step of the link thread; a step of the SPI
thread; or, while the link thread waits, a call or a timer message that changes the state. No timer
for RXANA_TIMEOUT is ever started. -/
inductive ThreadOp where
  | send (args : SendArgs)
  | send2List (needAck : UInt8) (args : SendArgs)
  | link
  | spi (rxbuf : List UInt8) (h : rxbuf.length = 64)
  | timer (msg : SerialMsg) (h : msg.isTimer = true ∧ msg ≠ .timeRxanaTimeout)
  | start
  | reset
  | sleep
  | wakeUp

/-- A step that the link thread takes part in only while it waits. -/
def Threads.whileWaiting (s : Threads) (link : Option Link) : Option Threads :=
  if s.linkPc = .waits then link.map fun link => { s with link := link } else some s

def Threads.step (env : Env) (s : Threads) : ThreadOp → Option Threads
  | .send args => (yxSerialLinkSend env args s.link.tx).map fun (_, tx) => s.setTx tx
  | .send2List needAck args =>
      (yxSerialLinkSend2List env (s.link.uConnectFlag = .connect) needAck args s.link.tx).map
        fun (_, tx) => s.setTx tx
  | .link => linkTurn env s
  | .spi rxbuf _ => spiTurn s rxbuf
  | .timer msg _ => s.whileWaiting (yxSerialLinkHandle env msg [] s.link)
  | .start => s.whileWaiting (some (yxSerialLinkStart s.link))
  | .reset => s.whileWaiting (yxSerialLinkReset s.link)
  | .sleep => s.whileWaiting (yxSerialLinkSleep s.link)
  | .wakeUp => s.whileWaiting (some (yxSerialLinkWakeUp s.link))

/-- The threads after `Yx_Serial_Link_Init`. -/
def Threads.init (env : Env) : Option Threads :=
  (yxSerialLinkInit env).map fun link => ⟨link, yxSpiDrvInit, .waits, .transfers, [], []⟩

def Threads.run (env : Env) (ops : List ThreadOp) : Option Threads :=
  (Threads.init env).bind fun s => ops.foldlM (Threads.step env) s

end Tulux.SerialLink
