import Tulux.Lib.CircularList
import Tulux.Lib.RingStore
import Tulux.SerialLink.Frame

/-! The transmit side of `serial_link.c`: the static nodes on the free, wait-to-send and resend
lists, and the frame buffers they own. A dereference of a null pointer, and a walk that does not
come back to its head, has no result. -/
namespace Tulux.SerialLink
open CircularList

/-- The list heads of `yx_serial_t`. -/
inductive ListId where
  | stFreeList
  | stReSendList
  | stWaitTxList
  deriving DecidableEq, Repr

/-- The heads, and the 40 nodes `sgSerialItemNode`. -/
inductive Addr where
  | head (k : ListId)
  | node (i : Fin 40)
  deriving DecidableEq, Repr

/-- `serial_item_node_t`. A buffer is named by the number of the allocation that obtained it. -/
structure SerialItemNode where
  nodeAttrib : ℕ := 0
  nodeRepeat : ℕ := 0
  nodeTime : ℕ := 0
  nodeLen : ℕ := 0
  databuf : Option ℕ := none
  deriving DecidableEq, Repr

/-- `YX_SERIAL_MSG_E`. -/
inductive SerialMsg where
  | none
  | txData
  | rxRcv
  | timeTxWaitTimeout
  | timeLinkReq
  | timeLinkAckTimerout
  | timeConnectTimeout
  | timeRxanaTimeout
  | timeRepeatTimeout
  deriving DecidableEq, Repr

/-- The arguments of a send; a data pointer points to at least `len` bytes. -/
structure SendArgs where
  cmd : UInt32
  pdata : Option (List UInt8)
  len : ℕ
  covers : ∀ p ∈ pdata, len ≤ p.length

def noData (cmd : UInt32) : SendArgs := ⟨cmd, none, 0, by simp⟩

/-- An entry of `s_rcb`: a range of commands, and whether it has a handler. -/
structure Rcb where
  bCmd : ℕ
  eCmd : ℕ
  handler : Bool

/-- What the link does not decide: which frames the driver takes, which allocations succeed, what
the memory it did not write holds, what is registered, and what the registered functions send
when they are called for the n-th time. -/
structure Env where
  hwSend : ℕ → Bool
  malloc : ℕ → Bool
  heap : ℕ → ℕ → UInt8
  beyond : ℕ → UInt8
  rcb : List Rcb
  rcb_le : rcb.length ≤ 50
  rxAnaCb : Bool
  eventCb : Bool
  calls : ℕ → List (Option UInt8 × SendArgs)

/-- The part of the state that sending uses. `obtained` and `freed` list the buffers `yx_malloc`
returned and `yx_free` got; `handed` lists the frames handed to the driver. -/
structure Tx where
  links : Links Addr
  nodes : Fin 40 → SerialItemNode
  bufs : ℕ → List UInt8
  mallocCalls : ℕ
  obtained : List ℕ
  freed : List ℕ
  txBuf : List UInt8
  uMsgFlag : UInt8
  queue : List SerialMsg
  handed : List (List UInt8)

/-! ### Lists -/

def yxListInit (l : Links Addr) (list : Addr) : Links Addr := l.single list

def yxListAddBefore (l : Links Addr) (list new : Addr) : Option (Links Addr) :=
  (l.prev list).map fun p => l.insert new p list

def yxListDel (l : Links Addr) (entry : Addr) : Links Addr :=
  match l.next entry, l.prev entry with
  | some n, some p => l.remove entry p n
  | _, _ => l

def yxListEmpty (l : Links Addr) (list : Addr) : Bool := l.next list == some list

/-- `YX_LIST_ENTRY`: the node whose list field is at an address. -/
def yxListEntry : Option Addr → Option (Fin 40)
  | some (.node i) => some i
  | _ => none

/-! ### Calls out -/

/-- Returns the number of bytes the driver took. -/
def hwSenddata (env : Env) (tx : Tx) (pdata : List UInt8) : ℕ × Tx :=
  (if env.hwSend tx.handed.length then pdata.length else 0,
    { tx with handed := tx.handed ++ [pdata] })

def yxMalloc (env : Env) (tx : Tx) : Option ℕ × Tx :=
  if env.malloc tx.mallocCalls then
    (some tx.mallocCalls, { tx with
      mallocCalls := tx.mallocCalls + 1, obtained := tx.obtained ++ [tx.mallocCalls] })
  else (none, { tx with mallocCalls := tx.mallocCalls + 1 })

def yxFree (tx : Tx) (p : Option ℕ) : Tx := { tx with freed := tx.freed ++ p.toList }

def sendTxReqMsg (tx : Tx) : Tx :=
  if tx.uMsgFlag &&& 2 = 0 then
    { tx with uMsgFlag := tx.uMsgFlag ||| 2, queue := tx.queue ++ [.txData] }
  else tx

/-! ### Frames -/

/-- Write the head of a frame, all but its checksum. -/
def fillHead (item : List UInt8) (h₁ h₂ : UInt8) (cmd : UInt32) (len : ℕ) : List UInt8 :=
  [h₁, h₂, item.getD 2 0, yxSerialLinkDeviceType, (cmd >>> 8).toUInt8, cmd.toUInt8,
    UInt8.ofNat (len / 256), UInt8.ofNat len] ++ item.drop 8

/-- Copy the payload behind the head. -/
def copyData (item : List UInt8) (args : SendArgs) : List UInt8 :=
  match args.pdata with
  | some p =>
    if args.len ≠ 0 ∧ args.len ≤ 1024 then RingStore.splice item 8 (p.take args.len) else item
  | none => item

/-- Build a frame in `item`; the checksum reads on into `beyond` when the length says so. -/
def buildItem (item beyond : List UInt8) (h₁ h₂ : UInt8) (args : SendArgs) : List UInt8 :=
  let item := copyData (fillHead item h₁ h₂ args.cmd args.len) args
  item.set 2 (itemXor (item ++ beyond) args.len)

/-- `n` bytes from the start of `tx_buf`. -/
def txBufRead (env : Env) (tx : Tx) (n : ℕ) : List UInt8 :=
  (tx.txBuf ++ (List.range (n - tx.txBuf.length)).map env.beyond).take n

/-- The frame acknowledging a link command, built in `tx_buf` and handed to the driver. -/
def addlinkack (env : Env) (cmd : ℕ) (tx : Tx) : Tx :=
  let args : SendArgs := ⟨UInt32.ofNat cmd, some [0x01], 1, by simp⟩
  let tx := { tx with
    txBuf := buildItem tx.txBuf [] yxSerialLinkHeadDown1 yxSerialLinkHeadDown2 args }
  (hwSenddata env tx (txBufRead env tx 9)).2

/-! ### Nodes -/

/-- Take a node off its list and put it at the end of the list `k`. -/
def moveNode (tx : Tx) (i : Fin 40) (k : ListId) : Option Tx :=
  (yxListAddBefore (yxListDel tx.links (.node i)) (.head k) (.node i)).map fun links =>
    { tx with links := links }

/-- Fill the first free node with a frame buffer and put it on the wait-to-send list. -/
def queueItem (tx : Tx) (buf : ℕ) (item : List UInt8) (node : SerialItemNode) : Option Tx :=
  (yxListEntry (tx.links.next (.head .stFreeList))).bind fun i =>
    (moveNode { tx with
      nodes := Function.update tx.nodes i { node with databuf := some buf }
      bufs := Function.update tx.bufs buf item } i .stWaitTxList).map sendTxReqMsg

/-- The walk of `_yx_serial_send_waittxlistnode`. The result `true` is SUCC. -/
def waittxWalk (env : Env) (fuel : ℕ) (tlist : Option Addr) (sta : Bool) (tx : Tx) :
    Option (Bool × Tx) :=
  if tlist = some (.head .stWaitTxList) then some (sta, tx) else
  match fuel with
  | 0 => none
  | fuel + 1 =>
    (yxListEntry tlist).bind fun i =>
    (tx.nodes i).databuf.bind fun buf =>
    let next := tx.links.next (.node i)
    let (ret, tx) := hwSenddata env tx ((tx.bufs buf).take (tx.nodes i).nodeLen)
    if 0 < ret then
      if (tx.nodes i).nodeAttrib = 1 then
        (moveNode tx i .stReSendList).bind fun tx => waittxWalk env fuel next true tx
      else
        (moveNode (yxFree tx (tx.nodes i).databuf) i .stFreeList).bind fun tx =>
          waittxWalk env fuel next true tx
    else some (false, tx)

/-- One turn of this walk, at a node. The result `some` is where the walk goes on, `none` that it
breaks off. -/
def waittxTurn (env : Env) (tlist : Option Addr) (tx : Tx) : Option (Option (Option Addr) × Tx) :=
  (yxListEntry tlist).bind fun i =>
  (tx.nodes i).databuf.bind fun buf =>
  let next := tx.links.next (.node i)
  let (ret, tx) := hwSenddata env tx ((tx.bufs buf).take (tx.nodes i).nodeLen)
  if 0 < ret then
    if (tx.nodes i).nodeAttrib = 1 then
      (moveNode tx i .stReSendList).map fun tx => (some next, tx)
    else
      (moveNode (yxFree tx (tx.nodes i).databuf) i .stFreeList).map fun tx => (some next, tx)
  else some (none, tx)

/-- The walk goes on where its turns lead it. -/
theorem waittxWalk_turn (env : Env) (fuel : ℕ) {tlist : Option Addr}
    (hne : tlist ≠ some (.head .stWaitTxList)) (sta : Bool) (tx : Tx) :
    waittxWalk env (fuel + 1) tlist sta tx = (waittxTurn env tlist tx).bind fun (next, tx) =>
      match next with
      | some tlist => waittxWalk env fuel tlist true tx
      | none => some (false, tx) := by
  rw [waittxWalk, if_neg hne, waittxTurn]
  cases yxListEntry tlist with
  | none => rfl
  | some i =>
    cases hb : (tx.nodes i).databuf with
    | none => simp [hb]
    | some buf =>
      simp only [Option.bind_some, hb]
      split_ifs <;> simp [Option.bind_map]

/-- A walk meets at most 40 nodes. -/
abbrev walkFuel : ℕ := 41

/-- Called with the connect flag equal to CONNECT_FLAG_CONNECT, or fails at once. -/
def sendWaittxlistnode (env : Env) (connected : Bool) (tx : Tx) : Option (Bool × Tx) :=
  if connected then
    (waittxWalk env walkFuel (tx.links.next (.head .stWaitTxList)) false tx).map fun (sta, tx) =>
      (sta, if yxListEmpty tx.links (.head .stWaitTxList) then tx else sendTxReqMsg tx)
  else some (false, tx)

def delRepeatWalk (command fuel : ℕ) (tlist : Option Addr) (tx : Tx) : Option Tx :=
  if tlist = some (.head .stReSendList) then some tx else
  match fuel with
  | 0 => none
  | fuel + 1 =>
    (yxListEntry tlist).bind fun i =>
    (tx.nodes i).databuf.bind fun buf =>
    if headCmd (tx.bufs buf) = command then
      moveNode (yxFree tx (tx.nodes i).databuf) i .stFreeList
    else delRepeatWalk command fuel (tx.links.next (.node i)) tx

/-- Its result is FAIL in every case. -/
def delRepeatlistbycmd (command : ℕ) (tx : Tx) : Option Tx :=
  delRepeatWalk command walkFuel (tx.links.next (.head .stReSendList)) tx

/-- The walk of `_yx_serial_send_repeatlistnode`. -/
def repeatWalk (env : Env) (fuel : ℕ) (tlist : Option Addr) (sta : Bool) (tx : Tx) :
    Option (Bool × Tx) :=
  if tlist = some (.head .stReSendList) then some (sta, tx) else
  match fuel with
  | 0 => none
  | fuel + 1 =>
    (yxListEntry tlist).bind fun i =>
    let next := tx.links.next (.node i)
    let node := tx.nodes i
    if node.nodeTime - 1 = 0 then
      node.databuf.bind fun buf =>
      let (ret, tx) := hwSenddata env tx ((tx.bufs buf).take node.nodeLen)
      let sta := if 0 < ret then true else sta
      let tx := { tx with nodes := Function.update tx.nodes i { node with
        nodeTime := 3, nodeRepeat := node.nodeRepeat - 1 } }
      if node.nodeRepeat - 1 = 0 then
        (moveNode tx i .stFreeList).bind fun tx => repeatWalk env fuel next sta tx
      else repeatWalk env fuel next sta tx
    else
      repeatWalk env fuel next sta { tx with
        nodes := Function.update tx.nodes i { node with nodeTime := node.nodeTime - 1 } }

/-- Fails at once when the connect flag is CONNECT_FLAG_DISCONNECT. -/
def sendRepeatlistnode (env : Env) (disconnected : Bool) (tx : Tx) : Option (Bool × Tx) :=
  if disconnected then some (false, tx)
  else repeatWalk env walkFuel (tx.links.next (.head .stReSendList)) false tx

/-- The loops of `_yx_serial_list_reset` that free the buffers of a list. -/
def freeWalk (k : ListId) (fuel : ℕ) (tlist : Option Addr) (tx : Tx) : Option Tx :=
  if tlist = some (.head k) then some tx else
  match fuel with
  | 0 => none
  | fuel + 1 =>
    (yxListEntry tlist).bind fun i =>
      freeWalk k fuel (tx.links.next (.node i)) (yxFree tx (tx.nodes i).databuf)

/-- Three empty lists, then every node at the end of the free list. -/
def initLists (l : Links Addr) : Option (Links Addr) :=
  let l := yxListInit l (.head .stFreeList)
  let l := yxListInit l (.head .stWaitTxList)
  let l := yxListInit l (.head .stReSendList)
  (List.finRange 40).foldlM (fun l i => yxListAddBefore l (.head .stFreeList) (.node i)) l

def listReset (tx : Tx) : Option Tx :=
  (freeWalk .stWaitTxList walkFuel (tx.links.next (.head .stWaitTxList)) tx).bind fun tx =>
  (freeWalk .stReSendList walkFuel (tx.links.next (.head .stReSendList)) tx).bind fun tx =>
  (initLists tx.links).map fun links => { tx with links := links }

/-! ### Sends -/

def yxSerialLinkSend2List (env : Env) (connected : Bool) (needAck : UInt8) (args : SendArgs)
    (tx : Tx) : Option (Bool × Tx) :=
  if connected = false then some (false, tx)
  else if yxListEmpty tx.links (.head .stFreeList) then some (false, tx)
  else
    match yxMalloc env tx with
    | (none, tx) => some (false, tx)
    | (some buf, tx) =>
      let item := buildItem ((List.range (args.len + 8)).map (env.heap buf)) []
        yxSerialLinkHeadDown1 yxSerialLinkHeadDown2 args
      let node : SerialItemNode :=
        { nodeAttrib := needAck.toNat % 2, nodeRepeat := 3, nodeTime := 3, nodeLen := args.len + 8 }
      (queueItem tx buf item node).map fun tx => (true, tx)

def yxSerialLinkSend (env : Env) (args : SendArgs) (tx : Tx) : Option (Bool × Tx) :=
  let beyond := (List.range (args.len - 1024)).map env.beyond
  let tx := { tx with
    txBuf := buildItem tx.txBuf beyond yxSerialLinkHeadDown1 yxSerialLinkHeadDown2 args }
  let frame := txBufRead env tx (args.len + 8)
  let (ret, tx) := hwSenddata env tx frame
  if ret ≠ 0 then some (true, tx)
  else if yxListEmpty tx.links (.head .stFreeList) then some (false, tx)
  else
    match yxMalloc env tx with
    | (none, tx) => some (false, tx)
    | (some buf, tx) =>
      let node : SerialItemNode :=
        { nodeAttrib := 0, nodeRepeat := 1, nodeTime := 1, nodeLen := args.len + 8 }
      (queueItem tx buf frame node).map fun tx => (true, tx)

end Tulux.SerialLink
