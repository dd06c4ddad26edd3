import Tulux.Lib.ResendQueue
import Tulux.SerialLink.Runs

/-! The frames on the wait-to-send and resend lists follow the runs of a resend queue with three
rounds, three REPEAT_TIMEOUT messages apart. -/
namespace Tulux.SerialLink
open CircularList

abbrev LinkEvent := ResendQueue.Event ℕ

/-! ### Traces -/

/-- A frame has the number of its buffer; its key is its command. -/
def frameOf (tx : Tx) (i : Fin 40) : ResendQueue.Frame ℕ where
  id := (tx.nodes i).databuf.getD 0
  key := headCmd ((tx.nodes i).databuf.elim [] tx.bufs)
  ack := (tx.nodes i).nodeAttrib = 1

/-- The frames that `_yx_serial_send_waittxlistnode` hands over. -/
def waittxTrace (env : Env) : ℕ → Option Addr → Tx → List LinkEvent
  | 0, _, _ => []
  | fuel + 1, tlist, tx =>
    if tlist = some (.head .stWaitTxList) then []
    else
      match yxListEntry tlist, waittxTurn env tlist tx with
      | some i, some (some next, tx') => .sent (frameOf tx i) true :: waittxTrace env fuel next tx'
      | some i, some (none, _) => [.sent (frameOf tx i) false]
      | _, _ => []

/-- One turn of `repeatWalk`, at a node: whether the driver takes the frame, if it is handed over,
and where the walk goes on. -/
def repeatTurn (env : Env) (tlist : Option Addr) (tx : Tx) :
    Option (Option Bool × Option Addr × Tx) :=
  (yxListEntry tlist).bind fun i =>
  let next := tx.links.next (.node i)
  let node := tx.nodes i
  if node.nodeTime - 1 = 0 then
    node.databuf.bind fun buf =>
    let (ret, tx) := hwSenddata env tx ((tx.bufs buf).take node.nodeLen)
    let tx := { tx with nodes := Function.update tx.nodes i { node with
      nodeTime := 3, nodeRepeat := node.nodeRepeat - 1 } }
    if node.nodeRepeat - 1 = 0 then
      (moveNode tx i .stFreeList).map fun tx => (some (0 < ret), next, tx)
    else some (some (0 < ret), next, tx)
  else
    some (none, next, { tx with
      nodes := Function.update tx.nodes i { node with nodeTime := node.nodeTime - 1 } })

/-- The walk goes on where its turns lead it. -/
theorem repeatWalk_turn (env : Env) (fuel : ℕ) {tlist : Option Addr}
    (hne : tlist ≠ some (.head .stReSendList)) (sta : Bool) (tx : Tx) :
    repeatWalk env (fuel + 1) tlist sta tx = (repeatTurn env tlist tx).bind fun r =>
      repeatWalk env fuel r.2.1 (if r.1 = some true then true else sta) r.2.2 := by
  rw [repeatWalk, if_neg hne, repeatTurn]
  cases yxListEntry tlist with
  | none => rfl
  | some i =>
    by_cases htime : (tx.nodes i).nodeTime - 1 = 0
    · cases hb : (tx.nodes i).databuf with
      | none => simp [htime, hb]
      | some buf =>
        by_cases hlast : (tx.nodes i).nodeRepeat - 1 = 0 <;>
          simp [htime, hb, hlast, Option.bind_map]
    · simp [htime]

/-- The frames that `_yx_serial_send_repeatlistnode` hands over. -/
def repeatTrace (env : Env) : ℕ → Option Addr → Tx → List LinkEvent
  | 0, _, _ => []
  | fuel + 1, tlist, tx =>
    if tlist = some (.head .stReSendList) then []
    else
      match yxListEntry tlist, repeatTurn env tlist tx with
      | some i, some (ok, next, tx') =>
        (ok.map fun ok => ResendQueue.Event.resent (frameOf tx i) ok).toList ++
          repeatTrace env fuel next tx'
      | _, _ => []

/-- What the walks do when a message is handled. -/
def msgTrace (env : Env) (msg : SerialMsg) (link : Link) : List LinkEvent :=
  if link.curr = .connect then
    match msg with
    | .txData =>
      if link.uConnectFlag = .connect then
        waittxTrace env walkFuel (link.tx.links.next (.head .stWaitTxList)) link.tx
      else []
    | .timeRepeatTimeout =>
      if link.uConnectFlag = .disconnect then []
      else
        .timeout :: repeatTrace env walkFuel (link.tx.links.next (.head .stReSendList)) link.tx
    | _ => []
  else []

/-- The message that an operation handles, in the state in which it is handled. -/
def walkTrace (env : Env) (link : Link) : LinkOp → List LinkEvent
  | .handle msg _ => msgTrace env msg link
  | .process _ =>
    match link.tx.queue with
    | .txData :: queue => msgTrace env .txData { link with
        tx := { link.tx with queue := queue, uMsgFlag := link.tx.uMsgFlag &&& ~~~2 } }
    | _ => []
  | _ => []

def receipts (fs : List (List UInt8)) : List LinkEvent := fs.map fun f => .received (headCmd f)

/-- The walks of a step, and the frames it receives. -/
def stepTrace (env : Env) (link : Link) (op : LinkOp) (link' : Link) : List LinkEvent :=
  walkTrace env link op ++ receipts (link'.accepted.drop link.accepted.length)

def opsTrace (env : Env) : Link → List LinkOp → List LinkEvent
  | _, [] => []
  | link, op :: ops =>
    match linkStep env link op with
    | none => []
    | some link' => stepTrace env link op link' ++ opsTrace env link' ops

/-- The trace of a run from `Yx_Serial_Link_Init`. -/
def linkTrace (env : Env) (ops : List LinkOp) : List LinkEvent :=
  match yxSerialLinkInit env with
  | none => []
  | some link => opsTrace env link ops

/-- A turn is an event: the driver is given the frame, and takes it when the walk goes on. -/
theorem waittxTurn_hands {env : Env} {i : Fin 40} {next : Option (Option Addr)} {tx tx' : Tx}
    (h : waittxTurn env (some (.node i)) tx = some (next, tx')) :
    tx'.handed = tx.handed ++ [nodeFrame tx i] ∧ (next.isSome ↔ Takes env tx (nodeFrame tx i)) := by
  rw [waittxTurn, yxListEntry_node, Option.bind_some] at h
  obtain ⟨b, hb, h⟩ := Option.bind_eq_some_iff.mp h
  have hframe : (tx.bufs b).take (tx.nodes i).nodeLen = nodeFrame tx i := by
    rw [nodeFrame, hb, Option.elim_some]
  rw [hframe] at h
  dsimp only at h
  split_ifs at h with hret hattr
  · obtain ⟨tx₁, hmove, heq⟩ := Option.map_eq_some_iff.mp h
    obtain ⟨rfl, rfl⟩ := Prod.mk.inj heq
    obtain ⟨l, -, rfl⟩ := Option.map_eq_some_iff.mp hmove
    exact ⟨rfl, fun _ => hret, fun _ => rfl⟩
  · obtain ⟨tx₁, hmove, heq⟩ := Option.map_eq_some_iff.mp h
    obtain ⟨rfl, rfl⟩ := Prod.mk.inj heq
    obtain ⟨l, -, rfl⟩ := Option.map_eq_some_iff.mp hmove
    exact ⟨rfl, fun _ => hret, fun _ => rfl⟩
  · obtain ⟨rfl, rfl⟩ := Prod.mk.inj (Option.some.inj h)
    exact ⟨rfl, fun hsome => absurd hsome Bool.false_ne_true, fun ht => absurd ht hret⟩

/-- A round is an event, and the driver is given the frame; the time before it is none. -/
theorem repeatTurn_hands {env : Env} {i : Fin 40} {ok : Option Bool} {next : Option Addr}
    {tx tx' : Tx} (h : repeatTurn env (some (.node i)) tx = some (ok, next, tx')) :
    tx'.handed = tx.handed ++ (ok.map fun _ => nodeFrame tx i).toList ∧
      ∀ r ∈ ok, r = decide (Takes env tx (nodeFrame tx i)) := by
  rw [repeatTurn, yxListEntry_node, Option.bind_some] at h
  dsimp only at h
  by_cases htime : (tx.nodes i).nodeTime - 1 = 0
  · rw [if_pos htime] at h
    obtain ⟨b, hb, h⟩ := Option.bind_eq_some_iff.mp h
    have hframe : (tx.bufs b).take (tx.nodes i).nodeLen = nodeFrame tx i := by
      rw [nodeFrame, hb, Option.elim_some]
    rw [hframe] at h
    split_ifs at h with hlast
    · obtain ⟨tx₁, hmove, heq⟩ := Option.map_eq_some_iff.mp h
      obtain ⟨l, -, rfl⟩ := Option.map_eq_some_iff.mp hmove
      cases heq
      exact ⟨rfl, fun r hr => (Option.some.inj hr).symm⟩
    · cases h
      exact ⟨rfl, fun r hr => (Option.some.inj hr).symm⟩
  · rw [if_neg htime] at h
    cases h
    exact ⟨(List.append_nil _).symm, fun r hr => absurd hr (by simp)⟩

/-! ### The lists follow a run -/

/-- The rounds left to a node on the resend list, and the messages to the next one. -/
def entryOf (tx : Tx) (i : Fin 40) : ResendQueue.Entry ℕ :=
  ⟨frameOf tx i, (tx.nodes i).nodeRepeat, (tx.nodes i).nodeTime⟩

/-- A run with the trace `t` leads to the wait-to-send list and the entries `E`. -/
structure Queued (t : List LinkEvent) (tx : Tx) (L : Lists) (E : List (ResendQueue.Entry ℕ)) :
    Prop where
  shape : Shape tx.links L
  bufs : ∀ i, Active L i → (tx.nodes i).databuf.isSome
  run : ∃ n ≤ tx.mallocCalls, ResendQueue.Run 3 3 t ((L .stWaitTxList).map (frameOf tx)) E n
  fresh : ∀ i ∈ L .stWaitTxList, (tx.nodes i).nodeAttrib = 1 →
    (tx.nodes i).nodeRepeat = 3 ∧ (tx.nodes i).nodeTime = 3

/-- The entries are the nodes on the resend list, and no round is due. -/
structure Tracks (t : List LinkEvent) (tx : Tx) (L : Lists) : Prop where
  queued : Queued t tx L ((L .stReSendList).map (entryOf tx))
  pending : ∀ i ∈ L .stReSendList, 0 < (tx.nodes i).nodeTime

/-- What the queues depend on is the same in both states. -/
structure SameQueues (tx tx' : Tx) : Prop where
  links : tx'.links = tx.links
  nodes : tx'.nodes = tx.nodes
  bufs : tx'.bufs = tx.bufs
  mallocCalls : tx.mallocCalls ≤ tx'.mallocCalls

theorem SameQueues.refl (tx : Tx) : SameQueues tx tx := ⟨rfl, rfl, rfl, le_rfl⟩

section Tracks
variable {t : List LinkEvent} {tx tx' : Tx} {L : Lists} {E : List (ResendQueue.Entry ℕ)}

theorem frameOf_congr {i : Fin 40} (hn : tx'.nodes i = tx.nodes i)
    (hb : ∀ b ∈ (tx.nodes i).databuf, tx'.bufs b = tx.bufs b) : frameOf tx' i = frameOf tx i := by
  rw [frameOf, frameOf, hn]
  cases hbuf : (tx.nodes i).databuf with
  | none => rfl
  | some b =>
    rw [Option.elim_some, Option.elim_some, hb b hbuf]

theorem entryOf_congr {i : Fin 40} (hn : tx'.nodes i = tx.nodes i)
    (hb : ∀ b ∈ (tx.nodes i).databuf, tx'.bufs b = tx.bufs b) : entryOf tx' i = entryOf tx i := by
  rw [entryOf, entryOf, frameOf_congr hn hb, hn]

theorem Queued.congr (h : Queued t tx L E) (hs : SameQueues tx tx') : Queued t tx' L E := by
  obtain ⟨n, hn, hrun⟩ := h.run
  have hframe : frameOf tx' = frameOf tx := by
    funext i
    exact frameOf_congr (congrFun hs.nodes i) fun b _ => congrFun hs.bufs b
  refine ⟨hs.links ▸ h.shape, hs.nodes ▸ h.bufs, ⟨n, hn.trans hs.mallocCalls, ?_⟩,
    hs.nodes ▸ h.fresh⟩
  rw [hframe]
  exact hrun

theorem Tracks.congr (h : Tracks t tx L) (hs : SameQueues tx tx') : Tracks t tx' L := by
  have hentry : entryOf tx' = entryOf tx := by
    funext i
    exact entryOf_congr (congrFun hs.nodes i) fun b _ => congrFun hs.bufs b
  refine ⟨?_, hs.nodes ▸ h.pending⟩
  rw [hentry]
  exact h.queued.congr hs

theorem sameQueues_req (tx : Tx) : SameQueues tx (sendTxReqMsg tx) := by
  unfold sendTxReqMsg
  split_ifs
  · exact ⟨rfl, rfl, rfl, le_rfl⟩
  · exact .refl tx

theorem sameQueues_hand (env : Env) (tx : Tx) (frame : List UInt8) :
    SameQueues tx (hwSenddata env tx frame).2 := ⟨rfl, rfl, rfl, le_rfl⟩

theorem sameQueues_free (tx : Tx) (p : Option ℕ) : SameQueues tx (yxFree tx p) :=
  ⟨rfl, rfl, rfl, le_rfl⟩

/-- A move puts a node at the end of another list. -/
theorem Shape.moveNode {a b : ListId} {xs ys : List (Fin 40)} {i : Fin 40}
    (h : Shape tx.links L) (hk : L a = xs ++ i :: ys) (hab : a ≠ b)
    (hmove : moveNode tx i b = some tx') :
    ∃ l, tx' = { tx with links := l } ∧ Shape l (moved L a b xs ys i) := by
  obtain ⟨l, hl, hs⟩ := h.move hk hab
  rw [SerialLink.moveNode, hl, Option.map_some, Option.some.injEq] at hmove
  exact ⟨l, hmove.symm, hs⟩

/-- The nodes that are in use after a move were in use before it. -/
theorem Shape.active_of_moved {l : Links Addr} {a b : ListId} {xs ys : List (Fin 40)}
    {i : Fin 40} (h : Shape l L) (hk : L a = xs ++ i :: ys) (ha : a ≠ .stFreeList) (hab : a ≠ b)
    (j : Fin 40) (hj : Active (moved L a b xs ys i) j) : Active L j := by
  rw [h.active_moved hk hab] at hj
  split_ifs at hj with hji
  · exact hji ▸ active_of_eq ha hk
  · exact hj

theorem Shape.not_mem_split {l : Links Addr} {k : ListId} {xs ys : List (Fin 40)} {i : Fin 40}
    (h : Shape l L) (hk : L k = xs ++ i :: ys) : i ∉ xs ∧ i ∉ ys := by
  have hnd := h.nodup k
  rw [hk] at hnd
  have hi := (List.nodup_middle.mp hnd).notMem
  exact ⟨fun hx => hi (List.mem_append_left ys hx), fun hy => hi (List.mem_append_right xs hy)⟩

/-- An event that leaves the wait-to-send list as it is. -/
theorem Queued.next {t' : List LinkEvent} {E' : List (ResendQueue.Entry ℕ)} (h : Queued t tx L E)
    (hnext : ∀ {W n}, ResendQueue.Run 3 3 t W E n → ResendQueue.Run 3 3 t' W E' n) :
    Queued t' tx L E' := by
  obtain ⟨n, hn, hrun⟩ := h.run
  exact ⟨h.shape, h.bufs, ⟨n, hn, hnext hrun⟩, h.fresh⟩

/-- A node leaves the resend list. -/
theorem Queued.dropped {xs ys : List (Fin 40)} {i : Fin 40} (h : Queued t tx L E)
    (hk : L .stReSendList = xs ++ i :: ys) (hmove : moveNode tx i .stFreeList = some tx') :
    ∃ l, tx' = { tx with links := l } ∧
      Queued t tx' (moved L .stReSendList .stFreeList xs ys i) E := by
  obtain ⟨l, rfl, hs⟩ := h.shape.moveNode hk (by decide) hmove
  have hwait : moved L .stReSendList .stFreeList xs ys i .stWaitTxList = L .stWaitTxList :=
    moved_other (by decide) (by decide) xs ys i
  refine ⟨l, rfl, hs, fun j hj => h.bufs j ?_, ?_, ?_⟩
  · exact h.shape.active_of_moved hk (by decide) (by decide) j hj
  · rw [hwait]
    exact h.run
  · rw [hwait]
    exact h.fresh

/-! ### Waiting to be sent -/

/-- The first node has been taken; it waits for its acknowledgement when it needs one. -/
theorem Tracks.sent {i : Fin 40} {ys : List (Fin 40)} {k : ListId} (h : Tracks t tx L)
    (hi : L .stWaitTxList = [] ++ i :: ys)
    (hk : k = if (tx.nodes i).nodeAttrib = 1 then .stReSendList else .stFreeList)
    (hmove : moveNode tx i k = some tx') :
    Tracks (t ++ [.sent (frameOf tx i) true]) tx' (moved L .stWaitTxList k [] ys i) := by
  have hne : ListId.stWaitTxList ≠ k := by
    rw [hk]
    split_ifs <;> decide
  obtain ⟨l, rfl, hs⟩ := h.queued.shape.moveNode hi hne hmove
  obtain ⟨n, hn, hrun⟩ := h.queued.run
  rw [hi, List.nil_append, List.map_cons] at hrun
  have hwait : moved L .stWaitTxList k [] ys i .stWaitTxList = ys := moved_self hne [] ys i
  have hmem : ∀ j ∈ ys, j ∈ L .stWaitTxList := fun j hj => by simp [hi, hj]
  have hsent := hrun.taken
  have hresend : moved L .stWaitTxList k [] ys i .stReSendList =
      L .stReSendList ++ if (tx.nodes i).nodeAttrib = 1 then [i] else [] := by
    split_ifs at hk ⊢
    · rw [hk, moved, Function.update_self]
    · rw [hk, moved_other (by decide) (by decide), List.append_nil]
  have hentry : (L .stReSendList).map (entryOf tx) ++
      (if (frameOf tx i).ack then [⟨frameOf tx i, 3, 3⟩] else []) =
        (moved L .stWaitTxList k [] ys i .stReSendList).map (entryOf tx) := by
    rw [hresend, List.map_append]
    by_cases hack : (tx.nodes i).nodeAttrib = 1
    · obtain ⟨hrep, htime⟩ := h.queued.fresh i (by simp [hi]) hack
      simp [frameOf, entryOf, hack, hrep, htime]
    · simp [frameOf, hack]
  refine ⟨⟨hs, fun j hj => h.queued.bufs j (h.queued.shape.active_of_moved hi (by decide) hne j hj),
    ⟨n, hn, ?_⟩, fun j hj => h.queued.fresh j (hmem j (hwait ▸ hj))⟩, fun j hj => ?_⟩
  · rw [hwait]
    rw [hentry] at hsent
    exact hsent
  · rw [hresend, List.mem_append] at hj
    rcases hj with hj | hj
    · exact h.pending j hj
    · split_ifs at hj with hack
      · rw [List.mem_singleton.mp hj]
        dsimp only
        rw [(h.queued.fresh i (by simp [hi]) hack).2]
        exact Nat.zero_lt_succ 2
      · exact absurd hj List.not_mem_nil

/-- One turn of the walk of the wait-to-send list. -/
theorem Tracks.waittxTurn {env : Env} {i : Fin 40} {ys : List (Fin 40)}
    {next : Option (Option Addr)} (h : Tracks t tx L) (hk : L .stWaitTxList = i :: ys)
    (hrun : waittxTurn env (some (.node i)) tx = some (next, tx')) :
    ∃ L', Tracks (t ++ [.sent (frameOf tx i) next.isSome]) tx' L' ∧
      ∀ tlist ∈ next, tlist = walkAt .stWaitTxList (L' .stWaitTxList) := by
  have hk' : L .stWaitTxList = [] ++ i :: ys := hk
  obtain ⟨b, hb⟩ := Option.isSome_iff_exists.mp (h.queued.bufs i (active_of_eq (by decide) hk'))
  have hnext : tx.links.next (.node i) = walkAt .stWaitTxList ys := h.queued.shape.next_node hk'
  have hhand := h.congr (sameQueues_hand env tx ((tx.bufs b).take (tx.nodes i).nodeLen))
  rw [SerialLink.waittxTurn, yxListEntry_node, Option.bind_some, hb, Option.bind_some,
    hnext] at hrun
  dsimp only at hrun
  split_ifs at hrun with hret hattr
  · obtain ⟨tx₁, hmove, heq⟩ := Option.map_eq_some_iff.mp hrun
    obtain ⟨rfl, rfl⟩ := Prod.mk.inj heq
    refine ⟨_, hhand.sent hk' (if_pos hattr).symm hmove, ?_⟩
    rw [moved_self (by decide)]
    simp
  · obtain ⟨tx₁, hmove, heq⟩ := Option.map_eq_some_iff.mp hrun
    obtain ⟨rfl, rfl⟩ := Prod.mk.inj heq
    refine ⟨_, (hhand.congr (sameQueues_free _ _)).sent hk' (if_neg hattr).symm hmove, ?_⟩
    rw [moved_self (by decide)]
    simp
  · obtain ⟨rfl, rfl⟩ := Prod.mk.inj (Option.some.inj hrun)
    obtain ⟨n, hn, hq⟩ := hhand.queued.run
    refine ⟨L, ⟨⟨hhand.queued.shape, hhand.queued.bufs, ⟨n, hn, ?_⟩, hhand.queued.fresh⟩,
      hhand.pending⟩, by simp⟩
    rw [hk, List.map_cons] at hq ⊢
    exact hq.refused

/-- The walk of the wait-to-send list. -/
theorem Tracks.waittxWalk {env : Env} {fuel : ℕ} {sta sta' : Bool} (h : Tracks t tx L)
    (hrun : waittxWalk env fuel (walkAt .stWaitTxList (L .stWaitTxList)) sta tx =
      some (sta', tx')) :
    ∃ L', Tracks (t ++ waittxTrace env fuel (walkAt .stWaitTxList (L .stWaitTxList)) tx)
      tx' L' := by
  induction fuel generalizing t tx L sta with
  | zero =>
    rw [waittxWalk.eq_def] at hrun
    split_ifs at hrun
    obtain ⟨-, rfl⟩ := Prod.mk.inj (Option.some.inj hrun)
    exact ⟨L, by rwa [waittxTrace, List.append_nil]⟩
  | succ fuel ih =>
    cases hk : L .stWaitTxList with
    | nil =>
      rw [hk, walkAt_nil, waittxWalk.eq_def, if_pos rfl] at hrun
      obtain ⟨-, rfl⟩ := Prod.mk.inj (Option.some.inj hrun)
      exact ⟨L, by rwa [waittxTrace, walkAt_nil, if_pos rfl, List.append_nil]⟩
    | cons i ys =>
      rw [hk, walkAt_cons, waittxWalk_turn env fuel (by simp)] at hrun
      obtain ⟨⟨next, tx₁⟩, hturn, hrest⟩ := Option.bind_eq_some_iff.mp hrun
      obtain ⟨L₁, h₁, hnext⟩ := h.waittxTurn hk hturn
      rw [waittxTrace, walkAt_cons, if_neg (by simp), yxListEntry_node, hturn]
      cases next with
      | none =>
        obtain ⟨-, rfl⟩ := Prod.mk.inj (Option.some.inj hrest)
        exact ⟨L₁, h₁⟩
      | some tlist =>
        obtain rfl := hnext tlist rfl
        obtain ⟨L', h'⟩ := ih h₁ hrest
        exact ⟨L', by rwa [List.append_assoc] at h'⟩

/-! ### Acknowledgements -/

/-- What the walk of the resend list for a command leaves. -/
theorem delRepeatWalk_eq {command fuel : ℕ} {xs ys : List (Fin 40)} (h : Shape tx.links L)
    (hk : L .stReSendList = xs ++ ys)
    (hrun : delRepeatWalk command fuel (walkAt .stReSendList ys) tx = some tx') :
    tx' = tx ∧ (∀ i ∈ ys, (frameOf tx i).key ≠ command) ∨
      ∃ zs i ws, ys = zs ++ i :: ws ∧ (∀ j ∈ zs, (frameOf tx j).key ≠ command) ∧
        (frameOf tx i).key = command ∧
        moveNode (yxFree tx (tx.nodes i).databuf) i .stFreeList = some tx' := by
  induction ys generalizing xs fuel with
  | nil =>
    rw [delRepeatWalk.eq_def, walkAt_nil, if_pos rfl] at hrun
    exact .inl ⟨(Option.some.inj hrun).symm, by simp⟩
  | cons i ys ih =>
    cases fuel with
    | zero => simp [delRepeatWalk.eq_def, walkAt_cons] at hrun
    | succ fuel =>
      rw [delRepeatWalk, walkAt_cons, if_neg (by simp), yxListEntry_node, Option.bind_some,
        h.next_node hk] at hrun
      obtain ⟨b, hb, hrun⟩ := Option.bind_eq_some_iff.mp hrun
      have hkey : (frameOf tx i).key = headCmd (tx.bufs b) := by
        rw [frameOf, hb, Option.elim_some]
      split_ifs at hrun with hcmd
      · exact .inr ⟨[], i, ys, rfl, by simp, hkey.trans hcmd, hrun⟩
      · have hother : (frameOf tx i).key ≠ command := hkey ▸ hcmd
        rcases ih (hk.trans (List.append_cons xs i ys)) hrun with ⟨heq, hnone⟩ |
          ⟨zs, j, ws, rfl, hzs, hj, hmove⟩
        · exact .inl ⟨heq, List.forall_mem_cons.mpr ⟨hother, hnone⟩⟩
        · exact .inr ⟨i :: zs, j, ws, rfl, List.forall_mem_cons.mpr ⟨hother, hzs⟩, hj, hmove⟩

/-- The first node with the command leaves the resend list. -/
theorem Tracks.acknowledged {command : ℕ} {xs ys : List (Fin 40)} {i : Fin 40}
    (h : Tracks t tx L) (hk : L .stReSendList = xs ++ i :: ys)
    (hxs : ∀ j ∈ xs, (frameOf tx j).key ≠ command) (hi : (frameOf tx i).key = command)
    (hmove : moveNode tx i .stFreeList = some tx') :
    Tracks (t ++ [.received command]) tx' (moved L .stReSendList .stFreeList xs ys i) := by
  have hself : moved L .stReSendList .stFreeList xs ys i .stReSendList = xs ++ ys :=
    moved_self (by decide) xs ys i
  have herase : ((L .stReSendList).map (entryOf tx)).eraseP (fun e => e.frame.key = command) =
      (xs ++ ys).map (entryOf tx) := by
    have hxs' : ∀ e ∈ xs.map (entryOf tx), ¬ decide (e.frame.key = command) = true := by
      simpa [entryOf] using hxs
    rw [hk, List.map_append, List.map_cons, List.eraseP_append_right _ hxs', List.map_append]
    simp [entryOf, hi]
  have hqueued : Queued (t ++ [.received command]) tx L ((xs ++ ys).map (entryOf tx)) :=
    herase ▸ h.queued.next fun hrun => hrun.received command
  obtain ⟨l, rfl, hdropped⟩ := hqueued.dropped hk hmove
  refine ⟨hself.symm ▸ hdropped, fun j hj => h.pending j ?_⟩
  rw [hself] at hj
  rw [hk]
  exact ((List.sublist_cons_self i ys).append_left xs).subset hj

/-- A received command ends the first entry with that command. -/
theorem Tracks.delRepeatlistbycmd {command : ℕ} (h : Tracks t tx L)
    (hrun : delRepeatlistbycmd command tx = some tx') :
    ∃ L', Tracks (t ++ [.received command]) tx' L' := by
  rw [SerialLink.delRepeatlistbycmd, h.queued.shape.walk_start] at hrun
  rcases delRepeatWalk_eq h.queued.shape (List.nil_append _).symm hrun with ⟨rfl, hnone⟩ |
    ⟨xs, i, ys, hk, hxs, hi, hmove⟩
  · have herase : ((L .stReSendList).map (entryOf tx')).eraseP (fun e => e.frame.key = command) =
        (L .stReSendList).map (entryOf tx') :=
      List.eraseP_of_forall_not (by simpa [entryOf] using hnone)
    exact ⟨L, herase ▸ h.queued.next fun hrun => hrun.received command, h.pending⟩
  · exact ⟨_, (h.congr (sameQueues_free tx (tx.nodes i).databuf)).acknowledged hk hxs hi hmove⟩

/-! ### Rounds -/

/-- The node `i` with other counters. -/
def setCounters (tx : Tx) (i : Fin 40) (rounds time : ℕ) : Tx :=
  { tx with nodes := Function.update tx.nodes i { tx.nodes i with
      nodeTime := time, nodeRepeat := rounds } }

theorem frameOf_setCounters (tx : Tx) (i j : Fin 40) (rounds time : ℕ) :
    frameOf (setCounters tx i rounds time) j = frameOf tx j := by
  by_cases hj : j = i
  · simp [frameOf, setCounters, hj]
  · simp [frameOf, setCounters, hj]

theorem entryOf_setCounters (tx : Tx) (i : Fin 40) (rounds time : ℕ) :
    entryOf (setCounters tx i rounds time) i = ⟨frameOf tx i, rounds, time⟩ := by
  rw [entryOf, frameOf_setCounters]
  simp [setCounters]

theorem entries_setCounters {i : Fin 40} {js : List (Fin 40)} (hi : i ∉ js) (rounds time : ℕ) :
    js.map (entryOf (setCounters tx i rounds time)) = js.map (entryOf tx) := by
  refine List.map_congr_left fun j hj => ?_
  have hji : j ≠ i := fun heq => hi (heq ▸ hj)
  rw [entryOf, frameOf_setCounters]
  simp [entryOf, setCounters, hji]

theorem Queued.setCounters {i : Fin 40} (h : Queued t tx L E) (hi : i ∈ L .stReSendList)
    (rounds time : ℕ) : Queued t (SerialLink.setCounters tx i rounds time) L E := by
  have hframe : frameOf (SerialLink.setCounters tx i rounds time) = frameOf tx :=
    funext fun j => frameOf_setCounters tx i j rounds time
  have hdata (j : Fin 40) :
      ((SerialLink.setCounters tx i rounds time).nodes j).databuf = (tx.nodes j).databuf := by
    by_cases hj : j = i <;> simp [SerialLink.setCounters, hj]
  refine ⟨h.shape, fun j hj => ?_, ?_, fun j hj => ?_⟩
  · rw [hdata]
    exact h.bufs j hj
  · rw [hframe]
    exact h.run
  · have hji : j ≠ i := by
      rintro rfl
      exact absurd (h.shape.unique hj hi) (by decide)
    simpa [SerialLink.setCounters, hji] using h.fresh j hj

/-- The walk of the resend list has passed `xs`; the time of `ys` is still to be counted. -/
structure Counting (t : List LinkEvent) (tx : Tx) (L : Lists) (xs ys : List (Fin 40)) : Prop where
  split : L .stReSendList = xs ++ ys
  queued : Queued t tx L
    (xs.map (entryOf tx) ++ (ys.map (entryOf tx)).map ResendQueue.Entry.tick)
  pending : ∀ i ∈ xs ++ ys, 0 < (tx.nodes i).nodeTime

theorem Tracks.timeout (h : Tracks t tx L) :
    Counting (t ++ [.timeout]) tx L [] (L .stReSendList) :=
  ⟨rfl, h.queued.next fun hrun => hrun.timeout (by simpa [entryOf] using h.pending), h.pending⟩

theorem Counting.done {xs : List (Fin 40)} (h : Counting t tx L xs []) : Tracks t tx L := by
  obtain ⟨hk, hq, hp⟩ := h
  rw [List.append_nil] at hk hp
  rw [← hk] at hp
  refine ⟨?_, hp⟩
  rw [hk]
  simpa using hq

/-- The node after `xs` gets other counters, and has its entry for them. -/
theorem Queued.counted {xs ys : List (Fin 40)} {i : Fin 40} {rounds time : ℕ}
    (h : Queued t tx L (xs.map (entryOf tx) ++
      ⟨frameOf tx i, rounds, time⟩ :: (ys.map (entryOf tx)).map ResendQueue.Entry.tick))
    (hk : L .stReSendList = xs ++ i :: ys) (hp : ∀ j ∈ xs ++ ys, 0 < (tx.nodes j).nodeTime)
    (htime : 0 < time) :
    Counting t (SerialLink.setCounters tx i rounds time) L (xs ++ [i]) ys := by
  obtain ⟨hxs, hys⟩ := h.shape.not_mem_split hk
  refine ⟨hk.trans (List.append_cons xs i ys), ?_, fun j hj => ?_⟩
  · rw [List.map_append, List.map_singleton, entryOf_setCounters, entries_setCounters hxs,
      entries_setCounters hys, ← List.append_cons]
    exact h.setCounters (by simp [hk]) rounds time
  · by_cases hji : j = i
    · simpa [SerialLink.setCounters, hji] using htime
    · have hj' : j ∈ xs ++ ys := by simpa [hji] using hj
      simpa [SerialLink.setCounters, hji] using hp j hj'

/-- The node after `xs` gets other counters, and leaves the list. -/
theorem Queued.ended {xs ys : List (Fin 40)} {i : Fin 40} {rounds time : ℕ}
    (h : Queued t tx L
      (xs.map (entryOf tx) ++ (ys.map (entryOf tx)).map ResendQueue.Entry.tick))
    (hk : L .stReSendList = xs ++ i :: ys) (hp : ∀ j ∈ xs ++ ys, 0 < (tx.nodes j).nodeTime)
    (hmove : moveNode (SerialLink.setCounters tx i rounds time) i .stFreeList = some tx') :
    Counting t tx' (moved L .stReSendList .stFreeList xs ys i) xs ys := by
  obtain ⟨hxs, hys⟩ := h.shape.not_mem_split hk
  obtain ⟨l, rfl, hq⟩ := (h.setCounters (by simp [hk]) rounds time).dropped hk hmove
  rw [← entries_setCounters hxs rounds time, ← entries_setCounters hys rounds time] at hq
  refine ⟨moved_self (by decide) xs ys i, hq, fun j hj => ?_⟩
  have hji : j ≠ i := by
    rintro rfl
    exact (List.mem_append.mp hj).elim hxs hys
  simpa [SerialLink.setCounters, hji] using hp j hj

/-- One turn of the walk of the resend list. -/
theorem Counting.turn {env : Env} {xs ys : List (Fin 40)} {i : Fin 40} {ok : Option Bool}
    {next : Option Addr} (h : Counting t tx L xs (i :: ys))
    (hrun : repeatTurn env (some (.node i)) tx = some (ok, next, tx')) :
    ∃ L' xs', Counting (t ++ (ok.map fun ok => ResendQueue.Event.resent (frameOf tx i) ok).toList)
      tx' L' xs' ys ∧ next = walkAt .stReSendList ys := by
  obtain ⟨hk, hq, hp⟩ := h
  have hnext : tx.links.next (.node i) = walkAt .stReSendList ys := hq.shape.next_node hk
  have hp' : ∀ j ∈ xs ++ ys, 0 < (tx.nodes j).nodeTime := fun j hj =>
    hp j (((List.sublist_cons_self i ys).append_left xs).subset hj)
  rw [repeatTurn, yxListEntry_node, Option.bind_some, hnext] at hrun
  dsimp only at hrun
  by_cases htime : (tx.nodes i).nodeTime - 1 = 0
  · rw [if_pos htime] at hrun
    obtain ⟨b, -, hrun⟩ := Option.bind_eq_some_iff.mp hrun
    set frame := (tx.bufs b).take (tx.nodes i).nodeLen
    set tx₁ := (hwSenddata env tx frame).2
    set taken := decide (0 < (hwSenddata env tx frame).1)
    have hround : Queued (t ++ [.resent (frameOf tx i) taken]) tx₁ L
        (xs.map (entryOf tx₁) ++ ((entryOf tx i).tick).again 3 ++
          (ys.map (entryOf tx₁)).map ResendQueue.Entry.tick) :=
      (hq.congr (sameQueues_hand env tx frame)).next fun hrun => hrun.resent htime taken
    by_cases hlast : (tx.nodes i).nodeRepeat - 1 = 0
    · rw [if_pos hlast] at hrun
      obtain ⟨tx₂, hmove, heq⟩ := Option.map_eq_some_iff.mp hrun
      obtain ⟨rfl, hrest⟩ := Prod.mk.inj heq
      obtain ⟨rfl, rfl⟩ := Prod.mk.inj hrest
      have hagain : ((entryOf tx i).tick).again 3 = [] := if_pos (Nat.sub_eq_zero_iff_le.mp hlast)
      rw [hagain, List.append_nil] at hround
      exact ⟨_, xs, hround.ended hk hp' hmove, rfl⟩
    · rw [if_neg hlast] at hrun
      obtain ⟨rfl, hrest⟩ := Prod.mk.inj (Option.some.inj hrun)
      obtain ⟨rfl, rfl⟩ := Prod.mk.inj hrest
      have hagain : ((entryOf tx i).tick).again 3 =
          [⟨frameOf tx i, (tx.nodes i).nodeRepeat - 1, 3⟩] :=
        if_neg fun hle => hlast (Nat.sub_eq_zero_iff_le.mpr hle)
      rw [hagain, List.append_assoc] at hround
      exact ⟨L, xs ++ [i], hround.counted hk hp' (Nat.zero_lt_succ 2), rfl⟩
  · rw [if_neg htime] at hrun
    obtain ⟨rfl, hrest⟩ := Prod.mk.inj (Option.some.inj hrun)
    obtain ⟨rfl, rfl⟩ := Prod.mk.inj hrest
    refine ⟨L, xs ++ [i], Queued.counted ?_ hk hp' (by omega), rfl⟩
    simpa [entryOf, ResendQueue.Entry.tick] using hq

/-- The walk of the resend list. -/
theorem Counting.walk {env : Env} {fuel : ℕ} {xs ys : List (Fin 40)} {sta sta' : Bool}
    (h : Counting t tx L xs ys)
    (hrun : repeatWalk env fuel (walkAt .stReSendList ys) sta tx = some (sta', tx')) :
    ∃ L', Tracks (t ++ repeatTrace env fuel (walkAt .stReSendList ys) tx) tx' L' := by
  induction ys generalizing t tx L xs fuel sta with
  | nil =>
    rw [walkAt_nil, repeatWalk.eq_def, if_pos rfl] at hrun
    obtain ⟨-, rfl⟩ := Prod.mk.inj (Option.some.inj hrun)
    have hnone : repeatTrace env fuel (walkAt .stReSendList []) tx = [] := by
      cases fuel <;> simp [repeatTrace, walkAt_nil]
    exact ⟨L, by rw [hnone, List.append_nil]; exact h.done⟩
  | cons i ys ih =>
    cases fuel with
    | zero => simp [repeatWalk.eq_def, walkAt_cons] at hrun
    | succ fuel =>
      rw [walkAt_cons, repeatWalk_turn env fuel (by simp)] at hrun
      obtain ⟨⟨ok, next, tx₁⟩, hturn, hrest⟩ := Option.bind_eq_some_iff.mp hrun
      obtain ⟨L₁, xs', h₁, rfl⟩ := h.turn hturn
      obtain ⟨L', h'⟩ := ih h₁ hrest
      refine ⟨L', ?_⟩
      rw [repeatTrace, walkAt_cons, if_neg (by simp), yxListEntry_node, hturn]
      rwa [List.append_assoc] at h'

/-! ### Sends -/

/-- A buffer in use was obtained by an earlier allocation. -/
theorem Tracks.buf_lt {i : Fin 40} (h : Tracks t tx L) (hi : Active L i) :
    ∀ b ∈ (tx.nodes i).databuf, b < tx.mallocCalls := by
  intro b hb
  obtain ⟨n, hn, hrun⟩ := h.queued.run
  have hid : (frameOf tx i).id = b := by
    rw [frameOf, Option.mem_def.mp hb]
    rfl
  refine (hrun.increasing.2 b ?_).trans_le hn
  rw [ResendQueue.ids, List.mem_append, List.map_map, List.map_map]
  rcases hi with hi | hi
  · exact .inr (hid ▸ List.mem_map_of_mem hi)
  · exact .inl (hid ▸ List.mem_map_of_mem hi)

/-- The first free node gets the frame, and goes to the end of the wait-to-send list. -/
theorem Tracks.queueItem {tx₁ : Tx} {item : List UInt8} {node : SerialItemNode}
    (h : Tracks t tx L) (hrun : queueItem tx₁ tx.mallocCalls item node = some tx')
    (hlinks : tx₁.links = tx.links) (hnodes : tx₁.nodes = tx.nodes) (hbufs : tx₁.bufs = tx.bufs)
    (hcalls : tx₁.mallocCalls = tx.mallocCalls + 1)
    (hnode : node.nodeAttrib = 1 → node.nodeRepeat = 3 ∧ node.nodeTime = 3) :
    ∃ L', Tracks t tx' L' := by
  obtain ⟨i, hentry, hrun⟩ := Option.bind_eq_some_iff.mp hrun
  obtain ⟨tx₂, hmove, rfl⟩ := Option.map_eq_some_iff.mp hrun
  obtain ⟨ys, hk⟩ : ∃ ys, L .stFreeList = [] ++ i :: ys := by
    rw [hlinks, h.queued.shape.walk_start] at hentry
    cases hfree : L .stFreeList with
    | nil => simp [hfree, walkAt_nil, yxListEntry] at hentry
    | cons j ys =>
      rw [hfree, walkAt_cons, yxListEntry_node, Option.some.injEq] at hentry
      exact ⟨ys, by rw [hentry, List.nil_append]⟩
  have hold (j : Fin 40) (hj : Active L j) : j ≠ i := by
    rintro rfl
    exact h.queued.shape.not_active (by simp [hk]) hj
  obtain ⟨l, rfl, hs⟩ := Shape.moveNode (hlinks ▸ h.queued.shape) hk (by decide) hmove
  set tx₂ : Tx := { tx₁ with
    nodes := Function.update tx₁.nodes i { node with databuf := some tx.mallocCalls }
    bufs := Function.update tx₁.bufs tx.mallocCalls item
    links := l } with htx₂
  set L' := moved L .stFreeList .stWaitTxList [] ys i with hL'
  have hwait : L' .stWaitTxList = L .stWaitTxList ++ [i] := by
    rw [hL', moved, Function.update_self]
  have hresend : L' .stReSendList = L .stReSendList := moved_other (by decide) (by decide) [] ys i
  have hsame (j : Fin 40) (hj : Active L j) : tx₂.nodes j = tx.nodes j := by
    simp only [htx₂, hnodes, Function.update_of_ne (hold j hj)]
  have hframe (j : Fin 40) (hj : Active L j) : frameOf tx₂ j = frameOf tx j := by
    refine frameOf_congr (hsame j hj) fun b hb => ?_
    simp only [htx₂, hbufs, Function.update_of_ne (h.buf_lt hj b hb).ne]
  have hentries : (L' .stReSendList).map (entryOf tx₂) = (L .stReSendList).map (entryOf tx) := by
    rw [hresend]
    refine List.map_congr_left fun j hj => ?_
    rw [entryOf, entryOf, hframe j (.inr hj), hsame j (.inr hj)]
  obtain ⟨n, hn, hq⟩ := h.queued.run
  have hframes : (L' .stWaitTxList).map (frameOf tx₂) =
      (L .stWaitTxList).map (frameOf tx) ++ [frameOf tx₂ i] := by
    rw [hwait, List.map_append, List.map_singleton,
      List.map_congr_left fun j hj => hframe j (.inl hj)]
  have hid : (frameOf tx₂ i).id = tx.mallocCalls := by simp [frameOf, htx₂]
  have htracks : Tracks t tx₂ L' := by
    refine ⟨⟨hs, fun j hj => ?_, ⟨_, ?_, hframes ▸ hentries ▸ hq.queue (hid ▸ hn)⟩, fun j hj => ?_⟩,
      fun j hj => ?_⟩
    · by_cases hji : j = i
      · simp [htx₂, hji]
      · have hj' : Active L j := by
          rwa [h.queued.shape.active_moved hk (by decide), if_neg hji] at hj
        rw [hsame j hj']
        exact h.queued.bufs j hj'
    · rw [hid]
      exact hcalls.ge
    · rw [hwait, List.mem_append, List.mem_singleton] at hj
      rcases hj with hj | rfl
      · rw [hsame j (.inl hj)]
        exact h.queued.fresh j hj
      · simpa [htx₂] using hnode
    · rw [hresend] at hj
      rw [hsame j (.inr hj)]
      exact h.pending j hj
  exact ⟨L', htracks.congr (sameQueues_req tx₂)⟩

end Tracks

/-- The lists follow a run with the trace `t`. -/
def Follows (t : List LinkEvent) (tx : Tx) : Prop := ∃ L, Tracks t tx L

/-- Sends do nothing that is in the trace. -/
theorem follows_sendRule : SendRule fun tx tx' => ∀ t, Follows t tx → Follows t tx' where
  refl := fun _ _ => id
  trans := fun h h' t ht => h' t (h t ht)
  hand := fun _ _ _ _ ⟨L, h⟩ => ⟨L, h.congr ⟨rfl, rfl, rfl, le_rfl⟩⟩
  noMemory := fun _ _ ⟨L, h⟩ => ⟨L, h.congr ⟨rfl, rfl, rfl, Nat.le_succ _⟩⟩
  queue := fun hnode hq _ ⟨_, h⟩ => h.queueItem hq rfl rfl rfl rfl hnode

end Tulux.SerialLink
