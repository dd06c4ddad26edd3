import Tulux.SerialLink.Invariants
import Tulux.SerialLink.Retransmission

/-! The runs of the link, as runs of the resend queue: a frame that needs an acknowledgement is
sent once, and resent for three rounds at most. -/
namespace Tulux.SerialLink
open CircularList

/-- The walks do the events `w`, and then frames are received. -/
def Happens (w : List LinkEvent) (link link' : Link) : Prop :=
  ∃ fs, link'.accepted = link.accepted ++ fs ∧
    ∀ t, Follows t link.tx → Follows (t ++ (w ++ receipts fs)) link'.tx

namespace Happens
variable {w : List LinkEvent} {link link' link'' : Link}

theorem trans (h : Happens w link link') (h' : Happens [] link' link'') :
    Happens w link link'' := by
  obtain ⟨fs, hfs, hw⟩ := h
  obtain ⟨gs, hgs, hnext⟩ := h'
  refine ⟨fs ++ gs, by rw [hgs, hfs, List.append_assoc], fun t ht => ?_⟩
  have hall := hnext _ (hw t ht)
  rwa [List.nil_append, List.append_assoc, List.append_assoc, receipts, receipts,
    ← List.map_append] at hall

/-- No frame is received. -/
theorem of_tx (hacc : link'.accepted = link.accepted)
    (hw : ∀ t L, Tracks t link.tx L → ∃ L', Tracks (t ++ w) link'.tx L') :
    Happens w link link' := by
  refine ⟨[], by rw [hacc, List.append_nil], fun t ht => ?_⟩
  obtain ⟨L, h⟩ := ht
  obtain ⟨L', h'⟩ := hw t L h
  exact ⟨L', by rwa [receipts, List.map_nil, List.append_nil]⟩

/-- Nothing happens on the lists. -/
theorem of_same (hacc : link'.accepted = link.accepted) (hs : SameQueues link.tx link'.tx) :
    Happens [] link link' :=
  of_tx hacc fun t L h => ⟨L, by rw [List.append_nil]; exact h.congr hs⟩

theorem refl (link : Link) : Happens [] link link := of_same rfl (.refl link.tx)

/-- The step begins in a state with the same queues. -/
theorem after (h : Happens w link' link'') (hacc : link'.accepted = link.accepted)
    (hs : SameQueues link.tx link'.tx) : Happens w link link'' := by
  obtain ⟨fs, hfs, hw⟩ := h
  exact ⟨fs, by rw [hfs, hacc], fun t ⟨L, ht⟩ => hw t ⟨L, ht.congr hs⟩⟩

theorem of_quiet (hacc : link'.accepted = link.accepted)
    (hw : ∀ t, Follows t link.tx → Follows t link'.tx) : Happens [] link link' :=
  ⟨[], by rw [hacc, List.append_nil], fun t ht => by simpa [receipts] using hw t ht⟩

end Happens

section Steps
variable {env : Env} {link link' : Link}

theorem happens_callRule (env : Env) : CallRule env (Happens []) :=
  ⟨.refl, .trans, fun h => .of_quiet (runCallback_accepted h) (follows_sendRule.run h)⟩

theorem rxFrame_happens {frame : List UInt8} {data : UInt8}
    (h : rxFrame env frame data link = some link') : Happens [] link link' := by
  obtain ⟨tx₁, hdel, h⟩ := Option.bind_eq_some_iff.mp h
  have hreceived : Happens [] link
      { link with tx := tx₁, accepted := link.accepted ++ [frame] } :=
    ⟨[frame], rfl, fun t ⟨L, ht⟩ => ht.delRepeatlistbycmd hdel⟩
  dsimp only at h
  split_ifs at h
  · cases h
    exact hreceived.trans (.of_same rfl ⟨rfl, rfl, rfl, le_rfl⟩)
  · cases h
    exact hreceived.trans (.of_same rfl ⟨rfl, rfl, rfl, le_rfl⟩)
  · cases h
    exact hreceived.trans (.of_same rfl ⟨rfl, rfl, rfl, le_rfl⟩)
  · exact hreceived.trans ((happens_callRule env).analyse h)

theorem happens_frameRule (env : Env) : FrameRule env (Happens []) :=
  ⟨.refl, .trans, rxFrame_happens⟩

theorem rxPass_happens {bytes : List UInt8} (h : rxPass env bytes link = some link') :
    Happens [] link link' := by
  obtain ⟨⟨off, link₁⟩, hrun, rfl⟩ := Option.map_eq_some_iff.mp h
  have hshift : Happens [] link₁ (rxShift off link₁) := .refl link₁
  have hrec := (happens_frameRule env).rxrec hrun
  exact (hrec.after rfl (.refl _)).trans hshift

theorem rxAnalyseLoop_happens {ring : List UInt8} {arrivals : List (List UInt8)}
    (h : rxAnalyseLoop env ring arrivals link = some link') : Happens [] link link' := by
  fun_induction rxAnalyseLoop env ring arrivals link with
  | case1 ring arrivals link here bytes hnone =>
    cases h
    exact .refl link
  | case2 ring arrivals link here bytes hsome ih =>
    obtain ⟨link₁, hpass, h⟩ := Option.bind_eq_some_iff.mp h
    exact (rxPass_happens hpass).trans (ih link₁ h)

/-! ### The state machine -/

theorem stateExit_happens {s : SerialState} (h : stateExit env s link = some link') :
    Happens [] link link' := by
  cases s with
  | disconnect =>
    have hflag : Happens [] link { link with uConnectFlag := .connect } := .refl link
    exact hflag.trans ((happens_callRule env).event h)
  | connect =>
    obtain ⟨link₁, hrun, rfl⟩ := Option.map_eq_some_iff.mp h
    have hflag : Happens [] link₁ { link₁ with uConnectFlag := .wait } := .refl link₁
    exact ((happens_callRule env).event hrun).trans hflag

theorem statetrans_happens {target : SerialState} (h : statetrans env target link = some link') :
    Happens [] link link' := by
  obtain ⟨link₁, hrun, rfl⟩ := Option.map_eq_some_iff.mp h
  have hnext : Happens [] link₁ { link₁ with next := some target } := .refl link₁
  exact (stateExit_happens hrun).trans hnext

theorem stateEntry_happens (s : SerialState) (link : Link) :
    Happens [] link (stateEntry s link) := by
  cases s with
  | disconnect => exact .refl link
  | connect =>
    refine .of_same rfl ?_
    dsimp only [stateEntry]
    split_ifs
    · exact .refl _
    · exact sameQueues_req link.tx

theorem takeTransition_happens (handled : Bool) (link : Link) :
    Happens [] link (takeTransition handled link) := by
  unfold takeTransition
  split_ifs
  · split
    · rename_i s _
      have hentry : Happens [] (stateEntry s link)
          { stateEntry s link with curr := s, next := none } := .refl _
      exact (stateEntry_happens s link).trans hentry
    · exact .refl link
  · exact .refl link

/-- The walk of the wait-to-send list at a TX_DATA message. -/
theorem sendWaittxlistnode_happens {connected sta : Bool} {tx' : Tx}
    (h : sendWaittxlistnode env connected link.tx = some (sta, tx')) :
    Happens (if connected then
        waittxTrace env walkFuel (link.tx.links.next (.head .stWaitTxList)) link.tx else [])
      link { link with tx := tx' } := by
  unfold sendWaittxlistnode at h
  split_ifs at h ⊢
  · obtain ⟨⟨sta₁, tx₁⟩, hwalk, heq⟩ := Option.map_eq_some_iff.mp h
    obtain ⟨-, rfl⟩ := Prod.mk.inj heq
    refine .of_tx rfl fun t L ht => ?_
    rw [ht.queued.shape.walk_start] at hwalk ⊢
    obtain ⟨L', h'⟩ := ht.waittxWalk hwalk
    refine ⟨L', ?_⟩
    dsimp only
    split_ifs
    · exact h'
    · exact h'.congr (sameQueues_req tx₁)
  · cases h
    exact .refl link

/-- The walk of the resend list at a REPEAT_TIMEOUT message. -/
theorem sendRepeatlistnode_happens {disconnected sta : Bool} {tx' : Tx}
    (h : sendRepeatlistnode env disconnected link.tx = some (sta, tx')) :
    Happens (if disconnected then [] else
        .timeout :: repeatTrace env walkFuel (link.tx.links.next (.head .stReSendList)) link.tx)
      link { link with tx := tx' } := by
  unfold sendRepeatlistnode at h
  split_ifs at h ⊢
  · cases h
    exact .refl link
  · refine .of_tx rfl fun t L ht => ?_
    rw [ht.queued.shape.walk_start] at h ⊢
    obtain ⟨L', h'⟩ := ht.timeout.walk h
    exact ⟨L', by rwa [List.append_assoc] at h'⟩

theorem msgTrace_rxRcv (env : Env) (link : Link) : msgTrace env .rxRcv link = [] := by
  unfold msgTrace
  split_ifs <;> rfl

theorem stateOnEvent_happens {msg : SerialMsg} {arrivals : List (List UInt8)} {handled : Bool}
    (h : stateOnEvent env msg arrivals link = some (handled, link')) :
    Happens (msgTrace env msg link) link link' := by
  unfold stateOnEvent at h
  unfold msgTrace
  cases hc : link.curr with
  | disconnect =>
    rw [if_neg (by decide)]
    rw [hc] at h
    dsimp only at h
    cases msg with
    | rxRcv =>
      obtain ⟨link₁, hrx, h⟩ := Option.bind_eq_some_iff.mp h
      split_ifs at h
      · obtain ⟨link₂, htrans, heq⟩ := Option.map_eq_some_iff.mp h
        cases heq
        exact (rxAnalyseLoop_happens hrx).trans (statetrans_happens htrans)
      · cases h
        exact rxAnalyseLoop_happens hrx
    | timeConnectTimeout =>
      obtain ⟨link₁, hevent, heq⟩ := Option.map_eq_some_iff.mp h
      cases heq
      have hflag : Happens [] link { link with uConnectFlag := .disconnect } := .refl link
      exact hflag.trans ((happens_callRule env).event hevent)
    | _ =>
      cases h
      exact .refl link
  | connect =>
    rw [if_pos rfl]
    rw [hc] at h
    dsimp only at h ⊢
    cases msg with
    | rxRcv =>
      obtain ⟨link₁, hrx, heq⟩ := Option.map_eq_some_iff.mp h
      cases heq
      exact rxAnalyseLoop_happens hrx
    | timeLinkAckTimerout =>
      obtain ⟨link₁, htrans, heq⟩ := Option.map_eq_some_iff.mp h
      cases heq
      exact statetrans_happens htrans
    | timeRepeatTimeout =>
      obtain ⟨⟨sta, tx'⟩, hrun, heq⟩ := Option.map_eq_some_iff.mp h
      cases heq
      simpa using sendRepeatlistnode_happens hrun
    | txData =>
      obtain ⟨⟨sta, tx'⟩, hrun, heq⟩ := Option.map_eq_some_iff.mp h
      cases heq
      simpa using sendWaittxlistnode_happens hrun
    | _ =>
      cases h
      exact .refl link

theorem handle_happens {msg : SerialMsg} {arrivals : List (List UInt8)}
    (h : yxSerialLinkHandle env msg arrivals link = some link') :
    Happens (msgTrace env msg link) link link' := by
  obtain ⟨⟨handled, link₁⟩, hrun, rfl⟩ := Option.map_eq_some_iff.mp h
  exact (stateOnEvent_happens hrun).trans (takeTransition_happens handled link₁)

/-! ### Runs -/

theorem start_happens (link : Link) : Happens [] link (yxSerialLinkStart link) := by
  unfold yxSerialLinkStart
  split_ifs
  · exact .refl link
  · have hentry := stateEntry_happens link.curr { link with uConnectFlag := .disconnect }
    exact hentry.after rfl (.refl _)

theorem linkStep_happens {op : LinkOp} (hop : op.restarts = false)
    (h : linkStep env link op = some link') : Happens (walkTrace env link op) link link' := by
  cases op with
  | send args =>
    obtain ⟨⟨sta, tx'⟩, hrun, rfl⟩ := Option.map_eq_some_iff.mp h
    exact .of_quiet rfl (follows_sendRule.send hrun)
  | send2List needAck args =>
    obtain ⟨⟨sta, tx'⟩, hrun, rfl⟩ := Option.map_eq_some_iff.mp h
    exact .of_quiet rfl (follows_sendRule.send2List hrun)
  | handle msg arrivals => exact handle_happens h
  | rxInd =>
    cases h
    unfold rxIndCb
    split_ifs
    · exact .of_same rfl ⟨rfl, rfl, rfl, le_rfl⟩
    · exact .refl link
  | process arrivals =>
    rw [linkStep, yxSerialLinkProcess] at h
    unfold walkTrace
    cases hq : link.tx.queue with
    | nil =>
      rw [hq] at h
      cases h
      exact .refl link
    | cons msg queue =>
      rw [hq] at h
      dsimp only at h ⊢
      cases msg with
      | txData => exact (handle_happens h).after rfl ⟨rfl, rfl, rfl, le_rfl⟩
      | rxRcv =>
        have hrx := handle_happens h
        rw [msgTrace_rxRcv] at hrx
        exact hrx.after rfl ⟨rfl, rfl, rfl, le_rfl⟩
      | _ =>
        cases h
        exact .of_same rfl ⟨rfl, rfl, rfl, le_rfl⟩
  | start =>
    cases h
    exact start_happens link
  | reset => exact absurd hop (by decide)
  | sleep => exact absurd hop (by decide)
  | wakeUp =>
    cases h
    exact start_happens link

/-- The trace of a step continues the trace of a run. -/
theorem Happens.follows {w t : List LinkEvent} (h : Happens w link link')
    (ht : Follows t link.tx) :
    Follows (t ++ (w ++ receipts (link'.accepted.drop link.accepted.length))) link'.tx := by
  obtain ⟨fs, hfs, hw⟩ := h
  rw [hfs, List.drop_left]
  exact hw t ht

theorem opsTrace_follows {ops : List LinkOp} {t : List LinkEvent}
    (hops : ∀ op ∈ ops, op.restarts = false) (ht : Follows t link.tx)
    (h : ops.foldlM (linkStep env) link = some link') :
    Follows (t ++ opsTrace env link ops) link'.tx := by
  induction ops generalizing link t with
  | nil =>
    cases h
    rwa [opsTrace, List.append_nil]
  | cons op ops ih =>
    obtain ⟨hop, hops⟩ := List.forall_mem_cons.mp hops
    rw [List.foldlM_cons] at h
    obtain ⟨link₁, hstep, h⟩ := Option.bind_eq_some_iff.mp h
    have hrest := ih hops ((linkStep_happens hop hstep).follows ht) h
    rw [opsTrace, hstep]
    rwa [List.append_assoc] at hrest

/-- `Yx_Serial_Link_Init` may queue its first frame. -/
theorem init_follows (h : yxSerialLinkInit env = some link) : Follows [] link.tx := by
  obtain ⟨l, hl, hs⟩ := initLists_shape ⟨fun _ => none, fun _ => none⟩
  rw [yxSerialLinkInit, hl, Option.bind_some] at h
  obtain ⟨⟨sta, tx⟩, hsend, rfl⟩ := Option.map_eq_some_iff.mp h
  have hzero : Tracks [] (zeroTx l) allFree :=
    ⟨⟨hs, fun i hi => absurd hi (not_active_allFree i), ⟨0, le_rfl, .init⟩,
      fun i hi => absurd hi List.not_mem_nil⟩, fun i hi => absurd hi List.not_mem_nil⟩
  exact follows_sendRule.send hsend [] ⟨_, hzero⟩

end Steps

/-- In every run without a reset, a frame is taken once and in its three rounds, is not handed over
after it has left the resend list, and has its rounds three REPEAT_TIMEOUT messages apart. The
frames on the list are those that have been sent with an acknowledgement due, and neither
acknowledged, oldest first, nor resent three times. -/
theorem retransmission_bounded (env : Env) (ops : List LinkOp)
    (hops : ∀ op ∈ ops, op.restarts = false) :
    ∃ link, linkRun env ops = some link ∧
      ResendQueue.Disciplined 3 3 (linkTrace env ops) ∧
      ∃ L, Shape link.tx.links L ∧
        (L .stReSendList).map (fun i => (link.tx.nodes i).databuf) =
          (ResendQueue.listed 3 (linkTrace env ops)).map fun x => some x.1.id := by
  obtain ⟨link, hrun, -⟩ := linkRun_nodesConserved env ops
  obtain ⟨link₀, hinit, hops₀⟩ := Option.bind_eq_some_iff.mp hrun
  obtain ⟨L, h⟩ := opsTrace_follows hops (init_follows hinit) hops₀
  have htrace : linkTrace env ops = [] ++ opsTrace env link₀ ops := by
    rw [linkTrace, hinit, List.nil_append]
  rw [← htrace] at h
  obtain ⟨n, -, hq⟩ := h.queued.run
  refine ⟨link, hrun, hq.disciplined (by decide), L, h.queued.shape, ?_⟩
  rw [hq.listed_eq (by decide), List.map_map, List.map_map]
  refine List.map_congr_left fun i hi => ?_
  obtain ⟨b, hb⟩ := Option.isSome_iff_exists.mp (h.queued.bufs i (.inr hi))
  rw [hb]
  simp [ResendQueue.Entry.view, entryOf, frameOf, hb]

theorem retransmission_bounded_unacknowledged :
    (∀ op ∈ unacknowledged 9, op.restarts = false) ∧
    ∃ link, linkRun acceptingEnv (unacknowledged 9) = some link ∧
      ResendQueue.Disciplined 3 3 (linkTrace acceptingEnv (unacknowledged 9)) ∧
      ∃ L, Shape link.tx.links L ∧
        (L .stReSendList).map (fun i => (link.tx.nodes i).databuf) =
          (ResendQueue.listed 3 (linkTrace acceptingEnv (unacknowledged 9))).map
            fun x => some x.1.id := by
  have hops : ∀ op ∈ unacknowledged 9, op.restarts = false := by decide
  exact ⟨hops, retransmission_bounded acceptingEnv (unacknowledged 9) hops⟩

example : linkTrace acceptingEnv (unacknowledged 9) =
    let f : ResendQueue.Frame ℕ := ⟨0, 0x1234, true⟩
    [.received 1, .sent f true, .timeout, .timeout, .timeout, .resent f true, .timeout, .timeout,
      .timeout, .resent f true, .timeout, .timeout, .timeout, .resent f true] := by
  decide +kernel

end Tulux.SerialLink
