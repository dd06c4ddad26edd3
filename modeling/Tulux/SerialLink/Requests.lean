import Tulux.SerialLink.Runs

/-! The messages that the operations of the transmit side send. Whoever puts a frame on an empty
wait-to-send list asks for a TX_DATA message, unless one is already on its way. -/
namespace Tulux.SerialLink

/-- The two flags are separate bits. -/
@[simp] theorem flag_bits (f : UInt8) :
    ((f ||| 2) &&& 2 ≠ 0 ∧ (f ||| 2) &&& 1 = f &&& 1) ∧
    ((f ||| 1) &&& 1 ≠ 0 ∧ (f ||| 1) &&& 2 = f &&& 2) ∧
    ((f &&& ~~~2) &&& 2 = 0 ∧ (f &&& ~~~2) &&& 1 = f &&& 1) ∧
    ((f &&& ~~~1) &&& 1 = 0 ∧ (f &&& ~~~1) &&& 2 = f &&& 2) := by
  rcases f with ⟨f⟩
  revert f
  decide +kernel

@[simp] theorem flag_set_beq (f : UInt8) :
    ((f ||| 2) &&& 2 == 0) = false ∧ ((f ||| 1) &&& 1 == 0) = false := by
  simp

/-- Frames wait to be sent. -/
def Waits (tx : Tx) : Prop := yxListEmpty tx.links (.head .stWaitTxList) = false

theorem Shape.waits_iff {tx : Tx} {L : Lists} (h : Shape tx.links L) :
    Waits tx ↔ L .stWaitTxList ≠ [] := by
  rw [Waits, ← Bool.not_eq_true, h.empty_iff]

/-- The step from `tx` to `tx'` sends no message, or a TX_DATA message while the flag is clear;
when it fills the wait-to-send list, the flag is set behind it. -/
structure Stirs (tx tx' : Tx) : Prop where
  signal : (tx'.uMsgFlag = tx.uMsgFlag ∧ tx'.queue = tx.queue) ∨
    (tx.uMsgFlag &&& 2 = 0 ∧ tx'.uMsgFlag = tx.uMsgFlag ||| 2 ∧
      tx'.queue = tx.queue ++ [.txData])
  woken : Waits tx' → Waits tx ∨ tx'.uMsgFlag &&& 2 ≠ 0

namespace Stirs
variable {tx tx' tx'' : Tx}

theorem refl (tx : Tx) : Stirs tx tx := ⟨.inl ⟨rfl, rfl⟩, .inl⟩

theorem trans (h : Stirs tx tx') (h' : Stirs tx' tx'') : Stirs tx tx'' := by
  have hkeep : tx'.uMsgFlag &&& 2 ≠ 0 → tx''.uMsgFlag &&& 2 ≠ 0 := by
    rcases h'.signal with ⟨hf, -⟩ | ⟨-, hf, -⟩ <;> simp [hf]
  refine ⟨?_, fun hw => ?_⟩
  · rcases h.signal with ⟨hf, hq⟩ | ⟨hf₀, hf, hq⟩
    · rw [← hf, ← hq]
      exact h'.signal
    · rcases h'.signal with ⟨hf', hq'⟩ | ⟨hf', -⟩
      · exact .inr ⟨hf₀, hf'.trans hf, hq'.trans hq⟩
      · simp [hf] at hf'
  · rcases h'.woken hw with hw | hset
    · exact (h.woken hw).imp_right hkeep
    · exact .inr hset

theorem silent {L L' : Lists} (hs : Shape tx.links L) (hs' : Shape tx'.links L')
    (h : Silent tx L tx' L') : Stirs tx tx' := by
  refine ⟨.inl ⟨h.flag, h.queue⟩, fun hw => .inl ?_⟩
  rw [hs.waits_iff, ← h.wait]
  exact hs'.waits_iff.mp hw

/-- Nothing but buffers, nodes and what was handed to the driver changes. -/
theorem same (hf : tx'.uMsgFlag = tx.uMsgFlag) (hq : tx'.queue = tx.queue)
    (hl : tx'.links = tx.links) : Stirs tx tx' := by
  refine ⟨.inl ⟨hf, hq⟩, fun hw => .inl ?_⟩
  rwa [Waits, ← hl]

end Stirs

/-! ### The transmit side -/

theorem sendTxReqMsg_flag (tx : Tx) : (sendTxReqMsg tx).uMsgFlag &&& 2 ≠ 0 := by
  unfold sendTxReqMsg
  split_ifs with hf
  · exact (flag_bits tx.uMsgFlag).1.1
  · exact hf

/-- A request sets the flag, so it is enough for any change of the lists before it. -/
theorem sendTxReqMsg_stirs {tx tx' : Tx} (hf : tx'.uMsgFlag = tx.uMsgFlag)
    (hq : tx'.queue = tx.queue) : Stirs tx (sendTxReqMsg tx') := by
  refine ⟨?_, fun _ => .inr (sendTxReqMsg_flag tx')⟩
  unfold sendTxReqMsg
  split_ifs with hc
  · exact .inr ⟨hf ▸ hc, by rw [← hf], by rw [← hq]⟩
  · exact .inl ⟨hf, hq⟩

section Transmit
variable {env : Env} {tx tx' : Tx}

theorem queueItem_stirs {buf : ℕ} {item : List UInt8} {node : SerialItemNode}
    (h : queueItem tx buf item node = some tx') : Stirs tx tx' := by
  obtain ⟨i, -, h⟩ := Option.bind_eq_some_iff.mp h
  obtain ⟨tx₁, hmove, rfl⟩ := Option.map_eq_some_iff.mp h
  obtain ⟨l, -, rfl⟩ := Option.map_eq_some_iff.mp hmove
  exact sendTxReqMsg_stirs rfl rfl

theorem stirs_sendRule : SendRule Stirs where
  refl := .refl
  trans := .trans
  hand := fun _ _ _ => .same rfl rfl rfl
  noMemory := fun _ => .same rfl rfl rfl
  queue := fun {tx} _ _ _ _ hq =>
    have hobtained : Stirs tx { tx with
        mallocCalls := tx.mallocCalls + 1, obtained := tx.obtained ++ [tx.mallocCalls] } :=
      .same rfl rfl rfl
    hobtained.trans (queueItem_stirs hq)

end Transmit

/-! ### Received frames and events -/

section Link
variable {env : Env} {L : Lists} {link link' : Link}

theorem stirs_callRule (env : Env) : CallRule env fun link link' => Stirs link.tx link'.tx :=
  ⟨fun link => .refl link.tx, .trans, stirs_sendRule.run⟩

theorem rxFrame_stirs {frame : List UInt8} {data : UInt8} (hh : Held link.tx L)
    (h : rxFrame env frame data link = some link') : Stirs link.tx link'.tx := by
  obtain ⟨tx₁, L₁, hdel, hkeep, hsilent⟩ := delRepeatlistbycmd_keeps (headCmd frame) hh
  have hstirs : Stirs link.tx tx₁ := .silent hh.shape hkeep.1.shape hsilent
  rw [rxFrame] at h
  dsimp only at h
  rw [hdel, Option.bind_some] at h
  split_ifs at h
  · cases h
    exact hstirs.trans (.same rfl rfl rfl)
  · cases h
    exact hstirs.trans (.same rfl rfl rfl)
  · cases h
    exact hstirs.trans (.same rfl rfl rfl)
  · exact hstirs.trans ((stirs_callRule env).analyse h)

theorem stirs_frameRule (env : Env) : FrameRule env fun link link' =>
    ∀ L, Held link.tx L → Stirs link.tx link'.tx ∧ ∃ L', Held link'.tx L' where
  refl := fun link L hh => ⟨.refl link.tx, L, hh⟩
  trans := fun h h' L hh => by
    obtain ⟨hstirs, L₁, hh₁⟩ := h L hh
    obtain ⟨hstirs', L', hh'⟩ := h' L₁ hh₁
    exact ⟨hstirs.trans hstirs', L', hh'⟩
  frame := fun {frame data link link'} hframe L hh => by
    obtain ⟨link₁, L', hrun, hhandles⟩ := rxFrame_handles env frame data hh
    rw [hframe, Option.some.injEq] at hrun
    exact ⟨rxFrame_stirs hh hframe, L', hrun ▸ hhandles.keeps.1⟩

theorem rxPass_stirs {bytes : List UInt8} (hh : Held link.tx L)
    (h : rxPass env bytes link = some link') : Stirs link.tx link'.tx := by
  obtain ⟨⟨off, link₁⟩, hrun, rfl⟩ := Option.map_eq_some_iff.mp h
  obtain ⟨hstirs, -⟩ := (stirs_frameRule env).rxrec hrun L hh
  exact hstirs

/-! ### The state machine -/

theorem stateEntry_stirs (s : SerialState) (link : Link) :
    Stirs link.tx (stateEntry s link).tx := by
  cases s with
  | disconnect => exact .refl _
  | connect =>
    simp only [stateEntry]
    split_ifs
    · exact .refl _
    · exact sendTxReqMsg_stirs rfl rfl

/-- Connect is entered with a request for the frames that wait. -/
theorem stateEntry_connect_flag (h : Waits (stateEntry .connect link).tx) :
    (stateEntry .connect link).tx.uMsgFlag &&& 2 ≠ 0 := by
  simp only [stateEntry] at h ⊢
  split_ifs at h ⊢ with he
  · simp [Waits, he] at h
  · exact sendTxReqMsg_flag link.tx

theorem stateExit_stirs {s : SerialState} (h : stateExit env s link = some link') :
    Stirs link.tx link'.tx := by
  cases s with
  | disconnect =>
    have hstirs := (stirs_callRule env).event h
    exact hstirs
  | connect =>
    obtain ⟨link₁, hrun, rfl⟩ := Option.map_eq_some_iff.mp h
    have hstirs := (stirs_callRule env).event hrun
    exact hstirs

theorem statetrans_stirs {target : SerialState} (h : statetrans env target link = some link') :
    Stirs link.tx link'.tx := by
  obtain ⟨link₁, hrun, rfl⟩ := Option.map_eq_some_iff.mp h
  have hstirs := stateExit_stirs hrun
  exact hstirs

theorem takeTransition_stirs (handled : Bool) (link : Link) :
    Stirs link.tx (takeTransition handled link).tx := by
  unfold takeTransition
  split_ifs
  · split
    · exact stateEntry_stirs _ link
    · exact .refl _
  · exact .refl _

/-- A message other than RX_RCV and TX_DATA. -/
def SerialMsg.isTimer : SerialMsg → Bool
  | .rxRcv => false
  | .txData => false
  | _ => true

/-- The receive side of the link is the same. -/
structure RxKept (link link' : Link) : Prop where
  buf : link'.rxBuf = link.rxBuf
  len : link'.rxLen = link.rxLen
  accepted : link'.accepted = link.accepted

theorem RxKept.refl (link : Link) : RxKept link link := ⟨rfl, rfl, rfl⟩

theorem RxKept.trans {l₁ l₂ l₃ : Link} (h : RxKept l₁ l₂) (h' : RxKept l₂ l₃) : RxKept l₁ l₃ :=
  ⟨h'.buf.trans h.buf, h'.len.trans h.len, h'.accepted.trans h.accepted⟩

theorem slEventCb_same {e : SlEvent} (h : slEventCb env e link = some link') :
    link'.curr = link.curr ∧ link'.next = link.next ∧ RxKept link link' := by
  unfold slEventCb at h
  split_ifs at h
  · obtain ⟨tx', -, rfl⟩ := Option.map_eq_some_iff.mp h
    exact ⟨rfl, rfl, rfl, rfl, rfl⟩
  · cases h
    exact ⟨rfl, rfl, .refl _⟩

theorem statetrans_same {target : SerialState} (h : statetrans env target link = some link') :
    link'.curr = link.curr ∧ link'.next = some target ∧ RxKept link link' := by
  obtain ⟨link₁, hexit, rfl⟩ := Option.map_eq_some_iff.mp h
  unfold stateExit at hexit
  split at hexit
  · obtain ⟨hcurr, -, hrx⟩ := slEventCb_same hexit
    exact ⟨hcurr, rfl, hrx.buf, hrx.len, hrx.accepted⟩
  · obtain ⟨link₂, hevent, rfl⟩ := Option.map_eq_some_iff.mp hexit
    obtain ⟨hcurr, -, hrx⟩ := slEventCb_same hevent
    exact ⟨hcurr, rfl, hrx.buf, hrx.len, hrx.accepted⟩

theorem stateEntry_rxKept (s : SerialState) (link : Link) : RxKept link (stateEntry s link) := by
  cases s <;> exact ⟨rfl, rfl, rfl⟩

theorem takeTransition_rxKept (handled : Bool) (link : Link) :
    RxKept link (takeTransition handled link) := by
  unfold takeTransition
  split_ifs
  · split
    · obtain ⟨hbuf, hlen, hacc⟩ := stateEntry_rxKept ‹_› link
      exact ⟨hbuf, hlen, hacc⟩
    · exact .refl _
  · exact .refl _

/-- The handlers take a timer message without entering Connect. -/
theorem stateOnEvent_timer {msg : SerialMsg} {arrivals : List (List UInt8)} {handled : Bool}
    (hh : Held link.tx L) (hmsg : msg.isTimer = true) (hrx : msg ≠ .timeRxanaTimeout)
    (h : stateOnEvent env msg arrivals link = some (handled, link')) :
    Stirs link.tx link'.tx ∧ RxKept link link' ∧ link'.curr = link.curr ∧
      (link'.next = link.next ∨ link'.next = some .disconnect) := by
  unfold stateOnEvent at h
  cases hc : link.curr with
  | disconnect =>
    rw [hc] at h
    dsimp only at h
    cases msg with
    | rxRcv => nomatch hmsg
    | txData => nomatch hmsg
    | timeRxanaTimeout => exact absurd rfl hrx
    | timeConnectTimeout =>
      obtain ⟨link₁, hevent, heq⟩ := Option.map_eq_some_iff.mp h
      cases heq
      obtain ⟨hcurr, hnext, hkept⟩ := slEventCb_same hevent
      have hstirs := (stirs_callRule env).event hevent
      exact ⟨hstirs, ⟨hkept.buf, hkept.len, hkept.accepted⟩, hcurr.trans hc, .inl hnext⟩
    | _ =>
      cases h
      exact ⟨.refl _, .refl _, hc, .inl rfl⟩
  | connect =>
    rw [hc] at h
    dsimp only at h
    cases msg with
    | rxRcv => nomatch hmsg
    | txData => nomatch hmsg
    | timeRxanaTimeout => exact absurd rfl hrx
    | timeLinkAckTimerout =>
      obtain ⟨link₁, htrans, heq⟩ := Option.map_eq_some_iff.mp h
      cases heq
      obtain ⟨hcurr, hnext, hkept⟩ := statetrans_same htrans
      exact ⟨statetrans_stirs htrans, hkept, hcurr.trans hc, .inr hnext⟩
    | timeRepeatTimeout =>
      obtain ⟨⟨sta, tx'⟩, hrun, heq⟩ := Option.map_eq_some_iff.mp h
      cases heq
      obtain ⟨sta₁, tx₁, L₁, hrun₁, hheld, hsilent, -⟩ :=
        sendRepeatlistnode_keeps env (link.uConnectFlag = .disconnect) hh
      rw [hrun, Option.some.injEq, Prod.mk.injEq] at hrun₁
      obtain ⟨rfl, rfl⟩ := hrun₁
      exact ⟨.silent hh.shape hheld.shape hsilent, ⟨rfl, rfl, rfl⟩, hc, .inl rfl⟩
    | _ =>
      cases h
      exact ⟨.refl _, .refl _, hc, .inl rfl⟩

/-- A timer message does not connect the link. -/
theorem handle_timer {msg : SerialMsg} {arrivals : List (List UInt8)} (hh : Held link.tx L)
    (hidle : link.next = none) (hmsg : msg.isTimer = true) (hrx : msg ≠ .timeRxanaTimeout)
    (h : yxSerialLinkHandle env msg arrivals link = some link') :
    Stirs link.tx link'.tx ∧ RxKept link link' ∧
      (link'.curr = .connect → link.curr = .connect) := by
  obtain ⟨⟨handled, link₁⟩, hrun, rfl⟩ := Option.map_eq_some_iff.mp h
  obtain ⟨hstirs, hkept, hcurr, hnext⟩ := stateOnEvent_timer hh hmsg hrx hrun
  refine ⟨hstirs.trans (takeTransition_stirs handled link₁),
    hkept.trans (takeTransition_rxKept handled link₁), fun hconn => ?_⟩
  unfold takeTransition at hconn
  rw [hidle] at hnext
  rcases hnext with hnext | hnext <;> cases handled <;>
    simp_all [stateEntry]

end Link

end Tulux.SerialLink
