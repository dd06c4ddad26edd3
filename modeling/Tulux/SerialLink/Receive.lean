import Tulux.Lib.GuardedRun
import Tulux.SerialLink.Conservation
import Tulux.SerialLink.Link

/-! What one call of `_yx_serial_link_rx_analyse` does: it returns, passes over the received bytes
as the plain scan does, and handles the frames that the scan accepts. -/
namespace Tulux.SerialLink
open CircularList Framing GuardedRun

/-- The bytes in the receive buffer. -/
def received (link : Link) : List UInt8 := link.rxBuf.take link.rxLen

structure RxWf (link : Link) : Prop where
  buf : link.rxBuf.length = 1032
  len : link.rxLen ≤ 1024

theorem RxWf.length_received {link : Link} (h : RxWf link) :
    (received link).length = link.rxLen := by
  rw [received, List.length_take, h.buf]
  have := h.len
  omega

def rxAnaFrame : Callback → Option (List UInt8)
  | .rxAna frame => some frame
  | _ => none

def eventOf : Callback → Option SlEvent
  | .event e => some e
  | _ => none

/-- A frame that is not a link command. -/
def isData (frame : List UInt8) : Bool :=
  headCmd frame != yxSerialLinkReqCmd && headCmd frame != yxSerialLinkBeatCmd

/-- Handling the frames `fs` changes these parts of the state, and no state of the machine. -/
structure RxEffect (env : Env) (fs : List (List UInt8)) (link link' : Link) : Prop where
  accepted : link'.accepted = link.accepted ++ fs
  flag : link'.uConnectFlag =
    if ∃ f ∈ fs, headCmd f = yxSerialLinkReqCmd then .connect else link.uConnectFlag
  curr : link'.curr = link.curr
  next : link'.next = link.next
  rxAna : link'.called.filterMap rxAnaFrame =
    link.called.filterMap rxAnaFrame ++ if env.rxAnaCb then fs.filter isData else []
  events : link'.called.filterMap eventOf = link.called.filterMap eventOf

theorem RxEffect.refl (env : Env) (link : Link) : RxEffect env [] link link := by
  refine ⟨?_, ?_, rfl, rfl, ?_, rfl⟩ <;> simp

theorem RxEffect.trans {env : Env} {fs gs : List (List UInt8)} {l₁ l₂ l₃ : Link}
    (h : RxEffect env fs l₁ l₂) (h' : RxEffect env gs l₂ l₃) : RxEffect env (fs ++ gs) l₁ l₃ := by
  refine ⟨?_, ?_, h'.curr.trans h.curr, h'.next.trans h.next, ?_, h'.events.trans h.events⟩
  · rw [h'.accepted, h.accepted, List.append_assoc]
  · rw [h'.flag, h.flag]
    simp only [List.mem_append, or_and_right, exists_or]
    by_cases hg : ∃ f ∈ gs, headCmd f = yxSerialLinkReqCmd <;> simp [hg]
  · rw [h'.rxAna, h.rxAna, List.append_assoc]
    split_ifs
    · rw [List.filter_append]
    · rfl

/-- The receive buffer, its length and the ring are the same. -/
structure RxSame (link link' : Link) : Prop where
  buf : link'.rxBuf = link.rxBuf
  len : link'.rxLen = link.rxLen
  ring : link'.rxRing = link.rxRing

theorem RxSame.refl (link : Link) : RxSame link link := ⟨rfl, rfl, rfl⟩

theorem RxSame.trans {l₁ l₂ l₃ : Link} (h : RxSame l₁ l₂) (h' : RxSame l₂ l₃) : RxSame l₁ l₃ :=
  ⟨h'.buf.trans h.buf, h'.len.trans h.len, h'.ring.trans h.ring⟩

/-! ### Sends -/

/-- What holds across the parts of a send, and is kept along them: a frame is built in `tx_buf` and
handed to the driver, an allocation fails, or a frame is queued in a node. -/
structure SendRule (R : Tx → Tx → Prop) : Prop where
  refl : ∀ tx, R tx tx
  trans : ∀ {tx₁ tx₂ tx₃}, R tx₁ tx₂ → R tx₂ tx₃ → R tx₁ tx₃
  hand : ∀ tx txBuf handed, R tx { tx with txBuf := txBuf, handed := handed }
  noMemory : ∀ tx, R tx { tx with mallocCalls := tx.mallocCalls + 1 }
  queue : ∀ {tx tx' item node}, (node.nodeAttrib = 1 → node.nodeRepeat = 3 ∧ node.nodeTime = 3) →
    queueItem { tx with
      mallocCalls := tx.mallocCalls + 1, obtained := tx.obtained ++ [tx.mallocCalls] }
      tx.mallocCalls item node = some tx' → R tx tx'

namespace SendRule
variable {R : Tx → Tx → Prop} {env : Env} {connected : Bool} {tx tx' : Tx}

/-- Both sends end by an attempt to queue the frame. -/
private theorem attempt (hR : SendRule R) (item : ℕ → List UInt8) {node : SerialItemNode}
    {sta : Bool} (hnode : node.nodeAttrib = 1 → node.nodeRepeat = 3 ∧ node.nodeTime = 3)
    (h : (match yxMalloc env tx with
      | (none, tx) => some (false, tx)
      | (some buf, tx) => (queueItem tx buf (item buf) node).map fun tx => (true, tx)) =
        some (sta, tx')) : R tx tx' := by
  unfold yxMalloc at h
  split_ifs at h with hm
  · obtain ⟨tx₁, hq, heq⟩ := Option.map_eq_some_iff.mp h
    cases heq
    exact hR.queue hnode hq
  · cases h
    exact hR.noMemory tx

theorem send2List (hR : SendRule R) {needAck : UInt8} {args : SendArgs} {sta : Bool}
    (h : yxSerialLinkSend2List env connected needAck args tx = some (sta, tx')) : R tx tx' := by
  unfold yxSerialLinkSend2List at h
  split_ifs at h
  · cases h
    exact hR.refl _
  · cases h
    exact hR.refl _
  · exact hR.attempt (listItem env args) (fun _ => ⟨rfl, rfl⟩) h

theorem send (hR : SendRule R) {args : SendArgs} {sta : Bool}
    (h : yxSerialLinkSend env args tx = some (sta, tx')) : R tx tx' := by
  unfold yxSerialLinkSend at h
  extract_lets beyond tx₁ frame at h
  have hsent : R tx (hwSenddata env tx₁ frame).2 := hR.hand tx _ _
  split at h
  rename_i ret tx₂ heq
  rw [heq] at hsent
  split_ifs at h
  · cases h
    exact hsent
  · cases h
    exact hsent
  · exact hR.trans hsent
      (hR.attempt (fun _ => frame) (fun hattr => absurd hattr Nat.zero_ne_one) h)

theorem callback (hR : SendRule R) {call : Option UInt8 × SendArgs}
    (h : callbackSend env connected tx call = some tx') : R tx tx' := by
  unfold callbackSend at h
  split at h
  · obtain ⟨⟨sta, tx₁⟩, hrun, rfl⟩ := Option.map_eq_some_iff.mp h
    exact hR.send hrun
  · obtain ⟨⟨sta, tx₁⟩, hrun, rfl⟩ := Option.map_eq_some_iff.mp h
    exact hR.send2List hrun

theorem callbacks (hR : SendRule R) {calls : List (Option UInt8 × SendArgs)}
    (h : calls.foldlM (callbackSend env connected) tx = some tx') : R tx tx' := by
  induction calls generalizing tx with
  | nil =>
    cases h
    exact hR.refl _
  | cons call calls ih =>
    rw [List.foldlM_cons] at h
    obtain ⟨tx₁, hcall, h⟩ := Option.bind_eq_some_iff.mp h
    exact hR.trans (hR.callback hcall) (ih h)

theorem run (hR : SendRule R) {cb : Callback} {link link' : Link}
    (h : runCallback env cb link = some link') : R link.tx link'.tx := by
  obtain ⟨tx', hrun, rfl⟩ := Option.map_eq_some_iff.mp h
  exact hR.callbacks hrun

end SendRule

/-! ### Registered functions -/

/-- What holds across a call of a registered function, and is kept along calls. -/
structure CallRule (env : Env) (R : Link → Link → Prop) : Prop where
  refl : ∀ link, R link link
  trans : ∀ {l₁ l₂ l₃}, R l₁ l₂ → R l₂ l₃ → R l₁ l₃
  call : ∀ {cb link link'}, runCallback env cb link = some link' → R link link'

namespace CallRule
variable {env : Env} {R : Link → Link → Prop} {link link' : Link}

theorem event (hR : CallRule env R) {e : SlEvent} (h : slEventCb env e link = some link') :
    R link link' := by
  unfold slEventCb at h
  split_ifs at h
  · exact hR.call h
  · cases h
    exact hR.refl link

theorem dispatch (hR : CallRule env R) {frame : List UInt8}
    (h : dispatchRcb env frame link = some link') : R link link' := by
  unfold dispatchRcb at h
  dsimp only at h
  split at h
  · split_ifs at h
    · exact hR.call h
    · cases h
      exact hR.refl link
  · cases h
    exact hR.refl link

theorem analyse (hR : CallRule env R) {frame : List UInt8}
    (h : slRxAnaCb env frame link = some link') : R link link' := by
  obtain ⟨link₁, hrun, h⟩ := Option.bind_eq_some_iff.mp h
  split_ifs at h
  · exact hR.trans (hR.dispatch hrun) (hR.call h)
  · cases h
    exact hR.dispatch hrun

end CallRule

section Callbacks
variable (env : Env) {L : Lists}

theorem callbackSend_keeps (connected : Bool) (call : Option UInt8 × SendArgs) {tx : Tx}
    (h : Held tx L) :
    ∃ tx' L', callbackSend env connected tx call = some tx' ∧ Keeps tx L tx' L' := by
  unfold callbackSend
  cases call.1 with
  | none =>
    obtain ⟨sta, tx', L', hrun, hkeep⟩ := yxSerialLinkSend_keeps env call.2 h
    exact ⟨tx', L', by simp only [hrun, Option.map_some], hkeep⟩
  | some needAck =>
    obtain ⟨sta, tx', L', hrun, hkeep⟩ := yxSerialLinkSend2List_keeps env connected needAck call.2 h
    exact ⟨tx', L', by simp only [hrun, Option.map_some], hkeep⟩

theorem callbackSends_keep (connected : Bool) (calls : List (Option UInt8 × SendArgs)) {tx : Tx}
    (h : Held tx L) :
    ∃ tx' L', calls.foldlM (callbackSend env connected) tx = some tx' ∧ Keeps tx L tx' L' := by
  have hstep (tx₁ : Tx) (call : Option UInt8 × SendArgs) (hkeep : ∃ L₁, Keeps tx L tx₁ L₁) :
      ∃ tx₂, callbackSend env connected tx₁ call = some tx₂ ∧ ∃ L₂, Keeps tx L tx₂ L₂ := by
    obtain ⟨L₁, hkeep⟩ := hkeep
    obtain ⟨tx₂, L₂, hrun, hnext⟩ := callbackSend_keeps env connected call hkeep.1
    exact ⟨tx₂, hrun, L₂, hkeep.trans hnext⟩
  obtain ⟨tx', hrun, L', hkeep⟩ :=
    foldlM_keeps (fun tx₁ call (_ : call ∈ calls) => hstep tx₁ call) ⟨L, h, id⟩
  exact ⟨tx', L', hrun, hkeep⟩

/-- A registered function changes the transmit side only. -/
theorem runCallback_keeps (cb : Callback) (link : Link) (h : Held link.tx L) :
    ∃ tx' L', runCallback env cb link =
        some { link with tx := tx', called := link.called ++ [cb] } ∧ Keeps link.tx L tx' L' := by
  obtain ⟨tx', L', hrun, hkeep⟩ := callbackSends_keep env
    (link.uConnectFlag = .connect) (env.calls link.called.length) h
  exact ⟨tx', L', by rw [runCallback, hrun, Option.map_some], hkeep⟩

end Callbacks

/-! ### Frames -/

/-- What holds across the handling of a frame, and is kept along frames. -/
structure FrameRule (env : Env) (R : Link → Link → Prop) : Prop where
  refl : ∀ link, R link link
  trans : ∀ {l₁ l₂ l₃}, R l₁ l₂ → R l₂ l₃ → R l₁ l₃
  frame : ∀ {frame data link link'}, rxFrame env frame data link = some link' → R link link'

theorem FrameRule.rxrec {env : Env} {R : Link → Link → Prop} (hR : FrameRule env R)
    {pbuf : List UInt8} {datalen off : ℕ} {link link' : Link}
    (h : rxrec env pbuf datalen link = some (off, link')) : R link link' := by
  have stop {x : ℕ} {l : Link} (hstop : some (x, l) = some (off, link')) : R l link' := by
    obtain ⟨-, rfl⟩ := Prod.mk.inj (Option.some.inj hstop)
    exact hR.refl l
  have analyse (offset : ℕ) (l : Link)
      (h : rxrecAnalyse env pbuf datalen offset l = some (off, link')) : R l link' := by
    fun_induction rxrecAnalyse env pbuf datalen offset l with
    | case1 offset l start => exact stop h
    | case2 offset l start hlong pDlHead size hfit hcrc ih =>
      obtain ⟨l₁, hframe, h⟩ := Option.bind_eq_some_iff.mp h
      split_ifs at h with hmore
      · exact hR.trans (hR.frame hframe) (ih l₁ hmore h)
      · exact hR.trans (hR.frame hframe) (stop h)
    | case3 offset l start hlong pDlHead size hfit hcrc ih => exact ih h
    | case4 offset l start hlong pDlHead size hfit hover ih => exact ih h
    | case5 offset l start hlong pDlHead size hfit => exact stop h
  unfold SerialLink.rxrec at h
  split_ifs at h
  · exact stop h
  · exact analyse 0 link h

section Frames
variable (env : Env) {L : Lists}

/-- Handling an accepted frame returns, and has the effect of this frame. -/
structure Handles (fs : List (List UInt8)) (link : Link) (L : Lists) (link' : Link)
    (L' : Lists) : Prop where
  keeps : Keeps link.tx L link'.tx L'
  effect : RxEffect env fs link link'
  same : RxSame link link'

theorem Handles.refl {link : Link} (h : Held link.tx L) : Handles env [] link L link L :=
  ⟨⟨h, id⟩, .refl env link, .refl link⟩

variable {env} in
theorem Handles.trans {fs gs : List (List UInt8)} {l₁ l₂ l₃ : Link} {L₁ L₂ L₃ : Lists}
    (h : Handles env fs l₁ L₁ l₂ L₂) (h' : Handles env gs l₂ L₂ l₃ L₃) :
    Handles env (fs ++ gs) l₁ L₁ l₃ L₃ :=
  ⟨h.keeps.trans h'.keeps, h.effect.trans h'.effect, h.same.trans h'.same⟩

theorem dispatchRcb_keeps (frame : List UInt8) {link : Link} (h : Held link.tx L) :
    ∃ tx' cbs L', dispatchRcb env frame link =
        some { link with tx := tx', called := link.called ++ cbs } ∧
      Keeps link.tx L tx' L' ∧ cbs.filterMap rxAnaFrame = [] ∧ cbs.filterMap eventOf = [] := by
  unfold dispatchRcb
  dsimp only
  split
  · rename_i r i _
    split_ifs
    · obtain ⟨tx', L', hrun, hkeep⟩ := runCallback_keeps env (.handler i frame) link h
      exact ⟨tx', [.handler i frame], L', hrun, hkeep, rfl, rfl⟩
    · exact ⟨link.tx, [], L, by rw [List.append_nil], ⟨h, id⟩, rfl, rfl⟩
  · exact ⟨link.tx, [], L, by rw [List.append_nil], ⟨h, id⟩, rfl, rfl⟩

theorem slRxAnaCb_keeps (frame : List UInt8) (link : Link) (h : Held link.tx L) :
    ∃ tx' cbs L', slRxAnaCb env frame link =
        some { link with tx := tx', called := link.called ++ cbs } ∧
      Keeps link.tx L tx' L' ∧
      cbs.filterMap rxAnaFrame = (if env.rxAnaCb then [frame] else []) ∧
      cbs.filterMap eventOf = [] := by
  obtain ⟨tx₁, cbs, L₁, hrun, hkeep, hana, hev⟩ := dispatchRcb_keeps env frame h
  rw [slRxAnaCb, hrun, Option.bind_some]
  split_ifs
  · obtain ⟨tx', L', hrun', hkeep'⟩ := runCallback_keeps env (.rxAna frame)
      { link with tx := tx₁, called := link.called ++ cbs } hkeep.1
    refine ⟨tx', cbs ++ [.rxAna frame], L', ?_, hkeep.trans hkeep', ?_, ?_⟩
    · rw [hrun', List.append_assoc]
    · rw [List.filterMap_append, hana]
      rfl
    · rw [List.filterMap_append, hev]
      rfl
  · exact ⟨tx₁, cbs, L₁, rfl, hkeep, hana, hev⟩

theorem rxFrame_handles (frame : List UInt8) (data : UInt8) {link : Link} (h : Held link.tx L) :
    ∃ link' L', rxFrame env frame data link = some link' ∧
      Handles env [frame] link L link' L' := by
  obtain ⟨tx₁, L₁, hdel, hkeep, -⟩ := delRepeatlistbycmd_keeps (headCmd frame) h
  have hack := hkeep.1.frame (addlinkack_frame env (headCmd frame) hkeep.1.txBuf)
  rw [rxFrame]
  dsimp only
  rw [hdel, Option.bind_some]
  by_cases hreq : headCmd frame = yxSerialLinkReqCmd
  · rw [if_pos hreq]
    refine ⟨_, L₁, rfl, hkeep.trans hack, ⟨rfl, ?_, rfl, rfl, ?_, rfl⟩, rfl, rfl, rfl⟩
    · have hex : ∃ f ∈ [frame], headCmd f = yxSerialLinkReqCmd := ⟨frame, by simp, hreq⟩
      rw [if_pos hex]
      dsimp only
      split_ifs with hc
      · rfl
      · exact not_not.mp hc
    · have hdata : isData frame = false := by simp [isData, hreq]
      simp [hdata]
  have hno : ¬ ∃ f ∈ [frame], headCmd f = yxSerialLinkReqCmd := by simpa using hreq
  rw [if_neg hreq]
  by_cases hbeat : headCmd frame = yxSerialLinkBeatCmd
  · rw [if_pos hbeat]
    refine ⟨_, L₁, rfl, hkeep.trans hack, ⟨rfl, ?_, rfl, rfl, ?_, rfl⟩, rfl, rfl, rfl⟩
    · rw [if_neg hno]
    · have hdata : isData frame = false := by simp [isData, hbeat]
      simp [hdata]
  · rw [if_neg hbeat]
    obtain ⟨tx', cbs, L', hrun, hkeep', hana, hev⟩ := slRxAnaCb_keeps env frame
      { link with tx := tx₁, accepted := link.accepted ++ [frame] } hkeep.1
    refine ⟨_, L', hrun, hkeep.trans hkeep', ⟨rfl, ?_, rfl, rfl, ?_, ?_⟩, rfl, rfl, rfl⟩
    · rw [if_neg hno]
    · have hdata : isData frame = true := by simp [isData, hreq, hbeat]
      rw [List.filterMap_append, hana, List.filter_cons_of_pos hdata, List.filter_nil]
    · rw [List.filterMap_append, hev, List.append_nil]

section Received
variable {pbuf : List UInt8} {datalen off : ℕ} (hbuf : datalen ≤ pbuf.length)
include hbuf

theorem length_received : (pbuf.take datalen).length = datalen := by
  rw [List.length_take]
  omega

/-- The buffer from an offset on is what was received and what stands behind it. -/
theorem drop_eq_received_append (hoff : off ≤ datalen) :
    pbuf.drop off = (pbuf.take datalen).drop off ++ pbuf.drop datalen := by
  conv_lhs => rw [← List.take_append_drop datalen pbuf]
  exact List.drop_append_of_le_length (hoff.trans_eq (length_received hbuf).symm)

/-- What is read at an offset, of a head and of a frame that were received, was received. -/
theorem head_received (h : off + 8 ≤ datalen) :
    headLen (pbuf.drop off) = headLen ((pbuf.take datalen).drop off) ∧
      headCrc (pbuf.drop off) = headCrc ((pbuf.take datalen).drop off) := by
  have hlength : 8 ≤ ((pbuf.take datalen).drop off).length := by
    rw [List.length_drop, length_received hbuf]
    omega
  rw [drop_eq_received_append hbuf (by omega), headLen_append hlength, headCrc_append hlength]
  exact ⟨rfl, rfl⟩

theorem frame_received {size : ℕ} (h : off + (size + 8) ≤ datalen) :
    itemXor (pbuf.drop off) size = itemXor ((pbuf.take datalen).drop off) size ∧
      (pbuf.drop off).take (size + 8) = ((pbuf.take datalen).drop off).take (size + 8) := by
  have hlength : size + 8 ≤ ((pbuf.take datalen).drop off).length := by
    rw [List.length_drop, length_received hbuf]
    omega
  rw [drop_eq_received_append hbuf (by omega), itemXor_append (by omega),
    List.take_append_of_le_length hlength]
  exact ⟨rfl, rfl⟩

end Received

/-- The parser passes over the first `datalen` bytes as the plain scan does, from `offset` on. -/
theorem rxrecAnalyse_handles {pbuf : List UInt8} {datalen offset : ℕ}
    (hbuf : datalen ≤ pbuf.length) (hd : datalen ≤ 1024) (ho : offset ≤ datalen) {link : Link}
    (h : Held link.tx L) :
    ∃ off link' L' fs, rxrecAnalyse env pbuf datalen offset link = some (off, link') ∧
      Handles env fs link L link' L' ∧ off ≤ datalen ∧
      refScanner.Passes ((pbuf.take datalen).drop offset) fs ((pbuf.take datalen).drop off) ∧
      scanNext ((pbuf.take datalen).drop off) = none := by
  induction hk : datalen - offset using Nat.strong_induction_on generalizing offset link L with
  | _ n ih =>
    set rest := (pbuf.take datalen).drop offset with hrest
    set off := offset + yxSerialLinkFindframehead rest with hoff
    set item := (pbuf.take datalen).drop off with hitem
    have hdrop : rest.drop (yxSerialLinkFindframehead rest) = item := by
      rw [hrest, List.drop_drop]
    have hle := findframehead_le rest
    have hlength := length_received hbuf
    have hrl : rest.length = datalen - offset := by
      rw [hrest, List.length_drop, hlength]
    have hil : item.length = datalen - off := by
      rw [hitem, List.length_drop, hlength]
    have hskip := findframehead_passes rest
    have hstop := findframehead_stops rest
    rw [hdrop] at hskip hstop
    rw [rxrecAnalyse]
    dsimp only
    rw [← hrest, ← hoff]
    by_cases hshort : datalen - off < 8
    · rw [if_pos hshort]
      refine ⟨off, link, L, [], rfl, .refl env h, by omega, hskip, ?_⟩
      rcases hstop with hs | hn
      · have hn : scanNext item = none := scanNext_short hs (by omega)
        exact hn
      · exact hn
    rw [if_neg hshort]
    have hs : startsFrame item := hstop.elim id fun hn => (scanNext_none hn (by omega)).1
    have hhead : off + 8 ≤ datalen := by omega
    obtain ⟨hlen, hcrc⟩ := head_received hbuf hhead
    rw [hlen, hcrc, ← hitem]
    by_cases hfit : headLen item + 8 ≤ datalen - off
    · rw [if_pos hfit]
      have hend : off + (headLen item + 8) ≤ datalen := by omega
      obtain ⟨hxor, hframe⟩ := frame_received hbuf hend
      rw [hxor, hframe, ← hitem]
      by_cases hc : headCrc item = itemXor item (headLen item)
      · rw [if_pos hc]
        have hnext := scanNext_accept hs (by omega) hc
        rw [Nat.add_comm 8] at hnext
        have hpass : refScanner.Passes rest [item.take (headLen item + 8)]
            ((pbuf.take datalen).drop (off + (headLen item + 8))) := by
          have hp := hskip.trans (Scanner.Passes.single (S := refScanner) hnext)
          rwa [hitem, List.drop_drop] at hp
        obtain ⟨link₁, L₁, hrun, hh⟩ := rxFrame_handles env (item.take (headLen item + 8))
          ((pbuf.drop off).getD 8 0) h
        rw [hrun, Option.bind_some]
        by_cases hmore : off + (headLen item + 8) < datalen
        · rw [if_pos hmore]
          obtain ⟨off', link', L', fs, hrun', hh', hle', hpass', hn⟩ :=
            ih (datalen - (off + (headLen item + 8))) (by omega) hmore.le hh.keeps.1 rfl
          exact ⟨off', link', L', _, hrun', hh.trans hh', hle', hpass.trans hpass', hn⟩
        · rw [if_neg hmore]
          refine ⟨_, link₁, L₁, _, rfl, hh, by omega, hpass, ?_⟩
          have hnil : (pbuf.take datalen).drop (off + (headLen item + 8)) = [] :=
            List.drop_eq_nil_of_le (by omega)
          rw [hnil]
          rfl
      · rw [if_neg hc]
        have hnext := scanNext_crc hs (by omega) hc
        have hpass : refScanner.Passes rest [] ((pbuf.take datalen).drop (off + 2)) := by
          have hp := hskip.trans ((Scanner.Passes.single (S := refScanner) hnext).trans
            (Scanner.Passes.single (S := refScanner) (scanNext_second hs)))
          rwa [hitem, List.drop_drop, List.drop_drop] at hp
        obtain ⟨off', link', L', fs, hrun', hh', hle', hpass', hn⟩ :=
          ih (datalen - (off + 2)) (by omega) (by omega) h rfl
        exact ⟨off', link', L', fs, hrun', hh', hle', hpass.trans hpass', hn⟩
    · rw [if_neg hfit, if_neg (by omega)]
      have hn : scanNext item = none := scanNext_short hs (by omega)
      exact ⟨off, link, L, [], rfl, .refl env h, by omega, hskip, hn⟩

end Frames

/-! ### Accepted frames -/

section Accepted
variable {env : Env} {frame : List UInt8} {link link' : Link}

theorem runCallback_accepted {cb : Callback} (h : runCallback env cb link = some link') :
    link'.accepted = link.accepted := by
  rw [runCallback, Option.map_eq_some_iff] at h
  obtain ⟨tx, -, rfl⟩ := h
  rfl

theorem accepted_callRule (env : Env) :
    CallRule env fun link link' => link'.accepted = link.accepted :=
  ⟨fun _ => rfl, fun h h' => h'.trans h, runCallback_accepted⟩

theorem rxFrame_accepted {data : UInt8} (h : rxFrame env frame data link = some link') :
    link'.accepted = link.accepted ++ [frame] := by
  simp only [rxFrame, Option.bind_eq_some_iff] at h
  obtain ⟨tx, -, h⟩ := h
  by_cases hreq : headCmd frame = yxSerialLinkReqCmd
  · rw [if_pos hreq] at h
    exact (congrArg Link.accepted (Option.some.inj h)).symm
  rw [if_neg hreq] at h
  by_cases hbeat : headCmd frame = yxSerialLinkBeatCmd
  · rw [if_pos hbeat] at h
    exact (congrArg Link.accepted (Option.some.inj h)).symm
  · rw [if_neg hbeat] at h
    exact (accepted_callRule env).analyse h

/-- An accepted frame is as long as its head says. -/
theorem rxrecAnalyse_accepted {pbuf : List UInt8} {datalen offset off : ℕ}
    (hbuf : datalen ≤ pbuf.length)
    (h : rxrecAnalyse env pbuf datalen offset link = some (off, link')) :
    ∃ fs, link'.accepted = link.accepted ++ fs ∧ ∀ f ∈ fs, f.length = headLen f + 8 := by
  induction hk : datalen - offset using Nat.strong_induction_on generalizing offset link with
  | _ n ih =>
    rw [rxrecAnalyse] at h
    dsimp only at h
    set start := offset + yxSerialLinkFindframehead ((pbuf.take datalen).drop offset)
    set head := pbuf.drop start with hhead
    have hrest : head.length = pbuf.length - start := List.length_drop
    have stop {x : ℕ} (hstop : some (x, link) = some (off, link')) :
        ∃ fs, link'.accepted = link.accepted ++ fs ∧ ∀ f ∈ fs, f.length = headLen f + 8 := by
      obtain ⟨-, rfl⟩ := Prod.mk.inj (Option.some.inj hstop)
      exact ⟨[], by simp, by simp⟩
    by_cases hshort : datalen - start < 8
    · rw [if_pos hshort] at h
      exact stop h
    rw [if_neg hshort] at h
    by_cases hfit : headLen head + 8 ≤ datalen - start
    · rw [if_pos hfit] at h
      by_cases hcrc : headCrc head = itemXor head (headLen head)
      · rw [if_pos hcrc, Option.bind_eq_some_iff] at h
        obtain ⟨link₁, hframe, h⟩ := h
        have hacc := rxFrame_accepted hframe
        set frame := head.take (headLen head + 8) with hf
        have hlen : frame.length = headLen head + 8 := by
          rw [hf, List.length_take]
          omega
        have hsame : headLen (frame ++ head.drop (headLen head + 8)) = headLen frame :=
          headLen_append (by omega) _
        rw [hf, List.take_append_drop, ← hf] at hsame
        have hwhole : frame.length = headLen frame + 8 := by omega
        split_ifs at h with hmore
        · obtain ⟨fs, hfs, hall⟩ := ih _ (by omega) h rfl
          refine ⟨frame :: fs, by rw [hfs, hacc]; simp, ?_⟩
          exact List.forall_mem_cons.mpr ⟨hwhole, hall⟩
        · obtain ⟨-, rfl⟩ := Prod.mk.inj (Option.some.inj h)
          exact ⟨[frame], hacc, by simpa using hwhole⟩
      · rw [if_neg hcrc] at h
        exact ih _ (by omega) h rfl
    · rw [if_neg hfit] at h
      split_ifs at h
      · exact ih _ (by omega) h rfl
      · exact stop h

theorem rxrec_accepted {pbuf : List UInt8} {datalen off : ℕ} (hbuf : datalen ≤ pbuf.length)
    (h : rxrec env pbuf datalen link = some (off, link')) :
    ∃ fs, link'.accepted = link.accepted ++ fs ∧ ∀ f ∈ fs, f.length = headLen f + 8 := by
  rw [rxrec] at h
  split_ifs at h
  · obtain ⟨-, rfl⟩ := Prod.mk.inj (Option.some.inj h)
    exact ⟨[], by simp, by simp⟩
  · exact rxrecAnalyse_accepted hbuf h

end Accepted

/-! ### Reads -/

/-- The parser has nothing to do before more bytes arrive. -/
def Settled (link : Link) : Prop := link.rxLen < 8 ∨ scanNext (received link) = none

section Reads
variable (env : Env) {L : Lists} {link : Link}

theorem rxShift_received (hw : link.rxLen ≤ link.rxBuf.length) (off : ℕ) :
    received (rxShift off link) = (received link).drop off := by
  have hl : ((link.rxBuf.drop off).take (link.rxLen - off)).length = link.rxLen - off := by
    rw [List.length_take, List.length_drop]
    omega
  rw [received, received, rxShift, List.drop_take]
  dsimp only
  split_ifs with hz
  · have ht := RingStore.take_splice (Nat.zero_le link.rxBuf.length)
      ((link.rxBuf.drop off).take (link.rxLen - off))
    rwa [Nat.zero_add, hl, List.take_zero, List.nil_append] at ht
  · rw [not_not.mp hz, List.take_zero, List.take_zero]

theorem rxShift_buf_length (hw : link.rxLen ≤ link.rxBuf.length) (off : ℕ) :
    (rxShift off link).rxBuf.length = link.rxBuf.length := by
  unfold rxShift
  dsimp only
  split_ifs with hz
  · apply RingStore.length_splice
    rw [List.length_take, List.length_drop]
    omega
  · rfl

theorem rxrec_handles (hw : RxWf link) (h : Held link.tx L) :
    ∃ off link' L' fs, rxrec env link.rxBuf link.rxLen link = some (off, link') ∧
      Handles env fs link L link' L' ∧ off ≤ link.rxLen ∧
      refScanner.Passes (received link) fs ((received link).drop off) ∧
      (link.rxLen - off < 8 ∨ scanNext ((received link).drop off) = none) := by
  have hbuf := hw.buf
  have hlen := hw.len
  rw [rxrec]
  split_ifs with hshort
  · exact ⟨0, link, L, [], rfl, .refl env h, Nat.zero_le _, .refl _, Or.inl hshort⟩
  · have hfit : link.rxLen ≤ link.rxBuf.length := by omega
    obtain ⟨off, link', L', fs, hrun, hh, hoff, hpass, hn⟩ :=
      rxrecAnalyse_handles env hfit hlen (Nat.zero_le link.rxLen) h
    rw [List.drop_zero] at hpass
    exact ⟨off, link', L', fs, hrun, hh, hoff, hpass, Or.inr hn⟩

theorem rxPass_spec {bytes : List UInt8} (hw : RxWf link)
    (hb : bytes.length ≤ 1024 - link.rxLen) (h : Held link.tx L) :
    ∃ link' L' fs, rxPass env bytes link = some link' ∧ Keeps link.tx L link'.tx L' ∧
      RxEffect env fs link link' ∧ RxWf link' ∧ Settled link' ∧
      refScanner.Passes (received link ++ bytes) fs (received link') := by
  have hlen := hw.len
  have hbuf := hw.buf
  set link₀ : Link := { link with
    rxBuf := RingStore.splice link.rxBuf link.rxLen bytes, rxLen := link.rxLen + bytes.length }
    with hlink₀
  have hw₀ : RxWf link₀ := by
    refine ⟨?_, by rw [hlink₀]; dsimp only; omega⟩
    rw [hlink₀, ← hbuf]
    exact RingStore.length_splice (by omega)
  have hrec : received link₀ = received link ++ bytes :=
    RingStore.take_splice (by omega) bytes
  obtain ⟨off, l, L', fs, hrun, hh, hoff, hpass, hset⟩ := rxrec_handles env hw₀ h
  have hl : l.rxLen ≤ l.rxBuf.length := by
    rw [hh.same.len, hh.same.buf, hw₀.buf]
    exact hw₀.len.trans (by norm_num)
  have hkept : received l = received link₀ := by
    rw [received, received, hh.same.len, hh.same.buf]
  have hrec' : received (rxShift off l) = (received link₀).drop off := by
    rw [rxShift_received hl, hkept]
  refine ⟨rxShift off l, L', fs, ?_, hh.keeps, ⟨hh.effect.accepted, hh.effect.flag,
    hh.effect.curr, hh.effect.next, hh.effect.rxAna, hh.effect.events⟩, ⟨?_, ?_⟩, ?_, ?_⟩
  · rw [rxPass]
    dsimp only
    rw [← hlink₀]
    exact congrArg (Option.map fun r => rxShift r.1 r.2) hrun
  · rw [rxShift_buf_length hl, hh.same.buf, hw₀.buf]
  · exact (Nat.sub_le _ _).trans (hh.same.len ▸ hw₀.len)
  · rw [Settled, hrec']
    exact hset.imp_left fun hs => (hh.same.len ▸ hs : l.rxLen - off < 8)
  · rw [hrec', ← hrec]
    exact hpass

/-- A call reads some of the bytes on hand and leaves the rest in the ring. -/
structure Analyses (bytes : List UInt8) (fs : List (List UInt8)) (link : Link) (L : Lists)
    (link' : Link) (L' : Lists) : Prop where
  keeps : Keeps link.tx L link'.tx L'
  effect : RxEffect env fs link link'
  wf : RxWf link'
  settled : Settled link'
  passes : refScanner.Passes (received link ++ bytes) fs (received link' ++ link'.rxRing)
  small : ∀ f ∈ fs, f.length ≤ 1024

/-- The loop ends with a full buffer or when nothing is left to read. -/
theorem rxAnalyseLoop_spec {ring : List UInt8} {arrivals : List (List UInt8)} (hw : RxWf link)
    (hs : Settled link) (h : Held link.tx L) :
    ∃ link' L' fs, rxAnalyseLoop env ring arrivals link = some link' ∧
      Analyses env (ring ++ arrivals.flatten) fs link L link' L' ∧
      ((∀ chunk ∈ arrivals, chunk ≠ []) → link'.rxLen < 1024 → link'.rxRing = []) := by
  induction hk : ring.length + arrivals.flatten.length using Nat.strong_induction_on
    generalizing ring arrivals link L with
  | _ n ih =>
    have hall : ring ++ arrivals.headD [] ++ arrivals.tail.flatten = ring ++ arrivals.flatten := by
      cases arrivals <;> simp
    rw [rxAnalyseLoop]
    set here := ring ++ arrivals.headD [] with hhere
    set bytes := here.take (1024 - link.rxLen) with hbytes
    split_ifs with hb
    · refine ⟨_, L, [], rfl, ⟨⟨h, id⟩, ⟨?_, ?_, rfl, rfl, ?_, rfl⟩, ⟨hw.buf, hw.len⟩, hs, ?_, ?_⟩,
        ?_⟩
      · simp
      · simp
      · simp
      · rw [← hall]
        exact .refl _
      · exact nofun
      · intro hne hlt
        dsimp only at hlt ⊢
        have hnil : here = [] := by
          rw [hbytes, List.take_eq_nil_iff] at hb
          exact hb.resolve_left (by omega)
        cases arrivals with
        | nil => rw [hnil]; rfl
        | cons chunk chunks =>
          rw [hhere, List.append_eq_nil_iff] at hnil
          exact absurd hnil.2 (hne chunk List.mem_cons_self)
    · have hsplit : bytes ++ here.drop bytes.length = here :=
        List.prefix_iff_eq_append.mp (List.take_prefix _ _)
      have hlen : bytes.length ≤ 1024 - link.rxLen := List.length_take_le _ _
      obtain ⟨link₁, L₁, fs₁, hrun₁, hk₁, he₁, hw₁, hs₁, hp₁⟩ := rxPass_spec env hw hlen h
      obtain ⟨link', L', fs, hrun, ha, hend⟩ :=
        ih _ (hk ▸ read_decreases hb) hw₁ hs₁ hk₁.1 rfl
      refine ⟨link', L', fs₁ ++ fs, ?_,
        ⟨hk₁.trans ha.keeps, he₁.trans ha.effect, ha.wf, ha.settled, ?_, ?_⟩, ?_⟩
      · rw [hrun₁, Option.bind_some]
        exact hrun
      · have hbytes' : received link ++ (ring ++ arrivals.flatten) =
            received link ++ bytes ++ (here.drop bytes.length ++ arrivals.tail.flatten) := by
          rw [← hall, ← hsplit, List.drop_left]
          simp only [List.append_assoc]
        rw [hbytes']
        exact (hp₁.append _).trans ha.passes
      · intro f hf
        rcases List.mem_append.mp hf with hf | hf
        · have hl := passes_length hp₁ f hf
          have hr := hw.length_received
          have hle := hw.len
          rw [List.length_append] at hl
          omega
        · exact ha.small f hf
      · exact fun hne => hend fun chunk hc => hne chunk (List.mem_of_mem_tail hc)

theorem rxAnalyse_spec (arrivals : List (List UInt8)) (hw : RxWf link) (hs : Settled link)
    (h : Held link.tx L) :
    ∃ link' L' fs, rxAnalyse env arrivals link = some link' ∧
      Analyses env (link.rxRing ++ arrivals.flatten) fs link L link' L' ∧
      ((∀ chunk ∈ arrivals, chunk ≠ []) → link'.rxLen < 1024 → link'.rxRing = []) :=
  rxAnalyseLoop_spec env hw hs h

end Reads

end Tulux.SerialLink
