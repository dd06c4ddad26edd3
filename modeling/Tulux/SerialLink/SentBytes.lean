import Tulux.Lib.Access
import Tulux.SerialLink.Agreement

/-! The bytes that a successful send hands to the driver or leaves in its node, and the memory
that the two send functions access. -/
namespace Tulux.SerialLink

/-- The command, the length field and the payload of a send, and nothing else. -/
structure SendArgs.Framed (args : SendArgs) (frame : List UInt8) : Prop where
  bytes : frame = slFrame yxSerialLinkHeadDown1 yxSerialLinkHeadDown2 args.cmd args.payload
  pdata : ∀ p ∈ args.pdata, args.payload = p.take args.len ∧ args.payload.length = args.len
  len : headLen frame = args.payload.length

/-- What a send left behind the frames of before. -/
def FramesOnly (args : SendArgs) (tx : Tx) (L : Lists) (tx' : Tx) : Prop :=
  ∃ L' handed stored, Held tx' L' ∧ tx'.handed = tx.handed ++ handed ∧
    waiting tx' L' = waiting tx L ++ stored ∧ handed ++ stored ≠ [] ∧
    ∀ frame ∈ handed ++ stored, args.Framed frame

/-! ### Accesses -/

/-- A free node, and memory for its frame. -/
def hasRoom (env : Env) (tx : Tx) : Bool :=
  !yxListEmpty tx.links (.head .stFreeList) && env.malloc tx.mallocCalls

/-- A frame is built in an object of `size` bytes: the head, the copy when there is one, and the
checksum from `cmd_h` on. -/
def buildAccesses (size : ℕ) (args : SendArgs) : List Access :=
  ⟨size, 0, 8⟩ ::
    (match args.pdata with
    | some p =>
      if args.len ≠ 0 ∧ args.len ≤ 1024 then [⟨p.length, 0, args.len⟩, ⟨size, 8, args.len⟩] else []
    | none => []) ++
    [⟨size, 4, args.len + 4⟩]

/-- The driver reads the frame in `tx_buf`; one it does not take is copied to the node. -/
def sendAccesses (env : Env) (args : SendArgs) (tx : Tx) : List Access :=
  buildAccesses tx.txBuf.length args ++ ⟨tx.txBuf.length, 0, args.len + 8⟩ ::
    if env.hwSend tx.handed.length = false ∧ hasRoom env tx then
      [⟨tx.txBuf.length, 0, args.len + 8⟩, ⟨args.len + 8, 0, args.len + 8⟩]
    else []

def send2ListAccesses (env : Env) (connected : Bool) (args : SendArgs) (tx : Tx) : List Access :=
  if connected ∧ hasRoom env tx then buildAccesses (args.len + 8) args else []

section
variable {env : Env} {args : SendArgs} {tx : Tx} {L : Lists}

theorem buildAccesses_inside {size : ℕ} (args : SendArgs) (hsize : args.len + 8 ≤ size) :
    Access.AllInside (buildAccesses size args) := by
  cases hp : args.pdata with
  | none =>
    simp [buildAccesses, hp]
    omega
  | some p =>
    have hcovers : args.len ≤ p.length := args.covers p (by simp [hp])
    by_cases hc : args.len ≠ 0 ∧ args.len ≤ 1024
    · simp [buildAccesses, hp, hc]
      omega
    · simp [buildAccesses, hp, hc]
      omega

theorem send2ListAccesses_inside (env : Env) (connected : Bool) (args : SendArgs) (tx : Tx) :
    Access.AllInside (send2ListAccesses env connected args tx) := by
  unfold send2ListAccesses
  split_ifs
  · exact buildAccesses_inside args (le_refl _)
  · exact Access.allInside_nil

/-- The driver is given `len + 8` bytes of a buffer of 1032. -/
theorem sendAccesses_inside_iff (h : Held tx L) :
    Access.AllInside (sendAccesses env args tx) ↔ args.len ≤ 1024 := by
  constructor
  · intro hall
    have hdriver : (Access.mk tx.txBuf.length 0 (args.len + 8)).Inside :=
      hall _ (by simp [sendAccesses])
    simp [h.txBuf] at hdriver
    omega
  · intro hlen
    have hbuild : Access.AllInside (buildAccesses tx.txBuf.length args) :=
      buildAccesses_inside args (by simp [h.txBuf]; omega)
    simp only [sendAccesses, Access.allInside_append, Access.allInside_cons, Access.inside_mk,
      h.txBuf] at hbuild ⊢
    refine ⟨hbuild, by omega, ?_⟩
    split_ifs
    · simp
      omega
    · exact Access.allInside_nil

/-! ### When a send succeeds -/

theorem queue_sta {tx' : Tx} {buf : ℕ} {item : List UInt8} {node : SerialItemNode} {sta : Bool}
    (h : (queueItem tx buf item node).map (fun tx => (true, tx)) = some (sta, tx')) :
    sta = true := by
  cases hq : queueItem tx buf item node with
  | none => simp [hq] at h
  | some tx₁ => simp_all

/-- `Yx_Serial_Link_Send` fails when the driver does not take the frame and there is no room. -/
theorem yxSerialLinkSend_sta {tx' : Tx} {sta : Bool}
    (hrun : yxSerialLinkSend env args tx = some (sta, tx')) :
    sta = (env.hwSend tx.handed.length || hasRoom env tx) := by
  cases hhw : env.hwSend tx.handed.length with
  | true =>
    have hlen (n : ℕ) (tx : Tx) : (txBufRead env tx (n + 8)).length ≠ 0 := by
      simp only [txBufRead, List.length_take, List.length_append, List.length_map,
        List.length_range]
      omega
    simp [yxSerialLinkSend, hwSenddata, hhw, hlen] at hrun
    simp [hrun.1]
  | false =>
    cases he : yxListEmpty tx.links (.head .stFreeList) with
    | true =>
      simp [yxSerialLinkSend, hwSenddata, hhw, he] at hrun
      simp [hasRoom, he, hrun.1]
    | false =>
      cases hm : env.malloc tx.mallocCalls with
      | true =>
        simp only [yxSerialLinkSend, hwSenddata, hhw, he, yxMalloc, hm] at hrun
        simpa [hasRoom, he, hm] using queue_sta hrun
      | false =>
        simp [yxSerialLinkSend, hwSenddata, hhw, he, yxMalloc, hm] at hrun
        simp [hasRoom, he, hm, hrun.1]

theorem yxSerialLinkSend2List_room {tx' : Tx} {connected : Bool} {needAck : UInt8}
    (hrun : yxSerialLinkSend2List env connected needAck args tx = some (true, tx')) :
    hasRoom env tx = true := by
  cases connected with
  | false => simp [yxSerialLinkSend2List] at hrun
  | true =>
    cases he : yxListEmpty tx.links (.head .stFreeList) with
    | true => simp [yxSerialLinkSend2List, he] at hrun
    | false =>
      cases hm : env.malloc tx.mallocCalls with
      | true => simp [hasRoom, he, hm]
      | false => simp [yxSerialLinkSend2List, he, yxMalloc, hm] at hrun

/-! ### Sent bytes -/

/-- A successful send leaves frames of its command and payload, and neither function leaves its
buffers or the payload. -/
structure SendsFrame (env : Env) (connected : Bool) (needAck : UInt8) (args : SendArgs) (tx : Tx)
    (L : Lists) : Prop where
  send : ∀ tx', yxSerialLinkSend env args tx = some (true, tx') → FramesOnly args tx L tx'
  send2List : ∀ tx', yxSerialLinkSend2List env connected needAck args tx = some (true, tx') →
    FramesOnly args tx L tx'
  sendInside : Access.AllInside (sendAccesses env args tx)
  send2ListInside : Access.AllInside (send2ListAccesses env connected args tx)

/-- The payload fits, and there is one when its length is not zero, unless the driver does not
take the frame and there is no room for it. -/
def PayloadCopied (env : Env) (args : SendArgs) (tx : Tx) : Prop :=
  args.len ≤ 1024 ∧ (args.pdata = none → args.len = 0 ∨
    (env.hwSend tx.handed.length = false ∧ hasRoom env tx = false))

theorem SendArgs.Copied.framed (h : args.Copied) :
    args.Framed (slFrame yxSerialLinkHeadDown1 yxSerialLinkHeadDown2 args.cmd args.payload) := by
  have hlen := h.length_payload
  refine ⟨rfl, fun p hp => ⟨?_, hlen⟩, headLen_slFrame _ _ _ ?_⟩
  · simp [SendArgs.payload, Option.mem_def.mp hp]
  · have := h.len
    omega

theorem SendArgs.Framed.length {frame : List UInt8} (h : args.Framed frame) :
    frame.length = args.payload.length + 8 := by
  rw [h.bytes, length_slFrame]

theorem SendArgs.Copied.send (h : args.Copied) (hh : Held tx L) {tx' : Tx}
    (hrun : yxSerialLinkSend env args tx = some (true, tx')) : FramesOnly args tx L tx' := by
  obtain ⟨sta, tx₁, L₁, hspec, hkeep, hhanded, -, hwait, -⟩ := yxSerialLinkSend_spec env args hh
  simp only [hrun, Option.some.injEq, Prod.mk.injEq] at hspec
  obtain ⟨rfl, rfl⟩ := hspec
  rw [sendItem_eq h env hh] at hhanded hwait
  refine ⟨L₁, _, _, hkeep.1, hhanded, hwait, by simp, fun frame hf => ?_⟩
  split_ifs at hf <;> simp_all [h.framed]

theorem SendArgs.Copied.send2List (h : args.Copied) (hh : Held tx L) {connected : Bool}
    {needAck : UInt8} {tx' : Tx}
    (hrun : yxSerialLinkSend2List env connected needAck args tx = some (true, tx')) :
    FramesOnly args tx L tx' := by
  obtain ⟨sta, tx₁, L₁, hspec, hkeep, hhanded, hwait, -⟩ :=
    yxSerialLinkSend2List_spec env connected needAck args hh
  simp only [hrun, Option.some.injEq, Prod.mk.injEq] at hspec
  obtain ⟨rfl, rfl⟩ := hspec
  rw [listItem_take h, if_pos rfl] at hwait
  exact ⟨L₁, [], _, hkeep.1, by simp [hhanded], hwait, by simp, by simp [h.framed]⟩

/-- Without a payload the driver is given the bytes that `tx_buf` held. -/
theorem SendsFrame.copied {connected : Bool} {needAck : UInt8} (hh : Held tx L)
    (h : SendsFrame env connected needAck args tx L) : PayloadCopied env args tx := by
  refine ⟨(sendAccesses_inside_iff hh).mp h.sendInside, fun hp => ?_⟩
  by_contra! hno
  obtain ⟨hlen, hfails⟩ := hno
  obtain ⟨sta, tx', L', hrun, -, hhanded, -⟩ := yxSerialLinkSend_spec env args hh
  have hsta : sta = true := by
    rw [yxSerialLinkSend_sta hrun]
    cases hhw : env.hwSend tx.handed.length <;> simp_all
  subst hsta
  obtain ⟨L₁, handed, stored, -, hhanded', -, -, hall⟩ := h.send tx' hrun
  have hsent : handed = [sendItem env args tx] := by
    simpa using hhanded'.symm.trans hhanded
  have hframed : args.Framed (sendItem env args tx) := hall _ (by simp [hsent])
  have hlength := hframed.length
  simp [length_sendItem, SendArgs.payload, hp] at hlength
  exact hlen hlength

/-- The frame goes out exactly when the whole payload is copied. -/
theorem sendsFrame_iff (env : Env) (connected : Bool) (needAck : UInt8) (args : SendArgs)
    (hh : Held tx L) :
    SendsFrame env connected needAck args tx L ↔ PayloadCopied env args tx := by
  constructor
  · exact SendsFrame.copied hh
  · rintro ⟨hlen, hdata⟩
    have hinside : Access.AllInside (sendAccesses env args tx) :=
      (sendAccesses_inside_iff hh).mpr hlen
    have hinside' := send2ListAccesses_inside env connected args tx
    by_cases hc : args.pdata = none → args.len = 0
    · have hcopied : args.Copied := ⟨hlen, hc⟩
      exact ⟨fun _ => hcopied.send hh, fun _ => hcopied.send2List hh, hinside, hinside'⟩
    · -- there is no payload to copy, and no send succeeds
      obtain ⟨hp, hz⟩ := Classical.not_imp.mp hc
      obtain ⟨hhw, hroom⟩ := (hdata hp).resolve_left hz
      refine ⟨fun tx' hrun => ?_, fun tx' hrun => ?_, hinside, hinside'⟩
      · simpa [hhw, hroom] using yxSerialLinkSend_sta hrun
      · simpa [hroom] using yxSerialLinkSend2List_room hrun

/-- Three zero bytes, sent and queued behind the start of the link. -/
theorem sendsFrame_zeros :
    ∃ link L, yxSerialLinkInit acceptingEnv = some link ∧
      SendsFrame acceptingEnv true 1 (zeros 3) link.tx L := by
  obtain ⟨link, L, hinit, hok, -⟩ := init_spec acceptingEnv
  exact ⟨link, L, hinit, (sendsFrame_iff acceptingEnv true 1 (zeros 3) hok.held).mpr
    ⟨by decide, by simp [zeros]⟩⟩

/-- No data, and the length of one byte. -/
def noBytes : SendArgs := ⟨0x31, none, 1, by simp⟩

/-- The driver takes nine bytes for it. -/
theorem not_sendsFrame_noBytes :
    ∃ link L, yxSerialLinkInit acceptingEnv = some link ∧ Held link.tx L ∧
      ¬ SendsFrame acceptingEnv true 1 noBytes link.tx L := by
  obtain ⟨link, L, hinit, hok, -⟩ := init_spec acceptingEnv
  refine ⟨link, L, hinit, hok.held, fun h => ?_⟩
  have hcopied := (h.copied hok.held).2 rfl
  simp [noBytes, acceptingEnv] at hcopied

end

end Tulux.SerialLink
