import Tulux.SerialLink.Delivery

/-! A frame that one side hands to its driver, and what the other side makes of it. -/
namespace Tulux.SerialLink
open Framing

/-- The bytes that a send copies. -/
def SendArgs.payload (args : SendArgs) : List UInt8 := (args.pdata.getD []).take args.len

/-- The send functions copy the whole payload. -/
structure SendArgs.Copied (args : SendArgs) : Prop where
  len : args.len ≤ 1024
  pdata : args.pdata = none → args.len = 0

theorem SendArgs.Copied.length_payload {args : SendArgs} (h : args.Copied) :
    args.payload.length = args.len := by
  rw [SendArgs.payload, List.length_take]
  cases hp : args.pdata with
  | none => simp [h.pdata hp]
  | some p =>
    have := args.covers p (by simp [hp])
    simpa using this

/-- What the checksum is taken over: the command, the length and the payload. -/
def slBody (cmd : UInt32) (payload : List UInt8) : List UInt8 :=
  [(cmd >>> 8).toUInt8, cmd.toUInt8, UInt8.ofNat (payload.length / 256),
    UInt8.ofNat payload.length] ++ payload

/-- A whole frame. -/
def slFrame (h₁ h₂ : UInt8) (cmd : UInt32) (payload : List UInt8) : List UInt8 :=
  [h₁, h₂, yxChksumGetxor (slBody cmd payload), yxSerialLinkDeviceType] ++ slBody cmd payload

/-- The frame with the head of the other direction. -/
def upFrame (frame : List UInt8) : List UInt8 :=
  [yxSerialLinkHeadUp1, yxSerialLinkHeadUp2] ++ frame.drop 2

section Sender

theorem length_slFrame (h₁ h₂ : UInt8) (cmd : UInt32) (payload : List UInt8) :
    (slFrame h₁ h₂ cmd payload).length = payload.length + 8 := by
  simp only [slFrame, slBody, List.length_append, List.length_cons, List.length_nil]
  omega

theorem upFrame_slFrame (h₁ h₂ : UInt8) (cmd : UInt32) (payload : List UInt8) :
    upFrame (slFrame h₁ h₂ cmd payload) =
      slFrame yxSerialLinkHeadUp1 yxSerialLinkHeadUp2 cmd payload := rfl

/-- What the send functions build, of the length they hand over. -/
theorem buildItem_take {item : List UInt8} {args : SendArgs} (h : args.Copied)
    (beyond : List UInt8) (h₁ h₂ : UInt8) :
    (buildItem item beyond h₁ h₂ args).take (args.len + 8) =
      slFrame h₁ h₂ args.cmd args.payload := by
  have hlen := h.length_payload
  have hcopy : copyData (fillHead item h₁ h₂ args.cmd args.len) args =
      [h₁, h₂, item.getD 2 0, yxSerialLinkDeviceType] ++ slBody args.cmd args.payload ++
        item.drop (args.len + 8) := by
    rw [slBody, hlen, copyData]
    cases hp : args.pdata with
    | none => simp [fillHead, SendArgs.payload, hp, h.pdata hp]
    | some p =>
      dsimp only
      have hpay : p.take args.len = args.payload := by rw [SendArgs.payload, hp, Option.getD_some]
      split_ifs with hc
      · rw [hpay, RingStore.splice, hlen, fillHead]
        simp [Nat.add_comm]
      · have hz : args.len = 0 := by
          have := h.len
          omega
        simp [fillHead, SendArgs.payload, hz]
  rw [buildItem, hcopy]
  have hbody : (slBody args.cmd args.payload).length = args.len + 4 := by
    simp [slBody, hlen]
  have hxor : itemXor ([h₁, h₂, item.getD 2 0, yxSerialLinkDeviceType] ++
      slBody args.cmd args.payload ++ item.drop (args.len + 8) ++ beyond) args.len =
        yxChksumGetxor (slBody args.cmd args.payload) := by
    have hdrop (b₀ b₁ b₂ b₃ : UInt8) (xs : List UInt8) :
        ([b₀, b₁, b₂, b₃] ++ xs).drop 4 = xs := rfl
    rw [itemXor, List.append_assoc, List.append_assoc, hdrop, List.take_left' hbody]
  rw [hxor, List.append_assoc, List.set_append_left _ _ (by simp), ← List.append_assoc]
  exact List.take_left' (by simp [hbody])

theorem sendItem_eq {args : SendArgs} (h : args.Copied) (env : Env) {tx : Tx} {L : Lists}
    (hh : Held tx L) :
    sendItem env args tx =
      slFrame yxSerialLinkHeadDown1 yxSerialLinkHeadDown2 args.cmd args.payload := by
  have hlen := h.len
  have hbuf := hh.txBuf
  rw [sendItem, txBufRead]
  dsimp only
  rw [List.take_append_of_le_length, buildItem_take h]
  rw [length_buildItem _ _ _ _ (by omega) (by omega)]
  omega

theorem listItem_take {args : SendArgs} (h : args.Copied) (env : Env) (buf : ℕ) :
    (listItem env args buf).take (args.len + 8) =
      slFrame yxSerialLinkHeadDown1 yxSerialLinkHeadDown2 args.cmd args.payload :=
  buildItem_take h [] _ _

/-- A frame that a send with these arguments hands to the driver: at once, or after it has waited
on the list. -/
def HandsFrame (env : Env) (args : SendArgs) (tx : Tx) (frame : List UInt8) : Prop :=
  (∃ sta tx', yxSerialLinkSend env args tx = some (sta, tx') ∧
    tx'.handed = tx.handed ++ [frame]) ∨
  ∃ needAck tx₁ tx₂, yxSerialLinkSend2List env true needAck args tx = some (true, tx₁) ∧
    sendWaittxlistnode env true tx₁ = some (true, tx₂) ∧ tx₂.handed.getLast? = some frame

theorem HandsFrame.eq {env : Env} {args : SendArgs} {tx : Tx} {L : Lists} {frame : List UInt8}
    (hf : HandsFrame env args tx frame) (h : args.Copied) (hh : Held tx L) :
    frame = slFrame yxSerialLinkHeadDown1 yxSerialLinkHeadDown2 args.cmd args.payload := by
  rcases hf with ⟨sta, tx', hrun, heq⟩ | ⟨needAck, tx₁, tx₂, hrun₁, hrun₂, hlast⟩
  · obtain ⟨sta', tx'', L', hrun', -, heq', -⟩ := yxSerialLinkSend_spec env args hh
    rw [hrun, Option.some.injEq, Prod.mk.injEq] at hrun'
    rw [← hrun'.2, heq, sendItem_eq h env hh, List.append_cancel_left_eq] at heq'
    exact List.singleton_injective heq'
  · obtain ⟨sta₁, tx₁', L₁, hrun₁', hkeep, -, hwait, -⟩ :=
      yxSerialLinkSend2List_spec env true needAck args hh
    rw [hrun₁, Option.some.injEq, Prod.mk.injEq] at hrun₁'
    obtain ⟨rfl, rfl⟩ := hrun₁'
    obtain ⟨sta₂, tx₂', L₂, n, -, hrun₂', -, heq, hall, -⟩ := sendWaittxlistnode_spec env hkeep.1
    rw [hrun₂, Option.some.injEq, Prod.mk.injEq] at hrun₂'
    obtain ⟨rfl, rfl⟩ := hrun₂'
    rw [List.take_of_length_le (hall rfl), hwait, if_pos rfl, listItem_take h] at heq
    rw [heq, ← List.append_assoc, List.getLast?_concat, Option.some.injEq] at hlast
    exact hlast.symm

theorem yxSerialLinkSend_hands (env : Env) (args : SendArgs) {tx : Tx} {L : Lists}
    (hh : Held tx L) : HandsFrame env args tx (sendItem env args tx) := by
  obtain ⟨sta, tx', L', hrun, -, heq, -⟩ := yxSerialLinkSend_spec env args hh
  exact Or.inl ⟨sta, tx', hrun, heq⟩

end Sender

section Frames
variable {cmd : UInt32} {payload : List UInt8}

theorem headCmd_slFrame (h₁ h₂ : UInt8) (hc : cmd.toNat < 65536) (payload : List UInt8) :
    headCmd (slFrame h₁ h₂ cmd payload) = cmd.toNat := by
  have hhi : (cmd >>> 8).toUInt8.toNat = cmd.toNat / 256 := by
    simp [Nat.shiftRight_eq_div_pow]
    omega
  have hlo : cmd.toUInt8.toNat = cmd.toNat % 256 := by simp
  have hcmd : headCmd (slFrame h₁ h₂ cmd payload) =
      (cmd >>> 8).toUInt8.toNat * 256 + cmd.toUInt8.toNat := rfl
  omega

theorem headLen_slFrame (h₁ h₂ : UInt8) (cmd : UInt32) (hp : payload.length < 65536) :
    headLen (slFrame h₁ h₂ cmd payload) = payload.length := by
  have hhi : (UInt8.ofNat (payload.length / 256)).toNat = payload.length / 256 := by
    rw [UInt8.toNat_ofNat']
    omega
  have hlo : (UInt8.ofNat payload.length).toNat = payload.length % 256 := UInt8.toNat_ofNat'
  have hlen : headLen (slFrame h₁ h₂ cmd payload) =
      (UInt8.ofNat (payload.length / 256)).toNat * 256 + (UInt8.ofNat payload.length).toNat := rfl
  omega

/-- The plain scan accepts an incoming frame whole. -/
theorem scanNext_slFrame (hp : payload.length < 65536) :
    let frame := slFrame yxSerialLinkHeadUp1 yxSerialLinkHeadUp2 cmd payload
    scanNext frame = some (frame.length, some frame) := by
  intro frame
  have hlen : headLen frame = payload.length := headLen_slFrame _ _ cmd hp
  have hframe : frame.length = payload.length + 8 := length_slFrame _ _ cmd payload
  have hs : startsFrame frame := by simp [frame, slFrame, startsFrame]
  have hcrc : headCrc frame = itemXor frame (headLen frame) := by
    have hbody : (slBody cmd payload).length ≤ payload.length + 4 := by simp [slBody]
    have hdrop : frame.drop 4 = slBody cmd payload := rfl
    rw [hlen, itemXor, hdrop, List.take_of_length_le hbody]
    rfl
  rw [scanNext_accept hs (by omega) hcrc, hlen, Nat.add_comm, ← hframe, List.take_length]

end Frames

section Agreement
variable {senderEnv env : Env} {cond cond' : Link → LinkOp → Prop} {sender receiver : Link}
  {args : SendArgs} {frame : List UInt8}

theorem isData_iff (frame : List UInt8) :
    isData frame = true ↔ headCmd frame ≠ yxSerialLinkReqCmd ∧
      headCmd frame ≠ yxSerialLinkBeatCmd := by
  rw [isData, Bool.and_eq_true, bne_iff_ne, bne_iff_ne]

/-- No frame longer than the receive buffer gets through. -/
theorem rxAnalyses_small (calls : List (List (List UInt8))) (hr : Reachable env cond receiver) :
    ∃ receiver' fs, rxAnalyses env calls receiver = some receiver' ∧
      receiver'.called.filterMap rxAnaFrame = receiver.called.filterMap rxAnaFrame ++ fs ∧
      ∀ f ∈ fs, f.length ≤ 1024 := by
  obtain ⟨L, hok⟩ := hr.ok
  obtain ⟨receiver', L', fs, hrun, ha, -⟩ :=
    rxAnalyses_spec env calls hok.rx hok.settled hok.held
  refine ⟨receiver', _, hrun, ha.effect.rxAna, fun f hf => ha.small f ?_⟩
  split_ifs at hf with hana
  · exact (List.mem_filter.mp hf).1
  · nomatch hf

/-- The receive callback gets the frame, once, and with it the command and the payload. -/
def Restores (env : Env) (calls : List (List (List UInt8))) (receiver : Link) (args : SendArgs)
    (frame : List UInt8) : Prop :=
  ∃ receiver', rxAnalyses env calls receiver = some receiver' ∧
    receiver'.called.filterMap rxAnaFrame =
      receiver.called.filterMap rxAnaFrame ++ [upFrame frame] ∧
    headCmd (upFrame frame) = args.cmd.toNat ∧ (upFrame frame).drop 8 = args.payload

theorem Restores.length_le {calls : List (List (List UInt8))}
    (hr : Reachable env cond receiver) (h : Restores env calls receiver args frame) :
    (upFrame frame).length ≤ 1024 := by
  obtain ⟨receiver', hrun, hana, -⟩ := h
  obtain ⟨receiver'', fs, hrun', hana', hsmall⟩ := rxAnalyses_small calls hr
  obtain rfl := Option.some.inj (hrun.symm.trans hrun')
  rw [hana, List.append_cancel_left_eq] at hana'
  exact hsmall _ (by rw [← hana', List.mem_singleton])

/-- A frame that was handed to the driver is received, however it is cut into reads, exactly when
its payload leaves room for the head in the receive buffer. -/
theorem restores_iff_len_le (hs : Reachable senderEnv cond sender)
    (hr : Reachable env cond' receiver) (hd : Drained receiver) (hana : env.rxAnaCb = true)
    (hcopied : args.Copied) (hcmd : args.cmd.toNat < 65536)
    (hreq : args.cmd.toNat ≠ yxSerialLinkReqCmd) (hbeat : args.cmd.toNat ≠ yxSerialLinkBeatCmd)
    (hsent : HandsFrame senderEnv args sender.tx frame) {calls : List (List (List UInt8))}
    (hne : ∀ arrivals ∈ calls, ∀ chunk ∈ arrivals, chunk ≠ [])
    (hcut : calls.flatten.flatten = upFrame frame) :
    Restores env calls receiver args frame ↔ args.len ≤ 1016 := by
  obtain ⟨L, hok⟩ := hs.ok
  have hup : upFrame frame =
      slFrame yxSerialLinkHeadUp1 yxSerialLinkHeadUp2 args.cmd args.payload := by
    rw [hsent.eq hcopied hok.held, upFrame_slFrame]
  have hlen := hcopied.len
  have hpay := hcopied.length_payload
  have hhead : headCmd (upFrame frame) = args.cmd.toNat := by rw [hup, headCmd_slFrame _ _ hcmd]
  have hlong : (upFrame frame).length = args.len + 8 := by rw [hup, length_slFrame, hpay]
  constructor
  · intro h
    have := h.length_le hr
    omega
  · intro hle
    obtain ⟨L', hok'⟩ := hr.ok
    have hscan : scanNext (upFrame frame) = some ((upFrame frame).length, some (upFrame frame)) := by
      rw [hup]
      exact scanNext_slFrame (by omega)
    have hsize : headLen (upFrame frame) ≤ 1016 := by
      rw [hup, headLen_slFrame _ _ _ (by omega)]
      omega
    obtain ⟨receiver', hrun, heff⟩ := rxAnalyses_frames env hok'.rx hok'.held hd hne
      (by rw [hcut]; exact (fitting_whole hscan hsize).noOverlong)
    refine ⟨receiver', hrun, ?_, hhead, by rw [hup]; rfl⟩
    have hdata : isData (upFrame frame) = true :=
      (isData_iff _).mpr ⟨by rwa [hhead], by rwa [hhead]⟩
    rw [heff.rxAna, if_pos hana, hcut, refFrames_whole hscan, List.filter_cons_of_pos hdata,
      List.filter_nil]

/-- A command with a payload of `n` zeros. -/
def zeros (n : ℕ) : SendArgs := ⟨0x1234, some (List.replicate n 0), n, by simp⟩

theorem zeros_copied {n : ℕ} (h : n ≤ 1024) : (zeros n).Copied := ⟨h, nofun⟩

theorem restores_zeros :
    ∃ link frame, yxSerialLinkInit acceptingEnv = some link ∧
      HandsFrame acceptingEnv (zeros 3) link.tx frame ∧
      (Restores acceptingEnv [[(upFrame frame).take 5], [(upFrame frame).drop 5]] link (zeros 3)
        frame ↔ (zeros 3).len ≤ 1016) := by
  obtain ⟨link, L, hinit, hok, -, -, hlen, hring⟩ := init_spec acceptingEnv
  have hr : Reachable acceptingEnv (fun _ _ => True) link := .init hinit
  have hcopied : (zeros 3).Copied := zeros_copied (by omega)
  have hsent := yxSerialLinkSend_hands acceptingEnv (zeros 3) hok.held
  have hframe := hsent.eq hcopied hok.held
  refine ⟨link, _, hinit, hsent, restores_iff_len_le hr hr ⟨hlen, hring⟩ rfl hcopied
    (by decide) (by decide) (by decide) hsent ?_ (by simp)⟩
  rw [hframe]
  decide

/-- The driver gets a frame of 1025 bytes, and the other side does not. -/
theorem not_restores_1017 :
    ∃ link frame, yxSerialLinkInit acceptingEnv = some link ∧
      HandsFrame acceptingEnv (zeros 1017) link.tx frame ∧
      ¬ Restores acceptingEnv [[upFrame frame]] link (zeros 1017) frame := by
  obtain ⟨link, L, hinit, hok, -⟩ := init_spec acceptingEnv
  have hr : Reachable acceptingEnv (fun _ _ => True) link := .init hinit
  have hcopied : (zeros 1017).Copied := zeros_copied (by omega)
  have hsent := yxSerialLinkSend_hands acceptingEnv (zeros 1017) hok.held
  refine ⟨link, _, hinit, hsent, fun h => ?_⟩
  have hle := h.length_le hr
  rw [hsent.eq hcopied hok.held, upFrame_slFrame, length_slFrame, hcopied.length_payload] at hle
  exact absurd hle (by decide)

end Agreement

end Tulux.SerialLink
