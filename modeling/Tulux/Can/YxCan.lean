import Mathlib.Data.List.GetD
import Tulux.Lib.Access
import Tulux.SerialLink.Agreement

/-! CAN messages over the serial link, `yx_can.c`. -/
namespace Tulux.Can
open SerialLink

abbrev canRecCmd : UInt32 := 0x0030

/-- `yx_str_char2long_lsb`. -/
def yxStrChar2longLsb (src₀ src₁ src₂ src₃ : UInt8) : UInt32 :=
  src₃.toUInt32 <<< 24 ||| src₂.toUInt32 <<< 16 ||| src₁.toUInt32 <<< 8 ||| src₀.toUInt32

def yxStrLong2charLsb (src : UInt32) : List UInt8 :=
  [src.toUInt8, (src >>> 8).toUInt8, (src >>> 16).toUInt8, (src >>> 24).toUInt8]

/-- The array `data[8]` after `memcpy` of `len` bytes to its start. -/
def copyData (data : Fin 8 → UInt8) (src : List UInt8) (len : UInt8) : Fin 8 → UInt8 :=
  fun i => if i < len.toNat then src.getD i 0 else data i

/-- `YX_CAN_RX_T`. -/
structure YxCanRx where
  ch : UInt8
  canId : UInt32
  format : UInt8
  type : UInt8
  len : UInt8
  data : Fin 8 → UInt8

/-- `pCanData->len`, in memory that starts with the head of the frame. -/
def canLen (item : List UInt8) : UInt8 := item.getD 15 0

/-- The message given to the callback, if any. `stack` is what `tCanRxMsg.Data` held before. -/
def yxCanRxHandle (callback : Bool) (stack : Fin 8 → UInt8) (item : List UInt8) :
    Option YxCanRx :=
  if headCmd item = canRecCmd.toNat then
    let tCanRxMsg : YxCanRx := {
      ch := item.getD 8 0
      canId := yxStrChar2longLsb (item.getD 9 0) (item.getD 10 0) (item.getD 11 0) (item.getD 12 0)
      format := item.getD 13 0
      type := item.getD 14 0
      len := canLen item
      data := copyData stack (item.drop 16) (canLen item) }
    if callback then some tCanRxMsg else none
  else none

/-- The command and the fields are read from a frame of `size` bytes, and the data copied. -/
def canRxAccesses (size : ℕ) (item : List UInt8) : List Access :=
  ⟨size, 4, 2⟩ ::
    if headCmd item = canRecCmd.toNat then
      [⟨size, 8, 8⟩, ⟨size, 16, (canLen item).toNat⟩, ⟨8, 0, (canLen item).toNat⟩]
    else []

/-! ### Receiving -/

/-- The frame holds the fields and as many data bytes as it declares, at most 8. -/
def Represents (frame : List UInt8) : Prop :=
  (canLen frame).toNat ≤ 8 ∧ 16 + (canLen frame).toNat ≤ frame.length

instance (frame : List UInt8) : Decidable (Represents frame) := inferInstanceAs (Decidable (_ ∧ _))

/-- `_yx_can_rx_handle` stays inside the frame and the array, whatever lies behind the frame, and
reports no frame that it cannot represent. -/
structure RxSafe (callback : Bool) (stack : Fin 8 → UInt8) (frame behind : List UInt8) : Prop where
  inside : Access.AllInside (canRxAccesses frame.length (frame ++ behind))
  len : ∀ msg ∈ yxCanRxHandle callback stack (frame ++ behind), msg.len.toNat ≤ 8
  unreported : ¬ Represents frame → yxCanRxHandle callback stack (frame ++ behind) = none

section Receive
variable {frame behind : List UInt8}

theorem canLen_append (h : 16 ≤ frame.length) : canLen (frame ++ behind) = canLen frame := by
  rw [canLen, canLen, List.getD_append _ _ _ _ (by omega)]

theorem headCmd_append (h : 8 ≤ frame.length) : headCmd (frame ++ behind) = headCmd frame := by
  rw [headCmd, headCmd, List.getD_append _ _ _ _ (by omega), List.getD_append _ _ _ _ (by omega)]

theorem rxSafe_iff (callback : Bool) (stack : Fin 8 → UInt8) (h : 8 ≤ frame.length)
    (hcmd : headCmd frame = canRecCmd.toNat) :
    RxSafe callback stack frame behind ↔ Represents frame := by
  have hcmd' : headCmd (frame ++ behind) = canRecCmd.toNat := (headCmd_append h).trans hcmd
  constructor
  · intro hs
    have hall := hs.inside
    rw [canRxAccesses, if_pos hcmd'] at hall
    simp only [Access.allInside_cons, Access.inside_mk] at hall
    obtain ⟨-, hfields, hread, hwrite, -⟩ := hall
    rw [canLen_append hfields] at hread hwrite
    exact ⟨by omega, hread⟩
  · rintro ⟨hlen, hfit⟩
    have hsame : canLen (frame ++ behind) = canLen frame := canLen_append (by omega)
    refine ⟨?_, fun msg hmsg => ?_, fun hno => absurd ⟨hlen, hfit⟩ hno⟩
    · rw [canRxAccesses, if_pos hcmd']
      simp only [Access.allInside_cons, Access.inside_mk, hsame]
      exact ⟨by omega, by omega, hfit, by omega, Access.allInside_nil⟩
    · rw [yxCanRxHandle, if_pos hcmd'] at hmsg
      dsimp only at hmsg
      split_ifs at hmsg
      · obtain rfl := Option.some.inj hmsg
        rwa [hsame]
      · exact absurd hmsg (by simp)

/-- Of the frames that the link accepts, exactly those that `YX_CAN_RX_T` represents are safe. -/
theorem accepted_rxSafe_iff {env : Env} {pbuf : List UInt8} {datalen off : ℕ} {link link' : Link}
    (hbuf : datalen ≤ pbuf.length) (hrun : rxrec env pbuf datalen link = some (off, link'))
    (hacc : frame ∈ link'.accepted.drop link.accepted.length)
    (hcmd : headCmd frame = canRecCmd.toNat) (callback : Bool) (stack : Fin 8 → UInt8)
    (behind : List UInt8) : RxSafe callback stack frame behind ↔ Represents frame := by
  obtain ⟨fs, hfs, hall⟩ := rxrec_accepted hbuf hrun
  rw [hfs, List.drop_left] at hacc
  have hlen := hall frame hacc
  exact rxSafe_iff callback stack (by omega) hcmd

/-- A CAN message with eight bytes, in a frame that declares `len`. -/
def canFrame (len : UInt8) : List UInt8 :=
  slFrame yxSerialLinkHeadUp1 yxSerialLinkHeadUp2 canRecCmd
    ([1, 0x23, 0x01, 0, 0, 0, 0, len] ++ [1, 2, 3, 4, 5, 6, 7, 8])

/-- The link accepts the frame whatever it declares. -/
theorem rxrec_canFrame (len : UInt8) (hlen : len = 8 ∨ len = 255) :
    ∃ link link', yxSerialLinkInit acceptingEnv = some link ∧
      rxrec acceptingEnv (canFrame len) 24 link = some (24, link') ∧
      canFrame len ∈ link'.accepted.drop link.accepted.length := by
  have hview : ∀ len ∈ [(8 : UInt8), 255], (yxSerialLinkInit acceptingEnv).bind (fun link =>
      (rxrec acceptingEnv (canFrame len) 24 link).map fun r =>
        (r.1, r.2.accepted.drop link.accepted.length)) = some (24, [canFrame len]) := by
    decide +kernel
  have hrun := hview len (by simpa using hlen)
  rw [Option.bind_eq_some_iff] at hrun
  obtain ⟨link, hinit, hrun⟩ := hrun
  obtain ⟨⟨off, link'⟩, hrec, hacc⟩ := Option.map_eq_some_iff.mp hrun
  obtain ⟨rfl, hacc⟩ := Prod.mk.inj hacc
  exact ⟨link, link', hinit, hrec, by simp [hacc]⟩

theorem accepted_rxSafe_iff_eight :
    ∃ link link', yxSerialLinkInit acceptingEnv = some link ∧
      rxrec acceptingEnv (canFrame 8) 24 link = some (24, link') ∧
      (RxSafe true (fun _ => 0) (canFrame 8) [] ↔ Represents (canFrame 8)) := by
  obtain ⟨link, link', hinit, hrec, hacc⟩ := rxrec_canFrame 8 (Or.inl rfl)
  exact ⟨link, link', hinit, hrec,
    accepted_rxSafe_iff (by decide) hrec hacc (by decide) true (fun _ => 0) []⟩

/-- 255 bytes are copied from a frame of 24 to an array of 8. -/
theorem not_accepted_rxSafe :
    ∃ link link', yxSerialLinkInit acceptingEnv = some link ∧
      rxrec acceptingEnv (canFrame 255) 24 link = some (24, link') ∧
      canFrame 255 ∈ link'.accepted.drop link.accepted.length ∧
      headCmd (canFrame 255) = canRecCmd.toNat ∧
      ¬ RxSafe true (fun _ => 0) (canFrame 255) [] := by
  obtain ⟨link, link', hinit, hrec, hacc⟩ := rxrec_canFrame 255 (Or.inr rfl)
  refine ⟨link, link', hinit, hrec, hacc, by decide, fun hs => ?_⟩
  have hrep : Represents (canFrame 255) :=
    (rxSafe_iff true (fun _ => 0) (by decide) (by decide)).mp hs
  exact absurd hrep (by decide)

end Receive

/-! ### Sending -/

abbrev canSendCmd : UInt32 := 0x0031
abbrev canChannelNull : UInt32 := 0
abbrev canChannelMax : UInt32 := 4
abbrev canFormatStd : UInt32 := 0
abbrev canFormatExt : UInt32 := 1
abbrev canFrameTypeData : UInt32 := 0
abbrev canFrameTypeRemote : UInt32 := 1

/-- The arguments of `Yx_Can_Send`. -/
structure CanArgs where
  ch : UInt32
  format : UInt32
  type : UInt32
  canid : UInt32
  pdata : List UInt8
  len : UInt8
  /-- `pdata` points to as many bytes. -/
  covers : len.toNat ≤ pdata.length

/-- The bytes of `tCanMsg`. `stack` is what its data held before. -/
def canMsg (stack : Fin 8 → UInt8) (args : CanArgs) : List UInt8 :=
  [args.ch.toUInt8] ++ yxStrLong2charLsb args.canid ++
    [args.format.toUInt8, args.type.toUInt8, 8] ++
    List.ofFn (copyData stack args.pdata args.len)

/-- The payload passed to `Yx_Serial_Link_Send` with `canSendCmd`, or the error that is
returned. -/
def yxCanSend (stack : Fin 8 → UInt8) (args : CanArgs) : Except ℤ (List UInt8) :=
  if args.ch ≤ canChannelNull ∨ canChannelMax ≤ args.ch then .error (-1)
  else if args.format ≠ canFormatStd ∧ args.format ≠ canFormatExt then .error (-2)
  else if args.type ≠ canFrameTypeData ∧ args.type ≠ canFrameTypeRemote then .error (-3)
  else if 8 < args.len then .error (-4)
  else .ok (canMsg stack args)

/-- The payload depends on nothing but the arguments, and received in a frame of its own it gives
them back. -/
def RoundTrips (args : CanArgs) : Prop :=
  (∀ stack stack', yxCanSend stack args = yxCanSend stack' args) ∧
    ∀ stack stack' payload, yxCanSend stack args = .ok payload →
      ∃ msg, yxCanRxHandle true stack'
          (slFrame yxSerialLinkHeadUp1 yxSerialLinkHeadUp2 canRecCmd payload) = some msg ∧
        msg.ch.toUInt32 = args.ch ∧ msg.canId = args.canid ∧ msg.format.toUInt32 = args.format ∧
        msg.type.toUInt32 = args.type ∧
        ∀ i : Fin 8, i < args.len.toNat → msg.data i = args.pdata.getD i 0

section Send
variable {args : CanArgs}

/-- One more byte below the bits from `k + 8` on. -/
theorem div_mul_or_byte (n k : ℕ) :
    n / 2 ^ (k + 8) * 2 ^ (k + 8) ||| n / 2 ^ k % 256 * 2 ^ k = n / 2 ^ k * 2 ^ k := by
  have hpow : 2 ^ (k + 8) = 2 ^ k * 256 := pow_add 2 k 8
  have hlt : n / 2 ^ k % 256 * 2 ^ k < 2 ^ (k + 8) := by
    rw [hpow, Nat.mul_comm]
    exact Nat.mul_lt_mul_of_pos_left (Nat.mod_lt _ (by decide)) (by positivity)
  have hdiv : n / 2 ^ (k + 8) = n / 2 ^ k / 256 := by rw [hpow, Nat.div_div_eq_div_mul]
  rw [Nat.mul_comm, ← Nat.two_pow_add_eq_or_of_lt hlt, hdiv, hpow]
  calc 2 ^ k * 256 * (n / 2 ^ k / 256) + n / 2 ^ k % 256 * 2 ^ k
      = (256 * (n / 2 ^ k / 256) + n / 2 ^ k % 256) * 2 ^ k := by ring
    _ = n / 2 ^ k * 2 ^ k := by rw [Nat.div_add_mod]

theorem char2long_long2char (src : UInt32) :
    yxStrChar2longLsb src.toUInt8 (src >>> 8).toUInt8 (src >>> 16).toUInt8 (src >>> 24).toUInt8 =
      src := by
  have hsrc := src.toNat_lt
  have hshift (n m : ℕ) (hm : m ≤ 16777216) : n % 256 * m % 4294967296 = n % 256 * m := by
    have hn : n % 256 ≤ 255 := Nat.le_of_lt_succ (Nat.mod_lt n (by decide))
    have := Nat.mul_le_mul hn hm
    omega
  have hthird := div_mul_or_byte src.toNat 16
  have hsecond := div_mul_or_byte src.toNat 8
  have hfirst := div_mul_or_byte src.toNat 0
  rw [← UInt32.toNat_inj]
  simp only [yxStrChar2longLsb, UInt32.toNat_or, UInt32.toNat_shiftLeft, UInt8.toNat_toUInt32,
    UInt32.toNat_toUInt8, UInt32.toNat_shiftRight, UInt32.toNat_ofNat, Nat.reduceMod,
    Nat.shiftRight_eq_div_pow, Nat.shiftLeft_eq, Nat.reducePow]
  have hlast : src.toNat / 16777216 % 256 = src.toNat / 16777216 := Nat.mod_eq_of_lt (by omega)
  rw [hshift _ 16777216 (by decide), hshift _ 65536 (by decide), hshift _ 256 (by decide), hlast]
  norm_num at hthird hsecond hfirst
  rw [hthird, hsecond, hfirst]

theorem toUInt8_toUInt32 {n : UInt32} (h : n < 256) : n.toUInt8.toUInt32 = n := by
  rw [UInt32.lt_iff_toNat_lt] at h
  rw [← UInt32.toNat_inj, UInt8.toNat_toUInt32, UInt32.toNat_toUInt8]
  exact Nat.mod_eq_of_lt h

theorem enum_lt {n : UInt32} (h : ¬ (n ≠ 0 ∧ n ≠ 1)) : n < 256 := by
  rcases not_and_or.mp h with hn | hn
  · rw [not_not.mp hn]
    decide
  · rw [not_not.mp hn]
    decide

/-- Arguments that are accepted are accepted with every stack, and fit their fields. -/
theorem yxCanSend_ok {stack : Fin 8 → UInt8} {payload : List UInt8}
    (h : yxCanSend stack args = .ok payload) :
    (args.ch < 256 ∧ args.format < 256 ∧ args.type < 256 ∧ args.len ≤ 8) ∧
      ∀ stack, yxCanSend stack args = .ok (canMsg stack args) := by
  unfold yxCanSend at h
  split_ifs at h with hch hformat htype hlen
  refine ⟨⟨?_, enum_lt hformat, enum_lt htype, UInt8.not_lt.mp hlen⟩, fun stack => ?_⟩
  · exact UInt32.lt_trans (UInt32.not_le.mp (not_or.mp hch).2) (by decide)
  · rw [yxCanSend, if_neg hch, if_neg hformat, if_neg htype, if_neg hlen]

theorem copyData_full (stack : Fin 8 → UInt8) (src : List UInt8) :
    copyData stack src 8 = fun i : Fin 8 => src.getD i 0 := by
  funext i
  exact if_pos i.isLt

/-- The message that a payload of eight bytes is received as. -/
theorem handle_canMsg (stack stack' : Fin 8 → UInt8) (hlen : args.len = 8) :
    yxCanRxHandle true stack'
        (slFrame yxSerialLinkHeadUp1 yxSerialLinkHeadUp2 canRecCmd (canMsg stack args)) =
      some ⟨args.ch.toUInt8, args.canid, args.format.toUInt8, args.type.toUInt8, 8,
        fun i => args.pdata.getD i 0⟩ := by
  set item := slFrame yxSerialLinkHeadUp1 yxSerialLinkHeadUp2 canRecCmd (canMsg stack args)
    with hitem
  have hcmd : headCmd item = canRecCmd.toNat := headCmd_slFrame _ _ (by decide) _
  have hlen' : canLen item = 8 := rfl
  have hdata : item.drop 16 = List.ofFn fun i : Fin 8 => args.pdata.getD i 0 := by
    rw [← copyData_full stack, ← hlen]
    rfl
  rw [yxCanRxHandle, if_pos hcmd, hlen', hdata, copyData_full, if_pos rfl]
  congr 2
  · exact char2long_long2char args.canid
  · funext i
    rw [List.getD_eq_getElem _ _ (by simp), List.getElem_ofFn]

/-- Below eight bytes the rest of the payload is what the stack held. -/
theorem canMsg_stack_ne (hlen : args.len < 8) :
    canMsg (fun _ => 0) args ≠ canMsg (fun _ => 1) args := by
  intro heq
  have hdata := List.ofFn_injective (List.append_cancel_left heq)
  have hlast := congrFun hdata 7
  rw [UInt8.lt_iff_toNat_lt] at hlen
  have hno : ¬ ((7 : Fin 8) : ℕ) < args.len.toNat := Nat.not_lt.mpr (Nat.le_of_lt_succ hlen)
  simp only [copyData, if_neg hno] at hlast
  exact absurd hlast (by decide)

/-- Only with eight bytes is the whole payload written. -/
theorem roundTrips_iff {stack : Fin 8 → UInt8} {payload : List UInt8}
    (h : yxCanSend stack args = .ok payload) : RoundTrips args ↔ args.len = 8 := by
  obtain ⟨⟨hch, hformat, htype, hlen⟩, hok⟩ := yxCanSend_ok h
  constructor
  · rintro ⟨hsame, -⟩
    by_contra hne
    have heq := hsame (fun _ => 0) (fun _ => 1)
    rw [hok, hok] at heq
    exact canMsg_stack_ne (UInt8.lt_of_le_of_ne hlen hne) (Except.ok.inj heq)
  · intro hfull
    refine ⟨fun stack stack' => ?_, fun stack stack' payload hpay => ?_⟩
    · rw [hok, hok, canMsg, canMsg, hfull, copyData_full, copyData_full]
    · rw [hok] at hpay
      obtain rfl := Except.ok.inj hpay
      exact ⟨_, handle_canMsg stack stack' hfull, toUInt8_toUInt32 hch, rfl,
        toUInt8_toUInt32 hformat, toUInt8_toUInt32 htype, fun i _ => rfl⟩

/-- `len` bytes for the first channel. -/
def canArgs (len : UInt8) : CanArgs :=
  ⟨1, 0, 0, 0x123, List.replicate len.toNat 7, len, by simp⟩

theorem roundTrips_iff_eight :
    yxCanSend (fun _ => 0) (canArgs 8) = .ok (canMsg (fun _ => 0) (canArgs 8)) ∧
      (RoundTrips (canArgs 8) ↔ (canArgs 8).len = 8) := by
  have hok : yxCanSend (fun _ => 0) (canArgs 8) = .ok (canMsg (fun _ => 0) (canArgs 8)) := rfl
  exact ⟨hok, roundTrips_iff hok⟩

/-- Without data eight bytes of the stack are sent. -/
theorem not_roundTrips :
    yxCanSend (fun _ => 0) (canArgs 0) = .ok (canMsg (fun _ => 0) (canArgs 0)) ∧
      ¬ RoundTrips (canArgs 0) := by
  refine ⟨rfl, fun h => ?_⟩
  have heq := h.1 (fun _ => 0) (fun _ => 1)
  have hne : canMsg (fun _ => 0) (canArgs 0) ≠ canMsg (fun _ => 1) (canArgs 0) :=
    canMsg_stack_ne (by decide)
  exact hne (Except.ok.inj heq)

end Send

end Tulux.Can
