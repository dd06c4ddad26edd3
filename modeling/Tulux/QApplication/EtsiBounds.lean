import Tulux.GeoNetRouter.ReceiveBounds
import Tulux.QApplication.EtsiApplication

/-! What `EtsiApplication` reads of a received frame, and where it leaves the cursor. -/
namespace Tulux.QApplication
open QCoder GeoNetRouter Access

/-! ### Which packets are for the upper layer -/

/-- The function for the type of the packet returns 0. -/
def KindDelivers (cfg : GnConfig) (geometry : Geometry) (readings : Readings) (buf : ℕ)
    (r : Router) : Prop :=
  let mem := r.core.mem
  match PacketType.ofHt ((mem (buf + 5)).toNat / 16) with
  | .geoanycast | .geobroadcast => r.duplicate cfg readings buf = false ∧
      0 ≤ receivedAreaPosition geometry buf mem (readings.epv 0)
  | .tsb => (mem (buf + 5)).toNat % 16 = 0 ∨ r.duplicate cfg readings buf = false
  | _ => False

/-- A packet is for the upper layer, and has a payload for the decoder. -/
structure Delivers (cfg : GnConfig) (geometry : Geometry) (readings : Readings) (buf : ℕ)
    (data : GnData) (r : Router) : Prop where
  checked : HeadersChecked buf r
  kind : KindDelivers cfg geometry readings buf (r.headersRead cfg buf data.dAddr)
  btp : ((r.headersRead cfg buf data.dAddr).core.mem (buf + 4)).toNat / 16 ∈ [1, 2]

/-- The payload length of a packet, when its type is looked at. -/
def receivedPayloadLen (cfg : GnConfig) (buf : ℕ) (data : GnData) (r : Router) : ℕ :=
  ntohs (read16 (r.headersRead cfg buf data.dAddr).core.mem (buf + 8))

section Receive
variable {cfg : GnConfig} {geometry : Geometry} {readings : Readings} {logLevel : ℤ}
  {buf bufLen hst : ℕ} {data : GnData} {r : Router} {rx : RxContents}
  {decodeMsg : RxContents → RxContents}

theorem fst_receiveGuc_ne_zero (h : r.gucReturns cfg readings buf = true) :
    (receiveGuc cfg geometry readings buf r).1 ≠ 0 := by
  rw [fst_receiveGuc, if_pos h]
  split_ifs <;> decide

theorem fst_receiveTsb_eq_zero_iff :
    (receiveTsb cfg readings buf bufLen r).1 = 0 ↔ r.duplicate cfg readings buf = false := by
  unfold receiveTsb
  dsimp only
  rw [fst_processSource_eq]
  split_ifs with hdup <;> simp [hdup]

theorem fst_receiveGbcGac_eq_zero_iff :
    (receiveGbcGac cfg geometry readings buf bufLen r).1 = 0 ↔
      r.duplicate cfg readings buf = false ∧
        0 ≤ receivedAreaPosition geometry buf r.core.mem (readings.epv 0) := by
  have hval : (receiveGbcGac cfg geometry readings buf bufLen r).1 =
      if r.duplicate cfg readings buf then -1
      else if 0 ≤ receivedAreaPosition geometry buf r.core.mem (readings.epv 0) then 0 else 1 := by
    unfold receiveGbcGac
    dsimp only
    rw [fst_processSource_eq]
    split_ifs <;> rfl
  rw [hval]
  split_ifs with hdup harea
  · simp [hdup]
  · simp [hdup, harea]
  · simp [harea]

theorem fst_receiveLocationService_ne_zero
    (h : hst = 0 ∨ gnAddrMatch (readAddr r.core.mem (buf + 40)) cfg.localAddr ∨
      r.gucReturns cfg readings buf) :
    (receiveLocationService cfg geometry readings buf hst r).1 ≠ 0 := by
  unfold receiveLocationService
  dsimp only
  split_ifs with hrequest hmatch hduplicate hmatch hduplicate
  · simp
  · simp
  · simp
  · simp
  · simp
  · exact fst_receiveGuc_ne_zero ((h.resolve_left hrequest).resolve_left hmatch)

theorem fst_dispatch_eq_zero_iff (h : KindReturns cfg readings buf r) :
    (dispatch cfg geometry readings buf bufLen data r).1 = 0 ↔
      KindDelivers cfg geometry readings buf r := by
  unfold KindReturns at h
  unfold dispatch KindDelivers
  dsimp only
  cases hkind : PacketType.ofHt ((r.core.mem (buf + 5)).toNat / 16) with
  | any => exact iff_of_false (show ¬ (-1 : ℤ) = 0 by decide) id
  | beacon => exact iff_of_false (show ¬ (1 : ℤ) = 0 by decide) id
  | geounicast =>
    rw [hkind] at h
    exact iff_of_false (fst_receiveGuc_ne_zero h) id
  | geoanycast => exact fst_receiveGbcGac_eq_zero_iff
  | geobroadcast => exact fst_receiveGbcGac_eq_zero_iff
  | tsb =>
    dsimp only
    split_ifs with hsingle
    · exact iff_of_true rfl (Or.inl hsingle)
    · rw [or_iff_right hsingle]
      exact fst_receiveTsb_eq_zero_iff
  | ls =>
    rw [hkind] at h
    exact iff_of_false (fst_receiveLocationService_ne_zero h) id

/-- The parameters of a packet do not depend on its type, apart from the flag for one hop. -/
theorem data_dispatch : ∃ isShb,
    (dispatch cfg geometry readings buf bufLen data r).2.1 = { data with isShb := isShb } := by
  unfold dispatch
  dsimp only
  cases PacketType.ofHt ((r.core.mem (buf + 5)).toNat / 16) with
  | tsb =>
    dsimp only
    split_ifs
    · exact ⟨true, rfl⟩
    · exact ⟨data.isShb, rfl⟩
  | _ => exact ⟨data.isShb, rfl⟩

/-- A packet whose function does not come to a `return` returns what is found there. -/
theorem fst_dispatch_junk (h : ¬ KindReturns cfg readings buf r) :
    (dispatch cfg geometry readings buf bufLen data r).1 = readings.junkReturn := by
  unfold KindReturns at h
  unfold dispatch
  dsimp only
  cases hkind : PacketType.ofHt ((r.core.mem (buf + 5)).toNat / 16) with
  | geounicast =>
    rw [hkind] at h
    dsimp only
    rw [fst_receiveGuc, if_neg h]
  | ls =>
    rw [hkind] at h
    obtain ⟨hreply, hnot⟩ := not_or.mp h
    obtain ⟨hother, hguc⟩ := not_or.mp hnot
    unfold receiveLocationService
    dsimp only
    rw [if_neg hreply, if_neg hother, fst_receiveGuc, if_neg hguc]
  | _ => simp [hkind] at h

/-! ### The frame -/

/-- The length that `receive` is told. -/
theorem told_of_pos {bufLen : UInt16} (h : 10 ≤ bufLen.toNat - 1) :
    (bufLen.toNat + (2 ^ 16 - 1)) % 2 ^ 16 = bufLen.toNat - 1 := by
  have hlt := bufLen.toNat_lt
  omega

/-- What `receive` of a frame returns. -/
def received (cfg : GnConfig) (geometry : Geometry) (readings : Readings) (rx : RxContents)
    (n : ℕ) (r : Router) : ℤ × GnData × Router :=
  receive cfg geometry readings (rx.data + 1) ((n + (2 ^ 16 - 1)) % 2 ^ 16) rx.gn r

theorem etsiReceiveGn_eq (n : ℕ) : etsiReceiveGn cfg geometry readings rx n r =
    let out := received cfg geometry readings rx n r
    let mc : RxContents := { rx with decoded := false, gn := out.2.1, data := rx.data + 1 }
    (out.1, if out.1 = 0 then mc.pull (((n + (2 ^ 16 - 1)) % 2 ^ 16 : ℕ) - out.2.1.payloadLen)
      else mc, out.2.2) := by
  have hdata : ({ rx with decoded := false } : RxContents).pull 1 =
      { rx with decoded := false, data := rx.data + 1 } := rfl
  unfold etsiReceiveGn received
  dsimp only
  rw [hdata]
  dsimp only
  split_ifs <;> rfl

theorem fst_etsiReceive (n : ℕ) : (etsiReceive cfg geometry readings decodeMsg rx n r).1 =
    let out := received cfg geometry readings rx n r
    if out.1 = 0 ∧ out.2.1.upperProt ≠ .btpA ∧ out.2.1.upperProt ≠ .btpB then -1 else out.1 := by
  unfold etsiReceive
  rw [etsiReceiveGn_eq]
  dsimp only
  by_cases hret : (received cfg geometry readings rx n r).1 = 0
  · simp only [hret, if_true, true_and, RxContents.pull]
    cases hprot : (received cfg geometry readings rx n r).2.1.upperProt <;> simp
  · simp [hret]

theorem received_of_checked (h : HeadersChecked (rx.data + 1) r) (n : ℕ) :
    ∃ isShb, (received cfg geometry readings rx n r).2.1 =
      { readHeader cfg (rx.data + 1) (r.headersRead cfg (rx.data + 1) rx.gn.dAddr).core.mem rx.gn
        with isShb := isShb } := by
  unfold received
  rw [receive_of_checked h]
  exact data_dispatch

theorem upperProt_received (h : HeadersChecked (rx.data + 1) r) (n : ℕ) :
    (received cfg geometry readings rx n r).2.1.upperProt =
      .ofNh (((r.headersRead cfg (rx.data + 1) rx.gn.dAddr).core.mem (rx.data + 1 + 4)).toNat / 16) := by
  obtain ⟨isShb, hdata⟩ := @received_of_checked cfg geometry readings r rx h n
  rw [hdata]
  rfl

theorem payloadLen_received (h : HeadersChecked (rx.data + 1) r) (n : ℕ) :
    (received cfg geometry readings rx n r).2.1.payloadLen =
      receivedPayloadLen cfg (rx.data + 1) rx.gn r := by
  obtain ⟨isShb, hdata⟩ := @received_of_checked cfg geometry readings r rx h n
  rw [hdata]
  rfl

/-- What is found where a result was not set passes through `receive`. -/
theorem fst_etsiReceive_junk (h : HeadersChecked (rx.data + 1) r)
    (hkind : ¬ KindReturns cfg readings (rx.data + 1)
      (r.headersRead cfg (rx.data + 1) rx.gn.dAddr)) (n : ℕ) {junk : ℤ} (hjunk : junk ≠ 0) :
    (etsiReceive cfg geometry (readings.withJunk junk) decodeMsg rx n r).1 = junk := by
  have hreceived : (received cfg geometry (readings.withJunk junk) rx n r).1 = junk := by
    unfold received
    rw [receive_of_checked h]
    have hkind' : ¬ KindReturns cfg (readings.withJunk junk) (rx.data + 1)
        (r.headersRead cfg (rx.data + 1) rx.gn.dAddr) := hkind
    exact fst_dispatch_junk hkind'
  rw [fst_etsiReceive]
  dsimp only
  rw [hreceived, if_neg fun hzero => hjunk hzero.1]

theorem etsiReceive_defined_iff (n : ℕ) :
    (∀ junk, (etsiReceive cfg geometry (readings.withJunk junk) decodeMsg rx n r).1 =
      (etsiReceive cfg geometry readings decodeMsg rx n r).1) ↔
    ∀ junk, (received cfg geometry (readings.withJunk junk) rx n r).1 =
      (received cfg geometry readings rx n r).1 := by
  by_cases hchecked : HeadersChecked (rx.data + 1) r
  · constructor
    · intro h
      unfold received
      rw [defined_iff_of_checked hchecked]
      by_contra hkind
      have hone := h 1
      have htwo := h 2
      rw [fst_etsiReceive_junk hchecked hkind n (by decide)] at hone htwo
      exact absurd (hone.trans htwo.symm) (by decide)
    · intro h junk
      rw [fst_etsiReceive, fst_etsiReceive]
      dsimp only
      rw [h junk, upperProt_received hchecked, upperProt_received hchecked]
  · have hrefused (readings : Readings) :
        ∃ r', received cfg geometry readings rx n r = (-1, rx.gn, r') :=
      receive_of_not_checked hchecked
    refine iff_of_true (fun junk => ?_) fun junk => ?_
    all_goals
      obtain ⟨r₁, hjunk⟩ := hrefused (readings.withJunk junk)
      obtain ⟨r₂, hsame⟩ := hrefused readings
    · rw [fst_etsiReceive, fst_etsiReceive, hjunk, hsame]
    · rw [hjunk, hsame]

theorem ofNh_btp_iff {nh : ℕ} :
    UpperProtocol.ofNh nh = .btpA ∨ UpperProtocol.ofNh nh = .btpB ↔ nh ∈ [1, 2] := by
  unfold UpperProtocol.ofNh
  split <;> simp_all

/-- `receive` delivers the packets for the upper layer. -/
theorem fst_etsiReceive_eq_zero_iff (n : ℕ)
    (hdefined : ∀ junk, (received cfg geometry (readings.withJunk junk) rx n r).1 =
      (received cfg geometry readings rx n r).1) :
    (etsiReceive cfg geometry readings decodeMsg rx n r).1 = 0 ↔
      Delivers cfg geometry readings (rx.data + 1) rx.gn r := by
  by_cases hchecked : HeadersChecked (rx.data + 1) r
  · have hreturns := (defined_iff_of_checked hchecked).mp hdefined
    have hzero : (received cfg geometry readings rx n r).1 = 0 ↔
        KindDelivers cfg geometry readings (rx.data + 1)
          (r.headersRead cfg (rx.data + 1) rx.gn.dAddr) := by
      unfold received
      rw [receive_of_checked hchecked]
      exact fst_dispatch_eq_zero_iff hreturns
    have hbtp : (received cfg geometry readings rx n r).2.1.upperProt = .btpA ∨
        (received cfg geometry readings rx n r).2.1.upperProt = .btpB ↔
        ((r.headersRead cfg (rx.data + 1) rx.gn.dAddr).core.mem (rx.data + 1 + 4)).toNat / 16 ∈
          [1, 2] := by
      rw [upperProt_received hchecked]
      exact ofNh_btp_iff
    rw [fst_etsiReceive]
    dsimp only
    split_ifs with hother
    · refine iff_of_false (by decide) fun h => ?_
      rcases hbtp.mpr h.btp with ha | hb
      · exact hother.2.1 ha
      · exact hother.2.2 hb
    · rw [hzero]
      refine ⟨fun hkind => ⟨hchecked, hkind, hbtp.mp ?_⟩, fun h => h.kind⟩
      by_contra hnot
      exact hother ⟨hzero.mpr hkind, not_or.mp hnot⟩
  · obtain ⟨r', hrefused⟩ : ∃ r', received cfg geometry readings rx n r = (-1, rx.gn, r') :=
      receive_of_not_checked hchecked
    refine iff_of_false ?_ fun h => hchecked h.checked
    rw [fst_etsiReceive, hrefused]
    simp

/-- The cursor is inside the frame of `n` bytes, with the payload behind it. -/
structure PayloadInside (rx : RxContents) (n : ℕ) (mc : RxContents) : Prop where
  inside : rx.data ≤ mc.data
  payload : (mc.data : ℤ) + mc.gn.payloadLen ≤ rx.data + n

/-- Only the received bytes are read, what is returned was set, and the cursor is left inside the
frame with the payload behind it. -/
structure EtsiContained (cfg : GnConfig) (geometry : Geometry) (readings : Readings)
    (logLevel : ℤ) (decodeMsg : RxContents → RxContents) (rx : RxContents) (bufLen : UInt16)
    (r : Router) : Prop where
  inside : AllInside (receiveAccesses cfg geometry readings logLevel (rx.data + 1)
    (bufLen.toNat - 1) ((bufLen.toNat + (2 ^ 16 - 1)) % 2 ^ 16) rx.gn r)
  defined : ∀ junk,
    (etsiReceive cfg geometry (readings.withJunk junk) decodeMsg rx bufLen.toNat r).1 =
      (etsiReceive cfg geometry readings decodeMsg rx bufLen.toNat r).1
  cursor : (etsiReceive cfg geometry readings decodeMsg rx bufLen.toNat r).1 = 0 →
    PayloadInside rx bufLen.toNat (etsiReceiveGn cfg geometry readings rx bufLen.toNat r).2.1

/-- Behind the headers the cursor is as far from the end as the packet says. -/
theorem payloadInside_iff {bufLen : UInt16} (hsize : 10 ≤ bufLen.toNat - 1)
    (hzero : (etsiReceive cfg geometry readings decodeMsg rx bufLen.toNat r).1 = 0)
    (hdelivers : Delivers cfg geometry readings (rx.data + 1) rx.gn r) :
    PayloadInside rx bufLen.toNat (etsiReceiveGn cfg geometry readings rx bufLen.toNat r).2.1 ↔
      receivedPayloadLen cfg (rx.data + 1) rx.gn r ≤ bufLen.toNat := by
  have hreceived : (received cfg geometry readings rx bufLen.toNat r).1 = 0 := by
    rw [fst_etsiReceive] at hzero
    dsimp only at hzero
    split_ifs at hzero with hother
    · exact hzero
  have hpayload : (received cfg geometry readings rx bufLen.toNat r).2.1.payloadLen =
      receivedPayloadLen cfg (rx.data + 1) rx.gn r := payloadLen_received hdelivers.checked _
  rw [etsiReceiveGn_eq]
  dsimp only
  rw [if_pos hreceived, told_of_pos hsize]
  have hsplit (mc : RxContents) : PayloadInside rx bufLen.toNat mc ↔
      rx.data ≤ mc.data ∧ (mc.data : ℤ) + mc.gn.payloadLen ≤ rx.data + bufLen.toNat :=
    ⟨fun h => ⟨h.inside, h.payload⟩, fun h => ⟨h.1, h.2⟩⟩
  rw [hsplit]
  simp only [RxContents.pull, hpayload]
  omega

theorem etsiContained_iff {bufLen : UInt16} :
    EtsiContained cfg geometry readings logLevel decodeMsg rx bufLen r ↔
      Fits cfg geometry readings logLevel (rx.data + 1) (bufLen.toNat - 1) rx.gn r ∧
        (Delivers cfg geometry readings (rx.data + 1) rx.gn r →
          receivedPayloadLen cfg (rx.data + 1) rx.gn r ≤ bufLen.toNat) := by
  have hreceive : Contained cfg geometry readings logLevel (rx.data + 1) (bufLen.toNat - 1)
        ((bufLen.toNat + (2 ^ 16 - 1)) % 2 ^ 16) rx.gn r ↔
      Fits cfg geometry readings logLevel (rx.data + 1) (bufLen.toNat - 1) rx.gn r :=
    contained_iff told_of_pos
  constructor
  · intro h
    have hdefined := (etsiReceive_defined_iff _).mp h.defined
    have hfits := hreceive.mp ⟨h.inside, hdefined⟩
    refine ⟨hfits, fun hdelivers => ?_⟩
    have hzero : (etsiReceive cfg geometry readings decodeMsg rx bufLen.toNat r).1 = 0 :=
      (fst_etsiReceive_eq_zero_iff _ hdefined).mpr hdelivers
    exact (payloadInside_iff hfits.1 hzero hdelivers).mp (h.cursor hzero)
  · rintro ⟨hfits, hpayload⟩
    obtain ⟨hinside, hdefined⟩ := hreceive.mpr hfits
    refine ⟨hinside, (etsiReceive_defined_iff _).mpr hdefined, fun hzero => ?_⟩
    have hdelivers := (fst_etsiReceive_eq_zero_iff _ hdefined).mp hzero
    exact (payloadInside_iff hfits.1 hzero hdelivers).mpr (hpayload hdelivers)

end Receive

/-- A unicast packet of 60 bytes for the station 7. -/
def gucPacket : List UInt8 :=
  [0x01, 0, 0, 1, 0x10, 0x20, 0, 0, 0, 0, 1, 0] ++ List.replicate 35 0 ++ 7 :: List.replicate 12 0

/-- A beacon whose subtype has no name. -/
def namelessBeacon : List UInt8 := [0x01, 0, 0, 1, 0x10, 0x15, 0, 0, 0, 0, 1, 0]

end Tulux.QApplication
