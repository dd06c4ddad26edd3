import Tulux.GeoNetRouter.Duplicates
import Tulux.GeoNetRouter.ReceiveBounds

/-! The hop limits of a received packet. A hop is taken off before the limits are compared, so a
packet with one hop too many passes. -/
namespace Tulux.GeoNetRouter
open QCoder SortedMap GuardedRun

section Limits
variable (cfg : GnConfig) (geometry : Geometry) (readings : Readings) (buf bufLen : ℕ)
  (data : GnData) (r : Router)

/-- The packets that a call of `Receive` puts into a queue. -/
def receiveQueued : List (List UInt8) :=
  (r.opsTo (receive cfg geometry readings buf bufLen data r).2.2).filterMap Op.queued

/-- The remaining hop limit of a packet. -/
def rhl (mem : Memory) : ℕ := (mem (buf + 3)).toNat

/-- The maximum hop limit of a packet. -/
def mhl (mem : Memory) : ℕ := (mem (buf + 10)).toNat

/-- A packet to another station, for which this one can only be a forwarder. -/
def Relayed : Prop :=
  let mem := r.core.mem
  (match PacketType.ofHt ((mem (buf + 5)).toNat / 16) with
    | .geounicast => True
    | .ls => (mem (buf + 5)).toNat % 16 ≠ 0
    | _ => False) ∧
  ¬ gnAddrMatch (readAddr mem (buf + 40)) cfg.localAddr

/-- A packet with more hops left than it may have at all is refused, a packet that is passed on has
one hop less than it came with, and none is passed on that came with its last hop. -/
structure HopLimits : Prop where
  exceeded : mhl buf r.core.mem < rhl buf r.core.mem →
    (receive cfg geometry readings buf bufLen data r).1 = -1 ∧
      receiveQueued cfg geometry readings buf bufLen data r = []
  lower : ∀ packet ∈ receiveQueued cfg geometry readings buf bufLen data r,
    packet = (readBytes r.core.mem buf bufLen).set 3 (r.core.mem (buf + 3) - 1)
  last : rhl buf r.core.mem ≤ 1 →
    receiveQueued cfg geometry readings buf bufLen data r = [] ∧
      (Relayed cfg buf (r.headersRead cfg buf data.dAddr) →
        (receive cfg geometry readings buf bufLen data r).1 = -1)

/-- `ReceiveGUC` refuses a packet that was there before or that has no hop left, and what it finds
where no value was returned may look the same. -/
def GucRefuses : Prop :=
  if r.gucReturns cfg readings buf then
    gnAddrMatch (readAddr r.core.mem (buf + 40)) cfg.localAddr ∨
      (cfg.nonAreaForwardingAlgorithm ≠ .cbf ∧ r.duplicate cfg readings buf) ∨
      r.core.mem (buf + 3) = 0
  else readings.junkReturn = -1

/-- The function for the type of a packet refuses it. -/
def KindRefuses : Prop :=
  let mem := r.core.mem
  let hst := (mem (buf + 5)).toNat % 16
  let own := gnAddrMatch (readAddr mem (buf + 40)) cfg.localAddr
  match PacketType.ofHt ((mem (buf + 5)).toNat / 16) with
  | .any => True
  | .beacon => False
  | .geounicast => GucRefuses cfg readings buf r
  | .geoanycast | .geobroadcast => r.duplicate cfg readings buf
  | .tsb => hst ≠ 0 ∧ r.duplicate cfg readings buf
  | .ls =>
    if hst = 0 then own → r.duplicate cfg readings buf
    else (if own then (r.duplicate cfg readings buf : Prop) else GucRefuses cfg readings buf r)

/-- A packet that came with exactly one hop too many passes the checks of its headers. -/
def PassesWithHopTooMany : Prop :=
  HeadersChecked buf r ∧ rhl buf r.core.mem = mhl buf r.core.mem + 1 ∧
    ¬ KindRefuses cfg readings buf (r.headersRead cfg buf data.dAddr)

end Limits

section Limits
variable {cfg : GnConfig} {geometry : Geometry} {readings : Readings} {buf bufLen : ℕ}
  {data : GnData} {r r' : Router} {mem : Memory} {P : List UInt8 → Prop}

/-! ### What is refused -/

theorem receiveGuc_refuses_iff :
    (receiveGuc cfg geometry readings buf r).1 = -1 ↔ GucRefuses cfg readings buf r := by
  rw [fst_receiveGuc]
  unfold GucRefuses
  split_ifs with hreturns hrefused
  · simp [hrefused]
  · simp [hrefused]
  · rfl

theorem receiveGbcGac_refuses_iff :
    (receiveGbcGac cfg geometry readings buf bufLen r).1 = -1 ↔
      r.duplicate cfg readings buf := by
  unfold receiveGbcGac
  dsimp only
  rw [fst_processSource_eq]
  cases r.duplicate cfg readings buf with
  | true => simp
  | false =>
    rw [if_neg Bool.false_ne_true]
    dsimp only
    split_ifs <;> simp

theorem receiveTsb_refuses_iff :
    (receiveTsb cfg readings buf bufLen r).1 = -1 ↔ r.duplicate cfg readings buf := by
  unfold receiveTsb
  dsimp only
  rw [fst_processSource_eq]
  cases r.duplicate cfg readings buf with
  | true => simp
  | false =>
    rw [if_neg Bool.false_ne_true]
    split_ifs <;> simp

theorem receiveLocationService_refuses_iff (hst : ℕ) :
    (receiveLocationService cfg geometry readings buf hst r).1 = -1 ↔
      if hst = 0 then
        gnAddrMatch (readAddr r.core.mem (buf + 40)) cfg.localAddr → r.duplicate cfg readings buf
      else (if gnAddrMatch (readAddr r.core.mem (buf + 40)) cfg.localAddr then
        (r.duplicate cfg readings buf : Prop)
      else GucRefuses cfg readings buf r) := by
  unfold receiveLocationService
  dsimp only
  by_cases hown : gnAddrMatch (readAddr r.core.mem (buf + 40)) cfg.localAddr
  · rw [fst_processSource_eq]
    by_cases hrequest : hst = 0
    · cases r.duplicate cfg readings buf <;> simp [hrequest, hown]
    · cases r.duplicate cfg readings buf <;> simp [hrequest, hown]
  · by_cases hrequest : hst = 0
    · simp [hrequest, hown]
    · simpa [hrequest, hown] using receiveGuc_refuses_iff

theorem dispatch_refuses_iff :
    (dispatch cfg geometry readings buf bufLen data r).1 = -1 ↔
      KindRefuses cfg readings buf r := by
  unfold dispatch KindRefuses
  dsimp only
  cases PacketType.ofHt ((r.core.mem (buf + 5)).toNat / 16) with
  | any => simp
  | beacon => simp [receiveBeaconOrShb]
  | geounicast => exact receiveGuc_refuses_iff
  | geoanycast => exact receiveGbcGac_refuses_iff
  | geobroadcast => exact receiveGbcGac_refuses_iff
  | tsb =>
    dsimp only
    split_ifs with hsingle
    · simp [receiveBeaconOrShb, hsingle]
    · simpa [hsingle] using receiveTsb_refuses_iff
  | ls => exact receiveLocationService_refuses_iff _

theorem receive_refuses_iff : (receive cfg geometry readings buf bufLen data r).1 = -1 ↔
    (HeadersChecked buf r → KindRefuses cfg readings buf (r.headersRead cfg buf data.dAddr)) := by
  by_cases hchecked : HeadersChecked buf r
  · rw [receive_of_checked hchecked, dispatch_refuses_iff, forall_prop_of_true hchecked]
  · obtain ⟨r', hrefused⟩ :
        ∃ r', receive cfg geometry readings buf bufLen data r = (-1, data, r') :=
      receive_of_not_checked hchecked
    rw [hrefused]
    exact iff_of_true rfl fun h => absurd h hchecked

/-- Without a hop that is left nothing is passed on to another station. -/
theorem kindRefuses_of_relayed (h : Relayed cfg buf r) (hhops : r.core.mem (buf + 3) = 0) :
    KindRefuses cfg readings buf r := by
  obtain ⟨htype, hother⟩ := h
  have hguc : GucRefuses cfg readings buf r := by
    have hreturns : r.gucReturns cfg readings buf = true := by
      unfold Router.gucReturns Router.gucEnds
      simp [hother, hhops]
    unfold GucRefuses
    simp [hreturns, hhops]
  unfold KindRefuses
  dsimp only at htype ⊢
  cases hkind : PacketType.ofHt ((r.core.mem (buf + 5)).toNat / 16) with
  | geounicast => exact hguc
  | ls =>
    rw [hkind] at htype
    simpa [htype, hother] using hguc
  | _ =>
    rw [hkind] at htype
    exact htype.elim

/-! ### What is queued -/

theorem PerformsWith.queued (h : PerformsWith cfg P r r') :
    ∀ packet ∈ (r.opsTo r').filterMap Op.queued, P packet := by
  obtain ⟨ops, hops, -, hpackets⟩ := h
  unfold Router.opsTo
  rw [hops, List.drop_left]
  exact hpackets

theorem rhl_decrementRhl : rhl buf (decrementRhl mem buf) = rhl buf mem - 1 := by
  unfold rhl decrementRhl
  split_ifs with hpos
  · have hone : (1 : UInt8) ≤ mem (buf + 3) := UInt8.le_iff_toNat_le.mpr hpos
    rw [Function.update_self, UInt8.toNat_sub_of_le _ _ hone]
    rfl
  · omega

theorem mhl_decrementRhl : mhl buf (decrementRhl mem buf) = mhl buf mem := by
  unfold mhl decrementRhl
  split_ifs
  · rw [Function.update_of_ne (by omega)]
  · rfl

theorem readBytes_decrementRhl (hpos : 0 < rhl buf mem) :
    readBytes (decrementRhl mem buf) buf bufLen =
      (readBytes mem buf bufLen).set 3 (mem (buf + 3) - 1) := by
  refine readBytes_eq_iff.mpr ⟨by simp, fun i hi => ?_⟩
  have hdecrement : decrementRhl mem buf = Function.update mem (buf + 3) (mem (buf + 3) - 1) :=
    if_pos hpos
  rw [hdecrement, List.getElem_set, getElem_readBytes, Function.update_apply]
  by_cases hthree : i = 3
  · rw [if_pos (by omega), if_pos hthree.symm]
  · rw [if_neg (by omega), if_neg (Ne.symm hthree)]

/-- The destination address is not in the packet. -/
theorem readBytes_headersRead_packet (cfg : GnConfig) (data : GnData) (r : Router)
    (hdisjoint : data.dAddr + 6 ≤ buf ∨ buf + bufLen ≤ data.dAddr) :
    readBytes (r.headersRead cfg buf data.dAddr).core.mem buf bufLen =
      readBytes (decrementRhl r.core.mem buf) buf bufLen :=
  readBytes_writeBytes_of_disjoint _ hdisjoint.symm

theorem rhl_headersRead (cfg : GnConfig) (data : GnData) (r : Router)
    (hdisjoint : data.dAddr + 6 ≤ buf ∨ buf + 4 ≤ data.dAddr) :
    rhl buf (r.headersRead cfg buf data.dAddr).core.mem = rhl buf r.core.mem - 1 := by
  have hkept : writeBytes (decrementRhl r.core.mem buf) data.dAddr llBc (buf + 3) =
      decrementRhl r.core.mem buf (buf + 3) :=
    writeBytes_outside _ (hdisjoint.symm.imp (by omega) (fun h => by
      change data.dAddr + 6 ≤ buf + 3
      omega))
  have hsame : rhl buf (r.headersRead cfg buf data.dAddr).core.mem =
    rhl buf (decrementRhl r.core.mem buf) := congrArg UInt8.toNat hkept
  rw [hsame, rhl_decrementRhl]

/-- A packet is queued by a call that does not refuse it, with a hop less, of which one is left. -/
theorem receiveQueued_spec (cfg : GnConfig) (geometry : Geometry) (readings : Readings)
    (bufLen : ℕ) (data : GnData) (r : Router)
    (hdisjoint : data.dAddr + 6 ≤ buf ∨ buf + max bufLen 4 ≤ data.dAddr) :
    ∀ packet ∈ receiveQueued cfg geometry readings buf bufLen data r,
      (receive cfg geometry readings buf bufLen data r).1 ≠ -1 ∧ 1 < rhl buf r.core.mem ∧
        packet = (readBytes r.core.mem buf bufLen).set 3 (r.core.mem (buf + 3) - 1) := by
  refine PerformsWith.queued (performsWith_receive data r fun haccepted hhops => ?_)
  have hrhl : 0 < rhl buf r.core.mem - 1 := by
    rw [← rhl_headersRead cfg data r (hdisjoint.imp id (by omega))]
    exact hhops
  refine ⟨haccepted, by omega, ?_⟩
  calc readBytes (r.headersRead cfg buf data.dAddr).core.mem buf bufLen
      = readBytes (decrementRhl r.core.mem buf) buf bufLen :=
        readBytes_headersRead_packet cfg data r (hdisjoint.imp id (by omega))
    _ = (readBytes r.core.mem buf bufLen).set 3 (r.core.mem (buf + 3) - 1) :=
        readBytes_decrementRhl (by omega)

/-! ### The limits -/

/-- The front of a packet of several hops with its hop limits. -/
def limitedPacket (rhl mhl : UInt8) : List UInt8 :=
  [0x01, 0, 0, rhl, 0x10, 0x51, 0, 0, 0, 0, mhl, 0, 0, 0, 0, 0, 0, 0, 0, 0, 0, 0, 0, 1]

end Limits

end Tulux.GeoNetRouter
