import Tulux.QApplication.EtsiBounds
import Tulux.QApplication.EtsiStack

/-! Datagrams that a station does not survive: the decoder of BTP reads through the null pointer that
`abuf_pull` returns when there are too few bytes behind the header of the router. -/
namespace Tulux.QApplication
open QCoder GeoNetRouter GuardedRun

section Faults
variable {Cam Denm : Type} (codec : UperCodec Cam Denm) (cfg : GnConfig) (geometry : Geometry)

/-- What a turn of the receive loop finds: the message, what the router has left of the packet before,
and the router. -/
structure EtsiState (Cam Denm : Type) where
  mc : EtsiContents Cam Denm
  gn : GnData
  router : Router

/-- What `recv` writes into a buffer of a message. -/
abbrev Datagram : Type := { bytes : List UInt8 // bytes.length ≤ abufLen - abufHeadroom }

/-- A turn with a datagram; one without bytes is passed over. -/
def EtsiState.turn (s : EtsiState Cam Denm) (input : Readings × Datagram) :
    Option (EtsiState Cam Denm) :=
  if input.2.val.length = 0 then
    some { s with mc := { s.mc with abuf := inAbuf input.2.val s.router.core.mem s.mc.abuf } }
  else
    (etsiTurn codec cfg geometry input.1 input.2.val s.mc s.gn s.router).map fun (_, mc, gn, r) =>
      ⟨mc, gn, r⟩

/-- The receive loop. -/
def etsiLoop (s : EtsiState Cam Denm) (inputs : List (Readings × Datagram)) :
    Option (EtsiState Cam Denm) := inputs.foldlM (EtsiState.turn codec cfg geometry) s

/-- The packet is given to the decoder: its function returns 0, or what is found there is 0. -/
structure Decoded (readings : Readings) (buf : ℕ) (data : GnData) (r : Router) : Prop where
  checked : HeadersChecked buf r
  delivers : KindReturns cfg readings buf (r.headersRead cfg buf data.dAddr) →
    KindDelivers cfg geometry readings buf (r.headersRead cfg buf data.dAddr)
  junk : ¬ KindReturns cfg readings buf (r.headersRead cfg buf data.dAddr) → readings.junkReturn = 0
  btp : ((r.headersRead cfg buf data.dAddr).core.mem (buf + 4)).toNat / 16 ∈ [1, 2]

/-- A datagram is decoded, and its payload length is less than a header of BTP. -/
def Starves (s : EtsiState Cam Denm) (input : Readings × Datagram) : Prop :=
  let a := s.mc.abuf.head + abufHeadroom
  let r := s.router.perform cfg (.write (writeBytes s.router.core.mem a input.2.val))
  input.2.val ≠ [] ∧ Decoded cfg geometry input.1 (a + 1) s.gn r ∧
    receivedPayloadLen cfg (a + 1) s.gn r < 4

/-- The buffer is as it was allocated, and not in the first pages. -/
structure EtsiState.Inv (s : EtsiState Cam Denm) : Prop where
  allocated : Allocated s.mc.abuf
  base : 2 ^ 16 ≤ s.mc.abuf.head

end Faults

section Faults
variable {Cam Denm : Type} {codec : UperCodec Cam Denm} {cfg : GnConfig} {geometry : Geometry}
  {readings : Readings} {mc mc' : EtsiContents Cam Denm} {rx : RxContents} {r : Router} {ret : ℤ}
  {bp : Abuf}

/-! ### The decoder -/

theorem btpDecode_eq_none_iff (hdata : mc.abuf.data ≠ 0) :
    btpDecode mc = none ↔ mc.abuf.tail < mc.abuf.data + 4 := by
  unfold btpDecode abufPull
  rw [if_neg hdata]
  dsimp only
  rw [Option.map_eq_none_iff]
  simp

theorem decodeMsgEtsi_eq_none_iff (hdata : mc.abuf.data ≠ 0) :
    decodeMsgEtsi codec mc = none ↔ mc.abuf.tail < mc.abuf.data + 4 := by
  unfold decodeMsgEtsi
  rw [if_neg hdata, Option.map_eq_none_iff, btpDecode_eq_none_iff hdata]

/-- A buffer with another memory and other cursors. -/
def SameBlock (bp bp' : Abuf) : Prop := bp'.head = bp.head ∧ bp'.size = bp.size

theorem sameBlock_decodeAsEtsi (codec : UperCodec Cam Denm) (mc : EtsiContents Cam Denm) :
    SameBlock mc.abuf (decodeAsEtsi codec mc).2.abuf := by
  have hcam : SameBlock mc.abuf (decodeAsCam codec mc).2.abuf := by
    unfold decodeAsCam
    split_ifs
    · exact ⟨rfl, rfl⟩
    · split <;> exact ⟨rfl, rfl⟩
  have hdenm : SameBlock mc.abuf (decodeAsDenm codec mc).2.abuf := by
    unfold decodeAsDenm
    split_ifs
    · exact ⟨rfl, rfl⟩
    · split <;> exact ⟨rfl, rfl⟩
  unfold decodeAsEtsi
  split_ifs
  · exact ⟨rfl, rfl⟩
  · split
    · exact ⟨rfl, rfl⟩
    · split_ifs
      · exact hcam
      · exact hdenm
      · exact ⟨rfl, rfl⟩

theorem sameBlock_btpDecode (h : btpDecode mc = some (ret, mc')) : SameBlock mc.abuf mc'.abuf := by
  unfold btpDecode at h
  split_ifs at h
  · obtain ⟨-, rfl⟩ := Prod.mk.inj (Option.some.inj h)
    exact ⟨rfl, rfl⟩
  · obtain ⟨a, -, hresult⟩ := Option.map_eq_some_iff.mp h
    obtain ⟨-, rfl⟩ := Prod.mk.inj hresult
    exact ⟨rfl, rfl⟩

theorem sameBlock_decodeMsgEtsi (h : decodeMsgEtsi codec mc = some (ret, mc')) :
    SameBlock mc.abuf mc'.abuf := by
  unfold decodeMsgEtsi at h
  split_ifs at h
  · obtain ⟨-, rfl⟩ := Prod.mk.inj (Option.some.inj h)
    exact ⟨rfl, rfl⟩
  · obtain ⟨⟨ret₁, mc₁⟩, hbtp, hresult⟩ := Option.map_eq_some_iff.mp h
    have hblock := sameBlock_btpDecode hbtp
    dsimp only at hresult
    split_ifs at hresult
    · obtain ⟨-, rfl⟩ := Prod.mk.inj hresult
      exact hblock
    · have hdecoded := sameBlock_decodeAsEtsi codec mc₁
      rw [hresult] at hdecoded
      exact ⟨hdecoded.1.trans hblock.1, hdecoded.2.trans hblock.2⟩

/-! ### A turn -/

theorem receivedPayloadLen_lt (cfg : GnConfig) (buf : ℕ) (data : GnData) (r : Router) :
    receivedPayloadLen cfg buf data r < 2 ^ 16 := ntohs_lt _

/-- The result of the router for a packet that is given to the decoder. -/
theorem decoded_iff (rx : RxContents) (n : ℕ) :
    Decoded cfg geometry readings (rx.data + 1) rx.gn r ↔
      (received cfg geometry readings rx n r).1 = 0 ∧
        ((received cfg geometry readings rx n r).2.1.upperProt = .btpA ∨
          (received cfg geometry readings rx n r).2.1.upperProt = .btpB) := by
  by_cases hchecked : HeadersChecked (rx.data + 1) r
  · have hret : (received cfg geometry readings rx n r).1 = 0 ↔
        (KindReturns cfg readings (rx.data + 1) (r.headersRead cfg (rx.data + 1) rx.gn.dAddr) →
          KindDelivers cfg geometry readings (rx.data + 1)
            (r.headersRead cfg (rx.data + 1) rx.gn.dAddr)) ∧
        (¬ KindReturns cfg readings (rx.data + 1) (r.headersRead cfg (rx.data + 1) rx.gn.dAddr) →
          readings.junkReturn = 0) := by
      unfold received
      rw [receive_of_checked hchecked]
      by_cases hkind : KindReturns cfg readings (rx.data + 1)
          (r.headersRead cfg (rx.data + 1) rx.gn.dAddr)
      · simp [hkind, fst_dispatch_eq_zero_iff hkind]
      · simp [hkind, fst_dispatch_junk hkind]
    rw [upperProt_received hchecked, ofNh_btp_iff, hret]
    exact ⟨fun h => ⟨⟨h.delivers, h.junk⟩, h.btp⟩, fun h => ⟨hchecked, h.1.1, h.1.2, h.2⟩⟩
  · obtain ⟨r', hrefused⟩ : ∃ r', received cfg geometry readings rx n r = (-1, rx.gn, r') :=
      receive_of_not_checked hchecked
    refine iff_of_false (fun h => hchecked h.checked) fun h => ?_
    rw [hrefused] at h
    exact absurd h.1 (show ¬ (-1 : ℤ) = 0 by decide)

/-- `receive` fails where the decoder finds too few bytes. -/
theorem etsiApplicationReceive_eq_none_iff {rx' : RxContents} {r' : Router}
    (codec : UperCodec Cam Denm) (mc : EtsiContents Cam Denm) (gn : GnData) (n : ℕ)
    (hgn : etsiReceiveGn cfg geometry readings ⟨mc.decoded, gn, .a, mc.abuf.data⟩ n r =
      (ret, rx', r')) (hdata : rx'.data ≠ 0) :
    etsiApplicationReceive codec cfg geometry readings mc gn n r = none ↔
      ret = 0 ∧ (rx'.gn.upperProt = .btpA ∨ rx'.gn.upperProt = .btpB) ∧
        mc.abuf.tail < rx'.data + 4 := by
  have hdecode (btpPktType : ℕ) : decodeMsgEtsi codec { mc with
      decoded := false
      abuf := { mc.abuf with mem := r'.core.mem, data := rx'.data }
      btpPktType := btpPktType } = none ↔ mc.abuf.tail < rx'.data + 4 :=
    decodeMsgEtsi_eq_none_iff hdata
  unfold etsiApplicationReceive
  rw [hgn]
  dsimp only
  by_cases hret : ret = 0
  · rw [if_pos hret, and_iff_right hret]
    cases hprot : rx'.gn.upperProt with
    | btpA => simp [hdecode]
    | btpB => simp [hdecode]
    | any => simp
    | gn6 => simp
  · rw [if_neg hret]
    simp [hret]

/-- The router leaves the cursor as far from the end of what it was told as the packet says. -/
theorem etsiReceiveGn_decoded (rx : RxContents) (n : ℕ) (hbase : 2 ^ 16 ≤ rx.data) :
    ∃ ret rx' r', etsiReceiveGn cfg geometry readings rx n r = (ret, rx', r') ∧ rx'.data ≠ 0 ∧
      (ret = 0 ∧ (rx'.gn.upperProt = .btpA ∨ rx'.gn.upperProt = .btpB) ↔
        Decoded cfg geometry readings (rx.data + 1) rx.gn r) ∧
      (Decoded cfg geometry readings (rx.data + 1) rx.gn r →
        rx'.data + receivedPayloadLen cfg (rx.data + 1) rx.gn r =
          rx.data + 1 + (n + (2 ^ 16 - 1)) % 2 ^ 16) := by
  have hlt := receivedPayloadLen_lt cfg (rx.data + 1) rx.gn r
  have hdecoded : Decoded cfg geometry readings (rx.data + 1) rx.gn r ↔ _ := decoded_iff rx n
  have hpayload (h : HeadersChecked (rx.data + 1) r) :
      (received cfg geometry readings rx n r).2.1.payloadLen =
        receivedPayloadLen cfg (rx.data + 1) rx.gn r := payloadLen_received h n
  have hchecked (hret : (received cfg geometry readings rx n r).1 = 0) :
      HeadersChecked (rx.data + 1) r := by
    by_contra hnot
    obtain ⟨r', hrefused⟩ : ∃ r', received cfg geometry readings rx n r = (-1, rx.gn, r') :=
      receive_of_not_checked hnot
    rw [hrefused] at hret
    exact absurd hret (show ¬ (-1 : ℤ) = 0 by decide)
  refine ⟨_, _, _, etsiReceiveGn_eq n, ?_, ?_, fun h => ?_⟩
  · split_ifs with hret
    · rw [hpayload (hchecked hret)]
      unfold RxContents.pull
      dsimp only
      omega
    · exact Nat.succ_ne_zero _
  · rw [hdecoded]
    split_ifs with hret
    · rfl
    · exact iff_of_false (fun h => hret h.1) fun h => hret h.1
  · rw [if_pos (hdecoded.mp h).1, hpayload h.checked]
    unfold RxContents.pull
    dsimp only
    omega

/-! ### The loop -/

variable {s s' : EtsiState Cam Denm} {input : Readings × Datagram}

theorem Datagram.fits (d : Datagram) (h : Allocated bp) : abufHeadroom + d.val.length ≤ bp.size := by
  have hlength := d.property
  have hsize := h.size
  have hconst : abufHeadroom = 256 ∧ abufLen = 2048 := ⟨rfl, rfl⟩
  omega

theorem sameBlock_inAbuf (datagram : List UInt8) (mem : Memory) (bp : Abuf) :
    SameBlock bp (inAbuf datagram mem bp) := by
  unfold inAbuf abufPut
  dsimp only
  split_ifs <;> exact ⟨rfl, rfl⟩

theorem sameBlock_etsiApplicationReceive {mc : EtsiContents Cam Denm} {gn gn' : GnData} {n : ℕ}
    {r' : Router} (h : etsiApplicationReceive codec cfg geometry readings mc gn n r =
      some (ret, mc', gn', r')) : SameBlock mc.abuf mc'.abuf := by
  unfold etsiApplicationReceive at h
  dsimp only at h
  split_ifs at h
  · split at h
    · obtain ⟨⟨_, mc₁⟩, hdecode, hresult⟩ := Option.map_eq_some_iff.mp h
      obtain ⟨-, rfl, -⟩ := by simpa only [Prod.mk.injEq] using hresult
      have hblock := sameBlock_decodeMsgEtsi hdecode
      exact ⟨hblock.1, hblock.2⟩
    · obtain ⟨⟨_, mc₁⟩, hdecode, hresult⟩ := Option.map_eq_some_iff.mp h
      obtain ⟨-, rfl, -⟩ := by simpa only [Prod.mk.injEq] using hresult
      have hblock := sameBlock_decodeMsgEtsi hdecode
      exact ⟨hblock.1, hblock.2⟩
    · obtain ⟨-, rfl, -⟩ := by simpa only [Option.some.injEq, Prod.mk.injEq] using h
      exact ⟨rfl, rfl⟩
  · obtain ⟨-, rfl, -⟩ := by simpa only [Option.some.injEq, Prod.mk.injEq] using h
    exact ⟨rfl, rfl⟩

theorem EtsiState.Inv.of_sameBlock (h : s.Inv) (hblock : SameBlock s.mc.abuf s'.mc.abuf) :
    s'.Inv := by
  obtain ⟨⟨hhead, hsize, hfits⟩, hbase⟩ := h
  obtain ⟨hhead', hsize'⟩ := hblock
  exact ⟨⟨hhead' ▸ hhead, hsize' ▸ hsize, by rw [hhead', hsize']; exact hfits⟩, hhead' ▸ hbase⟩

theorem EtsiState.Inv.turn (h : s.Inv) (hturn : s.turn codec cfg geometry input = some s') :
    s'.Inv := by
  unfold EtsiState.turn at hturn
  have hloaded := sameBlock_inAbuf input.2.val s.router.core.mem s.mc.abuf
  split_ifs at hturn
  · obtain rfl := Option.some.inj hturn
    exact h.of_sameBlock hloaded
  · obtain ⟨⟨ret, mc, gn, r⟩, hreceive, rfl⟩ := Option.map_eq_some_iff.mp hturn
    have hblock := sameBlock_etsiApplicationReceive hreceive
    exact h.of_sameBlock ⟨hblock.1.trans hloaded.1, hblock.2.trans hloaded.2⟩

/-- A turn fails exactly with a datagram that starves the decoder. -/
theorem EtsiState.Inv.isSome_turn_iff (h : s.Inv) (input : Readings × Datagram) :
    (s.turn codec cfg geometry input).isSome ↔ ¬ Starves cfg geometry s input := by
  obtain ⟨readings, datagram⟩ := input
  by_cases hempty : datagram.val.length = 0
  · have hnil := List.eq_nil_of_length_eq_zero hempty
    unfold EtsiState.turn
    rw [if_pos hempty]
    exact iff_of_true rfl fun hstarves => hstarves.1 hnil
  · have hnil : datagram.val ≠ [] := fun hnil => hempty (hnil ▸ rfl)
    have hconst : abufHeadroom = 256 ∧ abufLen = 2048 := ⟨rfl, rfl⟩
    have hlength := datagram.property
    have hloaded := inAbuf_of_fits s.router.core.mem (datagram.fits h.allocated)
    have hbase := h.base
    let r := s.router.perform cfg (.write (writeBytes s.router.core.mem
      (s.mc.abuf.head + abufHeadroom) datagram.val))
    obtain ⟨ret, rx', r', hgn, hdata, hdecoded, hcursor⟩ : ∃ ret rx' r', etsiReceiveGn cfg geometry
        readings ⟨s.mc.decoded, s.gn, .a, s.mc.abuf.head + abufHeadroom⟩ datagram.val.length r = _ ∧ _ :=
      etsiReceiveGn_decoded _ _ (by dsimp only; omega)
    have hfails := etsiApplicationReceive_eq_none_iff codec
      { s.mc with abuf := inAbuf datagram.val s.router.core.mem s.mc.abuf } s.gn datagram.val.length
      (by rw [hloaded]; exact hgn) hdata
    rw [hloaded] at hfails
    unfold EtsiState.turn etsiTurn Starves
    dsimp only
    rw [if_neg hempty, Option.isSome_map, ← Option.ne_none_iff_isSome, hloaded]
    refine not_iff_not.mpr (hfails.trans ?_)
    rw [and_iff_right hnil, ← and_assoc, hdecoded]
    refine and_congr_right fun h => ?_
    have hcursor := hcursor h
    dsimp only at hcursor ⊢
    change _ ↔ receivedPayloadLen cfg (s.mc.abuf.head + abufHeadroom + 1) s.gn r < 4
    omega

end Faults

/-- A station before its first datagram. -/
def sampleStation : EtsiState UInt8 Unit :=
  ⟨{ sampleContents with abuf := abufAlloc (2 ^ 16) abufLen abufHeadroom }, anyData, .init (loaded [])⟩

/-- A packet of one hop with a payload length of 0. -/
def starvingFrame : Datagram :=
  ⟨[3, 0x01, 0, 0, 1, 0x20, 0x50, 0, 0, 0, 0, 1, 0] ++ List.replicate 28 0, by decide⟩

end Tulux.QApplication
