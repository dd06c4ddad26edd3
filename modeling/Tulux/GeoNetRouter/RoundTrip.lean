import Tulux.GeoNetRouter.TransmitContract

/-! What `Receive` makes of a packet whose header `Transmit` has written. -/
namespace Tulux.GeoNetRouter
open QCoder SortedMap GuardedRun

/-! ### Headers -/

/-- The basic header and the common header of a packet, with some hops left. -/
structure Headed (cfg : GnConfig) (data : GnData) (rhl : ℕ) (mem : Memory) (buf : ℕ) : Prop where
  version : (mem buf).toNat = 1 + u32 cfg.protocolVersion % 2 ^ 4 * 2 ^ 4
  rhl : (mem (buf + 3)).toNat = rhl
  nh : (mem (buf + 4)).toNat = data.upperProt.toNat * 2 ^ 4
  types : (mem (buf + 5)).toNat = headerSubtype data + data.pktType.toNat * 2 ^ 4
  tc : (mem (buf + 6)).toNat = u32 data.tc % 2 ^ 8
  pl : read16 mem (buf + 8) = ntohs (u32 data.payloadLen)
  mhl : (mem (buf + 10)).toNat = maxHopLimit data

section Headers
variable {cfg : GnConfig} {readings : Readings} {data : GnData} {mem mem' : Memory}
  {buf rhl n a : ℕ} {rest xs : List UInt8}

theorem maxHopLimit_lt (data : GnData) : maxHopLimit data < 2 ^ 8 := by
  unfold maxHopLimit
  split_ifs
  · exact Nat.mod_lt _ (by decide)
  · decide

theorem upperProt_lt (upperProt : UpperProtocol) : upperProt.toNat ≤ 3 := by
  cases upperProt <;> decide

theorem headed_of_bytes (h : readBytes mem buf n = initBhCh cfg readings data ++ rest) :
    Headed cfg data (maxHopLimit data) mem buf := by
  have hlength : 12 ≤ n := by
    have hn := congrArg List.length h
    rw [length_readBytes, List.length_append, length_initBhCh] at hn
    omega
  have hbytes := readBytes_part (k := 0) (b := 12) h (by omega)
  rw [List.drop_zero, List.take_left' (length_initBhCh cfg readings data), Nat.add_zero] at hbytes
  obtain ⟨-, hbyte⟩ := readBytes_eq_iff.mp hbytes
  have hhop := maxHopLimit_lt data
  have hprot := upperProt_lt data.upperProt
  have hpl : read16 mem (buf + 8) = ntohs (u32 data.payloadLen) % 2 ^ 16 :=
    read16_of_bytes (readBytes_part hbytes (by decide))
  refine ⟨?_, ?_, ?_, types_initBhCh h, ?_, ?_, ?_⟩
  · have hversion : mem buf = .ofNat (1 + u32 cfg.protocolVersion % 2 ^ 4 * 2 ^ 4) :=
      hbyte 0 (show 0 < 12 by decide)
    rw [hversion, UInt8.toNat_ofNat', Nat.mod_eq_of_lt (by omega)]
  · have hrhl : mem (buf + 3) = .ofNat (maxHopLimit data) := hbyte 3 (show 3 < 12 by decide)
    rw [hrhl, UInt8.toNat_ofNat', Nat.mod_eq_of_lt hhop]
  · have hnh : mem (buf + 4) = .ofNat (data.upperProt.toNat * 2 ^ 4) :=
      hbyte 4 (show 4 < 12 by decide)
    rw [hnh, UInt8.toNat_ofNat', Nat.mod_eq_of_lt (by omega)]
  · have htc : mem (buf + 6) = .ofNat (u32 data.tc) := hbyte 6 (show 6 < 12 by decide)
    rw [htc, UInt8.toNat_ofNat']
  · rw [hpl, Nat.mod_eq_of_lt (ntohs_lt _)]
  · have hmhl : mem (buf + 10) = .ofNat (maxHopLimit data) := hbyte 10 (show 10 < 12 by decide)
    rw [hmhl, UInt8.toNat_ofNat', Nat.mod_eq_of_lt hhop]

namespace Headed

theorem of_rest (h : Headed cfg data rhl mem buf) (hrhl : (mem' (buf + 3)).toNat = n)
    (hrest : ∀ i ∈ [0, 4, 5, 6, 8, 9, 10], mem' (buf + i) = mem (buf + i)) :
    Headed cfg data n mem' buf where
  version := by rw [← h.version, ← Nat.add_zero buf, hrest 0 (by decide)]
  rhl := hrhl
  nh := by rw [hrest 4 (by decide), h.nh]
  types := by rw [hrest 5 (by decide), h.types]
  tc := by rw [hrest 6 (by decide), h.tc]
  pl := by
    rw [← h.pl]
    unfold read16
    rw [hrest 8 (by decide), Nat.add_assoc, hrest 9 (by decide)]
  mhl := by rw [hrest 10 (by decide), h.mhl]

theorem decrementRhl (h : Headed cfg data rhl mem buf) :
    Headed cfg data (rhl - 1) (decrementRhl mem buf) buf := by
  have hrest : ∀ i ∈ [0, 4, 5, 6, 8, 9, 10],
      GeoNetRouter.decrementRhl mem buf (buf + i) = mem (buf + i) := by
    intro i hi
    unfold GeoNetRouter.decrementRhl
    split_ifs
    · refine Function.update_of_ne ?_ _ _
      have hne : i ≠ 3 := by
        rintro rfl
        exact absurd hi (by decide)
      omega
    · rfl
  refine h.of_rest ?_ hrest
  unfold GeoNetRouter.decrementRhl
  rw [h.rhl]
  split_ifs with hpos
  · have hone : (1 : UInt8) ≤ mem (buf + 3) := by
      rw [UInt8.le_iff_toNat_le, h.rhl]
      exact hpos
    rw [Function.update_self, UInt8.toNat_sub_of_le _ _ hone, h.rhl]
    rfl
  · rw [h.rhl]
    omega

theorem writeBytes (h : Headed cfg data rhl mem buf)
    (hdisjoint : a + xs.length ≤ buf ∨ buf + 12 ≤ a) :
    Headed cfg data rhl (writeBytes mem a xs) buf := by
  have hsame (i : ℕ) (hi : i < 12) : GeoNetRouter.writeBytes mem a xs (buf + i) = mem (buf + i) :=
    writeBytes_outside mem (by omega)
  refine h.of_rest ?_ fun i hi => hsame i ?_
  · rw [hsame 3 (by decide), h.rhl]
  · revert i
    decide

theorem basicHeaderOk_iff (h : Headed cfg data rhl mem buf) :
    basicHeaderOk mem buf ↔ u32 cfg.protocolVersion % 2 ^ 4 ≤ 1 := by
  unfold basicHeaderOk
  rw [h.version, decide_eq_true_iff]
  omega

theorem headerType (h : Headed cfg data rhl mem buf) :
    (mem (buf + 5)).toNat / 16 = data.pktType.toNat := by
  have hlt := headerSubtype_lt data
  rw [h.types]
  omega

theorem headerSubtype (h : Headed cfg data rhl mem buf) :
    (mem (buf + 5)).toNat % 16 = headerSubtype data := by
  have hlt := headerSubtype_lt data
  rw [h.types]
  omega

theorem nextHeader (h : Headed cfg data rhl mem buf) :
    (mem (buf + 4)).toNat / 16 = data.upperProt.toNat := by
  rw [h.nh]
  omega

/-- A packet of one or several hops passes the checks of the common header. -/
theorem commonHeaderOk (h : Headed cfg data rhl mem buf) (htype : data.pktType = .tsb)
    (hprot : data.upperProt ≠ .any) : commonHeaderOk mem buf := by
  have hnh : 0 < data.upperProt.toNat := by
    cases hcase : data.upperProt with
    | any => exact absurd hcase hprot
    | _ => decide
  have hhst : GeoNetRouter.headerSubtype data ≤ 1 := by
    unfold GeoNetRouter.headerSubtype
    rw [htype]
    dsimp only
    split_ifs <;> decide
  unfold GeoNetRouter.commonHeaderOk
  rw [h.nextHeader, h.headerType, h.headerSubtype, htype, decide_eq_true_iff]
  exact ⟨⟨hnh, upperProt_lt _⟩, by decide, fun hne => absurd hne (by decide), fun _ => hhst⟩

end Headed

end Headers

/-! ### Receiving -/

/-- The router when the type of a packet is looked at: a hop less is left, and the destination is
the broadcast address. -/
def Router.headersRead (cfg : GnConfig) (buf dAddr : ℕ) (r : Router) : Router :=
  let r := r.perform cfg (.write (decrementRhl r.core.mem buf))
  r.perform cfg (.write (writeBytes r.core.mem dAddr llBc))

/-- The number of a packet is not on the list of its source. -/
def Fresh (cfg : GnConfig) (readings : Readings) (buf : ℕ) (r : Router) : Prop :=
  ∀ e, r.found cfg (readings.clock 0) (r.soMid buf) = some e →
    e.isDuplicated (packetSn r.core.mem buf) = false

section Receiving
variable {cfg cfg' : GnConfig} {geometry : Geometry} {readings : Readings} {data data' : GnData}
  {a buf bufLen rhl now addr sn : ℕ} {r : Router}

theorem mem_checkDuplicate (r : Router) :
    (r.checkDuplicate cfg now addr sn).2.core.mem = r.core.mem := by
  unfold Router.checkDuplicate
  dsimp only
  split <;> rfl

theorem mem_processSource (r : Router) :
    (r.processSource cfg readings buf).2.core.mem = r.core.mem := by
  unfold Router.processSource
  dsimp only
  split_ifs
  · exact mem_checkDuplicate r
  · exact mem_checkDuplicate r

theorem fst_processSource (hfresh : Fresh cfg readings buf r) :
    (r.processSource cfg readings buf).1 = false := by
  have hnew : (r.checkDuplicate cfg (readings.clock 0) (r.soMid buf)
      (packetSn r.core.mem buf)).1 = false := by
    unfold Router.checkDuplicate
    dsimp only
    split
    · rfl
    · next e he => exact hfresh e he
  unfold Router.processSource
  dsimp only
  rw [hnew]
  rfl

theorem receiveTsb_fresh (bufLen : ℕ) (hfresh : Fresh cfg readings buf r) :
    ∃ r', receiveTsb cfg readings buf bufLen r = (0, r') ∧ r'.core.mem = r.core.mem := by
  unfold receiveTsb
  dsimp only
  rw [fst_processSource hfresh, if_neg Bool.false_ne_true]
  split_ifs
  · exact ⟨_, rfl, mem_processSource r⟩
  · exact ⟨_, rfl, mem_processSource r⟩

/-- What is read of the headers, with the flag that is left from before or set for a packet of one
hop. -/
def receivedData (cfg : GnConfig) (data data' : GnData) : GnData :=
  { initDefaultGnData cfg data' with
    upperProt := data.upperProt
    pktType := data.pktType
    isShb := data.isShb || data'.isShb
    payloadLen := ntohs (ntohs (u32 data.payloadLen))
    tc := (u32 data.tc % 2 ^ 8 : ℕ) }

theorem dispatch_headed (h : Headed cfg data rhl r.core.mem buf) (htype : data.pktType = .tsb)
    (hfresh : data.isShb = false → Fresh cfg' readings buf r) :
    ∃ r', dispatch cfg' geometry readings buf bufLen (readHeader cfg' buf r.core.mem data') r =
      (0, receivedData cfg' data data', r') ∧ r'.core.mem = r.core.mem := by
  have hread : readHeader cfg' buf r.core.mem data' =
      { receivedData cfg' data data' with isShb := data'.isShb } := by
    unfold readHeader receivedData
    rw [h.nextHeader, h.headerType, h.pl, h.tc, UpperProtocol.ofNh_toNat, PacketType.ofHt_toNat]
    rfl
  have hsubtype : headerSubtype data = if data.isShb then 0 else 1 := by
    unfold headerSubtype
    rw [htype]
  unfold dispatch
  dsimp only
  rw [hread, h.headerType, h.headerSubtype, hsubtype, PacketType.ofHt_toNat, htype]
  dsimp only
  by_cases hshb : data.isShb
  · refine ⟨(receiveBeaconOrShb cfg' readings buf true data' r).2.2, ?_, rfl⟩
    unfold receivedData
    rw [hshb]
    rfl
  · rw [Bool.not_eq_true] at hshb
    obtain ⟨r', hreceive, hmem⟩ := receiveTsb_fresh bufLen (hfresh hshb)
    refine ⟨r', ?_, hmem⟩
    rw [hreceive, hshb]
    rw [if_neg Bool.false_ne_true]
    unfold receivedData
    rw [hshb]
    rfl

/-- A packet of one or several hops that is not there for the second time is for the upper layer. -/
theorem receive_headed (h : Headed cfg data (maxHopLimit data) r.core.mem buf)
    (htype : data.pktType = .tsb) (hprot : data.upperProt ≠ .any)
    (hversion : u32 cfg.protocolVersion % 2 ^ 4 ≤ 1)
    (hdisjoint : data'.dAddr + 6 ≤ buf ∨ buf + 12 ≤ data'.dAddr)
    (hfresh : data.isShb = false →
      Fresh cfg' readings buf (r.headersRead cfg' buf data'.dAddr)) :
    ∃ r', receive cfg' geometry readings buf bufLen data' r =
      (0, receivedData cfg' data data', r') ∧
        r'.core.mem = (r.headersRead cfg' buf data'.dAddr).core.mem := by
  have hbasic : basicHeaderOk r.core.mem buf := h.basicHeaderOk_iff.mpr hversion
  have hchecked := h.decrementRhl
  have hcommon := hchecked.commonHeaderOk htype hprot
  have hhops : ¬ (decrementRhl r.core.mem buf (buf + 10)).toNat <
      (decrementRhl r.core.mem buf (buf + 3)).toNat := by
    rw [hchecked.mhl, hchecked.rhl]
    omega
  have hread : Headed cfg data (maxHopLimit data - 1)
      (r.headersRead cfg' buf data'.dAddr).core.mem buf := hchecked.writeBytes hdisjoint
  have hdispatch : ∃ r', dispatch cfg' geometry readings buf bufLen
      (readHeader cfg' buf (r.headersRead cfg' buf data'.dAddr).core.mem data')
        (r.headersRead cfg' buf data'.dAddr) = (0, receivedData cfg' data data', r') ∧
        r'.core.mem = (r.headersRead cfg' buf data'.dAddr).core.mem :=
    dispatch_headed hread htype hfresh
  obtain ⟨r', hdispatch, hmem⟩ := hdispatch
  refine ⟨r', ?_, hmem⟩
  rw [← hdispatch]
  unfold receive
  rw [hbasic, if_neg (by decide)]
  refine if_neg (not_or.mpr ⟨?_, hhops⟩)
  rw [Bool.not_eq_true', Bool.not_eq_false]
  exact hcommon

/-- A packet of another version is not taken. -/
theorem receive_version (h : Headed cfg data rhl r.core.mem buf)
    (hversion : ¬ u32 cfg.protocolVersion % 2 ^ 4 ≤ 1) :
    receive cfg' geometry readings buf bufLen data' r = (-1, data', r) := by
  have hbasic : basicHeaderOk r.core.mem buf = false := by
    rw [← Bool.not_eq_true, h.basicHeaderOk_iff]
    exact hversion
  unfold receive
  rw [hbasic]
  rfl

/-- The rest of a packet is as it was sent. -/
theorem readBytes_headersRead {n : ℕ} (r : Router) {dAddr : ℕ} (ha : buf + 3 < a)
    (hdisjoint : dAddr + 6 ≤ a ∨ a + n ≤ dAddr) :
    readBytes (r.headersRead cfg buf dAddr).core.mem a n = readBytes r.core.mem a n := by
  have hwrite : readBytes (r.headersRead cfg buf dAddr).core.mem a n =
      readBytes (decrementRhl r.core.mem buf) a n :=
    readBytes_writeBytes_of_disjoint _ hdisjoint.symm
  rw [hwrite]
  refine List.map_congr_left fun i _ => ?_
  unfold decrementRhl
  split_ifs
  · exact Function.update_of_ne (by omega) _ _
  · rfl

end Receiving

/-! ### Frames in memory -/

section Frames
variable {cfg : GnConfig} {geometry : Geometry} {readings : Readings} {data : GnData} {txcb : Bool}
  {buf bufLen now : ℕ} {mc : MsgContents} {r : Router}

theorem length_header_tsb (cfg : GnConfig) (readings : Readings) (htype : data.pktType = .tsb)
    (r : Router) (mc : MsgContents) : (header cfg readings data r mc).length = 40 := by
  unfold header
  rw [htype]
  dsimp only
  split_ifs <;> rfl

theorem mem_sendOrQueue :
    (sendOrQueue cfg data txcb buf bufLen now r).router.core.mem = r.core.mem := by
  unfold sendOrQueue
  split_ifs <;> rfl

theorem mem_transmit_tsb (htype : data.pktType = .tsb) (hroom : 41 ≤ mc.headroom) :
    (transmit cfg geometry readings data txcb mc bufLen r).router.core.mem =
      writeBytes r.core.mem (mc.data - 41) (3 :: header cfg readings data r mc) := by
  obtain ⟨mc', hpush, hdata, -⟩ := MsgContents.push_of_le hroom
  unfold transmit transmitTsbOrShb header
  rw [htype]
  dsimp only
  rw [hpush, ← hdata]
  dsimp only
  split_ifs
  · unfold transmitShb
    rw [mem_sendOrQueue, put_put]
  · unfold transmitTsb
    dsimp only
    rw [mem_sendOrQueue]
    exact congrArg Core.mem (put_put r mc'.data 3 _)

/-- Behind `Transmit` a packet of one or several hops is in memory as one frame. -/
theorem readBytes_transmit_tsb (htype : data.pktType = .tsb) (hroom : 41 ≤ mc.headroom) :
    readBytes (transmit cfg geometry readings data txcb mc bufLen r).router.core.mem
      (mc.data - 41) (41 + bufLen) = frame cfg readings data r mc bufLen := by
  have hlength := length_header_tsb cfg readings htype r mc
  have hposition : mc.data - 41 + (header cfg readings data r mc).length + 1 = mc.data := by
    unfold MsgContents.headroom at hroom
    omega
  rw [mem_transmit_tsb htype hroom, frame, frame_eq_readBytes r.core.mem hposition, hlength,
    Nat.add_comm]

end Frames

end Tulux.GeoNetRouter
