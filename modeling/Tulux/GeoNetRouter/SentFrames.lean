import Tulux.GeoNetRouter.OwnPackets
import Tulux.GeoNetRouter.Runs

/-! What a call of `Transmit` sends and queues: frames that begin with the family id, and with the
headers behind it. -/
namespace Tulux.GeoNetRouter
open QCoder SortedMap GuardedRun

/-- A frame with its family id, a reserved byte of 0 in the basic header, and a length that has room
for the headers and 16 bits. -/
structure OwnFrame (frame : List UInt8) : Prop where
  family : frame[0]? = some 3
  reserved : frame[2]? = some 0
  length : 41 ≤ frame.length ∧ frame.length < 2 ^ 16

/-- Such a frame is at a place in memory. -/
structure FrameAt (mem : Memory) (buf : ℕ) : Prop where
  family : mem buf = 3
  reserved : mem (buf + 2) = 0

/-- The lengths of a call whose frames have a length of 16 bits. -/
def ShortCall (data : GnData) (bufLen : ℕ) : Prop :=
  bufLen < 2 ^ 15 ∧ 0 ≤ data.payloadLen ∧ data.payloadLen < 2 ^ 15

/-- All that a call sends and queues are such frames. -/
structure SendsFrames (cfg : GnConfig) (r : Router) (outcome : Outcome) : Prop where
  performs : PerformsWith cfg OwnFrame r outcome.router
  calls : ∀ frame ∈ outcome.calls, OwnFrame frame

section Frames
variable {cfg : GnConfig} {geometry : Geometry} {readings : Readings} {data : GnData} {txcb : Bool}
  {mem : Memory} {buf bufLen now n : ℕ} {pktType : PacketType} {r : Router} {hdr : List UInt8}
  {epv : Epv} {ret : ℤ}

theorem getElem?_readBytes {i : ℕ} (mem : Memory) (a : ℕ) (h : i < n) :
    (readBytes mem a n)[i]? = some (mem (a + i)) := by
  rw [List.getElem?_eq_getElem (by simpa using h), getElem_readBytes]

theorem FrameAt.ownFrame (h : FrameAt mem buf) (hmin : 41 ≤ n) (hmax : n < 2 ^ 16) :
    OwnFrame (readBytes mem buf n) := by
  refine ⟨?_, ?_, ?_⟩
  · rw [getElem?_readBytes mem buf (by omega), Nat.add_zero, h.family]
  · rw [getElem?_readBytes mem buf (by omega), h.reserved]
  · rw [length_readBytes]
    exact ⟨hmin, hmax⟩

/-! ### Headers behind the family id -/

theorem family_put (cfg : GnConfig) (r : Router) (buf : ℕ) :
    (r.put cfg buf [3]).core.mem buf = 3 := by
  change writeBytes r.core.mem buf [3] (buf + 0) = 3
  rw [writeBytes_inside _ _ (by simp)]
  rfl

/-- Every header has its reserved byte at the same place. -/
theorem frameAt_put (cfg : GnConfig) (hfamily : r.core.mem buf = 3) (hreserved : hdr[1]? = some 0) :
    FrameAt (r.put cfg (buf + 1) hdr).core.mem buf := by
  obtain ⟨hlength, hbyte⟩ := List.getElem?_eq_some_iff.mp hreserved
  refine ⟨?_, ?_⟩
  · rw [← hfamily]
    exact writeBytes_outside _ (.inl (by omega))
  · change writeBytes r.core.mem (buf + 1) hdr (buf + 1 + 1) = 0
    rw [writeBytes_inside _ _ hlength, hbyte]

theorem reserved_tsbHeader (sn : ℕ) : (tsbHeader cfg readings data epv sn)[1]? = some 0 := rfl

theorem reserved_gbcGacHeader (sn : ℕ) : (gbcGacHeader cfg readings data epv sn)[1]? = some 0 := rfl

theorem reserved_shbHeader : (shbHeader cfg readings data epv)[1]? = some 0 := rfl

theorem mem_nafCbf (mem : Memory) (pktType : PacketType) (epv : Epv) (r : Router) :
    (nafCbf cfg geometry mem buf pktType now epv r).2.core.mem = r.core.mem := by
  unfold nafCbf
  dsimp only
  split_ifs
  · rfl
  · rfl
  · split
    · split_ifs <;> rfl
    · rfl

theorem mem_forwardAlgorithmSelect (mem : Memory) (r : Router) :
    (forwardAlgorithmSelect cfg geometry readings mem buf r).2.core.mem = r.core.mem := by
  have hafCbf : (afCbf cfg mem buf (readings.clock 3) r).2.core.mem = r.core.mem := by
    unfold afCbf
    dsimp only
    split_ifs <;> rfl
  unfold forwardAlgorithmSelect
  dsimp only
  split_ifs
  · rfl
  · cases cfg.areaForwardingAlgorithm
    · rfl
    · rfl
    · exact hafCbf
    · rfl
  · split
    · split_ifs
      · rfl
      · split
        · exact mem_nafCbf _ _ _ _
        · rfl
    · rfl

/-! ### Sending -/

theorem performsWith_put (P : List UInt8 → Prop) (r : Router) (a : ℕ) (bytes : List UInt8) :
    PerformsWith cfg P r (r.put cfg a bytes) := performsWith_quiet r rfl

theorem PerformsWith.enqueueTx {P : List UInt8 → Prop} {r' : Router} {buf : ℕ}
    (h : PerformsWith cfg P r r') (hpacket : P (readBytes mem buf bufLen)) (hmem : r'.core.mem = mem)
    (qid : ℕ) (addr : Option ℕ) (now : ℕ) :
    PerformsWith cfg P r (r'.enqueueTx cfg txcb qid buf bufLen addr now) := by
  subst hmem
  exact h.trans ⟨[.queue (.enqueue _)], rfl, rfl, by simpa [Op.queued] using hpacket⟩

theorem PerformsWith.mono {P P' : List UInt8 → Prop} {r' : Router} (h : PerformsWith cfg P r r')
    (hmono : ∀ packet, P packet → P' packet) : PerformsWith cfg P' r r' := by
  obtain ⟨ops, hops, hcore, hqueued⟩ := h
  exact ⟨ops, hops, hcore, fun packet hpacket => hmono packet (hqueued packet hpacket)⟩

/-- A call that sends nothing. -/
theorem SendsFrames.silent {r' : Router} (h : PerformsWith cfg OwnFrame r r') :
    SendsFrames cfg r ⟨ret, [], r'⟩ := ⟨h, fun _ hframe => absurd hframe List.not_mem_nil⟩

theorem sendsFrames_transmitGuc (hfamily : r.core.mem buf = 3) (hmin : 41 ≤ bufLen)
    (hmax : bufLen < 2 ^ 16) :
    SendsFrames cfg r (transmitGuc cfg geometry readings data txcb buf bufLen r) := by
  have hframe : FrameAt (r.put cfg (buf + 1)
      (tsbHeader cfg readings data (readings.epv 0) r.core.sequenceNumber)).core.mem buf :=
    frameAt_put _ hfamily (reserved_tsbHeader _)
  have hheader : PerformsWith cfg OwnFrame r ((r.put cfg (buf + 1)
      (tsbHeader cfg readings data (readings.epv 0) r.core.sequenceNumber)).perform cfg .nextSn) :=
    (performsWith_put _ r _ _).quiet rfl
  unfold transmitGuc
  dsimp only
  split
  · exact .silent ((hheader.quiet rfl).enqueueTx (hframe.ownFrame hmin hmax) rfl _ _ _)
  · split_ifs
    · exact .silent (hheader.quiet rfl)
    · exact .silent ((hheader.quiet rfl).enqueueTx (hframe.ownFrame hmin hmax) rfl _ _ _)
    · exact .silent (hheader.quiet rfl)
    · exact .silent ((hheader.quiet rfl).trans (performsWith_nafCbf _ _ _ _))

theorem sendsFrames_transmitGbcGac (hfamily : r.core.mem buf = 3) (hmin : 41 ≤ bufLen)
    (hmax : bufLen < 2 ^ 16) (hpayload : 0 ≤ data.payloadLen ∧ data.payloadLen < 2 ^ 15) :
    SendsFrames cfg r (transmitGbcGac cfg geometry readings data txcb buf bufLen r) := by
  have hframe : FrameAt (r.put cfg (buf + 1)
      (gbcGacHeader cfg readings data (readings.epv 0) r.core.sequenceNumber)).core.mem buf :=
    frameAt_put _ hfamily (reserved_gbcGacHeader _)
  have hheader : PerformsWith cfg OwnFrame r ((r.put cfg (buf + 1)
      (gbcGacHeader cfg readings data (readings.epv 0) r.core.sequenceNumber)).perform cfg
        .nextSn) := (performsWith_put _ r _ _).quiet rfl
  have hsize : 41 ≤ u32 (data.payloadLen + 56) % 2 ^ 16 := by
    unfold u32
    omega
  unfold transmitGbcGac
  dsimp only
  split_ifs
  · exact .silent (.refl r)
  · exact .silent (hheader.enqueueTx (hframe.ownFrame hmin hmax) rfl _ _ _)
  · refine ⟨hheader.trans (performsWith_forwardAlgorithmSelect _ _), ?_⟩
    rw [List.forall_mem_singleton, mem_forwardAlgorithmSelect]
    exact hframe.ownFrame hsize (Nat.mod_lt _ (by decide))
  · exact .silent (hheader.trans (performsWith_forwardAlgorithmSelect _ _))

theorem sendsFrames_sendOrQueue (hframe : FrameAt r.core.mem buf) (hmin : 41 ≤ bufLen)
    (hmax : bufLen < 2 ^ 16) :
    SendsFrames cfg r (sendOrQueue cfg data txcb buf bufLen now r) := by
  have hown := hframe.ownFrame hmin hmax
  unfold sendOrQueue
  split_ifs
  · exact .silent ((PerformsWith.refl r).enqueueTx hown rfl _ _ _)
  · refine ⟨.refl r, ?_⟩
    rw [List.forall_mem_singleton, Nat.mod_eq_of_lt hmax]
    exact hown
  · exact .silent (.refl r)

theorem sendsFrames_transmitTsbOrShb (mc : MsgContents) (hlen : bufLen + 41 < 2 ^ 16)
    {before : Outcome} (hbefore : SendsFrames cfg r before) :
    SendsFrames cfg r (transmitTsbOrShb cfg readings data txcb mc bufLen before) := by
  unfold transmitTsbOrShb
  split
  · exact hbefore
  · next mc' _ =>
    have hfamily := family_put cfg before.router mc'.data
    have hput : PerformsWith cfg OwnFrame r (before.router.put cfg mc'.data [3]) :=
      hbefore.performs.trans (performsWith_put _ _ _ _)
    dsimp only
    have hmin : 41 ≤ bufLen + 41 := by omega
    split_ifs
    · have hsent : SendsFrames cfg _ (transmitShb cfg readings data txcb mc'.data (bufLen + 41)
          (before.router.put cfg mc'.data [3])) :=
        sendsFrames_sendOrQueue (frameAt_put _ hfamily reserved_shbHeader) hmin hlen
      exact ⟨(hput.trans (performsWith_put _ _ _ _)).trans hsent.performs, fun frame hmem =>
        (List.mem_append.mp hmem).elim (hbefore.calls frame) (hsent.calls frame)⟩
    · have hsent : SendsFrames cfg _ (transmitTsb cfg readings data txcb mc'.data (bufLen + 41)
          (before.router.put cfg mc'.data [3])) :=
        sendsFrames_sendOrQueue (frameAt_put cfg hfamily (reserved_tsbHeader _)) hmin hlen
      exact ⟨((hput.trans (performsWith_put _ _ _ _)).quiet rfl).trans hsent.performs,
        fun frame hmem =>
          (List.mem_append.mp hmem).elim (hbefore.calls frame) (hsent.calls frame)⟩

theorem sendsFrames_transmit (mc : MsgContents) (r : Router) (h : ShortCall data bufLen) :
    SendsFrames cfg r (transmit cfg geometry readings data txcb mc bufLen r) := by
  obtain ⟨hlen, hpayload⟩ := h
  have harea (mc' : MsgContents) :
      SendsFrames cfg r (transmitGbcGac cfg geometry readings data txcb mc'.data (bufLen + 57)
        (r.put cfg mc'.data [3])) := by
    have hsent : SendsFrames cfg _ (transmitGbcGac cfg geometry readings data txcb mc'.data
        (bufLen + 57) (r.put cfg mc'.data [3])) :=
      sendsFrames_transmitGbcGac (family_put cfg r mc'.data) (by omega) (by omega) hpayload
    exact ⟨(performsWith_put _ r _ _).trans hsent.performs, hsent.calls⟩
  unfold transmit
  split
  · split
    · exact .silent (.refl r)
    · next mc' _ =>
      have hsent : SendsFrames cfg _ (transmitGuc cfg geometry readings data txcb mc'.data
          (bufLen + 61) (r.put cfg mc'.data [3])) :=
        sendsFrames_transmitGuc (family_put cfg r mc'.data) (by omega) (by omega)
      exact ⟨(performsWith_put _ r _ _).trans hsent.performs, hsent.calls⟩
  · split
    · exact .silent (.refl r)
    · exact sendsFrames_transmitTsbOrShb _ (by omega) (harea _)
  · split
    · exact .silent (.refl r)
    · exact sendsFrames_transmitTsbOrShb _ (by omega) (harea _)
  · exact sendsFrames_transmitTsbOrShb _ (by omega) (.silent (.refl r))
  · exact .silent (.refl r)

end Frames

end Tulux.GeoNetRouter
