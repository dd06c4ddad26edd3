import Tulux.GeoNetRouter.Receive
import Tulux.GeoNetRouter.Transmit

/-! Runs of the router: calls of `Receive` and `Transmit`, and what the callers and the tasks of the
router do between them. A call is a sequence of operations. -/
namespace Tulux.GeoNetRouter
open QCoder SortedMap GuardedRun

inductive Event where
  | receive (readings : Readings) (buf bufLen : ℕ) (data : GnData)
  | transmit (readings : Readings) (mc : MsgContents) (bufLen : ℕ) (data : GnData) (txcb : Bool)
  | op (op : Op)

def Core.init (mem : Memory) : Core := ⟨mem, 0, 0, [], .empty, []⟩

def Router.init (mem : Memory) : Router := ⟨.init mem, []⟩

section Runs
variable (cfg : GnConfig) (geometry : Geometry)

def Router.next (r : Router) : Event → Router
  | .receive readings buf bufLen data => (receive cfg geometry readings buf bufLen data r).2.2
  | .transmit readings mc bufLen data txcb =>
    (transmit cfg geometry readings data txcb mc bufLen r).router
  | .op op => r.perform cfg op

def Router.run (r : Router) (events : List Event) : Router := final (Router.next cfg geometry) r events

/-- One state comes from another one by operations. -/
def Performs (r r' : Router) : Prop :=
  ∃ ops, r'.ops = r.ops ++ ops ∧ r'.core = final (Core.step cfg) r.core ops

end Runs

/-! ### Samples -/

def loaded (bytes : List UInt8) : Memory := fun a => bytes.getD a 0

/-- The front of a packet of several hops, up to the address of its source. -/
def tsbPacket (source sn : UInt8) : List UInt8 :=
  [0x01, 0, 0, 1, 0x10, 0x51, 0, 0, 0, 0, 1, 0, sn, 0, 0, 0, 0, 0, 0, 0, 0, 0, 0, source]

/-- The front of a beacon. -/
def beaconPacket : List UInt8 := [0x01, 0, 0, 1, 0x10, 0x10, 0, 0, 0, 0, 1, 0]

/-- Nothing moves. -/
def still : Readings := ⟨fun _ => 0, fun _ => ⟨0, 0, 0, 0, 0, 0⟩, false, 0, 0, false⟩

def plane : Geometry := ⟨fun _ _ _ _ => 0, fun _ _ _ _ _ _ _ _ => 0⟩

def anyData : GnData :=
  ⟨.any, .any, false, 0, .gnAddr, 1000, ⟨0, 0, 0, 0, 0, .circle⟩, 0, 0, 0, 0⟩

section Performs
variable {cfg : GnConfig} {geometry : Geometry} {readings : Readings} {r r' r'' : Router}
  {buf bufLen now : ℕ} {data : GnData} {txcb : Bool}

theorem Performs.refl (r : Router) : Performs cfg r r := ⟨[], (List.append_nil _).symm, rfl⟩

theorem Performs.trans (h : Performs cfg r r') (h' : Performs cfg r' r'') : Performs cfg r r'' := by
  obtain ⟨xs, hops, hcore⟩ := h
  obtain ⟨ys, hops', hcore'⟩ := h'
  refine ⟨xs ++ ys, ?_, ?_⟩
  · rw [hops', hops, List.append_assoc]
  · rw [hcore', hcore, final_append]

theorem performs_perform (r : Router) (op : Op) : Performs cfg r (r.perform cfg op) :=
  ⟨[op], rfl, rfl⟩

theorem Performs.perform (h : Performs cfg r r') (op : Op) : Performs cfg r (r'.perform cfg op) :=
  h.trans (performs_perform r' op)

/-! ### The packets that are queued -/

/-- The packet that an operation puts into a queue. -/
def Op.queued : Op → Option (List UInt8)
  | .queue (.enqueue call) => some call.buffer
  | _ => none

/-- One state comes from another one by operations, and what they put into a queue is such a
packet. -/
def PerformsWith (cfg : GnConfig) (P : List UInt8 → Prop) (r r' : Router) : Prop :=
  ∃ ops, r'.ops = r.ops ++ ops ∧ r'.core = final (Core.step cfg) r.core ops ∧
    ∀ packet ∈ ops.filterMap Op.queued, P packet

variable {P : List UInt8 → Prop}

theorem PerformsWith.performs (h : PerformsWith cfg P r r') : Performs cfg r r' := by
  obtain ⟨ops, hops, hcore, -⟩ := h
  exact ⟨ops, hops, hcore⟩

theorem PerformsWith.refl (r : Router) : PerformsWith cfg P r r :=
  ⟨[], (List.append_nil _).symm, rfl, by simp⟩

theorem PerformsWith.trans (h : PerformsWith cfg P r r') (h' : PerformsWith cfg P r' r'') :
    PerformsWith cfg P r r'' := by
  obtain ⟨xs, hops, hcore, hxs⟩ := h
  obtain ⟨ys, hops', hcore', hys⟩ := h'
  refine ⟨xs ++ ys, ?_, ?_, fun packet hpacket => ?_⟩
  · rw [hops', hops, List.append_assoc]
  · rw [hcore', hcore, final_append]
  · rw [List.filterMap_append, List.mem_append] at hpacket
    exact hpacket.elim (hxs packet) (hys packet)

/-- An operation that queues nothing. -/
theorem performsWith_quiet (r : Router) {op : Op} (h : op.queued = none) :
    PerformsWith cfg P r (r.perform cfg op) :=
  ⟨[op], rfl, rfl, by simp [h]⟩

theorem PerformsWith.quiet (h : PerformsWith cfg P r r') {op : Op} (hop : op.queued = none) :
    PerformsWith cfg P r (r'.perform cfg op) := h.trans (performsWith_quiet r' hop)

theorem PerformsWith.enqueueBc (h : PerformsWith cfg P r r') {packet : List UInt8}
    (hpacket : P packet) (now : ℕ) :
    PerformsWith cfg P r (r'.enqueueBc cfg readings packet now) :=
  h.trans ⟨[.queue (.enqueue _)], rfl, rfl, by simpa [Op.queued] using hpacket⟩

theorem performsWith_checkDuplicate (r : Router) (now addr sn : ℕ) :
    PerformsWith cfg P r (r.checkDuplicate cfg now addr sn).2 := by
  unfold Router.checkDuplicate
  dsimp only
  split
  · exact performsWith_quiet r rfl
  · exact (performsWith_quiet r rfl).quiet rfl

theorem performsWith_update (r : Router) (now soPv : ℕ) :
    PerformsWith cfg P r (r.update cfg readings now soPv) := (performsWith_quiet r rfl).quiet rfl

theorem performsWith_processSource (r : Router) :
    PerformsWith cfg P r (r.processSource cfg readings buf).2 := by
  have hcheck : PerformsWith cfg P r (r.checkDuplicate cfg (readings.clock 0) (r.soMid buf)
      (packetSn r.core.mem buf)).2 := performsWith_checkDuplicate r _ _ _
  unfold Router.processSource
  dsimp only
  split_ifs
  · exact hcheck
  · exact hcheck.trans (performsWith_update _ _ _)

theorem performsWith_nafCbf (mem : Memory) (pktType : PacketType) (epv : Epv) (r : Router) :
    PerformsWith cfg P r (nafCbf cfg geometry mem buf pktType now epv r).2 := by
  unfold nafCbf
  dsimp only
  split_ifs
  · exact .refl r
  · exact .refl r
  · split
    · split_ifs <;> exact performsWith_quiet r rfl
    · exact performsWith_quiet r rfl

theorem performsWith_afCbf (mem : Memory) (r : Router) :
    PerformsWith cfg P r (afCbf cfg mem buf now r).2 := by
  unfold afCbf
  dsimp only
  split_ifs
  · exact .refl r
  · exact performsWith_quiet r rfl

theorem performsWith_forwardAlgorithmSelect (mem : Memory) (r : Router) :
    PerformsWith cfg P r (forwardAlgorithmSelect cfg geometry readings mem buf r).2 := by
  unfold forwardAlgorithmSelect
  dsimp only
  split_ifs
  · exact .refl r
  · cases cfg.areaForwardingAlgorithm
    · exact .refl r
    · exact .refl r
    · exact performsWith_afCbf mem r
    · exact .refl r
  · split
    · split_ifs
      · exact performsWith_quiet r rfl
      · split
        · exact (performsWith_quiet r rfl).trans (performsWith_nafCbf _ _ _ _)
        · exact performsWith_quiet r rfl
    · exact performsWith_quiet r rfl

/-! ### Receiving

A packet is queued only by a call that does not refuse it, and with a hop that is left. -/

theorem performsWith_receiveBeaconOrShb (shb : Bool) (data : GnData) (r : Router) :
    PerformsWith cfg P r (receiveBeaconOrShb cfg readings buf shb data r).2.2 := by
  unfold receiveBeaconOrShb
  dsimp only
  split_ifs <;> exact (performsWith_quiet r rfl).quiet rfl

/-- The check for duplicates of a packet that may have to be passed on. -/
theorem performsWith_source_or_update (r : Router) (checks : Prop) [Decidable checks] :
    PerformsWith cfg P r (if checks then r.processSource cfg readings buf
      else (false, r.update cfg readings now (soPvAt buf))).2 := by
  split_ifs
  · exact performsWith_processSource r
  · exact performsWith_update r _ _

theorem performsWith_receiveGuc (r : Router) :
    PerformsWith cfg P r (receiveGuc cfg geometry readings buf r).2 := by
  have hsource : PerformsWith cfg P r (r.processSource cfg readings buf).2 :=
    performsWith_processSource r
  have hcheck : PerformsWith cfg P r (if cfg.nonAreaForwardingAlgorithm ≠ .cbf then
      r.processSource cfg readings buf
    else (false, r.update cfg readings (readings.clock 1) (soPvAt buf))).2 :=
    performsWith_source_or_update r _
  unfold receiveGuc
  dsimp only
  split
  · split <;> exact hsource
  · revert hcheck
    generalize (if cfg.nonAreaForwardingAlgorithm ≠ .cbf then r.processSource cfg readings buf
      else (false, r.update cfg readings (readings.clock 1) (soPvAt buf))) = checked
    intro hcheck
    split_ifs
    · exact hcheck
    · exact hcheck
    · exact hcheck
    · exact hcheck.trans (performsWith_nafCbf _ _ _ _)
    · exact hcheck

theorem performsWith_receiveGbcGac (r : Router)
    (hpacket : (receiveGbcGac cfg geometry readings buf bufLen r).1 ≠ -1 →
      0 < (r.core.mem (buf + 3)).toNat → P (readBytes r.core.mem buf bufLen)) :
    PerformsWith cfg P r (receiveGbcGac cfg geometry readings buf bufLen r).2 := by
  have hsource : PerformsWith cfg P r (r.processSource cfg readings buf).2 :=
    performsWith_processSource r
  unfold receiveGbcGac at hpacket ⊢
  dsimp only at hpacket ⊢
  split
  · exact hsource
  · next hnew =>
    rw [if_neg hnew] at hpacket
    dsimp only at hpacket ⊢
    have hcopy : 0 < (r.core.mem (buf + 3)).toNat → P (readBytes r.core.mem buf bufLen) :=
      hpacket (by split_ifs <;> decide)
    split_ifs with hhops
    · exact hsource.enqueueBc (hcopy hhops) _
    · exact (hsource.trans (performsWith_forwardAlgorithmSelect _ _)).enqueueBc (hcopy hhops) _
    · exact hsource.trans (performsWith_forwardAlgorithmSelect _ _)
    · exact hsource

theorem performsWith_receiveLocationService (hst : ℕ) (r : Router) :
    PerformsWith cfg P r (receiveLocationService cfg geometry readings buf hst r).2 := by
  have hsource : PerformsWith cfg P r (r.processSource cfg readings buf).2 :=
    performsWith_processSource r
  unfold receiveLocationService
  dsimp only
  split_ifs
  · exact hsource
  · exact hsource
  · exact .refl r
  · exact hsource
  · exact hsource.quiet rfl
  · exact performsWith_receiveGuc r

theorem performsWith_receiveTsb (r : Router)
    (hpacket : (receiveTsb cfg readings buf bufLen r).1 ≠ -1 →
      0 < (r.core.mem (buf + 3)).toNat → P (readBytes r.core.mem buf bufLen)) :
    PerformsWith cfg P r (receiveTsb cfg readings buf bufLen r).2 := by
  have hsource : PerformsWith cfg P r (r.processSource cfg readings buf).2 :=
    performsWith_processSource r
  unfold receiveTsb at hpacket ⊢
  dsimp only at hpacket ⊢
  split_ifs at hpacket ⊢ with hduplicate hqueued
  · exact hsource
  · exact hsource.enqueueBc (hpacket (show (0 : ℤ) ≠ -1 by decide) hqueued.1) _
  · exact hsource

theorem performsWith_dispatch (data : GnData) (r : Router)
    (hpacket : (dispatch cfg geometry readings buf bufLen data r).1 ≠ -1 →
      0 < (r.core.mem (buf + 3)).toNat → P (readBytes r.core.mem buf bufLen)) :
    PerformsWith cfg P r (dispatch cfg geometry readings buf bufLen data r).2.2 := by
  revert hpacket
  unfold dispatch
  dsimp only
  cases PacketType.ofHt ((r.core.mem (buf + 5)).toNat / 16) with
  | any => exact fun _ => .refl r
  | beacon => exact fun _ => performsWith_receiveBeaconOrShb _ _ _
  | geounicast => exact fun _ => performsWith_receiveGuc r
  | geoanycast => exact performsWith_receiveGbcGac r
  | geobroadcast => exact performsWith_receiveGbcGac r
  | tsb =>
    dsimp only
    split_ifs
    · exact fun _ => performsWith_receiveBeaconOrShb _ _ _
    · exact performsWith_receiveTsb r
  | ls => exact fun _ => performsWith_receiveLocationService _ r

theorem performsWith_receive (data : GnData) (r : Router)
    (hpacket : (receive cfg geometry readings buf bufLen data r).1 ≠ -1 →
      let mem := writeBytes (decrementRhl r.core.mem buf) data.dAddr llBc
      0 < (mem (buf + 3)).toNat → P (readBytes mem buf bufLen)) :
    PerformsWith cfg P r (receive cfg geometry readings buf bufLen data r).2.2 := by
  unfold receive at hpacket ⊢
  dsimp only at hpacket ⊢
  split_ifs at hpacket ⊢
  · exact .refl r
  · exact performsWith_quiet r rfl
  · exact ((performsWith_quiet r rfl).quiet rfl).trans (performsWith_dispatch _ _ hpacket)

/-! ### What is left when the packets do not matter -/

theorem performs_checkDuplicate (r : Router) (now addr sn : ℕ) :
    Performs cfg r (r.checkDuplicate cfg now addr sn).2 :=
  (performsWith_checkDuplicate (P := fun _ => True) r now addr sn).performs

theorem performs_update (r : Router) (now soPv : ℕ) :
    Performs cfg r (r.update cfg readings now soPv) := (performs_perform r _).perform _

theorem performs_nafCbf (mem : Memory) (pktType : PacketType) (epv : Epv) (r : Router) :
    Performs cfg r (nafCbf cfg geometry mem buf pktType now epv r).2 :=
  (performsWith_nafCbf (P := fun _ => True) mem pktType epv r).performs

theorem performs_forwardAlgorithmSelect (mem : Memory) (r : Router) :
    Performs cfg r (forwardAlgorithmSelect cfg geometry readings mem buf r).2 :=
  (performsWith_forwardAlgorithmSelect (P := fun _ => True) mem r).performs

theorem performs_receive (data : GnData) (r : Router) :
    Performs cfg r (receive cfg geometry readings buf bufLen data r).2.2 :=
  (performsWith_receive (P := fun _ => True) data r fun _ _ => trivial).performs

/-! ### Sending -/

theorem performs_transmitGuc (r : Router) :
    Performs cfg r (transmitGuc cfg geometry readings data txcb buf bufLen r).router := by
  have hheader : Performs cfg r ((r.put cfg (buf + 1)
      (tsbHeader cfg readings data (readings.epv 0) r.core.sequenceNumber)).perform cfg .nextSn) :=
    (performs_perform r _).perform _
  unfold transmitGuc
  dsimp only
  split
  · exact (hheader.perform _).perform _
  · split_ifs
    · exact hheader.perform _
    · exact (hheader.perform _).perform _
    · exact hheader.perform _
    · exact (hheader.perform _).trans (performs_nafCbf _ _ _ _)

theorem performs_transmitGbcGac (r : Router) :
    Performs cfg r (transmitGbcGac cfg geometry readings data txcb buf bufLen r).router := by
  have hheader : Performs cfg r ((r.put cfg (buf + 1)
      (gbcGacHeader cfg readings data (readings.epv 0) r.core.sequenceNumber)).perform cfg
        .nextSn) :=
    (performs_perform r _).perform _
  unfold transmitGbcGac
  dsimp only
  split_ifs
  · exact .refl r
  · exact hheader.perform _
  · exact hheader.trans (performs_forwardAlgorithmSelect _ _)
  · exact hheader.trans (performs_forwardAlgorithmSelect _ _)

theorem performs_sendOrQueue (r : Router) :
    Performs cfg r (sendOrQueue cfg data txcb buf bufLen now r).router := by
  unfold sendOrQueue
  split_ifs
  · exact performs_perform r _
  · exact .refl r
  · exact .refl r

theorem performs_transmitTsbOrShb (mc : MsgContents) (before : Outcome)
    (h : Performs cfg r before.router) :
    Performs cfg r (transmitTsbOrShb cfg readings data txcb mc bufLen before).router := by
  unfold transmitTsbOrShb
  split
  · exact h
  · dsimp only
    split_ifs
    · exact ((h.perform _).perform _).trans (performs_sendOrQueue _)
    · exact (((h.perform _).perform _).perform _).trans (performs_sendOrQueue _)

theorem performs_transmit (mc : MsgContents) (r : Router) :
    Performs cfg r (transmit cfg geometry readings data txcb mc bufLen r).router := by
  unfold transmit
  split
  · split
    · exact .refl r
    · exact (performs_perform r _).trans (performs_transmitGuc _)
  · split
    · exact .refl r
    · exact performs_transmitTsbOrShb _ _ ((performs_perform r _).trans (performs_transmitGbcGac _))
  · split
    · exact .refl r
    · exact performs_transmitTsbOrShb _ _ ((performs_perform r _).trans (performs_transmitGbcGac _))
  · exact performs_transmitTsbOrShb _ _ (.refl r)
  · exact .refl r

/-! ### Runs -/

theorem performs_next (r : Router) (event : Event) : Performs cfg r (r.next cfg geometry event) := by
  cases event with
  | receive => exact performs_receive _ r
  | transmit => exact performs_transmit _ r
  | op op => exact performs_perform r op

theorem performs_run (r : Router) (events : List Event) :
    Performs cfg r (r.run cfg geometry events) := by
  induction events generalizing r with
  | nil => exact .refl r
  | cons event events ih => exact (performs_next r event).trans (ih _)

/-- The state of the router is that of its operations. -/
theorem core_run (mem : Memory) (events : List Event) :
    ((Router.init mem).run cfg geometry events).core =
      final (Core.step cfg) (.init mem) ((Router.init mem).run cfg geometry events).ops := by
  have hrun : Performs cfg (.init mem) ((Router.init mem).run cfg geometry events) :=
    performs_run _ events
  obtain ⟨ops, hops, hcore⟩ := hrun
  rw [hcore, hops]
  rfl

end Performs

end Tulux.GeoNetRouter
