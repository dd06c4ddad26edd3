import Tulux.GeoNetRouter.QueueConservation
import Tulux.GeoNetRouter.OwnPackets
import Tulux.GeoNetRouter.Runs

/-! What `Transmit` says it has done, and what it has done. -/
namespace Tulux.GeoNetRouter
open QCoder SortedMap GuardedRun

/-! ### Queues -/

/-- A packet was put into one queue, once: it is what the queues hold, or had to drop, more than
before. -/
def QueuedOnce (f : ℕ → ℕ) (frame : List UInt8) (queues queues' : Queues) : Prop :=
  ∃ x : Placed, x.2.buffer = frame ∧ (queues'.held f ++ queues'.log.dropped).Perm
    (queues.held f ++ queues.log.dropped ++ [x])

section Queues
variable {f : ℕ → ℕ} {queues queues' : Queues} {frame : List UInt8} {x : Placed}

theorem not_queuedOnce_self (f : ℕ → ℕ) (frame : List UInt8) (queues : Queues) :
    ¬ QueuedOnce f frame queues queues := by
  rintro ⟨x, -, hperm⟩
  have hlength := hperm.length_eq
  simp only [List.length_append, List.length_singleton] at hlength
  omega

theorem perm_of_settles {log : QueueLog}
    (h : Settles (queues.held f ++ [x]) log (queues'.held f) queues'.log)
    (hlog : log.dropped = queues.log.dropped) :
    (queues'.held f ++ queues'.log.dropped).Perm
      (queues.held f ++ queues.log.dropped ++ [x]) := by
  refine h.balance.trans ?_
  rw [hlog, List.append_assoc, List.append_assoc]
  exact List.perm_append_comm.append_left _

/-- The held packets with one more of the other map. -/
theorem settles_held_ls {lsMap : List (ℕ × AddressQueue)} {log log' : QueueLog}
    (h : Settles (placeMap f .ls queues.lsMapQueue ++ [x]) log (placeMap f .ls lsMap) log') :
    Settles (queues.held f ++ [x]) log
      (({ queues with lsMapQueue := lsMap, log := log' } : Queues).held f) log' := by
  have hrest := (h.append_right (place .bc queues.bcQueue)).append_left
    (placeMap f .uc queues.ucMapQueue)
  unfold Queues.held
  rw [List.append_assoc (placeMap f .uc _) (placeMap f .ls lsMap)]
  refine (Settles.of_perm ?_).trans hrest
  simp only [List.append_assoc]
  refine List.Perm.append_left _ (List.Perm.append_left _ ?_)
  exact List.perm_append_comm

variable (cfg : GnConfig) (call : EnqueueCall)

theorem perm_enqueue_uc {key : ℕ} (hqid : call.qid = ucQ) (haddr : call.addr = some key) :
    ((queues.enqueue f cfg call).held f ++ (queues.enqueue f cfg call).log.dropped).Perm
      (queues.held f ++ queues.log.dropped ++ [(.uc (f key), callElement queues call)]) :=
  perm_of_settles (settles_enqueue_uc cfg (by rw [hqid]; decide) haddr) rfl

theorem perm_enqueue_bc (f : ℕ → ℕ) (hqid : call.qid = bcQ) :
    ((queues.enqueue f cfg call).held f ++ (queues.enqueue f cfg call).log.dropped).Perm
      (queues.held f ++ queues.log.dropped ++ [(.bc, callElement queues call)]) :=
  perm_of_settles (settles_enqueue_bc cfg (by rw [hqid]; decide) (by rw [hqid]; decide)
    (by rw [hqid]; decide)) rfl

/-- A broadcast does not need the addresses of the queues. -/
theorem enqueue_bc_view (f f' : ℕ → ℕ) (hqid : call.qid = bcQ) :
    queues.enqueue f cfg call = queues.enqueue f' cfg call := by
  have huc : ¬ call.qid &&& ucQ ≠ 0 := by rw [hqid]; decide
  have hls : ¬ call.qid &&& lsQ ≠ 0 := by rw [hqid]; decide
  unfold Queues.enqueue
  dsimp only
  rw [if_neg huc, if_neg huc, if_neg hls, if_neg hls]

/-- A packet for an address that is looked for is lost when there is no queue for it and the address
has a unicast queue, which the new queue does not take the place of. -/
theorem queuedOnce_enqueue_ls_iff {key : ℕ} (hqid : call.qid = lsQ) (haddr : call.addr = some key) :
    QueuedOnce f call.buffer queues (queues.enqueue f cfg call) ↔
      (lookup f (f key) queues.lsMapQueue).isSome ∨
        lookup f (f key) queues.ucMapQueue = none := by
  have huc : ¬ call.qid &&& ucQ ≠ 0 := by rw [hqid]; decide
  have hls : call.qid &&& lsQ ≠ 0 := by rw [hqid]; decide
  unfold Queues.enqueue
  dsimp only
  rw [if_neg huc, if_pos hls, haddr]
  dsimp only
  cases henqueue : enqueueMap f cfg .ls (callElement queues call) key queues.lsMapQueue
      (queues.log.enqueue (.ls (f key), callElement queues call)) with
  | some result =>
    obtain ⟨q, hlookup, -⟩ := Option.map_eq_some_iff.mp henqueue
    refine iff_of_true ⟨(.ls (f key), callElement queues call), rfl, ?_⟩
      (.inl (Option.isSome_of_eq_some hlookup))
    exact perm_of_settles (settles_held_ls (settles_enqueueMap henqueue)) rfl
  | none =>
    have hlookup : lookup f (f key) queues.lsMapQueue = none := Option.map_eq_none_iff.mp henqueue
    rw [hlookup]
    dsimp only
    cases huclookup : lookup f (f key) queues.ucMapQueue with
    | none =>
      refine iff_of_true ⟨(.uc (f key), callElement queues call), rfl, ?_⟩ (.inr rfl)
      refine perm_of_settles (settles_held_uc (Settles.of_perm ?_)) rfl
      exact (placeMap_insert .uc huclookup ⟨f key, [callElement queues call]⟩).symm
    | some q =>
      have hmap : SortedMap.insert f key ⟨f key, [callElement queues call]⟩ queues.ucMapQueue =
          queues.ucMapQueue := by
        rw [SortedMap.insert, huclookup]
        rfl
      rw [hmap]
      exact iff_of_false (not_queuedOnce_self f _ queues) (by simp)

end Queues

/-! ### The contract -/

section Contract
variable (cfg : GnConfig) (geometry : Geometry) (readings : Readings) (data : GnData)

/-- The header for a packet. What is not set of the destination of a GUC is what is in memory. -/
def header (r : Router) (mc : MsgContents) : List UInt8 :=
  match data.pktType with
  | .geounicast => tsbHeader cfg readings data (readings.epv 0) r.core.sequenceNumber ++
    readBytes r.core.mem (mc.data - 20) 20
  | .geoanycast | .geobroadcast =>
    gbcGacHeader cfg readings data (readings.epv 0) r.core.sequenceNumber
  | _ => if data.isShb then shbHeader cfg readings data (readings.epv 4)
    else tsbHeader cfg readings data (readings.epv 4) r.core.sequenceNumber

/-- The family id, the header and the payload. -/
def frame (r : Router) (mc : MsgContents) (bufLen : ℕ) : List UInt8 :=
  3 :: header cfg readings data r mc ++ readBytes r.core.mem mc.data bufLen

/-- What is returned is what has happened: the frame was given to the callback, it was put into a
queue, or neither. -/
structure Truthful (frame : List UInt8) (queues : Queues) (outcome : Outcome) : Prop where
  sent : outcome.ret = 0 ↔ outcome.calls = [frame]
  queued : outcome.ret = 1 ↔ outcome.calls = [] ∧
    QueuedOnce outcome.router.core.view frame queues outcome.router.core.queues
  neither : outcome.ret < 0 ↔ outcome.calls ≠ [frame] ∧ ¬ (outcome.calls = [] ∧
    QueuedOnce outcome.router.core.view frame queues outcome.router.core.queues)

/-- A GUC goes to an address without an entry and is not lost, or it waits for the first
neighbour. The memory is that with the header in it. -/
def GucTold (mem : Memory) (core : Core) : Prop :=
  match core.locTable.found (midAt mem) cfg.lifetimeLocTE (readings.clock 0)
    (midAt mem data.dAddr) with
  | none => (lookup (midAt mem) (midAt mem data.dAddr) core.queues.lsMapQueue).isSome ∨
    lookup (midAt mem) (midAt mem data.dAddr) core.queues.ucMapQueue = none
  | some e => e.isNeighbor = false ∧ core.neighborCount = 0

/-- A packet for an area has none, is discarded, or is sent with the right length. -/
def GbcGacTold (mem : Memory) (core : Core) (buf bufLen : ℕ) : Prop :=
  data.dType ≠ .geoArea ∨ ¬ (core.neighborCount = 0 ∧ tcScf data.tc) ∧
    (Discarded cfg geometry readings mem (buf + 1) data.pktType core.locTable ∨
      Forwarded cfg geometry readings mem (buf + 1) data.pktType core.locTable ∧
        u32 (data.payloadLen + 56) % 2 ^ 16 = bufLen)

/-- A packet for an area must not have the room for a second header. -/
def Told (r : Router) (mc : MsgContents) (bufLen : ℕ) : Prop :=
  match data.pktType with
  | .geounicast => mc.headroom < 61 ∨ GucTold cfg readings data
    (writeBytes r.core.mem (mc.data - 61)
      (3 :: tsbHeader cfg readings data (readings.epv 0) r.core.sequenceNumber)) r.core
  | .geoanycast | .geobroadcast => mc.headroom < 57 ∨
    mc.headroom < 98 ∧ GbcGacTold cfg geometry readings data
      (writeBytes r.core.mem (mc.data - 57)
        (3 :: gbcGacHeader cfg readings data (readings.epv 0) r.core.sequenceNumber)) r.core
      (mc.data - 57) (bufLen + 57)
  | .tsb => mc.headroom < 41 ∨ (r.core.neighborCount = 0 ∧ tcScf data.tc) ∨ bufLen + 41 < 2 ^ 16
  | _ => True

end Contract

section Truthful
variable {cfg : GnConfig} {geometry : Geometry} {readings : Readings} {data : GnData}
  {frame : List UInt8} {queues : Queues} {r : Router} {buf bufLen now : ℕ} {ret : ℤ}

theorem truthful_failed (hret : ret < 0) (hqueues : r.core.queues = queues) :
    Truthful frame queues ⟨ret, [], r⟩ := by
  subst hqueues
  have hnot := not_queuedOnce_self r.core.view frame r.core.queues
  have hone : ret ≠ 1 := by omega
  refine ⟨iff_of_false hret.ne (by simp), iff_of_false hone fun h => hnot h.2, ?_⟩
  exact iff_of_true hret ⟨by simp, fun h => hnot h.2⟩

/-- A packet that is neither sent nor queued must not be called so. -/
theorem truthful_dropped_iff (hqueues : r.core.queues = queues) :
    Truthful frame queues ⟨ret, [], r⟩ ↔ ret < 0 := by
  refine ⟨fun h => h.neither.mpr ⟨by simp, fun hqueued => ?_⟩,
    fun hret => truthful_failed hret hqueues⟩
  subst hqueues
  exact not_queuedOnce_self _ _ _ hqueued.2

theorem truthful_queued_iff : Truthful frame queues ⟨1, [], r⟩ ↔
    QueuedOnce r.core.view frame queues r.core.queues := by
  refine ⟨fun h => (h.queued.mp rfl).2, fun h => ?_⟩
  refine ⟨iff_of_false one_ne_zero (by simp), iff_of_true rfl ⟨rfl, h⟩, ?_⟩
  exact iff_of_false (not_lt.mpr zero_le_one) fun hneither => hneither.2 ⟨rfl, h⟩

theorem truthful_sent_iff {call : List UInt8} :
    Truthful frame queues ⟨0, [call], r⟩ ↔ call = frame := by
  refine ⟨fun h => List.singleton_inj.mp (h.sent.mp rfl), ?_⟩
  rintro rfl
  refine ⟨iff_of_true rfl rfl, iff_of_false (by simp) (by simp), ?_⟩
  exact iff_of_false (lt_irrefl _) fun h => h.1 rfl

/-- A packet that is queued is not sent. -/
theorem not_truthful_zero : ¬ Truthful frame queues ⟨0, [], r⟩ := by
  intro h
  have hcalls := h.sent.mp rfl
  exact absurd hcalls (by simp)

/-- The queues behind `Enqueue` of a frame that is in memory. -/
theorem queuedOnce_bc (txcb : Bool) (now : ℕ) :
    QueuedOnce (r.enqueueTx cfg txcb bcQ buf bufLen none now).core.view
      (readBytes r.core.mem buf bufLen) r.core.queues
      (r.enqueueTx cfg txcb bcQ buf bufLen none now).core.queues :=
  ⟨(.bc, callElement r.core.queues ⟨bcQ, readBytes r.core.mem buf bufLen, txcb, none, now⟩), rfl,
    perm_enqueue_bc cfg _ _ rfl⟩

theorem truthful_sendOrQueue_iff (hframe : frame = readBytes r.core.mem buf bufLen) :
    Truthful frame r.core.queues (sendOrQueue cfg data true buf bufLen now r) ↔
      (r.core.neighborCount = 0 ∧ tcScf data.tc) ∨ bufLen < 2 ^ 16 := by
  unfold sendOrQueue
  by_cases hqueue : r.core.neighborCount = 0 ∧ tcScf data.tc
  · rw [if_pos hqueue, truthful_queued_iff, hframe]
    exact iff_of_true (queuedOnce_bc true now) (.inl hqueue)
  · rw [if_neg hqueue, if_pos rfl, truthful_sent_iff, hframe, readBytes_inj, or_iff_right hqueue]
    exact Nat.mod_eq_iff_lt (by decide)

/-- The router with the family id and a header in place. -/
theorem core_headed (cfg : GnConfig) (r : Router) (p : ℕ) (hdr : List UInt8) :
    (((r.put cfg p [3]).put cfg (p + 1) hdr).perform cfg .nextSn).core =
      { r.core with
        mem := writeBytes r.core.mem p (3 :: hdr)
        sequenceNumber := (r.core.sequenceNumber + 1) % 2 ^ 16 } := by
  unfold Router.perform
  rw [put_put]
  rfl

/-- `TransmitGUC` behind the family id. -/
theorem truthful_transmitGuc_iff {p : ℕ} {mem : Memory}
    (hmem : mem = writeBytes r.core.mem p (3 :: tsbHeader cfg readings data (readings.epv 0)
      r.core.sequenceNumber)) (hframe : frame = readBytes mem p bufLen) :
    Truthful frame r.core.queues
      (transmitGuc cfg geometry readings data true p bufLen (r.put cfg p [3])) ↔
    GucTold cfg readings data mem r.core := by
  have hcore := core_headed cfg r p
    (tsbHeader cfg readings data (readings.epv 0) r.core.sequenceNumber)
  have hsource : gnAddrMatch (readAddr mem (p + 1 + 16)) cfg.localAddr := by
    have hbytes := readBytes_writeBytes r.core.mem p (3 :: tsbHeader cfg readings data
      (readings.epv 0) r.core.sequenceNumber)
    rw [← hmem] at hbytes
    exact source_tsbHeader (readBytes_part (k := 1) hbytes (Nat.le_refl 41))
  rw [← hmem] at hcore
  unfold transmitGuc
  dsimp only
  have hsn : (r.put cfg p [3]).core.sequenceNumber = r.core.sequenceNumber := rfl
  rw [hsn]
  generalize ((r.put cfg p [3]).put cfg (p + 1) (tsbHeader cfg readings data (readings.epv 0)
    r.core.sequenceNumber)).perform cfg .nextSn = r' at hcore ⊢
  have hview : r'.core.view = midAt mem := by rw [hcore]; rfl
  have hqueues : r'.core.queues = r.core.queues := by rw [hcore]
  have hcount : r'.core.neighborCount = r.core.neighborCount := by rw [hcore]
  have hmem' : r'.core.mem = mem := by rw [hcore]
  have hfound : r'.found cfg (readings.clock 0) (r'.core.view data.dAddr) =
      r.core.locTable.found (midAt mem) cfg.lifetimeLocTE (readings.clock 0)
        (midAt mem data.dAddr) := by
    unfold Router.found
    rw [hview, hcore]
  unfold GucTold
  rw [hfound, ← hqueues, ← hcount, ← hview]
  rw [← hmem'] at hframe hsource
  clear hfound hcore hview hmem' hcount hmem
  cases r.core.locTable.found r'.core.view cfg.lifetimeLocTE (readings.clock 0)
      (r'.core.view data.dAddr) with
  | none =>
    rw [truthful_queued_iff, hframe]
    exact queuedOnce_enqueue_ls_iff cfg ⟨lsQ, readBytes r'.core.mem p bufLen, true,
      some data.dAddr, readings.clock 1⟩ rfl rfl
  | some e =>
    dsimp only
    split_ifs with hneighbor hcount
    · exact iff_of_false not_truthful_zero fun h => absurd (h.1.symm.trans hneighbor) (by decide)
    · refine iff_of_true (truthful_queued_iff.mpr ?_) ⟨Bool.not_eq_true _ ▸ hneighbor, hcount⟩
      rw [hframe]
      exact ⟨_, rfl, perm_enqueue_uc cfg ⟨ucQ, readBytes r'.core.mem p bufLen, true,
        some data.dAddr, readings.clock 1⟩ rfl rfl⟩
    · refine Iff.trans (truthful_dropped_iff rfl) ?_
      refine iff_of_false ?_ fun h => hcount h.2
      rcases nafGf_cases geometry _ _ (.inl rfl) _ _ with h | h
      · rw [h]; decide
      · rw [h]; decide
    · have hnafCbf (r'' : Router) : nafCbf cfg geometry r'.core.mem (p + 1) .geounicast
          (readings.clock 2) (readings.epv 1) r'' = (1, r'') := nafCbf_geounicast hsource _ _ _
      have hsame : (r'.perform cfg (.find (readings.clock 0) (r'.core.view data.dAddr))).core.mem =
          r'.core.mem := rfl
      rw [hsame, hnafCbf]
      refine Iff.trans (truthful_dropped_iff rfl) ?_
      exact iff_of_false (not_lt.mpr zero_le_one) fun h => hcount h.2

/-- `TransmitGBCGAC` behind the family id. -/
theorem truthful_transmitGbcGac_iff {p : ℕ} {mem : Memory}
    (harea : data.pktType = .geoanycast ∨ data.pktType = .geobroadcast)
    (hmem : mem = writeBytes r.core.mem p (3 :: gbcGacHeader cfg readings data (readings.epv 0)
      r.core.sequenceNumber)) (hframe : frame = readBytes mem p bufLen) :
    Truthful frame r.core.queues
      (transmitGbcGac cfg geometry readings data true p bufLen (r.put cfg p [3])) ↔
    GbcGacTold cfg geometry readings data mem r.core p bufLen := by
  have hcore := core_headed cfg r p
    (gbcGacHeader cfg readings data (readings.epv 0) r.core.sequenceNumber)
  have hown : OwnPacket cfg mem (p + 1) data.pktType := by
    have hbytes := readBytes_writeBytes r.core.mem p (3 :: gbcGacHeader cfg readings data
      (readings.epv 0) r.core.sequenceNumber)
    rw [← hmem] at hbytes
    exact ownPacket_gbcGacHeader (readBytes_part (k := 1) hbytes (Nat.le_refl 57)) harea
  rw [← hmem] at hcore
  unfold transmitGbcGac GbcGacTold
  dsimp only
  by_cases htype : data.dType ≠ .geoArea
  · rw [if_pos htype]
    exact iff_of_true (truthful_failed (by decide) rfl) (.inl htype)
  rw [if_neg htype, or_iff_right htype]
  have hsn : (r.put cfg p [3]).core.sequenceNumber = r.core.sequenceNumber := rfl
  rw [hsn]
  generalize ((r.put cfg p [3]).put cfg (p + 1) (gbcGacHeader cfg readings data (readings.epv 0)
    r.core.sequenceNumber)).perform cfg .nextSn = r' at hcore ⊢
  have hqueues : r'.core.queues = r.core.queues := by rw [hcore]
  have hcount : r'.core.neighborCount = r.core.neighborCount := by rw [hcore]
  have hmem' : r'.core.mem = mem := by rw [hcore]
  have htable : r'.core.locTable = r.core.locTable := by rw [hcore]
  have hneg : (forwardAlgorithmSelect cfg geometry readings mem (p + 1) r').1 < 0 ↔
      Discarded cfg geometry readings mem (p + 1) data.pktType r'.core.locTable :=
    forwardAlgorithmSelect_neg_iff hown hmem'
  have hone : (forwardAlgorithmSelect cfg geometry readings mem (p + 1) r').1 = 1 ↔
      Forwarded cfg geometry readings mem (p + 1) data.pktType r'.core.locTable :=
    forwardAlgorithmSelect_one_iff hown hmem'
  have hlooks : Looks r' (forwardAlgorithmSelect cfg geometry readings mem (p + 1) r').2 :=
    looks_forwardAlgorithmSelect hown.source r'
  obtain ⟨table, hlooks⟩ := hlooks
  rw [hmem', hcount]
  rw [← htable, ← hneg, ← hone]
  by_cases hqueue : r.core.neighborCount = 0 ∧ tcScf data.tc
  · rw [if_pos hqueue]
    exact iff_of_false not_truthful_zero fun h => h.1 hqueue
  rw [if_neg hqueue, and_iff_right hqueue]
  generalize forwardAlgorithmSelect cfg geometry readings mem (p + 1) r' = result at hlooks ⊢
  by_cases hsent : result.1 = 1
  · rw [if_pos ⟨hsent, rfl⟩, truthful_sent_iff, hframe, hlooks]
    dsimp only
    rw [hmem', readBytes_inj, hsent]
    simp
  · rw [if_neg fun h => hsent h.1, truthful_dropped_iff (by rw [hlooks, hqueues])]
    simp [hsent]

/-- What `TransmitGBCGAC` has done: the queues are as before, or have got one packet. -/
theorem queues_transmitGbcGac {p : ℕ}
    (harea : data.pktType = .geoanycast ∨ data.pktType = .geobroadcast) :
    (transmitGbcGac cfg geometry readings data true p bufLen (r.put cfg p [3])).router.core.queues =
        r.core.queues ∨
      ∃ f call, call.qid = bcQ ∧
        (transmitGbcGac cfg geometry readings data true p bufLen
          (r.put cfg p [3])).router.core.queues = r.core.queues.enqueue f cfg call := by
  have hcore := core_headed cfg r p
    (gbcGacHeader cfg readings data (readings.epv 0) r.core.sequenceNumber)
  have hbytes := readBytes_writeBytes r.core.mem p (3 :: gbcGacHeader cfg readings data
    (readings.epv 0) r.core.sequenceNumber)
  have hown := ownPacket_gbcGacHeader (readBytes_part (k := 1) hbytes (Nat.le_refl 57)) harea
  unfold transmitGbcGac
  dsimp only
  have hsn : (r.put cfg p [3]).core.sequenceNumber = r.core.sequenceNumber := rfl
  rw [hsn]
  generalize ((r.put cfg p [3]).put cfg (p + 1) (gbcGacHeader cfg readings data (readings.epv 0)
    r.core.sequenceNumber)).perform cfg .nextSn = r' at hcore ⊢
  have hqueues : r'.core.queues = r.core.queues := by rw [hcore]
  have hlooks : Looks r' (forwardAlgorithmSelect cfg geometry readings r'.core.mem (p + 1) r').2 := by
    rw [hcore]
    exact looks_forwardAlgorithmSelect hown.source r'
  obtain ⟨table, hlooks⟩ := hlooks
  split_ifs
  · exact .inl rfl
  · rw [← hqueues]
    exact .inr ⟨r'.core.view, ⟨bcQ, readBytes r'.core.mem p bufLen, true, none, readings.clock 0⟩,
      rfl, rfl⟩
  · exact .inl (by dsimp only; rw [hlooks, hqueues])
  · exact .inl (by dsimp only; rw [hlooks, hqueues])

/-- A packet for an area that is followed by another one is never what is returned. -/
theorem not_truthful_two {before : Outcome} (hlength : frame.length < bufLen)
    (hlt : bufLen < frame.length + 2 ^ 16) (hreads : before.router.core.queues = queues ∨
      ∃ f call, call.qid = bcQ ∧ before.router.core.queues = queues.enqueue f cfg call)
    (hr : r.core.queues = before.router.core.queues) :
    ¬ Truthful frame queues { sendOrQueue cfg data true buf bufLen now r with
      calls := before.calls ++ (sendOrQueue cfg data true buf bufLen now r).calls } := by
  unfold sendOrQueue
  intro h
  by_cases hqueue : r.core.neighborCount = 0 ∧ tcScf data.tc
  · -- the second packet is in the queue
    rw [if_pos hqueue] at h
    obtain ⟨-, x, hx, hperm⟩ := h.queued.mp rfl
    have hboth : (queues.held r.core.view ++ queues.log.dropped ++ [x]).Perm
        (r.core.queues.held r.core.view ++ r.core.queues.log.dropped ++
          [(.bc, callElement r.core.queues
            ⟨bcQ, readBytes r.core.mem buf bufLen, true, none, now⟩)]) :=
      hperm.symm.trans (perm_enqueue_bc cfg _ _ rfl)
    rw [hr] at hboth
    rcases hreads with hsame | ⟨f, call, hqid, hone⟩
    · rw [hsame] at hboth
      have hxy := List.singleton_perm_singleton.mp ((List.perm_append_left_iff _).mp hboth)
      rw [hxy] at hx
      have hbuffer : (readBytes r.core.mem buf bufLen).length = frame.length :=
        congrArg List.length hx
      rw [length_readBytes] at hbuffer
      omega
    · have henqueued : ((queues.enqueue r.core.view cfg call).held r.core.view ++
          (queues.enqueue r.core.view cfg call).log.dropped).Perm _ :=
        perm_enqueue_bc cfg call r.core.view hqid
      have hfirst := henqueued.length_eq
      have htwo := hboth.length_eq
      rw [hone, enqueue_bc_view cfg call f r.core.view hqid] at htwo
      simp only [List.length_append, List.length_singleton] at hfirst htwo
      omega
  · -- the second packet was sent
    rw [if_neg hqueue, if_pos rfl] at h
    have hcalls : before.calls ++ [readBytes r.core.mem buf (bufLen % 2 ^ 16)] = [] ++ [frame] :=
      h.sent.mp rfl
    have hcall := List.singleton_inj.mp (List.append_inj_right' hcalls rfl)
    have hbuffer := congrArg List.length hcall
    rw [length_readBytes] at hbuffer
    omega

/-- A frame as it is in memory when its header has been put before the payload. -/
theorem frame_eq_readBytes (mem : Memory) {p : ℕ} {hdr : List UInt8} {n : ℕ}
    (h : p + hdr.length + 1 = n) (bufLen : ℕ) :
    3 :: hdr ++ readBytes mem n bufLen =
      readBytes (writeBytes mem p (3 :: hdr)) p (bufLen + (hdr.length + 1)) := by
  have hread := readBytes_writeBytes_add mem p (3 :: hdr) bufLen
  rw [List.length_cons, ← Nat.add_assoc, h, Nat.add_comm] at hread
  exact hread.symm

theorem truthful_tsb_iff (htype : data.pktType = .tsb) (mc : MsgContents) (bufLen : ℕ)
    (r : Router) :
    Truthful (Tulux.GeoNetRouter.frame cfg readings data r mc bufLen) r.core.queues
      (transmitTsbOrShb cfg readings data true mc bufLen ⟨-1, [], r⟩) ↔
    mc.headroom < 41 ∨ (r.core.neighborCount = 0 ∧ tcScf data.tc) ∨ bufLen + 41 < 2 ^ 16 := by
  unfold transmitTsbOrShb
  by_cases hroom : mc.headroom < 41
  · rw [MsgContents.push_eq_none.mpr hroom]
    exact iff_of_true (truthful_failed (by decide) rfl) (.inl hroom)
  obtain ⟨mc', hpush, -, hdata, -⟩ := MsgContents.push_of_le (not_lt.mp hroom)
  rw [hpush, or_iff_right hroom]
  dsimp only
  rw [List.nil_append]
  unfold Tulux.GeoNetRouter.frame header
  rw [htype]
  dsimp only
  have hsn : (r.put cfg mc'.data [3]).core.sequenceNumber = r.core.sequenceNumber := rfl
  by_cases hshb : data.isShb
  · rw [if_pos hshb, if_pos hshb, frame_eq_readBytes r.core.mem hdata]
    have hmem : ((r.put cfg mc'.data [3]).put cfg (mc'.data + 1)
        (shbHeader cfg readings data (readings.epv 4))).core.mem =
        writeBytes r.core.mem mc'.data (3 :: shbHeader cfg readings data (readings.epv 4)) := by
      rw [put_put]
    rw [← hmem]
    exact truthful_sendOrQueue_iff rfl
  · rw [if_neg hshb, if_neg hshb, frame_eq_readBytes r.core.mem hdata]
    have hmem : (((r.put cfg mc'.data [3]).put cfg (mc'.data + 1)
        (tsbHeader cfg readings data (readings.epv 4) r.core.sequenceNumber)).perform cfg
          .nextSn).core.mem = writeBytes r.core.mem mc'.data
            (3 :: tsbHeader cfg readings data (readings.epv 4) r.core.sequenceNumber) := by
      rw [core_headed]
    rw [← hmem]
    exact truthful_sendOrQueue_iff rfl

theorem truthful_geounicast_iff (htype : data.pktType = .geounicast) (mc : MsgContents)
    (bufLen : ℕ) (r : Router) :
    Truthful (Tulux.GeoNetRouter.frame cfg readings data r mc bufLen) r.core.queues
      (transmit cfg geometry readings data true mc bufLen r) ↔
    Told cfg geometry readings data r mc bufLen := by
  unfold transmit Told
  rw [htype]
  dsimp only
  by_cases hroom : mc.headroom < 61
  · rw [MsgContents.push_eq_none.mpr hroom]
    exact iff_of_true (truthful_failed (by decide) rfl) (.inl hroom)
  obtain ⟨mc', hpush, hdata', hdata, -⟩ := MsgContents.push_of_le (not_lt.mp hroom)
  rw [hpush, or_iff_right hroom, ← hdata']
  refine truthful_transmitGuc_iff rfl ?_
  unfold Tulux.GeoNetRouter.frame header
  rw [htype]
  dsimp only
  have hposition : mc'.data + (tsbHeader cfg readings data (readings.epv 0)
      r.core.sequenceNumber).length + 1 = mc.data - 20 := by
    rw [length_tsbHeader]
    omega
  have hread := frame_eq_readBytes r.core.mem hposition (20 + bufLen)
  rw [readBytes_append, length_tsbHeader] at hread
  have hpayload : mc.data - 20 + 20 = mc.data := by omega
  have hlength : 20 + bufLen + (40 + 1) = bufLen + 61 := by omega
  rw [hpayload, hlength] at hread
  rw [← hread, List.cons_append, List.cons_append, List.append_assoc]

theorem truthful_area_iff (harea : data.pktType = .geoanycast ∨ data.pktType = .geobroadcast)
    (mc : MsgContents) (bufLen : ℕ) (r : Router) :
    Truthful (Tulux.GeoNetRouter.frame cfg readings data r mc bufLen) r.core.queues
      (transmit cfg geometry readings data true mc bufLen r) ↔
    Told cfg geometry readings data r mc bufLen := by
  have hnone (hpush : mc.push 57 = none) :
      transmit cfg geometry readings data true mc bufLen r = ⟨-1, [], r⟩ := by
    unfold transmit
    rcases harea with h | h <;> simp only [h, hpush]
  have hsome {mc' : MsgContents} (hpush : mc.push 57 = some mc') :
      transmit cfg geometry readings data true mc bufLen r =
        transmitTsbOrShb cfg readings data true mc' (bufLen + 57)
          (transmitGbcGac cfg geometry readings data true mc'.data (bufLen + 57)
            (r.put cfg mc'.data [3])) := by
    unfold transmit
    rcases harea with h | h <;> simp only [h, hpush]
  have htold : Told cfg geometry readings data r mc bufLen ↔ mc.headroom < 57 ∨
      mc.headroom < 98 ∧ GbcGacTold cfg geometry readings data
        (writeBytes r.core.mem (mc.data - 57)
          (3 :: gbcGacHeader cfg readings data (readings.epv 0) r.core.sequenceNumber)) r.core
        (mc.data - 57) (bufLen + 57) := by
    unfold Told
    rcases harea with h | h <;> simp only [h]
  have hheader : header cfg readings data r mc =
      gbcGacHeader cfg readings data (readings.epv 0) r.core.sequenceNumber := by
    unfold header
    rcases harea with h | h <;> simp only [h]
  rw [htold]
  by_cases hroom : mc.headroom < 57
  · rw [hnone (MsgContents.push_eq_none.mpr hroom)]
    exact iff_of_true (truthful_failed (by decide) rfl) (.inl hroom)
  obtain ⟨mc', hpush, hdata', hdata, hheadroom⟩ := MsgContents.push_of_le (not_lt.mp hroom)
  rw [hsome hpush, or_iff_right hroom, ← hdata']
  have hframe : Tulux.GeoNetRouter.frame cfg readings data r mc bufLen =
      readBytes (writeBytes r.core.mem mc'.data
        (3 :: gbcGacHeader cfg readings data (readings.epv 0) r.core.sequenceNumber)) mc'.data
          (bufLen + 57) := by
    unfold Tulux.GeoNetRouter.frame
    rw [hheader, frame_eq_readBytes r.core.mem hdata, length_gbcGacHeader]
  unfold transmitTsbOrShb
  by_cases hroom' : mc.headroom < 98
  · have hfull : mc'.push 41 = none := MsgContents.push_eq_none.mpr (by omega)
    rw [hfull, and_iff_right hroom']
    exact truthful_transmitGbcGac_iff harea rfl hframe
  · obtain ⟨mc'', hpush', -⟩ := MsgContents.push_of_le (show 41 ≤ mc'.headroom by omega)
    rw [hpush']
    have hlength : (Tulux.GeoNetRouter.frame cfg readings data r mc bufLen).length =
        bufLen + 57 := by
      rw [hframe, length_readBytes]
    have hqueues : (transmitGbcGac cfg geometry readings data true mc'.data (bufLen + 57)
        (r.put cfg mc'.data [3])).router.core.queues = r.core.queues ∨
        ∃ f call, call.qid = bcQ ∧ (transmitGbcGac cfg geometry readings data true mc'.data
          (bufLen + 57) (r.put cfg mc'.data [3])).router.core.queues =
            r.core.queues.enqueue f cfg call := queues_transmitGbcGac harea
    refine iff_of_false ?_ fun h => hroom' h.1
    dsimp only
    split_ifs
    · exact not_truthful_two (by omega) (by omega) hqueues rfl
    · exact not_truthful_two (by omega) (by omega) hqueues rfl

end Truthful

end Tulux.GeoNetRouter
