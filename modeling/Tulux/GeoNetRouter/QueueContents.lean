import Tulux.GeoNetRouter.Runs

/-! What is in the queues. A property of the packets that are put into them is one of the packets
that stay there and that are sent from them, whatever is done between. -/
namespace Tulux.GeoNetRouter
open QCoder SortedMap GuardedRun

section Contents
variable (P : List UInt8 → Prop)

/-- The packets of the queues of a map. -/
def MapHolds (m : List (ℕ × AddressQueue)) : Prop := ∀ q ∈ m, ∀ e ∈ q.2.queue, P e.buffer

/-- A packet that was sent is one that was queued, cut where its length has 16 bits. -/
def SentHolds (log : QueueLog) : Prop :=
  ∀ x ∈ log.transmitted, ∃ packet, P packet ∧ x.2 = packet.take (packet.length % 2 ^ 16)

structure Queues.Holds (queues : Queues) : Prop where
  uc : MapHolds P queues.ucMapQueue
  ls : MapHolds P queues.lsMapQueue
  bc : ∀ e ∈ queues.bcQueue, P e.buffer
  sent : SentHolds P queues.log

end Contents

section Contents
variable {P : List UInt8 → Prop} {f : ℕ → ℕ} {cfg : GnConfig} {queues : Queues}
  {mkId : ℕ → QueueId} {id : QueueId} {e : Qelement} {q : List Qelement} {key : ℕ}
  {m m' : List (ℕ × AddressQueue)} {log log' : QueueLog} {drops : Qelement → Bool}

theorem Queues.holds_empty : Queues.empty.Holds P :=
  ⟨fun _ hq => absurd hq List.not_mem_nil, fun _ hq => absurd hq List.not_mem_nil,
    fun _ he => absurd he List.not_mem_nil, fun _ hx => absurd hx List.not_mem_nil⟩

theorem Queues.Holds.mono {P' : List UInt8 → Prop} (h : queues.Holds P)
    (hmono : ∀ packet, P packet → P' packet) : queues.Holds P' where
  uc q hq e he := hmono _ (h.uc q hq e he)
  ls q hq e he := hmono _ (h.ls q hq e he)
  bc e he := hmono _ (h.bc e he)
  sent x hx := by
    obtain ⟨packet, hpacket, hcut⟩ := h.sent x hx
    exact ⟨packet, hmono packet hpacket, hcut⟩

/-! ### Enqueue -/

theorem MapHolds.insert (h : MapHolds P m) (he : P e.buffer) :
    MapHolds P (insert f key ⟨f key, [e]⟩ m) := by
  intro q hq
  rw [SortedMap.insert] at hq
  split_ifs at hq
  · exact h q hq
  · rcases mem_set hq with hold | ⟨-, hnew⟩
    · exact h q hold
    · rw [hnew]
      exact List.forall_mem_singleton.mpr he

/-- A queue gets new contents. -/
theorem MapHolds.modify (h : MapHolds P m) (hq : ∀ e ∈ q, P e.buffer) :
    MapHolds P (modify f (f key) (fun old => { old with queue := q }) m) := by
  intro entry hentry
  obtain ⟨old, hold, hsame | hnew⟩ := mem_modify hentry
  · rw [hsame]
    exact h _ hold
  · rw [hnew]
    exact hq

theorem MapHolds.lookup (h : MapHolds P m) {old : AddressQueue}
    (hlookup : lookup f (f key) m = some old) : ∀ e ∈ old.queue, P e.buffer := by
  obtain ⟨key', -, hmem⟩ := mem_of_lookup hlookup
  exact h _ hmem

theorem pushBack_holds (size : ℤ) (id : QueueId) (log : QueueLog) (hq : ∀ e ∈ q, P e.buffer) (he : P e.buffer) :
    (∀ e' ∈ (pushBack size id e q log).1, P e'.buffer) ∧
      (pushBack size id e q log).2.transmitted = log.transmitted := by
  cases q with
  | nil => exact ⟨List.forall_mem_singleton.mpr he, rfl⟩
  | cons old rest =>
    obtain ⟨hold, hrest⟩ := List.forall_mem_cons.mp hq
    unfold pushBack
    dsimp only
    split_ifs
    · refine ⟨fun e' he' => ?_, rfl⟩
      rcases List.mem_append.mp he' with hmem | hmem
      · exact hrest e' hmem
      · exact List.mem_singleton.mp hmem ▸ he
    · refine ⟨fun e' he' => ?_, rfl⟩
      rcases List.mem_append.mp he' with hmem | hmem
      · exact hq e' hmem
      · exact List.mem_singleton.mp hmem ▸ he

theorem enqueueMap_holds (h : MapHolds P m) (he : P e.buffer)
    (hqueue : enqueueMap f cfg mkId e key m log = some (m', log')) :
    MapHolds P m' ∧ log'.transmitted = log.transmitted := by
  unfold enqueueMap at hqueue
  obtain ⟨old, hlookup, hresult⟩ := Option.map_eq_some_iff.mp hqueue
  obtain ⟨rfl, rfl⟩ := Prod.mk.inj hresult
  have hpushed := pushBack_holds cfg.ucForwardingPacketBufferSize (mkId (f key)) log
    (h.lookup hlookup) he
  exact ⟨h.modify hpushed.1, hpushed.2⟩

theorem SentHolds.of_eq (h : SentHolds P log) (heq : log'.transmitted = log.transmitted) :
    SentHolds P log' := fun x hx => h x (heq ▸ hx)

theorem Queues.Holds.enqueue (h : queues.Holds P) {call : EnqueueCall} (hcall : P call.buffer) :
    (queues.enqueue f cfg call).Holds P := by
  have hlog (x : Placed) : SentHolds P (queues.log.enqueue x) := h.sent.of_eq rfl
  have he (id : ℕ) : P (newElement call id).buffer := hcall
  unfold Queues.enqueue
  dsimp only
  split_ifs
  · cases call.addr with
    | none => exact h
    | some key =>
      dsimp only
      split
      · next m log hqueue =>
        obtain ⟨huc, hsent⟩ := enqueueMap_holds h.uc (he _) hqueue
        exact ⟨huc, h.ls, h.bc, (hlog _).of_eq hsent⟩
      · exact ⟨h.uc.insert (he _), h.ls, h.bc, hlog _⟩
  · cases call.addr with
    | none => exact h
    | some key =>
      dsimp only
      split
      · next m log hqueue =>
        obtain ⟨hls, hsent⟩ := enqueueMap_holds h.ls (he _) hqueue
        exact ⟨h.uc, hls, h.bc, (hlog _).of_eq hsent⟩
      · exact ⟨h.uc.insert (he _), h.ls, h.bc, hlog _⟩
  · obtain ⟨hbc, hsent⟩ := pushBack_holds cfg.bcForwardingPacketBufferSize .bc
      (queues.log.enqueue (.bc, newElement call queues.log.enqueued.length)) h.bc (he _)
    exact ⟨h.uc, h.ls, hbc, (hlog _).of_eq hsent⟩
  · exact h

/-! ### Flush -/

theorem SentHolds.transmit (h : SentHolds P log) {x : Placed} (hx : P x.2.buffer) :
    SentHolds P (log.transmit x) := by
  unfold QueueLog.transmit
  split_ifs
  · intro y hy
    rcases List.mem_append.mp hy with hmem | hmem
    · exact h y hmem
    · rw [List.mem_singleton.mp hmem]
      exact ⟨x.2.buffer, hx, rfl⟩
  · exact h

/-- A turn of the loop sends the first packet or drops it. -/
theorem drain_holds (drops : Qelement → Bool) (id : QueueId) (turns : ℕ) (hq : ∀ e ∈ q, P e.buffer) (hlog : SentHolds P log) :
    (∀ e ∈ (drain drops id turns q log).1, P e.buffer) ∧
      SentHolds P (drain drops id turns q log).2 := by
  induction turns generalizing q log with
  | zero => exact ⟨hq, hlog⟩
  | succ turns ih =>
    cases q with
    | nil => exact ⟨hq, hlog⟩
    | cons e q =>
      obtain ⟨he, hrest⟩ := List.forall_mem_cons.mp hq
      rw [drain]
      split_ifs
      · exact ih hrest (hlog.of_eq rfl)
      · exact ih hq (hlog.transmit he)

theorem drainBc_holds (hq : ∀ e ∈ q, P e.buffer) (hlog : SentHolds P log) :
    SentHolds P (drainBc drops q log) := by
  induction q generalizing log with
  | nil => exact hlog
  | cons e q ih =>
    obtain ⟨he, hrest⟩ := List.forall_mem_cons.mp hq
    rw [drainBc]
    split_ifs
    · exact ih hrest (hlog.of_eq rfl)
    · exact ih hrest (hlog.transmit he)

theorem flushMap_holds (mkId : ℕ → QueueId) (drops : Qelement → Bool) (turns key : ℕ) (h : MapHolds P m) (hlog : SentHolds P log) :
    MapHolds P (flushMap f mkId drops turns key m log).1 ∧
      SentHolds P (flushMap f mkId drops turns key m log).2.1 := by
  cases hlookup : lookup f (f key) m with
  | none =>
    rw [flushMap_none hlookup]
    exact ⟨h, hlog⟩
  | some old =>
    have hdrained := drain_holds drops (mkId (f key)) turns (h.lookup hlookup) hlog
    rw [flushMap_some hlookup]
    exact ⟨h.modify hdrained.1, hdrained.2⟩

theorem Queues.Holds.flushUc (h : queues.Holds P) (call : FlushCall) :
    (queues.flushUc f call).1.Holds P := by
  unfold Queues.flushUc
  split_ifs
  · cases call.addr with
    | none => exact h
    | some key =>
      obtain ⟨huc, hsent⟩ := flushMap_holds (f := f) .uc (expired call) call.turns key h.uc h.sent
      exact ⟨huc, h.ls, h.bc, hsent⟩
  · exact h

theorem Queues.Holds.flushLs (h : queues.Holds P) (call : FlushCall) :
    (queues.flushLs f call).1.Holds P := by
  unfold Queues.flushLs
  split_ifs
  · cases call.addr with
    | none => exact h
    | some key =>
      obtain ⟨hls, hsent⟩ := flushMap_holds (f := f) .ls (fun e => call.purge || expired call e)
        call.turns key h.ls h.sent
      exact ⟨h.uc, hls, h.bc, hsent⟩
  · exact h

theorem Queues.Holds.flushBc (h : queues.Holds P) (call : FlushCall) :
    (queues.flushBc call).Holds P := by
  unfold Queues.flushBc
  split_ifs
  · exact ⟨h.uc, h.ls, fun _ he => absurd he List.not_mem_nil, drainBc_holds h.bc h.sent⟩
  · exact h

theorem Queues.Holds.flushQueueSync (h : queues.Holds P) (call : FlushCall) :
    (queues.flushQueueSync f call).Holds P := by
  unfold Queues.flushQueueSync
  dsimp only
  split_ifs
  · exact ((h.flushUc call).flushLs call).flushBc call
  · exact (h.flushUc call).flushLs call
  · exact h.flushUc call

/-! ### Runs of the router -/

variable {core : Core} {r r' : Router}

theorem Core.holds_step (h : core.queues.Holds P) (op : Op)
    (hop : ∀ packet, op.queued = some packet → P packet) :
    (core.step cfg op).queues.Holds P := by
  cases op with
  | queue op =>
    cases op with
    | enqueue call => exact h.enqueue (hop call.buffer rfl)
    | flush call => exact h.flushQueueSync call
  | _ => exact h

theorem PerformsWith.holds (h : PerformsWith cfg P r r') (hr : r.core.queues.Holds P) :
    r'.core.queues.Holds P := by
  obtain ⟨ops, -, hcore, hops⟩ := h
  rw [hcore]
  clear hcore
  induction ops generalizing r with
  | nil => exact hr
  | cons op ops ih =>
    have hop : ∀ packet, op.queued = some packet → P packet := fun packet hpacket =>
      hops packet (List.mem_filterMap.mpr ⟨op, List.mem_cons_self, hpacket⟩)
    have hrest : ∀ packet ∈ ops.filterMap Op.queued, P packet := fun packet hpacket => by
      obtain ⟨op', hmem, hqueued⟩ := List.mem_filterMap.mp hpacket
      exact hops packet (List.mem_filterMap.mpr ⟨op', List.mem_cons_of_mem _ hmem, hqueued⟩)
    exact ih (r := r.perform cfg op) (Core.holds_step hr op hop) hrest

end Contents

end Tulux.GeoNetRouter
