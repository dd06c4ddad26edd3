import Tulux.GeoNetRouter.Queue
import Tulux.Lib.GuardedRun

/-! Where the packets of the forwarding queues are, over runs of `Enqueue` and `FlushQueueSync`. -/
namespace Tulux.GeoNetRouter
open QCoder SortedMap GuardedRun

/-! ### Accounts -/

/-- Every packet that was enqueued is held, was transmitted or was dropped, once, and all of it in
the queue it was enqueued to. What is transmitted is the whole packet, in the order of its queue;
buffers hold their packets and are released when these leave. -/
structure Account (held : List Placed) (log : QueueLog) : Prop where
  accounted : (held ++ log.transmitted.map Prod.fst ++ log.dropped).Perm log.enqueued
  whole : ∀ t ∈ log.transmitted, t.2 = t.1.2.buffer
  ordered : log.transmitted.Pairwise fun s t => s.1.1 = t.1.1 → s.1.2.id < t.1.2.id
  holds : ∀ x ∈ log.enqueued, x.2.buffer.length ≤ x.2.allocated
  released : log.released.Perm ((log.transmitted.map Prod.fst ++ log.dropped).map fun x => x.2.id)

/-- Packets are dropped from what is held, and their buffers are released. -/
structure Settles (held : List Placed) (log : QueueLog) (held' : List Placed) (log' : QueueLog) :
    Prop where
  enqueued : log'.enqueued = log.enqueued
  transmitted : log'.transmitted = log.transmitted
  balance : (held' ++ log'.dropped).Perm (held ++ log.dropped)
  released : ∃ xs, log'.dropped = log.dropped ++ xs ∧
    log'.released = log.released ++ xs.map fun x => x.2.id

section Account
variable {held held' : List Placed} {log log' log'' : QueueLog} {x : Placed}

theorem Settles.refl (held : List Placed) (log : QueueLog) : Settles held log held log :=
  ⟨rfl, rfl, .refl _, [], by simp⟩

theorem Settles.of_perm (h : held.Perm held') : Settles held log held' log :=
  ⟨rfl, rfl, h.symm.append_right _, [], by simp⟩

theorem Settles.trans {held'' : List Placed} (h : Settles held log held' log')
    (h' : Settles held' log' held'' log'') : Settles held log held'' log'' := by
  obtain ⟨xs, hdropped, hreleased⟩ := h.released
  obtain ⟨ys, hdropped', hreleased'⟩ := h'.released
  refine ⟨h'.enqueued.trans h.enqueued, h'.transmitted.trans h.transmitted,
    h'.balance.trans h.balance, xs ++ ys, ?_, ?_⟩
  · rw [hdropped', hdropped, List.append_assoc]
  · rw [hreleased', hreleased, List.append_assoc, List.map_append]

/-- What is held elsewhere does not matter. -/
theorem Settles.append_left (rest : List Placed) (h : Settles held log held' log') :
    Settles (rest ++ held) log (rest ++ held') log' := by
  refine ⟨h.enqueued, h.transmitted, ?_, h.released⟩
  rw [List.append_assoc, List.append_assoc]
  exact h.balance.append_left rest

theorem Settles.append_right (rest : List Placed) (h : Settles held log held' log') :
    Settles (held ++ rest) log (held' ++ rest) log' :=
  ((Settles.of_perm List.perm_append_comm).trans (h.append_left rest)).trans
    (Settles.of_perm List.perm_append_comm)

theorem settles_drop (x : Placed) (log : QueueLog) : Settles [x] log [] (log.drop x) :=
  ⟨rfl, rfl, (List.perm_append_comm : (log.dropped ++ [x]).Perm ([x] ++ log.dropped)), [x],
    rfl, rfl⟩

theorem Account.settles (h : Account held log) (hs : Settles held log held' log') :
    Account held' log' := by
  obtain ⟨xs, hdropped, hreleased⟩ := hs.released
  refine ⟨?_, hs.transmitted ▸ h.whole, hs.transmitted ▸ h.ordered, hs.enqueued ▸ h.holds, ?_⟩
  · have hmiddle (held : List Placed) (log : QueueLog) :
        (held ++ log.transmitted.map Prod.fst ++ log.dropped).Perm
          (log.transmitted.map Prod.fst ++ (held ++ log.dropped)) := by
      rw [List.append_assoc]
      exact List.perm_append_comm_assoc _ _ _
    refine (hmiddle held' log').trans ?_
    rw [hs.enqueued, hs.transmitted]
    exact (hs.balance.append_left _).trans ((hmiddle held log).symm.trans h.accounted)
  · rw [hreleased, hdropped, hs.transmitted, ← List.append_assoc, List.map_append]
    exact h.released.append_right _

theorem Account.enqueue (h : Account held log) (hx : x.2.buffer.length ≤ x.2.allocated) :
    Account (held ++ [x]) (log.enqueue x) := by
  refine ⟨?_, h.whole, h.ordered, ?_, h.released⟩
  · have hperm : (held ++ [x] ++ log.transmitted.map Prod.fst ++ log.dropped).Perm
        (held ++ log.transmitted.map Prod.fst ++ log.dropped ++ [x]) := by
      simp only [List.append_assoc]
      refine ((List.perm_append_comm_assoc _ _ _).trans ?_).append_left held
      exact List.perm_append_comm.append_left _
    exact hperm.trans (h.accounted.append_right [x])
  · intro y hy
    rcases List.mem_append.mp hy with hy | hy
    · exact h.holds y hy
    · obtain rfl := List.mem_singleton.mp hy
      exact hx

/-- The packets, counted. -/
theorem Account.length_eq (h : Account held log) :
    held.length + log.transmitted.length + log.dropped.length = log.enqueued.length := by
  have hlength := h.accounted.length_eq
  rwa [List.length_append, List.length_append, List.length_map] at hlength

theorem Account.released_length (h : Account held log) :
    log.released.length = log.transmitted.length + log.dropped.length := by
  have hlength := h.released.length_eq
  rwa [List.length_map, List.length_append, List.length_map] at hlength

end Account

/-! ### Queues -/

/-- The packets of one queue. -/
def place (id : QueueId) (q : List Qelement) : List Placed := q.map (Prod.mk id)

/-- The packets of a map. -/
def placeMap (f : ℕ → ℕ) (mkId : ℕ → QueueId) (m : List (ℕ × AddressQueue)) : List Placed :=
  m.flatMap fun e => place (mkId (f e.1)) e.2.queue

/-- The packets of all queues. -/
def Queues.held (f : ℕ → ℕ) (queues : Queues) : List Placed :=
  placeMap f .uc queues.ucMapQueue ++ placeMap f .ls queues.lsMapQueue ++ place .bc queues.bcQueue

def Conserved (f : ℕ → ℕ) (queues : Queues) : Prop := Account (queues.held f) queues.log

section Queue
variable {f : ℕ → ℕ} {mkId : ℕ → QueueId} {m : List (ℕ × AddressQueue)} {key : ℕ}
  {id : QueueId} {e : Qelement} {q : List Qelement} {log : QueueLog} {drops : Qelement → Bool}

theorem placeMap_insert (mkId : ℕ → QueueId) (h : lookup f (f key) m = none) (q : AddressQueue) :
    (placeMap f mkId (insert f key q m)).Perm
      (placeMap f mkId m ++ place (mkId (f key)) q.queue) := by
  rw [insert_of_none h]
  refine ((perm_set h).flatMap_right _).trans ?_
  rw [List.flatMap_cons]
  exact List.perm_append_comm

/-- Only the queue of the address changes. -/
theorem placeMap_modify (mkId : ℕ → QueueId) {old : AddressQueue} (h : lookup f (f key) m = some old)
    (q : List Qelement) : ∃ rest,
      (placeMap f mkId m).Perm (place (mkId (f key)) old.queue ++ rest) ∧
      (placeMap f mkId (modify f (f key) (fun a => { a with queue := q }) m)).Perm
        (place (mkId (f key)) q ++ rest) := by
  obtain ⟨key₁, hkey₁, herase⟩ := perm_erase h
  obtain ⟨key₂, hkey₂, hmodify⟩ := perm_modify (g := fun a => { a with queue := q }) h
  refine ⟨placeMap f mkId (erase f (f key) m), ?_, ?_⟩
  · have hperm := herase.symm.flatMap_right fun e => place (mkId (f e.1)) e.2.queue
    rw [List.flatMap_cons, hkey₁] at hperm
    exact hperm
  · have hperm := hmodify.flatMap_right fun e => place (mkId (f e.1)) e.2.queue
    rw [List.flatMap_cons, hkey₂] at hperm
    exact hperm

theorem settles_pushBack (size : ℤ) (id : QueueId) (e : Qelement) (q : List Qelement)
    (log : QueueLog) : Settles (place id q ++ [(id, e)]) log
      (place id (pushBack size id e q log).1) (pushBack size id e q log).2 := by
  unfold pushBack
  split
  · exact .refl _ _
  next old rest =>
    split_ifs
    · have hdrop := (settles_drop (id, old) log).append_right (place id (rest ++ [e]))
      have hplace : place id (rest ++ [e]) = place id rest ++ [(id, e)] := List.map_append
      rw [hplace] at hdrop
      dsimp only
      rw [hplace]
      exact hdrop
    · rw [place, place, List.map_append]
      exact .refl _ _

/-- What the loop over a queue does in its first turns is no more than dropping. -/
def Quiet (drops : Qelement → Bool) : ℕ → List Qelement → Prop
  | 0, _ => True
  | _, [] => True
  | n + 1, e :: q => if drops e then Quiet drops n q else e.hasCallback = false

theorem drain_quiet (id : QueueId) (log : QueueLog) {n : ℕ} (h : Quiet drops n q) :
    Settles (place id q) log (place id (drain drops id n q log).1) (drain drops id n q log).2 := by
  induction n generalizing q log with
  | zero => exact .refl _ _
  | succ n ih =>
    cases q with
    | nil => exact .refl _ _
    | cons e q =>
      rw [Quiet] at h
      rw [drain]
      split_ifs at h ⊢ with hdrops
      · exact ((settles_drop (id, e) log).append_right (place id q)).trans (ih _ h)
      · have hstays : log.transmit (id, e) = log := by
          unfold QueueLog.transmit
          rw [h]
          rfl
        rw [hstays]
        refine ih _ ?_
        cases n with
        | zero => trivial
        | succ n => rw [Quiet, if_neg hdrops]; exact h

theorem transmit_enqueued (log : QueueLog) (x : Placed) :
    (log.transmit x).enqueued = log.enqueued ∧ (log.transmit x).dropped = log.dropped ∧
      (log.transmit x).released = log.released ∧
      log.transmitted.length ≤ (log.transmit x).transmitted.length := by
  unfold QueueLog.transmit
  split_ifs
  · exact ⟨rfl, rfl, rfl, by rw [List.length_append]; omega⟩
  · exact ⟨rfl, rfl, rfl, le_rfl⟩

/-- Packets are only dropped from the queue, whatever is transmitted. -/
theorem drain_lengths (drops : Qelement → Bool) (id : QueueId) (n : ℕ) (q : List Qelement)
    (log : QueueLog) :
    (drain drops id n q log).2.enqueued = log.enqueued ∧
      (drain drops id n q log).1.length + (drain drops id n q log).2.dropped.length =
        q.length + log.dropped.length ∧
      log.transmitted.length ≤ (drain drops id n q log).2.transmitted.length := by
  induction n generalizing q log with
  | zero => exact ⟨rfl, rfl, le_rfl⟩
  | succ n ih =>
    cases q with
    | nil => exact ⟨rfl, rfl, le_rfl⟩
    | cons e q =>
      rw [drain]
      split_ifs
      · obtain ⟨henqueued, hlength, htransmitted⟩ := ih q (log.drop (id, e))
        refine ⟨henqueued, ?_, htransmitted⟩
        have hdropped : (log.drop (id, e)).dropped.length = log.dropped.length + 1 :=
          List.length_append
        rw [hlength, hdropped, List.length_cons]
        omega
      · obtain ⟨henqueued, hlength, htransmitted⟩ := ih (e :: q) (log.transmit (id, e))
        obtain ⟨henqueued', hdropped', -, htransmitted'⟩ := transmit_enqueued log (id, e)
        exact ⟨henqueued.trans henqueued', hdropped' ▸ hlength, htransmitted'.trans htransmitted⟩

/-- A packet that has not expired is transmitted, and stays. -/
theorem drain_loud {n : ℕ} (h : ¬ Quiet drops n q) :
    log.transmitted.length < (drain drops id n q log).2.transmitted.length := by
  induction n generalizing q log with
  | zero => exact absurd trivial h
  | succ n ih =>
    cases q with
    | nil => exact absurd trivial h
    | cons e q =>
      rw [Quiet] at h
      rw [drain]
      split_ifs at h ⊢ with hdrops
      · have hrest : (log.drop (id, e)).transmitted.length <
            (drain drops id n q (log.drop (id, e))).2.transmitted.length := ih h
        exact hrest
      · have hlength := (drain_lengths drops id n (e :: q) (log.transmit (id, e))).2.2
        refine lt_of_lt_of_le ?_ hlength
        rw [QueueLog.transmit, if_pos (by simpa using h), List.length_append]
        exact Nat.lt_succ_self _

theorem drainBc_settles (h : ∀ e ∈ q, drops e) :
    Settles (place .bc q) log [] (drainBc drops q log) := by
  induction q generalizing log with
  | nil => exact .refl _ _
  | cons e q ih =>
    obtain ⟨hdrops, hrest⟩ := List.forall_mem_cons.mp h
    rw [drainBc, if_pos hdrops]
    exact ((settles_drop (.bc, e) log).append_right (place .bc q)).trans (ih hrest)

theorem drainBc_released (drops : Qelement → Bool) (q : List Qelement) (log : QueueLog) :
    (drainBc drops q log).enqueued = log.enqueued ∧
      (drainBc drops q log).released.length = log.released.length + q.countP drops := by
  induction q generalizing log with
  | nil => exact ⟨rfl, rfl⟩
  | cons e q ih =>
    rw [drainBc]
    split_ifs with hdrops
    · obtain ⟨henqueued, hreleased⟩ := ih (log.drop (.bc, e))
      refine ⟨henqueued, ?_⟩
      rw [hreleased, List.countP_cons_of_pos hdrops, QueueLog.drop, List.length_append,
        List.length_singleton]
      omega
    · obtain ⟨henqueued, hreleased⟩ := ih (log.transmit (.bc, e))
      obtain ⟨henqueued', -, hreleased', -⟩ := transmit_enqueued log (.bc, e)
      refine ⟨henqueued.trans henqueued', ?_⟩
      rw [hreleased, hreleased', List.countP_cons_of_neg hdrops]

end Queue

/-! ### Steps -/

section Steps
variable {f : ℕ → ℕ} {cfg : GnConfig} {queues : Queues} {call : FlushCall}

/-- What holds in every run: the map of the unicast queues is sorted, nothing is in the other one,
and a new packet has a new number. -/
structure QueuesInv (f : ℕ → ℕ) (queues : Queues) : Prop where
  sorted : Sorted f queues.ucMapQueue
  noLs : queues.lsMapQueue = []
  fresh : ∀ x ∈ queues.log.enqueued, x.2.id < queues.log.enqueued.length

/-- The loop over the unicast queue of the call comes to its end. -/
def UcEnds (f : ℕ → ℕ) (queues : Queues) (call : FlushCall) : Prop :=
  call.qid &&& ucQ ≠ 0 → ∃ key, call.addr = some key ∧
    ∀ q, lookup f (f key) queues.ucMapQueue = some q →
      q.queue.length ≤ call.turns ∧ ∀ e ∈ q.queue, expired call e

/-- A packet that is enqueued has at most one byte and does not go to the queues of addresses that
are looked for; a flush only finds packets that have expired, before one without a callback. -/
def QueueOpSafe (f : ℕ → ℕ) (queues : Queues) : QueueOp → Prop
  | .enqueue call =>
    if call.qid &&& ucQ ≠ 0 then call.addr ≠ none → call.buffer.length ≤ 1
    else if call.qid &&& lsQ ≠ 0 then call.addr = none
    else if call.qid &&& bcQ ≠ 0 then call.buffer.length ≤ 1
    else True
  | .flush call =>
    (call.qid &&& ucQ ≠ 0 → ∀ key, call.addr = some key →
      ∀ q, lookup f (f key) queues.ucMapQueue = some q →
        Quiet (expired call) call.turns q.queue) ∧
    (call.qid &&& bcQ ≠ 0 → UcEnds f queues call → (call.qid &&& lsQ ≠ 0 → call.addr ≠ none) →
      ∀ e ∈ queues.bcQueue, expired call e)

/-- A queue of a map gets a packet. -/
theorem settles_enqueueMap {mkId : ℕ → QueueId} {e : Qelement} {key : ℕ}
    {m m' : List (ℕ × AddressQueue)} {log log' : QueueLog}
    (h : enqueueMap f cfg mkId e key m log = some (m', log')) :
    Settles (placeMap f mkId m ++ [(mkId (f key), e)]) log (placeMap f mkId m') log' := by
  obtain ⟨q, hlookup, hpush⟩ := Option.map_eq_some_iff.mp h
  obtain ⟨rfl, rfl⟩ := Prod.mk.inj hpush
  obtain ⟨rest, hbefore, hafter⟩ := placeMap_modify mkId hlookup
    (pushBack cfg.ucForwardingPacketBufferSize (mkId (f key)) e q.queue log).1
  have hpushed := (settles_pushBack cfg.ucForwardingPacketBufferSize (mkId (f key)) e q.queue
    log).append_right rest
  refine (Settles.of_perm ?_).trans (hpushed.trans (Settles.of_perm hafter.symm))
  refine (hbefore.append_right _).trans ?_
  rw [List.append_assoc, List.append_assoc]
  exact List.perm_append_comm.append_left _

/-- The held packets with one more at the end of the unicast ones. -/
theorem settles_held_uc {ucMap : List (ℕ × AddressQueue)} {x : Placed} {log log' : QueueLog}
    (h : Settles (placeMap f .uc queues.ucMapQueue ++ [x]) log (placeMap f .uc ucMap) log') :
    Settles (queues.held f ++ [x]) log
      (({ queues with ucMapQueue := ucMap, log := log' } : Queues).held f) log' := by
  have hrest := h.append_right (placeMap f .ls queues.lsMapQueue ++ place .bc queues.bcQueue)
  unfold Queues.held
  rw [List.append_assoc (placeMap f .uc ucMap)]
  refine (Settles.of_perm ?_).trans hrest
  simp only [List.append_assoc]
  rw [← List.append_assoc (placeMap f .ls queues.lsMapQueue)]
  exact List.perm_append_comm.append_left _

/-- The packet that a call makes. -/
abbrev callElement (queues : Queues) (call : EnqueueCall) : Qelement :=
  newElement call queues.log.enqueued.length

theorem enqueue_none_of_uc {call : EnqueueCall} (huc : call.qid &&& ucQ ≠ 0)
    (haddr : call.addr = none) : queues.enqueue f cfg call = queues := by
  unfold Queues.enqueue
  dsimp only
  rw [if_pos huc, haddr]

theorem enqueue_none_of_ls {call : EnqueueCall} (huc : ¬ call.qid &&& ucQ ≠ 0)
    (hls : call.qid &&& lsQ ≠ 0) (haddr : call.addr = none) :
    queues.enqueue f cfg call = queues := by
  unfold Queues.enqueue
  dsimp only
  rw [if_neg huc, if_pos hls, haddr]

theorem enqueue_of_no_queue {call : EnqueueCall} (huc : ¬ call.qid &&& ucQ ≠ 0)
    (hls : ¬ call.qid &&& lsQ ≠ 0) (hbc : ¬ call.qid &&& bcQ ≠ 0) :
    queues.enqueue f cfg call = queues := by
  unfold Queues.enqueue
  dsimp only
  rw [if_neg huc, if_neg hls, if_neg hbc]

theorem enqueue_ls (hinv : QueuesInv f queues) {call : EnqueueCall} {key : ℕ}
    (huc : ¬ call.qid &&& ucQ ≠ 0) (hls : call.qid &&& lsQ ≠ 0) (haddr : call.addr = some key) :
    queues.enqueue f cfg call = { queues with
      ucMapQueue :=
        SortedMap.insert f key ⟨f key, [callElement queues call]⟩ queues.ucMapQueue
      log := queues.log.enqueue (.ls (f key), callElement queues call) } := by
  have hnone (e : Qelement) (log : QueueLog) :
      enqueueMap f cfg .ls e key queues.lsMapQueue log = none := by
    rw [enqueueMap, hinv.noLs]
    rfl
  unfold Queues.enqueue
  dsimp only
  rw [if_neg huc, if_pos hls, haddr]
  dsimp only
  rw [hnone]

/-- A packet for an address that is looked for is lost, or held in the wrong queue. -/
theorem not_conserved_enqueue_ls (hinv : QueuesInv f queues) (h : Conserved f queues)
    {call : EnqueueCall} {key : ℕ} (huc : ¬ call.qid &&& ucQ ≠ 0) (hls : call.qid &&& lsQ ≠ 0)
    (haddr : call.addr = some key) : ¬ Conserved f (queues.enqueue f cfg call) := by
  rw [enqueue_ls hinv huc hls haddr]
  intro hafter
  cases hlookup : lookup f (f key) queues.ucMapQueue with
  | some q =>
    have hmap : SortedMap.insert f key ⟨f key, [callElement queues call]⟩ queues.ucMapQueue =
        queues.ucMapQueue := by
      rw [SortedMap.insert, hlookup]
      rfl
    have hlength := hafter.length_eq
    have hbefore := h.length_eq
    rw [hmap] at hlength
    have henqueued : (queues.log.enqueue (.ls (f key), callElement queues call)).enqueued.length =
        queues.log.enqueued.length + 1 := List.length_append
    have hheld : (queues.held f).length + queues.log.transmitted.length +
        queues.log.dropped.length = queues.log.enqueued.length + 1 := hlength.trans henqueued
    omega
  | none =>
    have hin := (placeMap_insert .uc hlookup
      ⟨f key, [callElement queues call]⟩).symm.subset
      (List.mem_append_right _ (List.mem_singleton_self
        (QueueId.uc (f key), callElement queues call)))
    have hmem := hafter.accounted.subset (List.mem_append_left _ (List.mem_append_left _
      (List.mem_append_left _ (List.mem_append_left _ hin))))
    rcases List.mem_append.mp hmem with hold | hnew
    · exact absurd (hinv.fresh _ hold) (lt_irrefl _)
    · exact absurd (List.mem_singleton.mp hnew) (by simp)

/-- A packet that goes into its queue is conserved when its buffer holds it. -/
theorem conserved_of_settles {queues' : Queues} {x : Placed} (h : Conserved f queues)
    (hs : Settles (queues.held f ++ [x]) (queues.log.enqueue x) (queues'.held f) queues'.log) :
    Conserved f queues' ↔ x.2.buffer.length ≤ x.2.allocated := by
  constructor
  · intro hafter
    apply hafter.holds x
    rw [hs.enqueued]
    exact List.mem_append_right _ (List.mem_singleton_self x)
  · intro hx
    exact (h.enqueue hx).settles hs

theorem settles_enqueue_uc (cfg : GnConfig) {call : EnqueueCall} {key : ℕ} (huc : call.qid &&& ucQ ≠ 0)
    (haddr : call.addr = some key) :
    Settles (queues.held f ++ [(.uc (f key), callElement queues call)])
      (queues.log.enqueue (.uc (f key), callElement queues call))
      ((queues.enqueue f cfg call).held f) (queues.enqueue f cfg call).log := by
  unfold Queues.enqueue
  dsimp only
  rw [if_pos huc, haddr]
  dsimp only
  cases henqueue : enqueueMap f cfg .uc (callElement queues call) key queues.ucMapQueue
      (queues.log.enqueue (.uc (f key), callElement queues call)) with
  | some result => exact settles_held_uc (settles_enqueueMap henqueue)
  | none =>
    refine settles_held_uc (Settles.of_perm ?_)
    exact (placeMap_insert .uc (Option.map_eq_none_iff.mp henqueue)
      ⟨f key, [callElement queues call]⟩).symm

theorem settles_enqueue_bc (cfg : GnConfig) {call : EnqueueCall} (huc : ¬ call.qid &&& ucQ ≠ 0)
    (hls : ¬ call.qid &&& lsQ ≠ 0) (hbc : call.qid &&& bcQ ≠ 0) :
    Settles (queues.held f ++ [(.bc, callElement queues call)])
      (queues.log.enqueue (.bc, callElement queues call))
      ((queues.enqueue f cfg call).held f) (queues.enqueue f cfg call).log := by
  unfold Queues.enqueue
  dsimp only
  rw [if_neg huc, if_neg hls, if_pos hbc]
  unfold Queues.held
  rw [List.append_assoc]
  exact (settles_pushBack cfg.bcForwardingPacketBufferSize .bc (callElement queues call)
    queues.bcQueue _).append_left _

theorem conserved_enqueue_iff (hinv : QueuesInv f queues) (h : Conserved f queues)
    (call : EnqueueCall) :
    Conserved f (queues.enqueue f cfg call) ↔ QueueOpSafe f queues (.enqueue call) := by
  unfold QueueOpSafe
  dsimp only
  split_ifs with huc hls hbc
  · cases haddr : call.addr with
    | none =>
      rw [enqueue_none_of_uc huc haddr]
      exact iff_of_true h fun hnone => absurd rfl hnone
    | some key =>
      refine (conserved_of_settles h (settles_enqueue_uc cfg huc haddr)).trans ?_
      exact ⟨fun hlength _ => hlength, fun hlength => hlength (by simp)⟩
  · cases haddr : call.addr with
    | none =>
      rw [enqueue_none_of_ls huc hls haddr]
      exact iff_of_true h rfl
    | some key => exact iff_of_false (not_conserved_enqueue_ls hinv h huc hls haddr) (by simp)
  · exact conserved_of_settles h (settles_enqueue_bc cfg huc hls hbc)
  · rw [enqueue_of_no_queue huc hls hbc]
    exact iff_of_true h trivial

/-! ### Flushes -/

/-- The unicast part of a flush with an address. -/
theorem flushUc_some {key : ℕ} (huc : call.qid &&& ucQ ≠ 0) (haddr : call.addr = some key) :
    queues.flushUc f call =
      let result := flushMap f .uc (expired call) call.turns key queues.ucMapQueue queues.log
      ({ queues with ucMapQueue := result.1, log := result.2.1 }, result.2.2) := by
  unfold Queues.flushUc
  rw [if_pos huc, haddr]

theorem flushUc_settles (hquiet : call.qid &&& ucQ ≠ 0 → ∀ key, call.addr = some key →
      ∀ q, lookup f (f key) queues.ucMapQueue = some q →
        Quiet (expired call) call.turns q.queue) :
    Settles (queues.held f) queues.log ((queues.flushUc f call).1.held f)
      (queues.flushUc f call).1.log := by
  by_cases huc : call.qid &&& ucQ ≠ 0
  · cases haddr : call.addr with
    | none =>
      unfold Queues.flushUc
      rw [if_pos huc, haddr]
      exact .refl _ _
    | some key =>
      rw [flushUc_some huc haddr]
      cases hlookup : lookup f (f key) queues.ucMapQueue with
      | none =>
        rw [flushMap_none hlookup]
        exact .refl _ _
      | some q =>
        rw [flushMap_some hlookup]
        dsimp only
        obtain ⟨rest, hbefore, hafter⟩ := placeMap_modify .uc hlookup
          (drain (expired call) (.uc (f key)) call.turns q.queue queues.log).1
        have hdrain := (drain_quiet (.uc (f key)) queues.log
          (hquiet huc key haddr q hlookup)).append_right rest
        have hmap := (Settles.of_perm hbefore).trans (hdrain.trans (.of_perm hafter.symm))
        unfold Queues.held
        rw [List.append_assoc, List.append_assoc]
        exact hmap.append_right _
  · unfold Queues.flushUc
    rw [if_neg huc]
    exact .refl _ _

/-- A packet that is transmitted and stays is there twice. -/
theorem flushUc_loud {key : ℕ} {q : AddressQueue} (h : Conserved f queues)
    (huc : call.qid &&& ucQ ≠ 0) (haddr : call.addr = some key)
    (hlookup : lookup f (f key) queues.ucMapQueue = some q)
    (hloud : ¬ Quiet (expired call) call.turns q.queue) :
    ¬ Conserved f (queues.flushUc f call).1 := by
  intro hafter
  have hlength := hafter.length_eq
  have hbefore := h.length_eq
  rw [flushUc_some huc haddr, flushMap_some hlookup] at hlength
  obtain ⟨rest, hperm, hperm'⟩ := placeMap_modify .uc hlookup
    (drain (expired call) (.uc (f key)) call.turns q.queue queues.log).1
  obtain ⟨henqueued, hdropped, -⟩ :=
    drain_lengths (expired call) (.uc (f key)) call.turns q.queue queues.log
  have htransmitted : queues.log.transmitted.length <
      (drain (expired call) (.uc (f key)) call.turns q.queue queues.log).2.transmitted.length :=
    drain_loud hloud
  have hheld := hperm.length_eq
  have hheld' := hperm'.length_eq
  simp only [Queues.held, place, List.length_append, List.length_map] at *
  rw [henqueued] at hlength
  omega

theorem flushUc_ended (queues : Queues) (call : FlushCall) :
    (queues.flushUc f call).2 ↔ UcEnds f queues call := by
  unfold UcEnds
  by_cases huc : call.qid &&& ucQ ≠ 0
  · cases haddr : call.addr with
    | none =>
      unfold Queues.flushUc
      rw [if_pos huc, haddr]
      simp [huc]
    | some key =>
      rw [flushUc_some huc haddr, forall_prop_of_true huc]
      exact flushMap_ended_iff.trans
        ⟨fun h => ⟨key, rfl, h⟩, fun ⟨_, hkey, h⟩ => Option.some.inj hkey ▸ h⟩
  · unfold Queues.flushUc
    rw [if_neg huc]
    exact iff_of_true rfl fun h => absurd h huc

theorem conserved_flushBc_iff (h : Conserved f queues) (call : FlushCall) :
    Conserved f (queues.flushBc call) ↔
      (call.qid &&& bcQ ≠ 0 → ∀ e ∈ queues.bcQueue, expired call e) := by
  unfold Queues.flushBc
  split_ifs with hbc
  · rw [forall_prop_of_true hbc]
    constructor
    · intro hafter
      obtain ⟨henqueued, hreleased⟩ := drainBc_released (expired call) queues.bcQueue queues.log
      have hlength := hafter.length_eq
      have hrelease := hafter.released_length
      have hbefore := h.length_eq
      have hbefore' := h.released_length
      simp only [Queues.held, place, List.length_append, List.length_map, List.length_nil] at *
      rw [henqueued] at hlength
      exact List.countP_eq_length.mp (by omega)
    · intro hexpired
      refine h.settles ?_
      unfold Queues.held
      exact (drainBc_settles hexpired).append_left _
  · exact iff_of_true h fun hbc' => absurd hbc' hbc

/-- Without queues of addresses that are looked for a flush only needs an address. -/
theorem flushLs_noLs (h : queues.lsMapQueue = []) (call : FlushCall) :
    queues.flushLs f call = (queues, (call.qid &&& lsQ = 0 ∨ call.addr ≠ none : Bool)) := by
  obtain ⟨ucMap, lsMap, bc, log⟩ := queues
  obtain rfl : lsMap = [] := h
  unfold Queues.flushLs
  split_ifs with hls
  · cases call.addr with
    | none => simp [hls]
    | some key => simp [flushMap]
  · simp at hls
    simp [hls]

theorem quiet_of_ended {drops : Qelement → Bool} {n : ℕ} {q : List Qelement}
    (h : ∀ e ∈ q, drops e) : Quiet drops n q := by
  induction n generalizing q with
  | zero => trivial
  | succ n ih =>
    cases q with
    | nil => trivial
    | cons e q =>
      obtain ⟨he, hq⟩ := List.forall_mem_cons.mp h
      rw [Quiet, if_pos he]
      exact ih hq

theorem conserved_flush_iff (hinv : QueuesInv f queues) (h : Conserved f queues)
    (call : FlushCall) :
    Conserved f (queues.flushQueueSync f call) ↔ QueueOpSafe f queues (.flush call) := by
  have hended := flushUc_ended (f := f) queues call
  obtain ⟨hbc, hls⟩ := flushUc_bcQueue (f := f) queues call
  unfold QueueOpSafe Queues.flushQueueSync
  dsimp only
  by_cases hquiet : call.qid &&& ucQ ≠ 0 → ∀ key, call.addr = some key →
      ∀ q, lookup f (f key) queues.ucMapQueue = some q → Quiet (expired call) call.turns q.queue
  · rw [and_iff_right hquiet]
    have hmiddle := h.settles (flushUc_settles hquiet)
    by_cases hends : UcEnds f queues call
    · rw [if_pos (hended.mpr hends), flushLs_noLs (hls.trans hinv.noLs)]
      dsimp only
      split_ifs with hgoes
      · refine (conserved_flushBc_iff hmiddle call).trans ?_
        rw [hbc]
        have hgoes' : call.qid &&& lsQ ≠ 0 → call.addr ≠ none := by simpa [imp_iff_not_or] using hgoes
        exact ⟨fun h hbc' _ _ => h hbc', fun h hbc' => h hbc' hends hgoes'⟩
      · refine iff_of_true hmiddle fun _ _ hgoes' => absurd ?_ hgoes
        simpa [imp_iff_not_or] using hgoes'
    · rw [if_neg (fun h => hends (hended.mp h))]
      exact iff_of_true hmiddle fun _ h => absurd h hends
  · -- a packet is sent and stays, and the loop goes on with it
    push Not at hquiet
    obtain ⟨huc, key, haddr, q, hlookup, hloud⟩ := hquiet
    have hends : ¬ UcEnds f queues call := by
      intro hends
      obtain ⟨key', haddr', hall⟩ := hends huc
      obtain rfl : key = key' := Option.some.inj (haddr.symm.trans haddr')
      exact hloud (quiet_of_ended (hall q hlookup).2)
    rw [if_neg (fun h => hends (hended.mp h))]
    refine iff_of_false (flushUc_loud h huc haddr hlookup hloud) fun hsafe => ?_
    exact hloud (hsafe.1 huc key haddr q hlookup)

theorem conserved_step_iff (hinv : QueuesInv f queues) (h : Conserved f queues) (op : QueueOp) :
    Conserved f (queues.step f cfg op) ↔ QueueOpSafe f queues op := by
  cases op with
  | enqueue call => exact conserved_enqueue_iff hinv h call
  | flush call => exact conserved_flush_iff hinv h call

theorem sorted_insert {m : List (ℕ × AddressQueue)} (h : Sorted f m) (key : ℕ)
    (q : AddressQueue) : Sorted f (SortedMap.insert f key q m) := by
  unfold SortedMap.insert
  split_ifs
  · exact h
  · exact sorted_set h

theorem enqueued_enqueue (cfg : GnConfig) (hinv : QueuesInv f queues) (call : EnqueueCall) :
    (queues.enqueue f cfg call).log.enqueued = queues.log.enqueued ∨
      ∃ id, (queues.enqueue f cfg call).log.enqueued =
        queues.log.enqueued ++ [(id, callElement queues call)] := by
  by_cases huc : call.qid &&& ucQ ≠ 0
  · cases haddr : call.addr with
    | none => exact .inl (by rw [enqueue_none_of_uc huc haddr])
    | some key => exact .inr ⟨_, (settles_enqueue_uc cfg huc haddr).enqueued⟩
  · by_cases hls : call.qid &&& lsQ ≠ 0
    · cases haddr : call.addr with
      | none => exact .inl (by rw [enqueue_none_of_ls huc hls haddr])
      | some key => exact .inr ⟨_, by rw [enqueue_ls hinv huc hls haddr]; rfl⟩
    · by_cases hbc : call.qid &&& bcQ ≠ 0
      · exact .inr ⟨_, (settles_enqueue_bc cfg huc hls hbc).enqueued⟩
      · exact .inl (by rw [enqueue_of_no_queue huc hls hbc])

theorem maps_enqueue (cfg : GnConfig) (hinv : QueuesInv f queues) (call : EnqueueCall) :
    Sorted f (queues.enqueue f cfg call).ucMapQueue ∧
      (queues.enqueue f cfg call).lsMapQueue = [] := by
  by_cases huc : call.qid &&& ucQ ≠ 0
  · cases haddr : call.addr with
    | none => rw [enqueue_none_of_uc huc haddr]; exact ⟨hinv.sorted, hinv.noLs⟩
    | some key =>
      unfold Queues.enqueue
      dsimp only
      rw [if_pos huc, haddr]
      dsimp only
      split
      next m log hmap =>
        obtain ⟨q, -, hpush⟩ := Option.map_eq_some_iff.mp hmap
        obtain ⟨rfl, -⟩ := Prod.mk.inj hpush
        exact ⟨sorted_modify hinv.sorted, hinv.noLs⟩
      · exact ⟨sorted_insert hinv.sorted key _, hinv.noLs⟩
  · by_cases hls : call.qid &&& lsQ ≠ 0
    · cases haddr : call.addr with
      | none => rw [enqueue_none_of_ls huc hls haddr]; exact ⟨hinv.sorted, hinv.noLs⟩
      | some key =>
        rw [enqueue_ls hinv huc hls haddr]
        exact ⟨sorted_insert hinv.sorted key _, hinv.noLs⟩
    · unfold Queues.enqueue
      dsimp only
      rw [if_neg huc, if_neg hls]
      split_ifs
      · exact ⟨hinv.sorted, hinv.noLs⟩
      · exact ⟨hinv.sorted, hinv.noLs⟩

theorem drainBc_enqueued (drops : Qelement → Bool) (q : List Qelement) (log : QueueLog) :
    (drainBc drops q log).enqueued = log.enqueued := (drainBc_released drops q log).1

theorem flushUc_maps (hinv : QueuesInv f queues) (call : FlushCall) :
    Sorted f (queues.flushUc f call).1.ucMapQueue ∧
      (queues.flushUc f call).1.log.enqueued = queues.log.enqueued := by
  by_cases huc : call.qid &&& ucQ ≠ 0
  · cases haddr : call.addr with
    | none =>
      unfold Queues.flushUc
      rw [if_pos huc, haddr]
      exact ⟨hinv.sorted, rfl⟩
    | some key =>
      rw [flushUc_some huc haddr]
      cases hlookup : lookup f (f key) queues.ucMapQueue with
      | none =>
        rw [flushMap_none hlookup]
        exact ⟨hinv.sorted, rfl⟩
      | some q =>
        rw [flushMap_some hlookup]
        exact ⟨sorted_modify hinv.sorted, (drain_lengths _ _ _ _ _).1⟩
  · unfold Queues.flushUc
    rw [if_neg huc]
    exact ⟨hinv.sorted, rfl⟩

theorem maps_flush (hinv : QueuesInv f queues) (call : FlushCall) :
    Sorted f (queues.flushQueueSync f call).ucMapQueue ∧
      (queues.flushQueueSync f call).lsMapQueue = [] ∧
      (queues.flushQueueSync f call).log.enqueued = queues.log.enqueued := by
  obtain ⟨hsorted, henqueued⟩ := flushUc_maps hinv call
  have hls := (flushUc_bcQueue (f := f) queues call).2.trans hinv.noLs
  unfold Queues.flushQueueSync
  dsimp only
  rw [flushLs_noLs hls]
  dsimp only
  split_ifs
  · unfold Queues.flushBc
    split_ifs
    · exact ⟨hsorted, hls, (drainBc_enqueued _ _ _).trans henqueued⟩
    · exact ⟨hsorted, hls, henqueued⟩
  · exact ⟨hsorted, hls, henqueued⟩
  · exact ⟨hsorted, hls, henqueued⟩

theorem queuesInv_step (hinv : QueuesInv f queues) (op : QueueOp) :
    QueuesInv f (queues.step f cfg op) := by
  cases op with
  | enqueue call =>
    obtain ⟨hsorted, hls⟩ := maps_enqueue cfg hinv call
    refine ⟨hsorted, hls, ?_⟩
    rcases enqueued_enqueue cfg hinv call with hsame | ⟨id, hnew⟩
    · exact hsame ▸ hinv.fresh
    · intro x hx
      change x ∈ (queues.enqueue f cfg call).log.enqueued at hx
      change x.2.id < (queues.enqueue f cfg call).log.enqueued.length
      rw [hnew] at hx ⊢
      rw [List.length_append, List.length_singleton]
      rcases List.mem_append.mp hx with hold | hnew
      · exact (hinv.fresh x hold).trans (Nat.lt_succ_self _)
      · obtain rfl := List.mem_singleton.mp hnew
        exact Nat.lt_succ_self _
  | flush call =>
    obtain ⟨hsorted, hls, henqueued⟩ := maps_flush hinv call
    exact ⟨hsorted, hls, henqueued ▸ hinv.fresh⟩

end Steps

/-! ### Runs -/

theorem conserved_empty (f : ℕ → ℕ) : Conserved f .empty :=
  ⟨.refl _, fun _ h => absurd h List.not_mem_nil, .nil, fun _ h => absurd h List.not_mem_nil,
    .refl _⟩

theorem queuesInv_empty (f : ℕ → ℕ) : QueuesInv f .empty :=
  ⟨sorted_nil, rfl, fun _ h => absurd h List.not_mem_nil⟩

/-- The packets are accounted for in every state of a run of the queues exactly when no packet of
the run is longer than a byte or goes to the queues of addresses that are looked for, and no flush
finds a packet that it may send. -/
theorem queues_conserved_iff (f : ℕ → ℕ) (cfg : GnConfig) (ops : List QueueOp) :
    (∀ xs, xs <+: ops → Conserved f (final (Queues.step f cfg) .empty xs)) ↔
      Always (Queues.step f cfg) (QueueOpSafe f) .empty ops :=
  reached_iff_always (fun _ op (hinv : QueuesInv f _) => queuesInv_step hinv op)
    (fun _ op hinv h => conserved_step_iff hinv h op) (queuesInv_empty f) (conserved_empty f)

/-- A packet of one byte for the address that `key` points to. -/
def shortPacket (qid key : ℕ) : QueueOp := .enqueue ⟨qid, [3], true, some key, 0⟩

/-- A packet of two bytes is not held by its buffer, one for an address that is looked for is not in
its queue, and a unicast packet that is sent by a flush stays in its queue. -/
theorem queues_not_conserved :
    (¬ ∀ xs, xs <+: [.enqueue ⟨bcQ, [3, 17], true, none, 0⟩] →
      Conserved id (final (Queues.step id (initDefaultConfig ⟨0, 0⟩)) .empty xs)) ∧
    (¬ ∀ xs, xs <+: [shortPacket lsQ 5] →
      Conserved id (final (Queues.step id (initDefaultConfig ⟨0, 0⟩)) .empty xs)) ∧
    ¬ ∀ xs, xs <+: [shortPacket ucQ 5, .flush ⟨ucQ, some 5, false, 0, 1, 0⟩] →
      Conserved id (final (Queues.step id (initDefaultConfig ⟨0, 0⟩)) .empty xs) := by
  refine ⟨fun h => ?_, fun h => ?_, fun h => ?_⟩
  · have hholds := (h _ (List.prefix_refl _)).holds
    exact absurd hholds (by decide)
  · have hperm := (h _ (List.prefix_refl _)).accounted
    exact absurd hperm (by decide)
  · have hlength := (h _ (List.prefix_refl _)).length_eq
    exact absurd hlength (by decide)

end Tulux.GeoNetRouter
