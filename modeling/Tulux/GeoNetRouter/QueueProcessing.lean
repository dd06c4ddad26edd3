import Tulux.GeoNetRouter.Queue
import Tulux.Lib.Loop

/-! Whether the loops over the queues come to their end: those of `FlushQueueSync`, and the one over
the queue for contention based forwarding. -/
namespace Tulux.GeoNetRouter
open QCoder SortedMap

/-! ### FlushQueueSync -/

/-- The call has returned within its turns. Without an address it has nothing to wait for, and the
loop over the broadcasts always comes to its end. -/
def Queues.flushed (f : ℕ → ℕ) (queues : Queues) (call : FlushCall) : Bool :=
  match call.addr with
  | none => true
  | some _ => (queues.flushUc f call).2 && ((queues.flushUc f call).1.flushLs f call).2

/-- The call returns when its loops may turn often enough. -/
def FlushReturns (f : ℕ → ℕ) (queues : Queues) (call : FlushCall) : Prop :=
  ∃ enough, ∀ turns, enough ≤ turns → queues.flushed f { call with turns := turns } = true

/-- All packets of the queues of the address that the call flushes are dropped: in the unicast queue
they have expired, and in the other one too unless it is purged. -/
structure FlushDropsAll (f : ℕ → ℕ) (queues : Queues) (call : FlushCall) : Prop where
  uc : call.qid &&& ucQ ≠ 0 → ∀ key q, call.addr = some key →
    lookup f (f key) queues.ucMapQueue = some q → ∀ e ∈ q.queue, expired call e = true
  ls : call.qid &&& lsQ ≠ 0 → call.purge = false → ∀ key q, call.addr = some key →
    lookup f (f key) queues.lsMapQueue = some q → ∀ e ∈ q.queue, expired call e = true

section Flush
variable {f : ℕ → ℕ} {queues : Queues} {call : FlushCall} {key : ℕ}

theorem flushUc_ended_iff (haddr : call.addr = some key) : (queues.flushUc f call).2 = true ↔
    (call.qid &&& ucQ ≠ 0 → ∀ q, lookup f (f key) queues.ucMapQueue = some q →
      q.queue.length ≤ call.turns ∧ ∀ e ∈ q.queue, expired call e = true) := by
  unfold Queues.flushUc
  split_ifs with hqid
  · rw [imp_iff_right hqid, haddr]
    exact flushMap_ended_iff
  · simp [hqid]

theorem flushLs_ended_iff (haddr : call.addr = some key) : (queues.flushLs f call).2 = true ↔
    (call.qid &&& lsQ ≠ 0 → ∀ q, lookup f (f key) queues.lsMapQueue = some q →
      q.queue.length ≤ call.turns ∧ ∀ e ∈ q.queue, (call.purge || expired call e) = true) := by
  unfold Queues.flushLs
  split_ifs with hqid
  · rw [imp_iff_right hqid, haddr]
    exact flushMap_ended_iff
  · simp [hqid]

theorem flushed_iff (call : FlushCall) (haddr : call.addr = some key) :
    queues.flushed f call = true ↔
    (call.qid &&& ucQ ≠ 0 → ∀ q, lookup f (f key) queues.ucMapQueue = some q →
      q.queue.length ≤ call.turns ∧ ∀ e ∈ q.queue, expired call e = true) ∧
    (call.qid &&& lsQ ≠ 0 → ∀ q, lookup f (f key) queues.lsMapQueue = some q →
      q.queue.length ≤ call.turns ∧ ∀ e ∈ q.queue, (call.purge || expired call e) = true) := by
  unfold Queues.flushed
  rw [haddr]
  dsimp only
  rw [Bool.and_eq_true, flushUc_ended_iff haddr, flushLs_ended_iff haddr,
    (flushUc_bcQueue queues call).2]

/-- A call returns exactly when it sends nothing: what is sent stays at the front of its queue. -/
theorem flushReturns_iff (f : ℕ → ℕ) (queues : Queues) (call : FlushCall) :
    FlushReturns f queues call ↔ FlushDropsAll f queues call := by
  cases haddr : call.addr with
  | none =>
    refine iff_of_true ⟨0, fun turns _ => ?_⟩ ⟨?_, ?_⟩
    · simp only [Queues.flushed, haddr]
    · intro _ key q hkey
      cases haddr.symm.trans hkey
    · intro _ _ key q hkey
      cases haddr.symm.trans hkey
  | some key =>
    constructor
    · rintro ⟨enough, hreturns⟩
      obtain ⟨huc, hls⟩ :=
        (flushed_iff { call with turns := enough } haddr).mp (hreturns enough le_rfl)
      refine ⟨fun hqid key' q hkey hq => ?_, fun hqid hpurge key' q hkey hq e he => ?_⟩
      all_goals obtain rfl := Option.some.inj (haddr.symm.trans hkey)
      · exact (huc hqid q hq).2
      · have hdropped := (hls hqid q hq).2 e he
        rwa [hpurge, Bool.false_or] at hdropped
    · intro h
      let size (m : List (ℕ × AddressQueue)) := (lookup f (f key) m).elim 0 fun q => q.queue.length
      refine ⟨size queues.ucMapQueue + size queues.lsMapQueue, fun turns hturns => ?_⟩
      have hsize {m : List (ℕ × AddressQueue)} {q : AddressQueue}
          (hq : lookup f (f key) m = some q) : q.queue.length = size m := by
        dsimp only [size]
        rw [hq, Option.elim_some]
      have hls (hqid : call.qid &&& lsQ ≠ 0) (q : AddressQueue)
          (hq : lookup f (f key) queues.lsMapQueue = some q) (e : Qelement) (he : e ∈ q.queue) :
          (call.purge || expired call e) = true := by
        rw [Bool.or_eq_true]
        by_cases hpurge : call.purge = true
        · exact .inl hpurge
        · exact .inr (h.ls hqid (Bool.eq_false_of_not_eq_true hpurge) key q haddr hq e he)
      refine (flushed_iff { call with turns := turns } haddr).mpr
        ⟨fun hqid q hq => ⟨?_, h.uc hqid key q haddr hq⟩, fun hqid q hq => ⟨?_, hls hqid q hq⟩⟩
      · rw [hsize hq]
        exact (Nat.le_add_right _ _).trans hturns
      · rw [hsize hq]
        exact (Nat.le_add_left _ _).trans hturns

end Flush

/-! ### CBFTimerTask -/

/-- `Qelement` as the queue for contention based forwarding reads it. -/
structure CbfElement where
  ts : ℤ
  timeout : ℤ
  deriving DecidableEq

namespace CbfElement

/-- The timeout has passed. -/
def due (now : ℕ) (e : CbfElement) : Bool := e.timeout ≤ s32 (s32 now - e.ts)

def deadline (e : CbfElement) : ℤ := e.ts + e.timeout

end CbfElement

/-- The queue in the order in which its elements come to the top: by their timeouts. -/
structure CbfQueue where
  elements : List CbfElement
  sorted : elements.Pairwise fun e e' => e.timeout ≤ e'.timeout

/-- The loop over the queue, with what is removed. -/
def cbfPass (now : ℕ) :
    List CbfElement × List CbfElement → (List CbfElement × List CbfElement) ⊕ List CbfElement
  | ([], removed) => .inr removed
  | (e :: q, removed) => .inl (if e.due now then (q, removed ++ [e]) else (e :: q, removed))

/-- The loop comes to its end. It removes the elements whose timeout has passed, in the order of
their deadlines. -/
def CbfQueue.Processed (queue : CbfQueue) (now : ℕ) : Prop :=
  ∃ removed, Loop.Yields (Loop.run (cbfPass now) (queue.elements, [])) removed ∧
    removed.Perm (queue.elements.filter fun e => e.due now) ∧
    removed.Pairwise fun e e' => e.deadline ≤ e'.deadline

section Cbf
variable {now : ℕ} {q removed : List CbfElement}

/-- Elements that are all due are removed from the top on. -/
theorem cbfPass_yields (h : ∀ e ∈ q, e.due now = true) :
    Loop.Yields (Loop.run (cbfPass now) (q, removed)) (removed ++ q) := by
  induction q generalizing removed with
  | nil =>
    rw [List.append_nil]
    exact Loop.yields_done rfl
  | cons e q ih =>
    obtain ⟨hdue, hrest⟩ := List.forall_mem_cons.mp h
    rw [List.append_cons]
    exact Loop.yields_pass (congrArg Sum.inl (if_pos hdue)) (ih hrest)

/-- An element that is not due is never removed. -/
theorem cbfPass_endless (h : ∃ e ∈ q, e.due now = false) :
    Loop.Endless (Loop.run (cbfPass now) (q, removed)) := by
  refine Loop.endless_of_invariant (cbfPass now) (fun s => ∃ e ∈ s.1, e.due now = false) ?_ h
  rintro ⟨q, removed⟩ ⟨e, he, hlate⟩
  cases q with
  | nil => cases he
  | cons e' q =>
    refine ⟨_, rfl, ?_⟩
    split_ifs with hdue
    · rcases List.mem_cons.mp he with rfl | hmem
      · cases hdue.symm.trans hlate
      · exact ⟨e, hmem, hlate⟩
    · exact ⟨e, he, hlate⟩

theorem processed_iff (queue : CbfQueue) (now : ℕ) : queue.Processed now ↔
    (∀ e ∈ queue.elements, e.due now = true) ∧
      queue.elements.Pairwise fun e e' => e.deadline ≤ e'.deadline := by
  by_cases hdue : ∀ e ∈ queue.elements, e.due now = true
  · have hyields : Loop.Yields (Loop.run (cbfPass now) (queue.elements, []))
        ([] ++ queue.elements) := cbfPass_yields hdue
    rw [List.nil_append] at hyields
    rw [and_iff_right hdue]
    constructor
    · rintro ⟨removed, hremoved, -, hordered⟩
      rwa [hremoved.unique hyields] at hordered
    · intro hordered
      exact ⟨_, hyields, by rw [List.filter_eq_self.mpr hdue], hordered⟩
  · refine iff_of_false ?_ fun h => hdue h.1
    rintro ⟨removed, hremoved, -⟩
    push Not at hdue
    obtain ⟨e, he, hlate⟩ := hdue
    exact (cbfPass_endless ⟨e, he, Bool.eq_false_of_not_eq_true hlate⟩).not_yields hremoved

end Cbf

/-- The processing of the queues ends, and that for contention based forwarding in the order of the
deadlines, exactly when the flush sends nothing and everything else is due in that order. -/
theorem queueProcessing_iff (f : ℕ → ℕ) (queues : Queues) (call : FlushCall) (queue : CbfQueue)
    (now : ℕ) : FlushReturns f queues call ∧ queue.Processed now ↔
      FlushDropsAll f queues call ∧ (∀ e ∈ queue.elements, e.due now = true) ∧
        queue.elements.Pairwise fun e e' => e.deadline ≤ e'.deadline :=
  and_congr (flushReturns_iff f queues call) (processed_iff queue now)

/-- The unicast queue of the address 0 with one packet, of a lifetime of 950 milliseconds. -/
def oneUnicast : Queues :=
  { Queues.empty with ucMapQueue := [(0, ⟨0, [⟨0, [0, 0, 76], 3, true, 1000⟩]⟩)] }

/-- A packet that is sent 100 milliseconds after it was put into its queue holds the flush up; so
does an element of the other queue that is due 50 milliseconds later; and of two that are due the
one with the later deadline is removed first when its timeout is shorter. -/
theorem queues_not_processed :
    ¬ FlushReturns (fun _ => 0) oneUnicast ⟨ucQ, some 0, false, 1100, 0, 0⟩ ∧
    ¬ CbfQueue.Processed ⟨[⟨1000, 100⟩], List.pairwise_singleton _ _⟩ 1050 ∧
    ¬ CbfQueue.Processed ⟨[⟨1100, 5⟩, ⟨1000, 50⟩], by decide⟩ 1200 := by
  refine ⟨fun h => ?_, fun h => ?_, fun h => ?_⟩
  · have hdrops := (flushReturns_iff _ _ _).mp h
    have hexpired := hdrops.uc (by decide) 0 _ rfl rfl _ List.mem_cons_self
    exact absurd hexpired (by decide +kernel)
  · have hdue := ((processed_iff _ _).mp h).1 _ List.mem_cons_self
    exact absurd hdue (by decide +kernel)
  · have hordered := ((processed_iff _ _).mp h).2
    exact absurd hordered (by decide)

end Tulux.GeoNetRouter
