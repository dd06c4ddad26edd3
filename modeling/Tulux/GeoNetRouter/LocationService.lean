import Tulux.GeoNetRouter.Router
import Tulux.GeoNetRouter.QueueProcessing

/-! A run of the location service, over all outcomes of its waits. -/
namespace Tulux.GeoNetRouter
open QCoder SortedMap

/-- What ends a wait. -/
inductive Wake where
  | timeout
  | reply
  | spurious
  deriving DecidableEq

/-- The wait behind a request, and whether a reply has come since the request that has not been
waited for: what has been notified before is not remembered. -/
structure Wait where
  missed : Bool
  wake : Wake

inductive LsEvent where
  | insert
  | transmit
  | reply
  | purge
  | remove
  deriving DecidableEq

namespace Wait

def replied (wait : Wait) : Bool := wait.missed || wait.wake = .reply

def replies (wait : Wait) : List LsEvent :=
  (if wait.missed then [.reply] else []) ++ if wait.wake = .reply then [.reply] else []

end Wait

/-- How many requests there have been, and what has been done. -/
structure LsRun where
  count : ℕ
  trace : List LsEvent

section LocationService
variable (maxRetrans : ℤ) (dfTxcb : Bool) (waits : ℕ → Wait)

/-- A request that is sent when there is a callback, and what comes until its wait is over. -/
def lsRequest (n : ℕ) : List LsEvent :=
  (if dfTxcb then [.transmit] else []) ++ (waits n).replies

def lsPass (run : LsRun) : LsRun ⊕ LsRun :=
  let status := (waits run.count).wake
  let trace := run.trace ++ lsRequest dfTxcb waits run.count
  if (run.count + 1 : ℤ) < maxRetrans ∨ status ≠ .timeout then .inl ⟨run.count + 1, trace⟩
  else if status = .timeout then .inr ⟨run.count + 1, trace ++ [.purge, .remove]⟩
  else .inr ⟨run.count + 1, trace⟩

def locationServiceSync : ℕ → Option LsRun :=
  Loop.run (lsPass maxRetrans dfTxcb waits) ⟨0, [.insert]⟩

/-- What an event of a run for `key` does to the state, with the turns that the loop of the flush
makes. A reply has been received elsewhere. -/
def LsEvent.act (cfg : GnConfig) (key now turns : ℕ) (junk : UInt8) (core : Core) : LsEvent → Core
  | .insert => core.step cfg (.startLs key)
  | .transmit | .reply => core
  | .purge => core.step cfg (.queue (.flush ⟨lsQ, some key, true, now, turns, junk⟩))
  | .remove => core.step cfg (.remove (core.view key))

/-- The address has no packet that waits for it to be found, and no entry. -/
structure Core.Cleared (core : Core) (key : ℕ) : Prop where
  queue : ∀ q, lookup core.view (core.view key) core.queues.lsMapQueue = some q → q.queue = []
  entry : lookup core.view (core.view key) core.locTable = none

namespace LsRun

def TimesOut (run : LsRun) : Prop := ∀ i < run.count, (waits i).wake = .timeout

/-- The requests of a run are as many as they may be, there is none behind a reply, and a run whose
requests all time out clears what there is of the address, once. -/
structure Bounded (cfg : GnConfig) (key : ℕ) (run : LsRun) : Prop where
  transmits : 1 ≤ run.trace.count .transmit
  transmitsAtMost : (run.trace.count .transmit : ℤ) ≤ maxRetrans
  noneAfter : run.trace.Pairwise fun e e' => ¬ (e = .reply ∧ e' = .transmit)
  once : run.TimesOut waits → run.trace.count .purge = 1 ∧ run.trace.count .remove = 1
  clears : run.TimesOut waits → ∀ (core : Core) (now : ℕ) (junk : UInt8),
    Sorted core.view core.locTable → ∃ enough, ∀ turns, enough ≤ turns →
      (run.trace.foldl (LsEvent.act cfg key now turns junk) core).Cleared key

end LsRun

/-- A run of the location service comes to its end, and is bounded. -/
def LsBounded (cfg : GnConfig) (key : ℕ) : Prop :=
  ∃ run, Loop.Yields (locationServiceSync maxRetrans dfTxcb waits) run ∧
    run.Bounded maxRetrans waits cfg key

end LocationService

/-! ### The requests -/

section Run
variable {maxRetrans : ℤ} {dfTxcb : Bool} {waits : ℕ → Wait} {n fuel : ℕ} {run : LsRun}

def lsHistory (dfTxcb : Bool) (waits : ℕ → Wait) (n : ℕ) : List LsEvent :=
  .insert :: (List.range n).flatMap (lsRequest dfTxcb waits)

/-- The run that ends with the wait `n`. -/
def lsEnded (dfTxcb : Bool) (waits : ℕ → Wait) (n : ℕ) : LsRun :=
  ⟨n + 1, lsHistory dfTxcb waits (n + 1) ++ [.purge, .remove]⟩

theorem lsHistory_succ (dfTxcb : Bool) (waits : ℕ → Wait) (n : ℕ) :
    lsHistory dfTxcb waits (n + 1) = lsHistory dfTxcb waits n ++ lsRequest dfTxcb waits n := by
  rw [lsHistory, lsHistory, List.range_succ, List.flatMap_append, List.flatMap_singleton,
    List.cons_append]

theorem lsPass_goOn (h : (n + 1 : ℤ) < maxRetrans ∨ (waits n).wake ≠ .timeout) :
    lsPass maxRetrans dfTxcb waits ⟨n, lsHistory dfTxcb waits n⟩ =
      .inl ⟨n + 1, lsHistory dfTxcb waits (n + 1)⟩ := by
  rw [lsHistory_succ]
  exact if_pos h

theorem lsPass_end (hmax : maxRetrans ≤ n + 1) (hwake : (waits n).wake = .timeout) :
    lsPass maxRetrans dfTxcb waits ⟨n, lsHistory dfTxcb waits n⟩ =
      .inr (lsEnded dfTxcb waits n) := by
  have hdone : ¬ ((n + 1 : ℤ) < maxRetrans ∨ (waits n).wake ≠ .timeout) := by
    rintro (hlt | hne)
    · exact absurd hmax (not_le.mpr hlt)
    · exact hne hwake
  rw [lsEnded, lsHistory_succ]
  exact (if_neg hdone).trans (if_pos hwake)

/-- A run that has come to its end has done so with a wait that timed out, behind as many requests
as there may be at least. -/
theorem ended_of_run (h : Loop.run (lsPass maxRetrans dfTxcb waits)
    ⟨n, lsHistory dfTxcb waits n⟩ fuel = some run) :
    ∃ m, run = lsEnded dfTxcb waits m ∧ maxRetrans ≤ m + 1 ∧ (waits m).wake = .timeout := by
  induction fuel generalizing n with
  | zero => cases h
  | succ fuel ih =>
    rw [Loop.run] at h
    by_cases hgo : (n + 1 : ℤ) < maxRetrans ∨ (waits n).wake ≠ .timeout
    · rw [lsPass_goOn hgo] at h
      exact ih h
    · push Not at hgo
      rw [lsPass_end hgo.1 hgo.2] at h
      exact ⟨n, (Option.some.inj h).symm, hgo⟩

/-- A run whose last request times out ends with it. -/
theorem yields_ended (hlast : maxRetrans = n + 1) (hwake : (waits n).wake = .timeout) (k : ℕ)
    (hk : k ≤ n) : Loop.Yields (Loop.run (lsPass maxRetrans dfTxcb waits)
      ⟨k, lsHistory dfTxcb waits k⟩) (lsEnded dfTxcb waits n) := by
  induction hk using Nat.decreasingInduction with
  | self => exact Loop.yields_done (lsPass_end hlast.le hwake)
  | of_succ k hk ih => exact Loop.yields_pass (lsPass_goOn (.inl (by omega))) ih

theorem mem_lsRequest {e : LsEvent} : e ∈ lsRequest dfTxcb waits n ↔
    e = .transmit ∧ dfTxcb = true ∨ e = .reply ∧ (waits n).replied = true := by
  unfold lsRequest Wait.replies Wait.replied
  rw [List.mem_append, List.mem_append, Bool.or_eq_true, decide_eq_true_iff, and_or_left]
  refine or_congr ?_ (or_congr ?_ ?_) <;> split_ifs with h <;> simp [h]

theorem mem_lsHistory {e : LsEvent} : e ∈ lsHistory dfTxcb waits n ↔
    e = .insert ∨ ∃ i < n, e ∈ lsRequest dfTxcb waits i := by
  simp [lsHistory, List.mem_flatMap]

theorem count_lsRequest (e : LsEvent) (he : e ≠ .reply) : (lsRequest dfTxcb waits n).count e =
    if dfTxcb = true ∧ e = .transmit then 1 else 0 := by
  have hreplies : (waits n).replies.count e = 0 := by
    rw [List.count_eq_zero, Wait.replies, List.mem_append]
    rintro (h | h) <;> split_ifs at h <;> simp [he] at h
  rw [lsRequest, List.count_append, hreplies, Nat.add_zero]
  cases dfTxcb <;> cases e <;> rfl

theorem count_transmit_lsHistory :
    (lsHistory dfTxcb waits n).count .transmit = if dfTxcb then n else 0 := by
  induction n with
  | zero => cases dfTxcb <;> rfl
  | succ n ih =>
    rw [lsHistory_succ, List.count_append, ih, count_lsRequest _ (by decide)]
    cases dfTxcb <;> rfl

theorem count_lsHistory_eq_zero {e : LsEvent} (hins : e ≠ .insert) (htr : e ≠ .transmit)
    (hre : e ≠ .reply) : (lsHistory dfTxcb waits n).count e = 0 := by
  rw [List.count_eq_zero, mem_lsHistory]
  rintro (h | ⟨i, -, h⟩)
  · exact hins h
  · rcases mem_lsRequest.mp h with h | h
    · exact htr h.1
    · exact hre h.1

theorem count_transmit_ended :
    (lsEnded dfTxcb waits n).trace.count .transmit = if dfTxcb then n + 1 else 0 := by
  rw [lsEnded, List.count_append, count_transmit_lsHistory]
  rfl

theorem count_ended {e : LsEvent} (h : e = .purge ∨ e = .remove) :
    (lsEnded dfTxcb waits n).trace.count e = 1 := by
  rw [lsEnded, List.count_append]
  rcases h with rfl | rfl
  · rw [count_lsHistory_eq_zero (by decide) (by decide) (by decide)]
    rfl
  · rw [count_lsHistory_eq_zero (by decide) (by decide) (by decide)]
    rfl

/-- There is no request behind a reply when a reply has come to the last request at most. -/
theorem noneAfter_ended (hreplied : ∀ i < n, (waits i).replied = false) :
    (lsEnded dfTxcb waits n).trace.Pairwise fun e e' => ¬ (e = .reply ∧ e' = .transmit) := by
  have hbefore : ∀ e ∈ lsHistory dfTxcb waits n ++ (if dfTxcb then [LsEvent.transmit] else []),
      e ≠ .reply := by
    rintro e he rfl
    rcases List.mem_append.mp he with he | he
    · rcases mem_lsHistory.mp he with h | ⟨i, hi, h⟩
      · cases h
      · rcases mem_lsRequest.mp h with h | h
        · cases h.1
        · cases (hreplied i hi).symm.trans h.2
    · split_ifs at he <;> simp at he
  have hbehind : ∀ e ∈ (waits n).replies ++ [.purge, .remove], e ≠ LsEvent.transmit := by
    rintro e he rfl
    rcases List.mem_append.mp he with he | he
    · rw [Wait.replies] at he
      split_ifs at he <;> simp at he
    · simp at he
  rw [lsEnded, lsHistory_succ, lsRequest, ← List.append_assoc, List.append_assoc,
    List.pairwise_append]
  exact ⟨List.pairwise_of_forall_mem_list fun e he _ _ h => hbefore e he h.1,
    List.pairwise_of_forall_mem_list fun _ _ e' he' h => hbehind e' he' h.2,
    fun e he _ _ h => hbefore e he h.1⟩

theorem not_replied_of_noneAfter (h : (lsEnded true waits n).trace.Pairwise
    fun e e' => ¬ (e = .reply ∧ e' = .transmit)) {i : ℕ} (hi : i < n) :
    (waits i).replied = false := by
  rw [lsEnded, lsHistory_succ, List.pairwise_append, List.pairwise_append] at h
  refine Bool.eq_false_iff.mpr fun hreplied => h.1.2.2 .reply ?_ .transmit ?_ ⟨rfl, rfl⟩
  · exact mem_lsHistory.mpr (.inr ⟨i, hi, mem_lsRequest.mpr (.inr ⟨rfl, hreplied⟩)⟩)
  · exact mem_lsRequest.mpr (.inl ⟨rfl, rfl⟩)

end Run

/-! ### What is left of the address -/

section Clear
variable {cfg : GnConfig} {key now turns : ℕ} {junk : UInt8} {core : Core}

/-- The flush of a queue that is purged leaves nothing there when its loop may turn often enough. -/
theorem flush_purged {f : ℕ → ℕ} {queues : Queues} {q : AddressQueue}
    (hturns : ∀ q, lookup f (f key) queues.lsMapQueue = some q → q.queue.length ≤ turns)
    (h : lookup f (f key) (queues.flushQueueSync f
      ⟨lsQ, some key, true, now, turns, junk⟩).lsMapQueue = some q) : q.queue = [] := by
  have hls : (queues.flushQueueSync f ⟨lsQ, some key, true, now, turns, junk⟩).lsMapQueue =
      (flushMap f .ls (fun _ => true) turns key queues.lsMapQueue queues.log).1 := by
    cases hended : (flushMap f .ls (fun _ => true) turns key queues.lsMapQueue queues.log).2.2 <;>
      simp [Queues.flushQueueSync, Queues.flushUc, Queues.flushLs, Queues.flushBc, lsQ, ucQ, bcQ,
        hended]
  rw [hls, flushMap] at h
  cases hfound : lookup f (f key) queues.lsMapQueue with
  | none =>
    rw [hfound] at h
    cases hfound.symm.trans h
  | some q' =>
    simp only [hfound, lookup_modify_self, Option.map_some, Option.some_inj] at h
    subst h
    exact List.isEmpty_iff.mp ((drain_isEmpty _ _ _ _ _).mpr ⟨hturns q' hfound, fun _ _ => rfl⟩)

/-- Until a run ends it only keeps the request. -/
theorem foldl_lsHistory (dfTxcb : Bool) (waits : ℕ → Wait) (n : ℕ) :
    (lsHistory dfTxcb waits n).foldl (LsEvent.act cfg key now turns junk) core =
      core.step cfg (.startLs key) := by
  induction n with
  | zero => rfl
  | succ n ih =>
    rw [lsHistory_succ, List.foldl_append, ih]
    unfold lsRequest Wait.replies
    split_ifs <;> rfl

theorem cleared_ended (dfTxcb : Bool) (waits : ℕ → Wait) (n : ℕ)
    (hsorted : Sorted core.view core.locTable) : ∃ enough, ∀ turns, enough ≤ turns →
      ((lsEnded dfTxcb waits n).trace.foldl (LsEvent.act cfg key now turns junk) core).Cleared
        key := by
  refine ⟨(lookup core.view (core.view key) core.queues.lsMapQueue).elim 0 fun q =>
    q.queue.length, fun turns hturns => ?_⟩
  rw [lsEnded, List.foldl_append, foldl_lsHistory]
  refine ⟨fun q hq => flush_purged (fun q' hq' => ?_) hq, lookup_erase_self hsorted⟩
  change lookup core.view (core.view key) core.queues.lsMapQueue = some q' at hq'
  rwa [hq', Option.elim_some] at hturns

end Clear

/-! ### What a run keeps to -/

section Bounded
variable {cfg : GnConfig} {key : ℕ} {maxRetrans : ℤ} {dfTxcb : Bool} {waits : ℕ → Wait}

theorem LsBounded.of_ended {n : ℕ} (hmax : maxRetrans = n + 1) (hwake : (waits n).wake = .timeout)
    (hreplied : ∀ i < n, (waits i).replied = false) :
    LsBounded maxRetrans true waits cfg key := by
  have htransmits : (lsEnded true waits n).trace.count .transmit = n + 1 := count_transmit_ended
  refine ⟨lsEnded true waits n, yields_ended hmax hwake 0 (Nat.zero_le n), ?_, ?_,
    noneAfter_ended hreplied, ?_, ?_⟩
  · omega
  · omega
  · exact fun _ => ⟨count_ended (.inl rfl), count_ended (.inr rfl)⟩
  · exact fun _ core now junk hsorted => cleared_ended true waits n hsorted

theorem LsBounded.ended (h : LsBounded maxRetrans dfTxcb waits cfg key) :
    dfTxcb = true ∧ ∃ n : ℕ, maxRetrans = n + 1 ∧ (waits n).wake = .timeout ∧
      ∀ i < n, (waits i).replied = false := by
  obtain ⟨run, ⟨enough, hyields⟩, hbounded⟩ := h
  obtain ⟨n, rfl, hmax, hwake⟩ := ended_of_run (hyields enough le_rfl)
  have htransmits := hbounded.transmits
  have hatMost := hbounded.transmitsAtMost
  rw [count_transmit_ended] at htransmits hatMost
  cases dfTxcb with
  | false => exact absurd htransmits (Nat.not_succ_le_zero 0)
  | true =>
    refine ⟨rfl, n, le_antisymm hmax (by simpa using hatMost), hwake, fun i hi => ?_⟩
    exact not_replied_of_noneAfter hbounded.noneAfter hi

end Bounded

end Tulux.GeoNetRouter
