import Mathlib.Data.Fintype.Basic
import Mathlib.Data.Finset.Card
import Mathlib.Data.List.TakeWhile
import Mathlib.Data.Prod.Lex
import Mathlib.Logic.Function.Basic
import Mathlib.Tactic.SplitIfs
import Tulux.Lib.GuardedRun

/-! The event loop of `ril_event.cpp`: timers, and the descriptors that it watches. -/
namespace Tulux.Libril

/-! ### Times -/

/-- `struct timeval` -/
structure Timeval where
  sec : ℕ
  usec : ℕ
  deriving DecidableEq

namespace Timeval

def key (t : Timeval) : ℕ ×ₗ ℕ := toLex (t.sec, t.usec)

theorem key_injective : Function.Injective key := by
  rintro ⟨s, u⟩ ⟨s', u'⟩ h
  obtain ⟨rfl, rfl⟩ := Prod.mk.inj (toLex.injective h)
  rfl

instance : LinearOrder Timeval := LinearOrder.lift' key key_injective

end Timeval

/-- `timercmp(a, b, <)` -/
def timercmp (a b : Timeval) : Bool :=
  if a.sec = b.sec then a.usec < b.usec else a.sec < b.sec

def timeradd (a b : Timeval) : Timeval :=
  if 1000000 ≤ a.usec + b.usec then ⟨a.sec + b.sec + 1, a.usec + b.usec - 1000000⟩
  else ⟨a.sec + b.sec, a.usec + b.usec⟩

/-- `timersub` of an earlier time. -/
def timersub (a b : Timeval) : Timeval :=
  if a.usec < b.usec then ⟨a.sec - b.sec - 1, a.usec + 1000000 - b.usec⟩
  else ⟨a.sec - b.sec, a.usec - b.usec⟩

theorem timercmp_iff {a b : Timeval} : timercmp a b ↔ a < b := by
  have hlt : a < b ↔ a.sec < b.sec ∨ a.sec = b.sec ∧ a.usec < b.usec :=
    Prod.Lex.lt_iff
  rw [hlt, timercmp]
  split_ifs with h
  · simp [h]
  · simp [h]

theorem le_timeradd (a b : Timeval) : a ≤ timeradd a b := by
  have hle {t : Timeval} : a ≤ t ↔ a.sec < t.sec ∨ a.sec = t.sec ∧ a.usec ≤ t.usec :=
    Prod.Lex.le_iff
  rw [hle, timeradd]
  split_ifs with h
  · dsimp only
    omega
  · dsimp only
    omega

/-! ### The loop -/

abbrev maxFdEvents : ℕ := 8

/-- A `ril_event` of a descriptor. -/
structure Watch where
  id : ℕ
  fd : ℕ
  persist : Bool
  deriving DecidableEq

/-- A `ril_event` of a timer. -/
structure Timer where
  id : ℕ
  timeout : Timeval
  deriving DecidableEq

inductive Fired where
  | timer (t : Timer)
  | ready (w : Watch)
  deriving DecidableEq

/-- Where the thread of the loop is: in `select`, or on its way through what `select` returned. -/
inductive LoopPc where
  | top
  | blocked (readFds : Finset ℕ) (timeout : Option Timeval)
  | timeouts (rfds : Finset ℕ)
  | readies (rfds : Finset ℕ)
  | firing

/-- The lists and the table, the clock, the events that were fired, and those that were added. -/
structure EventLoop where
  now : Timeval
  timerList : List Timer
  pendingList : List Fired
  watchTable : Fin maxFdEvents → Option Watch
  index : ℕ → Option (Fin maxFdEvents)
  readFds : Finset ℕ
  nfds : ℕ
  pc : LoopPc
  fired : List Fired
  timers : List Timer
  watches : List Watch

/-- What happens: time goes by, a timer is requested with an event of its own, events are added to
the table and deleted, and the loop takes a step with what the descriptors are ready for. -/
inductive LoopOp where
  | tick (t : Timeval)
  | requestTimedCallback (tv : Timeval)
  | eventAdd (w : Watch)
  | eventDel (w : Watch)
  | loop (ready : Option (Finset ℕ))

namespace EventLoop

def rilEventInit (now : Timeval) : EventLoop :=
  ⟨now, [], [], fun _ => none, fun _ => none, ∅, 0, .top, [], [], []⟩

/-- The list is kept sorted. -/
def insertTimer (ev : Timer) : List Timer → List Timer
  | [] => [ev]
  | t :: list => if timercmp t.timeout ev.timeout then t :: insertTimer ev list else ev :: t :: list

def rilTimerAdd (s : EventLoop) (id : ℕ) (tv : Timeval) : EventLoop :=
  let ev : Timer := ⟨id, timeradd s.now tv⟩
  { s with timerList := insertTimer ev s.timerList, timers := s.timers ++ [ev] }

def highestFd (watchTable : Fin maxFdEvents → Option Watch) : ℕ :=
  (List.finRange maxFdEvents).foldl (fun n i =>
    match watchTable i with
    | some rev => if n < rev.fd then rev.fd else n
    | none => n) 0

def removeWatch (s : EventLoop) (ev : Watch) (i : Fin maxFdEvents) : EventLoop :=
  let watchTable := Function.update s.watchTable i none
  { s with
    watchTable := watchTable
    index := Function.update s.index ev.id none
    readFds := s.readFds.erase ev.fd
    nfds := if ev.fd + 1 = s.nfds then highestFd watchTable + 1 else s.nfds }

/-- An event that finds no place in the table is dropped. -/
def rilEventAdd (s : EventLoop) (ev : Watch) : EventLoop :=
  match (List.finRange maxFdEvents).find? fun i => (s.watchTable i).isNone with
  | none => s
  | some i =>
    { s with
      watchTable := Function.update s.watchTable i (some ev)
      index := Function.update s.index ev.id (some i)
      readFds := insert ev.fd s.readFds
      nfds := if s.nfds ≤ ev.fd then ev.fd + 1 else s.nfds
      watches := s.watches ++ [ev] }

def rilEventDel (s : EventLoop) (ev : Watch) : EventLoop :=
  match s.index ev.id with
  | none => s
  | some i => s.removeWatch ev i

def calcNextTimeout (s : EventLoop) : Option Timeval :=
  match s.timerList with
  | [] => none
  | tev :: _ =>
    if timercmp s.now tev.timeout then some (timersub tev.timeout s.now) else some ⟨0, 0⟩

def processTimeouts (s : EventLoop) : EventLoop :=
  let expired (tev : Timer) := timercmp tev.timeout s.now
  { s with
    timerList := s.timerList.dropWhile expired
    pendingList := s.pendingList ++ (s.timerList.takeWhile expired).map .timer }

/-- The places of the table, until the `n` descriptors that are ready have been met. -/
def processReadReadies (s : EventLoop) (rfds : Finset ℕ) :
    List (Fin maxFdEvents) → ℕ → EventLoop
  | [], _ => s
  | i :: is, n =>
    if n = 0 then s
    else
      match s.watchTable i with
      | none => s.processReadReadies rfds is n
      | some rev =>
        if rev.fd ∈ rfds then
          let s := { s with pendingList := s.pendingList ++ [Fired.ready rev] }
          (if rev.persist then s else s.removeWatch rev i).processReadReadies rfds is (n - 1)
        else s.processReadReadies rfds is n

/-- A step of `ril_event_loop`; where `select` is interrupted, there is nothing ready. -/
def loopStep (s : EventLoop) (ready : Option (Finset ℕ)) : EventLoop :=
  match s.pc with
  | .top => { s with pc := .blocked s.readFds s.calcNextTimeout }
  | .blocked readFds _ =>
    match ready with
    | none => { s with pc := .top }
    | some ready => { s with pc := .timeouts (readFds ∩ ready) }
  | .timeouts rfds => { s.processTimeouts with pc := .readies rfds }
  | .readies rfds =>
    { s.processReadReadies rfds (List.finRange maxFdEvents) rfds.card with pc := .firing }
  | .firing =>
    match s.pendingList with
    | [] => { s with pc := .top }
    | ev :: rest => { s with pendingList := rest, fired := s.fired ++ [ev] }

def step (s : EventLoop) : LoopOp → EventLoop
  | .tick t => { s with now := timeradd s.now t }
  | .requestTimedCallback tv => s.rilTimerAdd s.timers.length tv
  | .eventAdd w => s.rilEventAdd w
  | .eventDel w => s.rilEventDel w
  | .loop ready => s.loopStep ready

def run (now : Timeval) (ops : List LoopOp) : EventLoop := ops.foldl step (rilEventInit now)

/-! ### Timers -/

end EventLoop

def Fired.timer? : Fired → Option Timer
  | .timer t => some t
  | .ready _ => none

namespace EventLoop
variable {s : EventLoop} {ev t : Timer} {list : List Timer}

theorem perm_insertTimer (ev : Timer) (list : List Timer) :
    (insertTimer ev list).Perm (ev :: list) := by
  induction list with
  | nil => exact .refl _
  | cons t list ih =>
    rw [insertTimer]
    split_ifs
    · exact (ih.cons t).trans (.swap ev t list)
    · exact .refl _

theorem mem_insertTimer : t ∈ insertTimer ev list ↔ t = ev ∨ t ∈ list := by
  rw [(perm_insertTimer ev list).mem_iff, List.mem_cons]

/-- Sorted by their times. -/
def InOrder (list : List Timer) : Prop := list.Pairwise fun t u => t.timeout ≤ u.timeout

theorem inOrder_insertTimer (ev : Timer) (h : InOrder list) : InOrder (insertTimer ev list) := by
  induction list with
  | nil => exact List.pairwise_singleton _ _
  | cons t list ih =>
    obtain ⟨hfirst, hrest⟩ := List.pairwise_cons.mp h
    rw [insertTimer]
    split_ifs with hcmp
    · have hbefore : t.timeout < ev.timeout := timercmp_iff.mp hcmp
      refine List.pairwise_cons.mpr ⟨fun u hu => ?_, ih hrest⟩
      rcases mem_insertTimer.mp hu with rfl | hu
      · exact hbefore.le
      · exact hfirst u hu
    · have hle : ev.timeout ≤ t.timeout := not_lt.mp fun hlt => hcmp (timercmp_iff.mpr hlt)
      refine List.pairwise_cons.mpr ⟨fun u hu => ?_, h⟩
      rcases List.mem_cons.mp hu with rfl | hu
      · exact hle
      · exact hle.trans (hfirst u hu)

/-- The timers that have expired, in the order in which they did. -/
def expired (s : EventLoop) : List Timer := (s.fired ++ s.pendingList).filterMap Fired.timer?

/-- What holds of the timers at any time. -/
structure TimersLaw (s : EventLoop) : Prop where
  once : (s.expired ++ s.timerList).Perm s.timers
  ids : s.timers.map Timer.id = List.range s.timers.length
  order : InOrder (s.expired ++ s.timerList)
  due : ∀ t ∈ s.expired, t.timeout < s.now

/-- Timers that have expired are not touched any more. -/
theorem TimersLaw.of_same {s' : EventLoop} (h : s.TimersLaw) (hexpired : s'.expired = s.expired)
    (hlist : s'.timerList = s.timerList) (htimers : s'.timers = s.timers) (hnow : s.now ≤ s'.now) :
    s'.TimersLaw := by
  obtain ⟨honce, hids, horder, hdue⟩ := h
  refine ⟨?_, ?_, ?_, ?_⟩
  · rwa [hexpired, hlist, htimers]
  · rwa [htimers]
  · rwa [hexpired, hlist]
  · rw [hexpired]
    exact fun t ht => (hdue t ht).trans_le hnow

theorem timersLaw_init (now : Timeval) : (rilEventInit now).TimersLaw :=
  ⟨.refl _, rfl, List.Pairwise.nil, fun _ ht => absurd ht List.not_mem_nil⟩

theorem TimersLaw.rilTimerAdd (h : s.TimersLaw) (tv : Timeval) :
    (s.rilTimerAdd s.timers.length tv).TimersLaw := by
  have horder := List.pairwise_append.mp h.order
  have hexpired : (s.rilTimerAdd s.timers.length tv).expired = s.expired := rfl
  refine ⟨?_, ?_, ?_, h.due⟩
  · rw [hexpired]
    have hinsert := perm_insertTimer ⟨s.timers.length, timeradd s.now tv⟩ s.timerList
    refine (List.Perm.append_left _ hinsert).trans (List.perm_middle.trans ?_)
    exact (h.once.cons _).trans (List.perm_append_singleton _ _).symm
  · simp [EventLoop.rilTimerAdd, h.ids, List.range_succ]
  · rw [hexpired]
    refine List.pairwise_append.mpr ⟨horder.1, inOrder_insertTimer _ horder.2.1, ?_⟩
    intro t ht u hu
    rcases mem_insertTimer.mp hu with rfl | hu
    · exact ((h.due t ht).trans_le (le_timeradd s.now tv)).le
    · exact horder.2.2 t ht u hu

theorem expired_processTimeouts : s.processTimeouts.expired =
    s.expired ++ s.timerList.takeWhile fun tev => timercmp tev.timeout s.now := by
  have hmap (list : List Timer) : (list.map Fired.timer).filterMap Fired.timer? = list := by
    simp [List.filterMap_map, Function.comp_def, Fired.timer?]
  simp [expired, processTimeouts, hmap]

theorem TimersLaw.processTimeouts (h : s.TimersLaw) : s.processTimeouts.TimersLaw := by
  have hsplit : s.processTimeouts.expired ++ s.processTimeouts.timerList =
      s.expired ++ s.timerList := by
    rw [expired_processTimeouts, List.append_assoc]
    exact congrArg (s.expired ++ ·) List.takeWhile_append_dropWhile
  refine ⟨?_, h.ids, ?_, ?_⟩
  · rw [hsplit]
    exact h.once
  · rw [hsplit]
    exact h.order
  · rw [expired_processTimeouts]
    intro t ht
    rcases List.mem_append.mp ht with ht | ht
    · exact h.due t ht
    · have hexpired : timercmp t.timeout s.now = true := by
        simpa using List.mem_takeWhile_imp ht
      exact timercmp_iff.mp hexpired

/-- No timer is left behind that should have expired. -/
theorem TimersLaw.not_overdue (h : s.TimersLaw) :
    ∀ t ∈ s.processTimeouts.timerList, s.now ≤ t.timeout := by
  have horder : InOrder s.timerList := (List.pairwise_append.mp h.order).2.1
  have hsuffix : s.processTimeouts.timerList <:+ s.timerList := List.dropWhile_suffix _
  have hrest : InOrder s.processTimeouts.timerList := horder.sublist hsuffix.sublist
  intro t ht
  cases hlist : s.processTimeouts.timerList with
  | nil => simp [hlist] at ht
  | cons first list =>
    have hfirst : s.now ≤ first.timeout := by
      have hhead := List.head?_dropWhile_not (fun tev : Timer => timercmp tev.timeout s.now) s.timerList
      have hdrop : s.timerList.dropWhile (fun tev => timercmp tev.timeout s.now) = first :: list := hlist
      rw [hdrop] at hhead
      exact not_lt.mp fun hlt => by simp [timercmp_iff.mpr hlt] at hhead
    rw [hlist] at ht hrest
    rcases List.mem_cons.mp ht with rfl | ht
    · exact hfirst
    · exact hfirst.trans ((List.pairwise_cons.mp hrest).1 t ht)

/-- What the table of descriptors leaves as it is. -/
structure SameTimers (s s' : EventLoop) : Prop where
  expired : s'.expired = s.expired
  timerList : s'.timerList = s.timerList
  timers : s'.timers = s.timers
  now : s'.now = s.now

theorem SameTimers.trans {s₁ s₂ : EventLoop} (h : s.SameTimers s₁) (h' : s₁.SameTimers s₂) :
    s.SameTimers s₂ :=
  ⟨h'.expired.trans h.expired, h'.timerList.trans h.timerList, h'.timers.trans h.timers,
    h'.now.trans h.now⟩

theorem sameTimers_removeWatch (s : EventLoop) (ev : Watch) (i : Fin maxFdEvents) :
    s.SameTimers (s.removeWatch ev i) := ⟨rfl, rfl, rfl, rfl⟩

theorem sameTimers_rilEventAdd (s : EventLoop) (ev : Watch) : s.SameTimers (s.rilEventAdd ev) := by
  unfold rilEventAdd
  split
  · exact ⟨rfl, rfl, rfl, rfl⟩
  · exact ⟨rfl, rfl, rfl, rfl⟩

theorem sameTimers_rilEventDel (s : EventLoop) (ev : Watch) : s.SameTimers (s.rilEventDel ev) := by
  unfold rilEventDel
  split
  · exact ⟨rfl, rfl, rfl, rfl⟩
  · exact s.sameTimers_removeWatch ev _

theorem sameTimers_ready (s : EventLoop) (rev : Watch) :
    s.SameTimers { s with pendingList := s.pendingList ++ [.ready rev] } :=
  ⟨by simp [expired, Fired.timer?], rfl, rfl, rfl⟩

theorem sameTimers_processReadReadies (rfds : Finset ℕ) (is : List (Fin maxFdEvents)) (n : ℕ)
    (s : EventLoop) : s.SameTimers (s.processReadReadies rfds is n) := by
  induction is generalizing s n with
  | nil => exact ⟨rfl, rfl, rfl, rfl⟩
  | cons i is ih =>
    unfold processReadReadies
    split_ifs
    · exact ⟨rfl, rfl, rfl, rfl⟩
    · cases s.watchTable i with
      | none => exact ih n s
      | some rev =>
        dsimp only
        split_ifs
        · exact (s.sameTimers_ready rev).trans (ih (n - 1) _)
        · exact ((s.sameTimers_ready rev).trans (sameTimers_removeWatch _ rev i)).trans (ih (n - 1) _)
        · exact ih n s

theorem TimersLaw.keep {s' : EventLoop} (h : s.TimersLaw) (hsame : s.SameTimers s') : s'.TimersLaw :=
  h.of_same hsame.expired hsame.timerList hsame.timers hsame.now.ge

theorem TimersLaw.loopStep (h : s.TimersLaw) (ready : Option (Finset ℕ)) :
    (s.loopStep ready).TimersLaw := by
  unfold EventLoop.loopStep
  cases s.pc with
  | top => exact h.keep ⟨rfl, rfl, rfl, rfl⟩
  | blocked readFds timeout =>
    cases ready with
    | none => exact h.keep ⟨rfl, rfl, rfl, rfl⟩
    | some ready => exact h.keep ⟨rfl, rfl, rfl, rfl⟩
  | timeouts rfds => exact h.processTimeouts.keep ⟨rfl, rfl, rfl, rfl⟩
  | readies rfds =>
    have hsame := sameTimers_processReadReadies rfds (List.finRange maxFdEvents) rfds.card s
    exact h.keep (hsame.trans ⟨rfl, rfl, rfl, rfl⟩)
  | firing =>
    dsimp only
    cases hpending : s.pendingList with
    | nil => exact h.keep ⟨by simp [expired, hpending], rfl, rfl, rfl⟩
    | cons ev rest => exact h.keep ⟨by simp [expired, hpending], rfl, rfl, rfl⟩

theorem TimersLaw.step (h : s.TimersLaw) (op : LoopOp) : (s.step op).TimersLaw := by
  cases op with
  | tick tv => exact h.of_same rfl rfl rfl (le_timeradd s.now tv)
  | requestTimedCallback tv => exact h.rilTimerAdd tv
  | eventAdd w => exact h.keep (s.sameTimers_rilEventAdd w)
  | eventDel w => exact h.keep (s.sameTimers_rilEventDel w)
  | loop ready => exact h.loopStep ready

theorem timersLaw_run (now : Timeval) (ops : List LoopOp) : (run now ops).TimersLaw := by
  have hrun (s : EventLoop) (h : s.TimersLaw) : (ops.foldl EventLoop.step s).TimersLaw := by
    induction ops generalizing s with
    | nil => exact h
    | cons op ops ih => exact ih _ (h.step op)
  exact hrun _ (timersLaw_init now)

/-- In every run each timer expires once, when its time has passed and in the order of the times, and
a pass leaves none behind. -/
theorem timers_in_turn (now : Timeval) (ops : List LoopOp) : (run now ops).TimersLaw ∧
    ∀ t ∈ (run now ops).processTimeouts.timerList, (run now ops).now ≤ t.timeout :=
  ⟨timersLaw_run now ops, (timersLaw_run now ops).not_overdue⟩

/-! ### Descriptors -/

section Highest
variable {table : Fin maxFdEvents → Option Watch} {i : Fin maxFdEvents} {w : Watch}

def higher (table : Fin maxFdEvents → Option Watch) (n : ℕ) (i : Fin maxFdEvents) : ℕ :=
  match table i with
  | some rev => if n < rev.fd then rev.fd else n
  | none => n

theorem le_higher (n : ℕ) (i : Fin maxFdEvents) : n ≤ higher table n i := by
  unfold higher
  split
  · split_ifs with h
    · exact h.le
    · exact le_rfl
  · exact le_rfl

theorem le_foldl_higher (n : ℕ) (is : List (Fin maxFdEvents)) : n ≤ is.foldl (higher table) n := by
  induction is generalizing n with
  | nil => exact le_rfl
  | cons i is ih => exact (le_higher n i).trans (ih _)

theorem fd_le_foldl (n : ℕ) (is : List (Fin maxFdEvents)) (hi : i ∈ is) (hw : table i = some w) :
    w.fd ≤ is.foldl (higher table) n := by
  induction is generalizing n with
  | nil => exact absurd hi List.not_mem_nil
  | cons j is ih =>
    rcases List.mem_cons.mp hi with rfl | hi
    · refine le_trans ?_ (le_foldl_higher _ is)
      simp only [higher, hw]
      split_ifs with h
      · exact le_rfl
      · exact not_lt.mp h
    · exact ih _ hi

theorem foldl_higher_reached (n : ℕ) (is : List (Fin maxFdEvents)) :
    is.foldl (higher table) n = n ∨
      ∃ i w, table i = some w ∧ w.fd = is.foldl (higher table) n := by
  induction is generalizing n with
  | nil => exact Or.inl rfl
  | cons j is ih =>
    rcases ih (higher table n j) with hsame | hreached
    · rw [List.foldl_cons, hsame]
      cases hj : table j with
      | none => exact Or.inl (by simp [higher, hj])
      | some rev =>
        by_cases h : n < rev.fd
        · exact Or.inr ⟨j, rev, hj, by simp [higher, hj, h]⟩
        · exact Or.inl (by simp [higher, hj, h])
    · exact Or.inr hreached

theorem fd_le_highestFd (hw : table i = some w) : w.fd ≤ highestFd table :=
  fd_le_foldl 0 _ (List.mem_finRange i) hw

theorem highestFd_reached : highestFd table = 0 ∨ ∃ i w, table i = some w ∧ w.fd = highestFd table :=
  foldl_higher_reached 0 _

end Highest

/-- Whether a descriptor's event is in the table. -/
def Watched (s : EventLoop) (w : Watch) : Prop := ∃ i, s.watchTable i = some w

instance (s : EventLoop) (w : Watch) : Decidable (s.Watched w) :=
  inferInstanceAs (Decidable (∃ i, s.watchTable i = some w))

end EventLoop

def Fired.ready? : Fired → Option Watch
  | .timer _ => none
  | .ready w => some w

namespace EventLoop
variable {s : EventLoop} {i : Fin maxFdEvents} {w v ev : Watch}

/-- The events whose descriptors were ready. -/
def readied (s : EventLoop) : List Watch := (s.fired ++ s.pendingList).filterMap Fired.ready?

/-- The table, the indices of the events in it, and what is given to `select`. -/
structure TableLaw (s : EventLoop) : Prop where
  indexed : ∀ i w, s.watchTable i = some w → s.index w.id = some i
  placed : ∀ id i, s.index id = some i → ∃ w, s.watchTable i = some w ∧ w.id = id
  apart : ∀ w v, s.Watched w → s.Watched v → w.fd = v.fd → w = v
  selected : ∀ fd, fd ∈ s.readFds ↔ ∃ w, s.Watched w ∧ w.fd = fd
  covered : ∀ w, s.Watched w → w.fd < s.nfds
  tight : 1 < s.nfds → ∃ w, s.Watched w ∧ w.fd + 1 = s.nfds

/-- An event that is not persistent is fired at most once for each time it was added. -/
structure WatchLaw (s : EventLoop) : Prop extends TableLaw s where
  once : ∀ w, w.persist = false →
    s.readied.count w + (if s.Watched w then 1 else 0) ≤ s.watches.count w

/-- An event is added when neither it nor its descriptor is in the table, and its fields stay as they
are while it is. -/
def Allowed (s : EventLoop) : LoopOp → Prop
  | .eventAdd w => ∀ i, ∀ v ∈ s.watchTable i, v.id ≠ w.id ∧ v.fd ≠ w.fd
  | .eventDel w => ∀ i, ∀ v ∈ s.watchTable i, v.id = w.id → v = w
  | _ => True

theorem watchLaw_init (now : Timeval) : (rilEventInit now).WatchLaw where
  indexed := nofun
  placed := nofun
  apart := by
    rintro w v ⟨i, hi⟩
    exact absurd hi (Option.some_ne_none w).symm
  selected := by
    intro fd
    refine iff_of_false (Finset.notMem_empty fd) ?_
    rintro ⟨w, ⟨i, hi⟩, -⟩
    exact absurd hi (Option.some_ne_none w).symm
  covered := by
    rintro w ⟨i, hi⟩
    exact absurd hi (Option.some_ne_none w).symm
  tight := fun h => absurd h (by simp [rilEventInit])
  once := by simp [rilEventInit, readied, Watched]

theorem TableLaw.watched_removeWatch (h : s.TableLaw) (hi : s.watchTable i = some ev) (w : Watch) :
    (s.removeWatch ev i).Watched w ↔ s.Watched w ∧ w ≠ ev := by
  constructor
  · rintro ⟨j, hj⟩
    simp only [removeWatch, Function.update_apply] at hj
    split_ifs at hj with hij
    refine ⟨⟨j, hj⟩, ?_⟩
    rintro rfl
    have hindex := (h.indexed j w hj).symm.trans (h.indexed i w hi)
    exact hij (Option.some.inj hindex)
  · rintro ⟨⟨j, hj⟩, hne⟩
    refine ⟨j, ?_⟩
    have hij : j ≠ i := by
      rintro rfl
      exact hne (Option.some.inj (hj.symm.trans hi))
    simp [removeWatch, hij, hj]

theorem TableLaw.removeWatch (h : s.TableLaw) (hi : s.watchTable i = some ev) :
    (s.removeWatch ev i).TableLaw := by
  have hwatched := h.watched_removeWatch hi
  have hev : s.Watched ev := ⟨i, hi⟩
  refine ⟨?_, ?_, ?_, ?_, ?_, ?_⟩
  · intro j w hj
    simp only [EventLoop.removeWatch, Function.update_apply] at hj ⊢
    split_ifs at hj with hij
    have hindex := h.indexed j w hj
    have hid : w.id ≠ ev.id := by
      intro hid
      rw [hid] at hindex
      exact hij (Option.some.inj (hindex.symm.trans (h.indexed i ev hi)))
    rw [if_neg hid, hindex]
  · intro id j hj
    simp only [EventLoop.removeWatch, Function.update_apply] at hj ⊢
    split_ifs at hj with hid
    obtain ⟨w, hw, hwid⟩ := h.placed id j hj
    have hij : j ≠ i := by
      rintro rfl
      obtain rfl := Option.some.inj (hw.symm.trans hi)
      exact hid hwid.symm
    exact ⟨w, by rw [if_neg hij, hw], hwid⟩
  · intro w v hw hv hfd
    exact h.apart w v ((hwatched w).mp hw).1 ((hwatched v).mp hv).1 hfd
  · intro fd
    simp only [EventLoop.removeWatch, Finset.mem_erase, h.selected fd]
    constructor
    · rintro ⟨hfd, w, hw, rfl⟩
      have hne : w ≠ ev := fun heq => hfd (heq ▸ rfl)
      exact ⟨w, (hwatched w).mpr ⟨hw, hne⟩, rfl⟩
    · rintro ⟨w, hw, rfl⟩
      obtain ⟨hold, hne⟩ := (hwatched w).mp hw
      exact ⟨fun hfd => hne (h.apart w ev hold hev hfd), w, hold, rfl⟩
  · intro w hw
    by_cases htop : ev.fd + 1 = s.nfds
    · obtain ⟨j, hj⟩ := hw
      simp only [EventLoop.removeWatch, if_pos htop]
      exact Nat.lt_succ_of_le (fd_le_highestFd hj)
    · simp only [EventLoop.removeWatch, if_neg htop]
      exact h.covered w ((hwatched w).mp hw).1
  · intro hlarge
    by_cases htop : ev.fd + 1 = s.nfds
    · simp only [EventLoop.removeWatch, if_pos htop] at hlarge ⊢
      have hcases := @highestFd_reached (Function.update s.watchTable i none)
      rcases hcases with hzero | hreached
      · omega
      · obtain ⟨j, w, hj, hfd⟩ := hreached
        exact ⟨w, ⟨j, hj⟩, by rw [hfd]⟩
    · simp only [EventLoop.removeWatch, if_neg htop] at hlarge ⊢
      obtain ⟨w, hw, hfd⟩ := h.tight hlarge
      have hne : w ≠ ev := fun heq => htop (heq ▸ hfd)
      exact ⟨w, (hwatched w).mpr ⟨hw, hne⟩, hfd⟩

theorem WatchLaw.removeWatch (h : s.WatchLaw) (hi : s.watchTable i = some ev) :
    (s.removeWatch ev i).WatchLaw := by
  refine ⟨h.toTableLaw.removeWatch hi, fun w hw => ?_⟩
  have honce := h.once w hw
  have hwatched := h.watched_removeWatch hi w
  have hreadied : (s.removeWatch ev i).readied = s.readied := rfl
  have hwatches : (s.removeWatch ev i).watches = s.watches := rfl
  rw [hreadied, hwatches]
  split_ifs at honce ⊢ with hafter hbefore hbefore
  · exact honce
  · exact absurd (hwatched.mp hafter).1 hbefore
  · omega
  · exact honce

theorem WatchLaw.rilEventDel (h : s.WatchLaw) (hallowed : s.Allowed (.eventDel ev)) :
    (s.rilEventDel ev).WatchLaw := by
  unfold EventLoop.rilEventDel
  cases hindex : s.index ev.id with
  | none => exact h
  | some i =>
    obtain ⟨w, hw, hid⟩ := h.placed ev.id i hindex
    obtain rfl := hallowed i w hw hid
    exact h.removeWatch hw

/-- A place of the table is taken. -/
def fill (s : EventLoop) (ev : Watch) (i : Fin maxFdEvents) : EventLoop :=
  { s with
    watchTable := Function.update s.watchTable i (some ev)
    index := Function.update s.index ev.id (some i)
    readFds := insert ev.fd s.readFds
    nfds := if s.nfds ≤ ev.fd then ev.fd + 1 else s.nfds
    watches := s.watches ++ [ev] }

theorem watched_fill (hi : s.watchTable i = none) (w : Watch) :
    (s.fill ev i).Watched w ↔ s.Watched w ∨ w = ev := by
  constructor
  · rintro ⟨j, hj⟩
    simp only [fill, Function.update_apply] at hj
    split_ifs at hj with hij
    · exact Or.inr (Option.some.inj hj).symm
    · exact Or.inl ⟨j, hj⟩
  · rintro (⟨j, hj⟩ | rfl)
    · have hij : j ≠ i := by
        rintro rfl
        exact absurd (hi.symm.trans hj) (Option.some_ne_none w).symm
      exact ⟨j, by simp [fill, hij, hj]⟩
    · exact ⟨i, by simp [fill]⟩

theorem WatchLaw.fill (h : s.WatchLaw) (hi : s.watchTable i = none)
    (hallowed : s.Allowed (.eventAdd ev)) : (s.fill ev i).WatchLaw := by
  have hwatched (w : Watch) : (s.fill ev i).Watched w ↔ s.Watched w ∨ w = ev :=
    watched_fill hi w
  have hapart (v : Watch) (hv : s.Watched v) : v.id ≠ ev.id ∧ v.fd ≠ ev.fd := by
    obtain ⟨j, hj⟩ := hv
    exact hallowed j v hj
  refine ⟨⟨?_, ?_, ?_, ?_, ?_, ?_⟩, ?_⟩
  · intro j w hj
    simp only [EventLoop.fill, Function.update_apply] at hj ⊢
    split_ifs at hj with hij
    · obtain rfl := Option.some.inj hj
      rw [if_pos rfl, hij]
    · rw [if_neg (hapart w ⟨j, hj⟩).1]
      exact h.indexed j w hj
  · intro id j hj
    simp only [EventLoop.fill, Function.update_apply] at hj ⊢
    split_ifs at hj with hid
    · obtain rfl := Option.some.inj hj
      exact ⟨ev, if_pos rfl, hid.symm⟩
    · obtain ⟨w, hw, hwid⟩ := h.placed id j hj
      have hij : j ≠ i := by
        rintro rfl
        exact absurd (hi.symm.trans hw) (Option.some_ne_none w).symm
      exact ⟨w, by rw [if_neg hij, hw], hwid⟩
  · intro w v hw hv hfd
    rcases (hwatched w).mp hw with hwOld | rfl
    · rcases (hwatched v).mp hv with hvOld | rfl
      · exact h.apart w v hwOld hvOld hfd
      · exact absurd hfd (hapart w hwOld).2
    · rcases (hwatched v).mp hv with hvOld | rfl
      · exact absurd hfd.symm (hapart v hvOld).2
      · rfl
  · intro fd
    simp only [EventLoop.fill, Finset.mem_insert, h.selected fd]
    constructor
    · rintro (rfl | ⟨w, hw, rfl⟩)
      · exact ⟨ev, (hwatched ev).mpr (Or.inr rfl), rfl⟩
      · exact ⟨w, (hwatched w).mpr (Or.inl hw), rfl⟩
    · rintro ⟨w, hw, rfl⟩
      rcases (hwatched w).mp hw with hw | rfl
      · exact Or.inr ⟨w, hw, rfl⟩
      · exact Or.inl rfl
  · intro w hw
    simp only [EventLoop.fill]
    rcases (hwatched w).mp hw with hw | rfl
    · have hcovered := h.covered w hw
      split_ifs <;> omega
    · split_ifs <;> omega
  · intro hlarge
    simp only [EventLoop.fill] at hlarge ⊢
    split_ifs at hlarge ⊢ with htop
    · exact ⟨ev, (hwatched ev).mpr (Or.inr rfl), rfl⟩
    · obtain ⟨w, hw, hfd⟩ := h.tight hlarge
      exact ⟨w, (hwatched w).mpr (Or.inl hw), hfd⟩
  · intro w hw
    have honce := h.once w hw
    have hreadied : (s.fill ev i).readied = s.readied := rfl
    have hwatches : (s.fill ev i).watches.count w = s.watches.count w + if ev = w then 1 else 0 := by
      simp [EventLoop.fill, List.count_append, List.count_singleton]
    rw [hreadied, hwatches]
    by_cases hev : ev = w
    · rw [if_pos hev]
      split_ifs at honce ⊢ <;> omega
    · have hsame : (s.fill ev i).Watched w ↔ s.Watched w := by
        rw [hwatched w, or_iff_left fun h => hev h.symm]
      rw [if_neg hev]
      simpa [hsame] using honce

theorem WatchLaw.rilEventAdd (h : s.WatchLaw) (hallowed : s.Allowed (.eventAdd ev)) :
    (s.rilEventAdd ev).WatchLaw := by
  unfold EventLoop.rilEventAdd
  cases hfind : (List.finRange maxFdEvents).find? fun i => (s.watchTable i).isNone with
  | none => exact h
  | some i =>
    have hi : s.watchTable i = none := by simpa using List.find?_some hfind
    exact h.fill hi hallowed

/-- What the timers leave as it is. -/
theorem WatchLaw.of_same {s' : EventLoop} (h : s.WatchLaw) (htable : s'.watchTable = s.watchTable)
    (hindex : s'.index = s.index) (hselect : s'.readFds = s.readFds ∧ s'.nfds = s.nfds)
    (hreadied : s'.readied = s.readied) (hwatches : s'.watches = s.watches) : s'.WatchLaw := by
  have hwatched (w : Watch) : s'.Watched w ↔ s.Watched w := by rw [Watched, htable, Watched]
  refine ⟨⟨?_, ?_, ?_, ?_, ?_, ?_⟩, ?_⟩
  · rw [htable, hindex]
    exact h.indexed
  · rw [htable, hindex]
    exact h.placed
  · simpa only [hwatched] using h.apart
  · simpa only [hwatched, hselect.1] using h.selected
  · simpa only [hwatched, hselect.2] using h.covered
  · simpa only [hwatched, hselect.2] using h.tight
  · intro w hw
    simpa only [hwatched, hreadied, hwatches] using h.once w hw

/-- An event whose descriptor is ready; one that is not persistent leaves the table. -/
theorem WatchLaw.ready {s' : EventLoop} (h : s.WatchLaw) (hi : s.watchTable i = some ev)
    (hs' : s' = { s with pendingList := s.pendingList ++ [Fired.ready ev] }) :
    (if ev.persist then s' else s'.removeWatch ev i).WatchLaw := by
  subst hs'
  set s' : EventLoop := { s with pendingList := s.pendingList ++ [Fired.ready ev] }
  have hreadied : s'.readied = s.readied ++ [ev] := by
    simp [s', readied, Fired.ready?]
  have htable : s'.TableLaw := ⟨h.indexed, h.placed, h.apart, h.selected, h.covered, h.tight⟩
  have hcount (w : Watch) : s'.readied.count w = s.readied.count w + if ev = w then 1 else 0 := by
    simp [hreadied, List.count_append, List.count_singleton]
  split_ifs with hpersist
  · refine ⟨htable, fun w hw => ?_⟩
    have hne : ev ≠ w := by
      rintro rfl
      exact absurd hpersist (by simp [hw])
    rw [hcount, if_neg hne]
    exact h.once w hw
  · refine ⟨htable.removeWatch hi, fun w hw => ?_⟩
    have honce := h.once w hw
    have hwatched := htable.watched_removeWatch hi w
    have hsame : (s'.removeWatch ev i).readied = s'.readied := rfl
    rw [hsame, hcount]
    by_cases hev : ev = w
    · subst hev
      have hbefore : s.Watched ev := ⟨i, hi⟩
      have hafter : ¬ (s'.removeWatch ev i).Watched ev := fun hw => (hwatched.mp hw).2 rfl
      rw [if_pos hbefore] at honce
      rw [if_pos rfl, if_neg hafter]
      exact honce
    · have hiff : (s'.removeWatch ev i).Watched w ↔ s.Watched w := by
        rw [hwatched, and_iff_left fun heq => hev heq.symm]
        rfl
      have hwatches : (s'.removeWatch ev i).watches = s.watches := rfl
      rw [if_neg hev, hwatches]
      simpa [hiff] using honce

theorem WatchLaw.processReadReadies (rfds : Finset ℕ) (is : List (Fin maxFdEvents)) (n : ℕ)
    (h : s.WatchLaw) : (s.processReadReadies rfds is n).WatchLaw := by
  induction is generalizing s n with
  | nil => exact h
  | cons i is ih =>
    unfold EventLoop.processReadReadies
    split_ifs
    · exact h
    · cases hi : s.watchTable i with
      | none => exact ih n h
      | some rev =>
        dsimp only
        by_cases hmem : rev.fd ∈ rfds
        · rw [if_pos hmem]
          exact ih (n - 1) (h.ready hi rfl)
        · rw [if_neg hmem]
          exact ih n h

theorem WatchLaw.loopStep (h : s.WatchLaw) (ready : Option (Finset ℕ)) :
    (s.loopStep ready).WatchLaw := by
  unfold EventLoop.loopStep
  cases s.pc with
  | top => exact h.of_same rfl rfl ⟨rfl, rfl⟩ rfl rfl
  | blocked readFds timeout =>
    cases ready with
    | none => exact h.of_same rfl rfl ⟨rfl, rfl⟩ rfl rfl
    | some ready => exact h.of_same rfl rfl ⟨rfl, rfl⟩ rfl rfl
  | timeouts rfds =>
    refine h.of_same rfl rfl ⟨rfl, rfl⟩ ?_ rfl
    simp [readied, processTimeouts, List.filterMap_map, Function.comp_def, Fired.ready?]
  | readies rfds =>
    have hall := h.processReadReadies rfds (List.finRange maxFdEvents) rfds.card
    exact hall.of_same rfl rfl ⟨rfl, rfl⟩ rfl rfl
  | firing =>
    dsimp only
    cases hpending : s.pendingList with
    | nil => exact h.of_same rfl rfl ⟨rfl, rfl⟩ (by simp [readied, hpending]) rfl
    | cons ev rest => exact h.of_same rfl rfl ⟨rfl, rfl⟩ (by simp [readied, hpending]) rfl

theorem WatchLaw.step (s : EventLoop) (op : LoopOp) (h : s.WatchLaw) (hallowed : s.Allowed op) :
    (s.step op).WatchLaw := by
  cases op with
  | tick tv => exact h.of_same rfl rfl ⟨rfl, rfl⟩ rfl rfl
  | requestTimedCallback tv => exact h.of_same rfl rfl ⟨rfl, rfl⟩ rfl rfl
  | eventAdd w => exact h.rilEventAdd hallowed
  | eventDel w => exact h.rilEventDel hallowed
  | loop ready => exact h.loopStep ready

/-- In every run the index of an event tells its place in the table, `select` is given exactly the
descriptors of the table and a bound above each of them, and an event that is not persistent is fired
at most once for each time it was added. -/
theorem table_selected (now : Timeval) (ops : List LoopOp)
    (hallowed : GuardedRun.Always step Allowed (rilEventInit now) ops) : (run now ops).WatchLaw :=
  hallowed.final WatchLaw.step (watchLaw_init now)

instance (s : EventLoop) (op : LoopOp) : Decidable (s.Allowed op) :=
  match op with
  | .eventAdd w => inferInstanceAs (Decidable (∀ i, ∀ v ∈ s.watchTable i, v.id ≠ w.id ∧ v.fd ≠ w.fd))
  | .eventDel w => inferInstanceAs (Decidable (∀ i, ∀ v ∈ s.watchTable i, v.id = w.id → v = w))
  | .tick _ => .isTrue trivial
  | .requestTimedCallback _ => .isTrue trivial
  | .loop _ => .isTrue trivial

/-- A socket that listens once, another one that stays, and the first one again. -/
def twoSockets : List LoopOp :=
  [.eventAdd ⟨0, 5, false⟩, .eventAdd ⟨1, 3, true⟩, .loop none, .loop (some {3, 5}), .loop none,
    .loop none, .loop none, .loop none, .eventDel ⟨1, 3, true⟩, .eventAdd ⟨0, 5, false⟩]

theorem table_selected_two : (run ⟨0, 0⟩ twoSockets).WatchLaw ∧
    (run ⟨0, 0⟩ twoSockets).fired = [.ready ⟨0, 5, false⟩, .ready ⟨1, 3, true⟩] ∧
    (run ⟨0, 0⟩ twoSockets).readFds = {5} ∧ (run ⟨0, 0⟩ twoSockets).nfds = 6 :=
  ⟨table_selected ⟨0, 0⟩ twoSockets (by decide), by decide, by decide, by decide⟩

end EventLoop

end Tulux.Libril
