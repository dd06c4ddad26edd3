import Mathlib.Logic.Basic

/-! A thread that waits for a condition variable. A notification reaches only a thread that is
blocked, and a blocked thread may also wake by itself. -/

/-- Outside its wait, blocked, or woken and on its way back to the mutex. -/
inductive Waiter where
  | out
  | blocked
  | woken
  deriving DecidableEq, Repr

namespace Waiter

/-- `notify_all`, as one thread sees it. -/
def notify : Waiter → Waiter
  | .blocked => .woken
  | w => w

@[simp] theorem notify_out : notify .out = .out := rfl

@[simp] theorem notify_blocked : notify .blocked = .woken := rfl

@[simp] theorem notify_woken : notify .woken = .woken := rfl

@[simp] theorem notify_ne_blocked (w : Waiter) : w.notify ≠ .blocked := by
  cases w <;> simp

@[simp] theorem notify_eq_out {w : Waiter} : w.notify = .out ↔ w = .out := by
  cases w <;> simp

end Waiter
