import Mathlib.Data.List.Basic
import Mathlib.Tactic

/-! A line that is served first come, first served, and that some are served without joining. -/
namespace WaitingLine
variable {α : Type*}

/-- Two lists, each in its order, make up the third. -/
inductive Interleaves : List α → List α → List α → Prop
  | nil : Interleaves [] [] []
  | left {xs ys zs : List α} (a : α) : Interleaves xs ys zs → Interleaves (a :: xs) ys (a :: zs)
  | right {xs ys zs : List α} (a : α) : Interleaves xs ys zs → Interleaves xs (a :: ys) (a :: zs)

namespace Interleaves
variable {xs ys zs : List α}

theorem right_append (h : Interleaves xs ys zs) (as : List α) :
    Interleaves xs (as ++ ys) (as ++ zs) := by
  induction as with
  | nil => exact h
  | cons a as ih => exact ih.right a

/-- Every element comes from one of the two lists, as often as it is there. -/
theorem perm (h : Interleaves xs ys zs) : zs.Perm (xs ++ ys) := by
  induction h with
  | nil => rfl
  | left a _ ih => exact ih.cons a
  | right a _ ih => exact (ih.cons a).trans List.perm_middle.symm

end Interleaves

/-- Those served so far and those waiting, in order. -/
structure Line (α : Type*) where
  served : List α
  waiting : List α

/-- Somebody is served at once, somebody joins the line, or the first `n` in it are served. -/
inductive Move (α : Type*) where
  | pass (a : α)
  | join (a : α)
  | serve (n : ℕ)

def Move.passing : Move α → List α
  | .pass a => [a]
  | _ => []

def Move.joining : Move α → List α
  | .join a => [a]
  | _ => []

def Move.arriving (m : Move α) : List α := m.passing ++ m.joining

def Line.step (l : Line α) : Move α → Line α
  | .pass a => { l with served := l.served ++ [a] }
  | .join a => { l with waiting := l.waiting ++ [a] }
  | .serve n => ⟨l.served ++ l.waiting.take n, l.waiting.drop n⟩

def Line.run (l : Line α) (ms : List (Move α)) : Line α := ms.foldl Line.step l

/-- Nobody is served at once while others wait. -/
def Orderly : Line α → List (Move α) → Prop
  | _, [] => True
  | l, m :: ms => (m.passing ≠ [] → l.waiting = []) ∧ Orderly (l.step m) ms

/-- Those in line are served in order, and those who pass in order among them. -/
theorem run_order (l : Line α) (ms : List (Move α)) :
    ∃ new out, (l.run ms).served = l.served ++ new ∧
      l.waiting ++ ms.flatMap Move.joining = out ++ (l.run ms).waiting ∧
      Interleaves (ms.flatMap Move.passing) out new := by
  induction ms generalizing l with
  | nil => exact ⟨[], [], by simp [Line.run], by simp [Line.run], .nil⟩
  | cons m ms ih =>
    obtain ⟨new, out, hserved, hwait, hmix⟩ := ih (l.step m)
    have hrun : l.run (m :: ms) = (l.step m).run ms := rfl
    rw [hrun, hserved]
    cases m with
    | pass a => exact ⟨a :: new, out, by simp [Line.step], hwait, hmix.left a⟩
    | join a =>
      refine ⟨new, out, rfl, ?_, hmix⟩
      rw [← hwait]
      simp [Line.step, Move.joining]
    | serve n =>
      refine ⟨l.waiting.take n ++ new, l.waiting.take n ++ out, by simp [Line.step], ?_,
        hmix.right_append _⟩
      rw [List.append_assoc, ← hwait]
      simp [Line.step, Move.joining, ← List.append_assoc]

/-- In an orderly run all are served in the order they came. -/
theorem run_fifo {l : Line α} {ms : List (Move α)} (h : Orderly l ms) :
    (l.run ms).served ++ (l.run ms).waiting =
      l.served ++ l.waiting ++ ms.flatMap Move.arriving := by
  induction ms generalizing l with
  | nil => simp [Line.run]
  | cons m ms ih =>
    have hrun : l.run (m :: ms) = (l.step m).run ms := rfl
    rw [hrun, ih h.2]
    cases m with
    | pass a =>
      have hnone : l.waiting = [] := h.1 (by simp [Move.passing])
      simp [Line.step, Move.arriving, Move.passing, Move.joining, hnone]
    | join a => simp [Line.step, Move.arriving, Move.passing, Move.joining]
    | serve n => simp [Line.step, Move.arriving, Move.passing, Move.joining]

end WaitingLine
