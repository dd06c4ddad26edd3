import Mathlib.Tactic

/-! Scanners that cut a stream into frames. A scanner decides at the front of its input; what it
emits does not depend on how the stream is cut into chunks. A sender of whole frames may put fill
around them. -/
namespace Framing

/-- At the front of its input a scanner waits for more, or consumes at least one symbol and may
emit a frame. A decision is not revised when more input follows. -/
structure Scanner (α β : Type*) where
  next : List α → Option (ℕ × Option β)
  pos : ∀ {xs n o}, next xs = some (n, o) → 0 < n
  le : ∀ {xs n o}, next xs = some (n, o) → n ≤ xs.length
  stable : ∀ {xs r}, next xs = some r → ∀ ys, next (xs ++ ys) = some r

namespace Scanner
variable {α β : Type*} (S : Scanner α β)

theorem length_drop_lt {xs : List α} {n : ℕ} {o : Option β} (h : S.next xs = some (n, o)) :
    (xs.drop n).length < xs.length := by
  have hpos := S.pos h
  have hle := S.le h
  rw [List.length_drop]
  omega

/-- The frames emitted on an input, and the part of the input that waits. -/
def scan (xs : List α) : List β × List α :=
  match _h : S.next xs with
  | none => ([], xs)
  | some (n, o) =>
    let r := scan (xs.drop n)
    (o.toList ++ r.1, r.2)
termination_by xs.length
decreasing_by exact S.length_drop_lt ‹_›

/-- The inputs at whose front the scanner decides. -/
def visits (xs : List α) : List (List α) :=
  match _h : S.next xs with
  | none => [xs]
  | some (n, _) =>
    xs :: visits (xs.drop n)
termination_by xs.length
decreasing_by exact S.length_drop_lt ‹_›

variable {S} {xs : List α} {n : ℕ} {o : Option β}

theorem scan_wait (h : S.next xs = none) : S.scan xs = ([], xs) := by
  rw [scan]
  split
  · rfl
  · simp_all

theorem scan_step (h : S.next xs = some (n, o)) :
    S.scan xs = (o.toList ++ (S.scan (xs.drop n)).1, (S.scan (xs.drop n)).2) := by
  rw [scan]
  split
  · simp_all
  · rename_i heq
    rw [heq] at h
    cases h
    rfl

theorem visits_wait (h : S.next xs = none) : S.visits xs = [xs] := by
  rw [visits]
  split
  · rfl
  · simp_all

theorem visits_step (h : S.next xs = some (n, o)) :
    S.visits xs = xs :: S.visits (xs.drop n) := by
  rw [visits]
  split
  · simp_all
  · rename_i heq
    rw [heq] at h
    cases h
    rfl

theorem self_mem_visits (xs : List α) : xs ∈ S.visits xs := by
  cases h : S.next xs with
  | none => rw [visits_wait h, List.mem_singleton]
  | some r =>
    rw [visits_step h]
    exact List.mem_cons_self

theorem visits_suffix {s : List α} (h : s ∈ S.visits xs) : s <:+ xs := by
  induction hk : xs.length using Nat.strong_induction_on generalizing xs with
  | _ k ih =>
    cases hn : S.next xs with
    | none =>
      rw [visits_wait hn, List.mem_singleton] at h
      rw [h]
    | some r =>
      rw [visits_step hn] at h
      rcases List.mem_cons.mp h with rfl | h
      · exact List.suffix_refl s
      · exact (ih _ (hk ▸ S.length_drop_lt hn) h rfl).trans (List.drop_suffix _ _)

variable (S) in
/-- By some decisions the scanner passes from `xs` to `ys` and emits `fs`. -/
inductive Passes : List α → List β → List α → Prop
  | refl (xs : List α) : Passes xs [] xs
  | step {xs : List α} {n : ℕ} {o : Option β} {fs : List β} {ys : List α} :
      S.next xs = some (n, o) → Passes (xs.drop n) fs ys → Passes xs (o.toList ++ fs) ys

namespace Passes
variable {ys zs : List α} {fs gs : List β}

theorem single (h : S.next xs = some (n, o)) : S.Passes xs o.toList (xs.drop n) := by
  have hp := step h (refl (xs.drop n))
  rwa [List.append_nil] at hp

theorem trans (h : S.Passes xs fs ys) (h' : S.Passes ys gs zs) : S.Passes xs (fs ++ gs) zs := by
  induction h with
  | refl xs => exact h'
  | step hn _ ih =>
    rw [List.append_assoc]
    exact step hn (ih h')

/-- Decisions are not revised when more input follows. -/
theorem append (h : S.Passes xs fs ys) (zs : List α) : S.Passes (xs ++ zs) fs (ys ++ zs) := by
  induction h with
  | refl xs => exact refl (xs ++ zs)
  | step hn _ ih =>
    refine step (S.stable hn zs) ?_
    rwa [List.drop_append_of_le_length (S.le hn)]

theorem scan_eq (h : S.Passes xs fs ys) :
    S.scan xs = (fs ++ (S.scan ys).1, (S.scan ys).2) := by
  induction h with
  | refl xs => rfl
  | step hn _ ih => rw [scan_step hn, ih, List.append_assoc]

theorem mem_visits (h : S.Passes xs fs ys) {s : List α} (hs : s ∈ S.visits ys) :
    s ∈ S.visits xs := by
  induction h with
  | refl xs => exact hs
  | step hn _ ih =>
    rw [visits_step hn]
    exact List.mem_cons_of_mem _ (ih hs)

/-- Where the scanner emits, it does not pass without emitting. -/
theorem mem_visits_of_emits (h : S.Passes xs fs ys) (hfs : fs = []) {s : List α} {f : β}
    (hs : s ∈ S.visits xs) (hf : S.next s = some (n, some f)) : s ∈ S.visits ys := by
  induction h with
  | refl xs => exact hs
  | @step xs m o fs ys hn _ ih =>
    obtain ⟨ho, hfs⟩ := List.append_eq_nil_iff.mp hfs
    rw [visits_step hn] at hs
    rcases List.mem_cons.mp hs with rfl | hs
    · obtain ⟨-, rfl⟩ := Prod.mk.inj (Option.some.inj (hn.symm.trans hf))
      exact absurd ho (List.cons_ne_nil f [])
    · exact ih hfs hs

/-- A decision at the front of what has arrived of the input. -/
theorem emit (h : S.Passes xs fs (ys ++ zs)) (hn : S.next ys = some (n, o)) :
    S.Passes xs (fs ++ o.toList) (ys.drop n ++ zs) := by
  have hp := h.trans (single (S.stable hn zs))
  rwa [List.drop_append_of_le_length (S.le hn)] at hp

/-- Where the scanner waits at the end, it has emitted all. -/
theorem scan_of_wait (h : S.Passes xs fs ys) (hn : S.next ys = none) : S.scan xs = (fs, ys) := by
  rw [h.scan_eq, scan_wait hn, List.append_nil]

end Passes
end Scanner

/-! ### Arrivals -/

/-- A read of at most `n` symbols of what has arrived, piece by piece: the symbols and what is left. -/
def readSome {α : Type*} (n : ℕ) : List (List α) → List α × List (List α)
  | [] => ([], [])
  | piece :: rest =>
    (piece.take n, if piece.length ≤ n then rest else piece.drop n :: rest)

section Arrivals
variable {α : Type*} {n : ℕ} {pieces : List (List α)}

theorem readSome_flatten (n : ℕ) (pieces : List (List α)) :
    (readSome n pieces).1 ++ (readSome n pieces).2.flatten = pieces.flatten := by
  cases pieces with
  | nil => rfl
  | cons piece rest =>
    unfold readSome
    dsimp only
    split_ifs with hlen
    · rw [List.take_of_length_le hlen, List.flatten_cons]
    · rw [List.flatten_cons, ← List.append_assoc, List.take_append_drop, List.flatten_cons]

theorem length_readSome (n : ℕ) (pieces : List (List α)) : (readSome n pieces).1.length ≤ n := by
  cases pieces with
  | nil => exact Nat.zero_le n
  | cons piece rest => exact List.length_take_le n piece

/-- The pieces that are left have symbols too. -/
theorem readSome_nonempty (h : ∀ piece ∈ pieces, piece ≠ []) :
    ∀ piece ∈ (readSome n pieces).2, piece ≠ [] := by
  cases pieces with
  | nil => exact h
  | cons piece rest =>
    obtain ⟨-, hrest⟩ := List.forall_mem_cons.mp h
    unfold readSome
    dsimp only
    split_ifs with hlen
    · exact hrest
    · refine List.forall_mem_cons.mpr ⟨?_, hrest⟩
      rw [Ne, List.drop_eq_nil_iff]
      exact hlen

/-- A read returns nothing only when nothing has arrived. -/
theorem readSome_eq_nil_iff (h : ∀ piece ∈ pieces, piece ≠ []) (hn : 0 < n) :
    (readSome n pieces).1 = [] ↔ pieces = [] := by
  cases pieces with
  | nil => exact iff_of_true rfl rfl
  | cons piece rest =>
    refine iff_of_false ?_ (List.cons_ne_nil _ _)
    intro htake
    rcases List.take_eq_nil_iff.mp htake with hzero | hnil
    · exact hn.ne' hzero
    · exact h piece List.mem_cons_self hnil

end Arrivals

/-! ### Fill -/

/-- The stream is the frames, each whole and in order, with fill before, between or after them. -/
inductive Padded {α : Type*} (fill : α) : List (List α) → List α → Prop
  | nil : Padded fill [] []
  | fill {fs : List (List α)} {xs : List α} : Padded fill fs xs → Padded fill fs (fill :: xs)
  | frame {fs : List (List α)} {xs : List α} (f : List α) :
      Padded fill fs xs → Padded fill (f :: fs) (f ++ xs)

namespace Padded
variable {α : Type*} {fill : α} {fs gs : List (List α)} {xs ys : List α}

theorem append (h : Padded fill fs xs) (h' : Padded fill gs ys) :
    Padded fill (fs ++ gs) (xs ++ ys) := by
  induction h with
  | nil => exact h'
  | fill _ ih => exact ih.fill
  | frame f _ ih => simpa using ih.frame f

theorem replicate (fill : α) (n : ℕ) : Padded fill [] (List.replicate n fill) := by
  induction n with
  | zero => exact .nil
  | succ n ih => exact ih.fill

theorem single (fill : α) (f : List α) : Padded fill [f] f := by
  have h : Padded fill [] [] := .nil
  simpa using h.frame f

/-- Fill behind the last frame. -/
theorem pad (h : Padded fill fs xs) (n : ℕ) : Padded fill fs (xs ++ List.replicate n fill) := by
  simpa using h.append (replicate fill n)

/-- One more frame behind the others. -/
theorem snoc (h : Padded fill fs xs) (f : List α) : Padded fill (fs ++ [f]) (xs ++ f) :=
  h.append (single fill f)

end Padded
end Framing
