import Mathlib.Data.List.Basic

/-! Memory accesses by their extents in the object they are made to. -/

/-- `count` bytes from `start` on, of an object of `size` bytes. -/
structure Access where
  size : ℕ
  start : ℕ
  count : ℕ
  deriving DecidableEq, Repr

namespace Access

def Inside (a : Access) : Prop := a.start + a.count ≤ a.size

instance (a : Access) : Decidable a.Inside := inferInstanceAs (Decidable (_ ≤ _))

@[simp] theorem inside_mk (size start count : ℕ) :
    (Access.mk size start count).Inside ↔ start + count ≤ size := Iff.rfl

/-- The accesses of a call. -/
def AllInside (accesses : List Access) : Prop := ∀ a ∈ accesses, a.Inside

@[simp] theorem allInside_nil : AllInside [] := by simp [AllInside]

@[simp] theorem allInside_cons (a : Access) (accesses : List Access) :
    AllInside (a :: accesses) ↔ a.Inside ∧ AllInside accesses := List.forall_mem_cons

@[simp] theorem allInside_append (first later : List Access) :
    AllInside (first ++ later) ↔ AllInside first ∧ AllInside later := List.forall_mem_append

end Access
