import Mathlib.Data.List.Basic
import Mathlib.Tactic.SplitIfs

/-! A memory of cells some of which nothing has written yet. -/
namespace Cells
variable {α : Type*}

/-- The memory with a string at `a`. -/
def put (mem : ℕ → Option α) (a : ℕ) (s : List α) (i : ℕ) : Option α :=
  if a ≤ i then s[i - a]? <|> mem i else mem i

/-- The `n` cells at `a`. -/
def fetch (mem : ℕ → Option α) (a n : ℕ) : List (Option α) :=
  (List.range n).map fun i => mem (a + i)

/-- The string stands at `a`. -/
def Shows (mem : ℕ → Option α) (a : ℕ) (s : List α) : Prop :=
  ∀ i < s.length, mem (a + i) = s[i]?

/-- The string with `t` over what was at `a`. -/
def overwrite (s : List α) (a : ℕ) (t : List α) : List α :=
  s.take a ++ t ++ s.drop (a + t.length)

variable {mem mem' : ℕ → Option α} {a i n : ℕ} {s t : List α}

theorem put_before (h : i < a) : put mem a s i = mem i := if_neg (Nat.not_le.mpr h)

theorem put_behind (h : a + s.length ≤ i) : put mem a s i = mem i := by
  have hnone : s[i - a]? = none := List.getElem?_eq_none (by omega)
  rw [put, if_pos (by omega), hnone]
  rfl

theorem put_inside (h : i < s.length) : put mem a s (a + i) = s[i]? := by
  rw [put, if_pos (Nat.le_add_right a i), Nat.add_sub_cancel_left, List.getElem?_eq_getElem h]
  rfl

@[simp] theorem put_nil (mem : ℕ → Option α) (a : ℕ) : put mem a [] = mem :=
  funext fun i => by simp [put]

/-- Strings next to each other, whichever of them is put first. -/
theorem put_put (mem : ℕ → Option α) (a : ℕ) (s t : List α) :
    put (put mem a s) (a + s.length) t = put mem a (s ++ t) := by
  funext i
  rcases Nat.lt_or_ge i a with hi | hi
  · rw [put_before (by omega), put_before hi, put_before hi]
  obtain ⟨i, rfl⟩ := Nat.exists_eq_add_of_le hi
  rcases Nat.lt_or_ge i s.length with his | his
  · rw [put_before (by omega), put_inside his, put_inside (by rw [List.length_append]; omega),
      List.getElem?_append_left his]
  obtain ⟨i, rfl⟩ := Nat.exists_eq_add_of_le his
  rcases Nat.lt_or_ge i t.length with hit | hit
  · rw [← Nat.add_assoc, put_inside hit, Nat.add_assoc,
      put_inside (by rw [List.length_append]; omega), List.getElem?_append_right (by omega),
      Nat.add_sub_cancel_left]
  · rw [put_behind (by omega), put_behind (by omega),
      put_behind (by rw [List.length_append]; omega)]

theorem put_put_swap (mem : ℕ → Option α) (a : ℕ) (s t : List α) :
    put (put mem (a + s.length) t) a s = put mem a (s ++ t) := by
  rw [← put_put]
  funext i
  rcases Nat.lt_or_ge i (a + s.length) with hi | hi
  · rw [put_before hi]
    rcases Nat.lt_or_ge i a with hia | hia
    · rw [put_before hia, put_before hia, put_before hi]
    · obtain ⟨i, rfl⟩ := Nat.exists_eq_add_of_le hia
      rw [put_inside (by omega), put_inside (by omega)]
  · rw [put_behind hi]
    rcases Nat.lt_or_ge i (a + s.length + t.length) with hit | hit
    · obtain ⟨i, rfl⟩ := Nat.exists_eq_add_of_le hi
      rw [put_inside (by omega), put_inside (by omega)]
    · rw [put_behind hit, put_behind hit, put_behind hi]

@[simp] theorem length_fetch (mem : ℕ → Option α) (a n : ℕ) : (fetch mem a n).length = n := by
  simp [fetch]

/-- What is at an address is the string there. -/
theorem Shows.fetch (h : Shows mem a s) : fetch mem a s.length = s.map some := by
  refine List.ext_getElem (by simp) fun i hi _ => ?_
  have hlt : i < s.length := by simpa using hi
  simp [Cells.fetch, h i hlt, List.getElem?_eq_getElem hlt]

theorem Shows.congr (h : Shows mem a s)
    (hsame : ∀ i, a ≤ i → i < a + s.length → mem' i = mem i) : Shows mem' a s := fun i hi => by
  rw [hsame _ (Nat.le_add_right a i) (Nat.add_lt_add_left hi a), h i hi]

/-- A part of what stands there. -/
theorem Shows.part {r : List α} (h : Shows mem a (s ++ t ++ r)) : Shows mem (a + s.length) t := by
  intro i hi
  have hthere := h (s.length + i) (by simp only [List.length_append]; omega)
  rw [← Nat.add_assoc] at hthere
  rw [hthere, List.append_assoc, List.getElem?_append_right (Nat.le_add_right _ _),
    Nat.add_sub_cancel_left, List.getElem?_append_left hi]

theorem length_overwrite (h : a ≤ s.length) :
    (overwrite s a t).length = max s.length (a + t.length) := by
  simp only [overwrite, List.length_append, List.length_take, List.length_drop]
  omega

/-- A string that is put into another one, or over its end. -/
theorem Shows.put (h : Shows mem 0 s) (ha : a ≤ s.length) :
    Shows (Cells.put mem a t) 0 (overwrite s a t) := by
  intro i hi
  rw [length_overwrite ha] at hi
  rw [Nat.zero_add, overwrite]
  rcases Nat.lt_or_ge i a with hia | hia
  · have hold := h i (by omega)
    rw [Nat.zero_add] at hold
    rw [put_before hia, hold, List.append_assoc, List.getElem?_append_left (by simp; omega),
      List.getElem?_take_of_lt hia]
  have htake : (s.take a).length = a := List.length_take_of_le ha
  rw [List.append_assoc, List.getElem?_append_right (by omega), htake]
  rcases Nat.lt_or_ge (i - a) t.length with hit | hit
  · rw [List.getElem?_append_left hit]
    have hinside : Cells.put mem a t (a + (i - a)) = t[i - a]? := put_inside hit
    rwa [Nat.add_sub_cancel' hia] at hinside
  · have hold := h i (by omega)
    rw [Nat.zero_add] at hold
    rw [put_behind (by omega), hold, List.getElem?_append_right hit, List.getElem?_drop]
    congr 1
    omega

theorem overwrite_length (s t : List α) : overwrite s s.length t = s ++ t := by
  simp [overwrite]

end Cells
