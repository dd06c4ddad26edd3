import Mathlib.Data.List.Basic
import Mathlib.Tactic

/-! Queues stored in the cells of a circular store. A queue `q` occupies the cells
`start, start + 1, ...` modulo the capacity; block copies split at the end of the store. -/
namespace RingStore
variable {α : Type*}

/-- Overwrite the cells `off, off + 1, ...` by `src`. -/
def splice (cells : List α) (off : ℕ) (src : List α) : List α :=
  cells.take off ++ src ++ cells.drop (off + src.length)

theorem length_splice {cells src : List α} {off : ℕ} (h : off + src.length ≤ cells.length) :
    (splice cells off src).length = cells.length := by
  simp only [splice, List.length_append, List.length_take, List.length_drop]
  omega

/-- The cells up to the end of the overwritten part. -/
theorem take_splice {cells : List α} {off : ℕ} (h : off ≤ cells.length) (src : List α) :
    (splice cells off src).take (off + src.length) = cells.take off ++ src := by
  have hlen : (cells.take off ++ src).length = off + src.length := by
    rw [List.length_append, List.length_take, Nat.min_eq_left h]
  rw [splice, ← hlen, List.take_left]

/-- A block written at the start of equal cells leaves the rest of them. -/
theorem splice_replicate (n : ℕ) (a : α) (src : List α) :
    splice (List.replicate n a) 0 src = src ++ List.replicate (n - src.length) a := by
  simp [splice]

theorem splice_getElem? {cells src : List α} {off : ℕ} (h : off + src.length ≤ cells.length)
    (j : ℕ) : (splice cells off src)[j]? =
      if off ≤ j ∧ j < off + src.length then src[j - off]? else cells[j]? := by
  have htake : (cells.take off).length = off := by simp; omega
  unfold splice
  split_ifs with hj
  · rw [List.append_assoc, List.getElem?_append_right (by omega), htake,
      List.getElem?_append_left (by omega)]
  · rcases Nat.lt_or_ge j off with hlt | hge
    · rw [List.append_assoc, List.getElem?_append_left (by omega), List.getElem?_take_of_lt hlt]
    · have hlen : (cells.take off ++ src).length = off + src.length := by simp; omega
      rw [List.getElem?_append_right (by omega), hlen, List.getElem?_drop]
      congr 1
      omega

/-- The queue `q` lies in the cells from `start` on, modulo `cap`. -/
def Stored (cells : List α) (cap start : ℕ) (q : List α) : Prop :=
  ∀ i (h : i < q.length), cells[(start + i) % cap]? = some q[i]

theorem Stored.nil (cells : List α) (cap start : ℕ) : Stored cells cap start [] := by
  intro i h
  simp at h

/-- Indices that wrap at a multiple of the capacity address the same cells. -/
theorem stored_mod {cells q : List α} {cap start m : ℕ} (hm : cap ∣ m) :
    Stored cells cap (start % m) q ↔ Stored cells cap start q := by
  have hmod (i : ℕ) : (start % m + i) % cap = (start + i) % cap := by
    rw [Nat.add_mod, Nat.mod_mod_of_dvd _ hm, ← Nat.add_mod]
  simp only [Stored, hmod]

theorem Stored.drop {cells q : List α} {cap start : ℕ} (h : Stored cells cap start q) (n : ℕ) :
    Stored cells cap (start + n) (q.drop n) := by
  intro i hi
  have hlt : n + i < q.length := by simp at hi; omega
  rw [List.getElem_drop, Nat.add_assoc]
  exact h (n + i) hlt

private theorem mod_ne {cap a b : ℕ} (hab : a < b) (hb : b < a + cap) : a % cap ≠ b % cap := by
  intro he
  have hd : cap ∣ b - a := (Nat.modEq_iff_dvd' hab.le).mp he
  have := Nat.le_of_dvd (by omega) hd
  omega

/-- A write that fills exactly the cells behind the queue appends to the queue. -/
theorem Stored.append {cells cells' q src : List α} {cap start : ℕ}
    (h : Stored cells cap start q) (hcap : q.length + src.length ≤ cap)
    (hnew : Stored cells' cap (start + q.length) src)
    (hold : ∀ j, (∀ i < src.length, j ≠ (start + q.length + i) % cap) → cells'[j]? = cells[j]?) :
    Stored cells' cap start (q ++ src) := by
  intro i hi
  rcases Nat.lt_or_ge i q.length with hlt | hge
  · rw [List.getElem_append_left hlt, ← h i hlt]
    apply hold
    intro k hk
    exact mod_ne (by omega) (by omega)
  · have hs : i - q.length < src.length := by simp at hi; omega
    rw [List.getElem_append_right hge, ← hnew _ hs]
    congr 2
    omega

/-- A write to a cell outside the queue leaves it stored. -/
theorem Stored.set_of_ne {cells q : List α} {cap start j : ℕ} (h : Stored cells cap start q)
    (hj : ∀ i < q.length, j ≠ (start + i) % cap) (a : α) : Stored (cells.set j a) cap start q := by
  intro i hi
  rw [List.getElem?_set_ne (hj i hi)]
  exact h i hi

/-- A write to the cell behind the queue appends to it. -/
theorem Stored.set {cells q : List α} {cap start : ℕ} (h : Stored cells cap start q)
    (hcap : q.length < cap) (hl : cap ≤ cells.length) (a : α) :
    Stored (cells.set ((start + q.length) % cap) a) cap start (q ++ [a]) := by
  have hcell : (start + q.length) % cap < cells.length :=
    (Nat.mod_lt _ (Nat.zero_lt_of_lt hcap)).trans_le hl
  refine h.append hcap ?_ fun j hj => List.getElem?_set_ne (hj 0 Nat.one_pos).symm
  intro i hi
  obtain rfl : i = 0 := Nat.lt_one_iff.mp hi
  simp [hcell]

/-- No cell behind the queue is one of its own. -/
theorem cell_ne {cap start m i : ℕ} (hi : i < m) (hcap : m < cap) :
    (start + m) % cap ≠ (start + i) % cap := (mod_ne (by omega) (by omega)).symm

/-- The part of a block of `n` cells from `pos` on that fits before the end of the store. -/
def headPart (cap pos n : ℕ) : ℕ := min n (cap - pos)

/-- A block write from `pos` on, split at the end of the store. -/
def blockWrite (cells : List α) (cap pos : ℕ) (src : List α) : List α :=
  splice (splice cells pos (src.take (headPart cap pos src.length))) 0
    (src.drop (headPart cap pos src.length))

section Block
variable {cells src : List α} {cap pos : ℕ}

private theorem headPart_fits (hp : pos < cap) (hl : cap ≤ cells.length) :
    pos + (src.take (headPart cap pos src.length)).length ≤ cells.length := by
  simp only [List.length_take, headPart]
  omega

private theorem tailPart_fits (hp : pos < cap) (hl : cap ≤ cells.length)
    (hs : src.length ≤ cap) :
    0 + (src.drop (headPart cap pos src.length)).length ≤
      (splice cells pos (src.take (headPart cap pos src.length))).length := by
  rw [length_splice (headPart_fits hp hl)]
  simp only [List.length_drop, headPart]
  omega

theorem length_blockWrite (hp : pos < cap) (hl : cap ≤ cells.length) (hs : src.length ≤ cap) :
    (blockWrite cells cap pos src).length = cells.length := by
  unfold blockWrite
  rw [length_splice (tailPart_fits hp hl hs), length_splice (headPart_fits hp hl)]

theorem blockWrite_getElem? (hp : pos < cap) (hl : cap ≤ cells.length) (hs : src.length ≤ cap)
    (j : ℕ) : (blockWrite cells cap pos src)[j]? =
      if j < src.length - headPart cap pos src.length then
        src[headPart cap pos src.length + j]?
      else if pos ≤ j ∧ j < pos + headPart cap pos src.length then src[j - pos]?
      else cells[j]? := by
  have hk : headPart cap pos src.length ≤ src.length := Nat.min_le_left _ _
  unfold blockWrite
  rw [splice_getElem? (tailPart_fits hp hl hs), splice_getElem? (headPart_fits hp hl)]
  simp only [List.length_drop, List.length_take, Nat.zero_le, true_and, Nat.zero_add,
    Nat.sub_zero, Nat.min_eq_left hk, List.getElem?_drop]
  split_ifs with h₁ h₂
  · rfl
  · rw [List.getElem?_take_of_lt (by omega)]
  · rfl

theorem wrap_index (hp : pos < cap) {i n : ℕ} (hi : i < n) (hn : n ≤ cap) :
    (pos + i) % cap = if i < headPart cap pos n then pos + i else i - headPart cap pos n := by
  unfold headPart
  split_ifs with h
  · exact Nat.mod_eq_of_lt (by omega)
  · rw [Nat.mod_eq_sub_mod (by omega), Nat.mod_eq_of_lt (by omega)]
    omega

theorem blockWrite_stored (hp : pos < cap) (hl : cap ≤ cells.length) (hs : src.length ≤ cap) :
    Stored (blockWrite cells cap pos src) cap pos src := by
  intro i hi
  have hle : headPart cap pos src.length ≤ cap - pos := Nat.min_le_right _ _
  rw [wrap_index hp hi hs, blockWrite_getElem? hp hl hs]
  by_cases h : i < headPart cap pos src.length
  · rw [if_pos h, if_neg (by simp only [headPart] at *; omega), if_pos (by omega)]
    simp [hi]
  · rw [if_neg h, if_pos (by omega)]
    simp [show headPart cap pos src.length + (i - headPart cap pos src.length) = i by omega, hi]

theorem blockWrite_other (hp : pos < cap) (hl : cap ≤ cells.length) (hs : src.length ≤ cap)
    {j : ℕ} (hj : ∀ i < src.length, j ≠ (pos + i) % cap) :
    (blockWrite cells cap pos src)[j]? = cells[j]? := by
  rw [blockWrite_getElem? hp hl hs, if_neg, if_neg]
  · rintro ⟨h₁, h₂⟩
    have hk : headPart cap pos src.length ≤ src.length := Nat.min_le_left _ _
    apply hj (j - pos) (by omega)
    rw [wrap_index hp (by omega) hs, if_pos (by omega)]
    omega
  · intro h
    apply hj (headPart cap pos src.length + j) (by omega)
    rw [wrap_index hp (by omega) hs, if_neg (by omega)]
    omega

/-- Cells with the block in its place, and else as before, are those of the block write. -/
theorem eq_blockWrite {cells' : List α} (hp : pos < cap) (hl : cap ≤ cells.length)
    (hs : src.length ≤ cap) (hnew : Stored cells' cap pos src)
    (hold : ∀ j, (∀ i < src.length, j ≠ (pos + i) % cap) → cells'[j]? = cells[j]?) :
    cells' = blockWrite cells cap pos src := by
  refine List.ext_getElem? fun j => ?_
  by_cases hj : ∀ i < src.length, j ≠ (pos + i) % cap
  · rw [hold j hj, blockWrite_other hp hl hs hj]
  · push Not at hj
    obtain ⟨i, hi, rfl⟩ := hj
    rw [hnew i hi, blockWrite_stored hp hl hs i hi]

/-- A block write at the end of the queue appends the block. -/
theorem Stored.blockWrite {q : List α} {start : ℕ} (h : Stored cells cap start q)
    (hcap : 0 < cap) (hl : cap ≤ cells.length) (hroom : q.length + src.length ≤ cap) :
    Stored (blockWrite cells cap ((start + q.length) % cap) src) cap start (q ++ src) := by
  have hp : (start + q.length) % cap < cap := Nat.mod_lt _ hcap
  apply h.append hroom
  · exact (stored_mod (dvd_refl cap)).mp (blockWrite_stored hp hl (by omega))
  · intro j hj
    apply blockWrite_other hp hl (by omega)
    intro i hi
    rw [Nat.mod_add_mod]
    exact hj i hi

/-- A block read from `pos` on, split at the end of the store. -/
def blockRead (cells : List α) (cap pos n : ℕ) : List α :=
  (cells.drop pos).take (headPart cap pos n) ++ cells.take (n - headPart cap pos n)

/-- A block read at the start of the queue returns its first elements. -/
theorem Stored.blockRead {q : List α} {start n : ℕ} (h : Stored cells cap start q)
    (hcap : 0 < cap) (hl : cap ≤ cells.length) (hq : q.length ≤ cap) (hn : n ≤ q.length) :
    blockRead cells cap (start % cap) n = q.take n := by
  have hp : start % cap < cap := Nat.mod_lt _ hcap
  have hk : headPart cap (start % cap) n ≤ n := Nat.min_le_left _ _
  have hk' : headPart cap (start % cap) n ≤ cap - start % cap := Nat.min_le_right _ _
  have hfirst : ((cells.drop (start % cap)).take (headPart cap (start % cap) n)).length =
      headPart cap (start % cap) n := by
    simp only [List.length_take, List.length_drop]
    omega
  apply List.ext_getElem?
  intro i
  rcases Nat.lt_or_ge i n with hi | hi
  · have hcell : cells[(start + i) % cap]? = some q[i] := h i (by omega)
    rw [← Nat.mod_add_mod, wrap_index hp hi (by omega)] at hcell
    have hget : q[i]? = some q[i] := List.getElem?_eq_getElem (by omega)
    rw [List.getElem?_take_of_lt hi, hget, ← hcell]
    unfold RingStore.blockRead
    split_ifs with hlt
    · rw [List.getElem?_append_left (by omega), List.getElem?_take_of_lt hlt, List.getElem?_drop]
    · rw [List.getElem?_append_right (by omega), hfirst, List.getElem?_take_of_lt (by omega)]
  · rw [List.getElem?_eq_none, List.getElem?_eq_none]
    · simp; omega
    · unfold RingStore.blockRead
      rw [List.length_append, hfirst, List.length_take]
      omega

end Block
end RingStore
