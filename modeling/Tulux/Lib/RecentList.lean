import Mathlib.Data.Finset.Card
import Mathlib.Data.List.DropRight
import Mathlib.Tactic

/-! Lists of the values that were seen last, without repetitions and with a bound on their length.
-/
namespace RecentList
variable {α : Type*} {cap : ℕ} {a b : α} {xs ys seen : List α}

/-- A value is on the list, and behind it there are only values that were seen later. -/
def Behind (a : α) (seen xs : List α) : Prop :=
  ∃ pre post, xs = pre ++ a :: post ∧ post.Nodup ∧ a ∉ post ∧ post ⊆ seen

theorem Behind.mem (h : Behind a seen xs) : a ∈ xs := by
  obtain ⟨pre, post, rfl, -⟩ := h
  exact List.mem_append_right _ List.mem_cons_self

theorem Behind.mono (h : Behind a seen xs) (b : α) : Behind a (seen ++ [b]) xs := by
  obtain ⟨pre, post, hxs, hnodup, ha, hsub⟩ := h
  exact ⟨pre, post, hxs, hnodup, ha, List.subset_append_of_subset_left _ hsub⟩

variable [DecidableEq α]

/-- A new value goes to the end of the list; from a full list the oldest one is taken. -/
def record (cap : ℕ) (xs : List α) (a : α) : List α :=
  if a ∈ xs then xs else (if cap ≤ xs.length then xs.tail else xs) ++ [a]

theorem behind_record (h : a ∉ xs) : Behind a [] (record cap xs a) := by
  rw [record, if_neg h]
  exact ⟨_, [], rfl, List.nodup_nil, List.not_mem_nil, List.Subset.refl _⟩

/-- Values without repetitions are no more than those they are from. -/
theorem length_le_card (hnodup : ys.Nodup) (ha : a ∉ ys) (hsub : ys ⊆ seen) :
    ys.length ≤ (seen.toFinset.erase a).card := by
  rw [← List.toFinset_card_of_nodup hnodup]
  refine Finset.card_le_card fun y hy => ?_
  have hmem := List.mem_toFinset.mp hy
  refine Finset.mem_erase.mpr ⟨?_, List.mem_toFinset.mpr (hsub hmem)⟩
  rintro rfl
  exact ha hmem

/-- Of more values there are more others. -/
theorem card_erase_le (hsub : xs ⊆ ys) :
    (xs.toFinset.erase a).card ≤ (ys.toFinset.erase a).card := by
  refine Finset.card_le_card (Finset.erase_subset_erase a fun x hx => ?_)
  rw [List.mem_toFinset] at hx ⊢
  exact hsub hx

theorem Behind.record (h : Behind a seen xs)
    (hfew : ((seen ++ [b]).toFinset.erase a).card < cap) :
    Behind a (seen ++ [b]) (record cap xs b) := by
  rw [RecentList.record]
  split_ifs with hb hfull
  · exact h.mono b
  all_goals
    obtain ⟨pre, post, rfl, hnodup, ha, hsub⟩ := h
    have hbpost : b ∉ post := fun hmem =>
      hb (List.mem_append_right _ (List.mem_cons_of_mem _ hmem))
    have hba : a ≠ b := by
      rintro rfl
      exact hb (List.mem_append_right _ List.mem_cons_self)
    have hlater : (post ++ [b]).Nodup ∧ a ∉ post ++ [b] ∧ post ++ [b] ⊆ seen ++ [b] := by
      refine ⟨List.nodup_append_comm.mp (hnodup.cons hbpost), ?_, ?_⟩
      · simp [ha, hba]
      · exact List.append_subset.mpr ⟨List.subset_append_of_subset_left _ hsub,
          List.subset_append_right _ _⟩
  · cases pre with
    | nil =>
      -- the value itself would be taken, so too many others are behind it
      have hlength := length_le_card hlater.1 hlater.2.1 hlater.2.2
      rw [List.length_append, List.length_singleton] at hlength
      rw [List.nil_append, List.length_cons] at hfull
      omega
    | cons p pre =>
      exact ⟨pre, post ++ [b], by simp, hlater⟩
  · exact ⟨pre, post ++ [b], by simp, hlater⟩

/-- A new value stays on the list until as many others have been seen as the list has places. -/
theorem mem_foldl_record (h : a ∉ xs) (hfew : (ys.toFinset.erase a).card < cap) :
    a ∈ ys.foldl (record cap) (record cap xs a) := by
  have hbehind : Behind a ys (ys.foldl (record cap) (record cap xs a)) := by
    induction ys using List.reverseRecOn with
    | nil => exact behind_record h
    | append_singleton ys b ih =>
      rw [List.foldl_append]
      exact (ih ((card_erase_le (List.subset_append_left _ _)).trans_lt hfew)).record hfew
  exact hbehind.mem

/-! ### The last values of a history -/

/-- The last `cap` values of a history, each of them where it was seen last. -/
def recent (cap : ℕ) (seen : List α) : List α := seen.dedup.rtake cap

theorem nodup_recent (cap : ℕ) (seen : List α) : (recent cap seen).Nodup :=
  (List.nodup_dedup seen).sublist (List.drop_sublist _ _)

theorem length_recent_le (cap : ℕ) (seen : List α) : (recent cap seen).length ≤ cap := by
  unfold recent List.rtake
  rw [List.length_drop]
  omega

/-- A value that is seen again moves to the end. -/
theorem dedup_concat (seen : List α) (a : α) :
    (seen ++ [a]).dedup = seen.dedup.erase a ++ [a] := by
  induction seen with
  | nil => rfl
  | cons b seen ih =>
    rw [List.cons_append]
    by_cases hb : b ∈ seen
    · rw [List.dedup_cons_of_mem (List.mem_append_left _ hb), List.dedup_cons_of_mem hb, ih]
    · by_cases hba : b = a
      · subst hba
        have hnot : b ∉ seen.dedup := by rwa [List.mem_dedup]
        rw [List.dedup_cons_of_mem (by simp), List.dedup_cons_of_notMem hb, ih,
          List.erase_of_not_mem hnot, List.erase_cons_head]
      · have hnot : b ∉ seen ++ [a] := by simp [hb, hba]
        rw [List.dedup_cons_of_notMem hnot, List.dedup_cons_of_notMem hb, ih,
          List.erase_cons_tail (by simpa using hba), List.cons_append]

/-- A value that is not among the last ones becomes the last of them. -/
theorem record_recent (h : a ∉ recent (cap + 1) seen) :
    record (cap + 1) (recent (cap + 1) seen) a = recent (cap + 1) (seen ++ [a]) := by
  have hnew : recent (cap + 1) (seen ++ [a]) = (seen.dedup.erase a).rtake cap ++ [a] := by
    rw [recent, dedup_concat, List.rtake_concat_succ]
  rw [hnew, record, if_neg h]
  congr 1
  unfold recent List.rtake at *
  generalize seen.dedup = xs at *
  by_cases hfull : cap + 1 ≤ xs.length
  · -- what is taken away comes before the last values
    obtain ⟨old, last, rfl, hlast⟩ : ∃ old last, xs = old ++ last ∧ last.length = cap + 1 :=
      ⟨_, _, (List.take_append_drop (xs.length - (cap + 1)) xs).symm, by simp; omega⟩
    have hold (ys : List α) : (ys ++ last).drop ((ys ++ last).length - (cap + 1)) = last := by
      rw [List.length_append, hlast, Nat.add_sub_cancel, List.drop_left]
    have htail (ys : List α) : (ys ++ last).drop ((ys ++ last).length - cap) = last.tail := by
      rw [List.length_append, hlast, show ys.length + (cap + 1) - cap = ys.length + 1 by omega,
        ← List.drop_drop, List.drop_left, List.drop_one]
    rw [hold] at h ⊢
    rw [if_pos hlast.ge]
    by_cases ha : a ∈ old
    · rw [List.erase_append_left _ ha, htail]
    · rw [List.erase_append_right _ ha, List.erase_of_not_mem h, htail]
  · have hall (n : ℕ) (hn : xs.length ≤ n) : xs.drop (xs.length - n) = xs := by
      rw [Nat.sub_eq_zero_of_le hn, List.drop_zero]
    rw [hall (cap + 1) (by omega)] at h ⊢
    rw [if_neg hfull, List.erase_of_not_mem h, hall cap (by omega)]

end RecentList
