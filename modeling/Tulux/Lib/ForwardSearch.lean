import Mathlib.Tactic

/-! Searching a list for a pattern without ever going back: where the pattern does not go on, the
search starts over behind what has matched. -/
namespace ForwardSearch
variable {α : Type*} [DecidableEq α]

/-- The length of the longest common prefix. -/
def prefixLen : List α → List α → ℕ
  | a :: p, b :: xs => if a = b then prefixLen p xs + 1 else 0
  | _, _ => 0

section PrefixLen
variable {p xs : List α}

theorem take_prefixLen (p xs : List α) : xs.take (prefixLen p xs) = p.take (prefixLen p xs) := by
  induction p, xs using prefixLen.induct with
  | case1 a p xs ih => simp [prefixLen, ih]
  | case2 a p b xs hne => simp [prefixLen, hne]
  | case3 p xs hne => simp [prefixLen]

theorem prefixLen_lt (h : ¬ p <+: xs) : prefixLen p xs < p.length := by
  induction p, xs using prefixLen.induct with
  | case1 a p xs ih => simpa [prefixLen] using ih (by simpa using h)
  | case2 a p b xs hne => simp [prefixLen, hne]
  | case3 p xs hne =>
    cases p with
    | nil => simp at h
    | cons a p => simp [prefixLen]

/-- Behind the longest common prefix the lists differ. -/
theorem getElem?_prefixLen (h : ¬ p <+: xs) : xs[prefixLen p xs]? ≠ p[prefixLen p xs]? := by
  induction p, xs using prefixLen.induct with
  | case1 a p xs ih => simpa [prefixLen] using ih (by simpa using h)
  | case2 a p b xs hne => simpa [prefixLen, hne] using Ne.symm hne
  | case3 p xs hne =>
    cases p with
    | nil => simp at h
    | cons a p =>
      cases xs with
      | nil => simp [prefixLen]
      | cons b xs => exact absurd rfl (hne a p b xs rfl)

theorem prefixLen_eq {m : ℕ} (hm : m < p.length) (htake : xs.take m = p.take m)
    (hne : xs[m]? ≠ p[m]?) : prefixLen p xs = m := by
  induction m generalizing p xs with
  | zero =>
    cases p with
    | nil => simp at hm
    | cons a p =>
      cases xs with
      | nil => rfl
      | cons b xs => simpa [prefixLen] using Ne.symm hne
  | succ m ih =>
    cases p with
    | nil => simp at hm
    | cons a p =>
      cases xs with
      | nil => simp at htake
      | cons b xs =>
        simp only [List.take_succ_cons, List.cons.injEq] at htake
        obtain ⟨rfl, htake⟩ := htake
        simpa [prefixLen] using ih (by simpa using hm) htake (by simpa using hne)

end PrefixLen

/-- What is left of `xs` where the search for `p` starts over: at first all of it, then what is
behind a part that the pattern did not get through, and behind one element at least. -/
inductive Cut (p xs : List α) : List α → Prop
  | start : Cut p xs xs
  | next {rest : List α} : Cut p xs rest → rest ≠ [] → ¬ p <+: rest →
      Cut p xs (rest.drop (max 1 (prefixLen p rest)))

/-- The pattern lies at one of the cuts. -/
def FoundAtCut (p xs : List α) : Prop := ∃ rest, Cut p xs rest ∧ p <+: rest

/-- What follows a prefix of `p` follows its borders, too. -/
def GoesOnAlike (p : List α) (bound : ℕ) : Prop :=
  ∀ k m, 0 < k → k < m → m < p.length → m - k + p.length ≤ bound →
    p.take k <:+ p.take m → p[k]? = p[m]?

section Cuts
variable {p xs rest : List α}

theorem Cut.suffix (h : Cut p xs rest) : rest <:+ xs := by
  induction h with
  | start => exact List.suffix_refl xs
  | next _ _ _ ih => exact (List.drop_suffix _ _).trans ih

theorem FoundAtCut.occurs (h : FoundAtCut p xs) : p <:+: xs := by
  obtain ⟨rest, hcut, hp⟩ := h
  exact hp.isInfix.trans hcut.suffix.isInfix

theorem Cut.trans {rest' : List α} (h : Cut p xs rest) (h' : Cut p rest rest') :
    Cut p xs rest' := by
  induction h' with
  | start => exact h
  | next _ hne hp ih => exact ih.next hne hp

/-- No later cut can hold a pattern that is longer than what is left. -/
theorem not_foundAtCut_of_short (h : xs.length < p.length) : ¬ FoundAtCut p xs :=
  fun hf => absurd hf.occurs.length_le (by omega)

/-- A later cut is a cut of what is left at the next one. -/
theorem Cut.start_or_next (h : Cut p xs rest) :
    rest = xs ∨ Cut p (xs.drop (max 1 (prefixLen p xs))) rest := by
  induction h with
  | start => exact Or.inl rfl
  | next _ hne hp ih =>
    rcases ih with rfl | ih
    · exact Or.inr .start
    · exact Or.inr (ih.next hne hp)

theorem foundAtCut_iff_next (hne : xs ≠ []) (hp : ¬ p <+: xs) :
    FoundAtCut p xs ↔ FoundAtCut p (xs.drop (max 1 (prefixLen p xs))) := by
  constructor
  · rintro ⟨rest, hcut, hpre⟩
    rcases hcut.start_or_next with rfl | hcut
    · exact absurd hpre hp
    · exact ⟨rest, hcut, hpre⟩
  · rintro ⟨rest, hcut, hpre⟩
    exact ⟨rest, (Cut.start.next hne hp).trans hcut, hpre⟩

theorem foundAtCut_of_prefix (h : p <+: xs) : FoundAtCut p xs := ⟨xs, .start, h⟩

end Cuts

/-! ### Patterns that are always found -/

section Always
variable {p xs : List α} {bound : ℕ}

/-- A partial match that reaches into an occurrence of a pattern that goes on alike goes on. -/
private theorem next_le (hp : GoesOnAlike p bound) {q : ℕ} (hb : q + p.length ≤ bound)
    (hocc : p <+: xs.drop q) (hq : 0 < q) (hno : ¬ p <+: xs) :
    max 1 (prefixLen p xs) ≤ q := by
  set m := prefixLen p xs with hm
  by_contra hlt
  have hmp : m < p.length := prefixLen_lt hno
  have htake : xs.take m = p.take m := take_prefixLen p xs
  have hdrop : (xs.drop q).take (m - q) = p.take (m - q) := by
    obtain ⟨post, hpost⟩ := hocc
    rw [← hpost, List.take_append_of_le_length (by omega)]
  have hborder : p.take (m - q) <:+ p.take m := by
    rw [← hdrop, ← htake, ← List.drop_take]
    exact List.drop_suffix q (xs.take m)
  have hnext : xs[m]? = p[m - q]? := by
    obtain ⟨post, hpost⟩ := hocc
    have hget : (xs.drop q)[m - q]? = p[m - q]? := by
      rw [← hpost, List.getElem?_append_left (by omega)]
    rwa [List.getElem?_drop, Nat.add_sub_cancel' (by omega)] at hget
  have halike := hp (m - q) m (by omega) (by omega) hmp (by omega) hborder
  exact getElem?_prefixLen hno (hnext.trans halike)

private theorem found_of_alike (hp : GoesOnAlike p bound) {q : ℕ} (hb : q + p.length ≤ bound)
    (hocc : p <+: xs.drop q) (hq : q ≤ xs.length) : FoundAtCut p xs := by
  induction hk : q using Nat.strong_induction_on generalizing q xs with
  | _ k ih =>
    by_cases hno : p <+: xs
    · exact foundAtCut_of_prefix hno
    · have hpos : 0 < q := by
        rcases Nat.eq_zero_or_pos q with rfl | hpos
        · exact absurd (by simpa using hocc) hno
        · exact hpos
      have hne : xs ≠ [] := by
        rintro rfl
        simp at hq
        omega
      have hle := next_le hp hb hocc hpos hno
      set n := max 1 (prefixLen p xs) with hn
      have hn1 : 1 ≤ n := le_max_left _ _
      rw [foundAtCut_iff_next hne hno]
      refine ih (q - n) (by omega) (by omega) ?_ ?_ rfl
      · rwa [List.drop_drop, Nat.add_sub_cancel' hle]
      · rw [List.length_drop]
        omega

/-- A list in which a pattern that does not go on alike occurs without being found. -/
theorem not_found_of_border {k m : ℕ} (hk : 0 < k) (hkm : k < m) (hm : m < p.length)
    (hborder : p.take k <:+ p.take m) (hne : p[k]? ≠ p[m]?) :
    ¬ FoundAtCut p (p.take (m - k) ++ p) := by
  set xs := p.take (m - k) ++ p with hxs
  have hlen : (p.take (m - k)).length = m - k := by
    rw [List.length_take]
    omega
  have hmk : m - k ≤ m := Nat.sub_le m k
  have htake : xs.take m = p.take m := by
    have hsplit := List.take_append_drop (m - k) (p.take m)
    have hback : (p.take m).drop (m - k) = p.take k := by
      have hd := List.suffix_iff_eq_drop.mp hborder
      rw [List.length_take, List.length_take] at hd
      rw [hd]
      congr 1
      omega
    rw [List.take_take, Nat.min_eq_left hmk, hback] at hsplit
    rw [hxs, List.take_append, hlen, List.take_take, Nat.min_eq_right hmk, ← hsplit]
    congr 2
    omega
  have hget : xs[m]? = p[k]? := by
    rw [hxs, List.getElem?_append_right (by omega), hlen]
    congr 1
    omega
  have hno : ¬ p <+: xs := by
    intro hp
    obtain ⟨post, hpost⟩ := hp
    refine hne ?_
    rw [← hget, ← hpost, List.getElem?_append_left hm]
  have hpre : prefixLen p xs = m := prefixLen_eq hm htake (by rwa [hget])
  have hnil : xs ≠ [] := by
    rw [hxs]
    exact List.append_ne_nil_of_right_ne_nil _ (List.ne_nil_of_length_pos (by omega))
  rw [foundAtCut_iff_next hnil hno, hpre, max_eq_right (by omega)]
  apply not_foundAtCut_of_short
  rw [List.length_drop, hxs, List.length_append, hlen]
  omega

/-- A pattern is found in every list that it occurs in exactly when it goes on alike. -/
theorem found_iff_goesOnAlike (p : List α) (bound : ℕ) :
    (∀ xs : List α, xs.length ≤ bound → p <:+: xs → FoundAtCut p xs) ↔ GoesOnAlike p bound := by
  constructor
  · intro hall k m hk hkm hm hb hborder
    by_contra hne
    refine not_found_of_border hk hkm hm hborder hne (hall _ ?_ ?_)
    · rw [List.length_append, List.length_take]
      omega
    · exact (List.suffix_append _ _).isInfix
  · rintro hp xs hb ⟨pre, post, rfl⟩
    have hocc : p <+: (pre ++ p ++ post).drop pre.length := by
      rw [List.append_assoc, List.drop_left]
      exact List.prefix_append p post
    refine found_of_alike hp ?_ hocc ?_
    · simp only [List.length_append] at hb
      omega
    · simp only [List.length_append]
      omega

end Always

end ForwardSearch
