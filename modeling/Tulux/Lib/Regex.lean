import Mathlib.Data.List.DropRight
import Mathlib.Tactic

/-! Regular expressions that are matched by backtracking, in the order of ECMAScript: what comes
later in an expression decides whether an earlier alternative, or a shorter repetition, is tried. -/
namespace Regex

/-- A place in a text: how many characters are in front of it, and the rest. -/
structure Place (α : Type*) where
  before : ℕ
  rest : List α

/-- `^`, `$`, one or more of a character, one expression behind another, and alternatives. -/
inductive Pattern (α : Type*) where
  | start
  | finish
  | many (c : α)
  | seq (p q : Pattern α)
  | alt (p q : Pattern α)

section Matching
variable {α : Type*} [DecidableEq α]

/-- A repetition takes one more character where what follows still matches behind that. -/
def runMany (c : α) (k : Place α → Option (Place α)) (before : ℕ) : List α → Option (Place α)
  | [] => none
  | x :: rest =>
    if x = c then (runMany c k (before + 1) rest).or (k ⟨before + 1, rest⟩) else none

namespace Pattern

/-- Matches at a place, and goes on with `k` behind the match. -/
def run : Pattern α → Place α → (Place α → Option (Place α)) → Option (Place α)
  | .start, s, k => if s.before = 0 then k s else none
  | .finish, s, k => if s.rest = [] then k s else none
  | .many c, s, k => runMany c k s.before s.rest
  | .seq p q, s, k => p.run s fun t => q.run t k
  | .alt p q, s, k => (p.run s k).or (q.run s k)

/-- Where a match at a place ends that is not empty. -/
def matchEnd (p : Pattern α) (s : Place α) : Option (Place α) :=
  p.run s fun t => if s.before < t.before then some t else none

end Pattern
end Matching

/-- A place behind another one, with what is between them left out. -/
def Ahead {α : Type*} (s t : Place α) : Prop :=
  ∃ n ≤ s.rest.length, t = ⟨s.before + n, s.rest.drop n⟩

section Ahead
variable {α : Type*} {s t u : Place α} {k : Place α → Option (Place α)}

theorem Ahead.refl (s : Place α) : Ahead s s := ⟨0, Nat.zero_le _, rfl⟩

theorem Ahead.trans (h : Ahead s t) (h' : Ahead t u) : Ahead s u := by
  obtain ⟨m, hm, rfl⟩ := h
  obtain ⟨n, hn, rfl⟩ := h'
  dsimp only at hn ⊢
  rw [List.length_drop] at hn
  exact ⟨m + n, by omega, by rw [List.drop_drop, Nat.add_assoc]⟩

variable [DecidableEq α]

theorem ahead_runMany {c : α} {before : ℕ} {rest : List α}
    (h : runMany c k before rest = some u) : ∃ t, Ahead ⟨before, rest⟩ t ∧ k t = some u := by
  induction rest generalizing before with
  | nil => cases h
  | cons x rest ih =>
    rw [runMany] at h
    split_ifs at h
    have hone : Ahead ⟨before, x :: rest⟩ ⟨before + 1, rest⟩ :=
      ⟨1, by simp, by simp⟩
    rcases Option.or_eq_some_iff.mp h with hlonger | ⟨-, hhere⟩
    · obtain ⟨t, ht, hk⟩ := ih hlonger
      exact ⟨t, hone.trans ht, hk⟩
    · exact ⟨_, hone, hhere⟩

/-- What comes behind a match goes on ahead of it. -/
theorem Pattern.ahead_run (p : Pattern α) (h : p.run s k = some u) :
    ∃ t, Ahead s t ∧ k t = some u := by
  induction p generalizing s k with
  | start =>
    rw [Pattern.run] at h
    split_ifs at h
    exact ⟨s, .refl s, h⟩
  | finish =>
    rw [Pattern.run] at h
    split_ifs at h
    exact ⟨s, .refl s, h⟩
  | many c => exact ahead_runMany h
  | seq p q ihp ihq =>
    obtain ⟨t, ht, hq⟩ := ihp h
    obtain ⟨t', ht', hk⟩ := ihq hq
    exact ⟨t', ht.trans ht', hk⟩
  | alt p q ihp ihq =>
    rcases Option.or_eq_some_iff.mp h with hp | ⟨-, hq⟩
    · exact ihp hp
    · exact ihq hq

theorem Pattern.matchEnd_shorter {p : Pattern α} (h : p.matchEnd s = some t) :
    t.rest.length < s.rest.length := by
  obtain ⟨u, ⟨n, hn, hu⟩, hk⟩ := p.ahead_run h
  split_ifs at hk with hlt
  obtain rfl := Option.some.inj hk
  rw [hu] at hlt ⊢
  dsimp only at hlt ⊢
  rw [List.length_drop]
  omega

end Ahead

/-! ### Removal -/

/-- The text from a place on without what matches. An empty match takes nothing away, and behind it
a match that is not empty is looked for at the same place. -/
def removeFrom {α : Type*} [DecidableEq α] (p : Pattern α) (s : Place α) : List α :=
  match _h : p.matchEnd s with
  | some t => removeFrom p t
  | none =>
    match _h : s.rest with
    | [] => []
    | x :: rest => x :: removeFrom p ⟨s.before + 1, rest⟩
termination_by s.rest.length
decreasing_by
  · exact Pattern.matchEnd_shorter _h
  · simp [_h]

/-- `regex_replace` of all matches by nothing. -/
def remove {α : Type*} [DecidableEq α] (p : Pattern α) (text : List α) : List α :=
  removeFrom p ⟨0, text⟩

section Remove
variable {α : Type*} [DecidableEq α] {p q : Pattern α} {s t : Place α} {x c : α} {rest : List α} {before : ℕ}

theorem removeFrom_match (h : p.matchEnd s = some t) : removeFrom p s = removeFrom p t := by
  rw [removeFrom]
  split
  · simp_all
  · simp_all

theorem removeFrom_nil (h : p.matchEnd ⟨before, []⟩ = none) :
    removeFrom p ⟨before, []⟩ = [] := by
  rw [removeFrom]
  split
  · simp_all
  · rfl

theorem removeFrom_cons (h : p.matchEnd ⟨before, x :: rest⟩ = none) :
    removeFrom p ⟨before, x :: rest⟩ = x :: removeFrom p ⟨before + 1, rest⟩ := by
  rw [removeFrom]
  split
  · simp_all
  · rfl

/-- Expressions that match alike behind the start of the text remove the same there. -/
theorem removeFrom_congr (h : ∀ s : Place α, 0 < s.before → p.matchEnd s = q.matchEnd s)
    (hs : 0 < s.before) : removeFrom p s = removeFrom q s := by
  induction hk : s.rest.length using Nat.strong_induction_on generalizing s with
  | _ n ih =>
    cases hmatch : q.matchEnd s with
    | some t =>
      have hpos : 0 < t.before := by
        obtain ⟨u, -, hu⟩ := q.ahead_run hmatch
        split_ifs at hu with hlt
        obtain rfl := Option.some.inj hu
        omega
      rw [removeFrom_match ((h s hs).trans hmatch), removeFrom_match hmatch]
      exact ih _ (hk ▸ Pattern.matchEnd_shorter hmatch) hpos rfl
    | none =>
      obtain ⟨before, rest⟩ := s
      cases rest with
      | nil => rw [removeFrom_nil ((h _ hs).trans hmatch), removeFrom_nil hmatch]
      | cons x rest =>
        rw [removeFrom_cons ((h _ hs).trans hmatch), removeFrom_cons hmatch]
        exact congrArg (x :: ·) (ih _ (hk ▸ Nat.lt_succ_self _) (Nat.succ_pos _) rfl)

/-! ### Trimming -/

/-- The characters `c` at the end of a text. -/
def trailing (c : α) : Pattern α := .seq (.many c) .finish

/-- The characters `c` at the start of a text. -/
def leading (c : α) : Pattern α := .seq .start (.many c)

theorem rdropWhile_cons (x : α) (rest : List α) :
    (x :: rest).rdropWhile (· = c) =
      if x = c ∧ ∀ y ∈ rest, y = c then [] else x :: rest.rdropWhile (· = c) := by
  induction rest using List.reverseRecOn with
  | nil => by_cases hx : x = c <;> simp [List.rdropWhile_singleton, hx]
  | append_singleton rest y ih =>
    rw [← List.cons_append, List.rdropWhile_concat, List.rdropWhile_concat, ih]
    by_cases hy : y = c
    · simp [hy, or_imp]
    · simp [hy]

/-- A repetition before the end of the text takes all the rest, or it does not match. -/
theorem runMany_finish (c : α) (k : Place α → Option (Place α)) (before : ℕ) (rest : List α) :
    runMany c (fun t => Pattern.finish.run t k) before rest =
      if rest ≠ [] ∧ ∀ y ∈ rest, y = c then k ⟨before + rest.length, []⟩ else none := by
  induction rest generalizing before with
  | nil => simp [runMany]
  | cons x rest ih =>
    rw [runMany, ih, Pattern.run]
    by_cases hx : x = c
    · cases rest with
      | nil => simp [hx]
      | cons y rest =>
        have hend : before + 1 + (y :: rest).length = before + (x :: y :: rest).length := by
          simp only [List.length_cons]
          omega
        rw [hend]
        simp [hx]
    · simp [hx]

theorem matchEnd_trailing (c : α) (before : ℕ) (rest : List α) :
    (trailing c).matchEnd ⟨before, rest⟩ =
      if rest ≠ [] ∧ ∀ y ∈ rest, y = c then some ⟨before + rest.length, []⟩ else none := by
  unfold Pattern.matchEnd trailing
  rw [Pattern.run, Pattern.run, runMany_finish]
  refine if_ctx_congr Iff.rfl (fun hall => ?_) fun _ => rfl
  exact if_pos (Nat.lt_add_of_pos_right (List.length_pos_iff.mpr hall.1))

/-- `regex_replace` of the characters at the end. -/
theorem removeFrom_trailing (c : α) (before : ℕ) (rest : List α) :
    removeFrom (trailing c) ⟨before, rest⟩ = rest.rdropWhile (· = c) := by
  have hnil (before : ℕ) : (trailing c).matchEnd ⟨before, []⟩ = none := by
    rw [matchEnd_trailing]
    simp
  induction rest generalizing before with
  | nil => rw [removeFrom_nil (hnil before), List.rdropWhile_nil]
  | cons x rest ih =>
    have hmatch := matchEnd_trailing c before (x :: rest)
    simp only [List.mem_cons, forall_eq_or_imp, ne_eq, reduceCtorEq, not_false_eq_true,
      true_and] at hmatch
    rw [rdropWhile_cons]
    split_ifs at hmatch ⊢ with hall
    · rw [removeFrom_match hmatch, removeFrom_nil (hnil _)]
    · rw [removeFrom_cons hmatch, ih]

theorem remove_trailing (c : α) (text : List α) :
    remove (trailing c) text = text.rdropWhile (· = c) := removeFrom_trailing c 0 text

/-- A repetition takes all it can where what follows matches anyway. -/
theorem runMany_greedy {k : Place α → Option (Place α)} {first : ℕ}
    (hk : ∀ t, first < t.before → k t = some t) (h : first ≤ before) :
    runMany c k before rest = if rest.head? = some c then
      some ⟨before + (rest.takeWhile (· = c)).length, rest.dropWhile (· = c)⟩ else none := by
  induction rest generalizing before with
  | nil => rfl
  | cons x rest ih =>
    rw [runMany, ih (by omega)]
    by_cases hx : x = c
    · have hhere : k ⟨before + 1, rest⟩ = some ⟨before + 1, rest⟩ := hk _ (Nat.lt_succ_of_le h)
      rw [hhere]
      cases rest with
      | nil => simp [hx]
      | cons y rest =>
        by_cases hy : y = c
        · simp [hx, hy, Nat.add_assoc, Nat.add_comm]
        · simp [hx, hy]
    · simp [hx]

theorem matchEnd_trim (c : α) (s : Place α) :
    (Pattern.alt (leading c) (trailing c)).matchEnd s =
      if s.before = 0 ∧ s.rest.head? = some c then
        some ⟨(s.rest.takeWhile (· = c)).length, s.rest.dropWhile (· = c)⟩
      else (trailing c).matchEnd s := by
  have hleading : (leading c).run s (fun t => if s.before < t.before then some t else none) =
      if s.before = 0 ∧ s.rest.head? = some c then
        some ⟨(s.rest.takeWhile (· = c)).length, s.rest.dropWhile (· = c)⟩ else none := by
    unfold leading
    rw [Pattern.run, Pattern.run]
    by_cases hstart : s.before = 0
    · rw [if_pos hstart, Pattern.run, runMany_greedy (fun t ht => if_pos ht) le_rfl, hstart]
      simp
    · simp [hstart]
  unfold Pattern.matchEnd
  rw [Pattern.run, hleading]
  split_ifs <;> rfl

/-- `regex_replace` of the characters at both ends. -/
theorem remove_trim (c : α) (text : List α) : remove (.alt (leading c) (trailing c)) text =
    (text.dropWhile (· = c)).rdropWhile (· = c) := by
  have hlater {before : ℕ} (hpos : 0 < before) (rest : List α) :
      removeFrom (.alt (leading c) (trailing c)) ⟨before, rest⟩ = rest.rdropWhile (· = c) := by
    rw [← removeFrom_trailing c before rest]
    refine removeFrom_congr (fun s hs => ?_) hpos
    rw [matchEnd_trim, if_neg (by omega)]
  unfold remove
  cases text with
  | nil =>
    rw [removeFrom_nil]
    · simp
    · rw [matchEnd_trim, matchEnd_trailing]
      simp
  | cons x rest =>
    have hmatch := matchEnd_trim c ⟨0, x :: rest⟩
    by_cases hx : x = c
    · have hpos : 0 < ((x :: rest).takeWhile (· = c)).length := by simp [hx]
      rw [if_pos ⟨rfl, by simp [hx]⟩] at hmatch
      rw [removeFrom_match hmatch, hlater hpos]
    · rw [if_neg (by simp [hx]), matchEnd_trailing, if_neg (by simp [hx])] at hmatch
      rw [removeFrom_cons hmatch, hlater (Nat.succ_pos 0), List.dropWhile_cons_of_neg (by simp [hx]),
        rdropWhile_cons, if_neg (by simp [hx])]

end Remove

end Regex
