import Mathlib.Tactic

/-! Loops, a pass at a time. A pass goes on in another state or ends the loop with a result; a loop
that needs more passes than there is fuel has no result. -/
namespace Loop
variable {σ α ρ : Type*}

def run (pass : σ → σ ⊕ ρ) (s : σ) : ℕ → Option ρ
  | 0 => none
  | fuel + 1 =>
    match pass s with
    | .inl s => run pass s fuel
    | .inr r => some r

/-- With enough fuel the result is `r`. -/
def Yields (f : ℕ → Option ρ) (r : ρ) : Prop := ∃ enough, ∀ fuel, enough ≤ fuel → f fuel = some r

/-- No fuel is enough. -/
def Endless (f : ℕ → Option ρ) : Prop := ∀ fuel, f fuel = none

section Yields
variable {f : ℕ → Option ρ} {r r' : ρ}

theorem Yields.unique (h : Yields f r) (h' : Yields f r') : r = r' := by
  obtain ⟨n, hn⟩ := h
  obtain ⟨n', hn'⟩ := h'
  have hr := hn (max n n') (le_max_left n n')
  have hr' := hn' (max n n') (le_max_right n n')
  exact Option.some.inj (hr.symm.trans hr')

theorem Endless.not_yields (h : Endless f) : ¬ Yields f r := by
  rintro ⟨n, hn⟩
  simpa [h n] using hn n (le_refl n)

theorem yields_some (r : ρ) : Yields (fun _ => some r) r := ⟨0, fun _ _ => rfl⟩

theorem Yields.bind {f : ℕ → Option α} {g : α → ℕ → Option ρ} {a : α} (h : Yields f a)
    (h' : Yields (g a) r) : Yields (fun fuel => (f fuel).bind fun a => g a fuel) r := by
  obtain ⟨n, hn⟩ := h
  obtain ⟨n', hn'⟩ := h'
  refine ⟨max n n', fun fuel hfuel => ?_⟩
  dsimp only
  rw [hn fuel ((le_max_left n n').trans hfuel), Option.bind_some,
    hn' fuel ((le_max_right n n').trans hfuel)]

theorem Yields.bind_iff {f : ℕ → Option α} {g : α → ℕ → Option ρ} {a : α} (h : Yields f a) :
    Yields (fun fuel => (f fuel).bind fun a => g a fuel) r ↔ Yields (g a) r := by
  constructor
  · rintro ⟨n', hn'⟩
    obtain ⟨n, hn⟩ := h
    refine ⟨max n n', fun fuel hfuel => ?_⟩
    have hr := hn' fuel ((le_max_right n n').trans hfuel)
    simpa [hn fuel ((le_max_left n n').trans hfuel)] using hr
  · exact h.bind

theorem Yields.map {f : ℕ → Option α} {a : α} (h : Yields f a) (g : α → ρ) :
    Yields (fun fuel => (f fuel).map g) (g a) := by
  obtain ⟨n, hn⟩ := h
  exact ⟨n, fun fuel hfuel => by simp [hn fuel hfuel]⟩

theorem Endless.map {f : ℕ → Option α} (h : Endless f) (g : α → ρ) :
    Endless fun fuel => (f fuel).map g :=
  fun fuel => by simp [h fuel]

end Yields

section Run
variable {pass : σ → σ ⊕ ρ} {s s' : σ} {r : ρ}

theorem yields_done (h : pass s = .inr r) : Yields (run pass s) r := by
  refine ⟨1, fun fuel hfuel => ?_⟩
  obtain ⟨fuel, rfl⟩ : ∃ n, fuel = n + 1 := ⟨fuel - 1, by omega⟩
  rw [run, h]

theorem yields_pass (h : pass s = .inl s') (hr : Yields (run pass s') r) :
    Yields (run pass s) r := by
  obtain ⟨n, hn⟩ := hr
  refine ⟨n + 1, fun fuel hfuel => ?_⟩
  obtain ⟨fuel, rfl⟩ : ∃ n, fuel = n + 1 := ⟨fuel - 1, by omega⟩
  rw [run, h]
  exact hn fuel (by omega)

/-- A loop whose passes keep `inv` and lower `measure` ends, with a result that meets `post`. -/
theorem yields_of_invariant (pass : σ → σ ⊕ ρ) (inv : σ → Prop) (measure : σ → ℕ) (post : ρ → Prop)
    (go : ∀ s s', inv s → pass s = .inl s' → inv s' ∧ measure s' < measure s)
    (done : ∀ s r, inv s → pass s = .inr r → post r) {s : σ} (hs : inv s) :
    ∃ r, Yields (run pass s) r ∧ post r := by
  induction hm : measure s using Nat.strong_induction_on generalizing s with
  | _ m ih =>
    cases hp : pass s with
    | inl s' =>
      obtain ⟨hinv, hlt⟩ := go s s' hs hp
      obtain ⟨r, hr, hpost⟩ := ih (measure s') (hm ▸ hlt) hinv rfl
      exact ⟨r, yields_pass hp hr, hpost⟩
    | inr r => exact ⟨r, yields_done hp, done s r hs hp⟩

/-- A loop that goes on from every state of `inv` to another one does not end. -/
theorem endless_of_invariant (pass : σ → σ ⊕ ρ) (inv : σ → Prop)
    (go : ∀ s, inv s → ∃ s', pass s = .inl s' ∧ inv s') {s : σ} (hs : inv s) :
    Endless (run pass s) := by
  intro fuel
  induction fuel generalizing s with
  | zero => rfl
  | succ fuel ih =>
    obtain ⟨s', hp, hinv⟩ := go s hs
    rw [run, hp]
    exact ih hinv

end Run

end Loop
