import Mathlib.Data.List.Basic

/-! Runs of a step function over a list of inputs, and what holds in runs whose steps all meet a
condition on the state before them. -/
namespace GuardedRun
variable {σ ι : Type*} (step : σ → ι → σ)

/-- The state behind a run. -/
def final (s : σ) (inputs : List ι) : σ := inputs.foldl step s

/-- The inputs of a run, each with the state before it. -/
def trace : σ → List ι → List (σ × ι)
  | _, [] => []
  | s, input :: inputs => (s, input) :: trace (step s input) inputs

/-- Every step of a run meets the condition. -/
def Always (guard : σ → ι → Prop) (s : σ) (inputs : List ι) : Prop :=
  ∀ x ∈ trace step s inputs, guard x.1 x.2

instance (guard : σ → ι → Prop) [∀ s input, Decidable (guard s input)] (s : σ)
    (inputs : List ι) : Decidable (Always step guard s inputs) :=
  inferInstanceAs (Decidable (∀ x ∈ trace step s inputs, guard x.1 x.2))

@[simp] theorem final_nil (s : σ) : final step s [] = s := rfl

@[simp] theorem final_cons (s : σ) (input : ι) (inputs : List ι) :
    final step s (input :: inputs) = final step (step s input) inputs := rfl

theorem final_append (s : σ) (xs ys : List ι) :
    final step s (xs ++ ys) = final step (final step s xs) ys := List.foldl_append

variable {step} {guard guard' : σ → ι → Prop} {s : σ} {input : ι} {inputs xs ys : List ι}

@[simp] theorem always_nil : Always step guard s [] := fun _ hx => absurd hx List.not_mem_nil

@[simp] theorem always_cons : Always step guard s (input :: inputs) ↔
    guard s input ∧ Always step guard (step s input) inputs := List.forall_mem_cons

theorem always_append : Always step guard s (xs ++ ys) ↔
    Always step guard s xs ∧ Always step guard (final step s xs) ys := by
  induction xs generalizing s with
  | nil => simp
  | cons x xs ih => simp [ih, and_assoc]

theorem always_congr (h : ∀ s input, guard s input ↔ guard' s input) :
    Always step guard s inputs ↔ Always step guard' s inputs :=
  forall₂_congr fun x _ => h x.1 x.2

theorem Always.mono (h : ∀ s input, guard s input → guard' s input)
    (hrun : Always step guard s inputs) : Always step guard' s inputs :=
  fun x hx => h x.1 x.2 (hrun x hx)

section Invariant
variable {Inv : σ → Prop}
  (hstep : ∀ s input, Inv s → guard s input → Inv (step s input))
include hstep

/-- What every step keeps that meets the condition holds behind a run of such steps. -/
theorem Always.final (h : Inv s) (hrun : Always step guard s inputs) :
    Inv (final step s inputs) := by
  induction inputs generalizing s with
  | nil => exact h
  | cons input inputs ih =>
    obtain ⟨hguard, hrest⟩ := always_cons.mp hrun
    exact ih (hstep s input h hguard) hrest

/-- It holds in every state on the way. -/
theorem Always.reached (h : Inv s) (hrun : Always step guard s inputs) (hxs : xs <+: inputs) :
    Inv (GuardedRun.final step s xs) := by
  obtain ⟨ys, rfl⟩ := hxs
  exact (always_append.mp hrun).1.final hstep h

/-- Conditions that agree where an invariant holds, of runs that keep it, are met by the same runs. -/
theorem always_iff_always (hiff : ∀ s input, Inv s → (guard' s input ↔ guard s input)) (h : Inv s) :
    Always step guard' s inputs ↔ Always step guard s inputs := by
  induction inputs generalizing s with
  | nil => simp
  | cons input inputs ih =>
    rw [always_cons, always_cons, hiff s input h]
    exact and_congr_right fun hguard => ih (hstep s input h hguard)

end Invariant

/-- A property of every state that is reached, over the steps. -/
theorem forall_reached_iff {P : σ → Prop} : (∀ xs, xs <+: inputs → P (final step s xs)) ↔
    P s ∧ Always step (fun s input => P (step s input)) s inputs := by
  induction inputs generalizing s with
  | nil => simp
  | cons input inputs ih =>
    rw [always_cons, ← ih]
    constructor
    · intro h
      refine ⟨h [] List.nil_prefix, fun xs hxs => ?_⟩
      exact h (input :: xs) (List.cons_prefix_cons.mpr ⟨rfl, hxs⟩)
    · rintro ⟨hs, hrest⟩ xs hxs
      cases xs with
      | nil => exact hs
      | cons x xs =>
        obtain ⟨rfl, htail⟩ := List.cons_prefix_cons.mp hxs
        exact hrest xs htail

/-- Where one step keeps a property exactly under the condition, a run has it throughout exactly
when all its steps meet the condition. -/
theorem reached_iff_always {Inv P : σ → Prop} (hinv : ∀ s input, Inv s → Inv (step s input))
    (hstep : ∀ s input, Inv s → P s → (P (step s input) ↔ guard s input)) (hs : Inv s)
    (hP : P s) : (∀ xs, xs <+: inputs → P (final step s xs)) ↔ Always step guard s inputs := by
  rw [forall_reached_iff, and_iff_right hP]
  induction inputs generalizing s with
  | nil => simp
  | cons input inputs ih =>
    rw [always_cons, always_cons, hstep s input hs hP]
    refine and_congr_right fun hguard => ?_
    exact ih (hinv s input hs) ((hstep s input hs hP).mpr hguard)

/-- Where each step has a result that keeps the invariant, so has the run. -/
theorem foldlM_keeps {step : σ → ι → Option σ} {Inv : σ → Prop}
    (hstep : ∀ s, ∀ input ∈ inputs, Inv s → ∃ s', step s input = some s' ∧ Inv s') (h : Inv s) :
    ∃ s', inputs.foldlM step s = some s' ∧ Inv s' := by
  induction inputs generalizing s with
  | nil => exact ⟨s, rfl, h⟩
  | cons input inputs ih =>
    obtain ⟨s₁, hfirst, h₁⟩ := hstep s input List.mem_cons_self h
    obtain ⟨s', hrest, h'⟩ := ih (fun s i hi => hstep s i (List.mem_cons_of_mem input hi)) h₁
    refine ⟨s', ?_, h'⟩
    rw [List.foldlM_cons, hfirst]
    exact hrest

/-- Every input of a run of steps that may fail meets a condition on the state before it. -/
def AlwaysReached (step : σ → ι → Option σ) (guard : σ → ι → Prop) : σ → List ι → Prop
  | _, [] => True
  | s, input :: inputs =>
    guard s input ∧ ∀ s', step s input = some s' → AlwaysReached step guard s' inputs

/-- The run decides it. -/
def decidableAlwaysReached (step : σ → ι → Option σ) (guard : σ → ι → Prop)
    [∀ s input, Decidable (guard s input)] : (s : σ) → (inputs : List ι) →
      Decidable (AlwaysReached step guard s inputs)
  | _, [] => .isTrue trivial
  | s, input :: inputs =>
    match hstep : step s input with
    | none => decidable_of_iff (guard s input) (by simp [AlwaysReached, hstep])
    | some s' =>
      have := decidableAlwaysReached step guard s' inputs
      decidable_of_iff (guard s input ∧ AlwaysReached step guard s' inputs)
        (by simp [AlwaysReached, hstep])

instance (step : σ → ι → Option σ) (guard : σ → ι → Prop) [∀ s input, Decidable (guard s input)]
    (s : σ) (inputs : List ι) : Decidable (AlwaysReached step guard s inputs) :=
  decidableAlwaysReached step guard s inputs

/-- A run of steps that may fail comes to its end exactly when no step fails in a state that it
reaches. -/
theorem isSome_foldlM_iff {step : σ → ι → Option σ} {Inv : σ → Prop}
    (hstep : ∀ s input, Inv s → ((step s input).isSome ↔ guard s input))
    (hkeep : ∀ s input s', Inv s → step s input = some s' → Inv s') (h : Inv s) :
    (inputs.foldlM step s).isSome ↔ AlwaysReached step guard s inputs := by
  induction inputs generalizing s with
  | nil => exact iff_of_true rfl trivial
  | cons input inputs ih =>
    rw [List.foldlM_cons, AlwaysReached, ← hstep s input h]
    cases hresult : step s input with
    | none => simp
    | some s' =>
      have hrest := ih (hkeep s input s' h hresult)
      simpa using hrest

end GuardedRun
