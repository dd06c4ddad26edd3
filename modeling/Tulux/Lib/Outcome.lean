import Tulux.Lib.BitParser

/-! What a parser does to a view of its state when it succeeds, and how it fails. -/
namespace Outcome
open BitParser

variable {ε σ V α β : Type} {view : σ → V} {fails : ε → Prop} {p : EStateM ε σ α}
  {q : α → EStateM ε σ β}

/-- When `p` returns, the views before and after and the result are related by `R`; its errors are
in `fails`. -/
structure Tells (view : σ → V) (fails : ε → Prop) (p : EStateM ε σ α) (R : V → α → V → Prop) :
    Prop where
  ok : ∀ s a s', p s = .ok a s' → R (view s) a (view s')
  error : ∀ s e s', p s = .error e s' → fails e

/-- The view stays the same. -/
abbrev Preserves (view : σ → V) (fails : ε → Prop) (p : EStateM ε σ α) : Prop :=
  Tells view fails p fun v _ v' => v' = v

theorem bind_eq_ok {s s'' : σ} {b : β} :
    (p >>= q) s = .ok b s'' ↔ ∃ a s', p s = .ok a s' ∧ q a s' = .ok b s'' := by
  change EStateM.bind p q s = _ ↔ _
  rw [EStateM.bind]
  cases hp : p s with
  | ok a s' => simp
  | error e s' => simp

theorem bind_eq_error {s s'' : σ} {e : ε} : (p >>= q) s = .error e s'' ↔
    p s = .error e s'' ∨ ∃ a s', p s = .ok a s' ∧ q a s' = .error e s'' := by
  change EStateM.bind p q s = _ ↔ _
  rw [EStateM.bind]
  cases hp : p s with
  | ok a s' => simp
  | error e s' => simp

section Rules
variable {R R' : V → α → V → Prop} {S : V → β → V → Prop} {T : α → V → β → V → Prop}

theorem Tells.mono (h : Tells view fails p R) (hR : ∀ v a v', R v a v' → R' v a v') :
    Tells view fails p R' :=
  ⟨fun s a s' hs => hR _ _ _ (h.ok s a s' hs), h.error⟩

/-- A parser that does not fail. -/
theorem Tells.of_ok (h : ∀ s, ∃ a s', p s = .ok a s' ∧ R (view s) a (view s')) :
    Tells view fails p R := by
  refine ⟨fun s a s' hs => ?_, fun s e s' hs => ?_⟩
  · obtain ⟨a, s', ha, hR⟩ := h s
    rw [ha] at hs
    cases hs
    exact hR
  · obtain ⟨a, s', ha, -⟩ := h s
    rw [ha] at hs
    exact nomatch hs

theorem Tells.bind (hp : Tells view fails p R) (hq : ∀ a, Tells view fails (q a) (T a)) :
    Tells view fails (p >>= q) fun v b v'' => ∃ a v', R v a v' ∧ T a v' b v'' := by
  refine ⟨fun s b s'' h => ?_, fun s e s'' h => ?_⟩
  · obtain ⟨a, s', ha, hb⟩ := bind_eq_ok.mp h
    exact ⟨a, view s', hp.ok s a s' ha, (hq a).ok s' b s'' hb⟩
  · rcases bind_eq_error.mp h with he | ⟨a, s', -, he⟩
    · exact hp.error s e s'' he
    · exact (hq a).error s' e s'' he

/-- A step that preserves the view is passed over. -/
theorem Preserves.bind (hp : Preserves view fails p) (hq : ∀ a, Tells view fails (q a) S) :
    Tells view fails (p >>= q) S := by
  refine (Tells.bind hp hq).mono ?_
  rintro v b v'' ⟨a, _, rfl, hS⟩
  exact hS

theorem Tells.pure (a : α) :
    Tells view fails (pure a : EStateM ε σ α) fun v b v' => b = a ∧ v' = v :=
  .of_ok fun s => ⟨a, s, rfl, rfl, rfl⟩

theorem Preserves.pure (a : α) : Preserves view fails (pure a : EStateM ε σ α) :=
  (Tells.pure a).mono fun _ _ _ h => h.2

theorem Tells.throw {e : ε} (he : fails e) : Tells view fails (throw e : EStateM ε σ α) R :=
  ⟨fun _ _ _ h => (nomatch h), fun s e' s' h => by
    cases h
    exact he⟩

theorem Preserves.modify {f : σ → σ} (hf : ∀ s, view (f s) = view s) :
    Preserves view fails (modify f : EStateM ε σ PUnit) :=
  .of_ok fun s => ⟨_, f s, rfl, hf s⟩

theorem Preserves.optional {c : Prop} [Decidable c] {p : EStateM ε σ Unit}
    (hp : Preserves view fails p) : Preserves view fails (optional c p) := by
  unfold BitParser.optional
  split_ifs
  · exact hp
  · exact Preserves.pure ()

end Rules

/-! ### Parts that are returned when they are there -/

def optionally (c : Prop) [Decidable c] (p : EStateM ε σ α) : EStateM ε σ (Option α) :=
  if c then some <$> p else pure none

theorem Tells.optionally {c : Prop} [Decidable c] {R : V → α → V → Prop}
    (hp : Tells view fails p R) : Tells view fails (optionally c p) fun v o v' =>
      ¬ c ∧ o = none ∧ v' = v ∨ c ∧ ∃ a, o = some a ∧ R v a v' := by
  unfold Outcome.optionally
  split_ifs with hc
  · rw [map_eq_pure_bind]
    refine (hp.bind fun a => Tells.pure (some a)).mono ?_
    rintro v _ v' ⟨a, _, hR, rfl, rfl⟩
    exact Or.inr ⟨hc, a, rfl, hR⟩
  · refine (Tells.pure none).mono ?_
    rintro v _ v' ⟨rfl, rfl⟩
    exact Or.inl ⟨hc, rfl, rfl⟩

/-- Nothing is returned. -/
def forget (p : EStateM ε σ α) : EStateM ε σ Unit := p >>= fun _ => pure ()

theorem forget_bind : forget (p >>= q) = p >>= fun a => forget (q a) := by
  rw [forget, bind_assoc]
  rfl

/-- A result that is not used may be forgotten. -/
theorem bind_const (p : EStateM ε σ α) (r : EStateM ε σ β) :
    (p >>= fun _ => r) = (forget p >>= fun _ => r) := by
  rw [forget, bind_assoc]
  rfl

theorem bind_pure_forget (p : EStateM ε σ α) : (p >>= fun _ => pure ()) = forget p := rfl

@[simp] theorem forget_unit (p : EStateM ε σ Unit) : forget p = p := bind_pure_unit

@[simp] theorem forget_pure (a : α) : forget (pure a : EStateM ε σ α) = pure () := by
  rw [forget, pure_bind]

theorem forget_optionally (c : Prop) [Decidable c] (p : EStateM ε σ α) :
    forget (optionally c p) = optional c (forget p) := by
  unfold optionally BitParser.optional
  split_ifs
  · rw [forget, forget, bind_map_left]
  · rw [forget_pure]

end Outcome
