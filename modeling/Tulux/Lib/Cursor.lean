import Tulux.Lib.Outcome

/-! Parsers that move a cursor by what the stream says. `At pos st` says that the state `st` is at the
position `pos` of the stream. -/
namespace Cursor
open BitParser Outcome

variable {ε σ α β : Type} {At : ℕ → σ → Prop}

/-- Where it returns, the parser returns `val pos` and moves by `size pos`. -/
def Spans (At : ℕ → σ → Prop) (p : EStateM ε σ α) (val : ℕ → α) (size : ℕ → ℕ) : Prop :=
  ∀ pos st a st', At pos st → p st = .ok a st' → a = val pos ∧ At (pos + size pos) st'

/-- A parser without a result. -/
abbrev Covers (At : ℕ → σ → Prop) (p : EStateM ε σ Unit) (size : ℕ → ℕ) : Prop :=
  Spans At p (fun _ => ()) size

section Rules
variable {p : EStateM ε σ α} {q : α → EStateM ε σ β} {r s : EStateM ε σ Unit} {val : ℕ → α}
  {f g : ℕ → ℕ}

theorem Spans.bind {next : α → ℕ → β} {size : α → ℕ → ℕ} (hp : Spans At p val f)
    (hq : ∀ a, Spans At (q a) (next a) (size a)) :
    Spans At (p >>= q) (fun pos => next (val pos) (pos + f pos))
      (fun pos => f pos + size (val pos) (pos + f pos)) := by
  intro pos st b st'' hat h
  obtain ⟨a, st', hrun, hrest⟩ := bind_eq_ok.mp h
  obtain ⟨rfl, hat'⟩ := hp pos st a st' hat hrun
  obtain ⟨hb, hat''⟩ := hq _ _ _ _ _ hat' hrest
  rw [Nat.add_assoc] at hat''
  exact ⟨hb, hat''⟩

/-- The amount is told in another way. -/
theorem Spans.of_eq (hp : Spans At p val f) (h : ∀ pos, f pos = g pos) : Spans At p val g := by
  cases funext h
  exact hp

theorem Covers.seq (hr : Covers At r f) (hs : Covers At s g) :
    Covers At (r >>= fun _ => s) (fun pos => f pos + g (pos + f pos)) :=
  Spans.bind hr fun _ => hs

theorem covers_pure : Covers At (pure () : EStateM ε σ Unit) (fun _ => 0) := by
  intro pos st a st' hat h
  cases h
  exact ⟨rfl, hat⟩

/-- A parser that gives up does not return. -/
theorem covers_throw (e : ε) : Covers At (throw e : EStateM ε σ Unit) f := by
  intro pos st a st' _ h
  change EStateM.Result.error e st = _ at h
  cases h

theorem Covers.optional {c : Prop} [Decidable c] (hr : Covers At r f) :
    Covers At (optional c r) (fun pos => if c then f pos else 0) := by
  unfold BitParser.optional
  by_cases hc : c
  · simpa only [if_pos hc] using hr
  · simpa only [if_neg hc] using covers_pure

/-- A parser that gives up under a condition does not move. -/
theorem covers_unless {c : Prop} [Decidable c] (e : ε) :
    Covers At (BitParser.optional c (throw e) : EStateM ε σ Unit) (fun _ => 0) := by
  unfold BitParser.optional
  by_cases hc : c
  · simpa only [if_pos hc] using covers_throw e
  · simpa only [if_neg hc] using covers_pure

end Rules

end Cursor
