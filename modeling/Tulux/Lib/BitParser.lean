import Tulux.Lib.BitString

/-! Parsers of bit streams that fill in a record. `At pos x st` says that the state `st` is at the
position `pos` of the stream with the record `x`. A state survives an error. -/
namespace BitParser
open BitString

variable {ε σ X α β : Type} {At : ℕ → X → σ → Prop} {f : ℕ → Bool} {pos : ℕ}

/-- With the bits `s` at `pos`, the parser returns `a`, moves past `s` and changes the record
by `g`. -/
def Parses (At : ℕ → X → σ → Prop) (f : ℕ → Bool) (pos : ℕ) (p : EStateM ε σ α) (s : List Bool)
    (a : α) (g : X → X) : Prop :=
  HasAt f pos s → ∀ x st, At pos x st → ∃ st', p st = .ok a st' ∧ At (pos + s.length) (g x) st'

/-- With the bits `s` at `pos`, the parser stops with `e`. -/
def Stops (At : ℕ → X → σ → Prop) (f : ℕ → Bool) (pos : ℕ) (p : EStateM ε σ α) (s : List Bool)
    (e : ε) : Prop :=
  HasAt f pos s → ∀ x st, At pos x st → ∃ st', p st = .error e st'

/-- A part that is there only under a condition. -/
def optional {m : Type → Type} [Monad m] (c : Prop) [Decidable c] (p : m Unit) : m Unit :=
  if c then p else pure ()

section Rules
variable {p : EStateM ε σ α} {q : α → EStateM ε σ β} {s t : List Bool} {ss : List (List Bool)}
  {a : α} {b : β} {e : ε} {g h : X → X}

theorem bind_ok {st st' : σ} (hp : p st = .ok a st') : (p >>= q) st = q a st' := by
  change EStateM.bind p q st = _
  rw [EStateM.bind, hp]

theorem bind_error {st st' : σ} (hp : p st = .error e st') : (p >>= q) st = .error e st' := by
  change EStateM.bind p q st = _
  rw [EStateM.bind, hp]

theorem Parses.pure (a : α) : Parses At f pos (pure a : EStateM ε σ α) [] a id :=
  fun _ _ st hat => ⟨st, rfl, hat⟩

/-- A step that reads no bits. -/
theorem Parses.silent (hp : ∀ x st, At pos x st → ∃ st', p st = .ok a st' ∧ At pos (g x) st') :
    Parses At f pos p [] a g :=
  fun _ => hp

theorem Parses.append (hp : Parses At f pos p s a g)
    (hq : Parses At f (pos + s.length) (q a) t b h) :
    Parses At f pos (p >>= q) (s ++ t) b (h ∘ g) := by
  intro hbits x st hat
  obtain ⟨st₁, hrun, hat₁⟩ := hp hbits.left x st hat
  obtain ⟨st₂, hrun₂, hat₂⟩ := hq hbits.right (g x) st₁ hat₁
  rw [Nat.add_assoc, ← List.length_append] at hat₂
  exact ⟨st₂, (bind_ok hrun).trans hrun₂, hat₂⟩

theorem Parses.cons (hp : Parses At f pos p s a g)
    (hq : Parses At f (pos + s.length) (q a) ss.flatten b h) :
    Parses At f pos (p >>= q) (s :: ss).flatten b (h ∘ g) :=
  hp.append hq

theorem Parses.last (hp : Parses At f pos p s a g) : Parses At f pos p [s].flatten a g := by
  simpa using hp

/-- A step without bits, before a part with bits. -/
theorem Parses.after (hp : Parses At f pos p [] a g) (hq : Parses At f pos (q a) s b h) :
    Parses At f pos (p >>= q) s b (h ∘ g) :=
  hp.append hq

/-- Without the condition the record stays the same. -/
theorem Parses.optional {c : Prop} [Decidable c] {p : EStateM ε σ Unit}
    (hp : c → Parses At f pos p s () g) :
    Parses At f pos (optional c p) (if c then s else []) () (if c then g else id) := by
  unfold BitParser.optional
  split_ifs with hc
  · exact hp hc
  · exact Parses.pure ()

/-- A part without its condition. -/
theorem Parses.absent {c : Prop} [Decidable c] {p : EStateM ε σ Unit} (hc : ¬ c) :
    Parses At f pos (BitParser.optional c p) [] () id := by
  unfold BitParser.optional
  rw [if_neg hc]
  exact Parses.pure ()

/-- The change of the record is told in another way. -/
theorem Parses.to (hp : Parses At f pos p s a g) (hg : ∀ x, g x = h x) :
    Parses At f pos p s a h := by
  cases funext hg
  exact hp

/-- The rest may depend on the state. -/
theorem Parses.getState {q : σ → EStateM ε σ β}
    (hq : ∀ x st, At pos x st → Parses At f pos (q st) s b h) :
    Parses At f pos (get >>= q) s b h :=
  fun hbits x st hat => hq x st hat hbits x st hat

theorem Stops.append (hp : Parses At f pos p s a g)
    (hq : Stops At f (pos + s.length) (q a) t e) : Stops At f pos (p >>= q) (s ++ t) e := by
  intro hbits x st hat
  obtain ⟨st₁, hrun, hat₁⟩ := hp hbits.left x st hat
  obtain ⟨st₂, hrun₂⟩ := hq hbits.right (g x) st₁ hat₁
  exact ⟨st₂, (bind_ok hrun).trans hrun₂⟩

theorem Stops.cons (hp : Parses At f pos p s a g)
    (hq : Stops At f (pos + s.length) (q a) ss.flatten e) :
    Stops At f pos (p >>= q) (s :: ss).flatten e :=
  Stops.append hp hq

theorem Stops.after (hp : Parses At f pos p [] a g) (hq : Stops At f pos (q a) s e) :
    Stops At f pos (p >>= q) s e :=
  Stops.append hp hq

theorem Stops.first (hp : Stops At f pos p s e) : Stops At f pos (p >>= q) s e := by
  intro hbits x st hat
  obtain ⟨st', hst⟩ := hp hbits x st hat
  exact ⟨st', bind_error hst⟩

theorem Stops.getState {q : σ → EStateM ε σ β}
    (hq : ∀ x st, At pos x st → Stops At f pos (q st) s e) :
    Stops At f pos (get >>= q) s e :=
  fun hbits x st hat => hq x st hat hbits x st hat

/-- The bits behind the stop do not matter. -/
theorem Stops.left (hp : Stops At f pos p s e) : Stops At f pos p (s ++ t) e :=
  fun hbits => hp hbits.left

end Rules

/-! ### What holds of the state behind a parser -/

/-- The state that a parser leaves, with a result or an error. -/
def finalState (p : EStateM ε σ α) (st : σ) : σ :=
  match p st with
  | .ok _ st' => st'
  | .error _ st' => st'

/-- What holds of the state before holds behind the parser. -/
def Keeps (Q : σ → Prop) (p : EStateM ε σ α) : Prop := ∀ st, Q st → Q (finalState p st)

/-- With the bits `s` at `pos`, `Q` holds of the state behind the parser. -/
def Leads (At : ℕ → X → σ → Prop) (f : ℕ → Bool) (pos : ℕ) (p : EStateM ε σ α) (s : List Bool)
    (Q : σ → Prop) : Prop :=
  HasAt f pos s → ∀ x st, At pos x st → ∃ st', finalState p st = st' ∧ Q st'

section Final
variable {p : EStateM ε σ α} {q : α → EStateM ε σ β} {s t : List Bool} {ss : List (List Bool)}
  {a : α} {g : X → X} {Q : σ → Prop}

theorem finalState_bind (p : EStateM ε σ α) (q : α → EStateM ε σ β) (st : σ) :
    finalState (p >>= q) st = match p st with
      | .ok a st' => finalState (q a) st'
      | .error _ st' => st' := by
  unfold finalState
  change (match EStateM.bind p q st with | .ok _ st' => st' | .error _ st' => st') = _
  rw [EStateM.bind]
  cases p st <;> rfl

theorem Keeps.of_ok {st st' : σ} (hp : Keeps Q p) (h : p st = .ok a st') (hst : Q st) : Q st' := by
  have hfinal := hp st hst
  rwa [finalState, h] at hfinal

theorem Keeps.pure (a : α) : Keeps Q (pure a : EStateM ε σ α) := fun _ h => h

theorem Keeps.bind (hp : Keeps Q p) (hq : ∀ a, Keeps Q (q a)) : Keeps Q (p >>= q) := by
  intro st h
  have hst := hp st h
  rw [finalState_bind]
  unfold finalState at hst
  cases hrun : p st with
  | ok a st' =>
    rw [hrun] at hst
    exact hq a st' hst
  | error e st' =>
    rw [hrun] at hst
    exact hst

theorem Keeps.optional {c : Prop} [Decidable c] {p : EStateM ε σ Unit} (hp : Keeps Q p) :
    Keeps Q (BitParser.optional c p) := by
  unfold BitParser.optional
  split_ifs
  · exact hp
  · exact Keeps.pure ()

theorem Keeps.ite {c : Prop} [Decidable c] {p' : EStateM ε σ α} (hp : Keeps Q p)
    (hp' : Keeps Q p') : Keeps Q (if c then p else p') := by
  split_ifs
  · exact hp
  · exact hp'

/-- Behind a part that is read, the rest leads there. -/
theorem Leads.append (hp : Parses At f pos p s a g)
    (hq : Leads At f (pos + s.length) (q a) t Q) : Leads At f pos (p >>= q) (s ++ t) Q := by
  intro hbits x st hat
  obtain ⟨st₁, hrun, hat₁⟩ := hp hbits.left x st hat
  obtain ⟨st₂, hfinal, hst⟩ := hq hbits.right (g x) st₁ hat₁
  exact ⟨st₂, by rw [finalState_bind, hrun, ← hfinal], hst⟩

theorem Leads.cons (hp : Parses At f pos p s a g)
    (hq : Leads At f (pos + s.length) (q a) ss.flatten Q) :
    Leads At f pos (p >>= q) (s :: ss).flatten Q :=
  Leads.append hp hq

theorem Leads.after (hp : Parses At f pos p [] a g) (hq : Leads At f pos (q a) s Q) :
    Leads At f pos (p >>= q) s Q :=
  Leads.append hp hq

/-- The rest keeps what the first part leads to. -/
theorem Leads.first (hp : Leads At f pos p s Q) (hq : ∀ a, Keeps Q (q a)) :
    Leads At f pos (p >>= q) s Q := by
  intro hbits x st hat
  obtain ⟨st', hfinal, hst⟩ := hp hbits x st hat
  refine ⟨_, rfl, ?_⟩
  rw [finalState_bind]
  cases hrun : p st with
  | ok a st₁ =>
    rw [finalState, hrun] at hfinal
    subst hfinal
    exact hq a _ hst
  | error e st₁ =>
    rw [finalState, hrun] at hfinal
    subst hfinal
    exact hst

/-- What a part that is read makes true is kept. -/
theorem Leads.of_parses (hp : Parses At f pos p s a g) (hQ : ∀ x n st, At n (g x) st → Q st) :
    Leads At f pos p s Q := by
  intro hbits x st hat
  obtain ⟨st', hrun, hat'⟩ := hp hbits x st hat
  exact ⟨st', by rw [finalState, hrun], hQ x _ st' hat'⟩

theorem Leads.getState {q : σ → EStateM ε σ β}
    (hq : ∀ x st, At pos x st → Leads At f pos (q st) s Q) : Leads At f pos (get >>= q) s Q :=
  fun hbits x st hat => hq x st hat hbits x st hat

/-- The bits behind do not matter. -/
theorem Leads.left (hp : Leads At f pos p s Q) : Leads At f pos p (s ++ t) Q :=
  fun hbits => hp hbits.left

end Final

end BitParser
