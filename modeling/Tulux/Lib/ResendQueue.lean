import Mathlib.Tactic

/-! A queue whose frames are handed over until they are taken, and then again, for a number of
rounds, until their key is received: the traces of its runs, and what holds of every run. -/
namespace ResendQueue

/-- Frames are numbered in the order they are queued. -/
structure Frame (κ : Type) where
  id : ℕ
  key : κ
  ack : Bool
  deriving DecidableEq

/-- A frame that has been taken and waits for its key, with the rounds that are left to it and the
time to the next one. -/
structure Entry (κ : Type) where
  frame : Frame κ
  rounds : ℕ
  time : ℕ

inductive Event (κ : Type) where
  | sent (f : Frame κ) (ok : Bool)
  | received (k : κ)
  | timeout
  | resent (f : Frame κ) (ok : Bool)
  deriving DecidableEq

variable {κ : Type}

/-! ### What is asked of a trace -/

namespace Event

/-- The frame `b` is handed over. -/
def Hands (b : ℕ) : Event κ → Prop
  | .sent f _ => f.id = b
  | .resent f _ => f.id = b
  | _ => False

/-- The frame `b` is handed over in a round. -/
def Repeats (b : ℕ) : Event κ → Prop
  | .resent f _ => f.id = b
  | _ => False

/-- The frame `b` is handed over and taken. -/
def takes (b : ℕ) : Event κ → Bool
  | .sent f ok => f.id = b && ok
  | .resent f ok => f.id = b && ok
  | _ => false

end Event

def taken (b : ℕ) (t : List (Event κ)) : ℕ := t.countP (Event.takes b)

section Asked
variable [DecidableEq κ]

/-- Among the frames that wait, `x` is the oldest with the key `k`. -/
def Oldest (l : List (Frame κ × ℕ)) (k : κ) (x : Frame κ × ℕ) : Prop :=
  x.1.key = k ∧ ∀ y ∈ l, y.1.key = k → x.1.id ≤ y.1.id

instance (l : List (Frame κ × ℕ)) (k : κ) (x : Frame κ × ℕ) : Decidable (Oldest l k x) :=
  inferInstanceAs (Decidable (_ ∧ _))

/-- The frames that wait, with the rounds done. A frame begins to wait when it is taken. It ends
when its key is received and it is the oldest one, or with its last round. -/
def listNext (rounds : ℕ) (l : List (Frame κ × ℕ)) : Event κ → List (Frame κ × ℕ)
  | .sent f ok => if ok ∧ f.ack then l ++ [(f, 0)] else l
  | .received k => l.filter fun x => ¬ Oldest l k x
  | .timeout => l
  | .resent f _ =>
    (l.map fun x => if x.1.id = f.id then (x.1, x.2 + 1) else x).filter fun x => x.2 < rounds

def listed (rounds : ℕ) (t : List (Event κ)) : List (Frame κ × ℕ) := t.foldl (listNext rounds) []

def Listed (rounds : ℕ) (t : List (Event κ)) (b : ℕ) : Prop :=
  b ∈ (listed rounds t).map fun x => x.1.id

/-- The frame `b` has waited, and does not any more. -/
def Left (rounds : ℕ) (t : List (Event κ)) (b : ℕ) : Prop :=
  ∃ t₁ t₂, t₁ <+: t₂ ∧ t₂ <+: t ∧ Listed rounds t₁ b ∧ ¬ Listed rounds t₂ b

/-- A frame is taken once and in its rounds. It is not handed over after it has left, and its rounds
are `period` timeouts apart. -/
structure Disciplined (rounds period : ℕ) (t : List (Event κ)) : Prop where
  bounded : ∀ b, taken b t ≤ 1 + rounds
  silent : ∀ b t₁ e t₂, t = t₁ ++ e :: t₂ → e.Hands b → ¬ Left rounds t₁ b
  apart : ∀ b t₁ e t₂ e' t₃, t = t₁ ++ e :: (t₂ ++ e' :: t₃) → e.Repeats b → e'.Repeats b →
    period ≤ t₂.count .timeout

end Asked

/-! ### Runs -/

namespace Entry

def tick (e : Entry κ) : Entry κ := { e with time := e.time - 1 }

/-- What is left of an entry behind a round. -/
def again (period : ℕ) (e : Entry κ) : List (Entry κ) :=
  if e.rounds ≤ 1 then [] else [{ e with rounds := e.rounds - 1, time := period }]

end Entry

/-- The trace, the frames that have not been taken, the entries, and a bound of the numbers used. A
timeout is followed by the rounds of the entries whose time has run out, in any order. -/
inductive Run [DecidableEq κ] (rounds period : ℕ) :
    List (Event κ) → List (Frame κ) → List (Entry κ) → ℕ → Prop
  | init : Run rounds period [] [] [] 0
  | queue {t W E n f} (h : Run rounds period t W E n) (hf : n ≤ f.id) :
    Run rounds period t (W ++ [f]) E (f.id + 1)
  | refused {t W E n f} (h : Run rounds period t (f :: W) E n) :
    Run rounds period (t ++ [.sent f false]) (f :: W) E n
  | taken {t W E n f} (h : Run rounds period t (f :: W) E n) :
    Run rounds period (t ++ [.sent f true]) W
      (E ++ if f.ack then [⟨f, rounds, period⟩] else []) n
  | received {t W E n} (h : Run rounds period t W E n) (k : κ) :
    Run rounds period (t ++ [.received k]) W (E.eraseP fun e => e.frame.key = k) n
  | timeout {t W E n} (h : Run rounds period t W E n) (hE : ∀ e ∈ E, 0 < e.time) :
    Run rounds period (t ++ [.timeout]) W (E.map Entry.tick) n
  | resent {t W xs e ys n} (h : Run rounds period t W (xs ++ e :: ys) n) (he : e.time = 0)
    (ok : Bool) :
    Run rounds period (t ++ [.resent e.frame ok]) W (xs ++ e.again period ++ ys) n

section Ids
variable {period : ℕ}

/-- The numbers of the frames in hand. -/
def ids (W : List (Frame κ)) (E : List (Entry κ)) : List ℕ :=
  E.map (fun e => e.frame.id) ++ W.map fun f => f.id

theorem ids_again (e : Entry κ) :
    ((e.again period).map fun e => e.frame.id).Sublist [e.frame.id] := by
  unfold Entry.again
  split_ifs
  · exact List.nil_sublist _
  · exact List.Sublist.refl _

theorem map_tick (E : List (Entry κ)) :
    (E.map Entry.tick).map (fun e => e.frame.id) = E.map fun e => e.frame.id := by
  rw [List.map_map]
  rfl

theorem taken_snoc (b : ℕ) (t : List (Event κ)) (x : Event κ) :
    taken b (t ++ [x]) = taken b t + if x.takes b then 1 else 0 := by
  rw [taken, taken, List.countP_append, List.countP_singleton]

theorem taken_eq_zero {b : ℕ} {t : List (Event κ)} (hall : ∀ x ∈ t, ¬ x.Hands b) :
    taken b t = 0 := by
  refine List.countP_eq_zero.mpr fun x hx htakes => hall x hx ?_
  cases x with
  | sent f ok =>
    simp only [Event.takes, Bool.and_eq_true, decide_eq_true_eq] at htakes
    exact htakes.1
  | resent f ok =>
    simp only [Event.takes, Bool.and_eq_true, decide_eq_true_eq] at htakes
    exact htakes.1
  | received k => exact absurd htakes (by simp [Event.takes])
  | timeout => exact absurd htakes (by simp [Event.takes])

end Ids

section Run
variable [DecidableEq κ] {rounds period : ℕ} {t : List (Event κ)} {W : List (Frame κ)}
  {E : List (Entry κ)} {n : ℕ}

/-- An event hands over what is in hand, and brings nothing new in hand. -/
structure Kept (W : List (Frame κ)) (E : List (Entry κ)) (x : Event κ) (W' : List (Frame κ))
    (E' : List (Entry κ)) : Prop where
  hands : ∀ b, x.Hands b → b ∈ ids W E
  waits : W' ⊆ W
  ids : (ids W' E').Sublist (ids W E)

/-- The induction over a run that does not tell the events apart. -/
theorem Run.event_induction {motive : ∀ {t W E n}, Run (κ := κ) rounds period t W E n → Prop}
    (init : motive .init)
    (queue : ∀ {t W E n} {f : Frame κ} (h : Run rounds period t W E n) (hf : n ≤ f.id), motive h →
      motive (.queue h hf))
    (event : ∀ {t W E n x W' E'} (h : Run rounds period t W E n)
      (h' : Run rounds period (t ++ [x]) W' E' n), Kept W E x W' E' → motive h → motive h')
    (h : Run rounds period t W E n) : motive h := by
  induction h with
  | init => exact init
  | queue h hf ih => exact queue h hf ih
  | @refused t W E n f h ih =>
    refine event h (.refused h) ⟨fun b (hb : f.id = b) => ?_, List.Subset.refl _, .refl _⟩ ih
    simp [ResendQueue.ids, hb]
  | @taken t W E n f h ih =>
    refine event h (.taken h) ⟨fun b (hb : f.id = b) => ?_, List.subset_cons_self f W, ?_⟩ ih
    · simp [ResendQueue.ids, hb]
    · unfold ResendQueue.ids
      split_ifs <;> simp
  | received h k ih =>
    exact event h (.received h k) ⟨fun b hb => hb.elim, List.Subset.refl _,
      (List.eraseP_sublist.map _).append_right _⟩ ih
  | @timeout t W E n h hE ih =>
    refine event h (.timeout h hE) ⟨fun b hb => hb.elim, List.Subset.refl _, ?_⟩ ih
    rw [ResendQueue.ids, map_tick]
    exact .refl _
  | @resent t W xs e ys n h he ok ih =>
    refine event h (.resent h he ok)
      ⟨fun b (hb : e.frame.id = b) => ?_, List.Subset.refl _, ?_⟩ ih
    · simp [ResendQueue.ids, hb]
    · simp only [ResendQueue.ids, List.map_append, List.map_cons, List.append_assoc]
      exact ((ids_again e).append_right _).append_left _

/-- The numbers increase, and stay below the bound. -/
theorem Run.increasing (h : Run rounds period t W E n) :
    (ids W E).Pairwise (· < ·) ∧ ∀ b ∈ ids W E, b < n := by
  induction h using Run.event_induction with
  | init => simp [ids]
  | @queue t W E n f h hf ih =>
    have heq : ids (W ++ [f]) E = ids W E ++ [f.id] := by simp [ids]
    rw [heq]
    refine ⟨List.pairwise_append.mpr ⟨ih.1, List.pairwise_singleton _ _, ?_⟩, ?_⟩
    · intro b hb c hc
      rw [List.mem_singleton.mp hc]
      exact (ih.2 b hb).trans_le hf
    · intro b hb
      rcases List.mem_append.mp hb with hb | hb
      · exact ((ih.2 b hb).trans_le hf).trans (Nat.lt_succ_self _)
      · exact List.mem_singleton.mp hb ▸ Nat.lt_succ_self _
  | event h h' hkept ih =>
    exact ⟨ih.1.sublist hkept.ids, fun b hb => ih.2 b (hkept.ids.subset hb)⟩

theorem Run.nodup (h : Run rounds period t W E n) : (ids W E).Nodup :=
  h.increasing.1.imp fun hlt => hlt.ne

/-- An entry has a number of its own. -/
theorem Run.others {xs ys : List (Entry κ)} {e : Entry κ}
    (h : Run rounds period t W (xs ++ e :: ys) n) :
    (∀ z ∈ xs, z.frame.id ≠ e.frame.id) ∧ (∀ z ∈ ys, z.frame.id ≠ e.frame.id) ∧
      ∀ f ∈ W, f.id ≠ e.frame.id := by
  have hnd := h.nodup
  simp only [ids, List.map_append, List.map_cons, List.append_assoc, List.cons_append,
    List.nodup_middle, List.nodup_cons, List.mem_append, List.mem_map, not_or, not_exists,
    not_and] at hnd
  exact ⟨hnd.1.1, hnd.1.2.1, hnd.1.2.2⟩

/-- What has been handed over has a number below the bound. -/
theorem Run.hands_lt (h : Run rounds period t W E n) :
    ∀ x ∈ t, ∀ b, x.Hands b → b < n := by
  induction h using Run.event_induction with
  | init => simp
  | queue h hf ih => exact fun x hx b hb => ((ih x hx b hb).trans_le hf).trans (Nat.lt_succ_self _)
  | event h h' hkept ih =>
    intro x hx b hb
    rcases List.mem_append.mp hx with hx | hx
    · exact ih x hx b hb
    · exact h.increasing.2 b (hkept.hands b (List.mem_singleton.mp hx ▸ hb))

/-! ### The bound -/

/-- An entry has been taken once, and at most once in each round that it has done. -/
theorem Run.taken_le (hrounds : 0 < rounds) (h : Run rounds period t W E n) :
    (∀ b, ResendQueue.taken b t ≤ 1 + rounds) ∧
      (∀ e ∈ E, 0 < e.rounds ∧ ResendQueue.taken e.frame.id t + e.rounds ≤ 1 + rounds) ∧
      ∀ f ∈ W, ResendQueue.taken f.id t = 0 := by
  induction h with
  | init => simp [ResendQueue.taken]
  | @queue t W E n f h hf ih =>
    refine ⟨ih.1, ih.2.1, fun g hg => ?_⟩
    rcases List.mem_append.mp hg with hg | hg
    · exact ih.2.2 g hg
    · rw [List.mem_singleton.mp hg]
      exact taken_eq_zero fun x hx hands => (h.hands_lt x hx f.id hands).not_ge hf
  | refused h ih => simpa [taken_snoc, Event.takes] using ih
  | @taken t W E n f h ih =>
    obtain ⟨hall, hE, hW⟩ := ih
    have hnd := h.nodup
    simp only [ids, List.map_cons, List.nodup_middle, List.nodup_cons, List.mem_append,
      List.mem_map, not_or, not_exists, not_and] at hnd
    have hzero := hW f List.mem_cons_self
    refine ⟨fun b => ?_, fun e he => ?_, fun g hg => ?_⟩
    · rw [taken_snoc]
      by_cases hb : f.id = b
      · subst hb
        simp only [Event.takes, decide_true, Bool.and_self, if_true]
        omega
      · simpa [Event.takes, hb] using hall b
    · rw [taken_snoc]
      rcases List.mem_append.mp he with he | he
      · have hne : f.id ≠ e.frame.id := fun heq => hnd.1.1 e he heq.symm
        simpa [Event.takes, hne] using hE e he
      · split_ifs at he with hack
        · rw [List.mem_singleton.mp he]
          simp only [Event.takes, decide_true, Bool.and_self, if_true]
          omega
        · exact absurd he List.not_mem_nil
    · have hne : f.id ≠ g.id := fun heq => hnd.1.2 g hg heq.symm
      simpa [taken_snoc, Event.takes, hne] using hW g (List.mem_cons_of_mem f hg)
  | received h k ih =>
    refine ⟨fun b => ?_, fun e he => ?_, fun f hf => ?_⟩
    · simpa [taken_snoc, Event.takes] using ih.1 b
    · simpa [taken_snoc, Event.takes] using ih.2.1 e (List.eraseP_sublist.subset he)
    · simpa [taken_snoc, Event.takes] using ih.2.2 f hf
  | timeout h hE ih =>
    refine ⟨fun b => ?_, fun e he => ?_, fun f hf => ?_⟩
    · simpa [taken_snoc, Event.takes] using ih.1 b
    · obtain ⟨e₀, he₀, rfl⟩ := List.mem_map.mp he
      simpa [taken_snoc, Event.takes, Entry.tick] using ih.2.1 e₀ he₀
    · simpa [taken_snoc, Event.takes] using ih.2.2 f hf
  | @resent t W xs e ys n h he ok ih =>
    obtain ⟨hall, hE, hW⟩ := ih
    obtain ⟨hxs, hys, hwait⟩ := h.others
    obtain ⟨hpos, hle⟩ := hE e (by simp)
    refine ⟨fun b => ?_, fun e' he' => ?_, fun f hf => ?_⟩
    · rw [taken_snoc]
      by_cases hb : e.frame.id = b
      · subst hb
        split_ifs <;> omega
      · simpa [Event.takes, hb] using hall b
    · rw [taken_snoc]
      have other (he' : e' ∈ xs ∨ e' ∈ ys) : 0 < e'.rounds ∧ ResendQueue.taken e'.frame.id t +
          (if Event.takes e'.frame.id (.resent e.frame ok) then 1 else 0) + e'.rounds ≤
            1 + rounds := by
        have hne : e.frame.id ≠ e'.frame.id := (he'.elim (hxs e') (hys e')).symm
        simpa [Event.takes, hne] using hE e' (by simp only [List.mem_append, List.mem_cons]; tauto)
      rcases List.mem_append.mp he' with he' | he'
      · rcases List.mem_append.mp he' with he' | he'
        · exact other (.inl he')
        · unfold Entry.again at he'
          split_ifs at he' with hlast
          · exact absurd he' List.not_mem_nil
          · rw [List.mem_singleton.mp he']
            dsimp only
            split_ifs <;> omega
      · exact other (.inr he')
    · have hne : e.frame.id ≠ f.id := (hwait f hf).symm
      simpa [taken_snoc, Event.takes, hne] using hW f hf

theorem Run.rounds_le (h : Run rounds period t W E n) : ∀ e ∈ E, e.rounds ≤ rounds := by
  induction h with
  | init => simp
  | queue h hf ih => exact ih
  | refused h ih => exact ih
  | taken h ih =>
    intro e he
    rcases List.mem_append.mp he with he | he
    · exact ih e he
    · split_ifs at he
      · rw [List.mem_singleton.mp he]
      · exact absurd he List.not_mem_nil
  | received h k ih => exact fun e he => ih e (List.eraseP_sublist.subset he)
  | timeout h hE ih =>
    intro e he
    obtain ⟨e₀, he₀, rfl⟩ := List.mem_map.mp he
    exact ih e₀ he₀
  | @resent t W xs e ys n h he ok ih =>
    intro e' he'
    rw [List.append_assoc, List.mem_append, List.mem_append] at he'
    rcases he' with he' | he' | he'
    · exact ih e' (by simp [he'])
    · unfold Entry.again at he'
      split_ifs at he'
      · exact absurd he' List.not_mem_nil
      · rw [List.mem_singleton.mp he']
        exact (Nat.sub_le _ _).trans (ih e (by simp))
    · exact ih e' (by simp [he'])

/-! ### The frames that wait -/

omit [DecidableEq κ] in
theorem filter_split {α : Type} {P : α → Prop} [DecidablePred P] {l xs ys : List α} {x : α}
    (hl : l = xs ++ x :: ys) (hx : ¬ P x) (hxs : ∀ z ∈ xs, P z) (hys : ∀ z ∈ ys, P z) :
    l.filter P = xs ++ ys := by
  rw [hl, List.filter_append, List.filter_cons_of_neg (by simpa using hx),
    List.filter_eq_self.mpr (by simpa using hxs), List.filter_eq_self.mpr (by simpa using hys)]

/-- Of increasing numbers the first one with the key is the oldest. -/
theorem filter_oldest {l : List (Frame κ × ℕ)} (k : κ)
    (hl : (l.map fun x => x.1.id).Pairwise (· < ·)) :
    l.filter (fun x => ¬ Oldest l k x) = l.eraseP fun x => x.1.key = k := by
  by_cases hex : ∃ x ∈ l, x.1.key = k
  · obtain ⟨y, hy, hyk⟩ := hex
    obtain ⟨x, xs, ys, hxs, hx, hsplit, herase⟩ :=
      List.exists_of_eraseP (p := fun x => decide (x.1.key = k)) hy (by simpa using hyk)
    rw [herase]
    simp only [decide_eq_true_eq] at hxs hx
    rw [hsplit, List.map_append, List.map_cons, List.pairwise_append, List.pairwise_cons] at hl
    obtain ⟨-, ⟨hys, -⟩, hbefore⟩ := hl
    have hfirst : Oldest l k x := by
      refine ⟨hx, fun z hz hzk => ?_⟩
      rw [hsplit, List.mem_append, List.mem_cons] at hz
      rcases hz with hz | rfl | hz
      · exact absurd hzk (hxs z hz)
      · exact le_rfl
      · exact (hys _ (List.mem_map_of_mem hz)).le
    have hxs' : ∀ z ∈ xs, ¬ Oldest l k z := fun z hz hold => hxs z hz hold.1
    have hys' : ∀ z ∈ ys, ¬ Oldest l k z := fun z hz hold =>
      (hys _ (List.mem_map_of_mem hz)).not_ge (hold.2 x (by simp [hsplit]) hx)
    exact filter_split hsplit (not_not.mpr hfirst) hxs' hys'
  · have hnone : ∀ x ∈ l, ¬ x.1.key = k := fun x hx hk => hex ⟨x, hx, hk⟩
    rw [List.eraseP_of_forall_not (by simpa using hnone), List.filter_eq_self]
    intro x hx
    simpa using fun hold : Oldest l k x => hnone x hx hold.1

theorem listed_snoc (t : List (Event κ)) (x : Event κ) :
    listed rounds (t ++ [x]) = listNext rounds (listed rounds t) x := by
  rw [listed, listed, List.foldl_append]
  rfl

/-- The rounds that an entry has done. -/
def Entry.view (rounds : ℕ) (e : Entry κ) : Frame κ × ℕ := (e.frame, rounds - e.rounds)

/-- The entries are the frames that wait. -/
theorem Run.listed_eq (hrounds : 0 < rounds) (h : Run rounds period t W E n) :
    listed rounds t = E.map (Entry.view rounds) := by
  induction h with
  | init => rfl
  | queue h hf ih => exact ih
  | refused h ih =>
    rw [listed_snoc, ih]
    simp [listNext]
  | taken h ih =>
    rw [listed_snoc, ih]
    unfold listNext
    split_ifs <;> simp_all [Entry.view]
  | received h k ih =>
    have hsorted := h.increasing.1.sublist (List.sublist_append_left _ _)
    rw [listed_snoc, ih, listNext, filter_oldest k (by rw [List.map_map]; exact hsorted),
      List.eraseP_map]
    rfl
  | timeout h hE ih =>
    rw [listed_snoc, ih, listNext, List.map_map]
    rfl
  | @resent t W xs e ys n h he ok ih =>
    obtain ⟨hxs, hys, -⟩ := h.others
    obtain ⟨-, hleft, -⟩ := h.taken_le hrounds
    -- another entry is passed over, and has rounds left
    have other (zs : List (Entry κ)) (hne : ∀ z ∈ zs, z.frame.id ≠ e.frame.id)
        (hpos : ∀ z ∈ zs, 0 < z.rounds) :
        ((zs.map (Entry.view rounds)).map fun x =>
          if x.1.id = e.frame.id then (x.1, x.2 + 1) else x).filter (fun x => x.2 < rounds) =
            zs.map (Entry.view rounds) := by
      have hsame : ((zs.map (Entry.view rounds)).map fun x =>
          if x.1.id = e.frame.id then (x.1, x.2 + 1) else x) = zs.map (Entry.view rounds) := by
        rw [List.map_map]
        exact List.map_congr_left fun z hz => if_neg (hne z hz)
      rw [hsame, List.filter_eq_self]
      intro x hx
      obtain ⟨z, hz, rfl⟩ := List.mem_map.mp hx
      have := hpos z hz
      exact decide_eq_true (show rounds - z.rounds < rounds by omega)
    rw [listed_snoc, ih, listNext, List.map_append, List.map_append, List.filter_append,
      other xs hxs (fun z hz => (hleft z (by simp [hz])).1), List.map_cons,
      List.map_cons, List.filter_cons,
      other ys hys (fun z hz => (hleft z (by simp [hz])).1)]
    have hpos := (hleft e (by simp)).1
    have hle := h.rounds_le e (by simp)
    unfold Entry.again
    by_cases hlast : e.rounds ≤ 1
    · have hfull : ¬ rounds - e.rounds + 1 < rounds := by omega
      simp [Entry.view, hlast, hfull]
    · have heq : rounds - e.rounds + 1 = rounds - (e.rounds - 1) := by omega
      have hmore : rounds - (e.rounds - 1) < rounds := by omega
      simp only [Entry.view, if_true, heq, hmore, decide_true, if_neg hlast, List.map_append,
        List.map_cons, List.append_assoc, List.cons_append, List.nil_append]

theorem Run.listed_iff (hrounds : 0 < rounds) (h : Run rounds period t W E n) (b : ℕ) :
    Listed rounds t b ↔ ∃ e ∈ E, e.frame.id = b := by
  rw [Listed, h.listed_eq hrounds, List.map_map, List.mem_map]
  rfl

theorem hands_of_listed {b : ℕ} (h : Listed rounds t b) : ∃ x ∈ t, x.Hands b := by
  induction t using List.reverseRecOn with
  | nil => exact absurd h List.not_mem_nil
  | append_singleton t x ih =>
    have before (hb : Listed rounds t b) : ∃ y ∈ t ++ [x], y.Hands b := by
      obtain ⟨y, hy, hands⟩ := ih hb
      exact ⟨y, List.mem_append_left _ hy, hands⟩
    rw [Listed, listed_snoc] at h
    cases x with
    | sent f ok =>
      dsimp only [listNext] at h
      split_ifs at h
      · rw [List.map_append, List.mem_append] at h
        rcases h with h | h
        · exact before h
        · exact ⟨.sent f ok, by simp, (List.mem_singleton.mp h).symm⟩
      · exact before h
    | received k => exact before ((List.filter_sublist.map _).subset h)
    | timeout => exact before h
    | resent f ok =>
      refine before ?_
      have hids := (List.filter_sublist.map _).subset h
      rw [List.map_map] at hids
      obtain ⟨y, hy, rfl⟩ := List.mem_map.mp hids
      refine List.mem_map.mpr ⟨y, hy, ?_⟩
      dsimp only [Function.comp]
      split_ifs <;> rfl

/-- A frame that has not been taken has never waited. -/
theorem Run.not_listed (hrounds : 0 < rounds) (h : Run rounds period t W E n) :
    ∀ f ∈ W, ∀ t₁, t₁ <+: t → ¬ Listed rounds t₁ f.id := by
  induction h using Run.event_induction with
  | init => simp
  | @queue t W E n f h hf ih =>
    intro g hg t₁ hpre hlisted
    rcases List.mem_append.mp hg with hg | hg
    · exact ih g hg t₁ hpre hlisted
    · obtain ⟨x, hx, hands⟩ := hands_of_listed hlisted
      rw [List.mem_singleton.mp hg] at hands
      exact (h.hands_lt x (hpre.subset hx) f.id hands).not_ge hf
  | event h h' hkept ih =>
    intro f hf t₁ hpre hlisted
    rcases List.prefix_concat_iff.mp hpre with rfl | hpre
    · obtain ⟨e, he, heq⟩ := (h'.listed_iff hrounds f.id).mp hlisted
      exact (List.nodup_append.mp h'.nodup).2.2 _ (List.mem_map_of_mem he) _
        (List.mem_map_of_mem hf) heq
    · exact ih f (hkept.waits hf) t₁ hpre hlisted

/-- A frame that has left is not in hand. -/
theorem Run.not_mem_of_left (hrounds : 0 < rounds) (h : Run rounds period t W E n) :
    ∀ b, Left rounds t b → b ∉ ids W E := by
  induction h using Run.event_induction with
  | init => simp [ids]
  | @queue t W E n f h hf ih =>
    intro b hleft hb
    have heq : ids (W ++ [f]) E = ids W E ++ [f.id] := by simp [ids]
    rw [heq, List.mem_append, List.mem_singleton] at hb
    rcases hb with hb | rfl
    · exact ih b hleft hb
    · obtain ⟨t₁, t₂, hpre, hpre', hlisted, -⟩ := hleft
      obtain ⟨x, hx, hands⟩ := hands_of_listed hlisted
      exact (h.hands_lt x ((hpre.trans hpre').subset hx) f.id hands).not_ge hf
  | event h h' hkept ih =>
    rintro b ⟨t₁, t₂, hpre, hpre', hlisted, hnot⟩ hb
    rcases List.prefix_concat_iff.mp hpre' with rfl | hpre'
    · rcases List.mem_append.mp hb with hb | hb
      · exact hnot ((h'.listed_iff hrounds b).mpr (List.mem_map.mp hb))
      · obtain ⟨f, hf, rfl⟩ := List.mem_map.mp hb
        exact h'.not_listed hrounds f hf t₁ hpre hlisted
    · exact ih b ⟨t₁, t₂, hpre, hpre', hlisted, hnot⟩ (hkept.ids.subset hb)

/-- The event at a place is the last one, or at a place before it. -/
theorem snoc_eq_append_cons {α : Type} {t t₁ t₂ : List α} {x y : α}
    (h : t ++ [x] = t₁ ++ y :: t₂) :
    t₂ = [] ∧ t₁ = t ∧ y = x ∨ ∃ t₃, t₂ = t₃ ++ [x] ∧ t = t₁ ++ y :: t₃ := by
  rcases List.eq_nil_or_concat t₂ with rfl | ⟨t₃, z, rfl⟩
  · obtain ⟨rfl, hx⟩ := List.append_inj' h rfl
    exact .inl ⟨rfl, rfl, (List.singleton_inj.mp hx).symm⟩
  · rw [List.concat_eq_append, ← List.cons_append, ← List.append_assoc] at h
    obtain ⟨rfl, hx⟩ := List.append_inj' h rfl
    exact .inr ⟨t₃, by rw [List.concat_eq_append, List.singleton_inj.mp hx], rfl⟩

theorem Run.silent (hrounds : 0 < rounds) (h : Run rounds period t W E n) {b : ℕ} :
    ∀ (t₁ : List (Event κ)) (x : Event κ) (t₂ : List (Event κ)), t = t₁ ++ x :: t₂ →
      x.Hands b → ¬ Left rounds t₁ b := by
  induction h using Run.event_induction with
  | init => simp
  | queue h hf ih => exact ih
  | event h h' hkept ih =>
    intro t₁ y t₂ ht hands hleft
    rcases snoc_eq_append_cons ht with ⟨-, rfl, rfl⟩ | ⟨t₃, -, ht⟩
    · exact h.not_mem_of_left hrounds b hleft (hkept.hands b hands)
    · exact ih t₁ y t₃ ht hands hleft

/-! ### The distance of the rounds -/

/-- The time that has passed since a round of an entry and the time to its next one make up a
period. -/
def Entry.Passed (period : ℕ) (t : List (Event κ)) (e : Entry κ) : Prop :=
  ∀ (t₁ : List (Event κ)) (x : Event κ) (t₂ : List (Event κ)), t = t₁ ++ x :: t₂ →
    x.Repeats e.frame.id → period ≤ e.time + t₂.count .timeout

/-- The rounds of the frame `b` are `period` timeouts apart. -/
def Apart (period : ℕ) (t : List (Event κ)) (b : ℕ) : Prop :=
  ∀ (t₁ : List (Event κ)) (x : Event κ) (t₂ : List (Event κ)) (y : Event κ) (t₃ : List (Event κ)),
    t = t₁ ++ x :: (t₂ ++ y :: t₃) → x.Repeats b → y.Repeats b → period ≤ t₂.count .timeout

theorem Run.passed (h : Run rounds period t W E n) : ∀ e ∈ E, e.Passed period t := by
  -- an event that lets no time pass, and is no round of the entry
  have keep {t : List (Event κ)} {x : Event κ} {e : Entry κ} (hx : ¬ x.Repeats e.frame.id)
      (he : e.Passed period t) : e.Passed period (t ++ [x]) := by
    intro t₁ y t₂ ht hy
    rcases snoc_eq_append_cons ht with ⟨-, -, rfl⟩ | ⟨t₃, rfl, hbefore⟩
    · exact absurd hy hx
    · have hle := he t₁ y t₃ hbefore hy
      rw [List.count_append]
      omega
  have fresh {f : Frame κ} {k m : ℕ} : period ≤ (⟨f, k, period⟩ : Entry κ).time + m :=
    Nat.le_add_right _ _
  induction h with
  | init => simp
  | queue h hf ih => exact ih
  | refused h ih => exact fun e he => keep (fun hx => hx.elim) (ih e he)
  | taken h ih =>
    intro e he
    rcases List.mem_append.mp he with he | he
    · exact keep (fun hx => hx.elim) (ih e he)
    · split_ifs at he
      · rw [List.mem_singleton.mp he]
        exact fun _ _ _ _ _ => fresh
      · exact absurd he List.not_mem_nil
  | received h k ih =>
    exact fun e he => keep (fun hx => hx.elim) (ih e (List.eraseP_sublist.subset he))
  | timeout h hE ih =>
    intro e he t₁ y t₂ ht hy
    obtain ⟨e₀, he₀, rfl⟩ := List.mem_map.mp he
    rcases snoc_eq_append_cons ht with ⟨-, -, rfl⟩ | ⟨t₃, rfl, hbefore⟩
    · exact hy.elim
    · have hle := ih e₀ he₀ t₁ y t₃ hbefore hy
      have hpos := hE e₀ he₀
      change period ≤ e₀.time - 1 + _
      rw [List.count_append, List.count_singleton_self]
      omega
  | @resent t W xs e ys n h he ok ih =>
    intro e' he'
    obtain ⟨hxs, hys, -⟩ := h.others
    rw [List.append_assoc, List.mem_append, List.mem_append] at he'
    rcases he' with he' | he' | he'
    · exact keep (fun hx => hxs e' he' (Eq.symm hx)) (ih e' (by simp [he']))
    · unfold Entry.again at he'
      split_ifs at he'
      · exact absurd he' List.not_mem_nil
      · rw [List.mem_singleton.mp he']
        exact fun _ _ _ _ _ => fresh
    · exact keep (fun hx => hys e' he' (Eq.symm hx)) (ih e' (by simp [he']))

/-- A round comes when no time is left. -/
theorem Run.apart (h : Run rounds period t W E n) {b : ℕ} : Apart period t b := by
  -- the second round is at an earlier place, or it is the last event
  have earlier {t : List (Event κ)} {z : Event κ} (ht : Apart period t b)
      (hz : z.Repeats b → ∀ (t₁ : List (Event κ)) (x : Event κ) (t₂ : List (Event κ)),
        t = t₁ ++ x :: t₂ → x.Repeats b → period ≤ t₂.count .timeout) :
      Apart period (t ++ [z]) b := by
    intro t₁ x t₂ y t₃ heq hx hy
    rw [← List.cons_append, ← List.append_assoc] at heq
    rcases snoc_eq_append_cons heq with ⟨-, hbefore, rfl⟩ | ⟨t₄, rfl, hbefore⟩
    · exact hz hy t₁ x t₂ hbefore.symm hx
    · exact ht t₁ x t₂ y t₄ (by rw [hbefore, List.append_assoc, List.cons_append]) hx hy
  induction h with
  | init => simp [Apart]
  | queue h hf ih => exact ih
  | refused h ih => exact earlier ih fun hz => hz.elim
  | taken h ih => exact earlier ih fun hz => hz.elim
  | received h k ih => exact earlier ih fun hz => hz.elim
  | timeout h hE ih => exact earlier ih fun hz => hz.elim
  | @resent t W xs e ys n h he ok ih =>
    refine earlier ih fun (hz : e.frame.id = b) t₁ x t₂ ht hx => ?_
    have hle := h.passed e (by simp) t₁ x t₂ ht (hz ▸ hx)
    omega

theorem Run.disciplined (hrounds : 0 < rounds) (h : Run rounds period t W E n) :
    Disciplined rounds period t where
  bounded := (h.taken_le hrounds).1
  silent := fun _ => h.silent hrounds
  apart := fun _ => h.apart

end Run

end ResendQueue
