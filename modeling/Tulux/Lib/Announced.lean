import Mathlib.Tactic

/-! Two threads that announce an event and then record it in a flag, so that another call can
announce between the two. -/

/-- Where a thread is: in no call, before it announces `b`, or before it records `b`. -/
inductive Announcer where
  | out
  | sends (b : Bool)
  | sets (b : Bool)
  deriving DecidableEq, Repr

namespace Announcer

/-- What the thread is announcing. -/
def past : Announcer → Option Bool
  | .out => none
  | .sends b => some b
  | .sets b => some b

/-- The flag is the last event, but for a thread that has announced and not recorded yet. The two
threads do not announce different events at a time. -/
structure Agree (flag last : Bool) (x y : Announcer) : Prop where
  sets : ∀ b, x = .sets b ∨ y = .sets b → last = b
  behind : last ≠ flag → x = .sets last ∨ y = .sets last
  same : ∀ b c, x.past = some b → y.past = some c → b = c

variable {flag last b : Bool} {x y : Announcer}

theorem agree_out (b : Bool) : Agree b b .out .out :=
  ⟨by simp, by simp, by simp [past]⟩

theorem Agree.symm (h : Agree flag last x y) : Agree flag last y x := by
  refine ⟨fun b hb => h.sets b hb.symm, fun hne => (h.behind hne).symm, fun b c hb hc => ?_⟩
  exact (h.same c b hc hb).symm

/-- A thread starts to announce while the other announces nothing else. -/
theorem Agree.enter (h : Agree flag last .out y) (hy : ∀ c, y.past = some c → c = b) :
    Agree flag last (.sends b) y := by
  refine ⟨fun c hc => h.sets c (by simpa using hc), fun hne => ?_, fun c d hc hd => ?_⟩
  · simpa using h.behind hne
  · obtain rfl : b = c := by simpa [past] using hc
    exact (hy d hd).symm

theorem Agree.announce (h : Agree flag last (.sends b) y) : Agree flag b (.sets b) y := by
  refine ⟨fun c hc => ?_, fun _ => Or.inl rfl, fun c d hc hd => h.same c d hc hd⟩
  rcases hc with hx | hy
  · exact Announcer.sets.inj hx
  · exact h.same b c rfl (by simp [hy, past])

theorem Agree.record (h : Agree flag last (.sets b) y) : Agree b last .out y := by
  have hlast : last = b := h.sets b (Or.inl rfl)
  refine ⟨fun c hc => h.sets c (by simpa using Or.inr hc), fun hne => absurd hlast hne, ?_⟩
  simp [past]

/-- A thread is stopped before it announces. -/
theorem Agree.leave (h : Agree flag last (.sends b) y) : Agree flag last .out y := by
  refine ⟨fun c hc => h.sets c (by simpa using hc), fun hne => ?_, by simp [past]⟩
  simpa using h.behind hne

theorem Agree.flag_eq (h : Agree flag last x y) (hx : ∀ b, x ≠ .sets b) (hy : ∀ b, y ≠ .sets b) :
    flag = last := by
  by_contra hne
  rcases h.behind (Ne.symm hne) with hset | hset
  · exact hx last hset
  · exact hy last hset

end Announcer
