import Tulux.QApplication.LdmFilter

/-! The verdict of the filter of received BSMs, and the list of malicious ids. -/
namespace Tulux.QApplication
open QCoder SortedMap

/-- A criterion other than the age and the timestamp is met, with the packets lost. -/
def FilterThresholds.Suspect (thresh : FilterThresholds) (lost : ℤ) (id : ℕ) : Prop :=
  thresh.packeLossThresh.toNat < u32 lost ∨ 0 < thresh.distanceThresh.toNat ∨
    0 > thresh.positionCertaintyThresh.toNat ∨ thresh.tuncExceeded id = true

namespace FilterLdm
section Verdict
variable (thresh : FilterThresholds) (s : FilterLdm) (index : ℕ)

/-- What `filterBsm` returns. A message that is not held back reaches the end of the source without
a `return`. -/
def verdict : Option (Option Bool × FilterLdm) :=
  (filterBsm thresh s index).map fun r => (if r.1 then some true else none, r.2)

/-- The packets lost of an id with those before a message. -/
def lostWith (bsm : BsmValue) : ℤ :=
  addLost (s.lost bsm.id) (prevCount s.ldm.toLdm bsm.id) bsm.msgCount

/-- The slot of the message before. -/
def PreviousAt (id i : ℕ) : Prop := s.ldm.getIndex id = some (.index i)

/-- The message is later than the one before by more than the threshold, in milliseconds. -/
def Aged (i : ℕ) : Prop := thresh.ageThresh.toNat <
  (s.ldm.timestampMs index).toNat - (s.ldm.timestampMs i).toNat

def Repeated (i : ℕ) : Prop := s.ldm.timestampMs index = s.ldm.timestampMs i

/-- A message meets one of the criteria. -/
def MeetsCriterion (bsm : BsmValue) : Prop := thresh.Suspect (s.lostWith bsm) bsm.id ∨
  ∃ i, s.PreviousAt bsm.id i ∧ (s.Aged thresh index i ∨ s.Repeated index i)

/-- The filter returns whether the id of the message is on the list behind it. The id is put on the
list once at most, and only when the message meets a criterion. -/
def RightVerdict : Prop := ∃ bsm result s', (s.ldm.bsmContents[index]?).join = some bsm ∧
  verdict thresh s index = some (some result, s') ∧
  (result = true ↔ bsm.id ∈ s'.maliciousIds) ∧
  s'.maliciousIds.count bsm.id ≤ s.maliciousIds.count bsm.id + 1 ∧
  (s.maliciousIds.count bsm.id < s'.maliciousIds.count bsm.id →
    s.MeetsCriterion thresh index bsm)

/-- The id is on the list already; or the message does not repeat the timestamp of the one before,
and it is suspect, or later by more than the threshold when the lower half of the timestamp before
is over the threshold too. -/
def JudgedRight : Prop := ∃ bsm, (s.ldm.bsmContents[index]?).join = some bsm ∧
  (bsm.id ∈ s.maliciousIds ∨
    (∀ i, s.PreviousAt bsm.id i → ((s.ldm.bsmContents[i]?).join).isSome ∧ ¬ s.Repeated index i) ∧
      (thresh.Suspect (s.lostWith bsm) bsm.id ∨ ∃ i, s.PreviousAt bsm.id i ∧
        s.Aged thresh index i ∧
        thresh.ageThresh.toNat < (s.ldm.timestampMs i).toNat % 2 ^ 32))

end Verdict

variable {thresh : FilterThresholds} {s s' s₁ : FilterLdm} {index age : ℕ} {bsm prev : BsmValue}

/-- The last part of the filter puts the id on the list when a criterion is met, with the age that
it is given, and else does not return. -/
theorem runFilter_eq (thresh : FilterThresholds) (s : FilterLdm) (id age : ℕ) :
    (thresh.Suspect (s.lost id) id ∨ thresh.ageThresh.toNat < age) ∧
      (∃ s', s.runFilter thresh id age = (true, s') ∧
        s'.maliciousIds = s.maliciousIds ++ [id]) ∨
    ¬ (thresh.Suspect (s.lost id) id ∨ thresh.ageThresh.toNat < age) ∧
      ∃ s', s.runFilter thresh id age = (false, s') := by
  unfold runFilter FilterThresholds.Suspect lost
  dsimp only
  split_ifs with hfires
  · exact .inl ⟨by tauto, _, rfl, rfl⟩
  · exact .inr ⟨by tauto, _, rfl⟩

theorem lost_comparePrevious (timestamp prevTimestamp : UInt64) :
    (s.comparePrevious bsm prev timestamp prevTimestamp).lost bsm.id =
      addLost (s.lost bsm.id) (some prev.msgCount) bsm.msgCount := countLost_self

section Known
variable (hbsm : (s.ldm.bsmContents[index]?).join = some bsm)
include hbsm

/-- A message whose id is on the list. -/
theorem rightVerdict_of_malicious (hmalicious : bsm.id ∈ s.maliciousIds) :
    s.RightVerdict thresh index := by
  have hreturn : s.verdict thresh index = some (some true, s) := by
    simp [verdict, filterBsm, hbsm, hmalicious]
  exact ⟨bsm, true, s, hbsm, hreturn, iff_of_true rfl hmalicious, Nat.le_succ _,
    fun hlt => absurd hlt (lt_irrefl _)⟩

/-- The filter comes to its last part with the list as it was. -/
theorem rightVerdict_of_same
    (hrun : filterBsm thresh s index = some (s₁.runFilter thresh bsm.id age))
    (hlost : s₁.lost bsm.id = s.lostWith bsm) (hsame : s₁.maliciousIds = s.maliciousIds) :
    s.RightVerdict thresh index ↔
      (thresh.Suspect (s.lostWith bsm) bsm.id ∨ thresh.ageThresh.toNat < age) ∧
        s.MeetsCriterion thresh index bsm := by
  have hcases := runFilter_eq thresh s₁ bsm.id age
  rw [hlost, hsame] at hcases
  rcases hcases with ⟨hfires, s', hreturn, hlist⟩ | ⟨hfires, s', hreturn⟩
  · have hverdict : s.verdict thresh index = some (some true, s') := by
      rw [verdict, hrun, hreturn]
      rfl
    have hcount : s'.maliciousIds.count bsm.id = s.maliciousIds.count bsm.id + 1 := by
      rw [hlist, List.count_append, List.count_singleton_self]
    rw [and_iff_right hfires]
    constructor
    · rintro ⟨bsm', result, s'', hbsm', hverdict', -, -, honly⟩
      obtain rfl := Option.some.inj (hbsm.symm.trans hbsm')
      obtain ⟨-, rfl⟩ := Prod.mk.inj (Option.some.inj (hverdict.symm.trans hverdict'))
      exact honly (hcount ▸ Nat.lt_succ_self _)
    · intro hmeets
      exact ⟨bsm, true, s', hbsm, hverdict, iff_of_true rfl (by simp [hlist]), hcount.le,
        fun _ => hmeets⟩
  · refine iff_of_false ?_ fun h => hfires h.1
    rintro ⟨_, result, s'', -, hverdict', -⟩
    rw [verdict, hrun, hreturn] at hverdict'
    cases hverdict'

/-- The filter comes to its last part with the id on the list: it does not return, or puts the id
on the list again. -/
theorem not_rightVerdict_of_pushed
    (hrun : filterBsm thresh s index = some (s₁.runFilter thresh bsm.id age))
    (hpushed : s₁.maliciousIds = s.maliciousIds ++ [bsm.id]) : ¬ s.RightVerdict thresh index := by
  rintro ⟨bsm', result, s'', hbsm', hverdict, -, honce, -⟩
  obtain rfl := Option.some.inj (hbsm.symm.trans hbsm')
  rcases runFilter_eq thresh s₁ bsm.id age with ⟨-, s', hreturn, hlist⟩ | ⟨-, s', hreturn⟩
  all_goals rw [verdict, hrun, hreturn] at hverdict
  · obtain ⟨-, rfl⟩ := Prod.mk.inj (Option.some.inj hverdict)
    rw [hlist, hpushed, List.count_append, List.count_append, List.count_singleton_self] at honce
    omega
  · cases hverdict

/-- Without a message before, a criterion other than the age is needed. -/
theorem rightVerdict_of_first
    (hrun : filterBsm thresh s index = some (s.runFilter thresh bsm.id age))
    (hfirst : ∀ i, ¬ s.PreviousAt bsm.id i) :
    s.RightVerdict thresh index ↔ thresh.Suspect (s.lostWith bsm) bsm.id := by
  have hprev : prevCount s.ldm.toLdm bsm.id = none := by
    unfold prevCount Ldm.findBsm
    split
    · exact absurd ‹_› (hfirst _)
    · rfl
  have hlost : s.lost bsm.id = s.lostWith bsm := by
    rw [lostWith, hprev]
    rfl
  rw [rightVerdict_of_same hbsm hrun hlost rfl, MeetsCriterion]
  simp only [hfirst, false_and, exists_false, or_false]
  exact and_iff_right_of_imp Or.inl

end Known

/-- The verdict is right exactly when the id is on the list already, or when a criterion holds the
message back that is met in fact and the timestamp is not repeated. -/
theorem rightVerdict_iff (thresh : FilterThresholds) (s : FilterLdm) (index : ℕ) :
    s.RightVerdict thresh index ↔ s.JudgedRight thresh index := by
  cases hbsm : (s.ldm.bsmContents[index]?).join with
  | none =>
    refine iff_of_false ?_ ?_
    · rintro ⟨_, _, _, hsome, -⟩
      cases hbsm.symm.trans hsome
    · rintro ⟨_, hsome, -⟩
      cases hbsm.symm.trans hsome
  | some bsm =>
    simp only [JudgedRight, hbsm, Option.some_inj, exists_eq_left']
    by_cases hmalicious : bsm.id ∈ s.maliciousIds
    · exact iff_of_true (rightVerdict_of_malicious hbsm hmalicious) (.inl hmalicious)
    rw [or_iff_right hmalicious]
    cases hfound : s.ldm.getIndex bsm.id with
    | none =>
      have hfirst (i : ℕ) : ¬ s.PreviousAt bsm.id i := by simp [PreviousAt, hfound]
      have hrun : filterBsm thresh s index = some (s.runFilter thresh bsm.id 0) := by
        simp [filterBsm, hbsm, hmalicious, hfound]
      rw [rightVerdict_of_first hbsm hrun hfirst]
      simp [hfirst]
    | some w =>
      cases w with
      | dirtyData =>
        have hfirst (i : ℕ) : ¬ s.PreviousAt bsm.id i := by simp [PreviousAt, hfound]
        have hrun : filterBsm thresh s index =
            some (s.runFilter thresh bsm.id (2 ^ 32 - 1)) := by
          simp [filterBsm, hbsm, hmalicious, hfound]
        rw [rightVerdict_of_first hbsm hrun hfirst]
        simp [hfirst]
      | index i =>
        have hat (j : ℕ) : s.PreviousAt bsm.id j ↔ i = j := by simp [PreviousAt, hfound]
        simp only [hat, forall_eq', exists_eq_left']
        cases hslot : (s.ldm.bsmContents[i]?).join with
        | none =>
          refine iff_of_false ?_ (by simp)
          rintro ⟨_, _, _, _, hverdict, -⟩
          simp [verdict, filterBsm, hbsm, hmalicious, hfound, hslot] at hverdict
        | some prev =>
          have hrun : filterBsm thresh s index = some ((s.comparePrevious bsm prev
              (s.ldm.timestampMs index) (s.ldm.timestampMs i)).runFilter thresh bsm.id
                ((s.ldm.timestampMs i).toNat % 2 ^ 32)) := by
            simp [filterBsm, hbsm, hmalicious, hfound, hslot]
          have hprev : prevCount s.ldm.toLdm bsm.id = some prev.msgCount := by
            simp [prevCount, Ldm.findBsm, hfound, hslot]
          by_cases hrepeated : s.Repeated index i
          · refine iff_of_false (not_rightVerdict_of_pushed hbsm hrun ?_) fun h => h.1.2 hrepeated
            exact if_pos hrepeated
          · have hlost : (s.comparePrevious bsm prev (s.ldm.timestampMs index)
                (s.ldm.timestampMs i)).lost bsm.id = s.lostWith bsm := by
              rw [lost_comparePrevious, lostWith, hprev]
            rw [rightVerdict_of_same hbsm hrun hlost (if_neg hrepeated)]
            simp only [MeetsCriterion, hat, exists_eq_left', hrepeated]
            simp only [Option.isSome_some, not_false_eq_true, and_self, true_and, or_false]
            tauto

/-- The second message of the id 7, behind one with the timestamp `before`. -/
def followed (before now : UInt64) : FilterLdm where
  ldm := {
    bsmContents := [some { callocBsm with id := 7 }, some { callocBsm with id := 7, msgCount := 1 }]
    bsmFreeContents := []
    bsmIdMap := [(7, .index 0)]
    timestampMs := fun i => if i = 0 then before else now
    sorted := List.pairwise_singleton _ _ }
  bsmPacketsLost := fun _ => none
  maliciousIds := []

/-- A message that is not held back gets no value; one with the timestamp of the one before is put
on the list and gets none either; and with the threshold of five milliseconds of the configuration
one that is a millisecond later is held back for its age. -/
theorem followed_not_rightVerdict :
    ¬ (followed 1000 1001).RightVerdict openThresholds 1 ∧
    ¬ (followed 1000 1000).RightVerdict openThresholds 1 ∧
    ¬ (followed 1000 1001).RightVerdict { openThresholds with ageThresh := 5 } 1 := by
  have hcalm (thresh : FilterThresholds) (hloss : thresh.packeLossThresh = 10)
      (hdistance : thresh.distanceThresh = 0) (htunc : thresh.tuncExceeded 7 = false) :
      ¬ thresh.Suspect ((followed 1000 1001).lostWith { callocBsm with id := 7, msgCount := 1 })
        7 := by
    have hlost : (followed 1000 1001).lostWith { callocBsm with id := 7, msgCount := 1 } = 0 := by
      decide +kernel
    rw [FilterThresholds.Suspect, hlost, hloss, hdistance, htunc]
    simp [u32]
  refine ⟨?_, not_rightVerdict_of_pushed rfl rfl rfl, ?_⟩
  all_goals rw [rightVerdict_of_same rfl rfl rfl rfl]
  · rintro ⟨hsuspect | hage, -⟩
    · exact hcalm openThresholds rfl rfl rfl hsuspect
    · exact absurd hage (by decide +kernel)
  · rintro ⟨-, hsuspect | ⟨i, hi, haged | hrepeated⟩⟩
    · exact hcalm { openThresholds with ageThresh := 5 } rfl rfl rfl hsuspect
    all_goals obtain rfl : 0 = i := BsmIndex.index.inj (Option.some.inj hi)
    · unfold Aged at haged
      exact absurd haged (by decide +kernel)
    · unfold Repeated at hrepeated
      exact absurd hrepeated (by decide +kernel)

end FilterLdm

end Tulux.QApplication
