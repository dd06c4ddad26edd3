import Tulux.GeoNetRouter.Duplicates

/-! The duplicated packet list of one entry over all calls of `isDuplicated`: the last numbers that
were accepted, each once. -/
namespace Tulux.GeoNetRouter
open GuardedRun RecentList

/-- An entry with the numbers that were accepted: those for which a call has returned false.
Nothing reads them. -/
structure DplHistory where
  entry : LocTableEntry
  accepted : List ℕ

namespace DplHistory

def call (s : DplHistory) (sn : ℕ) : DplHistory where
  entry := s.entry.record sn
  accepted := if s.entry.isDuplicated sn then s.accepted else s.accepted ++ [sn]

/-- A new entry. The constructor for the vector of a destination makes the same one. -/
def start (src : Lpv) (isNeighbor : Bool) : DplHistory := ⟨.ofLpv src isNeighbor, []⟩

/-- The list holds the numbers that were accepted last. -/
def Follows (s : DplHistory) : Prop := s.entry.sns = recent maxDplLen s.accepted

variable {s : DplHistory}

theorem Follows.isDuplicated_iff (h : s.Follows) (sn : ℕ) :
    s.entry.isDuplicated sn = true ↔ sn ∈ recent maxDplLen s.accepted := by
  rw [LocTableEntry.isDuplicated_iff, h]

theorem Follows.call (h : s.Follows) (sn : ℕ) : (s.call sn).Follows := by
  unfold Follows DplHistory.call
  dsimp only
  rw [LocTableEntry.sns_record]
  by_cases hsn : s.entry.isDuplicated sn = true
  · have hmem := (LocTableEntry.isDuplicated_iff sn).mp hsn
    rw [if_pos hsn, RecentList.record, if_pos hmem]
    exact h
  · have hnot : sn ∉ recent maxDplLen s.accepted := fun hmem =>
      hsn ((h.isDuplicated_iff sn).mpr hmem)
    rw [if_neg hsn, h]
    exact record_recent hnot

theorem follows_final (src : Lpv) (isNeighbor : Bool) (calls : List ℕ) :
    (final call (start src isNeighbor) calls).Follows := by
  induction calls using List.reverseRecOn with
  | nil => rfl
  | append_singleton calls sn ih =>
    rw [final_append]
    exact ih.call sn

/-- After any calls a number is a duplicate exactly when it is one of the last `MAX_DPL_LEN` numbers
that were accepted. These are the list, each of them once and in the order in which they were
accepted last. -/
theorem isDuplicated_iff_recent (src : Lpv) (isNeighbor : Bool) (calls : List ℕ) :
    let s := final call (start src isNeighbor) calls
    (∀ sn, s.entry.isDuplicated sn = true ↔ sn ∈ recent maxDplLen s.accepted) ∧
      s.entry.sns = recent maxDplLen s.accepted ∧ s.entry.sns.Nodup ∧
      s.entry.dpl.length ≤ maxDplLen := by
  intro s
  have h : s.Follows := follows_final src isNeighbor calls
  have hlength : s.entry.dpl.length = s.entry.sns.length := (List.length_map _).symm
  refine ⟨h.isDuplicated_iff, h, ?_, ?_⟩
  · rw [h]
    exact nodup_recent _ _
  · rw [hlength, h]
    exact length_recent_le _ _

end DplHistory

end Tulux.GeoNetRouter
