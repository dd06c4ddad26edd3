import Tulux.QApplication.Ldm

/-! Who has the slots of the LDM, over runs of the receiver and the collector. -/
namespace Tulux.QApplication
open QCoder GuardedRun SortedMap

/-- Where the receiver is: between two datagrams, with a slot from `getFreeBsm`, or in `setIndex`
between the lookup of the id and the update. -/
inductive ReceiveState where
  | idle
  | checkedOut (slot : ℕ)
  | settingIndex (slot id : ℕ) (found : Option BsmIndex)

structure LdmRun where
  ldm : Ldm
  receiver : ReceiveState

/-- Calls of the receiver, with what the decoder makes of the datagram, and of the collector. -/
inductive SlotEvent where
  | getFreeBsm (junk : Option BsmValue)
  | receive (decoded : Option ℕ)
  | receiveTuncBsm (filtered : Bool) (id : ℕ)
  | updateIndex
  | collect (old : ℕ → Bool)

namespace LdmRun

/-- `setIndex` looks the id up. -/
def startSetIndex (s : LdmRun) (slot id : ℕ) : LdmRun :=
  { s with receiver := .settingIndex slot id (s.ldm.getIndex id) }

def step (s : LdmRun) : SlotEvent → LdmRun
  | .getFreeBsm junk =>
    match s.receiver with
    | .idle => ⟨(s.ldm.getFreeBsm junk).2, .checkedOut (s.ldm.getFreeBsm junk).1⟩
    | _ => s
  | .receive decoded =>
    match s.receiver, decoded with
    | .checkedOut slot, some id => s.startSetIndex slot id
    -- nothing is done about the slot
    | .checkedOut _, none => { s with receiver := .idle }
    | _, _ => s
  | .receiveTuncBsm filtered id =>
    match s.receiver with
    | .checkedOut slot =>
      if filtered then { s with receiver := .idle } else s.startSetIndex slot id
    | _ => s
  | .updateIndex =>
    match s.receiver with
    | .settingIndex slot id found => ⟨s.ldm.updateIndex found id slot, .idle⟩
    | _ => s
  | .collect old => { s with ldm := s.ldm.collect old }

/-- The slot of an id. -/
def slotOf : BsmIndex → Option ℕ
  | .dirtyData => none
  | .index i => some i

@[simp] theorem slotOf_dirtyData : slotOf .dirtyData = none := rfl

@[simp] theorem slotOf_index (i : ℕ) : slotOf (.index i) = some i := rfl

def mapped (ldm : Ldm) : List ℕ := ldm.bsmIdMap.filterMap fun e => slotOf e.2

def checkedOut (s : LdmRun) : List ℕ :=
  match s.receiver with
  | .idle => []
  | .checkedOut slot => [slot]
  | .settingIndex slot _ _ => [slot]

/-- How often a slot is free, mapped by an id or with the receiver. -/
def holders (s : LdmRun) (i : ℕ) : ℕ :=
  s.ldm.bsmFreeContents.count i + (mapped s.ldm).count i + s.checkedOut.count i

/-- Every slot is in one of the three places, once. -/
def Owned (s : LdmRun) : Prop :=
  ∀ i, s.holders i = if i < s.ldm.bsmContents.length then 1 else 0

/-- No decode fails, no message is filtered, and the collector does not take the old slot of the
id while `setIndex` is between its lookup and its update. -/
def SlotKept (s : LdmRun) : SlotEvent → Prop
  | .receive none => ∀ slot, s.receiver ≠ .checkedOut slot
  | .receiveTuncBsm true _ => ∀ slot, s.receiver ≠ .checkedOut slot
  | .updateIndex => ∀ slot id found, s.receiver = .settingIndex slot id found →
      s.ldm.getIndex id = found
  | _ => True

/-- The map is sorted, and what `setIndex` has found is there still or was collected since. -/
structure WellFormed (s : LdmRun) : Prop where
  sorted : Sorted (fun key => key) s.ldm.bsmIdMap
  found : ∀ slot id found, s.receiver = .settingIndex slot id found →
    s.ldm.getIndex id = found ∨ ∃ i, found = some (.index i) ∧
      s.ldm.getIndex id = some .dirtyData ∧ i ∈ s.ldm.bsmFreeContents

/-! ### What a step does to the slots -/

variable {s : LdmRun} {ldm : Ldm} {id slot : ℕ}

theorem mapped_set_of_none (slot : ℕ) (h : ldm.getIndex id = none) (i : ℕ) :
    (mapped { ldm with
      bsmIdMap := set (fun key => key) id (.index slot) ldm.bsmIdMap }).count i =
      (mapped ldm).count i + [slot].count i := by
  have hperm := (perm_set (v := BsmIndex.index slot) h).filterMap fun e => slotOf e.2
  rw [mapped, hperm.count_eq, add_comm, ← List.count_append]
  rfl

theorem mapped_set_of_some (slot : ℕ) (hsorted : Sorted (fun key => key) ldm.bsmIdMap) {w : BsmIndex}
    (h : ldm.getIndex id = some w) (i : ℕ) :
    (slotOf w).toList.count i + (mapped { ldm with
      bsmIdMap := set (fun key => key) id (.index slot) ldm.bsmIdMap }).count i =
      (mapped ldm).count i + [slot].count i := by
  have hperm := (perm_values_set (v := BsmIndex.index slot) hsorted h).filterMap slotOf
  have hcount := hperm.count_eq i
  rw [List.filterMap_cons, List.filterMap_cons, List.filterMap_map, List.filterMap_map] at hcount
  rw [mapped, mapped, add_comm ((ldm.bsmIdMap.filterMap _).count i), ← List.count_append,
    ← List.count_append]
  cases w <;> exact hcount

/-- What is found in the map leaves it for the free list. -/
theorem count_updateIndex (id slot : ℕ) (hsorted : Sorted (fun key => key) ldm.bsmIdMap) (i : ℕ) :
    (ldm.updateIndex (ldm.getIndex id) id slot).bsmFreeContents.count i +
        (mapped (ldm.updateIndex (ldm.getIndex id) id slot)).count i =
      ldm.bsmFreeContents.count i + (mapped ldm).count i + [slot].count i := by
  cases hfound : ldm.getIndex id with
  | none =>
    have hinsert : insert (fun key => key) id (BsmIndex.index slot) ldm.bsmIdMap = _ :=
      insert_of_none hfound
    have hcount := mapped_set_of_none slot hfound i
    simp only [Ldm.updateIndex, hinsert]
    omega
  | some w =>
    have hcount := mapped_set_of_some slot hsorted hfound i
    cases w with
    | dirtyData =>
      simp only [slotOf_dirtyData, Option.toList_none, List.count_nil] at hcount
      simp only [Ldm.updateIndex]
      omega
    | index j =>
      simp only [slotOf_index, Option.toList_some] at hcount
      simp only [Ldm.updateIndex, List.count_append, mapped] at hcount ⊢
      omega

theorem count_collect (ldm : Ldm) (old : ℕ → Bool) (i : ℕ) :
    (ldm.collect old).bsmFreeContents.count i + (mapped (ldm.collect old)).count i =
      ldm.bsmFreeContents.count i + (mapped ldm).count i := by
  have hmap (m : List (ℕ × BsmIndex)) : (m.filterMap fun e => Ldm.oldIndex old e.2).count i +
      ((m.map fun e => (e.1, Ldm.markOld old e.2)).filterMap fun e => slotOf e.2).count i =
        (m.filterMap fun e => slotOf e.2).count i := by
    induction m with
    | nil => rfl
    | cons e m ih =>
      obtain ⟨id, w⟩ := e
      simp only [List.map_cons, List.filterMap_cons]
      cases w with
      | dirtyData => exact ih
      | index j =>
        rw [Ldm.oldIndex_index, Ldm.markOld_index]
        cases old j <;> simp only [if_true, Bool.false_eq_true, if_false, slotOf_index,
          slotOf_dirtyData, List.count_cons] <;> omega
  have hfree : (ldm.collect old).bsmFreeContents.count i = ldm.bsmFreeContents.count i +
      (ldm.bsmIdMap.filterMap fun e => Ldm.oldIndex old e.2).count i := List.count_append
  rw [hfree, mapped, mapped, ← hmap ldm.bsmIdMap, ← Nat.add_assoc]
  rfl

theorem getFreeBsm_holders (ldm : Ldm) (junk : Option BsmValue) (i : ℕ) :
    (ldm.getFreeBsm junk).2.bsmFreeContents.count i + (mapped (ldm.getFreeBsm junk).2).count i +
        [(ldm.getFreeBsm junk).1].count i =
      ldm.bsmFreeContents.count i + (mapped ldm).count i +
        if ldm.bsmFreeContents = [] ∧ i = ldm.bsmContents.length then 1 else 0 := by
  unfold Ldm.getFreeBsm
  cases hfree : ldm.bsmFreeContents with
  | nil =>
    by_cases hi : i = ldm.bsmContents.length
    · simp [hi, mapped]
    · simp [hi, mapped, Ne.symm hi]
  | cons index free =>
    simp only [mapped, List.count_cons, List.count_nil, reduceCtorEq, false_and, if_false]
    omega

theorem getFreeBsm_length (ldm : Ldm) (junk : Option BsmValue) :
    (ldm.getFreeBsm junk).2.bsmContents.length =
      ldm.bsmContents.length + if ldm.bsmFreeContents = [] then 1 else 0 := by
  unfold Ldm.getFreeBsm
  cases hfree : ldm.bsmFreeContents with
  | nil => rw [if_pos rfl, List.length_append, List.length_singleton]
  | cons index free => rfl

/-! ### Steps -/

theorem Owned.holders_le_one (howned : s.Owned) (i : ℕ) : s.holders i ≤ 1 := by
  rw [howned i]
  split_ifs <;> omega

/-- A slot that is left where it is belongs to nobody. -/
theorem not_owned_idle (howned : Owned ⟨ldm, .checkedOut slot⟩) : ¬ Owned ⟨ldm, .idle⟩ := by
  intro hidle
  have hbefore := howned slot
  have hafter := hidle slot
  simp only [holders, checkedOut, List.count_singleton_self, List.count_nil] at hbefore hafter
  omega

theorem owned_getFreeBsm (howned : Owned ⟨ldm, .idle⟩) (junk : Option BsmValue) :
    Owned ⟨(ldm.getFreeBsm junk).2, .checkedOut (ldm.getFreeBsm junk).1⟩ := by
  intro i
  have hbefore := howned i
  have hcount := getFreeBsm_holders ldm junk i
  have hlength := getFreeBsm_length ldm junk
  simp only [holders, checkedOut, List.count_nil] at hbefore ⊢
  rw [hcount, hlength]
  by_cases hfree : ldm.bsmFreeContents = []
  · simp only [hfree, true_and, if_true] at hbefore ⊢
    split_ifs at hbefore ⊢ <;> omega
  · simp only [hfree, false_and, if_false] at hbefore ⊢
    exact hbefore

/-- `setIndex` gives the slot to the id when it goes by what the id has now. -/
theorem owned_updateIndex_iff {found : Option BsmIndex}
    (hs : WellFormed ⟨ldm, .settingIndex slot id found⟩)
    (howned : Owned ⟨ldm, .settingIndex slot id found⟩) :
    Owned ⟨ldm.updateIndex found id slot, .idle⟩ ↔ ldm.getIndex id = found := by
  rcases hs.found slot id found rfl with hfound | ⟨j, rfl, hdirty, hfree⟩
  · refine iff_of_true (fun i => ?_) hfound
    have hbefore := howned i
    have hcount := count_updateIndex id slot hs.sorted i
    rw [← hfound]
    simp only [holders, checkedOut, List.count_nil, Ldm.bsmContents_updateIndex] at hbefore ⊢
    rw [hcount]
    exact hbefore
  · -- the collector has put `j` on the free list, and here it goes there again
    refine iff_of_false (fun hafter => ?_) (by rw [hdirty]; simp)
    have hafter := hafter.holders_le_one j
    have hpos : 0 < ldm.bsmFreeContents.count j := List.count_pos_iff.mpr hfree
    simp only [holders, Ldm.updateIndex, List.count_append, List.count_singleton_self] at hafter
    omega

/-- A step keeps the slots owned exactly when it gives the slot at hand somewhere. -/
theorem owned_step_iff (hs : s.WellFormed) (howned : s.Owned) (event : SlotEvent) :
    (s.step event).Owned ↔ s.SlotKept event := by
  obtain ⟨ldm, receiver⟩ := s
  cases event with
  | getFreeBsm junk =>
    refine iff_of_true ?_ trivial
    cases receiver with
    | idle => exact owned_getFreeBsm howned junk
    | checkedOut | settingIndex => exact howned
  | receive decoded =>
    cases decoded with
    | some id =>
      refine iff_of_true ?_ trivial
      cases receiver <;> exact howned
    | none =>
      cases receiver with
      | checkedOut slot => exact iff_of_false (not_owned_idle howned) fun h => h slot rfl
      | idle | settingIndex => exact iff_of_true howned fun slot h => by cases h
  | receiveTuncBsm filtered id =>
    cases filtered with
    | false =>
      refine iff_of_true ?_ trivial
      cases receiver <;> exact howned
    | true =>
      cases receiver with
      | checkedOut slot => exact iff_of_false (not_owned_idle howned) fun h => h slot rfl
      | idle | settingIndex => exact iff_of_true howned fun slot h => by cases h
  | updateIndex =>
    cases receiver with
    | idle | checkedOut => exact iff_of_true howned fun _ _ _ h => by cases h
    | settingIndex slot id found =>
      refine (owned_updateIndex_iff hs howned).trans ⟨fun h => ?_, fun h => h slot id found rfl⟩
      rintro _ _ _ ⟨⟩
      exact h
  | collect old =>
    refine iff_of_true (fun i => ?_) trivial
    have hcount := count_collect ldm old i
    have hi := howned i
    simp only [holders, step] at hi ⊢
    rw [hcount]
    exact hi

theorem getIndex_collect (ldm : Ldm) (old : ℕ → Bool) (id : ℕ) :
    (ldm.collect old).getIndex id = (ldm.getIndex id).map (Ldm.markOld old) := by
  unfold Ldm.getIndex Ldm.collect
  dsimp only
  induction ldm.bsmIdMap with
  | nil => rfl
  | cons e m ih =>
    rw [List.map_cons, lookup_cons, ih, lookup_cons]
    split_ifs <;> rfl

theorem sorted_updateIndex (hsorted : Sorted (fun key => key) ldm.bsmIdMap)
    (found : Option BsmIndex) :
    Sorted (fun key => key) (ldm.updateIndex found id slot).bsmIdMap := by
  unfold Ldm.updateIndex
  split
  · exact sorted_set hsorted
  · exact sorted_set hsorted
  · unfold SortedMap.insert
    split_ifs
    · exact hsorted
    · exact sorted_set hsorted

theorem sorted_collect (hsorted : Sorted (fun key => key) ldm.bsmIdMap) (old : ℕ → Bool) :
    Sorted (fun key => key) (ldm.collect old).bsmIdMap := by
  unfold Sorted Ldm.collect at *
  dsimp only
  rw [List.map_map]
  exact hsorted

/-- The collector leaves an id what it has, or puts its slot on the free list. -/
theorem found_collect {found : Option BsmIndex} (old : ℕ → Bool)
    (h : ldm.getIndex id = found ∨ ∃ i, found = some (.index i) ∧
      ldm.getIndex id = some .dirtyData ∧ i ∈ ldm.bsmFreeContents) :
    (ldm.collect old).getIndex id = found ∨ ∃ i, found = some (.index i) ∧
      (ldm.collect old).getIndex id = some .dirtyData ∧
      i ∈ (ldm.collect old).bsmFreeContents := by
  rw [getIndex_collect]
  rcases h with rfl | ⟨i, rfl, hdirty, hfree⟩
  · cases hfound : ldm.getIndex id with
    | none => exact .inl rfl
    | some w =>
      cases w with
      | dirtyData => exact .inl rfl
      | index i =>
        rw [Option.map_some, Ldm.markOld_index]
        split_ifs with hold
        · obtain ⟨key, -, hmem⟩ := mem_of_lookup hfound
          refine .inr ⟨i, rfl, rfl, List.mem_append_right _ ?_⟩
          exact List.mem_filterMap.mpr ⟨_, hmem, by rw [Ldm.oldIndex_index, if_pos hold]⟩
        · exact .inl rfl
  · exact .inr ⟨i, rfl, by rw [hdirty]; rfl, List.mem_append_left _ hfree⟩

theorem wellFormed_step (hs : s.WellFormed) (event : SlotEvent) : (s.step event).WellFormed := by
  obtain ⟨ldm, receiver⟩ := s
  -- what holds where the map is as before and `setIndex` is not under way, or just begins
  have hidle (ldm' : Ldm) (hmap : ldm'.bsmIdMap = ldm.bsmIdMap) (receiver' : ReceiveState)
      (hreceiver : ∀ slot id found, receiver' = .settingIndex slot id found →
        ldm'.getIndex id = found) : WellFormed ⟨ldm', receiver'⟩ :=
    ⟨hmap ▸ hs.sorted, fun slot id found h => .inl (hreceiver slot id found h)⟩
  have hstart (slot id : ℕ) : WellFormed (startSetIndex ⟨ldm, receiver⟩ slot id) :=
    hidle ldm rfl _ fun _ _ _ h => by cases h; rfl
  cases event with
  | getFreeBsm junk =>
    cases receiver with
    | idle =>
      refine hidle _ ?_ _ fun _ _ _ h => by cases h
      unfold Ldm.getFreeBsm
      split <;> rfl
    | checkedOut | settingIndex => exact hs
  | receive decoded =>
    cases receiver with
    | checkedOut slot =>
      cases decoded with
      | some id => exact hstart slot id
      | none => exact hidle ldm rfl _ fun _ _ _ h => by cases h
    | idle | settingIndex => cases decoded <;> exact hs
  | receiveTuncBsm filtered id =>
    cases receiver with
    | checkedOut slot =>
      cases filtered with
      | false => exact hstart slot id
      | true => exact hidle ldm rfl _ fun _ _ _ h => by cases h
    | idle | settingIndex => exact hs
  | updateIndex =>
    cases receiver with
    | settingIndex slot id found =>
      exact ⟨sorted_updateIndex hs.sorted found, fun _ _ _ h => by cases h⟩
    | idle | checkedOut => exact hs
  | collect old =>
    exact ⟨sorted_collect hs.sorted old, fun slot id found h =>
      found_collect old (hs.found slot id found h)⟩

/-- Before the first datagram. -/
def start (size : ℕ) (junk : ℕ → Option BsmValue) : LdmRun := ⟨.new size junk, .idle⟩

theorem wellFormed_start (size : ℕ) (junk : ℕ → Option BsmValue) :
    (start size junk).WellFormed :=
  ⟨sorted_nil, fun _ _ _ h => by cases h⟩

theorem owned_start (size : ℕ) (junk : ℕ → Option BsmValue) : (start size junk).Owned := by
  intro i
  simp [start, holders, checkedOut, mapped, Ldm.new, List.nodup_range.count]

end LdmRun

end Tulux.QApplication
