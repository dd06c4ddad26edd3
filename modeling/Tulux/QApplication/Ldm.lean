import Tulux.Lib.GuardedRun
import Tulux.Lib.SortedMap
import Tulux.QCoder.J2735Decode

/-! The Local Dynamic Map: slots of messages, a list of free slots and a map from temporary ids to
slots. -/
namespace Tulux.QApplication
open QCoder GuardedRun SortedMap

/-- The values of `bsmIdMap`. `NO_DATA` is an id that is not there. -/
inductive BsmIndex where
  | dirtyData
  | index (i : ℕ)

/-- The slots are given by the BSM that `j2735_msg` of their contents points to. -/
structure Ldm where
  bsmContents : List (Option BsmValue)
  bsmFreeContents : List ℕ
  bsmIdMap : List (ℕ × BsmIndex)

namespace Ldm

/-- The contents of a new slot are what is found in their memory. -/
def new (size : ℕ) (junk : ℕ → Option BsmValue) : Ldm where
  bsmContents := (List.range size).map junk
  bsmFreeContents := List.range size
  bsmIdMap := []

def getIndex (ldm : Ldm) (id : ℕ) : Option BsmIndex := lookup (fun key => key) id ldm.bsmIdMap

/-- The second part of `setIndex`, which takes the lock again and goes by the index found first. -/
def updateIndex (ldm : Ldm) (found : Option BsmIndex) (id index : ℕ) : Ldm :=
  match found with
  | some (.index i) =>
    { ldm with
      bsmFreeContents := ldm.bsmFreeContents ++ [i]
      bsmIdMap := set (fun key => key) id (.index index) ldm.bsmIdMap }
  | some .dirtyData =>
    { ldm with bsmIdMap := set (fun key => key) id (.index index) ldm.bsmIdMap }
  | none =>
    { ldm with bsmIdMap := insert (fun key => key) id (.index index) ldm.bsmIdMap }

def setIndex (ldm : Ldm) (id index : ℕ) : Ldm := ldm.updateIndex (ldm.getIndex id) id index

/-- A new slot is made when none is free. -/
def getFreeBsm (ldm : Ldm) (junk : Option BsmValue) : ℕ × Ldm :=
  match ldm.bsmFreeContents with
  | index :: free => (index, { ldm with bsmFreeContents := free })
  | [] => (ldm.bsmContents.length, { ldm with bsmContents := ldm.bsmContents ++ [junk] })

/-- A slot whose message is too old. -/
def oldIndex (old : ℕ → Bool) : BsmIndex → Option ℕ
  | .dirtyData => none
  | .index i => if old i then some i else none

def markOld (old : ℕ → Bool) : BsmIndex → BsmIndex
  | .dirtyData => .dirtyData
  | .index i => if old i then .dirtyData else .index i

@[simp] theorem oldIndex_dirtyData (old : ℕ → Bool) : oldIndex old .dirtyData = none := rfl

@[simp] theorem oldIndex_index (old : ℕ → Bool) (i : ℕ) :
    oldIndex old (.index i) = if old i then some i else none := rfl

@[simp] theorem markOld_dirtyData (old : ℕ → Bool) : markOld old .dirtyData = .dirtyData := rfl

@[simp] theorem markOld_index (old : ℕ → Bool) (i : ℕ) :
    markOld old (.index i) = if old i then .dirtyData else .index i := rfl

/-- A pass of `gbCollector` over the map, with the slots whose messages are too old. -/
def collect (ldm : Ldm) (old : ℕ → Bool) : Ldm :=
  { ldm with
    bsmFreeContents := ldm.bsmFreeContents ++ ldm.bsmIdMap.filterMap fun e => oldIndex old e.2
    bsmIdMap := ldm.bsmIdMap.map fun e => (e.1, markOld old e.2) }

/-- The BSM that is found under an id. -/
def findBsm (ldm : Ldm) (id : ℕ) : Option BsmValue :=
  match ldm.getIndex id with
  | some (.index i) => (ldm.bsmContents[i]?).join
  | _ => none

variable {ldm : Ldm} {id index : ℕ}

@[simp] theorem bsmContents_updateIndex (found : Option BsmIndex) :
    (ldm.updateIndex found id index).bsmContents = ldm.bsmContents := by
  unfold updateIndex
  split <;> rfl

theorem getIndex_setIndex_self : (ldm.setIndex id index).getIndex id = some (.index index) := by
  unfold setIndex updateIndex
  split
  · exact lookup_set_self
  · exact lookup_set_self
  next hnone =>
    unfold getIndex at hnone ⊢
    dsimp only
    rw [insert_of_none hnone]
    exact lookup_set_self

theorem getIndex_setIndex_of_ne {id' : ℕ} (hid : id ≠ id') :
    (ldm.setIndex id index).getIndex id' = ldm.getIndex id' := by
  unfold setIndex updateIndex
  split
  · exact lookup_set_of_ne hid
  · exact lookup_set_of_ne hid
  next hnone =>
    unfold getIndex at hnone ⊢
    dsimp only
    rw [insert_of_none hnone]
    exact lookup_set_of_ne hid

theorem findBsm_setIndex_self :
    (ldm.setIndex id index).findBsm id = (ldm.bsmContents[index]?).join := by
  rw [findBsm, getIndex_setIndex_self, setIndex, bsmContents_updateIndex]

theorem findBsm_setIndex_of_ne {id' : ℕ} (hid : id ≠ id') :
    (ldm.setIndex id index).findBsm id' = ldm.findBsm id' := by
  rw [findBsm, getIndex_setIndex_of_ne hid, setIndex, bsmContents_updateIndex, findBsm]

end Ldm

/-! ### Receiving into the map -/

/-- The messages that an application receives into. -/
structure LdmReceiver where
  isRxSim : Bool
  rxSimMsg : Option BsmValue
  receivedContents : ℕ → Option BsmValue
  ldm : Ldm

/-- What the decoder returns, and the BSM that it leaves in the message. -/
structure Decoding where
  ret : ℤ
  bsm : BsmValue

/-- `receive` with a slot of the LDM. -/
def LdmReceiver.receive (app : LdmReceiver) (index : ℕ) (decoding : Decoding) (ldmIndex : ℕ) :
    LdmReceiver :=
  let app :=
    if app.isRxSim then { app with rxSimMsg := some decoding.bsm }
    else { app with
      receivedContents := Function.update app.receivedContents index (some decoding.bsm) }
  if decoding.ret = 0 then { app with ldm := app.ldm.setIndex decoding.bsm.id ldmIndex } else app

inductive LdmEvent where
  | getFreeBsm (junk : Option BsmValue)
  | receive (index : ℕ) (decoding : Decoding) (ldmIndex : ℕ)
  | collect (old : ℕ → Bool)

def LdmReceiver.step (app : LdmReceiver) : LdmEvent → LdmReceiver
  | .getFreeBsm junk => { app with ldm := (app.ldm.getFreeBsm junk).2 }
  | .receive index decoding ldmIndex => app.receive index decoding ldmIndex
  | .collect old => { app with ldm := app.ldm.collect old }

/-- After a receive the decoded BSM is found under its id, and all other ids have what they had. -/
def HoldsReceived (app : LdmReceiver) : LdmEvent → Prop
  | .receive index decoding ldmIndex => decoding.ret = 0 →
    (app.receive index decoding ldmIndex).ldm.findBsm decoding.bsm.id = some decoding.bsm ∧
      ∀ id, decoding.bsm.id ≠ id →
        (app.receive index decoding ldmIndex).ldm.getIndex id = app.ldm.getIndex id ∧
          (app.receive index decoding ldmIndex).ldm.findBsm id = app.ldm.findBsm id
  | _ => True

/-- The slot has the BSM already. -/
def SlotHolds (app : LdmReceiver) : LdmEvent → Prop
  | .receive _ decoding ldmIndex => decoding.ret = 0 →
    (app.ldm.bsmContents[ldmIndex]?).join = some decoding.bsm
  | _ => True

theorem ldm_receive (app : LdmReceiver) (index : ℕ) {decoding : Decoding} (ldmIndex : ℕ)
    (hret : decoding.ret = 0) : (app.receive index decoding ldmIndex).ldm =
      app.ldm.setIndex decoding.bsm.id ldmIndex := by
  unfold LdmReceiver.receive
  rw [if_pos hret]
  dsimp only
  split_ifs <;> rfl

/-- A receive finds what was in the slot before. -/
theorem holdsReceived_iff (app : LdmReceiver) (event : LdmEvent) :
    HoldsReceived app event ↔ SlotHolds app event := by
  cases event with
  | getFreeBsm | collect => exact Iff.rfl
  | receive index decoding ldmIndex =>
    refine forall_congr' fun hret => ?_
    rw [ldm_receive app index ldmIndex hret, Ldm.findBsm_setIndex_self, and_iff_left_iff_imp]
    intro _ id hid
    exact ⟨Ldm.getIndex_setIndex_of_ne hid, Ldm.findBsm_setIndex_of_ne hid⟩

/-- In a run all receives are held exactly when every one gets a slot that has its BSM already:
nothing is ever put into a slot. -/
theorem ldmReceives_held_iff (app : LdmReceiver) (events : List LdmEvent) :
    Always LdmReceiver.step HoldsReceived app events ↔
      Always LdmReceiver.step SlotHolds app events :=
  always_congr holdsReceived_iff

/-- The first receive into a map whose slots are empty. -/
theorem ldmReceive_not_held :
    ¬ Always LdmReceiver.step HoldsReceived ⟨false, none, fun _ => none, .new 2 fun _ => none⟩
      [.getFreeBsm none, .receive 0 ⟨0, callocBsm⟩ 0] := by
  intro hrun
  have hheld := (always_cons.mp (always_cons.mp hrun).2).1
  have hslot := (holdsReceived_iff _ _).mp hheld rfl
  exact absurd hslot (by simp [LdmReceiver.step, Ldm.getFreeBsm, Ldm.new, List.range_succ])

end Tulux.QApplication
