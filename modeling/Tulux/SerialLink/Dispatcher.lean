import Tulux.Lib.Loop
import Tulux.SerialLink.Link

/-! Registration of handlers and the choice of one for a frame. -/
namespace Tulux.SerialLink
open Loop

abbrev maxRegister : ℕ := 50

/-- The arguments of `Yx_Serial_Link_DispatcherRegister`, and whether `handler` is not null. -/
structure RegCall where
  bCmd : UInt32
  eCmd : UInt32
  handler : Bool

/-- `rcb_t`. -/
structure RcbT where
  bCmd : UInt16
  eCmd : UInt16
  handler : Bool

/-- `s_registered` and `s_rcb`, with the memory behind its 50 entries. -/
structure RcbTable where
  sRegistered : UInt32
  sRcb : ℕ → RcbT

def dispatcherRegister (call : RegCall) (t : RcbTable) : Bool × RcbTable :=
  (true, ⟨t.sRegistered + 1, Function.update t.sRcb t.sRegistered.toNat
    ⟨call.bCmd.toUInt16, call.eCmd.toUInt16, call.handler⟩⟩)

def RcbT.matches (r : RcbT) (cmd : UInt16) : Bool := r.bCmd ≤ cmd ∧ cmd ≤ r.eCmd

/-- The loop of `_yx_serial_link_rx_ana_cb`; the result lists the entries whose handler is
called. -/
def dispatchPass (t : RcbTable) (cmd : UInt16) (i : UInt8) : UInt8 ⊕ List ℕ :=
  if i.toUInt32 < t.sRegistered then
    if (t.sRcb i.toNat).matches cmd then
      .inr (if (t.sRcb i.toNat).handler then [i.toNat] else [])
    else .inl (i + 1)
  else .inr []

/-! ### Dispatch -/

/-- The first entry that matches. -/
def firstMatch (t : RcbTable) (cmd : UInt16) : Option ℕ :=
  (List.range t.sRegistered.toNat).find? fun i => (t.sRcb i).matches cmd

def calledFor (t : RcbTable) (cmd : UInt16) : List ℕ :=
  match firstMatch t cmd with
  | some i => if (t.sRcb i).handler then [i] else []
  | none => []

section Dispatch
variable {t : RcbTable}

theorem firstMatch_eq_some {cmd : UInt16} {i : ℕ} : firstMatch t cmd = some i ↔
    i < t.sRegistered.toNat ∧ (t.sRcb i).matches cmd ∧
      ∀ j < i, (t.sRcb j).matches cmd = false := by
  rw [firstMatch, List.find?_range_eq_some]
  simp only [List.mem_range, Bool.not_eq_true']
  tauto

theorem firstMatch_eq_none {cmd : UInt16} : firstMatch t cmd = none ↔
    ∀ j < t.sRegistered.toNat, (t.sRcb j).matches cmd = false := by
  simp [firstMatch]

theorem mem_calledFor {cmd : UInt16} {i : ℕ} :
    i ∈ calledFor t cmd ↔ firstMatch t cmd = some i ∧ (t.sRcb i).handler = true := by
  rw [calledFor]
  cases hf : firstMatch t cmd with
  | none => simp
  | some k =>
    by_cases hk : (t.sRcb k).handler = true
    · simp only [if_pos hk, List.mem_singleton, Option.some.injEq]
      constructor
      · rintro rfl
        exact ⟨rfl, hk⟩
      · exact fun h => h.1.symm
    · simp only [if_neg hk, List.not_mem_nil, Option.some.injEq, false_iff, not_and]
      rintro rfl
      exact hk

theorem length_calledFor (t : RcbTable) (cmd : UInt16) : (calledFor t cmd).length ≤ 1 := by
  rw [calledFor]
  split
  · split_ifs <;> simp
  · simp

/-- While the counter does not wrap round, the first entry that matches decides. -/
theorem dispatch_yields (h : t.sRegistered.toNat ≤ 255) (cmd : UInt16) :
    Yields (run (dispatchPass t cmd) 0) (calledFor t cmd) := by
  set n := t.sRegistered.toNat with hn
  have hbelow (i : UInt8) : i.toUInt32 < t.sRegistered ↔ i.toNat < n := by
    rw [UInt32.lt_iff_toNat_lt, UInt8.toNat_toUInt32]
  -- no entry below the counter matches
  let inv (i : UInt8) : Prop := i.toNat ≤ n ∧ ∀ j < i.toNat, (t.sRcb j).matches cmd = false
  have go (i i' : UInt8) (hi : inv i) (hp : dispatchPass t cmd i = .inl i') :
      inv i' ∧ n - i'.toNat < n - i.toNat := by
    obtain ⟨hle, hno⟩ := hi
    unfold dispatchPass at hp
    split_ifs at hp with hlt hm
    obtain rfl := Sum.inl.inj hp
    rw [hbelow] at hlt
    have hnext : (i + 1).toNat = i.toNat + 1 := by
      rw [UInt8.toNat_add]
      simp only [UInt8.toNat_one]
      omega
    refine ⟨⟨by omega, fun j hj => ?_⟩, by omega⟩
    rcases Nat.lt_or_ge j i.toNat with hji | hji
    · exact hno j hji
    · have hj : j = i.toNat := by omega
      subst hj
      exact Bool.eq_false_iff.mpr hm
  have done (i : UInt8) (r : List ℕ) (hi : inv i) (hp : dispatchPass t cmd i = .inr r) :
      r = calledFor t cmd := by
    obtain ⟨hle, hno⟩ := hi
    unfold dispatchPass at hp
    by_cases hlt : i.toUInt32 < t.sRegistered
    · rw [if_pos hlt] at hp
      split_ifs at hp with hm hh
      · obtain rfl := Sum.inr.inj hp
        have hfirst := firstMatch_eq_some.mpr ⟨(hbelow i).mp hlt, hm, hno⟩
        rw [calledFor, hfirst]
        exact (if_pos hh).symm
      · obtain rfl := Sum.inr.inj hp
        have hfirst := firstMatch_eq_some.mpr ⟨(hbelow i).mp hlt, hm, hno⟩
        rw [calledFor, hfirst]
        exact (if_neg hh).symm
    · rw [if_neg hlt] at hp
      obtain rfl := Sum.inr.inj hp
      rw [hbelow] at hlt
      have hnone : firstMatch t cmd = none :=
        firstMatch_eq_none.mpr fun j hj => hno j (by omega)
      rw [calledFor, hnone]
  obtain ⟨r, hr, rfl⟩ := yields_of_invariant (dispatchPass t cmd) inv (fun i => n - i.toNat) _ go
    done (s := 0) ⟨Nat.zero_le _, fun j hj => absurd hj (Nat.not_lt_zero j)⟩
  exact hr

theorem headCmd_lt (frame : List UInt8) : headCmd frame < 65536 := by
  have hhi := (frame.getD 4 0).toNat_lt
  have hlo := (frame.getD 5 0).toNat_lt
  rw [headCmd, yxStrChar2shortMsb]
  omega

/-- The entries of `s_rcb` as the receive side has them. -/
structure RcbTable.Is (t : RcbTable) (rcb : List Rcb) : Prop where
  registered : t.sRegistered.toNat = rcb.length
  entry : ∀ (i : ℕ) (r : Rcb), rcb[i]? = some r →
    r = ⟨(t.sRcb i).bCmd.toNat, (t.sRcb i).eCmd.toNat, (t.sRcb i).handler⟩

/-- The loop ends, and the receive side calls the handlers it lists. -/
theorem dispatchRcb_eq {env : Env} (ht : t.Is env.rcb) (frame : List UInt8) (link : Link) :
    ∃ called, Yields (run (dispatchPass t (UInt16.ofNat (headCmd frame))) 0) called ∧
      dispatchRcb env frame link =
        called.foldlM (fun link i => runCallback env (.handler i frame) link) link := by
  have hfew := env.rcb_le
  set cmd := UInt16.ofNat (headCmd frame) with hcmd
  have hsame : cmd.toNat = headCmd frame := UInt16.toNat_ofNat_of_lt' (headCmd_lt frame)
  refine ⟨_, dispatch_yields (by rw [ht.registered]; omega) cmd, ?_⟩
  have hmatches (i : ℕ) (hi : i < env.rcb.length) : (t.sRcb i).matches cmd = true ↔
      env.rcb[i].bCmd ≤ headCmd frame ∧ headCmd frame ≤ env.rcb[i].eCmd := by
    rw [ht.entry i _ (List.getElem?_eq_getElem hi), ← hsame]
    simp [RcbT.matches, UInt16.le_iff_toNat_le]
  rw [dispatchRcb, calledFor]
  cases hf : firstMatch t cmd with
  | none =>
    rw [firstMatch_eq_none, ht.registered] at hf
    have hnone : (env.rcb.zipIdx.find? fun r =>
        decide (r.1.bCmd ≤ headCmd frame ∧ headCmd frame ≤ r.1.eCmd)) = none := by
      rw [List.find?_eq_none]
      rintro ⟨r, i⟩ hr
      obtain ⟨hi, heq⟩ := List.mem_zipIdx' hr
      rw [decide_eq_true_eq, heq, ← hmatches i hi, hf i hi]
      exact Bool.false_ne_true
    rw [hnone]
    rfl
  | some i =>
    rw [firstMatch_eq_some, ht.registered] at hf
    obtain ⟨hi, hm, hno⟩ := hf
    have hsome : (env.rcb.zipIdx.find? fun r =>
        decide (r.1.bCmd ≤ headCmd frame ∧ headCmd frame ≤ r.1.eCmd)) = some (env.rcb[i], i) := by
      rw [List.find?_eq_some_iff_getElem]
      refine ⟨decide_eq_true ((hmatches i hi).mp hm), i, by simpa using hi, by simp,
        fun j hj => ?_⟩
      have hj' : ¬ (env.rcb[j].bCmd ≤ headCmd frame ∧ headCmd frame ≤ env.rcb[j].eCmd) := by
        rw [← hmatches j (hj.trans hi), hno j hj]
        exact Bool.false_ne_true
      simp only [List.getElem_zipIdx, Bool.not_eq_true', decide_eq_false_iff_not]
      exact hj'
    have hh : (t.sRcb i).handler = env.rcb[i].handler := by
      rw [ht.entry i _ (List.getElem?_eq_getElem hi)]
    rw [hsome]
    dsimp only
    rw [hh]
    split_ifs
    · simp
    · rfl

end Dispatch

/-! ### Registration -/

/-- The table, and the calls that returned TRUE. -/
structure Registry where
  table : RcbTable
  granted : List RegCall

/-- Static storage is zero before the first call. -/
def noneRegistered : Registry := ⟨⟨0, fun _ => ⟨0, 0, false⟩⟩, []⟩

def Registry.register (s : Registry) (call : RegCall) : Registry :=
  let (granted, table) := dispatcherRegister call s.table
  ⟨table, if granted then s.granted ++ [call] else s.granted⟩

def registerRun (calls : List RegCall) : Registry := calls.foldl Registry.register noneRegistered

/-- A command is in the range of a call. -/
def RegCall.Covers (call : RegCall) (cmd : ℕ) : Prop := call.bCmd.toNat ≤ cmd ∧ cmd ≤ call.eCmd.toNat

instance (call : RegCall) (cmd : ℕ) : Decidable (call.Covers cmd) :=
  inferInstanceAs (Decidable (_ ∧ _))

def RegCall.Overlaps (call call' : RegCall) : Prop := ∃ cmd, call.Covers cmd ∧ call'.Covers cmd

/-- The entry made for a call. -/
def RegCall.stored (call : RegCall) : RcbT := ⟨call.bCmd.toUInt16, call.eCmd.toUInt16, call.handler⟩

/-- TRUE is for a range beside those registered before, with an entry left, and otherwise the table
stays. -/
structure RegisterLaw (s : Registry) (call : RegCall) : Prop where
  granted : (dispatcherRegister call s.table).1 = true →
    (∀ c ∈ s.granted, ¬ c.Overlaps call) ∧ s.table.sRegistered.toNat < maxRegister
  refused : (dispatcherRegister call s.table).1 = false →
    (dispatcherRegister call s.table).2 = s.table

/-- The dispatch of every command ends, and calls the handler that was registered for it once. -/
def DispatchLaw (s : Registry) : Prop := ∀ cmd : UInt16, ∃ called,
  Yields (run (dispatchPass s.table cmd) 0) called ∧ called.length ≤ 1 ∧
    ∀ i, i ∈ called ↔ ∃ call, s.granted[i]? = some call ∧ call.handler = true ∧
      call.Covers cmd.toNat

/-- What holds of all the calls of a sequence and all the tables between them. -/
structure Dispatches (calls : List RegCall) : Prop where
  register : ∀ before call after, calls = before ++ call :: after →
    RegisterLaw (registerRun before) call
  entries : ∀ before, before <+: calls →
    (registerRun before).table.sRegistered.toNat ≤ maxRegister
  dispatch : ∀ before, before <+: calls → DispatchLaw (registerRun before)

/-- At most 50 calls, none for a range that overlaps an earlier one; and where there is a handler,
16 bit commands are in its range when they match its entry and none before. -/
structure RegistersApart (calls : List RegCall) : Prop where
  length : calls.length ≤ maxRegister
  apart : calls.Pairwise fun c c' => ¬ c.Overlaps c'
  stored : ∀ (i : ℕ) (call : RegCall), calls[i]? = some call → call.handler = true → ∀ cmd : UInt16,
    call.Covers cmd.toNat ↔ call.stored.matches cmd = true ∧
      ∀ j < i, ∀ c : RegCall, calls[j]? = some c → c.stored.matches cmd = false

section Registration
variable {calls : List RegCall}

theorem registerRun_concat (calls : List RegCall) (call : RegCall) :
    registerRun (calls ++ [call]) = (registerRun calls).register call := by
  rw [registerRun, List.foldl_append]
  rfl

@[simp] theorem registerRun_granted (calls : List RegCall) :
    (registerRun calls).granted = calls := by
  induction calls using List.reverseRecOn with
  | nil => rfl
  | append_singleton calls call ih =>
    rw [registerRun_concat]
    exact congrArg (· ++ [call]) ih

/-- Each call has made an entry. -/
theorem registerRun_table (h : calls.length < 2 ^ 32) :
    (registerRun calls).table.sRegistered.toNat = calls.length ∧
      ∀ i call, calls[i]? = some call → (registerRun calls).table.sRcb i = call.stored := by
  induction calls using List.reverseRecOn with
  | nil => exact ⟨rfl, by simp⟩
  | append_singleton calls call ih =>
    rw [List.length_append, List.length_singleton] at h
    obtain ⟨hcount, hsame⟩ := ih (by omega)
    rw [registerRun_concat]
    refine ⟨?_, fun i c hc => ?_⟩
    · simp only [Registry.register, dispatcherRegister, UInt32.toNat_add, hcount,
        List.length_append, List.length_singleton]
      exact Nat.mod_eq_of_lt h
    · have hlt : i < calls.length + 1 := by
        simpa using (List.getElem?_eq_some_iff.mp hc).1
      simp only [Registry.register, dispatcherRegister, hcount]
      by_cases hi : i = calls.length
      · subst hi
        rw [List.getElem?_concat_length, Option.some.injEq] at hc
        rw [Function.update_self, ← hc]
        rfl
      · rw [Function.update_of_ne hi]
        rw [List.getElem?_append_left (by omega)] at hc
        exact hsame i c hc

/-- The handlers that are called are those of the first entries that match. -/
theorem mem_calledFor_run (h : calls.length < 2 ^ 32) {cmd : UInt16} {i : ℕ} :
    i ∈ calledFor (registerRun calls).table cmd ↔ ∃ call : RegCall, calls[i]? = some call ∧
      call.handler = true ∧ call.stored.matches cmd = true ∧
        ∀ j < i, ∀ c : RegCall, calls[j]? = some c → c.stored.matches cmd = false := by
  obtain ⟨hcount, hsame⟩ := registerRun_table h
  rw [mem_calledFor, firstMatch_eq_some, hcount]
  constructor
  · rintro ⟨⟨hi, hm, hno⟩, hh⟩
    have hget := List.getElem?_eq_getElem hi
    have hentry := hsame i _ hget
    rw [hentry] at hm hh
    refine ⟨calls[i], hget, hh, hm, fun j hj c hc => ?_⟩
    rw [← hsame j c hc]
    exact hno j hj
  · rintro ⟨call, hget, hh, hm, hno⟩
    have hi : i < calls.length := (List.getElem?_eq_some_iff.mp hget).1
    rw [hsame i call hget]
    refine ⟨⟨hi, hm, fun j hj => ?_⟩, hh⟩
    have hj' := List.getElem?_eq_getElem (hj.trans hi)
    rw [hsame j _ hj']
    exact hno j hj _ hj'

theorem dispatchLaw_iff (h : calls.length ≤ maxRegister) : DispatchLaw (registerRun calls) ↔
    ∀ (i : ℕ) (call : RegCall), calls[i]? = some call → call.handler = true → ∀ cmd : UInt16,
      call.Covers cmd.toNat ↔ call.stored.matches cmd = true ∧
        ∀ j < i, ∀ c : RegCall, calls[j]? = some c → c.stored.matches cmd = false := by
  have hfew : calls.length < 2 ^ 32 := h.trans_lt (by decide)
  have hyields := dispatch_yields (t := (registerRun calls).table)
    (by rw [(registerRun_table hfew).1]; exact h.trans (by decide))
  simp only [DispatchLaw, registerRun_granted]
  constructor
  · intro hlaw i call hget hh cmd
    obtain ⟨called, hy, -, hmem⟩ := hlaw cmd
    obtain rfl := hy.unique (hyields cmd)
    have hi := (mem_calledFor_run hfew).symm.trans (hmem i)
    simp only [hget, Option.some.injEq, exists_eq_left', hh, true_and] at hi
    exact hi.symm
  · intro hstored cmd
    refine ⟨_, hyields cmd, length_calledFor _ cmd, fun i => ?_⟩
    rw [mem_calledFor_run hfew]
    constructor
    · rintro ⟨call, hget, hh, hfirst⟩
      exact ⟨call, hget, hh, (hstored i call hget hh cmd).mpr hfirst⟩
    · rintro ⟨call, hget, hh, hcovers⟩
      exact ⟨call, hget, hh, (hstored i call hget hh cmd).mp hcovers⟩

theorem RegistersApart.of_prefix {before : List RegCall} (h : RegistersApart calls)
    (hb : before <+: calls) : RegistersApart before := by
  obtain ⟨after, rfl⟩ := hb
  refine ⟨?_, (List.pairwise_append.mp h.apart).1, fun i call hget hh cmd => ?_⟩
  · have := h.length
    rw [List.length_append] at this
    omega
  · have hsame (j : ℕ) (hj : j ≤ i) : (before ++ after)[j]? = before[j]? :=
      List.getElem?_append_left (hj.trans_lt (List.getElem?_eq_some_iff.mp hget).1)
    rw [h.stored i call (by rw [hsame i (le_refl i), hget]) hh cmd]
    refine and_congr_right fun _ => forall₂_congr fun j hj => ?_
    rw [hsame j hj.le]

/-- Nothing but the sequence itself keeps the ranges apart. -/
theorem Dispatches.apart (h : Dispatches calls) : RegistersApart calls := by
  have hlen : calls.length ≤ maxRegister := by
    by_contra! hmany
    have hfifty := h.entries _ (List.take_prefix (maxRegister + 1) calls)
    have hcount : (calls.take (maxRegister + 1)).length = maxRegister + 1 :=
      List.length_take_of_le hmany
    rw [(registerRun_table (by rw [hcount]; decide)).1, hcount] at hfifty
    omega
  refine ⟨hlen, ?_, (dispatchLaw_iff hlen).mp (h.dispatch calls (List.prefix_refl calls))⟩
  rw [List.pairwise_iff_getElem]
  intro i j hi hj hij
  have hsplit : calls = calls.take j ++ calls[j] :: calls.drop (j + 1) := by
    rw [List.getElem_cons_drop, List.take_append_drop]
  have hlaw := (h.register _ _ _ hsplit).granted rfl
  rw [registerRun_granted] at hlaw
  exact hlaw.1 _ (List.mem_take_iff_getElem.mpr ⟨i, by omega, rfl⟩)

/-- The handlers of a sequence of registrations are dispatched as documented exactly when the
sequence keeps the ranges apart itself. -/
theorem dispatches_iff (calls : List RegCall) : Dispatches calls ↔ RegistersApart calls := by
  constructor
  · exact Dispatches.apart
  · intro h
    have hfew {before : List RegCall} (hb : before <+: calls) : before.length ≤ maxRegister :=
      (h.of_prefix hb).length
    have hcount {before : List RegCall} (hb : before <+: calls) :
        (registerRun before).table.sRegistered.toNat = before.length :=
      (registerRun_table ((hfew hb).trans_lt (by decide))).1
    refine ⟨fun before call after hsplit => ⟨fun _ => ?_, nofun⟩, fun before hb => ?_,
      fun before hb => (dispatchLaw_iff (hfew hb)).mpr (h.of_prefix hb).stored⟩
    · have hb : before <+: calls := ⟨call :: after, hsplit.symm⟩
      have hnext := h.length
      have hapart := h.apart
      rw [hsplit] at hnext hapart
      rw [List.length_append, List.length_cons] at hnext
      rw [registerRun_granted, hcount hb]
      exact ⟨fun c hc => (List.pairwise_append.mp hapart).2.2 c hc call List.mem_cons_self,
        by omega⟩
    · rw [hcount hb]
      exact hfew hb

/-- With 16 bit ends it is enough that the ranges do not overlap. -/
theorem registersApart_of_lt (hlen : calls.length ≤ maxRegister)
    (hapart : calls.Pairwise fun c c' => ¬ c.Overlaps c')
    (hends : ∀ c ∈ calls, c.bCmd.toNat < 65536 ∧ c.eCmd.toNat < 65536) : RegistersApart calls := by
  have hmatches (i : ℕ) (c : RegCall) (hc : calls[i]? = some c) (cmd : UInt16) :
      c.stored.matches cmd = true ↔ c.Covers cmd.toNat := by
    obtain ⟨hb, he⟩ := hends c (List.mem_of_getElem? hc)
    simp only [RegCall.stored, RcbT.matches, decide_eq_true_eq, UInt16.le_iff_toNat_le,
      UInt32.toNat_toUInt16, Nat.mod_eq_of_lt hb, Nat.mod_eq_of_lt he, RegCall.Covers]
  refine ⟨hlen, hapart, fun i call hget _ cmd => ?_⟩
  rw [hmatches i call hget]
  refine ⟨fun hcovers => ⟨hcovers, fun j hj c hc => ?_⟩, And.left⟩
  rw [Bool.eq_false_iff, Ne, hmatches j c hc]
  intro hearlier
  obtain ⟨hi', rfl⟩ := List.getElem?_eq_some_iff.mp hget
  obtain ⟨hj', rfl⟩ := List.getElem?_eq_some_iff.mp hc
  exact List.pairwise_iff_getElem.mp hapart j i hj' hi' hj ⟨cmd.toNat, hearlier, hcovers⟩

/-- A range is registered twice. -/
theorem not_dispatches : ¬ Dispatches [⟨0x30, 0x30, true⟩, ⟨0x30, 0x30, true⟩] := by
  intro h
  have hapart := h.apart.apart
  exact (List.pairwise_pair.mp hapart) ⟨0x30, by decide⟩

end Registration

end Tulux.SerialLink
