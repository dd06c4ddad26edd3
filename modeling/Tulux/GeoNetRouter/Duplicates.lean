import Tulux.GeoNetRouter.Keys
import Tulux.Lib.RecentList

/-! What is done with the copies of a packet over runs of the router. The numbers of the packets of
a source are in its entry of the table, which the first packet makes and does not write to. -/
namespace Tulux.GeoNetRouter
open QCoder SortedMap GuardedRun RecentList

/-! ### The duplicated packet list -/

/-- The numbers on the duplicated packet list. -/
def LocTableEntry.sns (e : LocTableEntry) : List ℕ := e.dpl.map DplElement.sn

/-- The number of a source that an operation looks for. -/
def Op.sequenceNumber? (a : ℕ) : Op → Option ℕ
  | .isDuplicated addr sn => if addr = a then some sn else none
  | _ => none

/-- The numbers of a source that are looked for. -/
def sequenceNumbers (a : ℕ) (ops : List Op) : List ℕ := ops.filterMap (Op.sequenceNumber? a)

theorem sequenceNumbers_append (a : ℕ) (xs ys : List Op) :
    sequenceNumbers a (xs ++ ys) = sequenceNumbers a xs ++ sequenceNumbers a ys :=
  List.filterMap_append

theorem sequenceNumbers_self (a sn : ℕ) : sequenceNumbers a [.isDuplicated a sn] = [sn] := by
  simp [sequenceNumbers, Op.sequenceNumber?]

theorem sequenceNumbers_of_ne {a addr : ℕ} (h : addr ≠ a) (sn : ℕ) :
    sequenceNumbers a [.isDuplicated addr sn] = [] := by
  simp [sequenceNumbers, Op.sequenceNumber?, h]

/-- The table has an entry for an address. -/
def Known (a : ℕ) (core : Core) : Prop := (lookup core.view a core.locTable).isSome

instance (a : ℕ) (core : Core) : Decidable (Known a core) := inferInstanceAs (Decidable (_ = true))

section Entry
variable {e : LocTableEntry}

theorem LocTableEntry.isDuplicated_iff (sn : ℕ) : e.isDuplicated sn ↔ sn ∈ e.sns := by
  unfold LocTableEntry.isDuplicated LocTableEntry.sns
  simp only [List.any_eq_true, decide_eq_true_eq, List.mem_map]

theorem map_sn_countAgain (sn : ℕ) (dpl : List DplElement) :
    (LocTableEntry.countAgain sn dpl).map DplElement.sn = dpl.map DplElement.sn := by
  induction dpl with
  | nil => rfl
  | cons n dpl ih =>
    rw [LocTableEntry.countAgain]
    split_ifs
    · rfl
    · rw [List.map_cons, List.map_cons, ih]

/-- The list keeps the last numbers. -/
theorem LocTableEntry.sns_record (sn : ℕ) :
    (e.record sn).sns = RecentList.record maxDplLen e.sns sn := by
  unfold LocTableEntry.record RecentList.record
  by_cases hsn : e.isDuplicated sn
  · rw [if_pos hsn, if_pos ((isDuplicated_iff sn).mp hsn)]
    exact map_sn_countAgain sn e.dpl
  · rw [if_neg hsn, if_neg fun hmem => hsn ((isDuplicated_iff sn).mpr hmem)]
    unfold LocTableEntry.sns
    dsimp only
    rw [List.map_append, List.length_map]
    split_ifs
    · rw [List.map_tail]
      rfl
    · rfl

end Entry

section Steps
variable {f : ℕ → ℕ} {table : Table} {cfg : GnConfig} {core : Core} {a : ℕ} {e : LocTableEntry}

/-- The entry of an address still has its numbers. -/
def Keeps (f : ℕ → ℕ) (a : ℕ) (sns : List ℕ) (table : Table) : Prop :=
  ∃ e, lookup f a table = some e ∧ e.sns = sns

theorem keeps_modify (h : lookup f a table = some e) (b : ℕ) {g : LocTableEntry → LocTableEntry}
    (hg : ∀ e, (g e).sns = e.sns) : Keeps f a e.sns (modify f b g table) := by
  by_cases hab : b = a
  · subst hab
    exact ⟨g e, by rw [lookup_modify_self, h, Option.map_some], hg e⟩
  · exact ⟨e, by rw [lookup_modify_of_ne hab, h], rfl⟩

theorem keeps_insert (h : lookup f a table = some e) (key : ℕ) (v : LocTableEntry) :
    Keeps f a e.sns (SortedMap.insert f key v table) := by
  unfold SortedMap.insert
  split_ifs with hnew
  · exact ⟨e, h, rfl⟩
  · have hne : f key ≠ a := by
      rintro rfl
      exact hnew (Option.isSome_of_eq_some h)
    exact ⟨e, by rw [lookup_set_of_ne hne, h], rfl⟩

theorem keeps_update (h : lookup f a table = some e) (key : ℕ) (soPv : Lpv)
    (isNeighbor : Bool) : Keeps f a e.sns (table.update f key soPv isNeighbor) := by
  unfold Table.update
  split
  · refine keeps_modify h _ fun e => ?_
    unfold LocTableEntry.sns
    rw [LocTableEntry.dpl_updateLpv]
  · exact keeps_insert h _ _

theorem keeps_updateSpv (h : lookup f a table = some e) (key : ℕ) (dePv : Spv)
    (isNeighbor : Bool) : Keeps f a e.sns (table.updateSpv f key dePv isNeighbor) := by
  unfold Table.updateSpv
  split
  · exact keeps_modify h _ fun _ => rfl
  · exact keeps_insert h _ _

/-- From a sorted map only the entry itself can be left. -/
theorem keeps_of_sublist (hsorted : Sorted f table) (h : lookup f a table = some e)
    {table' : Table} (hsub : table'.Sublist table) (hstays : (lookup f a table').isSome) :
    Keeps f a e.sns table' := by
  obtain ⟨e', he'⟩ := Option.isSome_iff_exists.mp hstays
  obtain ⟨key, hkey, hmem⟩ := mem_of_lookup he'
  have hlookup := lookup_of_mem hsorted (hsub.subset hmem)
  rw [hkey, h] at hlookup
  exact ⟨e', he', by rw [Option.some.inj hlookup]⟩

theorem sublist_find (f : ℕ → ℕ) (lifeTime : ℤ) (now addr : ℕ) (table : Table) :
    (table.find f lifeTime now addr).Sublist table := by
  unfold Table.find
  split
  · split_ifs
    · exact erase_sublist
    · exact List.Sublist.refl _
  · exact List.Sublist.refl _

/-- Only the check for duplicates changes the numbers of an entry that stays. -/
theorem keeps_step (h : KeysKept cfg core) {op : Op} (hop : KeyBytesKept core op)
    (he : lookup core.view a core.locTable = some e) (hstays : Known a (core.step cfg op)) :
    Keeps (core.step cfg op).view a ((sequenceNumbers a [op]).foldl (record maxDplLen) e.sns)
      (core.step cfg op).locTable := by
  cases op with
  | write mem => exact ⟨e, (lookup_view_write hop).trans he, rfl⟩
  | find now addr =>
    exact keeps_of_sublist h.locTable.sorted he (sublist_find _ _ _ _ _) hstays
  | update soPv isNeighbor => exact keeps_update he _ _ _
  | updateNeighbor soPv isNeighbor =>
    obtain ⟨e', he', hsns⟩ := keeps_update he (soPv + 2) (readLpv core.mem soPv) isNeighbor
    have hflag := keeps_modify he' (core.view (soPv + 2))
      (g := fun e => { e with isNeighbor := true }) fun _ => rfl
    rw [hsns] at hflag
    exact hflag
  | updateSpv dePv isNeighbor => exact keeps_updateSpv he _ _ _
  | isDuplicated addr sn =>
    by_cases haddr : addr = a
    · subst haddr
      refine ⟨e.record sn, ?_, ?_⟩
      · change lookup core.view addr (modify core.view addr _ core.locTable) = _
        rw [lookup_modify_self, he, Option.map_some]
      · rw [LocTableEntry.sns_record, sequenceNumbers_self]
        rfl
    · rw [sequenceNumbers_of_ne haddr]
      exact ⟨e, (lookup_modify_of_ne haddr).trans he, rfl⟩
  | setLsPending addr => exact keeps_modify he _ fun _ => rfl
  | remove addr => exact keeps_of_sublist h.locTable.sorted he erase_sublist hstays
  | refresh now => exact keeps_of_sublist h.locTable.sorted he List.filter_sublist hstays
  | nextSn => exact ⟨e, he, rfl⟩
  | queue op => exact ⟨e, he, rfl⟩
  | startLs key => exact ⟨e, he, rfl⟩

theorem keeps_final (h : KeysKept cfg core) {ops : List Op}
    (hops : Always (Core.step cfg) KeyBytesKept core ops)
    (hstays : Always (Core.step cfg) (fun core op => Known a (core.step cfg op)) core ops)
    (he : lookup core.view a core.locTable = some e) :
    Keeps (final (Core.step cfg) core ops).view a
      ((sequenceNumbers a ops).foldl (record maxDplLen) e.sns)
      (final (Core.step cfg) core ops).locTable := by
  induction ops generalizing core e with
  | nil => exact ⟨e, he, rfl⟩
  | cons op ops ih =>
    obtain ⟨hop, hops⟩ := always_cons.mp hops
    obtain ⟨hstay, hstays⟩ := always_cons.mp hstays
    obtain ⟨e', he', hsns⟩ := keeps_step h hop he hstay
    have hrest := ih (keysKept_step h hop) hops hstays he'
    rw [hsns, ← List.foldl_append] at hrest
    rw [← sequenceNumbers_append] at hrest
    exact hrest

end Steps

/-! ### Copies of a packet -/

/-- A call of `Receive`. -/
structure Reception where
  readings : Readings
  buf : ℕ
  bufLen : ℕ
  data : GnData

def Reception.event (x : Reception) : Event := .receive x.readings x.buf x.bufLen x.data

section Copies
variable (cfg : GnConfig) (geometry : Geometry)

def Reception.ret (x : Reception) (r : Router) : ℤ :=
  (receive cfg geometry x.readings x.buf x.bufLen x.data r).1

/-- The packet was passed to the upper layer or forwarded. -/
def Delivered (ret : ℤ) : Prop := ret = 0 ∨ ret = 1

instance (ret : ℤ) : Decidable (Delivered ret) := inferInstanceAs (Decidable (_ ∨ _))

/-- The router when the packet goes to the function for its type. -/
def Router.arrive (r : Router) (x : Reception) : Router :=
  let r := r.perform cfg (.write (decrementRhl r.core.mem x.buf))
  r.perform cfg (.write (writeBytes r.core.mem x.data.dAddr llBc))

/-- The packet can make several hops, and if it goes to one station it goes to this one. -/
def multiHop (mem : Memory) (buf : ℕ) : Bool :=
  match PacketType.ofHt ((mem (buf + 5)).toNat / 16) with
  | .geoanycast | .geobroadcast => true
  | .tsb => (mem (buf + 5)).toNat % 16 ≠ 0
  | .geounicast => gnAddrMatch (readAddr mem (buf + 40)) cfg.localAddr
  | _ => false

/-- A packet of several hops with a number of a source. -/
structure IsCopy (r : Router) (x : Reception) (a sn : ℕ) : Prop where
  multiHop : multiHop cfg (r.arrive cfg x).core.mem x.buf
  source : (r.arrive cfg x).soMid x.buf = a
  number : packetSn (r.arrive cfg x).core.mem x.buf = sn

end Copies

section Receive
variable {cfg : GnConfig} {geometry : Geometry} {readings : Readings} {r : Router}
  {buf bufLen : ℕ} {data : GnData}

theorem performs_arrive (r : Router) (x : Reception) : Performs cfg r (r.arrive cfg x) :=
  (performs_perform r _).perform _

theorem not_delivered_neg : ¬ Delivered (-1) := by
  decide

/-- A packet is checked before anything else is done with it. -/
structure Checked (cfg : GnConfig) (now buf : ℕ) (r r' : Router) : Prop where
  new : (r.checkDuplicate cfg now (r.soMid buf) (packetSn r.core.mem buf)).1 = false
  performs : Performs cfg (r.checkDuplicate cfg now (r.soMid buf) (packetSn r.core.mem buf)).2 r'

theorem checked_processSource (h : (r.processSource cfg readings buf).1 = false) :
    Checked cfg (readings.clock 0) buf r (r.processSource cfg readings buf).2 := by
  unfold Router.processSource at h ⊢
  dsimp only at h ⊢
  split_ifs at h ⊢ with hduplicate
  exact ⟨Bool.not_eq_true _ ▸ hduplicate, performs_update _ _ _⟩

theorem Checked.trans {now : ℕ} {r' r'' : Router} (h : Checked cfg now buf r r')
    (h' : Performs cfg r' r'') : Checked cfg now buf r r'' := ⟨h.new, h.performs.trans h'⟩

theorem checked_receiveGuc (hlocal : gnAddrMatch (readAddr r.core.mem (buf + 40)) cfg.localAddr)
    (h : Delivered (receiveGuc cfg geometry readings buf r).1) :
    Checked cfg (readings.clock 0) buf r (receiveGuc cfg geometry readings buf r).2 := by
  unfold receiveGuc at h ⊢
  dsimp only at h ⊢
  rw [if_pos hlocal] at h ⊢
  split_ifs at h ⊢ with hduplicate
  · exact absurd h not_delivered_neg
  · exact checked_processSource (Bool.not_eq_true _ ▸ hduplicate)

theorem checked_receiveGbcGac (h : Delivered (receiveGbcGac cfg geometry readings buf bufLen r).1) :
    Checked cfg (readings.clock 0) buf r (receiveGbcGac cfg geometry readings buf bufLen r).2 := by
  by_cases hduplicate : (r.processSource cfg readings buf).1
  · unfold receiveGbcGac at h
    dsimp only at h
    rw [if_pos hduplicate] at h
    exact absurd h not_delivered_neg
  · have hchecked := checked_processSource (Bool.not_eq_true _ ▸ hduplicate)
    refine hchecked.trans ?_
    unfold receiveGbcGac
    dsimp only
    rw [if_neg hduplicate]
    dsimp only
    split_ifs
    · exact performs_perform _ _
    · exact (performs_forwardAlgorithmSelect _ _).perform _
    · exact performs_forwardAlgorithmSelect _ _
    · exact .refl _

theorem checked_receiveTsb (h : Delivered (receiveTsb cfg readings buf bufLen r).1) :
    Checked cfg (readings.clock 0) buf r (receiveTsb cfg readings buf bufLen r).2 := by
  by_cases hduplicate : (r.processSource cfg readings buf).1
  · unfold receiveTsb at h
    dsimp only at h
    rw [if_pos hduplicate] at h
    exact absurd h not_delivered_neg
  · have hchecked := checked_processSource (Bool.not_eq_true _ ▸ hduplicate)
    refine hchecked.trans ?_
    unfold receiveTsb
    dsimp only
    rw [if_neg hduplicate]
    split_ifs
    · exact performs_perform _ _
    · exact .refl _

theorem checked_dispatch (hmulti : multiHop cfg r.core.mem buf)
    (h : Delivered (dispatch cfg geometry readings buf bufLen data r).1) :
    Checked cfg (readings.clock 0) buf r
      (dispatch cfg geometry readings buf bufLen data r).2.2 := by
  unfold multiHop at hmulti
  unfold dispatch at h ⊢
  dsimp only at h ⊢
  split at hmulti
  next htype => rw [htype] at h ⊢; exact checked_receiveGbcGac h
  next htype => rw [htype] at h ⊢; exact checked_receiveGbcGac h
  next htype =>
    rw [htype] at h ⊢
    dsimp only at h ⊢
    rw [if_neg (of_decide_eq_true hmulti)] at h ⊢
    exact checked_receiveTsb h
  next htype => rw [htype] at h ⊢; exact checked_receiveGuc hmulti h
  next => exact absurd hmulti (by decide)

theorem checked_receive {x : Reception} (hmulti : multiHop cfg (r.arrive cfg x).core.mem x.buf)
    (h : Delivered (x.ret cfg geometry r)) :
    Checked cfg (x.readings.clock 0) x.buf (r.arrive cfg x) (r.next cfg geometry x.event) := by
  unfold Reception.ret receive at h
  unfold Reception.event Router.next receive
  dsimp only at h ⊢
  split_ifs at h ⊢
  · exact absurd h not_delivered_neg
  · exact absurd h not_delivered_neg
  · exact checked_dispatch hmulti h

/-- A new number of a source that is known is put on its list. -/
theorem Checked.records {now : ℕ} {r' : Router} {a sn : ℕ} (h : Checked cfg now buf r r')
    (hsource : r.soMid buf = a) (hnumber : packetSn r.core.mem buf = sn)
    {e : LocTableEntry} (hfound : r.found cfg now a = some e) : sn ∉ e.sns ∧
      Performs cfg ((r.perform cfg (.find now a)).perform cfg (.isDuplicated a sn)) r' := by
  obtain ⟨hnew, hperforms⟩ := h
  rw [hsource, hnumber] at hnew hperforms
  unfold Router.checkDuplicate at hnew hperforms
  dsimp only at hnew hperforms
  rw [hfound] at hnew hperforms
  refine ⟨fun hmem => ?_, hperforms⟩
  have hduplicated := (LocTableEntry.isDuplicated_iff sn).mpr hmem
  exact absurd (hduplicated.symm.trans hnew) (by decide)

theorem performs_find_checkDuplicate (r : Router) (now addr sn : ℕ) :
    Performs cfg (r.perform cfg (.find now addr)) (r.checkDuplicate cfg now addr sn).2 := by
  unfold Router.checkDuplicate
  dsimp only
  split
  · exact .refl _
  · exact performs_perform _ _

/-- An entry that `Find` does not take away is found. -/
theorem found_of_known {now a : ℕ} (hkept : KeysKept cfg r.core) (h : Known a r.core)
    (hstays : Known a (r.perform cfg (.find now a)).core) :
    ∃ e, lookup r.core.view a r.core.locTable = some e ∧ r.found cfg now a = some e := by
  obtain ⟨e, he⟩ := Option.isSome_iff_exists.mp h
  refine ⟨e, he, found_of_lookup he ?_⟩
  by_contra hexpired
  have herased : Table.find r.core.view cfg.lifetimeLocTE now a r.core.locTable =
      erase r.core.view a r.core.locTable := by
    unfold Table.find
    rw [he]
    exact if_pos (by simpa using hexpired)
  unfold Known at hstays
  change (lookup r.core.view a (Table.find r.core.view _ now a r.core.locTable)).isSome at hstays
  rw [herased, lookup_erase_self hkept.locTable.sorted] at hstays
  exact absurd hstays (by decide)

end Receive

/-! ### Runs -/

/-- What was done from one state of the router to another one. -/
def Router.opsTo (r r' : Router) : List Op := r'.ops.drop r.ops.length

/-- From one state to another one the entry of an address stays, and no address that a key points to
is written over. -/
structure Undisturbed (cfg : GnConfig) (a : ℕ) (r r' : Router) : Prop where
  kept : KeysKept cfg r.core
  keys : Always (Core.step cfg) KeyBytesKept r.core (r.opsTo r')
  known : Known a r.core
  stays : Always (Core.step cfg) (fun core op => Known a (core.step cfg op)) r.core (r.opsTo r')

section Runs
variable {cfg : GnConfig} {a : ℕ} {r s t : Router}

theorem Performs.opsTo (h : Performs cfg r s) :
    s.ops = r.ops ++ r.opsTo s ∧ s.core = final (Core.step cfg) r.core (r.opsTo s) := by
  obtain ⟨ops, hops, hcore⟩ := h
  have hopsTo : r.opsTo s = ops := by
    unfold Router.opsTo
    rw [hops, List.drop_left]
  rw [hopsTo]
  exact ⟨hops, hcore⟩

theorem opsTo_append (hrs : Performs cfg r s) (hst : Performs cfg s t) :
    r.opsTo t = r.opsTo s ++ s.opsTo t := by
  have hops := (hrs.trans hst).opsTo.1
  rw [hst.opsTo.1, hrs.opsTo.1, List.append_assoc] at hops
  exact (List.append_cancel_left hops).symm

theorem Undisturbed.after (h : Undisturbed cfg a r t) (hrs : Performs cfg r s)
    (hst : Performs cfg s t) : Undisturbed cfg a s t := by
  obtain ⟨hkept, hkeys, hknown, hstays⟩ := h
  rw [opsTo_append hrs hst, always_append, ← hrs.opsTo.2] at hkeys hstays
  refine ⟨?_, hkeys.2, ?_, hstays.2⟩
  · rw [hrs.opsTo.2]
    exact keysKept_final hkept hkeys.1
  · rw [hrs.opsTo.2]
    exact hstays.1.final (fun _ _ _ hstay => hstay) hknown

theorem Undisturbed.keeps (h : Undisturbed cfg a r t) (hrs : Performs cfg r s)
    (hst : Performs cfg s t) {e : LocTableEntry}
    (he : lookup r.core.view a r.core.locTable = some e) :
    Keeps s.core.view a ((sequenceNumbers a (r.opsTo s)).foldl (record maxDplLen) e.sns)
      s.core.locTable := by
  obtain ⟨hkept, hkeys, -, hstays⟩ := h
  rw [opsTo_append hrs hst, always_append] at hkeys hstays
  rw [hrs.opsTo.2]
  exact keeps_final hkept hkeys.1 hstays.1 he

/-- A packet of a source that stays known is not delivered with a number that is on its list, and
its number is put there. -/
theorem Undisturbed.new {r' : Router} {buf now sn : ℕ} (h : Undisturbed cfg a r t)
    (hchecked : Checked cfg now buf r r') (hrest : Performs cfg r' t) (hsource : r.soMid buf = a)
    (hnumber : packetSn r.core.mem buf = sn) :
    ∃ e, lookup r.core.view a r.core.locTable = some e ∧ sn ∉ e.sns ∧
      Performs cfg ((r.perform cfg (.find now a)).perform cfg (.isDuplicated a sn)) r' := by
  have hperforms := hchecked.performs
  rw [hsource, hnumber] at hperforms
  have hfind := ((performs_find_checkDuplicate r now a sn).trans hperforms).trans hrest
  obtain ⟨e, he, hfound⟩ :=
    found_of_known h.kept h.known (h.after (performs_perform r _) hfind).known
  obtain ⟨hnew, hrecorded⟩ := hchecked.records hsource hnumber hfound
  exact ⟨e, he, hnew, hrecorded⟩

/-- The number of a packet that was delivered stays on the list of its source while fewer others
are looked for than the list has places. -/
theorem Undisturbed.recorded {r' : Router} {buf now sn : ℕ} (h : Undisturbed cfg a r t)
    (hchecked : Checked cfg now buf r r') (hrest : Performs cfg r' s) (hst : Performs cfg s t)
    (hsource : r.soMid buf = a) (hnumber : packetSn r.core.mem buf = sn)
    (hfew : ((sequenceNumbers a (r.opsTo t)).toFinset.erase sn).card < maxDplLen) :
    ∃ e, lookup s.core.view a s.core.locTable = some e ∧ sn ∈ e.sns := by
  obtain ⟨e, he, hnew, hrecorded⟩ := h.new hchecked (hrest.trans hst) hsource hnumber
  have hcheck : Performs cfg r ((r.perform cfg (.find now a)).perform cfg (.isDuplicated a sn)) :=
    (performs_perform r _).perform _
  obtain ⟨e₁, he₁, hsns₁⟩ := h.keeps hcheck ((hrecorded.trans hrest).trans hst) he
  have hnumbers : sequenceNumbers a
      (r.opsTo ((r.perform cfg (.find now a)).perform cfg (.isDuplicated a sn))) = [sn] := by
    have hops : r.opsTo ((r.perform cfg (.find now a)).perform cfg (.isDuplicated a sn)) =
        [.find now a, .isDuplicated a sn] := by
      simp [Router.opsTo, Router.perform]
    rw [hops]
    exact sequenceNumbers_self a sn
  rw [hnumbers] at hsns₁
  have hafter := h.after hcheck ((hrecorded.trans hrest).trans hst)
  obtain ⟨e₂, he₂, hsns₂⟩ := hafter.keeps (hrecorded.trans hrest) hst he₁
  refine ⟨e₂, he₂, ?_⟩
  rw [hsns₂, hsns₁]
  refine mem_foldl_record hnew ((card_erase_le fun x hx => ?_).trans_lt hfew)
  rw [opsTo_append hcheck ((hrecorded.trans hrest).trans hst),
    opsTo_append (hrecorded.trans hrest) hst, sequenceNumbers_append, sequenceNumbers_append]
  exact List.mem_append_right _ (List.mem_append_left _ hx)

/-- Of two copies of a packet at most one is delivered, in every run in which no call and no caller
writes another address over one that a key points to, the source has an entry from when the first
copy comes to the end, and fewer other numbers of it are looked for than the list has places. -/
theorem not_delivered_twice (cfg : GnConfig) (geometry : Geometry) (mem : Memory)
    (before between : List Event) (first second : Reception) (a sn : ℕ) :
    let r := (Router.init mem).run cfg geometry before
    let r' := (r.next cfg geometry first.event).run cfg geometry between
    let t := r'.next cfg geometry second.event
    IsCopy cfg r first a sn → IsCopy cfg r' second a sn →
    Always (Core.step cfg) KeyBytesKept (.init mem) t.ops →
    Known a r.core →
    Always (Core.step cfg) (fun core op => Known a (core.step cfg op)) r.core (r.opsTo t) →
    ((sequenceNumbers a (r.opsTo t)).toFinset.erase sn).card < maxDplLen →
    ¬ (Delivered (first.ret cfg geometry r) ∧ Delivered (second.ret cfg geometry r')) := by
  rintro r r' t hfirst hsecond hkeys hknown hstays hfew ⟨hdelivered, hdelivered'⟩
  have hnext : Performs cfg r (r.next cfg geometry first.event) := performs_next r _
  have hbetween : Performs cfg (r.next cfg geometry first.event) r' := performs_run _ between
  have hlast : Performs cfg r' t := performs_next r' _
  have hrun := (hnext.trans hbetween).trans hlast
  have hundisturbed : Undisturbed cfg a r t := by
    have hinit : Performs cfg (.init mem) r := performs_run _ before
    obtain ⟨hops, -⟩ := hrun.opsTo
    have hcore : r.core = final (Core.step cfg) (.init mem) r.ops := core_run mem before
    rw [hops, always_append, ← hcore] at hkeys
    refine ⟨?_, hkeys.2, hknown, hstays⟩
    rw [hcore]
    exact keysKept_final (keysKept_init cfg mem) hkeys.1
  -- the first copy is put on the list
  have hchecked := checked_receive hfirst.multiHop hdelivered
  have hcheck : Performs cfg (r.arrive cfg first) t :=
    ((performs_checkDuplicate _ _ _ _).trans hchecked.performs).trans (hbetween.trans hlast)
  have harrived := hundisturbed.after (performs_arrive r first) hcheck
  have hchecked' := checked_receive hsecond.multiHop hdelivered'
  have hcheck' : Performs cfg (r'.arrive cfg second) t :=
    (performs_checkDuplicate _ _ _ _).trans hchecked'.performs
  have hfew' : ((sequenceNumbers a ((r.arrive cfg first).opsTo t)).toFinset.erase sn).card <
      maxDplLen := by
    refine (card_erase_le ?_).trans_lt hfew
    rw [opsTo_append (performs_arrive r first) hcheck, sequenceNumbers_append]
    exact List.subset_append_right _ _
  obtain ⟨e, he, hmem⟩ := harrived.recorded hchecked (hbetween.trans (performs_arrive r' second))
    hcheck' hfirst.source hfirst.number hfew'
  -- so the second one is found there
  have harrived' := hundisturbed.after ((hnext.trans hbetween).trans (performs_arrive r' second))
    hcheck'
  obtain ⟨e', he', hnew, -⟩ := harrived'.new hchecked' (.refl t) hsecond.source hsecond.number
  obtain rfl := Option.some.inj (he.symm.trans he')
  exact hnew hmem

/-- The packet at an address of memory. -/
def copyAt (buf : ℕ) : Reception := ⟨still, buf, 40, anyData⟩

/-- Two packets of one source. -/
def packets : Memory := loaded (tsbPacket 1 6 ++ List.replicate 76 0 ++ tsbPacket 1 7)

theorem not_delivered_twice_packets :
    let cfg := initDefaultConfig ⟨0, 0⟩
    let r := (Router.init packets).run cfg plane [(copyAt 0).event]
    let r' := r.next cfg plane (copyAt 100).event
    Delivered ((copyAt 100).ret cfg plane r) ∧
      ¬ (Delivered ((copyAt 100).ret cfg plane r) ∧ Delivered ((copyAt 100).ret cfg plane r')) :=
  ⟨by decide, not_delivered_twice (initDefaultConfig ⟨0, 0⟩) plane packets [(copyAt 0).event] []
    (copyAt 100) (copyAt 100) 1 7 ⟨by decide, by decide, by decide⟩
    ⟨by decide, by decide, by decide⟩ (by decide) (by decide) (by decide) (by decide)⟩

/-- The first packet of a source comes again, while the entry that it has made is there. -/
theorem delivered_twice :
    let cfg := initDefaultConfig ⟨0, 0⟩
    let r := Router.init (loaded (tsbPacket 1 7))
    let r' := r.next cfg plane (copyAt 0).event
    let t := r'.next cfg plane (copyAt 0).event
    ¬ (IsCopy cfg r (copyAt 0) 1 7 → IsCopy cfg r' (copyAt 0) 1 7 →
      Always (Core.step cfg) KeyBytesKept r.core t.ops →
      Known 1 r'.core →
      Always (Core.step cfg) (fun core op => Known 1 (core.step cfg op)) r'.core (r'.opsTo t) →
      ((sequenceNumbers 1 (r.opsTo t)).toFinset.erase 7).card < maxDplLen →
      ¬ (Delivered ((copyAt 0).ret cfg plane r) ∧ Delivered ((copyAt 0).ret cfg plane r'))) := by
  intro cfg r r' t h
  exact h ⟨by decide, by decide, by decide⟩ ⟨by decide, by decide, by decide⟩ (by decide)
    (by decide) (by decide) (by decide) (by decide)

end Runs

end Tulux.GeoNetRouter
