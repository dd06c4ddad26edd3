import Mathlib.Tactic

/-! Maps as lists of keys and values that are sorted by a view of their keys. The view may be any
function, so that keys can be compared by what they stand for. -/
namespace SortedMap
variable {κ α β γ : Type*} [LinearOrder α] (f : κ → α)

/-- The value of the first entry whose key looks like `a`. -/
def lookup (a : α) : List (κ × β) → Option β
  | [] => none
  | (key, v) :: m => if f key = a then some v else lookup a m

/-- Replaces the value of a key, or puts the key in its place. -/
def set (key : κ) (v : β) : List (κ × β) → List (κ × β)
  | [] => [(key, v)]
  | (key', w) :: m =>
    if f key < f key' then (key, v) :: (key', w) :: m
    else if f key = f key' then (key', v) :: m
    else (key', w) :: set key v m

/-- Puts a key in its place unless there is one like it. -/
def insert (key : κ) (v : β) (m : List (κ × β)) : List (κ × β) :=
  if (lookup f (f key) m).isSome then m else set f key v m

/-- The keys of a map follow each other. -/
def Sorted (m : List (κ × β)) : Prop := (m.map fun e => f e.1).Pairwise (· < ·)

variable {f} {key : κ} {a : α} {v w : β} {m : List (κ × β)}

@[simp] theorem lookup_nil : lookup f a ([] : List (κ × β)) = none := rfl

@[simp] theorem lookup_cons (key : κ) (v : β) (m : List (κ × β)) :
    lookup f a ((key, v) :: m) = if f key = a then some v else lookup f a m := rfl

@[simp] theorem sorted_nil : Sorted f ([] : List (κ × β)) := List.Pairwise.nil

theorem sorted_cons {e : κ × β} :
    Sorted f (e :: m) ↔ (∀ e' ∈ m, f e.1 < f e'.1) ∧ Sorted f m := by
  unfold Sorted
  rw [List.map_cons, List.pairwise_cons, List.forall_mem_map]

theorem mem_of_lookup (h : lookup f a m = some v) : ∃ key, f key = a ∧ (key, v) ∈ m := by
  induction m with
  | nil => cases h
  | cons e m ih =>
    obtain ⟨key, w⟩ := e
    rw [lookup_cons] at h
    split_ifs at h with hkey
    · obtain rfl := Option.some.inj h
      exact ⟨key, hkey, List.mem_cons_self⟩
    · obtain ⟨key', hkey', hmem⟩ := ih h
      exact ⟨key', hkey', List.mem_cons_of_mem _ hmem⟩

theorem lookup_eq_none : lookup f a m = none ↔ ∀ e ∈ m, f e.1 ≠ a := by
  induction m with
  | nil => simp
  | cons e m ih =>
    obtain ⟨key, w⟩ := e
    rw [lookup_cons, List.forall_mem_cons, ← ih]
    by_cases hkey : f key = a <;> simp [hkey]

/-- In a sorted map every entry is found. -/
theorem lookup_of_mem (hm : Sorted f m) (h : (key, v) ∈ m) : lookup f (f key) m = some v := by
  induction m with
  | nil => cases h
  | cons e m ih =>
    obtain ⟨key', w⟩ := e
    obtain ⟨hlt, hm'⟩ := sorted_cons.mp hm
    rw [lookup_cons]
    rcases List.mem_cons.mp h with heq | hmem
    · obtain ⟨rfl, rfl⟩ := Prod.mk.inj heq
      exact if_pos rfl
    · rw [if_neg (hlt _ hmem).ne, ih hm' hmem]

section Set

theorem lookup_set_self : lookup f (f key) (set f key v m) = some v := by
  induction m with
  | nil => simp [set]
  | cons e m ih =>
    obtain ⟨key', w⟩ := e
    rw [set]
    split_ifs with hlt heq
    · simp
    · simp [heq]
    · rw [lookup_cons, if_neg (Ne.symm heq), ih]

theorem lookup_set_of_ne (ha : f key ≠ a) : lookup f a (set f key v m) = lookup f a m := by
  induction m with
  | nil => simp [set, ha]
  | cons e m ih =>
    obtain ⟨key', w⟩ := e
    rw [set]
    split_ifs with hlt heq
    · rw [lookup_cons, if_neg ha]
    · rw [lookup_cons, lookup_cons, if_neg (heq ▸ ha), if_neg (heq ▸ ha)]
    · rw [lookup_cons, lookup_cons, ih]

theorem mem_set {e : κ × β} (h : e ∈ set f key v m) :
    e ∈ m ∨ f e.1 = f key ∧ e.2 = v := by
  induction m with
  | nil =>
    obtain rfl := List.mem_singleton.mp h
    exact .inr ⟨rfl, rfl⟩
  | cons e' m ih =>
    obtain ⟨key', w⟩ := e'
    rw [set] at h
    split_ifs at h with hlt heq
    · rcases List.mem_cons.mp h with rfl | hmem
      · exact .inr ⟨rfl, rfl⟩
      · exact .inl hmem
    · rcases List.mem_cons.mp h with rfl | hmem
      · exact .inr ⟨heq.symm, rfl⟩
      · exact .inl (List.mem_cons_of_mem _ hmem)
    · rcases List.mem_cons.mp h with rfl | hmem
      · exact .inl List.mem_cons_self
      · exact (ih hmem).imp_left (List.mem_cons_of_mem _)

theorem sorted_set (hm : Sorted f m) : Sorted f (set f key v m) := by
  induction m with
  | nil => exact List.pairwise_singleton _ _
  | cons e m ih =>
    obtain ⟨key', w⟩ := e
    obtain ⟨hlt', hm'⟩ := sorted_cons.mp hm
    rw [set]
    split_ifs with hlt heq
    · refine sorted_cons.mpr ⟨List.forall_mem_cons.mpr ⟨hlt, fun e he => ?_⟩, hm⟩
      exact hlt.trans (hlt' e he)
    · exact sorted_cons.mpr ⟨hlt', hm'⟩
    · refine sorted_cons.mpr ⟨fun e he => ?_, ih hm'⟩
      rcases mem_set he with hmem | ⟨hkey, -⟩
      · exact hlt' e hmem
      · rw [hkey]
        exact lt_of_le_of_ne (not_lt.mp hlt) (Ne.symm heq)

/-- A new key adds its entry. -/
theorem perm_set (h : lookup f (f key) m = none) : (set f key v m).Perm ((key, v) :: m) := by
  induction m with
  | nil => rfl
  | cons e m ih =>
    obtain ⟨key', w⟩ := e
    have hkeys := lookup_eq_none.mp h
    obtain ⟨hne, hrest⟩ := List.forall_mem_cons.mp hkeys
    rw [set]
    split_ifs with hlt heq
    · rfl
    · exact absurd heq.symm hne
    · exact ((ih (lookup_eq_none.mpr hrest)).cons _).trans (List.Perm.swap _ _ _)

/-- Another value takes the place of the old one. -/
theorem perm_values_set (hm : Sorted f m) (h : lookup f (f key) m = some w) :
    (w :: (set f key v m).map Prod.snd).Perm (v :: m.map Prod.snd) := by
  induction m with
  | nil => cases h
  | cons e m ih =>
    obtain ⟨key', w'⟩ := e
    obtain ⟨hlt', hm'⟩ := sorted_cons.mp hm
    rw [lookup_cons] at h
    rw [set]
    split_ifs at h with hkey
    · obtain rfl := Option.some.inj h
      rw [if_neg hkey.not_gt, if_pos hkey.symm]
      exact List.Perm.swap _ _ _
    · obtain ⟨key'', hkey'', hmem⟩ := mem_of_lookup h
      have hlt : f key' < f key := hkey'' ▸ hlt' _ hmem
      rw [if_neg hlt.not_gt, if_neg (Ne.symm hkey), List.map_cons, List.map_cons]
      exact (List.Perm.swap _ _ _).trans (((ih hm' h).cons w').trans (List.Perm.swap _ _ _))

end Set

/-- Takes the first entry of a key away. -/
def erase (f : κ → α) (a : α) : List (κ × β) → List (κ × β)
  | [] => []
  | e :: m => if f e.1 = a then m else e :: erase f a m

/-- Changes the value of the first entry of a key. -/
def modify (f : κ → α) (a : α) (g : β → β) : List (κ × β) → List (κ × β)
  | [] => []
  | e :: m => if f e.1 = a then (e.1, g e.2) :: m else e :: modify f a g m

section EraseModify
variable {g : β → β} {b : α}

theorem erase_sublist : (erase f a m).Sublist m := by
  induction m with
  | nil => exact List.Sublist.refl _
  | cons e m ih =>
    rw [erase]
    split_ifs
    · exact List.sublist_cons_self _ _
    · exact ih.cons_cons e

theorem lookup_erase_of_ne (hab : a ≠ b) : lookup f b (erase f a m) = lookup f b m := by
  induction m with
  | nil => rfl
  | cons e m ih =>
    rw [erase, lookup_cons]
    split_ifs with ha hb hb
    · exact absurd (ha.symm.trans hb) hab
    · rfl
    · rw [lookup_cons, if_pos hb]
    · rw [lookup_cons, if_neg hb, ih]

theorem lookup_erase_self (hm : Sorted f m) : lookup f a (erase f a m) = none := by
  induction m with
  | nil => rfl
  | cons e m ih =>
    obtain ⟨hlt, hm'⟩ := sorted_cons.mp hm
    rw [erase]
    split_ifs with ha
    · exact lookup_eq_none.mpr fun e' he' h => (hlt e' he').ne (ha.trans h.symm)
    · rw [lookup_cons, if_neg ha, ih hm']

/-- The first entry of a key is what goes. -/
theorem perm_erase (h : lookup f a m = some v) :
    ∃ key, f key = a ∧ ((key, v) :: erase f a m).Perm m := by
  induction m with
  | nil => cases h
  | cons e m ih =>
    obtain ⟨key, w⟩ := e
    rw [lookup_cons] at h
    rw [erase]
    split_ifs at h ⊢ with ha
    · obtain rfl := Option.some.inj h
      exact ⟨key, ha, List.Perm.refl _⟩
    · obtain ⟨key', hkey', hperm⟩ := ih h
      exact ⟨key', hkey', (List.Perm.swap _ _ _).trans (hperm.cons _)⟩

theorem erase_of_none (h : lookup f a m = none) : erase f a m = m := by
  induction m with
  | nil => rfl
  | cons e m ih =>
    obtain ⟨hne, hrest⟩ := List.forall_mem_cons.mp (lookup_eq_none.mp h)
    rw [erase, if_neg hne, ih (lookup_eq_none.mpr hrest)]

theorem map_fst_modify : (modify f a g m).map Prod.fst = m.map Prod.fst := by
  induction m with
  | nil => rfl
  | cons e m ih =>
    rw [modify]
    split_ifs
    · rfl
    · rw [List.map_cons, List.map_cons, ih]

theorem sorted_of_map_fst {m' : List (κ × γ)} (h : m'.map Prod.fst = m.map Prod.fst)
    (hm : Sorted f m) : Sorted f m' := by
  have hkeys : m'.map (fun e => f e.1) = m.map (fun e => f e.1) := by
    rw [← Function.comp_def f, ← List.map_map, h, List.map_map, Function.comp_def]
  unfold Sorted
  rw [hkeys]
  exact hm

theorem sorted_modify (hm : Sorted f m) : Sorted f (modify f a g m) :=
  sorted_of_map_fst map_fst_modify hm

theorem lookup_modify_self : lookup f a (modify f a g m) = (lookup f a m).map g := by
  induction m with
  | nil => rfl
  | cons e m ih =>
    rw [modify, lookup_cons]
    split_ifs with ha
    · rw [lookup_cons, if_pos ha, Option.map_some]
    · rw [lookup_cons, if_neg ha, ih]

theorem lookup_modify_of_ne (hab : a ≠ b) : lookup f b (modify f a g m) = lookup f b m := by
  induction m with
  | nil => rfl
  | cons e m ih =>
    rw [modify, lookup_cons]
    split_ifs with ha hb hb
    · exact absurd (ha.symm.trans hb) hab
    · rw [lookup_cons, if_neg hb]
    · rw [lookup_cons, if_pos hb]
    · rw [lookup_cons, if_neg hb, ih]

theorem perm_modify (h : lookup f a m = some v) : ∃ key, f key = a ∧
    (modify f a g m).Perm ((key, g v) :: erase f a m) := by
  induction m with
  | nil => cases h
  | cons e m ih =>
    obtain ⟨key, w⟩ := e
    rw [lookup_cons] at h
    rw [modify, erase]
    split_ifs at h ⊢ with ha
    · obtain rfl := Option.some.inj h
      exact ⟨key, ha, List.Perm.refl _⟩
    · obtain ⟨key', hkey', hperm⟩ := ih h
      exact ⟨key', hkey', (hperm.cons _).trans (List.Perm.swap _ _ _)⟩

end EraseModify

theorem insert_of_none (h : lookup f (f key) m = none) : insert f key v m = set f key v m := by
  rw [insert, h]
  rfl

/-- The first value of a key stays. -/
theorem lookup_insert : lookup f a (insert f key v m) =
    (lookup f a m).or (if f key = a then some v else none) := by
  rw [insert]
  by_cases ha : f key = a
  · rw [if_pos ha, ha]
    cases h : lookup f a m with
    | none =>
      have hset : lookup f a (set f key v m) = some v := ha ▸ lookup_set_self
      simp [hset]
    | some w => simp [h]
  · rw [if_neg ha, Option.or_none]
    split_ifs
    · rfl
    · exact lookup_set_of_ne ha

theorem modify_of_none {g : β → β} (h : lookup f a m = none) : modify f a g m = m := by
  induction m with
  | nil => rfl
  | cons e m ih =>
    obtain ⟨hne, hrest⟩ := List.forall_mem_cons.mp (lookup_eq_none.mp h)
    rw [modify, if_neg hne, ih (lookup_eq_none.mpr hrest)]

/-- A view that shows the same of the keys of a map finds the same in it. -/
theorem lookup_congr {f' : κ → α} (h : ∀ e ∈ m, f' e.1 = f e.1) :
    lookup f' a m = lookup f a m := by
  induction m with
  | nil => rfl
  | cons e m ih =>
    obtain ⟨hkey, hrest⟩ := List.forall_mem_cons.mp h
    rw [lookup_cons, lookup_cons, hkey, ih hrest]

theorem sorted_congr {f' : κ → α} (h : ∀ e ∈ m, f' e.1 = f e.1) (hm : Sorted f m) :
    Sorted f' m := by
  unfold Sorted
  rw [List.map_congr_left h]
  exact hm

theorem mem_modify {g : β → β} {e : κ × β} (h : e ∈ modify f a g m) :
    ∃ v, (e.1, v) ∈ m ∧ (e.2 = v ∨ e.2 = g v) := by
  induction m with
  | nil => cases h
  | cons e' m ih =>
    rw [modify] at h
    split_ifs at h
    · rcases List.mem_cons.mp h with rfl | hmem
      · exact ⟨e'.2, List.mem_cons_self, .inr rfl⟩
      · exact ⟨e.2, List.mem_cons_of_mem _ hmem, .inl rfl⟩
    · rcases List.mem_cons.mp h with rfl | hmem
      · exact ⟨e.2, List.mem_cons_self, .inl rfl⟩
      · obtain ⟨v, hv, heq⟩ := ih hmem
        exact ⟨v, List.mem_cons_of_mem _ hv, heq⟩

/-! ### Counting values -/

section Count
variable {g : β → β} {p : β → Bool}

theorem countP_erase (h : lookup f a m = some v) :
    (erase f a m).countP (fun e => p e.2) + (if p v then 1 else 0) =
      m.countP (fun e => p e.2) := by
  obtain ⟨key, -, hperm⟩ := perm_erase h
  rw [← hperm.countP_eq, List.countP_cons]

theorem countP_modify (h : lookup f a m = some v) :
    (modify f a g m).countP (fun e => p e.2) + (if p v then 1 else 0) =
      m.countP (fun e => p e.2) + (if p (g v) then 1 else 0) := by
  obtain ⟨key, -, hperm⟩ := perm_modify (g := g) h
  rw [hperm.countP_eq, List.countP_cons, ← countP_erase (p := p) h]
  exact Nat.add_right_comm _ _ _

theorem countP_insert (h : lookup f (f key) m = none) :
    (insert f key v m).countP (fun e => p e.2) =
      m.countP (fun e => p e.2) + (if p v then 1 else 0) := by
  rw [insert_of_none h, (perm_set h).countP_eq, List.countP_cons]

/-- A change that keeps what is counted does not change the count. -/
theorem countP_modify_of_eq (hg : ∀ v, p (g v) = p v) :
    (modify f a g m).countP (fun e => p e.2) = m.countP (fun e => p e.2) := by
  cases h : lookup f a m with
  | none => rw [modify_of_none h]
  | some v =>
    have hcount := countP_modify (g := g) (p := p) h
    rw [hg] at hcount
    omega

end Count

/-! ### Labels

Values that know what their key looks like. -/

/-- A sorted map whose keys look like the labels of their values. -/
structure Indexed (f : κ → α) (label : β → α) (m : List (κ × β)) : Prop where
  sorted : Sorted f m
  labelled : ∀ e ∈ m, f e.1 = label e.2

section Indexed
variable {label : β → α}

theorem indexed_nil : Indexed f label [] := ⟨sorted_nil, fun _ he => absurd he List.not_mem_nil⟩

theorem Indexed.set (h : Indexed f label m) (hv : f key = label v) :
    Indexed f label (set f key v m) := by
  refine ⟨sorted_set h.sorted, fun e he => ?_⟩
  rcases mem_set he with hmem | ⟨hkey, hvalue⟩
  · exact h.labelled e hmem
  · rw [hkey, hvalue, hv]

theorem Indexed.insert (h : Indexed f label m) (hv : f key = label v) :
    Indexed f label (SortedMap.insert f key v m) := by
  unfold SortedMap.insert
  split_ifs
  · exact h
  · exact h.set hv

theorem Indexed.sublist {m' : List (κ × β)} (h : Indexed f label m) (hm : m'.Sublist m) :
    Indexed f label m' :=
  ⟨h.sorted.sublist (hm.map _), fun e he => h.labelled e (hm.subset he)⟩

theorem Indexed.erase (h : Indexed f label m) (a : α) : Indexed f label (erase f a m) :=
  h.sublist erase_sublist

theorem Indexed.modify {g : β → β} (h : Indexed f label m) (a : α)
    (hg : ∀ v, label (g v) = label v) : Indexed f label (modify f a g m) := by
  refine ⟨sorted_modify h.sorted, fun e he => ?_⟩
  obtain ⟨v, hv, heq⟩ := mem_modify he
  rw [h.labelled _ hv]
  rcases heq with heq | heq
  · rw [heq]
  · rw [heq, hg]

/-- A value is found by its label. -/
theorem Indexed.lookup (h : Indexed f label m) (hmem : (key, v) ∈ m) :
    lookup f (label v) m = some v := by
  rw [← h.labelled _ hmem]
  exact lookup_of_mem h.sorted hmem

theorem Indexed.label_eq (h : Indexed f label m) (hv : SortedMap.lookup f a m = some v) :
    label v = a := by
  obtain ⟨key, hkey, hmem⟩ := mem_of_lookup hv
  rw [← h.labelled _ hmem, hkey]

/-- Another view of the keys agrees with the labels exactly when it shows the same of all keys. -/
theorem Indexed.congr_iff {f' : κ → α} (h : Indexed f label m) :
    Indexed f' label m ↔ ∀ e ∈ m, f' e.1 = f e.1 := by
  constructor
  · intro h' e he
    rw [h'.labelled e he, h.labelled e he]
  · intro hsame
    exact ⟨sorted_congr hsame h.sorted, fun e he => (hsame e he).trans (h.labelled e he)⟩

end Indexed

end SortedMap
