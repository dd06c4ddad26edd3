import Mathlib.Tactic

/-! Intrusive circular doubly linked lists. A list is a head and the elements met by following
`next` from the head back to it; several lists share one map of links. -/
namespace CircularList
variable {α κ : Type*}

/-- The links of every head and element. -/
structure Links (α : Type*) where
  next : α → Option α
  prev : α → Option α

namespace Links
variable [DecidableEq α]

/-- Make `h` the head of an empty list. -/
def single (l : Links α) (h : α) : Links α where
  next := Function.update l.next h (some h)
  prev := Function.update l.prev h (some h)

/-- Insert `x` between the neighbours `p` and `q`. -/
def insert (l : Links α) (x p q : α) : Links α where
  next := Function.update (Function.update l.next x (some q)) p (some x)
  prev := Function.update (Function.update l.prev q (some x)) x (some p)

/-- Join the neighbours `p` and `q` of `x`, and clear the links of `x`. -/
def remove (l : Links α) (x p q : α) : Links α where
  next := Function.update (Function.update l.next p (some q)) x none
  prev := Function.update (Function.update l.prev q (some p)) x none

end Links

def Linked (l : Links α) (a b : α) : Prop := l.next a = some b ∧ l.prev b = some a

/-- The links lead from `a` over `xs` to `b`. -/
def Path (l : Links α) (a : α) : List α → α → Prop
  | [], b => Linked l a b
  | x :: xs, b => Linked l a x ∧ Path l x xs b

/-- The list with head `h` holds `xs`. -/
structure IsRing (l : Links α) (h : α) (xs : List α) : Prop where
  path : Path l h xs h
  nodup : (h :: xs).Nodup

/-- Every head `head k` has its own list `lists k`. -/
structure Rings (l : Links α) (head : κ → α) (lists : κ → List α) : Prop where
  ring : ∀ k, IsRing l (head k) (lists k)
  disjoint : ∀ j k, j ≠ k → List.Disjoint (head j :: lists j) (head k :: lists k)

section Path
variable {l l' : Links α} {a b c x : α} {xs ys : List α}

theorem path_append : Path l a (xs ++ x :: ys) b ↔ Path l a xs x ∧ Path l x ys b := by
  induction xs generalizing a with
  | nil => rfl
  | cons y xs ih => simp only [List.cons_append, Path, ih, and_assoc]

theorem Path.next_start (h : Path l a xs b) : l.next a = some (xs.headD b) := by
  cases xs with
  | nil => exact h.1
  | cons x xs => exact h.1.1

theorem Path.prev_end (h : Path l a xs b) : l.prev b = some (xs.getLastD a) := by
  induction xs generalizing a with
  | nil => exact h.2
  | cons x xs ih =>
    rw [List.getLastD_cons]
    exact ih h.2

theorem Path.congr (h : Path l a xs b) (hnext : ∀ d ∈ a :: xs, l'.next d = l.next d)
    (hprev : ∀ d ∈ xs ++ [b], l'.prev d = l.prev d) : Path l' a xs b := by
  induction xs generalizing a with
  | nil =>
    exact ⟨(hnext a (by simp)).trans h.1, (hprev b (by simp)).trans h.2⟩
  | cons x xs ih =>
    refine ⟨⟨(hnext a (by simp)).trans h.1.1, (hprev x (by simp)).trans h.1.2⟩, ?_⟩
    refine ih h.2 (fun d hd => hnext d (List.mem_cons_of_mem a hd)) (fun d hd => hprev d ?_)
    exact List.mem_cons_of_mem x hd

private theorem getLastD_mem (a : α) (xs : List α) : xs.getLastD a ∈ a :: xs := by
  induction xs generalizing a with
  | nil => simp
  | cons x xs ih =>
    rw [List.getLastD_cons]
    exact List.mem_cons_of_mem a (ih x)

/-- A change of the last link of a path leads the path elsewhere. -/
theorem Path.redirect (h : Path l a xs b) (hnd : (a :: xs).Nodup)
    (hlast : Linked l' (xs.getLastD a) c)
    (hnext : ∀ d ∈ a :: xs, d ≠ xs.getLastD a → l'.next d = l.next d)
    (hprev : ∀ d ∈ xs, l'.prev d = l.prev d) : Path l' a xs c := by
  induction xs generalizing a with
  | nil => exact hlast
  | cons x xs ih =>
    rw [List.getLastD_cons] at hlast hnext
    have hne : a ≠ xs.getLastD x := by
      intro he
      exact (List.nodup_cons.mp hnd).1 (he ▸ getLastD_mem x xs)
    refine ⟨⟨(hnext a (by simp) hne).trans h.1.1, (hprev x (by simp)).trans h.1.2⟩, ?_⟩
    exact ih h.2 (List.nodup_cons.mp hnd).2 hlast
      (fun d hd => hnext d (List.mem_cons_of_mem a hd))
      (fun d hd => hprev d (List.mem_cons_of_mem x hd))

end Path

section Ring
variable {l : Links α} {h x : α} {xs ys : List α}

theorem IsRing.congr {l' : Links α} (hr : IsRing l h xs)
    (heq : ∀ d ∈ h :: xs, l'.next d = l.next d ∧ l'.prev d = l.prev d) : IsRing l' h xs := by
  refine ⟨hr.path.congr (fun d hd => (heq d hd).1) (fun d hd => (heq d ?_).2), hr.nodup⟩
  rcases List.mem_append.mp hd with hd | hd
  · exact List.mem_cons_of_mem h hd
  · rw [List.mem_singleton.mp hd]
    exact List.mem_cons_self

theorem isRing_nil : IsRing l h [] ↔ Linked l h h :=
  ⟨fun hr => hr.path, fun hl => ⟨hl, List.nodup_singleton h⟩⟩

theorem IsRing.next_head (hr : IsRing l h xs) : l.next h = some (xs.headD h) :=
  hr.path.next_start

theorem IsRing.prev_head (hr : IsRing l h xs) : l.prev h = some (xs.getLastD h) :=
  hr.path.prev_end

theorem IsRing.next_elem (hr : IsRing l h (xs ++ x :: ys)) : l.next x = some (ys.headD h) :=
  (path_append.mp hr.path).2.next_start

theorem IsRing.prev_elem (hr : IsRing l h (xs ++ x :: ys)) : l.prev x = some (xs.getLastD h) :=
  (path_append.mp hr.path).1.prev_end

variable [DecidableEq α]

theorem IsRing.insert (hr : IsRing l h xs) (hx : x ∉ h :: xs) :
    IsRing (l.insert x (xs.getLastD h) h) h (xs ++ [x]) := by
  have hlast : xs.getLastD h ∈ h :: xs := getLastD_mem h xs
  have hxl : x ≠ xs.getLastD h := fun he => hx (he ▸ hlast)
  have hxh : x ≠ h := fun he => hx (he ▸ List.mem_cons_self)
  have hh : h ∉ xs := (List.nodup_cons.mp hr.nodup).1
  constructor
  · rw [path_append]
    refine ⟨hr.path.redirect hr.nodup ⟨?_, ?_⟩ ?_ ?_, ?_, ?_⟩
    · exact Function.update_self _ _ _
    · exact Function.update_self _ _ _
    · intro d hd hne
      have hdx : d ≠ x := fun he => hx (he ▸ hd)
      simp only [Links.insert, Function.update_of_ne hne, Function.update_of_ne hdx]
    · intro d hd
      have hdx : d ≠ x := fun he => hx (he ▸ List.mem_cons_of_mem h hd)
      have hdh : d ≠ h := fun he => hh (he ▸ hd)
      simp only [Links.insert, Function.update_of_ne hdx, Function.update_of_ne hdh]
    · simp only [Links.insert, Function.update_of_ne hxl, Function.update_self]
    · simp only [Links.insert, Function.update_of_ne hxh.symm, Function.update_self]
  · rw [← List.cons_append]
    refine List.nodup_append.mpr ⟨hr.nodup, List.nodup_singleton x, ?_⟩
    intro d hd e he hde
    rw [List.mem_singleton.mp he] at hde
    exact hx (hde ▸ hd)

theorem IsRing.remove (hr : IsRing l h (xs ++ x :: ys)) :
    IsRing (l.remove x (xs.getLastD h) (ys.headD h)) h (xs ++ ys) := by
  obtain ⟨hleft, hright⟩ := path_append.mp hr.path
  have hnd : (h :: xs ++ x :: ys).Nodup := hr.nodup
  obtain ⟨hl, hxy, hdis⟩ := List.nodup_append.mp hnd
  obtain ⟨hx, hys⟩ := List.nodup_cons.mp hxy
  have hxl : ∀ d ∈ h :: xs, d ≠ x := fun d hd => hdis d hd x List.mem_cons_self
  have hyl : ∀ d ∈ h :: xs, ∀ e ∈ ys, d ≠ e :=
    fun d hd e he => hdis d hd e (List.mem_cons_of_mem x he)
  have hlast : xs.getLastD h ∈ h :: xs := getLastD_mem h xs
  have hh : h ∉ xs := (List.nodup_cons.mp hl).1
  constructor
  · cases ys with
    | nil =>
      rw [List.append_nil]
      refine hleft.redirect hl ⟨?_, ?_⟩ ?_ ?_
      · simp only [Links.remove, Function.update_of_ne (hxl _ hlast), Function.update_self,
          List.headD_nil]
      · simp only [Links.remove, Function.update_of_ne (hxl h List.mem_cons_self),
          Function.update_self, List.headD_nil]
      · intro d hd hne
        simp only [Links.remove, Function.update_of_ne (hxl d hd), Function.update_of_ne hne]
      · intro d hd
        have hdh : d ≠ h := fun he => hh (he ▸ hd)
        simp only [Links.remove, Function.update_of_ne (hxl d (List.mem_cons_of_mem h hd)),
          List.headD_nil, Function.update_of_ne hdh]
    | cons y ys =>
      have hyx : y ≠ x := fun he => hx (he ▸ List.mem_cons_self)
      have hyn : y ∉ ys := (List.nodup_cons.mp hys).1
      rw [path_append]
      refine ⟨hleft.redirect hl ⟨?_, ?_⟩ ?_ ?_, hright.2.congr ?_ ?_⟩
      · simp only [Links.remove, Function.update_of_ne (hxl _ hlast), Function.update_self,
          List.headD_cons]
      · simp only [Links.remove, Function.update_of_ne hyx, Function.update_self,
          List.headD_cons]
      · intro d hd hne
        simp only [Links.remove, Function.update_of_ne (hxl d hd), Function.update_of_ne hne]
      · intro d hd
        have hdy : d ≠ y := hyl d (List.mem_cons_of_mem h hd) y List.mem_cons_self
        simp only [Links.remove, Function.update_of_ne (hxl d (List.mem_cons_of_mem h hd)),
          List.headD_cons, Function.update_of_ne hdy]
      · intro d hd
        have hdx : d ≠ x := fun he => hx (he ▸ hd)
        have hdl : d ≠ xs.getLastD h := (hyl _ hlast d hd).symm
        simp only [Links.remove, Function.update_of_ne hdx, Function.update_of_ne hdl]
      · intro d hd
        have hne : d ≠ x ∧ d ≠ y := by
          rcases List.mem_append.mp hd with hd | hd
          · exact ⟨fun he => hx (he ▸ List.mem_cons_of_mem y hd), fun he => hyn (he ▸ hd)⟩
          · rw [List.mem_singleton.mp hd]
            exact ⟨hxl h List.mem_cons_self, hyl h List.mem_cons_self y List.mem_cons_self⟩
        simp only [Links.remove, Function.update_of_ne hne.1, List.headD_cons,
          Function.update_of_ne hne.2]
  · refine hnd.sublist ?_
    rw [List.cons_append]
    exact ((List.sublist_cons_self x ys).append_left xs).cons_cons h

end Ring

section Rings
variable {l l' : Links α} {head : κ → α} {lists : κ → List α} {k : κ} {x : α} {xs ys : List α}

theorem Rings.not_mem_of_ne (hR : Rings l head lists) {j : κ} (hj : j ≠ k) {d e : α}
    (hd : d ∈ head j :: lists j) (he : e ∈ head k :: lists k) : d ≠ e :=
  fun heq => hR.disjoint j k hj hd (heq ▸ he)

variable [DecidableEq κ]

/-- The lists after the list `k` has been replaced by a list over its own elements and elements
of no list, when the links of the other lists are kept. -/
private theorem Rings.replace (hR : Rings l head lists) {zs : List α}
    (hring : IsRing l' (head k) zs) (hfresh : ∀ d ∈ zs, ∀ j, j ≠ k → d ∉ head j :: lists j)
    (hkeep : ∀ j, j ≠ k → ∀ d ∈ head j :: lists j, l'.next d = l.next d ∧ l'.prev d = l.prev d) :
    Rings l' head (Function.update lists k zs) := by
  have hk : ∀ j, j ≠ k → List.Disjoint (head k :: zs) (head j :: lists j) := by
    intro j hj d hd hd'
    rcases List.mem_cons.mp hd with rfl | hd
    · exact hR.disjoint j k hj hd' List.mem_cons_self
    · exact hfresh d hd j hj hd'
  constructor
  · intro j
    by_cases hj : j = k
    · subst hj
      rwa [Function.update_self]
    · rw [Function.update_of_ne hj]
      exact (hR.ring j).congr (hkeep j hj)
  · intro i j hij
    by_cases hi : i = k
    · subst hi
      rw [Function.update_self, Function.update_of_ne hij.symm]
      exact hk j hij.symm
    · rw [Function.update_of_ne hi]
      by_cases hj : j = k
      · subst hj
        rw [Function.update_self]
        exact (hk i hi).symm
      · rw [Function.update_of_ne hj]
        exact hR.disjoint i j hij

/-- A removed element is on no list. -/
theorem Rings.remove_not_mem (hR : Rings l head lists) (hk : lists k = xs ++ x :: ys) (j : κ) :
    x ∉ head j :: Function.update lists k (xs ++ ys) j := by
  have hx : x ∈ lists k := by
    rw [hk]
    exact List.mem_append_right xs List.mem_cons_self
  by_cases hj : j = k
  · subst hj
    have hnd := (hR.ring j).nodup
    rw [hk] at hnd
    obtain ⟨hhead, hnd⟩ := List.nodup_cons.mp hnd
    rw [Function.update_self, List.mem_cons, not_or]
    refine ⟨fun he => hhead (he ▸ List.mem_append_right xs List.mem_cons_self), ?_⟩
    exact (List.nodup_middle.mp hnd).notMem
  · rw [Function.update_of_ne hj]
    exact fun hm => hR.not_mem_of_ne hj hm (List.mem_cons_of_mem _ hx) rfl

variable [DecidableEq α]

theorem Rings.insert (hR : Rings l head lists) (k : κ) (hx : ∀ j, x ∉ head j :: lists j) :
    Rings (l.insert x ((lists k).getLastD (head k)) (head k)) head
      (Function.update lists k (lists k ++ [x])) := by
  have hlast : (lists k).getLastD (head k) ∈ head k :: lists k := getLastD_mem _ _
  refine hR.replace ((hR.ring k).insert (hx k)) ?_ ?_
  · intro d hd j hj hd'
    rcases List.mem_append.mp hd with hd | hd
    · exact hR.not_mem_of_ne hj hd' (List.mem_cons_of_mem _ hd) rfl
    · exact hx j (List.mem_singleton.mp hd ▸ hd')
  · intro j hj d hd
    have hdx : d ≠ x := fun he => hx j (he ▸ hd)
    have hdl := hR.not_mem_of_ne hj hd hlast
    have hdh := hR.not_mem_of_ne hj hd List.mem_cons_self
    simp only [Links.insert, Function.update_of_ne hdx, Function.update_of_ne hdl,
      Function.update_of_ne hdh, and_self]

theorem Rings.remove (hR : Rings l head lists) (hk : lists k = xs ++ x :: ys) :
    Rings (l.remove x (xs.getLastD (head k)) (ys.headD (head k))) head
      (Function.update lists k (xs ++ ys)) := by
  have hring := hR.ring k
  rw [hk] at hring
  have hmem : ∀ d ∈ xs ++ ys, d ∈ lists k := by
    intro d hd
    rw [hk]
    exact ((List.sublist_cons_self x ys).append_left xs).subset hd
  have hx : x ∈ head k :: lists k := by
    rw [hk]
    exact List.mem_cons_of_mem _ (List.mem_append_right xs List.mem_cons_self)
  have hp : xs.getLastD (head k) ∈ head k :: lists k := by
    rw [hk, ← List.cons_append]
    exact List.mem_append_left _ (getLastD_mem _ _)
  have hq : ys.headD (head k) ∈ head k :: lists k := by
    rw [hk]
    cases ys with
    | nil => exact List.mem_cons_self
    | cons y ys => simp
  refine hR.replace hring.remove ?_ ?_
  · intro d hd j hj hd'
    exact hR.not_mem_of_ne hj hd' (List.mem_cons_of_mem _ (hmem d hd)) rfl
  · intro j hj d hd
    have hdx := hR.not_mem_of_ne hj hd hx
    have hdp := hR.not_mem_of_ne hj hd hp
    have hdq := hR.not_mem_of_ne hj hd hq
    simp only [Links.remove, Function.update_of_ne hdx, Function.update_of_ne hdp,
      Function.update_of_ne hdq, and_self]

end Rings

end CircularList
