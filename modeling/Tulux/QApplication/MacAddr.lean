import Mathlib.Data.List.TakeWhile
import Tulux.Lib.Loop
import Tulux.Lib.Strtol
import Tulux.QApplication.LoadConfiguration
import Tulux.QCoder.J2735

/-! The MAC address in the configuration. A position is a `size_t` that is kept in an `int`. -/
namespace Tulux.QApplication.MacAddr
open QCoder LoadConfiguration

/-- An `int` as a `size_t`. -/
def sizeT (x : ℤ) : ℕ := (x % 2 ^ 64).toNat

def npos : ℕ := 2 ^ 64 - 1

/-- `string::find` from a position on. -/
def findFrom (s : Text) (c : UInt8) (start : ℕ) : ℕ :=
  (((s.drop start).findIdx? (· == c)).map (start + ·)).getD npos

def rfind (s : Text) (c : UInt8) : ℕ :=
  ((s.reverse.findIdx? (· == c)).map (s.length - 1 - ·)).getD npos

/-- `string::substr`, which throws for a position behind the end. -/
def substr (s : Text) (start count : ℕ) : Option Text :=
  if start ≤ s.length then some ((s.drop start).take count) else none

/-- `substr` with the length `npos`. -/
def substrFrom (s : Text) (start : ℕ) : Option Text :=
  if start ≤ s.length then some (s.drop start) else none

/-- `stoi` with base 16. It throws where there is no number, or none of an `int`. -/
def stoi (s : Text) : Option ℤ :=
  (Strtol.strtol 16 s).filter fun v => decide (-2 ^ 31 ≤ v ∧ v < 2 ^ 31)

/-- An `int` stored in a `uint8_t`. -/
def toOctet (v : ℤ) : UInt8 := UInt8.ofNat (v % 2 ^ 8).toNat

/-- What was stored at which index of `MacAddr`, and whether the text made the program throw. -/
structure Stored where
  writes : List (ℕ × UInt8)
  thrown : Bool

structure MacState where
  i : ℕ
  prev : ℤ
  writes : List (ℕ × UInt8)

def macPass (s : Text) (st : MacState) : MacState ⊕ Stored :=
  let pos := s32 (findFrom s 0x3a (sizeT st.prev))
  if sizeT pos ≠ npos then
    match (substr s (sizeT st.prev) (sizeT pos)).bind stoi with
    | none => .inr ⟨st.writes, true⟩
    | some v => .inl ⟨st.i + 1, pos + 1, st.writes ++ [(st.i, toOctet v)]⟩
  else .inr ⟨st.writes, false⟩

/-- The last octet is what follows the last space. -/
def storeLast (s : Text) (writes : List (ℕ × UInt8)) : Stored :=
  let pos := s32 (rfind s 0x20)
  ((substrFrom s (sizeT (pos + 1))).bind stoi).elim ⟨writes, true⟩ fun v =>
    ⟨writes ++ [(5, toOctet v)], false⟩

/-- The part of `saveConfiguration` for `MacAddr`. -/
def saveMacAddr (s : Text) (fuel : ℕ) : Option Stored :=
  (Loop.run (macPass s) ⟨0, 0, []⟩ fuel).map fun stored =>
    if stored.thrown then stored else storeLast s stored.writes

/-! ### What it should do -/

/-- An octet in hexadecimal. -/
structure HexOctet where
  text : Text
  ne_nil : text ≠ []
  length_le : text.length ≤ 2
  hex : ∀ c ∈ text, (Strtol.digit 16 c).isSome

def HexOctet.octet (o : HexOctet) : UInt8 := UInt8.ofNat (Strtol.value 16 o.text)

def joined (octets : List HexOctet) : Text := [0x3a].intercalate (octets.map HexOctet.text)

/-- What is at an index in the end. -/
def lastWrite (writes : List (ℕ × UInt8)) (i : ℕ) : Option UInt8 :=
  (writes.reverse.find? fun w => w.1 == i).map Prod.snd

/-- The octets of the text are stored in order. -/
def StoresOctets (octets : List HexOctet) : Prop :=
  ∃ writes, Loop.Yields (saveMacAddr (joined octets)) ⟨writes, false⟩ ∧
    ∀ i < 6, lastWrite writes i = (octets.map HexOctet.octet)[i]?

/-- Six octets are stored or the program throws, and nothing is stored outside `MacAddr`. -/
def StoresSix (s : Text) : Prop :=
  ∃ stored, Loop.Yields (saveMacAddr s) stored ∧ (∀ w ∈ stored.writes, w.1 < 6) ∧
    (stored.thrown = false → ∀ i < 6, ∃ v, (i, v) ∈ stored.writes)

/-- What follows the last space. -/
def afterSpace (s : Text) : Text := (s.reverse.takeWhile fun c => c != 0x20).reverse

/-- One of the first seven fields that a colon follows is no number; or there are five or six
colons; or there are fewer, and what follows the last space is no number. -/
def MacSafe (s : Text) : Prop :=
  let fields := s.splitOn 0x3a
  (∃ field ∈ fields.dropLast.take 7, stoi field = none) ∨ fields.length = 6 ∨ fields.length = 7 ∨
    fields.length < 6 ∧ stoi (afterSpace s) = none

/-! ### The fields -/

/-- What the loop stores of the fields from the one with the index `i` on. -/
def storeFields (i : ℕ) (writes : List (ℕ × UInt8)) : List Text → Stored
  | field :: next :: fields =>
    match stoi field with
    | none => ⟨writes, true⟩
    | some v => storeFields (i + 1) (writes ++ [(i, toOctet v)]) (next :: fields)
  | _ => ⟨writes, false⟩

section Loop
variable {s : Text}

theorem sizeT_natCast {n : ℕ} (h : n < 2 ^ 64) : sizeT n = n := by
  rw [sizeT]
  omega

theorem s32_natCast {n : ℕ} (h : n < 2 ^ 31) : s32 n = n := s32_of_lt (by omega)

theorem s32_npos : s32 npos = -1 := by
  have hnpos : (npos : ℤ) = 18446744073709551615 := by norm_num [npos]
  rw [s32, hnpos]
  decide

theorem stops_colon : Strtol.Stops 16 0x3a :=
  ⟨by decide, by decide, by decide, by decide, by decide, by decide⟩

/-- The number in a field is found in every text that begins with the field and its colon. -/
theorem stoi_append (field rest : Text) : stoi (field ++ 0x3a :: rest) = stoi field := by
  rw [stoi, Strtol.strtol_append _ _ stops_colon, stoi]

/-- A position is given where a length is asked for, which is long enough. -/
theorem stoi_take {field rest : Text} {count : ℕ} (hcount : field.length ≤ count) :
    stoi ((field ++ 0x3a :: rest).take count) = stoi field := by
  obtain ⟨more, rfl⟩ := Nat.exists_eq_add_of_le hcount
  rw [List.take_length_add_append]
  cases more with
  | zero => rw [List.take_zero, List.append_nil]
  | succ more => rw [List.take_succ_cons, stoi_append]

theorem findFrom_of_none {start : ℕ} {c : UInt8}
    (h : c ∉ s.drop start) : findFrom s c start = npos := by
  have hnone : (s.drop start).findIdx? (· == c) = none := by
    rw [List.findIdx?_eq_none_iff]
    exact fun x hx => beq_eq_false_iff_ne.mpr fun heq => h (heq ▸ hx)
  rw [findFrom, hnone]
  rfl

theorem findFrom_of_append {start : ℕ} {c : UInt8} {field rest : Text} (hfield : c ∉ field)
    (h : s.drop start = field ++ c :: rest) : findFrom s c start = start + field.length := by
  have hsome : (s.drop start).findIdx? (· == c) = some field.length := by
    rw [h, List.findIdx?_eq_some_iff_getElem]
    refine ⟨by simp, by simp, fun j hj heq => hfield ?_⟩
    rw [List.getElem_append_left hj, beq_iff_eq] at heq
    exact heq ▸ List.getElem_mem _
  rw [findFrom, hsome]
  rfl

/-- The loop takes the fields one after the other. -/
theorem yields_macPass (hs : s.length < 2 ^ 31) {prev : ℕ} (hprev : prev ≤ s.length) (i : ℕ)
    (writes : List (ℕ × UInt8)) : Loop.Yields (Loop.run (macPass s) ⟨i, prev, writes⟩)
      (storeFields i writes ((s.drop prev).splitOn 0x3a)) := by
  induction hn : s.length - prev using Nat.strong_induction_on generalizing prev i writes with
  | _ n ih =>
    have hsize : sizeT (prev : ℤ) = prev := sizeT_natCast (by omega)
    by_cases hcolon : (0x3a : UInt8) ∈ s.drop prev
    · obtain ⟨field, rest, happend, hfield⟩ := List.eq_append_cons_of_mem hcolon
      have hlength : s.length - prev = field.length + (rest.length + 1) := by
        have hlength := congrArg List.length happend
        rwa [List.length_drop, List.length_append, List.length_cons] at hlength
      have hpos : s32 (findFrom s 0x3a prev) = (prev + field.length : ℕ) := by
        rw [findFrom_of_append hfield happend, s32_natCast (by omega)]
      have hcount : sizeT ((prev + field.length : ℕ) : ℤ) = prev + field.length :=
        sizeT_natCast (by omega)
      have hnext : s.drop (prev + field.length + 1) = rest := by
        rw [Nat.add_assoc, ← List.drop_drop, happend]
        simp
      have hnumber : (substr s prev (prev + field.length)).bind stoi = stoi field := by
        rw [substr, if_pos hprev, Option.bind_some, happend, stoi_take (by omega)]
      obtain ⟨next, fields, hfields⟩ := List.exists_cons_of_ne_nil
        (List.splitOn_ne_nil (0x3a : UInt8) rest)
      have hrest := ih (s.length - (prev + field.length + 1)) (by omega)
        (show prev + field.length + 1 ≤ s.length by omega)
      rw [happend, List.splitOn_append_cons_self, List.splitOn_eq_singleton hfield,
        List.singleton_append, hfields, storeFields]
      cases hvalue : stoi field with
      | none =>
        refine Loop.yields_done ?_
        rw [macPass, hsize, hpos, hcount, if_pos (by rw [npos]; omega), hnumber, hvalue]
      | some v =>
        have hpass : macPass s ⟨i, prev, writes⟩ = .inl ⟨i + 1, (prev + field.length + 1 : ℕ),
            writes ++ [(i, toOctet v)]⟩ := by
          rw [macPass, hsize, hpos, hcount, if_pos (by rw [npos]; omega), hnumber, hvalue]
          rfl
        have hrest := hrest (i + 1) (writes ++ [(i, toOctet v)]) rfl
        rw [hnext, hfields] at hrest
        exact Loop.yields_pass hpass hrest
    · refine Loop.yields_done ?_
      rw [List.splitOn_eq_singleton hcolon, macPass, hsize, findFrom_of_none hcolon, s32_npos,
        if_neg (by decide)]
      rfl

/-- What is behind the last space is cut out, or all where there is none. -/
theorem substr_rfind (hs : s.length < 2 ^ 31) :
    substrFrom s (sizeT (s32 (rfind s 0x20) + 1)) = some (afterSpace s) := by
  have hafter : afterSpace s = s.drop (s.length - (s.reverse.findIdx fun c => c == 0x20)) := by
    have hnot : (fun c : UInt8 => !(c != 0x20)) = fun c => c == 0x20 := by
      funext c
      rw [bne, Bool.not_not]
    rw [afterSpace, List.takeWhile_eq_take_findIdx_not, hnot, List.reverse_take,
      List.reverse_reverse, List.length_reverse]
  rw [rfind]
  cases hfound : s.reverse.findIdx? (· == 0x20) with
  | none =>
    have hindex := List.findIdx?_eq_none_iff_findIdx_eq.mp hfound
    rw [List.length_reverse] at hindex
    have hpos : sizeT (s32 (npos : ℕ) + 1) = 0 := by rw [s32_npos]; decide
    rw [Option.map_none, Option.getD_none, hpos, substrFrom, if_pos (Nat.zero_le _),
      hafter, hindex, Nat.sub_self]
  | some j =>
    obtain ⟨hlt, hindex⟩ := List.findIdx?_eq_some_iff_findIdx_eq.mp hfound
    rw [List.length_reverse] at hlt
    have hpos : sizeT (s32 (s.length - 1 - j : ℕ) + 1) = s.length - j := by
      rw [s32_natCast (by omega), ← Nat.cast_add_one, sizeT_natCast (by omega)]
      omega
    rw [Option.map_some, Option.getD_some, hpos, substrFrom, if_pos (by omega), hafter, hindex]

theorem storeLast_eq (hs : s.length < 2 ^ 31) (writes : List (ℕ × UInt8)) :
    storeLast s writes = (stoi (afterSpace s)).elim ⟨writes, true⟩ fun v =>
      ⟨writes ++ [(5, toOctet v)], false⟩ := by
  rw [storeLast, substr_rfind hs, Option.bind_some]

/-- The fields are stored up to the first one that is no number, and the last octet behind them. -/
theorem yields_saveMacAddr (hs : s.length < 2 ^ 31) : Loop.Yields (saveMacAddr s)
    (if (storeFields 0 [] (s.splitOn 0x3a)).thrown then storeFields 0 [] (s.splitOn 0x3a)
      else storeLast s (storeFields 0 [] (s.splitOn 0x3a)).writes) := by
  have hloop := yields_macPass hs (Nat.zero_le s.length) 0 []
  rw [List.drop_zero, Nat.cast_zero] at hloop
  exact hloop.map fun stored => if stored.thrown then stored else storeLast s stored.writes

end Loop

section Fields
variable {fields : List Text}

/-- The fields that are stored: those before the first one that is no number. -/
def numbers (fields : List Text) : List Text :=
  fields.dropLast.takeWhile fun field => (stoi field).isSome

theorem storeFields_eq (i : ℕ) (writes : List (ℕ × UInt8)) (fields : List Text) :
    storeFields i writes fields =
      ⟨writes ++ ((numbers fields).zipIdx i).map fun field =>
          (field.2, toOctet ((stoi field.1).getD 0)),
        decide ((numbers fields).length < fields.dropLast.length)⟩ := by
  induction fields generalizing i writes with
  | nil => simp [storeFields, numbers]
  | cons field fields ih =>
    cases fields with
    | nil => simp [storeFields, numbers]
    | cons next fields =>
      rw [storeFields, numbers, List.dropLast_cons_cons, List.takeWhile_cons]
      cases hvalue : stoi field with
      | none => simp
      | some v =>
        dsimp only
        rw [ih]
        simp [numbers, hvalue]

theorem exists_mem_take_iff {α : Type*} {p : α → Bool} (xs : List α) (n : ℕ) :
    (∃ x ∈ xs.take n, p x = false) ↔
      (xs.takeWhile p).length < xs.length ∧ (xs.takeWhile p).length < n := by
  induction xs generalizing n with
  | nil => simp
  | cons x xs ih =>
    cases n with
    | zero => simp
    | succ n =>
      rw [List.take_succ_cons, List.exists_mem_cons_iff, List.takeWhile_cons, ih]
      cases hx : p x with
      | false => simp
      | true => simp

/-- What the loop stores. -/
def loopWrites (fields : List Text) : List (ℕ × UInt8) :=
  ((numbers fields).zipIdx).map fun field => (field.2, toOctet ((stoi field.1).getD 0))

theorem index_loopWrites (fields : List Text) :
    (loopWrites fields).map Prod.fst = List.range (numbers fields).length := by
  rw [loopWrites, List.map_map, List.range_eq_range', ← List.zipIdx_map_snd]
  rfl

theorem exists_mem_loopWrites {j : ℕ} :
    (∃ v, (j, v) ∈ loopWrites fields) ↔ j < (numbers fields).length := by
  rw [← List.mem_range, ← index_loopWrites, List.mem_map]
  constructor
  · rintro ⟨v, hv⟩
    exact ⟨_, hv, rfl⟩
  · rintro ⟨⟨j', v⟩, hv, rfl⟩
    exact ⟨v, hv⟩

theorem forall_mem_loopWrites :
    (∀ w ∈ loopWrites fields, w.1 < 6) ↔ (numbers fields).length ≤ 6 := by
  have hall : (∀ w ∈ loopWrites fields, w.1 < 6) ↔ ∀ j < (numbers fields).length, j < 6 := by
    constructor
    · intro h j hj
      obtain ⟨v, hv⟩ := exists_mem_loopWrites.mpr hj
      exact h _ hv
    · exact fun h w hw => h w.1 (exists_mem_loopWrites.mp ⟨w.2, hw⟩)
  rw [hall]
  constructor
  · intro h
    by_contra hlt
    exact absurd (h 6 (by omega)) (by decide)
  · exact fun h j hj => by omega

/-- With the last octet, all six are there when the loop has stored five. -/
theorem forall_lt_six_iff {o : UInt8} :
    (∀ i < 6, ∃ v, (i, v) ∈ loopWrites fields ++ [(5, o)]) ↔ 5 ≤ (numbers fields).length := by
  constructor
  · intro h
    obtain ⟨v, hv⟩ := h 4 (by decide)
    rcases List.mem_append.mp hv with hloop | hlast
    · exact exists_mem_loopWrites.mp ⟨v, hloop⟩
    · simp at hlast
  · intro h i hi
    by_cases hfive : i = 5
    · exact ⟨o, List.mem_append_right _ (by rw [hfive]; exact List.mem_cons_self)⟩
    · obtain ⟨v, hv⟩ := exists_mem_loopWrites.mpr (show i < (numbers fields).length by omega)
      exact ⟨v, List.mem_append_left _ hv⟩

end Fields

/-! ### Six octets -/

section Safe
variable {s : Text}

theorem storesSix_iff_of_yields {stored : Stored} (h : Loop.Yields (saveMacAddr s) stored) :
    StoresSix s ↔ (∀ w ∈ stored.writes, w.1 < 6) ∧
      (stored.thrown = false → ∀ i < 6, ∃ v, (i, v) ∈ stored.writes) := by
  constructor
  · rintro ⟨stored', hstored', hsix⟩
    rwa [h.unique hstored']
  · exact fun hsix => ⟨stored, h, hsix⟩

/-- A text stores six octets or throws exactly when it is safe. -/
theorem storesSix_iff (hs : s.length < 2 ^ 31) : StoresSix s ↔ MacSafe s := by
  have hyields := yields_saveMacAddr hs
  rw [storeFields_eq, storeLast_eq hs, List.nil_append] at hyields
  change Loop.Yields (saveMacAddr s) (if decide _ = true then ⟨loopWrites (s.splitOn 0x3a), _⟩ else
    Option.elim _ ⟨loopWrites (s.splitOn 0x3a), true⟩ fun v =>
      ⟨loopWrites (s.splitOn 0x3a) ++ [(5, toOctet v)], false⟩) at hyields
  have hfields := List.splitOn_ne_nil (0x3a : UInt8) s
  unfold MacSafe
  generalize s.splitOn 0x3a = fields at *
  have hlength : fields.dropLast.length + 1 = fields.length := by
    rw [List.length_dropLast]
    have := List.length_pos_iff.mpr hfields
    omega
  have hbad := exists_mem_take_iff (p := fun field => (stoi field).isSome) fields.dropLast 7
  simp only [Option.isSome_eq_false_iff, Option.isNone_iff_eq_none] at hbad
  have hle : (numbers fields).length ≤ fields.dropLast.length := (List.takeWhile_prefix _).length_le
  dsimp only
  rw [hbad]
  change _ ↔ (numbers fields).length < _ ∧ (numbers fields).length < 7 ∨ _
  by_cases hlt : (numbers fields).length < fields.dropLast.length
  · rw [if_pos (decide_eq_true hlt)] at hyields
    rw [storesSix_iff_of_yields hyields, forall_mem_loopWrites]
    simp only [decide_eq_true hlt, reduceCtorEq, false_implies, and_true]
    omega
  · rw [if_neg (by simpa using hlt)] at hyields
    cases hvalue : stoi (afterSpace s) with
    | none =>
      rw [hvalue, Option.elim_none] at hyields
      rw [storesSix_iff_of_yields hyields, forall_mem_loopWrites]
      simp only [reduceCtorEq, false_implies, and_true]
      omega
    | some v =>
      rw [hvalue, Option.elim_some] at hyields
      have hinside : (∀ w ∈ loopWrites fields ++ [(5, toOctet v)], w.1 < 6) ↔
          (numbers fields).length ≤ 6 := by
        rw [List.forall_mem_append, forall_mem_loopWrites]
        simp
      rw [storesSix_iff_of_yields hyields]
      dsimp only
      rw [hinside, forall_lt_six_iff]
      simp only [forall_const, reduceCtorEq, and_false, or_false]
      omega

end Safe

/-! ### Octets -/

section Octets

theorem value_text_lt (o : HexOctet) : Strtol.value 16 o.text < 256 := by
  have hlt := Strtol.value_lt (show 1 < 16 by decide) o.text
  have hle : (Strtol.digits 16 o.text).length ≤ 2 :=
    (Strtol.length_digits o.hex).trans_le o.length_le
  exact hlt.trans_le (Nat.pow_le_pow_right (by decide) hle)

theorem stoi_text (o : HexOctet) : stoi o.text = some (Strtol.value 16 o.text : ℤ) := by
  have hlt := value_text_lt o
  rw [stoi, Strtol.strtol_hex o.ne_nil o.hex, Option.filter_some_pos]
  exact decide_eq_true (by omega)

theorem toOctet_value (o : HexOctet) : toOctet (Strtol.value 16 o.text : ℤ) = o.octet := by
  have hlt := value_text_lt o
  rw [toOctet, HexOctet.octet]
  congr 1
  omega

theorem not_mem_text (o : HexOctet) {c : UInt8} (hc : Strtol.digit 16 c = none) : c ∉ o.text := by
  intro hmem
  have hsome := o.hex c hmem
  rw [hc] at hsome
  cases hsome

theorem splitOn_joined {octets : List HexOctet} (h : octets ≠ []) :
    (joined octets).splitOn 0x3a = octets.map HexOctet.text := by
  refine List.splitOn_intercalate _ (fun text htext => ?_) (by simpa using h)
  obtain ⟨o, -, rfl⟩ := List.mem_map.mp htext
  exact not_mem_text o (by decide)

theorem joined_cons_cons (o next : HexOctet) (octets : List HexOctet) :
    joined (o :: next :: octets) = o.text ++ 0x3a :: joined (next :: octets) := by
  rw [joined, List.map_cons, List.map_cons, List.intercalate_cons_cons, List.append_assoc]
  rfl

theorem joined_singleton (o : HexOctet) : joined [o] = o.text := by
  rw [joined, List.map_singleton, List.intercalate_singleton]

theorem not_mem_joined {c : UInt8} (hc : Strtol.digit 16 c = none) (hcolon : c ≠ 0x3a)
    (octets : List HexOctet) : c ∉ joined octets := by
  induction octets with
  | nil => exact List.not_mem_nil
  | cons o octets ih =>
    cases octets with
    | nil =>
      rw [joined_singleton]
      exact not_mem_text o hc
    | cons next octets =>
      rw [joined_cons_cons, List.mem_append, List.mem_cons]
      rintro (htext | rfl | hrest)
      · exact not_mem_text o hc htext
      · exact hcolon rfl
      · exact ih hrest

theorem length_joined (octets : List HexOctet) : (joined octets).length ≤ 3 * octets.length := by
  induction octets with
  | nil => exact Nat.zero_le _
  | cons o octets ih =>
    have hle := o.length_le
    cases octets with
    | nil =>
      rw [joined_singleton, List.length_singleton]
      omega
    | cons next octets =>
      rw [joined_cons_cons, List.length_append, List.length_cons, List.length_cons]
      rw [List.length_cons] at ih ⊢
      omega

/-- There are no spaces, and so the last octet is read from the start of the text. -/
theorem stoi_afterSpace_joined (o next : HexOctet) (octets : List HexOctet) :
    stoi (afterSpace (joined (o :: next :: octets))) = some (Strtol.value 16 o.text : ℤ) := by
  have hspace := not_mem_joined (c := 0x20) (by decide) (by decide) (o :: next :: octets)
  have hall : afterSpace (joined (o :: next :: octets)) = joined (o :: next :: octets) := by
    rw [afterSpace, List.takeWhile_eq_self_iff.mpr, List.reverse_reverse]
    intro c hc
    rw [bne_iff_ne]
    rintro rfl
    exact hspace (List.mem_reverse.mp hc)
  rw [hall, joined_cons_cons, stoi_append, stoi_text]

theorem numbers_text (octets : List HexOctet) :
    numbers (octets.map HexOctet.text) = octets.dropLast.map HexOctet.text := by
  rw [numbers, List.map_dropLast, List.takeWhile_eq_self_iff]
  intro field hfield
  obtain ⟨o, -, rfl⟩ := List.mem_map.mp (List.dropLast_subset _ hfield)
  rw [stoi_text]
  rfl

theorem loopWrites_text (octets : List HexOctet) : loopWrites (octets.map HexOctet.text) =
    (octets.dropLast.zipIdx).map fun o => (o.2, o.1.octet) := by
  rw [loopWrites, numbers_text, List.zipIdx_map, List.map_map]
  refine List.map_congr_left fun o _ => ?_
  simp [stoi_text, toOctet_value]

/-- All octets but the last one are stored by the loop, and the first one behind them. -/
theorem yields_joined {o next : HexOctet} {octets : List HexOctet}
    (hlength : octets.length < 2 ^ 29) : Loop.Yields (saveMacAddr (joined (o :: next :: octets)))
      ⟨((o :: next :: octets).dropLast.zipIdx.map fun o => (o.2, o.1.octet)) ++ [(5, o.octet)],
        false⟩ := by
  have hle := length_joined (o :: next :: octets)
  rw [List.length_cons, List.length_cons] at hle
  have hs : (joined (o :: next :: octets)).length < 2 ^ 31 := by omega
  have hyields := yields_saveMacAddr hs
  have hall : ¬ (numbers ((o :: next :: octets).map HexOctet.text)).length <
      ((o :: next :: octets).map HexOctet.text).dropLast.length := by
    rw [numbers_text, List.map_dropLast]
    exact Nat.lt_irrefl _
  rw [splitOn_joined (List.cons_ne_nil _ _), storeFields_eq, if_neg (by simpa using hall),
    storeLast_eq hs, stoi_afterSpace_joined, Option.elim_some, List.nil_append, toOctet_value,
    ← loopWrites] at hyields
  rw [← loopWrites_text]
  exact hyields

end Octets

/-- Six octets are stored in order exactly when the last one is like the first, which is stored in
its place; and a text stores six octets or throws, inside `MacAddr`, exactly when it is safe. -/
theorem macAddr_iff (octets : List HexOctet) (s : Text) :
    (octets.length = 6 →
      (StoresOctets octets ↔
        (octets.map HexOctet.octet)[5]? = (octets.map HexOctet.octet)[0]?)) ∧
      (s.length < 2 ^ 31 → (StoresSix s ↔ MacSafe s)) := by
  refine ⟨fun hlength => ?_, fun hs => storesSix_iff hs⟩
  match octets, hlength with
  | [o₀, o₁, o₂, o₃, o₄, o₅], _ =>
    have hyields : Loop.Yields (saveMacAddr (joined [o₀, o₁, o₂, o₃, o₄, o₅]))
        ⟨[(0, o₀.octet), (1, o₁.octet), (2, o₂.octet), (3, o₃.octet), (4, o₄.octet), (5, o₀.octet)],
          false⟩ := yields_joined (by norm_num)
    constructor
    · rintro ⟨writes, hwrites, hoctets⟩
      obtain ⟨rfl, -⟩ := Stored.mk.inj (hyields.unique hwrites)
      exact (hoctets 5 (by decide)).symm
    · intro hlast
      refine ⟨_, hyields, fun i hi => ?_⟩
      interval_cases i
      · rfl
      · rfl
      · rfl
      · rfl
      · rfl
      · exact hlast.symm

/-- The shipped address 00:0a:0b:0c:0d:0e. -/
def shippedAddr : List HexOctet :=
  [⟨[0x30, 0x30], by decide, by decide, List.all_eq_true.mp (by decide)⟩,
    ⟨[0x30, 0x61], by decide, by decide, List.all_eq_true.mp (by decide)⟩,
    ⟨[0x30, 0x62], by decide, by decide, List.all_eq_true.mp (by decide)⟩,
    ⟨[0x30, 0x63], by decide, by decide, List.all_eq_true.mp (by decide)⟩,
    ⟨[0x30, 0x64], by decide, by decide, List.all_eq_true.mp (by decide)⟩,
    ⟨[0x30, 0x65], by decide, by decide, List.all_eq_true.mp (by decide)⟩]

/-- It gets the last octet 0; of the text 1:2 two octets are stored, and of eight fields the seventh
is stored behind `MacAddr`. -/
theorem not_storesOctets :
    (shippedAddr.map HexOctet.octet = [0, 10, 11, 12, 13, 14] ∧ ¬ StoresOctets shippedAddr) ∧
      ¬ StoresSix [0x31, 0x3a, 0x32] ∧
        ¬ StoresSix [0x31, 0x3a, 0x31, 0x3a, 0x31, 0x3a, 0x31, 0x3a, 0x31, 0x3a, 0x31, 0x3a, 0x31,
          0x3a, 0x31] := by
  refine ⟨⟨by decide, ?_⟩, ?_, ?_⟩
  · rintro ⟨writes, hwrites, hoctets⟩
    obtain ⟨rfl, -⟩ := Stored.mk.inj ((yields_joined (by norm_num)).unique hwrites)
    exact absurd (hoctets 5 (by decide)) (by decide)
  · rw [storesSix_iff (by norm_num), MacSafe]
    decide +kernel
  · rw [storesSix_iff (by norm_num), MacSafe]
    decide +kernel

end Tulux.QApplication.MacAddr
