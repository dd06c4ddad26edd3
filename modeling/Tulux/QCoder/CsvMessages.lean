import Tulux.QCoder.CsvBounds

/-! The options and extensions of the message that a CSV line gives. -/
namespace Tulux.QCoder
open Loop QApplication

/-! ### What the columns set -/

/-- The options and extensions of a message, with the values of the events and the lights. -/
structure CsvFlags where
  partII : ℕ
  safety : ℕ
  special : ℕ
  supplemental : ℕ
  qty : ℤ
  options : ℤ
  events : ℕ
  lights : ℕ

def csvFlags (bsm : BsmValue) : CsvFlags where
  partII := bsm.hasPartII
  safety := bsm.hasSafetyExtension
  special := bsm.hasSpecialExtension
  supplemental := bsm.hasSupplementalExtension
  qty := bsm.qtyPartIIExtensions
  options := bsm.vehsafeopts
  events := bsm.events
  lights := bsm.lightsInUse

/-- What a column is for: events and lights with the place of their bits, and whether an event sets
`has_safety_extension`. -/
inductive ColumnKind where
  | event (shift : ℕ) (extension : Bool)
  | light (shift : ℕ)
  | prediction
  | supplemental
  | other

def columnKind (k : ℕ) : ColumnKind :=
  match k with
  | 40 => .event 12 true
  | 41 => .event 10 true
  | 42 => .event 9 true
  | 43 => .event 8 false
  | 44 => .event 5 true
  | 45 => .event 3 true
  | 46 => .event 0 true
  | 163 => .prediction
  | 164 => .prediction
  | 165 => .light 8
  | 166 => .light 7
  | 167 => .light 6
  | 168 => .light 5
  | 169 => .light 4
  | 170 => .light 3
  | 171 => .light 2
  | 172 => .light 1
  | 173 => .light 0
  | 174 => .supplemental
  | 175 => .supplemental
  | 176 => .supplemental
  | 178 => .supplemental
  | 179 => .supplemental
  | 180 => .supplemental
  | 181 => .supplemental
  | _ => .other

/-- The bits of a column in a word. -/
def columnWord (t : CsvText) (shift : ℕ) : ℕ := u32 (atoi t) <<< shift % 2 ^ 16

/-- What a column with a text sets. -/
def CsvFlags.set (kind : ColumnKind) (t : CsvText) (f : CsvFlags) : CsvFlags :=
  match kind with
  | .event shift extension =>
    { f with
      partII := 1
      safety := if extension then 1 else f.safety
      options := setBit f.options 0x8
      events := f.events ||| columnWord t shift }
  | .light shift =>
    { f with
      partII := 1
      safety := 1
      options := setBit f.options 0x1
      lights := f.lights ||| columnWord t shift }
  | .prediction => { f with partII := 1, safety := 1, options := setBit f.options 0x2 }
  | .supplemental => { f with partII := 1, supplemental := 1 }
  | .other => f

section Columns
variable (fp : CsvFloats) (k : ℕ) (t : CsvText) (bsm : BsmValue)

theorem csvFlags_missingColumn : csvFlags (missingColumn k bsm) = csvFlags bsm := by
  unfold missingColumn
  split <;> rfl

theorem csvFlags_withCrumbs (f : ℕ → PhPoint) : csvFlags (withCrumbs f bsm) = csvFlags bsm := rfl

theorem csvFlags_historyOption (count : ℤ) : csvFlags (historyOption count bsm) =
    { csvFlags bsm with
      partII := 1
      safety := 1
      options := setBit (csvFlags bsm).options 0x4 } := by
  simp [csvFlags, historyOption, safetyOption]

theorem csvFlags_coreColumn : csvFlags (coreColumn fp k t bsm) = csvFlags bsm := by
  unfold coreColumn
  split <;> rfl

theorem csvFlags_column :
    csvFlags (column fp k t bsm) = (csvFlags bsm).set (columnKind k) t := by
  unfold column
  split
  case h_26 =>
    have hkind : columnKind k = .other := by
      unfold columnKind
      split <;> first | rfl | contradiction
    rw [csvFlags_coreColumn, hkind, CsvFlags.set]
  all_goals
    simp [columnKind, CsvFlags.set, csvFlags, safetyOption, supplementalOption, eventColumn,
      lightColumn, weatherColumn, vehicleColumn, orWord, columnWord]

theorem range_of_columnKind (h : columnKind k ≠ .other) : k < 47 ∨ 163 ≤ k := by
  unfold columnKind at h
  split at h
  case h_26 => exact absurd rfl h
  all_goals omega

end Columns

/-! ### Runs

A flag that columns set and none clears is set behind the last column by those that the line
supplies. -/

/-- The line has a column with a text of a kind. -/
def Supplies (columns : List CsvText) (c : ColumnKind → CsvText → Prop) : Prop :=
  ∃ k t, supplied columns k = some t ∧ c (columnKind k) t

/-- The columns of a kind set the flag, and crumbs do where `byCrumbs` holds. -/
structure Accumulates (q : CsvFlags → Prop) (byCrumbs : Prop)
    (c : ColumnKind → CsvText → Prop) : Prop where
  start : ¬ q (csvFlags csvStart.bsm)
  column : ∀ kind t f, q (f.set kind t) ↔ q f ∨ c kind t
  crumbs : ∀ f, q { f with partII := 1, safety := 1, options := setBit f.options 0x4 } ↔
    q f ∨ byCrumbs
  other : ∀ t, ¬ c .other t

section Runs
variable {fp : CsvFloats} {columns : List CsvText} {st : CsvState} {q : CsvFlags → Prop}
  {byCrumbs : Prop} {c : ColumnKind → CsvText → Prop}

theorem Accumulates.visit (h : Accumulates q byCrumbs c) (st : CsvState) :
    q (csvFlags (visit fp columns st).bsm) ↔
      q (csvFlags st.bsm) ∨
        ∃ t, supplied columns st.a.toNat = some t ∧ c (columnKind st.a.toNat) t := by
  rw [QCoder.visit]
  cases hsupplied : supplied columns st.a.toNat with
  | none => simp [csvFlags_missingColumn]
  | some t => simp [csvFlags_column, h.column]

theorem Accumulates.visits (h : Accumulates q byCrumbs c) (n : ℕ) (ha : 0 ≤ st.a) :
    q (csvFlags ((QCoder.visit fp columns)^[n] st).bsm) ↔ q (csvFlags st.bsm) ∨
      ∃ k t, st.a.toNat ≤ k ∧ k < st.a.toNat + n ∧ supplied columns k = some t ∧
        c (columnKind k) t := by
  induction n generalizing st with
  | zero => simp +contextual
  | succ n ih =>
    have hnext := visit_a fp columns st
    have hnat : (QCoder.visit fp columns st).a.toNat = st.a.toNat + 1 := by omega
    rw [Function.iterate_succ_apply, ih (by omega), h.visit, hnat, or_assoc]
    apply or_congr_right
    constructor
    · rintro (⟨t, ht, hc⟩ | ⟨k, t, hlo, hhi, ht, hc⟩)
      · exact ⟨st.a.toNat, t, le_refl _, by omega, ht, hc⟩
      · exact ⟨k, t, by omega, by omega, ht, hc⟩
    · rintro ⟨k, t, hlo, hhi, ht, hc⟩
      by_cases hk : k = st.a.toNat
      · exact .inl ⟨t, hk ▸ ht, hk ▸ hc⟩
      · exact .inr ⟨k, t, by omega, by omega, ht, hc⟩

theorem lt_of_supplied {k : ℕ} {t : CsvText} (h : supplied columns k = some t) :
    k < columns.length := by
  by_contra hle
  rw [supplied, List.getElem?_eq_none_iff.mpr (by omega)] at h
  cases h

theorem Accumulates.beforeHistory (h : Accumulates q byCrumbs c) :
    q (csvFlags (beforeHistory fp columns).bsm) ↔
      ∃ k t, k < 47 ∧ supplied columns k = some t ∧ c (columnKind k) t := by
  rw [QCoder.beforeHistory, h.visits 47 (le_refl 0), or_iff_right h.start]
  simp [csvStart]

theorem Accumulates.lastFrom (h : Accumulates q byCrumbs c) {behind : ℤ} (hbehind : 0 ≤ behind)
    (bsm : BsmValue) : q (csvFlags (lastFrom fp columns behind bsm).bsm) ↔ q (csvFlags bsm) ∨
      ∃ k t, behind.toNat ≤ k ∧ supplied columns k = some t ∧ c (columnKind k) t := by
  rw [QCoder.lastFrom, h.visits _ hbehind]
  apply or_congr_right
  constructor
  · rintro ⟨k, t, hlo, -, ht, hc⟩
    exact ⟨k, t, hlo, ht, hc⟩
  · rintro ⟨k, t, hlo, ht, hc⟩
    have hlt := lt_of_supplied ht
    exact ⟨k, t, hlo, by dsimp only; omega, ht, hc⟩

theorem Accumulates.historyOption (h : Accumulates q byCrumbs c) (count : ℤ) (bsm : BsmValue) :
    q (csvFlags (QCoder.historyOption count bsm)) ↔ q (csvFlags bsm) ∨ byCrumbs := by
  rw [csvFlags_historyOption, h.crumbs]

/-- Before column 47 or behind the crumbs: every column that sets the flag is passed over. -/
theorem Accumulates.supplies (h : Accumulates q byCrumbs c) {behind : ℕ} (hlo : 48 ≤ behind)
    (hhi : behind ≤ 163) : ((∃ k t, k < 47 ∧ supplied columns k = some t ∧ c (columnKind k) t) ∨
      ∃ k t, behind ≤ k ∧ supplied columns k = some t ∧ c (columnKind k) t) ↔
        Supplies columns c := by
  constructor
  · rintro (⟨k, t, -, ht, hc⟩ | ⟨k, t, -, ht, hc⟩)
    · exact ⟨k, t, ht, hc⟩
    · exact ⟨k, t, ht, hc⟩
  · rintro ⟨k, t, ht, hc⟩
    rcases range_of_columnKind k (fun hkind => h.other t (hkind ▸ hc)) with hk | hk
    · exact .inl ⟨k, t, hk, ht, hc⟩
    · exact .inr ⟨k, t, by omega, ht, hc⟩

/-- Behind the last column, with no negative count. -/
theorem Accumulates.last (h : Accumulates q byCrumbs c) (hlast : LastState fp columns st)
    (hcount : 0 ≤ crumbCount columns) :
    q (csvFlags st.bsm) ↔ 0 < crumbCount columns ∧ byCrumbs ∨ Supplies columns c := by
  cases hlast with
  | short hle =>
    have hnone : ¬ 0 < crumbCount columns :=
      fun hpos => absurd (length_of_crumbCount hpos.ne') (by omega)
    rw [h.visits _ (le_refl 0), or_iff_right h.start, or_iff_right (fun hpos => hnone hpos.1)]
    constructor
    · rintro ⟨k, t, -, -, ht, hc⟩
      exact ⟨k, t, ht, hc⟩
    · rintro ⟨k, t, ht, hc⟩
      have hlt := lt_of_supplied ht
      exact ⟨k, t, Nat.zero_le k, by simp only [csvStart, Int.toNat_zero]; omega, ht, hc⟩
  | noCrumbs hlt hzero =>
    have hnone : ¬ (0 < crumbCount columns ∧ byCrumbs) := fun hpos => hpos.1.ne' hzero
    rw [h.lastFrom (by norm_num), h.beforeHistory, or_iff_right hnone]
    exact h.supplies (le_refl 48) (by norm_num)
  | crumbs f hpos hqty hle =>
    rw [maxPathHistoryPointsQty] at hqty
    rw [h.lastFrom (by omega), csvFlags_withCrumbs, h.historyOption, h.beforeHistory, or_right_comm,
      h.supplies (by omega) (by omega), or_comm, and_iff_right hpos]
  | ahead hneg => exact absurd hneg (not_lt.mpr hcount)

theorem Accumulates.last_of_neg (h : Accumulates q byCrumbs c) (hlast : LastState fp columns st)
    (hneg : crumbCount columns < 0) (hcrumbs : byCrumbs) : q (csvFlags st.bsm) := by
  cases hlast with
  | short hle => exact absurd (length_of_crumbCount hneg.ne) (by omega)
  | noCrumbs hlt hzero => exact absurd hneg (by omega)
  | crumbs f hpos => exact absurd hpos (by omega)
  | ahead _ hbehind =>
    rw [h.lastFrom (by omega), h.historyOption]
    exact .inl (.inr hcrumbs)

end Runs

/-! ### The flags -/

theorem u32_lt_two_pow (x : ℤ) : u32 x < 2 ^ 32 := by
  unfold u32
  omega

theorem u32_s32 (x : ℤ) : u32 (s32 x) = u32 x := by
  rw [u32, s32, u32]
  congr 1
  exact_mod_cast Int.bmod_emod

theorem u32_setBit (x : ℤ) {bit : ℕ} (h : bit < 2 ^ 32) : u32 (setBit x bit) = u32 x ||| bit := by
  rw [setBit, u32_s32, u32_natCast_of_lt (Nat.or_lt_two_pow (u32_lt_two_pow x) h)]

theorem u32_maskBits (x : ℤ) (mask : ℕ) : u32 (maskBits x mask) = u32 x &&& mask := by
  rw [maskBits, u32_s32, u32_natCast_of_lt]
  exact lt_of_le_of_lt Nat.and_le_left (u32_lt_two_pow x)

theorem has_or {x y mask : ℕ} : Has (x ||| y) mask ↔ Has x mask ∨ Has y mask := by
  rw [Has, Nat.and_or_distrib_right, Ne, Nat.or_eq_zero_iff, not_and_or]

/-- The option of a column. -/
def ColumnKind.option : ColumnKind → ℕ
  | .event _ _ => 0x8
  | .light _ => 0x1
  | .prediction => 0x2
  | .supplemental => 0
  | .other => 0

def ColumnKind.IsSafety : ColumnKind → Prop
  | .event _ extension => extension = true
  | .light _ => True
  | .prediction => True
  | .supplemental => False
  | .other => False

/-- An event with bits. -/
def EventWord (kind : ColumnKind) (t : CsvText) : Prop :=
  match kind with
  | .event shift _ => columnWord t shift ≠ 0
  | _ => False

/-- A light with bits. -/
def LightWord (kind : ColumnKind) (t : CsvText) : Prop :=
  match kind with
  | .light shift => columnWord t shift ≠ 0
  | _ => False

theorem csvFlags_start : csvFlags csvStart.bsm = ⟨0, 0, 0, 0, 0, 0, 0, 0⟩ := rfl

theorem accumulates_option (mask : ℕ) : Accumulates (fun f => Has (u32 f.options) mask)
    (Has 0x4 mask) fun kind _ => Has kind.option mask where
  start := by simp [csvFlags_start, u32]
  column kind t f := by
    cases kind with
    | supplemental => simp [CsvFlags.set, ColumnKind.option]
    | other => simp [CsvFlags.set, ColumnKind.option]
    | _ =>
      simp only [CsvFlags.set, ColumnKind.option]
      rw [u32_setBit _ (by norm_num), has_or]
  crumbs f := by rw [u32_setBit _ (by norm_num), has_or]
  other _ := by simp [ColumnKind.option]

/-- What is true of 1 and not of 0. -/
theorem accumulates_safety {p : ℕ → Prop} (hzero : ¬ p 0) (hone : p 1) :
    Accumulates (fun f => p f.safety) True fun kind _ => kind.IsSafety where
  start := by simpa [csvFlags_start] using hzero
  column kind t f := by
    cases kind with
    | event shift extension =>
      cases extension <;> simp [CsvFlags.set, ColumnKind.IsSafety, hone]
    | _ => simp [CsvFlags.set, ColumnKind.IsSafety, hone]
  crumbs f := by simp [hone]
  other _ := id

theorem accumulates_partII :
    Accumulates (fun f => f.partII ≠ 0) True fun kind _ => kind ≠ .other where
  start := by simp [csvFlags_start]
  column kind t f := by cases kind <;> simp [CsvFlags.set]
  crumbs f := by simp
  other _ := not_not_intro rfl

theorem accumulates_supplemental :
    Accumulates (fun f => f.supplemental ≠ 0) False fun kind _ => kind = .supplemental where
  start := by simp [csvFlags_start]
  column kind t f := by cases kind <;> simp [CsvFlags.set]
  crumbs f := by simp
  other _ := nofun

/-- There is no special extension, and the extensions are not counted before the last column. -/
theorem accumulates_none :
    Accumulates (fun f => f.special ≠ 0 ∨ f.qty ≠ 0) False fun _ _ => False where
  start := by simp [csvFlags_start]
  column kind t f := by cases kind <;> simp [CsvFlags.set]
  crumbs f := by simp
  other _ := id

theorem accumulates_events : Accumulates (fun f => f.events ≠ 0) False EventWord where
  start := by simp [csvFlags_start]
  column kind t f := by
    cases kind with
    | event shift extension =>
      rw [CsvFlags.set, EventWord, Ne, Nat.or_eq_zero_iff, not_and_or]
    | _ => simp [CsvFlags.set, EventWord]
  crumbs f := by simp
  other _ := id

theorem accumulates_lights : Accumulates (fun f => f.lights ≠ 0) False LightWord where
  start := by simp [csvFlags_start]
  column kind t f := by
    cases kind with
    | light shift => rw [CsvFlags.set, LightWord, Ne, Nat.or_eq_zero_iff, not_and_or]
    | _ => simp [CsvFlags.set, LightWord]
  crumbs f := by simp
  other _ := id

/-! ### Behind the last column -/

section Options
variable (bsm : BsmValue)

theorem csvFlags_countIf (present : Prop) [Decidable present] : csvFlags (countIf present bsm) =
    { csvFlags bsm with qty := (csvFlags bsm).qty + if present then 1 else 0 } := by
  unfold countIf
  split_ifs <;> simp [csvFlags]

theorem csvFlags_maskIfZero (word mask : ℕ) : csvFlags (maskIfZero word mask bsm) =
    { csvFlags bsm with
      options := if word = 0 then maskBits (csvFlags bsm).options mask
        else (csvFlags bsm).options } := by
  unfold maskIfZero
  split_ifs <;> simp [csvFlags]

/-- The flags, when the extensions are counted and the options masked. -/
def CsvFlags.finish (f : CsvFlags) : CsvFlags :=
  { f with
    qty := f.qty + (if f.safety = 1 then 1 else 0) + (if f.special ≠ 0 then 1 else 0) +
      if f.supplemental ≠ 0 then 1 else 0
    options :=
      let options := if f.events = 0 then maskBits f.options 0x7 else f.options
      if f.lights = 0 then maskBits options 0x0 else options }

theorem csvFlags_csvOptions : csvFlags (csvOptions bsm) = (csvFlags bsm).finish := by
  have hspecial (present : Prop) [Decidable present] (b : BsmValue) :
      (countIf present b).hasSpecialExtension = b.hasSpecialExtension :=
    congrArg CsvFlags.special (csvFlags_countIf b present)
  have hsupplemental (present : Prop) [Decidable present] (b : BsmValue) :
      (countIf present b).hasSupplementalExtension = b.hasSupplementalExtension :=
    congrArg CsvFlags.supplemental (csvFlags_countIf b present)
  have hevents (present : Prop) [Decidable present] (b : BsmValue) :
      (countIf present b).events = b.events :=
    congrArg CsvFlags.events (csvFlags_countIf b present)
  have hlights (present : Prop) [Decidable present] (b : BsmValue) :
      (countIf present b).lightsInUse = b.lightsInUse :=
    congrArg CsvFlags.lights (csvFlags_countIf b present)
  have hmask (word mask : ℕ) (b : BsmValue) :
      (maskIfZero word mask b).lightsInUse = b.lightsInUse :=
    congrArg CsvFlags.lights (csvFlags_maskIfZero b word mask)
  unfold csvOptions
  simp only [csvFlags_maskIfZero, csvFlags_countIf, hspecial, hsupplemental, hevents, hlights,
    hmask]
  rfl

theorem csvOptions_vehsafeopts : (csvOptions bsm).vehsafeopts = (csvFlags bsm).finish.options :=
  congrArg CsvFlags.options (csvFlags_csvOptions bsm)

theorem csvOptions_safety : (csvOptions bsm).hasSafetyExtension = bsm.hasSafetyExtension :=
  congrArg CsvFlags.safety (csvFlags_csvOptions bsm)

theorem finish_options_of_dark {f : CsvFlags} (h : f.lights = 0) : f.finish.options = 0 := by
  rw [CsvFlags.finish]
  dsimp only
  rw [if_pos h, maskBits, Nat.and_zero]
  rfl

/-- Without a light nothing is left, and without an event not its option. -/
theorem has_finish (f : CsvFlags) (mask : ℕ) : Has (u32 f.finish.options) mask ↔
    f.lights ≠ 0 ∧ Has (u32 f.options) (if f.events = 0 then 0x7 &&& mask else mask) := by
  by_cases hlights : f.lights = 0
  · rw [finish_options_of_dark hlights]
    simp [Has, u32, hlights]
  · unfold CsvFlags.finish
    dsimp only
    rw [if_neg hlights, and_iff_right hlights]
    by_cases hevents : f.events = 0
    · rw [if_pos hevents, if_pos hevents, u32_maskBits, Has, Nat.and_assoc]
    · rw [if_neg hevents, if_neg hevents]

theorem partIIMatches_csvOptions (hsafety : bsm.hasSafetyExtension = 1 ↔ bsm.hasSafetyExtension ≠ 0)
    (hspecial : bsm.hasSpecialExtension = 0) (hqty : bsm.qtyPartIIExtensions = 0) :
    PartIIMatches (csvOptions bsm) ↔ (bsm.hasPartII ≠ 0 ↔
      bsm.hasSafetyExtension ≠ 0 ∨ bsm.hasSupplementalExtension ≠ 0) := by
  have hflags := csvFlags_csvOptions bsm
  have hpartII : (csvOptions bsm).hasPartII = bsm.hasPartII := congrArg CsvFlags.partII hflags
  have hcount : extensionCount (csvOptions bsm) =
      (if bsm.hasSafetyExtension = 1 then 1 else 0) +
        if bsm.hasSupplementalExtension ≠ 0 then 1 else 0 := by
    have hnone : (csvOptions bsm).hasSpecialExtension = bsm.hasSpecialExtension :=
      congrArg CsvFlags.special hflags
    have hsupplemental : (csvOptions bsm).hasSupplementalExtension = bsm.hasSupplementalExtension :=
      congrArg CsvFlags.supplemental hflags
    rw [extensionCount, csvOptions_safety, hnone, hsupplemental, hspecial]
    simp only [hsafety, ne_eq, not_true_eq_false, if_false, add_zero]
  have hsum : (csvOptions bsm).qtyPartIIExtensions = extensionCount (csvOptions bsm) := by
    have hfinish : (csvOptions bsm).qtyPartIIExtensions = (csvFlags bsm).finish.qty :=
      congrArg CsvFlags.qty hflags
    rw [hfinish, hcount, CsvFlags.finish, csvFlags]
    simp [hspecial, hqty]
  rw [PartIIMatches, and_iff_left hsum, hpartII, hcount]
  simp only [hsafety]
  by_cases h : bsm.hasSafetyExtension = 0 <;> by_cases h' : bsm.hasSupplementalExtension = 0 <;>
    simp [h, h']

end Options

/-! ### Consistent messages -/

/-- The options and extensions of a message are those that its line supplies. -/
structure CsvConsistent (columns : List CsvText) (bsm : BsmValue) : Prop where
  events : Has (u32 bsm.vehsafeopts) 0x8 ↔ Supplies columns EventWord
  history : Has (u32 bsm.vehsafeopts) 0x4 ↔ 0 < crumbCount columns
  prediction : Has (u32 bsm.vehsafeopts) 0x2 ↔ Supplies columns fun kind _ => kind = .prediction
  lights : Has (u32 bsm.vehsafeopts) 0x1 ↔ Supplies columns LightWord
  safety : bsm.hasSafetyExtension ≠ 0 ↔ bsm.vehsafeopts ≠ 0
  partII : PartIIMatches bsm

/-- Lights with bits and no negative count; or nothing of the safety extension, but for an event of
column 43 without bits where the line has a supplemental extension. -/
def ConsistentLine (columns : List CsvText) : Prop :=
  0 ≤ crumbCount columns ∧ Supplies columns LightWord ∨
    crumbCount columns = 0 ∧ ¬ Supplies columns (fun kind _ => kind.IsSafety) ∧
      (Supplies columns (fun kind _ => kind = .event 8 false) →
        ¬ Supplies columns EventWord ∧ Supplies columns fun kind _ => kind = .supplemental)

section Consistent
variable {fp : CsvFloats} {columns : List CsvText} {st : CsvState}

theorem Supplies.mono {c c' : ColumnKind → CsvText → Prop} (hc : ∀ kind t, c kind t → c' kind t)
    (h : Supplies columns c) : Supplies columns c' := by
  obtain ⟨k, t, ht, hkind⟩ := h
  exact ⟨k, t, ht, hc _ t hkind⟩

theorem has_event {kind : ColumnKind} {t : CsvText} (h : EventWord kind t) :
    Has kind.option 0x8 := by
  cases kind with
  | event shift extension => simp [Has, ColumnKind.option]
  | _ => exact absurd h id

theorem has_light {kind : ColumnKind} {t : CsvText} (h : LightWord kind t) :
    Has kind.option 0x1 ∧ kind.IsSafety := by
  cases kind with
  | light shift => exact ⟨by simp [Has, ColumnKind.option], trivial⟩
  | _ => exact absurd h id

theorem has_prediction {kind : ColumnKind} : Has kind.option 0x2 ↔ kind = .prediction := by
  cases kind <;> simp [Has, ColumnKind.option]

theorem not_has_history {kind : ColumnKind} : ¬ Has kind.option 0x4 := by
  cases kind <;> simp [Has, ColumnKind.option]

/-- The options behind the last column, with no negative count. -/
theorem has_csvOptions (hlast : LastState fp columns st) (hcount : 0 ≤ crumbCount columns)
    (mask : ℕ) : Has (u32 (csvOptions st.bsm).vehsafeopts) mask ↔ Supplies columns LightWord ∧
      (0 < crumbCount columns ∧ Has 0x4 (if st.bsm.events = 0 then 0x7 &&& mask else mask) ∨
        Supplies columns fun kind _ =>
          Has kind.option (if st.bsm.events = 0 then 0x7 &&& mask else mask)) := by
  have hlights := accumulates_lights.last hlast hcount
  rw [csvOptions_vehsafeopts, has_finish, hlights, (accumulates_option _).last hlast hcount,
    and_false, false_or]
  rfl

/-- Without lights no option is left. -/
theorem csvOptions_eq_zero (hlast : LastState fp columns st) (hcount : 0 ≤ crumbCount columns)
    (h : ¬ Supplies columns LightWord) : (csvOptions st.bsm).vehsafeopts = 0 := by
  have hlights := (accumulates_lights.last hlast hcount).not.mpr (by simpa using h)
  rw [csvOptions_vehsafeopts, finish_options_of_dark (not_not.mp hlights)]

/-- The extensions behind the last column, with no negative count. -/
theorem partII_last (hlast : LastState fp columns st) (hcount : 0 ≤ crumbCount columns) :
    ((csvOptions st.bsm).hasSafetyExtension ≠ 0 ↔
      0 < crumbCount columns ∨ Supplies columns fun kind _ => kind.IsSafety) ∧
    (PartIIMatches (csvOptions st.bsm) ↔
      (0 < crumbCount columns ∨ (Supplies columns fun kind _ => kind ≠ .other) ↔
        (0 < crumbCount columns ∨ Supplies columns fun kind _ => kind.IsSafety) ∨
          Supplies columns fun kind _ => kind = .supplemental)) := by
  have hsafety := (accumulates_safety (p := (· ≠ 0)) (by simp) (by simp)).last hlast hcount
  have hone := (accumulates_safety (p := (· = 1)) (by simp) rfl).last hlast hcount
  have hpartII := accumulates_partII.last hlast hcount
  have hsupplemental := accumulates_supplemental.last hlast hcount
  have hnone := (accumulates_none.last hlast hcount).not.mpr (by simp [Supplies])
  rw [and_true] at hsafety hone hpartII
  rw [and_false, false_or] at hsupplemental
  rw [not_or, not_not, not_not] at hnone
  refine ⟨by rw [csvOptions_safety]; exact hsafety, ?_⟩
  rw [partIIMatches_csvOptions st.bsm (hone.trans hsafety.symm) hnone.1 hnone.2]
  exact iff_congr hpartII (or_congr hsafety hsupplemental)

/-- With lights in use, and no negative count, everything fits together. -/
theorem consistent_of_lights (hlast : LastState fp columns st) (hcount : 0 ≤ crumbCount columns)
    (hlights : Supplies columns LightWord) : CsvConsistent columns (csvOptions st.bsm) := by
  have hopt := has_csvOptions hlast hcount
  obtain ⟨hsafety, hpartII⟩ := partII_last hlast hcount
  have hextension : Supplies columns fun kind _ => kind.IsSafety :=
    hlights.mono fun _ _ h => (has_light h).2
  have hother : Supplies columns fun kind _ => kind ≠ .other :=
    hextension.mono fun kind _ h hkind => by
      rw [hkind] at h
      exact h
  have hlight : Has (u32 (csvOptions st.bsm).vehsafeopts) 0x1 := by
    have hmask : (if st.bsm.events = 0 then 0x7 &&& 0x1 else 0x1) = 0x1 := by simp
    rw [hopt, hmask]
    exact ⟨hlights, .inr (hlights.mono fun _ _ h => (has_light h).1)⟩
  refine ⟨?_, ?_, ?_, iff_of_true hlight hlights, ?_, ?_⟩
  · have hevents := accumulates_events.last hlast hcount
    rw [and_false, false_or] at hevents
    rw [hopt, and_iff_right hlights, ← hevents]
    by_cases hnone : st.bsm.events = 0
    · simp [hnone, csvFlags, Has, Supplies]
    · have hsupplied : Supplies columns EventWord := hevents.mp hnone
      rw [if_neg hnone]
      exact iff_of_true (.inr (hsupplied.mono fun _ _ h => has_event h)) hnone
  · have hmask : (if st.bsm.events = 0 then 0x7 &&& 0x4 else 0x4) = 0x4 := by simp
    rw [hopt, and_iff_right hlights, hmask]
    simp [Supplies, not_has_history]
  · have hmask : (if st.bsm.events = 0 then 0x7 &&& 0x2 else 0x2) = 0x2 := by simp
    rw [hopt, and_iff_right hlights, hmask]
    simp [has_prediction]
  · refine iff_of_true (hsafety.mpr (.inr hextension)) fun hzero => ?_
    rw [hzero] at hlight
    exact hlight rfl
  · exact hpartII.mpr (iff_of_true (.inr hother) (.inl (.inr hextension)))

theorem shift_of_columnKind {k shift : ℕ} (h : columnKind k = .event shift false) : shift = 8 := by
  unfold columnKind at h
  split at h <;> simp_all

theorem kind_of_eventWord {k : ℕ} {t : CsvText} (h : EventWord (columnKind k) t) :
    (columnKind k).IsSafety ∨ columnKind k = .event 8 false := by
  cases hk : columnKind k with
  | event shift extension =>
    cases extension with
    | true => exact .inl rfl
    | false => exact .inr (by rw [shift_of_columnKind hk])
  | _ =>
    rw [hk] at h
    exact absurd h id

/-- A column with a kind is one of the safety extension, column 43 or one of the supplemental
extension. -/
theorem supplies_cases (h : Supplies columns fun kind _ => kind ≠ .other) :
    (Supplies columns fun kind _ => kind.IsSafety) ∨
      (Supplies columns fun kind _ => kind = .event 8 false) ∨
        Supplies columns fun kind _ => kind = .supplemental := by
  obtain ⟨k, t, ht, hkind⟩ := h
  cases hk : columnKind k with
  | event shift extension =>
    cases extension with
    | true => exact .inl ⟨k, t, ht, by rw [hk]; rfl⟩
    | false =>
      rw [shift_of_columnKind hk] at hk
      exact .inr (.inl ⟨k, t, ht, hk⟩)
  | light shift => exact .inl ⟨k, t, ht, by rw [hk]; trivial⟩
  | prediction => exact .inl ⟨k, t, ht, by rw [hk]; trivial⟩
  | supplemental => exact .inr (.inr ⟨k, t, ht, hk⟩)
  | other => exact absurd hk hkind

/-- Without lights no option is left, so that nothing of the safety extension may be there. -/
theorem consistent_iff_of_not_lights (hlast : LastState fp columns st)
    (hcount : 0 ≤ crumbCount columns) (hlights : ¬ Supplies columns LightWord) :
    CsvConsistent columns (csvOptions st.bsm) ↔
      crumbCount columns = 0 ∧ ¬ Supplies columns (fun kind _ => kind.IsSafety) ∧
        (Supplies columns (fun kind _ => kind = .event 8 false) →
          ¬ Supplies columns EventWord ∧ Supplies columns fun kind _ => kind = .supplemental) := by
  have hzero := csvOptions_eq_zero hlast hcount hlights
  have hnone (mask : ℕ) : ¬ Has (u32 (csvOptions st.bsm).vehsafeopts) mask := by
    rw [hzero, Has, u32, Int.zero_emod, Int.toNat_zero, Nat.zero_and]
    exact not_not_intro rfl
  obtain ⟨hsafety, hpartII⟩ := partII_last hlast hcount
  constructor
  · intro h
    have hextension := hsafety.not.mp fun hne => (h.safety.mp hne) hzero
    rw [not_or] at hextension
    have hparts := hpartII.mp h.partII
    rw [or_iff_right hextension.1, or_iff_right hextension.1, or_iff_right hextension.2] at hparts
    refine ⟨by omega, hextension.2, fun hevent => ⟨h.events.not.mp (hnone _), hparts.mp ?_⟩⟩
    exact hevent.mono fun kind _ hkind => by simp [hkind]
  · rintro ⟨hcrumbs, hextension, hevent⟩
    have hnocrumbs : ¬ 0 < crumbCount columns := by omega
    have hnoevents : ¬ Supplies columns EventWord := by
      rintro ⟨k, t, ht, hword⟩
      rcases kind_of_eventWord hword with hkind | hkind
      · exact hextension ⟨k, t, ht, hkind⟩
      · exact (hevent ⟨k, t, ht, hkind⟩).1 ⟨k, t, ht, hword⟩
    have hnoprediction : ¬ Supplies columns fun kind _ => kind = .prediction := by
      intro h
      exact hextension (h.mono fun kind _ hkind => by rw [hkind]; trivial)
    refine ⟨iff_of_false (hnone _) hnoevents, iff_of_false (hnone _) hnocrumbs,
      iff_of_false (hnone _) hnoprediction, iff_of_false (hnone _) hlights, ?_, ?_⟩
    · refine iff_of_false ?_ (not_not_intro hzero)
      rw [hsafety, not_or]
      exact ⟨hnocrumbs, hextension⟩
    · rw [hpartII, or_iff_right hnocrumbs, or_iff_right hnocrumbs, or_iff_right hextension]
      constructor
      · intro h
        rcases supplies_cases h with h | h | h
        · exact absurd h hextension
        · exact (hevent h).2
        · exact h
      · intro h
        exact h.mono fun kind _ hkind => by simp [hkind]

/-- A negative count sets an option and an extension for crumbs that are not there. -/
theorem not_consistent_of_neg (hlast : LastState fp columns st) (hneg : crumbCount columns < 0) :
    ¬ CsvConsistent columns (csvOptions st.bsm) := by
  intro h
  have hsafety := (accumulates_safety (p := (· ≠ 0)) (by simp) (by simp)).last_of_neg hlast hneg
    trivial
  have hset : (csvOptions st.bsm).vehsafeopts ≠ 0 :=
    h.safety.mp (by rw [csvOptions_safety]; exact hsafety)
  have hhistory := (accumulates_option 0x4).last_of_neg hlast hneg (by decide)
  have hclear := h.history.not.mpr (by omega)
  rw [csvOptions_vehsafeopts, has_finish] at hclear
  by_cases hlights : (csvFlags st.bsm).lights = 0
  · rw [csvOptions_vehsafeopts, finish_options_of_dark hlights] at hset
    exact hset rfl
  · have hmask : (if (csvFlags st.bsm).events = 0 then 0x7 &&& 0x4 else 0x4) = 0x4 := by simp
    rw [hmask] at hclear
    exact hclear ⟨hlights, hhistory⟩

theorem consistent_iff (hlast : LastState fp columns st) :
    CsvConsistent columns (csvOptions st.bsm) ↔ ConsistentLine columns := by
  rcases lt_or_ge (crumbCount columns) 0 with hneg | hcount
  · refine iff_of_false (not_consistent_of_neg hlast hneg) ?_
    rintro (⟨hcount, -⟩ | ⟨hcount, -⟩)
    · omega
    · omega
  · by_cases hlights : Supplies columns LightWord
    · exact iff_of_true (consistent_of_lights hlast hcount hlights) (.inl ⟨hcount, hlights⟩)
    · rw [consistent_iff_of_not_lights hlast hcount hlights, ConsistentLine,
        or_iff_right fun h => hlights h.2]

end Consistent

/-- The message that a line gives to `encode_msg`, if it does, is consistent. -/
def PassesConsistent (fp : CsvFloats) (line : CsvText) : Prop :=
  ∀ mc, Yields (encodeSinglelineFromCsv fp line) (.encoded mc) →
    ∀ bsm, mc.j2735Msg = some bsm → CsvConsistent (csvColumns line) bsm

/-- The line comes to `encode_msg`. -/
def CsvReaches (columns : List CsvText) : Prop := CsvRegion columns ∧ ¬ CsvLoops columns

section Lines
variable {fp : CsvFloats} {line : CsvText}

theorem consistentLine_of_passes (h : PassesConsistent fp line)
    (hreaches : CsvReaches (csvColumns line)) : ConsistentLine (csvColumns line) := by
  obtain ⟨st, hlast, hyields⟩ := encodeSingleline_encoded fp hreaches.1 hreaches.2
  exact (consistent_iff hlast).mp (h _ hyields _ rfl)

theorem le_of_lightWord {k : ℕ} {t : CsvText} (h : LightWord (columnKind k) t) : 165 ≤ k := by
  unfold columnKind at h
  split at h
  case h_26 => exact absurd h id
  all_goals first | omega | exact absurd h id

/-- Of a line that ends in front of the lights and asks for no crumbs. -/
theorem consistentLine_of_short (h : PassesConsistent fp line)
    (hlength : (csvColumns line).length ≤ 165) (hcount : crumbCount (csvColumns line) = 0) :
    ¬ Supplies (csvColumns line) (fun kind _ => kind.IsSafety) ∧
      (Supplies (csvColumns line) (fun kind _ => kind = .event 8 false) →
        ¬ Supplies (csvColumns line) EventWord) := by
  have hregion : CsvRegion (csvColumns line) := by
    refine ⟨by rw [csvTokens]; omega, fun hpos => ?_, fun hneg => ?_⟩
    · exact absurd hpos (by omega)
    · exact absurd hneg (by omega)
  have hloops : ¬ CsvLoops (csvColumns line) := fun hloops => absurd hloops.1 (by omega)
  rcases consistentLine_of_passes h ⟨hregion, hloops⟩ with ⟨-, hlights⟩ | ⟨-, hsafety, hevent⟩
  · obtain ⟨k, t, ht, hword⟩ := hlights
    have hlt := lt_of_supplied ht
    have hle := le_of_lightWord hword
    omega
  · exact ⟨hsafety, fun hsupplied => (hevent hsupplied).1⟩

end Lines

/-- A line gives a consistent message exactly when it comes to `encode_msg` only with lights that
are in use, or with nothing of the safety extension. -/
theorem passesConsistent_iff (fp : CsvFloats) (line : CsvText) : PassesConsistent fp line ↔
    (CsvReaches (csvColumns line) → ConsistentLine (csvColumns line)) := by
  constructor
  · exact consistentLine_of_passes
  · intro h mc hmc bsm hbsm
    obtain ⟨hreaches, st, hlast, rfl⟩ := encodeSingleline_cases hmc
    obtain rfl := Option.some.inj hbsm
    exact (consistent_iff hlast).mpr (h hreaches)

/-- The text 1 in a column, and nothing in front of it. -/
def oneAt (k : ℕ) : CsvText := List.replicate k 0x2c ++ [0x31]

/-- An event in column 40 or 43, and no lights: the option is cleared again, and what announces it
stays. -/
theorem not_passesConsistent :
    (∀ fp, ¬ PassesConsistent fp (oneAt 40)) ∧ ∀ fp, ¬ PassesConsistent fp (oneAt 43) := by
  constructor
  · intro fp h
    obtain ⟨hsafety, -⟩ := consistentLine_of_short h (by decide +kernel) (by decide +kernel)
    exact hsafety ⟨40, [0x31], by decide +kernel, rfl⟩
  · intro fp h
    obtain ⟨-, hevent⟩ := consistentLine_of_short h (by decide +kernel) (by decide +kernel)
    have hsupplied : supplied (csvColumns (oneAt 43)) 43 = some [0x31] := by decide +kernel
    have hword : columnWord [0x31] 8 ≠ 0 := by decide +kernel
    exact hevent ⟨43, [0x31], hsupplied, rfl⟩ ⟨43, [0x31], hsupplied, hword⟩

end Tulux.QCoder
