import Tulux.QCoder.CsvLine

/-! How the loop over the columns of a CSV line ends. -/
namespace Tulux.QCoder
open Loop

/-- The text of a column, where the line has one. -/
def supplied (columns : List CsvText) (k : ℕ) : Option CsvText :=
  columns[k]?.filter fun t => decide (¬ (t = [] ∨ t = [0x0a]))

/-- The number of crumbs that column 47 asks for. -/
def crumbCount (columns : List CsvText) : ℤ := (supplied columns 47).elim 0 atoi

/-- The columns fit, those of the crumbs are there, and a negative count does not lead in front of
the first one. -/
structure CsvRegion (columns : List CsvText) : Prop where
  tokens : columns.length ≤ csvTokens
  crumbs : 0 < crumbCount columns →
    crumbCount columns ≤ maxPathHistoryPointsQty ∧ 48 + 5 * crumbCount columns ≤ columns.length
  behind : crumbCount columns < 0 → 0 ≤ behindCrumbs 47 (crumbCount columns)

/-- A negative count leads back to column 47. -/
def CsvLoops (columns : List CsvText) : Prop :=
  crumbCount columns < 0 ∧ 0 ≤ behindCrumbs 47 (crumbCount columns) ∧
    behindCrumbs 47 (crumbCount columns) ≤ 47

section Passes
variable (fp : CsvFloats) (columns : List CsvText)

/-- A pass over any column but 47. -/
def visit (st : CsvState) : CsvState :=
  match supplied columns st.a.toNat with
  | none => { st with a := st.a + 1, bsm := missingColumn st.a.toNat st.bsm }
  | some t =>
    { a := st.a + 1
      msgId := if st.a = 15 then 20 else st.msgId
      bsm := column fp st.a.toNat t st.bsm }

theorem visit_a (st : CsvState) : (visit fp columns st).a = st.a + 1 := by
  unfold visit
  cases supplied columns st.a.toNat <;> rfl

theorem visits_a (n : ℕ) (st : CsvState) : ((visit fp columns)^[n] st).a = st.a + n := by
  induction n generalizing st with
  | zero => simp
  | succ n ih =>
    rw [Function.iterate_succ_apply, ih, visit_a]
    push_cast
    ring

variable {fp columns} {st : CsvState}

variable (columns st) in
theorem token_of_lt (h : 0 ≤ st.a) (hlt : st.a < columns.length) :
    ∃ t, token columns st.a = some t ∧
      supplied columns st.a.toNat = if t = [] ∨ t = [0x0a] then none else some t := by
  have hnat : st.a.toNat < columns.length := by omega
  refine ⟨columns[st.a.toNat], ?_, ?_⟩
  · rw [token, if_pos h, List.getElem?_eq_getElem hnat]
  · rw [supplied, List.getElem?_eq_getElem hnat, Option.filter_some]
    by_cases hempty : columns[st.a.toNat] = [] ∨ columns[st.a.toNat] = [0x0a]
    · rw [if_pos hempty, decide_eq_false (not_not_intro hempty), if_neg Bool.false_ne_true]
    · rw [if_neg hempty, decide_eq_true hempty, if_pos rfl]

theorem csvPass_visit (h : 0 ≤ st.a) (hlt : st.a < columns.length) (hne : st.a ≠ 47) :
    csvPass fp columns st = .inl (visit fp columns st) := by
  obtain ⟨t, htoken, hsupplied⟩ := token_of_lt columns st h hlt
  rw [csvPass, if_pos hlt, htoken, visit, hsupplied]
  dsimp only
  by_cases hempty : t = [] ∨ t = [0x0a]
  · rw [if_pos hempty, if_pos hempty]
  · rw [if_neg hempty, if_neg hempty, if_neg hne]
    by_cases hid : st.a = 15
    · rw [if_pos hid, if_pos hid, hid]
      rfl
    · rw [if_neg hid, if_neg hid]

/-- Passes that stay away from column 47. -/
theorem yields_visits {n : ℕ} {r : CsvEnd} (h : 0 ≤ st.a) (hle : st.a + n ≤ columns.length)
    (hne : 47 < st.a ∨ st.a + n ≤ 47)
    (hyields : Yields (run (csvPass fp columns) ((visit fp columns)^[n] st)) r) :
    Yields (run (csvPass fp columns) st) r := by
  induction n generalizing st with
  | zero => exact hyields
  | succ n ih =>
    have hnext := visit_a fp columns st
    apply yields_pass (csvPass_visit h (by omega) (by omega))
    exact ih (by omega) (by omega) (by omega) hyields

theorem yields_encoded (h : columns.length ≤ st.a) :
    Yields (run (csvPass fp columns) st) (.encoded (csvContents st.msgId (csvOptions st.bsm))) :=
  yields_done (by rw [csvPass, if_neg (by omega)])

theorem yields_outside (h : st.a < 0) : Yields (run (csvPass fp columns) st) .outside :=
  yields_done (by rw [csvPass, if_pos (by omega), token, if_neg (by omega)])

/-! ### Column 47 -/

theorem csvPass_no_crumbs (ha : st.a = 47) (hlt : 47 < columns.length)
    (hcount : crumbCount columns = 0) : csvPass fp columns st = .inl { st with a := 48 } := by
  obtain ⟨t, htoken, hsupplied⟩ := token_of_lt columns st (by omega) (by omega)
  rw [csvPass, if_pos (by omega), htoken]
  dsimp only
  have hnat : st.a.toNat = 47 := by omega
  rw [hnat] at hsupplied
  rw [crumbCount, hsupplied] at hcount
  by_cases hempty : t = [] ∨ t = [0x0a]
  · rw [if_pos hempty, hnat, ha]
    rfl
  · rw [if_neg hempty, Option.elim_some] at hcount
    rw [if_neg hempty, if_neg (by omega), if_pos ha, if_pos hcount, ha]
    rfl

theorem csvPass_crumbs (ha : st.a = 47) (hlt : 47 < columns.length)
    (hcount : crumbCount columns ≠ 0) : csvPass fp columns st =
      match csvCrumbs fp columns 48 (historyOption (crumbCount columns) st.bsm)
        (crumbCount columns).toNat with
      | none => .inr .outside
      | some bsm => .inl { st with a := behindCrumbs 47 (crumbCount columns), bsm := bsm } := by
  obtain ⟨t, htoken, hsupplied⟩ := token_of_lt columns st (by omega) (by omega)
  have hnat : st.a.toNat = 47 := by omega
  rw [hnat] at hsupplied
  rw [csvPass, if_pos (by omega), htoken, crumbCount, hsupplied]
  rw [crumbCount, hsupplied] at hcount
  dsimp only
  by_cases hempty : t = [] ∨ t = [0x0a]
  · rw [if_pos hempty] at hcount
    exact absurd rfl hcount
  · rw [if_neg hempty, Option.elim_some] at hcount
    rw [if_neg hempty, if_neg hempty, if_neg (by omega), if_pos ha, if_neg hcount, ha]
    rfl

/-! ### Crumbs -/

def withCrumbs (f : ℕ → PhPoint) (bsm : BsmValue) : BsmValue :=
  { bsm with ph := { bsm.ph with phCrumb := f } }

variable (columns) in
theorem exists_token {k : ℤ} (h : 0 ≤ k) (hlt : k < columns.length) :
    ∃ t, token columns k = some t := by
  refine ⟨columns[k.toNat], ?_⟩
  rw [token, if_pos h, List.getElem?_eq_getElem (by omega)]

variable (fp) in
theorem csvCrumb_inside {m : ℕ} (bsm : BsmValue) (hm : m < maxPathHistoryPointsQty)
    (hlt : 48 + 5 * m + 5 ≤ columns.length) :
    ∃ f, csvCrumb fp columns 48 m bsm = some (withCrumbs f bsm) := by
  obtain ⟨lat, hlat⟩ := exists_token columns (k := 48 + 5 * m) (by omega) (by omega)
  obtain ⟨lon, hlon⟩ := exists_token columns (k := 48 + 5 * m + 1) (by omega) (by omega)
  obtain ⟨ele, hele⟩ := exists_token columns (k := 48 + 5 * m + 2) (by omega) (by omega)
  obtain ⟨time, htime⟩ := exists_token columns (k := 48 + 5 * m + 3) (by omega) (by omega)
  obtain ⟨heading, hheading⟩ := exists_token columns (k := 48 + 5 * m + 4) (by omega) (by omega)
  rw [csvCrumb, if_pos hm, hlat, hlon, hele, htime, hheading]
  exact ⟨_, rfl⟩

theorem csvCrumb_outside {m : ℕ} (bsm : BsmValue)
    (h : ¬ (m < maxPathHistoryPointsQty ∧ 48 + 5 * m + 5 ≤ columns.length)) :
    csvCrumb fp columns 48 m bsm = none := by
  by_cases hm : m < maxPathHistoryPointsQty
  · have hlast : token columns (48 + 5 * m + 4) = none := by
      rw [token, if_pos (by omega), List.getElem?_eq_none_iff]
      omega
    rw [csvCrumb, if_pos hm, hlast]
    simp
  · rw [csvCrumb, if_neg hm]

variable (fp columns) in
theorem csvCrumbs_inside {n : ℕ} (bsm : BsmValue) (hn : n ≤ maxPathHistoryPointsQty)
    (hle : 48 + 5 * n ≤ columns.length) :
    ∃ f, csvCrumbs fp columns 48 bsm n = some (withCrumbs f bsm) := by
  induction n with
  | zero => exact ⟨bsm.ph.phCrumb, rfl⟩
  | succ n ih =>
    obtain ⟨f, hf⟩ := ih (by omega) (by omega)
    obtain ⟨g, hg⟩ := csvCrumb_inside fp (withCrumbs f bsm) (m := n) (by omega) (by omega)
    refine ⟨g, ?_⟩
    rw [csvCrumbs, hf, Option.bind_some, hg]
    rfl

theorem csvCrumbs_outside {n : ℕ} (bsm : BsmValue) (hpos : 0 < n)
    (h : ¬ (n ≤ maxPathHistoryPointsQty ∧ 48 + 5 * n ≤ columns.length)) :
    csvCrumbs fp columns 48 bsm n = none := by
  induction n with
  | zero => exact absurd hpos (lt_irrefl 0)
  | succ n ih =>
    have hnext (bsm : BsmValue) : csvCrumb fp columns 48 n bsm = none :=
      csvCrumb_outside bsm (by omega)
    rw [csvCrumbs]
    cases csvCrumbs fp columns 48 bsm n with
    | none => rfl
    | some bsm => exact hnext bsm

theorem behindCrumbs_of_inside {count : ℤ} (hpos : 0 < count)
    (hle : count ≤ maxPathHistoryPointsQty) : behindCrumbs 47 count = 48 + 5 * count := by
  rw [maxPathHistoryPointsQty] at hle
  rw [behindCrumbs, s32_of_lt (x := 5 * count) (by omega), s32_of_lt (x := 47 + 5 * count)
    (by omega), s32_of_lt (by omega)]
  ring

/-! ### The ends -/

variable (fp columns)

/-- The state in front of column 47. -/
def beforeHistory : CsvState := (visit fp columns)^[47] csvStart

/-- From a column behind the crumbs on, the rest is passed over. -/
def lastFrom (behind : ℤ) (bsm : BsmValue) : CsvState :=
  (visit fp columns)^[(columns.length - behind).toNat]
    { beforeHistory fp columns with a := behind, bsm := bsm }

/-- The state behind the last column. -/
inductive LastState : CsvState → Prop where
  | short : columns.length ≤ 47 → LastState ((visit fp columns)^[columns.length] csvStart)
  | noCrumbs : 47 < columns.length → crumbCount columns = 0 →
      LastState (lastFrom fp columns 48 (beforeHistory fp columns).bsm)
  | crumbs (f : ℕ → PhPoint) : 0 < crumbCount columns →
      crumbCount columns ≤ maxPathHistoryPointsQty →
      48 + 5 * crumbCount columns ≤ columns.length →
      LastState (lastFrom fp columns (48 + 5 * crumbCount columns)
        (withCrumbs f (historyOption (crumbCount columns) (beforeHistory fp columns).bsm)))
  | ahead : crumbCount columns < 0 → 48 ≤ behindCrumbs 47 (crumbCount columns) →
      LastState (lastFrom fp columns (behindCrumbs 47 (crumbCount columns))
        (historyOption (crumbCount columns) (beforeHistory fp columns).bsm))

variable {fp columns}

theorem beforeHistory_a : (beforeHistory fp columns).a = 47 := by
  rw [beforeHistory, visits_a]
  rfl

theorem length_of_crumbCount (h : crumbCount columns ≠ 0) : 47 < columns.length := by
  by_contra hle
  rw [crumbCount, supplied, List.getElem?_eq_none_iff.mpr (by omega)] at h
  exact h rfl

theorem yields_start {r : CsvEnd} (hlt : 47 < columns.length)
    (hyields : Yields (run (csvPass fp columns) (beforeHistory fp columns)) r) :
    Yields (run (csvPass fp columns) csvStart) r := by
  apply yields_visits (n := 47) _ _ _ hyields
  · exact le_refl 0
  · simp only [csvStart]
    omega
  · exact .inr (by simp [csvStart])

theorem yields_lastFrom {behind : ℤ} (bsm : BsmValue) (h : 48 ≤ behind) :
    Yields (run (csvPass fp columns) { beforeHistory fp columns with a := behind, bsm := bsm })
      (.encoded (csvContents (lastFrom fp columns behind bsm).msgId
        (csvOptions (lastFrom fp columns behind bsm).bsm))) := by
  by_cases hle : columns.length ≤ behind
  · have hnone : (columns.length - behind).toNat = 0 := by omega
    rw [lastFrom, hnone]
    exact yields_encoded hle
  · apply yields_visits (n := (columns.length - behind).toNat)
    · exact le_trans (by norm_num) h
    · dsimp only
      omega
    · exact .inl (lt_of_lt_of_le (by norm_num) h)
    · apply yields_encoded
      rw [visits_a]
      dsimp only
      omega

/-- What the pass over column 47 leads to. -/
theorem yields_history {r : CsvEnd} (hcount : crumbCount columns ≠ 0)
    {bsm : BsmValue} (hcrumbs : csvCrumbs fp columns 48
      (historyOption (crumbCount columns) (beforeHistory fp columns).bsm)
      (crumbCount columns).toNat = some bsm)
    (hyields : Yields (run (csvPass fp columns)
      { beforeHistory fp columns with a := behindCrumbs 47 (crumbCount columns), bsm := bsm }) r) :
    Yields (run (csvPass fp columns) csvStart) r := by
  have hlt := length_of_crumbCount hcount
  apply yields_start hlt
  apply yields_pass _ hyields
  rw [csvPass_crumbs beforeHistory_a hlt hcount, hcrumbs]

theorem csvCrumbs_of_neg (bsm : BsmValue) (h : crumbCount columns < 0) :
    csvCrumbs fp columns 48 bsm (crumbCount columns).toNat = some bsm := by
  rw [Int.toNat_of_nonpos h.le]
  rfl

theorem csvRun_encoded (hregion : CsvRegion columns) (hloops : ¬ CsvLoops columns) :
    ∃ st, LastState fp columns st ∧ Yields (run (csvPass fp columns) csvStart)
      (.encoded (csvContents st.msgId (csvOptions st.bsm))) := by
  rcases lt_trichotomy (crumbCount columns) 0 with hneg | hzero | hpos
  · have hahead : 48 ≤ behindCrumbs 47 (crumbCount columns) := by
      by_contra hlt
      exact hloops ⟨hneg, hregion.behind hneg, by omega⟩
    exact ⟨_, .ahead hneg hahead, yields_history hneg.ne (csvCrumbs_of_neg _ hneg)
      (yields_lastFrom _ hahead)⟩
  · by_cases hlt : 47 < columns.length
    · refine ⟨_, .noCrumbs hlt hzero, yields_start hlt ?_⟩
      apply yields_pass (csvPass_no_crumbs beforeHistory_a hlt hzero)
      exact yields_lastFrom (beforeHistory fp columns).bsm (le_refl 48)
    · refine ⟨_, .short (by omega), ?_⟩
      apply yields_visits (n := columns.length) (le_refl 0)
      · simp [csvStart]
      · exact .inr (by simp only [csvStart]; omega)
      · apply yields_encoded
        rw [visits_a]
        simp [csvStart]
  · obtain ⟨hqty, hle⟩ := hregion.crumbs hpos
    have hnat : ((crumbCount columns).toNat : ℤ) = crumbCount columns := Int.toNat_of_nonneg hpos.le
    obtain ⟨f, hf⟩ := csvCrumbs_inside fp columns (n := (crumbCount columns).toNat)
      (historyOption (crumbCount columns) (beforeHistory fp columns).bsm) (by omega) (by omega)
    refine ⟨_, .crumbs f hpos hqty hle, yields_history hpos.ne' hf ?_⟩
    rw [behindCrumbs_of_inside hpos hqty]
    exact yields_lastFrom _ (by omega)

theorem csvRun_endless (h : CsvLoops columns) : Endless (run (csvPass fp columns) csvStart) := by
  obtain ⟨hneg, hfirst, hlast⟩ := h
  have hlt := length_of_crumbCount hneg.ne
  apply endless_of_invariant (csvPass fp columns) fun st => 0 ≤ st.a ∧ st.a ≤ 47
  · rintro st ⟨hlo, hhi⟩
    by_cases ha : st.a = 47
    · rw [csvPass_crumbs ha hlt hneg.ne, csvCrumbs_of_neg _ hneg]
      exact ⟨_, rfl, hfirst, hlast⟩
    · refine ⟨_, csvPass_visit hlo (by omega) ha, ?_⟩
      rw [visit_a]
      omega
  · exact ⟨le_refl 0, by simp [csvStart]⟩

theorem csvRun_outside (htokens : columns.length ≤ csvTokens) (h : ¬ CsvRegion columns) :
    Yields (run (csvPass fp columns) csvStart) .outside := by
  rcases lt_trichotomy (crumbCount columns) 0 with hneg | hzero | hpos
  · apply yields_history hneg.ne (csvCrumbs_of_neg _ hneg)
    apply yields_outside
    by_contra hbehind
    exact h ⟨htokens, fun hpos => absurd hpos (by omega), fun _ => not_lt.mp hbehind⟩
  · exact absurd ⟨htokens, fun hpos => absurd hpos (by omega), fun hneg => absurd hneg (by omega)⟩ h
  · have hlt := length_of_crumbCount hpos.ne'
    apply yields_start hlt
    apply yields_done
    rw [csvPass_crumbs beforeHistory_a hlt hpos.ne', csvCrumbs_outside _ (by omega)]
    rintro ⟨hqty, hle⟩
    exact h ⟨htokens, fun _ => ⟨by omega, by omega⟩, fun hneg => absurd hneg (by omega)⟩

end Passes

/-! ### Lines -/

/-- The arrays are kept to, what `encode_msg` gets has a buffer, and there is a result. -/
structure CannotOverrun (fp : CsvFloats) (line : CsvText) : Prop where
  inside : ¬ Yields (encodeSinglelineFromCsv fp line) .outside
  allocated : ∀ mc, Yields (encodeSinglelineFromCsv fp line) (.encoded mc) → mc.abuf.data ≠ 0
  returns : ∃ mc, Yields (encodeSinglelineFromCsv fp line) (.encoded mc)

section Lines
variable {fp : CsvFloats} {line : CsvText}

theorem encodeSingleline_eq (h : (csvColumns line).length ≤ csvTokens) :
    encodeSinglelineFromCsv fp line = run (csvPass fp (csvColumns line)) csvStart := by
  funext fuel
  rw [encodeSinglelineFromCsv, if_pos h]

theorem encodeSingleline_outside (h : ¬ CsvRegion (csvColumns line)) :
    Yields (encodeSinglelineFromCsv fp line) .outside := by
  by_cases htokens : (csvColumns line).length ≤ csvTokens
  · rw [encodeSingleline_eq htokens]
    exact csvRun_outside htokens h
  · exact ⟨0, fun fuel _ => by rw [encodeSinglelineFromCsv, if_neg htokens]⟩

variable (fp) in
theorem encodeSingleline_encoded (h : CsvRegion (csvColumns line))
    (hloops : ¬ CsvLoops (csvColumns line)) :
    ∃ st, LastState fp (csvColumns line) st ∧ Yields (encodeSinglelineFromCsv fp line)
      (.encoded (csvContents st.msgId (csvOptions st.bsm))) := by
  rw [encodeSingleline_eq h.tokens]
  exact csvRun_encoded h hloops

theorem encodeSingleline_endless (h : CsvRegion (csvColumns line))
    (hloops : CsvLoops (csvColumns line)) : Endless (encodeSinglelineFromCsv fp line) := by
  rw [encodeSingleline_eq h.tokens]
  exact csvRun_endless hloops

theorem encodeSingleline_inside_iff : ¬ Yields (encodeSinglelineFromCsv fp line) .outside ↔
    CsvRegion (csvColumns line) := by
  constructor
  · intro hinside
    by_contra hregion
    exact hinside (encodeSingleline_outside hregion)
  · intro hregion houtside
    by_cases hloops : CsvLoops (csvColumns line)
    · exact (encodeSingleline_endless hregion hloops).not_yields houtside
    · obtain ⟨st, -, hyields⟩ := encodeSingleline_encoded fp hregion hloops
      cases hyields.unique houtside

/-- What comes to `encode_msg` is the message of a last state. -/
theorem encodeSingleline_cases {mc : MsgContents}
    (h : Yields (encodeSinglelineFromCsv fp line) (.encoded mc)) :
    (CsvRegion (csvColumns line) ∧ ¬ CsvLoops (csvColumns line)) ∧
      ∃ st, LastState fp (csvColumns line) st ∧ mc = csvContents st.msgId (csvOptions st.bsm) := by
  by_cases hregion : CsvRegion (csvColumns line)
  · by_cases hloops : CsvLoops (csvColumns line)
    · exact absurd h (encodeSingleline_endless hregion hloops).not_yields
    · obtain ⟨st, hlast, hyields⟩ := encodeSingleline_encoded fp hregion hloops
      exact ⟨⟨hregion, hloops⟩, st, hlast, CsvEnd.encoded.inj (h.unique hyields)⟩
  · cases h.unique (encodeSingleline_outside hregion)

theorem encodeSingleline_returns_iff :
    (∃ mc, Yields (encodeSinglelineFromCsv fp line) (.encoded mc)) ↔
      CsvRegion (csvColumns line) ∧ ¬ CsvLoops (csvColumns line) := by
  constructor
  · rintro ⟨mc, hmc⟩
    exact (encodeSingleline_cases hmc).1
  · rintro ⟨hregion, hloops⟩
    obtain ⟨st, -, hyields⟩ := encodeSingleline_encoded fp hregion hloops
    exact ⟨_, hyields⟩

/-- The buffer of the message is never allocated. -/
theorem data_of_encoded {mc : MsgContents}
    (h : Yields (encodeSinglelineFromCsv fp line) (.encoded mc)) : mc.abuf.data = 0 := by
  obtain ⟨-, st, -, rfl⟩ := encodeSingleline_cases h
  rfl

theorem encodeMsg_of_data {mc : MsgContents} (h : mc.abuf.data = 0) (block header : ℕ)
    (loadMem : ℕ → UInt8) : (encodeMsg block header loadMem mc).1 = -1 := by
  rw [encodeMsg, if_pos h]

theorem not_cannotOverrun (fp : CsvFloats) (line : CsvText) : ¬ CannotOverrun fp line := by
  intro h
  obtain ⟨mc, hmc⟩ := h.returns
  exact h.allocated mc hmc (data_of_encoded hmc)

end Lines

/-- No line is safe, for want of a buffer. The arrays are kept to exactly where the columns, the
crumbs and a negative count are in their region, and a line in it has a result, -1, unless its
count leads back. -/
theorem encodeSinglelineFromCsv_bounds (fp : CsvFloats) (line : CsvText) :
    ¬ CannotOverrun fp line ∧
      (¬ Yields (encodeSinglelineFromCsv fp line) .outside ↔ CsvRegion (csvColumns line)) ∧
      ((∃ mc, Yields (encodeSinglelineFromCsv fp line) (.encoded mc)) ↔
        CsvRegion (csvColumns line) ∧ ¬ CsvLoops (csvColumns line)) ∧
      ∀ mc, Yields (encodeSinglelineFromCsv fp line) (.encoded mc) →
        ∀ block header loadMem, (encodeMsg block header loadMem mc).1 = -1 :=
  ⟨not_cannotOverrun fp line, encodeSingleline_inside_iff, encodeSingleline_returns_iff,
    fun _ hmc => encodeMsg_of_data (data_of_encoded hmc)⟩

/-- A line whose column 47 has a text, and then some columns without one. -/
def countLine (text : CsvText) (more : ℕ) : CsvText :=
  List.replicate 47 0x2c ++ text ++ List.replicate more 0x2c

/-- The empty line gives `encode_msg` no buffer. A count of 1 without columns for the crumb, a count
of 24 with them, and 1001 columns lead outside the arrays; a count of -1 leads back for ever. -/
theorem line_overruns :
    (∀ fp, ¬ CannotOverrun fp []) ∧
      (∀ fp, Yields (encodeSinglelineFromCsv fp (countLine [0x31] 0)) .outside) ∧
      (∀ fp, Yields (encodeSinglelineFromCsv fp (countLine [0x32, 0x34] 120)) .outside) ∧
      (∀ fp, Yields (encodeSinglelineFromCsv fp (List.replicate 1000 0x2c)) .outside) ∧
      ∀ fp, Endless (encodeSinglelineFromCsv fp (countLine [0x2d, 0x31] 0)) := by
  refine ⟨fun fp => not_cannotOverrun fp [], fun fp => ?_, fun fp => ?_, fun fp => ?_, fun fp => ?_⟩
  · exact encodeSingleline_outside fun h =>
      absurd (h.crumbs (by decide +kernel)) (by decide +kernel)
  · exact encodeSingleline_outside fun h =>
      absurd (h.crumbs (by decide +kernel)) (by decide +kernel)
  · exact encodeSingleline_outside fun h => absurd h.tokens (by decide +kernel)
  · apply encodeSingleline_endless
    · exact ⟨by decide +kernel, fun h => absurd h (by decide +kernel), fun _ => by decide +kernel⟩
    · exact ⟨by decide +kernel, by decide +kernel, by decide +kernel⟩

end Tulux.QCoder
