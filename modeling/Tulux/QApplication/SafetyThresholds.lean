import Mathlib.Data.Bool.AllAny
import Mathlib.Data.List.TakeWhile
import Tulux.Lib.Access
import Tulux.QApplication.LoadConfiguration

/-! The file of the thresholds of the safety applications. A `double` is given by its bits; `atof`
is the function of the library, with the conversion to `float` and back. -/
namespace Tulux.QApplication.SafetyThresholds
open LoadConfiguration (Text)

/-- The bytes of an ASCII text. -/
def ascii (s : String) : Text := s.toList.map fun c => UInt8.ofNat c.toNat

inductive Threshold where
  | minTtc
  | minSafeTtc
  | movingVehSpeed
  | sameLane
  | inZoneDist
  | rapidDecl
  | accMinSpeed
  | accNumVeh
  deriving DecidableEq

def Threshold.name : Threshold → Text
  | minTtc => ascii "MIN_TTC_THR"
  | minSafeTtc => ascii "MIN_SAFE_TTC_THR"
  | movingVehSpeed => ascii "MOVING_VEH_SPEED_THR"
  | sameLane => ascii "SAME_LANE_THR"
  | inZoneDist => ascii "IN_ZONE_DIST_THR"
  | rapidDecl => ascii "RAPID_DECL_THR"
  | accMinSpeed => ascii "ACC_MIN_SPEED_THR"
  | accNumVeh => ascii "ACC_NUM_VEH_THR"

/-- What the name in the file is compared with. -/
def Threshold.compared : Threshold → Text
  | sameLane => ascii "SAME_LANE_THRSAME_LANE_THR"
  | t => t.name

abbrev Thresholds := Threshold → UInt64

/-- What the calls of `fgets` with a buffer of 1000 bytes return, with the begin of the line that is
being read. -/
def fgetsLines (line : Text) : Text → List Text
  | [] => if line = [] then [] else [line]
  | c :: s =>
    if c = 0x0a ∨ line.length + 1 = 999 then (line ++ [c]) :: fgetsLines [] s
    else fgetsLines (line ++ [c]) s

/-- A C string ends at its first zero. -/
def cString (s : Text) : Text := s.takeWhile fun c => c != 0

/-! ### The scanner -/

def isalpha (c : UInt8) : Bool := (0x41 ≤ c && c ≤ 0x5a) || (0x61 ≤ c && c ≤ 0x7a)

def isdigit (c : UInt8) : Bool := 0x30 ≤ c && c ≤ 0x39

/-- The two arrays up to `j` and `k`, and what was stored to them. -/
structure Scan where
  str : Text
  num : Text
  assign : Bool
  writes : List Access

def Scan.start : Scan := ⟨[], [], false, []⟩

def Scan.strWrite (st : Scan) : Access := ⟨100, st.str.length, 1⟩

def Scan.numWrite (st : Scan) : Access := ⟨30, st.num.length, 1⟩

def Scan.putStr (st : Scan) (c : UInt8) : Scan :=
  { st with str := st.str ++ [c], writes := st.writes ++ [st.strWrite] }

def Scan.putNum (st : Scan) (c : UInt8) : Scan :=
  { st with num := st.num ++ [c], writes := st.writes ++ [st.numWrite] }

/-- The zeros behind both texts. -/
def Scan.close (st : Scan) : Scan :=
  { st with writes := st.writes ++ [st.strWrite, st.numWrite] }

/-- A character that does not end the line. -/
def scanChar (st : Scan) (c : UInt8) : Scan :=
  if c = 0x20 then st
  else if c = 0x3d then { st with assign := true }
  else if (isalpha c ∨ c = 0x5f) ∧ st.assign = false then st.putStr c
  else if isdigit c ∨ c = 0x78 ∨ c = 0x2e then
    if st.assign then st.putNum c else st.putStr c
  else st

/-- The loop over a line, and whether it came to a semicolon. -/
def scanLine (st : Scan) : Text → Scan × Bool
  | [] => (st, false)
  | c :: s =>
    if c = 0x23 then (st, false)
    else if c = 0x3b then (st.close, true)
    else scanLine (scanChar st c) s

def loadLine (atof : Text → UInt64) (loaded : Thresholds × List Access) (line : Text) :
    Thresholds × List Access :=
  let (th, writes) := loaded
  let (st, assigned) := scanLine .start (cString line)
  (if assigned then fun t => if st.str = t.compared then atof st.num else th t else th,
    writes ++ st.writes)

/-- The thresholds behind `init_safety_thr`, and what it stored to the arrays. The line of titles
that `LOG_WARNINGS` writes is left out. -/
def initSafetyThr (atof : Text → UInt64) (text : Text) (th : Thresholds) :
    Thresholds × List Access :=
  (fgetsLines [] text).foldl (loadLine atof) (th, [])

/-! ### What is scanned of a line -/

/-- What the scanner sees of a line. -/
def visible (line : Text) : Text :=
  (cString line).takeWhile fun c => c != 0x23 && c != 0x3b

/-- A semicolon ends what is seen. -/
def closed (line : Text) : Bool :=
  ((cString line).dropWhile fun c => c != 0x23 && c != 0x3b).head? == some 0x3b

def isNameChar (c : UInt8) : Bool := isalpha c || c == 0x5f || isdigit c || c == 0x2e

def isNumberChar (c : UInt8) : Bool := isdigit c || c == 0x78 || c == 0x2e

/-- The characters of a name in what is seen before an equals sign. -/
def nameChars (s : Text) : Text := (s.takeWhile fun c => c != 0x3d).filter isNameChar

/-- The characters of a number behind it. -/
def numberChars (s : Text) : Text := (s.dropWhile fun c => c != 0x3d).filter isNumberChar

/-- There is room for the characters, and for the zeros that end them where there is a semicolon. -/
def LineFits (line : Text) : Prop :=
  (nameChars (visible line)).length + (if closed line then 1 else 0) ≤ 100 ∧
    (numberChars (visible line)).length + (if closed line then 1 else 0) ≤ 30

/-- The number of the last line that ends with a semicolon and names a text. -/
def lastScanned (lines : List Text) (name : Text) : Option Text :=
  (lines.reverse.find? fun line => closed line && nameChars (visible line) == name).map fun line =>
    numberChars (visible line)

section Scan
variable {st : Scan} {s : Text}

/-- What was stored is inside as long as both texts are. -/
def Scan.Exact (st : Scan) : Prop :=
  Access.AllInside st.writes ↔ st.str.length ≤ 100 ∧ st.num.length ≤ 30

theorem Scan.Exact.putStr (h : st.Exact) (c : UInt8) : (st.putStr c).Exact := by
  unfold Scan.Exact Scan.putStr Scan.strWrite at *
  rw [Access.allInside_append, h, List.length_append]
  simp only [Access.allInside_cons, Access.allInside_nil, Access.inside_mk, List.length_singleton,
    and_true]
  omega

theorem Scan.Exact.putNum (h : st.Exact) (c : UInt8) : (st.putNum c).Exact := by
  unfold Scan.Exact Scan.putNum Scan.numWrite at *
  rw [Access.allInside_append, h, List.length_append]
  simp only [Access.allInside_cons, Access.allInside_nil, Access.inside_mk, List.length_singleton,
    and_true]
  omega

theorem Scan.Exact.scanChar (h : st.Exact) (c : UInt8) : (scanChar st c).Exact := by
  unfold SafetyThresholds.scanChar
  split_ifs
  · exact h
  · exact h
  · exact h.putStr c
  · exact h.putNum c
  · exact h.putStr c
  · exact h

theorem scanLine_eq (st : Scan) (s : Text) : scanLine st s =
    let seen := s.takeWhile fun c => c != 0x23 && c != 0x3b
    if (s.dropWhile fun c => c != 0x23 && c != 0x3b).head? = some 0x3b then
      ((seen.foldl scanChar st).close, true)
    else (seen.foldl scanChar st, false) := by
  induction s generalizing st with
  | nil => rfl
  | cons c s ih =>
    rw [scanLine, List.takeWhile_cons, List.dropWhile_cons]
    by_cases hhash : c = 0x23
    · simp [hhash]
    · by_cases hend : c = 0x3b
      · simp [hend]
      · rw [if_neg hhash, if_neg hend, ih]
        simp [hhash, hend]

theorem isNameChar_iff {c : UInt8} :
    isNameChar c = true ↔ (isalpha c ∨ c = 0x5f) ∨ isdigit c ∨ c = 0x2e := by
  simp [isNameChar, or_assoc]

theorem isNumberChar_iff {c : UInt8} :
    isNumberChar c = true ↔ isdigit c ∨ c = 0x78 ∨ c = 0x2e := by
  simp [isNumberChar, or_assoc]

/-- Behind the equals sign a character is part of the number or nothing. -/
theorem scanChar_of_assign (h : st.assign = true) (c : UInt8) :
    (scanChar st c).str = st.str ∧ (scanChar st c).num = st.num ++ [c].filter isNumberChar ∧
      (scanChar st c).assign = true := by
  have hname : ¬ ((isalpha c ∨ c = 0x5f) ∧ st.assign = false) := by simp [h]
  unfold scanChar
  rw [if_neg hname]
  simp only [← isNumberChar_iff]
  by_cases hspace : c = 0x20
  · simp [hspace, h, isNumberChar, isdigit]
  · by_cases hequals : c = 0x3d
    · simp [hequals, isNumberChar, isdigit]
    · rw [if_neg hspace, if_neg hequals]
      by_cases hnumber : isNumberChar c = true
      · simp [hnumber, h, Scan.putNum]
      · simp [hnumber, h]

/-- Before it a character is part of the name or nothing. -/
theorem scanChar_of_not_assign (h : st.assign = false) {c : UInt8} (hc : c ≠ 0x3d) :
    (scanChar st c).str = st.str ++ [c].filter isNameChar ∧ (scanChar st c).num = st.num ∧
      (scanChar st c).assign = false := by
  have hputs : (scanChar st c) = if isNameChar c then st.putStr c else st := by
    unfold scanChar
    by_cases hspace : c = 0x20
    · simp [hspace, isNameChar, isdigit, isalpha]
    · rw [if_neg hspace, if_neg hc]
      simp only [and_iff_left h]
      by_cases hletter : isalpha c ∨ c = 0x5f
      · rw [if_pos hletter, if_pos (isNameChar_iff.mpr (.inl hletter))]
      · have hx : c ≠ 0x78 := by
          rintro rfl
          exact hletter (.inl (by decide))
        have hiff : (isdigit c ∨ c = 0x78 ∨ c = 0x2e) ↔ isNameChar c = true := by
          rw [isNameChar_iff]
          simp [hletter, hx]
        rw [if_neg hletter, h]
        simp only [hiff, Bool.false_eq_true, if_false]
  rw [hputs]
  split_ifs with hname
  · simp [Scan.putStr, hname, h]
  · simp [hname, h]

theorem foldl_scanChar_of_assign (h : st.assign = true) (s : Text) :
    (s.foldl scanChar st).str = st.str ∧
      (s.foldl scanChar st).num = st.num ++ s.filter isNumberChar := by
  induction s generalizing st with
  | nil => simp
  | cons c s ih =>
    obtain ⟨hstr, hnum, hassign⟩ := scanChar_of_assign h c
    obtain ⟨hstr', hnum'⟩ := ih hassign
    rw [List.foldl_cons, hstr', hnum', hstr, hnum, List.append_assoc, ← List.filter_append]
    exact ⟨rfl, rfl⟩

theorem foldl_scanChar (h : st.assign = false) (s : Text) :
    (s.foldl scanChar st).str = st.str ++ nameChars s ∧
      (s.foldl scanChar st).num = st.num ++ numberChars s := by
  induction s generalizing st with
  | nil => simp [nameChars, numberChars]
  | cons c s ih =>
    rw [List.foldl_cons, nameChars, numberChars, List.takeWhile_cons, List.dropWhile_cons]
    by_cases hc : c = 0x3d
    · have hassign : scanChar st c = { st with assign := true } := by simp [scanChar, hc]
      obtain ⟨hstr, hnum⟩ :=
        foldl_scanChar_of_assign (show ({ st with assign := true } : Scan).assign = true from rfl) s
      rw [hassign, hstr, hnum, hc]
      simp [isNumberChar, isdigit]
    · obtain ⟨hstr, hnum, hassign⟩ := scanChar_of_not_assign h hc
      obtain ⟨hstr', hnum'⟩ := ih hassign
      rw [hstr', hnum', hstr, hnum, if_pos (by simpa using hc), if_pos (by simpa using hc),
        List.append_assoc, nameChars, ← List.filter_append]
      exact ⟨rfl, rfl⟩

theorem exact_foldl (h : st.Exact) (s : Text) : (s.foldl scanChar st).Exact := by
  induction s generalizing st with
  | nil => exact h
  | cons c s ih => exact ih (h.scanChar c)

/-- What the scanner makes of a line. -/
theorem scanLine_start (line : Text) :
    (scanLine .start (cString line)).2 = closed line ∧
      (scanLine .start (cString line)).1.str = nameChars (visible line) ∧
      (scanLine .start (cString line)).1.num = numberChars (visible line) ∧
      (Access.AllInside (scanLine .start (cString line)).1.writes ↔ LineFits line) := by
  have hscan : scanLine .start (cString line) =
      if closed line = true then (((visible line).foldl scanChar .start).close, true)
      else ((visible line).foldl scanChar .start, false) := by
    rw [scanLine_eq, closed, visible]
    simp only [beq_iff_eq]
  obtain ⟨hstr, hnum⟩ := foldl_scanChar (show Scan.start.assign = false from rfl) (visible line)
  rw [Scan.start, List.nil_append] at hstr hnum
  have hexact : ((visible line).foldl scanChar .start).Exact :=
    exact_foldl (by simp [Scan.Exact, Scan.start]) _
  rw [Scan.Exact, Scan.start, hstr, hnum] at hexact
  rw [hscan, LineFits, Scan.start]
  cases closed line with
  | false => exact ⟨rfl, hstr, hnum, hexact⟩
  | true =>
    refine ⟨rfl, hstr, hnum, ?_⟩
    simp only [if_true, Scan.close, Scan.strWrite, Scan.numWrite, Access.allInside_append, hexact,
      Access.allInside_cons, Access.inside_mk, Access.allInside_nil, and_true, hstr, hnum]
    omega

/-- A line sets the thresholds that its name is compared with. -/
theorem loadLine_fst (atof : Text → UInt64) (th : Thresholds) (writes : List Access) (line : Text)
    (t : Threshold) : (loadLine atof (th, writes) line).1 t =
      if closed line = true ∧ nameChars (visible line) = t.compared then
        atof (numberChars (visible line)) else th t := by
  obtain ⟨hclosed, hstr, hnum, -⟩ := scanLine_start line
  simp only [loadLine, hclosed, hstr, hnum]
  by_cases h : closed line = true
  · simp [h]
  · simp [h]

theorem lastScanned_cons (line : Text) (lines : List Text) (name : Text) :
    lastScanned (line :: lines) name = (lastScanned lines name).or
      (if closed line = true ∧ nameChars (visible line) = name then
        some (numberChars (visible line)) else none) := by
  rw [lastScanned, lastScanned, List.reverse_cons, List.find?_append, List.find?_singleton,
    Option.map_or]
  simp only [Bool.and_eq_true, beq_iff_eq]
  split_ifs <;> rfl

/-- After some lines a threshold has the number of the last one that sets it. -/
theorem foldl_loadLine_fst (atof : Text → UInt64) (th : Thresholds) (writes : List Access)
    (lines : List Text) (t : Threshold) : (lines.foldl (loadLine atof) (th, writes)).1 t =
      ((lastScanned lines t.compared).map atof).getD (th t) := by
  induction lines generalizing th writes with
  | nil => rfl
  | cons line lines ih =>
    rw [List.foldl_cons, ← Prod.mk.eta (p := loadLine atof (th, writes) line), ih, loadLine_fst,
      lastScanned_cons, Option.map_or, Option.getD_or]
    split_ifs <;> rfl

theorem allInside_loadLine (atof : Text → UInt64) (th : Thresholds) (writes : List Access)
    (line : Text) : Access.AllInside (loadLine atof (th, writes) line).2 ↔
      Access.AllInside writes ∧ LineFits line := by
  obtain ⟨-, -, -, hinside⟩ := scanLine_start line
  rw [loadLine, Access.allInside_append, hinside]

theorem allInside_foldl_loadLine (atof : Text → UInt64) (th : Thresholds) (writes : List Access)
    (lines : List Text) : Access.AllInside (lines.foldl (loadLine atof) (th, writes)).2 ↔
      Access.AllInside writes ∧ ∀ line ∈ lines, LineFits line := by
  induction lines generalizing th writes with
  | nil => simp
  | cons line lines ih =>
    rw [List.foldl_cons, ← Prod.mk.eta (p := loadLine atof (th, writes) line), ih,
      allInside_loadLine, List.forall_mem_cons, and_assoc]

end Scan

/-! ### The grammar -/

def isBlank (c : UInt8) : Bool := c == 0x20 || c == 0x09

/-- Blanks, and what follows a number sign if there is one. -/
structure Comment where
  text : Text
  plain : ∀ c ∈ text, c ≠ 0 ∧ c ≠ 0x0a
  numberSign : ∀ c, (text.dropWhile isBlank).head? = some c → c = 0x23

/-- A decimal literal with the sign in front of it and the one of its exponent, if there are any. -/
structure DecimalLiteral where
  sign : Text
  whole : Text
  fraction : Option Text
  exponent : Option (Text × Text)
  sign_valid : sign = [] ∨ sign = [0x2b] ∨ sign = [0x2d]
  whole_valid : ∀ c ∈ whole, isdigit c
  fraction_valid : ∀ digits, fraction = some digits → ∀ c ∈ digits, isdigit c
  exponent_valid : ∀ sign digits, exponent = some (sign, digits) →
    (sign = [] ∨ sign = [0x2b] ∨ sign = [0x2d]) ∧ digits ≠ [] ∧ ∀ c ∈ digits, isdigit c
  digits_ne_nil : whole ++ fraction.getD [] ≠ []

def DecimalLiteral.text (n : DecimalLiteral) : Text :=
  n.sign ++ n.whole ++ n.fraction.elim [] (fun digits => 0x2e :: digits) ++
    n.exponent.elim [] fun exponent => 0x65 :: exponent.1 ++ exponent.2

/-- The literal without its signs and the letter of its exponent. -/
def DecimalLiteral.unsigned (n : DecimalLiteral) : Text :=
  n.whole ++ n.fraction.elim [] (fun digits => 0x2e :: digits) ++ n.exponent.elim [] Prod.snd

structure Assignment where
  name : Text
  number : DecimalLiteral
  beforeName : Text
  beforeEquals : Text
  beforeNumber : Text
  beforeEnd : Text
  comment : Comment
  name_valid : name ≠ [] ∧ ∀ c ∈ name, isalpha c ∨ isdigit c ∨ c = 0x5f
  blank : ∀ c ∈ beforeName ++ beforeEquals ++ beforeNumber ++ beforeEnd, isBlank c

inductive ConfigLine where
  | comment (comment : Comment)
  | assignment (assignment : Assignment)

namespace ConfigLine

def text : ConfigLine → Text
  | comment c => c.text
  | assignment a => a.beforeName ++ a.name ++ a.beforeEquals ++ 0x3d :: a.beforeNumber ++
      a.number.text ++ a.beforeEnd ++ 0x3b :: a.comment.text

def assigned : ConfigLine → Option Assignment
  | comment _ => none
  | assignment a => some a

end ConfigLine

def fileText (lines : List ConfigLine) : Text := [0x0a].intercalate (lines.map ConfigLine.text)

/-- The last number that is assigned to a name. -/
def lastNumber (lines : List ConfigLine) (name : Text) : Option DecimalLiteral :=
  ((lines.filterMap ConfigLine.assigned).reverse.find? fun a => a.name == name).map
    Assignment.number

/-- Every threshold gets the last number that is assigned to it, and nothing is stored outside the
arrays. -/
def SetsThresholds (atof : Text → UInt64) (lines : List ConfigLine) : Prop :=
  ∀ th, (∀ t : Threshold, (initSafetyThr atof (fileText lines) th).1 t =
      ((lastNumber lines t.name).map fun number => atof number.text).getD (th t)) ∧
    Access.AllInside (initSafetyThr atof (fileText lines) th).2

/-- Names and numbers fit; the numbers that count read alike without their signs and the letter of
the exponent; and what is assigned to `SAME_LANE_THR`, if it is, is assigned to its double name as
well, and to that only then. -/
structure ThresholdsFit (atof : Text → UInt64) (lines : List ConfigLine) : Prop where
  lengths : ∀ a, .assignment a ∈ lines → a.name.length ≤ 99 ∧ a.number.unsigned.length ≤ 29
  numbers : ∀ t : Threshold, t ≠ .sameLane → ∀ number, lastNumber lines t.name = some number →
    atof number.unsigned = atof number.text
  sameLane : ((lastNumber lines (ascii "SAME_LANE_THRSAME_LANE_THR")).map fun number =>
    atof number.unsigned) =
      (lastNumber lines (ascii "SAME_LANE_THR")).map fun number => atof number.text

/-- The lines that `fgets` returns have room, and what they set is what the file says. -/
structure ScannedFit (atof : Text → UInt64) (lines : List ConfigLine) : Prop where
  room : ∀ line ∈ fgetsLines [] (fileText lines), LineFits line
  numbers : ∀ t : Threshold, (lastScanned (fgetsLines [] (fileText lines)) t.compared).map atof =
    (lastNumber lines t.name).map fun number => atof number.text

/-! ### Lines of the grammar -/

section Grammar

/-- What comes before a line feed, and before the buffer is full, is read as one. -/
theorem fgetsLines_append {line : Text} (hline : 0x0a ∉ line) (pre rest : Text)
    (hlength : pre.length + line.length < 999) :
    fgetsLines pre (line ++ rest) = fgetsLines (pre ++ line) rest := by
  induction line generalizing pre with
  | nil => rw [List.nil_append, List.append_nil]
  | cons c line ih =>
    obtain ⟨hc, hrest⟩ := List.ne_and_not_mem_of_not_mem_cons hline
    rw [List.length_cons] at hlength
    have hgoes : ¬ (c = 0x0a ∨ pre.length + 1 = 999) := by
      rintro (rfl | hfull)
      · exact hc rfl
      · omega
    have hnext : (pre ++ [c]).length + line.length < 999 := by
      rw [List.length_append, List.length_singleton]
      omega
    rw [List.cons_append, fgetsLines, if_neg hgoes, ih hrest _ hnext, List.append_assoc]
    rfl

theorem fgetsLines_cons {line : Text} (hline : 0x0a ∉ line) (rest : Text)
    (hlength : line.length < 999) :
    fgetsLines [] (line ++ 0x0a :: rest) = (line ++ [0x0a]) :: fgetsLines [] rest := by
  rw [fgetsLines_append hline [] _ (by simpa using hlength), List.nil_append, fgetsLines,
    if_pos (.inl rfl)]

theorem fgetsLines_last {line : Text} (hline : 0x0a ∉ line) (hlength : line.length < 999) :
    fgetsLines [] line = if line = [] then [] else [line] := by
  have happend := fgetsLines_append hline [] [] (by simpa using hlength)
  rw [List.append_nil, List.nil_append] at happend
  rw [happend, fgetsLines]

/-- What is seen of a line in front of the character that ends it. -/
theorem visible_of_append {line front rest : Text} (hline : line = front ++ rest)
    (hzero : ∀ c ∈ line, c ≠ 0) (hfront : ∀ c ∈ front, c ≠ 0x23 ∧ c ≠ 0x3b)
    (hrest : ∀ c, rest.head? = some c → c = 0x23 ∨ c = 0x3b) :
    visible line = front ∧ closed line = (rest.head? == some 0x3b) := by
  have hstring : cString line = line := by
    rw [cString, List.takeWhile_eq_self_iff]
    exact fun c hc => bne_iff_ne.mpr (hzero c hc)
  have hall : ∀ c ∈ front, (c != 0x23 && c != 0x3b) = true := by
    intro c hc
    simpa using hfront c hc
  rw [visible, closed, hstring, hline, List.takeWhile_append_of_pos hall,
    List.dropWhile_append_of_pos hall]
  cases rest with
  | nil => simp
  | cons c rest =>
    have hc : (c != 0x23 && c != 0x3b) = false := by
      rcases hrest c rfl with rfl | rfl <;> decide
    rw [List.takeWhile_cons, List.dropWhile_cons, hc]
    simp

theorem isBlank_iff {c : UInt8} : isBlank c = true ↔ c = 0x20 ∨ c = 0x09 := by
  simp [isBlank]

/-- Blanks and line feeds are no part of a name or a number. -/
theorem not_char_of_blank {c : UInt8} (h : isBlank c = true ∨ c = 0x0a) :
    isNameChar c = false ∧ isNumberChar c = false := by
  rcases h with hblank | rfl
  · rcases isBlank_iff.mp hblank with rfl | rfl <;> decide
  · decide

theorem filter_blanks {s : Text} (h : ∀ c ∈ s, isBlank c = true ∨ c = 0x0a) :
    s.filter isNameChar = [] ∧ s.filter isNumberChar = [] := by
  constructor
  · rw [List.filter_eq_nil_iff]
    intro c hc
    exact Bool.eq_false_iff.mp (not_char_of_blank (h c hc)).1
  · rw [List.filter_eq_nil_iff]
    intro c hc
    exact Bool.eq_false_iff.mp (not_char_of_blank (h c hc)).2

theorem nameChars_blanks {s : Text} (h : ∀ c ∈ s, isBlank c = true ∨ c = 0x0a) :
    nameChars s = [] ∧ numberChars s = [] :=
  ⟨(filter_blanks fun c hc => h c (List.takeWhile_subset _ hc)).1,
    (filter_blanks fun c hc => h c ((List.dropWhile_sublist _).subset hc)).2⟩

theorem mem_feed {feed : Text} (hfeed : feed = [] ∨ feed = [0x0a]) {c : UInt8} (hc : c ∈ feed) :
    c = 0x0a := by
  rcases hfeed with rfl | rfl
  · cases hc
  · exact List.mem_singleton.mp hc

/-- A comment has no name, no number and no semicolon that counts. -/
theorem comment_line (comment : Comment) {feed : Text} (hfeed : feed = [] ∨ feed = [0x0a]) :
    closed (comment.text ++ feed) = false ∧ nameChars (visible (comment.text ++ feed)) = [] ∧
      numberChars (visible (comment.text ++ feed)) = [] := by
  have hzero : ∀ c ∈ comment.text ++ feed, c ≠ 0 := by
    intro c hc
    rcases List.mem_append.mp hc with htext | hfeed'
    · exact (comment.plain c htext).1
    · rw [mem_feed hfeed hfeed']
      decide
  have hsplit := List.takeWhile_append_dropWhile (p := isBlank) (l := comment.text)
  have hblanks : ∀ c ∈ comment.text.takeWhile isBlank, isBlank c = true :=
    fun c hc => List.mem_takeWhile_imp hc
  have hvisible {c : UInt8} (hc : isBlank c = true ∨ c = 0x0a) : c ≠ 0x23 ∧ c ≠ 0x3b := by
    rcases hc with hblank | rfl
    · rcases isBlank_iff.mp hblank with rfl | rfl <;> decide
    · decide
  cases hdrop : comment.text.dropWhile isBlank with
  | nil =>
    rw [hdrop, List.append_nil] at hsplit
    rw [hsplit] at hblanks
    have hfront : ∀ c ∈ comment.text ++ feed, isBlank c = true ∨ c = 0x0a := by
      intro c hc
      exact (List.mem_append.mp hc).imp (hblanks c) (mem_feed hfeed)
    obtain ⟨hseen, hclosed⟩ := visible_of_append (List.append_nil _).symm hzero
      (fun c hc => hvisible (hfront c hc)) (fun c hc => by cases hc)
    rw [hseen, hclosed]
    exact ⟨rfl, nameChars_blanks hfront⟩
  | cons c rest =>
    obtain rfl := comment.numberSign c (by rw [hdrop]; rfl)
    rw [hdrop] at hsplit
    have hline : comment.text ++ feed =
        comment.text.takeWhile isBlank ++ (0x23 :: rest ++ feed) := by
      rw [← List.append_assoc, hsplit]
    obtain ⟨hseen, hclosed⟩ := visible_of_append hline hzero
      (fun c hc => hvisible (.inl (hblanks c hc))) (fun c hc => .inl (Option.some.inj hc).symm)
    rw [hseen, hclosed]
    exact ⟨rfl, nameChars_blanks fun c hc => .inl (hblanks c hc)⟩

theorem mem_sign {sign : Text} (h : sign = [] ∨ sign = [0x2b] ∨ sign = [0x2d]) {c : UInt8}
    (hc : c ∈ sign) : c = 0x2b ∨ c = 0x2d := by
  rcases h with rfl | rfl | rfl
  · cases hc
  · exact .inl (List.mem_singleton.mp hc)
  · exact .inr (List.mem_singleton.mp hc)

theorem mem_number {n : DecimalLiteral} {c : UInt8} (hc : c ∈ n.text) :
    isdigit c = true ∨ c = 0x2b ∨ c = 0x2d ∨ c = 0x2e ∨ c = 0x65 := by
  have hsign {sign : Text} (h : sign = [] ∨ sign = [0x2b] ∨ sign = [0x2d]) (hc : c ∈ sign) :
      isdigit c = true ∨ c = 0x2b ∨ c = 0x2d ∨ c = 0x2e ∨ c = 0x65 :=
    .inr ((mem_sign h hc).imp_right .inl)
  rw [DecimalLiteral.text, List.mem_append, List.mem_append, List.mem_append] at hc
  rcases hc with ((hc | hc) | hc) | hc
  · exact hsign n.sign_valid hc
  · exact .inl (n.whole_valid c hc)
  · cases hfraction : n.fraction with
    | none => simp [hfraction] at hc
    | some digits =>
      rw [hfraction, Option.elim_some, List.mem_cons] at hc
      rcases hc with rfl | hc
      · simp
      · exact .inl (n.fraction_valid digits hfraction c hc)
  · cases hexponent : n.exponent with
    | none => simp [hexponent] at hc
    | some exponent =>
      obtain ⟨hs, -, hdigits⟩ := n.exponent_valid exponent.1 exponent.2 hexponent
      rw [hexponent, Option.elim_some, List.cons_append, List.mem_cons, List.mem_append] at hc
      rcases hc with rfl | hc | hc
      · simp
      · exact hsign hs hc
      · exact .inl (hdigits c hc)

theorem filter_digits {digits : Text} (h : ∀ c ∈ digits, isdigit c) :
    digits.filter isNumberChar = digits := by
  rw [List.filter_eq_self]
  exact fun c hc => isNumberChar_iff.mpr (.inl (h c hc))

theorem filter_sign {sign : Text} (h : sign = [] ∨ sign = [0x2b] ∨ sign = [0x2d]) :
    sign.filter isNumberChar = [] := by
  rcases h with rfl | rfl | rfl <;> decide

theorem filter_number (n : DecimalLiteral) : n.text.filter isNumberChar = n.unsigned := by
  rw [DecimalLiteral.text, DecimalLiteral.unsigned, List.filter_append, List.filter_append,
    List.filter_append, filter_sign n.sign_valid, filter_digits n.whole_valid, List.nil_append]
  congr 1
  · cases hfraction : n.fraction with
    | none => rfl
    | some digits =>
      have hpoint : isNumberChar 0x2e = true := by decide
      rw [Option.elim_some, List.filter_cons_of_pos hpoint,
        filter_digits (n.fraction_valid digits hfraction)]
  · cases hexponent : n.exponent with
    | none => rfl
    | some exponent =>
      obtain ⟨hs, -, hdigits⟩ := n.exponent_valid exponent.1 exponent.2 hexponent
      have hletter : ¬ isNumberChar 0x65 = true := by decide
      rw [Option.elim_some, Option.elim_some, List.cons_append, List.filter_cons_of_neg hletter,
        List.filter_append, filter_sign hs, filter_digits hdigits, List.nil_append]

theorem filter_name {name : Text} (h : ∀ c ∈ name, isalpha c ∨ isdigit c ∨ c = 0x5f) :
    name.filter isNameChar = name := by
  rw [List.filter_eq_self]
  intro c hc
  rw [isNameChar_iff]
  rcases h c hc with hletter | hdigit | hline
  · exact .inl (.inl hletter)
  · exact .inr (.inl hdigit)
  · exact .inl (.inr hline)

/-- A character that the scanner goes past. -/
structure Passed (c : UInt8) : Prop where
  zero : c ≠ 0
  feed : c ≠ 0x0a
  numberSign : c ≠ 0x23
  semicolon : c ≠ 0x3b
  equals : c ≠ 0x3d

theorem passed_of_imp {p : UInt8 → Prop}
    (h : ¬ p 0 ∧ ¬ p 0x0a ∧ ¬ p 0x23 ∧ ¬ p 0x3b ∧ ¬ p 0x3d) {c : UInt8} (hc : p c) : Passed c := by
  obtain ⟨hzero, hfeed, hsign, hend, hequals⟩ := h
  constructor <;> rintro rfl <;> contradiction

theorem passed_blank {c : UInt8} (hc : isBlank c = true) : Passed c :=
  passed_of_imp (p := fun c => isBlank c = true) (by decide) hc

theorem passed_name {c : UInt8} (hc : isalpha c ∨ isdigit c ∨ c = 0x5f) : Passed c :=
  passed_of_imp (p := fun c => isalpha c ∨ isdigit c ∨ c = 0x5f) (by decide) hc

theorem passed_number {c : UInt8}
    (hc : isdigit c = true ∨ c = 0x2b ∨ c = 0x2d ∨ c = 0x2e ∨ c = 0x65) : Passed c :=
  passed_of_imp (p := fun c => isdigit c = true ∨ c = 0x2b ∨ c = 0x2d ∨ c = 0x2e ∨ c = 0x65)
    (by decide) hc

theorem Assignment.blanks (a : Assignment) : (((∀ c ∈ a.beforeName, isBlank c = true) ∧
    ∀ c ∈ a.beforeEquals, isBlank c = true) ∧ ∀ c ∈ a.beforeNumber, isBlank c = true) ∧
      ∀ c ∈ a.beforeEnd, isBlank c = true := by
  simpa only [List.forall_mem_append] using a.blank

theorem passed_assignment (a : Assignment) :
    (∀ c ∈ a.beforeName ++ a.name ++ a.beforeEquals, Passed c) ∧
      ∀ c ∈ a.beforeNumber ++ a.number.text ++ a.beforeEnd, Passed c := by
  obtain ⟨⟨⟨hname, hequals⟩, hnumber⟩, hend⟩ := a.blanks
  simp only [List.forall_mem_append]
  exact ⟨⟨⟨fun c hc => passed_blank (hname c hc), fun c hc => passed_name (a.name_valid.2 c hc)⟩,
    fun c hc => passed_blank (hequals c hc)⟩, ⟨fun c hc => passed_blank (hnumber c hc),
    fun c hc => passed_number (mem_number hc)⟩, fun c hc => passed_blank (hend c hc)⟩

theorem text_assignment (a : Assignment) : (ConfigLine.assignment a).text =
    (a.beforeName ++ a.name ++ a.beforeEquals ++
      0x3d :: (a.beforeNumber ++ a.number.text ++ a.beforeEnd)) ++ 0x3b :: a.comment.text := by
  simp [ConfigLine.text]

/-- A line has no zeros and no line feeds. -/
theorem plain_text (line : ConfigLine) : ∀ c ∈ line.text, c ≠ 0 ∧ c ≠ 0x0a := by
  cases line with
  | comment comment => exact comment.plain
  | assignment a =>
    obtain ⟨hleft, hright⟩ := passed_assignment a
    intro c hc
    rw [text_assignment, List.mem_append, List.mem_append, List.mem_cons, List.mem_cons] at hc
    rcases hc with (hc | rfl | hc) | rfl | hc
    · exact ⟨(hleft c hc).zero, (hleft c hc).feed⟩
    · decide
    · exact ⟨(hright c hc).zero, (hright c hc).feed⟩
    · decide
    · exact a.comment.plain c hc

/-- Of an assignment the scanner gets the name and the number without its signs. -/
theorem assignment_line (a : Assignment) {feed : Text} (hfeed : feed = [] ∨ feed = [0x0a]) :
    closed ((ConfigLine.assignment a).text ++ feed) = true ∧
      nameChars (visible ((ConfigLine.assignment a).text ++ feed)) = a.name ∧
        numberChars (visible ((ConfigLine.assignment a).text ++ feed)) = a.number.unsigned := by
  obtain ⟨hleft, hright⟩ := passed_assignment a
  obtain ⟨⟨⟨hname, hequals⟩, hnumber⟩, hend⟩ := a.blanks
  have hline : (ConfigLine.assignment a).text ++ feed =
      (a.beforeName ++ a.name ++ a.beforeEquals ++
        0x3d :: (a.beforeNumber ++ a.number.text ++ a.beforeEnd)) ++
          (0x3b :: (a.comment.text ++ feed)) := by
    rw [text_assignment, List.append_assoc, List.cons_append]
  have hzero : ∀ c ∈ (ConfigLine.assignment a).text ++ feed, c ≠ 0 := by
    intro c hc
    rcases List.mem_append.mp hc with hc | hc
    · exact (plain_text (.assignment a) c hc).1
    · rw [mem_feed hfeed hc]
      decide
  have hfront : ∀ c ∈ a.beforeName ++ a.name ++ a.beforeEquals ++
      0x3d :: (a.beforeNumber ++ a.number.text ++ a.beforeEnd), c ≠ 0x23 ∧ c ≠ 0x3b := by
    intro c hc
    rcases List.mem_append.mp hc with hc | hc
    · exact ⟨(hleft c hc).numberSign, (hleft c hc).semicolon⟩
    · rcases List.mem_cons.mp hc with rfl | hc
      · decide
      · exact ⟨(hright c hc).numberSign, (hright c hc).semicolon⟩
  obtain ⟨hseen, hclosed⟩ := visible_of_append hline hzero hfront
    (fun c hc => .inr (Option.some.inj hc).symm)
  rw [hseen, hclosed]
  refine ⟨rfl, ?_, ?_⟩
  · rw [nameChars,
      List.takeWhile_append_of_pos fun c hc => by exact bne_iff_ne.mpr (hleft c hc).equals,
      List.takeWhile_cons_of_neg (by decide), List.append_nil, List.filter_append,
      List.filter_append, (filter_blanks fun c hc => .inl (hname c hc)).1,
      (filter_blanks fun c hc => .inl (hequals c hc)).1, filter_name a.name_valid.2,
      List.nil_append, List.append_nil]
  · rw [numberChars,
      List.dropWhile_append_of_pos fun c hc => by exact bne_iff_ne.mpr (hleft c hc).equals,
      List.dropWhile_cons_of_neg (by decide), List.filter_cons_of_neg (by decide),
      List.filter_append, List.filter_append, (filter_blanks fun c hc => .inl (hnumber c hc)).2,
      (filter_blanks fun c hc => .inl (hend c hc)).2, filter_number, List.nil_append,
      List.append_nil]

/-! ### Files -/

variable (atof : Text → UInt64)

/-- What a line sets. -/
theorem loadLine_text (th : Thresholds) (writes : List Access) (line : ConfigLine) {feed : Text}
    (hfeed : feed = [] ∨ feed = [0x0a]) (t : Threshold) :
    (loadLine atof (th, writes) (line.text ++ feed)).1 t =
      ((line.assigned.filter fun a => a.name == t.compared).map fun a =>
        atof a.number.unsigned).getD (th t) := by
  rw [loadLine_fst]
  cases line with
  | comment comment =>
    obtain ⟨hclosed, -, -⟩ := comment_line comment hfeed
    rw [ConfigLine.text, hclosed]
    rfl
  | assignment a =>
    obtain ⟨hclosed, hname, hnumber⟩ := assignment_line a hfeed
    rw [hclosed, hname, hnumber, ConfigLine.assigned]
    by_cases h : a.name = t.compared
    · simp [Option.filter, h]
    · simp [Option.filter, h]

theorem lineFits_text (line : ConfigLine) {feed : Text} (hfeed : feed = [] ∨ feed = [0x0a]) :
    LineFits (line.text ++ feed) ↔ ∀ a, line = .assignment a →
      a.name.length ≤ 99 ∧ a.number.unsigned.length ≤ 29 := by
  rw [LineFits]
  cases line with
  | comment comment =>
    obtain ⟨hclosed, hname, hnumber⟩ := comment_line comment hfeed
    rw [ConfigLine.text, hclosed, hname, hnumber]
    simp
  | assignment a =>
    obtain ⟨hclosed, hname, hnumber⟩ := assignment_line a hfeed
    rw [hclosed, hname, hnumber]
    simp only [if_true, ConfigLine.assignment.injEq, forall_eq']
    omega

theorem lastNumber_cons (line : ConfigLine) (lines : List ConfigLine) (name : Text) :
    lastNumber (line :: lines) name = (lastNumber lines name).or
      ((line.assigned.filter fun a => a.name == name).map Assignment.number) := by
  rw [lastNumber, lastNumber, List.filterMap_cons]
  cases line.assigned with
  | none => simp
  | some a =>
    rw [List.reverse_cons, List.find?_append, List.find?_singleton, Option.map_or]
    cases h : a.name == name <;> simp [Option.filter, h]

theorem not_mem_text (line : ConfigLine) : (0x0a : UInt8) ∉ line.text :=
  fun hmem => (plain_text line _ hmem).2 rfl

/-- The first line of a file is loaded, with its line feed if others follow. -/
theorem foldl_fgetsLines (line : ConfigLine) (lines : List ConfigLine)
    (hshort : line.text.length < 999) (loaded : Thresholds × List Access) :
    ∃ feed : Text, (feed = [] ∨ feed = [0x0a]) ∧
      (fgetsLines [] (fileText (line :: lines))).foldl (loadLine atof) loaded =
        (fgetsLines [] (fileText lines)).foldl (loadLine atof)
          (loadLine atof loaded (line.text ++ feed)) := by
  cases lines with
  | nil =>
    refine ⟨[], .inl rfl, ?_⟩
    have htext : fileText [line] = line.text := by
      rw [fileText, List.map_singleton, List.intercalate_singleton]
    have hnil : fgetsLines [] (fileText []) = [] := rfl
    rw [htext, hnil, fgetsLines_last (not_mem_text line) hshort, List.append_nil]
    split_ifs with hempty
    · rw [hempty]
      exact Prod.ext rfl (List.append_nil _).symm
    · rfl
  | cons next lines =>
    refine ⟨[0x0a], .inr rfl, ?_⟩
    have htext : fileText (line :: next :: lines) =
        line.text ++ 0x0a :: fileText (next :: lines) := by
      rw [fileText, List.map_cons, List.map_cons, List.intercalate_cons_cons, List.append_assoc]
      rfl
    rw [htext, fgetsLines_cons (not_mem_text line) _ hshort]
    rfl

/-- The lines of a file are loaded one after the other. -/
theorem foldl_fileText (lines : List ConfigLine) (hshort : ∀ line ∈ lines, line.text.length < 999)
    (th : Thresholds) (writes : List Access) :
    (∀ t : Threshold, ((fgetsLines [] (fileText lines)).foldl (loadLine atof) (th, writes)).1 t =
      ((lastNumber lines t.compared).map fun number => atof number.unsigned).getD (th t)) ∧
    (Access.AllInside ((fgetsLines [] (fileText lines)).foldl (loadLine atof) (th, writes)).2 ↔
      Access.AllInside writes ∧ ∀ a, .assignment a ∈ lines →
        a.name.length ≤ 99 ∧ a.number.unsigned.length ≤ 29) := by
  induction lines generalizing th writes with
  | nil => simp [fileText, fgetsLines, lastNumber]
  | cons line lines ih =>
    obtain ⟨hline, hlines⟩ := List.forall_mem_cons.mp hshort
    obtain ⟨feed, hfeed, hload⟩ := foldl_fgetsLines atof line lines hline (th, writes)
    obtain ⟨hsets, hinside⟩ := ih hlines (loadLine atof (th, writes) (line.text ++ feed)).1
      (loadLine atof (th, writes) (line.text ++ feed)).2
    rw [hload]
    constructor
    · intro t
      rw [hsets t, loadLine_text atof th writes line hfeed, lastNumber_cons, Option.map_or,
        Option.getD_or, Option.map_map]
      rfl
    · rw [hinside, allInside_loadLine, lineFits_text line hfeed]
      constructor
      · rintro ⟨⟨hwrites, hfirst⟩, hrest⟩
        refine ⟨hwrites, fun a ha => ?_⟩
        rcases List.mem_cons.mp ha with heq | hmem
        · exact hfirst a heq.symm
        · exact hrest a hmem
      · rintro ⟨hwrites, hall⟩
        exact ⟨⟨hwrites, fun a ha => hall a (ha ▸ List.mem_cons_self)⟩,
          fun a ha => hall a (List.mem_cons_of_mem _ ha)⟩

theorem getD_eq_iff {o o' : Option UInt64} : (∀ x, o.getD x = o'.getD x) ↔ o = o' := by
  constructor
  · intro h
    cases o with
    | none =>
      cases o' with
      | none => rfl
      | some v => exact absurd ((h 0).trans (h 1).symm) (by decide)
    | some v =>
      cases o' with
      | none => exact absurd ((h 0).symm.trans (h 1)) (by decide)
      | some v' => exact congrArg some (h 0)
  · rintro rfl x
    rfl

theorem map_eq_map_iff {o : Option DecimalLiteral} {f g : DecimalLiteral → UInt64} :
    o.map f = o.map g ↔ ∀ number, o = some number → f number = g number := by
  cases o with
  | none => simp
  | some number => simp

theorem compared_of_ne {t : Threshold} (h : t ≠ .sameLane) : t.compared = t.name := by
  cases t with
  | sameLane => exact absurd rfl h
  | _ => rfl

/-- A file of short lines sets the thresholds as it says, inside the arrays, exactly when its lines
fit. -/
theorem setsThresholds_iff {lines : List ConfigLine}
    (hshort : ∀ line ∈ lines, line.text.length < 999) :
    SetsThresholds atof lines ↔ ThresholdsFit atof lines := by
  have hload (th : Thresholds) := foldl_fileText atof lines hshort th []
  have hvalue (t : Threshold) : (∀ th : Thresholds, (initSafetyThr atof (fileText lines) th).1 t =
      ((lastNumber lines t.name).map fun number => atof number.text).getD (th t)) ↔
      ((lastNumber lines t.compared).map fun number => atof number.unsigned) =
        (lastNumber lines t.name).map fun number => atof number.text := by
    rw [← getD_eq_iff]
    constructor
    · intro h x
      exact ((hload fun _ => x).1 t).symm.trans (h fun _ => x)
    · intro h th
      exact ((hload th).1 t).trans (h (th t))
  constructor
  · intro h
    refine ⟨((hload fun _ => 0).2.mp (h _).2).2, fun t ht => ?_, ?_⟩
    · have hsame := (hvalue t).mp fun th => (h th).1 t
      rw [compared_of_ne ht] at hsame
      exact map_eq_map_iff.mp hsame
    · exact (hvalue .sameLane).mp fun th => (h th).1 .sameLane
  · intro hfit th
    refine ⟨fun t => ?_, (hload th).2.mpr ⟨Access.allInside_nil, hfit.lengths⟩⟩
    by_cases ht : t = .sameLane
    · rw [ht]
      exact (hvalue .sameLane).mpr hfit.sameLane th
    · refine (hvalue t).mpr ?_ th
      rw [compared_of_ne ht]
      exact map_eq_map_iff.mpr (hfit.numbers t ht)

/-- A file is loaded as it says exactly when the lines that `fgets` returns have room and set every
threshold to its last number. -/
theorem setsThresholds_iff_scanned (lines : List ConfigLine) :
    SetsThresholds atof lines ↔ ScannedFit atof lines := by
  have hload (th : Thresholds) (t : Threshold) :
      (initSafetyThr atof (fileText lines) th).1 t =
        ((lastScanned (fgetsLines [] (fileText lines)) t.compared).map atof).getD (th t) :=
    foldl_loadLine_fst atof th [] (fgetsLines [] (fileText lines)) t
  have hinside (th : Thresholds) : Access.AllInside (initSafetyThr atof (fileText lines) th).2 ↔
      ∀ line ∈ fgetsLines [] (fileText lines), LineFits line := by
    rw [initSafetyThr, allInside_foldl_loadLine, and_iff_right Access.allInside_nil]
  constructor
  · intro h
    refine ⟨(hinside _).mp (h fun _ => 0).2, fun t => getD_eq_iff.mp fun x => ?_⟩
    exact ((hload (fun _ => x) t).symm).trans ((h fun _ => x).1 t)
  · intro hfit th
    refine ⟨fun t => ?_, (hinside th).mpr hfit.room⟩
    rw [hload, hfit.numbers t]

end Grammar

/-- The library's function on the texts of 1 and -1. -/
def atofOne (s : Text) : UInt64 :=
  if s = ascii "1" then 0x3ff0000000000000 else if s = ascii "-1" then 0xbff0000000000000 else 0

def DecimalLiteral.one : DecimalLiteral :=
  ⟨[], [0x31], none, none, by decide, List.all_eq_true.mp (by decide), nofun, nofun, by decide⟩

def DecimalLiteral.minusOne : DecimalLiteral :=
  ⟨[0x2d], [0x31], none, none, by decide, List.all_eq_true.mp (by decide), nofun, nofun, by decide⟩

theorem name_of_all {name : Text}
    (h : name ≠ [] ∧ name.all fun c => decide (isalpha c ∨ isdigit c ∨ c = 0x5f)) :
    name ≠ [] ∧ ∀ c ∈ name, isalpha c ∨ isdigit c ∨ c = 0x5f :=
  h.imp_right List.all_iff_forall_prop.mp

/-- An assignment without blanks and comments. -/
def ConfigLine.plain (name : Text) (number : DecimalLiteral)
    (h : name ≠ [] ∧ ∀ c ∈ name, isalpha c ∨ isdigit c ∨ c = 0x5f) : ConfigLine :=
  .assignment ⟨name, number, [], [], [], [], ⟨[], nofun, nofun⟩, h, nofun⟩

end Tulux.QApplication.SafetyThresholds
