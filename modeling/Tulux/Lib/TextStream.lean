import Mathlib.Data.List.Basic
import Mathlib.Tactic

/-! Text that is read from a stream as by `std::ws` and `std::getline`, and the lines of a loop that
skips white space before each line. -/
namespace TextStream

/-- What is left of a text, and whether its end was met or a read has failed. -/
structure InStream (α : Type*) where
  rest : List α
  eof : Bool
  fail : Bool

variable {α β : Type*}

def ofText (text : List α) : InStream α := ⟨text, false, false⟩

def InStream.good (s : InStream α) : Bool := !s.eof && !s.fail

/-- Takes white space away; the end of the text is no failure. -/
def ws (isSpace : α → Bool) (s : InStream α) : InStream α :=
  if s.good then
    let rest := s.rest.dropWhile isSpace
    { s with rest := rest, eof := rest.isEmpty }
  else { s with fail := true }

theorem length_ws_le {isSpace : α → Bool} {s : InStream α} :
    (ws isSpace s).rest.length ≤ s.rest.length := by
  unfold ws
  split_ifs
  · exact (List.dropWhile_sublist isSpace).length_le
  · exact le_rfl

section Lines
variable [DecidableEq α]

/-- Reads up to a delimiter, which is taken away. A read of nothing at the end of the text fails, and
one from a stream that is not good leaves `str` as it is. -/
def getline (delim : α) (str : List α) (s : InStream α) : List α × InStream α :=
  if s.good then
    let line := s.rest.takeWhile (· ≠ delim)
    match s.rest.dropWhile (· ≠ delim) with
    | [] => (line, ⟨[], true, line.isEmpty⟩)
    | _ :: rest => (line, { s with rest := rest })
  else (str, { s with fail := true })

variable {delim : α} {str : List α} {isSpace : α → Bool} {s : InStream α} {text : List α}

/-- The last line of a text, which fails where nothing is left. -/
theorem getline_last (str : List α) (h : text.dropWhile (· ≠ delim) = []) :
    getline delim str (ofText text) = (text, ⟨[], true, text.isEmpty⟩) := by
  have hwhole := List.takeWhile_append_dropWhile (p := (· ≠ delim)) (l := text)
  rw [h, List.append_nil] at hwhole
  unfold getline ofText
  dsimp only
  rw [h, hwhole]
  rfl

theorem getline_cons (str : List α) {x : α} {rest : List α}
    (h : text.dropWhile (· ≠ delim) = x :: rest) :
    getline delim str (ofText text) = (text.takeWhile (· ≠ delim), ofText rest) := by
  unfold getline ofText
  dsimp only
  rw [h]
  rfl

theorem getline_decreases (h : (getline delim str s).2.fail ≠ true) :
    (getline delim str s).2.rest.length < s.rest.length := by
  unfold getline at h ⊢
  split_ifs at h ⊢
  · have hsplit := List.takeWhile_append_dropWhile (p := (· ≠ delim)) (l := s.rest)
    cases hdrop : s.rest.dropWhile (· ≠ delim) with
    | nil =>
      simp only [hdrop] at h ⊢
      rw [← hsplit, hdrop, List.append_nil]
      exact List.length_pos_iff.mpr (by simpa using h)
    | cons x rest =>
      have hlonger : rest.length < s.rest.length := by
        rw [← hsplit, hdrop, List.length_append, List.length_cons]
        omega
      exact hlonger
  · exact absurd rfl h

/-- `while (getline(stream >> ws, line)) body(line)`. -/
def eachLine (isSpace : α → Bool) (delim : α) (body : β → List α → β) (line : List α) (acc : β)
    (s : InStream α) : β :=
  let next := getline delim line (ws isSpace s)
  if _h : next.2.fail = true then acc
  else eachLine isSpace delim body next.1 (body acc next.1) next.2
termination_by s.rest.length
decreasing_by exact (getline_decreases _h).trans_le length_ws_le

/-! ### The lines of a text -/

/-- The lines without the white space in front of them, those that are not blank. -/
def lines (isSpace : α → Bool) (delim : α) (text : List α) : List (List α) :=
  ((text.splitOn delim).map (List.dropWhile isSpace)).filter (· ≠ [])

theorem splitOn_eq (delim : α) (text : List α) :
    text.splitOn delim = text.takeWhile (· ≠ delim) ::
      match text.dropWhile (· ≠ delim) with
      | [] => []
      | _ :: rest => rest.splitOn delim := by
  induction text with
  | nil => rfl
  | cons x text ih =>
    rw [List.splitOn_cons_eq_if_modifyHead]
    by_cases hx : x = delim
    · simp [hx]
    · rw [ih]
      simp [hx]

theorem lines_cons_space {x : α} (hx : isSpace x) :
    lines isSpace delim (x :: text) = lines isSpace delim text := by
  unfold lines
  rw [List.splitOn_cons_eq_if_modifyHead]
  by_cases heq : x = delim
  · simp [heq]
  · obtain ⟨first, rest, hsplit⟩ := List.exists_cons_of_ne_nil (List.splitOn_ne_nil delim text)
    rw [hsplit]
    simp [heq, hx]

theorem lines_dropWhile (isSpace : α → Bool) (delim : α) (text : List α) :
    lines isSpace delim (text.dropWhile isSpace) = lines isSpace delim text := by
  induction text with
  | nil => rfl
  | cons x text ih =>
    by_cases hx : isSpace x
    · rw [List.dropWhile_cons_of_pos hx, ih, lines_cons_space hx]
    · rw [List.dropWhile_cons_of_neg hx]

theorem lines_cons (hdelim : isSpace delim) {x : α} (hx : ¬ isSpace x) :
    lines isSpace delim (x :: text) = (x :: text).takeWhile (· ≠ delim) ::
      match (x :: text).dropWhile (· ≠ delim) with
      | [] => []
      | _ :: rest => lines isSpace delim rest := by
  have hne : x ≠ delim := by
    rintro rfl
    exact hx hdelim
  unfold lines
  rw [splitOn_eq]
  cases (x :: text).dropWhile (· ≠ delim) <;> simp [hne, hx]

/-! ### The loop -/

variable {body : β → List α → β} {line : List α} {acc : β}

theorem eachLine_stop (h : (getline delim line (ws isSpace s)).2.fail = true) :
    eachLine isSpace delim body line acc s = acc := by
  rw [eachLine]
  exact dif_pos h

theorem eachLine_next (h : (getline delim line (ws isSpace s)).2.fail ≠ true) :
    eachLine isSpace delim body line acc s =
      eachLine isSpace delim body (getline delim line (ws isSpace s)).1
        (body acc (getline delim line (ws isSpace s)).1) (getline delim line (ws isSpace s)).2 := by
  conv_lhs => rw [eachLine]
  exact dif_neg h

/-- At the end of the text there is no line. -/
theorem eachLine_eof : eachLine isSpace delim body line acc ⟨[], true, false⟩ = acc :=
  eachLine_stop rfl

/-- The loop sees the lines that are not blank, without the white space in front of them. -/
theorem eachLine_ofText (hdelim : isSpace delim) (body : β → List α → β) (line : List α) (acc : β)
    (text : List α) : eachLine isSpace delim body line acc (ofText text) =
      (lines isSpace delim text).foldl body acc := by
  induction hk : text.length using Nat.strong_induction_on generalizing text line acc with
  | _ n ih =>
    rw [← lines_dropWhile isSpace delim text]
    cases hskip : text.dropWhile isSpace with
    | nil =>
      have hws : ws isSpace (ofText text) = ⟨[], true, false⟩ := by
        simp [ws, ofText, InStream.good, hskip]
      rw [eachLine_stop (by rw [hws]; rfl)]
      rfl
    | cons x rest =>
      have hx : ¬ isSpace x := by
        have hhead := List.head?_dropWhile_not isSpace text
        rw [hskip] at hhead
        simpa using hhead
      have hws : ws isSpace (ofText text) = ofText (x :: rest) := by
        simp [ws, ofText, InStream.good, hskip]
      have hlength : (x :: rest).length ≤ text.length := by
        rw [← hskip]
        exact (List.dropWhile_sublist isSpace).length_le
      rw [lines_cons hdelim hx]
      cases hdrop : (x :: rest).dropWhile (· ≠ delim) with
      | nil =>
        have hget := getline_last line hdrop
        have hwhole := List.takeWhile_append_dropWhile (p := (· ≠ delim)) (l := x :: rest)
        rw [hdrop, List.append_nil] at hwhole
        rw [eachLine_next (by rw [hws, hget]; exact Bool.false_ne_true), hws, hget, hwhole]
        exact eachLine_eof
      | cons y later =>
        have hget := getline_cons line hdrop
        have hlater : later.length < (x :: rest).length := by
          have hle := (List.dropWhile_sublist (l := x :: rest) (· ≠ delim)).length_le
          rw [hdrop, List.length_cons] at hle
          exact hle
        rw [eachLine_next (by rw [hws, hget]; exact Bool.false_ne_true), hws, hget,
          ih _ (hk ▸ hlater.trans_le hlength) _ _ _ rfl]
        rfl

end Lines

end TextStream
