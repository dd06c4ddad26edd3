import Tulux.Lib.Regex
import Tulux.Lib.TextStream
import Tulux.QApplication.LoadConfiguration

/-! The configuration files of the sample applications. -/
namespace Tulux.Common.ConfigParser
open SortedMap TextStream
open QApplication.LoadConfiguration (Text bytes bytes_injective)

abbrev ConfigMap := List (Text × Text)

/-- `std::isspace`: tabs, line ends and the space. -/
def isspace (c : UInt8) : Bool := c = 0x20 ∨ (0x09 ≤ c ∧ c ≤ 0x0d)

/-- `" +$"`. -/
def trailingSpaces : Regex.Pattern UInt8 := .seq (.many 0x20) .finish

/-- `"^ +| +$"`. -/
def outerSpaces : Regex.Pattern UInt8 :=
  .alt (.seq .start (.many 0x20)) (.seq (.many 0x20) .finish)

/-- The body of the loop of `readConfigFile`. -/
def readParam (configMap : ConfigMap) (param : Text) : ConfigMap :=
  let (key, paramStream) := getline 0x3d [] (ofText param)
  if paramStream.fail then configMap
  -- `key[0]` of an empty string is the null character
  else if key.headD 0 = 0x23 then configMap
  else
    let key := Regex.remove trailingSpaces key
    if 0 < key.length then
      let (value, paramStream) := getline 0x0a [] paramStream
      if paramStream.fail then configMap
      else set bytes key (Regex.remove outerSpaces value) configMap
    else configMap

/-- The map that is made of the text of a file. -/
def readConfigFile (text : Text) : ConfigMap :=
  eachLine isspace 0x0a readParam [] [] (ofText text)

def getValue (configMap : ConfigMap) (key : Text) : Text :=
  (lookup bytes (bytes key) configMap).getD []

/-! ### The grammar -/

/-- A text without leading and trailing spaces. -/
def trim (s : Text) : Text := (s.dropWhile (· = 0x20)).rdropWhile (· = 0x20)

/-- The key of a line, and the rest of the line behind its first `=`. Comments and lines without a
key or a `=` have none. -/
def entryOf (line : Text) : Option (Text × Text) :=
  let line := line.dropWhile isspace
  let key := trim (line.takeWhile (· ≠ 0x3d))
  if line.head? = some 0x23 ∨ 0x3d ∉ line ∨ key = [] then none
  else some (key, (line.dropWhile (· ≠ 0x3d)).tail)

def entries (text : Text) : List (Text × Text) := (text.splitOn 0x0a).filterMap entryOf

/-- What is behind the `=` of the last entry of a key. -/
def lastRest (key : Text) (entries : List (Text × Text)) : Option Text :=
  (entries.findRev? fun e => e.1 = key).map Prod.snd

/-- A later entry of a key replaces an earlier one. -/
def grammarValue (text key : Text) : Option Text := (lastRest key (entries text)).map trim

/-- The map is that of the grammar. -/
def BuildsGrammar (text : Text) : Prop :=
  ∀ key, lookup bytes (bytes key) (readConfigFile text) = grammarValue text key

/-- Where nothing is behind the `=` of the last entry of a key, the key has an earlier entry with
something there, and the last of these has spaces only. -/
def EmptyValuesRepeated (text : Text) : Prop :=
  ∀ key, lastRest key (entries text) = some [] →
    ∃ rest, lastRest key ((entries text).filter fun e => e.2 ≠ []) = some rest ∧
      ∀ c ∈ rest, c = 0x20

/-! ### A line -/

section Line
variable {line param rest : Text} {key : Text} {m : ConfigMap} {y : UInt8}

theorem remove_trailingSpaces (s : Text) :
    Regex.remove trailingSpaces s = s.rdropWhile (· = 0x20) := Regex.remove_trailing 0x20 s

theorem remove_outerSpaces (s : Text) : Regex.remove outerSpaces s = trim s :=
  Regex.remove_trim 0x20 s

theorem dropWhile_eq_nil_of_not_mem {c : UInt8} {s : Text} (h : c ∉ s) :
    s.dropWhile (· ≠ c) = [] := by
  rw [List.dropWhile_eq_nil_iff]
  intro x hx
  rw [decide_eq_true_eq]
  rintro rfl
  exact h hx

/-- A line without `=` is no entry. -/
theorem readParam_of_not_mem (h : 0x3d ∉ param) : readParam m param = m := by
  unfold readParam
  rw [getline_last _ (dropWhile_eq_nil_of_not_mem h)]
  dsimp only
  -- nothing is left for the value
  cases param <;> simp [getline, InStream.good]

theorem readParam_entry (hend : 0x0a ∉ param)
    (h : param.dropWhile (· ≠ 0x3d) = y :: rest) :
    readParam m param =
      if (param.takeWhile (· ≠ 0x3d)).headD 0 = 0x23 then m
      else if (param.takeWhile (· ≠ 0x3d)).rdropWhile (· = 0x20) = [] ∨ rest = [] then m
      else set bytes ((param.takeWhile (· ≠ 0x3d)).rdropWhile (· = 0x20)) (trim rest) m := by
  have hrest : 0x0a ∉ rest := by
    intro hmem
    have hsub := (List.dropWhile_sublist (l := param) (· ≠ 0x3d)).subset
    rw [h] at hsub
    exact hend (hsub (List.mem_cons_of_mem _ hmem))
  unfold readParam
  rw [getline_cons _ h]
  dsimp only
  rw [remove_trailingSpaces, getline_last _ (dropWhile_eq_nil_of_not_mem hrest), remove_outerSpaces]
  generalize (param.takeWhile (· ≠ 0x3d)).rdropWhile (· = 0x20) = trimmed
  cases trimmed <;> cases rest <;> simp [ofText]

theorem dropWhile_space_of_head {s : Text} (h : s.head? ≠ some 0x20) :
    s.dropWhile (· = 0x20) = s := by
  cases s with
  | nil => rfl
  | cons x s =>
    refine List.dropWhile_cons_of_neg fun hx => h ?_
    rw [List.head?_cons, of_decide_eq_true hx]

/-- What a line does to the map: an entry is put there when something is behind its `=`. -/
theorem readParam_line (hend : 0x0a ∉ line) (m : ConfigMap) :
    readParam m (line.dropWhile isspace) =
      match entryOf line with
      | some (key, rest) => if rest = [] then m else set bytes key (trim rest) m
      | none => m := by
  unfold entryOf
  dsimp only
  have hend' : 0x0a ∉ line.dropWhile isspace :=
    fun hmem => hend ((List.dropWhile_sublist isspace).subset hmem)
  have hhead : (line.dropWhile isspace).head? ≠ some 0x20 := by
    intro hspace
    have hnot := List.head?_dropWhile_not isspace line
    rw [hspace] at hnot
    exact absurd hnot (by decide)
  generalize line.dropWhile isspace = param at hend' hhead ⊢
  by_cases hmem : 0x3d ∈ param
  swap
  · rw [readParam_of_not_mem hmem, if_pos (.inr (.inl hmem))]
  cases hdrop : param.dropWhile (· ≠ 0x3d) with
  | nil => exact absurd (List.dropWhile_eq_nil_iff.mp hdrop _ hmem) (by decide)
  | cons y rest =>
    have hfirst : (param.takeWhile (· ≠ 0x3d)).head? ≠ some 0x20 := by
      cases param with
      | nil => cases hmem
      | cons x param =>
        rw [List.takeWhile_cons]
        split_ifs
        · exact hhead
        · simp
    have hcomment : (param.takeWhile (· ≠ 0x3d)).headD 0 = 0x23 ↔ param.head? = some 0x23 := by
      cases param with
      | nil => cases hmem
      | cons x param =>
        rw [List.takeWhile_cons]
        split_ifs with hx
        · simp
        · have heq : x = 0x3d := by simpa using hx
          simp [heq]
    have hkey : trim (param.takeWhile (· ≠ 0x3d)) =
        (param.takeWhile (· ≠ 0x3d)).rdropWhile (· = 0x20) := by
      rw [trim, dropWhile_space_of_head hfirst]
    rw [readParam_entry hend' hdrop, hkey, List.tail_cons]
    by_cases hhash : param.head? = some 0x23
    · rw [if_pos (hcomment.mpr hhash), if_pos (.inl hhash)]
    · rw [if_neg (hcomment.not.mpr hhash)]
      by_cases hnone : (param.takeWhile (· ≠ 0x3d)).rdropWhile (· = 0x20) = []
      · rw [if_pos (.inl hnone), if_pos (.inr (.inr hnone))]
      · rw [if_neg (not_or.mpr ⟨hhash, not_or.mpr ⟨not_not.mpr hmem, hnone⟩⟩)]
        simp only [hnone, false_or]

end Line

/-! ### A file -/

/-- The entries that are put into the map. -/
def keptEntries (text : Text) : List (Text × Text) := (entries text).filter fun e => e.2 ≠ []

theorem not_mem_of_mem_splitOn {text line : Text} (h : line ∈ text.splitOn 0x0a) :
    0x0a ∉ line := by
  induction hk : text.length using Nat.strong_induction_on generalizing text with
  | _ n ih =>
    rw [splitOn_eq] at h
    rcases List.mem_cons.mp h with rfl | hlater
    · intro hmem
      exact absurd (List.mem_takeWhile_imp hmem) (by decide)
    · have hle := (List.dropWhile_sublist (l := text) (· ≠ 0x0a)).length_le
      cases hdrop : text.dropWhile (· ≠ 0x0a) with
      | nil =>
        rw [hdrop] at hlater
        cases hlater
      | cons x rest =>
        rw [hdrop] at hlater hle
        exact ih rest.length (by rw [← hk]; exact hle) hlater rfl

theorem readConfigFile_eq (text : Text) : readConfigFile text =
    (keptEntries text).foldl (fun m e => set bytes e.1 (trim e.2) m) [] := by
  have hblank (m : ConfigMap) : readParam m [] = m := readParam_of_not_mem (by simp)
  have hlines : readConfigFile text =
      (text.splitOn 0x0a).foldl (fun m line => readParam m (line.dropWhile isspace)) [] := by
    unfold readConfigFile
    rw [eachLine_ofText rfl, lines, List.foldl_filter, List.foldl_map]
    refine List.foldl_ext _ _ _ fun m line _ => ?_
    by_cases hline : line.dropWhile isspace = []
    · simp [hline, hblank]
    · simp [hline]
  rw [hlines]
  unfold keptEntries entries
  rw [List.foldl_filter, List.foldl_filterMap]
  refine List.foldl_ext _ _ _ fun m line hline => ?_
  rw [readParam_line (not_mem_of_mem_splitOn hline)]
  cases entryOf line with
  | none => rfl
  | some e => by_cases hrest : e.2 = [] <;> simp [hrest]

theorem lastRest_cons (key : Text) (e : Text × Text) (es : List (Text × Text)) :
    lastRest key (e :: es) = (lastRest key es).or (if e.1 = key then some e.2 else none) := by
  unfold lastRest
  rw [List.findRev?]
  cases es.findRev? fun e => e.1 = key with
  | some later => rfl
  | none => by_cases hkey : e.1 = key <;> simp [hkey]

theorem lookup_foldl_set (es : List (Text × Text)) (m : ConfigMap) (key : Text) :
    lookup bytes (bytes key) (es.foldl (fun m e => set bytes e.1 (trim e.2) m) m) =
      ((lastRest key es).map trim).or (lookup bytes (bytes key) m) := by
  induction es generalizing m with
  | nil => rfl
  | cons e es ih =>
    rw [List.foldl_cons, ih, lastRest_cons]
    by_cases hkey : e.1 = key
    · subst hkey
      rw [lookup_set_self, if_pos rfl]
      cases lastRest e.1 es <;> rfl
    · rw [lookup_set_of_ne (bytes_injective.ne hkey), if_neg hkey, Option.or_none]

/-- The map has the value of the last entry with something behind its `=`. -/
theorem lookup_readConfigFile (text key : Text) :
    lookup bytes (bytes key) (readConfigFile text) =
      (lastRest key (keptEntries text)).map trim := by
  rw [readConfigFile_eq, lookup_foldl_set, lookup_nil, Option.or_none]

theorem getValue_readConfigFile (text key : Text) :
    getValue (readConfigFile text) key = ((lastRest key (keptEntries text)).map trim).getD [] := by
  rw [getValue, lookup_readConfigFile]

theorem trim_eq_nil_iff {s : Text} : trim s = [] ↔ ∀ c ∈ s, c = 0x20 := by
  unfold trim
  rw [List.rdropWhile_eq_nil_iff]
  induction s with
  | nil => simp
  | cons x s ih =>
    by_cases hx : x = 0x20
    · simpa [hx] using ih
    · simp [hx]

/-- A last entry with something behind its `=` is the last one that is kept. -/
theorem lastRest_kept {key : Text} {es : List (Text × Text)} (h : lastRest key es ≠ some []) :
    lastRest key (es.filter fun e => e.2 ≠ []) = lastRest key es := by
  induction es with
  | nil => rfl
  | cons e es ih =>
    rw [lastRest_cons] at h ⊢
    rw [List.filter_cons]
    cases hlater : lastRest key es with
    | some rest =>
      rw [hlater, Option.some_or] at h
      rw [hlater] at ih
      rw [Option.some_or]
      by_cases hrest : decide (e.2 ≠ []) = true
      · rw [if_pos hrest, lastRest_cons, ih h, Option.some_or]
      · rw [if_neg hrest, ih h]
    | none =>
      rw [hlater, Option.none_or] at h
      rw [hlater] at ih
      by_cases hrest : e.2 = []
      · have hother : e.1 ≠ key := fun hkey => h (by rw [if_pos hkey, hrest])
        simpa [hrest, hother] using ih (by simp)
      · rw [if_pos (decide_eq_true hrest), lastRest_cons, ih (by simp)]

/-- The map is that of the grammar exactly when each last entry of a key that has nothing behind its
`=` repeats an empty value, for every text. -/
theorem buildsGrammar_iff (text : Text) : BuildsGrammar text ↔ EmptyValuesRepeated text := by
  refine forall_congr' fun key => ?_
  rw [lookup_readConfigFile, grammarValue]
  unfold keptEntries
  by_cases hempty : lastRest key (entries text) = some []
  · rw [hempty, forall_prop_of_true rfl, Option.map_some, Option.map_eq_some_iff]
    exact exists_congr fun rest => and_congr_right fun _ => trim_eq_nil_iff
  · rw [lastRest_kept hempty]
    exact iff_of_true rfl fun h => absurd h hempty

/-- The second line has a key and nothing behind its `=`. -/
def replacedText : Text := [0x61, 0x3d, 0x31, 0x0a, 0x61, 0x3d, 0x0a]

theorem not_buildsGrammar : ¬ BuildsGrammar replacedText := by
  intro h
  have hvalue := h [0x61]
  rw [lookup_readConfigFile] at hvalue
  exact absurd hvalue (by decide)

end Tulux.Common.ConfigParser
