import Mathlib.Data.List.Lex
import Mathlib.Order.Lex
import Tulux.Lib.SortedMap

/-! The configuration file of `ApplicationBase`. A string is the list of its bytes, which are
compared as unsigned. -/
namespace Tulux.QApplication.LoadConfiguration
open SortedMap

abbrev Text := List UInt8

/-- The order of strings in a `std::map`. -/
def bytes (s : Text) : List ℕ := s.map UInt8.toNat

/-- Space, tab, `#` and `=`. -/
def delimiters : Text := [0x20, 0x09, 0x23, 0x3d]

/-- `string::find`, which returns `npos` where the character is not found. -/
def find (line : Text) (c : UInt8) : ℕ := (line.findIdx? (· == c)).getD (2 ^ 64 - 1)

/-- The positions are cut to 16 bits. -/
def delimiterPos (line delimiters : Text) : ℕ :=
  delimiters.foldl
    (fun pos c =>
      let delimiterPos := find line c % 2 ^ 16
      if pos > delimiterPos then delimiterPos else pos) 65535

def isSkipped (c : UInt8) : Bool := c == 0x20 || c == 0x3d || c == 0x09

/-- The key and the value of a line. `endPos` has 8 bits. -/
def splitLine (line : Text) : Text × Text :=
  let endPos := delimiterPos line delimiters % 2 ^ 8
  let key := line.take endPos
  let line := (line.drop endPos).dropWhile isSkipped
  let endPos := delimiterPos line delimiters % 2 ^ 8
  (key, line.take endPos)

def loadLine (configs : List (Text × Text)) (line : Text) : List (Text × Text) :=
  if line.head? ≠ some 0x23 ∧ line ≠ [] then
    insert bytes (splitLine line).1 (splitLine line).2 configs
  else configs

/-- The map that `saveConfiguration` gets. An empty line behind the last line feed, which `getline`
does not return, is not loaded. -/
def loadConfiguration (text : Text) : List (Text × Text) := (text.splitOn 0x0a).foldl loadLine []

/-! ### The grammar -/

def isDelimiter (c : UInt8) : Bool := delimiters.contains c

/-- The longest run without delimiters. -/
def token (s : Text) : Text := s.takeWhile fun c => !isDelimiter c

def keyOf (line : Text) : Text := token line

/-- What follows the key and the characters that are skipped. -/
def valuePart (line : Text) : Text :=
  (line.dropWhile fun c => !isDelimiter c).dropWhile isSkipped

def valueOf (line : Text) : Text := token (valuePart line)

/-- The lines that are neither empty nor comments. -/
def configLines (text : Text) : List Text :=
  (text.splitOn 0x0a).filter fun line => decide (line.head? ≠ some 0x23 ∧ line ≠ [])

/-- The value of a key in the first line that has it. -/
def grammarValue (text key : Text) : Option Text :=
  ((configLines text).find? fun line => keyOf line == key).map valueOf

/-- The map has the values of the grammar. -/
def LoadsGrammar (text : Text) : Prop :=
  ∀ key, lookup bytes (bytes key) (loadConfiguration text) = grammarValue text key

/-- A text without delimiters has no more than 255 characters; else the first delimiter is at 255 at
most, and no other one is found first at a position that is lower in its last 16 bits. -/
def TokenFits (s : Text) : Prop :=
  match s.findIdx? isDelimiter with
  | none => s.length ≤ 255
  | some p => p ≤ 255 ∧ ∀ c ∈ delimiters, ∀ q, s.findIdx? (· == c) = some q → p ≤ q % 2 ^ 16

def LineFits (line : Text) : Prop := TokenFits line ∧ TokenFits (valuePart line)

/-! ### Positions -/

theorem bytes_injective : Function.Injective bytes :=
  List.map_injective_iff.mpr fun _ _ => UInt8.toNat_inj.mp

theorem le_delimiterPos_iff (line chars : Text) (p : ℕ) :
    p ≤ delimiterPos line chars ↔ p ≤ 65535 ∧ ∀ c ∈ chars, p ≤ find line c % 2 ^ 16 := by
  unfold delimiterPos
  generalize 65535 = pos
  induction chars generalizing pos with
  | nil => simp
  | cons c chars ih =>
    rw [List.foldl_cons, ih, List.forall_mem_cons, ← and_assoc]
    refine and_congr_left fun _ => ?_
    dsimp only
    split_ifs with hpos <;> omega

theorem isDelimiter_iff {c : UInt8} : isDelimiter c = true ↔ c ∈ delimiters := List.contains_iff_mem

section Token
variable {s : Text}

theorem token_eq_take (s : Text) : token s = s.take (s.findIdx isDelimiter) := by
  rw [token, List.takeWhile_eq_take_findIdx_not]
  simp only [Bool.not_not]

/-- Where there is no delimiter the position is 65535, and 255 in 8 bits. -/
theorem delimiterPos_of_none (h : s.findIdx? isDelimiter = none) :
    delimiterPos s delimiters = 65535 := by
  have hall := List.findIdx?_eq_none_iff.mp h
  have hge : 65535 ≤ delimiterPos s delimiters := by
    rw [le_delimiterPos_iff]
    refine ⟨le_refl _, fun c hc => ?_⟩
    have hnone : s.findIdx? (· == c) = none := by
      rw [List.findIdx?_eq_none_iff]
      intro x hx
      have hx' := hall x hx
      rw [beq_eq_false_iff_ne]
      rintro rfl
      rw [isDelimiter_iff.mpr hc] at hx'
      cases hx'
    rw [find, hnone]
    decide
  have hle := ((le_delimiterPos_iff s delimiters _).mp (le_refl _)).1
  omega

theorem delimiterPos_le {p : ℕ} (h : s.findIdx? isDelimiter = some p) :
    delimiterPos s delimiters ≤ p % 2 ^ 16 := by
  obtain ⟨hlt, hp, hbefore⟩ := List.findIdx?_eq_some_iff_getElem.mp h
  have hfound : s.findIdx? (· == s[p]) = some p := by
    rw [List.findIdx?_eq_some_iff_getElem]
    refine ⟨hlt, beq_self_eq_true _, fun j hj heq => hbefore j hj ?_⟩
    rw [beq_iff_eq.mp heq]
    exact hp
  have hle := ((le_delimiterPos_iff s delimiters _).mp (le_refl _)).2 s[p] (isDelimiter_iff.mp hp)
  rwa [find, hfound] at hle

/-- The position is that of the first delimiter unless one found later has a lower one after the
cut. -/
theorem delimiterPos_eq_iff {p : ℕ} (h : s.findIdx? isDelimiter = some p) (hp : p ≤ 65535) :
    delimiterPos s delimiters = p ↔
      ∀ c ∈ delimiters, ∀ q, s.findIdx? (· == c) = some q → p ≤ q % 2 ^ 16 := by
  have hle := delimiterPos_le h
  have hiff : delimiterPos s delimiters = p ↔ p ≤ delimiterPos s delimiters := by omega
  rw [hiff, le_delimiterPos_iff, and_iff_right hp]
  refine forall₂_congr fun c _ => ?_
  rw [find]
  cases s.findIdx? (· == c) with
  | none => simpa using hp
  | some q => simp

/-- The piece that is cut off is never longer than the token, and is the token exactly where that
fits. -/
theorem take_prefix_token (s : Text) : s.take (delimiterPos s delimiters % 2 ^ 8) <+: token s := by
  rw [token_eq_take, List.take_isPrefix_take]
  cases h : s.findIdx? isDelimiter with
  | none => exact .inr (List.findIdx?_eq_none_iff_findIdx_eq.mp h).ge
  | some p =>
    obtain ⟨-, hindex⟩ := List.findIdx?_eq_some_iff_findIdx_eq.mp h
    have hle := delimiterPos_le h
    omega

theorem take_eq_token_iff (s : Text) :
    s.take (delimiterPos s delimiters % 2 ^ 8) = token s ↔ TokenFits s := by
  rw [token_eq_take, List.take_eq_take_iff, TokenFits]
  cases h : s.findIdx? isDelimiter with
  | none =>
    rw [List.findIdx?_eq_none_iff_findIdx_eq.mp h, delimiterPos_of_none h]
    dsimp only
    omega
  | some p =>
    obtain ⟨hlt, hindex⟩ := List.findIdx?_eq_some_iff_findIdx_eq.mp h
    have hle := delimiterPos_le h
    rw [hindex]
    constructor
    · intro heq
      have hp : p ≤ 255 := by omega
      exact ⟨hp, (delimiterPos_eq_iff h (by omega)).mp (by omega)⟩
    · rintro ⟨hp, hothers⟩
      rw [(delimiterPos_eq_iff h (by omega)).mpr hothers, Nat.mod_eq_of_lt (by omega)]

end Token

/-! ### Lines -/

/-- The key of a line is right exactly when it fits, and the value behind it then likewise. -/
theorem splitLine_fst_eq_iff (line : Text) :
    (splitLine line).1 = keyOf line ↔ TokenFits line := take_eq_token_iff line

theorem splitLine_snd_eq_iff {line : Text} (hkey : TokenFits line) :
    (splitLine line).2 = valueOf line ↔ TokenFits (valuePart line) := by
  have hdrop : line.drop (delimiterPos line delimiters % 2 ^ 8) =
      line.dropWhile fun c => !isDelimiter c := by
    have htake := (take_eq_token_iff line).mpr hkey
    have happend := List.take_append_drop (delimiterPos line delimiters % 2 ^ 8) line
    have htoken : token line ++ line.dropWhile (fun c => !isDelimiter c) = line :=
      List.takeWhile_append_dropWhile
    rw [htake] at happend
    exact List.append_cancel_left (happend.trans htoken.symm)
  have hsplit : (splitLine line).2 =
      (valuePart line).take (delimiterPos (valuePart line) delimiters % 2 ^ 8) := by
    rw [splitLine, hdrop]
    rfl
  rw [hsplit]
  exact take_eq_token_iff _

/-! ### The map -/

theorem lookup_foldl_loadLine (lines : List Text) (m : List (Text × Text)) (k : Text) :
    lookup bytes (bytes k) (lines.foldl loadLine m) = (lookup bytes (bytes k) m).or
      (((lines.filter fun line => decide (line.head? ≠ some 0x23 ∧ line ≠ [])).find? fun line =>
        (splitLine line).1 == k).map fun line => (splitLine line).2) := by
  induction lines generalizing m with
  | nil => simp
  | cons line lines ih =>
    rw [List.foldl_cons, ih, loadLine, List.filter_cons]
    by_cases hline : line.head? ≠ some 0x23 ∧ line ≠ []
    · rw [if_pos hline, if_pos (decide_eq_true hline), lookup_insert, List.find?_cons,
        Option.or_assoc]
      by_cases hkey : (splitLine line).1 = k
      · rw [if_pos (congrArg bytes hkey), beq_iff_eq.mpr hkey]
        rfl
      · rw [if_neg (bytes_injective.ne hkey), beq_eq_false_iff_ne.mpr hkey, Option.none_or]
    · rw [if_neg hline, if_neg (by simpa using hline)]

/-- The map has what the code finds in the first line with a key. -/
theorem lookup_loadConfiguration (text k : Text) :
    lookup bytes (bytes k) (loadConfiguration text) =
      ((configLines text).find? fun line => (splitLine line).1 == k).map fun line =>
        (splitLine line).2 := by
  rw [loadConfiguration, lookup_foldl_loadLine, lookup_nil, Option.none_or]
  rfl

/-- No value has more than 255 characters. -/
theorem length_value_le {text key v : Text}
    (h : lookup bytes (bytes key) (loadConfiguration text) = some v) : v.length ≤ 255 := by
  rw [lookup_loadConfiguration] at h
  obtain ⟨line, -, rfl⟩ := Option.map_eq_some_iff.mp h
  have hlt : delimiterPos ((line.drop (delimiterPos line delimiters % 2 ^ 8)).dropWhile isSkipped)
      delimiters % 2 ^ 8 < 2 ^ 8 := Nat.mod_lt _ (by decide)
  rw [splitLine, List.length_take]
  omega

theorem splitLine_of_fits {line : Text} (h : LineFits line) :
    (splitLine line).1 = keyOf line ∧ (splitLine line).2 = valueOf line :=
  ⟨(splitLine_fst_eq_iff line).mpr h.1, (splitLine_snd_eq_iff h.1).mpr h.2⟩

/-- Where all lines fit the map is the one of the grammar. -/
theorem loadsGrammar_of_fits {text : Text} (h : ∀ line ∈ configLines text, LineFits line) :
    LoadsGrammar text := by
  intro key
  rw [lookup_loadConfiguration, grammarValue]
  generalize configLines text = lines at h ⊢
  induction lines with
  | nil => rw [List.find?_nil, List.find?_nil, Option.map_none, Option.map_none]
  | cons line lines ih =>
    obtain ⟨hline, hlines⟩ := List.forall_mem_cons.mp h
    obtain ⟨hkey, hvalue⟩ := splitLine_of_fits hline
    rw [List.find?_cons, List.find?_cons, hkey]
    cases keyOf line == key with
    | true => exact congrArg some hvalue
    | false => exact ih hlines

/-- The keys of the grammar are among the pieces that were cut off. -/
theorem exists_splitLine_eq {text : Text} (h : LoadsGrammar text) {line : Text}
    (hline : line ∈ configLines text) :
    ∃ line' ∈ configLines text, (splitLine line').1 = keyOf line := by
  have hfound : (grammarValue text (keyOf line)).isSome := by
    rw [grammarValue, Option.isSome_map, List.find?_isSome]
    exact ⟨line, hline, beq_self_eq_true _⟩
  rw [← h, lookup_loadConfiguration, Option.isSome_map, List.find?_isSome] at hfound
  obtain ⟨line', hline', heq⟩ := hfound
  exact ⟨line', hline', beq_iff_eq.mp heq⟩

/-- Where no key comes twice, the keys of the map are right only if all fit: where one does not, it
is the piece of another one, which is longer and does not fit either. -/
theorem keys_fit {text : Text} (hnodup : ((configLines text).map keyOf).Nodup)
    (h : LoadsGrammar text) : ∀ line ∈ configLines text, (splitLine line).1 = keyOf line := by
  obtain ⟨m, hm⟩ : ∃ m, ∀ line ∈ configLines text, (keyOf line).length ≤ m :=
    ⟨_, fun line hline => List.le_sum_of_mem (List.mem_map_of_mem (f := fun s => (keyOf s).length)
      hline)⟩
  have hlong (n : ℕ) : ∀ line ∈ configLines text, m < (keyOf line).length + n →
      (splitLine line).1 = keyOf line := by
    induction n with
    | zero =>
      intro line hline hlt
      exact absurd (hm line hline) (by omega)
    | succ n ih =>
      intro line hline hlt
      obtain ⟨line', hline', heq⟩ := exists_splitLine_eq h hline
      have hinit : (splitLine line').1 <+: keyOf line' := take_prefix_token line'
      by_cases hsame : (splitLine line').1 = keyOf line'
      · obtain rfl := List.inj_on_of_nodup_map hnodup hline' hline (hsame.symm.trans heq)
        exact hsame
      · have hlength : (splitLine line').1.length ≠ (keyOf line').length := fun hlength =>
          hsame (hinit.eq_of_length hlength)
        have hle := hinit.length_le
        rw [heq] at hle hlength
        exact absurd (ih line' hline' (by omega)) hsame
  intro line hline
  exact hlong (m + 1) line hline (by omega)

/-- The first line with a key is the only one. -/
theorem find?_eq_some_of_nodup {lines : List Text} {f : Text → Text} (hnodup : (lines.map f).Nodup)
    {line : Text} (hline : line ∈ lines) : lines.find? (fun x => f x == f line) = some line := by
  induction lines with
  | nil => cases hline
  | cons x lines ih =>
    rw [List.map_cons, List.nodup_cons] at hnodup
    rw [List.find?_cons]
    rcases List.mem_cons.mp hline with rfl | hmem
    · rw [beq_self_eq_true]
    · have hne : f x ≠ f line := fun heq =>
        hnodup.1 (heq ▸ List.mem_map_of_mem hmem)
      rw [beq_eq_false_iff_ne.mpr hne, ih hnodup.2 hmem]

/-- The map of a text is the one of the grammar when all its lines fit, and if no key comes twice
only then. -/
theorem loadsGrammar_iff (text : Text) :
    ((∀ line ∈ configLines text, LineFits line) → LoadsGrammar text) ∧
      (((configLines text).map keyOf).Nodup →
        (LoadsGrammar text ↔ ∀ line ∈ configLines text, LineFits line)) := by
  refine ⟨loadsGrammar_of_fits, fun hnodup => ⟨fun h line hline => ?_, loadsGrammar_of_fits⟩⟩
  have hkeys := keys_fit hnodup h
  have hkey := (splitLine_fst_eq_iff line).mp (hkeys line hline)
  have hsplit : ((configLines text).map fun line => (splitLine line).1).Nodup := by
    rwa [List.map_congr_left hkeys]
  have hvalue := h (keyOf line)
  rw [lookup_loadConfiguration, grammarValue, find?_eq_some_of_nodup hnodup hline,
    ← hkeys line hline, find?_eq_some_of_nodup hsplit hline, Option.map_some, Option.map_some,
    Option.some_inj] at hvalue
  exact ⟨hkey, (splitLine_snd_eq_iff hkey).mp hvalue⟩

/-- A key of 256 characters. -/
theorem not_loadsGrammar : ¬ LoadsGrammar (List.replicate 256 0x61 ++ [0x3d, 0x31]) := by
  intro h
  have hvalue := h (List.replicate 256 0x61)
  exact absurd hvalue (by decide +kernel)

end Tulux.QApplication.LoadConfiguration
