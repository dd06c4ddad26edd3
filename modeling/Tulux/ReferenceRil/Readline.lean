import Mathlib.Data.List.TakeWhile
import Tulux.Lib.ByteCode
import Tulux.Lib.Framing

/-! The lines that `readline` of `atchannel.c` makes of what arrives on the AT channel. -/
namespace Tulux.ReferenceRil
open Framing ByteCode

abbrev maxAtResponse : ℕ := 8 * 1024

def isNewline (c : UInt8) : Bool := c = 13 ∨ c = 10

/-- `s_ATBuffer` and `s_ATBufferCur`. Behind what was read last there may be bytes of earlier reads. -/
structure AtBuffer where
  mem : ℕ → UInt8
  cur : ℕ

/-- The string at a position of the buffer. -/
def cstr (mem : ℕ → UInt8) (a : ℕ) : List UInt8 :=
  (load mem a (maxAtResponse + 1 - a)).takeWhile fun c => c ≠ 0

def AtBuffer.text (b : AtBuffer) : List UInt8 := cstr b.mem b.cur

def AtBuffer.skipNewlines (b : AtBuffer) : AtBuffer :=
  { b with cur := b.cur + (b.text.takeWhile isNewline).length }

/-- The prompt for a short message has no line end. -/
def findNextEOL (text : List UInt8) : Option ℕ :=
  if text = [62, 32] then some 2 else text.findIdx? isNewline

/-- The line up to its end, and the buffer behind it. -/
def AtBuffer.takeLine (b : AtBuffer) (eol : ℕ) : List UInt8 × AtBuffer :=
  (b.text.take eol, ⟨store b.mem (b.cur + eol) [0], b.cur + eol + 1⟩)

/-- The reads of a call; each turn reads a byte, and `turns` are as many as bytes have arrived. -/
def readLoop (b : AtBuffer) (pRead : ℕ) (arrived : List (List UInt8)) :
    ℕ → Option (List UInt8) × AtBuffer × List (List UInt8)
  | 0 => (none, b, arrived)
  | turns + 1 =>
    -- a line that fills the buffer is dropped
    let (b, pRead) :=
      if maxAtResponse - pRead = 0 then (⟨store b.mem 0 [0], 0⟩, 0) else (b, pRead)
    let (bytes, arrived) := readSome (maxAtResponse - pRead) arrived
    if bytes = [] then (none, b, arrived)
    else
      let b := { b with mem := store b.mem pRead (bytes ++ [0]) }.skipNewlines
      match findNextEOL b.text with
      | some eol =>
        let (line, b) := b.takeLine eol
        (some line, b, arrived)
      | none => readLoop b (pRead + bytes.length) arrived turns

def readline (b : AtBuffer) (arrived : List (List UInt8)) :
    Option (List UInt8) × AtBuffer × List (List UInt8) :=
  let turns := arrived.flatten.length + 1
  if b.text = [] then readLoop ⟨store b.mem 0 [0], 0⟩ 0 arrived turns
  else
    let b := b.skipNewlines
    match findNextEOL b.text with
    | some eol =>
      let (line, b) := b.takeLine eol
      (some line, b, arrived)
    | none =>
      -- a part of a line is moved to the front
      let len := b.text.length
      readLoop ⟨store b.mem 0 (b.text ++ [0]), 0⟩ len arrived turns

/-- The lines of the reader thread, up to the first call that returns no line. -/
def readLines (b : AtBuffer) (arrived : List (List UInt8)) : ℕ → List (List UInt8)
  | 0 => []
  | calls + 1 =>
    match readline b arrived with
    | (none, _, _) => []
    | (some line, b, arrived) => line :: readLines b arrived calls

/-- The buffer before the first read. -/
def AtBuffer.init : AtBuffer := ⟨fun _ => 0, 0⟩

/-! ### The lines of a stream -/

/-- At the front of a stream there is a newline, which is passed over, or a line. -/
def nextLine : List UInt8 → Option (ℕ × Option (List UInt8))
  | [] => none
  | c :: xs =>
    if isNewline c then some (1, none)
    else ((c :: xs).findIdx? isNewline).map fun eol => (eol + 1, some ((c :: xs).take eol))

section Lines
variable {c : UInt8} {xs ys : List UInt8} {eol n : ℕ} {o : Option (List UInt8)}

theorem findIdx?_lt (h : xs.findIdx? isNewline = some eol) : eol < xs.length :=
  (List.findIdx?_eq_some_iff_getElem.mp h).1

theorem nextLine_line (hxs : ¬ isNewline c) (h : (c :: xs).findIdx? isNewline = some eol) :
    nextLine (c :: xs) = some (eol + 1, some ((c :: xs).take eol)) := by
  rw [nextLine, if_neg hxs, h, Option.map_some]

theorem nextLine_cases (h : nextLine xs = some (n, o)) : (∃ c ys, xs = c :: ys ∧ isNewline c ∧ n = 1 ∧
    o = none) ∨ ∃ c ys eol, xs = c :: ys ∧ ¬ isNewline c ∧ (c :: ys).findIdx? isNewline = some eol ∧
      n = eol + 1 ∧ o = some (xs.take eol) := by
  cases xs with
  | nil => exact absurd h (Option.some_ne_none _).symm
  | cons c ys =>
    rw [nextLine] at h
    split_ifs at h with hc
    · obtain ⟨rfl, rfl⟩ := Prod.mk.inj (Option.some.inj h)
      exact Or.inl ⟨c, ys, rfl, hc, rfl, rfl⟩
    · obtain ⟨eol, heol, hresult⟩ := Option.map_eq_some_iff.mp h
      obtain ⟨rfl, rfl⟩ := Prod.mk.inj hresult
      exact Or.inr ⟨c, ys, eol, rfl, hc, heol, rfl, rfl⟩

def lineScanner : Scanner UInt8 (List UInt8) where
  next := nextLine
  pos := by
    intro xs n o h
    rcases nextLine_cases h with ⟨c, ys, -, -, rfl, -⟩ | ⟨c, ys, eol, -, -, -, rfl, -⟩
    · exact Nat.one_pos
    · exact Nat.succ_pos eol
  le := by
    intro xs n o h
    rcases nextLine_cases h with ⟨c, ys, rfl, -, rfl, -⟩ | ⟨c, ys, eol, rfl, -, heol, rfl, -⟩
    · exact Nat.succ_pos ys.length
    · exact findIdx?_lt heol
  stable := by
    rintro xs ⟨n, o⟩ h ys
    rcases nextLine_cases h with ⟨c, zs, rfl, hc, rfl, rfl⟩ | ⟨c, zs, eol, rfl, hc, heol, rfl, rfl⟩
    · exact if_pos hc
    · have hlt := findIdx?_lt heol
      have heol' : (c :: (zs ++ ys)).findIdx? isNewline = some eol := by
        rw [← List.cons_append, List.findIdx?_append, heol]
        rfl
      have htake : (c :: (zs ++ ys)).take eol = (c :: zs).take eol := by
        rw [← List.cons_append, List.take_append_of_le_length hlt.le]
      rw [List.cons_append, nextLine_line hc heol', htake]

/-- Newlines are passed over. -/
theorem passes_newlines (h : ∀ c ∈ xs, isNewline c) (ys : List UInt8) :
    lineScanner.Passes (xs ++ ys) [] ys := by
  induction xs with
  | nil => exact .refl ys
  | cons c xs ih =>
    obtain ⟨hc, hxs⟩ := List.forall_mem_cons.mp h
    have hnext : lineScanner.next (c :: (xs ++ ys)) = some (1, none) := if_pos hc
    exact .step hnext (ih hxs)

theorem nextLine_of_no_newline (h : ∀ c ∈ xs, ¬ isNewline c) : nextLine xs = none := by
  cases xs with
  | nil => rfl
  | cons c xs =>
    have hnone : (c :: xs).findIdx? isNewline = none :=
      List.findIdx?_eq_none_iff.mpr fun c hc => by simpa using h c hc
    rw [nextLine, if_neg (h c List.mem_cons_self), hnone, Option.map_none]

end Lines

/-- How much of the buffer the newlines at the front and the line behind them take. -/
def blockLength (xs : List UInt8) : ℕ :=
  (xs.takeWhile isNewline).length +
    ((xs.dropWhile isNewline).takeWhile fun c => !isNewline c).length

/-- What the channel may carry: no zero, no line that starts like a prompt, and no line that with the
newlines before it fills the buffer. -/
structure Fitting (stream : List UInt8) : Prop where
  noZero : 0 ∉ stream
  noPrompt : ∀ s ∈ lineScanner.visits stream, ¬ [62, 32] <+: s
  short : ∀ s ∈ lineScanner.visits stream, blockLength s < maxAtResponse

/-! ### Strings in the buffer -/

section Buffer
variable {mem : ℕ → UInt8} {a k n : ℕ} {text bytes : List UInt8}

/-- At `a` the buffer holds a string and the zero behind it. -/
structure Holds (mem : ℕ → UInt8) (a : ℕ) (text : List UInt8) : Prop where
  load : load mem a (text ++ [0]).length = text ++ [0]
  noZero : 0 ∉ text
  fits : a + text.length ≤ maxAtResponse

theorem Holds.cstr_eq (h : Holds mem a text) : cstr mem a = text := by
  have hfits := h.fits
  obtain ⟨n, hn⟩ : ∃ n, maxAtResponse + 1 - a = (text ++ [0]).length + n :=
    ⟨maxAtResponse - a - text.length, by simp; omega⟩
  have hall : ∀ c ∈ text, (decide (c ≠ 0)) = true := by
    intro c hc
    exact decide_eq_true fun hzero => h.noZero (hzero ▸ hc)
  rw [cstr, hn, load_add, h.load, List.append_assoc, List.takeWhile_append_of_pos hall]
  simp

theorem Holds.drop (h : Holds mem a text) (hk : k ≤ text.length) :
    Holds mem (a + k) (text.drop k) := by
  have hfits := h.fits
  have hload := h.load
  have hsplit : text ++ [0] = text.take k ++ (text.drop k ++ [0]) := by
    rw [← List.append_assoc, List.take_append_drop]
  rw [hsplit, load_append, List.length_take, Nat.min_eq_left hk] at hload
  refine ⟨hload.2, fun hmem => h.noZero (List.mem_of_mem_drop hmem), ?_⟩
  rw [List.length_drop]
  omega

theorem holds_store (hzero : 0 ∉ text) (hfits : a + text.length ≤ maxAtResponse) :
    Holds (store mem a (text ++ [0])) a text :=
  ⟨load_store _ _ _, hzero, hfits⟩

/-- More bytes are read behind a string. -/
theorem Holds.append (h : Holds mem a text) (hzero : 0 ∉ bytes)
    (hfits : a + text.length + bytes.length ≤ maxAtResponse) :
    Holds (store mem (a + text.length) (bytes ++ [0])) a (text ++ bytes) := by
  have hload := (load_append.mp h.load).1
  refine ⟨?_, ?_, ?_⟩
  · rw [List.append_assoc, load_append, load_store_before le_rfl]
    exact ⟨hload, load_store _ _ _⟩
  · rw [List.mem_append, not_or]
    exact ⟨h.noZero, hzero⟩
  · rw [List.length_append]
    omega

/-- The end of a line is overwritten. -/
theorem Holds.takeLine (h : Holds mem a text) (hk : k < text.length) :
    Holds (store mem (a + k) [0]) (a + k + 1) (text.drop (k + 1)) := by
  have hrest : Holds mem (a + k + 1) (text.drop (k + 1)) := h.drop hk
  refine ⟨?_, hrest.noZero, hrest.fits⟩
  rw [load_store_behind (by simp)]
  exact hrest.load

end Buffer

/-! ### What the reader has done -/

section Reader
variable {stream text : List UInt8} {lines : List (List UInt8)} {b : AtBuffer}
  {arrived : List (List UInt8)}

/-- The stream is the lines that were returned, then the string in the buffer, then what was not
read. -/
structure Waiting (stream : List UInt8) (lines : List (List UInt8)) (b : AtBuffer)
    (arrived : List (List UInt8)) (text : List UInt8) : Prop where
  holds : Holds b.mem b.cur text
  passes : lineScanner.Passes stream lines (text ++ arrived.flatten)
  pieces : ∀ piece ∈ arrived, piece ≠ []

theorem Waiting.text_eq (h : Waiting stream lines b arrived text) :
    b.text = text := h.holds.cstr_eq

theorem drop_length_takeWhile (text : List UInt8) :
    text.drop (text.takeWhile isNewline).length = text.dropWhile isNewline := by
  have hdrop : (text.takeWhile isNewline ++ text.dropWhile isNewline).drop
      (text.takeWhile isNewline).length = text.dropWhile isNewline := List.drop_left
  rwa [List.takeWhile_append_dropWhile] at hdrop

theorem not_newline_of_head {c : UInt8} (h : c ∈ (text.dropWhile isNewline).head?) :
    ¬ isNewline c := by
  have hhead := List.head?_dropWhile_not isNewline text
  rw [Option.mem_def.mp h] at hhead
  simpa using hhead

theorem Waiting.skipNewlines (h : Waiting stream lines b arrived text) :
    Waiting stream lines b.skipNewlines arrived (text.dropWhile isNewline) ∧
      b.skipNewlines.cur = b.cur + (text.takeWhile isNewline).length := by
  have hsplit : text.takeWhile isNewline ++ text.dropWhile isNewline = text :=
    List.takeWhile_append_dropWhile
  have hcur : b.skipNewlines.cur = b.cur + (text.takeWhile isNewline).length := by
    rw [AtBuffer.skipNewlines, h.text_eq]
  refine ⟨⟨?_, ?_, h.pieces⟩, hcur⟩
  · rw [hcur, ← drop_length_takeWhile]
    exact h.holds.drop (List.takeWhile_prefix _).length_le
  · have hpasses := h.passes
    rw [← hsplit, List.append_assoc] at hpasses
    have hnewlines : ∀ c ∈ text.takeWhile isNewline, isNewline c := by
      intro c hc
      exact List.mem_takeWhile_imp hc
    simpa using hpasses.trans (passes_newlines hnewlines _)

/-- Where the string does not start with a newline, its first line is the next one of the stream. -/
theorem Waiting.takeLine {eol : ℕ} (h : Waiting stream lines b arrived text)
    (hstart : ∀ c ∈ text.head?, ¬ isNewline c) (heol : text.findIdx? isNewline = some eol) :
    (b.takeLine eol).1 = text.take eol ∧
      Waiting stream (lines ++ [text.take eol]) (b.takeLine eol).2 arrived (text.drop (eol + 1)) := by
  obtain ⟨c, xs, rfl⟩ : ∃ c xs, text = c :: xs := by
    cases text with
    | nil => simp at heol
    | cons c xs => exact ⟨c, xs, rfl⟩
  refine ⟨by rw [AtBuffer.takeLine, h.text_eq], h.holds.takeLine (findIdx?_lt heol), ?_, h.pieces⟩
  exact h.passes.emit (nextLine_line (hstart c rfl) heol)

theorem mem_visits_of_passes {xs ys : List UInt8} (h : lineScanner.Passes xs lines ys) :
    ys ∈ lineScanner.visits xs := h.mem_visits (Scanner.self_mem_visits ys)

theorem Fitting.findNextEOL (hfit : Fitting stream) (h : Waiting stream lines b arrived text) :
    findNextEOL text = text.findIdx? isNewline := by
  refine if_neg fun hprompt => hfit.noPrompt _ (mem_visits_of_passes h.passes) ?_
  rw [hprompt]
  exact List.prefix_append _ _

theorem Fitting.noZero_arrived (hfit : Fitting stream) (h : Waiting stream lines b arrived text) :
    0 ∉ arrived.flatten := by
  intro hzero
  have hsuffix := Scanner.visits_suffix (mem_visits_of_passes h.passes)
  exact hfit.noZero (hsuffix.subset (List.mem_append_right _ hzero))

/-! ### A call -/

/-- A byte that was not read has to be read and returned. -/
def toDo (b : AtBuffer) (arrived : List (List UInt8)) : ℕ :=
  2 * arrived.flatten.length + b.text.length

/-- A call returns the next line of the stream, or there is none. -/
def Served (stream : List UInt8) (lines : List (List UInt8)) (bound : ℕ) :
    Option (List UInt8) × AtBuffer × List (List UInt8) → Prop
  | (some line, b, arrived) =>
    (∃ text, Waiting stream (lines ++ [line]) b arrived text) ∧ toDo b arrived < bound
  | (none, _, _) => (lineScanner.scan stream).1 = lines

/-- A line that is in the buffer is returned. -/
theorem Waiting.served {eol bound : ℕ} (h : Waiting stream lines b arrived text)
    (hstart : ∀ c ∈ text.head?, ¬ isNewline c) (heol : text.findIdx? isNewline = some eol)
    (hbound : 2 * arrived.flatten.length + text.length ≤ bound) :
    Served stream lines bound (some (b.takeLine eol).1, (b.takeLine eol).2, arrived) := by
  obtain ⟨hline, hrest⟩ := h.takeLine hstart heol
  have hlt := findIdx?_lt heol
  rw [hline]
  refine ⟨⟨_, hrest⟩, ?_⟩
  rw [toDo, hrest.text_eq, List.length_drop]
  omega

/-- Newlines and a part of a line are in the buffer up to where the next byte is read to. -/
structure Unfinished (stream : List UInt8) (lines : List (List UInt8)) (b : AtBuffer) (pRead : ℕ)
    (arrived : List (List UInt8)) (text : List UInt8) : Prop where
  waiting : Waiting stream lines b arrived text
  atEnd : b.cur + text.length = pRead
  noLine : ∀ c ∈ text, ¬ isNewline c
  visited : ∃ newlines, (∀ c ∈ newlines, isNewline c) ∧ newlines.length + text.length = pRead ∧
    newlines ++ text ++ arrived.flatten ∈ lineScanner.visits stream

theorem blockLength_le {newlines : List UInt8} (hnewlines : ∀ c ∈ newlines, isNewline c)
    (htext : ∀ c ∈ text, ¬ isNewline c) (rest : List UInt8) :
    newlines.length + text.length ≤ blockLength (newlines ++ text ++ rest) := by
  unfold blockLength
  rw [List.append_assoc, List.takeWhile_append_of_pos hnewlines,
    List.dropWhile_append_of_pos hnewlines]
  cases text with
  | nil => simp only [List.length_append, List.length_nil]; omega
  | cons c xs =>
    have hc : isNewline c = false := by simpa using htext c List.mem_cons_self
    have hall : ∀ d ∈ c :: xs, (!isNewline d) = true := fun d hd => by simpa using htext d hd
    have hdrop : (c :: xs ++ rest).dropWhile isNewline = c :: xs ++ rest := by
      rw [List.cons_append, List.dropWhile_cons_of_neg (by simp [hc])]
    rw [hdrop, List.takeWhile_append_of_pos hall]
    simp only [List.length_append]
    omega

theorem Unfinished.room {pRead : ℕ} (hfit : Fitting stream)
    (h : Unfinished stream lines b pRead arrived text) : pRead < maxAtResponse := by
  obtain ⟨newlines, hnewlines, hpRead, hvisited⟩ := h.visited
  have hblock := blockLength_le hnewlines h.noLine arrived.flatten
  have hshort := hfit.short _ hvisited
  omega

/-- Bytes are read behind what is in the buffer. -/
theorem Waiting.read {n : ℕ} (hfit : Fitting stream) (h : Waiting stream lines b arrived text)
    (hfits : b.cur + text.length + n ≤ maxAtResponse) :
    Waiting stream lines
      { b with mem := store b.mem (b.cur + text.length) ((readSome n arrived).1 ++ [0]) }
      (readSome n arrived).2 (text ++ (readSome n arrived).1) := by
  have hflatten := readSome_flatten n arrived
  have hzero := hfit.noZero_arrived h
  have hlength := length_readSome n arrived
  refine ⟨h.holds.append (fun hmem => hzero ?_) (by omega), ?_, readSome_nonempty h.pieces⟩
  · rw [← hflatten]
    exact List.mem_append_left _ hmem
  · have hpasses := h.passes
    rw [← hflatten, ← List.append_assoc] at hpasses
    exact hpasses

theorem readLoop_served (hfit : Fitting stream) {pRead turns bound : ℕ}
    (h : Unfinished stream lines b pRead arrived text) (hturns : arrived.flatten.length < turns)
    (hbound : 2 * arrived.flatten.length + text.length ≤ bound) :
    Served stream lines bound (readLoop b pRead arrived turns) := by
  induction turns generalizing b pRead arrived text with
  | zero => exact absurd hturns (Nat.not_lt_zero _)
  | succ turns ih =>
    have hroom := h.room hfit
    obtain ⟨newlines, hnewlines, hpRead, hvisited⟩ := h.visited
    have hatEnd := h.atEnd
    have hread := h.waiting.read (n := maxAtResponse - pRead) hfit (by omega)
    rw [hatEnd] at hread
    unfold readLoop
    rw [if_neg (by omega)]
    dsimp only
    have hflatten := readSome_flatten (maxAtResponse - pRead) arrived
    have hlength := congrArg List.length hflatten
    rw [List.length_append] at hlength
    set out := readSome (maxAtResponse - pRead) arrived with hout
    by_cases hempty : out.1 = []
    · -- nothing has arrived, and what is in the buffer is no line
      rw [if_pos hempty]
      have hnone : arrived = [] := (readSome_eq_nil_iff h.waiting.pieces (by omega)).mp hempty
      have hpasses := h.waiting.passes
      rw [hnone, List.flatten_nil, List.append_nil] at hpasses
      have hscan := hpasses.scan_of_wait (nextLine_of_no_newline h.noLine)
      exact congrArg Prod.fst hscan
    · rw [if_neg hempty]
      have hpos := List.length_pos_iff.mpr hempty
      obtain ⟨hskipped, hcur⟩ := hread.skipNewlines
      have hstart (c : UInt8) (hc : c ∈ ((text ++ out.1).dropWhile isNewline).head?) :
          ¬ isNewline c := not_newline_of_head hc
      have hsplit : (text ++ out.1).takeWhile isNewline ++ (text ++ out.1).dropWhile isNewline =
          text ++ out.1 := List.takeWhile_append_dropWhile
      have hsplitLength := congrArg List.length hsplit
      simp only [List.length_append] at hsplitLength
      rw [hskipped.text_eq, hfit.findNextEOL hskipped]
      cases heol : ((text ++ out.1).dropWhile isNewline).findIdx? isNewline with
      | some eol => exact hskipped.served hstart heol (by omega)
      | none =>
        refine ih ⟨hskipped, ?_, ?_, (text ++ out.1).takeWhile isNewline |> (newlines ++ ·), ?_, ?_, ?_⟩
          (by omega) (by omega)
        · rw [hcur]
          dsimp only
          omega
        · intro c hc
          simpa using List.findIdx?_eq_none_iff.mp heol c hc
        · intro c hc
          rcases List.mem_append.mp hc with hc | hc
          · exact hnewlines c hc
          · exact List.mem_takeWhile_imp hc
        · rw [List.length_append]
          omega
        · rw [List.append_assoc newlines, hsplit, ← List.append_assoc newlines, List.append_assoc,
            hflatten]
          exact hvisited

theorem readline_served (hfit : Fitting stream) (h : Waiting stream lines b arrived text) :
    Served stream lines (toDo b arrived) (readline b arrived) := by
  have htoDo : toDo b arrived = 2 * arrived.flatten.length + text.length := by
    rw [toDo, h.text_eq]
  have hvisited := mem_visits_of_passes h.passes
  unfold readline
  dsimp only
  rw [h.text_eq]
  split_ifs with hnil
  · -- all of the buffer was returned
    subst hnil
    have hholds : Holds (store b.mem 0 [0]) 0 [] :=
      holds_store List.not_mem_nil (Nat.zero_le _)
    have hnone : ∀ c ∈ ([] : List UInt8), isNewline c := fun c hc => absurd hc List.not_mem_nil
    have hunfinished : Unfinished stream lines ⟨store b.mem 0 [0], 0⟩ 0 arrived [] :=
      ⟨⟨hholds, h.passes, h.pieces⟩, rfl, fun c hc => absurd hc List.not_mem_nil, [], hnone, rfl,
        hvisited⟩
    exact readLoop_served hfit hunfinished (Nat.lt_succ_self _) (by rw [htoDo])
  · obtain ⟨hskipped, -⟩ := h.skipNewlines
    have hstart (c : UInt8) (hc : c ∈ (text.dropWhile isNewline).head?) : ¬ isNewline c :=
      not_newline_of_head hc
    have hshorter := (List.dropWhile_suffix (l := text) isNewline).length_le
    have hskippedVisited := mem_visits_of_passes hskipped.passes
    rw [hskipped.text_eq, hfit.findNextEOL hskipped]
    cases heol : (text.dropWhile isNewline).findIdx? isNewline with
    | some eol => exact hskipped.served hstart heol (by omega)
    | none =>
      -- the part of a line is moved to the front
      have hfits := hskipped.holds.fits
      have hholds : Holds (store b.skipNewlines.mem 0 (text.dropWhile isNewline ++ [0])) 0
          (text.dropWhile isNewline) := holds_store hskipped.holds.noZero (by omega)
      refine readLoop_served hfit ⟨⟨hholds, hskipped.passes, h.pieces⟩, Nat.zero_add _, ?_, [],
        fun c hc => absurd hc List.not_mem_nil, Nat.zero_add _, hskippedVisited⟩
        (Nat.lt_succ_self _) (by omega)
      intro c hc
      simpa using List.findIdx?_eq_none_iff.mp heol c hc

theorem readLines_served (hfit : Fitting stream) {calls : ℕ}
    (h : Waiting stream lines b arrived text) (hcalls : toDo b arrived < calls) :
    lines ++ readLines b arrived calls = (lineScanner.scan stream).1 := by
  induction calls generalizing b arrived text lines with
  | zero => exact absurd hcalls (Nat.not_lt_zero _)
  | succ calls ih =>
    have hserved := readline_served hfit h
    unfold readLines
    match readline b arrived, hserved with
    | (none, _, _), hserved => rw [List.append_nil, hserved]
    | (some line, b', arrived'), ⟨⟨_, hwaiting⟩, hless⟩ =>
      rw [← ih hwaiting (by omega), List.append_assoc, List.singleton_append]

end Reader

theorem waiting_init (arrived : List (List UInt8)) (hpieces : ∀ piece ∈ arrived, piece ≠ []) :
    Waiting arrived.flatten [] .init arrived [] :=
  ⟨⟨rfl, List.not_mem_nil, Nat.zero_le _⟩, .refl _, hpieces⟩

/-! ### A modem that ends its lines -/

/-- Each line between two line ends. -/
def modemSends (lines : List (List UInt8)) : List UInt8 :=
  lines.flatMap fun line => [13, 10] ++ line ++ [13, 10]

/-- A line of a response. -/
structure ResponseLine (line : List UInt8) : Prop where
  nonempty : line ≠ []
  noNewline : ∀ c ∈ line, ¬ isNewline c
  noZero : 0 ∉ line
  noPrompt : ¬ [62, 32] <+: line
  short : line.length + 3 < maxAtResponse

section ModemSends
variable {line xs ys s : List UInt8} {lines : List (List UInt8)}

theorem visits_cons_newline {c : UInt8} (hc : isNewline c) (xs : List UInt8) :
    lineScanner.visits (c :: xs) = (c :: xs) :: lineScanner.visits xs :=
  Scanner.visits_step (S := lineScanner) (n := 1) (o := none) (if_pos hc)

theorem ResponseLine.next (h : ResponseLine line) (ys : List UInt8) :
    lineScanner.next (line ++ 13 :: ys) = some (line.length + 1, some line) := by
  have hnonempty := h.nonempty
  have hnoNewline := h.noNewline
  obtain ⟨c, xs, rfl⟩ := List.exists_cons_of_ne_nil hnonempty
  have hnone : (c :: xs).findIdx? isNewline = none :=
    List.findIdx?_eq_none_iff.mpr fun d hd => by simpa using hnoNewline d hd
  have hend : (13 :: ys).findIdx? isNewline = some 0 := by
    simp [List.findIdx?_cons, isNewline]
  have heol : (c :: (xs ++ 13 :: ys)).findIdx? isNewline = some (c :: xs).length := by
    rw [← List.cons_append, List.findIdx?_append, hnone, hend]
    simp
  have htake : (c :: (xs ++ 13 :: ys)).take (c :: xs).length = c :: xs := by
    rw [← List.cons_append, List.take_left]
  have hnext := nextLine_line (hnoNewline c List.mem_cons_self) heol
  rw [htake] at hnext
  exact hnext

theorem visits_line (h : ResponseLine line) (ys : List UInt8) :
    lineScanner.visits (line ++ 13 :: ys) = (line ++ 13 :: ys) :: lineScanner.visits ys := by
  have hdrop : (line ++ 13 :: ys).drop (line.length + 1) = ys := by
    rw [← List.drop_drop, List.drop_left]
    rfl
  rw [Scanner.visits_step (h.next ys), hdrop]

theorem blockLength_cons_newline {c : UInt8} (hc : isNewline c) (xs : List UInt8) :
    blockLength (c :: xs) = blockLength xs + 1 := by
  unfold blockLength
  rw [List.takeWhile_cons_of_pos hc, List.dropWhile_cons_of_pos hc, List.length_cons]
  omega

theorem ResponseLine.blockLength_eq (h : ResponseLine line) (ys : List UInt8) :
    blockLength (line ++ 13 :: ys) = line.length := by
  have hnonempty := h.nonempty
  have hnoNewline := h.noNewline
  obtain ⟨c, xs, rfl⟩ := List.exists_cons_of_ne_nil hnonempty
  have hc : ¬ isNewline c := hnoNewline c List.mem_cons_self
  have hall : ∀ d ∈ c :: xs, (!isNewline d) = true := fun d hd => by simpa using hnoNewline d hd
  have hdrop : (c :: xs ++ 13 :: ys).dropWhile isNewline = c :: xs ++ 13 :: ys := by
    rw [List.cons_append, List.dropWhile_cons_of_neg hc]
  have htake : (c :: xs ++ 13 :: ys).takeWhile isNewline = [] := by
    rw [List.cons_append, List.takeWhile_cons_of_neg hc]
  unfold blockLength
  rw [hdrop, htake, List.takeWhile_append_of_pos hall]
  simp [isNewline]

theorem not_prompt_of_newline {c : UInt8} (hc : isNewline c) (xs : List UInt8) :
    ¬ [62, 32] <+: c :: xs := by
  intro hprompt
  have hhead := (List.cons_prefix_cons.mp hprompt).1
  subst hhead
  exact absurd hc (by decide)

/-- What the reader needs at a place of the stream. -/
def Readable (s : List UInt8) : Prop := ¬ [62, 32] <+: s ∧ blockLength s < maxAtResponse

theorem readable_cons_newline {c : UInt8} (hc : isNewline c) (h : blockLength xs + 1 < maxAtResponse) :
    Readable (c :: xs) :=
  ⟨not_prompt_of_newline hc xs, by rwa [blockLength_cons_newline hc]⟩

theorem ResponseLine.not_prompt (h : ResponseLine line) (ys : List UInt8) :
    ¬ [62, 32] <+: line ++ 13 :: ys := by
  intro hprompt
  have hnonempty := h.nonempty
  have hno := h.noPrompt
  obtain ⟨c, xs, rfl⟩ := List.exists_cons_of_ne_nil hnonempty
  cases xs with
  | nil => simp at hprompt
  | cons d xs =>
    refine hno ?_
    rw [List.cons_append, List.cons_append, List.cons_prefix_cons, List.cons_prefix_cons] at hprompt
    rw [List.cons_prefix_cons, List.cons_prefix_cons]
    exact ⟨hprompt.1, hprompt.2.1, List.nil_prefix⟩

theorem modemSends_cons (line : List UInt8) (lines : List (List UInt8)) :
    modemSends (line :: lines) = 13 :: 10 :: (line ++ 13 :: 10 :: modemSends lines) := by
  simp [modemSends]

/-- At most a line end stands before a line. -/
theorem blockLength_modemSends (h : ∀ line ∈ lines, ResponseLine line) :
    blockLength (modemSends lines) + 1 < maxAtResponse := by
  cases lines with
  | nil => decide
  | cons line lines =>
    obtain ⟨hline, -⟩ := List.forall_mem_cons.mp h
    have hshort := hline.short
    rw [modemSends_cons, blockLength_cons_newline rfl, blockLength_cons_newline rfl,
      hline.blockLength_eq]
    omega

theorem readable_modemSends (h : ∀ line ∈ lines, ResponseLine line)
    (hs : s ∈ lineScanner.visits (modemSends lines)) : Readable s := by
  induction lines with
  | nil =>
    have hvisits : lineScanner.visits [] = [[]] := Scanner.visits_wait rfl
    obtain rfl : s = [] := by simpa [modemSends, hvisits] using hs
    exact ⟨by decide, by decide⟩
  | cons line lines ih =>
    obtain ⟨hline, hlines⟩ := List.forall_mem_cons.mp h
    have hblock := blockLength_modemSends hlines
    have hshort := hline.short
    have hlength := hline.blockLength_eq (10 :: modemSends lines)
    rw [modemSends_cons, visits_cons_newline rfl, visits_cons_newline rfl, visits_line hline,
      visits_cons_newline rfl] at hs
    simp only [List.mem_cons] at hs
    rcases hs with rfl | rfl | rfl | rfl | hs
    · refine readable_cons_newline rfl ?_
      rw [blockLength_cons_newline rfl, hlength]
      omega
    · refine readable_cons_newline rfl ?_
      rw [hlength]
      omega
    · exact ⟨hline.not_prompt _, by omega⟩
    · exact readable_cons_newline rfl hblock
    · exact ih hlines hs

theorem fitting_modemSends (h : ∀ line ∈ lines, ResponseLine line) : Fitting (modemSends lines) where
  noZero := by
    intro hzero
    obtain ⟨line, hline, hmem⟩ := List.mem_flatMap.mp hzero
    simp only [List.mem_append, List.mem_cons, List.not_mem_nil, or_false] at hmem
    rcases hmem with (hmem | hmem) | hmem
    · exact absurd hmem (by decide)
    · exact (h line hline).noZero hmem
    · exact absurd hmem (by decide)
  noPrompt := fun _ hs => (readable_modemSends h hs).1
  short := fun _ hs => (readable_modemSends h hs).2

theorem passes_modemSends (h : ∀ line ∈ lines, ResponseLine line) :
    lineScanner.Passes (modemSends lines) lines [] := by
  induction lines with
  | nil => exact .refl []
  | cons line lines ih =>
    obtain ⟨hline, hlines⟩ := List.forall_mem_cons.mp h
    rw [modemSends_cons]
    have hfront : lineScanner.Passes ([13, 10] ++ (line ++ 13 :: 10 :: modemSends lines)) []
        (line ++ 13 :: 10 :: modemSends lines) := passes_newlines (by simp [isNewline]) _
    have hbehind : lineScanner.Passes ([10] ++ modemSends lines) [] (modemSends lines) :=
      passes_newlines (by simp [isNewline]) _
    have hdrop : (line ++ 13 :: 10 :: modemSends lines).drop (line.length + 1) =
        10 :: modemSends lines := by
      rw [← List.drop_drop, List.drop_left]
      rfl
    have hstep := Scanner.Passes.single (hline.next (10 :: modemSends lines))
    rw [hdrop] at hstep
    exact ((hfront.trans hstep).trans hbehind).trans (ih hlines)

theorem scan_modemSends (h : ∀ line ∈ lines, ResponseLine line) :
    (lineScanner.scan (modemSends lines)).1 = lines :=
  congrArg Prod.fst ((passes_modemSends h).scan_of_wait rfl)

end ModemSends

/-- However the stream is cut into arrivals, the calls return the lines of one scan over it. -/
theorem readLines_of_scan (arrived : List (List UInt8)) (calls : ℕ)
    (hpieces : ∀ piece ∈ arrived, piece ≠ []) (hfit : Fitting arrived.flatten)
    (hcalls : 2 * arrived.flatten.length < calls) :
    readLines .init arrived calls = (lineScanner.scan arrived.flatten).1 := by
  have hwaiting := waiting_init arrived hpieces
  have htoDo : toDo .init arrived = 2 * arrived.flatten.length := by
    rw [toDo, hwaiting.text_eq, List.length_nil, Nat.add_zero]
  have hall : [] ++ readLines .init arrived calls = (lineScanner.scan arrived.flatten).1 :=
    readLines_served hfit hwaiting (by omega)
  rwa [List.nil_append] at hall

theorem responseLine_of_letters {line : List UInt8} (hnonempty : line ≠ [])
    (hletters : ∀ c ∈ line, 62 < c) (hshort : line.length ≤ 100) : ResponseLine line where
  nonempty := hnonempty
  noNewline := by
    intro c hc hnewline
    have hlarge := hletters c hc
    rcases of_decide_eq_true hnewline with rfl | rfl <;> exact absurd hlarge (by decide)
  noZero := fun hzero => absurd (hletters 0 hzero) (by decide)
  noPrompt := by
    intro hprompt
    exact absurd (hletters 62 (hprompt.subset List.mem_cons_self)) (by decide)
  short := by
    have hmax : maxAtResponse = 8192 := rfl
    omega

theorem readLines_of_scan_two :
    readLines .init [[13, 10, 79], [75, 13, 10, 13], [10, 82, 73, 78, 71, 13, 10]] 29 =
      [[79, 75], [82, 73, 78, 71]] := by
  have hlines : ∀ line ∈ ([[79, 75], [82, 73, 78, 71]] : List (List UInt8)), ResponseLine line := by
    intro line hline
    rcases List.mem_pair.mp hline with rfl | rfl
    · exact responseLine_of_letters (by simp) (by simp) (by simp)
    · exact responseLine_of_letters (by simp) (by simp) (by simp)
  have hscan := readLines_of_scan [[13, 10, 79], [75, 13, 10, 13], [10, 82, 73, 78, 71, 13, 10]] 29
    (by decide) (fitting_modemSends hlines) (by decide)
  exact hscan.trans (scan_modemSends hlines)

/-- The end of a prompt is the end of what was read, and the next call starts one byte behind it, at
what an earlier read has left there. -/
example : readLines .init [[13, 10, 79, 75, 13, 10], [62, 32], [13, 10, 79, 75, 13]] 5 =
    [[79, 75], [62, 32], [75], [79, 75]] := by
  decide

end Tulux.ReferenceRil
