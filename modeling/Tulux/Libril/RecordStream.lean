import Tulux.Lib.ByteCode
import Tulux.Lib.Framing

/-! The records that `record_stream.c` cuts out of a command socket, and the writes that put them
there. -/
namespace Tulux.Libril
open Framing ByteCode

abbrev headerSize : ℕ := 4

/-- `bytes` is what the buffer holds from `unconsumed` to `read_end`; the buffer has room for one
record and its header. -/
structure RecordStream where
  maxRecordLen : ℕ
  unconsumed : ℕ
  bytes : List UInt8
  deriving DecidableEq

/-- The end of the record at the front, if it is there. -/
def getEndOfRecord (bytes : List UInt8) : Option ℕ :=
  if bytes.length < headerSize then none
  else
    let len := value (bytes.take headerSize)
    if bytes.length < headerSize + len then none else some (headerSize + len)

def getNextRecord (rs : RecordStream) : Option (List UInt8 × RecordStream) :=
  (getEndOfRecord rs.bytes).map fun recordEnd =>
    ((rs.bytes.take recordEnd).drop headerSize,
      { rs with
        unconsumed := rs.unconsumed + recordEnd
        bytes := rs.bytes.drop recordEnd })

/-- The results of `record_stream_get_next`: a record, an assertion that failed, a read that returned
nothing, or a read that did not bring the rest of a record. -/
inductive GetNext where
  | record (bytes : List UInt8)
  | tooLong
  | ended
  | again
  deriving DecidableEq

def recordStreamGetNext (rs : RecordStream) (arrived : List (List UInt8)) :
    GetNext × RecordStream × List (List UInt8) :=
  match getNextRecord rs with
  | some (bytes, rs) => (.record bytes, rs, arrived)
  | none =>
    if rs.unconsumed = 0 ∧ rs.bytes.length = rs.maxRecordLen + headerSize then
      (.tooLong, rs, arrived)
    else
      let rs := { rs with unconsumed := 0 }
      let (bytes, arrived) := readSome (rs.maxRecordLen + headerSize - rs.bytes.length) arrived
      if bytes = [] then (.ended, rs, arrived)
      else
        let rs := { rs with bytes := rs.bytes ++ bytes }
        match getNextRecord rs with
        | none => (.again, rs, arrived)
        | some (bytes, rs) => (.record bytes, rs, arrived)

/-- A command socket: what has arrived and was not read, and the records that were handed out. -/
structure CommandSocket where
  rs : RecordStream
  arrived : List (List UInt8)
  handed : List (List UInt8)
  last : GetNext

namespace CommandSocket

def start (maxRecordLen : ℕ) (arrived : List (List UInt8)) : CommandSocket :=
  ⟨⟨maxRecordLen, 0, []⟩, arrived, [], .again⟩

/-- A call; there is none behind an assertion that failed. -/
def call (s : CommandSocket) : CommandSocket :=
  if s.last = .tooLong then s
  else
    let (result, rs, arrived) := recordStreamGetNext s.rs s.arrived
    ⟨rs, arrived, match result with
      | .record bytes => s.handed ++ [bytes]
      | _ => s.handed, result⟩

def calls (s : CommandSocket) (n : ℕ) : CommandSocket := call^[n] s

end CommandSocket

/-! ### The records of a stream -/

/-- The records at the front that are not too long. -/
def nextRecord (maxRecordLen : ℕ) (xs : List UInt8) : Option (ℕ × Option (List UInt8)) :=
  (getEndOfRecord xs).bind fun recordEnd =>
    if recordEnd ≤ maxRecordLen + headerSize then
      some (recordEnd, some ((xs.take recordEnd).drop headerSize))
    else none

section Records
variable {maxRecordLen n : ℕ} {xs ys : List UInt8} {o : Option (List UInt8)}

theorem getEndOfRecord_eq_some (h : getEndOfRecord xs = some n) :
    headerSize ≤ n ∧ n ≤ xs.length := by
  unfold getEndOfRecord at h
  dsimp only at h
  split_ifs at h
  obtain rfl := Option.some.inj h
  omega

theorem getEndOfRecord_append (h : getEndOfRecord xs = some n) (ys : List UInt8) :
    getEndOfRecord (xs ++ ys) = some n := by
  unfold getEndOfRecord at h ⊢
  dsimp only at h ⊢
  split_ifs at h with hshort hlen
  have htake : (xs ++ ys).take headerSize = xs.take headerSize :=
    List.take_append_of_le_length (by omega)
  rw [htake, List.length_append, if_neg (by omega), if_neg (by omega)]
  exact h

/-- The scanner that cuts a whole stream into records. -/
def recordScanner (maxRecordLen : ℕ) : Scanner UInt8 (List UInt8) where
  next := nextRecord maxRecordLen
  pos := by
    intro xs n o h
    obtain ⟨recordEnd, hend, hnext⟩ := Option.bind_eq_some_iff.mp h
    split_ifs at hnext
    obtain ⟨rfl, -⟩ := Prod.mk.inj (Option.some.inj hnext)
    exact (getEndOfRecord_eq_some hend).1.trans_lt' (by decide)
  le := by
    intro xs n o h
    obtain ⟨recordEnd, hend, hnext⟩ := Option.bind_eq_some_iff.mp h
    split_ifs at hnext
    obtain ⟨rfl, -⟩ := Prod.mk.inj (Option.some.inj hnext)
    exact (getEndOfRecord_eq_some hend).2
  stable := by
    intro xs r h ys
    obtain ⟨recordEnd, hend, hnext⟩ := Option.bind_eq_some_iff.mp h
    unfold nextRecord
    rw [getEndOfRecord_append hend, Option.bind_some,
      List.take_append_of_le_length (getEndOfRecord_eq_some hend).2]
    exact hnext

/-- What is left at the end is longer than a record may be, and fills the buffer. -/
def Overlong (maxRecordLen : ℕ) (xs : List UInt8) : Prop :=
  maxRecordLen + headerSize ≤ xs.length ∧ maxRecordLen < value (xs.take headerSize)

/-- In a full buffer only a record that is too long has no end. -/
theorem value_of_full (h : getEndOfRecord xs = none)
    (hfull : xs.length = maxRecordLen + headerSize) :
    maxRecordLen < value (xs.take headerSize) := by
  unfold getEndOfRecord at h
  dsimp only at h
  split_ifs at h with hshort hlen
  · omega
  · omega

theorem nextRecord_of_end (h : getEndOfRecord xs = some n)
    (hroom : xs.length ≤ maxRecordLen + headerSize) :
    nextRecord maxRecordLen xs = some (n, some ((xs.take n).drop headerSize)) := by
  have hle := (getEndOfRecord_eq_some h).2
  unfold nextRecord
  rw [h, Option.bind_some, if_pos (hle.trans hroom)]

/-- Behind the header of a record that is too long nothing is handed out. -/
theorem nextRecord_of_overlong (h : Overlong maxRecordLen xs) : nextRecord maxRecordLen xs = none := by
  unfold nextRecord
  cases hend : getEndOfRecord xs with
  | none => rfl
  | some recordEnd =>
    have hvalue := h.2
    have hrecord : recordEnd = headerSize + value (xs.take headerSize) := by
      unfold getEndOfRecord at hend
      dsimp only at hend
      split_ifs at hend
      exact (Option.some.inj hend).symm
    rw [Option.bind_some, if_neg (by omega)]

theorem nextRecord_of_none (h : getEndOfRecord xs = none) : nextRecord maxRecordLen xs = none := by
  unfold nextRecord
  rw [h, Option.bind_none]

end Records

namespace CommandSocket
variable {maxRecordLen : ℕ} {stream : List UInt8} {s : CommandSocket}

/-! ### What every call keeps -/

/-- The stream is what was handed out, then what is in the buffer, then what was not read. -/
structure Inv (maxRecordLen : ℕ) (stream : List UInt8) (s : CommandSocket) : Prop where
  max : s.rs.maxRecordLen = maxRecordLen
  passes : (recordScanner maxRecordLen).Passes stream s.handed (s.rs.bytes ++ s.arrived.flatten)
  room : s.rs.unconsumed + s.rs.bytes.length ≤ maxRecordLen + headerSize
  pieces : ∀ piece ∈ s.arrived, piece ≠ []
  ended : s.last = .ended → getEndOfRecord s.rs.bytes = none ∧ s.arrived = [] ∧
    s.rs.bytes.length < maxRecordLen + headerSize
  tooLong : s.last = .tooLong → getEndOfRecord s.rs.bytes = none ∧
    s.rs.bytes.length = maxRecordLen + headerSize

def Stopped (s : CommandSocket) : Prop := s.last = .ended ∨ s.last = .tooLong

/-- Reading a byte takes one off, and handing it out takes one more. -/
def toDo (s : CommandSocket) : ℕ := 2 * s.arrived.flatten.length + s.rs.bytes.length

theorem inv_start {arrived : List (List UInt8)} (h : ∀ piece ∈ arrived, piece ≠ []) :
    (start maxRecordLen arrived).Inv maxRecordLen arrived.flatten where
  max := rfl
  passes := .refl _
  room := Nat.zero_le _
  pieces := h
  ended := fun hlast => absurd hlast (show GetNext.again ≠ .ended by decide)
  tooLong := fun hlast => absurd hlast (show GetNext.again ≠ .tooLong by decide)

/-- The record at the front of the buffer is handed out. -/
def hand (s : CommandSocket) (recordEnd : ℕ) : CommandSocket :=
  let bytes := (s.rs.bytes.take recordEnd).drop headerSize
  ⟨{ s.rs with
      unconsumed := s.rs.unconsumed + recordEnd
      bytes := s.rs.bytes.drop recordEnd }, s.arrived, s.handed ++ [bytes], .record bytes⟩

/-- The buffer is moved to its front and filled by a read. -/
def filled (s : CommandSocket) : CommandSocket :=
  let out := readSome (s.rs.maxRecordLen + headerSize - s.rs.bytes.length) s.arrived
  ⟨{ s.rs with
      unconsumed := 0
      bytes := s.rs.bytes ++ out.1 }, out.2, s.handed, .again⟩

section Calls
variable {recordEnd : ℕ} (hlast : s.last ≠ .tooLong)
include hlast

theorem call_record (hend : getEndOfRecord s.rs.bytes = some recordEnd) :
    s.call = s.hand recordEnd := by
  simp [call, hlast, recordStreamGetNext, getNextRecord, hend, hand]

variable (hend : getEndOfRecord s.rs.bytes = none)
include hend

theorem call_full
    (hfull : s.rs.unconsumed = 0 ∧ s.rs.bytes.length = s.rs.maxRecordLen + headerSize) :
    s.call = { s with last := .tooLong } := by
  simp [call, hlast, recordStreamGetNext, getNextRecord, hend, hfull]

variable (hspace : ¬ (s.rs.unconsumed = 0 ∧ s.rs.bytes.length = s.rs.maxRecordLen + headerSize))
include hspace

theorem call_ended (hempty : s.arrived = []) :
    s.call = { s with rs := { s.rs with unconsumed := 0 }, last := .ended } := by
  simp [call, hlast, recordStreamGetNext, getNextRecord, hend, hspace, hempty, readSome]

theorem call_read
    (hread : (readSome (s.rs.maxRecordLen + headerSize - s.rs.bytes.length) s.arrived).1 ≠ []) :
    s.call = match getEndOfRecord s.filled.rs.bytes with
      | none => s.filled
      | some recordEnd => s.filled.hand recordEnd := by
  unfold call recordStreamGetNext getNextRecord
  rw [if_neg hlast, hend]
  dsimp only [Option.map_none]
  rw [if_neg hspace, if_neg hread]
  change _ = match getEndOfRecord (s.rs.bytes ++ _) with
    | none => s.filled
    | some recordEnd => s.filled.hand recordEnd
  cases getEndOfRecord (s.rs.bytes ++ (readSome (s.rs.maxRecordLen + headerSize -
    s.rs.bytes.length) s.arrived).1) <;> rfl

end Calls

theorem Inv.hand {recordEnd : ℕ} (h : s.Inv maxRecordLen stream)
    (hend : getEndOfRecord s.rs.bytes = some recordEnd) :
    (s.hand recordEnd).Inv maxRecordLen stream where
  max := h.max
  passes := by
    have hroom := h.room
    exact h.passes.emit (nextRecord_of_end hend (by omega))
  room := by
    have hroom := h.room
    have hle := (getEndOfRecord_eq_some hend).2
    simp only [CommandSocket.hand, List.length_drop]
    omega
  pieces := h.pieces
  ended := fun hlast => absurd hlast (by simp [CommandSocket.hand])
  tooLong := fun hlast => absurd hlast (by simp [CommandSocket.hand])

theorem toDo_hand {recordEnd : ℕ} (hend : getEndOfRecord s.rs.bytes = some recordEnd) :
    (s.hand recordEnd).toDo < s.toDo := by
  obtain ⟨hpos, hle⟩ := getEndOfRecord_eq_some hend
  have hheader : headerSize = 4 := rfl
  simp only [toDo, hand, List.length_drop]
  omega

theorem Inv.filled (h : s.Inv maxRecordLen stream) : s.filled.Inv maxRecordLen stream where
  max := h.max
  passes := by
    have hpasses := h.passes
    rw [← readSome_flatten (s.rs.maxRecordLen + headerSize - s.rs.bytes.length) s.arrived,
      ← List.append_assoc] at hpasses
    exact hpasses
  room := by
    have hroom := h.room
    have hmax := h.max
    have hlength := length_readSome (s.rs.maxRecordLen + headerSize - s.rs.bytes.length) s.arrived
    simp only [CommandSocket.filled, List.length_append]
    omega
  pieces := readSome_nonempty h.pieces
  ended := fun hlast => absurd hlast (by simp [CommandSocket.filled])
  tooLong := fun hlast => absurd hlast (by simp [CommandSocket.filled])

theorem toDo_filled
    (hread : (readSome (s.rs.maxRecordLen + headerSize - s.rs.bytes.length) s.arrived).1 ≠ []) :
    s.filled.toDo < s.toDo := by
  have hflatten := congrArg List.length
    (readSome_flatten (s.rs.maxRecordLen + headerSize - s.rs.bytes.length) s.arrived)
  have hpos := List.length_pos_iff.mpr hread
  simp only [toDo, filled, List.length_append] at hflatten ⊢
  omega

/-- A call keeps the invariant, and comes nearer to the end or stops. -/
theorem Inv.call (h : s.Inv maxRecordLen stream) : s.call.Inv maxRecordLen stream ∧
    (s.call.Stopped ∨ s.call.toDo < s.toDo) := by
  by_cases hlast : s.last = .tooLong
  · have hsame : s.call = s := if_pos hlast
    rw [hsame]
    exact ⟨h, Or.inl (Or.inr hlast)⟩
  cases hend : getEndOfRecord s.rs.bytes with
  | some recordEnd =>
    rw [call_record hlast hend]
    exact ⟨h.hand hend, Or.inr (toDo_hand hend)⟩
  | none =>
    have hmax := h.max
    have hroom := h.room
    by_cases hfull : s.rs.unconsumed = 0 ∧ s.rs.bytes.length = s.rs.maxRecordLen + headerSize
    · rw [call_full hlast hend hfull]
      refine ⟨⟨h.max, h.passes, h.room, h.pieces, fun hended => absurd hended (by simp), fun _ => ?_⟩,
        Or.inl (Or.inr rfl)⟩
      exact ⟨hend, hmax ▸ hfull.2⟩
    have hspace : s.rs.bytes.length < maxRecordLen + headerSize := by omega
    by_cases hempty : s.arrived = []
    · rw [call_ended hlast hend hfull hempty]
      refine ⟨⟨h.max, h.passes, by dsimp only; omega, h.pieces, fun _ => ⟨hend, hempty, hspace⟩,
        fun htooLong => absurd htooLong (by simp)⟩, Or.inl (Or.inl rfl)⟩
    · have hread := mt (readSome_eq_nil_iff h.pieces (show 0 < s.rs.maxRecordLen + headerSize -
        s.rs.bytes.length by omega)).mp hempty
      rw [call_read hlast hend hfull hread]
      cases hrest : getEndOfRecord s.filled.rs.bytes with
      | none => exact ⟨h.filled, Or.inr (toDo_filled hread)⟩
      | some recordEnd =>
        exact ⟨h.filled.hand hrest, Or.inr ((toDo_hand hrest).trans (toDo_filled hread))⟩

theorem Inv.stopped_call (h : s.Inv maxRecordLen stream) (hstopped : s.Stopped) : s.call.Stopped := by
  rcases hstopped with hended | htooLong
  · obtain ⟨hend, hempty, hspace⟩ := h.ended hended
    have hmax := h.max
    have hlast : s.last ≠ .tooLong := by simp [hended]
    rw [call_ended hlast hend (by omega) hempty]
    exact Or.inl rfl
  · have hsame : s.call = s := if_pos htooLong
    rw [hsame]
    exact Or.inr htooLong

/-- Enough calls come to the end. -/
theorem Inv.calls (h : s.Inv maxRecordLen stream) {n : ℕ} (hn : s.toDo < n) :
    (s.calls n).Inv maxRecordLen stream ∧ (s.calls n).Stopped := by
  have hstays (n : ℕ) {s : CommandSocket} (h : s.Inv maxRecordLen stream) (hstopped : s.Stopped) :
      (s.calls n).Inv maxRecordLen stream ∧ (s.calls n).Stopped := by
    induction n generalizing s with
    | zero => exact ⟨h, hstopped⟩
    | succ n ih => exact ih h.call.1 (h.stopped_call hstopped)
  induction n generalizing s with
  | zero => exact absurd hn (Nat.not_lt_zero _)
  | succ n ih =>
    obtain ⟨hcall, hstopped | hless⟩ := h.call
    · exact hstays n hcall hstopped
    · exact ih hcall (by omega)

/-- What has come out of a stream at the end: its records up to one that is too long, whose header
fills the buffer. -/
theorem Inv.at_end (h : s.Inv maxRecordLen stream) (hstopped : s.Stopped) :
    s.handed = ((recordScanner maxRecordLen).scan stream).1 ∧
      (s.last = .tooLong ↔ Overlong maxRecordLen ((recordScanner maxRecordLen).scan stream).2) := by
  rcases hstopped with hended | htooLong
  · obtain ⟨hend, hempty, hspace⟩ := h.ended hended
    have hscan := h.passes.scan_of_wait (by
      rw [hempty, List.flatten_nil, List.append_nil]
      exact nextRecord_of_none hend)
    rw [hscan]
    refine ⟨rfl, iff_of_false (by simp [hended]) fun hoverlong => ?_⟩
    have hlength := hoverlong.1
    simp only [hempty, List.flatten_nil, List.append_nil] at hlength
    omega
  · obtain ⟨hend, hfull⟩ := h.tooLong htooLong
    have hoverlong : Overlong maxRecordLen (s.rs.bytes ++ s.arrived.flatten) := by
      refine ⟨by rw [List.length_append]; omega, ?_⟩
      rw [List.take_append_of_le_length (by omega)]
      exact value_of_full hend hfull
    have hscan := h.passes.scan_of_wait (nextRecord_of_overlong hoverlong)
    rw [hscan]
    exact ⟨rfl, iff_of_true htooLong hoverlong⟩

/-- However a stream arrives, the calls hand out the records of one left-to-right scan of it, and an
assertion fails exactly when the scan comes to a record that is too long and fills the buffer. -/
theorem records_of_scan (maxRecordLen : ℕ) (arrived : List (List UInt8))
    (h : ∀ piece ∈ arrived, piece ≠ []) {n : ℕ} (hn : 2 * arrived.flatten.length < n) :
    ((start maxRecordLen arrived).calls n).handed =
        ((recordScanner maxRecordLen).scan arrived.flatten).1 ∧
      (((start maxRecordLen arrived).calls n).last = .tooLong ↔
        Overlong maxRecordLen ((recordScanner maxRecordLen).scan arrived.flatten).2) := by
  obtain ⟨hinv, hstopped⟩ := (inv_start h).calls (n := n) (by simpa [start, toDo] using hn)
  exact hinv.at_end hstopped

/-- A record in two pieces, and the header of one that is too long. -/
theorem records_of_scan_two :
    ((start 3 [[0, 0], [0, 2, 7], [8, 0, 0, 0, 9, 1, 2, 3]]).calls 27).handed =
        ((recordScanner 3).scan [0, 0, 0, 2, 7, 8, 0, 0, 0, 9, 1, 2, 3]).1 ∧
      ((start 3 [[0, 0], [0, 2, 7], [8, 0, 0, 0, 9, 1, 2, 3]]).calls 27).handed = [[7, 8]] ∧
      ((start 3 [[0, 0], [0, 2, 7], [8, 0, 0, 0, 9, 1, 2, 3]]).calls 27).last = .tooLong :=
  ⟨(records_of_scan 3 [[0, 0], [0, 2, 7], [8, 0, 0, 0, 9, 1, 2, 3]] (by decide) (by decide)).1,
    by decide, by decide⟩

end CommandSocket

/-! ### Writing records -/

/-- A record on the wire. -/
def record (data : List UInt8) : List UInt8 := beBytes headerSize data.length ++ data

section Scan
variable {maxRecordLen : ℕ} {data : List UInt8} {records : List (List UInt8)}

theorem nextRecord_record (hlen : data.length ≤ maxRecordLen) (hmax : maxRecordLen < 256 ^ headerSize)
    (rest : List UInt8) :
    nextRecord maxRecordLen (record data ++ rest) = some (headerSize + data.length, some data) := by
  have htake : (record data ++ rest).take headerSize = beBytes headerSize data.length := by
    rw [record, List.append_assoc, List.take_left' (length_beBytes _ _)]
  have hvalue : value (beBytes headerSize data.length) = data.length :=
    value_beBytes_of_lt (hlen.trans_lt hmax)
  have hlength : (record data ++ rest).length = headerSize + data.length + rest.length := by
    simp [record, Nat.add_assoc]
  have hend : getEndOfRecord (record data ++ rest) = some (headerSize + data.length) := by
    unfold getEndOfRecord
    rw [htake, hvalue, hlength, if_neg (by omega), if_neg (by omega)]
  have hrecord : (record data ++ rest).take (headerSize + data.length) = record data :=
    List.take_left' (by simp [record])
  unfold nextRecord
  rw [hend, Option.bind_some, if_pos (by omega), hrecord, record,
    List.drop_left' (length_beBytes _ _)]

/-- The scan of records gives them back. -/
theorem scan_records (hmax : maxRecordLen < 256 ^ headerSize)
    (h : ∀ data ∈ records, data.length ≤ maxRecordLen) :
    (recordScanner maxRecordLen).scan (records.flatMap record) = (records, []) := by
  induction records with
  | nil => exact Scanner.scan_wait rfl
  | cons data records ih =>
    obtain ⟨hdata, hrest⟩ := List.forall_mem_cons.mp h
    have hdrop : (record data ++ records.flatMap record).drop (headerSize + data.length) =
        records.flatMap record := List.drop_left' (by simp [record])
    rw [List.flatMap_cons, Scanner.scan_step (nextRecord_record hdata hmax _), hdrop, ih hrest]
    rfl

end Scan

abbrev maxCommandBytes : ℕ := 8 * 1024

/-- A response whose bytes are being written, under the mutex. -/
structure Writing where
  data : List UInt8
  headerLeft : List UInt8
  dataLeft : List UInt8

/-- The socket that responses are written to. -/
structure ResponseSocket where
  stream : List UInt8
  sent : List (List UInt8)
  current : Option Writing

/-- A thread comes to `sendResponseRaw` and gets the mutex, or its next `write` takes so many bytes. -/
inductive WriteOp where
  | sendResponseRaw (data : List UInt8)
  | write (taken : ℕ)

namespace ResponseSocket

/-- The mutex is released behind the last byte. -/
def release (s : ResponseSocket) (w : Writing) : ResponseSocket :=
  if w.headerLeft = [] ∧ w.dataLeft = [] then { s with sent := s.sent ++ [w.data], current := none }
  else { s with current := some w }

def step (s : ResponseSocket) : WriteOp → ResponseSocket
  | .sendResponseRaw data =>
    if s.current.isSome ∨ maxCommandBytes < data.length then s
    else { s with current := some ⟨data, beBytes headerSize data.length, data⟩ }
  | .write taken =>
    match s.current with
    | none => s
    | some w =>
      if w.headerLeft = [] then
        { s with stream := s.stream ++ w.dataLeft.take taken }.release
          { w with dataLeft := w.dataLeft.drop taken }
      else
        { s with stream := s.stream ++ w.headerLeft.take taken }.release
          { w with headerLeft := w.headerLeft.drop taken }

def empty : ResponseSocket := ⟨[], [], none⟩

/-- Whole records were written, and a part of the one of the current thread. -/
structure Whole (s : ResponseSocket) : Prop where
  short : ∀ data ∈ s.sent, data.length ≤ maxCommandBytes
  free : s.current = none → s.stream = s.sent.flatMap record
  held : ∀ w, s.current = some w → w.data.length ≤ maxCommandBytes ∧
    s.stream ++ w.headerLeft ++ w.dataLeft = (s.sent ++ [w.data]).flatMap record

variable {s : ResponseSocket} {w : Writing}

theorem Whole.release (hshort : ∀ data ∈ s.sent, data.length ≤ maxCommandBytes)
    (hdata : w.data.length ≤ maxCommandBytes)
    (hstream : s.stream ++ w.headerLeft ++ w.dataLeft = (s.sent ++ [w.data]).flatMap record) :
    (s.release w).Whole := by
  unfold ResponseSocket.release
  split_ifs with hdone
  · obtain ⟨hheader, hrest⟩ := hdone
    rw [hheader, hrest, List.append_nil, List.append_nil] at hstream
    refine ⟨fun data hmem => ?_, fun _ => hstream, fun w hw => absurd hw (by simp)⟩
    rcases List.mem_append.mp hmem with hmem | hmem
    · exact hshort data hmem
    · obtain rfl := List.mem_singleton.mp hmem
      exact hdata
  · refine ⟨hshort, fun hfree => absurd hfree (by simp), fun w' hw => ?_⟩
    obtain rfl := Option.some.inj hw
    exact ⟨hdata, hstream⟩

theorem Whole.step (h : s.Whole) (op : WriteOp) : (s.step op).Whole := by
  cases op with
  | sendResponseRaw data =>
    unfold ResponseSocket.step
    dsimp only
    split_ifs with hrefused
    · exact h
    · obtain ⟨hfree, hlen⟩ := not_or.mp hrefused
      have hstream := h.free (by simpa using hfree)
      refine ⟨h.short, fun hnone => absurd hnone (by simp), fun w hw => ?_⟩
      obtain rfl := Option.some.inj hw
      exact ⟨not_lt.mp hlen, by simp [hstream, record]⟩
  | write taken =>
    unfold ResponseSocket.step
    cases hcurrent : s.current with
    | none => exact h
    | some w =>
      obtain ⟨hdata, hstream⟩ := h.held w hcurrent
      dsimp only
      split_ifs with hheader
      · refine Whole.release h.short hdata ?_
        simpa [hheader] using hstream
      · refine Whole.release h.short hdata ?_
        simpa using hstream

theorem whole_run (ops : List WriteOp) : (ops.foldl step empty).Whole := by
  have hempty : empty.Whole :=
    ⟨fun _ hmem => absurd hmem List.not_mem_nil, fun _ => rfl, fun _ hw => absurd hw (by simp [empty])⟩
  induction ops using List.reverseRecOn with
  | nil => exact hempty
  | append_singleton ops op ih =>
    rw [List.foldl_append]
    exact ih.step op

end ResponseSocket

/-- However the threads come to the mutex, however few bytes each write takes and however the stream
arrives, a reader is handed the responses that were sent, whole and in order. -/
theorem responses_read (ops : List WriteOp) (arrived : List (List UInt8))
    (hfree : (ops.foldl ResponseSocket.step .empty).current = none)
    (hpieces : ∀ piece ∈ arrived, piece ≠ [])
    (harrived : arrived.flatten = (ops.foldl ResponseSocket.step .empty).stream)
    {n : ℕ} (hn : 2 * arrived.flatten.length < n) :
    let s := (CommandSocket.start maxCommandBytes arrived).calls n
    s.handed = (ops.foldl ResponseSocket.step .empty).sent ∧ s.last ≠ .tooLong := by
  have hwhole := ResponseSocket.whole_run ops
  obtain ⟨hinv, hstopped⟩ := (CommandSocket.inv_start hpieces).calls (n := n)
    (by simpa [CommandSocket.start, CommandSocket.toDo] using hn)
  obtain ⟨hhanded, htooLong⟩ := hinv.at_end hstopped
  rw [harrived, hwhole.free hfree, scan_records (by decide) hwhole.short] at hhanded htooLong
  exact ⟨hhanded, fun hlast => absurd (htooLong.mp hlast).1 (by simp)⟩

/-- Two responses; the thread of the second one comes to the mutex while the first is written. -/
def twoResponses : List WriteOp :=
  [.sendResponseRaw [1, 2], .write 3, .sendResponseRaw [9], .write 9, .write 1, .write 5,
    .sendResponseRaw [9], .write 4, .write 1]

theorem responses_read_two :
    let s := (CommandSocket.start maxCommandBytes [[0, 0, 0], [2, 1, 2, 0, 0], [0, 1, 9]]).calls 23
    s.handed = [[1, 2], [9]] ∧ s.last ≠ .tooLong :=
  responses_read twoResponses [[0, 0, 0], [2, 1, 2, 0, 0], [0, 1, 9]] rfl (by decide) rfl (by decide)

end Tulux.Libril
