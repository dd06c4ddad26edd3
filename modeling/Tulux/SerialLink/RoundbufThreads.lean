import Tulux.SerialLink.RoundbufFifo

/-! The ring buffer between two threads that have no lock, one that puts and one that gets, step by
step. `MIN` names its second argument twice, so where this is the smaller one the index of the other
thread is read once more. -/
namespace Tulux.SerialLink
open GuardedRun RingStore

/-- Where the thread is that puts: outside a call, before the second look at the room, or in the
copies, with `i` bytes copied. What stands behind the bytes of the caller is in `ptr` too. -/
inductive PutPc where
  | idle
  | limits (ptr : ℕ → UInt8) (asked : UInt16)
  | copies (ptr : ℕ → UInt8) (asked length : UInt16) (i : ℕ)

/-- Where the thread is that gets; `out` are the bytes copied. -/
inductive GetPc where
  | idle
  | limits (asked : UInt16)
  | copies (asked length : UInt16) (out : List UInt8)

/-- A call that has returned: the length it was given and the number of bytes it has copied. -/
structure RbCall where
  asked : UInt16
  copied : ℕ
  deriving DecidableEq

/-- `accepted` and `returned` are the bytes of the calls that have returned, and `touched` are the
cells of the pool that were read or written. -/
structure RbThreads where
  rb : YxRoundbuf
  put : PutPc
  get : GetPc
  accepted : List UInt8
  returned : List UInt8
  calls : List RbCall
  touched : List ℕ

/-- A thread begins a call, or takes the next step of its call. -/
inductive RbAct where
  | put (ptr : ℕ → UInt8) (length : UInt16)
  | putStep
  | get (length : UInt16)
  | getStep

section Steps
variable (rb : YxRoundbuf)

def roundbufRoom : UInt32 := rb.bufferSize - rb.writeIndex + rb.readIndex

def roundbufUsed : UInt32 := rb.writeIndex - rb.readIndex

/-- Where the `i`th byte of the copies is that begin at `index`. -/
def copyCell (index : UInt32) (length : UInt16) (i : ℕ) : ℕ :=
  let off := index &&& (rb.bufferSize - 1)
  let l := min16 length (rb.bufferSize - off)
  if i < l.toNat then off.toNat + i else i - l.toNat

/-- The bytes of a put. -/
def putBytes (ptr : ℕ → UInt8) (n : ℕ) : List UInt8 := (List.range n).map ptr

end Steps

namespace RbThreads

def init (pool : List UInt8) (size : UInt16) : RbThreads :=
  ⟨yxRoundbufInit pool size, .idle, .idle, [], [], [], []⟩

def putLimited (s : RbThreads) (ptr : ℕ → UInt8) (asked length : UInt16) : RbThreads :=
  if length = 0 then { s with put := .idle, calls := s.calls ++ [⟨asked, 0⟩] }
  else { s with put := .copies ptr asked length 0 }

def getLimited (s : RbThreads) (asked length : UInt16) : RbThreads :=
  if length = 0 then { s with get := .idle, calls := s.calls ++ [⟨asked, 0⟩] }
  else { s with get := .copies asked length [] }

def step (s : RbThreads) : RbAct → RbThreads
  | .put ptr length =>
    match s.put with
    | .idle =>
      if length.toUInt32 > roundbufRoom s.rb then { s with put := .limits ptr length }
      else s.putLimited ptr length length
    | _ => s
  | .putStep =>
    match s.put with
    | .idle => s
    | .limits ptr asked => s.putLimited ptr asked (roundbufRoom s.rb).toUInt16
    | .copies ptr asked length i =>
      if i < length.toNat then
        let cell := copyCell s.rb s.rb.writeIndex length i
        { s with
          rb := { s.rb with bufferPtr := s.rb.bufferPtr.set cell (ptr i) }
          put := .copies ptr asked length (i + 1)
          touched := s.touched ++ [cell] }
      else
        { s with
          rb := { s.rb with writeIndex := s.rb.writeIndex + length.toUInt32 }
          put := .idle
          accepted := s.accepted ++ putBytes ptr length.toNat
          calls := s.calls ++ [⟨asked, length.toNat⟩] }
  | .get length =>
    match s.get with
    | .idle =>
      if length.toUInt32 > roundbufUsed s.rb then { s with get := .limits length }
      else s.getLimited length length
    | _ => s
  | .getStep =>
    match s.get with
    | .idle => s
    | .limits asked => s.getLimited asked (roundbufUsed s.rb).toUInt16
    | .copies asked length out =>
      if out.length < length.toNat then
        let cell := copyCell s.rb s.rb.readIndex length out.length
        { s with
          get := .copies asked length (out ++ [s.rb.bufferPtr.getD cell 0])
          touched := s.touched ++ [cell] }
      else
        { s with
          rb := { s.rb with readIndex := s.rb.readIndex + length.toUInt32 }
          get := .idle
          returned := s.returned ++ out
          calls := s.calls ++ [⟨asked, length.toNat⟩] }

end RbThreads

/-! ### What the threads rely on

Each thread finds what it has begun with, whatever the other one does: the room behind the queue only
grows, and so does the queue in front of its end. -/

section Law
variable (rb : YxRoundbuf) (q : List UInt8)

/-- The copies of a put fill the cells behind the queue. -/
def PutPc.Ok : PutPc → Prop
  | .copies ptr _ length i => q.length + length.toNat ≤ rb.bufferSize.toNat ∧ i ≤ length.toNat ∧
      Stored rb.bufferPtr rb.bufferSize.toNat (rb.readIndex.toNat + q.length) (putBytes ptr i)
  | _ => True

/-- The copies of a get are the front of the queue. -/
def GetPc.Ok : GetPc → Prop
  | .copies _ length out => length.toNat ≤ q.length ∧ out.length ≤ length.toNat ∧
      out = q.take out.length
  | _ => True

/-- The ring holds the queue, which is what was accepted and not returned, and only its cells were
touched. -/
structure RbThreads.Law (rb₀ : YxRoundbuf) (s : RbThreads) (q : List UInt8) : Prop where
  fifo : Fifo s.rb q
  size : s.rb.bufferSize = rb₀.bufferSize
  pool : s.rb.bufferPtr.length = rb₀.bufferPtr.length
  bytes : s.returned ++ q = s.accepted
  put : s.put.Ok s.rb q
  get : s.get.Ok q
  touched : ∀ cell ∈ s.touched, cell < rb₀.bufferSize.toNat

end Law

section Cells
variable {rb : YxRoundbuf} {q : List UInt8} {length : UInt16} {i : ℕ}

@[simp] theorem length_putBytes (ptr : ℕ → UInt8) (n : ℕ) : (putBytes ptr n).length = n := by
  simp [putBytes]

theorem putBytes_succ (ptr : ℕ → UInt8) (n : ℕ) :
    putBytes ptr (n + 1) = putBytes ptr n ++ [ptr n] := by
  simp [putBytes, List.range_succ]

theorem copyCell_eq (h : Fifo rb q) (index : UInt32) (hi : i < length.toNat)
    (hl : length.toNat ≤ rb.bufferSize.toNat) :
    copyCell rb index length i = (index.toNat + i) % rb.bufferSize.toNat := by
  have hp := Nat.mod_lt index.toNat h.size_bounds.1
  unfold copyCell
  dsimp only
  rw [min16_toNat, h.toEnd, h.mask, ← Nat.mod_add_mod, wrap_index hp hi hl]
  rfl

theorem copyCell_lt (h : Fifo rb q) (index : UInt32) (hi : i < length.toNat)
    (hl : length.toNat ≤ rb.bufferSize.toNat) :
    copyCell rb index length i < rb.bufferSize.toNat := by
  rw [copyCell_eq h index hi hl]
  exact Nat.mod_lt _ h.size_bounds.1

/-- The cell of the next byte of a put. -/
theorem copyCell_write (h : Fifo rb q) (hi : i < length.toNat)
    (hl : length.toNat ≤ rb.bufferSize.toNat) : copyCell rb rb.writeIndex length i =
      (rb.readIndex.toNat + q.length + i) % rb.bufferSize.toNat := by
  rw [copyCell_eq h _ hi hl, Nat.add_mod, h.write_mod, ← Nat.add_mod]

/-- The next byte of a get. -/
theorem getD_copyCell (h : Fifo rb q) (hi : i < length.toNat) (hl : length.toNat ≤ q.length) :
    q.take i ++ [rb.bufferPtr.getD (copyCell rb rb.readIndex length i) 0] = q.take (i + 1) := by
  have hlt : i < q.length := hi.trans_le hl
  rw [copyCell_eq h _ hi (hl.trans h.len), List.getD_eq_getElem?_getD, h.stored i hlt,
    Option.getD_some, List.take_append_getElem hlt]

theorem roundbufRoom_toNat (h : Fifo rb q) :
    (roundbufRoom rb).toNat = rb.bufferSize.toNat - q.length := h.space

theorem roundbufUsed_toNat (h : Fifo rb q) : (roundbufUsed rb).toNat = q.length := h.used

/-- The byte of a put leaves the queue where it is. -/
theorem Fifo.set (h : Fifo rb q) (hi : i < length.toNat)
    (hroom : q.length + length.toNat ≤ rb.bufferSize.toNat) (b : UInt8) :
    Fifo { rb with bufferPtr := rb.bufferPtr.set (copyCell rb rb.writeIndex length i) b } q := by
  refine ⟨h.size, ?_, h.len, h.write, ?_⟩
  · rw [List.length_set]
    exact h.pool
  · rw [copyCell_write h hi (by omega), Nat.add_assoc]
    exact h.stored.set_of_ne (fun j hj => cell_ne (by omega) (by omega)) b

/-- The write index takes in the bytes behind the queue. -/
theorem Fifo.publish (h : Fifo rb q) {bytes : List UInt8} (hlength : bytes.length = length.toNat)
    (hroom : q.length + length.toNat ≤ rb.bufferSize.toNat)
    (hbytes : Stored rb.bufferPtr rb.bufferSize.toNat (rb.readIndex.toNat + q.length) bytes) :
    Fifo { rb with writeIndex := rb.writeIndex + length.toUInt32 } (q ++ bytes) := by
  refine ⟨h.size, h.pool, ?_, ?_, ?_⟩
  · rw [List.length_append, hlength]
    exact hroom
  · have hr : rb.readIndex.toNat < 2 ^ 32 := rb.readIndex.toNat_lt
    simp only [UInt32.toNat_add, h.write, UInt16.toNat_toUInt32, List.length_append, hlength]
    omega
  · exact h.stored.append (by rw [hlength]; exact hroom) hbytes fun _ _ => rfl

/-- The read index lets bytes go. -/
theorem Fifo.release (h : Fifo rb q) (hl : length.toNat ≤ q.length) :
    Fifo { rb with readIndex := rb.readIndex + length.toUInt32 } (q.drop length.toNat) := by
  have hr : rb.readIndex.toNat < 2 ^ 32 := rb.readIndex.toNat_lt
  have hlen := h.len
  refine ⟨h.size, h.pool, ?_, ?_, ?_⟩
  · simp only [List.length_drop]
    omega
  · simp only [h.write, UInt32.toNat_add, UInt16.toNat_toUInt32, List.length_drop]
    omega
  · simp only [UInt32.toNat_add, UInt16.toNat_toUInt32]
    exact (stored_mod h.size_dvd).mpr (h.stored.drop _)

end Cells

/-! ### Steps -/

namespace RbThreads
variable {rb₀ : YxRoundbuf} {s : RbThreads} {q : List UInt8} {ptr : ℕ → UInt8}
  {asked length : UInt16} {i : ℕ} {out : List UInt8}

theorem Law.putLimited (h : s.Law rb₀ q) (ptr : ℕ → UInt8) (asked : UInt16)
    (hroom : q.length + length.toNat ≤ s.rb.bufferSize.toNat) :
    (s.putLimited ptr asked length).Law rb₀ q := by
  unfold RbThreads.putLimited
  split_ifs
  · exact ⟨h.fifo, h.size, h.pool, h.bytes, trivial, h.get, h.touched⟩
  · exact ⟨h.fifo, h.size, h.pool, h.bytes, ⟨hroom, Nat.zero_le _, .nil _ _ _⟩, h.get, h.touched⟩

theorem Law.getLimited (h : s.Law rb₀ q) (asked : UInt16) (hl : length.toNat ≤ q.length) :
    (s.getLimited asked length).Law rb₀ q := by
  unfold RbThreads.getLimited
  split_ifs
  · exact ⟨h.fifo, h.size, h.pool, h.bytes, h.put, trivial, h.touched⟩
  · exact ⟨h.fifo, h.size, h.pool, h.bytes, h.put, ⟨hl, Nat.zero_le _, rfl⟩, h.touched⟩

/-- A put copies a byte. -/
theorem Law.putByte (h : s.Law rb₀ q) (hpc : s.put = .copies ptr asked length i)
    (hi : i < length.toNat) : (s.step .putStep).Law rb₀ q := by
  obtain ⟨hroom, hle, hstored⟩ := hpc ▸ h.put
  have hsize : length.toNat ≤ s.rb.bufferSize.toNat := by omega
  unfold RbThreads.step
  rw [hpc]
  dsimp only
  rw [if_pos hi]
  refine ⟨h.fifo.set hi hroom _, h.size, ?_, h.bytes, ⟨hroom, hi, ?_⟩, h.get, ?_⟩
  · exact List.length_set.trans h.pool
  · rw [copyCell_write h.fifo hi hsize, putBytes_succ]
    have hset := hstored.set (by rw [length_putBytes]; omega) h.fifo.pool (ptr i)
    rwa [length_putBytes] at hset
  · rw [List.forall_mem_append, List.forall_mem_singleton, ← h.size]
    exact ⟨h.size ▸ h.touched, copyCell_lt h.fifo _ hi hsize⟩

/-- A get copies a byte. -/
theorem Law.getByte (h : s.Law rb₀ q) (hpc : s.get = .copies asked length out)
    (hi : out.length < length.toNat) : (s.step .getStep).Law rb₀ q := by
  obtain ⟨hl, hle, hout⟩ := hpc ▸ h.get
  have hsize : length.toNat ≤ s.rb.bufferSize.toNat := hl.trans h.fifo.len
  unfold RbThreads.step
  rw [hpc]
  dsimp only
  rw [if_pos hi]
  refine ⟨h.fifo, h.size, h.pool, h.bytes, h.put, ⟨hl, ?_, ?_⟩, ?_⟩
  · rw [List.length_append]
    exact hi
  · have hnext := getD_copyCell h.fifo hi hl
    rw [← hout] at hnext
    rw [List.length_append, List.length_singleton, ← hnext]
  · rw [List.forall_mem_append, List.forall_mem_singleton, ← h.size]
    exact ⟨h.size ▸ h.touched, copyCell_lt h.fifo _ hi hsize⟩

/-- The end of a put: its bytes are in the queue. A get that goes on finds its front as before. -/
theorem Law.putEnd (h : s.Law rb₀ q) (hpc : s.put = .copies ptr asked length i)
    (hi : ¬ i < length.toNat) : (s.step .putStep).Law rb₀ (q ++ putBytes ptr length.toNat) := by
  obtain ⟨hroom, hle, hstored⟩ := hpc ▸ h.put
  obtain rfl : i = length.toNat := by omega
  unfold RbThreads.step
  rw [hpc]
  dsimp only
  rw [if_neg hi]
  refine ⟨h.fifo.publish (length_putBytes _ _) hroom hstored, h.size, h.pool, ?_, trivial, ?_,
    h.touched⟩
  · rw [← List.append_assoc, h.bytes]
  · have hget := h.get
    dsimp only
    cases hgetpc : s.get with
    | idle => trivial
    | limits => trivial
    | copies asked' length' out =>
      rw [hgetpc] at hget
      obtain ⟨hl, hout, heq⟩ := hget
      refine ⟨?_, hout, ?_⟩
      · rw [List.length_append]
        exact hl.trans (Nat.le_add_right _ _)
      · rw [List.take_append_of_le_length (hout.trans hl)]
        exact heq

/-- The end of a get: its bytes have left the queue. A put that goes on finds its cells as before. -/
theorem Law.getEnd (h : s.Law rb₀ q) (hpc : s.get = .copies asked length out)
    (hi : ¬ out.length < length.toNat) : (s.step .getStep).Law rb₀ (q.drop length.toNat) := by
  obtain ⟨hl, hle, hout⟩ := hpc ▸ h.get
  have hlength : out.length = length.toNat := by omega
  rw [hlength] at hout
  unfold RbThreads.step
  rw [hpc]
  dsimp only
  rw [if_neg hi]
  refine ⟨h.fifo.release hl, h.size, h.pool, ?_, ?_, trivial, h.touched⟩
  · rw [hout, List.append_assoc, List.take_append_drop, h.bytes]
  · have hput := h.put
    dsimp only
    cases hputpc : s.put with
    | idle => trivial
    | limits => trivial
    | copies ptr' asked' length' i =>
      rw [hputpc] at hput
      obtain ⟨hroom, hi', hstored⟩ := hput
      refine ⟨?_, hi', ?_⟩
      · rw [List.length_drop]
        exact (Nat.add_le_add_right (Nat.sub_le _ _) _).trans hroom
      · have hr : s.rb.readIndex.toNat < 2 ^ 32 := s.rb.readIndex.toNat_lt
        have hdvd := h.fifo.size_dvd
        have hstart : (s.rb.readIndex.toNat + length.toNat) % 2 ^ 32 + (q.length - length.toNat) ≡
            s.rb.readIndex.toNat + q.length [MOD s.rb.bufferSize.toNat] := by
          have hsame : s.rb.readIndex.toNat + q.length =
              s.rb.readIndex.toNat + length.toNat + (q.length - length.toNat) := by omega
          rw [hsame]
          exact ((Nat.mod_modEq _ _).of_dvd hdvd).add_right _
        simp only [UInt32.toNat_add, UInt16.toNat_toUInt32, List.length_drop]
        intro j hj
        rw [← hstored j hj]
        exact congrArg _ (hstart.add_right j)

/-- Each step of either thread keeps the law of the queue, which grows or shrinks at the end of a
call. -/
theorem Law.step (h : s.Law rb₀ q) (act : RbAct) : ∃ q', (s.step act).Law rb₀ q' := by
  have hroom := roundbufRoom_toNat h.fifo
  have hused := roundbufUsed_toNat h.fifo
  have hlen := h.fifo.len
  have hmax := h.fifo.size_bounds.2
  cases act with
  | put ptr length =>
    unfold RbThreads.step
    cases hpc : s.put with
    | idle =>
      dsimp only
      split_ifs with hc
      · exact ⟨q, h.fifo, h.size, h.pool, h.bytes, trivial, h.get, h.touched⟩
      · rw [gt_iff_lt, UInt32.lt_iff_toNat_lt, UInt16.toNat_toUInt32] at hc
        exact ⟨q, h.putLimited ptr length (by omega)⟩
    | limits => exact ⟨q, h⟩
    | copies => exact ⟨q, h⟩
  | putStep =>
    cases hpc : s.put with
    | idle =>
      unfold RbThreads.step
      rw [hpc]
      exact ⟨q, h⟩
    | limits ptr asked =>
      unfold RbThreads.step
      rw [hpc]
      refine ⟨q, h.putLimited ptr asked ?_⟩
      rw [UInt32.toNat_toUInt16]
      omega
    | copies ptr asked length i =>
      by_cases hi : i < length.toNat
      · exact ⟨q, h.putByte hpc hi⟩
      · exact ⟨_, h.putEnd hpc hi⟩
  | get length =>
    unfold RbThreads.step
    cases hpc : s.get with
    | idle =>
      dsimp only
      split_ifs with hc
      · exact ⟨q, h.fifo, h.size, h.pool, h.bytes, h.put, trivial, h.touched⟩
      · rw [gt_iff_lt, UInt32.lt_iff_toNat_lt, UInt16.toNat_toUInt32] at hc
        exact ⟨q, h.getLimited length (by omega)⟩
    | limits => exact ⟨q, h⟩
    | copies => exact ⟨q, h⟩
  | getStep =>
    cases hpc : s.get with
    | idle =>
      unfold RbThreads.step
      rw [hpc]
      exact ⟨q, h⟩
    | limits asked =>
      unfold RbThreads.step
      rw [hpc]
      refine ⟨q, h.getLimited asked ?_⟩
      rw [UInt32.toNat_toUInt16]
      omega
    | copies asked length out =>
      by_cases hi : out.length < length.toNat
      · exact ⟨q, h.getByte hpc hi⟩
      · exact ⟨_, h.getEnd hpc hi⟩

/-! ### A thread alone -/

/-- The copies of a put without steps of the other thread between them. -/
theorem final_putSteps (h : s.Law rb₀ q) (hpc : s.put = .copies ptr asked length 0) {n : ℕ}
    (hn : n ≤ length.toNat) : ∃ pool touched,
      final RbThreads.step s (List.replicate n .putStep) = { s with
        rb := { s.rb with bufferPtr := pool }
        put := .copies ptr asked length n
        touched := touched } ∧
      pool.length = s.rb.bufferPtr.length ∧
      Stored pool s.rb.bufferSize.toNat (s.rb.readIndex.toNat + q.length) (putBytes ptr n) ∧
      ∀ j, (∀ i < n, j ≠ (s.rb.readIndex.toNat + q.length + i) % s.rb.bufferSize.toNat) →
        pool[j]? = s.rb.bufferPtr[j]? := by
  obtain ⟨hroom, -, -⟩ := hpc ▸ h.put
  induction n with
  | zero => exact ⟨s.rb.bufferPtr, s.touched, by rw [← hpc]; rfl, rfl, .nil _ _ _, fun _ _ => rfl⟩
  | succ n ih =>
    obtain ⟨pool, touched, hfinal, hpool, hstored, hold⟩ := ih (by omega)
    have hcell : copyCell { s.rb with bufferPtr := pool } s.rb.writeIndex length n =
        (s.rb.readIndex.toNat + q.length + n) % s.rb.bufferSize.toNat :=
      (rfl : _ = copyCell s.rb s.rb.writeIndex length n).trans
        (copyCell_write h.fifo hn (by omega))
    rw [List.replicate_succ', final_append, hfinal, final_cons, final_nil]
    unfold RbThreads.step
    dsimp only
    rw [if_pos (Nat.lt_of_succ_le hn), hcell]
    refine ⟨_, _, rfl, List.length_set.trans hpool, ?_, fun j hj => ?_⟩
    · have hset := hstored.set (by rw [length_putBytes]; omega) (hpool ▸ h.fifo.pool) (ptr n)
      rwa [length_putBytes, ← putBytes_succ] at hset
    · rw [List.getElem?_set_ne (hj n (Nat.lt_succ_self n)).symm]
      exact hold j fun i hi => hj i (by omega)

/-- The looks of a put at the room limit its length. -/
theorem final_putLimited (hidle : s.put = .idle) (ptr : ℕ → UInt8) (length : UInt16) :
    ∃ k, final RbThreads.step s (.put ptr length :: List.replicate k .putStep) =
      s.putLimited ptr length (min16 length (roundbufRoom s.rb)) := by
  have hfirst : s.step (.put ptr length) =
      if length.toUInt32 > roundbufRoom s.rb then { s with put := .limits ptr length }
      else s.putLimited ptr length length := by
    unfold RbThreads.step
    rw [hidle]
  unfold min16
  by_cases hc : length.toUInt32 > roundbufRoom s.rb
  · refine ⟨1, ?_⟩
    rw [final_cons, hfirst, if_pos hc, if_pos hc]
    rfl
  · refine ⟨0, ?_⟩
    rw [List.replicate_zero, final_cons, final_nil, hfirst, if_neg hc, if_neg hc,
      UInt16.toUInt16_toUInt32]

/-- A put that is not interrupted is `yx_roundbuf_put`. -/
theorem put_alone (h : s.Law rb₀ q) (hidle : s.put = .idle) (ptr : ℕ → UInt8) (length : UInt16) :
    ∃ n rb' k touched, yxRoundbufPut s.rb (putBytes ptr length.toNat) length = some (n, rb') ∧
      final RbThreads.step s (.put ptr length :: List.replicate k .putStep) = { s with
        rb := rb'
        accepted := s.accepted ++ putBytes ptr n
        calls := s.calls ++ [⟨length, n⟩]
        touched := touched } := by
  have hb := h.fifo.size_bounds
  have hlen := h.fifo.len
  obtain ⟨k₀, hlimited⟩ := final_putLimited hidle ptr length
  obtain ⟨m, hm⟩ : ∃ m, m = min16 length (roundbufRoom s.rb) := ⟨_, rfl⟩
  have hmn : m.toNat = min length.toNat (s.rb.bufferSize.toNat - q.length) := by
    rw [hm, min16_toNat, roundbufRoom_toNat h.fifo]
  rw [← hm, RbThreads.putLimited] at hlimited
  unfold yxRoundbufPut
  dsimp only
  rw [show s.rb.bufferSize - s.rb.writeIndex + s.rb.readIndex = roundbufRoom s.rb from rfl, ← hm]
  by_cases hz : m = 0
  · rw [if_pos hz] at hlimited
    refine ⟨0, s.rb, k₀, s.touched, if_pos hz, ?_⟩
    rw [hlimited, ← hidle]
    simp [putBytes]
  rw [if_neg hz] at hlimited
  obtain ⟨s₁, hs₁⟩ : ∃ s₁ : RbThreads, s₁ = { s with put := .copies ptr length m 0 } := ⟨_, rfl⟩
  have hlaw : s₁.Law rb₀ q := by
    have hput := h.putLimited ptr length (show q.length + m.toNat ≤ _ by omega)
    rwa [RbThreads.putLimited, if_neg hz, ← hs₁] at hput
  obtain ⟨pool, touched, hcopied, -, hstored, hold⟩ :=
    final_putSteps (n := m.toNat) hlaw (by rw [hs₁]) le_rfl
  rw [hs₁] at hstored hold
  -- the cells that the copies have filled are those of the block write
  have hcopies := putCopies_eq (Nat.mod_lt s.rb.writeIndex.toNat hb.1) h.fifo.pool
    (show m.toNat ≤ (putBytes ptr length.toNat).length by rw [length_putBytes]; omega)
    (show m.toNat ≤ s.rb.bufferSize.toNat by omega)
    (show (min16 m (s.rb.bufferSize - (s.rb.writeIndex &&& (s.rb.bufferSize - 1)))).toNat = _ by
      rw [min16_toNat, h.fifo.toEnd, headPart])
  have htake : (putBytes ptr length.toNat).take m.toNat = putBytes ptr m.toNat := by
    rw [putBytes, ← List.map_take, List.take_range, Nat.min_eq_left (by omega)]
    rfl
  have hpool : pool = blockWrite s.rb.bufferPtr s.rb.bufferSize.toNat
      (s.rb.writeIndex.toNat % s.rb.bufferSize.toNat) (putBytes ptr m.toNat) := by
    have hcell (i : ℕ) : (s.rb.writeIndex.toNat % s.rb.bufferSize.toNat + i) %
        s.rb.bufferSize.toNat = (s.rb.readIndex.toNat + q.length + i) % s.rb.bufferSize.toNat := by
      rw [h.fifo.write_mod, Nat.mod_add_mod]
    refine eq_blockWrite (Nat.mod_lt _ hb.1) h.fifo.pool (by rw [length_putBytes]; omega) ?_
      fun j hj => hold j fun i hi => ?_
    · rw [h.fifo.write_mod]
      exact (stored_mod (dvd_refl _)).mpr hstored
    · rw [← hcell]
      exact hj i (by rwa [length_putBytes])
  rw [htake] at hcopies
  refine ⟨m.toNat, { s.rb with bufferPtr := pool, writeIndex := s.rb.writeIndex + m.toUInt32 },
    k₀ + (m.toNat + 1), touched, ?_, ?_⟩
  · rw [if_neg hz, h.fifo.mask, hcopies, hpool, Option.map_some]
  · rw [List.replicate_add, ← List.cons_append, final_append, hlimited, ← hs₁,
      List.replicate_succ', final_append, hcopied, final_cons, final_nil]
    unfold RbThreads.step
    dsimp only
    rw [if_neg (lt_irrefl _), hs₁, ← hidle]

/-- The copies of a get without steps of the other thread between them. -/
theorem final_getSteps (h : s.Law rb₀ q) (hpc : s.get = .copies asked length []) {n : ℕ}
    (hn : n ≤ length.toNat) : ∃ touched,
      final RbThreads.step s (List.replicate n .getStep) = { s with
        get := .copies asked length (q.take n)
        touched := touched } := by
  obtain ⟨hl, -, -⟩ := hpc ▸ h.get
  induction n with
  | zero => exact ⟨s.touched, by rw [List.take_zero, ← hpc]; rfl⟩
  | succ n ih =>
    obtain ⟨touched, hfinal⟩ := ih (by omega)
    have hlength : (q.take n).length = n := List.length_take_of_le (by omega)
    rw [List.replicate_succ', final_append, hfinal, final_cons, final_nil]
    unfold RbThreads.step
    dsimp only
    rw [hlength, if_pos (Nat.lt_of_succ_le hn), getD_copyCell h.fifo hn hl]
    exact ⟨_, rfl⟩

theorem final_getLimited (hidle : s.get = .idle) (length : UInt16) :
    ∃ k, final RbThreads.step s (.get length :: List.replicate k .getStep) =
      s.getLimited length (min16 length (roundbufUsed s.rb)) := by
  have hfirst : s.step (.get length) =
      if length.toUInt32 > roundbufUsed s.rb then { s with get := .limits length }
      else s.getLimited length length := by
    unfold RbThreads.step
    rw [hidle]
  unfold min16
  by_cases hc : length.toUInt32 > roundbufUsed s.rb
  · refine ⟨1, ?_⟩
    rw [final_cons, hfirst, if_pos hc, if_pos hc]
    rfl
  · refine ⟨0, ?_⟩
    rw [List.replicate_zero, final_cons, final_nil, hfirst, if_neg hc, if_neg hc,
      UInt16.toUInt16_toUInt32]

/-- A get that is not interrupted is `yx_roundbuf_get`. -/
theorem get_alone (h : s.Law rb₀ q) (hidle : s.get = .idle) (length : UInt16) :
    ∃ bytes rb' k touched, yxRoundbufGet s.rb length = some (bytes, rb') ∧
      final RbThreads.step s (.get length :: List.replicate k .getStep) = { s with
        rb := rb'
        returned := s.returned ++ bytes
        calls := s.calls ++ [⟨length, bytes.length⟩]
        touched := touched } := by
  have hb := h.fifo.size_bounds
  have hlen := h.fifo.len
  obtain ⟨k₀, hlimited⟩ := final_getLimited hidle length
  obtain ⟨m, hm⟩ : ∃ m, m = min16 length (roundbufUsed s.rb) := ⟨_, rfl⟩
  have hmn : m.toNat = min length.toNat q.length := by
    rw [hm, min16_toNat, roundbufUsed_toNat h.fifo]
  rw [← hm, RbThreads.getLimited] at hlimited
  unfold yxRoundbufGet
  dsimp only
  rw [show s.rb.writeIndex - s.rb.readIndex = roundbufUsed s.rb from rfl, ← hm]
  by_cases hz : m = 0
  · rw [if_pos hz] at hlimited
    refine ⟨[], s.rb, k₀, s.touched, if_pos hz, ?_⟩
    rw [hlimited, ← hidle]
    simp
  rw [if_neg hz] at hlimited
  obtain ⟨s₁, hs₁⟩ : ∃ s₁ : RbThreads, s₁ = { s with get := .copies length m [] } := ⟨_, rfl⟩
  have hlaw : s₁.Law rb₀ q := by
    have hget := h.getLimited length (show m.toNat ≤ q.length by omega)
    rwa [RbThreads.getLimited, if_neg hz, ← hs₁] at hget
  obtain ⟨touched, hcopied⟩ := final_getSteps (n := m.toNat) hlaw (by rw [hs₁]) le_rfl
  have hlength : (q.take m.toNat).length = m.toNat := List.length_take_of_le (by omega)
  have hcopies := getCopies_eq (Nat.mod_lt s.rb.readIndex.toNat hb.1) h.fifo.pool
    (show m.toNat ≤ s.rb.bufferSize.toNat by omega)
    (show (min16 m (s.rb.bufferSize - (s.rb.readIndex &&& (s.rb.bufferSize - 1)))).toNat = _ by
      rw [min16_toNat, h.fifo.toEnd, headPart])
  rw [h.fifo.stored.blockRead hb.1 h.fifo.pool hlen (by omega)] at hcopies
  refine ⟨q.take m.toNat, { s.rb with readIndex := s.rb.readIndex + m.toUInt32 },
    k₀ + (m.toNat + 1), touched, ?_, ?_⟩
  · rw [if_neg hz, h.fifo.mask, hcopies, Option.map_some]
  · rw [List.replicate_add, ← List.cons_append, final_append, hlimited, ← hs₁,
      List.replicate_succ', final_append, hcopied, final_cons, final_nil]
    unfold RbThreads.step
    dsimp only
    rw [hlength, if_neg (lt_irrefl _), hs₁, ← hidle]

/-! ### The caller's bytes -/

end RbThreads

def PutPc.looks : PutPc → Bool
  | .limits _ _ => true
  | _ => false

def GetPc.looks : GetPc → Bool
  | .limits _ => true
  | _ => false

namespace RbThreads

/-- No index moves while the other thread is between its two looks at it. -/
def Undisturbed (s : RbThreads) : RbAct → Prop
  | .putStep => s.get.looks = true → (s.step .putStep).rb.writeIndex = s.rb.writeIndex
  | .getStep => s.put.looks = true → (s.step .getStep).rb.readIndex = s.rb.readIndex
  | _ => True

/-- No call copies more bytes than it was given or has room for. -/
structure Modest (s : RbThreads) : Prop where
  calls : ∀ call ∈ s.calls, call.copied ≤ call.asked.toNat
  put : match s.put with
    | .idle => True
    | .limits _ asked => (roundbufRoom s.rb).toNat < asked.toNat
    | .copies _ asked length _ => length.toNat ≤ asked.toNat
  get : match s.get with
    | .idle => True
    | .limits asked => (roundbufUsed s.rb).toNat < asked.toNat
    | .copies asked length _ => length.toNat ≤ asked.toNat

section Modest
variable {s : RbThreads} {asked length : UInt16}

theorem forall_calls_snoc {calls : List RbCall} {n : ℕ}
    (h : ∀ call ∈ calls, call.copied ≤ call.asked.toNat) (hn : n ≤ asked.toNat) :
    ∀ call ∈ calls ++ [⟨asked, n⟩], call.copied ≤ call.asked.toNat :=
  List.forall_mem_append.mpr ⟨h, List.forall_mem_singleton.mpr hn⟩

theorem Modest.putLimited (h : s.Modest) (ptr : ℕ → UInt8) (hl : length.toNat ≤ asked.toNat) :
    (s.putLimited ptr asked length).Modest := by
  unfold RbThreads.putLimited
  split_ifs
  · exact ⟨forall_calls_snoc h.calls (Nat.zero_le _), trivial, h.get⟩
  · exact ⟨h.calls, hl, h.get⟩

theorem Modest.getLimited (h : s.Modest) (hl : length.toNat ≤ asked.toNat) :
    (s.getLimited asked length).Modest := by
  unfold RbThreads.getLimited
  split_ifs
  · exact ⟨forall_calls_snoc h.calls (Nat.zero_le _), h.put, trivial⟩
  · exact ⟨h.calls, h.put, hl⟩

theorem toUInt16_le {room : UInt32} (h : room.toNat < asked.toNat) :
    room.toUInt16.toNat ≤ asked.toNat := by
  rw [UInt32.toNat_toUInt16]
  exact (Nat.mod_le _ _).trans h.le

theorem Modest.putStep (h : s.Modest) (hu : s.Undisturbed .putStep) :
    (s.step .putStep).Modest := by
  have hput := h.put
  have hget := h.get
  unfold Undisturbed at hu
  unfold RbThreads.step at hu ⊢
  cases hpc : s.put with
  | idle => exact h
  | limits ptr asked =>
    rw [hpc] at hput
    exact h.putLimited ptr (toUInt16_le hput)
  | copies ptr asked length i =>
    rw [hpc] at hput
    rw [hpc] at hu
    dsimp only at hu ⊢
    split_ifs at hu ⊢ with hi
    · exact ⟨h.calls, hput, hget⟩
    · refine ⟨forall_calls_snoc h.calls hput, trivial, ?_⟩
      dsimp only
      cases hgetpc : s.get with
      | limits asked' =>
        have hkept := hu (congrArg GetPc.looks hgetpc)
        rw [hgetpc] at hget
        unfold roundbufUsed at hget ⊢
        rw [hkept]
        exact hget
      | idle => trivial
      | copies asked' length' out =>
        rw [hgetpc] at hget
        exact hget

theorem Modest.getStep (h : s.Modest) (hu : s.Undisturbed .getStep) :
    (s.step .getStep).Modest := by
  have hput := h.put
  have hget := h.get
  unfold Undisturbed at hu
  unfold RbThreads.step at hu ⊢
  cases hpc : s.get with
  | idle => exact h
  | limits asked =>
    rw [hpc] at hget
    exact h.getLimited (toUInt16_le hget)
  | copies asked length out =>
    rw [hpc] at hget
    rw [hpc] at hu
    dsimp only at hu ⊢
    split_ifs at hu ⊢ with hi
    · exact ⟨h.calls, hput, hget⟩
    · refine ⟨forall_calls_snoc h.calls hget, ?_, trivial⟩
      dsimp only
      cases hputpc : s.put with
      | limits ptr asked' =>
        have hkept := hu (congrArg PutPc.looks hputpc)
        rw [hputpc] at hput
        unfold roundbufRoom at hput ⊢
        rw [hkept]
        exact hput
      | idle => trivial
      | copies ptr asked' length' i =>
        rw [hputpc] at hput
        exact hput

theorem Modest.step (h : s.Modest) (act : RbAct) (hu : s.Undisturbed act) :
    (s.step act).Modest := by
  cases act with
  | putStep => exact h.putStep hu
  | getStep => exact h.getStep hu
  | put ptr length =>
    unfold RbThreads.step
    cases hpc : s.put with
    | idle =>
      dsimp only
      split_ifs with hc
      · rw [gt_iff_lt, UInt32.lt_iff_toNat_lt, UInt16.toNat_toUInt32] at hc
        exact ⟨h.calls, hc, h.get⟩
      · exact h.putLimited ptr le_rfl
    | limits => exact h
    | copies => exact h
  | get length =>
    unfold RbThreads.step
    cases hpc : s.get with
    | idle =>
      dsimp only
      split_ifs with hc
      · rw [gt_iff_lt, UInt32.lt_iff_toNat_lt, UInt16.toNat_toUInt32] at hc
        exact ⟨h.calls, h.put, hc⟩
      · exact h.getLimited le_rfl
    | limits => exact h
    | copies => exact h

end Modest

/-! ### Runs -/

section Runs
variable {pool : List UInt8} {size : UInt16}

theorem Law.init (hs : 1 ≤ size.toNat) (hp : pool.length = size.toNat) :
    (RbThreads.init pool size).Law (yxRoundbufInit pool size) [] := by
  obtain ⟨k, hk, hsize, hle⟩ := yxRoundbufInit_size pool hs
  have hpool : (yxRoundbufInit pool size).bufferSize.toNat ≤ pool.length := hp ▸ hle
  exact ⟨⟨⟨k, hk, hsize⟩, hpool, Nat.zero_le _, rfl, Stored.nil _ _ _⟩, rfl, rfl, rfl, trivial,
    trivial, nofun⟩

theorem Law.run {rb₀ : YxRoundbuf} {s : RbThreads} {q : List UInt8} (h : s.Law rb₀ q)
    (acts : List RbAct) : ∃ q', (final RbThreads.step s acts).Law rb₀ q' := by
  induction acts generalizing s q with
  | nil => exact ⟨q, h⟩
  | cons act acts ih =>
    obtain ⟨q₁, h₁⟩ := h.step act
    exact ih h₁

/-- However the steps of the two threads lie, only cells of the pool are touched, and what was returned
followed by what the ring holds is what was accepted. No call copies more bytes than it was asked for
while no index moves between the two looks at it. -/
theorem roundbuf_threads_fifo (hs : 1 ≤ size.toNat) (hp : pool.length = size.toNat)
    (acts : List RbAct) :
    let s := final RbThreads.step (.init pool size) acts
    s.returned ++ storedBytes s.rb = s.accepted ∧
      (∀ cell ∈ s.touched, cell < pool.length) ∧
      (yxRoundbufDataLen s.rb).toNat + (yxRoundbufSpaceLen s.rb).toNat =
        (yxRoundbufGetSize s.rb).toNat ∧
      (Always RbThreads.step Undisturbed (.init pool size) acts →
        ∀ call ∈ s.calls, call.copied ≤ call.asked.toNat) := by
  intro s
  obtain ⟨q, hlaw⟩ := (Law.init hs hp).run acts
  obtain ⟨-, -, -, hle⟩ := yxRoundbufInit_size pool hs
  have hlen := hlaw.fifo.len
  refine ⟨?_, fun cell hcell => ?_, ?_, fun hu => ?_⟩
  · rw [hlaw.fifo.storedBytes, hlaw.bytes]
  · exact (hlaw.touched cell hcell).trans_le (hle.trans_eq hp.symm)
  · rw [hlaw.fifo.dataLen, hlaw.fifo.spaceLen, hlaw.fifo.getSize]
    omega
  · have hmodest : (RbThreads.init pool size).Modest := ⟨nofun, trivial, trivial⟩
    exact (hu.final (fun s act h hact => h.step act hact) hmodest).calls

theorem roundbuf_threads_fifo_four :
    (1 ≤ (4 : UInt16).toNat ∧ [0, 0, 0, 0].length = (4 : UInt16).toNat) ∧
    let s := final RbThreads.step (.init [0, 0, 0, 0] 4)
      [.put (fun _ => 7) 2, .putStep, .get 1, .putStep, .putStep, .get 1, .getStep, .getStep]
    s.returned ++ storedBytes s.rb = s.accepted ∧ (∀ cell ∈ s.touched, cell < [0, 0, 0, 0].length) ∧
      (yxRoundbufDataLen s.rb).toNat + (yxRoundbufSpaceLen s.rb).toNat =
        (yxRoundbufGetSize s.rb).toNat ∧
      (Always RbThreads.step Undisturbed (.init [0, 0, 0, 0] 4)
          [.put (fun _ => 7) 2, .putStep, .get 1, .putStep, .putStep, .get 1, .getStep, .getStep] →
        ∀ call ∈ s.calls, call.copied ≤ call.asked.toNat) :=
  ⟨⟨by decide, rfl⟩, roundbuf_threads_fifo (by decide) rfl _⟩

/-- A get of three bytes finds one, and then four when it looks again. -/
theorem get_overruns :
    let s := final RbThreads.step (.init [0, 0, 0, 0] 4)
      [.put (fun _ => 7) 1, .putStep, .putStep, .get 3, .put (fun _ => 8) 3, .putStep, .putStep,
        .putStep, .putStep, .getStep, .getStep, .getStep, .getStep, .getStep, .getStep]
    ⟨3, 4⟩ ∈ s.calls := by decide

end Runs

end RbThreads

end Tulux.SerialLink
