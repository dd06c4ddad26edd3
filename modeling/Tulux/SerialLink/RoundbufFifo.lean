import Tulux.Lib.GuardedRun
import Tulux.SerialLink.Roundbuf

/-! The ring buffer refines a bounded queue, over every run and across index wrap-around. -/
namespace Tulux.SerialLink
open GuardedRun RingStore

/-- The buffer holds the queue `q`. The write index is the read index advanced by the length of
the queue in 32-bit arithmetic. -/
structure Fifo (rb : YxRoundbuf) (q : List UInt8) : Prop where
  size : ∃ k ≤ 15, rb.bufferSize.toNat = 2 ^ k
  pool : rb.bufferSize.toNat ≤ rb.bufferPtr.length
  len : q.length ≤ rb.bufferSize.toNat
  write : rb.writeIndex.toNat = (rb.readIndex.toNat + q.length) % 2 ^ 32
  stored : Stored rb.bufferPtr rb.bufferSize.toNat rb.readIndex.toNat q

/-- One call leads from `rb` to a buffer of the same size, in the same pool, that holds `q`. -/
structure FifoStep (rb rb' : YxRoundbuf) (q : List UInt8) : Prop where
  fifo : Fifo rb' q
  size : rb'.bufferSize = rb.bufferSize
  pool : rb'.bufferPtr.length = rb.bufferPtr.length

theorem FifoStep.refl {rb : YxRoundbuf} {q : List UInt8} (h : Fifo rb q) : FifoStep rb rb q :=
  ⟨h, rfl, rfl⟩

@[simp] theorem min16_toNat (length : UInt16) (bound : UInt32) :
    (min16 length bound).toNat = min length.toNat bound.toNat := by
  have hlt : length.toNat < 65536 := length.toNat_lt
  unfold min16
  split_ifs with h
  · have hb : bound.toNat < length.toNat := by simpa [UInt32.lt_iff_toNat_lt] using h
    rw [Nat.min_eq_right hb.le]
    simp only [UInt32.toNat_toUInt16]
    omega
  · have hb : length.toNat ≤ bound.toNat := by simpa [UInt32.lt_iff_toNat_lt] using h
    rw [Nat.min_eq_left hb]
    simp

namespace Fifo
variable {rb : YxRoundbuf} {q : List UInt8}

theorem size_bounds (h : Fifo rb q) :
    0 < rb.bufferSize.toNat ∧ rb.bufferSize.toNat ≤ 32768 := by
  obtain ⟨k, hk, hs⟩ := h.size
  have hpos : 0 < 2 ^ k := Nat.two_pow_pos k
  have hle : 2 ^ k ≤ 2 ^ 15 := Nat.pow_le_pow_right (by norm_num) hk
  omega

theorem size_dvd (h : Fifo rb q) : rb.bufferSize.toNat ∣ 2 ^ 32 := by
  obtain ⟨k, hk, hs⟩ := h.size
  rw [hs]
  exact pow_dvd_pow 2 (by omega)

/-- The mask of the C code is the remainder by the buffer size. -/
theorem mask (h : Fifo rb q) (x : UInt32) :
    (x &&& (rb.bufferSize - 1)).toNat = x.toNat % rb.bufferSize.toNat := by
  have hb := h.size_bounds
  have hone : (1 : UInt32) ≤ rb.bufferSize := by
    rw [UInt32.le_iff_toNat_le]
    exact hb.1
  rw [UInt32.toNat_and, UInt32.toNat_sub_of_le _ _ hone]
  obtain ⟨k, _, hs⟩ := h.size
  rw [hs]
  exact Nat.and_two_pow_sub_one_eq_mod _ _

theorem used (h : Fifo rb q) : (rb.writeIndex - rb.readIndex).toNat = q.length := by
  have hb := h.size_bounds
  have hr : rb.readIndex.toNat < 2 ^ 32 := rb.readIndex.toNat_lt
  have hl := h.len
  rw [UInt32.toNat_sub, h.write]
  omega

theorem space (h : Fifo rb q) :
    (rb.bufferSize - rb.writeIndex + rb.readIndex).toNat = rb.bufferSize.toNat - q.length := by
  have hb := h.size_bounds
  have hr : rb.readIndex.toNat < 2 ^ 32 := rb.readIndex.toNat_lt
  have hl := h.len
  rw [UInt32.toNat_add, UInt32.toNat_sub, h.write]
  omega

theorem toEnd (h : Fifo rb q) (x : UInt32) :
    (rb.bufferSize - (x &&& (rb.bufferSize - 1))).toNat =
      rb.bufferSize.toNat - x.toNat % rb.bufferSize.toNat := by
  have hlt := Nat.mod_lt x.toNat h.size_bounds.1
  rw [UInt32.toNat_sub_of_le, h.mask]
  rw [UInt32.le_iff_toNat_le, h.mask]
  exact hlt.le

theorem write_mod (h : Fifo rb q) : rb.writeIndex.toNat % rb.bufferSize.toNat =
    (rb.readIndex.toNat + q.length) % rb.bufferSize.toNat := by
  rw [h.write, Nat.mod_mod_of_dvd _ h.size_dvd]

/-- Appending a block moves the write index and leaves the queue stored. -/
private theorem push (h : Fifo rb q) {src : List UInt8} {n : UInt32} (hn : n.toNat = src.length)
    (hroom : q.length + src.length ≤ rb.bufferSize.toNat) :
    FifoStep rb { rb with
      bufferPtr := blockWrite rb.bufferPtr rb.bufferSize.toNat
        (rb.writeIndex.toNat % rb.bufferSize.toNat) src
      writeIndex := rb.writeIndex + n } (q ++ src) := by
  have hb := h.size_bounds
  have hp : rb.writeIndex.toNat % rb.bufferSize.toNat < rb.bufferSize.toNat :=
    Nat.mod_lt _ hb.1
  have hkeep := length_blockWrite hp h.pool (show src.length ≤ _ by omega)
  refine ⟨⟨h.size, ?_, ?_, ?_, ?_⟩, rfl, hkeep⟩
  · dsimp only
    rw [hkeep]
    exact h.pool
  · simpa using hroom
  · simp only [UInt32.toNat_add, h.write, hn, List.length_append]
    omega
  · dsimp only
    rw [h.write_mod]
    exact h.stored.blockWrite hb.1 h.pool hroom

/-- Removing a block moves the read index, also when it wraps. -/
private theorem pop (h : Fifo rb q) {n : UInt32} (hn : n.toNat ≤ q.length) :
    FifoStep rb { rb with readIndex := rb.readIndex + n } (q.drop n.toNat) := by
  have hb := h.size_bounds
  have hl := h.len
  have hr : rb.readIndex.toNat < 2 ^ 32 := rb.readIndex.toNat_lt
  refine ⟨⟨h.size, h.pool, ?_, ?_, ?_⟩, rfl, rfl⟩
  · dsimp only
    rw [List.length_drop]
    omega
  · dsimp only
    rw [h.write, UInt32.toNat_add, List.length_drop]
    omega
  · dsimp only
    rw [UInt32.toNat_add]
    exact (stored_mod h.size_dvd).mpr (h.stored.drop _)

end Fifo

private theorem splice_zero_nil (cells : List UInt8) : splice cells 0 [] = cells := by
  simp [splice]

section Copies
variable {pool : List UInt8} {cap off : ℕ} {l m : UInt16}

/-- The two copies of a put are one block write modulo the buffer size. -/
theorem putCopies_eq {ptr : List UInt8} (hoff : off < cap) (hpool : cap ≤ pool.length)
    (hm : m.toNat ≤ ptr.length) (hmc : m.toNat ≤ cap) (hl : l.toNat = headPart cap off m.toNat) :
    putCopies pool off ptr l m = some (blockWrite pool cap off (ptr.take m.toNat)) := by
  have hle : l.toNat ≤ m.toNat := hl ▸ Nat.min_le_left _ _
  have hle' : l.toNat ≤ cap - off := hl ▸ Nat.min_le_right _ _
  have hblock : blockWrite pool cap off (ptr.take m.toNat) =
      splice (splice pool off (ptr.take l.toNat)) 0
        ((ptr.drop l.toNat).take (m.toNat - l.toNat)) := by
    rw [blockWrite, List.length_take, Nat.min_eq_left hm, ← hl, List.take_take,
      Nat.min_eq_left hle, List.drop_take]
  have hfirst : memcpyTo pool off ptr l.toNat = some (splice pool off (ptr.take l.toNat)) := by
    rw [memcpyTo, if_pos]
    omega
  rw [putCopies, hfirst, Option.bind_some, hblock]
  split_ifs with hlt
  · have hsub : (m - l).toNat = m.toNat - l.toNat :=
      UInt16.toNat_sub_of_le _ _ (UInt16.le_iff_toNat_le.mpr hle)
    have hs : off + (ptr.take l.toNat).length ≤ pool.length := by
      rw [List.length_take]
      omega
    rw [memcpyTo, hsub, if_pos]
    rw [length_splice hs, List.length_drop]
    omega
  · have heq : m.toNat = l.toNat := by
      rw [UInt16.lt_iff_toNat_lt] at hlt
      omega
    rw [heq, Nat.sub_self, List.take_zero, splice_zero_nil]

theorem getCopies_eq (hoff : off < cap) (hpool : cap ≤ pool.length) (hmc : m.toNat ≤ cap)
    (hl : l.toNat = headPart cap off m.toNat) :
    getCopies pool off l m = some (blockRead pool cap off m.toNat) := by
  have hle : l.toNat ≤ m.toNat := hl ▸ Nat.min_le_left _ _
  have hle' : l.toNat ≤ cap - off := hl ▸ Nat.min_le_right _ _
  have hfirst : memcpyFrom pool off l.toNat = some ((pool.drop off).take l.toNat) := by
    rw [memcpyFrom, if_pos]
    omega
  rw [getCopies, hfirst, Option.bind_some, blockRead, ← hl]
  split_ifs with hlt
  · have hsub : (m - l).toNat = m.toNat - l.toNat :=
      UInt16.toNat_sub_of_le _ _ (UInt16.le_iff_toNat_le.mpr hle)
    rw [memcpyFrom, hsub, if_pos (by omega), List.drop_zero, Option.map_some]
  · have heq : m.toNat = l.toNat := by
      rw [UInt16.lt_iff_toNat_lt] at hlt
      omega
    rw [heq, Nat.sub_self, List.take_zero, List.append_nil]

end Copies

section Operations
variable {rb : YxRoundbuf} {q : List UInt8}

/-- A put accepts as many of its bytes as there is room for. -/
theorem yxRoundbufPut_fifo (h : Fifo rb q) {ptr : List UInt8} {length : UInt16}
    (hl : length.toNat ≤ ptr.length) :
    ∃ n rb', yxRoundbufPut rb ptr length = some (n, rb') ∧ FifoStep rb rb' (q ++ ptr.take n) ∧
      n = min length.toNat (rb.bufferSize.toNat - q.length) := by
  have hb := h.size_bounds
  have hlen := h.len
  set m := min16 length (rb.bufferSize - rb.writeIndex + rb.readIndex) with hm
  have hmn : m.toNat = min length.toNat (rb.bufferSize.toNat - q.length) := by
    rw [hm, min16_toNat, h.space]
  by_cases hz : m = 0
  · have hzero : m.toNat = 0 := by simp [hz]
    exact ⟨0, rb, by simp [yxRoundbufPut, ← hm, hz], by simpa using FifoStep.refl h,
      hzero.symm.trans hmn⟩
  have hcopy := putCopies_eq (Nat.mod_lt rb.writeIndex.toNat hb.1) h.pool
    (show m.toNat ≤ ptr.length by omega) (by omega)
    (show (min16 m (rb.bufferSize - (rb.writeIndex &&& (rb.bufferSize - 1)))).toNat = _ by
      rw [min16_toNat, h.toEnd, headPart])
  refine ⟨m.toNat, { rb with
    bufferPtr := blockWrite rb.bufferPtr rb.bufferSize.toNat
      (rb.writeIndex.toNat % rb.bufferSize.toNat) (ptr.take m.toNat)
    writeIndex := rb.writeIndex + m.toUInt32 }, ?_, ?_, hmn⟩
  · simp only [yxRoundbufPut, ← hm, if_neg hz, h.mask, hcopy, Option.map_some]
  · have htake : (ptr.take m.toNat).length = m.toNat := by
      rw [List.length_take]
      omega
    exact h.push (by rw [htake, UInt16.toNat_toUInt32]) (by rw [htake]; omega)

/-- A get returns the oldest bytes. -/
theorem yxRoundbufGet_fifo (h : Fifo rb q) (length : UInt16) :
    ∃ n rb', yxRoundbufGet rb length = some (q.take n, rb') ∧ FifoStep rb rb' (q.drop n) ∧
      n = min length.toNat q.length := by
  have hb := h.size_bounds
  have hlen := h.len
  set m := min16 length (rb.writeIndex - rb.readIndex) with hm
  have hmn : m.toNat = min length.toNat q.length := by rw [hm, min16_toNat, h.used]
  by_cases hz : m = 0
  · have hzero : m.toNat = 0 := by simp [hz]
    exact ⟨0, rb, by simp [yxRoundbufGet, ← hm, hz], by simpa using FifoStep.refl h,
      hzero.symm.trans hmn⟩
  have hcopy := getCopies_eq (Nat.mod_lt rb.readIndex.toNat hb.1) h.pool
    (show m.toNat ≤ rb.bufferSize.toNat by omega)
    (show (min16 m (rb.bufferSize - (rb.readIndex &&& (rb.bufferSize - 1)))).toNat = _ by
      rw [min16_toNat, h.toEnd, headPart])
  rw [h.stored.blockRead hb.1 h.pool hlen (by omega)] at hcopy
  refine ⟨m.toNat, { rb with readIndex := rb.readIndex + m.toUInt32 }, ?_, ?_, hmn⟩
  · simp only [yxRoundbufGet, ← hm, if_neg hz, h.mask, hcopy, Option.map_some]
  · have hn : m.toUInt32.toNat = m.toNat := UInt16.toNat_toUInt32 m
    have hpop := h.pop (n := m.toUInt32) (by omega)
    rwa [hn] at hpop

theorem yxRoundbufPutchar_fifo (h : Fifo rb q) (ch : UInt8) :
    ∃ n rb', yxRoundbufPutchar rb ch = some (n, rb') ∧ FifoStep rb rb' (q ++ [ch].take n) := by
  have hb := h.size_bounds
  have hpool := h.pool
  by_cases hz : rb.bufferSize - rb.writeIndex + rb.readIndex = 0
  · exact ⟨0, rb, by simp [yxRoundbufPutchar, hz], by simpa using FifoStep.refl h⟩
  have hfree : 0 < rb.bufferSize.toNat - q.length := by
    rw [← h.space, Nat.pos_iff_ne_zero]
    exact fun hc => hz (UInt32.toNat_inj.mp hc)
  have hp := Nat.mod_lt rb.writeIndex.toNat hb.1
  have hcopy : memcpyTo rb.bufferPtr (rb.writeIndex &&& (rb.bufferSize - 1)).toNat [ch] 1 =
      some (blockWrite rb.bufferPtr rb.bufferSize.toNat
        (rb.writeIndex.toNat % rb.bufferSize.toNat) [ch]) := by
    have hhead : headPart rb.bufferSize.toNat (rb.writeIndex.toNat % rb.bufferSize.toNat) 1 = 1 :=
      Nat.min_eq_left (by omega)
    rw [memcpyTo, h.mask, if_pos ⟨by omega, by simp⟩]
    simp only [blockWrite, List.length_singleton, hhead, List.drop_succ_cons, List.drop_nil,
      splice_zero_nil]
  have hpush := h.push (show (1 : UInt32).toNat = [ch].length from rfl) (by simp; omega)
  refine ⟨1, _, ?_, hpush⟩
  simp only [yxRoundbufPutchar, if_neg hz, hcopy, Option.map_some]

theorem yxRoundbufGetchar_fifo (h : Fifo rb q) :
    ∃ n rb', yxRoundbufGetchar rb = some (q.take n, rb') ∧ FifoStep rb rb' (q.drop n) := by
  have hb := h.size_bounds
  have hpool := h.pool
  by_cases hz : rb.writeIndex - rb.readIndex = 0
  · exact ⟨0, rb, by simp [yxRoundbufGetchar, hz], by simpa using FifoStep.refl h⟩
  have hone : 1 ≤ q.length := by
    rw [Nat.one_le_iff_ne_zero, ← h.used]
    exact fun hc => hz (UInt32.toNat_inj.mp hc)
  have hp := Nat.mod_lt rb.readIndex.toNat hb.1
  have hread := h.stored.blockRead hb.1 hpool h.len hone
  have hcopy : memcpyFrom rb.bufferPtr (rb.readIndex &&& (rb.bufferSize - 1)).toNat 1 =
      some (q.take 1) := by
    have hhead : headPart rb.bufferSize.toNat (rb.readIndex.toNat % rb.bufferSize.toNat) 1 = 1 :=
      Nat.min_eq_left (by omega)
    rw [memcpyFrom, h.mask, if_pos (by omega), ← hread, blockRead, hhead, Nat.sub_self,
      List.take_zero, List.append_nil]
  refine ⟨1, _, ?_, h.pop (n := 1) hone⟩
  simp only [yxRoundbufGetchar, if_neg hz, hcopy, Option.map_some]

end Operations

/-! ### Runs -/

/-- A call on an initialised buffer. The source of a put holds at least `length` bytes. -/
inductive RbOp where
  | put (ptr : List UInt8) (length : UInt16) (h : length.toNat ≤ ptr.length)
  | get (length : UInt16)
  | putchar (ch : UInt8)
  | getchar

/-- A buffer with the bytes its puts have accepted and the bytes its gets have returned. -/
structure RbRun where
  rb : YxRoundbuf
  accepted : List UInt8
  returned : List UInt8

def RbRun.step (s : RbRun) : RbOp → Option RbRun
  | .put ptr length _ => (yxRoundbufPut s.rb ptr length).map fun (n, rb) =>
      { s with rb := rb, accepted := s.accepted ++ ptr.take n }
  | .get length => (yxRoundbufGet s.rb length).map fun (bytes, rb) =>
      { s with rb := rb, returned := s.returned ++ bytes }
  | .putchar ch => (yxRoundbufPutchar s.rb ch).map fun (n, rb) =>
      { s with rb := rb, accepted := s.accepted ++ [ch].take n }
  | .getchar => (yxRoundbufGetchar s.rb).map fun (bytes, rb) =>
      { s with rb := rb, returned := s.returned ++ bytes }

def RbRun.init (pool : List UInt8) (size : UInt16) : RbRun :=
  ⟨yxRoundbufInit pool size, [], []⟩

def RbRun.run (s : RbRun) (ops : List RbOp) : Option RbRun := ops.foldlM RbRun.step s

/-- The bytes in the buffer, oldest first. -/
def storedBytes (rb : YxRoundbuf) : List UInt8 :=
  (List.range (yxRoundbufDataLen rb).toNat).map fun i =>
    rb.bufferPtr.getD ((rb.readIndex.toNat + i) % rb.bufferSize.toNat) 0

/-- The queue law: what was returned, followed by the queue, is what was accepted. -/
structure RbRun.Law (rb₀ : YxRoundbuf) (s : RbRun) : Prop where
  size : s.rb.bufferSize = rb₀.bufferSize
  pool : s.rb.bufferPtr.length = rb₀.bufferPtr.length
  queue : ∃ q, Fifo s.rb q ∧ s.returned ++ q = s.accepted

section Queue
variable {rb : YxRoundbuf} {q : List UInt8}

theorem Fifo.dataLen (h : Fifo rb q) : (yxRoundbufDataLen rb).toNat = q.length := by
  have hb := h.size_bounds
  have hl := h.len
  simp only [yxRoundbufDataLen, UInt32.toNat_toUInt16, h.used]
  omega

theorem Fifo.getSize (h : Fifo rb q) : (yxRoundbufGetSize rb).toNat = rb.bufferSize.toNat := by
  have hb := h.size_bounds
  simp only [yxRoundbufGetSize, UInt32.toNat_toUInt16]
  omega

theorem Fifo.spaceLen (h : Fifo rb q) :
    (yxRoundbufSpaceLen rb).toNat = rb.bufferSize.toNat - q.length := by
  have hb := h.size_bounds
  simp only [yxRoundbufSpaceLen, UInt32.toNat_toUInt16, h.space]
  omega

theorem Fifo.storedBytes (h : Fifo rb q) : storedBytes rb = q := by
  apply List.ext_getElem
  · simp [SerialLink.storedBytes, h.dataLen]
  · intro i hi hq
    simp [SerialLink.storedBytes, h.stored i hq]

end Queue

theorem RbRun.Law.init {pool : List UInt8} {size : UInt16} (hs : 1 ≤ size.toNat)
    (hp : pool.length = size.toNat) :
    (RbRun.init pool size).Law (yxRoundbufInit pool size) := by
  obtain ⟨k, hk, hsize, hle⟩ := yxRoundbufInit_size pool hs
  have hpool : (yxRoundbufInit pool size).bufferSize.toNat ≤ pool.length := hp ▸ hle
  exact ⟨rfl, rfl, [], ⟨⟨k, hk, hsize⟩, hpool, Nat.zero_le _, rfl, Stored.nil _ _ _⟩, rfl⟩

/-- No call faults, and each call keeps the queue law. -/
theorem RbRun.Law.step {s : RbRun} {rb₀ : YxRoundbuf} (h : s.Law rb₀) (op : RbOp) :
    ∃ s', s.step op = some s' ∧ s'.Law rb₀ := by
  obtain ⟨hsize, hpool, q, hf, hq⟩ := h
  cases op with
  | put ptr length hl =>
    obtain ⟨n, rb', hput, hs, -⟩ := yxRoundbufPut_fifo hf hl
    refine ⟨_, by rw [RbRun.step, hput, Option.map_some], ?_, ?_, _, hs.fifo, ?_⟩
    · exact hs.size.trans hsize
    · exact hs.pool.trans hpool
    · rw [← List.append_assoc, hq]
  | get length =>
    obtain ⟨n, rb', hget, hs, -⟩ := yxRoundbufGet_fifo hf length
    refine ⟨_, by rw [RbRun.step, hget, Option.map_some], ?_, ?_, _, hs.fifo, ?_⟩
    · exact hs.size.trans hsize
    · exact hs.pool.trans hpool
    · rw [List.append_assoc, List.take_append_drop, hq]
  | putchar ch =>
    obtain ⟨n, rb', hput, hs⟩ := yxRoundbufPutchar_fifo hf ch
    refine ⟨_, by rw [RbRun.step, hput, Option.map_some], ?_, ?_, _, hs.fifo, ?_⟩
    · exact hs.size.trans hsize
    · exact hs.pool.trans hpool
    · rw [← List.append_assoc, hq]
  | getchar =>
    obtain ⟨n, rb', hget, hs⟩ := yxRoundbufGetchar_fifo hf
    refine ⟨_, by rw [RbRun.step, hget, Option.map_some], ?_, ?_, _, hs.fifo, ?_⟩
    · exact hs.size.trans hsize
    · exact hs.pool.trans hpool
    · rw [List.append_assoc, List.take_append_drop, hq]

theorem RbRun.Law.run {s : RbRun} {rb₀ : YxRoundbuf} (h : s.Law rb₀) (ops : List RbOp) :
    ∃ s', s.run ops = some s' ∧ s'.Law rb₀ :=
  foldlM_keeps (fun _ op _ hlaw => hlaw.step op) h

/-- Every run stays inside the pool, and what it returned followed by what it still stores is
what it accepted. -/
theorem yxRoundbuf_run_fifo {pool : List UInt8} {size : UInt16} (hs : 1 ≤ size.toNat)
    (hp : pool.length = size.toNat) (ops : List RbOp) :
    ∃ s, (RbRun.init pool size).run ops = some s ∧
      s.returned ++ storedBytes s.rb = s.accepted ∧
      (yxRoundbufDataLen s.rb).toNat + (yxRoundbufSpaceLen s.rb).toNat =
        (yxRoundbufGetSize s.rb).toNat ∧
      (∃ k, (yxRoundbufGetSize s.rb).toNat = 2 ^ k) ∧
      (yxRoundbufGetSize s.rb).toNat ≤ size.toNat ∧ s.rb.bufferPtr.length = size.toNat := by
  obtain ⟨s, hrun, hsize, hpool, q, hf, hq⟩ := (RbRun.Law.init hs hp).run ops
  obtain ⟨k, _, hpow, hle⟩ := yxRoundbufInit_size pool hs
  have hl := hf.len
  refine ⟨s, hrun, ?_, ?_, ⟨k, ?_⟩, ?_, hpool.trans hp⟩
  · rw [hf.storedBytes, hq]
  · rw [hf.dataLen, hf.spaceLen, hf.getSize]
    omega
  · rw [hf.getSize, hsize, hpow]
  · rw [hf.getSize, hsize]
    exact hle

theorem yxRoundbuf_run_fifo_three :
    (1 ≤ (3 : UInt16).toNat ∧ [0, 0, 0].length = (3 : UInt16).toNat) ∧
    ∃ s, (RbRun.init [0, 0, 0] 3).run
        [.put [1, 2, 3] 3 (by decide), .get 1, .putchar 4, .getchar] = some s ∧
      s.returned ++ storedBytes s.rb = s.accepted ∧
      (yxRoundbufDataLen s.rb).toNat + (yxRoundbufSpaceLen s.rb).toNat =
        (yxRoundbufGetSize s.rb).toNat ∧
      (∃ k, (yxRoundbufGetSize s.rb).toNat = 2 ^ k) ∧
      (yxRoundbufGetSize s.rb).toNat ≤ (3 : UInt16).toNat ∧
      s.rb.bufferPtr.length = (3 : UInt16).toNat :=
  ⟨⟨by decide, rfl⟩, yxRoundbuf_run_fifo (by decide) rfl _⟩

end Tulux.SerialLink
