import Mathlib.Tactic
import Tulux.Lib.RingStore

/-! The ring buffer of `yx_roundbuf.c`. Indices are 32-bit and run free; lengths are 16-bit.
An access outside the pool has no result. -/
namespace Tulux.SerialLink

/-- `yx_roundbuf_t`, with the pool the buffer pointer points to. -/
structure YxRoundbuf where
  bufferPtr : List UInt8
  readIndex : UInt32
  writeIndex : UInt32
  bufferSize : UInt32
  deriving DecidableEq, Repr

def isPowerOf2 (n : UInt32) : Bool := n != 0 && (n &&& (n - 1)) == 0

/-- The loop `for (i = a; i != 0; i >>= 1) position++`. -/
def shiftPosition (i : ℕ) : ℕ :=
  if i = 0 then 0 else shiftPosition (i / 2) + 1

def roundupPowerOf2 (a : UInt32) : UInt32 :=
  if a = 0 then 0 else UInt32.ofNat (1 <<< (shiftPosition a.toNat - 1))

def yxRoundbufInit (pool : List UInt8) (size : UInt16) : YxRoundbuf where
  bufferPtr := pool
  readIndex := 0
  writeIndex := 0
  bufferSize :=
    if isPowerOf2 size.toUInt32 then size.toUInt32 else roundupPowerOf2 size.toUInt32

/-- `memcpy` of `l` bytes of `src` to offset `off` of the pool. -/
def memcpyTo (pool : List UInt8) (off : ℕ) (src : List UInt8) (l : ℕ) : Option (List UInt8) :=
  if off + l ≤ pool.length ∧ l ≤ src.length then
    some (RingStore.splice pool off (src.take l))
  else none

/-- `memcpy` of `l` bytes at offset `off` of the pool. -/
def memcpyFrom (pool : List UInt8) (off l : ℕ) : Option (List UInt8) :=
  if off + l ≤ pool.length then some ((pool.drop off).take l) else none

/-- `MIN(length, bound)` of a 16-bit length and a 32-bit bound, stored in 16 bits. -/
def min16 (length : UInt16) (bound : UInt32) : UInt16 :=
  (if length.toUInt32 > bound then bound else length.toUInt32).toUInt16

/-- The copies of a put: up to the buffer end, then the rest (if any) at the beginning. -/
def putCopies (pool : List UInt8) (off : ℕ) (ptr : List UInt8) (l length : UInt16) :
    Option (List UInt8) :=
  (memcpyTo pool off ptr l.toNat).bind fun pool =>
    if l < length then memcpyTo pool 0 (ptr.drop l.toNat) (length - l).toNat else some pool

/-- The copies of a get. -/
def getCopies (pool : List UInt8) (off : ℕ) (l length : UInt16) : Option (List UInt8) :=
  (memcpyFrom pool off l.toNat).bind fun first =>
    if l < length then (memcpyFrom pool 0 (length - l).toNat).map (first ++ ·) else some first

/-- Returns the number of bytes written and the new buffer. -/
def yxRoundbufPut (rb : YxRoundbuf) (ptr : List UInt8) (length : UInt16) :
    Option (ℕ × YxRoundbuf) :=
  let length := min16 length (rb.bufferSize - rb.writeIndex + rb.readIndex)
  if length = 0 then some (0, rb) else
    let off := rb.writeIndex &&& (rb.bufferSize - 1)
    let l := min16 length (rb.bufferSize - off)
    (putCopies rb.bufferPtr off.toNat ptr l length).map fun pool =>
      (length.toNat, { rb with
        bufferPtr := pool, writeIndex := rb.writeIndex + length.toUInt32 })

/-- Returns the bytes copied out and the new buffer; the C result is their number. -/
def yxRoundbufGet (rb : YxRoundbuf) (length : UInt16) : Option (List UInt8 × YxRoundbuf) :=
  let length := min16 length (rb.writeIndex - rb.readIndex)
  if length = 0 then some ([], rb) else
    let off := rb.readIndex &&& (rb.bufferSize - 1)
    let l := min16 length (rb.bufferSize - off)
    (getCopies rb.bufferPtr off.toNat l length).map fun bytes =>
      (bytes, { rb with readIndex := rb.readIndex + length.toUInt32 })

def yxRoundbufPutchar (rb : YxRoundbuf) (ch : UInt8) : Option (ℕ × YxRoundbuf) :=
  if rb.bufferSize - rb.writeIndex + rb.readIndex = 0 then some (0, rb) else
    (memcpyTo rb.bufferPtr (rb.writeIndex &&& (rb.bufferSize - 1)).toNat [ch] 1).map fun pool =>
      (1, { rb with bufferPtr := pool, writeIndex := rb.writeIndex + 1 })

/-- Returns the byte, if there is one, and the new buffer. -/
def yxRoundbufGetchar (rb : YxRoundbuf) : Option (List UInt8 × YxRoundbuf) :=
  if rb.writeIndex - rb.readIndex = 0 then some ([], rb) else
    (memcpyFrom rb.bufferPtr (rb.readIndex &&& (rb.bufferSize - 1)).toNat 1).map fun bytes =>
      (bytes, { rb with readIndex := rb.readIndex + 1 })

def yxRoundbufGetSize (rb : YxRoundbuf) : UInt16 := rb.bufferSize.toUInt16

def yxRoundbufDataLen (rb : YxRoundbuf) : UInt16 := (rb.writeIndex - rb.readIndex).toUInt16

def yxRoundbufSpaceLen (rb : YxRoundbuf) : UInt16 :=
  (rb.bufferSize - rb.writeIndex + rb.readIndex).toUInt16

/-! ### Sizes -/

private theorem shiftPosition_bounds (n : ℕ) (h : 0 < n) :
    0 < shiftPosition n ∧ 2 ^ (shiftPosition n - 1) ≤ n := by
  induction n using Nat.strong_induction_on with
  | _ n ih =>
    rw [shiftPosition, if_neg h.ne']
    refine ⟨Nat.succ_pos _, ?_⟩
    rcases Nat.eq_zero_or_pos (n / 2) with hz | hp
    · rw [hz, shiftPosition, if_pos rfl]
      exact h
    · obtain ⟨hpos, hle⟩ := ih (n / 2) (by omega) hp
      have hexp : shiftPosition (n / 2) + 1 - 1 = (shiftPosition (n / 2) - 1) + 1 := by omega
      rw [hexp, pow_succ]
      omega

private theorem half_and_half {a b : ℕ} (h : a &&& b = 0) : a / 2 &&& b / 2 = 0 := by
  apply Nat.eq_of_testBit_eq
  intro i
  rw [Nat.testBit_and, ← Nat.testBit_add_one, ← Nat.testBit_add_one, ← Nat.testBit_and, h,
    Nat.zero_testBit, Nat.zero_testBit]

private theorem two_pow_of_and_pred {n : ℕ} (h : 0 < n) (hand : n &&& (n - 1) = 0) :
    ∃ k, n = 2 ^ k := by
  induction n using Nat.strong_induction_on with
  | _ n ih =>
    have hhalf := half_and_half hand
    rcases Nat.even_or_odd' n with ⟨m, rfl | rfl⟩
    · rw [show 2 * m / 2 = m by omega, show (2 * m - 1) / 2 = m - 1 by omega] at hhalf
      obtain ⟨k, rfl⟩ := ih m (by omega) (by omega) hhalf
      exact ⟨k + 1, by rw [pow_succ]; omega⟩
    · rw [show (2 * m + 1) / 2 = m by omega, show (2 * m + 1 - 1) / 2 = m by omega,
        Nat.and_self] at hhalf
      exact ⟨0, by simp [hhalf]⟩

/-- The buffer size is a power of two not larger than the pool. -/
theorem yxRoundbufInit_size (pool : List UInt8) {size : UInt16} (h : 1 ≤ size.toNat) :
    ∃ k ≤ 15, (yxRoundbufInit pool size).bufferSize.toNat = 2 ^ k ∧
      (yxRoundbufInit pool size).bufferSize.toNat ≤ size.toNat := by
  have hlt : size.toNat < 65536 := size.toNat_lt
  have hpow : ∃ k, (yxRoundbufInit pool size).bufferSize.toNat = 2 ^ k ∧ 2 ^ k ≤ size.toNat := by
    unfold yxRoundbufInit
    dsimp only
    split_ifs with hp
    · simp only [isPowerOf2, Bool.and_eq_true, bne_iff_ne, ne_eq, beq_iff_eq] at hp
      have hand : size.toNat &&& (size.toNat - 1) = 0 := by
        have hz := congrArg UInt32.toNat hp.2
        rw [UInt32.toNat_and, UInt32.toNat_sub_of_le _ _ (by
          rw [UInt32.le_iff_toNat_le]; simpa using h)] at hz
        simpa using hz
      obtain ⟨k, hk⟩ := two_pow_of_and_pred (by omega) hand
      exact ⟨k, by simpa using hk, hk.ge⟩
    · have hne : size.toUInt32 ≠ 0 := by
        intro hz
        have := congrArg UInt32.toNat hz
        simp at this
        omega
      obtain ⟨hpos, hle⟩ := shiftPosition_bounds size.toNat (by omega)
      refine ⟨shiftPosition size.toNat - 1, ?_, hle⟩
      simp only [roundupPowerOf2, if_neg hne, Nat.one_shiftLeft, UInt32.toNat_ofNat',
        UInt16.toNat_toUInt32]
      exact Nat.mod_eq_of_lt (by omega)
  obtain ⟨k, hk, hle⟩ := hpow
  refine ⟨k, ?_, hk, hk ▸ hle⟩
  by_contra hc
  have : 2 ^ 16 ≤ 2 ^ k := Nat.pow_le_pow_right (by norm_num) (by omega)
  omega

end Tulux.SerialLink
