import Tulux.QCoder.J2735Restore

/-! The decoder reads back the fields of an extension. -/
namespace Tulux.QCoder
open BitString BitParser

/-! ### Reading fields -/

/-- The decoder is at a position with the message `b`. -/
structure DecodesAt (pos : ℕ) (b : BsmValue) (st : DecodeState) : Prop where
  p8 : st.p8 = pos / 8
  bitsLeft : st.bitsLeft = 8 - pos % 8
  bsm : st.bsm = b

/-- The decoder returns `a` for the bits `s` at `pos`, and changes the message by `g`. -/
abbrev Reads {α : Type} (mem : ℕ → UInt8) (pos : ℕ) (p : Decoder α) (s : List Bool) (a : α)
    (g : BsmValue → BsmValue) : Prop :=
  Parses DecodesAt (memBits mem) pos p s a g

theorem u32_of_lt {x : ℤ} {n : ℕ} (h : 0 ≤ x ∧ x < 2 ^ n) (hn : n ≤ 32) :
    (u32 x : ℤ) = x ∧ u32 x < 2 ^ n := by
  have hle : (2 : ℤ) ^ n ≤ 2 ^ 32 := pow_le_pow_right₀ (by norm_num) hn
  have heq : (u32 x : ℤ) = x := by
    rw [u32, Int.toNat_of_nonneg (Int.emod_nonneg _ (by norm_num)),
      Int.emod_eq_of_lt h.1 (lt_of_lt_of_le h.2 hle)]
  refine ⟨heq, ?_⟩
  have hlt : (u32 x : ℤ) < (2 ^ n : ℕ) := by
    rw [heq]
    exact_mod_cast h.2
  exact_mod_cast hlt

section Fields
variable {mem : ℕ → UInt8} {pos n : ℕ} {b : BsmValue}

theorem reads_getBits {v : ℕ} (hn : n ≤ 32) (hv : v < 2 ^ n) :
    Reads mem pos (getBits mem n) (natBits n v) v id := by
  intro hbits x st hat
  have hread := getNextNBits_of_hasAt hbits hn hv
  refine ⟨{ st with p8 := (pos + n) / 8, bitsLeft := 8 - (pos + n) % 8 }, ?_, ?_⟩
  · rw [getBits, hat.p8, hat.bitsLeft, hread]
  · rw [length_natBits]
    exact ⟨rfl, rfl, hat.bsm⟩

theorem reads_update (g : BsmValue → BsmValue) : Reads mem pos (update g) [] () g :=
  Parses.silent fun _ st hat => ⟨{ st with bsm := g st.bsm }, rfl, hat.p8, hat.bitsLeft,
    congrArg g hat.bsm⟩

theorem reads_field {v : ℕ} (hn : n ≤ 32) (hv : v < 2 ^ n) (store : ℕ → BsmValue → BsmValue) :
    Reads mem pos (field mem n store) (natBits n v) () (store v) := by
  have h : Reads mem pos (field mem n store) (natBits n v ++ []) () (store v ∘ id) := by
    apply Parses.append (reads_getBits hn hv)
    exact reads_update (store v)
  rwa [List.append_nil] at h

/-- A field whose value is in range. -/
theorem reads_fieldBits {x : ℤ} (hx : 0 ≤ x ∧ x < 2 ^ n) (hn : n ≤ 32)
    (store : ℕ → BsmValue → BsmValue) :
    Reads mem pos (field mem n store) (fieldBits n x) () (store (u32 x)) :=
  reads_field hn (u32_of_lt hx hn).2 store

theorem fieldBits_natCast {v : ℕ} (hv : v < 2 ^ n) (hn : n ≤ 32) :
    fieldBits n (v : ℤ) = natBits n v := by
  have hle : 2 ^ n ≤ 2 ^ 32 := Nat.pow_le_pow_right (by norm_num) hn
  rw [fieldBits, u32_natCast_of_lt (by omega)]

/-- The options of a part. -/
theorem reads_opts {v : ℕ} (hv : v < 2 ^ n) (hn : n ≤ 32) :
    Reads mem pos (getBits mem n) (fieldBits n (v : ℤ)) v id := by
  rw [fieldBits_natCast hv hn]
  exact reads_getBits hn hv

/-- A field that stores the value `x` again. -/
theorem reads_value {x : ℤ} {store : ℕ → BsmValue → BsmValue} {g : BsmValue → BsmValue}
    (hx : Fits n x) (hn : n ≤ 32) (hg : ∀ v : ℕ, (v : ℤ) = x → store v = g) :
    Reads mem pos (field mem n store) (fieldBits n x) () g := by
  rw [← hg (u32 x) (u32_of_lt hx hn).1]
  exact reads_fieldBits hx hn store

theorem reads_intOpts {x : ℤ} (hx : Fits n x) (hn : n ≤ 32) :
    Reads mem pos (getBits mem n) (fieldBits n x) (u32 x) id :=
  reads_getBits hn (u32_of_lt hx hn).2

theorem reads_isExtended : Reads mem pos (isExtended mem) (fieldBits 1 0) () id := by
  have h : Reads mem pos (isExtended mem) (natBits 1 0 ++ []) () (id ∘ id) := by
    apply Parses.append (reads_getBits (by norm_num) (by norm_num))
    exact Parses.pure ()
  exact h

/-- There is room when the last bit and a further byte come before the end of the message. -/
theorem checkRoom_iff {lastByteP : ℤ} {st : DecodeState} (h : DecodesAt pos b st) (hn : 1 ≤ n)
    (hn' : n ≤ 32) : ((lastByteP - st.p8 < calcBytesNeededForNMoreBits n st.bitsLeft) ↔
      ¬ ((pos : ℤ) + n < 8 * (lastByteP + 1) ∧ (pos : ℤ) + 8 < 8 * (lastByteP + 1))) := by
  rw [h.p8, h.bitsLeft]
  by_cases hl : 8 - pos % 8 < n
  · rw [calcBytesNeeded_eq hn' hl]
    omega
  · have hone : calcBytesNeededForNMoreBits n (8 - pos % 8) = 1 := by
      rw [calcBytesNeededForNMoreBits]
      have hdiv : ((n : ℤ) - (8 - pos % 8 : ℕ)).tdiv 8 = 0 := by
        rw [show (n : ℤ) - (8 - pos % 8 : ℕ) = -(8 - pos % 8 - n : ℕ) by omega, Int.neg_tdiv,
          Int.natCast_tdiv_eq_ediv]
        omega
      rw [hdiv]
      rfl
    rw [hone]
    omega

theorem reads_checkRoom {lastByteP : ℤ} (hn : 1 ≤ n) (hn' : n ≤ 32)
    (h : (pos : ℤ) + n < 8 * (lastByteP + 1) ∧ (pos : ℤ) + 8 < 8 * (lastByteP + 1)) :
    Reads mem pos (checkRoom lastByteP n) [] () id :=
  Parses.silent fun _ st hat => ⟨st, if_neg (by rw [checkRoom_iff hat hn hn']; exact not_not_intro h),
    hat⟩

/-- Without room the decoder gives up. -/
theorem stops_checkRoom {lastByteP : ℤ} {s : List Bool} (hn : 1 ≤ n) (hn' : n ≤ 32)
    (h : 8 * (lastByteP + 1) ≤ (pos : ℤ) + 8) :
    Stops DecodesAt (memBits mem) pos (checkRoom lastByteP n) s (-1) :=
  fun _ _ st hat => ⟨st, if_pos (by rw [checkRoom_iff hat hn hn']; omega)⟩

end Fields

/-! ### Arrays -/

/-- The entries from `m` to `m + n` are taken over. -/
def takeRange {α : Type} (take : ℕ → α → α) (m n : ℕ) (old : ℕ → α) (i : ℕ) : α :=
  takeIf (m ≤ i ∧ i < m + n) (take i (old i)) (old i)

section Arrays
variable {α : Type} (take : ℕ → α → α) (old : ℕ → α) (m n : ℕ)

theorem takeRange_zero : takeRange take m 0 old = old := by
  funext i
  exact if_neg (by omega)

/-- The first entry is taken over before the others. -/
theorem takeRange_succ : takeRange take (m + 1) n (Function.update old m (take m (old m))) =
    takeRange take m (n + 1) old := by
  funext i
  simp only [takeRange, takeIf, Function.update_apply]
  by_cases hi : i = m
  · cases hi
    rw [if_neg (by omega), if_pos rfl, if_pos (by omega)]
  · have hrange : (m + 1 ≤ i ∧ i < m + 1 + n) ↔ (m ≤ i ∧ i < m + (n + 1)) := by omega
    simp only [hi, if_false, hrange]

/-- All entries before `x`. -/
theorem takeRange_all {x : ℤ} (hx : x = n) :
    takeRange take 0 n old = fun i : ℕ => takeIf (i < x) (take i (old i)) (old i) := by
  funext i
  have hrange : ((i : ℤ) < x) ↔ (0 ≤ i ∧ i < 0 + n) := by omega
  simp only [takeRange, takeIf, hrange]

end Arrays

end Tulux.QCoder
