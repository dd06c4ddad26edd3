import Tulux.QCoder.AsnbufMerge

/-! A sequence of fields appended to a buffer and read back. -/
namespace Tulux.QCoder
open BitString

/-- A value and its width. -/
abbrev Field := ℕ × ℕ

def ncatFields (fields : List Field) (bp : Abuf) : Abuf :=
  fields.foldl (fun bp field => ncat field.1 field.2 bp) bp

/-- The values of the given widths, read from `cp` on. -/
def readFields (mem : ℕ → UInt8) : List ℕ → ℕ → ℕ → List ℕ
  | [], _, _ => []
  | n :: widths, cp, bitsLeft =>
    let (v, cp, bitsLeft) := getNextNBits mem cp n bitsLeft
    v :: readFields mem widths cp bitsLeft

/-- The fields one behind the other, each with its most significant bit first. -/
def fieldsBits (fields : List Field) : List Bool :=
  (fields.map fun field => natBits field.2 field.1).flatten

/-- The number of bits of the fields. -/
def fieldsWidth (fields : List Field) : ℕ := (fields.map Prod.snd).sum

theorem length_fieldsBits (fields : List Field) :
    (fieldsBits fields).length = fieldsWidth fields := by
  induction fields with
  | nil => rfl
  | cons field fields ih =>
    simp only [fieldsBits, fieldsWidth, List.map_cons, List.flatten_cons, List.length_append,
      length_natBits, List.sum_cons] at ih ⊢
    omega

theorem appends_ncatFields (fields : List Field) :
    Appends (ncatFields fields) (fieldsBits fields) := by
  induction fields with
  | nil => exact Appends.nil
  | cons field fields ih => exact (appends_ncat field.1 field.2).comp ih

theorem readFields_of_hasAt {mem : ℕ → UInt8} {pos : ℕ} (fields : List Field)
    (h : HasAt (memBits mem) pos (fieldsBits fields))
    (hfit : ∀ field ∈ fields, field.2 ≤ 32 ∧ field.1 < 2 ^ field.2) :
    readFields mem (fields.map Prod.snd) (pos / 8) (8 - pos % 8) = fields.map Prod.fst := by
  induction fields generalizing pos with
  | nil => rfl
  | cons field fields ih =>
    obtain ⟨hwidth, hvalue⟩ := hfit field List.mem_cons_self
    have hsplit : HasAt (memBits mem) pos (natBits field.2 field.1 ++ fieldsBits fields) := h
    have hrest := hsplit.right
    rw [length_natBits] at hrest
    have hread := getNextNBits_of_hasAt hsplit.left hwidth hvalue
    simp only [List.map_cons, readFields, hread]
    rw [ih hrest fun field hf => hfit field (List.mem_cons_of_mem _ hf)]

/-- Whatever the alignment of each field, the buffer holds the fields one behind the other, and
reading the same widths returns the values. -/
theorem readFields_ncatFields (head size headroom : ℕ) (fields : List Field)
    (hfit : ∀ field ∈ fields, 1 ≤ field.2 ∧ field.2 ≤ 32 ∧ field.1 < 2 ^ field.2)
    (hroom : 8 * headroom + fieldsWidth fields ≤ 8 * size) :
    let bp := ncatFields fields (abufAlloc head size headroom)
    readFields bp.mem (fields.map Prod.snd) bp.data 8 = fields.map Prod.fst ∧
      HasAt (memBits bp.mem) (8 * bp.data) (fieldsBits fields) ∧
      abufBitsLen bp = fieldsWidth fields := by
  intro bp
  have hfresh := holds_alloc head size headroom
  have hstop : (abufAlloc head size headroom).stop + (fieldsBits fields).length ≤
      8 * (abufAlloc head size headroom).endp := by
    rw [length_fieldsBits]
    simp only [Abuf.stop, abufAlloc]
    omega
  obtain ⟨hholds, hfront⟩ := appends_ncatFields fields _ _ hfresh hstop
  rw [List.nil_append] at hholds
  have hstart : bp.start = 8 * bp.data := by
    rw [hfront.start, hfront.data]
    simp [Abuf.start, abufAlloc]
  have hbits : HasAt (memBits bp.mem) (8 * bp.data) (fieldsBits fields) := hstart ▸ hholds.bits
  refine ⟨?_, hbits, ?_⟩
  · have hread := readFields_of_hasAt fields hbits fun field hf => (hfit field hf).2
    rwa [Nat.mul_div_cancel_left _ (by decide), Nat.mul_mod_right] at hread
  · rw [hholds.bitsLen, length_fieldsBits]

/-- Three fields over five bytes. -/
theorem readFields_ncatFields_three :
    let bp := ncatFields [(5, 3), (0x12345678, 30), (1, 1)] (abufAlloc 1 16 4)
    readFields bp.mem [3, 30, 1] bp.data 8 = [5, 0x12345678, 1] :=
  (readFields_ncatFields 1 16 4 [(5, 3), (0x12345678, 30), (1, 1)] (by simp) (by decide)).1

end Tulux.QCoder
