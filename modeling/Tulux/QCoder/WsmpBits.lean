import Tulux.QCoder.Wsmp
import Tulux.QCoder.J2735Message

/-! The bits that the encoder of `wsmp.c` writes. Its header fills whole bytes. -/
namespace Tulux.QCoder
open BitString

/-- `f` appends the bits `s` at a byte boundary, if there is room for them. -/
def AppendsBytes (f : Abuf → Abuf) (s : List Bool) : Prop :=
  ∀ bp t, Holds bp t → bp.tailBitsLeft = 8 → bp.stop + s.length ≤ 8 * bp.endp →
    Holds (f bp) (t ++ s) ∧ SameFront bp (f bp) ∧ (f bp).tailBitsLeft = 8

namespace AppendsBytes
variable {f g : Abuf → Abuf} {s t : List Bool}

theorem nil : AppendsBytes (fun bp => bp) [] := by
  intro bp t h hleft _
  rw [List.append_nil]
  exact ⟨h, SameFront.refl bp, hleft⟩

theorem comp (hf : AppendsBytes f s) (hg : AppendsBytes g t) :
    AppendsBytes (fun bp => g (f bp)) (s ++ t) := by
  intro bp u h hleft hroom
  have hlength := h.length
  rw [List.length_append] at hroom
  obtain ⟨hfs, hff, hfleft⟩ := hf bp u h hleft (by omega)
  have hflength := hfs.length
  rw [hff.start, List.length_append] at hflength
  have hfend := hff.endp
  obtain ⟨hgs, hgf, hgleft⟩ := hg (f bp) (u ++ s) hfs hfleft (by omega)
  exact ⟨by rwa [← List.append_assoc], hff.trans hgf, hgleft⟩

theorem ite {c : Prop} [Decidable c] (hf : c → AppendsBytes f s) :
    AppendsBytes (fun bp => if c then f bp else bp) (if c then s else []) := by
  by_cases hc : c
  · simpa only [if_pos hc] using hf hc
  · simpa only [if_neg hc] using nil

end AppendsBytes

theorem appendsBytes_ncat (v : ℕ) : AppendsBytes (ncat v 8) (natBits 8 v) := by
  intro bp t h hleft hroom
  have hstop : bp.stop = 8 * bp.tail := by rw [Abuf.stop, hleft, Nat.add_sub_cancel]
  rw [length_natBits] at hroom
  have hncat : ncat v 8 bp =
      { bp.setByte bp.tail (UInt8.ofNat v) with tail := bp.tail + 1 } := by
    rw [ncat, asnNcatBits]
    dsimp only
    rw [if_neg (by norm_num), if_pos (by omega), if_pos ⟨rfl, hleft⟩]
  rw [hncat]
  exact ⟨h.putByte hleft (by omega), ⟨rfl, rfl, rfl, rfl, rfl⟩, hleft⟩

/-! ### The PSID -/

/-- The P-encoding of a PSID. -/
def psidBits (psid : ℕ) : List Bool :=
  if 0x204080 ≤ psid then natBits 32 (psid + 0xdfdfbf80)
  else if 0x4080 ≤ psid then natBits 24 (psid + 0xbfbf80)
  else if 0x80 ≤ psid then natBits 16 (psid + 0x7f80)
  else natBits 8 psid

section Psid
variable {bp : Abuf} {psid : ℕ} {t : List Bool}

theorem wsmPsidPcodedLen_eq (hpsid : psid ≤ 0x1020407f) :
    wsmPsidPcodedLen psid = ((psidBits psid).length / 8 : ℕ) := by
  unfold wsmPsidPcodedLen psidBits maxPsid
  rw [if_neg (by omega)]
  by_cases h4 : 0x204080 ≤ psid
  · rw [if_pos h4, if_pos (by omega), length_natBits]
    norm_num
  by_cases h3 : 0x4080 ≤ psid
  · rw [if_neg h4, if_neg (by omega), if_pos h3, if_pos (by omega), length_natBits]
    norm_num
  by_cases h2 : 0x80 ≤ psid
  · rw [if_neg h4, if_neg (by omega), if_neg h3, if_neg (by omega), if_pos h2, if_pos (by omega),
      length_natBits]
    norm_num
  · rw [if_neg h4, if_neg (by omega), if_neg h3, if_neg (by omega), if_neg h2, if_neg (by omega),
      length_natBits]
    norm_num

/-- With room, the PSID is stored behind the header. -/
theorem abufAddPsid_eq (hpsid : psid ≤ 0x1020407f)
    (hroom : 8 * bp.tail + (psidBits psid).length ≤ 8 * bp.endp) :
    abufAddPsid bp psid =
      wsmpAddPsid { bp with tail := bp.tail + (psidBits psid).length / 8 } bp.tail psid := by
  have hs32 : s32 psid = psid := s32_of_lt (by omega)
  unfold abufAddPsid
  rw [hs32, wsmPsidPcodedLen_eq hpsid, if_neg (by omega), Int.toNat_natCast, abufPut,
    if_neg (by omega)]

/-- Three bytes behind the header. -/
theorem Holds.putThree (h : Holds bp t) (hleft : bp.tailBitsLeft = 8) (p : ℕ)
    (hroom : bp.tail + 3 ≤ bp.endp) :
    Holds (((({ bp with tail := bp.tail + 3 } : Abuf).setByte bp.tail (UInt8.ofNat (p >>> 16))).setByte
      (bp.tail + 1) (UInt8.ofNat (p >>> 8))).setByte (bp.tail + 2) (UInt8.ofNat p))
      (t ++ natBits 24 p) := by
  have h₁ := h.putByte (v := p >>> 16) hleft (by omega)
  have h₂ := h₁.putByte (v := p >>> 8) hleft (by dsimp only [Abuf.setByte]; omega)
  have h₃ := h₂.putByte (v := p) hleft (by dsimp only [Abuf.setByte]; omega)
  rw [natBits_three, ← List.append_assoc, ← List.append_assoc]
  exact h₃

theorem Holds.putTwo (h : Holds bp t) (hleft : bp.tailBitsLeft = 8) (p : ℕ)
    (hroom : bp.tail + 2 ≤ bp.endp) :
    Holds ((({ bp with tail := bp.tail + 2 } : Abuf).setByte bp.tail (UInt8.ofNat (p >>> 8))).setByte
      (bp.tail + 1) (UInt8.ofNat p)) (t ++ natBits 16 p) := by
  have h₁ := h.putByte (v := p >>> 8) hleft (by omega)
  have h₂ := h₁.putByte (v := p) hleft (by dsimp only [Abuf.setByte]; omega)
  rw [natBits_two, ← List.append_assoc]
  exact h₂

theorem Holds.putFour (h : Holds bp t) (hleft : bp.tailBitsLeft = 8) (p : ℕ)
    (hroom : bp.tail + 4 ≤ bp.endp) :
    Holds (storeWord { bp with tail := bp.tail + 4 } bp.tail p) (t ++ natBits 32 p) := by
  obtain ⟨hholds, -⟩ := h.putWord hleft p hroom
  rwa [QCoder.putWord, abufPut, if_neg (by omega)] at hholds

theorem Holds.addPsid (h : Holds bp t) (hleft : bp.tailBitsLeft = 8) (hpsid : psid ≤ 0x1020407f)
    (hroom : 8 * bp.tail + (psidBits psid).length ≤ 8 * bp.endp) :
    Holds (wsmpAddPsid { bp with tail := bp.tail + (psidBits psid).length / 8 } bp.tail psid)
      (t ++ psidBits psid) := by
  have hmax : ¬ maxPsid < (psid : ℤ) := by rw [maxPsid]; omega
  unfold wsmpAddPsid
  rw [if_neg hmax]
  by_cases h4 : 0x204080 ≤ psid
  · have hbits : psidBits psid = natBits 32 (psid + 0xdfdfbf80) := if_pos h4
    have hP : u32 ((psid : ℤ) + 0xdfdfbf80) = psid + 0xdfdfbf80 := by rw [u32]; omega
    rw [hbits, length_natBits] at hroom
    rw [if_pos (by omega), hP, hbits, length_natBits]
    exact h.putFour hleft _ (by omega)
  rw [if_neg (by omega)]
  by_cases h3 : 0x4080 ≤ psid
  · have hbits : psidBits psid = natBits 24 (psid + 0xbfbf80) := by
      rw [psidBits, if_neg h4, if_pos h3]
    have hP : u32 ((psid : ℤ) + 0xbfbf80) = psid + 0xbfbf80 := by rw [u32]; omega
    rw [hbits, length_natBits] at hroom
    rw [if_pos (by omega), hP, hbits, length_natBits]
    exact h.putThree hleft _ (by omega)
  rw [if_neg (by omega)]
  by_cases h2 : 0x80 ≤ psid
  · have hbits : psidBits psid = natBits 16 (psid + 0x7f80) := by
      rw [psidBits, if_neg h4, if_neg h3, if_pos h2]
    have hP : u32 ((psid : ℤ) + 0x7f80) = psid + 0x7f80 := by rw [u32]; omega
    rw [hbits, length_natBits] at hroom
    rw [if_pos (by omega), hP, hbits, length_natBits]
    exact h.putTwo hleft _ (by omega)
  · have hbits : psidBits psid = natBits 8 psid := by
      rw [psidBits, if_neg h4, if_neg h3, if_neg h2]
    rw [hbits, length_natBits] at hroom
    rw [if_neg (by omega), hbits, length_natBits, u32_natCast_of_lt (by omega)]
    exact h.putByte hleft (by omega)

theorem wsmpAddPsid_front (bp : Abuf) (a : ℕ) (psidV : ℤ) :
    SameFront bp (wsmpAddPsid bp a psidV) ∧
      (wsmpAddPsid bp a psidV).tailBitsLeft = bp.tailBitsLeft := by
  unfold wsmpAddPsid
  split_ifs <;> exact ⟨⟨rfl, rfl, rfl, rfl, rfl⟩, rfl⟩

theorem appendsBytes_psid (hpsid : psid ≤ 0x1020407f) :
    AppendsBytes (fun bp => abufAddPsid bp psid) (psidBits psid) := by
  intro bp t h hleft hroom
  have hstop : bp.stop = 8 * bp.tail := by rw [Abuf.stop, hleft, Nat.add_sub_cancel]
  rw [hstop] at hroom
  obtain ⟨hfront, hleft'⟩ := wsmpAddPsid_front
    { bp with tail := bp.tail + (psidBits psid).length / 8 } bp.tail psid
  dsimp only
  rw [abufAddPsid_eq hpsid hroom]
  exact ⟨h.addPsid hleft hpsid hroom,
    ⟨hfront.head, hfront.size, hfront.endp, hfront.data, hfront.headspace⟩, hleft'.trans hleft⟩

end Psid

end Tulux.QCoder
