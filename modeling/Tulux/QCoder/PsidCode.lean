import Tulux.Lib.ByteCode
import Tulux.QCoder.Wsmp

/-! The P-encoding of the PSIDs in `wsmp.c`. -/
namespace Tulux.QCoder
open ByteCode

/-- `*added` of `wsmp_add_psid`. -/
def wsmpPsidAdded (psidV : ℤ) : ℕ :=
  if maxPsid < psidV then 0
  else if 0x204080 ≤ psidV then 4
  else if 0x4080 ≤ psidV then 3
  else if 0x80 ≤ psidV then 2
  else 1

/-- The PSIDs with a code. -/
abbrev Psid := { psid : ℕ // psid ≤ 0x1020407f }

/-- The number of bytes of a PSID. -/
def psidSize (psid : ℕ) : ℕ :=
  if 0x204080 ≤ psid then 4 else if 0x4080 ≤ psid then 3 else if 0x80 ≤ psid then 2 else 1

/-- What is added to the PSIDs with a code of `n` bytes. -/
def psidOffset : ℕ → ℕ
  | 1 => 0
  | 2 => 0x7f80
  | 3 => 0xbfbf80
  | _ => 0xdfdfbf80

/-- The bytes of a PSID. -/
def psidCode (psid : ℕ) : List UInt8 := beBytes (psidSize psid) (psid + psidOffset (psidSize psid))

/-- The numbers that `n` bytes make. -/
def PsidNumber (n number : ℕ) : Prop :=
  n = 1 ∧ number < 0x80 ∨ n = 2 ∧ 0x8000 ≤ number ∧ number < 0xc000 ∨
    n = 3 ∧ 0xc00000 ≤ number ∧ number < 0xe00000 ∨
      n = 4 ∧ 0xe0000000 ≤ number ∧ number < 0xf0000000

section Code
variable {mem : ℕ → UInt8} {a psid : ℕ}

theorem length_psidCode (psid : ℕ) : (psidCode psid).length = psidSize psid := length_beBytes _ _

theorem psidSize_mem (psid : ℕ) : 1 ≤ psidSize psid ∧ psidSize psid ≤ 4 := by
  unfold psidSize
  split_ifs <;> omega

/-- The four ranges of PSIDs are next to each other. -/
theorem psidNumber_of_psid (h : psid ≤ 0x1020407f) :
    PsidNumber (psidSize psid) (psid + psidOffset (psidSize psid)) := by
  unfold PsidNumber
  by_cases h4 : 0x204080 ≤ psid
  · have hsize : psidSize psid = 4 := if_pos h4
    rw [hsize, show psidOffset 4 = 0xdfdfbf80 by rfl]
    omega
  by_cases h3 : 0x4080 ≤ psid
  · have hsize : psidSize psid = 3 := by rw [psidSize, if_neg h4, if_pos h3]
    rw [hsize, show psidOffset 3 = 0xbfbf80 by rfl]
    omega
  by_cases h2 : 0x80 ≤ psid
  · have hsize : psidSize psid = 2 := by rw [psidSize, if_neg h4, if_neg h3, if_pos h2]
    rw [hsize, show psidOffset 2 = 0x7f80 by rfl]
    omega
  · have hsize : psidSize psid = 1 := by rw [psidSize, if_neg h4, if_neg h3, if_neg h2]
    rw [hsize, show psidOffset 1 = 0 by rfl]
    omega

/-- There is a PSID for each number. -/
theorem PsidNumber.exists_psid {n number : ℕ} (h : PsidNumber n number) :
    ∃ psid, psid ≤ 0x1020407f ∧ psidSize psid = n ∧ number = psid + psidOffset n := by
  rcases h with ⟨rfl, hhi⟩ | ⟨rfl, hlo, hhi⟩ | ⟨rfl, hlo, hhi⟩ | ⟨rfl, hlo, hhi⟩
  · refine ⟨number, by omega, ?_, rfl⟩
    rw [psidSize, if_neg (by omega), if_neg (by omega), if_neg (by omega)]
  · refine ⟨number - 0x7f80, by omega, ?_, ?_⟩
    · rw [psidSize, if_neg (by omega), if_neg (by omega), if_pos (by omega)]
    · rw [show psidOffset 2 = 0x7f80 by rfl, Nat.sub_add_cancel (by omega)]
  · refine ⟨number - 0xbfbf80, by omega, ?_, ?_⟩
    · rw [psidSize, if_neg (by omega), if_pos (by omega)]
    · rw [show psidOffset 3 = 0xbfbf80 by rfl, Nat.sub_add_cancel (by omega)]
  · refine ⟨number - 0xdfdfbf80, by omega, if_pos (by omega), ?_⟩
    rw [show psidOffset 4 = 0xdfdfbf80 by rfl, Nat.sub_add_cancel (by omega)]

theorem wsmpPsidFieldSize_eq (b : UInt8) : wsmpPsidFieldSize b =
    if 0xe0 ≤ b.toNat then 4 else if 0xc0 ≤ b.toNat then 3 else if 0x80 ≤ b.toNat then 2 else 1 := by
  have hall : ∀ n < 256, (if n &&& 0xe0 = 0xe0 then 4 else if n &&& 0xc0 = 0xc0 then 3
      else if n &&& 0x80 = 0x80 then 2 else 1) =
      if 0xe0 ≤ n then 4 else if 0xc0 ≤ n then 3 else if 0x80 ≤ n then 2 else 1 := by decide +kernel
  exact hall b.toNat b.toNat_lt

/-- The decoder takes the offset from the number that the bytes make. -/
theorem wsmpDecodePsid_eq (mem : ℕ → UInt8) (a : ℕ) : wsmpDecodePsid mem a =
    value (load mem a (wsmpPsidFieldSize (mem a))) - psidOffset (wsmpPsidFieldSize (mem a)) := by
  unfold wsmpDecodePsid
  rw [wsmpPsidFieldSize_eq]
  dsimp only
  split_ifs <;>
    simp only [load, value, psidOffset, List.length_cons, List.length_nil, Nat.shiftLeft_eq] <;>
    push_cast <;> ring_nf

/-- The first byte gives the number of bytes. -/
theorem psidCode_announced (h : psid ≤ 0x1020407f) : ∃ b s, psidCode psid = b :: s ∧
    wsmpPsidFieldSize b = (psidCode psid).length ∧ b.toNat < 0xf0 := by
  have hcases := psidNumber_of_psid h
  rw [length_psidCode, psidCode]
  obtain ⟨number, hnumber⟩ : ∃ number, number = psid + psidOffset (psidSize psid) := ⟨_, rfl⟩
  rw [← hnumber] at hcases ⊢
  obtain ⟨n, hn⟩ : ∃ n, psidSize psid = n + 1 := ⟨psidSize psid - 1, by
    have hmem := psidSize_mem psid
    omega⟩
  obtain ⟨b, s, heq, hb⟩ := beBytes_cons n number
  rw [hn] at hcases ⊢
  refine ⟨b, s, heq, ?_⟩
  rw [wsmpPsidFieldSize_eq]
  rcases hcases with ⟨hsize, hhi⟩ | ⟨hsize, hlo, hhi⟩ | ⟨hsize, hlo, hhi⟩ | ⟨hsize, hlo, hhi⟩
  all_goals
    obtain rfl := Nat.succ_inj.mp hsize
    norm_num at hb
    split_ifs <;> omega

theorem mem_wsmpAddPsid (bp : Abuf) (a : ℕ) (h : psid ≤ 0x1020407f) :
    (wsmpAddPsid bp a psid).mem = store bp.mem a (psidCode psid) := by
  have hmax : ¬ maxPsid < (psid : ℤ) := by rw [maxPsid]; omega
  unfold wsmpAddPsid psidCode
  rw [if_neg hmax]
  by_cases h4 : 0x204080 ≤ psid
  · have hsize : psidSize psid = 4 := if_pos h4
    have hP : u32 ((psid : ℤ) + 0xdfdfbf80) = psid + psidOffset 4 := by
      rw [u32, show psidOffset 4 = 0xdfdfbf80 by rfl]
      omega
    rw [if_pos (by omega), hP, hsize]
    simp [storeWord, Abuf.setByte, store, beBytes, Nat.shiftRight_eq_div_pow]
  rw [if_neg (by omega)]
  by_cases h3 : 0x4080 ≤ psid
  · have hsize : psidSize psid = 3 := by rw [psidSize, if_neg h4, if_pos h3]
    have hP : u32 ((psid : ℤ) + 0xbfbf80) = psid + psidOffset 3 := by
      rw [u32, show psidOffset 3 = 0xbfbf80 by rfl]
      omega
    rw [if_pos (by omega), hP, hsize]
    simp [Abuf.setByte, store, beBytes, Nat.shiftRight_eq_div_pow]
  rw [if_neg (by omega)]
  by_cases h2 : 0x80 ≤ psid
  · have hsize : psidSize psid = 2 := by rw [psidSize, if_neg h4, if_neg h3, if_pos h2]
    have hP : u32 ((psid : ℤ) + 0x7f80) = psid + psidOffset 2 := by
      rw [u32, show psidOffset 2 = 0x7f80 by rfl]
      omega
    rw [if_pos (by omega), hP, hsize]
    simp [Abuf.setByte, store, beBytes, Nat.shiftRight_eq_div_pow]
  · have hsize : psidSize psid = 1 := by rw [psidSize, if_neg h4, if_neg h3, if_neg h2]
    rw [if_neg (by omega), hsize, u32_natCast_of_lt (by omega)]
    simp [Abuf.setByte, store, beBytes, psidOffset]

theorem value_psidCode (h : psid ≤ 0x1020407f) :
    value (psidCode psid) = psid + psidOffset (psidSize psid) := by
  have hcases := psidNumber_of_psid h
  rw [psidCode]
  apply value_beBytes_of_lt
  rcases hcases with ⟨hsize, hhi⟩ | ⟨hsize, -, hhi⟩ | ⟨hsize, -, hhi⟩ | ⟨hsize, -, hhi⟩
  all_goals
    rw [hsize] at hhi ⊢
    omega

/-- A PSID is read back where its code stands. -/
theorem wsmpDecodePsid_psidCode {size : ℕ} (h : psid ≤ 0x1020407f)
    (hcode : load mem a size = psidCode psid) :
    wsmpPsidFieldSize (mem a) = size ∧ wsmpDecodePsid mem a = psid := by
  obtain ⟨b, s, hb, hfield, -⟩ := psidCode_announced h
  have hsize : size = (psidCode psid).length := by rw [← hcode, length_load]
  obtain ⟨n, rfl⟩ : ∃ n, size = n + 1 := ⟨s.length, by rw [hsize, hb, List.length_cons]⟩
  have hfirst : mem a = b := by
    rw [hb, load] at hcode
    exact (List.cons.inj hcode).1
  have hannounced : wsmpPsidFieldSize (mem a) = n + 1 := by rw [hfirst, hfield, hsize]
  refine ⟨hannounced, ?_⟩
  rw [wsmpDecodePsid_eq, hannounced, hcode, value_psidCode h, hsize, length_psidCode]
  push_cast
  omega

/-- What is decoded at `a` is encoded as the bytes there, wherever it is stored. -/
def Reencodes (mem : ℕ → UInt8) (a : ℕ) : Prop :=
  ∀ bp w, (wsmpAddPsid bp w (wsmpDecodePsid mem a)).mem =
    store bp.mem w (load mem a (wsmpPsidFieldSize (mem a)))

theorem psidNumber_load (h : (mem a).toNat < 0xf0) :
    PsidNumber (wsmpPsidFieldSize (mem a)) (value (load mem a (wsmpPsidFieldSize (mem a)))) := by
  have hfirst (m n : ℕ) (hm : m = n + 1) : (mem a).toNat * 256 ^ n ≤ value (load mem a m) ∧
      value (load mem a m) < (mem a).toNat * 256 ^ n + 256 ^ n := by
    have hlt := value_lt (load mem (a + 1) n)
    rw [length_load] at hlt
    rw [hm, load, value, length_load]
    omega
  unfold PsidNumber
  rw [wsmpPsidFieldSize_eq]
  split_ifs
  · have hbytes := hfirst 4 3 rfl
    omega
  · have hbytes := hfirst 3 2 rfl
    omega
  · have hbytes := hfirst 2 1 rfl
    omega
  · have hbytes := hfirst 1 0 rfl
    omega

/-- Below f0 the announced bytes are the code of a PSID. -/
theorem exists_psidCode (h : (mem a).toNat < 0xf0) : ∃ psid : ℕ, psid ≤ 0x1020407f ∧
    wsmpDecodePsid mem a = psid ∧ psidCode psid = load mem a (wsmpPsidFieldSize (mem a)) := by
  obtain ⟨psid, hpsid, hsize, hvalue⟩ := (psidNumber_load h).exists_psid
  rw [← hsize] at hvalue ⊢
  have hcode : psidCode psid = load mem a (psidSize psid) := by
    have hbytes := beBytes_value (load mem a (psidSize psid))
    rwa [length_load, hvalue] at hbytes
  refine ⟨psid, hpsid, ?_, hcode⟩
  exact (wsmpDecodePsid_psidCode hpsid hcode.symm).2

/-- Above, the number is too large. -/
theorem lt_wsmpDecodePsid (h : 0xf0 ≤ (mem a).toNat) : maxPsid < wsmpDecodePsid mem a := by
  have hsize : wsmpPsidFieldSize (mem a) = 4 := by
    rw [wsmpPsidFieldSize_eq, if_pos (by omega)]
  rw [wsmpDecodePsid_eq, hsize, maxPsid, show psidOffset 4 = 0xdfdfbf80 by rfl]
  simp only [load, value, List.length_cons, List.length_nil]
  omega

theorem reencodes_iff (mem : ℕ → UInt8) (a : ℕ) : Reencodes mem a ↔ (mem a).toNat < 0xf0 := by
  constructor
  · intro h
    by_contra hlarge
    have hnone := h (abufAlloc 0 0 0) 0
    rw [wsmpAddPsid, if_pos (lt_wsmpDecodePsid (by omega))] at hnone
    have hsize : wsmpPsidFieldSize (mem a) = 3 + 1 := by
      rw [wsmpPsidFieldSize_eq, if_pos (by omega)]
    have hfirst : (abufAlloc 0 0 0).mem 0 = mem a := by
      rw [hnone, hsize, load, store, store_before Nat.one_pos, Function.update_self]
    rw [← hfirst] at hlarge
    exact hlarge (by decide)
  · intro h bp w
    obtain ⟨psid, hpsid, hdecode, hcode⟩ := exists_psidCode h
    rw [hdecode, mem_wsmpAddPsid bp w hpsid, hcode]

theorem psidCode_lt {p q : ℕ} (hq : q ≤ 0x1020407f) (h : p < q) : psidCode p < psidCode q := by
  have hp : p ≤ 0x1020407f := by omega
  have hsizes : psidSize p ≤ psidSize q := by
    unfold psidSize
    split_ifs <;> omega
  rcases hsizes.eq_or_lt with heq | hlt
  · rw [lt_iff_value_lt (by rw [length_psidCode, length_psidCode, heq]), value_psidCode hp,
      value_psidCode hq, heq]
    omega
  · obtain ⟨b, s, hb, hbsize, -⟩ := psidCode_announced hp
    obtain ⟨c, t, hc, hcsize, -⟩ := psidCode_announced hq
    rw [length_psidCode] at hbsize hcsize
    rw [hb, hc, List.cons_lt_cons_iff]
    left
    rw [UInt8.lt_iff_toNat_lt]
    rw [← hbsize, ← hcsize, wsmpPsidFieldSize_eq, wsmpPsidFieldSize_eq] at hlt
    split_ifs at hlt <;> omega

theorem psidCode_injective : Function.Injective fun psid : Psid => psidCode psid := by
  intro p q h
  dsimp only at h
  have hsize : psidSize p = psidSize q := by rw [← length_psidCode, ← length_psidCode, h]
  have hvalue := value_psidCode q.property
  rw [← h, value_psidCode p.property, hsize] at hvalue
  exact Subtype.ext (Nat.add_right_cancel hvalue)

theorem psidCode_prefixFree : PrefixFree fun psid : Psid => psidCode psid := by
  have hannounced (psid : Psid) : ∃ b s, psidCode psid = b :: s ∧
      wsmpPsidFieldSize b = (psidCode psid).length := by
    obtain ⟨b, s, hb, hsize, -⟩ := psidCode_announced psid.property
    exact ⟨b, s, hb, hsize⟩
  exact prefixFree_of_announced hannounced psidCode_injective

theorem psidCode_lt_iff {p q : ℕ} (hp : p ≤ 0x1020407f) (hq : q ≤ 0x1020407f) :
    psidCode p < psidCode q ↔ p < q := by
  refine ⟨fun h => ?_, psidCode_lt hq⟩
  by_contra hge
  rcases (not_lt.mp hge).eq_or_lt with rfl | hlt
  · exact List.lt_irrefl _ h
  · exact List.lt_asymm h (psidCode_lt hp hlt)

theorem psidLengths_eq (h : psid ≤ 0x1020407f) :
    wsmPsidPcodedLen psid = psidSize psid ∧ wsmpPsidAdded psid = psidSize psid := by
  have hmax : ¬ maxPsid < (psid : ℤ) := by rw [maxPsid]; omega
  unfold wsmPsidPcodedLen wsmpPsidAdded psidSize
  rw [if_neg hmax, if_neg hmax]
  split_ifs <;> omega

/-- What is stored for a PSID, and what the decoder makes of it. -/
structure PsidStored (bp bp' : Abuf) (a psid : ℕ) : Prop where
  mem : bp'.mem = store bp.mem a (psidCode psid)
  pcodedLen : wsmPsidPcodedLen psid = (psidCode psid).length
  added : wsmpPsidAdded psid = (psidCode psid).length
  fieldSize : wsmpPsidFieldSize (bp'.mem a) = (psidCode psid).length
  decode : wsmpDecodePsid bp'.mem a = psid

theorem psidStored (bp : Abuf) (a : ℕ) (h : psid ≤ 0x1020407f) :
    PsidStored bp (wsmpAddPsid bp a psid) a psid := by
  have hmem := mem_wsmpAddPsid bp a h
  have hcode := load_store bp.mem a (psidCode psid)
  obtain ⟨hlen, hadded⟩ := psidLengths_eq h
  rw [← hmem] at hcode
  obtain ⟨hsize, hdecode⟩ := wsmpDecodePsid_psidCode h hcode
  rw [← length_psidCode] at hlen hadded
  exact ⟨hmem, hlen, hadded, hsize, hdecode⟩

/-- The PSIDs and their codes, and the string at `a`, which is decoded and encoded again. -/
structure PsidBijection (mem : ℕ → UInt8) (a : ℕ) : Prop where
  stored : ∀ psid : ℕ, psid ≤ 0x1020407f → ∀ bp w, PsidStored bp (wsmpAddPsid bp w psid) w psid
  reencodes : Reencodes mem a
  prefixFree : PrefixFree fun psid : Psid => psidCode psid
  order : ∀ p q : Psid, psidCode p < psidCode q ↔ p < q

/-- The first byte of four is not told from larger ones. -/
theorem psidCode_bijection_iff (mem : ℕ → UInt8) (a : ℕ) :
    PsidBijection mem a ↔ (mem a).toNat < 0xf0 := by
  constructor
  · intro h
    exact (reencodes_iff mem a).mp h.reencodes
  · intro h
    constructor
    · exact fun _ hpsid bp w => psidStored bp w hpsid
    · exact (reencodes_iff mem a).mpr h
    · exact psidCode_prefixFree
    · exact fun p q => psidCode_lt_iff p.property q.property

/-- The four bytes from f0 on. -/
def reservedPsid (i : ℕ) : UInt8 := if i = 0 then 0xf0 else 0

theorem not_reencodes : wsmpPsidFieldSize (reservedPsid 0) = 4 ∧ ¬ Reencodes reservedPsid 0 := by
  refine ⟨by decide, fun h => ?_⟩
  have hlt := (reencodes_iff reservedPsid 0).mp h
  exact absurd hlt (by decide)

end Code

end Tulux.QCoder
