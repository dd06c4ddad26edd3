import Tulux.QCoder.J2735Bits

/-! The bits of a whole basic safety message, from a fresh buffer to the message id in front. -/
namespace Tulux.QCoder
open BitString BitParser

/-! ### Core data -/

/-- The words, and the last 5 bits of the length. -/
def coreBits (v : BsmValue) : List Bool :=
  ((coreWords v).map (natBits 32)).flatten ++ natBits 5 v.vehicleLengthCm

theorem length_coreBits (v : BsmValue) : (coreBits v).length = 293 := by
  simp [coreBits, coreWords]

section Words
variable {bp : Abuf} {s : List Bool}

theorem natBits_word (w : ℕ) : natBits 32 w =
    natBits 8 (w >>> 24) ++ natBits 8 (w >>> 16) ++ natBits 8 (w >>> 8) ++ natBits 8 w := by
  have h₁ := natBits_add 24 8 w
  have h₂ := natBits_add 16 8 (w / 2 ^ 8)
  have h₃ := natBits_add 8 8 (w / 2 ^ 8 / 2 ^ 8)
  simp only [Nat.shiftRight_eq_div_pow]
  rw [h₁, h₂, h₃]
  simp only [Nat.div_div_eq_div_mul, ← pow_add, Nat.reduceAdd]

theorem Holds.putWord (h : Holds bp s) (hleft : bp.tailBitsLeft = 8) (w : ℕ)
    (hroom : bp.tail + 4 ≤ bp.endp) :
    Holds (putWord bp w) (s ++ natBits 32 w) ∧ SameFront bp (putWord bp w) ∧
      (putWord bp w).tailBitsLeft = 8 ∧ (putWord bp w).tail = bp.tail + 4 := by
  have h₁ := h.putByte (v := w >>> 24) hleft (by omega)
  have h₂ := h₁.putByte (v := w >>> 16) hleft (by dsimp only [Abuf.setByte]; omega)
  have h₃ := h₂.putByte (v := w >>> 8) hleft (by dsimp only [Abuf.setByte]; omega)
  have h₄ := h₃.putByte (v := w) hleft (by dsimp only [Abuf.setByte]; omega)
  have heq : QCoder.putWord bp w = storeWord { bp with tail := bp.tail + 4 } bp.tail w := by
    rw [QCoder.putWord, abufPut, if_neg (by omega)]
  rw [heq, natBits_word, ← List.append_assoc, ← List.append_assoc, ← List.append_assoc]
  exact ⟨h₄, ⟨rfl, rfl, rfl, rfl, rfl⟩, hleft, rfl⟩

theorem Holds.putWords (ws : List ℕ) (h : Holds bp s) (hleft : bp.tailBitsLeft = 8)
    (hroom : bp.tail + 4 * ws.length ≤ bp.endp) :
    Holds (ws.foldl QCoder.putWord bp) (s ++ (ws.map (natBits 32)).flatten) ∧
      SameFront bp (ws.foldl QCoder.putWord bp) ∧
      (ws.foldl QCoder.putWord bp).tailBitsLeft = 8 ∧
      (ws.foldl QCoder.putWord bp).tail = bp.tail + 4 * ws.length := by
  induction ws generalizing bp s with
  | nil => simpa using ⟨h, SameFront.refl bp, hleft⟩
  | cons w ws ih =>
    rw [List.length_cons] at hroom
    obtain ⟨hword, hfront, hleft', htail⟩ := h.putWord hleft w (by omega)
    have hend := hfront.endp
    obtain ⟨hwords, hfront', hleft'', htail'⟩ := ih hword hleft' (by omega)
    rw [List.append_assoc] at hwords
    exact ⟨hwords, hfront.trans hfront', hleft'',
      by rw [List.foldl_cons, htail', htail, List.length_cons]; omega⟩

/-- The core data fills 36 bytes and 5 bits. -/
theorem Holds.encodeCore (h : Holds bp []) (hleft : bp.tailBitsLeft = 8) (v : BsmValue)
    (hroom : bp.tail + 37 ≤ bp.endp) :
    Holds (encodeCore v bp) (coreBits v) ∧ SameFront bp (encodeCore v bp) := by
  obtain ⟨hwords, hfront, hleft', htail⟩ := h.putWords (coreWords v) hleft
    (by simp only [coreWords, List.length_cons, List.length_nil]; omega)
  simp only [coreWords, List.length_cons, List.length_nil] at htail
  obtain ⟨bp', hbp⟩ : ∃ bp', bp' = (coreWords v).foldl QCoder.putWord bp := ⟨_, rfl⟩
  have hend := hfront.endp
  rw [← hbp] at hwords hfront hleft' hend
  change ((coreWords v).foldl QCoder.putWord bp).tail = _ at htail
  rw [← hbp] at htail
  have hfill := hwords.fill (n := 5) (v := v.vehicleLengthCm)
    (b := UInt8.ofNat (v.vehicleLengthCm <<< 3)) (by omega) (by omega) (by
      rw [hwords.mem_tail hleft' (by omega), hleft', UInt8.toNat_ofNat', UInt8.toNat_zero,
        Nat.zero_or, Nat.shiftLeft_eq, Nat.shiftLeft_eq]
      omega)
  rw [List.nil_append] at hfill
  have heq : QCoder.encodeCore v bp =
      { bp'.setByte bp'.tail (UInt8.ofNat (v.vehicleLengthCm <<< 3)) with
        tailBitsLeft := bp'.tailBitsLeft - 5 } := by
    unfold QCoder.encodeCore
    dsimp only
    rw [← hbp, abufPut, if_neg (by omega), hleft']
    dsimp only [Abuf.setByte]
    rw [Nat.add_sub_cancel]
  rw [heq]
  exact ⟨hfill, hfront.head, hfront.size, hfront.endp, hfront.data, hfront.headspace⟩

end Words

/-! ### Extensions -/

/-- The buffer of the extensions is as `encode_as_bsm` allocates it, whatever it holds. -/
structure ExtBlock (block : ℕ) (ext : Abuf) : Prop where
  head : ext.head = block
  size : ext.size = 2000
  endp : ext.endp = block + 2000

/-- The buffer of the extensions is empty. -/
structure ExtEmpty (block : ℕ) (ext : Abuf) : Prop extends ExtBlock block ext where
  holds : Holds ext []
  headspace : ext.headHeadspaceBits = 0
  data : ext.data = block + 20

theorem extEmpty_alloc (block : ℕ) : ExtEmpty block (abufAlloc block 2000 20) :=
  ⟨⟨rfl, rfl, rfl⟩, holds_alloc block 2000 20, rfl, rfl⟩

section Extensions
variable {block : ℕ} {bp ext : Abuf} {s t : List Bool} {p : Builder}

theorem ExtBlock.purge (h : ExtBlock block ext) : ExtEmpty block (abufPurge ext 20) := by
  have hsize := h.size
  have hholds : Holds (abufPurge ext 20) [] := holds_purge (by omega) (by rw [h.endp, h.head, hsize])
  unfold abufPurge at hholds ⊢
  rw [if_pos (by omega)] at hholds ⊢
  exact ⟨⟨h.head, h.size, h.endp⟩, hholds, rfl, by rw [h.head]⟩

theorem abufTrim_size (bp : Abuf) : (abufTrim bp).size = bp.size := by
  unfold abufTrim
  dsimp only
  split_ifs <;> rfl

theorem length_extBits (s : List Bool) :
    (extBits s).length = (if (s.length + 7) / 8 < 0x80 then 8 else 16) + 8 * ((s.length + 7) / 8) := by
  rw [extBits, List.length_append, length_lenBits, length_padded]

/-- An extension is built behind as many reserved bits as the last byte of the message has used,
and merged into that byte. -/
theorem Holds.mergeExt (h : Holds bp t) (hblock : 0 < block) (hext : ExtEmpty block ext)
    (hp : Writes p s) (hpos : 0 < s.length) (hlen : s.length ≤ 8000) (hoff : bp.stop % 8 ≠ 0)
    (hroom : bp.stop + (extBits s).length ≤ 8 * bp.endp) :
    ∃ ext', abufTrim (QCoder.buildExt p (abufReserveHeadspace ext (8 - bp.tailBitsLeft))) = ext' ∧
      ExtBlock block ext' ∧ Holds (abufMerge bp ext').2 (t ++ extBits s) ∧
      SameFront bp (abufMerge bp ext').2 ∧ (abufMerge bp ext').2.tailBitsLeft < 8 := by
  have hleft := h.bitsLeft
  have hstop : bp.stop = 8 * bp.tail + 8 - bp.tailBitsLeft := rfl
  have hlength := hext.holds.length
  have hstart : ext.start = 8 * block + 160 := by
    rw [Abuf.start, hext.headspace, hext.data]
    omega
  have hend := hext.endp
  rw [List.length_nil] at hlength
  obtain ⟨hres, hspace, hdata, hhead, hsize, hend'⟩ := hext.holds.reserve (r := 8 - bp.tailBitsLeft)
    hext.headspace (by omega) (by omega)
  have hblock' := hext.head
  have hstart' : (abufReserveHeadspace ext (8 - bp.tailBitsLeft)).start =
      8 * block + 160 + (8 - bp.tailBitsLeft) := by
    rw [Abuf.start, hspace, hdata, hext.data]
    omega
  have hlength' := hres.length
  rw [List.length_nil] at hlength'
  obtain ⟨hbuilt, hend'', hhead', hsize', hspace', hstart''⟩ := hres.buildExt hp (by omega)
    (by omega) hpos (by omega) (by omega) (by omega)
  obtain ⟨ext₁, hext₁⟩ : ∃ ext₁, ext₁ = QCoder.buildExt p
    (abufReserveHeadspace ext (8 - bp.tailBitsLeft)) := ⟨_, rfl⟩
  rw [← hext₁] at hbuilt hend'' hhead' hsize' hspace' hstart''
  have hbits := length_extBits s
  have hlens := length_lenBits ((s.length + 7) / 8)
  obtain ⟨htrim, htrimHead, htrimEnd, htrimData, htrimSpace, htrimLeft⟩ :=
    hbuilt.trim hspace' (by split_ifs at hbits <;> omega)
  have htrimSize := abufTrim_size ext₁
  have hstart₁ : ext₁.start = 8 * ext₁.data + ext₁.headHeadspaceBits := rfl
  have hjoin : bp.tailBitsLeft + (abufTrim ext₁).headHeadspaceBits = 8 := by
    split_ifs at hlens <;> omega
  have hstopTrim := htrim.length
  have hstartTrim : (abufTrim ext₁).start = 8 * (abufTrim ext₁).data +
    (abufTrim ext₁).headHeadspaceBits := rfl
  have hstopTrim' : (abufTrim ext₁).stop = 8 * (abufTrim ext₁).tail + 8 -
    (abufTrim ext₁).tailBitsLeft := rfl
  obtain ⟨hmerged, hfront, hleft'⟩ := h.merge htrim hjoin (by omega) (by omega) htrimLeft
    (by split_ifs at hbits hlens <;> omega) hroom
  have hblockSize := hext.size
  exact ⟨abufTrim ext₁, by rw [hext₁], ⟨by omega, by omega, by omega⟩, hmerged, hfront,
    by omega⟩

/-- The id of an extension, its length and its fields. -/
def extensionBits (id : ℕ) (s : List Bool) : List Bool := natBits 6 id ++ extBits s

theorem length_extensionBits (id : ℕ) (s : List Bool) :
    (extensionBits id s).length = 6 + (extBits s).length := by
  rw [extensionBits, List.length_append, length_natBits]

theorem length_extensionBits_mod (id : ℕ) (s : List Bool) : (extensionBits id s).length % 8 = 6 := by
  rw [length_extensionBits, length_extBits]
  split_ifs <;> omega

theorem length_extensionBits_le (id : ℕ) {s : List Bool} (h : s.length ≤ 3100) :
    (extensionBits id s).length ≤ 3130 := by
  rw [length_extensionBits, length_extBits]
  split_ifs <;> omega

theorem length_optionalExtension {c : Prop} [Decidable c] (id : ℕ) (h : c → s.length ≤ 3100) :
    let n := (if c then extensionBits id s else []).length
    (n % 8 = 0 ∨ n % 8 = 6) ∧ n ≤ 3130 := by
  have hmod := length_extensionBits_mod id s
  intro n
  by_cases hc : c
  · have hle := length_extensionBits_le id (h hc)
    simp only [n, if_pos hc]
    omega
  · simp [n, hc]

/-- The message buffer holds `t` behind a byte boundary; the extensions are built apart. -/
structure Extending (block : ℕ) (bp ext : Abuf) (t : List Bool) : Prop where
  holds : Holds bp t
  headspace : bp.headHeadspaceBits = 0
  block : ExtBlock block ext

/-- An extension with handled options is added. -/
theorem Extending.addExt (id : ℕ) (h : Extending block bp ext t) (hblock : 0 < block)
    (hp : Writes p s) (hpos : 0 < s.length) (hlen : s.length ≤ 3100) (hoff : t.length % 8 ≠ 2)
    (hroom : bp.stop + 3130 ≤ 8 * bp.endp) :
    let r := addExt id (QCoder.buildExt p) bp ext
    Extending block r.1 r.2 (t ++ extensionBits id s) ∧ SameFront bp r.1 := by
  have hle := length_extensionBits_le id hlen
  rw [length_extensionBits] at hle
  obtain ⟨hid, hfront⟩ := appends_ncat id 6 bp t h.holds (by rw [length_natBits]; omega)
  have hspace := h.headspace
  have hstart := h.holds.length
  have hstop := hid.length
  have hend := hfront.endp
  rw [hfront.start, List.length_append, length_natBits] at hstop
  rw [Abuf.start] at hstart hstop
  obtain ⟨ext', hext', hblock', hmerged, hfront', -⟩ := hid.mergeExt hblock h.block.purge hp hpos
    (by omega) (by omega) (by omega)
  intro r
  have hr : r = ((abufMerge (ncat id 6 bp) ext').2, ext') := by
    rw [← hext']
    rfl
  rw [hr, extensionBits, ← List.append_assoc]
  exact ⟨⟨hmerged, (hfront.trans hfront').headspace.trans hspace, hblock'⟩, hfront.trans hfront'⟩

/-- The safety extension is added before any other. -/
theorem Extending.addSafetyExt {v : BsmValue} (h : Extending block bp ext t) (hblock : 0 < block)
    (hempty : ExtEmpty block ext)
    (hcrumbs : u32 v.vehsafeopts &&& 0x4 ≠ 0 → v.ph.qtyCrumbs ≤ 23) (hoff : t.length % 8 ≠ 2)
    (hroom : bp.stop + 3130 ≤ 8 * bp.endp) :
    let r := addSafetyExt v bp ext
    Extending block r.1 r.2 (t ++ extensionBits 0 (vehicleSafetyBits v)) ∧ SameFront bp r.1 := by
  obtain ⟨hpos, hlen⟩ := length_vehicleSafetyBits v hcrumbs
  have hle := length_extensionBits_le 0 hlen
  rw [length_extensionBits] at hle
  obtain ⟨hid, hfront⟩ := appends_ncat 0 6 bp t h.holds (by rw [length_natBits]; omega)
  have hspace := h.headspace
  have hstart := h.holds.length
  have hstop := hid.length
  have hend := hfront.endp
  have hspace' := hfront.headspace
  have hstop' : (ncat 0 6 bp).stop = 8 * (ncat 0 6 bp).tail + 8 - (ncat 0 6 bp).tailBitsLeft := rfl
  have hleft := hid.bitsLeft
  rw [hfront.start, List.length_append, length_natBits] at hstop
  rw [Abuf.start] at hstart hstop
  obtain ⟨ext', hext', hblock', hmerged, hfront', -⟩ := hid.mergeExt hblock hempty
    (writes_vehicleSafety v) (by omega) (by omega) (by omega) (by omega)
  intro r
  have hr : r = ((abufMerge (ncat 0 6 bp) ext').2, abufPurge ext' 20) := by
    rw [← hext']
    change ((abufMerge (abufTrim (ncat 0 6 bp)) _).2, _) = _
    rw [abufTrim_of_lt (by omega) (by omega)]
    rfl
  rw [hr, extensionBits, ← List.append_assoc]
  exact ⟨⟨hmerged, (hfront.trans hfront').headspace.trans hspace, hblock'.purge.toExtBlock⟩,
    hfront.trans hfront'⟩

theorem Extending.optional {c : Prop} [Decidable c] (r : Abuf × Abuf) (s : List Bool)
    (h : Extending block bp ext t)
    (hr : c → Extending block r.1 r.2 (t ++ s) ∧ SameFront bp r.1) :
    let r' := if c then r else (bp, ext)
    Extending block r'.1 r'.2 (t ++ if c then s else []) ∧ SameFront bp r'.1 := by
  intro r'
  by_cases hc : c
  · simpa [r', hc] using hr hc
  · simpa [r', hc] using And.intro h (SameFront.refl bp)

end Extensions

/-! ### Messages -/

/-- The quantities of the loops fit, and only handled options are set. -/
structure Encodable (v : BsmValue) : Prop where
  crumbs : v.hasSafetyExtension ≠ 0 → u32 v.vehsafeopts &&& 0x4 ≠ 0 → v.ph.qtyCrumbs ≤ 23
  descs : v.hasSpecialExtension ≠ 0 → u32 v.specvehopts &&& 0x2 ≠ 0 → v.eventopts &&& 0x10 ≠ 0 →
    v.description.sizeDesc ≤ 8
  supplemental : v.hasSupplementalExtension ≠ 0 → HandledOptions (u32 v.suppvehopts)

def partIIBits (v : BsmValue) : List Bool :=
  fieldBits 3 (v.qtyPartIIExtensions - 1) ++
    (if v.hasSafetyExtension ≠ 0 then extensionBits 0 (vehicleSafetyBits v) else []) ++
    (if v.hasSpecialExtension ≠ 0 then extensionBits 1 (specialBits v) else []) ++
    (if v.hasSupplementalExtension ≠ 0 then extensionBits 2 (supplementalBits v) else [])

def bsmBits (v : BsmValue) : List Bool :=
  coreBits v ++ if v.hasPartII ≠ 0 then partIIBits v else []

/-- The message id and the length in front of the message. -/
def messageBits (v : BsmValue) : List Bool :=
  natBits 16 20 ++ (lenBits (((bsmBits v).length + 7) / 8) ++ bsmBits v)

theorem length_partIIBits {v : BsmValue} (h : Encodable v) : (partIIBits v).length ≤ 9393 := by
  have hsafety := (length_optionalExtension 0 fun hc =>
    (length_vehicleSafetyBits v (h.crumbs hc)).2).2
  have hspecial := (length_optionalExtension 1 fun hc =>
    (length_specialBits v (h.descs hc)).2).2
  have hsupp := (length_optionalExtension (c := v.hasSupplementalExtension ≠ 0) 2 fun _ =>
    (length_supplementalBits v).2).2
  simp only [partIIBits, List.length_append, length_fieldBits]
  omega

/-- A fresh zeroed buffer with room for the headers of all layers and the longest message. -/
structure MessageBuffer (bp : Abuf) : Prop where
  holds : Holds bp []
  headspace : bp.headHeadspaceBits = 0
  bitsLeft : bp.tailBitsLeft = 8
  head : 0 < bp.head
  headroom : bp.head + 32 ≤ bp.data
  tailroom : bp.data + 1250 ≤ bp.endp

section Message
variable {block : ℕ} {bp : Abuf} {v : BsmValue}

/-- Part II goes behind the core data. -/
theorem Holds.encodePartII {t : List Bool} (h : Holds bp t) (hspace : bp.headHeadspaceBits = 0)
    (hblock : 0 < block) (hv : Encodable v) (hoff : t.length % 8 = 5)
    (hroom : bp.stop + 9393 ≤ 8 * bp.endp) :
    Holds (encodePartII block v bp) (t ++ partIIBits v) ∧
      SameFront bp (encodePartII block v bp) := by
  obtain ⟨hqty, hfront⟩ := appends_ncat (u32 (v.qtyPartIIExtensions - 1)) 3 bp t h
    (by rw [length_natBits]; omega)
  obtain ⟨bp₀, hbp₀⟩ : ∃ bp₀, bp₀ = ncat (u32 (v.qtyPartIIExtensions - 1)) 3 bp := ⟨_, rfl⟩
  rw [← hbp₀] at hqty hfront
  have hstart := h.length
  have hstop₀ := hqty.length
  have hend₀ := hfront.endp
  have hstart₀ := hfront.start
  rw [List.length_append, length_natBits] at hstop₀
  have h₀ : Extending block bp₀ (abufAlloc block 2000 20) (t ++ fieldBits 3 _) :=
    ⟨hqty, hfront.headspace.trans hspace, (extEmpty_alloc block).toExtBlock⟩
  have hlen₀ : (t ++ fieldBits 3 (v.qtyPartIIExtensions - 1)).length = t.length + 3 := by
    rw [List.length_append, length_fieldBits]
  have hlen₁ (hc : v.hasSafetyExtension ≠ 0) := length_vehicleSafetyBits v (hv.crumbs hc)
  have hlen₂ (hc : v.hasSpecialExtension ≠ 0) := length_specialBits v (hv.descs hc)
  obtain ⟨hpos₃, hle₃⟩ := length_supplementalBits v
  -- the safety extension
  obtain ⟨h₁, hfront₁⟩ := h₀.optional (addSafetyExt v bp₀ (abufAlloc block 2000 20))
    (extensionBits 0 (vehicleSafetyBits v)) (c := v.hasSafetyExtension ≠ 0) fun hc =>
      h₀.addSafetyExt hblock (extEmpty_alloc block) (hv.crumbs hc) (by omega) (by omega)
  have hmod₁ := length_optionalExtension 0 fun hc => (hlen₁ hc).2
  have hstop₁ := h₁.holds.length
  have hend₁ := hfront₁.endp
  have hstart₁ := hfront₁.start
  rw [List.length_append] at hstop₁
  obtain ⟨r₁, hr₁⟩ : ∃ r₁, r₁ = if v.hasSafetyExtension ≠ 0 then
    addSafetyExt v bp₀ (abufAlloc block 2000 20) else (bp₀, abufAlloc block 2000 20) := ⟨_, rfl⟩
  rw [← hr₁] at h₁ hfront₁ hstop₁ hend₁ hstart₁
  -- the special extension
  obtain ⟨h₂, hfront₂⟩ := h₁.optional (addExt 1 (buildSpecialExt v) r₁.1 r₁.2)
    (extensionBits 1 (specialBits v)) (c := v.hasSpecialExtension ≠ 0) fun hc =>
      h₁.addExt 1 hblock (writes_special v) (lt_of_lt_of_le (by norm_num) (hlen₂ hc).1)
        (hlen₂ hc).2 (by rw [List.length_append]; omega) (by omega)
  have hmod₂ := length_optionalExtension 1 fun hc => (hlen₂ hc).2
  have hstop₂ := h₂.holds.length
  have hend₂ := hfront₂.endp
  have hstart₂ := hfront₂.start
  rw [List.length_append, List.length_append] at hstop₂
  obtain ⟨r₂, hr₂⟩ : ∃ r₂, r₂ = if v.hasSpecialExtension ≠ 0 then
    addExt 1 (buildSpecialExt v) r₁.1 r₁.2 else (r₁.1, r₁.2) := ⟨_, rfl⟩
  rw [← hr₂] at h₂ hfront₂ hstop₂ hend₂ hstart₂
  -- the supplemental extension
  obtain ⟨h₃, hfront₃⟩ := h₂.optional (addExt 2 (buildSupplementalExt v) r₂.1 r₂.2)
    (extensionBits 2 (supplementalBits v)) (c := v.hasSupplementalExtension ≠ 0) fun hc =>
      h₂.addExt 2 hblock (writes_supplemental (hv.supplemental hc)) (by omega) hle₃
        (by rw [List.length_append, List.length_append]; omega) (by omega)
  have hencode : QCoder.encodePartII block v bp = (if v.hasSupplementalExtension ≠ 0 then
      addExt 2 (buildSupplementalExt v) r₂.1 r₂.2 else (r₂.1, r₂.2)).1 := by
    rw [hr₂, hr₁, hbp₀]
    unfold QCoder.encodePartII
    dsimp only
    split_ifs <;> rfl
  rw [hencode]
  refine ⟨?_, hfront.trans (hfront₁.trans (hfront₂.trans hfront₃))⟩
  simpa only [partIIBits, List.append_assoc] using h₃.holds

/-- The message in a fresh buffer: its core data begins where the buffer was empty, and the message
id and the length go in front of it. -/
theorem MessageBuffer.encodeAsBsm (h : MessageBuffer bp) (hblock : 0 < block)
    (hv : v.hasPartII ≠ 0 → Encodable v) :
    Holds (encodeAsBsm block v bp) (messageBits v) ∧
      (encodeAsBsm block v bp).start + 16 + (lenBits (((bsmBits v).length + 7) / 8)).length =
        8 * bp.data ∧
      (encodeAsBsm block v bp).headHeadspaceBits = 0 ∧
      (encodeAsBsm block v bp).head = bp.head ∧ (encodeAsBsm block v bp).endp = bp.endp := by
  have htail := h.tailroom
  have hheadroom := h.headroom
  have hlength := h.holds.length
  have hhead := h.head
  have hstart : bp.start = 8 * bp.data := by rw [Abuf.start, h.headspace]; omega
  have hstop : bp.stop = 8 * bp.tail := by rw [Abuf.stop, h.bitsLeft]; omega
  rw [List.length_nil] at hlength
  obtain ⟨hcore, hfront⟩ := h.holds.encodeCore h.bitsLeft v (by omega)
  have hstop' := hcore.length
  have hend := hfront.endp
  have hstart' := hfront.start
  rw [length_coreBits] at hstop'
  obtain ⟨bp₁, hbp₁⟩ : ∃ bp₁, bp₁ = if v.hasPartII ≠ 0 then
    encodePartII block v (encodeCore v bp) else encodeCore v bp := ⟨_, rfl⟩
  obtain ⟨hbsm, hfront₁, hlen⟩ : Holds bp₁ (bsmBits v) ∧ SameFront bp bp₁ ∧
      293 ≤ (bsmBits v).length ∧ (bsmBits v).length ≤ 9686 := by
    rw [hbp₁, bsmBits, List.length_append, length_coreBits]
    split_ifs with hpart
    · obtain ⟨hpartII, hfront'⟩ := hcore.encodePartII (hfront.headspace.trans h.headspace) hblock
        (hv hpart) (by rw [length_coreBits]) (by omega)
      have hle := length_partIIBits (hv hpart)
      exact ⟨hpartII, hfront.trans hfront', by omega⟩
    · simpa using ⟨hcore, hfront⟩
  have hspace₁ := hfront₁.headspace.trans h.headspace
  have hhead₁ := hfront₁.head
  have hstart₁ := hfront₁.start
  obtain ⟨hpush, hback, hpushed, hspace₂⟩ := hbsm.pushLen (by omega) (by omega) (by omega)
    (by omega) (by omega)
  have hlens := length_lenBits (((bsmBits v).length + 7) / 8)
  have hhead₂ := hback.head
  obtain ⟨hid, hback', hpushed', hspace₃⟩ := hpush.push (n := 16) (v := 20) hspace₂ (by omega)
    (by omega) (by split_ifs at hlens <;> omega)
  have hencode : QCoder.encodeAsBsm block v bp = push 20 16 (asnPushLen bp₁) := by
    rw [hbp₁]
    rfl
  have hspace₃' : (push 20 16 (asnPushLen bp₁)).start =
    8 * (push 20 16 (asnPushLen bp₁)).data + (push 20 16 (asnPushLen bp₁)).headHeadspaceBits := rfl
  rw [hencode]
  refine ⟨hid, by omega, by split_ifs at hlens <;> omega, ?_, ?_⟩
  · exact hback'.head.trans (hback.head.trans hfront₁.head)
  · exact hback'.endp.trans (hback.endp.trans hfront₁.endp)

end Message

end Tulux.QCoder
