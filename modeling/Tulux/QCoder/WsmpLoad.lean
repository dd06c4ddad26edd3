import Tulux.QCoder.AsnbufBounds
import Tulux.QCoder.WsmpMessage

/-! The channel load of `wsmp.c`: its length counts bytes where it is stored, and is multiplied by 8
where the bytes are copied. -/
namespace Tulux.QCoder
open BitString ByteCode

/-- The channel load that is sent. -/
def loadElement (loadMem : ℕ → UInt8) (w : WsmpData) : WaveElement where
  id := UInt8.ofNat waveElemIdLoad
  bytes := load loadMem w.chanLoadPtr w.chanLoadLen.toNat
  short := by
    have hlt := w.chanLoadLen.toNat_lt
    rw [length_load]
    omega

/-- The elements before the channel load. -/
def otherElements (w : WsmpData) : WsmpData :=
  { countElements w with weidOpts.incLoadExt := false }

/-- The buffer of the header before the channel load. -/
def headerBeforeLoad (block : ℕ) (loadMem : ℕ → UInt8) (w : WsmpData) : Abuf :=
  ncatElements loadMem (otherElements w) (ncat (countElements w).weidQty 8
    (ncat (countElements w).nHeader.data 8 (abufAlloc block 2000 20)))

/-- The buffer of the header behind the channel load. -/
def headerWithLoad (block : ℕ) (loadMem : ℕ → UInt8) (w : WsmpData) : Abuf :=
  ncatNHeader loadMem (countElements w) (abufAlloc block 2000 20)

/-- The channel load is written as an element, only its bytes are read, and the decoder restores it
and goes on behind it. -/
structure ChanLoadRoundTrip (block : ℕ) (loadMem : ℕ → UInt8) (w : WsmpData) : Prop where
  writes : (headerWithLoad block loadMem w).bits =
    (headerBeforeLoad block loadMem w).bits ++ byteBits (loadElement loadMem w).code
  reads : ∀ other : ℕ → UInt8, load other w.chanLoadPtr w.chanLoadLen.toNat =
    load loadMem w.chanLoadPtr w.chanLoadLen.toNat →
      headerWithLoad block other w = headerWithLoad block loadMem w
  decodes : ∀ tail st, st.data = (headerBeforeLoad block loadMem w).tail →
    ∃ w', Moves (decodeElement (headerWithLoad block loadMem w).mem tail) st true
        (st.data + (loadElement loadMem w).code.length) w' ∧
      w'.chanLoadLen = w.chanLoadLen ∧
      load (headerWithLoad block loadMem w).mem w'.chanLoadPtr w.chanLoadLen.toNat =
        load loadMem w.chanLoadPtr w.chanLoadLen.toNat

section Load
variable {bp : Abuf} {loadMem : ℕ → UInt8} {w : WsmpData} {n : ℕ}

theorem headerWithLoad_eq (block : ℕ) (h : w.weidOpts.incLoadExt = true) :
    headerWithLoad block loadMem w =
      ncatChanLoad loadMem (countElements w) (headerBeforeLoad block loadMem w) := by
  have hqty : (countElements w).weidQty ≠ 0 := by
    simp only [countElements, h, Bool.toNat_true]
    omega
  have hopts : (countElements w).weidOpts.incLoadExt = true := h
  unfold headerWithLoad ncatNHeader
  rw [if_pos hqty]
  unfold ncatElements
  rw [if_pos hopts]
  rfl

/-- At a byte boundary whole bytes are copied, or nothing without room. -/
theorem asnNcat_bytes (h : Ready bp) (haligned : bp.stop % 8 = 0) (src : ℕ → UInt8) (a : ℕ) :
    SameFront bp (asnNcat bp src a n).2 ∧
      ((asnNcat bp src a n).2.stop = bp.stop + 8 * n ∨ (asnNcat bp src a n).2.stop = bp.stop) := by
  have hleft := h.left
  have hbitsLeft := h.bitsLeft
  have hstop : bp.stop = 8 * bp.tail + (8 - bp.tailBitsLeft) := by rw [Abuf.stop]; omega
  unfold asnNcat
  dsimp only
  rw [h.tailReady, if_pos (show bp.tailBitsLeft = 8 by omega)]
  by_cases hnone : n = 0
  · rw [if_pos hnone]
    exact ⟨SameFront.refl bp, Or.inr rfl⟩
  rw [if_neg hnone, abufPut]
  split_ifs with hroom
  · exact ⟨SameFront.refl bp, Or.inr rfl⟩
  · refine ⟨⟨rfl, rfl, rfl, rfl, rfl⟩, Or.inl ?_⟩
    simp only [Abuf.stop, Abuf.copyBytes]
    omega

theorem grown_encodedLen (h : Ready bp) (hpos : 0 < n) (hlen : n < 0x4000)
    (hroom : bp.stop + 16 ≤ 8 * bp.endp) :
    Grown bp (asnPutEncodedLen bp n).2 (8 * (lenBytes n).length) := by
  unfold asnPutEncodedLen
  rw [if_pos (by omega), Int.toNat_natCast, length_lenBytes]
  by_cases hshort : n < 0x80
  · rw [if_pos (by omega), if_pos hshort]
    exact (asnNcatBits_fits h (by norm_num) (by omega)).2.1
  · rw [if_neg (by omega), if_pos (by omega), if_neg hshort]
    exact (asnNcatBits_fits h (by norm_num) hroom).2.1

/-- The header before the channel load ends on a byte, and leaves room. -/
theorem headerBeforeLoad_ready (block : ℕ) (loadMem : ℕ → UInt8) (w : WsmpData) :
    Ready (headerBeforeLoad block loadMem w) ∧ (headerBeforeLoad block loadMem w).stop % 8 = 0 ∧
      (headerBeforeLoad block loadMem w).stop + 24 ≤ 8 * (headerBeforeLoad block loadMem w).endp ∧
      (headerBeforeLoad block loadMem w).start ≤ (headerBeforeLoad block loadMem w).stop := by
  obtain ⟨code, hcode⟩ : ∃ code, code = [UInt8.ofNat (countElements w).nHeader.data] ++
      [UInt8.ofNat (countElements w).weidQty] ++
        (sentElements (otherElements w)).flatMap WaveElement.code := ⟨_, rfl⟩
  have hall := ((appendsBytes_byte (countElements w).nHeader.data).bytes
    (appendsBytes_byte (countElements w).weidQty)).bytes
      (appendsBytes_elements (w := otherElements w) loadMem rfl)
  have hshort := length_flatMap_sentElements_le (otherElements w)
  have hlength : code.length ≤ 11 := by
    rw [hcode, List.length_append, List.length_append, List.length_singleton,
      List.length_singleton]
    omega
  rw [← hcode] at hall
  obtain ⟨bp, hbp⟩ : ∃ bp, bp = headerBeforeLoad block loadMem w := ⟨_, rfl⟩
  have halloc : (abufAlloc block 2000 20).stop = 8 * (block + 20) := rfl
  have hend : (abufAlloc block 2000 20).endp = block + 2000 := rfl
  obtain ⟨hholds, hfront, hleft⟩ := hall _ [] (holds_alloc block 2000 20) rfl (by
    rw [halloc, hend, length_byteBits]
    omega)
  change Holds (headerBeforeLoad block loadMem w) _ at hholds
  change SameFront _ (headerBeforeLoad block loadMem w) at hfront
  change (headerBeforeLoad block loadMem w).tailBitsLeft = 8 at hleft
  rw [← hbp] at hholds hfront hleft ⊢
  have hlen := hholds.length
  have hstart : bp.start = 8 * (block + 20) := hfront.start
  have hdata : bp.data = block + 20 := hfront.data
  have hendp : bp.endp = block + 2000 := hfront.endp
  have hstop : bp.stop = 8 * bp.tail := by rw [Abuf.stop, hleft, Nat.add_sub_cancel]
  rw [List.nil_append, length_byteBits] at hlen
  refine ⟨⟨by omega, by omega, by omega, by omega, by omega, fun _ => hleft⟩, by omega, by omega,
    by omega⟩

/-- What is written is not as long as the element. -/
theorem headerWithLoad_bits_ne (block : ℕ) (loadMem : ℕ → UInt8)
    (hinc : w.weidOpts.incLoadExt = true) (hpos : 0 < w.chanLoadLen.toNat) :
    (headerWithLoad block loadMem w).bits ≠
      (headerBeforeLoad block loadMem w).bits ++ byteBits (loadElement loadMem w).code := by
  intro hbits
  obtain ⟨bp, hbp⟩ : ∃ bp, bp = headerBeforeLoad block loadMem w := ⟨_, rfl⟩
  obtain ⟨n, hn⟩ : ∃ n, n = w.chanLoadLen.toNat := ⟨_, rfl⟩
  obtain ⟨hready, haligned, hroom, hstring⟩ := headerBeforeLoad_ready block loadMem w
  have hlt := w.chanLoadLen.toNat_lt
  rw [← hbp] at hready haligned hroom hstring
  have hid : Grown bp (ncat waveElemIdLoad 8 bp) 8 :=
    (asnNcatBits_fits hready (by norm_num) (by omega)).2.1
  have hidStop := hid.stop
  have hidEnd := hid.front.endp
  have hlen := grown_encodedLen (n := n) hid.ready (by omega) (by omega) (by omega)
  have hlenStop := hlen.stop
  have hfront := hid.front.trans hlen.front
  obtain ⟨hsame, hcopy⟩ :=
    asnNcat_bytes (n := 8 * n) hlen.ready (by omega) loadMem w.chanLoadPtr
  have hload : headerWithLoad block loadMem w =
      (asnNcat (asnPutEncodedLen (ncat waveElemIdLoad 8 bp) n).2 loadMem w.chanLoadPtr (8 * n)).2 := by
    rw [headerWithLoad_eq block hinc, ← hbp, hn]
    rfl
  have hstart : (headerWithLoad block loadMem w).start = bp.start := by
    rw [hload]
    exact (hfront.trans hsame).start
  have hcode : (loadElement loadMem w).code.length = 1 + (lenBytes n).length + n := by
    rw [WaveElement.code_length, loadElement, length_load, hn]
  have hlength := congrArg List.length hbits
  rw [← hbp, List.length_append, length_byteBits, hcode, Abuf.bits, Abuf.bits, length_window,
    length_window, hstart, hload] at hlength
  omega

end Load

/-- A channel load never makes the round trip. -/
theorem not_chanLoadRoundTrip (block : ℕ) (loadMem : ℕ → UInt8) {w : WsmpData}
    (hinc : w.weidOpts.incLoadExt = true) (hpos : 0 < w.chanLoadLen.toNat) :
    ¬ ChanLoadRoundTrip block loadMem w :=
  fun h => headerWithLoad_bits_ne block loadMem hinc hpos h.writes

/-- All elements, with a channel load of `len` bytes. -/
def allElements (len : UInt8) : WsmpData :=
  { callocWsmp with
    nHeader := WsmpNHeader.ofData 3
    weidOpts := ⟨true, true, true, true⟩
    chanLoadLen := len }

theorem not_chanLoadRoundTrip_130 :
    ¬ ChanLoadRoundTrip 1000 (fun i => UInt8.ofNat i) (allElements 130) :=
  not_chanLoadRoundTrip 1000 _ rfl (by decide)

/-- One byte of channel load becomes eight. -/
theorem not_chanLoadRoundTrip_byte :
    ¬ ChanLoadRoundTrip 1000 (fun i => UInt8.ofNat i) (allElements 1) :=
  fun h => headerWithLoad_bits_ne 1000 _ rfl (by decide) h.writes

end Tulux.QCoder
