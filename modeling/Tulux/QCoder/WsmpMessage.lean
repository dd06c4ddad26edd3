import Tulux.QCoder.PsidCode
import Tulux.QCoder.WsmpBits
import Tulux.QCoder.WsmpElements

/-! The messages that the encoder of `wsmp.c` builds: the bytes of the header, the length of the
payload, and the payload. -/
namespace Tulux.QCoder
open BitString ByteCode

/-! ### The code of a header -/

/-- An element of one byte. -/
def valueElement (id : ℕ) (v : UInt8) : WaveElement :=
  ⟨UInt8.ofNat id, [v], by rw [List.length_singleton]; norm_num⟩

/-- The elements of one byte that are sent. -/
def sentElements (w : WsmpData) : List WaveElement :=
  (if w.weidOpts.incRateExt then [valueElement waveElemIdRate w.rate] else []) ++
    ((if w.weidOpts.incPwrExt then [valueElement waveElemIdPwr w.pwr] else []) ++
      if w.weidOpts.incChanExt then [valueElement waveElemIdChan w.chan] else [])

/-- The N header, without a channel load. -/
def nHeaderCode (w : WsmpData) : List UInt8 :=
  UInt8.ofNat (countElements w).nHeader.data ::
    if sentElements w = [] then [] else extensionCode (sentElements w)

/-- The T header. With a PSID that is too large its first byte is lost, and a PSID that is negative as
an `int` has one byte. -/
def tHeaderCode (w : WsmpData) : List UInt8 :=
  if w.tpid.toNat < 2 then
    if w.psid ≤ 0x1020407f then w.tpid :: psidCode w.psid
    else if w.psid < 2 ^ 31 then []
    else [w.tpid, UInt8.ofNat w.psid]
  else [w.tpid, UInt8.ofNat (htons w.ports.srcPort), UInt8.ofNat (htons w.ports.dstPort)]

def headerCode (w : WsmpData) : List UInt8 := nHeaderCode w ++ tHeaderCode w

/-- What is put in front of a payload of `len` bytes. -/
def sentLenBits (len : ℕ) : List Bool := if 0 < len ∧ len < 0x4000 then pushedLenBits len else []

/-- An N header that the decoder takes, without a channel load. -/
structure PlainNHeader (w : WsmpData) : Prop where
  version : w.nHeader.version = 3
  subtype : w.nHeader.subtype = 0
  option : w.nHeader.optionIndicator = true → sentElements w ≠ []
  load : w.weidOpts.incLoadExt = false

/-- A payload in whole bytes of a buffer, with room for the header. -/
structure Sendable (payload : Abuf) : Prop where
  head : 0 < payload.head
  aligned : payload.headHeadspaceBits = 0
  bitsLeft : payload.tailBitsLeft ≤ 8
  string : payload.start ≤ payload.stop
  room : payload.head + 24 ≤ payload.data

/-- The bytes of the payload. -/
def payloadBytes (payload : Abuf) : ℕ := (payload.bits.length + 7) / 8

/-- The message that is sent: the header, the length and the payload. -/
structure IsMessage (bp payload : Abuf) (code : List UInt8) : Prop where
  start : 8 * (bp.data + code.length) + (sentLenBits (payloadBytes payload)).length = payload.start
  header : load bp.mem bp.data code.length = code
  len : HasAt (memBits bp.mem) (8 * (bp.data + code.length)) (sentLenBits (payloadBytes payload))
  bits : HasAt (memBits bp.mem) payload.start payload.bits
  tail : bp.tail = (abufTrim payload).tail

/-! ### The header in its buffer -/

/-- The buffer of the header holds the bytes, and ends on a byte. -/
structure HeaderIn (first : Abuf) (code : List UInt8) : Prop where
  aligned : first.headHeadspaceBits = 0
  bitsLeft : first.tailBitsLeft = 8
  data : 0 < first.data
  tail : first.tail = first.data + code.length
  bytes : load first.mem first.data code.length = code

section Header
variable {first bp bp' : Abuf} {code s : List UInt8} {w : WsmpData}

theorem Holds.headerIn (h : Holds first (byteBits code)) (haligned : first.headHeadspaceBits = 0)
    (hleft : first.tailBitsLeft = 8) (hdata : 0 < first.data) : HeaderIn first code := by
  have hlength := h.length
  have hbits := h.bits
  rw [length_byteBits, Abuf.start, Abuf.stop, haligned, hleft] at hlength
  rw [Abuf.start, haligned] at hbits
  exact ⟨haligned, hleft, hdata, by omega, hasAt_byteBits.mp hbits⟩

/-- The last byte is lost when the tail goes back. -/
theorem HeaderIn.dropLast {b : UInt8} (h : HeaderIn first (code ++ [b])) :
    HeaderIn { first with tail := first.tail - 1 } code := by
  have htail := h.tail
  rw [List.length_append, List.length_singleton] at htail
  refine ⟨h.aligned, h.bitsLeft, h.data, ?_, (load_append.mp h.bytes).1⟩
  dsimp only
  omega

theorem appendsBytes_byte (v : ℕ) : AppendsBytes (ncat v 8) (byteBits [UInt8.ofNat v]) := by
  rw [byteBits_byte]
  exact appendsBytes_ncat v

theorem AppendsBytes.bytes {f g : Abuf → Abuf} {s t : List UInt8}
    (hf : AppendsBytes f (byteBits s)) (hg : AppendsBytes g (byteBits t)) :
    AppendsBytes (fun bp => g (f bp)) (byteBits (s ++ t)) := by
  rw [byteBits_append]
  exact hf.comp hg

theorem AppendsBytes.optional {c : Bool} {f : Abuf → Abuf} {e : WaveElement}
    (hf : AppendsBytes f (byteBits e.code)) :
    AppendsBytes (fun bp => if c then f bp else bp)
      (byteBits ((if c then [e] else []).flatMap WaveElement.code)) := by
  cases c with
  | false => exact AppendsBytes.nil
  | true => simpa using hf

theorem appendsBytes_element (id : ℕ) (v : UInt8) :
    AppendsBytes (ncatElement id v) (byteBits (valueElement id v).code) := by
  have hvalue : AppendsBytes (ncat v.toNat 8) (byteBits [v]) := by
    have hbyte := appendsBytes_byte v.toNat
    rwa [UInt8.ofNat_toNat] at hbyte
  exact ((appendsBytes_byte id).bytes (appendsBytes_byte 1)).bytes hvalue

/-- The elements are appended in the order rate, power, channel. -/
theorem appendsBytes_elements (loadMem : ℕ → UInt8) (hload : w.weidOpts.incLoadExt = false) :
    AppendsBytes (ncatElements loadMem w)
      (byteBits ((sentElements w).flatMap WaveElement.code)) := by
  unfold ncatElements sentElements
  rw [hload, List.flatMap_append, List.flatMap_append]
  exact (appendsBytes_element waveElemIdRate w.rate).optional.bytes
    ((appendsBytes_element waveElemIdPwr w.pwr).optional.bytes
      (appendsBytes_element waveElemIdChan w.chan).optional)

theorem length_sentElements (w : WsmpData) : (sentElements w).length =
    w.weidOpts.incRateExt.toNat + w.weidOpts.incPwrExt.toNat + w.weidOpts.incChanExt.toNat := by
  unfold sentElements
  cases w.weidOpts.incRateExt <;> cases w.weidOpts.incPwrExt <;> cases w.weidOpts.incChanExt <;> rfl

theorem length_sentElements_lt (w : WsmpData) : (sentElements w).length < 0x80 := by
  have hrate := w.weidOpts.incRateExt.toNat_le
  have hpwr := w.weidOpts.incPwrExt.toNat_le
  have hchan := w.weidOpts.incChanExt.toNat_le
  rw [length_sentElements]
  omega

theorem weidQty_countElements (hload : w.weidOpts.incLoadExt = false) :
    (countElements w).weidQty = (sentElements w).length := by
  rw [length_sentElements]
  simp only [countElements, hload, Bool.toNat_false]
  omega

/-- The encoder up to the T header. -/
def ncatNHeader (loadMem : ℕ → UInt8) (wbp : WsmpData) (bp : Abuf) : Abuf :=
  let abp := ncat wbp.nHeader.data 8 bp
  if wbp.weidQty ≠ 0 then ncatElements loadMem wbp (ncat wbp.weidQty 8 abp) else abp

theorem appendsBytes_nHeader (loadMem : ℕ → UInt8) (hload : w.weidOpts.incLoadExt = false) :
    AppendsBytes (ncatNHeader loadMem (countElements w)) (byteBits (nHeaderCode w)) := by
  have hqty := weidQty_countElements hload
  have hfirst := appendsBytes_byte (countElements w).nHeader.data
  unfold ncatNHeader nHeaderCode
  by_cases hnone : sentElements w = []
  · have hzero : ¬ (countElements w).weidQty ≠ 0 := by rw [hqty, hnone]; simp
    simp only [if_neg hzero, if_pos hnone]
    exact hfirst
  · have hsome : (countElements w).weidQty ≠ 0 := by
      rw [hqty]
      exact fun h => hnone (List.eq_nil_of_length_eq_zero h)
    have hshort := length_sentElements_lt w
    have hcode : extensionCode (sentElements w) = [UInt8.ofNat (sentElements w).length] ++
        (sentElements w).flatMap WaveElement.code := by
      rw [extensionCode, lenBytes, if_pos hshort]
    simp only [if_pos hsome, if_neg hnone]
    rw [hcode, hqty]
    exact hfirst.bytes ((appendsBytes_byte _).bytes (appendsBytes_elements loadMem hload))

theorem psidBits_eq (psid : ℕ) : psidBits psid = byteBits (psidCode psid) := by
  unfold psidBits psidCode psidSize
  split_ifs <;> rw [byteBits_beBytes]
  · rfl
  · rfl
  · rfl
  · rfl

/-- The header in the buffer that is allocated for it. -/
theorem AppendsBytes.headerIn {f : Abuf → Abuf} (block : ℕ) (hf : AppendsBytes f (byteBits code))
    (hshort : code.length ≤ 22) : HeaderIn (f (abufAlloc block 2000 20)) code := by
  have hstop : (abufAlloc block 2000 20).stop = 8 * (block + 20) := rfl
  have hend : (abufAlloc block 2000 20).endp = block + 2000 := rfl
  obtain ⟨hholds, hfront, hleft⟩ := hf _ [] (holds_alloc block 2000 20) rfl
    (by rw [hstop, hend, length_byteBits]; omega)
  rw [List.nil_append] at hholds
  have hdata : (f (abufAlloc block 2000 20)).data = block + 20 := hfront.data
  exact hholds.headerIn hfront.headspace hleft (by omega)

/-- With a PSID that is too large the last byte of the header is lost. -/
theorem HeaderIn.lostPsid {b : UInt8} {psid : ℕ} (h : HeaderIn first (code ++ [b]))
    (hlo : 0x1020407f < psid) (hhi : psid < 2 ^ 31) : HeaderIn (abufAddPsid first psid) code := by
  have hs32 : s32 psid = psid := s32_of_lt (by omega)
  have hnone : wsmPsidPcodedLen psid = -1 := by
    rw [wsmPsidPcodedLen, if_pos]
    rw [maxPsid]
    omega
  have hlost : abufAddPsid first psid = { first with tail := first.tail - 1 } := by
    rw [abufAddPsid, hs32, hnone, if_pos (by norm_num)]
  rw [hlost]
  exact h.dropLast

theorem wsmPsidPcodedLen_neg {v : ℤ} (h : v < 0) : wsmPsidPcodedLen v = 1 := by
  unfold wsmPsidPcodedLen maxPsid
  rw [if_neg (by omega), if_neg (by omega), if_neg (by omega), if_neg (by omega)]

theorem wsmpAddPsid_neg {v : ℤ} (a : ℕ) (h : v < 0) :
    wsmpAddPsid bp a v = bp.setByte a (UInt8.ofNat (u32 v)) := by
  unfold wsmpAddPsid maxPsid
  rw [if_neg (by omega), if_neg (by omega), if_neg (by omega), if_neg (by omega)]

/-- A PSID from 2^31 on is negative as an `int`. -/
theorem s32_psid {psid : ℕ} (hlo : 2 ^ 31 ≤ psid) (hhi : psid < 2 ^ 32) :
    s32 psid < 0 ∧ u32 (s32 psid) = psid := by
  have hs32 : s32 psid = psid - 2 ^ 32 := by
    rw [s32, Int.bmod]
    split_ifs <;> omega
  rw [hs32, u32]
  omega

/-- A PSID from 2^31 on is taken for a small one. -/
theorem appendsBytes_negativePsid {psid : ℕ} (hlo : 2 ^ 31 ≤ psid) (hhi : psid < 2 ^ 32) :
    AppendsBytes (fun bp => abufAddPsid bp psid) (byteBits [UInt8.ofNat psid]) := by
  intro bp t h hleft hroom
  obtain ⟨hneg, hu32⟩ := s32_psid hlo hhi
  have hstop : bp.stop = 8 * bp.tail := by rw [Abuf.stop, hleft, Nat.add_sub_cancel]
  rw [byteBits_byte, length_natBits] at hroom
  have hput : abufPut bp 1 = (some bp.tail, { bp with tail := bp.tail + 1 }) := by
    rw [abufPut, if_neg (by omega)]
  have hlen : ¬ wsmPsidPcodedLen (s32 psid) < 0 := by rw [wsmPsidPcodedLen_neg hneg]; norm_num
  have hadd : abufAddPsid bp psid =
      { bp.setByte bp.tail (UInt8.ofNat psid) with tail := bp.tail + 1 } := by
    rw [abufAddPsid]
    dsimp only
    rw [if_neg hlen, wsmPsidPcodedLen_neg hneg, Int.toNat_one, hput]
    dsimp only
    rw [wsmpAddPsid_neg _ hneg, hu32]
    rfl
  dsimp only
  rw [byteBits_byte, hadd]
  exact ⟨h.putByte hleft (by omega), ⟨rfl, rfl, rfl, rfl, rfl⟩, hleft⟩

/-- The bytes of the header go in front of a string. -/
theorem Pushed.mergeBytes {t : List Bool} (first : Abuf) (n cp : ℕ) (h : Pushed bp bp' t)
    (hn : n ≤ cp + 1) (hhead : 0 < bp.head) (hstring : bp.start ≤ bp.stop)
    (hroom : 8 * bp.head + 8 * n + t.length ≤ bp.start) :
    Pushed bp (mergeSecondBytes first cp n bp')
      (window (memBits first.mem) (8 * (cp + 1 - n)) (8 * n) ++ t) := by
  induction n generalizing cp bp' t with
  | zero => exact h
  | succ n ih =>
    have hbyte : Pushed bp (push (first.mem cp).toNat 8 bp') (natBits 8 (first.mem cp).toNat ++ t) :=
      h.next (pushesBits_push _ (by norm_num)) hhead hstring (by
        rw [List.length_append, length_natBits]
        omega)
    have hrest := ih (cp - 1) hbyte (by omega) (by
      rw [List.length_append, length_natBits]
      omega)
    rw [mergeSecondBytes, window_bytes_succ first.mem (Nat.le_of_succ_le_succ hn), List.append_assoc]
    exact hrest

theorem abufTrim_aligned (haligned : bp.headHeadspaceBits = 0) : abufTrim bp =
    if bp.tailBitsLeft = 8 then { bp with tail := bp.tail - 1, tailBitsLeft := 0 } else bp := by
  have hspace : ¬ bp.headHeadspaceBits = 8 := by omega
  unfold abufTrim
  dsimp only
  rw [if_neg hspace]

/-- The header goes in front of a string. -/
theorem HeaderIn.merge {t : List Bool} (hfirst : HeaderIn first code) (h : Pushed bp bp' t)
    (hhead : 0 < bp.head) (hstring : bp.start ≤ bp.stop)
    (hroom : 8 * bp.head + 8 * code.length + t.length ≤ bp.start) :
    Pushed bp (abufMergeSecond (abufTrim first) bp') (byteBits code ++ t) := by
  have hdata := hfirst.data
  have htail := hfirst.tail
  have htrim : abufTrim first = { first with tail := first.tail - 1, tailBitsLeft := 0 } := by
    rw [abufTrim_aligned hfirst.aligned, if_pos hfirst.bitsLeft]
  have hcount : first.tail - 1 + 1 - first.data = code.length := by omega
  have hmerge := h.mergeBytes (abufTrim first) code.length (first.tail - 1) (by omega) hhead
    hstring hroom
  have hbits : window (memBits first.mem) (8 * (first.tail - 1 + 1 - code.length))
      (8 * code.length) = byteBits code := by
    have hat := hasAt_byteBits.mpr hfirst.bytes
    rwa [HasAt, length_byteBits, show first.data = first.tail - 1 + 1 - code.length by omega] at hat
  rw [htrim] at hmerge ⊢
  rw [hbits] at hmerge
  rw [abufMergeSecond]
  dsimp only
  rw [hcount]
  exact hmerge

end Header

/-! ### The message -/

section Message
variable {payload first : Abuf} {code : List UInt8} {w : WsmpData}

/-- Trimming keeps the payload. -/
theorem Sendable.trim (h : Sendable payload) : (abufTrim payload).start = payload.start ∧
    (abufTrim payload).stop = payload.stop ∧ (abufTrim payload).bits = payload.bits ∧
      (abufTrim payload).mem = payload.mem ∧ (abufTrim payload).head = payload.head ∧
        (abufTrim payload).headHeadspaceBits = 0 := by
  have haligned := h.aligned
  have hhead := h.head
  have hroom := h.room
  have hstring := h.string
  by_cases hleft : payload.tailBitsLeft = 8
  · have htrim : abufTrim payload = { payload with tail := payload.tail - 1, tailBitsLeft := 0 } := by
      rw [abufTrim_aligned haligned, if_pos hleft]
    have hstop : (abufTrim payload).stop = payload.stop := by
      rw [htrim, Abuf.stop, Abuf.stop, hleft]
      rw [Abuf.start, Abuf.stop, haligned, hleft] at hstring
      dsimp only
      omega
    have hstart : (abufTrim payload).start = payload.start := by rw [htrim]; rfl
    have hmem : (abufTrim payload).mem = payload.mem := by rw [htrim]
    refine ⟨hstart, hstop, ?_, hmem, by rw [htrim], by rw [htrim]; exact haligned⟩
    rw [Abuf.bits, hstart, hstop, hmem]
    rfl
  · have htrim : abufTrim payload = payload := by
      rw [abufTrim_aligned haligned, if_neg hleft]
    rw [htrim]
    exact ⟨rfl, rfl, rfl, rfl, rfl, haligned⟩

theorem length_sentLenBits (len : ℕ) : (sentLenBits len).length =
    if 0 < len ∧ len < 0x4000 then if len < 0x80 then 8 else 16 else 0 := by
  unfold sentLenBits pushedLenBits
  split_ifs <;> rfl

/-- The length is put in front of the payload, when it has a code. -/
theorem Sendable.pushLen (h : Sendable payload) : Pushed (abufTrim payload)
    (asnPushLen (abufTrim payload)) (sentLenBits (payloadBytes payload)) := by
  obtain ⟨hstart, hstop, hbits, -, hhead, haligned⟩ := h.trim
  obtain ⟨n, hn⟩ : ∃ n, n = payload.bits.length := ⟨_, rfl⟩
  obtain ⟨bp, hbp⟩ : ∃ bp, bp = abufTrim payload := ⟨_, rfl⟩
  have hstring := h.string
  have hroom := h.room
  have hpos := h.head
  have hdata : payload.start = 8 * payload.data + payload.headHeadspaceBits := rfl
  rw [← hbp] at hstart hstop hbits hhead haligned ⊢
  have hlen : abufBitsLen bp = n := by
    have hlength : bp.bits.length = bp.stop - bp.start := length_window _ _ _
    have hleft : bp.tailBitsLeft ≤ 8 := by
      have hle := h.bitsLeft
      rw [hbp, abufTrim_aligned h.aligned]
      split_ifs
      · exact Nat.zero_le 8
      · exact hle
    rw [hbits, ← hn] at hlength
    rw [← hstart, ← hstop] at hstring
    rw [Abuf.start, Abuf.stop] at hlength hstring
    rw [abufBitsLen]
    omega
  rw [asnPushLen, hlen, bytesForBits_eq, sentLenBits, payloadBytes, ← hn]
  by_cases hshort : 0 < (n + 7) / 8 ∧ (n + 7) / 8 < 0x4000
  · have hle : (pushedLenBits ((n + 7) / 8)).length ≤ 16 := by
      unfold pushedLenBits
      split_ifs <;> rw [length_natBits]
      norm_num
    rw [if_pos hshort]
    exact pushesBits_encodedLen hshort.1 hshort.2 bp (by omega) (by omega) (by omega) (by omega)
  · have hnone : (asnPushEncodedLen bp ((n + 7) / 8 : ℕ)).2 = bp := by
      unfold asnPushEncodedLen
      by_cases hzero : 0 < (n + 7) / 8
      · rw [if_pos (by omega), if_neg (by omega), if_neg (by omega)]
      · rw [if_neg (by omega)]
    rw [if_neg hshort, hnone]
    exact ⟨rfl, rfl, SameBack.refl bp, by omega⟩

theorem Sendable.pushHeader (h : Sendable payload) (hfirst : HeaderIn first code)
    (hshort : code.length ≤ 22) : Pushed (abufTrim payload) (encodeWsmPayload first payload).2
      (byteBits code ++ sentLenBits (payloadBytes payload)) := by
  obtain ⟨hstart, hstop, -, -, hhead, haligned⟩ := h.trim
  have hpushed := h.pushLen
  obtain ⟨bp, hbp⟩ : ∃ bp, bp = abufTrim payload := ⟨_, rfl⟩
  have hstring := h.string
  have hroom := h.room
  have hpos := h.head
  have hdata : payload.start = 8 * payload.data + payload.headHeadspaceBits := rfl
  have hle : (sentLenBits (payloadBytes payload)).length ≤ 16 := by
    rw [length_sentLenBits]
    split_ifs <;> omega
  rw [encodeWsmPayload]
  dsimp only
  rw [← hbp] at hstart hstop hhead haligned hpushed ⊢
  exact hfirst.merge hpushed (by omega) (by omega) (by omega)

/-- What is pushed in front of a payload makes a message of it. -/
theorem Sendable.isMessage {all : Abuf} (h : Sendable payload) (hpushed : Pushed (abufTrim payload)
    all (byteBits code ++ sentLenBits (payloadBytes payload))) : IsMessage all payload code := by
  obtain ⟨hstart, -, hbits, -, -, -⟩ := h.trim
  have hdata : payload.start = 8 * payload.data + payload.headHeadspaceBits := rfl
  have hmod : (sentLenBits (payloadBytes payload)).length % 8 = 0 := by
    rw [length_sentLenBits]
    split_ifs <;> omega
  have hfront := hpushed.start
  have hspace := hpushed.headspace
  have hat := hasAt_bits all
  have halldata : all.start = 8 * all.data + all.headHeadspaceBits := rfl
  have haligned := h.aligned
  rw [hstart, List.length_append, length_byteBits] at hfront
  have hfront' : all.start = 8 * all.data := by omega
  rw [hpushed.bits, hbits, hfront', List.append_assoc, hasAt_append, hasAt_append,
    length_byteBits] at hat
  constructor
  · omega
  · exact hasAt_byteBits.mp hat.1
  · rw [Nat.mul_add]
    exact hat.2.1
  · rw [show payload.start = 8 * all.data + 8 * code.length +
      (sentLenBits (payloadBytes payload)).length by omega]
    exact hat.2.2
  · exact hpushed.back.tail

/-- The four values of the octet. -/
theorem tpid_cases {t : UInt8} (h : t.toNat ≤ 3) : t = 0 ∨ t = 1 ∨ t = 2 ∨ t = 3 := by
  simp only [← UInt8.toNat_inj, UInt8.toNat_ofNat]
  omega

/-- The T header behind the N header; the octet is written before its low bit is cleared. -/
theorem encodeWsm2016_eq (loadMem : ℕ → UInt8) (bp payload : Abuf) (htpid : w.tpid.toNat ≤ 3) :
    (encodeWsm2016 loadMem w bp payload).2.2 =
      (encodeWsmPayload (if w.tpid.toNat < 2 then
          abufAddPsid (ncat w.tpid.toNat 8 (ncatNHeader loadMem (countElements w) bp)) w.psid
        else ncat (htons w.ports.dstPort) 8 (ncat (htons w.ports.srcPort) 8
          (ncat w.tpid.toNat 8 (ncatNHeader loadMem (countElements w) bp)))) payload).2 := by
  obtain ⟨_, _, _, _, _, _, _, _, tpid, _, _, _⟩ := w
  rcases tpid_cases htpid with rfl | rfl | rfl | rfl
  all_goals
    unfold encodeWsm2016
    simp [countElements, ncatNHeader]

theorem length_flatMap_sentElements_le (w : WsmpData) :
    ((sentElements w).flatMap WaveElement.code).length ≤ 9 := by
  unfold sentElements
  cases w.weidOpts.incRateExt <;> cases w.weidOpts.incPwrExt <;> cases w.weidOpts.incChanExt <;>
    simp [lenBytes, WaveElement.code, valueElement]

theorem length_nHeaderCode_le (w : WsmpData) : (nHeaderCode w).length ≤ 11 := by
  have hcodes := length_flatMap_sentElements_le w
  have hcount : (lenBytes (sentElements w).length).length = 1 := by
    rw [length_lenBytes, if_pos (length_sentElements_lt w)]
  unfold nHeaderCode
  rw [List.length_cons]
  split_ifs
  · rw [List.length_nil]
    omega
  · rw [extensionCode, List.length_append]
    omega

theorem wsmpEncode_pushed (block : ℕ) (loadMem : ℕ → UInt8) {mc : MsgContents}
    (hmc : mc.wsmp = some w) (hload : w.weidOpts.incLoadExt = false) (htpid : w.tpid.toNat ≤ 3)
    (hpsid : w.psid < 2 ^ 32) (hsend : Sendable mc.abuf) :
    Pushed (abufTrim mc.abuf) (wsmpEncode block loadMem mc).2.abuf
      (byteBits (headerCode w) ++ sentLenBits (payloadBytes mc.abuf)) := by
  have hn := length_nHeaderCode_le w
  have hencode : (wsmpEncode block loadMem mc).2.abuf =
      (encodeWsm2016 loadMem w (abufAlloc block 2000 20) mc.abuf).2.2 := by
    rw [wsmpEncode, hmc]
  have htype : AppendsBytes (fun bp => ncat w.tpid.toNat 8 (ncatNHeader loadMem (countElements w) bp))
      (byteBits (nHeaderCode w ++ [w.tpid])) := by
    have hbyte := appendsBytes_byte w.tpid.toNat
    rw [UInt8.ofNat_toNat] at hbyte
    exact (appendsBytes_nHeader loadMem hload).bytes hbyte
  rw [hencode, encodeWsm2016_eq loadMem _ _ htpid]
  unfold headerCode tHeaderCode
  by_cases hports : w.tpid.toNat < 2
  · rw [if_pos hports, if_pos hports]
    by_cases hmax : w.psid ≤ 0x1020407f
    · have hcode : nHeaderCode w ++ w.tpid :: psidCode w.psid =
          nHeaderCode w ++ [w.tpid] ++ psidCode w.psid := by
        rw [List.append_assoc, List.singleton_append]
      have hsize := psidSize_mem w.psid
      have hshort : (nHeaderCode w ++ [w.tpid] ++ psidCode w.psid).length ≤ 22 := by
        rw [List.length_append, List.length_append, List.length_singleton, length_psidCode]
        omega
      have hcoded := appendsBytes_psid hmax
      rw [psidBits_eq] at hcoded
      rw [if_pos hmax, hcode]
      exact hsend.pushHeader ((htype.bytes hcoded).headerIn block hshort) hshort
    rw [if_neg hmax]
    by_cases hlost : w.psid < 2 ^ 31
    · have hshort : (nHeaderCode w ++ [w.tpid]).length ≤ 22 := by
        rw [List.length_append, List.length_singleton]
        omega
      rw [if_pos hlost, List.append_nil]
      exact hsend.pushHeader ((htype.headerIn block hshort).lostPsid (by omega) hlost) (by omega)
    · have hall := htype.bytes (appendsBytes_negativePsid (by omega) hpsid)
      rw [List.append_assoc] at hall
      have hshort : (nHeaderCode w ++ ([w.tpid] ++ [UInt8.ofNat w.psid])).length ≤ 22 := by
        simp only [List.length_append, List.length_singleton]
        omega
      rw [if_neg hlost]
      exact hsend.pushHeader (hall.headerIn block hshort) hshort
  · rw [if_neg hports, if_neg hports]
    have hsrc := appendsBytes_byte (htons w.ports.srcPort)
    have hdst := appendsBytes_byte (htons w.ports.dstPort)
    have hall := (htype.bytes hsrc).bytes hdst
    rw [List.append_assoc, List.append_assoc] at hall
    have hshort : (nHeaderCode w ++ ([w.tpid] ++ ([UInt8.ofNat (htons w.ports.srcPort)] ++
        [UInt8.ofNat (htons w.ports.dstPort)]))).length ≤ 22 := by
      simp only [List.length_append, List.length_singleton]
      omega
    exact hsend.pushHeader (hall.headerIn block hshort) hshort

theorem wsmpEncode_isMessage (block : ℕ) (loadMem : ℕ → UInt8) {mc : MsgContents}
    (hmc : mc.wsmp = some w) (hload : w.weidOpts.incLoadExt = false) (htpid : w.tpid.toNat ≤ 3)
    (hpsid : w.psid < 2 ^ 32) (hsend : Sendable mc.abuf) :
    IsMessage (wsmpEncode block loadMem mc).2.abuf mc.abuf (headerCode w) :=
  hsend.isMessage (wsmpEncode_pushed block loadMem hmc hload htpid hpsid hsend)

end Message

end Tulux.QCoder
