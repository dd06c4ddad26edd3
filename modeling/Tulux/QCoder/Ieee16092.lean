import Tulux.QCoder.LengthCodes
import Tulux.QCoder.EncodeMsg

/-! The unsecured 1609.2 header of `ieee1609.2.c`. -/
namespace Tulux.QCoder
open BitString

/-! ### The code -/

/-- `abuf_bits_len` counts in an `int`. -/
def abufBitsLenInt (bp : Abuf) : ℤ := s32 (abufBitsLen bp)

def asnPushIeee16092LenInt (bp : Abuf) : Abuf :=
  (asnPushCerEncodedLen bp (bytesForBits (abufBitsLenInt bp))).2

/-- The encoder on payloads of any size. -/
def ieee16092EncodeUnsecuredInt (mc : MsgContents) : ℤ × MsgContents :=
  match mc.ieee16092Data with
  | none => (-1, mc)
  | some ie =>
    if ie.content = signedData ∨ ie.content = encryptedData then (1, mc)
    else
      (0, { mc with
        abuf := push ie.protocolVersion.toNat 8 (push ie.tagclass 2 (push ie.content 6
          (asnPushIeee16092LenInt mc.abuf))) })

/-- Nothing is a read through a null pointer, and the result of the source is 0. -/
def ieee16092DecodeUnsecured (mc : MsgContents) : Option MsgContents :=
  match abufPull mc.abuf 1 with
  | (none, _) => none
  | (some version, abuf) =>
    let (tagclass, cp, bitsLeft) := getNextNBits abuf.mem abuf.data 2 8
    let (content, cp, bitsLeft) := getNextNBits abuf.mem cp 6 bitsLeft
    let (len, cp, _) := parseAsnCerLenEnc abuf.mem cp bitsLeft
    some { mc with
      abuf := { abuf with data := cp }
      payloadLen := s32 len
      ieee16092Data := some ⟨abuf.mem version, ⟨tagclass % 4, Nat.mod_lt _ (by decide)⟩, content⟩ }

/-! ### Round trips -/

/-- On an octet boundary the length is read back, and the reader stops at the old string. -/
def CerRoundTrip (len : ℕ) : Prop :=
  ∀ bp : Abuf, 0 < bp.head → bp.headHeadspaceBits ≤ 8 → bp.start % 8 = 0 → bp.start ≤ bp.stop →
    8 * bp.head + (cerLenBits len).length ≤ bp.start →
    (asnPushCerEncodedLen bp len).2.bits = cerLenBits len ++ bp.bits ∧
      parseAsnCerLenEnc (asnPushCerEncodedLen bp len).2.mem (asnPushCerEncodedLen bp len).2.data 8 =
        (len, bp.start / 8, 8)

/-- A message that is to be wrapped, with room for its header. -/
structure Wrappable (mc : MsgContents) (ie : Ieee16092Data) : Prop where
  header : mc.ieee16092Data = some ie
  unsecured : ie.content ≠ signedData ∧ ie.content ≠ encryptedData
  head : 0 < mc.abuf.head
  headspace : mc.abuf.headHeadspaceBits ≤ 8
  bitsLeft : mc.abuf.tailBitsLeft ≤ 8
  aligned : mc.abuf.start % 8 = 0
  string : mc.abuf.start ≤ mc.abuf.stop
  room : 8 * mc.abuf.head + 16 + (cerLenBits ((mc.abuf.bits.length + 7) / 8)).length ≤ mc.abuf.start

/-- The decoder is at the payload of `mc`, and knows its length in bytes. -/
structure FindsPayload (mc mc' : MsgContents) (ie : Ieee16092Data) : Prop where
  payloadLen : mc'.payloadLen = ((mc.abuf.bits.length + 7) / 8 : ℕ)
  data : 8 * mc'.abuf.data = mc.abuf.start
  bits : HasAt (memBits mc'.abuf.mem) (8 * mc'.abuf.data) mc.abuf.bits
  header : mc'.ieee16092Data = some { ie with content := ie.content % 64 }

def Unwraps (mc : MsgContents) (ie : Ieee16092Data) : Prop :=
  ∃ mc', ieee16092DecodeUnsecured (ieee16092EncodeUnsecuredInt mc).2 = some mc' ∧
    FindsPayload mc mc' ie

/-- Up to 2^31 bits the two encoders are one. -/
theorem ieee16092EncodeUnsecuredInt_eq {mc : MsgContents} (h : 0 ≤ abufBitsLen mc.abuf)
    (hlt : abufBitsLen mc.abuf < 2 ^ 31) :
    ieee16092EncodeUnsecuredInt mc = ieee16092EncodeUnsecured mc := by
  have hint : abufBitsLenInt mc.abuf = abufBitsLen mc.abuf := s32_of_lt ⟨by omega, hlt⟩
  rw [ieee16092EncodeUnsecuredInt, ieee16092EncodeUnsecured, asnPushIeee16092LenInt, hint]
  rfl

section RoundTrip
variable {bp bp' : Abuf} {len : ℕ}

theorem length_cerLenBits_mod (len : ℕ) : (cerLenBits len).length % 8 = 0 := by
  rw [length_cerLenBits]
  split_ifs <;> omega

/-- The length is read from the first byte of the new string. -/
theorem Pushed.readCer (h : Pushed bp bp' (cerLenBits len)) (haligned : bp.start % 8 = 0)
    (hlen : len < 2 ^ 31) : parseAsnCerLenEnc bp'.mem bp'.data 8 = (len, bp.start / 8, 8) := by
  have hstart := h.start
  have hspace := h.headspace
  have hdata : bp'.start = 8 * bp'.data + bp'.headHeadspaceBits := rfl
  have hmod := length_cerLenBits_mod len
  have hread := parseAsnCerLenEnc_of_hasAt (hasAt_of_bits h.bits) (by omega) hlen
  rwa [hstart, show bp'.start / 8 = bp'.data by omega] at hread

theorem cerRoundTrip_of (hpos : 0 < len) (hlen : len < 2 ^ 31) : CerRoundTrip len := by
  intro bp hhead hspace haligned hstring hroom
  have hpushed : Pushed bp (asnPushCerEncodedLen bp len).2 (cerLenBits len) :=
    pushesBits_cerLen hpos hlen bp hhead hspace hstring hroom
  exact ⟨hpushed.bits, hpushed.readCer haligned hlen⟩

/-- The bits before the length. -/
def unsecuredBits (ie : Ieee16092Data) : List Bool :=
  natBits 8 ie.protocolVersion.toNat ++ (natBits 2 ie.tagclass ++ natBits 6 ie.content)

theorem pushesBits_unsecured (ie : Ieee16092Data) :
    PushesBits (fun bp => push ie.protocolVersion.toNat 8 (push ie.tagclass 2 (push ie.content 6 bp)))
      (unsecuredBits ie) :=
  ((pushesBits_push ie.content (by norm_num)).comp
    (pushesBits_push ie.tagclass (by norm_num))).comp
      (pushesBits_push ie.protocolVersion.toNat (by norm_num))

theorem Wrappable.pushed {mc : MsgContents} {ie : Ieee16092Data} (h : Wrappable mc ie)
    (hpos : 0 < mc.abuf.bits.length) (hlt : mc.abuf.bits.length < 2 ^ 31) :
    ∃ abuf, ieee16092EncodeUnsecuredInt mc = (0, { mc with abuf := abuf }) ∧
      Pushed mc.abuf abuf
        (unsecuredBits ie ++ cerLenBits ((mc.abuf.bits.length + 7) / 8)) := by
  obtain ⟨n, hn⟩ : ∃ n, n = mc.abuf.bits.length := ⟨_, rfl⟩
  have hroom := h.room
  rw [← hn] at hpos hlt hroom ⊢
  have hcount : abufBitsLenInt mc.abuf = n := by
    have hleft := h.bitsLeft
    have hbits : mc.abuf.bits.length = mc.abuf.stop - mc.abuf.start := length_window _ _ _
    have hstring := h.string
    have hall : abufBitsLen mc.abuf = n := by
      rw [Abuf.start, Abuf.stop] at hbits hstring
      rw [abufBitsLen]
      omega
    rw [abufBitsLenInt, hall, s32_of_lt (by omega)]
  have hlen : Pushed mc.abuf (asnPushIeee16092LenInt mc.abuf) (cerLenBits ((n + 7) / 8)) := by
    rw [asnPushIeee16092LenInt, hcount, bytesForBits_eq]
    exact pushesBits_cerLen (by omega) (by omega) mc.abuf h.head h.headspace h.string (by omega)
  have hall := hlen.next (pushesBits_unsecured ie) h.head h.string (by
    rw [List.length_append, unsecuredBits, List.length_append, List.length_append, length_natBits,
      length_natBits, length_natBits]
    omega)
  refine ⟨_, ?_, hall⟩
  rw [ieee16092EncodeUnsecuredInt, h.header]
  dsimp only
  rw [if_neg (not_or.mpr h.unsecured)]

theorem decodeUnsecured_of_hasAt {mc : MsgContents} {ie : Ieee16092Data}
    (h : HasAt (memBits mc.abuf.mem) (8 * mc.abuf.data) (unsecuredBits ie ++ cerLenBits len))
    (hlen : len < 2 ^ 31) (hdata : mc.abuf.data < mc.abuf.tail) :
    ieee16092DecodeUnsecured mc = some { mc with
      abuf := { mc.abuf with data := mc.abuf.data + 2 + (cerLenBits len).length / 8 }
      payloadLen := len
      ieee16092Data := some { ie with content := ie.content % 64 } } := by
  obtain ⟨p, hp⟩ : ∃ p, p = mc.abuf.data := ⟨_, rfl⟩
  have hheader := h.left
  have hcer := h.right
  have hfields := hheader.right
  rw [length_natBits] at hfields
  have hcontent := hfields.right
  rw [length_natBits, ← natBits_mod] at hcontent
  rw [show (unsecuredBits ie).length = 16 by rfl] at hcer
  rw [← hp] at hheader hfields hcontent hcer hdata
  have hversion := byte_of_hasAt hheader.left (by omega) ie.protocolVersion.toNat_lt
  have htagclass := getNextNBits_of_hasAt hfields.left (by norm_num) ie.tagclass.isLt
  have hrest := getNextNBits_of_hasAt hcontent (by norm_num) (Nat.mod_lt _ (by norm_num))
  have hread := parseAsnCerLenEnc_of_hasAt hcer (by omega) hlen
  rw [show 8 * p / 8 = p by omega] at hversion
  rw [show (8 * p + 8) / 8 = p + 1 by omega, show 8 - (8 * p + 8) % 8 = 8 by omega,
    show (8 * p + 8 + 2) / 8 = p + 1 by omega, show 8 - (8 * p + 8 + 2) % 8 = 6 by omega]
    at htagclass
  rw [show (8 * p + 8 + 2) / 8 = p + 1 by omega, show 8 - (8 * p + 8 + 2) % 8 = 6 by omega,
    show (8 * p + 8 + 2 + 6) / 8 = p + 2 by omega, show 8 - (8 * p + 8 + 2 + 6) % 8 = 8 by omega]
    at hrest
  rw [show (8 * p + 16) / 8 = p + 2 by omega] at hread
  have hmod := length_cerLenBits_mod len
  have hpull : abufPull mc.abuf 1 = (some p, { mc.abuf with data := p + 1 }) := by
    rw [abufPull, ← hp, if_neg (by omega)]
  have htag : (⟨ie.tagclass.val % 4, Nat.mod_lt _ (by decide)⟩ : Fin 4) = ie.tagclass :=
    Fin.ext (Nat.mod_eq_of_lt ie.tagclass.isLt)
  unfold ieee16092DecodeUnsecured
  rw [hpull]
  dsimp only
  rw [htagclass]
  dsimp only
  rw [hrest]
  dsimp only
  rw [hread, s32_of_lt (by omega), UInt8.toNat_inj.mp hversion, htag,
    show (8 * p + 16 + (cerLenBits len).length) / 8 = p + 2 + (cerLenBits len).length / 8 by omega,
    ← hp]
  rfl

/-- The decoder undoes the encoder. -/
theorem Wrappable.unwraps {mc : MsgContents} {ie : Ieee16092Data} (h : Wrappable mc ie)
    (hpos : 0 < mc.abuf.bits.length) (hlt : mc.abuf.bits.length < 2 ^ 31) : Unwraps mc ie := by
  obtain ⟨abuf, hencode, hpushed⟩ := h.pushed hpos hlt
  obtain ⟨n, hn⟩ : ∃ n, n = (mc.abuf.bits.length + 7) / 8 := ⟨_, rfl⟩
  rw [← hn] at hpushed
  have hheader : (unsecuredBits ie).length = 16 := rfl
  have hstart := hpushed.start
  have hspace := hpushed.headspace
  have hdata : abuf.start = 8 * abuf.data + abuf.headHeadspaceBits := rfl
  have hmod := length_cerLenBits_mod n
  have haligned := h.aligned
  rw [List.length_append, hheader] at hstart
  have hstart' : abuf.start = 8 * abuf.data := by omega
  have hall := hasAt_bits abuf
  rw [hstart', hpushed.bits] at hall
  have htail : abuf.data < abuf.tail := by
    have hbits : mc.abuf.bits.length = mc.abuf.stop - mc.abuf.start := length_window _ _ _
    have hback := hpushed.back.tail
    rw [Abuf.stop] at hbits
    omega
  have hpayload := hall.right
  rw [List.length_append, hheader] at hpayload
  have hcursor : 8 * (abuf.data + 2 + (cerLenBits n).length / 8) =
      8 * abuf.data + (16 + (cerLenBits n).length) := by omega
  have hdecode : ieee16092DecodeUnsecured { mc with abuf := abuf } = _ :=
    decodeUnsecured_of_hasAt hall.left (by omega) htail
  rw [Unwraps, hencode]
  refine ⟨_, hdecode, ?_⟩
  constructor
  · rw [hn]
  · dsimp only
    omega
  · dsimp only
    rwa [hcursor]
  · rfl

/-- A length has the octets of an `int`, and a payload the bits that an `int` counts. -/
theorem ieee16092_roundTrip : (∀ len, 0 < len → len < 2 ^ 31 → CerRoundTrip len) ∧
    ∀ mc ie, Wrappable mc ie → 0 < mc.abuf.bits.length → mc.abuf.bits.length < 2 ^ 31 →
      Unwraps mc ie :=
  ⟨fun _ => cerRoundTrip_of, fun _ _ => Wrappable.unwraps⟩

/-- A message of `n` zeros behind some room. -/
def zerosContents (n : ℕ) : MsgContents :=
  { freshContents ⟨fun _ => 0, 1, 2 ^ 29, 0, 8, 33, 33 + n, 2 ^ 29⟩ with
    ieee16092Data := some callocIeee16092 }

theorem length_zerosContents (n : ℕ) : (zerosContents n).abuf.bits.length = 8 * n := by
  rw [Abuf.bits, length_window, Abuf.start, Abuf.stop]
  simp only [zerosContents, freshContents]
  omega

theorem zerosContents_wrappable {n : ℕ} (h : n ≤ 2 ^ 28) :
    Wrappable (zerosContents n) callocIeee16092 where
  header := rfl
  unsecured := by decide
  head := Nat.one_pos
  headspace := Nat.zero_le 8
  bitsLeft := le_refl 8
  aligned := by
    rw [show (zerosContents n).abuf.start = 264 by rfl]
  string := by
    rw [Abuf.start, Abuf.stop]
    simp only [zerosContents, freshContents]
    omega
  room := by
    have hcount := cerOctetCount_mem (((zerosContents n).abuf.bits.length + 7) / 8)
    have hstart : (zerosContents n).abuf.start = 264 := rfl
    have hhead : (zerosContents n).abuf.head = 1 := rfl
    rw [length_cerLenBits, hstart, hhead]
    split_ifs <;> omega

theorem ieee16092_roundTrip_300 : CerRoundTrip 300 ∧ Unwraps (zerosContents 300) callocIeee16092 :=
  ⟨ieee16092_roundTrip.1 300 (by norm_num) (by norm_num),
    ieee16092_roundTrip.2 _ _ (zerosContents_wrappable (by norm_num))
      (by rw [length_zerosContents]; norm_num) (by rw [length_zerosContents]; norm_num)⟩

/-- No length is pushed for an empty payload, and none when the number of bits is too large for an
`int`; a byte of the payload, or the byte behind it, is then read as the length. -/
theorem not_unwraps :
    (Wrappable (zerosContents 0) callocIeee16092 ∧ ¬ Unwraps (zerosContents 0) callocIeee16092) ∧
      (Wrappable (zerosContents (2 ^ 28)) callocIeee16092 ∧
        ¬ Unwraps (zerosContents (2 ^ 28)) callocIeee16092) := by
  have hmisses : ∀ n, (ieee16092DecodeUnsecured
      (ieee16092EncodeUnsecuredInt (zerosContents n)).2).map (fun mc => mc.abuf.data) = some 34 →
      ¬ Unwraps (zerosContents n) callocIeee16092 := by
    rintro n hcursor ⟨mc', heq, hfinds⟩
    rw [heq, Option.map_some, Option.some_inj] at hcursor
    have hdata := hfinds.data
    have hstart : (zerosContents n).abuf.start = 264 := rfl
    omega
  refine ⟨⟨zerosContents_wrappable (Nat.zero_le _), hmisses 0 ?_⟩,
    zerosContents_wrappable le_rfl, hmisses (2 ^ 28) ?_⟩
  · decide +kernel
  · decide +kernel

end RoundTrip

end Tulux.QCoder
