import Tulux.QCoder.AsnbufLength
import Tulux.QCoder.Wsmp
import Tulux.QCoder.J2735Restore

/-! `encode_msg` of `v2x_codec.c` on the SAE stack, and what becomes of a message with elements that
no builder encodes. -/
namespace Tulux.QCoder
open BitParser

def j2735MsgidBasicSafety : ℕ := 20

/-! ### The layers -/

/-- The result of the encoder of the message is dropped. -/
def encodeAsJ2735 (block : ℕ) (mc : MsgContents) : ℤ × MsgContents :=
  if mc.abuf.data = 0 then (-1, mc)
  else if mc.j2735MsgId = j2735MsgidBasicSafety then
    match mc.j2735Msg with
    | some v => (0, { mc with abuf := encodeAsBsm block v mc.abuf })
    | none => (0, mc)
  else (0, mc)

/-- 1 asks for a signature or an encryption. -/
def ieee16092EncodeUnsecured (mc : MsgContents) : ℤ × MsgContents :=
  match mc.ieee16092Data with
  | none => (-1, mc)
  | some ie =>
    if ie.content = signedData ∨ ie.content = encryptedData then (1, mc)
    else
      (0, { mc with
        abuf := push ie.protocolVersion.toNat 8 (push ie.tagclass 2 (push ie.content 6
          (asnPushIeee16092Len mc.abuf))) })

/-- `block` and `header` are the addresses of the buffers of the extensions and of the WSMP header. A
result is negative for an error, 1 for a message that is to be signed, and else a length. -/
def encodeMsg (block header : ℕ) (loadMem : ℕ → UInt8) (mc : MsgContents) : ℤ × MsgContents :=
  if mc.abuf.data = 0 then (-1, mc)
  else
    let (ret, mc) := encodeAsJ2735 block { mc with j2735MsgId := j2735MsgidBasicSafety }
    if ret < 0 then (ret, mc)
    else
      let (ret, mc) := ieee16092EncodeUnsecured mc
      if ret < 0 ∨ ret = 1 then (ret, mc)
      else
        let (ret, mc) := wsmpEncode header loadMem mc
        if ret < 0 then (ret, mc) else (abufByteLen mc.abuf, mc)

/-! ### What is not encoded -/

/-- The number of extensions that are present. -/
def extensionCount (v : BsmValue) : ℕ :=
  (if v.hasSafetyExtension ≠ 0 then 1 else 0) + (if v.hasSpecialExtension ≠ 0 then 1 else 0) +
    (if v.hasSupplementalExtension ≠ 0 then 1 else 0)

/-- Part II is announced with the extensions that are present. -/
def PartIIMatches (v : BsmValue) : Prop :=
  (v.hasPartII ≠ 0 ↔ 0 < extensionCount v) ∧ v.qtyPartIIExtensions = extensionCount v

/-- Trailer data, or the regional extension of an event description. -/
def SpecialUnencoded (v : BsmValue) : Prop :=
  v.hasSpecialExtension ≠ 0 ∧ (Has (u32 v.specvehopts) 0x1 ∨
    Has (u32 v.specvehopts) 0x2 ∧ Has v.eventopts 0x1)

/-- Classification details, a weather report, an obstacle, a disabled vehicle, a speed profile, RTCM
corrections, or the regional extension. -/
def SupplementalUnencoded (v : BsmValue) : Prop :=
  v.hasSupplementalExtension ≠ 0 ∧ (Has (u32 v.suppvehopts) 0x100 ∨ Has (u32 v.suppvehopts) 0x40 ∨
    Has (u32 v.suppvehopts) 0x10 ∨ Has (u32 v.suppvehopts) 0x8 ∨ Has (u32 v.suppvehopts) 0x4 ∨
    Has (u32 v.suppvehopts) 0x2 ∨ Has (u32 v.suppvehopts) 0x1)

/-- The encoder cannot send all that the message announces. -/
def Unencodable (v : BsmValue) : Prop :=
  SpecialUnencoded v ∨ SupplementalUnencoded v ∨ ¬ PartIIMatches v

/-- A layer below the message gives up: there is no security header, or no WSMP header, or its
transport type has ports and more. -/
def LayersFail (mc : MsgContents) : Prop :=
  match mc.ieee16092Data with
  | none => True
  | some ie => ie.content ≠ signedData ∧ ie.content ≠ encryptedData ∧
    ∀ wsmp ∈ mc.wsmp, 3 < wsmp.tpid.toNat

instance (v : BsmValue) : Decidable (PartIIMatches v) := inferInstanceAs (Decidable (_ ∧ _))

instance (v : BsmValue) : Decidable (SpecialUnencoded v) := inferInstanceAs (Decidable (_ ∧ _))

instance (v : BsmValue) : Decidable (SupplementalUnencoded v) :=
  inferInstanceAs (Decidable (_ ∧ _))

instance (v : BsmValue) : Decidable (Unencodable v) := inferInstanceAs (Decidable (_ ∨ _ ∨ _))

/-- What `abuf_alloc`, `abuf_reset` and `abuf_purge` leave. -/
structure EmptyBuffer (bp : Abuf) : Prop where
  head : 0 < bp.head
  data : bp.head ≤ bp.data
  tail : bp.tail = bp.data
  headspace : bp.headHeadspaceBits = 0
  bitsLeft : bp.tailBitsLeft = 8

/-! ### The builders

Whatever a builder does, also up to an error, it goes behind what is in the buffer. -/

abbrev KeepsBits (build : Builder) : Prop := ∀ base, Keeps (Extends base) build

theorem keepsBits_put (data : ℤ) (n : ℕ) : KeepsBits (put data n) := fun _ _ h =>
  h.trans (extends_ncat (u32 data) n h.bitsLeft)

theorem keepsBits_throw : KeepsBits (throw ()) := fun _ _ h => h

/-- The extensions begin with the bit of their extensibility. -/
def Begins (build : Builder) : Prop := ∃ fields, build = (put 0 1 >>= fun _ => fields) ∧ KeepsBits fields

theorem KeepsBits.seq {p q : Builder} (hp : KeepsBits p) (hq : KeepsBits q) :
    KeepsBits (p >>= fun _ => q) := fun base => Keeps.bind (hp base) fun _ => hq base

theorem KeepsBits.opt {c : Prop} [Decidable c] {p : Builder} (hp : KeepsBits p) :
    KeepsBits (BitParser.optional c p) := fun base => Keeps.optional (hp base)

section Builders
variable (v : BsmValue)

theorem keepsBits_threePuts (x y z : ℤ) (k m n : ℕ) :
    KeepsBits (do put x k; put y m; put z n) :=
  (keepsBits_put x k).seq ((keepsBits_put y m).seq (keepsBits_put z n))

theorem keepsBits_twoPuts (x y : ℤ) (k m : ℕ) : KeepsBits (do put x k; put y m) :=
  (keepsBits_put x k).seq (keepsBits_put y m)

theorem keepsBits_initialPosition (fpv : FullPositionVector) :
    KeepsBits (putInitialPosition fpv) := by
  unfold putInitialPosition
  dsimp only
  exact (keepsBits_put _ _).seq <| (keepsBits_put _ _).seq <| (keepsBits_put _ _).seq <|
    (keepsBits_put _ _).seq <| (keepsBits_put _ _).opt.seq <| (keepsBits_put _ _).opt.seq <|
    (keepsBits_put _ _).opt.seq <| (keepsBits_threePuts _ _ _ _ _ _).opt.seq <|
    (keepsBits_put _ _).opt.seq <| (keepsBits_twoPuts _ _ _ _).opt.seq
    (keepsBits_threePuts _ _ _ _ _ _).opt

theorem keepsBits_crumb (crumb : PhPoint) : KeepsBits (putCrumb crumb) :=
  (keepsBits_put _ _).seq <| (keepsBits_put _ _).seq <| (keepsBits_put _ _).seq <|
    (keepsBits_put _ _).seq <| (keepsBits_put _ _).seq <| (keepsBits_put _ _).seq <|
    (keepsBits_put _ _).opt.seq <| (keepsBits_threePuts _ _ _ _ _ _).opt.seq (keepsBits_put _ _).opt

theorem keepsBits_crumbs (phCrumb : ℕ → PhPoint) (m n : ℕ) :
    KeepsBits (putCrumbs phCrumb m n) := by
  induction n generalizing m with
  | zero => exact fun _ => Keeps.pure ()
  | succ n ih => exact (keepsBits_crumb (phCrumb m)).seq (ih (m + 1))

theorem keepsBits_pathHistory : KeepsBits (putPathHistory v) :=
  (keepsBits_put _ _).seq <| (keepsBits_put _ _).seq <| (keepsBits_initialPosition _).opt.seq <|
    (keepsBits_put _ _).opt.seq <| (keepsBits_put _ _).seq (keepsBits_crumbs _ _ _)

theorem begins_vehicleSafetyExt : Begins (putVehicleSafetyExt v) :=
  ⟨_, rfl, (keepsBits_put _ _).seq <| (keepsBits_twoPuts _ _ _ _).opt.seq <|
    (keepsBits_pathHistory v).opt.seq <| (keepsBits_threePuts _ _ _ _ _ _).opt.seq
    (keepsBits_twoPuts _ _ _ _).opt⟩

theorem keepsBits_emergencyDetails : KeepsBits (putEmergencyDetails v) :=
  (keepsBits_put _ _).seq <| (keepsBits_put _ _).seq <| (keepsBits_put _ _).seq <|
    (keepsBits_put _ _).seq <| (keepsBits_put _ _).seq <| (keepsBits_put _ _).seq <|
    (keepsBits_threePuts _ _ _ _ _ _).opt.seq (keepsBits_twoPuts _ _ _ _).opt

theorem keepsBits_descs (desc : ℕ → ℤ) (m n : ℕ) : KeepsBits (putDescs desc m n) := by
  induction n generalizing m with
  | zero => exact fun _ => Keeps.pure ()
  | succ n ih => exact (keepsBits_put (desc m) 16).seq (ih (m + 1))

theorem keepsBits_eventDescription : KeepsBits (putEventDescription v) :=
  (keepsBits_put _ _).seq <| (keepsBits_put _ _).seq <| (keepsBits_put _ _).seq <|
    ((keepsBits_put _ _).seq (keepsBits_descs _ _ _)).opt.seq <|
    (keepsBits_put _ _).opt.seq <| (keepsBits_put _ _).opt.seq (keepsBits_put _ _).opt

theorem begins_specialExt : Begins (putSpecialExt v) :=
  ⟨_, rfl, (keepsBits_put _ _).seq <| (keepsBits_emergencyDetails v).opt.seq
    (keepsBits_eventDescription v).opt⟩

theorem keepsBits_vehicleData (veh : VehicleData) : KeepsBits (putVehicleData veh) :=
  (keepsBits_put _ _).seq <| (keepsBits_put _ _).seq <| (keepsBits_put _ _).opt.seq <|
    (keepsBits_twoPuts _ _ _ _).opt.seq <| (keepsBits_put _ _).opt.seq (keepsBits_put _ _).opt

theorem keepsBits_weatherProbe : KeepsBits (putWeatherProbe v) :=
  (keepsBits_put _ _).seq <| (keepsBits_put _ _).seq <| (keepsBits_put _ _).opt.seq <|
    (keepsBits_put _ _).opt.seq <| ((keepsBits_put _ _).seq <| (keepsBits_put _ _).seq <|
    (keepsBits_put _ _).seq <| (keepsBits_put _ _).opt.seq (keepsBits_put _ _).opt).opt

theorem begins_supplementalExt : Begins (putSupplementalExt v) :=
  ⟨_, rfl, (keepsBits_put _ _).seq <| (keepsBits_put _ _).opt.seq <|
    keepsBits_throw.opt.seq <| (keepsBits_vehicleData v.veh).opt.seq <| keepsBits_throw.opt.seq <|
    (keepsBits_weatherProbe v).opt.seq keepsBits_throw.opt⟩

end Builders

/-! ### The message -/

section Message
variable {bp : Abuf}

theorem ExtBlock.trim {block : ℕ} {ext : Abuf} (h : ExtBlock block ext) :
    ExtBlock block (abufTrim ext) := by
  unfold abufTrim
  dsimp only
  split_ifs <;> exact ⟨h.head, h.size, h.endp⟩

/-- An extension, complete or not, is not empty. -/
theorem Begins.buildExt {block : ℕ} {ext : Abuf} {build : Builder} (hbuild : Begins build)
    (h : ExtEmpty block ext) {r : ℕ} (hr : r ≤ 8) :
    ∃ ext', buildExt build (abufReserveHeadspace ext r) = ext' ∧ ExtBlock block ext' ∧
      ext'.tailBitsLeft ≤ 8 ∧ 1 + ext'.headHeadspaceBits / 8 ≤ abufByteLen ext' := by
  obtain ⟨fields, rfl, hfields⟩ := hbuild
  have hlength := h.holds.length
  have hstart : ext.start = 8 * block + 160 := by
    rw [Abuf.start, h.headspace, h.data]
    omega
  rw [List.length_nil] at hlength
  obtain ⟨hres, hspace, hdata, hhead, hsize, hend⟩ := h.holds.reserve h.headspace hr
    (by rw [h.endp]; omega)
  have hlength' := hres.length
  have hstart' : (abufReserveHeadspace ext r).start = 8 * block + 160 + r := by
    rw [Abuf.start, hspace, hdata, h.data]
    omega
  rw [List.length_nil] at hlength'
  obtain ⟨hput, hfront⟩ := appends_ncat (u32 0) 1 _ _ hres
    (by rw [BitString.length_natBits, hend, h.endp]; omega)
  have hbegun := begun_of_holds hput (by rw [hfront.data, hdata, h.data]; omega)
    (by rw [List.nil_append, BitString.length_natBits]; exact Nat.one_pos)
  have hext := hfields _ _ (.refl hbegun.bitsLeft)
  have hblock {abp : Abuf} (hext : Extends (ncat (u32 0) 1 (abufReserveHeadspace ext r)) abp) :
      ExtBlock block abp :=
    ⟨by rw [hext.front.head, hfront.head, hhead, h.head],
      by rw [hext.front.size, hfront.size, hsize, h.size],
      by rw [hext.front.endp, hfront.endp, hend, h.endp]⟩
  refine ⟨_, rfl, ?_⟩
  unfold QCoder.buildExt
  rw [bind_ok (show put 0 1 (abufReserveHeadspace ext r) = .ok () _ from rfl)]
  unfold finalState at hext
  cases hrun : fields (ncat (u32 0) 1 (abufReserveHeadspace ext r)) with
  | ok u abp =>
    rw [hrun] at hext
    have hpad := hext.trans (extends_pad hext.bitsLeft)
    have hback : SameBack (abufPadToEvenOctet abp) (asnPushLen (abufPadToEvenOctet abp)) :=
      sameBack_pushLen
    have hpadBlock := hblock hpad
    obtain ⟨hleft, hlen⟩ := (hbegun.extend hpad).pushLen
    exact ⟨⟨hback.head.trans hpadBlock.head, hback.size.trans hpadBlock.size,
      hback.endp.trans hpadBlock.endp⟩, hleft, hlen⟩
  | error u abp =>
    rw [hrun] at hext
    have hbegun' := hbegun.extend hext
    exact ⟨hblock hext, hbegun'.bitsLeft, hbegun'.length⟩

theorem EmptyBuffer.settled (h : EmptyBuffer bp) : Settled bp where
  head := h.head
  data := h.head.trans_le h.data
  headspace := h.headspace ▸ Nat.zero_lt_succ 7
  bitsLeft := h.bitsLeft.le
  length := by
    rw [abufByteLen, h.tail, h.bitsLeft]
    simp

theorem Settled.putWord (h : Settled bp) (w : ℕ) :
    Settled (putWord bp w) ∧ (putWord bp w).tailBitsLeft = bp.tailBitsLeft := by
  have hset := h.extend (extends_abufPut 4 h.bitsLeft)
  have hleft := abufPut_bitsLeft bp 4
  unfold QCoder.putWord
  rcases hput : abufPut bp 4 with ⟨_ | p32, bp₁⟩ <;> rw [hput] at hset hleft
  · exact ⟨hset, hleft⟩
  · exact ⟨⟨hset.head, hset.data, hset.headspace, hset.bitsLeft, hset.length⟩, hleft⟩

theorem Settled.putWords (h : Settled bp) (ws : List ℕ) :
    Settled (ws.foldl QCoder.putWord bp) ∧
      (ws.foldl QCoder.putWord bp).tailBitsLeft = bp.tailBitsLeft := by
  induction ws generalizing bp with
  | nil => exact ⟨h, rfl⟩
  | cons w ws ih =>
    obtain ⟨hset, hleft⟩ := h.putWord w
    obtain ⟨hset', hleft'⟩ := ih hset
    exact ⟨hset', hleft'.trans hleft⟩

/-- The tail goes back to the last byte, of which 3 bits are left. -/
theorem Settled.encodeCore (h : Settled bp) (hleft : bp.tailBitsLeft = 8) (v : BsmValue) :
    Settled (encodeCore v bp) := by
  obtain ⟨hset, hleft'⟩ := h.putWords (coreWords v)
  unfold QCoder.encodeCore
  generalize (coreWords v).foldl QCoder.putWord bp = words at hset hleft'
  have hlen := hset.length
  rw [abufByteLen, if_neg (by simp [hleft', hleft])] at hlen
  have hfront := sameFront_abufPut words 1
  have htail := le_abufPut_tail words 1
  dsimp only
  rcases hput : abufPut words 1 with ⟨_ | p8, bp₁⟩ <;> rw [hput] at hfront htail
  all_goals
    have hdata := hfront.data
    refine ⟨hfront.head ▸ hset.head, hdata ▸ hset.data, hfront.headspace ▸ hset.headspace,
      show (3 : ℕ) ≤ 8 by decide, ?_⟩
    rw [abufByteLen, if_pos (show (3 : ℕ) ≠ 8 by decide)]
    dsimp only [Abuf.setByte] at *
    omega

/-- An extension is merged into the message. -/
theorem Settled.merge {ext : Abuf} (h : Settled bp) (hext : ext.tailBitsLeft ≤ 8)
    (hlen : 1 + ext.headHeadspaceBits / 8 ≤ abufByteLen ext) :
    Settled (abufMerge bp (abufTrim ext)).2 :=
  h.extend (extends_merge h.bitsLeft (trim_bitsLeft hext) (byteLen_trim_pos hlen))

theorem Settled.addSafetyExt {block : ℕ} {ext : Abuf} (h : Settled bp) (hext : ExtEmpty block ext)
    (v : BsmValue) : Settled (addSafetyExt v bp ext).1 ∧
      ExtBlock block (addSafetyExt v bp ext).2 := by
  have hid := h.extend (extends_ncat 0 6 h.bitsLeft)
  obtain ⟨ext', hbuild, hblock, hleft, hlen⟩ := (begins_vehicleSafetyExt v).buildExt hext
    (Nat.sub_le 8 (ncat 0 6 bp).tailBitsLeft)
  unfold QCoder.addSafetyExt buildVehicleSafetyExt
  dsimp only
  rw [hbuild]
  exact ⟨hid.trim.merge hleft hlen, hblock.trim.purge.toExtBlock⟩

theorem Settled.addExt {block : ℕ} {ext : Abuf} {fields : Builder} (h : Settled bp)
    (hfields : Begins fields) (hext : ExtBlock block ext) (id : ℕ) :
    Settled (addExt id (buildExt fields) bp ext).1 ∧
      ExtBlock block (addExt id (buildExt fields) bp ext).2 := by
  have hid := h.extend (extends_ncat id 6 h.bitsLeft)
  obtain ⟨ext', hbuild, hblock, hleft, hlen⟩ := hfields.buildExt hext.purge
    (Nat.sub_le 8 (ncat id 6 bp).tailBitsLeft)
  unfold QCoder.addExt
  dsimp only
  rw [hbuild]
  exact ⟨hid.merge hleft hlen, hblock.trim⟩

theorem Settled.encodePartII (h : Settled bp) (block : ℕ) (v : BsmValue) :
    Settled (encodePartII block v bp) := by
  have hqty := h.extend (extends_ncat (u32 (v.qtyPartIIExtensions - 1)) 3 h.bitsLeft)
  have halloc := extEmpty_alloc block
  unfold QCoder.encodePartII
  generalize ncat (u32 (v.qtyPartIIExtensions - 1)) 3 bp = bp₀ at hqty ⊢
  generalize abufAlloc block 2000 20 = ext₀ at halloc ⊢
  obtain ⟨r₁, hr₁⟩ : ∃ r₁, r₁ = if v.hasSafetyExtension ≠ 0 then QCoder.addSafetyExt v bp₀ ext₀
    else (bp₀, ext₀) := ⟨_, rfl⟩
  have h₁ : Settled r₁.1 ∧ ExtBlock block r₁.2 := by
    rw [hr₁]
    split_ifs
    · exact hqty.addSafetyExt halloc v
    · exact ⟨hqty, halloc.toExtBlock⟩
  obtain ⟨r₂, hr₂⟩ : ∃ r₂, r₂ = if v.hasSpecialExtension ≠ 0 then
    QCoder.addExt 1 (buildSpecialExt v) r₁.1 r₁.2 else (r₁.1, r₁.2) := ⟨_, rfl⟩
  have h₂ : Settled r₂.1 ∧ ExtBlock block r₂.2 := by
    rw [hr₂]
    split_ifs
    · exact h₁.1.addExt (begins_specialExt v) h₁.2 1
    · exact h₁
  dsimp only
  rw [← hr₁, ← hr₂]
  split_ifs
  · exact (h₂.1.addExt (begins_supplementalExt v) h₂.2 2).1
  · exact h₂.1

/-- Whatever the message is, what its encoder leaves has a length. -/
theorem EmptyBuffer.encodeAsBsm (h : EmptyBuffer bp) (block : ℕ) (v : BsmValue) :
    Settled (encodeAsBsm block v bp) := by
  have hcore := h.settled.encodeCore h.bitsLeft v
  unfold QCoder.encodeAsBsm
  dsimp only
  split_ifs
  · exact (hcore.encodePartII block v).pushLen.push 20 16
  · exact hcore.pushLen.push 20 16

end Message

/-! ### The WSMP header -/

section Header
variable {bp : Abuf}

theorem extends_putEncodedLen (len : ℤ) (h : bp.tailBitsLeft ≤ 8) :
    Extends bp (asnPutEncodedLen bp len).2 := by
  unfold asnPutEncodedLen
  split_ifs
  · exact extends_ncat _ 8 h
  · exact extends_ncat _ 16 h
  · exact .refl h
  · exact .refl h

theorem extends_ncatWords (src : ℕ → UInt8) (a remaining : ℕ) (h : bp.tailBitsLeft ≤ 8) :
    Extends bp (ncatWords bp src a remaining) := by
  induction bp, a, remaining using ncatWords.induct src with
  | case1 bp a remaining hle ih =>
    rw [ncatWords, if_pos hle]
    have hword := extends_ncat (ntohl src a) 4 h
    exact hword.trans (ih hword.bitsLeft)
  | case2 bp a remaining hle hne =>
    rw [ncatWords, if_neg hle, if_pos hne]
    exact extends_ncat (ntohl src a) remaining h
  | case3 bp a remaining hle hne =>
    rw [ncatWords, if_neg hle, if_neg hne]
    exact .refl h

theorem extends_asnNcat (src : ℕ → UInt8) (a bytes : ℕ) (h : bp.tailBitsLeft ≤ 8) :
    Extends bp (asnNcat bp src a bytes).2 := by
  have hready := extends_tailReady h
  unfold asnNcat
  dsimp only
  split_ifs
  · exact .refl h
  · refine hready.trans ?_
    have hput := extends_abufPut bytes hready.bitsLeft
    rcases hrun : abufPut (abufTailReady bp) bytes with ⟨_ | dst, bp₁⟩ <;> rw [hrun] at hput
    · exact hput
    · have hfront := hput.front
      exact ⟨⟨hfront.head, hfront.size, hfront.endp, hfront.data, hfront.headspace⟩, hput.bitsLeft,
        hput.length⟩
  · exact hready.trans (extends_ncatWords src a _ hready.bitsLeft)

theorem extends_element (id : ℕ) (value : UInt8) (h : bp.tailBitsLeft ≤ 8) :
    Extends bp (ncatElement id value bp) := by
  have hid := extends_ncat id 8 h
  have hlen := hid.trans (extends_ncat 1 8 hid.bitsLeft)
  exact hlen.trans (extends_ncat value.toNat 8 hlen.bitsLeft)

theorem extends_chanLoad (loadMem : ℕ → UInt8) (w : WsmpData) (h : bp.tailBitsLeft ≤ 8) :
    Extends bp (ncatChanLoad loadMem w bp) := by
  have hid := extends_ncat waveElemIdLoad 8 h
  have hlen := hid.trans (extends_putEncodedLen w.chanLoadLen.toNat hid.bitsLeft)
  exact hlen.trans (extends_asnNcat loadMem w.chanLoadPtr _ hlen.bitsLeft)

theorem Extends.opt {c : Prop} [Decidable c] {bp' : Abuf} {f : Abuf → Abuf} (h : Extends bp bp')
    (hf : ∀ {b : Abuf}, b.tailBitsLeft ≤ 8 → Extends b (f b)) :
    Extends bp (if c then f bp' else bp') := by
  split_ifs
  · exact h.trans (hf h.bitsLeft)
  · exact h

theorem extends_elements (loadMem : ℕ → UInt8) (w : WsmpData) (h : bp.tailBitsLeft ≤ 8) :
    Extends bp (ncatElements loadMem w bp) := by
  have hrate := (Extends.refl h).opt (c := w.weidOpts.incRateExt) fun {_} hb =>
    extends_element waveElemIdRate w.rate hb
  have hpwr := hrate.opt (c := w.weidOpts.incPwrExt) fun {_} hb =>
    extends_element waveElemIdPwr w.pwr hb
  have hchan := hpwr.opt (c := w.weidOpts.incChanExt) fun {_} hb =>
    extends_element waveElemIdChan w.chan hb
  exact hchan.opt (c := w.weidOpts.incLoadExt) fun {_} hb => extends_chanLoad loadMem w hb

/-- A PSID goes behind the header, or takes one byte of it away when it is too large. -/
theorem addPsid_cases {P : Abuf → Prop} (psid : ℕ) (hlarge : P { bp with tail := bp.tail - 1 })
    (hput : ∀ n, P (abufPut bp n).2) (hbyte : ∀ b a byte, P b → P (b.setByte a byte)) :
    P (abufAddPsid bp psid) := by
  have hadd (b : Abuf) (cp : ℕ) (v : ℤ) (h : P b) : P (wsmpAddPsid b cp v) := by
    unfold wsmpAddPsid storeWord
    split_ifs
    · exact h
    · exact hbyte _ _ _ (hbyte _ _ _ (hbyte _ _ _ (hbyte _ _ _ h)))
    · exact hbyte _ _ _ (hbyte _ _ _ (hbyte _ _ _ h))
    · exact hbyte _ _ _ (hbyte _ _ _ h)
    · exact hbyte _ _ _ h
  unfold abufAddPsid
  generalize s32 psid = v
  generalize wsmPsidPcodedLen v = len
  dsimp only
  split_ifs
  · exact hlarge
  · have h := hput len.toNat
    rcases hrun : abufPut bp len.toNat with ⟨_ | cp, b⟩ <;> rw [hrun] at h
    · exact h
    · exact hadd b cp v h

theorem addPsid_spec (psid : ℕ) (hlen : 0 < abufByteLen bp) (hspace : bp.headHeadspaceBits < 8) :
    0 ≤ abufByteLen (abufAddPsid bp psid) ∧ (abufAddPsid bp psid).headHeadspaceBits < 8 := by
  refine addPsid_cases (P := fun b => 0 ≤ abufByteLen b ∧ b.headHeadspaceBits < 8) psid ?_
    (fun n => ?_) fun b a byte h => h
  · refine ⟨?_, hspace⟩
    rw [abufByteLen] at hlen ⊢
    dsimp only
    omega
  · have hfront := sameFront_abufPut bp n
    have htail := le_abufPut_tail bp n
    refine ⟨?_, hfront.headspace.trans_lt hspace⟩
    rw [abufByteLen, abufPut_bitsLeft, hfront.data]
    rw [abufByteLen] at hlen
    omega

theorem encodeWsmPayload_spec {payload : Abuf} (hspace : bp.headHeadspaceBits < 8)
    (hlen : 0 ≤ abufByteLen bp) (hpay : Settled payload) :
    0 ≤ (encodeWsmPayload bp payload).1 ∧ Settled (encodeWsmPayload bp payload).2 :=
  ⟨byteLen_trim hspace hlen, hpay.trim.pushLen.mergeSecond _⟩

theorem and_fe_toNat {t : UInt8} (h : t.toNat % 2 ≠ 0) : (t &&& 0xfe).toNat = t.toNat - 1 := by
  have hall : ∀ n < 256, n % 2 ≠ 0 → n &&& 0xfe = n - 1 := by decide +kernel
  exact hall t.toNat t.toNat_lt h

/-- The header up to the transport type is not empty. -/
theorem Extends.header {head : ℕ} (v : ℕ)
    (h : Extends (ncat v 8 (abufAlloc head 2000 20)) bp) :
    0 < abufByteLen bp ∧ bp.headHeadspaceBits < 8 := by
  have hfirst : abufByteLen (ncat v 8 (abufAlloc head 2000 20)) = 1 := by
    simp [ncat, asnNcatBits, abufAlloc, abufByteLen, Abuf.setByte]
  have hspace : (ncat v 8 (abufAlloc head 2000 20)).headHeadspaceBits = 0 := by
    simp [ncat, asnNcatBits, abufAlloc, Abuf.setByte]
  have hlen := h.length
  have hsame := h.front.headspace
  omega

/-- A transport type above 3 is refused, and nothing else. -/
theorem encodeWsm2016_spec (head : ℕ) (loadMem : ℕ → UInt8) (w : WsmpData) {payload : Abuf}
    (hpay : Settled payload) :
    (3 < w.tpid.toNat → (encodeWsm2016 loadMem w (abufAlloc head 2000 20) payload).1 < 0) ∧
      (¬ 3 < w.tpid.toNat → 0 ≤ (encodeWsm2016 loadMem w (abufAlloc head 2000 20) payload).1 ∧
        Settled (encodeWsm2016 loadMem w (abufAlloc head 2000 20) payload).2.2) := by
  have hfirst : (ncat (countElements w).nHeader.data 8 (abufAlloc head 2000 20)).tailBitsLeft ≤ 8 :=
    (extends_ncat (countElements w).nHeader.data 8 le_rfl).bitsLeft
  have helements := (Extends.refl hfirst).opt (c := (countElements w).weidQty ≠ 0)
    (f := fun b => ncatElements loadMem (countElements w) (ncat (countElements w).weidQty 8 b))
    fun {_} hb => (extends_ncat _ 8 hb).trans
      (extends_elements loadMem (countElements w) (extends_ncat _ 8 hb).bitsLeft)
  have htpid := helements.trans (extends_ncat (countElements w).tpid.toNat 8 helements.bitsLeft)
  unfold encodeWsm2016
  dsimp only at htpid ⊢
  generalize ncat (countElements w).tpid.toNat 8 (if (countElements w).weidQty ≠ 0 then
      ncatElements loadMem (countElements w) (ncat (countElements w).weidQty 8
        (ncat (countElements w).nHeader.data 8 (abufAlloc head 2000 20)))
    else ncat (countElements w).nHeader.data 8 (abufAlloc head 2000 20)) = abp at htpid ⊢
  obtain ⟨w', hw'⟩ : ∃ w', w' = if (countElements w).tpid.toNat % 2 ≠ 0 then
    { countElements w with tpid := (countElements w).tpid &&& 0xfe } else countElements w :=
    ⟨_, rfl⟩
  have hlt : 3 < w'.tpid.toNat ↔ 3 < w.tpid.toNat := by
    rw [hw']
    split_ifs with hodd
    · change 3 < (w.tpid &&& 0xfe).toNat ↔ _
      change w.tpid.toNat % 2 ≠ 0 at hodd
      rw [and_fe_toNat hodd]
      omega
    · rfl
  rw [← hw']
  obtain ⟨hlen, hspace⟩ := htpid.header
  by_cases h2 : w'.tpid.toNat < 2
  · obtain ⟨hlen', hspace'⟩ := addPsid_spec w'.psid hlen hspace
    have hspec := encodeWsmPayload_spec hspace' hlen' hpay
    rw [if_pos h2]
    rcases hrun : encodeWsmPayload (abufAddPsid abp w'.psid) payload with ⟨result, payload'⟩
    rw [hrun] at hspec
    exact ⟨fun h3 => absurd (hlt.mpr h3) (by omega), fun _ => hspec⟩
  · have hports := extends_ncat (htons w'.ports.srcPort) 8 htpid.bitsLeft
    have hports' := htpid.trans (hports.trans (extends_ncat (htons w'.ports.dstPort) 8
      hports.bitsLeft))
    obtain ⟨hlen', hspace'⟩ := hports'.header
    rw [if_neg h2]
    by_cases h3 : 3 < w'.tpid.toNat
    · rw [if_pos h3]
      exact ⟨fun _ => show (-2 : ℤ) < 0 by decide, fun h => absurd (hlt.mp h3) h⟩
    · have hspec := encodeWsmPayload_spec hspace' hlen'.le hpay
      rw [if_neg h3]
      rcases hrun : encodeWsmPayload (ncat (htons w'.ports.dstPort) 8
        (ncat (htons w'.ports.srcPort) 8 abp)) payload with ⟨result, payload'⟩
      rw [hrun] at hspec
      exact ⟨fun h => absurd (hlt.mpr h) h3, fun _ => hspec⟩

/-- The last layer fails for a header that is missing or refused; else the length is not negative. -/
theorem wsmpEncode_neg_iff (header : ℕ) (loadMem : ℕ → UInt8) {mc : MsgContents}
    (h : Settled mc.abuf) :
    (let (ret, mc) := wsmpEncode header loadMem mc
      if ret < 0 then (ret, mc) else (abufByteLen mc.abuf, mc)).1 < 0 ↔
        ∀ w ∈ mc.wsmp, 3 < w.tpid.toNat := by
  unfold wsmpEncode
  cases mc.wsmp with
  | none => simp
  | some w =>
    obtain ⟨hlarge, hsmall⟩ := encodeWsm2016_spec header loadMem w h
    dsimp only
    by_cases h3 : 3 < w.tpid.toNat
    · rw [if_pos (hlarge h3)]
      exact ⟨fun _ w₁ hw₁ => by cases hw₁; exact h3, fun _ => hlarge h3⟩
    · rw [if_neg (hsmall h3).1.not_gt]
      exact ⟨fun hneg => absurd (hsmall h3).2.length hneg.not_ge,
        fun hall => absurd (hall w rfl) h3⟩

end Header

/-! ### The encoder returns a length -/

section Encoder
variable {mc : MsgContents} {v : BsmValue}

/-- The error of a builder does not reach the caller. -/
theorem encodeAsJ2735_eq (block : ℕ) (hdata : mc.abuf.data ≠ 0) (hv : mc.j2735Msg = some v)
    (hid : mc.j2735MsgId = j2735MsgidBasicSafety) :
    encodeAsJ2735 block mc = (0, { mc with abuf := encodeAsBsm block v mc.abuf }) := by
  unfold encodeAsJ2735
  rw [if_neg hdata, if_pos hid, hv]

/-- Only the layers below the message fail. -/
theorem encodeMsg_neg_iff (block header : ℕ) (loadMem : ℕ → UInt8) (h : EmptyBuffer mc.abuf)
    (hv : mc.j2735Msg = some v) :
    (encodeMsg block header loadMem mc).1 < 0 ↔ LayersFail mc := by
  have hdata : mc.abuf.data ≠ 0 := (h.head.trans_le h.data).ne'
  have hbsm := h.encodeAsBsm block v
  set mc₁ : MsgContents := { mc with j2735MsgId := j2735MsgidBasicSafety } with hmc₁
  have hj2735 : encodeAsJ2735 block mc₁ = (0, { mc₁ with abuf := encodeAsBsm block v mc₁.abuf }) :=
    encodeAsJ2735_eq block hdata hv rfl
  unfold encodeMsg LayersFail
  rw [if_neg hdata, ← hmc₁, hj2735]
  dsimp only
  rw [if_neg (lt_irrefl 0)]
  unfold ieee16092EncodeUnsecured
  dsimp only
  cases mc.ieee16092Data with
  | none => simp
  | some ie =>
    dsimp only
    by_cases hcontent : ie.content = signedData ∨ ie.content = encryptedData
    · simp only [if_pos hcontent]
      simp only [Int.reduceLT, or_true, if_true, false_iff]
      tauto
    · have hset := ((hbsm.pushIeee16092Len.push ie.content 6).push ie.tagclass 2).push
        ie.protocolVersion.toNat 8
      have hneither : ie.content ≠ signedData ∧ ie.content ≠ encryptedData := not_or.mp hcontent
      simp only [hneither, true_and, ne_eq, not_false_eq_true]
      rw [if_neg (by simp)]
      exact wsmpEncode_neg_iff header loadMem hset

/-- A message that cannot be encoded is refused only where a layer below it refuses all
messages. -/
theorem encodeMsg_refuses_iff (block header : ℕ) (loadMem : ℕ → UInt8) (h : EmptyBuffer mc.abuf)
    (hv : mc.j2735Msg = some v) :
    (Unencodable v → (encodeMsg block header loadMem mc).1 < 0) ↔
      ¬ Unencodable v ∨ LayersFail mc := by
  rw [encodeMsg_neg_iff block header loadMem h hv, imp_iff_not_or]

/-- A supplemental extension with classification details, for which there is no encoding. -/
def detailsMessage : BsmValue :=
  { callocBsm with
    hasPartII := 1
    qtyPartIIExtensions := 1
    hasSupplementalExtension := 1
    suppvehopts := 0x100 }

def detailsContents : MsgContents :=
  { freshContents (abufAlloc 1 2048 200) with
    wsmp := some callocWsmp
    j2735Msg := some detailsMessage
    ieee16092Data := some callocIeee16092 }

theorem detailsContents_empty : EmptyBuffer detailsContents.abuf :=
  ⟨Nat.one_pos, Nat.le_add_right 1 200, rfl, rfl, rfl⟩

theorem encodeMsg_refuses_iff_details :
    (Unencodable detailsMessage → (encodeMsg 1 1 (fun _ => 0) detailsContents).1 < 0) ↔
      ¬ Unencodable detailsMessage ∨ LayersFail detailsContents :=
  encodeMsg_refuses_iff 1 1 (fun _ => 0) detailsContents_empty rfl

/-- The details are announced, and a length is returned. -/
theorem not_encodeMsg_refuses :
    Unencodable detailsMessage ∧ 0 ≤ (encodeMsg 1 1 (fun _ => 0) detailsContents).1 := by
  refine ⟨by decide, not_lt.mp fun hneg => ?_⟩
  obtain ⟨-, -, htpid⟩ := (encodeMsg_neg_iff 1 1 _ detailsContents_empty rfl).mp hneg
  exact absurd (htpid callocWsmp rfl) (by decide)

end Encoder

end Tulux.QCoder
