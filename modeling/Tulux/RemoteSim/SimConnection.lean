import Mathlib.Data.List.Basic
import Mathlib.Tactic

/-! The messages between the remote SIM daemon and the client at the card: how each is built, and
what the peer makes of a buffer that one read filled. -/
namespace Tulux.RemoteSim

abbrev bufLen : ℕ := 1024

abbrev apduTransferMsg : UInt8 := 0
abbrev cardConnectMsg : UInt8 := 1
abbrev cardDisconnectMsg : UInt8 := 2
abbrev cardPowerUpMsg : UInt8 := 3
abbrev cardPowerDownMsg : UInt8 := 4
abbrev cardResetMsg : UInt8 := 5
abbrev cardInsertedMsg : UInt8 := 6
abbrev cardRemovedMsg : UInt8 := 7
abbrev connKeepaliveMsg : UInt8 := 8

/-! ### Requests of the daemon -/

def sendApduRequest (id : UInt32) (apdu : List UInt8) : List UInt8 :=
  [apduTransferMsg, id.toUInt8] ++ apdu

def sendCardConnectRequest : List UInt8 := [cardConnectMsg]
def sendCardDisconnectRequest : List UInt8 := [cardDisconnectMsg]
def sendCardPowerUpRequest : List UInt8 := [cardPowerUpMsg]
def sendCardPowerDownRequest : List UInt8 := [cardPowerDownMsg]
def sendCardResetRequest : List UInt8 := [cardResetMsg]
def sendConnKeepaliveRequest : List UInt8 := [connKeepaliveMsg]

/-! ### Responses of the client -/

/-- A `std::vector<int>` whose elements are stored in bytes. -/
def toBytes (data : List ℤ) : List UInt8 := data.map UInt8.ofInt

def sendApduResponse (data : List ℤ) (apduId : UInt8) : List UInt8 :=
  [apduTransferMsg, apduId, UInt8.ofNat data.length] ++ toBytes data

/-- A message with an answer to reset. -/
def atrMessage (msg : UInt8) (responseAtr : List ℤ) : List UInt8 :=
  [msg, UInt8.ofNat responseAtr.length] ++ toBytes responseAtr

def sendCardResetResponse (responseAtr : List ℤ) : List UInt8 :=
  atrMessage cardResetMsg responseAtr

def sendCardInsertedMessage (responseAtr : List ℤ) : List UInt8 :=
  atrMessage cardInsertedMsg responseAtr

def sendCardRemovedMessage : List UInt8 := [cardRemovedMsg]
def sendConnKeepaliveResponse : List UInt8 := [connKeepaliveMsg]

/-! ### Reads -/

/-- The buffer, zeroed before the read, and the number of bytes read. -/
structure Received where
  buf : List UInt8
  bytes : ℕ
  deriving DecidableEq, Repr

/-- One read that finds these bytes. -/
def readInto (stream : List UInt8) : Received :=
  ⟨stream.take bufLen ++ List.replicate (bufLen - stream.length) 0, min stream.length bufLen⟩

def Received.at (r : Received) (i : ℕ) : UInt8 := r.buf.getD i 0

/-! ### The daemon -/

/-- What the daemon gives to the modem. -/
inductive ModemCall where
  | sendApdu (id : UInt32) (apdu : List UInt8) (isSuccess : Bool) (totalSize offset : ℕ)
  | sendCardReset (atr : List UInt8)
  | sendCardInserted (atr : List UInt8)
  | sendCardRemoved
  deriving DecidableEq, Repr

/-- Without a result the message is too short or malformed. -/
def handleApduTransfer (r : Received) : Option ModemCall :=
  if r.bytes < 3 then none
  else if ((r.at 2).toNat : ℤ) ≠ r.bytes - 3 then none
  else
    let apdu := (r.buf.drop 3).take (r.at 2).toNat
    some (.sendApdu (r.at 1).toUInt32 apdu true apdu.length 0)

/-- The answer to reset of a message, unless it is malformed. -/
def handleAtr (r : Received) : Option (List UInt8) :=
  if ((r.at 1).toNat : ℤ) ≠ r.bytes - 2 then none else some ((r.buf.drop 2).take (r.at 1).toNat)

def handleCardReset (r : Received) : Option ModemCall := (handleAtr r).map .sendCardReset

def handleCardInserted (r : Received) : Option ModemCall := (handleAtr r).map .sendCardInserted

/-- The other messages are only logged. -/
def handleClientMsg (r : Received) : Option ModemCall :=
  if r.at 0 = apduTransferMsg then handleApduTransfer r
  else if r.at 0 = cardResetMsg then handleCardReset r
  else if r.at 0 = cardInsertedMsg then handleCardInserted r
  else if r.at 0 = cardRemovedMsg then some .sendCardRemoved
  else none

/-! ### The client -/

/-- The arguments of `transmitApdu`, and the id that the response callback keeps. -/
structure TransmitApdu where
  apduId : UInt8
  cla : UInt8
  instruction : UInt8
  p1 : UInt8
  p2 : UInt8
  lc : UInt8
  data : List UInt8
  le : UInt8
  deriving DecidableEq, Repr

def sendApduToSim (cardConnected : Bool) (r : Received) : Option TransmitApdu :=
  let lc := if r.bytes < 8 then 0 else r.at 6
  if cardConnected = false then none
  else if r.bytes < 6 then none
  else if 0 < lc.toNat ∧ r.bytes < lc.toNat + 7 then none
  else some {
    apduId := r.at 1
    cla := r.at 2
    instruction := r.at 3
    p1 := r.at 4
    p2 := r.at 5
    lc := lc
    data := (r.buf.drop 7).take lc.toNat
    le := if r.bytes = 7 then r.at 6
      else if lc.toNat + 7 < r.bytes then r.at (lc.toNat + 7) else 0 }

/-- What the card answers is sent with the id of the request. -/
def onApduResponse (t : TransmitApdu) (data : List ℤ) : List UInt8 := sendApduResponse data t.apduId

/-! ### From the card to the modem -/

/-- The bytes as the card manager gives them. -/
def asInts (bytes : List UInt8) : List ℤ := bytes.map fun b => (b.toNat : ℤ)

/-- The modem gets the response of the card to its APDU, with the id it gave. -/
def ResponseReaches (id : UInt32) (response : List UInt8) : Prop :=
  ∀ apdu t, sendApduToSim true (readInto (sendApduRequest id apdu)) = some t →
    handleClientMsg (readInto (onApduResponse t (asInts response))) =
      some (.sendApdu id response true response.length 0)

/-- The modem gets the answer to reset, after a reset and after an insertion. -/
def AtrReaches (atr : List UInt8) : Prop :=
  handleClientMsg (readInto (sendCardResetResponse (asInts atr))) = some (.sendCardReset atr) ∧
    handleClientMsg (readInto (sendCardInsertedMessage (asInts atr))) =
      some (.sendCardInserted atr)

section
variable {bytes : List UInt8}

@[simp] theorem length_asInts (bytes : List UInt8) : (asInts bytes).length = bytes.length := by
  simp [asInts]

@[simp] theorem toBytes_asInts (bytes : List UInt8) : toBytes (asInts bytes) = bytes := by
  induction bytes with
  | nil => rfl
  | cons b bytes ih =>
    have hmod : (b.toNat : ℤ) % 2 ^ 8 = (b.toNat : ℤ) := by
      have := b.toNat_lt
      omega
    have hb : UInt8.ofInt (b.toNat : ℤ) = b := by
      rw [UInt8.ofInt, hmod, Int.toNat_natCast, UInt8.ofNat_toNat]
    simp_all [toBytes, asInts]

/-- The length byte is the number of bytes read exactly when it was not narrowed. -/
theorem length_byte_iff (n : ℕ) {hdr : ℕ} (hhdr : hdr ≤ 3) :
    ((UInt8.ofNat n).toNat : ℤ) = (min (hdr + n) bufLen : ℕ) - (hdr : ℤ) ↔ n < 256 := by
  have hmod : (UInt8.ofNat n).toNat = n % 256 := UInt8.toNat_ofNat'
  have hbuf : bufLen = 1024 := rfl
  rw [hmod]
  constructor
  · intro h
    omega
  · intro h
    omega

/-- What a read leaves behind a header. -/
theorem drop_readInto {hdr : List UInt8} {k : ℕ} (hk : hdr.length = k) (xs : List UInt8)
    (hxs : k + xs.length ≤ bufLen) :
    ((readInto (hdr ++ xs)).buf.drop k).take xs.length = xs := by
  have htake : (hdr ++ xs).take bufLen = hdr ++ xs :=
    List.take_of_length_le (by simp [hk]; omega)
  simp [readInto, htake, ← hk]

/-- What the modem is given for a response of the card. -/
theorem handleApduTransfer_readInto (apduId : UInt8) (response : List UInt8) :
    handleClientMsg (readInto (sendApduResponse (asInts response) apduId)) =
      if response.length < 256 then
        some (.sendApdu apduId.toUInt32 response true response.length 0)
      else none := by
  let r := readInto (sendApduResponse (asInts response) apduId)
  have hat₀ : r.at 0 = apduTransferMsg := by simp [r, readInto, sendApduResponse, Received.at]
  have hat₁ : r.at 1 = apduId := by simp [r, readInto, sendApduResponse, Received.at]
  have hat₂ : r.at 2 = UInt8.ofNat response.length := by
    simp [r, readInto, sendApduResponse, Received.at]
  have hbytes : r.bytes = min (3 + response.length) bufLen := by
    simp only [r, readInto, sendApduResponse, List.length_append, toBytes_asInts,
      List.length_cons, List.length_nil]
  have hlen := length_byte_iff response.length (le_refl 3)
  simp only [Nat.cast_ofNat] at hlen
  have hbuf : bufLen = 1024 := rfl
  change handleClientMsg r = _
  rw [handleClientMsg, if_pos hat₀, handleApduTransfer, if_neg (by omega), hat₁, hat₂, hbytes]
  by_cases h : response.length < 256
  · have hdrop : (r.buf.drop 3).take response.length = response := by
      have hhdr : [apduTransferMsg, apduId, UInt8.ofNat response.length].length = 3 := rfl
      simpa [r, sendApduResponse] using drop_readInto hhdr response (by omega)
    have hmod : (UInt8.ofNat response.length).toNat = response.length := by
      rw [UInt8.toNat_ofNat']
      omega
    rw [if_neg (not_not.mpr (hlen.mpr h)), if_pos h, hmod, hdrop]
  · rw [if_pos (mt hlen.mp h), if_neg h]

theorem handleAtr_readInto (msg : UInt8) (atr : List UInt8) :
    handleAtr (readInto (atrMessage msg (asInts atr))) =
      if atr.length < 256 then some atr else none := by
  let r := readInto (atrMessage msg (asInts atr))
  have hat₁ : r.at 1 = UInt8.ofNat atr.length := by simp [r, readInto, atrMessage, Received.at]
  have hbytes : r.bytes = min (2 + atr.length) bufLen := by
    simp only [r, readInto, atrMessage, List.length_append, toBytes_asInts, List.length_cons,
      List.length_nil]
  have hlen := length_byte_iff atr.length (show 2 ≤ 3 by omega)
  simp only [Nat.cast_ofNat] at hlen
  have hbuf : bufLen = 1024 := rfl
  change handleAtr r = _
  rw [handleAtr, hat₁, hbytes]
  by_cases h : atr.length < 256
  · have hdrop : (r.buf.drop 2).take atr.length = atr := by
      have hhdr : [msg, UInt8.ofNat atr.length].length = 2 := rfl
      simpa [r, atrMessage] using drop_readInto hhdr atr (by omega)
    have hmod : (UInt8.ofNat atr.length).toNat = atr.length := by
      rw [UInt8.toNat_ofNat']
      omega
    rw [if_neg (not_not.mpr (hlen.mpr h)), if_pos h, hmod, hdrop]
  · rw [if_pos (mt hlen.mp h), if_neg h]

/-- The client keeps the id byte of the request. -/
theorem apduId_sendApduToSim {id : UInt32} {apdu : List UInt8} {t : TransmitApdu}
    (h : sendApduToSim true (readInto (sendApduRequest id apdu)) = some t) :
    t.apduId = id.toUInt8 := by
  have hat₁ : (readInto (sendApduRequest id apdu)).at 1 = id.toUInt8 := by
    simp [readInto, sendApduRequest, Received.at]
  simp only [sendApduToSim, Option.ite_none_left_eq_some, Option.some.injEq] at h
  obtain ⟨-, -, -, rfl⟩ := h
  exact hat₁

/-- A command of four bytes is transmitted. -/
theorem sendApduToSim_four (id : UInt32) :
    sendApduToSim true (readInto (sendApduRequest id [0, 0, 0, 0])) =
      some ⟨id.toUInt8, 0, 0, 0, 0, 0, [], 0⟩ := rfl

theorem toUInt32_toUInt8_eq_iff (id : UInt32) : id.toUInt8.toUInt32 = id ↔ id.toNat < 256 := by
  rw [← UInt32.toNat_inj]
  simp only [UInt8.toNat_toUInt32, UInt32.toNat_toUInt8]
  omega

/-- The id and the length of the response fit in a byte each. -/
theorem responseReaches_iff (id : UInt32) (response : List UInt8) :
    ResponseReaches id response ↔ id.toNat < 256 ∧ response.length < 256 := by
  constructor
  · intro h
    have hgot := h _ _ (sendApduToSim_four id)
    rw [onApduResponse, handleApduTransfer_readInto] at hgot
    by_cases hlen : response.length < 256
    · simp only [if_pos hlen, Option.some.injEq, ModemCall.sendApdu.injEq] at hgot
      exact ⟨(toUInt32_toUInt8_eq_iff id).mp hgot.1, hlen⟩
    · simp [if_neg hlen] at hgot
  · rintro ⟨hid, hlen⟩ apdu t ht
    rw [onApduResponse, apduId_sendApduToSim ht, handleApduTransfer_readInto, if_pos hlen,
      (toUInt32_toUInt8_eq_iff id).mpr hid]

theorem atrReaches_iff (atr : List UInt8) : AtrReaches atr ↔ atr.length < 256 := by
  have hreset : handleClientMsg (readInto (sendCardResetResponse (asInts atr))) =
      (handleAtr (readInto (atrMessage cardResetMsg (asInts atr)))).map .sendCardReset := rfl
  have hinserted : handleClientMsg (readInto (sendCardInsertedMessage (asInts atr))) =
      (handleAtr (readInto (atrMessage cardInsertedMsg (asInts atr)))).map .sendCardInserted := rfl
  rw [AtrReaches, hreset, hinserted, handleAtr_readInto, handleAtr_readInto]
  by_cases h : atr.length < 256 <;> simp [h]

/-- Responses and answers to reset reach the modem unchanged exactly when their lengths, and the
id of the APDU, fit in a byte. -/
theorem reaches_modem_iff (id : UInt32) (response atr : List UInt8) :
    (ResponseReaches id response ↔ id.toNat < 256 ∧ response.length < 256) ∧
      (AtrReaches atr ↔ atr.length < 256) :=
  ⟨responseReaches_iff id response, atrReaches_iff atr⟩

/-- A full read of 256 bytes, and the APDU with the id 256. -/
theorem not_reaches_modem :
    ¬ ResponseReaches 0 (List.replicate 256 0 ++ [0x90, 0x00]) ∧
      ¬ ResponseReaches 256 [0x90, 0x00] := by
  simp only [responseReaches_iff, List.length_append, List.length_replicate, List.length_cons,
    List.length_nil]
  constructor
  · omega
  · simp

end

end Tulux.RemoteSim
