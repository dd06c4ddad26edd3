import Mathlib.Data.List.GetD
import Tulux.RemoteSim.SimConnection

/-! The command APDUs of ETSI TS 102 221 and what the client at the card makes of a message with
one. -/
namespace Tulux.RemoteSim

/-! ### Commands -/

/-- The data of a command. -/
structure ApduData where
  bytes : List UInt8
  pos : 1 ≤ bytes.length
  le : bytes.length ≤ 255

def ApduData.lc (data : ApduData) : UInt8 := UInt8.ofNat data.bytes.length

@[simp] theorem ApduData.toNat_lc (data : ApduData) : data.lc.toNat = data.bytes.length := by
  have hle := data.le
  rw [lc, UInt8.toNat_ofNat', Nat.mod_eq_of_lt (by omega)]

/-- What follows the header. -/
inductive ApduBody where
  | case1
  | case2 (le : UInt8)
  | case3 (data : ApduData)
  | case4 (data : ApduData) (le : UInt8)

namespace ApduBody

def lc : ApduBody → UInt8
  | case1 | case2 _ => 0
  | case3 data | case4 data _ => data.lc

def data : ApduBody → List UInt8
  | case1 | case2 _ => []
  | case3 data | case4 data _ => data.bytes

def le : ApduBody → UInt8
  | case1 | case3 _ => 0
  | case2 le | case4 _ le => le

def bytes : ApduBody → List UInt8
  | case1 => []
  | case2 le => [le]
  | case3 data => data.lc :: data.bytes
  | case4 data le => data.lc :: (data.bytes ++ [le])

end ApduBody

structure CommandApdu where
  cla : UInt8
  ins : UInt8
  p1 : UInt8
  p2 : UInt8
  body : ApduBody

namespace CommandApdu

def bytes (apdu : CommandApdu) : List UInt8 :=
  [apdu.cla, apdu.ins, apdu.p1, apdu.p2] ++ apdu.body.bytes

/-- The call of `transmitApdu` for the command. -/
def transmitted (apdu : CommandApdu) (id : UInt32) : TransmitApdu :=
  ⟨id.toUInt8, apdu.cla, apdu.ins, apdu.p1, apdu.p2, apdu.body.lc, apdu.body.data, apdu.body.le⟩

end CommandApdu

/-- The fifth byte is followed by others, but by less than it announces. -/
def AnnouncesMore (bytes : List UInt8) : Prop :=
  6 ≤ bytes.length ∧ bytes.length < 5 + (bytes.getD 4 0).toNat

/-! ### Reads -/

/-- The bytes of the message that `sendApduToSim` reads. -/
def sendApduToSimReads (cardConnected : Bool) (r : Received) : List ℕ :=
  let lc := if r.bytes < 8 then 0 else r.at 6
  if cardConnected = false then []
  else if r.bytes < 6 then []
  else [1, 2, 3, 4, 5] ++ (if r.bytes < 8 then [] else [6]) ++
    if 0 < lc.toNat ∧ r.bytes < lc.toNat + 7 then []
    else (List.range lc.toNat).map (· + 7) ++
      if r.bytes = 7 then [6] else if lc.toNat + 7 < r.bytes then [lc.toNat + 7] else []

theorem sendApduToSimReads_inside (cardConnected : Bool) (r : Received) :
    ∀ i ∈ sendApduToSimReads cardConnected r, i < r.bytes := by
  intro i hi
  unfold sendApduToSimReads at hi
  dsimp only at hi
  obtain ⟨lc, hlc⟩ : ∃ lc, lc = if r.bytes < 8 then 0 else r.at 6 := ⟨_, rfl⟩
  have hshort : r.bytes < 8 → lc.toNat = 0 := fun h => by rw [hlc, if_pos h]; rfl
  rw [← hlc] at hi
  split_ifs at hi
  all_goals
    simp only [List.mem_append, List.mem_cons, List.mem_map, List.mem_range, List.not_mem_nil,
      or_false] at hi
  all_goals omega

/-! ### A message in one read -/

section Message
variable {bytes : List UInt8} {id : UInt32} {connected : Bool}

theorem buf_sendApduRequest (hlen : bytes.length ≤ 1022) :
    (readInto (sendApduRequest id bytes)).buf =
      apduTransferMsg :: id.toUInt8 :: (bytes ++ List.replicate (1022 - bytes.length) 0) := by
  have htake : (sendApduRequest id bytes).take bufLen = sendApduRequest id bytes :=
    List.take_of_length_le (by simp [sendApduRequest, bufLen]; omega)
  rw [readInto, htake]
  simp [sendApduRequest, bufLen]

/-- The bytes of a command are behind the two of the header. -/
theorem at_sendApduRequest (hlen : bytes.length ≤ 1022) (i : ℕ) :
    (readInto (sendApduRequest id bytes)).at (i + 2) = bytes.getD i 0 := by
  rw [Received.at, buf_sendApduRequest hlen, List.getD_cons_succ, List.getD_cons_succ]
  rcases lt_or_ge i bytes.length with hlt | hge
  · rw [List.getD_append _ _ _ _ hlt]
  · rw [List.getD_append_right _ _ _ _ hge, List.getD_eq_default _ _ hge]
    simp [List.getD_eq_getElem?_getD, List.getElem?_replicate]
    split_ifs <;> rfl

theorem bytes_sendApduRequest (hlen : bytes.length ≤ 1022) :
    (readInto (sendApduRequest id bytes)).bytes = bytes.length + 2 := by
  simp only [readInto, sendApduRequest, List.length_append, List.length_cons, List.length_nil,
    bufLen]
  omega

/-- What is transmitted for the bytes of a command. -/
def transmittedFor (id : UInt32) (bytes : List UInt8) (lc : UInt8) : TransmitApdu where
  apduId := id.toUInt8
  cla := bytes.getD 0 0
  instruction := bytes.getD 1 0
  p1 := bytes.getD 2 0
  p2 := bytes.getD 3 0
  lc := lc
  data := (bytes.drop 5).take lc.toNat
  le := if bytes.length = 5 then bytes.getD 4 0
    else if lc.toNat + 5 < bytes.length then bytes.getD (lc.toNat + 5) 0 else 0

theorem sendApduToSim_sendApduRequest (hlen : bytes.length ≤ 1022) :
    sendApduToSim true (readInto (sendApduRequest id bytes)) =
      let lc := if bytes.length < 6 then 0 else bytes.getD 4 0
      if bytes.length < 4 then none
      else if 0 < lc.toNat ∧ bytes.length < lc.toNat + 5 then none
      else some (transmittedFor id bytes lc) := by
  have hid : (readInto (sendApduRequest id bytes)).at 1 = id.toUInt8 := by
    rw [Received.at, buf_sendApduRequest hlen]
    rfl
  have hat (i : ℕ) : (readInto (sendApduRequest id bytes)).at (i + 2) = bytes.getD i 0 :=
    at_sendApduRequest hlen i
  have hlc : (if bytes.length + 2 < 8 then 0 else bytes.getD 4 0) =
      if bytes.length < 6 then 0 else bytes.getD 4 0 :=
    if_congr (by omega) rfl rfl
  obtain ⟨lc, hlc'⟩ : ∃ lc, lc = if bytes.length < 6 then 0 else bytes.getD 4 0 := ⟨_, rfl⟩
  unfold sendApduToSim
  dsimp only
  rw [if_neg (by decide), bytes_sendApduRequest hlen, hat 4, hlc, ← hlc']
  by_cases hshort : bytes.length < 4
  · rw [if_pos (by omega), if_pos hshort]
  rw [if_neg (by omega), if_neg hshort]
  by_cases hmore : 0 < lc.toNat ∧ bytes.length < lc.toNat + 5
  · rw [if_pos (by omega), if_pos hmore]
  rw [if_neg (by omega), if_neg hmore]
  have hdata : ((readInto (sendApduRequest id bytes)).buf.drop 7).take lc.toNat =
      (bytes.drop 5).take lc.toNat := by
    rw [buf_sendApduRequest hlen, List.drop_succ_cons, List.drop_succ_cons]
    rcases Nat.eq_zero_or_pos lc.toNat with hzero | hpos
    · rw [hzero, List.take_zero, List.take_zero]
    · rw [List.drop_append_of_le_length (by omega),
        List.take_append_of_le_length (by rw [List.length_drop]; omega)]
  have hle : (if bytes.length + 2 = 7 then bytes.getD 4 0
      else if lc.toNat + 7 < bytes.length + 2 then bytes.getD (lc.toNat + 5) 0 else 0) =
      if bytes.length = 5 then bytes.getD 4 0
        else if lc.toNat + 5 < bytes.length then bytes.getD (lc.toNat + 5) 0 else 0 :=
    if_congr (by omega) rfl (if_congr (by omega) rfl rfl)
  rw [hid, hat 0, hat 1, hat 2, hat 3, hdata, hat (lc.toNat + 5), hle]
  rfl

/-- With six bytes or more the fifth one counts those behind it. -/
theorem sendApduToSim_of_lc (hlong : 6 ≤ bytes.length) (hlen : bytes.length ≤ 1022) {lc : UInt8}
    (hlc : bytes.getD 4 0 = lc) : sendApduToSim true (readInto (sendApduRequest id bytes)) =
      if 0 < lc.toNat ∧ bytes.length < lc.toNat + 5 then none
      else some (transmittedFor id bytes lc) := by
  rw [sendApduToSim_sendApduRequest hlen]
  dsimp only
  rw [if_neg (not_lt.mpr hlong), if_neg (by omega), hlc]

end Message

/-! ### The cases -/

namespace CommandApdu

theorem length_bytes_le (apdu : CommandApdu) : apdu.bytes.length ≤ 261 := by
  obtain ⟨cla, ins, p1, p2, body⟩ := apdu
  cases body with
  | case1 => simp [bytes, ApduBody.bytes]
  | case2 le => simp [bytes, ApduBody.bytes]
  | case3 data =>
    have hle := data.le
    simp [bytes, ApduBody.bytes]
    omega
  | case4 data le =>
    have hle := data.le
    simp [bytes, ApduBody.bytes]
    omega

/-- A command is taken apart as it was put together. -/
theorem sendApduToSim_bytes (apdu : CommandApdu) (id : UInt32) :
    sendApduToSim true (readInto (sendApduRequest id apdu.bytes)) =
      some (apdu.transmitted id) := by
  have hlen := apdu.length_bytes_le
  obtain ⟨cla, ins, p1, p2, body⟩ := apdu
  cases body with
  | case1 =>
    rw [sendApduToSim_sendApduRequest (by omega)]
    rfl
  | case2 le =>
    rw [sendApduToSim_sendApduRequest (by omega)]
    rfl
  | case3 data =>
    have hpos := data.pos
    have hbytes : (CommandApdu.mk cla ins p1 p2 (.case3 data)).bytes =
      [cla, ins, p1, p2, data.lc] ++ data.bytes := rfl
    have hlength : ([cla, ins, p1, p2, data.lc] ++ data.bytes).length = data.bytes.length + 5 := by
      simp
    rw [hbytes] at hlen ⊢
    have hlc : ([cla, ins, p1, p2, data.lc] ++ data.bytes).getD 4 0 = data.lc := rfl
    rw [sendApduToSim_of_lc (by omega) (by omega) hlc, data.toNat_lc, if_neg (by omega)]
    have hne : data.bytes ≠ [] := List.ne_nil_of_length_pos hpos
    simp [transmitted, transmittedFor, ApduBody.lc, ApduBody.data, ApduBody.le, hne]
  | case4 data le =>
    have hpos := data.pos
    have hbytes : (CommandApdu.mk cla ins p1 p2 (.case4 data le)).bytes =
      [cla, ins, p1, p2, data.lc] ++ (data.bytes ++ [le]) := rfl
    have hlength : ([cla, ins, p1, p2, data.lc] ++ (data.bytes ++ [le])).length =
        data.bytes.length + 6 := by simp
    rw [hbytes] at hlen ⊢
    have hlc : ([cla, ins, p1, p2, data.lc] ++ (data.bytes ++ [le])).getD 4 0 = data.lc := rfl
    rw [sendApduToSim_of_lc (by omega) (by omega) hlc, data.toNat_lc, if_neg (by omega)]
    simp [transmitted, transmittedFor, ApduBody.lc, ApduBody.data, ApduBody.le]

end CommandApdu

/-- Commands are transmitted over an open connection, and what is too short is refused and not read
past its end. -/
structure ApduCases (cardConnected : Bool) : Prop where
  transmitted : cardConnected = true → ∀ id (apdu : CommandApdu),
    sendApduToSim cardConnected (readInto (sendApduRequest id apdu.bytes)) =
      some (apdu.transmitted id)
  closed : cardConnected = false → ∀ r, sendApduToSim cardConnected r = none
  refused : ∀ id bytes, bytes.length < 4 ∨ AnnouncesMore bytes →
    sendApduToSim cardConnected (readInto (sendApduRequest id bytes)) = none
  inside : ∀ id bytes, bytes.length < 4 ∨ AnnouncesMore bytes →
    ∀ i ∈ sendApduToSimReads cardConnected (readInto (sendApduRequest id bytes)),
      i < (readInto (sendApduRequest id bytes)).bytes

theorem sendApduToSim_refused {bytes : List UInt8} (id : UInt32)
    (h : bytes.length < 4 ∨ AnnouncesMore bytes) :
    sendApduToSim true (readInto (sendApduRequest id bytes)) = none := by
  rcases h with hshort | ⟨hlong, hmore⟩
  · rw [sendApduToSim_sendApduRequest (by omega)]
    exact if_pos hshort
  · have hlt := (bytes.getD 4 0).toNat_lt
    rw [sendApduToSim_of_lc hlong (by omega) rfl]
    exact if_pos (by omega)

theorem apduCases (cardConnected : Bool) : ApduCases cardConnected := by
  refine ⟨?_, ?_, fun id bytes h => ?_, fun id bytes _ => sendApduToSimReads_inside _ _⟩
  · rintro rfl id apdu
    exact apdu.sendApduToSim_bytes id
  · rintro rfl r
    rfl
  · cases cardConnected with
    | false => rfl
    | true => exact sendApduToSim_refused id h

/-- Without a connection to the card a command is not transmitted. -/
theorem not_transmitted_disconnected : ¬ ∀ cardConnected id (apdu : CommandApdu),
    sendApduToSim cardConnected (readInto (sendApduRequest id apdu.bytes)) =
      some (apdu.transmitted id) := by
  intro h
  exact absurd (h false 0 ⟨0, 0, 0, 0, .case1⟩) (by decide)

end Tulux.RemoteSim
