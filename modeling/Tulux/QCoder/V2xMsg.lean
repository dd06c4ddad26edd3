import Tulux.QCoder.J2735Decode

/-! The records of `wsmp.h`, `ieee1609.2.h` and `v2x_msg.h` that the layers of the SAE stack share. A
null pointer is `none`; the fields of the other stacks and of layer 2 are left out. -/
namespace Tulux.QCoder

/-! ### WSMP -/

/-- `WSMP_N_HEADER_t`. -/
structure WsmpNHeader where
  version : Fin 8
  optionIndicator : Bool
  subtype : Fin 16
  deriving DecidableEq

namespace WsmpNHeader

def data (h : WsmpNHeader) : ℕ := h.version + 8 * h.optionIndicator.toNat + 16 * h.subtype

def ofData (octet : ℕ) : WsmpNHeader where
  version := Fin.ofNat 8 octet
  optionIndicator := octet / 8 % 2 = 1
  subtype := Fin.ofNat 16 (octet / 16)

theorem ofData_data (h : WsmpNHeader) : ofData h.data = h := by
  obtain ⟨⟨version, hversion⟩, option, ⟨subtype, hsubtype⟩⟩ := h
  cases option <;> simp [ofData, data, Fin.ext_iff] <;> omega

end WsmpNHeader

/-- `wsmp_optional_weids_t`: the extension elements that are sent, or that were received. -/
structure WsmpOptionalWeids where
  incRateExt : Bool
  incChanExt : Bool
  incPwrExt : Bool
  incLoadExt : Bool
  deriving DecidableEq

structure WsmpTHeaderPortInfo where
  srcPort : ℕ
  dstPort : ℕ

/-- `wsmp_data_t`. A pointer to the channel load is an address. -/
structure WsmpData where
  protoVersion : ℕ
  nHeader : WsmpNHeader
  ports : WsmpTHeaderPortInfo
  weidOpts : WsmpOptionalWeids
  weidQty : ℕ
  rate : UInt8
  chan : UInt8
  pwr : UInt8
  tpid : UInt8
  psid : ℕ
  chanLoadPtr : ℕ
  chanLoadLen : UInt8

/-- The header that `calloc` returns. -/
def callocWsmp : WsmpData where
  protoVersion := 0
  nHeader := ⟨0, false, 0⟩
  ports := ⟨0, 0⟩
  weidOpts := ⟨false, false, false, false⟩
  weidQty := 0
  rate := 0
  chan := 0
  pwr := 0
  tpid := 0
  psid := 0
  chanLoadPtr := 0
  chanLoadLen := 0

/-! ### IEEE 1609.2 -/

/-- A `content` is 0 for unsecured, 1 for signed and 2 for encrypted data. -/
structure Ieee16092Data where
  protocolVersion : UInt8
  tagclass : Fin 4
  content : ℕ
  deriving DecidableEq

def unsecuredData : ℕ := 0

def signedData : ℕ := 1

def encryptedData : ℕ := 2

def callocIeee16092 : Ieee16092Data := ⟨0, 0, 0⟩

/-! ### Messages -/

/-- `msg_contents`. -/
structure MsgContents where
  msgId : ℤ
  abuf : Abuf
  payloadLen : ℤ
  wsmp : Option WsmpData
  l3Payload : ℕ
  l3PayloadLen : ℤ
  j2735Msg : Option BsmValue
  j2735MsgId : ℕ
  ieee16092Data : Option Ieee16092Data

/-- A message with nothing but a buffer. -/
def freshContents (bp : Abuf) : MsgContents where
  msgId := 0
  abuf := bp
  payloadLen := 0
  wsmp := none
  l3Payload := 0
  l3PayloadLen := 0
  j2735Msg := none
  j2735MsgId := 0
  ieee16092Data := none

end Tulux.QCoder
