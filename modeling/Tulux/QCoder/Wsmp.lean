import Tulux.QCoder.V2xMsg

/-! The WSMP headers of `wsmp.c`. -/
namespace Tulux.QCoder

def waveElemIdPwr : ℕ := 4

def waveElemIdChan : ℕ := 15

def waveElemIdRate : ℕ := 16

def waveElemIdLoad : ℕ := 23

def waveElemIdData : ℕ := 128

def waveElemSafetyFlag : ℕ := 129

def maxPsid : ℤ := 0x1020407f

/-! ### The encoder -/

/-- The number of bytes of a P-encoded PSID, or -1. -/
def wsmPsidPcodedLen (psidV : ℤ) : ℤ :=
  if maxPsid < psidV then -1
  else if 0x204080 ≤ psidV then 4
  else if 0x4080 ≤ psidV then 3
  else if 0x80 ≤ psidV then 2
  else 1

/-- A PSID that is too large is not stored. -/
def wsmpAddPsid (bp : Abuf) (wsmp : ℕ) (psidV : ℤ) : Abuf :=
  if maxPsid < psidV then bp
  else if 0x204080 ≤ psidV then storeWord bp wsmp (u32 (psidV + 0xdfdfbf80))
  else if 0x4080 ≤ psidV then
    let p := u32 (psidV + 0xbfbf80)
    ((bp.setByte wsmp (UInt8.ofNat (p >>> 16))).setByte (wsmp + 1) (UInt8.ofNat (p >>> 8))).setByte
      (wsmp + 2) (UInt8.ofNat p)
  else if 0x80 ≤ psidV then
    let p := u32 (psidV + 0x7f80)
    (bp.setByte wsmp (UInt8.ofNat (p >>> 8))).setByte (wsmp + 1) (UInt8.ofNat p)
  else bp.setByte wsmp (UInt8.ofNat (u32 psidV))

def abufAddPsid (bp : Abuf) (psid : ℕ) : Abuf :=
  let len := wsmPsidPcodedLen (s32 psid)
  -- the tail of a PSID that is too large goes back by one byte
  if len < 0 then { bp with tail := bp.tail - 1 }
  else
    match abufPut bp len.toNat with
    | (some cp, bp) => wsmpAddPsid bp cp (s32 psid)
    | (none, bp) => bp

/-- An element of one byte: its id, its length and its value. -/
def ncatElement (id : ℕ) (value : UInt8) (bp : Abuf) : Abuf :=
  ncat value.toNat 8 (ncat 1 8 (ncat id 8 bp))

/-- The channel load at `w.chanLoadPtr` of another memory; its length is taken for a number of
bits. -/
def ncatChanLoad (loadMem : ℕ → UInt8) (w : WsmpData) (bp : Abuf) : Abuf :=
  let bp := (asnPutEncodedLen (ncat waveElemIdLoad 8 bp) w.chanLoadLen.toNat).2
  (asnNcat bp loadMem w.chanLoadPtr (8 * w.chanLoadLen.toNat)).2

def ncatElements (loadMem : ℕ → UInt8) (w : WsmpData) (bp : Abuf) : Abuf :=
  let bp := if w.weidOpts.incRateExt then ncatElement waveElemIdRate w.rate bp else bp
  let bp := if w.weidOpts.incPwrExt then ncatElement waveElemIdPwr w.pwr bp else bp
  let bp := if w.weidOpts.incChanExt then ncatElement waveElemIdChan w.chan bp else bp
  if w.weidOpts.incLoadExt then ncatChanLoad loadMem w bp else bp

/-- A `short` in network order, on a little-endian host. -/
def htons (v : ℕ) : ℕ := (v &&& 0xff) <<< 8 ||| v >>> 8

/-- The number of elements, and the indicator that there are some. -/
def countElements (w : WsmpData) : WsmpData :=
  let opts := w.weidOpts
  let qty := opts.incRateExt.toNat + opts.incChanExt.toNat + opts.incPwrExt.toNat +
    opts.incLoadExt.toNat
  { w with
    weidQty := qty
    nHeader.optionIndicator := if qty ≠ 0 then true else w.nHeader.optionIndicator }

/-- The header with the length and the payload behind it, and the length of the header. -/
def encodeWsmPayload (abp payload : Abuf) : ℤ × Abuf :=
  let payload := abufTrim payload
  let abp := abufTrim abp
  (abufByteLen abp, abufMergeSecond abp (asnPushLen payload))

/-- The header is built in `abp` and copied in front of the payload. -/
def encodeWsm2016 (loadMem : ℕ → UInt8) (wbp : WsmpData) (abp payload : Abuf) :
    ℤ × WsmpData × Abuf :=
  let wbp := countElements wbp
  let abp := ncat wbp.nHeader.data 8 abp
  let abp := if wbp.weidQty ≠ 0 then ncatElements loadMem wbp (ncat wbp.weidQty 8 abp) else abp
  let abp := ncat wbp.tpid.toNat 8 abp
  -- elements in the T header are not supported
  let wbp := if wbp.tpid.toNat % 2 ≠ 0 then { wbp with tpid := wbp.tpid &&& 0xfe } else wbp
  if wbp.tpid.toNat < 2 then
    let (result, payload) := encodeWsmPayload (abufAddPsid abp wbp.psid) payload
    (result, wbp, payload)
  else
    let abp := ncat (htons wbp.ports.dstPort) 8 (ncat (htons wbp.ports.srcPort) 8 abp)
    if 3 < wbp.tpid.toNat then (-2, wbp, payload)
    else
      let (result, payload) := encodeWsmPayload abp payload
      (result, wbp, payload)

/-- `block` is the address of the buffer of the header. -/
def wsmpEncode (block : ℕ) (loadMem : ℕ → UInt8) (mc : MsgContents) : ℤ × MsgContents :=
  match mc.wsmp with
  | none => (-1, mc)
  | some wsmp =>
    let (result, wsmp, abuf) := encodeWsm2016 loadMem wsmp (abufAlloc block 2000 20) mc.abuf
    (result, { mc with wsmp := some wsmp, abuf := abuf })

/-! ### The decoder -/

/-- How a layer stops. -/
inductive Stop where
  | nullPointer
  | retcode (code : ℤ)
  deriving DecidableEq

/-- The header so far; `reach` is the address behind the last byte that was read. -/
structure WsmpState where
  data : ℕ
  payloadLen : ℤ
  wsmp : WsmpData
  reach : ℕ

abbrev WsmpDecoder (α : Type) := EStateM Stop WsmpState α

def updateWsmp (g : WsmpData → WsmpData) : WsmpDecoder Unit :=
  modify fun st => { st with wsmp := g st.wsmp }

def setPayloadLen (len : ℤ) : WsmpDecoder Unit :=
  modify fun st => { st with payloadLen := len }

/-- `WSMP_PSID_FIELD_SIZE`. -/
def wsmpPsidFieldSize (val : UInt8) : ℕ :=
  if val.toNat &&& 0xe0 = 0xe0 then 4
  else if val.toNat &&& 0xc0 = 0xc0 then 3
  else if val.toNat &&& 0x80 = 0x80 then 2
  else 1

def wsmpDecodePsid (mem : ℕ → UInt8) (wsmp : ℕ) : ℤ :=
  let byte (i : ℕ) : ℕ := (mem (wsmp + i)).toNat
  match wsmpPsidFieldSize (mem wsmp) with
  | 1 => byte 0
  | 2 => (byte 0 <<< 8 + byte 1 : ℕ) - 0x7f80
  | 3 => (byte 0 <<< 16 + byte 1 <<< 8 + byte 2 : ℕ) - 0xbfbf80
  | _ => (byte 0 <<< 24 + byte 1 <<< 16 + byte 2 <<< 8 + byte 3 : ℕ) - 0xdfdfbf80

section Decoder
variable (mem : ℕ → UInt8) (tail : ℕ)

/-- `n` bytes at `a` are read. -/
def touch (a n : ℕ) : WsmpDecoder Unit :=
  modify fun st => { st with reach := max st.reach (a + n) }

/-- `abuf_pull`. -/
def pull (bytes : ℕ) : WsmpDecoder (Option ℕ) := fun st =>
  .ok (if tail < st.data + bytes then none else some st.data) { st with data := st.data + bytes }

/-- `n` bytes are read where `abuf_pull` points to. -/
def pullBytes (n : ℕ) : WsmpDecoder ℕ := do
  match ← pull tail n with
  | none => throw .nullPointer
  | some p =>
    touch p n
    pure p

def pullByte : WsmpDecoder UInt8 := do
  let p ← pullBytes tail 1
  pure (mem p)

def pullShort : WsmpDecoder ℕ := do
  let p ← pullBytes tail 2
  pure (ntohs mem p)

def parseLen : WsmpDecoder ℤ := fun st =>
  let (len, data, _) := parseAsnVariableLengthEnc mem st.data 8
  .ok len { st with data := data, reach := max st.reach (max data (st.data + 1)) }

/-- The PSID is read before the buffer is advanced. -/
def decodePsid : WsmpDecoder Unit := do
  let st ← get
  let size := wsmpPsidFieldSize (mem st.data)
  touch st.data size
  updateWsmp fun w => { w with psid := u32 (wsmpDecodePsid mem st.data) }
  let _ ← pull tail size

/-- Past the element at `extField`, by its length. -/
def pullExtField (extField : ℕ) : WsmpDecoder Unit := do
  touch extField 2
  let _ ← pull tail (2 + (mem (extField + 1)).toNat)

/-- An element with a value of one byte. -/
def decodeValue (extField : ℕ) (store : UInt8 → WsmpData → WsmpData) : WsmpDecoder Unit := do
  touch (extField + 2) 1
  updateWsmp (store (mem (extField + 2)))
  pullExtField mem tail extField

/-- Returns whether the loop goes on. -/
def decodeElement : WsmpDecoder Bool := do
  let st ← get
  let extField := st.data
  touch extField 1
  let id := (mem extField).toNat
  if id = waveElemIdRate then
    decodeValue mem tail extField fun v w => { w with rate := v }
    pure true
  else if id = waveElemIdPwr then
    decodeValue mem tail extField fun v w => { w with pwr := v }
    pure true
  else if id = waveElemIdChan then
    decodeValue mem tail extField fun v w => { w with chan := v }
    pure true
  else if id = waveElemIdLoad then
    let _ ← pull tail 1
    let len ← parseLen mem
    let st ← get
    updateWsmp fun w => { w with chanLoadLen := UInt8.ofNat (u32 len), chanLoadPtr := st.data }
    pullExtField mem tail extField
    pure true
  else if id = waveElemIdData ∨ id = waveElemSafetyFlag then
    pure false
  else
    -- the length of an unknown element is read, and the length of the channel load is used
    let _ ← pull tail 1
    let _ ← parseLen mem
    let st ← get
    let _ ← pull tail st.wsmp.chanLoadLen.toNat
    pure true

def decodeElements : ℕ → WsmpDecoder Unit
  | 0 => pure ()
  | n + 1 => do
    if ← decodeElement mem tail then decodeElements n

/-- Without an expected number of elements, the number is read. -/
def wsmpDecodeWaveElementExtension (qtyWeidsExpected : ℕ) : WsmpDecoder Unit := do
  if qtyWeidsExpected = 0 then
    let qty ← parseLen mem
    decodeElements mem tail qty.toNat
  else
    decodeElements mem tail qtyWeidsExpected

/-- The payload of the versions before 2016. -/
def decodeDataField (nextWeid : ℕ) : WsmpDecoder Unit := do
  if nextWeid = waveElemIdData ∨ nextWeid = waveElemSafetyFlag then
    let st ← get
    touch (st.data + 1) 2
    setPayloadLen (ntohs mem (st.data + 1))
    let _ ← pull tail 3
    if nextWeid = waveElemSafetyFlag then
      let _ ← pull tail 1
  else throw (.retcode (-1))

/-- The T header of the version of 2016; `savari` reads a length of one byte. -/
def decodeTHeader (savari : Bool) (nextWeid : ℕ) : WsmpDecoder Unit := do
  let tpid ← pullByte mem tail
  updateWsmp fun w => { w with tpid := tpid }
  if 5 < tpid.toNat then throw (.retcode (-1))
  if 2 ≤ tpid.toNat then
    let srcPort ← pullShort mem tail
    updateWsmp fun w => { w with ports.srcPort := srcPort }
    let dstPort ← pullShort mem tail
    updateWsmp fun w => { w with ports.dstPort := dstPort }
  else
    decodePsid mem tail
  if savari then
    let st ← get
    touch st.data 1
    set { st with data := st.data + 1, payloadLen := (mem st.data).toNat }
  else
    let len ← parseLen mem
    setPayloadLen len
  if tpid.toNat % 2 = 1 then wsmpDecodeWaveElementExtension mem tail 0
  if nextWeid = waveElemSafetyFlag then
    let _ ← pull tail 1

/-- The N header, up to the first byte behind it. -/
def decodeNHeader (verOctet : ℕ) : WsmpDecoder Unit := do
  let protoVersion := verOctet % 8
  updateWsmp fun w => { w with protoVersion := protoVersion }
  if protoVersion = 1 ∨ protoVersion = 2 then
    decodePsid mem tail
    wsmpDecodeWaveElementExtension mem tail 4
  else if protoVersion = 3 then
    let nHeader := WsmpNHeader.ofData verOctet
    updateWsmp fun w => { w with nHeader := nHeader }
    if (nHeader.subtype : ℕ) ≠ 0 then throw (.retcode (-1))
    if nHeader.optionIndicator then wsmpDecodeWaveElementExtension mem tail 0
  else throw (.retcode (-1))

def wsmpDecodeHeader (savari : Bool) : WsmpDecoder Unit := do
  let octet ← pullByte mem tail
  let verOctet := octet.toNat
  decodeNHeader mem tail verOctet
  let st ← get
  touch st.data 1
  let nextWeid := (mem st.data).toNat
  if verOctet % 8 < 3 then decodeDataField mem tail nextWeid
  else decodeTHeader mem tail savari nextWeid

end Decoder

/-- A received message; `reach` is the address behind the last byte that was read. -/
structure Receiver where
  mc : MsgContents
  reach : ℕ

def receive (bp : Abuf) : Receiver := ⟨freshContents bp, bp.data⟩

/-- What the decoder of the header leaves. -/
def WsmpState.toReceiver (st : WsmpState) (rx : Receiver) : Receiver where
  mc := { rx.mc with abuf.data := st.data, payloadLen := st.payloadLen, wsmp := some st.wsmp }
  reach := st.reach

/-- `print_buffer` of a payload. -/
def printBuffer (a : ℕ) (len : ℤ) (rx : Receiver) : Receiver :=
  if 0 < len then { rx with reach := max rx.reach (a + len.toNat) } else rx

/-- From the verbosity 3 on the payload is printed. -/
def wsmpDecode (savari : Bool) (verbosity : ℤ) : EStateM Stop Receiver Unit := fun rx =>
  let mc := rx.mc
  let st : WsmpState :=
    { data := mc.abuf.data
      payloadLen := mc.payloadLen
      wsmp := mc.wsmp.getD callocWsmp
      reach := rx.reach }
  match wsmpDecodeHeader mc.abuf.mem mc.abuf.tail savari st with
  | .error .nullPointer st => .error .nullPointer (st.toReceiver rx)
  | .error (.retcode _) st => .error (.retcode (-3)) (st.toReceiver rx)
  | .ok _ st =>
    let rx := st.toReceiver rx
    let rx := { rx with mc.l3Payload := st.data, mc.l3PayloadLen := st.payloadLen }
    .ok () (if 2 < verbosity then printBuffer st.data st.payloadLen rx else rx)

end Tulux.QCoder
