import Tulux.Lib.Framing
import Tulux.SerialLink.RoundbufFifo

/-! The SPI driver `yx_spi_drv.c`. Senders put whole frames in its transmit ring; its thread moves
blocks of 64 bytes both ways and puts what it receives in the receive ring. -/
namespace Tulux.SerialLink
open Framing GuardedRun

/-- The rings of `sgSpiDevObj`. -/
structure YxSpiDrv where
  txRingBuffer : YxRoundbuf
  rxRingBuffer : YxRoundbuf
  deriving DecidableEq, Repr

def yxSpiDrvInit : YxSpiDrv where
  txRingBuffer := yxRoundbufInit (List.replicate 2048 0) 2048
  rxRingBuffer := yxRoundbufInit (List.replicate 2048 0) 2048

/-- Returns `len`, or 0 when there is no space; the result of the put is only printed. -/
def yxSpiDrvSend (drv : YxSpiDrv) (pBuf : List UInt8) (len : UInt32) : Option (ℕ × YxSpiDrv) :=
  if (yxRoundbufSpaceLen drv.txRingBuffer).toUInt32 < len then some (0, drv) else
    (yxRoundbufPut drv.txRingBuffer pBuf len.toUInt16).map fun (_, rb) =>
      (len.toNat, { drv with txRingBuffer := rb })

/-- Returns the bytes read; the C result is their number. -/
def yxSpiDrvRead (drv : YxSpiDrv) (len : UInt32) : Option (List UInt8 × YxSpiDrv) :=
  if 0 < yxRoundbufDataLen drv.rxRingBuffer then
    (yxRoundbufGet drv.rxRingBuffer len.toUInt16).map fun (bytes, rb) =>
      (bytes, { drv with rxRingBuffer := rb })
  else some ([], drv)

/-- The thread fills a block and overwrites its start by bytes of the transmit ring. -/
def spiTxBlock (drv : YxSpiDrv) : Option (List UInt8 × YxSpiDrv) :=
  (yxRoundbufGet drv.txRingBuffer 64).map fun (bytes, rb) =>
    (RingStore.splice (List.replicate 64 0) 0 bytes, { drv with txRingBuffer := rb })

/-- The thread puts a received block in the receive ring, as far as it fits. -/
def spiRxBlock (drv : YxSpiDrv) (rxbuf : List UInt8) : Option YxSpiDrv :=
  (yxRoundbufPut drv.rxRingBuffer rxbuf 64).map fun (_, rb) => { drv with rxRingBuffer := rb }

/-- One turn of the loop of `yx_spi_drv_thread`: the block `rxbuf` comes in for the one sent. -/
def spiTransfer (drv : YxSpiDrv) (rxbuf : List UInt8) : Option (List UInt8 × YxSpiDrv) :=
  (spiTxBlock drv).bind fun (txbuf, drv) => (spiRxBlock drv rxbuf).map fun drv => (txbuf, drv)

/-! ### The rings as queues -/

/-- The rings hold the queues `tq` and `rq`, and have their full size. -/
structure SpiOk (drv : YxSpiDrv) (tq rq : List UInt8) : Prop where
  tx : Fifo drv.txRingBuffer tq
  rx : Fifo drv.rxRingBuffer rq
  txSize : drv.txRingBuffer.bufferSize = 2048
  rxSize : drv.rxRingBuffer.bufferSize = 2048

theorem yxSpiDrvInit_ok : SpiOk yxSpiDrvInit [] [] := by
  have hf : Fifo (yxRoundbufInit (List.replicate 2048 0) 2048) [] :=
    ⟨⟨11, by norm_num, rfl⟩, List.length_replicate.ge, Nat.zero_le _, rfl,
      RingStore.Stored.nil _ _ _⟩
  exact ⟨hf, hf, by decide, by decide⟩

section Rings
variable {drv : YxSpiDrv} {tq rq : List UInt8}

/-- A frame is put whole or not at all. -/
theorem yxSpiDrvSend_spec (h : SpiOk drv tq rq) {pBuf : List UInt8} {len : UInt32}
    (hl : len.toNat ≤ pBuf.length) :
    ∃ ret drv' tq', yxSpiDrvSend drv pBuf len = some (ret, drv') ∧ SpiOk drv' tq' rq ∧
      tq' = tq ++ if ret = len.toNat then pBuf.take len.toNat else [] := by
  have hspace := h.tx.spaceLen
  rw [h.txSize] at hspace
  change _ = 2048 - tq.length at hspace
  unfold yxSpiDrvSend
  split_ifs with hc
  · rw [UInt32.lt_iff_toNat_lt, UInt16.toNat_toUInt32] at hc
    have hne : ¬ 0 = len.toNat := by omega
    exact ⟨0, drv, tq, rfl, h, by simp [hne]⟩
  · rw [UInt32.lt_iff_toNat_lt, UInt16.toNat_toUInt32] at hc
    have hlen : len.toUInt16.toNat = len.toNat := by
      rw [UInt32.toNat_toUInt16]
      omega
    obtain ⟨n, rb', hput, hs, hn⟩ := yxRoundbufPut_fifo h.tx (hlen.le.trans hl)
    have hall : n = len.toNat := by
      rw [hn, hlen, h.txSize]
      change min _ (2048 - tq.length) = _
      omega
    refine ⟨len.toNat, { drv with txRingBuffer := rb' }, tq ++ pBuf.take n, by rw [hput]; rfl,
      ⟨hs.fifo, h.rx, hs.size.trans h.txSize, h.rxSize⟩, by simp [hall]⟩

/-- The block sent is the oldest bytes of the transmit ring, and fill when it runs dry. -/
theorem spiTxBlock_spec (h : SpiOk drv tq rq) :
    ∃ drv', spiTxBlock drv =
        some (tq.take 64 ++ List.replicate (64 - tq.length) 0, drv') ∧
      SpiOk drv' (tq.drop 64) rq ∧ drv'.rxRingBuffer = drv.rxRingBuffer := by
  obtain ⟨n, rb', hget, hs, hn⟩ := yxRoundbufGet_fifo h.tx 64
  change n = min 64 tq.length at hn
  have htake : tq.take n = tq.take 64 := by
    rw [hn, ← List.take_take, List.take_length]
  have hdrop : tq.drop n = tq.drop 64 := by
    rcases Nat.le_total 64 tq.length with hle | hle
    · rw [hn, Nat.min_eq_left hle]
    · rw [hn, Nat.min_eq_right hle, List.drop_length, List.drop_eq_nil_of_le hle]
  rw [htake] at hget
  rw [hdrop] at hs
  refine ⟨{ drv with txRingBuffer := rb' }, ?_,
    ⟨hs.fifo, h.rx, hs.size.trans h.txSize, h.rxSize⟩, rfl⟩
  have hfill : 64 - (tq.take 64).length = 64 - tq.length := by
    rw [List.length_take]
    omega
  simp only [spiTxBlock, hget, Option.map_some, RingStore.splice_replicate, hfill]

/-- What comes in is queued as far as it fits. -/
theorem spiRxBlock_spec (h : SpiOk drv tq rq) {rxbuf : List UInt8} (hl : rxbuf.length = 64) :
    ∃ drv' n, spiRxBlock drv rxbuf = some drv' ∧ SpiOk drv' tq (rq ++ rxbuf.take n) ∧
      n = min 64 (2048 - rq.length) ∧ drv'.txRingBuffer = drv.txRingBuffer := by
  have hlen : (64 : UInt16).toNat ≤ rxbuf.length := hl.ge
  obtain ⟨n, rb', hput, hs, hn⟩ := yxRoundbufPut_fifo h.rx hlen
  rw [h.rxSize] at hn
  exact ⟨{ drv with rxRingBuffer := rb' }, n, by rw [spiRxBlock, hput]; rfl,
    ⟨h.tx, hs.fifo, h.txSize, hs.size.trans h.rxSize⟩, hn, rfl⟩

/-- A read takes the oldest bytes, as many as there are and are asked for. -/
theorem yxSpiDrvRead_spec (h : SpiOk drv tq rq) {len : UInt32} (hl : len.toNat ≤ 1024) :
    ∃ drv', yxSpiDrvRead drv len = some (rq.take len.toNat, drv') ∧
      SpiOk drv' tq (rq.drop len.toNat) := by
  have hlen : len.toUInt16.toNat = len.toNat := by
    rw [UInt32.toNat_toUInt16]
    omega
  have hdata := h.rx.dataLen
  unfold yxSpiDrvRead
  split_ifs with hc
  · obtain ⟨n, rb', hget, hs, hn⟩ := yxRoundbufGet_fifo h.rx len.toUInt16
    rw [hlen] at hn
    have htake : rq.take n = rq.take len.toNat := by
      rw [hn, ← List.take_take, List.take_length]
    have hdrop : rq.drop n = rq.drop len.toNat := by
      rcases Nat.le_total len.toNat rq.length with hle | hle
      · rw [hn, Nat.min_eq_left hle]
      · rw [hn, Nat.min_eq_right hle, List.drop_length, List.drop_eq_nil_of_le hle]
    rw [htake] at hget
    rw [hdrop] at hs
    exact ⟨{ drv with rxRingBuffer := rb' }, by rw [hget]; rfl,
      ⟨h.tx, hs.fifo, h.txSize, hs.size.trans h.rxSize⟩⟩
  · have hnil : rq = [] := by
      rw [UInt16.lt_iff_toNat_lt, hdata] at hc
      exact List.eq_nil_of_length_eq_zero (by simpa using hc)
    subst hnil
    exact ⟨drv, by simp, by simpa using h⟩

end Rings

/-! ### The wire -/

/-- What happens to the driver. The source of a send holds at least `len` bytes. -/
inductive SpiOp where
  | send (pBuf : List UInt8) (len : UInt32) (h : len.toNat ≤ pBuf.length)
  | transfer (rxbuf : List UInt8) (h : rxbuf.length = 64)

/-- The driver with the frames of the sends that returned their length and the blocks sent. -/
structure SpiRun where
  drv : YxSpiDrv
  accepted : List (List UInt8)
  blocks : List (List UInt8)

def SpiRun.init : SpiRun := ⟨yxSpiDrvInit, [], []⟩

def SpiRun.step (s : SpiRun) : SpiOp → Option SpiRun
  | .send pBuf len _ => (yxSpiDrvSend s.drv pBuf len).map fun (ret, drv) =>
      { s with
        drv := drv
        accepted := if ret = len.toNat then s.accepted ++ [pBuf.take len.toNat] else s.accepted }
  | .transfer rxbuf _ => (spiTransfer s.drv rxbuf).map fun (txbuf, drv) =>
      { s with drv := drv, blocks := s.blocks ++ [txbuf] }

def SpiRun.run (s : SpiRun) (ops : List SpiOp) : Option SpiRun := ops.foldlM SpiRun.step s

/-- The blocks sent and the bytes still to be sent are the accepted frames and fill. -/
structure SpiRun.Law (s : SpiRun) : Prop where
  whole : ∀ block ∈ s.blocks, block.length = 64
  queues : ∃ tq rq, SpiOk s.drv tq rq ∧ Padded 0 s.accepted (s.blocks.flatten ++ tq)

theorem SpiRun.Law.init : SpiRun.init.Law :=
  ⟨nofun, [], [], yxSpiDrvInit_ok, .nil⟩

/-- Fill is sent only behind the last byte of the transmit ring. -/
private theorem padded_block {frames : List (List UInt8)} {sent tq : List UInt8}
    (h : Padded 0 frames (sent ++ tq)) :
    Padded 0 frames (sent ++ (tq.take 64 ++ List.replicate (64 - tq.length) 0) ++ tq.drop 64) := by
  rcases Nat.le_total 64 tq.length with hle | hle
  · have hfill : 64 - tq.length = 0 := by omega
    simpa [hfill] using h
  · rw [List.drop_eq_nil_of_le hle, List.take_of_length_le hle, List.append_nil,
      ← List.append_assoc]
    exact h.pad _

theorem SpiRun.Law.step {s : SpiRun} (h : s.Law) (op : SpiOp) :
    ∃ s', s.step op = some s' ∧ s'.Law := by
  obtain ⟨hwhole, tq, rq, hok, hpad⟩ := h
  cases op with
  | send pBuf len hl =>
    obtain ⟨ret, drv', tq', hsend, hok', rfl⟩ := yxSpiDrvSend_spec hok hl
    refine ⟨_, congrArg (Option.map _) hsend, hwhole, _, rq, hok', ?_⟩
    dsimp only
    split_ifs
    · rw [← List.append_assoc]
      exact hpad.snoc _
    · rwa [List.append_nil]
  | transfer rxbuf hl =>
    obtain ⟨drv₁, htx, hok₁, -⟩ := spiTxBlock_spec hok
    obtain ⟨drv', n, hrx, hok', -⟩ := spiRxBlock_spec hok₁ hl
    have hrun : spiTransfer s.drv rxbuf =
        some (tq.take 64 ++ List.replicate (64 - tq.length) 0, drv') := by
      simp [spiTransfer, htx, hrx]
    refine ⟨_, congrArg (Option.map _) hrun, ?_, _, _, hok', ?_⟩
    · intro block hb
      rcases List.mem_append.mp hb with hb | hb
      · exact hwhole block hb
      · rw [List.mem_singleton.mp hb]
        simp
        omega
    · simpa using padded_block hpad

theorem SpiRun.Law.run {s : SpiRun} (h : s.Law) (ops : List SpiOp) :
    ∃ s', s.run ops = some s' ∧ s'.Law :=
  foldlM_keeps (fun _ op _ hlaw => hlaw.step op) h

/-- However sends and transfers interleave, the blocks sent, followed by the bytes still in the
transmit ring, are the accepted frames, each whole and in order, with fill before, between and
after them. -/
theorem spiRun_padded (ops : List SpiOp) :
    ∃ s, SpiRun.init.run ops = some s ∧ (∀ block ∈ s.blocks, block.length = 64) ∧
      Padded 0 s.accepted (s.blocks.flatten ++ storedBytes s.drv.txRingBuffer) := by
  obtain ⟨s, hrun, hwhole, tq, rq, hok, hpad⟩ := SpiRun.Law.init.run ops
  exact ⟨s, hrun, hwhole, by rwa [hok.tx.storedBytes]⟩

/-- The stream starts with the first frame, and has fill between the frames and at the end. -/
def FilledBetween (frames : List (List UInt8)) (stream : List UInt8) : Prop :=
  match frames with
  | [] => Padded 0 [] stream
  | f :: fs => ∃ rest, stream = f ++ rest ∧ Padded 0 fs rest

/-- Before the first frame the thread sends fill. -/
theorem spiRun_fill_first :
    ∃ s, SpiRun.init.run [.transfer (List.replicate 64 0) (by decide), .send [1] 1 (by decide),
        .transfer (List.replicate 64 0) (by decide)] = some s ∧
      storedBytes s.drv.txRingBuffer = [] ∧ ¬ FilledBetween s.accepted s.blocks.flatten := by
  have hview : (SpiRun.init.run [.transfer (List.replicate 64 0) (by decide),
      .send [1] 1 (by decide), .transfer (List.replicate 64 0) (by decide)]).map (fun s =>
        (storedBytes s.drv.txRingBuffer, s.accepted, s.blocks.flatten.head?)) =
      some ([], [[1]], some 0) := by
    decide +kernel
  obtain ⟨s, hrun, heq⟩ := Option.map_eq_some_iff.mp hview
  simp only [Prod.mk.injEq] at heq
  obtain ⟨hstored, haccepted, hhead⟩ := heq
  refine ⟨s, hrun, hstored, ?_⟩
  rw [haccepted]
  rintro ⟨rest, hflat, -⟩
  simp [hflat] at hhead

end Tulux.SerialLink
