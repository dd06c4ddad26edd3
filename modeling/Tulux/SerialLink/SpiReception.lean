import Tulux.SerialLink.Delivery
import Tulux.SerialLink.Wakeups

/-! From the blocks that the SPI thread receives to the frames that the link accepts, however the
steps of the threads interleave. The other side sends whole frames with fill around them. -/
namespace Tulux.SerialLink
open Framing GuardedRun

/-! ### Frames with fill -/

/-- A whole frame with the right checksum, which has room in the receive buffer. -/
structure Sendable (frame : List UInt8) : Prop where
  whole : scanNext frame = some (frame.length, some frame)
  fits : frame.length ≤ 1024

section Padded
variable {frames : List (List UInt8)} {stream frame rest : List UInt8}

/-- The scan passes over fill. -/
theorem next_fill (rest : List UInt8) : refScanner.next (0 :: rest) = some (1, none) := by
  have hstart : startsFrame (0 :: rest) = false := rfl
  have hne : ¬ (0 :: rest = [] ∨ 0 :: rest = [yxSerialLinkHeadUp1]) := by
    rintro (h | h)
    · cases h
    · exact absurd (List.cons.inj h).1 (by decide)
  change scanNext (0 :: rest) = _
  rw [scanNext, hstart, if_neg Bool.false_ne_true, if_neg hne]

theorem Sendable.length (h : Sendable frame) : 8 + headLen frame = frame.length := by
  have hscan := h.whole
  unfold scanNext at hscan
  split_ifs at hscan
  · exact (Prod.mk.inj (Option.some.inj hscan)).1
  · exact absurd (Prod.mk.inj (Option.some.inj hscan)).2 nofun
  · exact absurd (Prod.mk.inj (Option.some.inj hscan)).2 nofun

theorem Sendable.scanNext_append (h : Sendable frame) (rest : List UInt8) :
    refScanner.next (frame ++ rest) = some (frame.length, some frame) :=
  refScanner.stable h.whole rest

/-- The frames are what the plain scan accepts of the stream. -/
theorem refFrames_padded (h : Padded 0 frames stream) (hsend : ∀ frame ∈ frames, Sendable frame) :
    refFrames stream = frames := by
  unfold refFrames
  induction h with
  | nil => exact refFrames_short (by simp)
  | @fill frames rest _ ih =>
    rw [Scanner.scan_step (next_fill rest)]
    exact ih hsend
  | @frame frames rest frame _ ih =>
    obtain ⟨hframe, hrest⟩ := List.forall_mem_cons.mp hsend
    rw [Scanner.scan_step (hframe.scanNext_append rest), List.drop_left]
    exact congrArg (frame :: ·) (ih hrest)

/-- No head that the scan comes to asks for more than the receive buffer holds. -/
theorem fitting_padded (h : Padded 0 frames stream) (hsend : ∀ frame ∈ frames, Sendable frame) :
    Fitting stream := by
  induction h with
  | nil =>
    intro s hs
    rw [Scanner.visits_wait (S := refScanner) rfl, List.mem_singleton] at hs
    rintro - hlen
    rw [hs] at hlen
    exact absurd hlen (by decide)
  | @fill frames rest _ ih =>
    intro s hs hstart
    rw [Scanner.visits_step (next_fill rest), List.mem_cons] at hs
    rcases hs with rfl | hs
    · exact absurd hstart Bool.false_ne_true
    · exact ih hsend s hs hstart
  | @frame frames rest frame _ ih =>
    obtain ⟨hframe, hrest⟩ := List.forall_mem_cons.mp hsend
    intro s hs hstart hlen
    rw [Scanner.visits_step (hframe.scanNext_append rest), List.drop_left, List.mem_cons] at hs
    rcases hs with rfl | hs
    · have hlength := hframe.length
      have hfits := hframe.fits
      rw [headLen_append (by omega)]
      omega
    · exact ih hrest s hs hstart hlen

end Padded

/-! ### What is heard -/

/-- The block that the SPI thread receives in a step. -/
def Threads.incoming (s : Threads) : ThreadOp → List UInt8
  | .spi rxbuf _ => if s.spiPc = .transfers then rxbuf else []
  | _ => []

/-- What the SPI thread receives in a run. -/
def Threads.heard (env : Env) (s : Threads) : List ThreadOp → List UInt8
  | [] => []
  | op :: ops => s.incoming op ++
      match s.step env op with
      | some s' => s'.heard env ops
      | none => []

/-- No block of a run finds the receive ring too full for it. -/
def Threads.Roomy (env : Env) (s : Threads) : List ThreadOp → Prop
  | [] => True
  | op :: ops => (s.incoming op).length ≤ (yxRoundbufSpaceLen s.spi.rxRingBuffer).toNat ∧
      match s.step env op with
      | some s' => s'.Roomy env ops
      | none => True

section Heard
variable {env : Env} {s s' : Threads} {L : Lists} {ops : List ThreadOp}

theorem arrived_linkTurn (h : linkTurn env s = some s') : s'.arrived = s.arrived := by
  unfold linkTurn at h
  dsimp only at h
  cases hpc : s.linkPc with
  | waits =>
    rw [hpc] at h
    dsimp only at h
    split at h
    · obtain rfl := Option.some.inj h
      rfl
    · obtain rfl := Option.some.inj h
      rfl
  | received msg =>
    rw [hpc] at h
    dsimp only at h
    split at h
    all_goals
      obtain rfl := Option.some.inj h
      rfl
  | handles msg =>
    rw [hpc] at h
    dsimp only at h
    split at h
    · obtain rfl := Option.some.inj h
      rfl
    · split_ifs at h
      all_goals
        obtain rfl := Option.some.inj h
        rfl
    · obtain rfl := Option.some.inj h
      rfl
  | analyses =>
    rw [hpc] at h
    obtain ⟨⟨bytes, spi⟩, -, h⟩ := Option.bind_eq_some_iff.mp h
    dsimp only at h
    split_ifs at h
    · obtain rfl := Option.some.inj h
      rfl
    · obtain ⟨link, -, rfl⟩ := Option.map_eq_some_iff.mp h
      rfl
  | analysed =>
    rw [hpc] at h
    obtain ⟨link, -, rfl⟩ := Option.map_eq_some_iff.mp h
    rfl
  | walks tlist =>
    rw [hpc] at h
    dsimp only at h
    split_ifs at h
    · obtain rfl := Option.some.inj h
      rfl
    · obtain ⟨⟨next, tx⟩, -, rfl⟩ := Option.map_eq_some_iff.mp h
      rfl
  | walked =>
    rw [hpc] at h
    obtain rfl := Option.some.inj h
    rfl

theorem arrived_whileWaiting {link : Option Link} (h : s.whileWaiting link = some s') :
    s'.arrived = s.arrived := by
  unfold Threads.whileWaiting at h
  split_ifs at h
  · obtain ⟨link', -, rfl⟩ := Option.map_eq_some_iff.mp h
    rfl
  · obtain rfl := Option.some.inj h
    rfl

/-- A block that the ring has room for arrives whole. -/
theorem arrived_spiTurn {rxbuf : List UInt8} {tq rq : List UInt8} (hok : SpiOk s.spi tq rq)
    (hlen : rxbuf.length = 64) (h : spiTurn s rxbuf = some s')
    (hroom : (s.incoming (.spi rxbuf hlen)).length ≤
      (yxRoundbufSpaceLen s.spi.rxRingBuffer).toNat) :
    s'.arrived = s.arrived ++ s.incoming (.spi rxbuf hlen) := by
  unfold spiTurn at h
  unfold Threads.incoming at hroom ⊢
  dsimp only at h hroom ⊢
  cases hpc : s.spiPc with
  | transfers =>
    rw [hpc] at h
    rw [hpc, if_pos rfl] at hroom
    obtain ⟨n, rb', hput, -, hn⟩ := yxRoundbufPut_fifo hok.rx (show (64 : UInt16).toNat ≤ _ from hlen.ge)
    rw [hput] at h
    obtain rfl := Option.some.inj h
    rw [hok.rx.spaceLen, hlen] at hroom
    have hall : n = 64 := hn.trans (Nat.min_eq_left hroom)
    rw [if_pos rfl]
    change s.arrived ++ rxbuf.take n = _
    rw [hall, List.take_of_length_le hlen.le]
  | notices =>
    rw [hpc] at h
    obtain rfl := Option.some.inj h
    simp
  | tested =>
    rw [hpc] at h
    obtain rfl := Option.some.inj h
    simp [Threads.setTx]
  | flagged =>
    rw [hpc] at h
    obtain rfl := Option.some.inj h
    simp [Threads.setTx]

theorem arrived_step {op : ThreadOp} (hok : ThreadsOk s L) (h : s.step env op = some s')
    (hroom : (s.incoming op).length ≤ (yxRoundbufSpaceLen s.spi.rxRingBuffer).toNat) :
    s'.arrived = s.arrived ++ s.incoming op := by
  have hnone (harr : s'.arrived = s.arrived) : s'.arrived = s.arrived ++ [] := by
    rw [harr, List.append_nil]
  cases op with
  | send args =>
    obtain ⟨r, -, rfl⟩ := Option.map_eq_some_iff.mp h
    exact hnone rfl
  | send2List needAck args =>
    obtain ⟨r, -, rfl⟩ := Option.map_eq_some_iff.mp h
    exact hnone rfl
  | link => exact hnone (arrived_linkTurn h)
  | spi rxbuf hlen =>
    obtain ⟨tq, rq, hspi, -⟩ := hok.rx.ring
    exact arrived_spiTurn hspi hlen h hroom
  | timer msg hmsg => exact hnone (arrived_whileWaiting h)
  | start => exact hnone (arrived_whileWaiting h)
  | reset => exact hnone (arrived_whileWaiting h)
  | sleep => exact hnone (arrived_whileWaiting h)
  | wakeUp => exact hnone (arrived_whileWaiting h)

/-- All that is heard has arrived in the ring. -/
theorem arrived_run (hok : ThreadsOk s L) (hroomy : s.Roomy env ops) :
    ∃ s' L', ops.foldlM (Threads.step env) s = some s' ∧ ThreadsOk s' L' ∧
      s'.arrived = s.arrived ++ s.heard env ops := by
  induction ops generalizing s L with
  | nil => exact ⟨s, L, rfl, hok, (List.append_nil _).symm⟩
  | cons op ops ih =>
    obtain ⟨s₁, L₁, hstep, hok₁⟩ := threadsStep_spec env op hok
    obtain ⟨hroom, hrest⟩ := hroomy
    rw [hstep] at hrest
    obtain ⟨s', L', hrun, hok', harr⟩ := ih hok₁ hrest
    refine ⟨s', L', ?_, hok', ?_⟩
    · rw [List.foldlM_cons, hstep]
      exact hrun
    · rw [harr, arrived_step hok hstep hroom, Threads.heard, hstep, List.append_assoc]

end Heard

/-! ### What is accepted -/

/-- The link thread waits without a message for it, and the SPI thread is before a transfer. -/
structure Quiet (s : Threads) : Prop where
  link : s.linkPc = .waits
  queue : s.link.tx.queue = []
  spi : s.spiPc = .transfers

section Accepted
variable {s : Threads} {L : Lists} {stream : List UInt8}

/-- What has been taken from the ring is a part of the stream that was scanned. -/
theorem passes_stream (h : ThreadsOk s L) (harr : s.arrived <+: stream) :
    ∃ rest, stream = s.taken ++ rest ∧
      refScanner.Passes stream s.link.accepted (received s.link ++ rest) := by
  obtain ⟨tq, rq, -, htaken, -⟩ := h.rx.ring
  obtain ⟨later, rfl⟩ := harr
  refine ⟨rq ++ later, by rw [htaken, List.append_assoc], ?_⟩
  have hpasses := h.rx.passes.append (rq ++ later)
  rwa [← List.append_assoc, ← htaken] at hpasses

theorem accepted_prefix (h : ThreadsOk s L) (harr : s.arrived <+: stream) :
    s.link.accepted <+: refFrames stream := by
  obtain ⟨rest, -, hpasses⟩ := passes_stream h harr
  rw [refFrames, hpasses.scan_eq]
  exact List.prefix_append _ _

/-- The receive buffer is not full between two steps when all frames fit in it. -/
theorem rxLen_ne (h : ThreadsOk s L) (harr : s.arrived <+: stream) (hfit : Fitting stream) :
    s.link.rxLen ≠ 1024 := by
  intro hfull
  obtain ⟨rest, -, hpasses⟩ := passes_stream h harr
  have hlength : (received s.link).length = 1024 := h.link.rx.length_received.trans hfull
  have hwait : scanNext (received s.link) = none := h.link.settled.resolve_left (by omega)
  obtain ⟨hstart, hlong⟩ := scanNext_none hwait (by omega)
  have hvisited : received s.link ++ rest ∈ refScanner.visits stream :=
    hpasses.mem_visits (Scanner.self_mem_visits _)
  have hsmall := hfit _ hvisited (by rwa [startsFrame_append (by omega)])
    (by rw [List.length_append]; omega)
  rw [headLen_append (by omega)] at hsmall
  omega

/-- In a quiet state nothing is left in the ring. -/
theorem taken_of_quiet (h : ThreadsOk s L) (hquiet : Quiet s) (hlen : s.link.rxLen ≠ 1024) :
    s.taken = s.arrived := by
  obtain ⟨tq, rq, -, htaken, hwake⟩ := h.rx.ring
  have hempty : rq = [] := by
    by_contra hne
    rcases hwake hne with hset | hnotifies | hreads | hfull
    · rcases (rxFlag_iff h.rx.bell).mp hset with hmsg | hreceived | hflagged
      · rw [hquiet.queue] at hmsg
        cases hmsg
      · rw [hquiet.link] at hreceived
        cases hreceived
      · rw [hquiet.spi] at hflagged
        cases hflagged
    · rw [hquiet.spi] at hnotifies
      exact absurd hnotifies Bool.false_ne_true
    · rw [hquiet.link] at hreads
      exact absurd hreads Bool.false_ne_true
    · exact hlen hfull
  rw [htaken, hempty, List.append_nil]

/-- In a quiet state the frames that have arrived whole are accepted. -/
theorem accepted_of_quiet (h : ThreadsOk s L) (hquiet : Quiet s) (hlen : s.link.rxLen ≠ 1024) :
    s.link.accepted = refFrames s.arrived := by
  have hpasses := h.rx.passes
  rw [taken_of_quiet h hquiet hlen] at hpasses
  have hrest : refFrames (received s.link) = [] := by
    rcases h.link.settled with hshort | hwait
    · exact refFrames_short (by rwa [h.link.rx.length_received])
    · rw [refFrames, Scanner.scan_wait (S := refScanner) hwait]
  rw [refFrames] at hrest
  rw [refFrames, hpasses.scan_eq, hrest, List.append_nil]

end Accepted

/-- A connect request at the front of a block. -/
def requestBlock : List UInt8 := connectRequest ++ List.replicate 55 0

theorem sendable_connectRequest : Sendable connectRequest := ⟨by decide, by decide⟩

end Tulux.SerialLink
