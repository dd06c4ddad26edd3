import Tulux.SerialLink.Invariants
import Tulux.SerialLink.Threads

/-! No wake-up of the link thread is lost, however its steps interleave with those of the SPI
thread and with the calls of the link. Each of its two messages is a bell. -/
namespace Tulux.SerialLink
open Framing GuardedRun

/-- The link thread has received the message and not cleared its flag. -/
def LinkPc.answers (msg : SerialMsg) : LinkPc → Bool
  | .received m => m == msg
  | _ => false

/-- The SPI thread has set the RX flag and not sent the message. -/
def SpiPc.rings : SpiPc → Bool
  | .flagged => true
  | _ => false

def txBell (s : Threads) : Bell where
  flag := !(s.link.tx.uMsgFlag &&& 2 == 0)
  ringing := false
  queued := s.link.tx.queue.count .txData
  answering := s.linkPc.answers .txData

def rxBell (s : Threads) : Bell where
  flag := !(s.link.tx.uMsgFlag &&& 1 == 0)
  ringing := s.spiPc.rings
  queued := s.link.tx.queue.count .rxRcv
  answering := s.linkPc.answers .rxRcv

/-- The link thread has cleared the TX flag and will send what waits. -/
def LinkPc.sends : LinkPc → Bool
  | .handles .txData => true
  | .walks _ => true
  | .walked => true
  | _ => false

/-- The link thread has cleared the RX flag and will read what is in the ring. -/
def LinkPc.reads : LinkPc → Bool
  | .handles .rxRcv => true
  | .analyses => true
  | _ => false

/-- The SPI thread has put bytes in the ring and will look at the RX flag or set it. -/
def SpiPc.notifies : SpiPc → Bool
  | .notices => true
  | .tested => true
  | _ => false

/-- The link between two steps of the threads. -/
structure LinkSound (s : Threads) (L : Lists) : Prop where
  held : Held s.link.tx L
  rx : RxWf s.link
  settled : Settled s.link
  idle : s.link.next = none
  connected : s.link.curr = .connect → s.link.uConnectFlag = .connect
  agree : s.linkPc ≠ .analyses → s.linkPc ≠ .analysed → s.link.uConnectFlag = .connect →
    s.link.curr = .connect
  place : ∀ tlist, s.linkPc = .walks tlist →
    ∃ xs ys, L .stWaitTxList = xs ++ ys ∧ tlist = walkAt .stWaitTxList ys

/-- Frames that wait on a connected link will be sent. -/
structure TxOk (s : Threads) : Prop where
  bell : (txBell s).Sound
  wake : s.link.curr = .connect → Waits s.link.tx →
    s.link.tx.uMsgFlag &&& 2 ≠ 0 ∨ s.linkPc.sends = true

/-- Bytes in the ring will be read, unless the receive buffer is full; those read before have been
passed over by the parser. -/
structure RxOk (s : Threads) : Prop where
  bell : (rxBell s).Sound
  tested : s.spiPc = .tested → s.link.tx.uMsgFlag &&& 1 = 0
  ring : ∃ tq rq, SpiOk s.spi tq rq ∧ s.arrived = s.taken ++ rq ∧
    (rq ≠ [] → s.link.tx.uMsgFlag &&& 1 ≠ 0 ∨ s.spiPc.notifies = true ∨
      s.linkPc.reads = true ∨ s.link.rxLen = 1024)
  passes : refScanner.Passes s.taken s.link.accepted (received s.link)

structure ThreadsOk (s : Threads) (L : Lists) : Prop where
  link : LinkSound s L
  tx : TxOk s
  rx : RxOk s

/-! ### Changes of a part -/

section Parts
variable {s : Threads} {link' : Link}

theorem Stirs.txBell (hs : Stirs s.link.tx link'.tx) (hb : (txBell s).Sound) :
    (SerialLink.txBell { s with link := link' }).Sound := by
  rcases hs.signal with ⟨hf, hq⟩ | ⟨hf₀, hf, hq⟩
  · simpa [SerialLink.txBell, hf, hq] using hb
  · simpa [SerialLink.txBell, hf, hq, Bell.ring, Bell.set, Bell.send] using
      hb.ring (by simpa [SerialLink.txBell] using hf₀)

/-- The transmit side asks for messages as it should. -/
theorem TxOk.stirs (h : TxOk s) (hs : Stirs s.link.tx link'.tx)
    (hcurr : link'.curr = .connect → s.link.curr = .connect) :
    TxOk { s with link := link' } := by
  refine ⟨hs.txBell h.bell, fun hc hw => ?_⟩
  rcases hs.woken hw with hw | hset
  · refine (h.wake (hcurr hc) hw).imp_left fun hset => ?_
    rcases hs.signal with ⟨hf, -⟩ | ⟨-, hf, -⟩
    · rwa [hf]
    · simp [hf]
  · exact .inl hset

/-- The link thread goes on without a frame that waits falling asleep. -/
theorem TxOk.move {pc : LinkPc} (h : TxOk s) (ha : pc.answers .txData = s.linkPc.answers .txData)
    (hs : s.link.curr = .connect → s.linkPc.sends = true → pc.sends = true) :
    TxOk { s with linkPc := pc } := by
  refine ⟨?_, fun hc hw => (h.wake hc hw).imp_right (hs hc)⟩
  simpa [txBell, ha] using h.bell

/-- The transmit side sends no RX_RCV message. -/
theorem Stirs.rxSide {tx tx' : Tx} (h : Stirs tx tx') :
    tx'.uMsgFlag &&& 1 = tx.uMsgFlag &&& 1 ∧
      tx'.queue.count .rxRcv = tx.queue.count .rxRcv := by
  rcases h.signal with ⟨hf, hq⟩ | ⟨-, hf, hq⟩
  · simp [hf, hq]
  · simp [hf, hq]

theorem received_kept {link : Link} (h : RxKept link link') : received link' = received link := by
  rw [received, received, h.buf, h.len]

theorem RxOk.kept (h : RxOk s) (link' : Link)
    (hf : link'.tx.uMsgFlag &&& 1 = s.link.tx.uMsgFlag &&& 1)
    (hq : link'.tx.queue.count .rxRcv = s.link.tx.queue.count .rxRcv)
    (hk : RxKept s.link link') : RxOk { s with link := link' } := by
  obtain ⟨tq, rq, hok, harr, hwake⟩ := h.ring
  refine ⟨?_, ?_, ⟨tq, rq, hok, harr, ?_⟩, ?_⟩
  · simpa [rxBell, hf, hq] using h.bell
  · simpa [hf] using h.tested
  · simpa [hf, hk.len] using hwake
  · simpa [hk.accepted, received_kept hk] using h.passes

theorem RxOk.stirs (h : RxOk s) (hs : Stirs s.link.tx link'.tx) (hk : RxKept s.link link') :
    RxOk { s with link := link' } :=
  h.kept link' hs.rxSide.1 hs.rxSide.2 hk

theorem RxOk.move {pc : LinkPc} (h : RxOk s) (ha : pc.answers .rxRcv = s.linkPc.answers .rxRcv)
    (hr : s.linkPc.reads = true → pc.reads = true) :
    RxOk { s with linkPc := pc } := by
  obtain ⟨tq, rq, hok, harr, hwake⟩ := h.ring
  refine ⟨?_, h.tested, ⟨tq, rq, hok, harr, fun hne => ?_⟩, h.passes⟩
  · simpa [rxBell, ha] using h.bell
  · rcases hwake hne with hf | hn | hread | hfull
    · exact .inl hf
    · exact .inr (.inl hn)
    · exact .inr (.inr (.inl (hr hread)))
    · exact .inr (.inr (.inr hfull))

end Parts

/-! ### Steps of the link thread -/

section LinkThread
variable {env : Env} {s : Threads} {L : Lists}

theorem LinkSound.frame (h : LinkSound s L) {tx' : Tx} (hf : Frame s.link.tx tx') :
    LinkSound (s.setTx tx') L :=
  ⟨(h.held.frame hf).1, ⟨h.rx.buf, h.rx.len⟩, h.settled, h.idle, h.connected, h.agree, h.place⟩

/-- Another place in the code, where the same holds of the link. -/
theorem LinkSound.move {pc : LinkPc} (h : LinkSound s L) (hw : ∀ tlist, pc ≠ .walks tlist)
    (hr : (pc = .analyses ∨ pc = .analysed) ∨ (s.linkPc ≠ .analyses ∧ s.linkPc ≠ .analysed)) :
    LinkSound { s with linkPc := pc } L := by
  refine ⟨h.held, h.rx, h.settled, h.idle, h.connected, fun h₁ h₂ => ?_,
    fun tlist hp => absurd hp (hw tlist)⟩
  rcases hr with (hr | hr) | hr
  · exact absurd hr h₁
  · exact absurd hr h₂
  · exact h.agree hr.1 hr.2

private theorem queue_frame (tx : Tx) (queue : List SerialMsg) (flag : UInt8) :
    Frame tx { tx with queue := queue, uMsgFlag := flag } :=
  ⟨rfl, fun _ => rfl, rfl, rfl, le_refl _, rfl⟩

/-- The link thread receives a message. -/
theorem linkTurn_waits (h : ThreadsOk s L) (hpc : s.linkPc = .waits) :
    ∃ s', linkTurn env s = some s' ∧ ThreadsOk s' L := by
  rw [linkTurn, hpc]
  cases hq : s.link.tx.queue with
  | nil => exact ⟨s, rfl, h⟩
  | cons msg queue =>
    refine ⟨_, rfl, ?_, ⟨?_, fun hc hw => .inl ?_⟩, ?_⟩
    · exact (h.link.frame (queue_frame s.link.tx queue s.link.tx.uMsgFlag)).move nofun
        (.inr (by simp [hpc]))
    · have hb := h.tx.bell
      by_cases hm : msg = .txData
      · subst hm
        simpa [txBell, Bell.receive, hq, LinkPc.answers] using hb.receive (by simp [txBell, hq])
      · simpa [txBell, hq, hm, hpc, LinkPc.answers, beq_false_of_ne hm] using hb
    · exact (h.tx.wake hc hw).resolve_right (by simp [hpc, LinkPc.sends])
    · obtain ⟨tq, rq, hok, harr, hwake⟩ := h.rx.ring
      refine ⟨?_, h.rx.tested, ⟨tq, rq, hok, harr, fun hne => ?_⟩, h.rx.passes⟩
      · have hb := h.rx.bell
        by_cases hm : msg = .rxRcv
        · subst hm
          simpa [rxBell, Bell.receive, hq, LinkPc.answers] using
            hb.receive (by simp [rxBell, hq])
        · simpa [rxBell, hq, hm, hpc, LinkPc.answers, beq_false_of_ne hm] using hb
      · simpa [hpc, LinkPc.reads] using hwake hne

/-- The link thread clears the flag of the message. -/
theorem linkTurn_received (h : ThreadsOk s L) {msg : SerialMsg} (hpc : s.linkPc = .received msg) :
    ∃ s', linkTurn env s = some s' ∧ ThreadsOk s' L := by
  rw [linkTurn, hpc]
  have hlink : s.linkPc ≠ .analyses ∧ s.linkPc ≠ .analysed := by simp [hpc]
  have hb := h.tx.bell
  have hb' := h.rx.bell
  cases msg with
  | txData =>
    refine ⟨_, rfl, ?_, ⟨?_, fun _ _ => .inr rfl⟩, ?_⟩
    · exact (h.link.frame (queue_frame s.link.tx s.link.tx.queue _)).move (by simp) (.inr hlink)
    · simpa [txBell, Bell.clear, LinkPc.answers] using
        hb.clear (by simp [txBell, hpc, LinkPc.answers])
    · obtain ⟨tq, rq, hok, harr, hwake⟩ := h.rx.ring
      refine ⟨?_, ?_, ⟨tq, rq, hok, harr, fun hne => ?_⟩, h.rx.passes⟩
      · simpa [rxBell, hpc, LinkPc.answers, beq_false_of_ne] using hb'
      · simpa using h.rx.tested
      · simpa [hpc, LinkPc.reads] using hwake hne
  | rxRcv =>
    refine ⟨_, rfl, ?_, ⟨?_, fun hc hw => ?_⟩, ?_⟩
    · exact (h.link.frame (queue_frame s.link.tx s.link.tx.queue _)).move (by simp) (.inr hlink)
    · simpa [txBell, hpc, LinkPc.answers, beq_false_of_ne] using hb
    · simpa [hpc, LinkPc.sends] using h.tx.wake hc hw
    · obtain ⟨tq, rq, hok, harr, hwake⟩ := h.rx.ring
      refine ⟨?_, ?_, ⟨tq, rq, hok, harr, fun _ => .inr (.inr (.inl rfl))⟩, h.rx.passes⟩
      · simpa [rxBell, Bell.clear, LinkPc.answers] using
          hb'.clear (by simp [rxBell, hpc, LinkPc.answers])
      · simp
  | _ =>
    exact ⟨_, rfl, h.link.move (by simp) (.inr hlink),
      h.tx.move (by rw [hpc]; rfl) (by simp [hpc, LinkPc.sends]),
      h.rx.move (by rw [hpc]; rfl) (by simp [hpc, LinkPc.reads])⟩

/-- The handler of the message starts. -/
theorem linkTurn_handles (h : ThreadsOk s L) {msg : SerialMsg} (hpc : s.linkPc = .handles msg) :
    ∃ s', linkTurn env s = some s' ∧ ThreadsOk s' L := by
  have hlink : s.linkPc ≠ .analyses ∧ s.linkPc ≠ .analysed := by simp [hpc]
  have ends (hne : msg ≠ .rxRcv) (hc : msg = .txData → s.link.curr ≠ .connect) :
      ThreadsOk { s with linkPc := .waits } L := by
    refine ⟨h.link.move nofun (.inr hlink), h.tx.move (by rw [hpc]; rfl) fun hconn => ?_,
      h.rx.move (by rw [hpc]; rfl) ?_⟩
    · have hmsg : msg ≠ .txData := fun hm => hc hm hconn
      cases msg <;> simp_all [LinkPc.sends]
    · cases msg <;> simp_all [LinkPc.reads]
  rw [linkTurn, hpc]
  cases msg with
  | rxRcv =>
    exact ⟨_, rfl, h.link.move nofun (.inr hlink),
      h.tx.move (by rw [hpc]; rfl) (by simp [hpc, LinkPc.sends]),
      h.rx.move (by rw [hpc]; rfl) fun _ => rfl⟩
  | txData =>
    cases hc : s.link.curr with
    | disconnect => exact ⟨_, by simp, ends nofun (by simp [hc])⟩
    | connect =>
      have hflag := h.link.connected hc
      refine ⟨{ s with linkPc := .walks (s.link.tx.links.next (.head .stWaitTxList)) },
        by simp [hflag], ?_, h.tx.move (by rw [hpc]; rfl) fun _ _ => rfl,
        h.rx.move (by rw [hpc]; rfl) (by simp [hpc, LinkPc.reads])⟩
      refine ⟨h.link.held, h.link.rx, h.link.settled, h.link.idle, h.link.connected,
        fun _ _ _ => hc, fun tlist hp => ⟨[], L .stWaitTxList, rfl, ?_⟩⟩
      rw [← h.link.held.shape.walk_start]
      exact (LinkPc.walks.inj hp).symm
  | _ => exact ⟨_, rfl, ends nofun nofun⟩

/-- One pass of the receive loop. -/
theorem linkTurn_analyses (h : ThreadsOk s L) (hpc : s.linkPc = .analyses) :
    ∃ s' L', linkTurn env s = some s' ∧ ThreadsOk s' L' := by
  obtain ⟨link, spi, linkPc, spiPc, arrived, taken⟩ := s
  dsimp only at hpc
  subst hpc
  obtain ⟨tq, rq, hok, harr, hwake⟩ := h.rx.ring
  have hroom : link.rxLen ≤ 1024 := h.link.rx.len
  have hlen : (UInt32.ofNat (1024 - link.rxLen)).toNat = 1024 - link.rxLen := by
    rw [UInt32.toNat_ofNat']
    omega
  obtain ⟨spi', hread, hok'⟩ := yxSpiDrvRead_spec hok (by rw [hlen]; omega)
  rw [hlen] at hread hok'
  dsimp only [linkTurn] at hread ⊢
  rw [hread, Option.bind_some]
  dsimp only
  split_ifs with hnil
  · -- nothing is left, or the buffer is full
    have hstop : 1024 - link.rxLen = 0 ∨ rq = [] := List.take_eq_nil_iff.mp hnil
    have hdrop : rq.drop (1024 - link.rxLen) = rq := by
      rcases hstop with hz | hz <;> simp [hz]
    have hlink : LinkSound ⟨link, spi', .analysed, spiPc, arrived, taken⟩ L :=
      ⟨h.link.held, h.link.rx, h.link.settled, h.link.idle, h.link.connected,
        fun _ hne => absurd rfl hne, nofun⟩
    refine ⟨_, L, rfl, hlink, ⟨h.tx.bell, h.tx.wake⟩, h.rx.bell, h.rx.tested,
      ⟨tq, rq, hdrop ▸ hok', harr, fun hne => .inr (.inr (.inr ?_))⟩, h.rx.passes⟩
    have hfull := hstop.resolve_right hne
    dsimp only
    omega
  · obtain ⟨link', L', fs, hrun, hkeep, heff, hrx, hset, hpass⟩ := rxPass_spec env h.link.rx
      (List.length_take_le _ _) h.link.held
    have hstirs := rxPass_stirs h.link.held hrun
    obtain ⟨hflag, hqueue⟩ := hstirs.rxSide
    have htx := h.tx.stirs hstirs fun hc => heff.curr ▸ hc
    dsimp only at hrun hflag hqueue htx
    refine ⟨⟨link', spi', .analyses, spiPc, arrived, taken ++ rq.take (1024 - link.rxLen)⟩, L',
      by rw [hrun, Option.map_some], ⟨hkeep.1, hrx, hset, heff.next.trans h.link.idle,
      fun hc => ?_, fun hne => absurd rfl hne, nofun⟩, ⟨htx.bell, htx.wake⟩, ?_, ?_,
      ⟨tq, _, hok', ?_, fun _ => .inr (.inr (.inl rfl))⟩, ?_⟩
    · have hf := h.link.connected (heff.curr ▸ hc)
      rw [heff.flag, hf, ite_self]
    · simpa [rxBell, hflag, hqueue] using h.rx.bell
    · simpa [hflag] using h.rx.tested
    · rw [harr, List.append_assoc, List.take_append_drop]
    · have hp := (h.rx.passes.append (rq.take (1024 - link.rxLen))).trans hpass
      rwa [← heff.accepted] at hp

/-- The end of the handlers of RX_RCV. -/
theorem afterAnalyse_spec (env : Env) {link : Link} (hheld : Held link.tx L) (hidle : link.next = none)
    (hconn : link.curr = .connect → link.uConnectFlag = .connect) :
    ∃ link' L', afterAnalyse env link = some link' ∧ Held link'.tx L' ∧
      Stirs link.tx link'.tx ∧ RxKept link link' ∧ link'.next = none ∧
      (link'.curr = .connect ↔ link'.uConnectFlag = .connect) ∧
      (link'.curr = .connect → link.curr ≠ .connect → Waits link'.tx →
        link'.tx.uMsgFlag &&& 2 ≠ 0) := by
  have hstay : takeTransition true link = link := by rw [takeTransition, if_pos rfl, hidle]
  unfold afterAnalyse
  split
  · rename_i hc
    split_ifs with hf
    · obtain ⟨tx', L', hrun, hkeep⟩ := statetrans_connect env hheld hc
      obtain ⟨entered, htrans, heq⟩ := Option.map_eq_some_iff.mp hrun
      obtain ⟨-, hnext, hkept⟩ := statetrans_same htrans
      have htake : takeTransition true entered =
          { stateEntry .connect entered with curr := .connect, next := none } := by
        rw [takeTransition, if_pos rfl, hnext]
      have hstirs := (statetrans_stirs htrans).trans (takeTransition_stirs true entered)
      have hrx := hkept.trans (takeTransition_rxKept true entered)
      have hwoken : Waits (takeTransition true entered).tx →
          (takeTransition true entered).tx.uMsgFlag &&& 2 ≠ 0 := by
        rw [htake]
        exact stateEntry_connect_flag
      rw [heq] at hstirs hrx hwoken
      exact ⟨_, L', hrun, hkeep.1, hstirs, hrx, rfl, by simp, fun _ _ => hwoken⟩
    · refine ⟨link, L, by rw [hstay], hheld, .refl _, .refl _, hidle, ?_, fun hc' => ?_⟩
      · simp [hc, hf]
      · simp [hc] at hc'
  · rename_i hc
    refine ⟨link, L, by rw [hstay], hheld, .refl _, .refl _, hidle, ?_, fun _ hne => absurd hc hne⟩
    simp [hc, hconn hc]

theorem linkTurn_analysed (h : ThreadsOk s L) (hpc : s.linkPc = .analysed) :
    ∃ s' L', linkTurn env s = some s' ∧ ThreadsOk s' L' := by
  obtain ⟨link, spi, linkPc, spiPc, arrived, taken⟩ := s
  dsimp only at hpc
  subst hpc
  obtain ⟨link', L', hrun, hheld, hstirs, hrx, hidle, hagree, hwoken⟩ :=
    afterAnalyse_spec env h.link.held h.link.idle h.link.connected
  have hrec := received_kept hrx
  have htx : TxOk ⟨link', spi, .waits, spiPc, arrived, taken⟩ := by
    refine ⟨?_, fun hc hw => .inl ?_⟩
    · exact hstirs.txBell h.tx.bell
    · by_cases hconn : link.curr = .connect
      · exact ((h.tx.stirs hstirs fun _ => hconn).wake hc hw).resolve_right Bool.false_ne_true
      · exact hwoken hc hconn hw
  have hrx' := h.rx.stirs hstirs hrx
  refine ⟨⟨link', spi, .waits, spiPc, arrived, taken⟩, L', by rw [linkTurn, hrun]; rfl,
    ⟨hheld, ⟨?_, ?_⟩, ?_, hidle, hagree.mp, fun _ _ => hagree.mpr, nofun⟩, htx,
    ⟨hrx'.bell, hrx'.tested, hrx'.ring, hrx'.passes⟩⟩
  · rw [hrx.buf]
    exact h.link.rx.buf
  · rw [hrx.len]
    exact h.link.rx.len
  · have hset := h.link.settled
    rwa [Settled, hrx.len, hrec]

/-- One turn of the walk over the frames that wait. -/
theorem linkTurn_walks (h : ThreadsOk s L) {tlist : Option Addr} (hpc : s.linkPc = .walks tlist) :
    ∃ s' L', linkTurn env s = some s' ∧ ThreadsOk s' L' := by
  obtain ⟨link, spi, linkPc, spiPc, arrived, taken⟩ := s
  dsimp only at hpc
  subst hpc
  obtain ⟨xs, ys, hk, rfl⟩ := h.link.place tlist rfl
  have hagree := h.link.agree nofun nofun
  cases ys with
  | nil =>
    refine ⟨⟨link, spi, .walked, spiPc, arrived, taken⟩, L, ?_,
      h.link.move nofun (.inr ⟨nofun, nofun⟩), h.tx.move rfl fun _ _ => rfl, h.rx.move rfl nofun⟩
    simp [linkTurn, walkAt_nil]
  | cons i ys =>
    obtain ⟨next, tx', L', hturn, ht⟩ := waittxTurn_spec env h.link.held hk
    obtain ⟨hf, hq⟩ := ht.signals
    obtain ⟨pc, hrun, hplace, hsends, hanswers⟩ : ∃ pc, linkTurn env
          ⟨link, spi, .walks (walkAt .stWaitTxList (i :: ys)), spiPc, arrived, taken⟩ =
        some ⟨{ link with tx := tx' }, spi, pc, spiPc, arrived, taken⟩ ∧
        (∀ tlist, pc = .walks tlist →
          ∃ xs ys, L' .stWaitTxList = xs ++ ys ∧ tlist = walkAt .stWaitTxList ys) ∧
        pc.sends = true ∧ ∀ msg, pc.answers msg = false := by
      rw [walkAt_cons]
      by_cases htake : Takes env link.tx (nodeFrame link.tx i)
      · obtain ⟨rfl, hL⟩ := ht.taken htake
        exact ⟨.walks (walkAt .stWaitTxList ys), by simp [linkTurn, hturn, Threads.setTx],
          fun tlist hp => ⟨xs, ys, hL, (LinkPc.walks.inj hp).symm⟩, rfl, fun _ => rfl⟩
      · obtain ⟨rfl, -⟩ := ht.refused htake
        exact ⟨.walked, by simp [linkTurn, hturn, Threads.setTx], nofun, rfl, fun _ => rfl⟩
    have hstays : ∀ msg, LinkPc.answers msg (.walks (walkAt .stWaitTxList (i :: ys))) = false :=
      fun _ => rfl
    have hrx := h.rx.kept { link with tx := tx' } (by rw [hf]) (by rw [hq]) ⟨rfl, rfl, rfl⟩
    refine ⟨_, L', hrun, ⟨ht.keeps.1, ⟨h.link.rx.buf, h.link.rx.len⟩, h.link.settled,
      h.link.idle, h.link.connected, fun _ _ => hagree, hplace⟩,
      ⟨?_, fun _ _ => .inr hsends⟩, hrx.move (hanswers _) nofun⟩
    simpa [txBell, hf, hq, hanswers, hstays] using h.tx.bell

/-- Behind the walk. -/
theorem linkTurn_walked (h : ThreadsOk s L) (hpc : s.linkPc = .walked) :
    ∃ s', linkTurn env s = some s' ∧ ThreadsOk s' L := by
  obtain ⟨link, spi, linkPc, spiPc, arrived, taken⟩ := s
  dsimp only at hpc
  subst hpc
  have hagree := h.link.agree (by simp) (by simp)
  by_cases he : yxListEmpty link.tx.links (.head .stWaitTxList) = true
  · refine ⟨⟨link, spi, .waits, spiPc, arrived, taken⟩, by simp [linkTurn, he, Threads.setTx],
      h.link.move (by simp) (.inr ⟨by simp, by simp⟩), ⟨h.tx.bell, fun _ hw => ?_⟩,
      h.rx.move rfl (by simp [LinkPc.reads])⟩
    simp [Waits, he] at hw
  · let link' : Link := { link with tx := sendTxReqMsg link.tx }
    have hstirs : Stirs link.tx link'.tx := sendTxReqMsg_stirs rfl rfl
    have hlink := h.link.frame (sendTxReqMsg_frame link.tx)
    have hrx := h.rx.stirs hstirs ⟨rfl, rfl, rfl⟩
    exact ⟨⟨link', spi, .waits, spiPc, arrived, taken⟩, by simp [linkTurn, he, Threads.setTx, link'],
      hlink.move (by simp) (.inr ⟨by simp, by simp⟩),
      ⟨hstirs.txBell h.tx.bell, fun _ _ => .inl (sendTxReqMsg_flag _)⟩,
      hrx.move rfl (by simp [LinkPc.reads])⟩

theorem linkTurn_spec (env : Env) (h : ThreadsOk s L) :
    ∃ s' L', linkTurn env s = some s' ∧ ThreadsOk s' L' := by
  cases hpc : s.linkPc with
  | waits => exact (linkTurn_waits h hpc).imp fun _ hs => ⟨L, hs⟩
  | received msg => exact (linkTurn_received h hpc).imp fun _ hs => ⟨L, hs⟩
  | handles msg => exact (linkTurn_handles h hpc).imp fun _ hs => ⟨L, hs⟩
  | analyses => exact linkTurn_analyses h hpc
  | analysed => exact linkTurn_analysed h hpc
  | walks tlist => exact linkTurn_walks h hpc
  | walked => exact (linkTurn_walked h hpc).imp fun _ hs => ⟨L, hs⟩

end LinkThread

/-! ### Steps of the SPI thread -/

section SpiThread
variable {s : Threads} {L : Lists}

theorem LinkSound.spi (h : LinkSound s L) {tx' : Tx} (hf : Frame s.link.tx tx')
    (spi' : YxSpiDrv) (pc : SpiPc) (arrived' : List UInt8) :
    LinkSound { s.setTx tx' with spi := spi', spiPc := pc, arrived := arrived' } L :=
  have hframe := h.frame hf
  ⟨hframe.held, hframe.rx, hframe.settled, hframe.idle, hframe.connected, hframe.agree,
    hframe.place⟩

/-- The SPI thread leaves the transmit side alone but for the queue and its flag. -/
theorem TxOk.spi (h : TxOk s) (tx' : Tx) (hf : tx'.uMsgFlag &&& 2 = s.link.tx.uMsgFlag &&& 2)
    (hq : tx'.queue.count .txData = s.link.tx.queue.count .txData)
    (hl : tx'.links = s.link.tx.links) (spi' : YxSpiDrv) (pc : SpiPc) (arrived' : List UInt8) :
    TxOk { s.setTx tx' with spi := spi', spiPc := pc, arrived := arrived' } := by
  refine ⟨?_, ?_⟩
  · simpa [txBell, hf, hq] using h.bell
  · simpa [Waits, hf, hl] using h.wake

theorem spiTurn_spec (h : ThreadsOk s L) {rxbuf : List UInt8} (hlen : rxbuf.length = 64) :
    ∃ s', spiTurn s rxbuf = some s' ∧ ThreadsOk s' L := by
  obtain ⟨link, spi, linkPc, spiPc, arrived, taken⟩ := s
  obtain ⟨tq, rq, hok, harr, hwake⟩ := h.rx.ring
  have hb := h.rx.bell
  cases spiPc with
  | transfers =>
    have hle : (64 : UInt16).toNat ≤ rxbuf.length := hlen.ge
    obtain ⟨n, rb', hput, hs, -⟩ := yxRoundbufPut_fifo hok.rx hle
    refine ⟨⟨link, { spi with rxRingBuffer := rb' }, linkPc, .notices, arrived ++ rxbuf.take n,
      taken⟩, by simp only [spiTurn, hput, Option.map_some],
      h.link.spi (.refl _) _ _ _, h.tx.spi link.tx rfl rfl rfl _ _ _, hb, (by simp),
      ⟨tq, rq ++ rxbuf.take n, ⟨hok.tx, hs.fifo, hok.txSize, hs.size.trans hok.rxSize⟩, ?_,
        fun _ => .inr (.inl rfl)⟩, h.rx.passes⟩
    rw [← List.append_assoc, ← harr]
  | notices =>
    by_cases hf : link.tx.uMsgFlag &&& 1 = 0
    · refine ⟨⟨link, spi, linkPc, .tested, arrived, taken⟩, by simp [spiTurn, hf],
        h.link.spi (.refl _) _ _ _, h.tx.spi link.tx rfl rfl rfl _ _ _, hb, fun _ => hf,
        ⟨tq, rq, hok, harr, fun _ => .inr (.inl rfl)⟩, h.rx.passes⟩
    · exact ⟨⟨link, spi, linkPc, .transfers, arrived, taken⟩, by simp [spiTurn, hf],
        h.link.spi (.refl _) _ _ _, h.tx.spi link.tx rfl rfl rfl _ _ _, hb, (by simp),
        ⟨tq, rq, hok, harr, fun _ => .inl hf⟩, h.rx.passes⟩
  | tested =>
    refine ⟨_, rfl, h.link.spi (queue_frame link.tx link.tx.queue _) _ _ _,
      h.tx.spi { link.tx with uMsgFlag := link.tx.uMsgFlag ||| 1 } (by simp) rfl rfl
        _ _ _, ?_, (by simp),
      ⟨tq, rq, hok, harr, fun _ => .inl (by simp)⟩, h.rx.passes⟩
    simpa [rxBell, SpiPc.rings, Bell.set] using hb.set (by simpa [rxBell] using h.rx.tested rfl)
  | flagged =>
    refine ⟨_, rfl, h.link.spi (queue_frame link.tx _ link.tx.uMsgFlag) _ _ _,
      h.tx.spi { link.tx with queue := link.tx.queue ++ [.rxRcv] } rfl (by simp) rfl
        _ _ _, ?_, (by simp), ⟨tq, rq, hok, harr, fun hne => ?_⟩,
      h.rx.passes⟩
    · simpa [rxBell, SpiPc.rings, Bell.send] using hb.send rfl
    · exact (hwake hne).imp_right fun hn => .inr (hn.resolve_left (by simp [SpiPc.notifies]))

end SpiThread

/-! ### Calls of the link -/

section Calls
variable {env : Env} {s : Threads} {L L' : Lists}

theorem walkAt_prefix {xs ys zs : List (Fin 40)} (h : xs ++ ys <+: zs) :
    ∃ xs' ys', zs = xs' ++ ys' ∧ walkAt .stWaitTxList ys = walkAt .stWaitTxList ys' := by
  obtain ⟨ws, rfl⟩ := h
  cases ys with
  | nil => exact ⟨xs ++ [] ++ ws, [], by simp, rfl⟩
  | cons i ys => exact ⟨xs, i :: ys ++ ws, by simp, by simp [walkAt_cons]⟩

/-- A send appends to the wait-to-send list, also while the link thread walks over it. -/
theorem ThreadsOk.sends (h : ThreadsOk s L) {tx' : Tx} (hheld : Held tx' L')
    (hstirs : Stirs s.link.tx tx') (hpre : L .stWaitTxList <+: L' .stWaitTxList) :
    ThreadsOk (s.setTx tx') L' := by
  let link' : Link := { s.link with tx := tx' }
  have hs : Stirs s.link.tx link'.tx := hstirs
  refine ⟨⟨hheld, ⟨h.link.rx.buf, h.link.rx.len⟩, h.link.settled, h.link.idle, h.link.connected,
    h.link.agree, fun tlist hp => ?_⟩, h.tx.stirs hs id, h.rx.stirs hs ⟨rfl, rfl, rfl⟩⟩
  obtain ⟨xs, ys, hk, rfl⟩ := h.link.place tlist hp
  exact walkAt_prefix (hk ▸ hpre)

theorem LinkSound.ok (h : LinkSound s L) (hpc : s.linkPc = .waits) : LinkOk s.link L :=
  ⟨h.held, h.rx, h.settled, h.idle, h.connected, h.agree (by simp [hpc]) (by simp [hpc])⟩

/-- The link thread waits, and the link does not become connected. -/
theorem ThreadsOk.whileWaiting (h : ThreadsOk s L) {run : Option Link}
    (hrun : s.linkPc = .waits → ∃ link' L', run = some link' ∧ LinkOk link' L' ∧
      Stirs s.link.tx link'.tx ∧ RxKept s.link link' ∧
      (link'.curr = .connect → s.link.curr = .connect)) :
    ∃ s' L', s.whileWaiting run = some s' ∧ ThreadsOk s' L' := by
  unfold Threads.whileWaiting
  split_ifs with hpc
  · obtain ⟨link', L', rfl, hok, hstirs, hkept, hcurr⟩ := hrun hpc
    refine ⟨{ s with link := link' }, L', rfl, ⟨hok.held, hok.rx, hok.settled, hok.idle,
      hok.agree.mp, fun _ _ => hok.agree.mpr, fun tlist hp => ?_⟩, h.tx.stirs hstirs hcurr,
      h.rx.stirs hstirs hkept⟩
    simp [hpc] at hp
  · exact ⟨s, L, rfl, h⟩

private theorem yxSerialLinkStart_same (link : Link) : (yxSerialLinkStart link).tx = link.tx ∧
    RxKept link (yxSerialLinkStart link) ∧ (yxSerialLinkStart link).curr = link.curr := by
  unfold yxSerialLinkStart fsmOnStart
  split_ifs with hc
  · exact ⟨rfl, .refl _, rfl⟩
  · simp only [not_not] at hc
    rw [hc]
    exact ⟨rfl, ⟨rfl, rfl, rfl⟩, rfl⟩

private theorem start_whileWaiting (env : Env) (h : ThreadsOk s L) :
    ∃ s' L', s.whileWaiting (some (yxSerialLinkStart s.link)) = some s' ∧ ThreadsOk s' L' := by
  refine h.whileWaiting fun hpc => ?_
  obtain ⟨link', L', hrun, hspec⟩ := linkStep_spec env .start (h.link.ok hpc)
  cases hrun
  obtain ⟨htx, hkept, hcurr⟩ := yxSerialLinkStart_same s.link
  exact ⟨_, L', rfl, hspec.ok, .same (by rw [htx]) (by rw [htx]) (by rw [htx]), hkept,
    fun hc => hcurr ▸ hc⟩

/-- The lists are empty behind a reset. -/
private theorem reset_whileWaiting (h : ThreadsOk s L) {run : Option Link}
    (hrun : s.linkPc = .waits → ∃ tx', listReset s.link.tx = some tx' ∧ run = some { s.link with
      tx := tx', uConnectFlag := .disconnect, curr := .disconnect, next := none }) :
    ∃ s' L', s.whileWaiting run = some s' ∧ ThreadsOk s' L' := by
  refine h.whileWaiting fun hpc => ?_
  obtain ⟨tx', hreset, rfl⟩ := hrun hpc
  obtain ⟨tx₁, hreset₁, hkeep, hflag, hqueue⟩ := listReset_keeps h.link.held
  cases hreset.symm.trans hreset₁
  refine ⟨_, allFree, rfl, ⟨hkeep.1, ⟨h.link.rx.buf, h.link.rx.len⟩, h.link.settled, rfl, ?_⟩,
    ⟨.inl ⟨hflag, hqueue⟩, fun hw => ?_⟩, ⟨rfl, rfl, rfl⟩, nofun⟩
  · simp
  · exact absurd rfl (hkeep.1.shape.waits_iff.mp hw)

theorem threadsStep_spec (env : Env) (op : ThreadOp) (h : ThreadsOk s L) :
    ∃ s' L', s.step env op = some s' ∧ ThreadsOk s' L' := by
  cases op with
  | send args =>
    obtain ⟨sta, tx', L', hrun, hkeep, -, -, -, hpre⟩ :=
      yxSerialLinkSend_spec env args h.link.held
    exact ⟨s.setTx tx', L', by simp [Threads.step, hrun],
      h.sends hkeep.1 (stirs_sendRule.send hrun) hpre⟩
  | send2List needAck args =>
    obtain ⟨sta, tx', L', hrun, hkeep, -, -, hpre⟩ := yxSerialLinkSend2List_spec env
      (s.link.uConnectFlag = .connect) needAck args h.link.held
    exact ⟨s.setTx tx', L', by simp [Threads.step, hrun],
      h.sends hkeep.1 (stirs_sendRule.send2List hrun) hpre⟩
  | link => exact linkTurn_spec env h
  | spi rxbuf hlen =>
    obtain ⟨s', hrun, hok⟩ := spiTurn_spec h hlen
    exact ⟨s', L, hrun, hok⟩
  | timer msg hmsg =>
    refine h.whileWaiting fun hpc => ?_
    obtain ⟨link', L', hrun, hspec⟩ := linkStep_spec env (.handle msg []) (h.link.ok hpc)
    obtain ⟨hstirs, hkept, hcurr⟩ :=
      handle_timer h.link.held h.link.idle hmsg.1 hmsg.2 hrun
    exact ⟨link', L', hrun, hspec.ok, hstirs, hkept, hcurr⟩
  | start => exact start_whileWaiting env h
  | wakeUp => exact start_whileWaiting env h
  | reset =>
    refine reset_whileWaiting h fun _ => ?_
    obtain ⟨tx', hrun, -⟩ := listReset_keeps h.link.held
    exact ⟨tx', hrun, by rw [yxSerialLinkReset, hrun]; rfl⟩
  | sleep =>
    refine reset_whileWaiting h fun _ => ?_
    obtain ⟨tx', hrun, -⟩ := listReset_keeps h.link.held
    exact ⟨tx', hrun, by rw [yxSerialLinkSleep, hrun]; rfl⟩

end Calls

/-! ### Runs -/

theorem threadsInit_ok (env : Env) : ∃ s L, Threads.init env = some s ∧ ThreadsOk s L := by
  obtain ⟨link, L, hinit, hok, -, -, hlen, -⟩ := init_spec env
  obtain ⟨l, -, h⟩ := Option.bind_eq_some_iff.mp hinit
  obtain ⟨⟨sta, tx⟩, hsend, rfl⟩ := Option.map_eq_some_iff.mp h
  have hstirs := stirs_sendRule.send hsend
  obtain ⟨hflag, hqueue⟩ := hstirs.rxSide
  have hf₀ : (zeroTx l).uMsgFlag = 0 := rfl
  have hq₀ : (zeroTx l).queue = [] := rfl
  refine ⟨⟨_, yxSpiDrvInit, .waits, .transfers, [], []⟩, L,
    by rw [Threads.init, hinit, Option.map_some], ⟨hok.held, hok.rx, hok.settled,
    hok.idle, hok.agree.mp, fun _ _ => hok.agree.mpr, nofun⟩, ⟨?_, nofun⟩, ?_, nofun,
    ⟨[], [], yxSpiDrvInit_ok, rfl, fun hne => absurd rfl hne⟩, ?_⟩
  · rcases hstirs.signal with ⟨hf, hq⟩ | ⟨-, hf, hq⟩
    · simp [txBell, hf, hq, hf₀, hq₀, Bell.Sound, LinkPc.answers]
    · simp [txBell, hf, hq, hf₀, hq₀, Bell.Sound, LinkPc.answers]
  · simp [rxBell, hflag, hqueue, hf₀, hq₀, Bell.Sound, LinkPc.answers, SpiPc.rings]
  · simpa [received] using Scanner.Passes.refl (S := refScanner) []

theorem threadsRun_ok (env : Env) (ops : List ThreadOp) :
    ∃ s L, Threads.run env ops = some s ∧ ThreadsOk s L := by
  obtain ⟨s, L, hinit, hok⟩ := threadsInit_ok env
  have hstep (s : Threads) (op : ThreadOp) (h : ∃ L, ThreadsOk s L) :
      ∃ s', s.step env op = some s' ∧ ∃ L', ThreadsOk s' L' := by
    obtain ⟨L, h⟩ := h
    obtain ⟨s', L', hstep, h'⟩ := threadsStep_spec env op h
    exact ⟨s', hstep, L', h'⟩
  obtain ⟨s', hrun, L', hok'⟩ := foldlM_keeps (fun s op (_ : op ∈ ops) => hstep s op) ⟨L, hok⟩
  exact ⟨s', L', by rw [Threads.run, hinit, Option.bind_some, hrun], hok'⟩

section Wakeups
variable {s : Threads}

private theorem answers_iff (pc : LinkPc) (msg : SerialMsg) :
    pc.answers msg = true ↔ pc = .received msg := by
  cases pc <;> simp [LinkPc.answers]

theorem txFlag_iff (h : (txBell s).Sound) : s.link.tx.uMsgFlag &&& 2 ≠ 0 ↔
    .txData ∈ s.link.tx.queue ∨ s.linkPc = .received .txData := by
  simpa [txBell, answers_iff, List.count_pos_iff] using h.flag_iff

theorem rxFlag_iff (h : (rxBell s).Sound) : s.link.tx.uMsgFlag &&& 1 ≠ 0 ↔
    .rxRcv ∈ s.link.tx.queue ∨ s.linkPc = .received .rxRcv ∨ s.spiPc = .flagged := by
  have hrings : s.spiPc.rings = true ↔ s.spiPc = .flagged := by
    cases s.spiPc <;> simp [SpiPc.rings]
  have hiff := h.flag_iff
  simp only [rxBell, answers_iff, hrings, List.count_pos_iff] at hiff
  rw [or_comm (a := s.linkPc = _), ← hiff]
  simp

end Wakeups

/-- No wake-up for frames that wait is lost. The TX flag is set from the sending of a TX_DATA
message until the link thread clears it behind msgrcv. -/
theorem transmit_wakeUp (env : Env) (ops : List ThreadOp) :
    ∃ s, Threads.run env ops = some s ∧
      (s.link.curr = .connect → s.link.uConnectFlag = .connect → Waits s.link.tx →
        .txData ∈ s.link.tx.queue ∨ s.linkPc = .received .txData ∨ s.linkPc.sends = true) ∧
      (s.link.tx.uMsgFlag &&& 2 ≠ 0 ↔
        .txData ∈ s.link.tx.queue ∨ s.linkPc = .received .txData) := by
  obtain ⟨s, L, hrun, hok⟩ := threadsRun_ok env ops
  have hflag := txFlag_iff hok.tx.bell
  refine ⟨s, hrun, fun hc _ hw => ?_, hflag⟩
  rcases hok.tx.wake hc hw with hset | hsends
  · exact (hflag.mp hset).imp_right .inl
  · exact .inr (.inr hsends)

/-- The driver takes nothing. -/
def deafEnv : Env := { acceptingEnv with hwSend := fun _ => false }

/-- Behind msgrcv the TX flag is set, and no message is in the queue. -/
theorem txFlag_behind_msgrcv :
    ∃ s, Threads.run deafEnv [.link] = some s ∧ s.link.tx.uMsgFlag &&& 2 ≠ 0 ∧
      .txData ∉ s.link.tx.queue := by
  have hview : (Threads.run deafEnv [.link]).map (fun s =>
      (s.link.tx.uMsgFlag, s.link.tx.queue)) = some (2, []) := by
    decide +kernel
  obtain ⟨s, hrun, heq⟩ := Option.map_eq_some_iff.mp hview
  simp only [Prod.mk.injEq] at heq
  exact ⟨s, hrun, by simp [heq.1], by simp [heq.2]⟩

/-- No wake-up for received bytes is lost: while the link thread waits with bytes in the ring, a
message is in the queue, the receive buffer is full, or the SPI thread is in its notice. The RX
flag is set from the notice until the link thread clears it behind msgrcv. The bytes given to the
parser are those that arrived, in order. -/
theorem receive_wakeUp (env : Env) (ops : List ThreadOp) :
    ∃ s, Threads.run env ops = some s ∧
      (s.linkPc = .waits → storedBytes s.spi.rxRingBuffer ≠ [] →
        .rxRcv ∈ s.link.tx.queue ∨ s.link.rxLen = 1024 ∨ s.spiPc ≠ .transfers) ∧
      (s.link.tx.uMsgFlag &&& 1 ≠ 0 ↔ .rxRcv ∈ s.link.tx.queue ∨
        s.linkPc = .received .rxRcv ∨ s.spiPc = .flagged) ∧
      s.arrived = s.taken ++ storedBytes s.spi.rxRingBuffer ∧
      refScanner.Passes s.taken s.link.accepted (received s.link) := by
  obtain ⟨s, L, hrun, hok⟩ := threadsRun_ok env ops
  have hflag := rxFlag_iff hok.rx.bell
  obtain ⟨tq, rq, hspi, harr, hwake⟩ := hok.rx.ring
  rw [← hspi.rx.storedBytes] at harr hwake
  refine ⟨s, hrun, fun hpc hne => ?_, hflag, harr, hok.rx.passes⟩
  rcases hwake hne with hset | hnotifies | hreads | hfull
  · rcases hflag.mp hset with hq | hreceived | hflagged
    · exact .inl hq
    · simp [hpc] at hreceived
    · exact .inr (.inr (by simp [hflagged]))
  · refine .inr (.inr fun htransfers => ?_)
    simp [htransfers, SpiPc.notifies] at hnotifies
  · simp [hpc, LinkPc.reads] at hreads
  · exact .inr (.inl hfull)

/-- A step of the SPI thread whose transfer receives zeros. -/
def zerosTurn : ThreadOp := .spi (List.replicate 64 0) List.length_replicate

/-- Within the notice the flag is set, and the message is not in the queue yet. -/
theorem rxFlag_within_notice :
    ∃ s, Threads.run acceptingEnv [zerosTurn, zerosTurn, zerosTurn] = some s ∧
      s.linkPc = .waits ∧ storedBytes s.spi.rxRingBuffer ≠ [] ∧ s.link.rxLen ≠ 1024 ∧
      s.link.tx.uMsgFlag &&& 1 ≠ 0 ∧ .rxRcv ∉ s.link.tx.queue := by
  have hview : (Threads.run acceptingEnv [zerosTurn, zerosTurn, zerosTurn]).map (fun s =>
      (s.linkPc, (storedBytes s.spi.rxRingBuffer).length, s.link.rxLen, s.link.tx.uMsgFlag,
        s.link.tx.queue)) = some (.waits, 64, 0, 1, []) := by
    decide +kernel
  obtain ⟨s, hrun, heq⟩ := Option.map_eq_some_iff.mp hview
  simp only [Prod.mk.injEq] at heq
  obtain ⟨hpc, hlen, hrx, hflag, hqueue⟩ := heq
  refine ⟨s, hrun, hpc, ?_, by simp [hrx], by simp [hflag], by simp [hqueue]⟩
  exact List.ne_nil_of_length_pos (by omega)

end Tulux.SerialLink
