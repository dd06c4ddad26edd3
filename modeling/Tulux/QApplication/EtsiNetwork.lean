import Tulux.QApplication.EtsiApplication
import Tulux.GeoNetRouter.HopLimits
import Tulux.GeoNetRouter.QueueContents
import Tulux.GeoNetRouter.SentFrames

/-! Stations that hear each other. A frame that is on the air may be heard by any station, at any
time, more than once or never. A packet that a station passes on is put into its queue without the
family id, which every receiver takes off again. -/
namespace Tulux.QApplication
open QCoder GeoNetRouter GuardedRun

/-! ### Requests for an address -/

section Requests
variable (cfg : GnConfig) (readings : Readings)

/-- The parameters of a request. `junk` is in what is never set. -/
def lsData (junk : GnData) : GnData := { initDefaultGnData cfg junk with pktType := .ls }

/-- `InitLSRequest`, with the eight bytes of the address that is asked for. -/
def initLsRequest (data : GnData) (sn : ℕ) (addr : List UInt8) : List UInt8 :=
  initBhCh cfg readings data ++ bytes16 sn ++ [0, 0] ++ initSourceLpv cfg (readings.epv 0) ++ addr

/-- The frame that `LocationServiceSync` sends, as often as it does. -/
def lsFrame (junk : GnData) (key : ℕ) (r : Router) : List UInt8 :=
  3 :: initLsRequest cfg readings (lsData cfg junk) r.core.sequenceNumber
    (readBytes r.core.mem key 8)

/-- `LocationServiceSync` up to its first wait. -/
def startLs (key : ℕ) (r : Router) : Router := (r.perform cfg .nextSn).perform cfg (.startLs key)

end Requests

/-! ### Stations on one medium -/

/-- The routers of the stations and the frames that were sent. `sent` are those that `Transmit` has
given to a callback or to a queue, and `accepted` those that were not refused, with the station;
nothing reads them. -/
structure Network (σ : Type*) where
  routers : σ → Router
  air : List (List UInt8)
  sent : List (List UInt8)
  requests : List (List UInt8)
  accepted : List (σ × List UInt8)

/-- What can happen at a station. -/
inductive NetAct where
  | transmit (readings : Readings) (data : GnData) (txcb : Bool) (mc : MsgContents) (bufLen : ℕ)
  | hear (readings : Readings) (rx : RxContents) (frame : List UInt8)
  | request (readings : Readings) (junk : GnData) (key : ℕ)
  | op (op : Op)

/-- What a call of `Transmit` sends and queues. -/
def framesOf (r : Router) (outcome : Outcome) : List (List UInt8) :=
  outcome.calls ++ (r.opsTo outcome.router).filterMap Op.queued

/-- The packets that were sent from the queues between two states. -/
def flushed (r r' : Router) : List (List UInt8) :=
  (r'.core.queues.log.transmitted.drop r.core.queues.log.transmitted.length).map Prod.snd

/-- What is put into the queue when a frame is passed on. -/
def relay (frame : List UInt8) : List UInt8 := (frame.drop 1).set 3 (frame.getD 4 0 - 1)

/-- The frame is in the buffer of the receiver. -/
def inBuffer (cfg : GnConfig) (rx : RxContents) (frame : List UInt8) (r : Router) : Router :=
  r.perform cfg (.write (writeBytes r.core.mem rx.data frame))

namespace Network
variable {σ : Type*} [DecidableEq σ] (cfg : σ → GnConfig) (geometry : Geometry)

def init (mem : σ → Memory) : Network σ := ⟨fun s => .init (mem s), [], [], [], []⟩

/-- A station goes on to another state, and what comes from its queues is on the air. -/
def goOn (n : Network σ) (s : σ) (r' : Router) : Network σ :=
  { n with
    routers := Function.update n.routers s r'
    air := n.air ++ flushed (n.routers s) r' }

def step (n : Network σ) : σ × NetAct → Network σ
  | (s, .transmit readings data txcb mc bufLen) =>
    let r := n.routers s
    let outcome := transmit (cfg s) geometry readings data txcb mc bufLen r
    let n := n.goOn s outcome.router
    { n with
      air := n.air ++ outcome.calls
      sent := n.sent ++ framesOf r outcome }
  | (s, .hear readings rx frame) =>
    let r := inBuffer (cfg s) rx frame (n.routers s)
    let (ret, _, r') := etsiReceiveGn (cfg s) geometry readings rx frame.length r
    let n := n.goOn s r'
    if ret = -1 then n else { n with accepted := n.accepted ++ [(s, frame)] }
  | (s, .request readings junk key) =>
    let frame := lsFrame (cfg s) readings junk key (n.routers s)
    let n := n.goOn s (startLs (cfg s) key (n.routers s))
    { n with
      air := if readings.dfTxcb then n.air ++ [frame] else n.air
      requests := n.requests ++ [frame] }
  | (s, .op op) => n.goOn s ((n.routers s).perform (cfg s) op)

/-- A message is shorter than `2 ^ 15` bytes, what is heard is on the air and goes into a buffer
that the destination address is not in, and only calls put packets into the queues. -/
def Allowed (n : Network σ) : σ × NetAct → Prop
  | (_, .transmit _ data _ _ bufLen) => ShortCall data bufLen
  | (_, .hear _ rx frame) =>
    frame ∈ n.air ∧ (rx.gn.dAddr + 6 ≤ rx.data ∨ rx.data + frame.length ≤ rx.gn.dAddr)
  | (_, .request _ _ _) => True
  | (_, .op op) => op.queued = none

end Network

/-- A request has no upper protocol. -/
structure RequestFrame (frame : List UInt8) : Prop where
  upperProt : frame[5]? = some 0
  length : frame.length < 2 ^ 16

/-- A packet that `Transmit` has queued, or one that is passed on. -/
def Queued (sent : List (List UInt8)) (packet : List UInt8) : Prop :=
  packet ∈ sent ∨ ∃ frame ∈ sent, packet = relay frame

/-- Only the memory changes. -/
def Ignores (r r' : Router) : Prop := ∃ mem, r'.core = { r.core with mem := mem }

namespace Network
variable {σ : Type*}

/-- What is on the air was sent, asks for an address or was passed on, and only what was sent is
accepted. -/
structure Inv (n : Network σ) : Prop where
  own : ∀ frame ∈ n.sent, OwnFrame frame
  requests : ∀ frame ∈ n.requests, RequestFrame frame
  queues : ∀ s, (n.routers s).core.queues.Holds (Queued n.sent)
  air : ∀ frame ∈ n.air, Queued n.sent frame ∨ frame ∈ n.requests
  accepted : ∀ x ∈ n.accepted, x.2 ∈ n.sent

end Network

/-! ### What a receiver makes of a frame -/

section Receiver
variable {cfg : GnConfig} {geometry : Geometry} {readings : Readings} {rx : RxContents}
  {frame : List UInt8} {mem : Memory} {a i : ℕ} {b : UInt8} {r r' : Router} {P : List UInt8 → Prop}

theorem getElem?_inBuffer (h : frame[i]? = some b) : (inBuffer cfg rx frame r).core.mem (rx.data + i) = b := by
  obtain ⟨hlength, hbyte⟩ := List.getElem?_eq_some_iff.mp h
  rw [← hbyte]
  exact writeBytes_inside r.core.mem rx.data hlength

theorem etsiReceiveGn_receive (cfg : GnConfig) (geometry : Geometry) (readings : Readings)
    (rx : RxContents) (bufLen : ℕ) (r : Router) :
    let received := receive cfg geometry readings (rx.data + 1) ((bufLen + (2 ^ 16 - 1)) % 2 ^ 16)
      rx.gn r
    (etsiReceiveGn cfg geometry readings rx bufLen r).1 = received.1 ∧
      (etsiReceiveGn cfg geometry readings rx bufLen r).2.2 = received.2.2 := by
  have hdata : ({ rx with decoded := false } : RxContents).pull 1 =
      { rx with decoded := false, data := rx.data + 1 } := rfl
  unfold etsiReceiveGn
  dsimp only
  rw [hdata]
  dsimp only
  split_ifs <;> exact ⟨rfl, rfl⟩

theorem length_pulled (hpos : 0 < frame.length) (hmax : frame.length < 2 ^ 16) :
    (frame.length + (2 ^ 16 - 1)) % 2 ^ 16 = frame.length - 1 := by omega

/-- The second byte of a packet that was passed on is the reserved one of its basic header, so the
receiver finds no version and no next header. -/
theorem relay_refused (h : OwnFrame frame) (bufLen : ℕ) (data : GnData) (r : Router) :
    receive cfg geometry readings (rx.data + 1) bufLen data (inBuffer cfg rx (relay frame) r) =
      (-1, data, inBuffer cfg rx (relay frame) r) := by
  have hzero : (relay frame)[1]? = some 0 := by
    unfold relay
    rw [List.getElem?_set_ne (by decide), List.getElem?_drop]
    exact h.reserved
  have hbasic : basicHeaderOk (inBuffer cfg rx (relay frame) r).core.mem (rx.data + 1) = false := by
    unfold basicHeaderOk
    rw [getElem?_inBuffer hzero]
    decide
  unfold receive
  rw [hbasic]
  rfl

/-- A request is refused behind its basic header. -/
theorem request_refused (cfg : GnConfig) (geometry : Geometry) (readings : Readings)
    (rx : RxContents) (h : RequestFrame frame) (bufLen : ℕ) (data : GnData) (r : Router) :
    ∃ r', receive cfg geometry readings (rx.data + 1) bufLen data (inBuffer cfg rx frame r) =
      (-1, data, r') ∧ Ignores (inBuffer cfg rx frame r) r' := by
  have hnext : (decrementRhl (inBuffer cfg rx frame r).core.mem (rx.data + 1)) (rx.data + 1 + 4) =
      0 := by
    have hbyte : (inBuffer cfg rx frame r).core.mem (rx.data + 5) = 0 := getElem?_inBuffer h.upperProt
    unfold decrementRhl
    split_ifs
    · rw [Function.update_of_ne (by omega)]
      exact hbyte
    · exact hbyte
  have hcommon : commonHeaderOk (decrementRhl (inBuffer cfg rx frame r).core.mem (rx.data + 1))
      (rx.data + 1) = false := by
    unfold commonHeaderOk
    rw [hnext]
    simp
  have hrefused : (!commonHeaderOk (decrementRhl (inBuffer cfg rx frame r).core.mem (rx.data + 1))
      (rx.data + 1)) = true := by rw [hcommon, Bool.not_false]
  unfold receive
  split_ifs
  · exact ⟨_, rfl, _, rfl⟩
  · exact ⟨_, if_pos (.inl hrefused), _, rfl⟩

theorem performsWith_of_queued (h : Performs cfg r r')
    (hqueued : ∀ packet ∈ (r.opsTo r').filterMap Op.queued, P packet) : PerformsWith cfg P r r' := by
  obtain ⟨ops, hops, hcore⟩ := h
  refine ⟨ops, hops, hcore, ?_⟩
  unfold Router.opsTo at hqueued
  rwa [hops, List.drop_left] at hqueued

/-- What is put into a queue is the frame that was heard, as it is passed on. -/
theorem performsWith_hear (hmin : 5 ≤ frame.length) (hmax : frame.length < 2 ^ 16)
    (hdisjoint : rx.gn.dAddr + 6 ≤ rx.data ∨ rx.data + frame.length ≤ rx.gn.dAddr) (r : Router) :
    PerformsWith cfg (fun packet => packet = relay frame ∧ (etsiReceiveGn cfg geometry readings rx
        frame.length (inBuffer cfg rx frame r)).1 ≠ -1) (inBuffer cfg rx frame r)
      (etsiReceiveGn cfg geometry readings rx frame.length (inBuffer cfg rx frame r)).2.2 := by
  obtain ⟨hret, hrouter⟩ := etsiReceiveGn_receive cfg geometry readings rx frame.length
    (inBuffer cfg rx frame r)
  have hloaded : readBytes (inBuffer cfg rx frame r).core.mem rx.data frame.length = frame :=
    readBytes_writeBytes r.core.mem rx.data frame
  have hpart : readBytes (inBuffer cfg rx frame r).core.mem (rx.data + 1) (frame.length - 1) =
      frame.drop 1 := by
    rw [readBytes_part hloaded (by omega)]
    exact List.take_of_length_le (List.length_drop ..).le
  have hhops : (inBuffer cfg rx frame r).core.mem (rx.data + 1 + 3) = frame.getD 4 0 := by
    have hfour : frame[4]? = some (frame.getD 4 0) := by
      rw [List.getD_eq_getElem?_getD, List.getElem?_eq_getElem (by omega), Option.getD_some]
    exact getElem?_inBuffer hfour
  rw [hret, hrouter, length_pulled (by omega) hmax]
  refine performsWith_of_queued (performs_receive _ _) fun packet hpacket => ?_
  obtain ⟨haccepted, -, hcopy⟩ := receiveQueued_spec cfg geometry readings (frame.length - 1) rx.gn
    (inBuffer cfg rx frame r) (hdisjoint.imp (by omega) (by omega)) packet hpacket
  refine ⟨?_, haccepted⟩
  rw [hcopy, hpart, hhops]
  rfl

end Receiver

/-! ### Runs of the network -/

section Runs
variable {σ : Type*} {cfg : σ → GnConfig} {geometry : Geometry} {n : Network σ}
  {s : σ} {r' : Router} {sent sent' : List (List UInt8)} {frame packet : List UInt8}

theorem Queued.mono (h : Queued sent packet) (hsub : ∀ frame ∈ sent, frame ∈ sent') :
    Queued sent' packet :=
  h.imp (hsub packet) fun ⟨frame, hframe, hrelay⟩ => ⟨frame, hsub frame hframe, hrelay⟩

theorem length_relay (frame : List UInt8) : (relay frame).length = frame.length - 1 := by
  rw [relay, List.length_set, List.length_drop]

theorem Queued.length_lt (hown : ∀ frame ∈ sent, OwnFrame frame) (h : Queued sent packet) :
    packet.length < 2 ^ 16 := by
  rcases h with hsent | ⟨frame, hframe, rfl⟩
  · exact (hown packet hsent).length.2
  · have hlength := (hown frame hframe).length
    rw [length_relay]
    omega

theorem requestFrame_lsFrame (cfg : GnConfig) (readings : Readings) (junk : GnData) (key : ℕ)
    (r : Router) : RequestFrame (lsFrame cfg readings junk key r) := by
  refine ⟨rfl, ?_⟩
  simp [lsFrame, initLsRequest]

/-- What is sent from the queues is what is in them. -/
theorem queued_flushed {r : Router} (hown : ∀ frame ∈ sent, OwnFrame frame)
    (h : r'.core.queues.Holds (Queued sent)) (hpacket : packet ∈ flushed r r') :
    Queued sent packet := by
  obtain ⟨x, hx, rfl⟩ := List.mem_map.mp hpacket
  obtain ⟨whole, hwhole, hcut⟩ := h.sent x (List.mem_of_mem_drop hx)
  rw [hcut, Nat.mod_eq_of_lt (hwhole.length_lt hown), List.take_length]
  exact hwhole

namespace Network

theorem inv_init (mem : σ → Memory) : (init mem).Inv where
  own _ h := absurd h List.not_mem_nil
  requests _ h := absurd h List.not_mem_nil
  queues _ := Queues.holds_empty
  air _ h := absurd h List.not_mem_nil
  accepted _ h := absurd h List.not_mem_nil

/-- More frames are sent. -/
theorem Inv.send {frames : List (List UInt8)} (h : n.Inv) (hown : ∀ frame ∈ frames, OwnFrame frame) :
    ({ n with sent := n.sent ++ frames } : Network σ).Inv where
  own frame hframe := (List.mem_append.mp hframe).elim (h.own frame) (hown frame)
  requests := h.requests
  queues s := (h.queues s).mono fun _ hpacket =>
    hpacket.mono fun _ hframe => List.mem_append_left _ hframe
  air frame hframe := (h.air frame hframe).imp_left fun hpacket =>
    hpacket.mono fun _ hsent => List.mem_append_left _ hsent
  accepted x hx := List.mem_append_left _ (h.accepted x hx)

/-- What is on the air and was not sent by `Transmit` is refused. -/
theorem Inv.refused (h : n.Inv) (cfg : σ → GnConfig) (geometry : Geometry) (s : σ)
    (readings : Readings) (rx : RxContents) (hair : frame ∈ n.air) (hsent : frame ∉ n.sent)
    (r : Router) :
    (etsiReceiveGn (cfg s) geometry readings rx frame.length (inBuffer (cfg s) rx frame r)).1 = -1 ∧
      Ignores (inBuffer (cfg s) rx frame r)
        (etsiReceiveGn (cfg s) geometry readings rx frame.length (inBuffer (cfg s) rx frame r)).2.2 := by
  obtain ⟨hret, hrouter⟩ := etsiReceiveGn_receive (cfg s) geometry readings rx frame.length
    (inBuffer (cfg s) rx frame r)
  rw [hret, hrouter]
  rcases h.air frame hair with (hown | ⟨own, hown, rfl⟩) | hrequest
  · exact absurd hown hsent
  · rw [relay_refused (h.own own hown)]
    exact ⟨rfl, _, rfl⟩
  · obtain ⟨r', hrefused, hignores⟩ := request_refused (cfg s) geometry readings rx
      (h.requests frame hrequest) ((frame.length + (2 ^ 16 - 1)) % 2 ^ 16) rx.gn r
    rw [hrefused]
    exact ⟨rfl, hignores⟩

/-- More frames are on the air. -/
theorem Inv.emit {frames : List (List UInt8)} (h : n.Inv)
    (hframes : ∀ frame ∈ frames, Queued n.sent frame) :
    ({ n with air := n.air ++ frames } : Network σ).Inv where
  own := h.own
  requests := h.requests
  queues := h.queues
  air frame hframe := (List.mem_append.mp hframe).elim (h.air frame) fun hnew =>
    .inl (hframes frame hnew)
  accepted := h.accepted

theorem Inv.length (h : n.Inv) (hair : frame ∈ n.air) :
    5 ≤ frame.length ∧ frame.length < 2 ^ 16 := by
  rcases h.air frame hair with hqueued | hrequest
  · refine ⟨?_, hqueued.length_lt h.own⟩
    rcases hqueued with hown | ⟨own, hown, rfl⟩
    · exact (h.own frame hown).length.1.trans' (by decide)
    · have hlength := (h.own own hown).length.1
      rw [length_relay]
      omega
  · obtain ⟨hupper, hmax⟩ := h.requests frame hrequest
    obtain ⟨hlength, -⟩ := List.getElem?_eq_some_iff.mp hupper
    exact ⟨by omega, hmax⟩

variable [DecidableEq σ]

/-- A station goes on to a state whose queues hold such packets. -/
theorem Inv.goOn (h : n.Inv) (hr : r'.core.queues.Holds (Queued n.sent)) : (n.goOn s r').Inv where
  own := h.own
  requests := h.requests
  queues t := by
    change (Function.update n.routers s r' t).core.queues.Holds _
    rw [Function.update_apply]
    split_ifs
    · exact hr
    · exact h.queues t
  air frame hframe := by
    rcases List.mem_append.mp hframe with hold | hnew
    · exact h.air frame hold
    · exact .inl (queued_flushed h.own hr hnew)
  accepted := h.accepted

/-! What each act of a station keeps. -/

theorem Inv.transmit (h : n.Inv) (s : σ) (readings : Readings) {data : GnData} {bufLen : ℕ}
    (hshort : ShortCall data bufLen) (txcb : Bool) (mc : MsgContents) :
    (n.step cfg geometry (s, .transmit readings data txcb mc bufLen)).Inv := by
  have hsends : SendsFrames (cfg s) (n.routers s)
      (GeoNetRouter.transmit (cfg s) geometry readings data txcb mc bufLen (n.routers s)) :=
    sendsFrames_transmit mc (n.routers s) hshort
  set outcome := GeoNetRouter.transmit (cfg s) geometry readings data txcb mc bufLen (n.routers s)
  have hown : ∀ frame ∈ framesOf (n.routers s) outcome, OwnFrame frame := fun frame hframe =>
    (List.mem_append.mp hframe).elim (hsends.calls frame) (hsends.performs.queued frame)
  have hsent := h.send hown
  have hqueues : outcome.router.core.queues.Holds
      (Queued (n.sent ++ framesOf (n.routers s) outcome)) :=
    PerformsWith.holds (performsWith_of_queued hsends.performs.performs fun packet hpacket =>
      .inl (List.mem_append_right _ (List.mem_append_right _ hpacket))) (hsent.queues s)
  exact (hsent.goOn (s := s) hqueues).emit fun frame hframe =>
    .inl (List.mem_append_right _ (List.mem_append_left _ hframe))

theorem Inv.hear (h : n.Inv) (s : σ) (readings : Readings) {rx : RxContents} (hair : frame ∈ n.air)
    (hdisjoint : rx.gn.dAddr + 6 ≤ rx.data ∨ rx.data + frame.length ≤ rx.gn.dAddr) :
    (n.step cfg geometry (s, .hear readings rx frame)).Inv := by
  obtain ⟨hmin, hmax⟩ := h.length hair
  have hsent (haccepted : (etsiReceiveGn (cfg s) geometry readings rx frame.length
      (inBuffer (cfg s) rx frame (n.routers s))).1 ≠ -1) : frame ∈ n.sent := by
    by_contra hsent
    exact haccepted (h.refused cfg geometry s readings rx hair hsent _).1
  have hheard : PerformsWith (cfg s) (Queued n.sent) (n.routers s)
      (etsiReceiveGn (cfg s) geometry readings rx frame.length
        (inBuffer (cfg s) rx frame (n.routers s))).2.2 :=
    (performsWith_quiet _ rfl).trans ((performsWith_hear hmin hmax hdisjoint _).mono
      fun _ ⟨hrelay, haccepted⟩ => .inr ⟨frame, hsent haccepted, hrelay⟩)
  have hgone := h.goOn (s := s) (hheard.holds (h.queues s))
  unfold step
  dsimp only
  split_ifs with hret
  · exact hgone
  · refine ⟨hgone.own, hgone.requests, hgone.queues, hgone.air, fun x hx => ?_⟩
    rcases List.mem_append.mp hx with hold | hnew
    · exact h.accepted x hold
    · rw [List.mem_singleton.mp hnew]
      exact hsent hret

theorem Inv.request (h : n.Inv) (s : σ) (readings : Readings) (junk : GnData) (key : ℕ) :
    (n.step cfg geometry (s, .request readings junk key)).Inv := by
  have hstarted : PerformsWith (cfg s) (Queued n.sent) (n.routers s)
      (startLs (cfg s) key (n.routers s)) := (performsWith_quiet _ rfl).quiet rfl
  have hgone := h.goOn (s := s) (hstarted.holds (h.queues s))
  refine ⟨hgone.own, fun frame hframe => ?_, hgone.queues, fun frame hframe => ?_, hgone.accepted⟩
  · rcases List.mem_append.mp hframe with hold | hnew
    · exact h.requests frame hold
    · rw [List.mem_singleton.mp hnew]
      exact requestFrame_lsFrame _ _ _ _ _
  · have hkept (hold : frame ∈ (n.goOn s (startLs (cfg s) key (n.routers s))).air) :=
      (hgone.air frame hold).imp_right (List.mem_append_left
        [lsFrame (cfg s) readings junk key (n.routers s)])
    unfold step at hframe
    dsimp only at hframe
    split_ifs at hframe
    · exact (List.mem_append.mp hframe).elim hkept fun hnew =>
        .inr (List.mem_append_right _ hnew)
    · exact hkept hframe

/-- One step keeps the invariant. -/
theorem Inv.step (h : n.Inv) {act : σ × NetAct} (hallowed : n.Allowed act) :
    (n.step cfg geometry act).Inv := by
  obtain ⟨s, act⟩ := act
  cases act with
  | transmit readings data txcb mc bufLen => exact h.transmit s readings hallowed txcb mc
  | hear readings rx frame => exact h.hear s readings hallowed.1 hallowed.2
  | request readings junk key => exact h.request s readings junk key
  | op op => exact h.goOn ((performsWith_quiet _ hallowed).holds (h.queues s))

end Network

/-- One station sends a packet of several hops, and the other one asks for an address and hears the
packet. -/
def twoStations (mc : MsgContents) (frame : List UInt8) : List (Bool × NetAct) :=
  [(false, .transmit still tsbData true mc 4), (true, .request still anyData 0),
    (true, .hear still ⟨false, anyData, .a, 59⟩ frame)]

def sentFrame : List UInt8 :=
  readBytes sentTsb.core.mem 59 45

end Runs

end Tulux.QApplication
