import Tulux.SerialLink.Runs

/-! Properties of every state that a run of the link reaches. -/
namespace Tulux.SerialLink
open CircularList GuardedRun

/-- The states reached from `Yx_Serial_Link_Init` by steps that meet `cond`. -/
inductive Reachable (env : Env) (cond : Link → LinkOp → Prop) : Link → Prop
  | init {link : Link} : yxSerialLinkInit env = some link → Reachable env cond link
  | step {link link' : Link} {op : LinkOp} : Reachable env cond link → cond link op →
      linkStep env link op = some link' → Reachable env cond link'

theorem zeroTx_held {l : Links Addr} (h : Shape l allFree) : Held (zeroTx l) allFree := by
  refine ⟨h, ⟨?_, ?_, List.nodup_nil, nofun, nofun⟩, List.length_replicate⟩
  · exact fun i hi => absurd hi (not_active_allFree i)
  · exact fun i _ hi => absurd hi (not_active_allFree i)

theorem zeroTx_tight (l : Links Addr) : Tight (zeroTx l) allFree :=
  ⟨fun _ hb => absurd hb.1 List.not_mem_nil, fun _ _ _ hb => nomatch hb⟩

/-- `Yx_Serial_Link_Init` returns a disconnected link with an empty receive buffer. -/
theorem init_spec (env : Env) :
    ∃ link L, yxSerialLinkInit env = some link ∧ LinkOk link L ∧ Tight link.tx L ∧
      EventAgree link ∧ link.rxLen = 0 ∧ link.rxRing = [] := by
  obtain ⟨l, hl, hs⟩ := initLists_shape ⟨fun _ => none, fun _ => none⟩
  obtain ⟨sta, tx, L, hsend, hkeep⟩ :=
    yxSerialLinkSend_keeps env (noData 1) (zeroTx_held hs)
  refine ⟨_, L, by rw [yxSerialLinkInit, hl, Option.bind_some, hsend, Option.map_some],
    ⟨hkeep.1, ⟨List.length_replicate, Nat.zero_le _⟩, Or.inl (by norm_num), rfl, ?_⟩,
    hkeep.2 (zeroTx_tight l), ?_, rfl, rfl⟩
  · constructor <;> exact nofun
  · constructor <;> exact nofun

section Reach
variable {env : Env} {cond : Link → LinkOp → Prop} {link : Link}

/-- What holds initially and is kept by every step that meets the condition holds of every
reachable state. -/
theorem Reachable.induct {P : Link → Lists → Prop} (h : Reachable env cond link)
    (hinit : ∀ link L, yxSerialLinkInit env = some link → LinkOk link L → Tight link.tx L →
      EventAgree link → link.rxLen = 0 → P link L)
    (hstep : ∀ link L link' L' op, cond link op → StepSpec env op link L link' L' →
      P link L → P link' L') : ∃ L, LinkOk link L ∧ P link L := by
  induction h with
  | init hi =>
    obtain ⟨link, L, hrun, hok, ht, hev, hlen, -⟩ := init_spec env
    rw [hrun, Option.some.injEq] at hi
    subst hi
    exact ⟨L, hok, hinit _ L hrun hok ht hev hlen⟩
  | @step link link' op _ hc hs ih =>
    obtain ⟨L, hok, hp⟩ := ih
    obtain ⟨link'', L', hrun, hspec⟩ := linkStep_spec env op hok
    rw [hrun, Option.some.injEq] at hs
    subst hs
    exact ⟨L', hspec.ok, hstep link L _ L' op hc hspec hp⟩

theorem Reachable.ok (h : Reachable env cond link) : ∃ L, LinkOk link L := by
  obtain ⟨L, hok, -⟩ := h.induct (P := fun _ _ => True) (fun _ _ _ _ _ _ _ => trivial)
    (fun _ _ _ _ _ _ _ _ => trivial)
  exact ⟨L, hok⟩

theorem run_reachable {ops : List LinkOp} (h : Reachable env cond link)
    (hc : ∀ op ∈ ops, ∀ link, cond link op) :
    ∃ link', ops.foldlM (linkStep env) link = some link' ∧ Reachable env cond link' := by
  refine foldlM_keeps (fun link op hmem h => ?_) h
  obtain ⟨L, hok⟩ := h.ok
  obtain ⟨link', L', hstep, -⟩ := linkStep_spec env op hok
  exact ⟨link', hstep, .step h (hc op hmem link) hstep⟩

/-- Every run returns. -/
theorem linkRun_reachable (env : Env) (ops : List LinkOp)
    (hc : ∀ op ∈ ops, ∀ link, cond link op) :
    ∃ link, linkRun env ops = some link ∧ Reachable env cond link := by
  obtain ⟨link, L, hinit, -⟩ := init_spec env
  obtain ⟨link', hrun, hr⟩ := run_reachable (.init hinit) hc
  exact ⟨link', by rw [linkRun, hinit, Option.bind_some, hrun], hr⟩

end Reach

/-- The driver takes every frame, memory never runs out, and both callbacks are registered. -/
def acceptingEnv : Env where
  hwSend := fun _ => true
  malloc := fun _ => true
  heap := fun _ _ => 0
  beyond := fun _ => 0
  rcb := []
  rcb_le := by simp
  rxAnaCb := true
  eventCb := true
  calls := fun _ => []

/-- A connect request, with 1 as its data byte. -/
def connectRequest : List UInt8 := [0x55, 0x7A, 0x01, 0x18, 0x00, 0x01, 0x00, 0x01, 0x01]

/-! ### Nodes and buffers -/

/-- The three lists are circular doubly linked lists, and every node is on exactly one of them. -/
def NodesConserved (tx : Tx) : Prop :=
  ∃ L : Lists, (∀ k, IsRing tx.links (.head k) ((L k).map Addr.node)) ∧ ∀ i, ∃! k, i ∈ L k

theorem Shape.conserved {tx : Tx} {L : Lists} (h : Shape tx.links L) : NodesConserved tx := by
  refine ⟨L, h.rings.ring, fun i => ?_⟩
  obtain ⟨k, hk⟩ := h.cover i
  exact ⟨k, hk, fun j hj => h.unique hj hk⟩

/-- Every run returns with all nodes on the lists. -/
theorem linkRun_nodesConserved (env : Env) (ops : List LinkOp) :
    ∃ link, linkRun env ops = some link ∧ NodesConserved link.tx := by
  obtain ⟨link, hrun, hr⟩ : ∃ link, linkRun env ops = some link ∧
    Reachable env (fun _ _ => True) link := linkRun_reachable env ops fun _ _ _ => trivial
  obtain ⟨L, hok⟩ := hr.ok
  exact ⟨link, hrun, hok.held.shape.conserved⟩

/-- The nodes that wait or are resent own the live buffers, one each, the free nodes own none,
and no buffer was freed twice. -/
def BuffersOwned (tx : Tx) : Prop :=
  ∃ L : Lists, Shape tx.links L ∧
    Set.BijOn (fun i => (tx.nodes i).databuf) {i | Active L i} (some '' {b | Live tx b}) ∧
    (∀ i ∈ L .stFreeList, ∀ b, (tx.nodes i).databuf = some b → ¬ Live tx b) ∧ tx.freed.Nodup

theorem Held.buffersOwned {tx : Tx} {L : Lists} (h : Held tx L) (ht : Tight tx L) :
    BuffersOwned tx := by
  refine ⟨L, h.shape, ⟨?_, ?_, ?_⟩, fun i hi b hb hl => hl.2 (ht.free i hi b hb), h.owns.once⟩
  · intro i hi
    obtain ⟨b, hb, hl⟩ := h.owns.buf i hi
    exact ⟨b, hl, hb.symm⟩
  · exact fun i hi j hj he => h.owns.inj i j hi hj he
  · rintro _ ⟨b, hb, rfl⟩
    obtain ⟨i, hi, hbuf⟩ := ht.owned b hb
    exact ⟨i, hi, hbuf⟩

section Conditions
variable {env : Env} {link : Link}

/-- No run frees a buffer twice. -/
theorem Reachable.freed_once {cond : Link → LinkOp → Prop} (h : Reachable env cond link) :
    link.tx.freed.Nodup := by
  obtain ⟨L, hok⟩ := h.ok
  exact hok.held.owns.once

/-- The buffers are owned in every run that repeats no frame for the last time. -/
theorem reachable_buffersOwned
    (h : Reachable env (fun link op => ¬ RepeatsLast link op) link) : BuffersOwned link.tx := by
  obtain ⟨L, hok, ht⟩ := h.induct (P := fun link L => Tight link.tx L)
    (fun _ _ _ _ ht _ _ => ht) (fun _ _ _ _ _ hc hs ht => hs.tight hc ht)
  exact hok.held.buffersOwned ht

/-- Connect, send a frame that needs an acknowledgement, and let `n` repeat timeouts pass. -/
def unacknowledged (n : ℕ) : List LinkOp :=
  [.handle .rxRcv [connectRequest], .send2List 1 (noData 0x1234), .handle .txData []] ++
    List.replicate n (.handle .timeRepeatTimeout [])

theorem reachable_buffersOwned_sent :
    ∃ link, linkRun acceptingEnv (unacknowledged 0) = some link ∧ BuffersOwned link.tx := by
  obtain ⟨link, hrun, hr⟩ : ∃ link, linkRun acceptingEnv (unacknowledged 0) = some link ∧
      Reachable acceptingEnv (fun link op => ¬ RepeatsLast link op) link := by
    refine linkRun_reachable acceptingEnv _ fun op hop link => ?_
    rintro ⟨arrivals, hh, -⟩
    simp only [unacknowledged, List.replicate_zero, List.append_nil, List.mem_cons,
      List.not_mem_nil, or_false] at hop
    rcases hop with rfl | rfl | rfl <;> simp [LinkOp.handled] at hh
  exact ⟨link, hrun, reachable_buffersOwned hr⟩

/-- After its last repeat the node is free, and nobody owns its buffer. -/
theorem not_buffersOwned_after_repeats :
    ∃ link, linkRun acceptingEnv (unacknowledged 9) = some link ∧ ¬ BuffersOwned link.tx := by
  have hview : (linkRun acceptingEnv (unacknowledged 9)).map (fun link =>
      (link.tx.obtained, link.tx.freed, yxListEmpty link.tx.links (.head .stWaitTxList),
        yxListEmpty link.tx.links (.head .stReSendList))) = some ([0], [], true, true) := by
    decide +kernel
  obtain ⟨link, hrun, heq⟩ := Option.map_eq_some_iff.mp hview
  simp only [Prod.mk.injEq] at heq
  obtain ⟨hob, hfr, hwait, hresend⟩ := heq
  refine ⟨link, hrun, ?_⟩
  rintro ⟨L, hs, hbij, -⟩
  have hlive : Live link.tx 0 := ⟨by simp [hob], by simp [hfr]⟩
  obtain ⟨i, hi, -⟩ := hbij.surjOn ⟨0, hlive, rfl⟩
  rw [hs.empty_iff] at hwait hresend
  rcases hi with hi | hi
  · simp [hwait] at hi
  · simp [hresend] at hi

/-- The receive buffer has room in every run that meets no overlong head. -/
theorem reachable_rxLen_lt (h : Reachable env ReceivesFitting link) : link.rxLen < 1024 := by
  obtain ⟨L, hok, hlt⟩ := h.induct (P := fun link _ => link.rxLen < 1024)
    (fun _ _ _ _ _ _ hlen => by omega) (fun _ _ _ _ _ hc hs hlt => hs.space hc hlt)
  exact hlt

theorem reachable_rxLen_lt_request :
    ∃ link, linkRun acceptingEnv [.handle .rxRcv [connectRequest]] = some link ∧
      link.rxLen < 1024 := by
  obtain ⟨link, L, hinit, hok, -, -, hlen, hring⟩ := init_spec acceptingEnv
  obtain ⟨link', L', hstep, -⟩ := linkStep_spec acceptingEnv (.handle .rxRcv [connectRequest]) hok
  have hfit : ReceivesFitting link (.handle .rxRcv [connectRequest]) := by
    intro arrivals ha s hs _ hlong
    simp only [LinkOp.handled, Option.some.injEq, Prod.mk.injEq, true_and] at ha
    subst ha
    have hle := (Framing.Scanner.visits_suffix hs).length_le
    simp [received, hlen, hring, connectRequest] at hle
    omega
  refine ⟨link', ?_, reachable_rxLen_lt (.step (.init hinit) hfit hstep)⟩
  rw [linkRun, hinit, Option.bind_some, List.foldlM_cons, hstep]
  rfl

/-- A head that declares 65535 bytes, and 1016 bytes behind it. -/
def overlongHead : List UInt8 := [0x55, 0x7A, 0, 0, 0, 0, 0xFF, 0xFF] ++ List.replicate 1016 0

/-- Behind a damaged head the buffer is full, and a valid request stays in the ring. -/
theorem rx_jammed_by_overlongHead :
    ∃ link, linkRun acceptingEnv
        [.handle .rxRcv [overlongHead], .handle .rxRcv [connectRequest]] = some link ∧
      ¬ link.rxLen < 1024 ∧ link.accepted = [] ∧ link.rxRing = connectRequest := by
  have hview : (linkRun acceptingEnv
      [.handle .rxRcv [overlongHead], .handle .rxRcv [connectRequest]]).map (fun link =>
        (link.rxLen, link.accepted, link.rxRing)) = some (1024, [], connectRequest) := by
    decide +kernel
  obtain ⟨link, hrun, heq⟩ := Option.map_eq_some_iff.mp hview
  simp only [Prod.mk.injEq] at heq
  exact ⟨link, hrun, by omega, heq.2⟩

/-- The state and the flag agree in every run. -/
theorem Reachable.agree {cond : Link → LinkOp → Prop} (h : Reachable env cond link) :
    link.curr = .connect ↔ link.uConnectFlag = .connect := by
  obtain ⟨L, hok⟩ := h.ok
  exact hok.agree

/-- The events agree with the state in every run that does not restart the machine in Connect. -/
theorem reachable_eventAgree (hcb : env.eventCb = true)
    (h : Reachable env (fun link op => ¬ RestartsConnected link op) link) :
    (link.curr = .connect ↔ link.uConnectFlag = .connect) ∧
      (lastEvent link = some .connect ↔ link.curr = .connect) := by
  obtain ⟨L, hok, hev⟩ := h.induct (P := fun link _ => EventAgree link)
    (fun _ _ _ _ _ hev _ => hev) (fun _ _ _ _ _ hc hs hev => hs.event hcb hc hev)
  exact ⟨hok.agree, hev⟩

theorem reachable_eventAgree_start :
    acceptingEnv.eventCb = true ∧
    ∃ link, linkRun acceptingEnv [.start, .handle .rxRcv [connectRequest]] = some link ∧
      (link.curr = .connect ↔ link.uConnectFlag = .connect) ∧
      (lastEvent link = some .connect ↔ link.curr = .connect) := by
  obtain ⟨link, hrun, hr⟩ : ∃ link,
      linkRun acceptingEnv [.start, .handle .rxRcv [connectRequest]] = some link ∧
      Reachable acceptingEnv (fun link op => ¬ RestartsConnected link op) link := by
    refine linkRun_reachable acceptingEnv _ fun op hop link hrestart => ?_
    simp only [List.mem_cons, List.not_mem_nil, or_false] at hop
    rcases hop with rfl | rfl <;> exact absurd hrestart.1 (by decide)
  exact ⟨rfl, link, hrun, reachable_eventAgree rfl hr⟩

/-- A reset in Connect disconnects the link, and its user still takes it for connected. -/
theorem reset_keeps_connect_event :
    ∃ link, linkRun acceptingEnv [.handle .rxRcv [connectRequest], .reset] = some link ∧
      ¬ (lastEvent link = some .connect ↔ link.curr = .connect) := by
  have hview : (linkRun acceptingEnv [.handle .rxRcv [connectRequest], .reset]).map
      (fun link => (lastEvent link, link.curr)) = some (some .connect, .disconnect) := by
    decide +kernel
  obtain ⟨link, hrun, heq⟩ := Option.map_eq_some_iff.mp hview
  simp only [Prod.mk.injEq] at heq
  refine ⟨link, hrun, fun hc => ?_⟩
  rw [hc.mp heq.1] at heq
  exact absurd heq.2 (by decide)

end Conditions

end Tulux.SerialLink
