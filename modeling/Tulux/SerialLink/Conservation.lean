import Tulux.SerialLink.Ownership

/-! The operations of the transmit side return on well-formed lists, and keep them well formed. -/
namespace Tulux.SerialLink
open CircularList

/-- The address a walk of the list `k` is at when the nodes `ys` are still ahead. -/
def walkAt (k : ListId) (ys : List (Fin 40)) : Option Addr :=
  some ((ys.map Addr.node).headD (.head k))

theorem walkAt_nil (k : ListId) : walkAt k [] = some (.head k) := rfl

theorem walkAt_cons (k : ListId) (i : Fin 40) (ys : List (Fin 40)) :
    walkAt k (i :: ys) = some (.node i) := rfl

theorem Shape.walk_start {l : Links Addr} {L : Lists} (h : Shape l L) (k : ListId) :
    l.next (.head k) = walkAt k (L k) := h.next_head k

theorem yxListEntry_node (i : Fin 40) : yxListEntry (some (.node i)) = some i := rfl

theorem moved_self {L : Lists} {a b : ListId} (hab : a ≠ b) (xs ys : List (Fin 40)) (i : Fin 40) :
    moved L a b xs ys i a = xs ++ ys := by
  rw [moved, Function.update_of_ne hab, Function.update_self]

theorem moved_other {L : Lists} {a b k : ListId} (ha : k ≠ a) (hb : k ≠ b) (xs ys : List (Fin 40))
    (i : Fin 40) : moved L a b xs ys i k = L k := by
  rw [moved, Function.update_of_ne hb, Function.update_of_ne ha]

/-- No message is sent, and the wait-to-send list is the same. -/
structure Silent (tx : Tx) (L : Lists) (tx' : Tx) (L' : Lists) : Prop where
  flag : tx'.uMsgFlag = tx.uMsgFlag
  queue : tx'.queue = tx.queue
  wait : L' .stWaitTxList = L .stWaitTxList

theorem Silent.trans {tx tx' tx'' : Tx} {L L' L'' : Lists} (h : Silent tx L tx' L')
    (h' : Silent tx' L' tx'' L'') : Silent tx L tx'' L'' :=
  ⟨h'.flag.trans h.flag, h'.queue.trans h.queue, h'.wait.trans h.wait⟩

/-- A node leaves the resend list for the free list. -/
theorem moveNode_silent {tx tx' : Tx} {L : Lists} {i : Fin 40} {k : ListId}
    (h : moveNode tx i k = some tx') (xs ys : List (Fin 40)) :
    Silent tx L tx' (moved L .stReSendList .stFreeList xs ys i) := by
  obtain ⟨l, -, rfl⟩ := Option.map_eq_some_iff.mp h
  exact ⟨rfl, rfl, moved_other (by decide) (by decide) xs ys i⟩

theorem nodes_frame (tx : Tx) (i : Fin 40) (node : SerialItemNode)
    (h : node.databuf = (tx.nodes i).databuf) :
    Frame tx { tx with nodes := Function.update tx.nodes i node } := by
  refine ⟨rfl, fun j => ?_, rfl, rfl, le_refl _, rfl⟩
  by_cases hj : j = i
  · subst hj
    simpa using h
  · simp [hj]

section Walks
variable (env : Env) {tx : Tx} {L : Lists} {fuel : ℕ}

/-- The driver takes the frame when it is handed over next. -/
def Takes (tx : Tx) (frame : List UInt8) : Prop := 0 < (hwSenddata env tx frame).1

instance (tx : Tx) (frame : List UInt8) : Decidable (Takes env tx frame) :=
  inferInstanceAs (Decidable (_ < _))

/-- The frames that the driver has taken, in order. -/
def takenFrames (tx : Tx) : List (List UInt8) :=
  (tx.handed.zipIdx.filter fun r => env.hwSend r.2 && 0 < r.1.length).map Prod.fst

theorem takenFrames_hand {tx' : Tx} {frame : List UInt8}
    (h : tx'.handed = tx.handed ++ [frame]) :
    takenFrames env tx' = takenFrames env tx ++ if Takes env tx frame then [frame] else [] := by
  have hlast : [(frame, tx.handed.length)].filter (fun r => env.hwSend r.2 && 0 < r.1.length) =
      if Takes env tx frame then [(frame, tx.handed.length)] else [] := by
    by_cases hs : env.hwSend tx.handed.length = true ∧ 0 < frame.length
    · simp [Takes, hwSenddata, hs]
    · rw [List.filter_cons_of_neg (by simpa using hs), List.filter_nil, if_neg]
      cases hw : env.hwSend tx.handed.length <;> simp_all [Takes, hwSenddata]
  rw [takenFrames, takenFrames, h, List.zipIdx_append, List.filter_append, List.map_append,
    Nat.zero_add, List.zipIdx_singleton, hlast]
  split_ifs <;> rfl

/-- A turn at the node `i` hands its frame over. When the driver takes it the node leaves the list,
and the walk goes on with the nodes `ys` behind it. -/
structure Turned (tx : Tx) (L : Lists) (xs : List (Fin 40)) (i : Fin 40) (ys : List (Fin 40))
    (next : Option (Option Addr)) (tx' : Tx) (L' : Lists) : Prop where
  keeps : Keeps tx L tx' L'
  handed : tx'.handed = tx.handed ++ [nodeFrame tx i]
  frames : nodeFrame tx' = nodeFrame tx
  signals : tx'.uMsgFlag = tx.uMsgFlag ∧ tx'.queue = tx.queue
  taken : Takes env tx (nodeFrame tx i) →
    next = some (walkAt .stWaitTxList ys) ∧ L' .stWaitTxList = xs ++ ys
  refused : ¬ Takes env tx (nodeFrame tx i) → next = none ∧ L' = L

theorem waittxTurn_spec (h : Held tx L) {xs ys : List (Fin 40)} {i : Fin 40}
    (hk : L .stWaitTxList = xs ++ i :: ys) :
    ∃ next tx' L', waittxTurn env (some (.node i)) tx = some (next, tx') ∧
      Turned env tx L xs i ys next tx' L' := by
  obtain ⟨b, hb, -⟩ := h.owns.buf i (active_of_eq (by decide) hk)
  have hnext : tx.links.next (.node i) = walkAt .stWaitTxList ys := h.shape.next_node hk
  have hframe : (tx.bufs b).take (tx.nodes i).nodeLen = nodeFrame tx i := by
    rw [nodeFrame, hb, Option.elim_some]
  have hkeep := h.frame (hwSenddata_frame env tx (nodeFrame tx i))
  -- the node has moved to the list `k`
  have gone (tx₁ tx₂ : Tx) (k : ListId) (hne : .stWaitTxList ≠ k)
      (hmove : moveNode tx₁ i k = some tx₂) (htx : tx₁ = { (hwSenddata env tx (nodeFrame tx i)).2
        with links := tx₁.links, freed := tx₁.freed })
      (hkeep₂ : Keeps (hwSenddata env tx (nodeFrame tx i)).2 L tx₂
        (moved L .stWaitTxList k xs ys i)) (ht : Takes env tx (nodeFrame tx i)) :
      Turned env tx L xs i ys (some (walkAt .stWaitTxList ys)) tx₂
        (moved L .stWaitTxList k xs ys i) := by
    obtain ⟨l, -, rfl⟩ := Option.map_eq_some_iff.mp hmove
    rw [htx]
    rw [htx] at hkeep₂
    exact ⟨hkeep.trans hkeep₂, rfl, rfl, ⟨rfl, rfl⟩, fun _ => ⟨rfl, moved_self hne xs ys i⟩,
      fun hc => absurd ht hc⟩
  rw [waittxTurn, yxListEntry_node, Option.bind_some, hb, Option.bind_some, hnext, hframe]
  dsimp only
  split_ifs with hret hattr
  · obtain ⟨tx', hmove, hkeep'⟩ := hkeep.1.resend hk
    exact ⟨_, tx', _, by rw [hmove, Option.map_some],
      gone _ tx' .stReSendList (by decide) hmove rfl hkeep' hret⟩
  · obtain ⟨tx', hmove, hkeep'⟩ := hkeep.1.release hk (by decide)
    exact ⟨_, tx', _, by rw [hmove, Option.map_some],
      gone _ tx' .stFreeList (by decide) hmove rfl hkeep' hret⟩
  · exact ⟨none, _, L, rfl, hkeep, rfl, rfl, ⟨rfl, rfl⟩, fun ht => absurd ht hret,
      fun _ => ⟨rfl, rfl⟩⟩

/-- A walk hands over the first of the frames, up to one that is refused. Those that the driver
takes wait no more. -/
structure Walked (tx : Tx) (L : Lists) (frames : List (List UInt8)) (sta : Bool) (tx' : Tx)
    (L' : Lists) : Prop where
  keeps : Keeps tx L tx' L'
  handed : ∃ n, tx'.handed = tx.handed ++ frames.take n ∧ (sta = true → frames.length ≤ n)
  served : ∃ k, takenFrames env tx' = takenFrames env tx ++ frames.take k ∧
    waiting tx' L' = frames.drop k
  signals : tx'.uMsgFlag = tx.uMsgFlag ∧ tx'.queue = tx.queue

variable {env} in
/-- A turn whose frame is taken, and the rest of the walk. -/
theorem Walked.cons {tx₁ tx' : Tx} {L₁ L' : Lists} {xs ys : List (Fin 40)} {i : Fin 40}
    {next : Option (Option Addr)} {sta : Bool} (ht : Turned env tx L xs i ys next tx₁ L₁)
    (htake : Takes env tx (nodeFrame tx i))
    (h : Walked env tx₁ L₁ (ys.map (nodeFrame tx₁)) sta tx' L') :
    Walked env tx L ((i :: ys).map (nodeFrame tx)) sta tx' L' := by
  obtain ⟨n, hh, hsta⟩ := h.handed
  obtain ⟨k, hserved, hwait⟩ := h.served
  have hflag := h.signals
  have hfirst := takenFrames_hand env ht.handed
  simp only [if_pos htake] at hfirst
  simp only [ht.frames, ht.signals] at hh hsta hserved hwait hflag
  refine ⟨ht.keeps.trans h.keeps, ⟨n + 1, ?_, fun hs => ?_⟩, ⟨k + 1, ?_, hwait⟩, hflag⟩
  · simp [hh, ht.handed]
  · simpa using hsta hs
  · simp [hserved, hfirst]

theorem waittxWalk_spec (sta : Bool) {ys : List (Fin 40)} (h : Held tx L)
    (hk : L .stWaitTxList = ys) (hf : ys.length ≤ fuel) :
    ∃ sta' tx' L', waittxWalk env fuel (walkAt .stWaitTxList ys) sta tx = some (sta', tx') ∧
      Walked env tx L (ys.map (nodeFrame tx)) sta' tx' L' := by
  induction ys generalizing tx L sta fuel with
  | nil =>
    refine ⟨sta, tx, L, by rw [waittxWalk.eq_def, walkAt_nil, if_pos rfl],
      ⟨h, id⟩, ⟨0, ?_, fun _ => le_refl 0⟩, ⟨0, ?_, ?_⟩, rfl, rfl⟩
    · simp
    · simp
    · simp [waiting, hk]
  | cons i ys ih =>
    obtain ⟨fuel, rfl⟩ : ∃ f, fuel = f + 1 := ⟨fuel - 1, by simp at hf; omega⟩
    have hk' : L .stWaitTxList = [] ++ i :: ys := hk
    obtain ⟨next, tx₁, L₁, hturn, ht⟩ := waittxTurn_spec env h hk'
    rw [walkAt_cons, waittxWalk_turn env fuel (by simp), hturn, Option.bind_some]
    by_cases htake : Takes env tx (nodeFrame tx i)
    · obtain ⟨rfl, hL⟩ := ht.taken htake
      obtain ⟨sta', tx', L', hrun, hw⟩ := ih true ht.keeps.1 hL (by simpa using hf)
      exact ⟨sta', tx', L', hrun, .cons ht htake hw⟩
    · obtain ⟨rfl, rfl⟩ := ht.refused htake
      have hlast := takenFrames_hand env ht.handed
      simp only [if_neg htake] at hlast
      refine ⟨false, tx₁, L₁, rfl, ht.keeps, ⟨1, ?_, (by simp)⟩, ⟨0, ?_, ?_⟩, ht.signals⟩
      · simp [ht.handed]
      · simp [hlast]
      · simp [waiting, hk, ht.frames]

theorem delRepeatWalk_keeps {command : ℕ} {xs ys : List (Fin 40)} (h : Held tx L)
    (hk : L .stReSendList = xs ++ ys) (hf : ys.length ≤ fuel) :
    ∃ tx' L', delRepeatWalk command fuel (walkAt .stReSendList ys) tx = some tx' ∧
      Keeps tx L tx' L' ∧ Silent tx L tx' L' := by
  induction ys generalizing xs fuel with
  | nil =>
    exact ⟨tx, L, by rw [delRepeatWalk.eq_def, walkAt_nil, if_pos rfl], ⟨h, id⟩, rfl, rfl, rfl⟩
  | cons i ys ih =>
    obtain ⟨fuel, rfl⟩ : ∃ f, fuel = f + 1 := ⟨fuel - 1, by simp at hf; omega⟩
    have hlen : ys.length ≤ fuel := by simpa using hf
    obtain ⟨b, hb, -⟩ := h.owns.buf i (active_of_eq (by decide) hk)
    have hnext : tx.links.next (.node i) = walkAt .stReSendList ys := h.shape.next_node hk
    rw [delRepeatWalk, walkAt_cons, if_neg (by simp), yxListEntry_node, Option.bind_some, hb,
      Option.bind_some, hnext, ← hb]
    split_ifs with hcmd
    · obtain ⟨tx', hmove, hkeep⟩ := h.release hk (by decide)
      have hs := moveNode_silent (L := L) hmove xs ys
      exact ⟨tx', _, hmove, hkeep, hs.flag, hs.queue, hs.wait⟩
    · exact ih (hk.trans (List.append_cons xs i ys)) hlen

/-- The nodes of `ys` that the walk meets next keep their buffers unless they are sent for the
last time. -/
theorem repeatWalk_keeps (sta : Bool) {xs ys : List (Fin 40)} (h : Held tx L)
    (hk : L .stReSendList = xs ++ ys) (hf : ys.length ≤ fuel) :
    ∃ sta' tx' L', repeatWalk env fuel (walkAt .stReSendList ys) sta tx = some (sta', tx') ∧
      Held tx' L' ∧ Silent tx L tx' L' ∧
      ((∀ i ∈ ys, 1 < (tx.nodes i).nodeTime ∨ 1 < (tx.nodes i).nodeRepeat) →
        Tight tx L → Tight tx' L') := by
  induction ys generalizing tx L xs sta fuel with
  | nil =>
    exact ⟨sta, tx, L, by rw [repeatWalk.eq_def, walkAt_nil, if_pos rfl], h, ⟨rfl, rfl, rfl⟩,
      fun _ => id⟩
  | cons i ys ih =>
    obtain ⟨fuel, rfl⟩ : ∃ f, fuel = f + 1 := ⟨fuel - 1, by simp at hf; omega⟩
    have hlen : ys.length ≤ fuel := by simpa using hf
    obtain ⟨b, hb, -⟩ := h.owns.buf i (active_of_eq (by decide) hk)
    have hnext : tx.links.next (.node i) = walkAt .stReSendList ys := h.shape.next_node hk
    have hnd := h.shape.nodup .stReSendList
    rw [hk] at hnd
    have hi : i ∉ xs ++ ys := (List.nodup_middle.mp hnd).notMem
    have hys : ∀ j ∈ ys, j ≠ i := fun j hj he => hi (he ▸ List.mem_append_right xs hj)
    have hk' : L .stReSendList = (xs ++ [i]) ++ ys := hk.trans (List.append_cons xs i ys)
    -- the walk goes on behind `i` in a state where only the node `i` has changed
    have stays (node : SerialItemNode) (tx₁ : Tx) (hf : Frame tx tx₁)
        (hn : tx₁.nodes = Function.update tx.nodes i node) (hs₁ : Silent tx L tx₁ L)
        (sta : Bool) :
        ∃ sta' tx' L', repeatWalk env fuel (walkAt .stReSendList ys) sta tx₁ = some (sta', tx') ∧
          Held tx' L' ∧ Silent tx L tx' L' ∧
          ((∀ j ∈ i :: ys, 1 < (tx.nodes j).nodeTime ∨ 1 < (tx.nodes j).nodeRepeat) →
            Tight tx L → Tight tx' L') := by
      obtain ⟨h₁, ht₁⟩ := h.frame hf
      obtain ⟨sta', tx', L', hrun, h', hs', ht'⟩ := ih sta h₁ hk' hlen
      refine ⟨sta', tx', L', hrun, h', hs₁.trans hs', fun hall ht => ht' (fun j hj => ?_) (ht₁ ht)⟩
      rw [hn, Function.update_of_ne (hys j hj)]
      exact hall j (List.mem_cons_of_mem i hj)
    rw [repeatWalk, walkAt_cons, if_neg (by simp), yxListEntry_node, Option.bind_some]
    dsimp only
    rw [hnext]
    by_cases htime : (tx.nodes i).nodeTime - 1 = 0
    · rw [if_pos htime, hb, Option.bind_some, ← hb]
      have hsent := (hwSenddata_frame env tx ((tx.bufs b).take (tx.nodes i).nodeLen)).trans
        (nodes_frame _ i { tx.nodes i with
          nodeTime := 3, nodeRepeat := (tx.nodes i).nodeRepeat - 1 } rfl)
      by_cases hrep : (tx.nodes i).nodeRepeat - 1 = 0
      · obtain ⟨tx₂, hmove, h₂⟩ := (h.frame hsent).1.drop hk (by decide)
        obtain ⟨sta', tx', L', hrun, h', hs', -⟩ := ih (if 0 < _ then true else sta) h₂
          (moved_self (by decide) xs ys i) hlen
        have hs := moveNode_silent (L := L) hmove xs ys
        refine ⟨sta', tx', L', ?_, h', Silent.trans ⟨hs.flag, hs.queue, hs.wait⟩ hs',
          fun hall => ?_⟩
        · rw [if_pos hrep, hmove, Option.bind_some]
          exact hrun
        · have := hall i List.mem_cons_self
          omega
      · rw [if_neg hrep]
        exact stays _ _ hsent rfl ⟨rfl, rfl, rfl⟩ _
    · rw [if_neg htime]
      exact stays _ _ (nodes_frame tx i { tx.nodes i with
        nodeTime := (tx.nodes i).nodeTime - 1 } rfl) rfl ⟨rfl, rfl, rfl⟩ sta

theorem freeWalk_eq {k : ListId} {xs ys : List (Fin 40)} (h : Shape tx.links L)
    (hk : L k = xs ++ ys) (hf : ys.length ≤ fuel) :
    freeWalk k fuel (walkAt k ys) tx =
      some { tx with freed := tx.freed ++ ys.filterMap fun i => (tx.nodes i).databuf } := by
  induction ys generalizing tx xs fuel with
  | nil => rw [freeWalk.eq_def, walkAt_nil, if_pos rfl, List.filterMap_nil, List.append_nil]
  | cons i ys ih =>
    obtain ⟨fuel, rfl⟩ : ∃ f, fuel = f + 1 := ⟨fuel - 1, by simp at hf; omega⟩
    have hlen : ys.length ≤ fuel := by simpa using hf
    have hnext : tx.links.next (.node i) = walkAt k ys := h.next_node hk
    have hrun : freeWalk k fuel (walkAt k ys) (yxFree tx (tx.nodes i).databuf) = _ :=
      ih h (hk.trans (List.append_cons xs i ys)) hlen
    rw [freeWalk, walkAt_cons, if_neg (by simp), yxListEntry_node, Option.bind_some, hnext, hrun]
    cases hb : (tx.nodes i).databuf <;> simp [yxFree, hb]

end Walks

/-! ### Reset -/

/-- Every node is on the free list. -/
def allFree : Lists := Function.update (fun _ => []) .stFreeList (List.finRange 40)

private theorem addNodes_rings {l : Links Addr} {xs ys : List (Fin 40)} (hnd : (xs ++ ys).Nodup)
    (h : Rings l Addr.head
      (Function.update (fun _ => []) ListId.stFreeList (xs.map Addr.node))) :
    ∃ l', ys.foldlM (fun l i => yxListAddBefore l (.head .stFreeList) (.node i)) l = some l' ∧
      Rings l' Addr.head
        (Function.update (fun _ => []) ListId.stFreeList ((xs ++ ys).map Addr.node)) := by
  induction ys generalizing l xs with
  | nil =>
    rw [List.append_nil]
    exact ⟨l, rfl, h⟩
  | cons i ys ih =>
    have hi : i ∉ xs := fun hm => (List.nodup_middle.mp hnd).notMem (List.mem_append_left ys hm)
    have hout (j : ListId) : Addr.node i ∉ Addr.head j ::
        Function.update (fun _ => []) ListId.stFreeList (xs.map Addr.node) j := by
      by_cases hj : j = .stFreeList
      · subst hj
        simpa using hi
      · simp [Function.update_of_ne hj]
    have hadd := h.insert .stFreeList hout
    have hprev := (h.ring .stFreeList).prev_head
    rw [Function.update_idem, Function.update_self, ← List.map_singleton, ← List.map_append]
      at hadd
    obtain ⟨l', hrun, hr⟩ := ih (by rwa [← List.append_cons]) hadd
    rw [← List.append_cons] at hr
    refine ⟨l', ?_, hr⟩
    rw [List.foldlM_cons, yxListAddBefore, hprev, Option.map_some, Function.update_self]
    exact hrun

private theorem single_rings (l : Links Addr) :
    Rings (yxListInit (yxListInit (yxListInit l (.head .stFreeList)) (.head .stWaitTxList))
      (.head .stReSendList)) Addr.head fun _ => [] := by
  constructor
  · intro k
    rw [isRing_nil]
    cases k <;> simp [Linked, yxListInit, Links.single]
  · intro j k hjk d hj hk
    rw [List.mem_singleton] at hj hk
    rw [hj, Addr.head.injEq] at hk
    exact hjk hk

theorem initLists_shape (l : Links Addr) : ∃ l', initLists l = some l' ∧ Shape l' allFree := by
  have hempty : (Function.update (fun _ => []) ListId.stFreeList (List.map Addr.node [])) =
      fun _ => [] := by
    rw [List.map_nil, Function.update_eq_self_iff]
  have hnd : ([] ++ List.finRange 40).Nodup := List.nodup_finRange 40
  obtain ⟨l', hrun, hr⟩ := addNodes_rings hnd (by rw [hempty]; exact single_rings l)
  refine ⟨l', hrun, ?_, fun i => ⟨.stFreeList, ?_⟩⟩
  · have heq : (fun k => (allFree k).map Addr.node) =
        Function.update (fun _ => []) ListId.stFreeList ((List.finRange 40).map Addr.node) := by
      funext k
      exact Function.apply_update (fun _ => List.map Addr.node) (fun _ => []) _ _ k
    rw [heq]
    exact hr
  · rw [allFree, Function.update_self]
    exact List.mem_finRange i

theorem not_active_allFree (i : Fin 40) : ¬ Active allFree i := by
  rintro (h | h) <;> simp [allFree] at h

theorem Shape.nodup_active {l : Links Addr} {L : Lists} (h : Shape l L) :
    ((L .stWaitTxList) ++ (L .stReSendList)).Nodup := by
  refine List.nodup_append.mpr ⟨h.nodup _, h.nodup _, ?_⟩
  rintro i hi _ hj rfl
  exact absurd (h.unique hi hj) (by decide)

/-- A reset frees the buffers of all nodes that wait or are resent. -/
theorem listReset_keeps {tx : Tx} {L : Lists} (h : Held tx L) :
    ∃ tx', listReset tx = some tx' ∧ Keeps tx L tx' allFree ∧
      tx'.uMsgFlag = tx.uMsgFlag ∧ tx'.queue = tx.queue := by
  obtain ⟨l', hinit, hs⟩ := initLists_shape tx.links
  set bufs := ((L .stWaitTxList) ++ (L .stReSendList)).filterMap fun i => (tx.nodes i).databuf
    with hbufs
  have hrun : listReset tx = some { tx with freed := tx.freed ++ bufs, links := l' } := by
    have hlen (k : ListId) : (L k).length ≤ walkFuel := (h.shape.length_le k).trans (by decide)
    have hwait : freeWalk .stWaitTxList walkFuel (walkAt .stWaitTxList (L .stWaitTxList)) tx = _ :=
      freeWalk_eq h.shape (List.nil_append _).symm (hlen _)
    have hresend : freeWalk .stReSendList walkFuel (walkAt .stReSendList (L .stReSendList))
        { tx with freed := tx.freed ++ (L .stWaitTxList).filterMap fun i => (tx.nodes i).databuf } =
          _ :=
      freeWalk_eq h.shape (List.nil_append _).symm (hlen _)
    rw [listReset, h.shape.walk_start, hwait, Option.bind_some]
    dsimp only
    rw [h.shape.walk_start, hresend, Option.bind_some, hinit, Option.map_some, hbufs,
      List.filterMap_append, List.append_assoc]
  have hmem (b : ℕ) : b ∈ bufs ↔ ∃ i, Active L i ∧ (tx.nodes i).databuf = some b := by
    simp only [hbufs, List.mem_filterMap, List.mem_append, Active]
  have hlive : ∀ b ∈ bufs, Live tx b := by
    intro b hb
    obtain ⟨i, hi, hbuf⟩ := (hmem b).mp hb
    obtain ⟨b', hb', hl⟩ := h.owns.buf i hi
    exact Option.some.inj (hb'.symm.trans hbuf) ▸ hl
  refine ⟨_, hrun, ⟨⟨hs, ⟨?_, ?_, ?_, ?_, h.owns.fresh⟩, h.txBuf⟩, fun ht => ⟨?_, ?_⟩⟩, rfl, rfl⟩
  · exact fun i hi => absurd hi (not_active_allFree i)
  · exact fun i _ hi => absurd hi (not_active_allFree i)
  · refine List.nodup_append.mpr ⟨h.owns.once, ?_, ?_⟩
    · rw [hbufs, List.Nodup, List.pairwise_filterMap]
      refine h.shape.nodup_active.imp_of_mem ?_
      rintro i j hi hj hne b hb _ hb' rfl
      rw [List.mem_append] at hi hj
      exact hne (h.owns.inj i j hi hj (hb.trans hb'.symm))
    · rintro b hb _ hb' rfl
      exact (hlive b hb').2 hb
  · intro b hb
    rcases List.mem_append.mp hb with hb | hb
    · exact h.owns.freed b hb
    · exact (hlive b hb).1
  · rintro b ⟨hb, hnf⟩
    obtain ⟨i, hi, hbuf⟩ := ht.owned b ⟨hb, fun hc => hnf (List.mem_append_left _ hc)⟩
    exact absurd (List.mem_append_right _ ((hmem b).mpr ⟨i, hi, hbuf⟩)) hnf
  · intro i _ b hb
    by_cases hi : Active L i
    · exact List.mem_append_right _ ((hmem b).mpr ⟨i, hi, hb⟩)
    · obtain ⟨k, hk⟩ := h.shape.cover i
      have hfree : k = .stFreeList := by
        by_contra hne
        exact hi (active_iff.mpr ⟨k, hne, hk⟩)
      exact List.mem_append_left _ (ht.free i (hfree ▸ hk) b hb)

/-! ### Operations -/

section Operations
variable (env : Env) {tx : Tx} {L : Lists}

private theorem walk_fits (h : Held tx L) (k : ListId) : (L k).length ≤ walkFuel :=
  (h.shape.length_le k).trans (by decide)

theorem sendWaittxlistnode_spec (h : Held tx L) :
    ∃ sta tx' L' n k, sendWaittxlistnode env true tx = some (sta, tx') ∧ Keeps tx L tx' L' ∧
      tx'.handed = tx.handed ++ (waiting tx L).take n ∧
      (sta = true → (waiting tx L).length ≤ n) ∧
      takenFrames env tx' = takenFrames env tx ++ (waiting tx L).take k ∧
      waiting tx' L' = (waiting tx L).drop k := by
  obtain ⟨sta, tx', L', hrun, hkeep, ⟨n, hh, hsta⟩, ⟨k, hserved, hwait⟩, -⟩ :=
    waittxWalk_spec env false h rfl (walk_fits h _)
  rw [sendWaittxlistnode, if_pos rfl, h.shape.walk_start, hrun, Option.map_some]
  dsimp only
  split_ifs
  · exact ⟨sta, tx', L', n, k, rfl, hkeep, hh, hsta, hserved, hwait⟩
  · obtain ⟨hnodes, hbufs, hhanded⟩ := sendTxReqMsg_eq tx'
    refine ⟨sta, _, L', n, k, rfl, hkeep.trans (hkeep.1.frame (sendTxReqMsg_frame tx')),
      hhanded.trans hh, hsta, ?_, ?_⟩
    · rw [takenFrames, hhanded]
      exact hserved
    · rw [waiting, nodeFrame_eq hnodes hbufs]
      exact hwait

theorem sendWaittxlistnode_keeps (connected : Bool) (h : Held tx L) :
    ∃ sta tx' L', sendWaittxlistnode env connected tx = some (sta, tx') ∧ Keeps tx L tx' L' := by
  cases connected with
  | false => exact ⟨false, tx, L, rfl, h, id⟩
  | true =>
    obtain ⟨sta, tx', L', -, -, hrun, hkeep, -⟩ := sendWaittxlistnode_spec env h
    exact ⟨sta, tx', L', hrun, hkeep⟩

theorem delRepeatlistbycmd_keeps (command : ℕ) (h : Held tx L) :
    ∃ tx' L', delRepeatlistbycmd command tx = some tx' ∧ Keeps tx L tx' L' ∧
      Silent tx L tx' L' := by
  rw [delRepeatlistbycmd, h.shape.walk_start]
  exact delRepeatWalk_keeps h (List.nil_append _).symm (walk_fits h _)

/-- A node on the resend list that the next repeat sends for the last time. -/
def Exhausted (tx : Tx) : Prop :=
  ∃ L, Shape tx.links L ∧ ∃ i ∈ L .stReSendList,
    (tx.nodes i).nodeTime ≤ 1 ∧ (tx.nodes i).nodeRepeat ≤ 1

theorem sendRepeatlistnode_keeps (disconnected : Bool) (h : Held tx L) :
    ∃ sta tx' L', sendRepeatlistnode env disconnected tx = some (sta, tx') ∧ Held tx' L' ∧
      Silent tx L tx' L' ∧
      ((disconnected = true ∨ ¬ Exhausted tx) → Tight tx L → Tight tx' L') := by
  unfold sendRepeatlistnode
  split_ifs with hd
  · exact ⟨false, tx, L, rfl, h, ⟨rfl, rfl, rfl⟩, fun _ => id⟩
  · rw [h.shape.walk_start]
    obtain ⟨sta, tx', L', hrun, h', hs, ht⟩ :=
      repeatWalk_keeps env false h (List.nil_append _).symm (walk_fits h _)
    refine ⟨sta, tx', L', hrun, h', hs, fun hcond => ht fun i hi => ?_⟩
    have hex : ¬ Exhausted tx := hcond.resolve_left hd
    by_contra hc
    exact hex ⟨L, h.shape, i, hi, by omega, by omega⟩

private theorem not_empty_free (h : Held tx L)
    (he : ¬ yxListEmpty tx.links (.head .stFreeList) = true) : L .stFreeList ≠ [] :=
  fun hc => he ((h.shape.empty_iff _).mpr hc)

private theorem mallocFail_frame (tx : Tx) :
    Frame tx { tx with mallocCalls := tx.mallocCalls + 1 } :=
  ⟨rfl, fun _ => rfl, rfl, rfl, Nat.le_succ _, rfl⟩

/-- Both sends end by an attempt to queue the frame. -/
private theorem queue_keeps (h : Held tx L) (item : ℕ → List UInt8) (node : SerialItemNode)
    (hne : L .stFreeList ≠ []) :
    ∃ sta tx' L', (match yxMalloc env tx with
      | (none, tx) => some (false, tx)
      | (some buf, tx) => (queueItem tx buf (item buf) node).map fun tx => (true, tx)) =
        some (sta, tx') ∧ Keeps tx L tx' L' ∧ tx'.handed = tx.handed ∧
      waiting tx' L' = waiting tx L ++
        (if sta then [(item tx.mallocCalls).take node.nodeLen] else []) ∧
      L .stWaitTxList <+: L' .stWaitTxList := by
  by_cases hm : env.malloc tx.mallocCalls
  · obtain ⟨tx', L', hq, hkeep, hwait, hhanded, hpre⟩ :=
      h.queueItem hne (item tx.mallocCalls) node
    refine ⟨true, tx', L', ?_, hkeep, hhanded, hwait, hpre⟩
    rw [yxMalloc, if_pos hm]
    dsimp only
    rw [hq, Option.map_some]
  · refine ⟨false, _, L, ?_, h.frame (mallocFail_frame tx), rfl, (List.append_nil _).symm,
      List.prefix_refl _⟩
    rw [yxMalloc, if_neg hm]

/-- The frame that `Yx_Serial_Link_Send2List` builds in the buffer it obtained. -/
def listItem (env : Env) (args : SendArgs) (buf : ℕ) : List UInt8 :=
  buildItem ((List.range (args.len + 8)).map (env.heap buf)) [] yxSerialLinkHeadDown1
    yxSerialLinkHeadDown2 args

/-- The frame that `Yx_Serial_Link_Send` builds in `tx_buf`. -/
def sendItem (env : Env) (args : SendArgs) (tx : Tx) : List UInt8 :=
  let beyond := (List.range (args.len - 1024)).map env.beyond
  let txBuf := buildItem tx.txBuf beyond yxSerialLinkHeadDown1 yxSerialLinkHeadDown2 args
  txBufRead env { tx with txBuf := txBuf } (args.len + 8)

/-- On success the frame waits behind the others. -/
theorem yxSerialLinkSend2List_spec (connected : Bool) (needAck : UInt8) (args : SendArgs)
    (h : Held tx L) :
    ∃ sta tx' L', yxSerialLinkSend2List env connected needAck args tx = some (sta, tx') ∧
      Keeps tx L tx' L' ∧ tx'.handed = tx.handed ∧
      waiting tx' L' = waiting tx L ++
        (if sta then [(listItem env args tx.mallocCalls).take (args.len + 8)] else []) ∧
      L .stWaitTxList <+: L' .stWaitTxList := by
  unfold yxSerialLinkSend2List
  split_ifs with hc he
  · exact ⟨false, tx, L, rfl, ⟨h, id⟩, rfl, (List.append_nil _).symm, List.prefix_refl _⟩
  · exact ⟨false, tx, L, rfl, ⟨h, id⟩, rfl, (List.append_nil _).symm, List.prefix_refl _⟩
  · exact queue_keeps env h (listItem env args) _ (not_empty_free h he)

theorem yxSerialLinkSend2List_keeps (connected : Bool) (needAck : UInt8) (args : SendArgs)
    (h : Held tx L) :
    ∃ sta tx' L', yxSerialLinkSend2List env connected needAck args tx = some (sta, tx') ∧
      Keeps tx L tx' L' := by
  obtain ⟨sta, tx', L', hrun, hkeep, -⟩ :=
    yxSerialLinkSend2List_spec env connected needAck args h
  exact ⟨sta, tx', L', hrun, hkeep⟩

theorem length_sendItem (args : SendArgs) (tx : Tx) :
    (sendItem env args tx).length = args.len + 8 := by
  simp only [sendItem, txBufRead, List.length_take, List.length_append, List.length_map,
    List.length_range]
  omega

/-- The frame is handed to the driver. One that the driver does not take waits behind the others
when the call succeeds. -/
theorem yxSerialLinkSend_spec (args : SendArgs) (h : Held tx L) :
    ∃ sta tx' L', yxSerialLinkSend env args tx = some (sta, tx') ∧ Keeps tx L tx' L' ∧
      tx'.handed = tx.handed ++ [sendItem env args tx] ∧
      (Takes env tx (sendItem env args tx) → sta = true) ∧
      waiting tx' L' = waiting tx L ++
        (if sta ∧ ¬ Takes env tx (sendItem env args tx) then [sendItem env args tx] else []) ∧
      L .stWaitTxList <+: L' .stWaitTxList := by
  have hfull : (sendItem env args tx).take (args.len + 8) = sendItem env args tx :=
    List.take_of_length_le (length_sendItem env args tx).le
  unfold yxSerialLinkSend
  extract_lets beyond tx₁ frame
  have hbuf := h.txBuf
  have hlen : tx₁.txBuf.length = tx.txBuf.length :=
    length_buildItem beyond _ _ args (by omega) (by omega)
  have hf : Frame tx (hwSenddata env tx₁ frame).2 := ⟨rfl, fun _ => rfl, rfl, rfl, le_refl _, hlen⟩
  have hhanded : (hwSenddata env tx₁ frame).2.handed = tx.handed ++ [sendItem env args tx] := rfl
  have hwait : waiting (hwSenddata env tx₁ frame).2 L = waiting tx L := rfl
  have htakes : Takes env tx (sendItem env args tx) ↔ (hwSenddata env tx₁ frame).1 ≠ 0 :=
    Nat.pos_iff_ne_zero
  obtain ⟨h₁, ht₁⟩ := h.frame hf
  split
  rename_i ret tx₂ heq
  rw [heq] at h₁ ht₁ hhanded hwait htakes
  split_ifs with hret he
  · exact ⟨true, tx₂, L, rfl, ⟨h₁, ht₁⟩, hhanded, fun _ => rfl, by simp [htakes, hret, hwait],
      List.prefix_refl _⟩
  · exact ⟨false, tx₂, L, rfl, ⟨h₁, ht₁⟩, hhanded, fun ht => absurd (htakes.mp ht) hret,
      by simp [hwait], List.prefix_refl _⟩
  · obtain ⟨sta, tx', L', hrun, hkeep, hh, hqueue, hpre⟩ := queue_keeps env h₁ (fun _ => frame)
      { nodeAttrib := 0, nodeRepeat := 1, nodeTime := 1, nodeLen := args.len + 8 }
      (not_empty_free h₁ he)
    refine ⟨sta, tx', L', hrun, Keeps.trans ⟨h₁, ht₁⟩ hkeep, hh.trans hhanded,
      fun ht => absurd (htakes.mp ht) hret, ?_, hpre⟩
    simp only [hqueue, hwait, htakes, hret, not_false_eq_true, and_true]
    exact congrArg (fun f => waiting tx L ++ if sta then [f] else []) hfull

theorem yxSerialLinkSend_keeps (args : SendArgs) (h : Held tx L) :
    ∃ sta tx' L', yxSerialLinkSend env args tx = some (sta, tx') ∧ Keeps tx L tx' L' := by
  obtain ⟨sta, tx', L', hrun, hkeep, -⟩ := yxSerialLinkSend_spec env args h
  exact ⟨sta, tx', L', hrun, hkeep⟩

end Operations

end Tulux.SerialLink
