import Tulux.SerialLink.Nodes

/-! Every node is on exactly one list, and every node that waits or is resent owns a buffer of its
own. Each operation of the transmit side keeps both. -/
namespace Tulux.SerialLink
open CircularList

/-- The contents of the three lists. -/
abbrev Lists := ListId → List (Fin 40)

/-- The links are three circular lists with the contents `L`, which miss no node. -/
structure Shape (l : Links Addr) (L : Lists) : Prop where
  rings : Rings l Addr.head fun k => (L k).map Addr.node
  cover : ∀ i, ∃ k, i ∈ L k

def Active (L : Lists) (i : Fin 40) : Prop := i ∈ L .stWaitTxList ∨ i ∈ L .stReSendList

def Live (tx : Tx) (b : ℕ) : Prop := b ∈ tx.obtained ∧ b ∉ tx.freed

/-- Every node that waits or is resent has a live buffer, and no two have the same. -/
structure Owns (tx : Tx) (L : Lists) : Prop where
  buf : ∀ i, Active L i → ∃ b, (tx.nodes i).databuf = some b ∧ Live tx b
  inj : ∀ i j, Active L i → Active L j → (tx.nodes i).databuf = (tx.nodes j).databuf → i = j
  once : tx.freed.Nodup
  freed : ∀ b ∈ tx.freed, b ∈ tx.obtained
  fresh : ∀ b ∈ tx.obtained, b < tx.mallocCalls

structure Held (tx : Tx) (L : Lists) : Prop where
  shape : Shape tx.links L
  owns : Owns tx L
  txBuf : tx.txBuf.length = 1032

/-- Every live buffer has an owner, and the free nodes own none. -/
structure Tight (tx : Tx) (L : Lists) : Prop where
  owned : ∀ b, Live tx b → ∃ i, Active L i ∧ (tx.nodes i).databuf = some b
  free : ∀ i ∈ L .stFreeList, ∀ b, (tx.nodes i).databuf = some b → b ∈ tx.freed

/-- The bytes of a node's frame. -/
def nodeFrame (tx : Tx) (i : Fin 40) : List UInt8 :=
  ((tx.nodes i).databuf.elim [] tx.bufs).take (tx.nodes i).nodeLen

/-- The frames on the wait-to-send list. -/
def waiting (tx : Tx) (L : Lists) : List (List UInt8) := (L .stWaitTxList).map (nodeFrame tx)

/-- The lists after the node `i`, between `xs` and `ys` on the list `a`, has moved to the end of
the list `b`. -/
def moved (L : Lists) (a b : ListId) (xs ys : List (Fin 40)) (i : Fin 40) : Lists :=
  Function.update (Function.update L a (xs ++ ys)) b (L b ++ [i])

namespace Shape
variable {l : Links Addr} {L : Lists} {a b j k : ListId} {i : Fin 40} {xs ys : List (Fin 40)}

theorem unique (h : Shape l L) (hj : i ∈ L j) (hk : i ∈ L k) : j = k := by
  by_contra hne
  exact h.rings.disjoint j k hne (List.mem_cons_of_mem _ (List.mem_map_of_mem hj))
    (List.mem_cons_of_mem _ (List.mem_map_of_mem hk))

theorem nodup (h : Shape l L) (k : ListId) : (L k).Nodup :=
  (List.nodup_cons.mp (h.rings.ring k).nodup).2.of_map _

theorem length_le (h : Shape l L) (k : ListId) : (L k).length ≤ 40 := by
  simpa using (h.nodup k).length_le_card

theorem next_head (h : Shape l L) (k : ListId) :
    l.next (.head k) = some (((L k).map Addr.node).headD (.head k)) :=
  (h.rings.ring k).next_head

theorem empty_iff (h : Shape l L) (k : ListId) : yxListEmpty l (.head k) = true ↔ L k = [] := by
  rw [yxListEmpty, h.next_head]
  cases hL : L k <;> simp

theorem next_node (h : Shape l L) (hk : L a = xs ++ i :: ys) :
    l.next (.node i) = some ((ys.map Addr.node).headD (.head a)) := by
  have hr := h.rings.ring a
  simp only [hk, List.map_append, List.map_cons] at hr
  exact hr.next_elem

theorem prev_node (h : Shape l L) (hk : L a = xs ++ i :: ys) :
    l.prev (.node i) = some ((xs.map Addr.node).getLastD (.head a)) := by
  have hr := h.rings.ring a
  simp only [hk, List.map_append, List.map_cons] at hr
  exact hr.prev_elem

private theorem map_update (L : Lists) (k : ListId) (zs : List (Fin 40)) :
    (fun j => (Function.update L k zs j).map Addr.node) =
      Function.update (fun j => (L j).map Addr.node) k (zs.map Addr.node) := by
  funext j
  exact Function.apply_update (fun _ => List.map Addr.node) L k zs j

theorem mem_moved (h : Shape l L) (hk : L a = xs ++ i :: ys) (hab : a ≠ b) (j : Fin 40)
    (k : ListId) : j ∈ moved L a b xs ys i k ↔ if j = i then k = b else j ∈ L k := by
  have hnd := h.nodup a
  rw [hk] at hnd
  have hi : i ∉ xs ++ ys := (List.nodup_middle.mp hnd).notMem
  unfold moved
  by_cases hkb : k = b
  · subst hkb
    rw [Function.update_self, List.mem_append, List.mem_singleton]
    split_ifs with hj
    · simp [hj]
    · simp [hj]
  · rw [Function.update_of_ne hkb]
    by_cases hka : k = a
    · subst hka
      rw [Function.update_self, hk]
      split_ifs with hj
      · simpa [hj, hkb] using hi
      · simp [hj]
    · rw [Function.update_of_ne hka]
      split_ifs with hj
      · have hia : i ∈ L a := by simp [hk]
        subst hj
        exact ⟨fun hik => absurd (h.unique hik hia) hka, fun hc => absurd hc hkb⟩
      · rfl

/-- Taking a node off its list and adding it to another moves it there. -/
theorem move (h : Shape l L) (hk : L a = xs ++ i :: ys) (hab : a ≠ b) :
    ∃ l', yxListAddBefore (yxListDel l (.node i)) (.head b) (.node i) = some l' ∧
      Shape l' (moved L a b xs ys i) := by
  have hdel : yxListDel l (.node i) =
      l.remove (.node i) ((xs.map Addr.node).getLastD (.head a))
        ((ys.map Addr.node).headD (.head a)) := by
    simp only [yxListDel, h.next_node hk, h.prev_node hk]
  have hk' : (L a).map Addr.node = xs.map Addr.node ++ Addr.node i :: ys.map Addr.node := by
    rw [hk, List.map_append, List.map_cons]
  set M := Function.update L a (xs ++ ys) with hM
  have hMb : M b = L b := Function.update_of_ne hab.symm _ _
  have heq : (fun k => (M k).map Addr.node) = Function.update (fun k => (L k).map Addr.node) a
      (xs.map Addr.node ++ ys.map Addr.node) := by
    rw [hM, map_update, List.map_append]
  have hrem := h.rings.remove hk'
  have hout := h.rings.remove_not_mem hk'
  rw [← heq] at hrem hout
  have hadd := hrem.insert b hout
  have heq' : (fun k => (moved L a b xs ys i k).map Addr.node) =
      Function.update (fun k => (M k).map Addr.node) b ((M b).map Addr.node ++ [.node i]) := by
    rw [moved, map_update, List.map_append, List.map_singleton, hMb]
  rw [← heq'] at hadd
  refine ⟨_, ?_, hadd, ?_⟩
  · rw [yxListAddBefore, hdel, (hrem.ring b).prev_head, Option.map_some]
  · intro j
    by_cases hj : j = i
    · exact ⟨b, (h.mem_moved hk hab j b).mpr (by rw [if_pos hj])⟩
    · obtain ⟨k, hjk⟩ := h.cover j
      exact ⟨k, (h.mem_moved hk hab j k).mpr (by rwa [if_neg hj])⟩

end Shape

section Active
variable {l : Links Addr} {L : Lists} {a b : ListId} {i : Fin 40} {xs ys : List (Fin 40)}

theorem active_iff {j : Fin 40} : Active L j ↔ ∃ k, k ≠ .stFreeList ∧ j ∈ L k := by
  constructor
  · rintro (h | h)
    · exact ⟨_, by decide, h⟩
    · exact ⟨_, by decide, h⟩
  · rintro ⟨k, hk, h⟩
    cases k with
    | stFreeList => exact absurd rfl hk
    | stReSendList => exact Or.inr h
    | stWaitTxList => exact Or.inl h

theorem active_of_eq (ha : a ≠ .stFreeList) (hk : L a = xs ++ i :: ys) : Active L i :=
  active_iff.mpr ⟨a, ha, by simp [hk]⟩

theorem Shape.not_active (h : Shape l L) (hi : i ∈ L .stFreeList) : ¬ Active L i := by
  intro hact
  obtain ⟨k, hk, hik⟩ := active_iff.mp hact
  exact hk (h.unique hik hi)

theorem Shape.active_moved (h : Shape l L) (hk : L a = xs ++ i :: ys) (hab : a ≠ b) (j : Fin 40) :
    Active (moved L a b xs ys i) j ↔ if j = i then b ≠ .stFreeList else Active L j := by
  rw [active_iff]
  simp only [h.mem_moved hk hab]
  split_ifs with hj
  · simp
  · rw [active_iff]

end Active

/-! ### Single transitions -/

/-- What ownership depends on is the same in both states. -/
structure Frame (tx tx' : Tx) : Prop where
  links : tx'.links = tx.links
  databuf : ∀ i, (tx'.nodes i).databuf = (tx.nodes i).databuf
  obtained : tx'.obtained = tx.obtained
  freed : tx'.freed = tx.freed
  mallocCalls : tx.mallocCalls ≤ tx'.mallocCalls
  txBuf : tx'.txBuf.length = tx.txBuf.length

theorem Frame.refl (tx : Tx) : Frame tx tx := ⟨rfl, fun _ => rfl, rfl, rfl, le_refl _, rfl⟩

theorem Frame.trans {tx tx' tx'' : Tx} (h : Frame tx tx') (h' : Frame tx' tx'') :
    Frame tx tx'' :=
  ⟨h'.links.trans h.links, fun i => (h'.databuf i).trans (h.databuf i),
    h'.obtained.trans h.obtained, h'.freed.trans h.freed, h.mallocCalls.trans h'.mallocCalls,
    h'.txBuf.trans h.txBuf⟩

theorem hwSenddata_frame (env : Env) (tx : Tx) (pdata : List UInt8) :
    Frame tx (hwSenddata env tx pdata).2 :=
  ⟨rfl, fun _ => rfl, rfl, rfl, le_refl _, rfl⟩

theorem length_fillHead (item : List UInt8) (h₁ h₂ : UInt8) (cmd : UInt32) (len : ℕ)
    (hl : 8 ≤ item.length) : (fillHead item h₁ h₂ cmd len).length = item.length := by
  simp only [fillHead, List.length_append, List.length_cons, List.length_nil, List.length_drop]
  omega

theorem length_buildItem {item : List UInt8} (beyond : List UInt8) (h₁ h₂ : UInt8)
    (args : SendArgs) (hl : 8 ≤ item.length) (hfit : args.len ≤ 1024 → args.len + 8 ≤ item.length) :
    (buildItem item beyond h₁ h₂ args).length = item.length := by
  have hhead := length_fillHead item h₁ h₂ args.cmd args.len hl
  rw [buildItem, List.length_set, copyData]
  split
  · split_ifs with hc
    · rw [RingStore.length_splice, hhead]
      rw [hhead, List.length_take]
      omega
    · exact hhead
  · exact hhead

theorem sendTxReqMsg_frame (tx : Tx) : Frame tx (sendTxReqMsg tx) := by
  unfold sendTxReqMsg
  split_ifs
  · exact ⟨rfl, fun _ => rfl, rfl, rfl, le_refl _, rfl⟩
  · exact Frame.refl tx

theorem sendTxReqMsg_eq (tx : Tx) :
    (sendTxReqMsg tx).nodes = tx.nodes ∧ (sendTxReqMsg tx).bufs = tx.bufs ∧
      (sendTxReqMsg tx).handed = tx.handed := by
  unfold sendTxReqMsg
  split_ifs <;> exact ⟨rfl, rfl, rfl⟩

theorem nodeFrame_eq {tx tx' : Tx} (hn : tx'.nodes = tx.nodes) (hb : tx'.bufs = tx.bufs) :
    nodeFrame tx' = nodeFrame tx := by
  funext i
  rw [nodeFrame, nodeFrame, hn, hb]

theorem addlinkack_frame (env : Env) (cmd : ℕ) {tx : Tx} (h : tx.txBuf.length = 1032) :
    Frame tx (addlinkack env cmd tx) := by
  have hlen : (buildItem tx.txBuf [] yxSerialLinkHeadDown1 yxSerialLinkHeadDown2
      ⟨UInt32.ofNat cmd, some [0x01], 1, by simp⟩).length = tx.txBuf.length :=
    length_buildItem _ _ _ _ (by omega) (by dsimp only; omega)
  exact ⟨rfl, fun _ => rfl, rfl, rfl, le_refl _, hlen⟩

/-- The step from `tx` to `tx'` keeps the lists and the ownership, and leaks nothing. -/
def Keeps (tx : Tx) (L : Lists) (tx' : Tx) (L' : Lists) : Prop :=
  Held tx' L' ∧ (Tight tx L → Tight tx' L')

theorem Keeps.trans {tx tx' tx'' : Tx} {L L' L'' : Lists} (h : Keeps tx L tx' L')
    (h' : Keeps tx' L' tx'' L'') : Keeps tx L tx'' L'' :=
  ⟨h'.1, fun ht => h'.2 (h.2 ht)⟩

section Transitions
variable {tx tx' : Tx} {L : Lists} {a b : ListId} {i : Fin 40} {xs ys : List (Fin 40)}

theorem Held.frame (h : Held tx L) (hf : Frame tx tx') : Keeps tx L tx' L := by
  have hlive : ∀ b, Live tx' b ↔ Live tx b := by
    intro b
    rw [Live, Live, hf.obtained, hf.freed]
  refine ⟨⟨hf.links ▸ h.shape, ⟨?_, ?_, ?_, ?_, ?_⟩, hf.txBuf.trans h.txBuf⟩, fun ht => ⟨?_, ?_⟩⟩
  · intro i hi
    obtain ⟨b, hb, hl⟩ := h.owns.buf i hi
    exact ⟨b, (hf.databuf i).trans hb, (hlive b).mpr hl⟩
  · intro i j hi hj he
    rw [hf.databuf, hf.databuf] at he
    exact h.owns.inj i j hi hj he
  · rw [hf.freed]
    exact h.owns.once
  · rw [hf.freed, hf.obtained]
    exact h.owns.freed
  · rw [hf.obtained]
    exact fun b hb => (h.owns.fresh b hb).trans_le hf.mallocCalls
  · intro b hb
    obtain ⟨i, hi, hbuf⟩ := ht.owned b ((hlive b).mp hb)
    exact ⟨i, hi, (hf.databuf i).trans hbuf⟩
  · intro i hi b hb
    rw [hf.databuf] at hb
    rw [hf.freed]
    exact ht.free i hi b hb

theorem Held.move (h : Held tx L) (hk : L a = xs ++ i :: ys) (hab : a ≠ b) (tx' : Tx)
    (htx : tx'.links = tx.links) :
    ∃ l', moveNode tx' i b = some { tx' with links := l' } ∧ Shape l' (moved L a b xs ys i) := by
  obtain ⟨l', hadd, hs⟩ := h.shape.move hk hab
  refine ⟨l', ?_, hs⟩
  rw [moveNode, htx, hadd, Option.map_some]

/-- A node leaves its list for the free list, and its buffer is freed. -/
theorem Held.release (h : Held tx L) (hk : L a = xs ++ i :: ys) (ha : a ≠ .stFreeList) :
    ∃ tx', moveNode (yxFree tx (tx.nodes i).databuf) i .stFreeList = some tx' ∧
      Keeps tx L tx' (moved L a .stFreeList xs ys i) := by
  obtain ⟨l', hmove, hs⟩ := h.move hk ha (yxFree tx (tx.nodes i).databuf) rfl
  have hact : Active L i := active_of_eq ha hk
  have hiff (j : Fin 40) : Active (moved L a .stFreeList xs ys i) j ↔ j ≠ i ∧ Active L j := by
    rw [h.shape.active_moved hk ha]
    split_ifs with hj <;> simp [hj]
  obtain ⟨b₀, hb₀, hl₀⟩ := h.owns.buf i hact
  have hfreed : (yxFree tx (tx.nodes i).databuf).freed = tx.freed ++ [b₀] := by
    rw [yxFree, hb₀, Option.toList_some]
  have hlive (b : ℕ) : Live { yxFree tx (tx.nodes i).databuf with links := l' } b ↔
      Live tx b ∧ b ≠ b₀ := by
    rw [Live, Live]
    dsimp only
    rw [hfreed, List.mem_append, List.mem_singleton, not_or, ← and_assoc]
    rfl
  refine ⟨_, hmove, ⟨hs, ⟨?_, ?_, ?_, ?_, h.owns.fresh⟩, h.txBuf⟩, fun ht => ⟨?_, ?_⟩⟩
  · intro j hj
    obtain ⟨hne, hj⟩ := (hiff j).mp hj
    obtain ⟨b, hb, hl⟩ := h.owns.buf j hj
    refine ⟨b, hb, (hlive b).mpr ⟨hl, ?_⟩⟩
    rintro rfl
    exact hne (h.owns.inj j i hj hact (hb.trans hb₀.symm))
  · intro j k hj hk'
    exact h.owns.inj j k ((hiff j).mp hj).2 ((hiff k).mp hk').2
  · dsimp only
    rw [hfreed]
    refine List.nodup_append.mpr ⟨h.owns.once, List.nodup_singleton b₀, ?_⟩
    rintro b hb _ hb' rfl
    rw [List.mem_singleton] at hb'
    exact hl₀.2 (hb' ▸ hb)
  · dsimp only
    rw [hfreed]
    intro b hb
    rcases List.mem_append.mp hb with hb | hb
    · exact h.owns.freed b hb
    · exact List.mem_singleton.mp hb ▸ hl₀.1
  · intro b hb
    obtain ⟨hl, hne⟩ := (hlive b).mp hb
    obtain ⟨j, hj, hbuf⟩ := ht.owned b hl
    refine ⟨j, (hiff j).mpr ⟨?_, hj⟩, hbuf⟩
    rintro rfl
    exact hne (Option.some.inj (hbuf.symm.trans hb₀))
  · intro j hj b hb
    dsimp only
    rw [hfreed]
    rw [h.shape.mem_moved hk ha] at hj
    split_ifs at hj with hji
    · subst hji
      have he : b = b₀ := Option.some.inj (hb.symm.trans hb₀)
      simp [he]
    · exact List.mem_append_left _ (ht.free j hj b hb)

/-- A sent node waits for its acknowledgement. -/
theorem Held.resend (h : Held tx L) (hk : L .stWaitTxList = xs ++ i :: ys) :
    ∃ tx', moveNode tx i .stReSendList = some tx' ∧
      Keeps tx L tx' (moved L .stWaitTxList .stReSendList xs ys i) := by
  have hab : ListId.stWaitTxList ≠ .stReSendList := by decide
  obtain ⟨l', hmove, hs⟩ := h.move hk hab tx rfl
  have hact : Active L i := active_of_eq (by decide) hk
  have hiff (j : Fin 40) :
      Active (moved L .stWaitTxList .stReSendList xs ys i) j ↔ Active L j := by
    rw [h.shape.active_moved hk hab]
    split_ifs with hj
    · simpa [hj] using hact
    · rfl
  refine ⟨_, hmove, ⟨hs, ⟨?_, ?_, h.owns.once, h.owns.freed, h.owns.fresh⟩, h.txBuf⟩,
    fun ht => ⟨?_, ?_⟩⟩
  · exact fun j hj => h.owns.buf j ((hiff j).mp hj)
  · exact fun j k hj hk' => h.owns.inj j k ((hiff j).mp hj) ((hiff k).mp hk')
  · intro b hb
    obtain ⟨j, hj, hbuf⟩ := ht.owned b hb
    exact ⟨j, (hiff j).mpr hj, hbuf⟩
  · intro j hj b hb
    rw [h.shape.mem_moved hk hab] at hj
    split_ifs at hj with hji
    exact ht.free j hj b hb

/-- A node that leaves for the free list with its buffer keeps all but the buffer's owner. -/
theorem Held.drop (h : Held tx L) (hk : L a = xs ++ i :: ys) (ha : a ≠ .stFreeList) :
    ∃ tx', moveNode tx i .stFreeList = some tx' ∧
      Held tx' (moved L a .stFreeList xs ys i) := by
  obtain ⟨l', hmove, hs⟩ := h.move hk ha tx rfl
  have hsub (j : Fin 40) : Active (moved L a .stFreeList xs ys i) j → Active L j := by
    rw [h.shape.active_moved hk ha]
    split_ifs with hj <;> simp
  refine ⟨_, hmove, hs, ⟨?_, ?_, h.owns.once, h.owns.freed, h.owns.fresh⟩, h.txBuf⟩
  · exact fun j hj => h.owns.buf j (hsub j hj)
  · exact fun j k hj hk' => h.owns.inj j k (hsub j hj) (hsub k hk')

/-! ### A new node -/

/-- A node gets a fresh buffer with a frame. -/
def attach (tx : Tx) (i : Fin 40) (item : List UInt8) (node : SerialItemNode) : Tx :=
  { tx with
    nodes := Function.update tx.nodes i { node with databuf := some tx.mallocCalls }
    bufs := Function.update tx.bufs tx.mallocCalls item
    mallocCalls := tx.mallocCalls + 1
    obtained := tx.obtained ++ [tx.mallocCalls] }

section Attach
variable {item : List UInt8} {node : SerialItemNode} {j : Fin 40}

theorem databuf_attach_self : ((attach tx i item node).nodes i).databuf = some tx.mallocCalls := by
  simp [attach]

theorem nodes_attach_of_ne (hj : j ≠ i) : (attach tx i item node).nodes j = tx.nodes j :=
  Function.update_of_ne hj _ _

/-- Ownership does not depend on the links. -/
theorem Owns.relink (h : Owns tx L) (l' : Links Addr) : Owns { tx with links := l' } L :=
  ⟨h.buf, h.inj, h.once, h.freed, h.fresh⟩

theorem Tight.relink (h : Tight tx L) (l' : Links Addr) : Tight { tx with links := l' } L :=
  ⟨h.owned, h.free⟩

theorem Owns.ne_mallocCalls (h : Owns tx L) {b : ℕ} (hb : Live tx b) : b ≠ tx.mallocCalls :=
  (h.fresh b hb.1).ne

theorem Owns.live_attach (h : Owns tx L) (b : ℕ) :
    Live (attach tx i item node) b ↔ Live tx b ∨ b = tx.mallocCalls := by
  have hfresh : tx.mallocCalls ∉ tx.freed := fun hc => (h.fresh _ (h.freed _ hc)).ne rfl
  simp only [Live, attach, List.mem_append, List.mem_singleton]
  constructor
  · rintro ⟨hb | hb, hf⟩
    · exact Or.inl ⟨hb, hf⟩
    · exact Or.inr hb
  · rintro (⟨hb, hf⟩ | rfl)
    · exact ⟨Or.inl hb, hf⟩
    · exact ⟨Or.inr rfl, hfresh⟩

theorem Held.ne_of_free (h : Held tx L) (hk : L .stFreeList = i :: ys) (hj : Active L j) :
    j ≠ i := by
  rintro rfl
  exact h.shape.not_active (by simp [hk]) hj

theorem Held.active_queued (h : Held tx L) (hk : L .stFreeList = i :: ys) (j : Fin 40) :
    Active (moved L .stFreeList .stWaitTxList [] ys i) j ↔ j = i ∨ Active L j := by
  have hk' : L .stFreeList = [] ++ i :: ys := hk
  rw [h.shape.active_moved hk' (by decide)]
  split_ifs with hj <;> simp [hj]

theorem Held.owns_attach (h : Held tx L) (hk : L .stFreeList = i :: ys) :
    Owns (attach tx i item node) (moved L .stFreeList .stWaitTxList [] ys i) := by
  have hnodes (j : Fin 40) (hj : Active L j) : (attach tx i item node).nodes j = tx.nodes j :=
    nodes_attach_of_ne (h.ne_of_free hk hj)
  constructor
  case buf =>
    intro j hj
    rcases (h.active_queued hk j).mp hj with rfl | hj
    · exact ⟨_, databuf_attach_self, (h.owns.live_attach _).mpr (Or.inr rfl)⟩
    · obtain ⟨b, hb, hl⟩ := h.owns.buf j hj
      exact ⟨b, by rw [hnodes j hj, hb], (h.owns.live_attach b).mpr (Or.inl hl)⟩
  case inj =>
    -- the buffer of the new node is none of the others
    have hcase : ∀ j, Active L j →
        ((attach tx i item node).nodes j).databuf ≠ ((attach tx i item node).nodes i).databuf := by
      intro j hj he
      obtain ⟨b, hb, hl⟩ := h.owns.buf j hj
      rw [hnodes j hj, hb, databuf_attach_self] at he
      exact h.owns.ne_mallocCalls hl (Option.some.inj he)
    intro j k hj hk' he
    rcases (h.active_queued hk j).mp hj with hji | hj'
    · rcases (h.active_queued hk k).mp hk' with hki | hk''
      · rw [hji, hki]
      · rw [hji] at he
        exact absurd he.symm (hcase k hk'')
    · rcases (h.active_queued hk k).mp hk' with hki | hk''
      · rw [hki] at he
        exact absurd he (hcase j hj')
      · rw [hnodes j hj', hnodes k hk''] at he
        exact h.owns.inj j k hj' hk'' he
  case once => exact h.owns.once
  case freed => exact fun b hb => List.mem_append_left _ (h.owns.freed b hb)
  case fresh =>
    intro b hb
    rcases List.mem_append.mp hb with hb | hb
    · exact (h.owns.fresh b hb).trans (Nat.lt_succ_self _)
    · exact List.mem_singleton.mp hb ▸ Nat.lt_succ_self _

theorem Held.tight_attach (h : Held tx L) (hk : L .stFreeList = i :: ys) (ht : Tight tx L) :
    Tight (attach tx i item node) (moved L .stFreeList .stWaitTxList [] ys i) := by
  have hk' : L .stFreeList = [] ++ i :: ys := hk
  constructor
  case owned =>
    intro b hb
    rcases (h.owns.live_attach b).mp hb with hb | rfl
    · obtain ⟨j, hj, hbuf⟩ := ht.owned b hb
      refine ⟨j, (h.active_queued hk j).mpr (Or.inr hj), ?_⟩
      rw [nodes_attach_of_ne (h.ne_of_free hk hj), hbuf]
    · exact ⟨i, (h.active_queued hk i).mpr (Or.inl rfl), databuf_attach_self⟩
  case free =>
    intro j hj b hb
    rw [h.shape.mem_moved hk' (by decide)] at hj
    split_ifs at hj with hji
    rw [nodes_attach_of_ne hji] at hb
    exact ht.free j hj b hb

theorem Held.nodeFrame_attach (h : Held tx L) (hk : L .stFreeList = i :: ys) (hj : Active L j) :
    nodeFrame (attach tx i item node) j = nodeFrame tx j := by
  obtain ⟨b, hb, hl⟩ := h.owns.buf j hj
  rw [nodeFrame, nodeFrame, nodes_attach_of_ne (h.ne_of_free hk hj), hb, Option.elim_some,
    Option.elim_some]
  simp only [attach, Function.update_of_ne (h.owns.ne_mallocCalls hl)]

end Attach

/-- The first free node gets a fresh buffer and waits to be sent. -/
theorem Held.queueItem (h : Held tx L) (hne : L .stFreeList ≠ []) (item : List UInt8)
    (node : SerialItemNode) :
    ∃ tx' L', queueItem { tx with
        mallocCalls := tx.mallocCalls + 1, obtained := tx.obtained ++ [tx.mallocCalls] }
        tx.mallocCalls item node = some tx' ∧ Keeps tx L tx' L' ∧
      waiting tx' L' = waiting tx L ++ [item.take node.nodeLen] ∧ tx'.handed = tx.handed ∧
      L .stWaitTxList <+: L' .stWaitTxList := by
  obtain ⟨i, ys, hk⟩ := List.exists_cons_of_ne_nil hne
  have hk' : L .stFreeList = [] ++ i :: ys := hk
  obtain ⟨l', hmove, hs⟩ := h.move hk' (show ListId.stFreeList ≠ .stWaitTxList by decide)
    (attach tx i item node) rfl
  have hheld : Keeps tx L { attach tx i item node with links := l' }
      (moved L .stFreeList .stWaitTxList [] ys i) :=
    ⟨⟨hs, (h.owns_attach hk).relink l', h.txBuf⟩, fun ht => (h.tight_attach hk ht).relink l'⟩
  have hentry : yxListEntry (tx.links.next (.head .stFreeList)) = some i := by
    rw [h.shape.next_head, hk]
    rfl
  have hsame : ∀ j ∈ L .stWaitTxList,
      nodeFrame { attach tx i item node with links := l' } j = nodeFrame tx j := fun j hj =>
    h.nodeFrame_attach hk (Or.inl hj)
  have hlast : nodeFrame { attach tx i item node with links := l' } i = item.take node.nodeLen := by
    simp only [nodeFrame, attach, Function.update_self, Option.elim_some]
  obtain ⟨hnodes, hbufs, hhanded⟩ := sendTxReqMsg_eq { attach tx i item node with links := l' }
  refine ⟨sendTxReqMsg { attach tx i item node with links := l' }, _, ?_,
    hheld.trans (hheld.1.frame (sendTxReqMsg_frame _)), ?_, hhanded, ?_⟩
  · rw [SerialLink.queueItem]
    dsimp only
    rw [hentry, Option.bind_some]
    exact congrArg (Option.map sendTxReqMsg) hmove
  · rw [waiting, waiting, nodeFrame_eq hnodes hbufs, moved, Function.update_self,
      List.map_append, List.map_singleton, hlast, List.map_congr_left hsame]
  · rw [moved, Function.update_self]
    exact List.prefix_append _ _

end Transitions

end Tulux.SerialLink
