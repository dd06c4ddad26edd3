import Tulux.SerialLink.Invariants

/-! The loop of `_yx_serial_link_rxrec`, a turn at a time: the bytes it reads, where it leaves the
offset, and the frames that it reports. -/
namespace Tulux.SerialLink
open CircularList Framing

/-! ### Turns -/

/-- What the loop at `_ANALYSE` does in a turn: where the search starts and where it ends, the bytes
that are read, the frame that is reported with the byte behind its head, where the offset is left, and
whether the loop goes on. -/
structure RxTurn where
  start : ℕ
  off : ℕ
  reads : List ℕ
  report : Option (List UInt8 × UInt8)
  next : ℕ
  again : Bool
  deriving DecidableEq

/-- The bytes that the search for a frame head reads, the first of which is `k`. -/
def findReads (k : ℕ) : List UInt8 → List ℕ
  | [] => []
  | [_] => [k]
  | b₀ :: b₁ :: rest =>
    k :: (if b₀ = yxSerialLinkHeadUp1 then [k + 1] else []) ++
      if b₀ = yxSerialLinkHeadUp1 ∧ b₁ = yxSerialLinkHeadUp2 then []
      else findReads (k + 1) (b₁ :: rest)

def rxTurn (pbuf : List UInt8) (datalen start : ℕ) : RxTurn :=
  let rest := (pbuf.take datalen).drop start
  let off := start + yxSerialLinkFindframehead rest
  let pDlHead := pbuf.drop off
  let size := headLen pDlHead
  let frame := pDlHead.take (size + 8)
  let searched := findReads start rest
  -- `len_h` and `len_l`, then `crc` and what is summed up
  let sized := searched ++ [off + 6, off + 7]
  let summed := sized ++ (off + 2) :: List.range' (off + 4) (size + 4)
  if datalen - off < 8 then ⟨start, off, searched, none, off, false⟩
  else if size + 8 ≤ datalen - off then
    if headCrc pDlHead = itemXor pDlHead size then
      -- `cmd_h` and `cmd_l`, and `Data[0]` of a connect request
      let handled := summed ++ [off + 4, off + 5] ++
        if headCmd frame = yxSerialLinkReqCmd then [off + 8] else []
      ⟨start, off, handled, some (frame, pDlHead.getD 8 0), off + (size + 8),
        off + (size + 8) < datalen⟩
    else ⟨start, off, summed, none, off + 2, true⟩
  else if 1024 < datalen then ⟨start, off, sized, none, off + 2, true⟩
  else ⟨start, off, sized, none, off, false⟩

theorem rxTurn_decreases {pbuf : List UInt8} {datalen start : ℕ}
    (h : (rxTurn pbuf datalen start).again = true) :
    datalen - (rxTurn pbuf datalen start).next < datalen - start := by
  unfold rxTurn at h ⊢
  dsimp only at h ⊢
  split_ifs at h ⊢ <;> simp at h ⊢ <;> omega

def rxTurns (pbuf : List UInt8) (datalen start : ℕ) : List RxTurn :=
  rxTurn pbuf datalen start ::
    if _h : (rxTurn pbuf datalen start).again = true then
      rxTurns pbuf datalen (rxTurn pbuf datalen start).next
    else []
termination_by datalen - start
decreasing_by exact rxTurn_decreases _h

/-- The turns of a call. -/
def rxrecTurns (pbuf : List UInt8) (datalen : ℕ) : List RxTurn :=
  if datalen < 8 then [] else rxTurns pbuf datalen 0

/-- Where turns leave the offset. -/
def rxEnd (start : ℕ) (turns : List RxTurn) : ℕ := turns.foldl (fun _ turn => turn.next) start

def rxReports (turns : List RxTurn) : List (List UInt8 × UInt8) := turns.filterMap RxTurn.report

def rxReads (turns : List RxTurn) : List ℕ := turns.flatMap RxTurn.reads

/-- The values of the offset, in order. -/
def rxOffsets (turns : List RxTurn) : List ℕ :=
  turns.flatMap fun turn => [turn.start, turn.off, turn.next]

/-- A complete frame with the right checksum stands at the front. -/
structure ValidFrame (xs : List UInt8) : Prop where
  starts : startsFrame xs
  complete : 8 + headLen xs ≤ xs.length
  checked : headCrc xs = itemXor xs (headLen xs)

/-- A call returns the offset at which its turns end and handles the frames that they report; the
offset does not decrease and stays in the received bytes, only these are read, and each valid frame
that starts before the returned offset lies in a reported one. -/
structure RxScanBounds (env : Env) (pbuf : List UInt8) (datalen : ℕ) (link : Link) : Prop where
  returns : ∃ link', rxrec env pbuf datalen link =
      some (rxEnd 0 (rxrecTurns pbuf datalen), link') ∧
    link'.accepted = link.accepted ++ (rxReports (rxrecTurns pbuf datalen)).map Prod.fst
  monotone : (rxOffsets (rxrecTurns pbuf datalen)).Pairwise (· ≤ ·)
  bounded : ∀ offset ∈ rxOffsets (rxrecTurns pbuf datalen), offset ≤ datalen
  inside : ∀ i ∈ rxReads (rxrecTurns pbuf datalen), i < datalen
  reported : ∀ p < rxEnd 0 (rxrecTurns pbuf datalen), ValidFrame ((pbuf.take datalen).drop p) →
    ∃ turn ∈ rxrecTurns pbuf datalen, ∃ frame data, turn.report = some (frame, data) ∧
      turn.off ≤ p ∧ p < turn.off + frame.length

/-- The received bytes end with a connect request without data, which the scan comes to. -/
def BareRequestAtEnd (bytes : List UInt8) : Prop :=
  ∃ tail ∈ refScanner.visits bytes,
    tail.length = 8 ∧ ValidFrame tail ∧ headCmd tail = yxSerialLinkReqCmd

section Turns
variable {pbuf : List UInt8} {datalen start : ℕ}

/-! ### The search -/

theorem findReads_lt (k : ℕ) (xs : List UInt8) : ∀ i ∈ findReads k xs, i < k + xs.length := by
  induction k, xs using findReads.induct with
  | case1 k => simp [findReads]
  | case2 k b => simp [findReads]
  | case3 k b₀ b₁ rest ih =>
    intro i hi
    simp only [findReads, List.mem_append, List.mem_cons] at hi
    simp only [List.length_cons] at ih ⊢
    rcases hi with (rfl | hsecond) | hlater
    · omega
    · split_ifs at hsecond
      · rw [List.mem_singleton.mp hsecond]
        omega
      · cases hsecond
    · split_ifs at hlater
      · cases hlater
      · have hlt := ih i hlater
        omega

/-- No frame head is in front of the one that is found. -/
theorem not_startsFrame_of_lt {xs : List UInt8} {i : ℕ}
    (h : i < yxSerialLinkFindframehead xs) : ¬ startsFrame (xs.drop i) := by
  induction xs using yxSerialLinkFindframehead.induct generalizing i with
  | case1 => exact absurd h (Nat.not_lt_zero i)
  | case2 => simp [yxSerialLinkFindframehead] at h
  | case3 b hb =>
    simp only [yxSerialLinkFindframehead, if_neg hb, Nat.lt_one_iff] at h
    simp [h, startsFrame]
  | case4 b₀ b₁ rest hh => simp [yxSerialLinkFindframehead, hh] at h
  | case5 b₀ b₁ rest hh ih =>
    rw [yxSerialLinkFindframehead, if_neg hh] at h
    cases i with
    | zero => simpa [startsFrame] using hh
    | succ i => exact ih (by omega)

theorem not_startsFrame_second {xs : List UInt8} (h : startsFrame xs) :
    ¬ startsFrame (xs.drop 1) := by
  intro hsecond
  match xs, h with
  | [], h => simp [startsFrame] at h
  | [_], h => simp [startsFrame] at h
  | b₀ :: b₁ :: rest, h =>
    simp only [startsFrame, List.drop_succ_cons, List.drop_zero, List.getElem?_cons_zero,
      List.getElem?_cons_succ, Bool.and_eq_true, beq_iff_eq, Option.some.injEq] at h hsecond
    exact absurd (h.2.symm.trans hsecond.1) (by decide)

/-! ### A turn -/

/-- A turn waits for more bytes, or it passes over a head whose frame has a wrong checksum, or it
reports a frame. Only the data of a connect request can be read behind the received bytes. -/
inductive TurnKind (bytes : List UInt8) (turn : RxTurn) : Prop
  | waits : turn.report = none → turn.next = turn.off → turn.again = false →
      scanNext (bytes.drop turn.off) = none → (∀ i ∈ turn.reads, i < bytes.length) →
      TurnKind bytes turn
  | skips : turn.report = none → turn.next = turn.off + 2 → turn.again = true →
      turn.next ≤ bytes.length → scanNext (bytes.drop turn.off) = some (1, none) →
      startsFrame (bytes.drop turn.off) → (∀ i ∈ turn.reads, i < bytes.length) →
      TurnKind bytes turn
  | reports (frame : List UInt8) (data : UInt8) : turn.report = some (frame, data) →
      frame = (bytes.drop turn.off).take (headLen (bytes.drop turn.off) + 8) →
      ValidFrame (bytes.drop turn.off) →
      turn.next = turn.off + (headLen (bytes.drop turn.off) + 8) →
      turn.again = decide (turn.next < bytes.length) →
      ((∀ i ∈ turn.reads, i < bytes.length) ↔ ¬ (headCmd frame = yxSerialLinkReqCmd ∧
        headLen (bytes.drop turn.off) = 0 ∧ turn.next = bytes.length)) →
      TurnKind bytes turn

/-- Where the search from `start` on stops. -/
structure Searched (bytes : List UInt8) (start off : ℕ) : Prop where
  start_le : start ≤ off
  off_le : off ≤ bytes.length
  passes : refScanner.Passes (bytes.drop start) [] (bytes.drop off)
  free : ∀ p, start ≤ p → p < off → ¬ startsFrame (bytes.drop p)
  stops : startsFrame (bytes.drop off) ∨ scanNext (bytes.drop off) = none
  reads : ∀ i ∈ findReads start (bytes.drop start), i < bytes.length

structure TurnSpec (bytes : List UInt8) (start : ℕ) (turn : RxTurn) : Prop where
  start_eq : turn.start = start
  searched : Searched bytes start turn.off
  kind : TurnKind bytes turn

theorem findframehead_searched {bytes : List UInt8} (h : start ≤ bytes.length) :
    Searched bytes start (start + yxSerialLinkFindframehead (bytes.drop start)) := by
  have hfind := findframehead_le (bytes.drop start)
  have hpasses := findframehead_passes (bytes.drop start)
  have hstops := findframehead_stops (bytes.drop start)
  rw [List.drop_drop] at hpasses hstops
  rw [List.length_drop] at hfind
  constructor
  case start_le => exact Nat.le_add_right _ _
  case off_le => omega
  case passes => exact hpasses
  case stops => exact hstops
  case free =>
    intro p hp hlt
    have hnone : ¬ startsFrame ((bytes.drop start).drop (p - start)) :=
      not_startsFrame_of_lt (by omega)
    rwa [List.drop_drop, Nat.add_sub_cancel' hp] at hnone
  case reads =>
    intro i hi
    have hlt := findReads_lt start (bytes.drop start) i hi
    rw [List.length_drop] at hlt
    omega

theorem ValidFrame.scanNext {xs : List UInt8} (h : ValidFrame xs) :
    scanNext xs = some (headLen xs + 8, some (xs.take (headLen xs + 8))) := by
  rw [Nat.add_comm, scanNext_accept h.starts h.complete h.checked]

theorem rxTurn_spec (hbuf : datalen ≤ pbuf.length) (hmax : datalen ≤ 1024)
    (hstart : start ≤ datalen) :
    TurnSpec (pbuf.take datalen) start (rxTurn pbuf datalen start) := by
  have hlength := length_received hbuf
  have hsearched := findframehead_searched (hstart.trans_eq hlength.symm)
  unfold rxTurn
  dsimp only
  generalize start + yxSerialLinkFindframehead ((pbuf.take datalen).drop start) = off at hsearched ⊢
  have hoff : off ≤ datalen := hsearched.off_le.trans_eq hlength
  have hitem : ((pbuf.take datalen).drop off).length = datalen - off := by
    rw [List.length_drop, hlength]
  have hhead (h : off + 8 ≤ datalen) := head_received hbuf h
  have hwhole (size : ℕ) (h : off + (size + 8) ≤ datalen) := frame_received hbuf h
  have hstops := hsearched.stops
  generalize pbuf.take datalen = bytes at hlength hsearched hitem hhead hwhole hstops ⊢
  obtain ⟨item, heq⟩ : ∃ item, item = bytes.drop off := ⟨_, rfl⟩
  rw [← heq] at hitem hstops
  simp only [← heq] at hhead hwhole
  have hreads : ∀ i ∈ findReads start (bytes.drop start), i < datalen := fun i hi =>
    (hsearched.reads i hi).trans_eq hlength
  by_cases hshort : datalen - off < 8
  · have hwait : scanNext item = none := hstops.elim (fun hs => scanNext_short hs (by omega)) id
    rw [if_pos hshort]
    exact ⟨rfl, hsearched, .waits rfl rfl rfl (heq ▸ hwait) hsearched.reads⟩
  rw [if_neg hshort]
  have hs : startsFrame item := hstops.elim id fun hn => (scanNext_none hn (by omega)).1
  obtain ⟨hlen, hcrc⟩ := hhead (by omega)
  have hsized : ∀ i ∈ findReads start (bytes.drop start) ++ [off + 6, off + 7], i < datalen := by
    simp only [List.forall_mem_append, List.forall_mem_cons]
    exact ⟨hreads, by omega, by omega, by simp⟩
  rw [hlen, hcrc]
  by_cases hfit : headLen item + 8 ≤ datalen - off
  swap
  · have hwait : scanNext item = none := scanNext_short hs (by omega)
    rw [if_neg hfit, if_neg (by omega)]
    exact ⟨rfl, hsearched, .waits rfl rfl rfl (heq ▸ hwait) (by rwa [hlength])⟩
  obtain ⟨hxor, hframe⟩ := hwhole (headLen item) (by omega)
  have hsummed : ∀ i ∈ findReads start (bytes.drop start) ++ [off + 6, off + 7] ++
      (off + 2) :: List.range' (off + 4) (headLen item + 4), i < datalen := by
    rw [List.forall_mem_append]
    refine ⟨hsized, List.forall_mem_cons.mpr ⟨by omega, fun i hi => ?_⟩⟩
    have hrange := List.mem_range'_1.mp hi
    omega
  rw [if_pos hfit, hxor, hframe]
  by_cases hright : headCrc item = itemXor item (headLen item)
  · have hvalid : ValidFrame item := ⟨hs, by omega, hright⟩
    rw [if_pos hright]
    subst heq
    refine ⟨rfl, hsearched, .reports _ _ rfl rfl hvalid rfl (by rw [hlength]) ?_⟩
    dsimp only
    rw [hlength, List.forall_mem_append, List.forall_mem_append, and_iff_right hsummed]
    have hcmd : ∀ i ∈ [off + 4, off + 5], i < datalen := by
      simp only [List.forall_mem_cons]
      exact ⟨by omega, by omega, by simp⟩
    rw [and_iff_right hcmd]
    split_ifs with hreq
    · rw [List.forall_mem_singleton, and_iff_right hreq]
      omega
    · simp [hreq]
  · have hwrong : scanNext item = some (1, none) := scanNext_crc hs (by omega) hright
    rw [if_neg hright]
    subst heq
    exact ⟨rfl, hsearched, .skips rfl rfl rfl (by dsimp only; omega) hwrong hs (by rwa [hlength])⟩

section Spec
variable {bytes : List UInt8} {turn : RxTurn}

theorem TurnSpec.off_le_next (h : TurnSpec bytes start turn) : turn.off ≤ turn.next := by
  cases h.kind with
  | waits _ hnext => omega
  | skips _ hnext => omega
  | reports _ _ _ _ _ hnext => omega

theorem TurnSpec.next_le (h : TurnSpec bytes start turn) : turn.next ≤ bytes.length := by
  cases h.kind with
  | waits _ hnext => exact hnext.trans_le h.searched.off_le
  | skips _ _ _ hle => exact hle
  | reports _ _ _ _ hvalid hnext =>
    have hcomplete := hvalid.complete
    rw [List.length_drop] at hcomplete
    omega

end Spec

/-! ### All turns -/

/-- What holds of a last turn, and of a turn that goes on with what holds of the others, holds of all
turns. -/
theorem rxTurns_rec {P : ℕ → List RxTurn → Prop} (hbuf : datalen ≤ pbuf.length)
    (hmax : datalen ≤ 1024)
    (hlast : ∀ start turn, TurnSpec (pbuf.take datalen) start turn → turn.again = false →
      P start [turn])
    (hmore : ∀ start turn turns, TurnSpec (pbuf.take datalen) start turn → turn.again = true →
      P turn.next turns → P start (turn :: turns)) (hstart : start ≤ datalen) :
    P start (rxTurns pbuf datalen start) := by
  induction hk : datalen - start using Nat.strong_induction_on generalizing start with
  | _ k ih =>
    have hspec := rxTurn_spec hbuf hmax hstart
    rw [rxTurns]
    cases hagain : (rxTurn pbuf datalen start).again with
    | false => exact hlast start _ hspec hagain
    | true =>
      refine hmore start _ _ hspec hagain ?_
      have hnext : (rxTurn pbuf datalen start).next ≤ datalen :=
        hspec.next_le.trans_eq (length_received hbuf)
      exact ih _ (hk ▸ rxTurn_decreases hagain) hnext rfl

theorem rxTurns_again (h : (rxTurn pbuf datalen start).again = true) :
    rxTurns pbuf datalen start = rxTurn pbuf datalen start ::
      rxTurns pbuf datalen (rxTurn pbuf datalen start).next := by
  rw [rxTurns, dif_pos h]

theorem rxTurns_last (h : ¬ (rxTurn pbuf datalen start).again = true) :
    rxTurns pbuf datalen start = [rxTurn pbuf datalen start] := by
  rw [rxTurns, dif_neg h]

/-- A turn reports its frame before the loop goes on. -/
theorem rxrecAnalyse_turn (env : Env) (pbuf : List UInt8) (datalen start : ℕ) (link : Link) :
    let turn := rxTurn pbuf datalen start
    rxrecAnalyse env pbuf datalen start link =
      (turn.report.toList.foldlM (fun link report => rxFrame env report.1 report.2 link) link).bind
        fun link => if turn.again then rxrecAnalyse env pbuf datalen turn.next link
          else some (turn.next, link) := by
  intro turn
  conv_lhs => rw [rxrecAnalyse]
  unfold turn rxTurn
  dsimp only
  obtain ⟨off, hoff⟩ : ∃ off, off =
    start + yxSerialLinkFindframehead ((pbuf.take datalen).drop start) := ⟨_, rfl⟩
  simp only [← hoff]
  by_cases hshort : datalen - off < 8
  · simp [hshort]
  rw [if_neg hshort, if_neg hshort]
  by_cases hfit : headLen (pbuf.drop off) + 8 ≤ datalen - off
  · rw [if_pos hfit, if_pos hfit]
    by_cases hright : headCrc (pbuf.drop off) = itemXor (pbuf.drop off) (headLen (pbuf.drop off))
    · rw [if_pos hright, if_pos hright]
      simp
    · rw [if_neg hright, if_neg hright]
      simp
  · rw [if_neg hfit, if_neg hfit]
    by_cases hmax : 1024 < datalen
    · simp [hmax]
    · simp [hmax]

/-- The frames that the turns report are handled one after the other. -/
theorem rxrecAnalyse_eq_turns (env : Env) (pbuf : List UInt8) (datalen start : ℕ) (link : Link) :
    rxrecAnalyse env pbuf datalen start link =
      ((rxReports (rxTurns pbuf datalen start)).foldlM
        (fun link report => rxFrame env report.1 report.2 link) link).map
          fun link => (rxEnd start (rxTurns pbuf datalen start), link) := by
  induction hk : datalen - start using Nat.strong_induction_on generalizing start link with
  | _ k ih =>
    rw [rxrecAnalyse_turn]
    set turn := rxTurn pbuf datalen start with hturn
    have hreports (turns : List RxTurn) :
        rxReports (turn :: turns) = turn.report.toList ++ rxReports turns := by
      unfold rxReports
      cases hreport : turn.report <;> simp [hreport]
    by_cases hagain : turn.again = true
    · rw [rxTurns_again hagain, ← hturn, hreports, List.foldlM_append]
      simp only [if_pos hagain, fun link => ih _ (hk ▸ rxTurn_decreases hagain) turn.next link rfl]
      exact (Option.map_bind).symm
    · rw [rxTurns_last hagain, ← hturn, hreports]
      simp only [if_neg hagain]
      simp [rxReports, rxEnd, Option.map_eq_bind]

end Turns

section Bounds
variable {bytes pbuf : List UInt8} {datalen start : ℕ} {turn : RxTurn} {turns : List RxTurn}

/-! ### Offsets -/

theorem rxOffsets_cons (turn : RxTurn) (turns : List RxTurn) :
    rxOffsets (turn :: turns) = turn.start :: turn.off :: turn.next :: rxOffsets turns := rfl

/-- The offset does not decrease and stays in the received bytes. -/
theorem rxTurns_offsets (hbuf : datalen ≤ pbuf.length) (hmax : datalen ≤ 1024)
    (hstart : start ≤ datalen) :
    (rxOffsets (rxTurns pbuf datalen start)).Pairwise (· ≤ ·) ∧
      ∀ offset ∈ rxOffsets (rxTurns pbuf datalen start),
        start ≤ offset ∧ offset ≤ (pbuf.take datalen).length := by
  have hone {start : ℕ} {turn : RxTurn} {turns : List RxTurn}
      (h : TurnSpec (pbuf.take datalen) start turn)
      (hpairs : (rxOffsets turns).Pairwise (· ≤ ·))
      (hrest : ∀ offset ∈ rxOffsets turns,
        turn.next ≤ offset ∧ offset ≤ (pbuf.take datalen).length) :
      (rxOffsets (turn :: turns)).Pairwise (· ≤ ·) ∧ ∀ offset ∈ rxOffsets (turn :: turns),
        start ≤ offset ∧ offset ≤ (pbuf.take datalen).length := by
    have hstart := h.start_eq
    have hle := h.searched.start_le
    have hoff := h.searched.off_le
    have hnext := h.off_le_next
    have hbound := h.next_le
    rw [rxOffsets_cons]
    simp only [List.pairwise_cons, List.forall_mem_cons, hstart]
    refine ⟨⟨⟨hle, hle.trans hnext, fun o ho => ?_⟩, ⟨hnext, fun o ho => ?_⟩,
      fun o ho => (hrest o ho).1, hpairs⟩, ⟨le_rfl, hle.trans hoff⟩, ⟨hle, hoff⟩,
      ⟨hle.trans hnext, hbound⟩, fun o ho => ?_⟩
    · exact (hle.trans hnext).trans (hrest o ho).1
    · exact hnext.trans (hrest o ho).1
    · exact ⟨(hle.trans hnext).trans (hrest o ho).1, (hrest o ho).2⟩
  exact rxTurns_rec (P := fun start turns => (rxOffsets turns).Pairwise (· ≤ ·) ∧
      ∀ offset ∈ rxOffsets turns, start ≤ offset ∧ offset ≤ (pbuf.take datalen).length)
    hbuf hmax (fun _ _ h _ => hone h List.Pairwise.nil (by simp [rxOffsets]))
    (fun _ _ _ h _ ih => hone h ih.1 ih.2) hstart

/-! ### Frames -/

/-- Each valid frame that starts in a turn lies in the frame that the turn reports. -/
theorem TurnSpec.reported (h : TurnSpec bytes start turn) {p : ℕ} (hp : start ≤ p)
    (hnext : p < turn.next) (hvalid : ValidFrame (bytes.drop p)) :
    ∃ frame data, turn.report = some (frame, data) ∧ turn.off ≤ p ∧
      p < turn.off + frame.length := by
  have hoff : turn.off ≤ p := not_lt.mp fun hlt => h.searched.free p hp hlt hvalid.starts
  cases h.kind with
  | waits _ hend => omega
  | skips _ hend _ _ hwrong hstarts =>
    -- neither the head with the wrong checksum nor the byte behind it starts one
    rcases Nat.eq_or_lt_of_le hoff with rfl | hlt
    · have hright := hvalid.scanNext.symm.trans hwrong
      simp at hright
    · obtain rfl : p = turn.off + 1 := by omega
      have hsecond := not_startsFrame_second hstarts
      rw [List.drop_drop] at hsecond
      exact absurd hvalid.starts hsecond
  | reports frame data hreport hframe hcomplete hend =>
    have hlength : frame.length = headLen (bytes.drop turn.off) + 8 := by
      rw [hframe, List.length_take]
      have hle := hcomplete.complete
      omega
    exact ⟨frame, data, hreport, hoff, by omega⟩

theorem rxTurns_reported (hbuf : datalen ≤ pbuf.length) (hmax : datalen ≤ 1024)
    (hstart : start ≤ datalen) :
    ∀ p, start ≤ p → p < rxEnd start (rxTurns pbuf datalen start) →
      ValidFrame ((pbuf.take datalen).drop p) →
      ∃ turn ∈ rxTurns pbuf datalen start, ∃ frame data, turn.report = some (frame, data) ∧
        turn.off ≤ p ∧ p < turn.off + frame.length := by
  refine rxTurns_rec (P := fun start turns => ∀ p, start ≤ p → p < rxEnd start turns →
      ValidFrame ((pbuf.take datalen).drop p) →
      ∃ turn ∈ turns, ∃ frame data, turn.report = some (frame, data) ∧
        turn.off ≤ p ∧ p < turn.off + frame.length)
    hbuf hmax (fun start turn h _ p hp hend hvalid => ?_)
    (fun start turn turns h _ ih p hp hend hvalid => ?_) hstart
  · exact ⟨turn, List.mem_singleton_self turn, h.reported hp hend hvalid⟩
  · by_cases hlt : p < turn.next
    · exact ⟨turn, List.mem_cons_self, h.reported hp hlt hvalid⟩
    · obtain ⟨later, hmem, hlater⟩ := ih p (not_lt.mp hlt) hend hvalid
      exact ⟨later, List.mem_cons_of_mem _ hmem, hlater⟩

/-! ### Reads -/

/-- Bytes without a frame in front do not matter. -/
theorem bareRequestAtEnd_passes {xs ys : List UInt8} (h : refScanner.Passes xs [] ys) :
    BareRequestAtEnd xs ↔ BareRequestAtEnd ys := by
  constructor
  · rintro ⟨tail, hvisit, hlength, hvalid, hcmd⟩
    exact ⟨tail, h.mem_visits_of_emits rfl hvisit hvalid.scanNext, hlength, hvalid, hcmd⟩
  · rintro ⟨tail, hvisit, hrest⟩
    exact ⟨tail, h.mem_visits hvisit, hrest⟩

theorem not_bareRequestAtEnd_of_wait {xs : List UInt8} (h : scanNext xs = none) :
    ¬ BareRequestAtEnd xs := by
  rintro ⟨tail, hvisit, -, hvalid, -⟩
  rw [Scanner.visits_wait (S := refScanner) h, List.mem_singleton] at hvisit
  subst hvisit
  exact absurd (hvalid.scanNext.symm.trans h) (Option.some_ne_none _)

theorem bareRequestAtEnd_frame {xs : List UInt8} (h : ValidFrame xs) :
    BareRequestAtEnd xs ↔ (xs.length = 8 ∧ headCmd xs = yxSerialLinkReqCmd) ∨
      BareRequestAtEnd (xs.drop (headLen xs + 8)) := by
  unfold BareRequestAtEnd
  rw [Scanner.visits_step (S := refScanner) h.scanNext]
  constructor
  · rintro ⟨tail, hvisit, hlength, hvalid, hcmd⟩
    rcases List.mem_cons.mp hvisit with rfl | hlater
    · exact .inl ⟨hlength, hcmd⟩
    · exact .inr ⟨tail, hlater, hlength, hvalid, hcmd⟩
  · rintro (⟨hlength, hcmd⟩ | ⟨tail, hlater, hrest⟩)
    · exact ⟨xs, List.mem_cons_self, hlength, h, hcmd⟩
    · exact ⟨tail, List.mem_cons_of_mem _ hlater, hrest⟩

theorem headCmd_take (xs : List UInt8) (n : ℕ) : headCmd (xs.take (n + 8)) = headCmd xs := by
  unfold headCmd
  simp only [List.getD_eq_getElem?_getD, List.getElem?_take]
  rw [if_pos (by omega), if_pos (by omega)]

/-- A turn reads behind the received bytes when it reports a connect request without data at their
end. -/
theorem TurnSpec.bareRequestAtEnd_iff (h : TurnSpec bytes start turn) :
    BareRequestAtEnd (bytes.drop start) ↔
      ¬ (∀ i ∈ turn.reads, i < bytes.length) ∨ BareRequestAtEnd (bytes.drop turn.next) := by
  rw [bareRequestAtEnd_passes h.searched.passes]
  cases h.kind with
  | waits _ hnext _ _ hreads => rw [hnext, or_iff_right (not_not.mpr hreads)]
  | skips _ hnext _ _ hwrong hstarts hreads =>
    have hskip := (Scanner.Passes.single (S := refScanner) hwrong).trans
      (Scanner.Passes.single (S := refScanner) (scanNext_second hstarts))
    rw [or_iff_right (not_not.mpr hreads), bareRequestAtEnd_passes hskip, hnext,
      List.drop_drop, List.drop_drop]
  | reports frame data _ hframe hvalid hnext _ hreads =>
    have hcomplete := hvalid.complete
    rw [bareRequestAtEnd_frame hvalid, List.drop_drop, ← hnext, hreads, not_not, hframe,
      headCmd_take]
    refine or_congr_left ?_
    rw [List.length_drop] at hcomplete ⊢
    constructor
    · exact fun ⟨hlength, hcmd⟩ => ⟨hcmd, by omega, by omega⟩
    · exact fun ⟨hcmd, _, _⟩ => ⟨by omega, hcmd⟩

/-- Behind a last turn there is no frame. -/
theorem TurnSpec.not_bareRequestAtEnd_next (h : TurnSpec bytes start turn)
    (hlast : turn.again = false) : ¬ BareRequestAtEnd (bytes.drop turn.next) := by
  cases h.kind with
  | waits _ hnext _ hwait => exact hnext ▸ not_bareRequestAtEnd_of_wait hwait
  | skips _ _ hagain => exact absurd (hlast.symm.trans hagain) (by decide)
  | reports _ _ _ _ _ _ hagain =>
    have hend : bytes.length ≤ turn.next := not_lt.mp (of_decide_eq_false (hagain ▸ hlast))
    rw [List.drop_eq_nil_of_le hend]
    exact not_bareRequestAtEnd_of_wait rfl

theorem rxTurns_inside_iff (hbuf : datalen ≤ pbuf.length) (hmax : datalen ≤ 1024)
    (hstart : start ≤ datalen) :
    (∀ i ∈ rxReads (rxTurns pbuf datalen start), i < (pbuf.take datalen).length) ↔
      ¬ BareRequestAtEnd ((pbuf.take datalen).drop start) := by
  refine rxTurns_rec (P := fun start turns =>
      (∀ i ∈ rxReads turns, i < (pbuf.take datalen).length) ↔
        ¬ BareRequestAtEnd ((pbuf.take datalen).drop start))
    hbuf hmax (fun start turn h hlast => ?_) (fun start turn turns h _ ih => ?_) hstart
  · rw [h.bareRequestAtEnd_iff, or_iff_left (h.not_bareRequestAtEnd_next hlast), not_not]
    simp [rxReads]
  · rw [h.bareRequestAtEnd_iff, not_or, not_not, ← ih]
    exact List.forall_mem_append

/-! ### A call -/

theorem foldlM_accepted {env : Env} {reports : List (List UInt8 × UInt8)} {link link' : Link}
    (h : reports.foldlM (fun link report => rxFrame env report.1 report.2 link) link = some link') :
    link'.accepted = link.accepted ++ reports.map Prod.fst := by
  induction reports generalizing link with
  | nil =>
    obtain rfl := Option.some.inj h
    simp
  | cons report reports ih =>
    rw [List.foldlM_cons, Option.bind_eq_bind, Option.bind_eq_some_iff] at h
    obtain ⟨link₁, hframe, hrest⟩ := h
    rw [ih hrest, rxFrame_accepted hframe, List.append_assoc]
    rfl

theorem rxrec_returns (env : Env) {link : Link} {L : Lists} (hbuf : datalen ≤ pbuf.length)
    (hmax : datalen ≤ 1024) (hheld : Held link.tx L) :
    ∃ link', rxrec env pbuf datalen link = some (rxEnd 0 (rxrecTurns pbuf datalen), link') ∧
      link'.accepted = link.accepted ++ (rxReports (rxrecTurns pbuf datalen)).map Prod.fst := by
  unfold rxrec rxrecTurns
  split_ifs with hshort
  · exact ⟨link, rfl, by simp [rxReports]⟩
  · obtain ⟨off, link', -, -, hrun, -⟩ :=
      rxrecAnalyse_handles env hbuf hmax (Nat.zero_le datalen) hheld
    rw [rxrecAnalyse_eq_turns] at hrun ⊢
    obtain ⟨link₁, hfold, -⟩ := Option.map_eq_some_iff.mp hrun
    exact ⟨link₁, by rw [hfold, Option.map_some], foldlM_accepted hfold⟩

/-- Too few bytes for a head hold no connect request. -/
theorem not_bareRequestAtEnd_of_short {xs : List UInt8} (h : xs.length < 8) :
    ¬ BareRequestAtEnd xs := by
  rintro ⟨tail, hvisit, hlength, -⟩
  have hle := (Scanner.visits_suffix hvisit).length_le
  omega

/-- The scan stays in its bounds exactly when the received bytes do not end with a connect request
without data, for every buffer with up to 1024 received bytes. -/
theorem rxScanBounds_iff (env : Env) {link : Link} {L : Lists} (hbuf : datalen ≤ pbuf.length)
    (hmax : datalen ≤ 1024) (hheld : Held link.tx L) :
    RxScanBounds env pbuf datalen link ↔ ¬ BareRequestAtEnd (pbuf.take datalen) := by
  have hlength := length_received hbuf
  have hinside : (∀ i ∈ rxReads (rxrecTurns pbuf datalen), i < datalen) ↔
      ¬ BareRequestAtEnd (pbuf.take datalen) := by
    unfold rxrecTurns
    split_ifs with hshort
    · exact iff_of_true (by simp [rxReads]) (not_bareRequestAtEnd_of_short (by omega))
    · have hturns := rxTurns_inside_iff hbuf hmax (Nat.zero_le datalen)
      rwa [List.drop_zero, hlength] at hturns
  rw [← hinside]
  refine ⟨fun h => h.inside, fun h => ⟨rxrec_returns env hbuf hmax hheld, ?_, ?_, h, ?_⟩⟩
  · unfold rxrecTurns
    split_ifs with hshort
    · exact List.Pairwise.nil
    · exact (rxTurns_offsets hbuf hmax (Nat.zero_le datalen)).1
  · unfold rxrecTurns
    split_ifs with hshort
    · simp [rxOffsets]
    · intro offset hoffset
      have hbounds := (rxTurns_offsets hbuf hmax (Nat.zero_le datalen)).2 offset hoffset
      exact hbounds.2.trans_eq hlength
  · unfold rxrecTurns
    split_ifs with hshort
    · intro p hp
      exact absurd hp (Nat.not_lt_zero p)
    · exact fun p => rxTurns_reported hbuf hmax (Nat.zero_le datalen) p (Nat.zero_le p)

/-- A connect request without data, with what stands behind it in the buffer. -/
def bareRequest (behind : List UInt8) : List UInt8 := [0x55, 0x7a, 1, 0x18, 0, 1, 0, 0] ++ behind

/-- A new link keeps the bounds for a connect request that has not come to its end. -/
theorem rxScanBounds_incomplete : ∃ link, yxSerialLinkInit acceptingEnv = some link ∧
    RxScanBounds acceptingEnv (bareRequest [0]) 7 link := by
  obtain ⟨link, L, hinit, hok, -⟩ := init_spec acceptingEnv
  exact ⟨link, hinit, (rxScanBounds_iff acceptingEnv (by decide) (by decide) hok.held).mpr
    (not_bareRequestAtEnd_of_short (by decide))⟩

/-- It does not when the received bytes are a connect request without data. -/
theorem not_rxScanBounds :
    ¬ ∀ link L, Held link.tx L → RxScanBounds acceptingEnv (bareRequest [0]) 8 link := by
  intro h
  obtain ⟨link, L, -, hok, -⟩ := init_spec acceptingEnv
  have hturn : rxTurn (bareRequest [0]) 8 0 =
      ⟨0, 0, [0, 1, 6, 7, 2, 4, 5, 6, 7, 4, 5, 8], some (bareRequest [], 0), 8, false⟩ := by
    decide +kernel
  have hread : 8 ∈ rxReads (rxrecTurns (bareRequest [0]) 8) := by
    unfold rxrecTurns
    rw [if_neg (by decide), rxTurns_last (by rw [hturn]; decide), hturn]
    decide
  exact absurd ((h link L hok.held).inside 8 hread) (by decide)

end Bounds

end Tulux.SerialLink
