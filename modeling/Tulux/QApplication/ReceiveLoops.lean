import Mathlib.Tactic
import Tulux.Lib.GuardedRun
import Tulux.QCoder.AsnbufRead

/-! The receive loops of `ApplicationTest.cpp` and the message buffers they receive into. -/
namespace Tulux.QApplication
open QCoder GuardedRun

/-- What `recv` returns for at most `MAX_BUF_LEN` bytes, how far the decoder then moves the data
pointer, and the slot that `getFreeBsm` gives out for it. -/
structure Packet where
  bytes : List UInt8
  length_le : bytes.length ≤ 3000
  consumed : ℤ
  ldmIndex : ℕ

/-- The message buffer of the loop, and those of the contents of the LDM. -/
structure Buffers where
  abuf : Abuf
  contents : ℕ → Abuf

/-- What a turn of a loop does: the bytes in `[data, tail)` that are decoded, if any are, and the
end of the write into the buffer. -/
structure Turn where
  seen : Option (List UInt8)
  writeEnd : ℕ

/-- `ABUF_HEADROOM`. -/
def abufHeadroom : ℕ := 256

/-- `ABUF_LEN`. -/
def abufLen : ℕ := 2048

/-! ### A turn -/

/-- The bytes in `[data, tail)`. -/
def content (bp : Abuf) : List UInt8 :=
  (List.range (bp.tail - bp.data)).map fun i => bp.mem (bp.data + i)

/-- `RadioReceive::receive` writes where the data pointer of the buffer is. -/
def radioReceive (bytes : List UInt8) (bp : Abuf) : Abuf :=
  { bp with mem := fun i =>
      if bp.data ≤ i ∧ i < bp.data + bytes.length then bytes.getD (i - bp.data) 0 else bp.mem i }

/-- The data pointer behind the decoder. -/
def moveData (n : ℤ) (bp : Abuf) : Abuf := { bp with data := (bp.data + n).toNat }

/-- A datagram is put into the message buffer. -/
def fetch (p : Packet) (bp : Abuf) : Abuf :=
  (abufPut (radioReceive p.bytes bp) p.bytes.length).2

/-- `receive` of the applications. That of the SAE stack refuses an empty datagram and one of more
than 500 bytes. -/
def applicationReceive (etsi : Bool) (p : Packet) (bp : Abuf) : Option (List UInt8) × Abuf :=
  if !etsi ∧ (500 < p.bytes.length ∨ p.bytes.length = 0) then (none, bp)
  else (some (content bp), moveData (1 + p.consumed) bp)

/-- `receive` with a slot of the LDM, which does not look at the length. -/
def applicationReceiveLdm (p : Packet) (bp : Abuf) : Option (List UInt8) × Abuf :=
  (some (content bp), moveData (1 + p.consumed) bp)

/-- The receive loops. -/
inductive Loop where
  | receive (etsi : Bool)
  | ldmRx
  | simReceive (etsi : Bool)
  | simLdmRx
  | tunnelModeRx

/-- Only `receive` resets the buffer. -/
def prepare (loop : Loop) (bp : Abuf) : Abuf :=
  match loop with
  | .receive _ => abufReset bp abufHeadroom
  | _ => bp

/-- What a loop does with the datagram in its buffer. -/
def process (loop : Loop) (p : Packet) (buffers : Buffers) : Option (List UInt8) × Buffers :=
  match loop with
  | .receive etsi | .simReceive etsi =>
    if p.bytes.length = 0 then (none, buffers)
    else
      let (seen, abuf) := applicationReceive etsi p buffers.abuf
      (seen, { buffers with abuf := abuf })
  | .ldmRx =>
    let (seen, abuf) := applicationReceiveLdm p buffers.abuf
    (seen, { buffers with abuf := abuf })
  | .simLdmRx =>
    if p.bytes.length = 0 then (none, buffers)
    else
      let (seen, abuf) := applicationReceiveLdm p buffers.abuf
      (seen, { buffers with abuf := abuf })
  | .tunnelModeRx =>
    -- the contents of the slot are decoded, not the buffer of the datagram
    let slot := buffers.contents p.ldmIndex
    (some (content slot),
      { buffers with
        contents := Function.update buffers.contents p.ldmIndex (moveData p.consumed slot) })

def turn (loop : Loop) (buffers : Buffers) (p : Packet) : Turn × Buffers :=
  let bp := prepare loop buffers.abuf
  let (seen, buffers') := process loop p { buffers with abuf := fetch p bp }
  (⟨seen, bp.data + p.bytes.length⟩, buffers')

/-! ### What a turn should do -/

/-- What is decoded is the datagram, and it was not written past the end of the buffer. -/
def DecodesItself (loop : Loop) (buffers : Buffers) (p : Packet) : Prop :=
  (∀ seen ∈ (turn loop buffers p).1.seen, seen = p.bytes) ∧
    (p.bytes ≠ [] → (turn loop buffers p).1.writeEnd ≤ (prepare loop buffers.abuf).endp)

/-- Whether a loop decodes a datagram. -/
def Decodes (loop : Loop) (p : Packet) : Prop :=
  match loop with
  | .receive etsi | .simReceive etsi => p.bytes ≠ [] ∧ (etsi ∨ p.bytes.length ≤ 500)
  | .simLdmRx => p.bytes ≠ []
  | _ => True

/-- A buffer without bytes in front of the datagram, and with room for it. The datagram may also
fall on the rest of those before it, if there is no room behind that. -/
def Ready (bp : Abuf) (p : Packet) : Prop :=
  if p.bytes = [] then bp.tail ≤ bp.data
  else bp.tail = bp.data ∨ (bp.tail = bp.data + p.bytes.length ∧ bp.endp < bp.tail + p.bytes.length)

/-- When a turn decodes its own datagram. -/
def TurnReady (loop : Loop) (buffers : Buffers) (p : Packet) : Prop :=
  match loop with
  | .receive _ => p.bytes ≠ [] → abufHeadroom + p.bytes.length ≤ buffers.abuf.size
  | .tunnelModeRx =>
    content (buffers.contents p.ldmIndex) = p.bytes ∧
      (p.bytes ≠ [] → buffers.abuf.data + p.bytes.length ≤ buffers.abuf.endp)
  | _ =>
    (Decodes loop p → Ready buffers.abuf p) ∧
      (p.bytes ≠ [] → buffers.abuf.data + p.bytes.length ≤ buffers.abuf.endp)

section Turn
variable {bp : Abuf} {p : Packet}

theorem length_content (bp : Abuf) : (content bp).length = bp.tail - bp.data := by
  rw [content, List.length_map, List.length_range]

theorem fetch_data (p : Packet) (bp : Abuf) : (fetch p bp).data = bp.data := by
  unfold fetch abufPut
  split_ifs <;> rfl

theorem fetch_tail (p : Packet) (bp : Abuf) : (fetch p bp).tail =
    if bp.endp < bp.tail + p.bytes.length then bp.tail else bp.tail + p.bytes.length := by
  unfold fetch abufPut radioReceive
  dsimp only
  split_ifs <;> rfl

theorem fetch_mem (p : Packet) (bp : Abuf) {i : ℕ} (hi : i < p.bytes.length) :
    (fetch p bp).mem (bp.data + i) = p.bytes.get ⟨i, hi⟩ := by
  have hmem : (fetch p bp).mem = (radioReceive p.bytes bp).mem := by
    unfold fetch abufPut
    split_ifs <;> rfl
  have hwithin : bp.data ≤ bp.data + i ∧ bp.data + i < bp.data + p.bytes.length := by omega
  rw [hmem, radioReceive]
  dsimp only
  rw [if_pos hwithin, Nat.add_sub_cancel_left]
  simp [hi]

theorem content_fetch (htail : (fetch p bp).tail = bp.data + p.bytes.length) :
    content (fetch p bp) = p.bytes := by
  apply List.ext_getElem
  · rw [length_content, htail, fetch_data, Nat.add_sub_cancel_left]
  · intro i _ hi
    simp only [content, List.getElem_map, List.getElem_range]
    rw [fetch_data, fetch_mem p bp hi]
    rfl

/-- The buffer holds the datagram exactly when it was ready for it. -/
theorem content_fetch_iff (hroom : p.bytes ≠ [] → bp.data + p.bytes.length ≤ bp.endp) :
    content (fetch p bp) = p.bytes ↔ Ready bp p := by
  have htail := fetch_tail p bp
  have hdata := fetch_data p bp
  unfold Ready
  constructor
  · intro hcontent
    have hlength := congrArg List.length hcontent
    rw [length_content, hdata] at hlength
    by_cases hnil : p.bytes = []
    · have hzero : p.bytes.length = 0 := List.length_eq_zero_iff.mpr hnil
      rw [if_pos hnil]
      split_ifs at htail <;> omega
    · have hpos := List.length_pos_of_ne_nil hnil
      rw [if_neg hnil]
      split_ifs at htail with hfull
      · exact .inr (by omega)
      · exact .inl (by omega)
  · intro hready
    split_ifs at hready with hnil
    · have hzero : p.bytes.length = 0 := List.length_eq_zero_iff.mpr hnil
      have hempty : (content (fetch p bp)).length = 0 := by
        rw [length_content, hdata]
        split_ifs at htail <;> omega
      rw [hnil, List.length_eq_zero_iff.mp hempty]
    · have hroom' := hroom hnil
      apply content_fetch
      rw [htail]
      split_ifs <;> omega

/-- Every loop but the tunnel mode decodes the buffer of the datagram. -/
theorem seen_iff {loop : Loop} {buffers : Buffers} (hloop : loop ≠ .tunnelModeRx) :
    (∀ seen ∈ (turn loop buffers p).1.seen, seen = p.bytes) ↔
      (Decodes loop p → content (fetch p (prepare loop buffers.abuf)) = p.bytes) := by
  cases loop with
  | tunnelModeRx => exact absurd rfl hloop
  | ldmRx => simp [turn, process, applicationReceiveLdm, Decodes]
  | simLdmRx => by_cases hnil : p.bytes = [] <;>
      simp [turn, process, applicationReceiveLdm, Decodes, hnil]
  | receive etsi | simReceive etsi =>
    by_cases hnil : p.bytes = []
    · simp [turn, process, Decodes, hnil]
    · cases etsi <;> by_cases hlong : 500 < p.bytes.length <;>
        simp [turn, process, applicationReceive, Decodes, hnil, hlong, not_lt.mp, not_le.mpr]

theorem turn_writeEnd (loop : Loop) (buffers : Buffers) (p : Packet) :
    (turn loop buffers p).1.writeEnd =
      (prepare loop buffers.abuf).data + p.bytes.length := rfl

end Turn

/-- A turn decodes its own datagram exactly when its buffer is ready. -/
theorem decodesItself_iff (loop : Loop) (buffers : Buffers) (p : Packet) :
    DecodesItself loop buffers p ↔ TurnReady loop buffers p := by
  unfold DecodesItself
  rw [turn_writeEnd]
  cases loop with
  | receive etsi =>
    have hready : Ready (prepare (.receive etsi) buffers.abuf) p := by
      unfold Ready
      split_ifs
      · exact le_refl _
      · exact .inl rfl
    rw [seen_iff (by simp)]
    constructor
    · rintro ⟨-, hroom⟩ hnil
      have hend := hroom hnil
      simp only [prepare, abufReset] at hend
      omega
    · intro hroom
      have hend : p.bytes ≠ [] → (prepare (.receive etsi) buffers.abuf).data + p.bytes.length ≤
          (prepare (.receive etsi) buffers.abuf).endp := by
        intro hnil
        have hsize := hroom hnil
        simp only [prepare, abufReset]
        omega
      exact ⟨fun _ => (content_fetch_iff hend).mpr hready, hend⟩
  | ldmRx | simReceive | simLdmRx =>
    rw [seen_iff (by simp)]
    refine and_congr_left fun hroom => ?_
    exact forall_congr' fun _ => content_fetch_iff hroom
  | tunnelModeRx =>
    refine and_congr_left fun _ => ?_
    simp [turn, process]

/-! ### Runs -/

/-- The buffers behind a turn. -/
def step (loop : Loop) (buffers : Buffers) (p : Packet) : Buffers := (turn loop buffers p).2

/-- The buffer behind a turn that decodes the whole datagram. -/
theorem step_abuf {loop : Loop} (buffers : Buffers) {p : Packet}
    (hloop : loop ≠ .tunnelModeRx) (hdecodes : Decodes loop p) :
    (step loop buffers p).abuf =
      moveData (1 + p.consumed) (fetch p (prepare loop buffers.abuf)) := by
  cases loop with
  | tunnelModeRx => exact absurd rfl hloop
  | ldmRx => rfl
  | simLdmRx =>
    have hnil : p.bytes ≠ [] := hdecodes
    simp [step, turn, process, applicationReceiveLdm, hnil]
  | receive etsi | simReceive etsi =>
    obtain ⟨hnil, hlong⟩ := hdecodes
    cases etsi
    · have hshort : ¬ 500 < p.bytes.length := by simpa using hlong
      simp [step, turn, process, applicationReceive, hnil, hshort]
    · simp [step, turn, process, applicationReceive, hnil]

theorem fetch_size (p : Packet) (bp : Abuf) : (fetch p bp).size = bp.size := by
  unfold fetch abufPut
  split_ifs <;> rfl

theorem fetch_endp (p : Packet) (bp : Abuf) : (fetch p bp).endp = bp.endp := by
  unfold fetch abufPut
  split_ifs <;> rfl

theorem step_size (loop : Loop) (buffers : Buffers) (p : Packet) :
    (step loop buffers p).abuf.size = buffers.abuf.size := by
  have hfetch : (step loop buffers p).abuf.size = (fetch p (prepare loop buffers.abuf)).size := by
    unfold step turn process applicationReceive
    cases loop with
    | ldmRx | tunnelModeRx => rfl
    | receive | simReceive | simLdmRx => dsimp only; split_ifs <;> rfl
  rw [hfetch, fetch_size]
  cases loop <;> rfl

/-- Loops without a reset are ready for every datagram as long as each is decoded to its end and
they fit into the buffer one behind the other. -/
theorem always_ready {loop : Loop} (hloop : loop = .ldmRx ∨ (∃ etsi, loop = .simReceive etsi) ∨
      loop = .simLdmRx) {buffers : Buffers} {ps : List Packet}
    (hempty : buffers.abuf.tail = buffers.abuf.data)
    (hps : ∀ p ∈ ps, Decodes loop p ∧ 1 + p.consumed = p.bytes.length)
    (hroom : buffers.abuf.data + (ps.map fun p => p.bytes.length).sum ≤ buffers.abuf.endp) :
    Always (step loop) (TurnReady loop) buffers ps := by
  have hprepare (bp : Abuf) : prepare loop bp = bp := by
    obtain rfl | ⟨etsi, rfl⟩ | rfl := hloop <;> rfl
  induction ps generalizing buffers with
  | nil => exact always_nil
  | cons p ps ih =>
    obtain ⟨⟨hdecodes, hconsumed⟩, hrest⟩ := List.forall_mem_cons.mp hps
    rw [List.map_cons, List.sum_cons] at hroom
    have habuf := step_abuf buffers (by rintro rfl; simp at hloop) hdecodes
    rw [hprepare] at habuf
    have hready : Ready buffers.abuf p := by
      unfold Ready
      split_ifs
      · exact hempty.le
      · exact .inl hempty
    have hturn : TurnReady loop buffers p := by
      obtain rfl | ⟨etsi, rfl⟩ | rfl := hloop <;> exact ⟨fun _ => hready, fun _ => by omega⟩
    have hdata : (step loop buffers p).abuf.data = buffers.abuf.data + p.bytes.length := by
      rw [habuf, moveData]
      dsimp only
      rw [fetch_data, hconsumed]
      omega
    have htail : (step loop buffers p).abuf.tail = buffers.abuf.data + p.bytes.length := by
      have hfits : ¬ buffers.abuf.endp < buffers.abuf.tail + p.bytes.length := by omega
      rw [habuf, moveData]
      dsimp only
      rw [fetch_tail, if_neg hfits, hempty]
    refine always_cons.mpr ⟨hturn, ih (by rw [htail, hdata]) hrest ?_⟩
    rw [hdata, habuf, moveData]
    dsimp only
    rw [fetch_endp]
    omega

/-- In a run of a loop every turn decodes its own datagram exactly when its buffer is ready at
every turn. `receive` is ready for every datagram that fits behind the headroom. -/
theorem datagrams_decoded_iff (loop : Loop) (buffers : Buffers) (ps : List Packet) :
    (Always (step loop) (DecodesItself loop) buffers ps ↔
        Always (step loop) (TurnReady loop) buffers ps) ∧
      ∀ etsi, Always (step (.receive etsi)) (DecodesItself (.receive etsi)) buffers ps ↔
        ∀ p ∈ ps, p.bytes ≠ [] → abufHeadroom + p.bytes.length ≤ buffers.abuf.size := by
  refine ⟨always_congr (decodesItself_iff loop), fun etsi => ?_⟩
  rw [always_congr (decodesItself_iff (.receive etsi))]
  induction ps generalizing buffers with
  | nil => simp
  | cons p ps ih =>
    rw [always_cons, ih, step_size, List.forall_mem_cons]
    rfl

/-- A message buffer as `abuf_alloc` leaves it. -/
def allocatedAbuf : Abuf where
  mem _ := 0
  head := 0
  size := abufLen
  headHeadspaceBits := 0
  tailBitsLeft := 8
  data := abufHeadroom
  tail := abufHeadroom
  endp := abufLen

def allocatedBuffers : Buffers := ⟨allocatedAbuf, fun _ => allocatedAbuf⟩

/-- A family id and a byte at which the decoder fails. -/
def badDatagram : Packet := ⟨[1, 2], by decide, 0, 0⟩

/-- As long as the buffer without its headroom, and a byte longer. -/
def longDatagram : Packet := ⟨List.replicate 1793 0, by rw [List.length_replicate]; decide, 0, 0⟩

/-- Without a reset the second datagram is decoded from the rest of the first one on, in the tunnel
mode none is decoded, and `receive` has a headroom that it takes from the longest ones. -/
theorem datagrams_not_decoded :
    (∀ loop ∈ [Loop.ldmRx, .simReceive false, .simLdmRx, .tunnelModeRx],
      ¬ Always (step loop) (DecodesItself loop) allocatedBuffers [badDatagram, badDatagram]) ∧
      ¬ Always (step (.receive false)) (DecodesItself (.receive false)) allocatedBuffers
        [longDatagram] := by
  have hlength : longDatagram.bytes.length = 1793 := List.length_replicate
  have hnil : longDatagram.bytes ≠ [] := List.ne_nil_of_length_eq_add_one hlength
  constructor
  · intro loop hloop hrun
    obtain ⟨hfirst, hrest⟩ := always_cons.mp hrun
    obtain ⟨hsecond, -⟩ := always_cons.mp hrest
    rw [decodesItself_iff] at hfirst hsecond
    simp only [List.mem_cons, List.not_mem_nil, or_false] at hloop
    obtain rfl | rfl | rfl | rfl := hloop
    · have hready := hsecond.1 trivial
      unfold Ready at hready
      exact absurd hready (by decide)
    · have hready := hsecond.1 ⟨by decide, .inr (by decide)⟩
      unfold Ready at hready
      exact absurd hready (by decide)
    · have hready := hsecond.1 (by unfold Decodes; decide)
      unfold Ready at hready
      exact absurd hready (by decide)
    · exact absurd hfirst.1 (by decide)
  · intro hrun
    have hroom := (decodesItself_iff _ _ _).mp (always_cons.mp hrun).1 hnil
    rw [hlength] at hroom
    exact absurd hroom (by decide)

end Tulux.QApplication
