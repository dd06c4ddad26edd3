import Tulux.SerialLink.Invariants

/-! What a receiver gets out of a byte stream, however the stream is cut into reads. -/
namespace Tulux.SerialLink
open Framing

/-- Calls of `_yx_serial_link_rx_analyse`, each with the chunks that arrive meanwhile. -/
def rxAnalyses (env : Env) (calls : List (List (List UInt8))) (link : Link) : Option Link :=
  calls.foldlM (fun link arrivals => rxAnalyse env arrivals link) link

/-- No frame head met by the plain scan declares more than 1016 bytes. -/
def Fitting (stream : List UInt8) : Prop :=
  ∀ s ∈ refScanner.visits stream, startsFrame s → 8 ≤ s.length → headLen s ≤ 1016

theorem Fitting.noOverlong {stream : List UInt8} (h : Fitting stream) : NoOverlong stream :=
  fun s hs hstart hlen => h s hs hstart (by omega)

theorem fitting_whole {frame : List UInt8} (h : scanNext frame = some (frame.length, some frame))
    (hl : headLen frame ≤ 1016) : Fitting frame := by
  intro s hs hstart hlen
  rw [Scanner.visits_step (S := refScanner) h, List.drop_length,
    Scanner.visits_wait (S := refScanner) rfl, List.mem_cons, List.mem_singleton] at hs
  rcases hs with rfl | rfl
  · exact hl
  · simp at hlen

/-- Nothing has been received, and nothing waits in the ring. -/
structure Drained (link : Link) : Prop where
  len : link.rxLen = 0
  ring : link.rxRing = []

theorem Drained.received {link : Link} (h : Drained link) : received link = [] := by
  rw [SerialLink.received, h.len, List.take_zero]

section Receiver
variable (env : Env) {L : Lists} {link : Link}

/-- A chunk that fits in the buffer is read whole, so every cut of a stream into reads arises. -/
theorem rxAnalyseLoop_read {chunk : List UInt8} (hne : chunk ≠ [])
    (hfit : chunk.length ≤ 1024 - link.rxLen) (arrivals : List (List UInt8)) :
    rxAnalyseLoop env [] (chunk :: arrivals) link =
      (rxPass env chunk link).bind fun link => rxAnalyseLoop env [] arrivals link := by
  have htake : chunk.take (1024 - link.rxLen) = chunk := List.take_of_length_le hfit
  rw [rxAnalyseLoop]
  simp only [List.nil_append, List.headD_cons, List.tail_cons, htake, if_neg hne,
    List.drop_length]

/-- The calls return, and pass over the stream as the plain scan does. -/
theorem rxAnalyses_spec (calls : List (List (List UInt8))) (hw : RxWf link) (hs : Settled link)
    (h : Held link.tx L) :
    ∃ link' L' fs, rxAnalyses env calls link = some link' ∧
      Analyses env (link.rxRing ++ calls.flatten.flatten) fs link L link' L' ∧
      ((∀ arrivals ∈ calls, ∀ chunk ∈ arrivals, chunk ≠ []) →
        (link.rxLen < 1024 → link.rxRing = []) → link'.rxLen < 1024 → link'.rxRing = []) := by
  induction calls generalizing link L with
  | nil =>
    refine ⟨link, L, [], rfl, ⟨⟨h, id⟩, .refl env link, hw, hs, ?_, nofun⟩, fun _ => id⟩
    rw [List.flatten_nil, List.flatten_nil, List.append_nil]
    exact .refl _
  | cons arrivals calls ih =>
    obtain ⟨link₁, L₁, fs₁, hrun₁, ha₁, hend₁⟩ := rxAnalyse_spec env arrivals hw hs h
    obtain ⟨link', L', fs, hrun, ha, hend⟩ := ih ha₁.wf ha₁.settled ha₁.keeps.1
    have hpass := (ha₁.passes.append calls.flatten.flatten).trans
      (by rw [List.append_assoc]; exact ha.passes)
    refine ⟨link', L', fs₁ ++ fs, ?_, ⟨ha₁.keeps.trans ha.keeps, ha₁.effect.trans ha.effect,
      ha.wf, ha.settled, ?_, ?_⟩, fun hne _ => ?_⟩
    · rw [rxAnalyses, List.foldlM_cons, hrun₁]
      exact hrun
    · rw [List.flatten_cons, List.flatten_append]
      simpa only [List.append_assoc] using hpass
    · intro f hf
      rcases List.mem_append.mp hf with hf | hf
      · exact ha₁.small f hf
      · exact ha.small f hf
    · exact hend (fun a hm => hne a (List.mem_cons_of_mem _ hm))
        (hend₁ (hne arrivals List.mem_cons_self))

/-- A receiver that starts with nothing on hand accepts the frames of the plain scan. -/
theorem rxAnalyses_frames {calls : List (List (List UInt8))} (hw : RxWf link)
    (h : Held link.tx L) (hd : Drained link)
    (hne : ∀ arrivals ∈ calls, ∀ chunk ∈ arrivals, chunk ≠ [])
    (hno : NoOverlong calls.flatten.flatten) :
    ∃ link', rxAnalyses env calls link = some link' ∧
      RxEffect env (refFrames calls.flatten.flatten) link link' := by
  obtain ⟨link', L', fs, hrun, ha, hend⟩ := rxAnalyses_spec env calls hw
    (Or.inl (by rw [hd.len]; omega)) h
  rw [hd.ring, List.nil_append] at ha
  have hlt : link'.rxLen < 1024 :=
    ha.space [] (by rwa [hd.received, List.nil_append, List.append_nil])
  have hpass := ha.passes
  rw [hd.received, hend hne (fun _ => hd.ring) hlt, List.nil_append, List.append_nil] at hpass
  have hrest : refFrames (received link') = [] := by
    rcases ha.settled with hshort | hwait
    · exact refFrames_short (by rwa [ha.wf.length_received])
    · rw [refFrames, Scanner.scan_wait (S := refScanner) hwait]
  have hfs : refFrames calls.flatten.flatten = fs := by
    rw [refFrames] at hrest ⊢
    rw [hpass.scan_eq, hrest, List.append_nil]
  exact ⟨link', hrun, hfs ▸ ha.effect⟩

/-- However a stream is cut into reads, the receiver accepts what the plain scan of the whole
stream accepts. -/
theorem rxAnalyses_accepted {cond : Link → LinkOp → Prop} (calls : List (List (List UInt8)))
    (h : Reachable env cond link) (hd : Drained link)
    (hne : ∀ arrivals ∈ calls, ∀ chunk ∈ arrivals, chunk ≠ [])
    (hfit : Fitting calls.flatten.flatten) :
    ∃ link', rxAnalyses env calls link = some link' ∧
      link'.accepted = link.accepted ++ refFrames calls.flatten.flatten := by
  obtain ⟨L, hok⟩ := h.ok
  obtain ⟨link', hrun, heff⟩ := rxAnalyses_frames env hok.rx hok.held hd hne hfit.noOverlong
  exact ⟨link', hrun, heff.accepted⟩

/-- A request in three reads, the first of which ends within its head. -/
def requestReads : List (List (List UInt8)) :=
  [[[0x55]], [[0x7A, 0x01, 0x18], [0x00, 0x01, 0x00, 0x01, 0x01]]]

theorem rxAnalyses_accepted_request :
    ∃ link link', yxSerialLinkInit acceptingEnv = some link ∧
      rxAnalyses acceptingEnv requestReads link = some link' ∧
      link'.accepted = link.accepted ++ [connectRequest] := by
  have hscan : scanNext connectRequest = some (connectRequest.length, some connectRequest) := by
    decide
  have hflat : requestReads.flatten.flatten = connectRequest := rfl
  obtain ⟨link, L, hinit, -, -, -, hlen, hring⟩ := init_spec acceptingEnv
  have hr : Reachable acceptingEnv (fun _ _ => True) link := .init hinit
  obtain ⟨link', hrun, hacc⟩ := rxAnalyses_accepted acceptingEnv requestReads hr ⟨hlen, hring⟩
    (by decide) (by rw [hflat]; exact fitting_whole hscan (by decide))
  rw [hflat, refFrames_whole hscan] at hacc
  exact ⟨link, link', hinit, hrun, hacc⟩

end Receiver

end Tulux.SerialLink
