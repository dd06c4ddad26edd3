import Mathlib.Data.List.TakeDrop

/-! Messages written to a byte stream that keeps no boundaries, and a reader that takes what one
read returns for one message. -/

/-- `handled` is what each read returned. -/
structure MessageStream (α : Type*) where
  sent : List (List α)
  unread : List α
  handled : List (List α)

namespace MessageStream
variable {α : Type*}

def empty : MessageStream α := ⟨[], [], []⟩

/-- The stream takes the first `taken` bytes of a message; the rest of it is lost. -/
def write (s : MessageStream α) (msg : List α) (taken : ℕ) : MessageStream α :=
  { s with sent := s.sent ++ [msg], unread := s.unread ++ msg.take taken }

/-- What a read returns into a buffer of `limit` bytes when `arrived` bytes have arrived. -/
def nextRead (limit : ℕ) (s : MessageStream α) (arrived : ℕ) : List α :=
  s.unread.take (min arrived limit)

/-- Without any byte nothing is handled. -/
def read (limit : ℕ) (s : MessageStream α) (arrived : ℕ) : MessageStream α :=
  match s.nextRead limit arrived with
  | [] => s
  | b :: bytes =>
    { s with unread := s.unread.drop (b :: bytes).length, handled := s.handled ++ [b :: bytes] }

/-- The messages not handled yet, when those that were are the first ones. -/
def pending (s : MessageStream α) : List (List α) := s.sent.drop s.handled.length

/-- The messages handled are the first ones sent, and the others are whole in the stream. -/
structure Faithful (s : MessageStream α) : Prop where
  sent : s.sent = s.handled ++ s.pending
  unread : s.unread = s.pending.flatten

/-- The read returns nothing, or as many bytes as the next message has. -/
def ReadsOne (limit : ℕ) (s : MessageStream α) (arrived : ℕ) : Prop :=
  s.nextRead limit arrived = [] ∨
    s.pending.head?.map List.length = some (s.nextRead limit arrived).length

variable {s : MessageStream α}

theorem faithful_empty : (empty : MessageStream α).Faithful := ⟨rfl, rfl⟩

theorem pending_of_sent {rest : List (List α)} (h : s.sent = s.handled ++ rest) :
    s.pending = rest := by
  simp [pending, h]

theorem Faithful.of_rest {rest : List (List α)} (hsent : s.sent = s.handled ++ rest)
    (hunread : s.unread = rest.flatten) : s.Faithful := by
  have hpending := pending_of_sent hsent
  exact ⟨hpending ▸ hsent, hpending ▸ hunread⟩

/-- The stream keeps a message exactly when it takes it whole. -/
theorem faithful_write_iff (h : s.Faithful) (msg : List α) (taken : ℕ) :
    (s.write msg taken).Faithful ↔ msg.length ≤ taken := by
  have hsent : (s.write msg taken).sent = s.handled ++ (s.pending ++ [msg]) := by
    rw [← List.append_assoc, ← h.sent]
    rfl
  have hpending := pending_of_sent (s := s.write msg taken) hsent
  have hunread : (s.write msg taken).unread = s.pending.flatten ++ msg.take taken := by
    rw [← h.unread]
    rfl
  constructor
  · intro h'
    have htaken := h'.unread
    rw [hunread, hpending] at htaken
    have hmsg : msg.take taken = msg := by simpa using htaken
    simpa using hmsg
  · intro hlen
    apply Faithful.of_rest hsent
    rw [hunread, List.take_of_length_le hlen]
    simp

theorem take_first {m xs : List α} {n : ℕ} (hlen : m.length = ((m ++ xs).take n).length) :
    (m ++ xs).take n = m := by
  simp only [List.length_take, List.length_append] at hlen
  rcases Nat.lt_or_ge n m.length with hlt | hge
  · omega
  · rcases Nat.eq_or_lt_of_le hge with heq | hgt
    · rw [← heq, List.take_left]
    · have hxs : xs = [] := List.eq_nil_of_length_eq_zero (by omega)
      simp [hxs, List.take_of_length_le hge]

theorem faithful_read_iff (h : s.Faithful) (limit arrived : ℕ) :
    (s.read limit arrived).Faithful ↔ s.ReadsOne limit arrived := by
  cases hread : s.nextRead limit arrived with
  | nil => simp [read, hread, ReadsOne, h]
  | cons b bytes =>
    have hstep : s.read limit arrived = { s with
        unread := s.unread.drop (b :: bytes).length,
        handled := s.handled ++ [b :: bytes] } := by simp [read, hread]
    rw [hstep, ReadsOne, hread]
    constructor
    · intro h'
      have hsent := h'.sent
      have hpending : s.pending = (b :: bytes) :: MessageStream.pending { s with
          unread := s.unread.drop (b :: bytes).length, handled := s.handled ++ [b :: bytes] } := by
        apply pending_of_sent
        simpa using hsent
      simp [hpending]
    · rintro (hnil | hhead)
      · simp at hnil
      · -- the bytes read are the first message pending
        cases hp : s.pending with
        | nil => simp [hp] at hhead
        | cons m rest =>
          have hunread : s.unread = m ++ rest.flatten := by simp [h.unread, hp]
          have hfirst : b :: bytes = m := by
            rw [← hread, nextRead, hunread]
            apply take_first
            simpa [hp, ← hread, nextRead, hunread] using hhead
          have hsent : s.sent = (s.handled ++ [b :: bytes]) ++ rest := by
            simp [h.sent, hp, hfirst]
          apply Faithful.of_rest hsent
          simp [hfirst, hunread]

/-- Once no byte is left every message has been handled. -/
theorem Faithful.all_handled (h : s.Faithful) (hmsgs : ∀ msg ∈ s.sent, msg ≠ [])
    (hunread : s.unread = []) : s.handled = s.sent := by
  have hpending : s.pending = [] := by
    rw [List.eq_nil_iff_forall_not_mem]
    intro msg hmsg
    have hnil : msg = [] := by
      have hflat : s.pending.flatten = [] := h.unread.symm.trans hunread
      simpa using List.flatten_eq_nil_iff.mp hflat msg hmsg
    exact hmsgs msg (by simp [h.sent, hmsg]) hnil
  simpa [hpending] using h.sent.symm

end MessageStream
