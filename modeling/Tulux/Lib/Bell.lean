import Mathlib.Data.Nat.Basic
import Mathlib.Tactic

/-! A bell that is rung once however often it is asked for. Its flag is set before a message is
sent and cleared after the message is received, and nobody sends a message while it is set. -/

/-- `ringing`: the flag is set and the message not sent yet. `answering`: the message is received
and the flag not cleared yet. -/
structure Bell where
  flag : Bool
  ringing : Bool
  queued : ℕ
  answering : Bool

namespace Bell

/-- There is one message on its way while the flag is set, and none else. -/
def Sound (b : Bell) : Prop :=
  b.ringing.toNat + b.queued + b.answering.toNat = b.flag.toNat

def set (b : Bell) : Bell := { b with flag := true, ringing := true }
def send (b : Bell) : Bell := { b with ringing := false, queued := b.queued + 1 }
def receive (b : Bell) : Bell := { b with queued := b.queued - 1, answering := true }
def clear (b : Bell) : Bell := { b with flag := false, answering := false }

/-- Setting the flag and sending the message at once. -/
def ring (b : Bell) : Bell := b.set.send

variable {b : Bell}

theorem Sound.set (h : b.Sound) (hf : b.flag = false) : b.set.Sound := by
  simp only [Sound, hf, Bell.set, Bool.toNat_true, Bool.toNat_false] at *
  omega

theorem Sound.send (h : b.Sound) (hr : b.ringing = true) : b.send.Sound := by
  simp only [Sound, hr, Bell.send, Bool.toNat_true, Bool.toNat_false] at *
  omega

theorem Sound.ring (h : b.Sound) (hf : b.flag = false) : b.ring.Sound := (h.set hf).send rfl

theorem Sound.receive (h : b.Sound) (hq : 0 < b.queued) : b.receive.Sound := by
  have hone := b.flag.toNat_le
  simp only [Sound, Bell.receive, Bool.toNat_true] at *
  omega

theorem Sound.clear (h : b.Sound) (ha : b.answering = true) : b.clear.Sound := by
  have hone := b.flag.toNat_le
  simp only [Sound, ha, Bell.clear, Bool.toNat_true, Bool.toNat_false] at *
  omega

/-- The flag tells that a message is on its way. -/
theorem Sound.flag_iff (h : b.Sound) :
    b.flag = true ↔ 0 < b.queued ∨ b.ringing = true ∨ b.answering = true := by
  unfold Sound at h
  cases hf : b.flag <;> cases hr : b.ringing <;> cases ha : b.answering <;>
    simp only [hf, hr, ha, Bool.toNat_true, Bool.toNat_false] at h <;> simp <;> omega

end Bell
