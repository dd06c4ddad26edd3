import Tulux.Lib.Framing

/-! Frames of the serial link: the header of `serial_link.h`, the checksum, the search for a
frame head, and the plain scan of a byte stream. A frame is head[2], crc, dev_type, cmd_h, cmd_l,
len_h, len_l (8 bytes), then the data; the receive and transmit limits are 1024. -/
namespace Tulux.SerialLink
open Framing

abbrev yxSerialLinkHeadUp1 : UInt8 := 0x55
abbrev yxSerialLinkHeadUp2 : UInt8 := 0x7A
abbrev yxSerialLinkHeadDown1 : UInt8 := 0xAA
abbrev yxSerialLinkHeadDown2 : UInt8 := 0x75
abbrev yxSerialLinkDeviceType : UInt8 := 0x18
abbrev yxSerialLinkReqCmd : ℕ := 1
abbrev yxSerialLinkBeatCmd : ℕ := 2

def yxChksumGetxor (bytes : List UInt8) : UInt8 := bytes.foldl (· ^^^ ·) 0

def yxStrChar2shortMsb (hi lo : UInt8) : ℕ := hi.toNat * 256 + lo.toNat

def headCrc (item : List UInt8) : UInt8 := item.getD 2 0

def headCmd (item : List UInt8) : ℕ := yxStrChar2shortMsb (item.getD 4 0) (item.getD 5 0)

def headLen (item : List UInt8) : ℕ := yxStrChar2shortMsb (item.getD 6 0) (item.getD 7 0)

/-- The checksum over `cmd_h .. Data[size - 1]`. -/
def itemXor (item : List UInt8) (size : ℕ) : UInt8 := yxChksumGetxor ((item.drop 4).take (size + 4))

/-- The offset of the first frame head, else of a last byte that may start one, else the length. -/
def yxSerialLinkFindframehead : List UInt8 → ℕ
  | [] => 0
  | [b] => if b = yxSerialLinkHeadUp1 then 0 else 1
  | b₀ :: b₁ :: rest =>
    if b₀ = yxSerialLinkHeadUp1 ∧ b₁ = yxSerialLinkHeadUp2 then 0
    else yxSerialLinkFindframehead (b₁ :: rest) + 1

/-! ### The plain scan -/

def startsFrame (xs : List UInt8) : Bool :=
  xs[0]? == some yxSerialLinkHeadUp1 && xs[1]? == some yxSerialLinkHeadUp2

/-- One decision of the plain scan: a frame with the right checksum is accepted and passed over,
a frame that is not complete is waited for, anything else is passed over one byte at a time. -/
def scanNext (xs : List UInt8) : Option (ℕ × Option (List UInt8)) :=
  if startsFrame xs then
    if xs.length < 8 then none
    else if xs.length < 8 + headLen xs then none
    else if headCrc xs = itemXor xs (headLen xs) then
      some (8 + headLen xs, some (xs.take (8 + headLen xs)))
    else some (1, none)
  else if xs = [] ∨ xs = [yxSerialLinkHeadUp1] then none
  else some (1, none)

section ScanNext
variable {xs : List UInt8}

theorem startsFrame_append (h : 2 ≤ xs.length) (ys : List UInt8) :
    startsFrame (xs ++ ys) = startsFrame xs := by
  rw [startsFrame, startsFrame, List.getElem?_append_left (by omega),
    List.getElem?_append_left (by omega)]

private theorem getD_append_left (ys : List UInt8) {i : ℕ} (h : i < xs.length) :
    (xs ++ ys).getD i 0 = xs.getD i 0 := by
  rw [List.getD_eq_getElem?_getD, List.getElem?_append_left h, ← List.getD_eq_getElem?_getD]

theorem headLen_append (h : 8 ≤ xs.length) (ys : List UInt8) :
    headLen (xs ++ ys) = headLen xs := by
  rw [headLen, headLen, getD_append_left ys (by omega), getD_append_left ys (by omega)]

theorem headCrc_append (h : 8 ≤ xs.length) (ys : List UInt8) :
    headCrc (xs ++ ys) = headCrc xs := by
  rw [headCrc, headCrc, getD_append_left ys (by omega)]

theorem itemXor_append {size : ℕ} (h : 8 + size ≤ xs.length) (ys : List UInt8) :
    itemXor (xs ++ ys) size = itemXor xs size := by
  rw [itemXor, itemXor, List.drop_append_of_le_length (by omega),
    List.take_append_of_le_length (by rw [List.length_drop]; omega)]

private theorem scanNext_bounds {n : ℕ} {o : Option (List UInt8)}
    (h : scanNext xs = some (n, o)) : 0 < n ∧ n ≤ xs.length := by
  unfold scanNext at h
  split_ifs at h with hs hlt hlen hcrc he
  · simp only [Option.some.injEq, Prod.mk.injEq] at h
    omega
  · simp only [Option.some.injEq, Prod.mk.injEq] at h
    omega
  · simp only [Option.some.injEq, Prod.mk.injEq] at h
    have hne : xs ≠ [] := fun hc => he (Or.inl hc)
    have := List.length_pos_iff.mpr hne
    omega

private theorem scanNext_stable {r : ℕ × Option (List UInt8)} (h : scanNext xs = some r)
    (ys : List UInt8) : scanNext (xs ++ ys) = some r := by
  have hlong : xs.length ≤ (xs ++ ys).length := by simp
  unfold scanNext at h
  split_ifs at h with hs hlt hlen hcrc he
  · rw [scanNext, startsFrame_append (by omega), if_pos hs, if_neg (by omega),
      headLen_append (by omega), if_neg (by omega), headCrc_append (by omega),
      itemXor_append (by omega), if_pos hcrc, List.take_append_of_le_length (by omega)]
    exact h
  · rw [scanNext, startsFrame_append (by omega), if_pos hs, if_neg (by omega),
      headLen_append (by omega), if_neg (by omega), headCrc_append (by omega),
      itemXor_append (by omega), if_neg hcrc]
    exact h
  · match xs, hs, he with
    | [], _, he => simp at he
    | [b], _, he =>
      have hb : b ≠ yxSerialLinkHeadUp1 := fun hc => he (Or.inr (by rw [hc]))
      rw [← h, scanNext, if_neg (by simp [startsFrame, hb]), if_neg (by simp [hb])]
    | b₀ :: b₁ :: rest, hs, _ =>
      rw [← h, scanNext, startsFrame_append (by simp), if_neg hs, if_neg (by simp)]

theorem scanNext_accept (hs : startsFrame xs) (hl : 8 + headLen xs ≤ xs.length)
    (hc : headCrc xs = itemXor xs (headLen xs)) :
    scanNext xs = some (8 + headLen xs, some (xs.take (8 + headLen xs))) := by
  rw [scanNext, if_pos hs, if_neg (by omega), if_neg (by omega), if_pos hc]

theorem scanNext_crc (hs : startsFrame xs) (hl : 8 + headLen xs ≤ xs.length)
    (hc : headCrc xs ≠ itemXor xs (headLen xs)) : scanNext xs = some (1, none) := by
  rw [scanNext, if_pos hs, if_neg (by omega), if_neg (by omega), if_neg hc]

theorem scanNext_short (hs : startsFrame xs) (hl : xs.length < 8 + headLen xs) :
    scanNext xs = none := by
  rw [scanNext, if_pos hs]
  split_ifs
  · rfl
  · rfl

theorem scanNext_none (h : scanNext xs = none) (hl : 8 ≤ xs.length) :
    startsFrame xs ∧ xs.length < 8 + headLen xs := by
  unfold scanNext at h
  split_ifs at h with hs hlt hlen hcrc he
  · exact ⟨hs, by omega⟩
  · exact ⟨hs, by omega⟩
  · rcases he with rfl | rfl <;> simp at hl

end ScanNext

/-- The plain left-to-right scan of a byte stream. -/
def refScanner : Scanner UInt8 (List UInt8) where
  next := scanNext
  pos h := (scanNext_bounds h).1
  le h := (scanNext_bounds h).2
  stable h := scanNext_stable h

/-- A frame is a part of the stream it is accepted from. -/
theorem passes_length {xs ys : List UInt8} {fs : List (List UInt8)}
    (h : refScanner.Passes xs fs ys) : ∀ f ∈ fs, f.length ≤ xs.length := by
  induction h with
  | refl xs => simp
  | @step xs n o fs ys hn _ ih =>
    intro f hf
    rcases List.mem_append.mp hf with hf | hf
    · have hscan : scanNext xs = some (n, o) := hn
      unfold scanNext at hscan
      split_ifs at hscan with hs hlt hlen hcrc he
      · obtain ⟨-, rfl⟩ := Prod.mk.inj (Option.some.inj hscan)
        rw [Option.toList_some, List.mem_singleton] at hf
        rw [hf]
        exact List.length_take_le' _ _
      · obtain ⟨-, rfl⟩ := Prod.mk.inj (Option.some.inj hscan)
        simp at hf
      · obtain ⟨-, rfl⟩ := Prod.mk.inj (Option.some.inj hscan)
        simp at hf
    · have := ih f hf
      rw [List.length_drop] at this
      omega

/-- The frames the plain scan accepts. -/
def refFrames (stream : List UInt8) : List (List UInt8) := (refScanner.scan stream).1

/-- No frame is shorter than its head. -/
theorem refFrames_short {xs : List UInt8} (h : xs.length < 8) : refFrames xs = [] := by
  induction hk : xs.length using Nat.strong_induction_on generalizing xs with
  | _ k ih =>
    rw [refFrames]
    cases hn : refScanner.next xs with
    | none => rw [Scanner.scan_wait hn]
    | some r =>
      have hstep : scanNext xs = some r := hn
      rw [scanNext, if_pos h] at hstep
      split_ifs at hstep
      obtain rfl := Option.some.inj hstep
      rw [Scanner.scan_step hn]
      have hlt := refScanner.length_drop_lt hn
      exact ih _ (hk ▸ hlt) (hlt.trans h) rfl

theorem refFrames_whole {frame : List UInt8} (h : scanNext frame = some (frame.length, some frame)) :
    refFrames frame = [frame] := by
  have hnil : (refScanner.scan []).1 = [] := refFrames_short (by simp)
  rw [refFrames, Scanner.scan_step (S := refScanner) h, List.drop_length, hnil]
  rfl

section Search

theorem findframehead_le (xs : List UInt8) : yxSerialLinkFindframehead xs ≤ xs.length := by
  induction xs using yxSerialLinkFindframehead.induct with
  | case1 => simp [yxSerialLinkFindframehead]
  | case2 => simp [yxSerialLinkFindframehead]
  | case3 b hb => simp [yxSerialLinkFindframehead, hb]
  | case4 b₀ b₁ rest hh => simp [yxSerialLinkFindframehead, hh]
  | case5 b₀ b₁ rest hh ih =>
    rw [yxSerialLinkFindframehead, if_neg hh, List.length_cons]
    omega

/-- The search passes over what the plain scan passes over. -/
theorem findframehead_passes (xs : List UInt8) :
    refScanner.Passes xs [] (xs.drop (yxSerialLinkFindframehead xs)) := by
  induction xs using yxSerialLinkFindframehead.induct with
  | case1 => exact .refl []
  | case2 => simpa [yxSerialLinkFindframehead] using Scanner.Passes.refl _
  | case3 b hb =>
    have hn : refScanner.next [b] = some (1, none) := by
      simp [refScanner, scanNext, startsFrame, hb]
    simpa [yxSerialLinkFindframehead, hb] using Scanner.Passes.single hn
  | case4 b₀ b₁ rest hh => simpa [yxSerialLinkFindframehead, hh] using Scanner.Passes.refl _
  | case5 b₀ b₁ rest hh ih =>
    have hn : refScanner.next (b₀ :: b₁ :: rest) = some (1, none) := by
      have hs : startsFrame (b₀ :: b₁ :: rest) = false := by simpa [startsFrame] using hh
      simp [refScanner, scanNext, hs]
    rw [yxSerialLinkFindframehead, if_neg hh, List.drop_succ_cons]
    exact .step hn ih

/-- The search stops at a frame head, or where the plain scan waits. -/
theorem findframehead_stops (xs : List UInt8) :
    startsFrame (xs.drop (yxSerialLinkFindframehead xs)) ∨
      scanNext (xs.drop (yxSerialLinkFindframehead xs)) = none := by
  induction xs using yxSerialLinkFindframehead.induct with
  | case1 => exact Or.inr rfl
  | case2 => exact Or.inr (by simp [yxSerialLinkFindframehead, scanNext, startsFrame])
  | case3 b hb => exact Or.inr (by simp [yxSerialLinkFindframehead, hb, scanNext, startsFrame])
  | case4 b₀ b₁ rest hh => exact Or.inl (by simp [yxSerialLinkFindframehead, hh, startsFrame])
  | case5 b₀ b₁ rest hh ih =>
    rw [yxSerialLinkFindframehead, if_neg hh, List.drop_succ_cons]
    exact ih

/-- The byte after the first byte of a head starts no frame. -/
theorem scanNext_second {xs : List UInt8} (h : startsFrame xs) :
    scanNext (xs.drop 1) = some (1, none) := by
  match xs, h with
  | [], h => simp [startsFrame] at h
  | [_], h => simp [startsFrame] at h
  | b₀ :: b₁ :: rest, h =>
    have hb : b₁ = yxSerialLinkHeadUp2 := by
      simp only [startsFrame, List.getElem?_cons_zero, List.getElem?_cons_succ, Bool.and_eq_true,
        beq_iff_eq, Option.some.injEq] at h
      exact h.2
    have hne : yxSerialLinkHeadUp2 ≠ yxSerialLinkHeadUp1 := by decide
    subst hb
    simp [scanNext, startsFrame, hne]

end Search

end Tulux.SerialLink
