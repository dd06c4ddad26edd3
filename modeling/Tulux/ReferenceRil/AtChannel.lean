import Mathlib.Data.List.Basic
import Mathlib.Data.Fintype.Basic
import Mathlib.Logic.Function.Basic
import Tulux.Lib.GuardedRun

/-! The commands of `atchannel.c`: threads that send a command and wait for its response, and the
reader thread that hands them the lines of the AT channel. -/
namespace Tulux.ReferenceRil
open GuardedRun

abbrev Line := List UInt8

def ascii (s : String) : Line := s.toList.map fun c => UInt8.ofNat c.toNat

def strStartsWith : Line → Line → Bool
  | _, [] => true
  | [], _ :: _ => false
  | c :: line, d :: start => c == d && strStartsWith line start

def finalResponsesError : List Line :=
  [ascii "ERROR", ascii "+CMS ERROR:", ascii "+CME ERROR:", ascii "NO CARRIER", ascii "NO ANSWER",
    ascii "NO DIALTONE"]

def isFinalResponseError (line : Line) : Bool := finalResponsesError.any (strStartsWith line)

def finalResponsesSuccess : List Line := [ascii "OK", ascii "CONNECT"]

def isFinalResponseSuccess (line : Line) : Bool := finalResponsesSuccess.any (strStartsWith line)

def isFinalResponse (line : Line) : Bool := isFinalResponseSuccess line || isFinalResponseError line

def smsUnsoliciteds : List Line := [ascii "+CMT:", ascii "+CDS:", ascii "+CBM:"]

def isSMSUnsolicited (line : Line) : Bool := smsUnsoliciteds.any (strStartsWith line)

def prompt : Line := ascii "> "

/-- `isdigit(line[0])` -/
def startsWithDigit (line : Line) : Bool := line.head?.any fun c => 48 ≤ c ∧ c ≤ 57

inductive CommandType where
  | noResult
  | numeric
  | singleline
  | multiline
  deriving DecidableEq

inductive AtError where
  | generic
  | commandPending
  | channelClosed
  | timeout
  | invalidResponse
  deriving DecidableEq

/-- `ATResponse`; the intermediate responses are a list with the last one at its head. -/
structure Response where
  success : Bool
  finalResponse : Option Line
  intermediates : List Line
  deriving DecidableEq

/-- What is given to `at_send_command_full`, whether the caller takes the response, and whether it
refuses a success without intermediate response. -/
structure Command where
  command : Line
  type : CommandType
  responsePrefix : Line
  smsPDU : Option Line
  timeout : Bool
  wanted : Bool
  checked : Bool
  deriving DecidableEq

def atSendCommand (command : Line) (wanted : Bool) : Command :=
  ⟨command, .noResult, [], none, false, wanted, false⟩

def atSendCommandSingleline (command responsePrefix : Line) (wanted : Bool) : Command :=
  ⟨command, .singleline, responsePrefix, none, false, wanted, true⟩

def atSendCommandNumeric (command : Line) (wanted : Bool) : Command :=
  ⟨command, .numeric, [], none, false, wanted, true⟩

def atSendCommandSms (command pdu responsePrefix : Line) (wanted : Bool) : Command :=
  ⟨command, .singleline, responsePrefix, some pdu, false, wanted, true⟩

def atSendCommandMultiline (command responsePrefix : Line) (wanted : Bool) : Command :=
  ⟨command, .multiline, responsePrefix, none, false, wanted, false⟩

/-- An attempt of `at_handshake`. -/
def atHandshake : Command := ⟨ascii "ATE0Q0V1", .noResult, [], none, true, false, false⟩

/-- What a command returns: an error or 0, and the response that it hands out. -/
structure Reply where
  error : Option AtError
  response : Option Response
  deriving DecidableEq

/-- A successful command must have an intermediate response. -/
def Command.check (c : Command) (reply : Reply) : Reply :=
  match reply with
  | ⟨none, some r⟩ =>
    if c.checked ∧ r.success ∧ r.intermediates = [] then ⟨some .invalidResponse, none⟩ else reply
  | _ => reply

/-- What the reader thread makes of the lines: a line, or the two lines of a short message. -/
inductive Item where
  | line (line : Line)
  | sms (line₁ line₂ : Line)
  deriving DecidableEq

/-- What was given to `writeline` and `writeCtrlZ`. -/
inductive Write where
  | line (s : Line)
  | ctrlZ (s : Line)
  deriving DecidableEq

/-- The variables under the mutex, the first line of a short message that the reader holds, the
commands of the threads that wait, and what went to the unsolicited handler, to the channel and back
to the threads. -/
structure Channel (ι : Type*) where
  response : Option Response
  type : CommandType
  responsePrefix : Line
  smsPDU : Option Line
  fdClosed : Bool
  readerClosed : Bool
  held : Option Line
  waiting : ι → Option Command
  unsolicited : List Item
  writes : List Write
  returned : List (ι × Reply)

/-- Whether a write succeeds is up to the environment; a thread that waits wakes up at any time. -/
inductive Op (ι : Type*) where
  | line (line : Line)
  | send (i : ι) (c : Command) (wrote : Bool)
  | wake (i : ι)
  | timeout (i : ι)
  | closeFd
  | closeReader

namespace Channel
variable {ι : Type*}

/-- The channel behind `at_open`. -/
def init : Channel ι :=
  ⟨none, .noResult, [], none, false, false, none, fun _ => none, [], [], []⟩

def handleUnsolicited (s : Channel ι) (line : Line) : Channel ι :=
  { s with unsolicited := s.unsolicited ++ [.line line] }

def addIntermediate (s : Channel ι) (r : Response) (line : Line) : Channel ι :=
  { s with response := some { r with intermediates := line :: r.intermediates } }

def handleFinalResponse (s : Channel ι) (r : Response) (success : Bool) (line : Line) : Channel ι :=
  { s with response := some { r with success := success, finalResponse := some line } }

/-- The cases of `processLine` for the types of commands. -/
def processByType (s : Channel ι) (r : Response) (line : Line) : Channel ι :=
  match s.type with
  | .noResult => s.handleUnsolicited line
  | .numeric =>
    if r.intermediates = [] ∧ startsWithDigit line then s.addIntermediate r line
    else s.handleUnsolicited line
  | .singleline =>
    if r.intermediates = [] ∧ strStartsWith line s.responsePrefix then s.addIntermediate r line
    else s.handleUnsolicited line
  | .multiline =>
    if strStartsWith line s.responsePrefix then s.addIntermediate r line
    else s.handleUnsolicited line

def processLine (s : Channel ι) (line : Line) : Channel ι :=
  match s.response with
  | none => s.handleUnsolicited line
  | some r =>
    if isFinalResponseSuccess line then s.handleFinalResponse r true line
    else if isFinalResponseError line then s.handleFinalResponse r false line
    else
      match s.smsPDU with
      | none => s.processByType r line
      | some pdu =>
        if line = prompt then { s with writes := s.writes ++ [.ctrlZ pdu], smsPDU := none }
        else s.processByType r line

/-- A line of the loop of `readerLoop`. -/
def readerLoop (s : Channel ι) (line : Line) : Channel ι :=
  match s.held with
  | some line₁ => { s with held := none, unsolicited := s.unsolicited ++ [.sms line₁ line] }
  | none => if isSMSUnsolicited line then { s with held := some line } else s.processLine line

def clearPendingCommand (s : Channel ι) : Channel ι :=
  { s with response := none, responsePrefix := [], smsPDU := none }

variable [DecidableEq ι]

/-- The end of a command. -/
def giveBack (s : Channel ι) (i : ι) (c : Command) (reply : Reply) : Channel ι :=
  { s.clearPendingCommand with
    waiting := Function.update s.waiting i none
    returned := s.returned ++ [(i, c.check reply)] }

def writeline (s : Channel ι) (wrote : Bool) : Option AtError :=
  if s.fdClosed ∨ s.readerClosed then some .channelClosed
  else if wrote then none
  else some .generic

/-- `at_send_command_full_nolock` up to where it waits -/
def send (s : Channel ι) (i : ι) (c : Command) (wrote : Bool) : Channel ι :=
  if s.response.isSome then s.giveBack i c ⟨some .commandPending, none⟩
  else
    let s := { s with writes := s.writes ++ [Write.line c.command] }
    match s.writeline wrote with
    | some e => s.giveBack i c ⟨some e, none⟩
    | none =>
      { s with
        response := some ⟨false, none, []⟩
        type := c.type
        responsePrefix := c.responsePrefix
        smsPDU := c.smsPDU
        waiting := Function.update s.waiting i (some c) }

/-- What a thread does that has waited; where there is no response it goes through a null pointer. -/
def wake (s : Channel ι) (i : ι) (c : Command) : Option (Channel ι) :=
  match s.response with
  | none => none
  | some r =>
    if r.finalResponse = none ∧ ¬ s.readerClosed then some s
    else
      let error := if s.readerClosed then some .channelClosed else none
      let r := { r with intermediates := r.intermediates.reverse }
      some (s.giveBack i c ⟨error, if c.wanted then some r else none⟩)

/-- Only a thread that waits wakes up, and it does nothing else. -/
def step (s : Channel ι) : Op ι → Option (Channel ι)
  | .line line => some (s.readerLoop line)
  | .send i c wrote =>
    match s.waiting i with
    | some _ => some s
    | none => some (s.send i c wrote)
  | .wake i =>
    match s.waiting i with
    | some c => s.wake i c
    | none => some s
  | .timeout i =>
    match s.waiting i with
    | some c => some (if c.timeout then s.giveBack i c ⟨some .timeout, none⟩ else s)
    | none => some s
  | .closeFd => some { s with fdClosed := true }
  | .closeReader => some { s with readerClosed := true }

/-- No command is sent while another one waits. -/
def Alone (s : Channel ι) : Op ι → Prop
  | .send _ _ _ => ∀ j, s.waiting j = none
  | _ => True

/-- A command that is refused takes the response away from the one that waits. -/
theorem wake_of_refused {s : Channel ι} {r : Response} (i j : ι) (c d : Command) (wrote : Bool)
    (h : s.response = some r) : (s.send j d wrote).wake i c = none := by
  have hpending : s.response.isSome = true := by rw [h]; rfl
  rw [send, if_pos hpending]
  rfl

end Channel

/-! ### What becomes of the lines -/

def Item.text : Item → Line
  | .line l => l
  | .sms l _ => l

def Item.isFinal : Item → Bool
  | .line l => isFinalResponse l
  | .sms _ _ => false

def Item.isPrompt : Item → Bool
  | .line l => l = prompt
  | .sms _ _ => false

namespace Command

/-- Whether an item may be an intermediate response of a command. -/
def fits (c : Command) : Item → Bool
  | .sms _ _ => false
  | .line line =>
    match c.type with
    | .noResult => false
    | .numeric => startsWithDigit line
    | .singleline | .multiline => strStartsWith line c.responsePrefix

/-- Of the items that are not final, all but the first prompt for a message. -/
def others (c : Command) (items : List Item) : List Item :=
  let others := items.filter fun item => !item.isFinal
  if c.smsPDU.isSome then others.eraseP Item.isPrompt else others

/-- A command that expects several lines takes each one that fits, the others the first one. -/
def pick (c : Command) (items : List Item) : List Item :=
  if c.type = .multiline then items.filter c.fits else (items.find? c.fits).toList

def leave (c : Command) (items : List Item) : List Item :=
  if c.type = .multiline then items.filter fun item => !c.fits item else items.eraseP c.fits

end Command

def prompted (items : List Item) : Bool :=
  (items.filter fun item => !item.isFinal).any Item.isPrompt

/-- A command and the items that came while it waited. -/
structure Window (ι : Type*) where
  thread : ι
  command : Command
  items : List Item

namespace Window
variable {ι : Type*}

def push (w : Window ι) (item : Item) : Window ι := { w with items := w.items ++ [item] }

def intermediates (w : Window ι) : List Line :=
  (w.command.pick (w.command.others w.items)).map Item.text

def unsolicited (w : Window ι) : List Item := w.command.leave (w.command.others w.items)

/-- The last final response. -/
def finalResponse (w : Window ι) : Option Line := (w.items.filter Item.isFinal).getLast?.map Item.text

def response (w : Window ι) : Response :=
  ⟨w.finalResponse.any isFinalResponseSuccess, w.finalResponse, w.intermediates⟩

def handedOut (w : Window ι) : Option Response := if w.command.wanted then some w.response else none

/-- The message that a prompt has asked for. -/
def message (w : Window ι) : Option Line := if prompted w.items then w.command.smsPDU else none

def writes (w : Window ι) : List Write :=
  .line w.command.command :: (w.message.map Write.ctrlZ).toList

/-- What the channel holds of the response. -/
def stored (w : Window ι) : Response :=
  { w.response with intermediates := w.intermediates.reverse }

/-- The message that no prompt has asked for. -/
def pending (w : Window ι) : Option Line :=
  if prompted w.items then none else w.command.smsPDU

end Window

inductive Ending where
  | waiting
  | answered
  | closed
  | timedOut

/-- Between the commands there are items; a command fails at once, or has a window. -/
inductive Segment (ι : Type*) where
  | idle (item : Item)
  | failed (i : ι) (c : Command) (e : AtError)
  | command (w : Window ι) (ending : Ending)

namespace Segment
variable {ι : Type*}

def unsolicited : Segment ι → List Item
  | .idle item => [item]
  | .failed _ _ _ => []
  | .command w _ => w.unsolicited

def writes : Segment ι → List Write
  | .idle _ => []
  | .failed _ c _ => [.line c.command]
  | .command w _ => w.writes

def returned : Segment ι → List (ι × Reply)
  | .idle _ => []
  | .failed i _ e => [(i, ⟨some e, none⟩)]
  | .command _ .waiting => []
  | .command w .answered => [(w.thread, w.command.check ⟨none, w.handedOut⟩)]
  | .command w .closed => [(w.thread, ⟨some .channelClosed, w.handedOut⟩)]
  | .command w .timedOut => [(w.thread, ⟨some .timeout, none⟩)]

end Segment

/-- The commands one after the other, each with the items that came while it waited. -/
structure Record (ι : Type*) where
  ended : List (Segment ι)
  current : Option (Window ι)
  held : Option Line
  fdClosed : Bool
  readerClosed : Bool

namespace Record
variable {ι : Type*}

def init : Record ι := ⟨[], none, none, false, false⟩

def add (r : Record ι) (item : Item) : Record ι :=
  match r.current with
  | none => { r with ended := r.ended ++ [.idle item] }
  | some w => { r with current := some (w.push item) }

def close (r : Record ι) (w : Window ι) (ending : Ending) : Record ι :=
  { r with ended := r.ended ++ [.command w ending], current := none }

def fail (r : Record ι) (i : ι) (c : Command) (e : AtError) : Record ι :=
  { r with ended := r.ended ++ [.failed i c e] }

def line (r : Record ι) (line : Line) : Record ι :=
  match r.held with
  | some line₁ => { r with held := none }.add (.sms line₁ line)
  | none => if isSMSUnsolicited line then { r with held := some line } else r.add (.line line)

def send (r : Record ι) (i : ι) (c : Command) (wrote : Bool) : Record ι :=
  if r.fdClosed ∨ r.readerClosed then r.fail i c .channelClosed
  else if wrote then { r with current := some ⟨i, c, []⟩ }
  else r.fail i c .generic

variable [DecidableEq ι]

def step (r : Record ι) : Op ι → Record ι
  | .line line => r.line line
  | .send i c wrote => r.send i c wrote
  | .wake i =>
    match r.current with
    | none => r
    | some w =>
      if i = w.thread ∧ r.readerClosed then r.close w .closed
      else if i = w.thread ∧ w.finalResponse.isSome then r.close w .answered
      else r
  | .timeout i =>
    match r.current with
    | none => r
    | some w => if i = w.thread ∧ w.command.timeout then r.close w .timedOut else r
  | .closeFd => { r with fdClosed := true }
  | .closeReader => { r with readerClosed := true }

omit [DecidableEq ι] in
def segments (r : Record ι) : List (Segment ι) :=
  r.ended ++ (r.current.map (Segment.command · .waiting)).toList

end Record

/-! ### One more item -/

namespace Command
variable {c : Command} {items xs : List Item} {item : Item}

theorem others_final (h : item.isFinal) : c.others (items ++ [item]) = c.others items := by
  simp [others, h]

theorem prompted_final (h : item.isFinal) : prompted (items ++ [item]) = prompted items := by
  simp [prompted, h]

theorem prompted_snoc (h : item.isFinal = false) :
    prompted (items ++ [item]) = (prompted items || item.isPrompt) := by
  simp [prompted, h]

/-- The first prompt is left out where there is a message. -/
theorem others_prompt (h : item.isFinal = false) (hpdu : c.smsPDU.isSome)
    (hfirst : prompted items = false) (hprompt : item.isPrompt) :
    c.others (items ++ [item]) = c.others items := by
  unfold others
  have hno : ∀ x ∈ items.filter fun x => !x.isFinal, ¬ x.isPrompt := by
    intro x hx
    have hnone := List.any_eq_false.mp hfirst x hx
    exact hnone
  rw [if_pos hpdu, if_pos hpdu, List.filter_append, List.eraseP_append_right _ hno,
    List.eraseP_of_forall_not hno]
  simp [h, hprompt]

theorem others_snoc (h : item.isFinal = false)
    (hprompt : item.isPrompt → c.smsPDU.isSome → prompted items) :
    c.others (items ++ [item]) = c.others items ++ [item] := by
  have hfilter : (items ++ [item]).filter (fun x => !x.isFinal) =
      items.filter (fun x => !x.isFinal) ++ [item] := by
    simp [h]
  unfold others
  rw [hfilter]
  by_cases hpdu : c.smsPDU.isSome
  · rw [if_pos hpdu, if_pos hpdu]
    by_cases hitem : item.isPrompt
    · obtain ⟨x, hx, hxprompt⟩ := List.any_eq_true.mp (hprompt hitem hpdu)
      exact List.eraseP_append_left hxprompt _ hx
    · by_cases hany : ∃ x ∈ items.filter fun x => !x.isFinal, x.isPrompt
      · obtain ⟨x, hx, hxprompt⟩ := hany
        exact List.eraseP_append_left hxprompt _ hx
      · push Not at hany
        rw [List.eraseP_append_right _ hany, List.eraseP_of_forall_not hany]
        simp [hitem]
  · rw [if_neg hpdu, if_neg hpdu]

/-- Whether an item is taken behind others. -/
def Takes (c : Command) (xs : List Item) (item : Item) : Prop :=
  c.fits item ∧ (c.type = .multiline ∨ c.pick xs = [])

theorem pick_eq_nil_iff (hone : c.type ≠ .multiline) : c.pick xs = [] ↔ ∀ x ∈ xs, ¬ c.fits x := by
  rw [pick, if_neg hone]
  simp

theorem pick_takes (h : c.Takes xs item) : c.pick (xs ++ [item]) = c.pick xs ++ [item] := by
  obtain ⟨hfits, htype⟩ := h
  by_cases hmulti : c.type = .multiline
  · simp [pick, hmulti, hfits]
  · have hempty := htype.resolve_left hmulti
    have hno := (pick_eq_nil_iff hmulti).mp hempty
    rw [hempty, pick, if_neg hmulti, List.find?_append, List.find?_eq_none.mpr hno]
    simp [hfits]

theorem leave_takes (h : c.Takes xs item) : c.leave (xs ++ [item]) = c.leave xs := by
  obtain ⟨hfits, htype⟩ := h
  by_cases hmulti : c.type = .multiline
  · simp [leave, hmulti, hfits]
  · have hno := (pick_eq_nil_iff hmulti).mp (htype.resolve_left hmulti)
    rw [leave, leave, if_neg hmulti, if_neg hmulti, List.eraseP_append_right _ hno,
      List.eraseP_of_forall_not hno]
    simp [hfits]

theorem pick_not_takes (h : ¬ c.Takes xs item) : c.pick (xs ++ [item]) = c.pick xs := by
  unfold Takes at h
  by_cases hmulti : c.type = .multiline
  · have hfits : c.fits item = false := by simpa [hmulti] using h
    simp [pick, hmulti, hfits]
  · rw [pick_eq_nil_iff hmulti] at h
    rw [pick, pick, if_neg hmulti, if_neg hmulti, List.find?_append]
    cases hfind : xs.find? c.fits with
    | some x => rfl
    | none =>
      have hfits : ¬ c.fits item := by
        intro hfits
        exact h ⟨hfits, Or.inr (List.find?_eq_none.mp hfind)⟩
      simp [hfits]

theorem leave_not_takes (h : ¬ c.Takes xs item) : c.leave (xs ++ [item]) = c.leave xs ++ [item] := by
  unfold Takes at h
  by_cases hmulti : c.type = .multiline
  · have hfits : c.fits item = false := by simpa [hmulti] using h
    simp [leave, hmulti, hfits]
  · rw [pick_eq_nil_iff hmulti] at h
    rw [leave, leave, if_neg hmulti, if_neg hmulti]
    by_cases hany : ∃ x ∈ xs, c.fits x
    · obtain ⟨x, hx, hfits⟩ := hany
      exact List.eraseP_append_left hfits _ hx
    · push Not at hany
      have hfits : ¬ c.fits item := fun hfits => h ⟨hfits, Or.inr hany⟩
      rw [List.eraseP_append_right _ hany, List.eraseP_of_forall_not hany]
      simp [hfits]

theorem find_append_eraseP (p : Item → Bool) (xs : List Item) :
    ((xs.find? p).toList ++ xs.eraseP p).Perm xs := by
  induction xs with
  | nil => exact .nil
  | cons x xs ih =>
    by_cases hx : p x
    · simp [hx]
    · simp only [List.find?_cons_of_neg hx, List.eraseP_cons_of_neg hx]
      exact List.perm_middle.trans (ih.cons x)

/-- Each item is a final response, the prompt for a message, or taken, or left. -/
theorem accounts (c : Command) (items : List Item) :
    (items.filter Item.isFinal ++
      (if c.smsPDU.isSome then (items.filter fun x => !x.isFinal).find? Item.isPrompt else none).toList ++
      c.pick (c.others items) ++ c.leave (c.others items)).Perm items := by
  have hpick : (c.pick (c.others items) ++ c.leave (c.others items)).Perm (c.others items) := by
    unfold pick leave
    split_ifs
    · exact List.filter_append_perm _ _
    · exact find_append_eraseP _ _
  have hothers : ((if c.smsPDU.isSome then (items.filter fun x => !x.isFinal).find? Item.isPrompt
      else none).toList ++ c.others items).Perm (items.filter fun x => !x.isFinal) := by
    unfold others
    split_ifs
    · exact find_append_eraseP _ _
    · exact .refl _
  rw [List.append_assoc, List.append_assoc]
  refine (List.Perm.append_left _ ((List.Perm.append_left _ hpick).trans hothers)).trans ?_
  exact List.filter_append_perm _ _

end Command

namespace Window
variable {ι : Type*} {w : Window ι} {item : Item}

theorem pending_eq_some_iff {pdu : Line} :
    w.pending = some pdu ↔ prompted w.items = false ∧ w.command.smsPDU = some pdu := by
  cases h : prompted w.items <;> simp [pending, h]

theorem prompted_of_pending (h : w.pending = none) (hpdu : w.command.smsPDU.isSome) :
    prompted w.items := by
  by_contra hno
  rw [pending, if_neg hno] at h
  simp [h] at hpdu

theorem stored_reverse (w : Window ι) :
    { w.stored with intermediates := w.stored.intermediates.reverse } = w.response := by
  simp [stored, response]

/-- A final response takes the place of the one before. -/
theorem push_final (h : item.isFinal) : (w.push item).intermediates = w.intermediates ∧
    (w.push item).unsolicited = w.unsolicited ∧ (w.push item).finalResponse = some item.text ∧
      (w.push item).writes = w.writes ∧ (w.push item).pending = w.pending := by
  simp [push, intermediates, unsolicited, finalResponse, writes, message, pending, Command.others_final h,
    Command.prompted_final h, h]

theorem push_prompt {pdu : Line} (h : item.isFinal = false) (hprompt : item.isPrompt)
    (hpending : w.pending = some pdu) : (w.push item).intermediates = w.intermediates ∧
    (w.push item).unsolicited = w.unsolicited ∧ (w.push item).finalResponse = w.finalResponse ∧
      (w.push item).writes = w.writes ++ [.ctrlZ pdu] ∧ (w.push item).pending = none := by
  obtain ⟨hfirst, hpdu⟩ := pending_eq_some_iff.mp hpending
  have hothers : w.command.others (w.items ++ [item]) = w.command.others w.items :=
    Command.others_prompt h (by simp [hpdu]) hfirst hprompt
  simp [push, intermediates, unsolicited, finalResponse, writes, message, pending, hothers,
    Command.prompted_snoc h, hprompt, h, hfirst, hpdu]

section NoPrompt
variable (h : item.isFinal = false) (hprompt : item.isPrompt → w.pending = none)
include h hprompt

theorem others_push :
    w.command.others (w.items ++ [item]) = w.command.others w.items ++ [item] :=
  Command.others_snoc h fun hitem hpdu => prompted_of_pending (hprompt hitem) hpdu

theorem push_pending : (w.push item).pending = w.pending := by
  by_cases hitem : item.isPrompt
  · have hnone := hprompt hitem
    rw [pending] at hnone
    simp [push, pending, Command.prompted_snoc h, hitem, hnone]
  · simp [push, pending, Command.prompted_snoc h, hitem]

theorem push_message : (w.push item).message = w.message := by
  by_cases hitem : item.isPrompt
  · cases hpdu : w.command.smsPDU with
    | none => simp [push, message, hpdu]
    | some pdu =>
      have hprompted := prompted_of_pending (hprompt hitem) (by simp [hpdu])
      simp [push, message, Command.prompted_snoc h, hprompted]
  · simp [push, message, Command.prompted_snoc h, hitem]

theorem push_other : (w.push item).finalResponse = w.finalResponse ∧
    (w.push item).writes = w.writes ∧ (w.push item).pending = w.pending := by
  refine ⟨by simp [push, finalResponse, h], ?_, push_pending h hprompt⟩
  rw [writes, push_message h hprompt]
  rfl

theorem push_takes (htakes : w.command.Takes (w.command.others w.items) item) :
    (w.push item).intermediates = w.intermediates ++ [item.text] ∧
      (w.push item).unsolicited = w.unsolicited := by
  simp [push, intermediates, unsolicited, others_push h hprompt, Command.pick_takes htakes,
    Command.leave_takes htakes]

theorem push_leaves (htakes : ¬ w.command.Takes (w.command.others w.items) item) :
    (w.push item).intermediates = w.intermediates ∧
      (w.push item).unsolicited = w.unsolicited ++ [item] := by
  simp [push, intermediates, unsolicited, others_push h hprompt, Command.pick_not_takes htakes,
    Command.leave_not_takes htakes]

end NoPrompt
end Window

/-! ### The channel shows what the record says -/

namespace Channel
variable {ι : Type*} [DecidableEq ι] {s : Channel ι} {r : Record ι} {w : Window ι}

/-- The command that waits, if any, and the state that the lines have brought it to. -/
def Pending (s : Channel ι) : Option (Window ι) → Prop
  | none => s.response = none ∧ ∀ i, s.waiting i = none
  | some w => s.response = some w.stored ∧
      s.waiting = Function.update (fun _ => none) w.thread (some w.command) ∧
      s.type = w.command.type ∧ s.responsePrefix = w.command.responsePrefix ∧ s.smsPDU = w.pending

structure Shows (s : Channel ι) (r : Record ι) : Prop where
  unsolicited : s.unsolicited = r.segments.flatMap Segment.unsolicited
  writes : s.writes = r.segments.flatMap Segment.writes
  returned : s.returned = r.segments.flatMap Segment.returned
  pending : s.Pending r.current
  held : s.held = r.held
  fdClosed : s.fdClosed = r.fdClosed
  readerClosed : s.readerClosed = r.readerClosed

theorem shows_init : (init : Channel ι).Shows .init :=
  ⟨rfl, rfl, rfl, ⟨rfl, fun _ => rfl⟩, rfl, rfl, rfl⟩

section Lines
variable {item : Item}

/-- An item between the commands goes to the unsolicited handler. -/
theorem Shows.idle (h : s.Shows r) (hcurrent : r.current = none) (item : Item) :
    Shows { s with unsolicited := s.unsolicited ++ [item] } (r.add item) := by
  have hpending := h.pending
  rw [hcurrent] at hpending
  simp only [Record.add, hcurrent]
  refine ⟨?_, ?_, ?_, hpending, h.held, h.fdClosed, h.readerClosed⟩
  · simp [h.unsolicited, Record.segments, hcurrent, Segment.unsolicited]
  · simp [h.writes, Record.segments, hcurrent, Segment.writes]
  · simp [h.returned, Record.segments, hcurrent, Segment.returned]

/-- An item in the window of a command. -/
theorem Shows.push {s' : Channel ι} (h : s.Shows r) (hcurrent : r.current = some w)
    (hreader : s'.returned = s.returned ∧ s'.held = s.held ∧ s'.fdClosed = s.fdClosed ∧
      s'.readerClosed = s.readerClosed)
    (hcommand : s'.waiting = s.waiting ∧ s'.type = s.type ∧ s'.responsePrefix = s.responsePrefix)
    (hunsolicited : ∃ xs, s'.unsolicited = s.unsolicited ++ xs ∧
      (w.push item).unsolicited = w.unsolicited ++ xs)
    (hwrites : ∃ xs, s'.writes = s.writes ++ xs ∧ (w.push item).writes = w.writes ++ xs)
    (hresponse : s'.response = some (w.push item).stored)
    (hpdu : s'.smsPDU = (w.push item).pending) : s'.Shows (r.add item) := by
  have hpending := h.pending
  rw [hcurrent] at hpending
  obtain ⟨-, hwaiting, htype, hstart, -⟩ := hpending
  obtain ⟨hreturned, hheld, hfd, hclosed⟩ := hreader
  obtain ⟨hwaiting', htype', hstart'⟩ := hcommand
  obtain ⟨us, hus, hwus⟩ := hunsolicited
  obtain ⟨ws, hws, hwws⟩ := hwrites
  simp only [Record.add, hcurrent]
  refine ⟨?_, ?_, ?_, ⟨hresponse, hwaiting'.trans hwaiting, htype'.trans htype,
    hstart'.trans hstart, hpdu⟩, hheld.trans h.held, hfd.trans h.fdClosed,
    hclosed.trans h.readerClosed⟩
  · simp [hus, h.unsolicited, Record.segments, hcurrent, Segment.unsolicited, hwus]
  · simp [hws, h.writes, Record.segments, hcurrent, Segment.writes, hwws]
  · simp [hreturned, h.returned, Record.segments, hcurrent, Segment.returned]

omit [DecidableEq ι] in
theorem processByType_eq (s : Channel ι) (c : Command) (r : Response) (line : Line)
    (htype : s.type = c.type) (hstart : s.responsePrefix = c.responsePrefix) :
    s.processByType r line =
      if c.fits (.line line) ∧ (c.type = .multiline ∨ r.intermediates = []) then
        s.addIntermediate r line
      else s.handleUnsolicited line := by
  unfold processByType
  rw [htype, hstart]
  cases h : c.type <;> simp [Command.fits, h, and_comm]

theorem Shows.processByType (h : s.Shows r) (hcurrent : r.current = some w) {line : Line}
    (hfinal : isFinalResponse line = false) (hprompt : line = prompt → w.pending = none) :
    (s.processByType w.stored line).Shows (r.add (.line line)) := by
  have hpending := h.pending
  rw [hcurrent] at hpending
  obtain ⟨hresponse, -, htype, hstart, hpdu⟩ := hpending
  have hitem : (Item.line line).isPrompt → w.pending = none := by
    simpa [Item.isPrompt] using hprompt
  have hnot : (Item.line line).isFinal = false := hfinal
  obtain ⟨hfinals, hwrites, hmessage⟩ := Window.push_other hnot hitem
  have hempty : w.stored.intermediates = [] ↔ w.command.pick (w.command.others w.items) = [] := by
    simp [Window.stored, Window.intermediates]
  rw [processByType_eq s w.command _ _ htype hstart]
  split_ifs with htakes
  · rw [hempty] at htakes
    obtain ⟨hintermediates, hunsolicited⟩ := Window.push_takes hnot hitem htakes
    refine h.push hcurrent ⟨rfl, rfl, rfl, rfl⟩ ⟨rfl, rfl, rfl⟩ ⟨[], ?_, ?_⟩ ⟨[], ?_, ?_⟩ ?_ ?_
    · exact (List.append_nil _).symm
    · rw [hunsolicited, List.append_nil]
    · exact (List.append_nil _).symm
    · rw [hwrites, List.append_nil]
    · simp [addIntermediate, Window.stored, Window.response, hfinals, hintermediates, Item.text]
    · exact hpdu.trans hmessage.symm
  · rw [hempty] at htakes
    obtain ⟨hintermediates, hunsolicited⟩ := Window.push_leaves hnot hitem htakes
    refine h.push hcurrent ⟨rfl, rfl, rfl, rfl⟩ ⟨rfl, rfl, rfl⟩ ⟨_, rfl, hunsolicited⟩ ⟨[], ?_, ?_⟩
      ?_ ?_
    · exact (List.append_nil _).symm
    · rw [hwrites, List.append_nil]
    · simp [handleUnsolicited, hresponse, Window.stored, Window.response, hfinals, hintermediates]
    · exact hpdu.trans hmessage.symm

/-- A final response of a command. -/
theorem Shows.handleFinalResponse (h : s.Shows r) (hcurrent : r.current = some w) {line : Line}
    (hfinal : isFinalResponse line) :
    (s.handleFinalResponse w.stored (isFinalResponseSuccess line) line).Shows (r.add (.line line)) := by
  have hpending := h.pending
  rw [hcurrent] at hpending
  obtain ⟨-, -, -, -, hpdu⟩ := hpending
  have hitem : (Item.line line).isFinal := hfinal
  obtain ⟨hintermediates, hunsolicited, hfinals, hwrites, hmessage⟩ :=
    Window.push_final (w := w) hitem
  refine h.push hcurrent ⟨rfl, rfl, rfl, rfl⟩ ⟨rfl, rfl, rfl⟩ ⟨[], ?_, ?_⟩ ⟨[], ?_, ?_⟩ ?_ ?_
  · exact (List.append_nil _).symm
  · rw [hunsolicited, List.append_nil]
  · exact (List.append_nil _).symm
  · rw [hwrites, List.append_nil]
  · simp [Channel.handleFinalResponse, Window.stored, Window.response, hfinals, hintermediates,
      Item.text]
  · exact hpdu.trans hmessage.symm

/-- The prompt for the message of a command. -/
theorem Shows.prompt (h : s.Shows r) (hcurrent : r.current = some w) {pdu : Line}
    (hpending : w.pending = some pdu) (hfinal : isFinalResponse prompt = false) :
    Shows { s with writes := s.writes ++ [.ctrlZ pdu], smsPDU := none } (r.add (.line prompt)) := by
  have hstate := h.pending
  rw [hcurrent] at hstate
  have hnot : (Item.line ReferenceRil.prompt).isFinal = false := hfinal
  have hitem : (Item.line ReferenceRil.prompt).isPrompt := by simp [Item.isPrompt]
  obtain ⟨hintermediates, hunsolicited, hfinals, hwrites, hmessage⟩ :=
    Window.push_prompt hnot hitem hpending
  refine h.push hcurrent ⟨rfl, rfl, rfl, rfl⟩ ⟨rfl, rfl, rfl⟩ ⟨[], ?_, ?_⟩ ⟨_, rfl, hwrites⟩ ?_
    hmessage.symm
  · exact (List.append_nil _).symm
  · rw [hunsolicited, List.append_nil]
  · simp [hstate.1, Window.stored, Window.response, hfinals, hintermediates]

theorem Shows.processLine (h : s.Shows r) (line : Line) :
    (s.processLine line).Shows (r.add (.line line)) := by
  have hpending := h.pending
  unfold Channel.processLine
  cases hcurrent : r.current with
  | none =>
    rw [hcurrent] at hpending
    rw [hpending.1]
    exact h.idle hcurrent (.line line)
  | some w =>
    rw [hcurrent] at hpending
    obtain ⟨hresponse, -, -, -, hpdu⟩ := hpending
    rw [hresponse]
    dsimp only
    by_cases hsuccess : isFinalResponseSuccess line
    · have hline : isFinalResponse line := by simp [isFinalResponse, hsuccess]
      have hfinal := h.handleFinalResponse hcurrent hline
      rw [if_pos hsuccess]
      rwa [hsuccess] at hfinal
    rw [if_neg hsuccess]
    by_cases herror : isFinalResponseError line
    · have hline : isFinalResponse line := by simp [isFinalResponse, herror]
      have hfinal := h.handleFinalResponse hcurrent hline
      rw [if_pos herror]
      rwa [Bool.eq_false_iff.mpr hsuccess] at hfinal
    have hfinal : isFinalResponse line = false := by
      simp [isFinalResponse, hsuccess, herror]
    rw [if_neg herror, hpdu]
    cases hmessage : w.pending with
    | none => exact h.processByType hcurrent hfinal fun _ => hmessage
    | some pdu =>
      dsimp only
      split_ifs with hprompt
      · rw [hprompt] at hfinal ⊢
        have hstep := h.prompt hcurrent hmessage hfinal
        rwa [hresponse] at hstep
      · exact h.processByType hcurrent hfinal fun hline => absurd hline hprompt

/-- The two lines of a short message go past every command. -/
theorem Shows.sms (h : s.Shows r) (line₁ line₂ : Line) :
    Shows { s with unsolicited := s.unsolicited ++ [.sms line₁ line₂] } (r.add (.sms line₁ line₂)) := by
  cases hcurrent : r.current with
  | none => exact h.idle hcurrent _
  | some w =>
    have hpending := h.pending
    rw [hcurrent] at hpending
    have hitem : (Item.sms line₁ line₂).isPrompt → w.pending = none := nofun
    have htakes : ¬ w.command.Takes (w.command.others w.items) (.sms line₁ line₂) :=
      fun htakes => absurd htakes.1 (by simp [Command.fits])
    obtain ⟨hfinals, hwrites, hmessage⟩ := Window.push_other rfl hitem
    obtain ⟨hintermediates, hunsolicited⟩ := Window.push_leaves rfl hitem htakes
    refine h.push hcurrent ⟨rfl, rfl, rfl, rfl⟩ ⟨rfl, rfl, rfl⟩ ⟨_, rfl, hunsolicited⟩ ⟨[], ?_, ?_⟩
      ?_ ?_
    · exact (List.append_nil _).symm
    · rw [hwrites, List.append_nil]
    · simp [hpending.1, Window.stored, Window.response, hfinals, hintermediates]
    · exact hpending.2.2.2.2.trans hmessage.symm

theorem Shows.hold (h : s.Shows r) (held : Option Line) :
    Shows { s with held := held } { r with held := held } :=
  ⟨h.unsolicited, h.writes, h.returned, h.pending, rfl, h.fdClosed, h.readerClosed⟩

theorem Shows.readerLoop (h : s.Shows r) (line : Line) : (s.readerLoop line).Shows (r.line line) := by
  unfold Channel.readerLoop Record.line
  rw [h.held]
  cases r.held with
  | some line₁ => exact (h.hold none).sms line₁ line
  | none =>
    dsimp only
    split_ifs
    · exact h.hold (some line)
    · exact h.processLine line

end Lines

section Commands
variable {i : ι} {c : Command}

theorem check_error (c : Command) (e : AtError) (response : Option Response) :
    c.check ⟨some e, response⟩ = ⟨some e, response⟩ := rfl

/-- A command that fails at once. -/
theorem Shows.fail (h : s.Shows r) (hcurrent : r.current = none) (i : ι) (c : Command) (e : AtError) :
    (giveBack { s with writes := s.writes ++ [.line c.command] } i c ⟨some e, none⟩).Shows
      (r.fail i c e) := by
  have hpending := h.pending
  rw [hcurrent] at hpending
  refine ⟨?_, ?_, ?_, ?_, h.held, h.fdClosed, h.readerClosed⟩
  · simp [giveBack, clearPendingCommand, h.unsolicited, Record.fail, Record.segments, hcurrent,
      Segment.unsolicited]
  · simp [giveBack, clearPendingCommand, h.writes, Record.fail, Record.segments, hcurrent,
      Segment.writes]
  · simp [giveBack, clearPendingCommand, h.returned, Record.fail, Record.segments, hcurrent,
      Segment.returned, check_error]
  · have hwaiting (j : ι) : Function.update s.waiting i none j = none := by
      by_cases hij : j = i
      · simp [hij]
      · simp [hij, hpending.2 j]
    simpa [Record.fail, hcurrent] using ⟨rfl, hwaiting⟩

theorem Shows.send (h : s.Shows r) (hcurrent : r.current = none) (i : ι) (c : Command) (wrote : Bool) :
    (s.send i c wrote).Shows (r.send i c wrote) := by
  have hpending := h.pending
  rw [hcurrent] at hpending
  have hidle : ¬ s.response.isSome := by simp [hpending.1]
  have hwriteline (ws : List Write) : writeline { s with writes := ws } wrote =
      if r.fdClosed ∨ r.readerClosed then some .channelClosed
      else if wrote then none else some .generic := by
    rw [writeline, h.fdClosed, h.readerClosed]
  unfold Channel.send Record.send
  rw [if_neg hidle]
  dsimp only
  rw [hwriteline]
  split_ifs with hclosed hwrote
  · exact h.fail hcurrent i c .channelClosed
  · refine ⟨?_, ?_, ?_, ⟨?_, ?_, rfl, rfl, ?_⟩, h.held, h.fdClosed, h.readerClosed⟩
    · simp [h.unsolicited, Record.segments, hcurrent, Segment.unsolicited, Window.unsolicited,
        Command.leave, Command.others]
    · simp [h.writes, Record.segments, hcurrent, Segment.writes, Window.writes, Window.message,
        prompted]
    · simp [h.returned, Record.segments, hcurrent, Segment.returned]
    · simp [Window.stored, Window.response, Window.finalResponse, Window.intermediates,
        Command.pick, Command.others]
    · rw [← funext hpending.2]
    · simp [Window.pending, prompted]
  · exact h.fail hcurrent i c .generic

/-- The end of a command that has waited. -/
theorem Shows.close (h : s.Shows r) (hcurrent : r.current = some w) {reply : Reply} {ending : Ending}
    (hreply : Segment.returned (.command w ending) = [(w.thread, w.command.check reply)]) :
    (s.giveBack w.thread w.command reply).Shows (r.close w ending) := by
  have hpending := h.pending
  rw [hcurrent] at hpending
  refine ⟨?_, ?_, ?_, ⟨rfl, fun j => ?_⟩, h.held, h.fdClosed, h.readerClosed⟩
  · simp [giveBack, clearPendingCommand, h.unsolicited, Record.close, Record.segments, hcurrent,
      Segment.unsolicited]
  · simp [giveBack, clearPendingCommand, h.writes, Record.close, Record.segments, hcurrent,
      Segment.writes]
  · simp [giveBack, clearPendingCommand, h.returned, Record.close, Record.segments, hcurrent,
      hreply]
    rfl
  · simp only [giveBack, hpending.2.1]
    by_cases hj : j = w.thread <;> simp [hj]

/-- A thread that does not wait has nothing to wake up from. -/
theorem Shows.waiting_of_current_none (h : s.Shows r) (hcurrent : r.current = none) (i : ι) :
    s.waiting i = none := by
  have hpending := h.pending
  rw [hcurrent] at hpending
  exact hpending.2 i

theorem Shows.waiting_eq (h : s.Shows r) (hcurrent : r.current = some w) (i : ι) :
    s.waiting i = if i = w.thread then some w.command else none := by
  have hpending := h.pending
  rw [hcurrent] at hpending
  rw [hpending.2.1, Function.update_apply]

theorem Shows.current_of_alone (h : s.Shows r) (hwaiting : ∀ j, s.waiting j = none) :
    r.current = none := by
  cases hcurrent : r.current with
  | none => rfl
  | some w =>
    have hthread := hwaiting w.thread
    rw [h.waiting_eq hcurrent, if_pos rfl] at hthread
    exact absurd hthread (Option.some_ne_none _)

/-- The thread of the command wakes up. -/
theorem Shows.wake_thread (h : s.Shows r) (hcurrent : r.current = some w) :
    ∃ s', s.wake w.thread w.command = some s' ∧ s'.Shows (r.step (.wake w.thread)) := by
  have hpending := h.pending
  rw [hcurrent] at hpending
  have hfinal : w.stored.finalResponse = w.finalResponse := rfl
  unfold Channel.wake
  rw [hpending.1]
  dsimp only
  rw [w.stored_reverse, hfinal, h.readerClosed]
  by_cases hclosed : r.readerClosed
  · have hrecord : r.step (.wake w.thread) = r.close w .closed := by
      simp [Record.step, hcurrent, hclosed]
    rw [hrecord, if_neg (by simp [hclosed]), if_pos hclosed]
    exact ⟨_, rfl, h.close hcurrent rfl⟩
  · cases hsome : w.finalResponse with
    | none =>
      have hrecord : r.step (.wake w.thread) = r := by
        simp [Record.step, hcurrent, hclosed, hsome]
      rw [hrecord, if_pos (by simp [hclosed])]
      exact ⟨s, rfl, h⟩
    | some line =>
      have hrecord : r.step (.wake w.thread) = r.close w .answered := by
        simp [Record.step, hcurrent, hclosed, hsome]
      rw [hrecord, if_neg (by simp), if_neg hclosed]
      exact ⟨_, rfl, h.close hcurrent rfl⟩

theorem Shows.wake (h : s.Shows r) (i : ι) :
    ∃ s', s.step (.wake i) = some s' ∧ s'.Shows (r.step (.wake i)) := by
  cases hcurrent : r.current with
  | none =>
    have hrecord : r.step (.wake i) = r := by simp [Record.step, hcurrent]
    refine ⟨s, ?_, by rwa [hrecord]⟩
    simp [Channel.step, h.waiting_of_current_none hcurrent]
  | some w =>
    by_cases hi : i = w.thread
    · subst hi
      have hwait : s.step (.wake w.thread) = s.wake w.thread w.command := by
        simp [Channel.step, h.waiting_eq hcurrent]
      rw [hwait]
      exact h.wake_thread hcurrent
    · have hrecord : r.step (.wake i) = r := by simp [Record.step, hcurrent, hi]
      refine ⟨s, ?_, by rwa [hrecord]⟩
      simp [Channel.step, h.waiting_eq hcurrent, hi]

theorem Shows.timeout (h : s.Shows r) (i : ι) :
    ∃ s', s.step (.timeout i) = some s' ∧ s'.Shows (r.step (.timeout i)) := by
  cases hcurrent : r.current with
  | none =>
    have hrecord : r.step (.timeout i) = r := by simp [Record.step, hcurrent]
    refine ⟨s, ?_, by rwa [hrecord]⟩
    simp [Channel.step, h.waiting_of_current_none hcurrent]
  | some w =>
    by_cases hends : i = w.thread ∧ w.command.timeout
    · obtain ⟨rfl, htimeout⟩ := hends
      have hrecord : r.step (.timeout w.thread) = r.close w .timedOut := by
        simp [Record.step, hcurrent, htimeout]
      refine ⟨s.giveBack w.thread w.command ⟨some .timeout, none⟩, ?_, ?_⟩
      · simp [Channel.step, h.waiting_eq hcurrent, htimeout]
      · rw [hrecord]
        exact h.close hcurrent rfl
    · have hrecord : r.step (.timeout i) = r := by simp [Record.step, hcurrent, hends]
      refine ⟨s, ?_, by rwa [hrecord]⟩
      by_cases hi : i = w.thread
      · have htimeout : w.command.timeout = false := by simpa [hi] using hends
        simp [Channel.step, h.waiting_eq hcurrent, hi, htimeout]
      · simp [Channel.step, h.waiting_eq hcurrent, hi]

end Commands

/-- One step, where no command is sent while another one waits. -/
theorem Shows.step (h : s.Shows r) (op : Op ι) (halone : s.Alone op) :
    ∃ s', s.step op = some s' ∧ s'.Shows (r.step op) := by
  cases op with
  | line l => exact ⟨_, rfl, h.readerLoop l⟩
  | send i c wrote =>
    have hcurrent := h.current_of_alone halone
    refine ⟨s.send i c wrote, ?_, h.send hcurrent i c wrote⟩
    rw [Channel.step, halone i]
  | wake i => exact h.wake i
  | timeout i => exact h.timeout i
  | closeFd =>
    exact ⟨_, rfl, h.unsolicited, h.writes, h.returned, h.pending, h.held, rfl, h.readerClosed⟩
  | closeReader =>
    exact ⟨_, rfl, h.unsolicited, h.writes, h.returned, h.pending, h.held, h.fdClosed, rfl⟩

theorem Shows.run (h : s.Shows r) (ops : List (Op ι)) (halone : AlwaysReached Channel.step Alone s ops) :
    ∃ s', ops.foldlM Channel.step s = some s' ∧ s'.Shows (ops.foldl Record.step r) := by
  induction ops generalizing s r with
  | nil => exact ⟨s, rfl, h⟩
  | cons op ops ih =>
    obtain ⟨hop, hrest⟩ := halone
    obtain ⟨s₁, hstep, hshows⟩ := h.step op hop
    obtain ⟨s', hrun, hend⟩ := ih hshows (hrest s₁ hstep)
    refine ⟨s', ?_, hend⟩
    rw [List.foldlM_cons, hstep]
    exact hrun

/-- Where no command is sent while another one waits, no thread goes through a null pointer, and each
line is an intermediate or final response of the command that waits for it, or its prompt, or goes to
the unsolicited handler. -/
theorem commands_in_turn (ops : List (Op ι)) (halone : AlwaysReached Channel.step Alone init ops) :
    ∃ s, ops.foldlM Channel.step init = some s ∧ s.Shows (ops.foldl Record.step .init) :=
  shows_init.run ops halone

instance [Fintype ι] (s : Channel ι) (op : Op ι) : Decidable (s.Alone op) :=
  match op with
  | .send .. => inferInstanceAs (Decidable (∀ j, s.waiting j = none))
  | .line _ => .isTrue trivial
  | .wake _ => .isTrue trivial
  | .timeout _ => .isTrue trivial
  | .closeFd => .isTrue trivial
  | .closeReader => .isTrue trivial

/-- A short message is sent, with a call and a status report coming in between. -/
def messageSent : List (Op (Fin 2)) :=
  [.send 0 (atSendCommandSms (ascii "AT+CMGS=3") (ascii "0791") (ascii "+CMGS:") true) true,
    .line (ascii "RING"), .line (ascii "> "), .wake 0, .line (ascii "+CDS: 5"), .line (ascii "+CMGS: 4"),
    .line (ascii "OK"), .line (ascii "RING"), .wake 0,
    .send 1 (atSendCommandNumeric (ascii "AT+CIMI") true) true, .line (ascii "+CME ERROR: 10"), .wake 1]

theorem commands_in_turn_message : ∃ s, messageSent.foldlM Channel.step init = some s ∧
    s.unsolicited =
      [.line (ascii "RING"), .sms (ascii "+CDS: 5") (ascii "+CMGS: 4"), .line (ascii "RING")] ∧
    s.writes = [.line (ascii "AT+CMGS=3"), .ctrlZ (ascii "0791"), .line (ascii "AT+CIMI")] ∧
    s.returned = [(0, ⟨some .invalidResponse, none⟩),
      (1, ⟨none, some ⟨false, some (ascii "+CME ERROR: 10"), []⟩⟩)] := by
  obtain ⟨s, hrun, hshows⟩ := commands_in_turn messageSent (by decide)
  refine ⟨s, hrun, hshows.unsolicited.trans ?_, hshows.writes.trans ?_, hshows.returned.trans ?_⟩
  · decide
  · decide
  · decide

end Channel

end Tulux.ReferenceRil
