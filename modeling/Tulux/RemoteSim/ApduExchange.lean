import Tulux.RemoteSim.Streams

/-! The APDUs of the modem on their way over the daemon and the client to the card, and the responses
on their way back, with both sides and the card taking their steps in any order. -/
namespace Tulux.RemoteSim
open GuardedRun

/-- An APDU that was given to the card, and the message that it came in. -/
structure Transmission where
  message : List UInt8
  apdu : TransmitApdu
  deriving DecidableEq

/-- The connection, the client, and what has become of the APDUs that it read: they are at the card,
were not given to it, or were answered by it. -/
structure Exchange where
  streams : Streams
  cardConnected : Bool
  atCard : List Transmission
  refused : List (List UInt8)
  answered : List (Transmission × List UInt8)

/-- What the client is told of the card outside its main loop. -/
inductive CardEvent where
  | removed
  | inserted (opened : Bool)
  | atrAfterReset (atr : List ℤ)
  | atrAfterInsertion (atr : List ℤ)

/-- How much of a message the stream takes, how much of it a read finds, whether the card takes an
APDU and whether a connection to it opens is up to the environment. -/
inductive ExchangeOp where
  | sendRequest (msg : Request) (taken : ℕ)
  | handleClientConnection (arrived : ℕ)
  | handleDaemonConnection (arrived taken : ℕ) (transmitted opened : Bool)
  | onApduResponse (i : ℕ) (response : List UInt8) (taken : ℕ)
  | cardEvent (event : CardEvent) (taken : ℕ)

namespace Exchange

def start (cardConnected : Bool) : Exchange := ⟨.empty, cardConnected, [], [], []⟩

def sendResponse (s : Exchange) (msg : Response) (taken : ℕ) : Exchange :=
  { s with streams := s.streams.step (.sendResponse msg taken) }

/-- `handleDaemonMsg` of the client. -/
def handleDaemonMsg (s : Exchange) (message : List UInt8) (taken : ℕ) (transmitted opened : Bool) :
    Exchange :=
  let msg := (readInto message).at 0
  if msg = apduTransferMsg then
    match sendApduToSim s.cardConnected (readInto message) with
    | some apdu =>
      if transmitted then { s with atCard := s.atCard ++ [⟨message, apdu⟩] }
      else { s with refused := s.refused ++ [message] }
    | none => { s with refused := s.refused ++ [message] }
  else if msg = cardConnectMsg ∨ msg = cardPowerUpMsg then
    { s with cardConnected := s.cardConnected || opened }
  else if msg = connKeepaliveMsg then s.sendResponse .connKeepalive taken
  else s

def step (s : Exchange) : ExchangeOp → Exchange
  | .sendRequest msg taken => { s with streams := s.streams.step (.sendRequest msg taken) }
  | .handleClientConnection arrived =>
    { s with streams := s.streams.step (.handleClientConnection arrived) }
  | .handleDaemonConnection arrived taken transmitted opened =>
    let message := s.streams.toClient.nextRead bufLen arrived
    let s := { s with streams := s.streams.step (.handleDaemonConnection arrived) }
    if message = [] then s else s.handleDaemonMsg message taken transmitted opened
  | .onApduResponse i response taken =>
    match s.atCard[i]? with
    | none => s
    | some t =>
      let s := { s with atCard := s.atCard.eraseIdx i, answered := s.answered ++ [(t, response)] }
      s.sendResponse (.apduTransfer (asInts response) t.apdu.apduId) taken
  | .cardEvent event taken =>
    match event with
    | .removed => { s with cardConnected := false }.sendResponse .cardRemoved taken
    | .inserted opened => { s with cardConnected := s.cardConnected || opened }
    | .atrAfterReset atr => s.sendResponse (.cardReset atr) taken
    | .atrAfterInsertion atr => s.sendResponse (.cardInserted atr) taken

/-! ### What the modem sees -/

def isApdu (message : List UInt8) : Bool := message.head? = some apduTransferMsg

/-- The id and the APDU of a message of the daemon. -/
def request (message : List UInt8) : UInt32 × List UInt8 :=
  ((message.getD 1 0).toUInt32, message.drop 2)

/-- The APDUs that the modem gave. -/
def asked (ops : List ExchangeOp) : List (UInt32 × List UInt8) :=
  ops.filterMap fun op => match op with
    | .sendRequest (.apduTransfer id apdu) _ => some (id, apdu)
    | _ => none

/-- The id and the response of a call, when it is one for an APDU. -/
def apduCall : ModemCall → Option (UInt32 × List UInt8)
  | .sendApdu id apdu _ _ _ => some (id, apdu)
  | _ => none

/-- The responses that the modem was given. -/
def responses (s : Exchange) : List (UInt32 × List UInt8) :=
  s.streams.modemCalls.filterMap apduCall

/-- The answers of the card that the daemon has handled. -/
def delivered (s : Exchange) : List (Transmission × List UInt8) :=
  s.answered.take (s.streams.toDaemon.handled.filter isApdu).length

/-- The APDUs on their way to the card or at it, and those whose responses are on their way back. -/
def underway (s : Exchange) : List (UInt32 × List UInt8) :=
  let behind := s.answered.drop (s.streams.toDaemon.handled.filter isApdu).length
  ((s.streams.toClient.pending.filter isApdu) ++ s.atCard.map Transmission.message ++
    behind.map fun a => a.1.message).map request

/-- Each APDU of the modem is answered once, refused once, or underway, and none is underway when nothing
is left in the connection and at the card; the responses are those that the card gave to the APDUs with
their ids. -/
structure Exact (s : Exchange) (asked : List (UInt32 × List UInt8)) : Prop where
  apdus : asked.Perm (s.delivered.map (fun a => request a.1.message) ++ s.refused.map request ++
    s.underway)
  responses : s.responses = s.delivered.map fun a => ((request a.1.message).1, a.2)
  parsed : ∀ a ∈ s.delivered, sendApduToSim true (readInto a.1.message) = some a.1.apdu
  quiet : s.streams.toClient.unread = [] → s.streams.toDaemon.unread = [] → s.atCard = [] →
    s.underway = []

/-- The id of an APDU fits in a byte. -/
def shortId : Request → Bool
  | .apduTransfer id _ => id.toNat < 256
  | _ => true

/-- A write takes its message whole, a read returns one message, and an id and the length of a response
fit in a byte. -/
def Clean (s : Exchange) : ExchangeOp → Prop
  | .sendRequest msg taken => msg.buf.length ≤ taken ∧ shortId msg
  | .handleClientConnection arrived => s.streams.toDaemon.ReadsOne bufLen arrived
  | .handleDaemonConnection arrived taken _ _ =>
    s.streams.toClient.ReadsOne bufLen arrived ∧ 1 ≤ taken
  | .onApduResponse _ response taken => response.length < 256 ∧ response.length + 3 ≤ taken
  | .cardEvent event taken =>
    match event with
    | .removed => 1 ≤ taken
    | .inserted _ => True
    | .atrAfterReset atr => atr.length + 2 ≤ taken
    | .atrAfterInsertion atr => atr.length + 2 ≤ taken

variable {s : Exchange} {message response : List UInt8} {apdus : List (UInt32 × List UInt8)}

/-! ### Messages -/

theorem at_zero_readInto (h : message ≠ []) :
    (readInto message).at 0 = apduTransferMsg ↔ isApdu message := by
  obtain ⟨b, rest, rfl⟩ := List.exists_cons_of_ne_nil h
  simp [readInto, Received.at, isApdu]

theorem at_one_readInto (message : List UInt8) : (readInto message).at 1 = message.getD 1 0 := by
  rcases message with - | ⟨b, - | ⟨c, rest⟩⟩
  · rfl
  · rfl
  · simp [readInto, Received.at]

theorem isApdu_requestBuf (msg : Request) :
    isApdu msg.buf ↔ ∃ id apdu, msg = .apduTransfer id apdu := by
  cases msg <;> simp [isApdu, Request.buf, sendApduRequest] <;> decide

@[simp] theorem isApdu_sendApduResponse (data : List ℤ) (apduId : UInt8) :
    isApdu (sendApduResponse data apduId) = true := by
  simp [isApdu, sendApduResponse]

theorem request_sendApduRequest {id : UInt32} (apdu : List UInt8) (h : id.toNat < 256) :
    request (sendApduRequest id apdu) = (id, apdu) := by
  have hid := (toUInt32_toUInt8_eq_iff id).mpr h
  simp [request, sendApduRequest, hid]

/-- The id that the callback keeps is the one in the message. -/
theorem apduId_of_parsed {t : TransmitApdu} (h : sendApduToSim true (readInto message) = some t) :
    t.apduId.toUInt32 = (request message).1 := by
  simp only [sendApduToSim, Option.ite_none_left_eq_some, Option.some.injEq] at h
  obtain ⟨-, -, -, rfl⟩ := h
  rw [request, ← at_one_readInto]

theorem connected_of_parsed {cardConnected : Bool} {t : TransmitApdu}
    (h : sendApduToSim cardConnected (readInto message) = some t) :
    sendApduToSim true (readInto message) = some t := by
  cases cardConnected with
  | true => exact h
  | false => simp [sendApduToSim] at h

/-- Only the handler of APDUs gives the modem a response. -/
theorem apduCall_of_not_apdu (h : isApdu message = false) :
    (handleClientMsg (readInto message)).bind apduCall = none := by
  by_cases hnil : message = []
  · subst hnil
    rfl
  · have hat : (readInto message).at 0 ≠ apduTransferMsg := by
      rw [Ne, at_zero_readInto hnil, h]
      decide
    have hatr (f : List UInt8 → ModemCall) (hf : ∀ atr, apduCall (f atr) = none) :
        ((handleAtr (readInto message)).map f).bind apduCall = none := by
      cases handleAtr (readInto message) <;> simp [hf]
    unfold handleClientMsg handleCardReset handleCardInserted
    rw [if_neg hat]
    split_ifs
    · exact hatr _ fun _ => rfl
    · exact hatr _ fun _ => rfl
    · rfl
    · rfl

theorem apduCall_of_response (apduId : UInt8) (h : response.length < 256) :
    (handleClientMsg (readInto (sendApduResponse (asInts response) apduId))).bind apduCall =
      some (apduId.toUInt32, response) := by
  rw [handleApduTransfer_readInto, if_pos h]
  rfl

/-! ### What every step keeps -/

/-- The APDU messages in the connection are those of the modem and the answers of the card, and each of
the first that the client has read is in one place. -/
structure Inv (s : Exchange) (apdus : List (UInt32 × List UInt8)) : Prop where
  faithful : s.streams.Faithful
  ids : ∀ a ∈ apdus, a.1.toNat < 256
  requests : s.streams.toClient.sent.filter isApdu = apdus.map fun a => sendApduRequest a.1 a.2
  read : (s.streams.toClient.handled.filter isApdu).Perm (s.answered.map (fun a => a.1.message) ++
    s.atCard.map Transmission.message ++ s.refused)
  answers : s.streams.toDaemon.sent.filter isApdu =
    s.answered.map fun a => sendApduResponse (asInts a.2) a.1.apdu.apduId
  short : ∀ a ∈ s.answered, a.2.length < 256
  parsed : ∀ t ∈ s.atCard ++ s.answered.map Prod.fst,
    sendApduToSim true (readInto t.message) = some t.apdu

theorem inv_start (cardConnected : Bool) : (start cardConnected).Inv [] where
  faithful := Streams.faithful_start
  ids := by simp
  requests := rfl
  read := by simp [start, Streams.empty, MessageStream.empty]
  answers := rfl
  short := by simp [start]
  parsed := by simp [start]

theorem sent_read {α : Type*} (m : MessageStream α) (limit arrived : ℕ) :
    (m.read limit arrived).sent = m.sent := by
  unfold MessageStream.read
  split <;> rfl

theorem handled_read {α : Type*} (m : MessageStream α) (limit arrived : ℕ)
    (h : m.nextRead limit arrived ≠ []) :
    (m.read limit arrived).handled = m.handled ++ [m.nextRead limit arrived] := by
  obtain ⟨b, bytes, hread⟩ := List.exists_cons_of_ne_nil h
  simp [MessageStream.read, hread]

/-- A message that is not about an APDU changes only its own stream. -/
theorem Inv.sendResponse {msg : Response} {taken : ℕ} (h : s.Inv apdus)
    (hmsg : isApdu msg.buf = false) (htaken : msg.buf.length ≤ taken) :
    (s.sendResponse msg taken).Inv apdus where
  faithful := (Streams.faithful_step_iff h.faithful (.sendResponse msg taken)).mpr htaken
  ids := h.ids
  requests := h.requests
  read := h.read
  answers := by
    have hsent : (s.sendResponse msg taken).streams.toDaemon.sent =
        s.streams.toDaemon.sent ++ [msg.buf] := rfl
    rw [hsent, List.filter_append, h.answers]
    simp [hmsg, Exchange.sendResponse]
  short := h.short
  parsed := h.parsed

theorem Inv.sendRequest {msg : Request} {taken : ℕ} (h : s.Inv apdus)
    (hclean : s.Clean (.sendRequest msg taken)) :
    (s.step (.sendRequest msg taken)).Inv (apdus ++ asked [.sendRequest msg taken]) := by
  obtain ⟨htaken, hid⟩ := hclean
  have hsent : (s.step (.sendRequest msg taken)).streams.toClient.sent =
      s.streams.toClient.sent ++ [msg.buf] := rfl
  refine ⟨(Streams.faithful_step_iff h.faithful (.sendRequest msg taken)).mpr htaken, ?_, ?_, h.read,
    h.answers, h.short, h.parsed⟩
  · intro a ha
    rcases List.mem_append.mp ha with ha | ha
    · exact h.ids a ha
    · cases msg with
      | apduTransfer id apdu =>
        obtain rfl : a = (id, apdu) := List.mem_singleton.mp ha
        exact of_decide_eq_true hid
      | _ => exact absurd ha List.not_mem_nil
  · rw [hsent, List.filter_append, h.requests, List.map_append]
    congr 1
    cases msg <;> rfl

theorem Inv.handleDaemonMsg {taken : ℕ} {transmitted opened : Bool} {streams : Streams}
    (h : s.Inv apdus) (hmessage : message ≠ []) (htaken : 1 ≤ taken) (hfaithful : streams.Faithful)
    (hsent : streams.toClient.sent = s.streams.toClient.sent)
    (hread : streams.toClient.handled = s.streams.toClient.handled ++ [message])
    (hdaemon : streams.toDaemon = s.streams.toDaemon) :
    ({ s with streams := streams }.handleDaemonMsg message taken transmitted opened).Inv apdus := by
  have hfilter : streams.toClient.handled.filter isApdu =
      s.streams.toClient.handled.filter isApdu ++ [message].filter isApdu := by
    rw [hread, List.filter_append]
  have hother (hnot : isApdu message = false) : { s with streams := streams }.Inv apdus := by
    refine ⟨hfaithful, h.ids, by rw [hsent]; exact h.requests, ?_, by rw [hdaemon]; exact h.answers,
      h.short, h.parsed⟩
    rw [hfilter]
    simpa [hnot] using h.read
  have hplaced (s' : Exchange) (happ : isApdu message = true) (hstreams : s'.streams = streams)
      (hanswered : s'.answered = s.answered)
      (hperm : (s.atCard.map Transmission.message ++ s.refused ++ [message]).Perm
        (s'.atCard.map Transmission.message ++ s'.refused))
      (hparsed : ∀ t ∈ s'.atCard, t ∈ s.atCard ∨
        sendApduToSim true (readInto t.message) = some t.apdu) : s'.Inv apdus := by
    refine ⟨hstreams ▸ hfaithful, h.ids, ?_, ?_, ?_, hanswered ▸ h.short, fun t ht => ?_⟩
    · rw [hstreams, hsent]
      exact h.requests
    · rw [hstreams, hfilter, hanswered, List.append_assoc]
      have hread := h.read.append_right ([message].filter isApdu)
      simp only [happ, List.filter_singleton, cond_true] at hread ⊢
      refine hread.trans ?_
      simpa only [List.append_assoc] using hperm.append_left (s.answered.map fun a => a.1.message)
    · rw [hstreams, hdaemon, hanswered]
      exact h.answers
    · rw [hanswered] at ht
      rcases List.mem_append.mp ht with ht | ht
      · exact (hparsed t ht).elim (fun ht => h.parsed t (List.mem_append_left _ ht)) id
      · exact h.parsed t (List.mem_append_right _ ht)
  have hrefused (happ : isApdu message = true) :
      { s with streams := streams, refused := s.refused ++ [message] }.Inv apdus := by
    refine hplaced _ happ rfl rfl (by simp) fun t ht => Or.inl ht
  unfold Exchange.handleDaemonMsg
  dsimp only
  by_cases happ : (readInto message).at 0 = apduTransferMsg
  · rw [if_pos happ]
    have happ := (at_zero_readInto hmessage).mp happ
    cases hparsed : sendApduToSim s.cardConnected (readInto message) with
    | none => exact hrefused happ
    | some apdu =>
      cases transmitted with
      | false => exact hrefused happ
      | true =>
        refine hplaced _ happ rfl rfl ?_ fun t ht => ?_
        · have hlast : (s.refused ++ [message]).Perm ([message] ++ s.refused) := List.perm_append_comm
          simpa using hlast.append_left (s.atCard.map Transmission.message)
        · rcases List.mem_append.mp ht with ht | ht
          · exact Or.inl ht
          · obtain rfl := List.mem_singleton.mp ht
            exact Or.inr (connected_of_parsed hparsed)
  · have hnot : isApdu message = false := by
      simpa using mt (at_zero_readInto hmessage).mpr happ
    rw [if_neg happ]
    split_ifs with hconnect halive
    · have hsame := hother hnot
      exact ⟨hfaithful, hsame.ids, hsame.requests, hsame.read, hsame.answers, h.short, h.parsed⟩
    · exact (hother hnot).sendResponse rfl htaken
    · exact hother hnot

theorem Inv.handleDaemonConnection {arrived taken : ℕ} {transmitted opened : Bool} (h : s.Inv apdus)
    (hclean : s.Clean (.handleDaemonConnection arrived taken transmitted opened)) :
    (s.step (.handleDaemonConnection arrived taken transmitted opened)).Inv apdus := by
  obtain ⟨hone, htaken⟩ := hclean
  have hfaithful := (Streams.faithful_step_iff h.faithful (.handleDaemonConnection arrived)).mpr hone
  unfold step
  dsimp only
  by_cases hmessage : s.streams.toClient.nextRead bufLen arrived = []
  · have hsame : s.streams.step (.handleDaemonConnection arrived) = s.streams := by
      simp [Streams.step, MessageStream.read, hmessage]
    rw [if_pos hmessage, hsame]
    exact h
  · rw [if_neg hmessage]
    exact h.handleDaemonMsg hmessage htaken hfaithful (sent_read _ _ _) (handled_read _ _ _ hmessage) rfl

theorem Inv.handleClientConnection {arrived : ℕ} (h : s.Inv apdus)
    (hclean : s.Clean (.handleClientConnection arrived)) :
    (s.step (.handleClientConnection arrived)).Inv apdus where
  faithful := (Streams.faithful_step_iff h.faithful (.handleClientConnection arrived)).mpr hclean
  ids := h.ids
  requests := h.requests
  read := h.read
  answers := by
    have hsent : (s.step (.handleClientConnection arrived)).streams.toDaemon.sent =
        s.streams.toDaemon.sent := sent_read _ _ _
    rw [hsent]
    exact h.answers
  short := h.short
  parsed := h.parsed

theorem Inv.onApduResponse {i taken : ℕ} (h : s.Inv apdus)
    (hclean : s.Clean (.onApduResponse i response taken)) :
    (s.step (.onApduResponse i response taken)).Inv apdus := by
  obtain ⟨hshort, htaken⟩ := hclean
  unfold step
  dsimp only
  cases hat : s.atCard[i]? with
  | none => exact h
  | some t =>
    obtain ⟨hi, rfl⟩ := List.getElem?_eq_some_iff.mp hat
    have hperm := List.getElem_cons_eraseIdx_perm hi
    have hbuf : (sendApduResponse (asInts response) s.atCard[i].apdu.apduId).length ≤ taken := by
      have hlength : (sendApduResponse (asInts response) s.atCard[i].apdu.apduId).length =
          response.length + 3 := by
        simp [sendApduResponse]
      omega
    refine ⟨(Streams.faithful_step_iff h.faithful (.sendResponse _ taken)).mpr hbuf, h.ids, h.requests,
      ?_, ?_, ?_, ?_⟩
    · refine h.read.trans ?_
      have hmoved := (hperm.map Transmission.message).symm
      simp only [Exchange.sendResponse, List.map_append, List.map_cons, List.map_nil,
        List.append_assoc] at hmoved ⊢
      exact (hmoved.append_right _).append_left _
    · have hsent (msg : Response) : (s.streams.step (.sendResponse msg taken)).toDaemon.sent =
          s.streams.toDaemon.sent ++ [msg.buf] := rfl
      simp only [Exchange.sendResponse, hsent, List.filter_append, h.answers, List.map_append]
      rfl
    · intro a ha
      rcases List.mem_append.mp ha with ha | ha
      · exact h.short a ha
      · obtain rfl := List.mem_singleton.mp ha
        exact hshort
    · intro t ht
      refine h.parsed t ?_
      simp only [Exchange.sendResponse, List.map_append, List.mem_append, List.map_cons, List.map_nil,
        List.mem_singleton] at ht ⊢
      rcases ht with ht | ht | rfl
      · exact Or.inl ((List.eraseIdx_sublist s.atCard i).mem ht)
      · exact Or.inr ht
      · exact Or.inl (List.getElem_mem hi)

theorem Inv.cardEvent {event : CardEvent} {taken : ℕ} (h : s.Inv apdus)
    (hclean : s.Clean (.cardEvent event taken)) : (s.step (.cardEvent event taken)).Inv apdus := by
  have hflag (cardConnected : Bool) : { s with cardConnected := cardConnected }.Inv apdus :=
    ⟨h.faithful, h.ids, h.requests, h.read, h.answers, h.short, h.parsed⟩
  cases event with
  | removed => exact (hflag false).sendResponse rfl hclean
  | inserted opened => exact hflag _
  | atrAfterReset atr =>
    refine h.sendResponse rfl (le_of_eq_of_le ?_ hclean)
    simp [Response.buf, sendCardResetResponse, atrMessage, toBytes]
  | atrAfterInsertion atr =>
    refine h.sendResponse rfl (le_of_eq_of_le ?_ hclean)
    simp [Response.buf, sendCardInsertedMessage, atrMessage, toBytes]

theorem Inv.step {op : ExchangeOp} (h : s.Inv apdus) (hclean : s.Clean op) :
    (s.step op).Inv (apdus ++ asked [op]) := by
  cases op with
  | sendRequest msg taken => exact h.sendRequest hclean
  | handleClientConnection arrived => simpa [asked] using h.handleClientConnection hclean
  | handleDaemonConnection arrived taken transmitted opened =>
    simpa [asked] using h.handleDaemonConnection hclean
  | onApduResponse i response taken => simpa [asked] using h.onApduResponse hclean
  | cardEvent event taken => simpa [asked] using h.cardEvent hclean

theorem Inv.run {ops : List ExchangeOp} (h : s.Inv apdus) (hclean : Always Exchange.step Clean s ops) :
    (final Exchange.step s ops).Inv (apdus ++ asked ops) := by
  induction ops generalizing s apdus with
  | nil => simpa [asked] using h
  | cons op ops ih =>
    obtain ⟨hop, hrest⟩ := always_cons.mp hclean
    have hasked : asked (op :: ops) = asked [op] ++ asked ops := by
      simp only [asked, ← List.filterMap_append, List.singleton_append]
    rw [final_cons, hasked, ← List.append_assoc]
    exact ih (h.step hop) hrest

/-! ### What the modem is given -/

theorem Inv.apdus_perm (h : s.Inv apdus) :
    apdus.Perm (s.delivered.map (fun a => request a.1.message) ++ s.refused.map request ++
      s.underway) := by
  have hapdus : apdus = (s.streams.toClient.sent.filter isApdu).map request := by
    rw [h.requests, List.map_map]
    refine (List.map_id apdus).symm.trans (List.map_congr_left fun a ha => ?_)
    exact (request_sendApduRequest a.2 (h.ids a ha)).symm
  have hsplit : (s.answered.map fun a => request a.1.message) =
      s.delivered.map (fun a => request a.1.message) ++
        (s.answered.drop (s.streams.toDaemon.handled.filter isApdu).length).map
          fun a => request a.1.message := by
    rw [delivered, ← List.map_append, List.take_append_drop]
  rw [hapdus, h.faithful.toClient.sent, List.perm_iff_count]
  intro x
  have hread := (h.read.map request).count_eq x
  have hsplit := congrArg (List.count x) hsplit
  simp only [underway, List.filter_append, List.map_append, List.map_map, List.count_append,
    Function.comp_def] at hread hsplit ⊢
  omega

/-- The APDU messages that the daemon has handled are the first answers of the card. -/
theorem Inv.handled_apdus (h : s.Inv apdus) : s.streams.toDaemon.handled.filter isApdu =
    s.delivered.map fun a => sendApduResponse (asInts a.2) a.1.apdu.apduId := by
  have hprefix : s.streams.toDaemon.handled.filter isApdu <+:
      s.answered.map fun a => sendApduResponse (asInts a.2) a.1.apdu.apduId := by
    rw [← h.answers, h.faithful.toDaemon.sent, List.filter_append]
    exact List.prefix_append _ _
  rw [delivered, List.map_take]
  exact List.prefix_iff_eq_take.mp hprefix

theorem mem_answered_of_delivered {a : Transmission × List UInt8} (ha : a ∈ s.delivered) :
    a ∈ s.answered := List.mem_of_mem_take ha

theorem Inv.parsed_delivered (h : s.Inv apdus) {a : Transmission × List UInt8}
    (ha : a ∈ s.delivered) : sendApduToSim true (readInto a.1.message) = some a.1.apdu :=
  h.parsed a.1 (List.mem_append_right _ (List.mem_map_of_mem (mem_answered_of_delivered ha)))

theorem Inv.responses_eq (h : s.Inv apdus) :
    s.responses = s.delivered.map fun a => ((request a.1.message).1, a.2) := by
  have hcalls (messages : List (List UInt8)) :
      (messages.filterMap fun m => handleClientMsg (readInto m)).filterMap apduCall =
        (messages.filter isApdu).filterMap fun m => (handleClientMsg (readInto m)).bind apduCall := by
    induction messages with
    | nil => rfl
    | cons m messages ih =>
      cases happ : isApdu m with
      | false =>
        have hnone := apduCall_of_not_apdu happ
        cases hcall : handleClientMsg (readInto m) <;> simp_all
      | true =>
        rw [List.filter_cons_of_pos happ, List.filterMap_cons, List.filterMap_cons, ← ih]
        cases handleClientMsg (readInto m) with
        | none => rfl
        | some call => exact List.filterMap_cons
  unfold responses Streams.modemCalls
  rw [hcalls, h.handled_apdus, List.filterMap_map, ← List.filterMap_eq_map]
  refine List.filterMap_congr fun a ha => ?_
  change (handleClientMsg (readInto (sendApduResponse _ _))).bind apduCall = some _
  rw [apduCall_of_response _ (h.short a (mem_answered_of_delivered ha)),
    apduId_of_parsed (h.parsed_delivered ha)]

theorem filter_pending {m : MessageStream UInt8} (h : m.Faithful) (hunread : m.unread = []) :
    m.pending.filter isApdu = [] := by
  refine List.filter_eq_nil_iff.mpr fun message hmessage => ?_
  have hflat : m.pending.flatten = [] := h.unread.symm.trans hunread
  rw [List.flatten_eq_nil_iff.mp hflat message hmessage]
  decide

theorem Inv.quiet (h : s.Inv apdus) (hclient : s.streams.toClient.unread = [])
    (hdaemon : s.streams.toDaemon.unread = []) (hcard : s.atCard = []) : s.underway = [] := by
  have hhandled : s.streams.toDaemon.handled.filter isApdu =
      s.streams.toDaemon.sent.filter isApdu := by
    rw [h.faithful.toDaemon.sent, List.filter_append, filter_pending h.faithful.toDaemon hdaemon,
      List.append_nil]
  have hlength : (s.streams.toDaemon.handled.filter isApdu).length = s.answered.length := by
    rw [hhandled, h.answers, List.length_map]
  unfold underway
  rw [filter_pending h.faithful.toClient hclient, hcard, hlength, List.drop_length]
  rfl

theorem Inv.exact (h : s.Inv apdus) : s.Exact apdus :=
  ⟨h.apdus_perm, h.responses_eq, fun _ ha => h.parsed_delivered ha, h.quiet⟩

/-- In every run of whole messages with short ids and responses, each APDU of the modem is answered
once, refused once, or still underway, and every response that the modem is given is the one that the
card gave to the APDU with its id. -/
theorem apdus_exact (cardConnected : Bool) (ops : List ExchangeOp)
    (h : Always Exchange.step Clean (start cardConnected) ops) :
    (final Exchange.step (start cardConnected) ops).Exact (asked ops) := by
  have hrun := (inv_start cardConnected).run h
  exact hrun.exact

instance (s : Exchange) (op : ExchangeOp) : Decidable (s.Clean op) :=
  match op with
  | .sendRequest .. => inferInstanceAs (Decidable (_ ∧ _))
  | .handleClientConnection _ => inferInstanceAs (Decidable (_ ∨ _))
  | .handleDaemonConnection .. => inferInstanceAs (Decidable ((_ ∨ _) ∧ _))
  | .onApduResponse .. => inferInstanceAs (Decidable (_ ∧ _))
  | .cardEvent .removed _ => inferInstanceAs (Decidable (_ ≤ _))
  | .cardEvent (.inserted _) _ => inferInstanceAs (Decidable True)
  | .cardEvent (.atrAfterReset _) _ => inferInstanceAs (Decidable (_ ≤ _))
  | .cardEvent (.atrAfterInsertion _) _ => inferInstanceAs (Decidable (_ ≤ _))

/-- Two APDUs that the card answers the other way round, and a keepalive between them. -/
def twoApdus : List ExchangeOp :=
  [.sendRequest (.apduTransfer 5 [0, 0xA4, 0, 0]) 6, .sendRequest .connKeepalive 1,
    .sendRequest (.apduTransfer 6 [0, 0xC0, 0, 0, 2]) 7, .handleDaemonConnection 6 1 true false,
    .handleDaemonConnection 1 1 true false, .handleDaemonConnection 7 1 true false,
    .onApduResponse 1 [1, 2, 0x90, 0] 7, .onApduResponse 0 [0x90, 0] 5, .handleClientConnection 1,
    .handleClientConnection 7]

theorem apdus_exact_two :
    (final Exchange.step (start true) twoApdus).Exact
        [(5, [0, 0xA4, 0, 0]), (6, [0, 0xC0, 0, 0, 2])] ∧
      (final Exchange.step (start true) twoApdus).responses = [(6, [1, 2, 0x90, 0])] ∧
      (final Exchange.step (start true) twoApdus).underway = [(5, [0, 0xA4, 0, 0])] :=
  ⟨apdus_exact true twoApdus (by decide), by decide, by decide⟩

end Exchange

end Tulux.RemoteSim
