import KeysharpDesktop.Kwin.Callers
import Mathlib.Data.List.Nodup

/-! Which caller an answer reaches: what every run of a relay's callers keeps. -/
namespace KeysharpDesktop

open Transition

section Answers

variable {relay : KwinRelay} {slot : RelayPending} {a : PeerAnswer} {rest : Bytes} {i : ℕ}

/-- A slot that was told a status and nothing else. -/
def markedSlot (slot : RelayPending) (a : PeerAnswer) : RelayPending :=
  { slot with status := decodeU32 a.frame.payload, detail := decodeU32 (a.frame.payload.drop 4) }

/-- A slot with the whole of an answer. -/
def filledSlot (slot : RelayPending) (a : PeerAnswer) : RelayPending :=
  let tail := a.frame.payload.drop 8
  match a.fd with
  | some file =>
    { markedSlot slot a with payloadFd := some file, tailLength := (decodeU32 tail).toNat, done := true }
  | none =>
    let filled := if tail = [] then markedSlot slot a
      else { markedSlot slot a with tail, tailLength := tail.length }
    { filled with done := true }

/-- What an answer of the peer means to the call it is for. -/
def answerResult (a : PeerAnswer) : Option OperationResult := slotAnswer (filledSlot {} a)

/-- An answer means the same to every slot that nothing has reached before. -/
theorem slotAnswer_filledSlot (h : slot.Empty) (a : PeerAnswer) :
    slotAnswer (filledSlot slot a) = answerResult a := by
  obtain ⟨htail, hlength, hfd⟩ := h
  unfold answerResult filledSlot slotAnswer markedSlot
  cases a.fd with
  | some file => simp only [htail]
  | none =>
    by_cases hempty : a.frame.payload.drop 8 = []
    · simp only [hempty, if_true, htail, hlength, hfd]
    · simp only [hempty, if_false, hfd]

theorem filledSlot_done (slot : RelayPending) (a : PeerAnswer) : (filledSlot slot a).done = true := by
  unfold filledSlot
  cases a.fd <;> rfl

theorem filledSlot_active (slot : RelayPending) (a : PeerAnswer) :
    (filledSlot slot a).active = slot.active := by
  unfold filledSlot
  cases a.fd with
  | some file => rfl
  | none =>
    dsimp only
    split_ifs <;> rfl

theorem filledSlot_requestId (slot : RelayPending) (a : PeerAnswer) :
    (filledSlot slot a).requestId = slot.requestId := by
  unfold filledSlot
  cases a.fd with
  | some file => rfl
  | none =>
    dsimp only
    split_ifs <;> rfl

/-- The slot that a read fills, if it fills one: the first that waits for the answer's id. -/
theorem readOne_fills (relay : KwinRelay) (a : PeerAnswer) (rest : Bytes) :
    (readOne relay (a.frame.bytes ++ rest) a.fd).relay = relay ∨
      ∃ i, i < relay.pending.length ∧ awaiting a.id (relay.slot i) ∧
        ((readOne relay (a.frame.bytes ++ rest) a.fd).relay = relay.setSlot i (filledSlot (relay.slot i) a) ∨
          (readOne relay (a.frame.bytes ++ rest) a.fd).relay = relay.setSlot i (markedSlot (relay.slot i) a)) := by
  rw [readOne_bytes a.frame a.magic a.short]
  split_ifs
  · exact .inl rfl
  · exact .inl rfl
  · show (deliver relay a.id a.frame.payload a.fd).2 = relay ∨ _
    cases hfind : relay.pending.findIdx? (awaiting a.id) with
    | none =>
      left
      rw [deliver, hfind]
    | some i =>
      right
      obtain ⟨hlt, hwait⟩ := Slots.findIdx?_some hfind
      refine ⟨i, hlt, hwait, ?_⟩
      show (deliver relay a.id a.frame.payload a.fd).2 = _ ∨ (deliver relay a.id a.frame.payload a.fd).2 = _
      unfold filledSlot
      cases hfd : a.fd with
      | none =>
        left
        simp only [deliver, hfind, markedSlot]
      | some file =>
        by_cases hcapture : isCapture (relay.slot i).opcode
        · left
          simp only [deliver, hfind, hcapture, if_true, markedSlot]
        · right
          simp only [deliver, hfind, hcapture, Bool.false_eq_true, if_false, markedSlot]

/-- An answer that no slot waits for changes nothing. -/
theorem readOne_unawaited (h : ∀ i, awaiting a.id (relay.slot i) = false) :
    (readOne relay (a.frame.bytes ++ rest) a.fd).relay = relay := by
  rcases readOne_fills relay a rest with hsame | ⟨i, -, hwait, -⟩
  · exact hsame
  · rw [h i] at hwait
    cases hwait

end Answers

section Holds

/-- What a call in progress has of the relay. -/
structure SlotHold where
  slot : ℕ
  requestId : BitVec 64
  answer : Option PeerAnswer

/-- What is left of a call that had a slot and has returned. -/
structure SlotPast where
  requestId : BitVec 64
  answer : Option PeerAnswer
  result : OperationResult
  answered : Bool

namespace Caller

def held : Caller → Option SlotHold
  | .calling call => some ⟨call.slot, call.requestId, call.answer⟩
  | _ => none

def past : Caller → Option SlotPast
  | .returned call result answered => some ⟨call.requestId, call.answer, result, answered⟩
  | _ => none

/-- The answer of the peer that reached a call. -/
def received : Caller → Option PeerAnswer
  | .calling call | .returned call _ _ => call.answer
  | _ => none

theorem received_of_held {caller : Caller} {hold : SlotHold} (h : caller.held = some hold) :
    caller.received = hold.answer := by
  cases caller <;> cases h
  rfl

theorem received_of_past {caller : Caller} {past : SlotPast} (h : caller.past = some past) :
    caller.received = past.answer := by
  cases caller <;> cases h
  rfl

theorem held_or_past {caller : Caller} {a : PeerAnswer} (h : caller.received = some a) :
    (∃ hold, caller.held = some hold ∧ hold.answer = some a) ∨
      ∃ past, caller.past = some past ∧ past.answer = some a := by
  cases caller with
  | idle => cases h
  | refused result => cases h
  | calling call => exact .inl ⟨_, rfl, h⟩
  | returned call result answered => exact .inr ⟨_, rfl, h⟩

end Caller

/-- A call holds a slot of its own id, which is filled once an answer to it was read. -/
structure SlotHold.Fits (hold : SlotHold) (relay : KwinRelay) : Prop where
  active : (relay.slot hold.slot).active
  requestId : (relay.slot hold.slot).requestId = hold.requestId
  done : (relay.slot hold.slot).done = hold.answer.isSome
  own : ∀ a, hold.answer = some a → a.id = hold.requestId
  result : ∀ a, hold.answer = some a → slotAnswer (relay.slot hold.slot) = answerResult a

/-- Between two holds of the mutex: calls and slots belong together, no answer has reached two
calls, and the id of a call that has returned is in no slot. -/
structure RelaySystem.Delivery (s : RelaySystem) : Prop where
  relay : s.relay.Sound
  held : ∀ c hold, (s.callers c).held = some hold → hold.Fits s.relay
  apart : ∀ c d hold hold', (s.callers c).held = some hold → (s.callers d).held = some hold' →
    hold.slot = hold'.slot → c = d
  owned : ∀ i, (s.relay.slot i).active → ∃ c hold, (s.callers c).held = some hold ∧ hold.slot = i
  taken : ∀ c a, (s.callers c).received = some a → a ∈ s.consumed
  alone : ∀ c d a, (s.callers c).received = some a → (s.callers d).received = some a → c = d
  once : (s.answers.map PeerAnswer.id).Nodup
  past : ∀ c past, (s.callers c).past = some past → past.answered →
    ∃ a, past.answer = some a ∧ a.id = past.requestId ∧ answerResult a = some past.result
  gone : s.relay.nextRequestId ≤ 2 ^ 64 → ∀ c past, (s.callers c).past = some past →
    past.requestId.toNat < s.relay.nextRequestId ∧
      ∀ i, (s.relay.slot i).active → (s.relay.slot i).requestId ≠ past.requestId

/-- Two relays whose slots hold the same calls and the same answers. -/
structure SameSlots (before after : KwinRelay) : Prop where
  sound : before.Sound → after.Sound
  next : after.nextRequestId = before.nextRequestId
  active : ∀ i, (after.slot i).active = (before.slot i).active
  requestId : ∀ i, (after.slot i).requestId = (before.slot i).requestId
  done : ∀ i, (after.slot i).done = (before.slot i).done
  kept : ∀ i, (before.slot i).done → after.slot i = before.slot i

theorem SameSlots.of_broken (relay : KwinRelay) (broken : Bool) : SameSlots relay { relay with broken } :=
  ⟨fun h => ⟨h.below, h.distinct, h.empty⟩, rfl, fun _ => rfl, fun _ => rfl, fun _ => rfl, fun _ _ => rfl⟩

/-- A step that neither takes nor fills nor clears a slot. -/
structure Quiet (s t : RelaySystem) : Prop where
  relay : SameSlots s.relay t.relay
  consumed : s.consumed ⊆ t.consumed
  answers : t.answers = s.answers
  held : ∀ c, (t.callers c).held = (s.callers c).held
  past : ∀ c, (t.callers c).past = (s.callers c).past
  received : ∀ c, (t.callers c).received = (s.callers c).received

variable {s t : RelaySystem}

theorem SlotHold.Fits.of_sameSlots {hold : SlotHold} {before after : KwinRelay} (h : hold.Fits before)
    (hsame : SameSlots before after) : hold.Fits after := by
  refine ⟨?_, ?_, ?_, h.own, ?_⟩
  · rw [hsame.active]
    exact h.active
  · rw [hsame.requestId]
    exact h.requestId
  · rw [hsame.done]
    exact h.done
  · intro a ha
    have hdone : (before.slot hold.slot).done := by
      rw [h.done, ha]
      rfl
    rw [hsame.kept _ hdone]
    exact h.result a ha

theorem RelaySystem.Delivery.of_quiet (h : s.Delivery) (hquiet : Quiet s t) : t.Delivery := by
  have hsame := hquiet.relay
  constructor
  · exact hsame.sound h.relay
  · intro c hold hheld
    rw [hquiet.held] at hheld
    exact (h.held c hold hheld).of_sameSlots hsame
  · intro c d hold hold' hc hd
    rw [hquiet.held] at hc hd
    exact h.apart c d hold hold' hc hd
  · intro i hactive
    rw [hsame.active] at hactive
    obtain ⟨c, hold, hheld, hi⟩ := h.owned i hactive
    exact ⟨c, hold, (hquiet.held c).trans hheld, hi⟩
  · intro c a ha
    rw [hquiet.received] at ha
    exact hquiet.consumed (h.taken c a ha)
  · intro c d a hc hd
    rw [hquiet.received] at hc hd
    exact h.alone c d a hc hd
  · rw [hquiet.answers]
    exact h.once
  · intro c past hpast
    rw [hquiet.past] at hpast
    exact h.past c past hpast
  · intro hids c past hpast
    rw [hquiet.past] at hpast
    rw [hsame.next] at hids ⊢
    simp only [hsame.active, hsame.requestId]
    exact h.gone hids c past hpast

theorem Quiet.refl (s : RelaySystem) : Quiet s s :=
  ⟨.of_broken s.relay s.relay.broken, List.Subset.refl _, rfl, fun _ => rfl, fun _ => rfl, fun _ => rfl⟩

theorem Quiet.of_callers (t : RelaySystem) (broken : Bool) (hrelay : t.relay = { s.relay with broken })
    (hconsumed : t.consumed = s.consumed) (hinbox : t.inbox = s.inbox)
    (hcallers : t.callers = s.callers) : Quiet s t := by
  have hsame : SameSlots s.relay t.relay := by
    rw [hrelay]
    exact .of_broken s.relay broken
  have hanswers : t.answers = s.answers := by rw [RelaySystem.answers, hconsumed, hinbox, RelaySystem.answers]
  have hcaller : ∀ c, t.callers c = s.callers c := fun c => congrFun hcallers c
  refine ⟨hsame, hconsumed ▸ List.Subset.refl _, hanswers, ?_, ?_, ?_⟩
  all_goals
    intro c
    rw [hcaller]

/-- One thread goes on with its slot and its answer as they were. -/
theorem Quiet.of_caller {c : ℕ} {caller : Caller} (hrelay : ∃ broken, t.relay = { s.relay with broken })
    (hconsumed : t.consumed = s.consumed) (hinbox : t.inbox = s.inbox)
    (hcallers : t.callers = Function.update s.callers c caller)
    (hheld : caller.held = (s.callers c).held) (hpast : caller.past = (s.callers c).past)
    (hreceived : caller.received = (s.callers c).received) : Quiet s t := by
  obtain ⟨broken, hrelay⟩ := hrelay
  have hsame : SameSlots s.relay t.relay := by
    rw [hrelay]
    exact .of_broken s.relay broken
  have hanswers : t.answers = s.answers := by rw [RelaySystem.answers, hconsumed, hinbox, RelaySystem.answers]
  refine ⟨hsame, hconsumed ▸ List.Subset.refl _, hanswers, ?_, ?_, ?_⟩
  all_goals
    intro d
    rw [hcallers]
    by_cases hd : d = c
    · rw [hd, Function.update_self]
      assumption
    · rw [Function.update_of_ne hd]

theorem Quiet.of_call {c : ℕ} {call call' : RelayCall} (hcall : s.callers c = .calling call)
    (hrelay : ∃ broken, t.relay = { s.relay with broken })
    (hconsumed : t.consumed = s.consumed) (hinbox : t.inbox = s.inbox)
    (hcallers : t.callers = Function.update s.callers c (.calling call'))
    (hslot : call'.slot = call.slot) (hid : call'.requestId = call.requestId)
    (hanswer : call'.answer = call.answer) : Quiet s t := by
  refine .of_caller hrelay hconsumed hinbox hcallers ?_ ?_ ?_
  · rw [hcall, Caller.held, Caller.held, hslot, hid, hanswer]
  · rw [hcall]
    rfl
  · rw [hcall]
    exact hanswer

/-- What a thread's next turn is quiet about, its turn is quiet about. -/
theorem Quiet.goOn {c : ℕ} {phase : CallPhase} {next : RelayCall → RelaySystem}
    (h : ∀ call, s.callers c = .calling call → call.phase = phase → Quiet s (next call)) :
    Quiet s (s.goOn c phase next) := by
  unfold RelaySystem.goOn
  cases hphase : s.inPhase c phase with
  | none => exact .refl s
  | some call =>
    obtain ⟨hcall, hat⟩ := inPhase_eq_some hphase
    exact h call hcall hat

theorem breakUnless_relay (s : RelaySystem) (ok : Bool) :
    ∃ broken, (s.breakUnless ok).relay = { s.relay with broken } := by
  cases ok with
  | true => exact ⟨s.relay.broken, rfl⟩
  | false => exact ⟨true, rfl⟩

section Quietly

variable {c : ℕ} {call : RelayCall} (hcall : s.callers c = .calling call)
include hcall

theorem pack_quiet (allocated : Bool) : Quiet s (s.pack c call allocated) := by
  unfold RelaySystem.pack
  split
  · split_ifs
    · exact .of_call hcall ⟨_, rfl⟩ rfl rfl rfl rfl rfl rfl
    · exact .of_call hcall ⟨_, rfl⟩ rfl rfl rfl rfl rfl rfl
  · exact .of_call hcall ⟨_, rfl⟩ rfl rfl rfl rfl rfl rfl

theorem claim_quiet (timely : Bool) : Quiet s (s.claim c call timely) := by
  unfold RelaySystem.claim
  split_ifs
  · exact .of_call hcall ⟨_, rfl⟩ rfl rfl rfl rfl rfl rfl
  · exact .of_call hcall ⟨_, rfl⟩ rfl rfl rfl rfl rfl rfl

theorem endWrite_quiet : Quiet s (s.endWrite c call) := by
  have hcallers : (s.endWrite c call).callers = Function.update s.callers c
      (.calling { call with sent := s.written c == call.packed.length, phase := .waiting }) := by
    show Function.update (RelaySystem.breakUnless _ _).callers c _ = _
    rw [breakUnless_callers]
  exact .of_call hcall (breakUnless_relay _ _) (breakUnless_consumed _ _) (breakUnless_inbox _ _) hcallers
    rfl rfl rfl

theorem takeReader_quiet (timely : Bool) : Quiet s (s.takeReader c call timely) := by
  unfold RelaySystem.takeReader
  split_ifs
  · exact .of_call hcall ⟨_, rfl⟩ rfl rfl rfl rfl rfl rfl
  · exact .refl s

theorem endRead_quiet (ok : Bool) : Quiet s (s.endRead c call ok) := by
  have hcallers : (s.endRead c call ok).callers =
      Function.update s.callers c (.calling { call with phase := .waiting }) := by
    show Function.update (RelaySystem.breakUnless _ _).callers c _ = _
    rw [breakUnless_callers]
  exact .of_call hcall (breakUnless_relay _ _) (breakUnless_consumed _ _) (breakUnless_inbox _ _) hcallers
    rfl rfl rfl

end Quietly

/-- The state after a call has taken a slot. -/
def RelaySystem.begun (s : RelaySystem) (c : ℕ) (request : Frame) (slot : ℕ) : RelaySystem :=
  { s with relay := { s.relay.setSlot slot (freshSlot s.relay request.opcode) with
      nextRequestId := s.relay.nextRequestId + 1 } }.setCall c
    ⟨request, slot, BitVec.ofNat 64 s.relay.nextRequestId, [], false, false, .packing, none⟩

/-- The call of the given slot has its answer. -/
def SlotHold.fill (i : ℕ) (a : PeerAnswer) (hold : SlotHold) : SlotHold :=
  if hold.slot = i then { hold with answer := some a } else hold

/-- A frame was read, and its answer is now in the slot that waited for it. -/
structure Fills (s t : RelaySystem) (i : ℕ) (a : PeerAnswer) : Prop where
  lt : i < s.relay.pending.length
  awaits : awaiting a.id (s.relay.slot i)
  relay : t.relay = s.relay.setSlot i (filledSlot (s.relay.slot i) a)
  head : ∃ inbox, s.inbox = a :: inbox ∧ t.inbox = inbox
  consumed : t.consumed = s.consumed ++ [a]
  held : ∀ c, (t.callers c).held = (s.callers c).held.map (SlotHold.fill i a)
  past : ∀ c, (t.callers c).past = (s.callers c).past

/-- Everything a step can do to slots and answers. -/
inductive RelayMove (s : RelaySystem) : RelayAction → RelaySystem → Prop
  | quiet {action : RelayAction} {t : RelaySystem} (quiet : Quiet s t) : RelayMove s action t
  | begun {action : RelayAction} (c : ℕ) (request : Frame) (slot : ℕ) (idle : s.callers c = .idle)
      (lt : slot < s.relay.pending.length) (free : (s.relay.slot slot).active = false) :
      RelayMove s action (s.begun c request slot)
  | filled {action : RelayAction} {t : RelaySystem} (i : ℕ) (a : PeerAnswer) (fills : Fills s t i a) :
      RelayMove s action t
  | finished {action : RelayAction} (c : ℕ) (call : RelayCall) (calling : s.callers c = .calling call) :
      RelayMove s action (s.finish c call)
  | answered (a : PeerAnswer) : RelayMove s (.answer a) { s with inbox := s.inbox ++ [a] }

theorem start_move (s : RelaySystem) (c : ℕ) (request : Frame) (action : RelayAction) :
    RelayMove s action (s.start c request) := by
  unfold RelaySystem.start
  split
  · next hidle =>
    cases hfind : s.relay.pending.findIdx? fun slot => !slot.active with
    | none =>
      have hbegin : relayBegin s.relay request.opcode = none := by
        unfold relayBegin
        rw [hfind]
        split_ifs <;> rfl
      rw [hbegin]
      refine .quiet (.of_caller ⟨_, rfl⟩ rfl rfl rfl ?_ ?_ ?_)
      all_goals
        rw [hidle]
        rfl
    | some slot =>
      obtain ⟨hlt, hfree⟩ := Slots.findIdx?_some (d := {}) hfind
      have hslot : (s.relay.slot slot).active = false := by
        rw [Bool.not_eq_true'] at hfree
        exact hfree
      unfold relayBegin
      rw [hfind]
      split_ifs
      · refine .quiet (.of_caller ⟨_, rfl⟩ rfl rfl rfl ?_ ?_ ?_)
        all_goals
          rw [hidle]
          rfl
      · exact .begun c request slot hidle hlt hslot
  · exact .quiet (.refl s)

/-- Only the call whose slot a read has filled is told of it. -/
theorem noteAnswer_held {before after : KwinRelay} {a : PeerAnswer} (caller : Caller) :
    (noteAnswer before after a caller).held = caller.held.map fun hold =>
      if (before.slot hold.slot).done = false ∧ (after.slot hold.slot).done = true then
        { hold with answer := some a } else hold := by
  cases caller with
  | calling call =>
    simp only [noteAnswer, Caller.held, Option.map_some]
    split_ifs <;> rfl
  | _ => rfl

theorem noteAnswer_past {before after : KwinRelay} {a : PeerAnswer} (caller : Caller) :
    (noteAnswer before after a caller).past = caller.past := by
  cases caller with
  | calling call =>
    simp only [noteAnswer]
    split_ifs <;> rfl
  | _ => rfl

/-- A read that fills no slot leaves every call as it was. -/
theorem noteAnswer_of_done {before after : KwinRelay} {a : PeerAnswer}
    (h : ∀ i, (after.slot i).done = (before.slot i).done) (caller : Caller) :
    noteAnswer before after a caller = caller := by
  cases caller with
  | calling call =>
    simp only [noteAnswer]
    split_ifs with hfilled
    · rw [h, hfilled.1] at hfilled
      cases hfilled.2
    · rfl
  | _ => rfl

section Read

variable {c : ℕ} {call : RelayCall} {a : PeerAnswer} {inbox : List PeerAnswer}

/-- The relay after the first frame of the inbox was read. -/
def RelaySystem.readRelay (s : RelaySystem) (a : PeerAnswer) (inbox : List PeerAnswer) : KwinRelay :=
  (readOne s.relay (a.frame.bytes ++ inboxBytes inbox) a.fd).relay

theorem readFrame_callers (hcall : s.callers c = .calling call) (hinbox : s.inbox = a :: inbox) (d : ℕ) :
    ∃ caller : Caller, (s.readFrame c call).callers d = noteAnswer s.relay (s.readRelay a inbox) a caller ∧
      caller.held = (s.callers d).held ∧ caller.past = (s.callers d).past ∧
      caller.received = (s.callers d).received := by
  have hread : ∃ ok, (s.readFrame c call).callers d = noteAnswer s.relay (s.readRelay a inbox) a
      (Function.update s.callers c (.calling { call with phase := .readDone ok }) d) := by
    unfold RelaySystem.readFrame
    rw [hinbox]
    exact ⟨_, rfl⟩
  obtain ⟨ok, hread⟩ := hread
  refine ⟨_, hread, ?_⟩
  by_cases hd : d = c
  · rw [hd, Function.update_self, hcall]
    exact ⟨rfl, rfl, rfl⟩
  · rw [Function.update_of_ne hd]
    exact ⟨rfl, rfl, rfl⟩

theorem readFrame_fields (c : ℕ) (call : RelayCall) (hinbox : s.inbox = a :: inbox) :
    (s.readFrame c call).relay = s.readRelay a inbox ∧
      (s.readFrame c call).consumed = s.consumed ++ [a] ∧ (s.readFrame c call).inbox = inbox := by
  unfold RelaySystem.readFrame
  rw [hinbox]
  exact ⟨rfl, rfl, rfl⟩

/-- A frame that fills no slot. -/
theorem readFrame_quiet (hcall : s.callers c = .calling call) (hinbox : s.inbox = a :: inbox)
    (hsame : SameSlots s.relay (s.readRelay a inbox)) : Quiet s (s.readFrame c call) := by
  obtain ⟨hrelay, hconsumed, hrest⟩ := readFrame_fields c call hinbox
  have hanswers : (s.readFrame c call).answers = s.answers := by
    rw [RelaySystem.answers, RelaySystem.answers, hconsumed, hrest, hinbox, List.append_assoc]
    rfl
  have hcallers : ∀ d, ∃ caller : Caller, (s.readFrame c call).callers d = caller ∧
      caller.held = (s.callers d).held ∧ caller.past = (s.callers d).past ∧
      caller.received = (s.callers d).received := by
    intro d
    obtain ⟨caller, hd, hkept⟩ := readFrame_callers hcall hinbox d
    rw [noteAnswer_of_done hsame.done] at hd
    exact ⟨caller, hd, hkept⟩
  refine ⟨?_, ?_, hanswers, ?_, ?_, ?_⟩
  · rw [hrelay]
    exact hsame
  · rw [hconsumed]
    exact List.subset_append_left _ _
  · intro d
    obtain ⟨caller, hd, hheld, -, -⟩ := hcallers d
    rw [hd, hheld]
  · intro d
    obtain ⟨caller, hd, -, hpast, -⟩ := hcallers d
    rw [hd, hpast]
  · intro d
    obtain ⟨caller, hd, -, -, hreceived⟩ := hcallers d
    rw [hd, hreceived]

/-- A slot that is marked and no more is as it was, for its call. -/
theorem SameSlots.of_marked {relay : KwinRelay} {i : ℕ} (hwait : awaiting a.id (relay.slot i)) :
    SameSlots relay (relay.setSlot i (markedSlot (relay.slot i) a)) := by
  simp only [awaiting, Bool.and_eq_true, Bool.not_eq_true'] at hwait
  have hslot := slot_setSlot relay (markedSlot (relay.slot i) a) i
  refine ⟨?_, rfl, ?_, ?_, ?_, ?_⟩
  · intro hsound
    exact (SlotChange.fill [] none i (markedSlot (relay.slot i) a) relay.broken rfl rfl hwait.1.2
      fun _ hempty => hempty).sound hsound
  · intro j
    rw [hslot]
    split_ifs with hj
    · rw [hj.1]
      rfl
    · rfl
  · intro j
    rw [hslot]
    split_ifs with hj
    · rw [hj.1]
      rfl
    · rfl
  · intro j
    rw [hslot]
    split_ifs with hj
    · rw [hj.1]
      rfl
    · rfl
  · intro j hdone
    rw [hslot, if_neg]
    intro hj
    rw [hj.1, hwait.1.2] at hdone
    cases hdone

theorem readFrame_fills {i : ℕ} (hcall : s.callers c = .calling call) (hinbox : s.inbox = a :: inbox)
    (hlt : i < s.relay.pending.length) (hwait : awaiting a.id (s.relay.slot i))
    (hread : s.readRelay a inbox = s.relay.setSlot i (filledSlot (s.relay.slot i) a)) :
    Fills s (s.readFrame c call) i a := by
  obtain ⟨hrelay, hconsumed, hrest⟩ := readFrame_fields c call hinbox
  have hundone : (s.relay.slot i).done = false := by
    simp only [awaiting, Bool.and_eq_true, Bool.not_eq_true'] at hwait
    exact hwait.1.2
  refine ⟨hlt, hwait, hrelay.trans hread, ⟨inbox, hinbox, hrest⟩, hconsumed, ?_, ?_⟩
  · intro d
    obtain ⟨caller, hd, hheld, -⟩ := readFrame_callers hcall hinbox d
    rw [hd, noteAnswer_held, hheld, hread]
    congr 1
    funext hold
    unfold SlotHold.fill
    by_cases hslot : hold.slot = i
    · rw [if_pos hslot, if_pos]
      rw [slot_setSlot, if_pos ⟨hslot, hlt⟩, hslot]
      exact ⟨hundone, filledSlot_done _ _⟩
    · rw [if_neg hslot, if_neg]
      rw [slot_setSlot, if_neg fun h => hslot h.1]
      intro hboth
      rw [hboth.1] at hboth
      cases hboth.2
  · intro d
    obtain ⟨caller, hd, -, hpast, -⟩ := readFrame_callers hcall hinbox d
    rw [hd, noteAnswer_past, hpast]

theorem readFrame_move {action : RelayAction} (hcall : s.callers c = .calling call)
    (hinbox : s.inbox = a :: inbox) : RelayMove s action (s.readFrame c call) := by
  rcases readOne_fills s.relay a (inboxBytes inbox) with hsame | ⟨i, hlt, hwait, hfilled | hmarked⟩
  · refine .quiet (readFrame_quiet hcall hinbox ?_)
    rw [RelaySystem.readRelay, hsame]
    exact .of_broken s.relay s.relay.broken
  · exact .filled i a (readFrame_fills hcall hinbox hlt hwait hfilled)
  · refine .quiet (readFrame_quiet hcall hinbox ?_)
    rw [RelaySystem.readRelay, hmarked]
    exact .of_marked hwait

end Read

theorem relayAct_move (s : RelaySystem) (action : RelayAction) : RelayMove s action (relayAct s action) := by
  cases action with
  | start c request => exact start_move s c request _
  | pack c allocated => exact .quiet (.goOn fun call hcall _ => pack_quiet hcall allocated)
  | claim c timely => exact .quiet (.goOn fun call hcall _ => claim_quiet hcall timely)
  | transfer c n =>
    refine .quiet (.goOn fun call _ _ => ?_)
    exact .of_callers (s.transfer c call n) s.relay.broken rfl rfl rfl rfl
  | endWrite c => exact .quiet (.goOn fun call hcall _ => endWrite_quiet hcall)
  | takeReader c timely => exact .quiet (.goOn fun call hcall _ => takeReader_quiet hcall timely)
  | readNothing c ok =>
    refine .quiet (.goOn fun call hcall _ => ?_)
    exact .of_call hcall ⟨_, rfl⟩ rfl rfl rfl rfl rfl rfl
  | readFrame c =>
    simp only [relayAct, RelaySystem.goOn]
    cases hphase : s.inPhase c .reading with
    | none => exact .quiet (.refl s)
    | some call =>
      obtain ⟨hcall, -⟩ := inPhase_eq_some hphase
      cases hinbox : s.inbox with
      | nil =>
        simp only [RelaySystem.readFrame, hinbox]
        exact .quiet (.refl s)
      | cons a inbox => exact readFrame_move hcall hinbox
  | endRead c =>
    simp only [relayAct]
    split
    · next call hcall =>
      split
      · exact .quiet (endRead_quiet hcall _)
      · exact .quiet (.refl s)
    · exact .quiet (.refl s)
  | finish c =>
    simp only [relayAct, RelaySystem.goOn]
    cases hphase : s.inPhase c .waiting with
    | none => exact .quiet (.refl s)
    | some call =>
      obtain ⟨hcall, -⟩ := inPhase_eq_some hphase
      exact .finished c call hcall
  | retire => exact .quiet (.of_callers s.breakDown true rfl rfl rfl rfl)
  | answer a => exact .answered a

theorem begun_callers (s : RelaySystem) (c : ℕ) (request : Frame) (slot d : ℕ) :
    (s.begun c request slot).callers d = if d = c then .calling
      ⟨request, slot, BitVec.ofNat 64 s.relay.nextRequestId, [], false, false, .packing, none⟩
      else s.callers d := by
  by_cases hd : d = c
  · rw [if_pos hd, hd]
    exact Function.update_self ..
  · rw [if_neg hd]
    exact Function.update_of_ne hd ..

/-- A call that has begun: its slot was nobody's, and its id is new. -/
theorem RelaySystem.Delivery.begun {c slot : ℕ} (h : s.Delivery) (request : Frame)
    (hidle : s.callers c = .idle) (hlt : slot < s.relay.pending.length)
    (hfree : (s.relay.slot slot).active = false) : (s.begun c request slot).Delivery := by
  have hslot : ∀ j, (s.begun c request slot).relay.slot j =
      if j = slot ∧ slot < s.relay.pending.length then freshSlot s.relay request.opcode
      else s.relay.slot j := slot_setSlot s.relay _ slot
  have hself : (s.begun c request slot).relay.slot slot = freshSlot s.relay request.opcode := by
    rw [hslot, if_pos ⟨rfl, hlt⟩]
  have hother : ∀ j, j ≠ slot → (s.begun c request slot).relay.slot j = s.relay.slot j := by
    intro j hj
    rw [hslot, if_neg fun h => hj h.1]
  have hkept : ∀ d, d ≠ c → (s.begun c request slot).callers d = s.callers d := by
    intro d hd
    rw [begun_callers, if_neg hd]
  have hnew : (s.begun c request slot).callers c = .calling
      ⟨request, slot, BitVec.ofNat 64 s.relay.nextRequestId, [], false, false, .packing, none⟩ := by
    rw [begun_callers, if_pos rfl]
  have htaken : ∀ d hold, (s.callers d).held = some hold → hold.slot ≠ slot := by
    intro d hold hheld heq
    have hactive := (h.held d hold hheld).active
    rw [heq, hfree] at hactive
    cases hactive
  constructor
  · exact (SlotChange.fresh request.opcode slot hfree).sound h.relay
  · intro d hold hheld
    by_cases hd : d = c
    · rw [hd, hnew] at hheld
      cases hheld
      refine ⟨?_, ?_, ?_, ?_, ?_⟩
      · rw [hself]
        rfl
      · rw [hself]
        rfl
      · rw [hself]
        rfl
      · intro a ha
        cases ha
      · intro a ha
        cases ha
    · rw [hkept d hd] at hheld
      have hfits := h.held d hold hheld
      have hsame := hother hold.slot (htaken d hold hheld)
      refine ⟨?_, ?_, ?_, hfits.own, ?_⟩
      · rw [hsame]
        exact hfits.active
      · rw [hsame]
        exact hfits.requestId
      · rw [hsame]
        exact hfits.done
      · rw [hsame]
        exact hfits.result
  · intro d e hold hold' hd he hslots
    by_cases hdc : d = c
    · by_cases hec : e = c
      · rw [hdc, hec]
      · rw [hdc, hnew] at hd
        rw [hkept e hec] at he
        cases hd
        exact absurd hslots.symm (htaken e hold' he)
    · by_cases hec : e = c
      · rw [hec, hnew] at he
        rw [hkept d hdc] at hd
        cases he
        exact absurd hslots (htaken d hold hd)
      · rw [hkept d hdc] at hd
        rw [hkept e hec] at he
        exact h.apart d e hold hold' hd he hslots
  · intro j hactive
    by_cases hj : j = slot
    · refine ⟨c, ⟨slot, BitVec.ofNat 64 s.relay.nextRequestId, none⟩, ?_, hj.symm⟩
      rw [hnew]
      rfl
    · rw [hother j hj] at hactive
      obtain ⟨d, hold, hheld, hslots⟩ := h.owned j hactive
      refine ⟨d, hold, ?_, hslots⟩
      have hd : d ≠ c := by
        intro hd
        rw [hd, hidle] at hheld
        cases hheld
      rw [hkept d hd]
      exact hheld
  · intro d a ha
    by_cases hd : d = c
    · rw [hd, hnew] at ha
      cases ha
    · rw [hkept d hd] at ha
      exact h.taken d a ha
  · intro d e a hd he
    by_cases hdc : d = c
    · rw [hdc, hnew] at hd
      cases hd
    · by_cases hec : e = c
      · rw [hec, hnew] at he
        cases he
      · rw [hkept d hdc] at hd
        rw [hkept e hec] at he
        exact h.alone d e a hd he
  · exact h.once
  · intro d past hpast
    by_cases hd : d = c
    · rw [hd, hnew] at hpast
      cases hpast
    · rw [hkept d hd] at hpast
      exact h.past d past hpast
  · intro hids d past hpast
    have hids' : s.relay.nextRequestId + 1 ≤ 2 ^ 64 := hids
    by_cases hd : d = c
    · rw [hd, hnew] at hpast
      cases hpast
    · rw [hkept d hd] at hpast
      obtain ⟨hbelow, hgone⟩ := h.gone (by omega) d past hpast
      refine ⟨Nat.lt_succ_of_lt hbelow, ?_⟩
      intro j hactive
      by_cases hj : j = slot
      · rw [hj, hself]
        intro hid
        have hnext : (BitVec.ofNat 64 s.relay.nextRequestId).toNat = s.relay.nextRequestId := by
          rw [BitVec.toNat_ofNat, Nat.mod_eq_of_lt (by omega)]
        rw [← hid] at hbelow
        have hlow : (BitVec.ofNat 64 s.relay.nextRequestId).toNat < s.relay.nextRequestId := hbelow
        omega
      · rw [hother j hj] at hactive ⊢
        exact hgone j hactive

/-- An answer that was read: it reaches the call of its id, and it reaches it first. -/
theorem RelaySystem.Delivery.filled {i : ℕ} {a : PeerAnswer} (h : s.Delivery) (hfills : Fills s t i a) :
    t.Delivery := by
  obtain ⟨hlt, hwait, hrelay, ⟨inbox, hinbox, hrest⟩, hconsumed, hheld, hpast⟩ := hfills
  simp only [awaiting, Bool.and_eq_true, Bool.not_eq_true', beq_iff_eq] at hwait
  obtain ⟨⟨hactive, hundone⟩, hid⟩ := hwait
  have hempty := h.relay.empty i hundone
  have hself : t.relay.slot i = filledSlot (s.relay.slot i) a := by
    rw [hrelay, slot_setSlot, if_pos ⟨rfl, hlt⟩]
  have hother : ∀ j, j ≠ i → t.relay.slot j = s.relay.slot j := by
    intro j hj
    rw [hrelay, slot_setSlot, if_neg fun h => hj h.1]
  have hsame : ∀ j, (t.relay.slot j).active = (s.relay.slot j).active ∧
      (t.relay.slot j).requestId = (s.relay.slot j).requestId := by
    intro j
    by_cases hj : j = i
    · rw [hj, hself]
      exact ⟨filledSlot_active _ _, filledSlot_requestId _ _⟩
    · rw [hother j hj]
      exact ⟨rfl, rfl⟩
  have hback : ∀ d hold', (t.callers d).held = some hold' →
      ∃ hold, (s.callers d).held = some hold ∧ hold' = SlotHold.fill i a hold ∧ hold'.slot = hold.slot := by
    intro d hold' hd
    rw [hheld, Option.map_eq_some_iff] at hd
    obtain ⟨hold, hold_eq, hfill⟩ := hd
    refine ⟨hold, hold_eq, hfill.symm, ?_⟩
    rw [← hfill, SlotHold.fill]
    split_ifs <;> rfl
  have hreceived : ∀ d b, (t.callers d).received = some b →
      (s.callers d).received = some b ∨ b = a ∧ ∃ hold, (s.callers d).held = some hold ∧ hold.slot = i := by
    intro d b hb
    rcases Caller.held_or_past hb with ⟨hold', hd, hanswer⟩ | ⟨past, hd, hanswer⟩
    · obtain ⟨hold, hold_eq, hfill, -⟩ := hback d hold' hd
      rw [hfill, SlotHold.fill] at hanswer
      split_ifs at hanswer with hslot
      · cases hanswer
        exact .inr ⟨rfl, hold, hold_eq, hslot⟩
      · left
        rw [Caller.received_of_held hold_eq, hanswer]
    · left
      rw [hpast] at hd
      rw [Caller.received_of_past hd, hanswer]
  have hnew : a ∉ s.consumed := by
    intro hold
    have honce := h.once
    rw [RelaySystem.answers, hinbox, List.map_append, List.map_cons] at honce
    have hdisjoint := (List.nodup_append.mp honce).2.2
    exact hdisjoint a.id (List.mem_map_of_mem hold) a.id List.mem_cons_self rfl
  constructor
  · rw [hrelay]
    have hchange : SlotChange s.relay (.read [] none) (s.relay.setSlot i (filledSlot (s.relay.slot i) a)) := by
      refine .fill [] none i (filledSlot (s.relay.slot i) a) s.relay.broken (filledSlot_active _ _)
        (filledSlot_requestId _ _) hundone ?_
      intro hdone
      rw [filledSlot_done] at hdone
      cases hdone
    exact hchange.sound h.relay
  · intro d hold' hd
    obtain ⟨hold, hold_eq, hfill, hslot⟩ := hback d hold' hd
    have hfits := h.held d hold hold_eq
    by_cases hi : hold.slot = i
    · rw [hfill, SlotHold.fill, if_pos hi]
      refine ⟨?_, ?_, ?_, ?_, ?_⟩
      · rw [(hsame _).1]
        exact hfits.active
      · rw [(hsame _).2]
        exact hfits.requestId
      · show (t.relay.slot hold.slot).done = _
        rw [hi, hself]
        exact filledSlot_done _ _
      · intro b hb
        cases hb
        rw [← hid, ← hi]
        exact hfits.requestId
      · intro b hb
        cases hb
        show slotAnswer (t.relay.slot hold.slot) = _
        rw [hi, hself]
        exact slotAnswer_filledSlot hempty a
    · rw [hfill, SlotHold.fill, if_neg hi]
      refine ⟨?_, ?_, ?_, hfits.own, ?_⟩
      · rw [hother _ hi]
        exact hfits.active
      · rw [hother _ hi]
        exact hfits.requestId
      · rw [hother _ hi]
        exact hfits.done
      · rw [hother _ hi]
        exact hfits.result
  · intro d e hold' hold'' hd he hslots
    obtain ⟨hold, hold_eq, -, hslot⟩ := hback d hold' hd
    obtain ⟨other, other_eq, -, hslot'⟩ := hback e hold'' he
    rw [hslot, hslot'] at hslots
    exact h.apart d e hold other hold_eq other_eq hslots
  · intro j hj
    rw [(hsame j).1] at hj
    obtain ⟨d, hold, hold_eq, hslot⟩ := h.owned j hj
    refine ⟨d, SlotHold.fill i a hold, ?_, ?_⟩
    · rw [hheld, hold_eq]
      rfl
    · rw [← hslot, SlotHold.fill]
      split_ifs <;> rfl
  · intro d b hb
    rw [hconsumed]
    rcases hreceived d b hb with hold | ⟨hba, -⟩
    · exact List.mem_append_left _ (h.taken d b hold)
    · rw [hba]
      exact List.mem_append_right _ List.mem_cons_self
  · intro d e b hd he
    rcases hreceived d b hd with hd' | ⟨hba, hold, hold_eq, hslot⟩
    · rcases hreceived e b he with he' | ⟨hba, -⟩
      · exact h.alone d e b hd' he'
      · exact absurd (hba ▸ h.taken d b hd') hnew
    · rcases hreceived e b he with he' | ⟨-, other, other_eq, hslot'⟩
      · exact absurd (hba ▸ h.taken e b he') hnew
      · exact h.apart d e hold other hold_eq other_eq (hslot.trans hslot'.symm)
  · have hanswers : t.answers = s.answers := by
      rw [RelaySystem.answers, RelaySystem.answers, hconsumed, hrest, hinbox, List.append_assoc]
      rfl
    rw [hanswers]
    exact h.once
  · intro d past hd
    rw [hpast] at hd
    exact h.past d past hd
  · intro hids d past hd
    have hnext : t.relay.nextRequestId = s.relay.nextRequestId := by
      rw [hrelay]
      rfl
    rw [hpast] at hd
    rw [hnext] at hids ⊢
    obtain ⟨hbelow, hgone⟩ := h.gone hids d past hd
    refine ⟨hbelow, ?_⟩
    intro j hj
    rw [(hsame j).1] at hj
    rw [(hsame j).2]
    exact hgone j hj

/-- What a call returns that holds an answer. -/
theorem relayFinish_of_answer {relay : KwinRelay} {i : ℕ} {result : OperationResult}
    (h : slotAnswer (relay.slot i) = some result) (attempted : Bool) :
    (relayFinish relay i attempted).1 = result := by
  rw [relayFinish, h]
  rfl

theorem done_of_slotAnswer {slot : RelayPending} (h : (slotAnswer slot).isSome) : slot.done = true := by
  by_contra hdone
  rw [Bool.not_eq_true] at hdone
  rw [slotAnswer, hdone] at h
  cases h

/-- A call that has returned: its slot is free, and its id is in no other one. -/
theorem RelaySystem.Delivery.finished {c : ℕ} {call : RelayCall} (h : s.Delivery)
    (hcall : s.callers c = .calling call) : (s.finish c call).Delivery := by
  have hheld : (s.callers c).held = some ⟨call.slot, call.requestId, call.answer⟩ := by
    rw [hcall]
    rfl
  have hfits := h.held c _ hheld
  have hslot : ∀ j, (s.finish c call).relay.slot j =
      if j = call.slot ∧ call.slot < s.relay.pending.length then {} else s.relay.slot j :=
    slot_setSlot s.relay {} call.slot
  have hother : ∀ j, j ≠ call.slot → (s.finish c call).relay.slot j = s.relay.slot j := by
    intro j hj
    rw [hslot, if_neg fun h => hj h.1]
  have hleft : ∀ j, ((s.finish c call).relay.slot j).active → j ≠ call.slot := by
    intro j hactive hj
    rw [hslot] at hactive
    split_ifs at hactive with hlt
    have hrange : call.slot < s.relay.pending.length := by
      by_contra hge
      rw [hj, KwinRelay.slot, Slots.getD_of_ge (Nat.not_lt.mp hge)] at hactive
      cases hactive
    exact hlt ⟨hj, hrange⟩
  have hkept : ∀ d, d ≠ c → (s.finish c call).callers d = s.callers d := by
    intro d hd
    exact Function.update_of_ne hd ..
  have hself : (s.finish c call).callers c = .returned call
      (relayFinish s.relay call.slot call.attempted).1 (slotAnswer (s.relay.slot call.slot)).isSome :=
    Function.update_self ..
  have hreceived : ∀ d, ((s.finish c call).callers d).received = (s.callers d).received := by
    intro d
    by_cases hd : d = c
    · rw [hd, hself, hcall]
      rfl
    · rw [hkept d hd]
  have hbusy : ∀ d hold, ((s.finish c call).callers d).held = some hold →
      d ≠ c ∧ (s.callers d).held = some hold ∧ hold.slot ≠ call.slot := by
    intro d hold hd
    have hne : d ≠ c := by
      intro hdc
      rw [hdc, hself] at hd
      cases hd
    rw [hkept d hne] at hd
    exact ⟨hne, hd, fun hslots => hne (h.apart d c hold _ hd hheld hslots)⟩
  constructor
  · exact (SlotChange.clear call.slot).sound h.relay
  · intro d hold hd
    obtain ⟨-, hold_eq, hne⟩ := hbusy d hold hd
    have hfits' := h.held d hold hold_eq
    refine ⟨?_, ?_, ?_, hfits'.own, ?_⟩
    · rw [hother _ hne]
      exact hfits'.active
    · rw [hother _ hne]
      exact hfits'.requestId
    · rw [hother _ hne]
      exact hfits'.done
    · rw [hother _ hne]
      exact hfits'.result
  · intro d e hold hold' hd he hslots
    exact h.apart d e hold hold' (hbusy d hold hd).2.1 (hbusy e hold' he).2.1 hslots
  · intro j hactive
    have hne := hleft j hactive
    rw [hother j hne] at hactive
    obtain ⟨d, hold, hold_eq, hslots⟩ := h.owned j hactive
    refine ⟨d, hold, ?_, hslots⟩
    have hd : d ≠ c := by
      intro hdc
      rw [hdc, hheld] at hold_eq
      cases hold_eq
      exact hne hslots.symm
    rw [hkept d hd]
    exact hold_eq
  · intro d a ha
    rw [hreceived] at ha
    exact h.taken d a ha
  · intro d e a hd he
    rw [hreceived] at hd he
    exact h.alone d e a hd he
  · exact h.once
  · intro d past hd hanswered
    by_cases hdc : d = c
    · rw [hdc, hself] at hd
      cases hd
      have hdone := hfits.done
      rw [done_of_slotAnswer hanswered] at hdone
      obtain ⟨a, ha⟩ := Option.isSome_iff_exists.mp hdone.symm
      have hresult := hfits.result a ha
      obtain ⟨result, hsome⟩ := Option.isSome_iff_exists.mp hanswered
      refine ⟨a, ha, hfits.own a ha, ?_⟩
      show answerResult a = some (relayFinish s.relay call.slot call.attempted).1
      rw [relayFinish_of_answer hsome, ← hresult]
      exact hsome
    · rw [hkept d hdc] at hd
      exact h.past d past hd hanswered
  · intro hids d past hd
    by_cases hdc : d = c
    · rw [hdc, hself] at hd
      cases hd
      constructor
      · have hbelow := h.relay.below call.slot hfits.active
        rw [hfits.requestId] at hbelow
        exact hbelow
      · intro j hactive hid
        have hne := hleft j hactive
        rw [hother j hne] at hactive hid
        exact hne (h.relay.distinct hids j call.slot hactive hfits.active (hid.trans hfits.requestId.symm))
    · rw [hkept d hdc] at hd
      obtain ⟨hbelow, hgone⟩ := h.gone hids d past hd
      refine ⟨hbelow, ?_⟩
      intro j hactive
      have hne := hleft j hactive
      rw [hother j hne] at hactive ⊢
      exact hgone j hactive

theorem RelaySystem.Delivery.answered {a : PeerAnswer} (h : s.Delivery)
    (hfirst : ∀ b ∈ s.answers, b.id ≠ a.id) : ({ s with inbox := s.inbox ++ [a] } : RelaySystem).Delivery := by
  refine ⟨h.relay, h.held, h.apart, h.owned, h.taken, h.alone, ?_, h.past, h.gone⟩
  have hanswers : ({ s with inbox := s.inbox ++ [a] } : RelaySystem).answers = s.answers ++ [a] :=
    (List.append_assoc ..).symm
  rw [hanswers, List.map_append, List.nodup_append]
  refine ⟨h.once, by simp, ?_⟩
  intro id hid other hother
  obtain ⟨b, hb, rfl⟩ := List.mem_map.mp hid
  rw [List.map_singleton, List.mem_singleton] at hother
  rw [hother]
  exact hfirst b hb

theorem relayAct_delivery {action : RelayAction} (honce : AnswersOnce s action) (h : s.Delivery) :
    (relayAct s action).Delivery := by
  have hmove := relayAct_move s action
  generalize relayAct s action = t at hmove
  cases hmove with
  | quiet hquiet => exact h.of_quiet hquiet
  | begun c request slot hidle hlt hfree => exact h.begun request hidle hlt hfree
  | filled i a hfills => exact h.filled hfills
  | finished c call hcall => exact h.finished hcall
  | answered a => exact h.answered honce

theorem relaySystemCreate_delivery : relaySystemCreate.Delivery := by
  refine ⟨kwinRelayCreate_sound, ?_, ?_, ?_, ?_, ?_, List.nodup_nil, ?_, ?_⟩
  · intro c hold hheld
    cases hheld
  · intro c d hold hold' hheld
    cases hheld
  · intro i hactive
    have hslot : kwinRelayCreate.slot i = {} := Slots.getD_replicate _ _
    rw [show relaySystemCreate.relay = kwinRelayCreate from rfl, hslot] at hactive
    cases hactive
  · intro c a ha
    cases ha
  · intro c d a ha
    cases ha
  · intro c past hpast
    cases hpast
  · intro _ c past hpast
    cases hpast

end Holds

section Demultiplexed

/-- What the callers of a relay may rely on. An answer is the peer's own to the id of the call that
returns it, and reaches nobody else; an answer that no call in progress waits for is dropped, which
those to the ids of calls that have returned are for as long as the ids do not come round; and a
call that the relay itself calls busy has written nothing. -/
structure RelaySystem.Demultiplexed (s : RelaySystem) : Prop where
  own : ∀ c call result, s.callers c = .returned call result true →
    ∃ a ∈ s.answers, (s.callers c).received = some a ∧ a.id = call.requestId ∧
      answerResult a = some result ∧ (∀ b ∈ s.answers, b.id = call.requestId → b = a) ∧
      ∀ d, (s.callers d).received = some a → d = c
  late : ∀ (a : PeerAnswer) (rest : Bytes),
    (∀ c call, s.callers c = .calling call → call.requestId ≠ a.id) →
    (readOne s.relay (a.frame.bytes ++ rest) a.fd).relay = s.relay
  abandoned : s.relay.nextRequestId ≤ 2 ^ 64 → ∀ c call result answered,
    s.callers c = .returned call result answered → ∀ (a : PeerAnswer) (rest : Bytes),
    a.id = call.requestId → (readOne s.relay (a.frame.bytes ++ rest) a.fd).relay = s.relay
  refused : ∀ c result, s.callers c = .refused result → s.written c = 0
  busy : ∀ c call result, s.callers c = .returned call result false →
    result.status = Status.busy → s.written c = 0
  oneWriter : ∀ c d, (s.callers c).writes → (s.callers d).writes → c = d
  oneReader : ∀ c d, (s.callers c).reads → (s.callers d).reads → c = d

variable {s : RelaySystem}

theorem RelaySystem.Delivery.own (h : s.Delivery) {c : ℕ} {call : RelayCall} {result : OperationResult}
    (hreturned : s.callers c = .returned call result true) :
    ∃ a ∈ s.answers, (s.callers c).received = some a ∧ a.id = call.requestId ∧
      answerResult a = some result ∧ (∀ b ∈ s.answers, b.id = call.requestId → b = a) ∧
      ∀ d, (s.callers d).received = some a → d = c := by
  have hpast : (s.callers c).past = some ⟨call.requestId, call.answer, result, true⟩ := by
    rw [hreturned]
    rfl
  obtain ⟨a, hanswer, hid, hresult⟩ := h.past c _ hpast rfl
  have hreceived : (s.callers c).received = some a := (Caller.received_of_past hpast).trans hanswer
  have hmem : a ∈ s.answers := List.mem_append_left _ (h.taken c a hreceived)
  refine ⟨a, hmem, hreceived, hid, hresult, ?_, ?_⟩
  · intro b hb hb'
    exact List.inj_on_of_nodup_map h.once hb hmem (hb'.trans hid.symm)
  · intro d hd
    exact h.alone d c a hd hreceived

/-- A slot that awaits an id belongs to a call in progress with that id. -/
theorem RelaySystem.Delivery.awaited (h : s.Delivery) {id : BitVec 64} {i : ℕ}
    (hwait : awaiting id (s.relay.slot i)) : ∃ c call, s.callers c = .calling call ∧ call.requestId = id := by
  simp only [awaiting, Bool.and_eq_true, beq_iff_eq] at hwait
  obtain ⟨c, hold, hheld, hslot⟩ := h.owned i hwait.1.1
  have hid := (h.held c hold hheld).requestId
  rw [hslot, hwait.2] at hid
  cases hcaller : s.callers c with
  | calling call =>
    rw [hcaller] at hheld
    cases hheld
    exact ⟨c, call, hcaller, hid.symm⟩
  | _ =>
    rw [hcaller] at hheld
    cases hheld

/-- Along every run of any number of callers, against a peer that answers no id twice. -/
theorem relay_demultiplexed {actions : List RelayAction} {t : RelaySystem}
    (hrun : Run (Restrict (fun s action t => relayAct s action = t) AnswersOnce) relaySystemCreate actions t) :
    t.Demultiplexed := by
  have hdelivery : t.Delivery := by
    apply hrun.invariant (I := RelaySystem.Delivery) _ relaySystemCreate_delivery
    intro s action t h hstep
    rw [← hstep.1]
    exact relayAct_delivery hstep.2 h
  have hunwritten : t.Unwritten := by
    apply hrun.invariant (I := RelaySystem.Unwritten) _ fun _ => rfl
    intro s action t h hstep
    rw [← hstep.1]
    exact relayAct_unwritten h action
  have hroles : t.Roles := by
    apply hrun.invariant (I := RelaySystem.Roles) _ ⟨⟨nofun, nofun⟩, ⟨nofun, nofun⟩⟩
    intro s action t h hstep
    rw [← hstep.1]
    exact relayAct_roles h action
  constructor
  · intro c call result hreturned
    exact hdelivery.own hreturned
  · intro a rest hfree
    apply readOne_unawaited
    intro i
    rw [Bool.eq_false_iff]
    intro hwait
    obtain ⟨c, call, hcall, hid⟩ := hdelivery.awaited hwait
    exact hfree c call hcall hid
  · intro hids c call result answered hreturned a rest hid
    apply readOne_unawaited
    intro i
    rw [Bool.eq_false_iff]
    intro hwait
    have hpast : (t.callers c).past = some ⟨call.requestId, call.answer, result, answered⟩ := by
      rw [hreturned]
      rfl
    simp only [awaiting, Bool.and_eq_true, beq_iff_eq] at hwait
    exact (hdelivery.gone hids c _ hpast).2 i hwait.1.1 (hwait.2.trans hid)
  · intro c result hrefused
    have hc := hunwritten c
    rw [hrefused] at hc
    exact hc
  · intro c call result hreturned hbusy
    have hc := hunwritten c
    rw [hreturned] at hc
    exact hc rfl hbusy
  · exact hroles.writer.one
  · exact hroles.reader.one

instance AnswersOnce.decidable (s : RelaySystem) : ∀ action, Decidable (AnswersOnce s action)
  | .answer a => inferInstanceAs (Decidable (∀ b ∈ s.answers, b.id ≠ a.id))
  | .start .. | .pack .. | .claim .. | .transfer .. | .endWrite _ | .takeReader .. | .readNothing ..
  | .readFrame _ | .endRead _ | .finish _ | .retire => isTrue trivial

def focusCall : Frame := ⟨frameMagic, protocolMajor, protocolMinor, Op.windowFocus, 0, 9, encodeU64 7⟩

/-- An empty success, for the given id. -/
def plainAnswer (requestId : BitVec 64) : PeerAnswer :=
  ⟨answerOf requestId (resultTake []), none, rfl, by show 8 < 2 ^ 32; decide⟩

/-- A call that writes its request. -/
def sendCall (c : ℕ) : List RelayAction :=
  [.start c focusCall, .pack c true, .claim c true, .transfer c 100, .endWrite c]

/-- The first call gives up; the second takes over its slot and reads both answers. -/
def lateAnswer : List RelayAction :=
  sendCall 0 ++ [.finish 0] ++ sendCall 1 ++ [.answer (plainAnswer 1), .answer (plainAnswer 2),
    .takeReader 1 true, .readFrame 1, .endRead 1, .takeReader 1 true, .readFrame 1, .endRead 1, .finish 1]

theorem lateAnswer_demultiplexed :
    (lateAnswer.foldl relayAct relaySystemCreate).Demultiplexed ∧
      ((lateAnswer.foldl relayAct relaySystemCreate).callers 0).received = none ∧
      ((lateAnswer.foldl relayAct relaySystemCreate).callers 1).received = some (plainAnswer 2) :=
  ⟨relay_demultiplexed (Run.of_admitted (by decide +kernel)), by decide +kernel, by decide +kernel⟩

end Demultiplexed

end KeysharpDesktop
