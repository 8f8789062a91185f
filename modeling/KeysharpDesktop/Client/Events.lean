import KeysharpDesktop.Client.Connection
import KeysharpDesktop.Lib.Transition

/-! Events on a lease connection: whatever is under way and however it arrives, the client's reader
gets the state events of the stream in their order, and each request gets its response. -/
namespace KeysharpDesktop.Client

open Transition

/-- The frame of a state event. -/
def stateFrame (payload : Bytes) : Frame :=
  ⟨frameMagic, protocolMajor, protocolMinor, Op.stateEvent, flagEvent, 0, payload⟩

def eventOf (frame : Frame) : EventStruct := (eventStructDecode frame.payload).2

/-- A payload that the service may send as a state event. -/
def validEvent (payload : Bytes) : Bool := (eventStructDecode payload).1 && payload.length ≤ maxResponse

/-- A frame that the service may send as the response to a request. -/
def validResponse (opcode : Opcode) (requestId : BitVec 64) (frame : Frame) : Bool :=
  frame.magic == frameMagic && frame.payload.length ≤ maxResponse && frameHeaderAcceptable clientRules frame.header &&
    frame.flags &&& flagEvent == 0 &&
    (parseResponse frame opcode requestId).any fun parsed =>
      !(parsed.1.status == Status.ok && stateMutatesWindows opcode && parsed.1.tail.length < 8)

/-- A request or its response: the opcode, the id, and the frame that answers it. -/
structure Answer where
  opcode : Opcode
  requestId : BitVec 64
  frame : Frame
  deriving DecidableEq, Repr

/-- A lease connection and the service at its other end, with what both have done so far. -/
structure Exchange where
  connection : Connection
  pending : List Bytes
  /-- Written by the service and not arrived yet. -/
  outgoing : Bytes
  /-- The request that `read_response` is waiting for. -/
  waiting : Option (Opcode × BitVec 64)
  answered : Bool
  emitted : List Frame
  returned : List EventStruct
  responses : List Answer
  replies : List Answer

inductive Act
  | emit (payload : Bytes)
  | respond (frame : Frame)
  | arrive (count : ℕ)
  | request (opcode : Opcode)
  | await
  | expire
  | next

def nextRequestId (c : Connection) : BitVec 64 :=
  if c.nextRequestId + 1 == 0 then 1 else c.nextRequestId + 1

namespace Exchange

/-- The service writes a state event, at any time. -/
def emit (x : Exchange) (payload : Bytes) : Exchange :=
  if validEvent payload then
    { x with
      outgoing := x.outgoing ++ (stateFrame payload).bytes
      emitted := x.emitted ++ [stateFrame payload] }
  else x

/-- The service writes the one response to the request that is outstanding. -/
def respond (x : Exchange) (frame : Frame) : Exchange :=
  match x.waiting with
  | none => x
  | some (opcode, requestId) =>
    if !x.answered && validResponse opcode requestId frame then
      { x with
        outgoing := x.outgoing ++ frame.bytes
        answered := true
        responses := x.responses ++ [⟨opcode, requestId, frame⟩] }
    else x

/-- Some of what is under way arrives in one segment; no bytes are a wake-up with nothing to read. -/
def arrive (x : Exchange) (count : ℕ) : Exchange :=
  { x with pending := x.pending ++ [x.outgoing.take count], outgoing := x.outgoing.drop count }

/-- `request`: the frames of the request are written, and its response is awaited. -/
def request (x : Exchange) (opcode : Opcode) : Exchange :=
  if x.waiting.isSome then x
  else
    let requestId := nextRequestId x.connection
    let connection := { x.connection with nextRequestId := requestId }
    if !connection.connected then { x with connection }
    else { x with connection, waiting := some (opcode, requestId), answered := false }

def await (x : Exchange) : Exchange :=
  match x.waiting with
  | none => x
  | some (opcode, requestId) =>
    let (connection, s, reply) := responsePass opcode requestId x.connection ⟨x.pending, false⟩
    { x with
      connection
      pending := s.pending
      waiting := if reply.isSome then none else x.waiting
      replies := x.replies ++ ((reply.bind Reply.response).map fun response =>
        (⟨opcode, requestId, response.frame⟩ : Answer)).toList }

/-- The deadline of the request passes. -/
def expire (x : Exchange) : Exchange :=
  match x.waiting with
  | none => x
  | some _ =>
    { x with
      connection := (failedReply x.connection .timedOut "desktop service response timed out").1
      waiting := none }

def next (x : Exchange) : Exchange :=
  if x.waiting.isSome then x
  else
    let (connection, s, result) := stateNext x.connection ⟨x.pending, false⟩
    { x with
      connection
      pending := s.pending
      returned := x.returned ++ match result with
        | .event event => [event]
        | _ => [] }

def act (x : Exchange) : Act → Exchange
  | .emit payload => x.emit payload
  | .respond frame => x.respond frame
  | .arrive count => x.arrive count
  | .request opcode => x.request opcode
  | .await => x.await
  | .expire => x.expire
  | .next => x.next

/-- A lease connection that has just been made. -/
def start : Exchange :=
  ⟨⟨.authorizationLease, true, 0, 0, 0, bufferInit (maxResponse + frameHeaderSize), [], 0, 0⟩, [], [], none, false,
    [], [], [], []⟩

end Exchange

section Stream

/-- The frames that are still to be read: what is left of the first in the input, the others behind it. -/
structure Incoming (input : Buffer) (pending : List Bytes) (outgoing : Bytes) (frames : List Frame) : Prop where
  stream : input.data ++ (pending.flatten ++ outgoing) = frames.flatMap Frame.bytes
  part : ∀ frame ∈ frames.head?, input.data.length < frame.bytes.length
  maximum : input.maximum = maxResponse + frameHeaderSize
  sized : ∀ frame ∈ frames, frame.Sized
  acceptable : ∀ frame ∈ frames, frame.Acceptable clientRules

variable {c : Connection} {input : Buffer} {pending : List Bytes} {outgoing : Bytes} {frames : List Frame}
  {frame : Frame}

theorem Incoming.input_nil (h : Incoming input pending outgoing []) :
    input.data = [] ∧ pending.flatten = [] ∧ outgoing = [] := by
  have hstream := h.stream
  simpa using hstream

theorem bytes_pos (h : frame.Sized) : 0 < frame.bytes.length := by
  rw [h.length_bytes, frameHeaderSize]
  omega

/-- Nothing is received while nothing is under way. -/
theorem receiveEventLoop_idle {s : Socket} (turns : ℕ) (hinput : input.data = []) (hpending : s.pending.flatten = [])
    (hended : s.ended = false) :
    ∃ t, receiveEventLoop (turns + 1) input s = (.again, input, t) ∧ t.pending.flatten = [] ∧ t.ended = false ∧
      (s.pending = [] ∧ t.pending = [] ∨ Stream.size t.pending < Stream.size s.pending) := by
  have hshort : ¬frameHeaderSize ≤ input.data.length := by
    rw [hinput, frameHeaderSize]
    exact Nat.not_succ_le_zero 23
  rw [receiveEventLoop_succ]
  simp only [hshort, decide_false, Bool.false_and, Bool.false_eq_true, if_false, receiveMore]
  rcases hrecv : s.recv (min (frameHeaderSize - input.data.length) 8192) with ⟨bytes | _ | _, t⟩
  · have hn : 0 < min (frameHeaderSize - input.data.length) 8192 := by omega
    unfold Socket.recv at hrecv
    split_ifs at hrecv with hidle
    · cases hrecv
    · rcases hstream : Stream.recv (min (frameHeaderSize - input.data.length) 8192) s.pending with ⟨receipt, rest⟩
      rw [hstream] at hrecv
      cases hrecv
      obtain ⟨hne, -, hsplit, -⟩ := Stream.recv_data hn hstream
      rw [hpending] at hsplit
      exact absurd (List.append_eq_nil_iff.mp hsplit.symm).1 hne
  · obtain ⟨hsame, hend, hfewer⟩ := Socket.recv_again hrecv
    exact ⟨t, rfl, by rw [hsame, hpending], by rw [hend, hended], hfewer⟩
  · rw [(Socket.recv_closed hrecv).2] at hended
    cases hended

/-- A try to receive takes the first frame that is still to be read, or none. -/
theorem receiveEventFrame_incoming (h : Incoming c.input pending outgoing frames) :
    ∃ arrival input t, receiveEventFrame c ⟨pending, false⟩ = (arrival, { c with input }, t) ∧
      (arrival = .again ∧ Incoming input t.pending outgoing frames ∧
          (pending = [] ∧ t.pending = [] ∨ Stream.size t.pending < Stream.size pending) ∨
        ∃ frame rest, frames = frame :: rest ∧ arrival = .frame frame ∧ Incoming input t.pending outgoing rest ∧
          Stream.size t.pending < Stream.size pending) := by
  cases frames with
  | nil =>
    obtain ⟨hinput, hpending, houtgoing⟩ := h.input_nil
    obtain ⟨t, hloop, hnone, -, hfewer⟩ := receiveEventLoop_idle (s := ⟨pending, false⟩) (Stream.size pending + 1) hinput
      hpending rfl
    refine ⟨.again, c.input, t, ?_, Or.inl ⟨rfl, ⟨?_, nofun, h.maximum, nofun, nofun⟩, hfewer⟩⟩
    · simp only [receiveEventFrame, hloop]
    · rw [hinput, hnone, houtgoing]
      rfl
  | cons frame rest =>
    have hsized := h.sized frame List.mem_cons_self
    have hok := h.acceptable frame List.mem_cons_self
    have hpart := h.part frame rfl
    have hroom : frame.bytes.length ≤ c.input.maximum := by
      rw [h.maximum, hsized.length_bytes, Nat.add_comm]
      exact Nat.add_le_add_right hok.length _
    obtain ⟨arrival, input, t, hloop, hreceived⟩ := receiveEventLoop_received (s := ⟨pending, false⟩) hsized hok
      (Nat.lt_add_of_pos_right Nat.two_pos) nofun hroom (Nat.le_of_lt hpart) h.stream
    refine ⟨arrival, input, t, by simp only [receiveEventFrame, hloop], ?_⟩
    have hmaximum : input.maximum = maxResponse + frameHeaderSize := by rw [hreceived.maximum, h.maximum]
    rcases hreceived.outcome with ⟨hframe, hinput, hleft, hfewer⟩ | ⟨hagain, hshort, hsame, hfewer⟩
    · refine Or.inr ⟨frame, rest, rfl, hframe, ⟨?_, ?_, hmaximum, ?_, ?_⟩, ?_⟩
      · rw [hinput, List.nil_append, hleft]
        rfl
      · intro following hfollowing
        rw [hinput]
        exact bytes_pos (h.sized following (List.mem_cons_of_mem _ (List.mem_of_mem_head? hfollowing)))
      · exact fun other hother => h.sized other (List.mem_cons_of_mem _ hother)
      · exact fun other hother => h.acceptable other (List.mem_cons_of_mem _ hother)
      · rcases hfewer with ⟨hwhole, -⟩ | hfewer
        · rw [hwhole] at hpart
          omega
        · exact hfewer
    · refine Or.inl ⟨hagain, ⟨?_, ?_, hmaximum, h.sized, h.acceptable⟩, hfewer⟩
      · rw [hsame]
        rfl
      · intro following hfollowing
        cases hfollowing
        exact hshort

theorem Incoming.append (h : Incoming input pending outgoing frames) (hsized : frame.Sized)
    (hok : frame.Acceptable clientRules) : Incoming input pending (outgoing ++ frame.bytes) (frames ++ [frame]) where
  stream := by
    rw [List.flatMap_append, ← h.stream]
    simp
  part first hfirst := by
    cases frames with
    | nil =>
      cases hfirst
      rw [h.input_nil.1]
      exact bytes_pos hsized
    | cons head rest => exact h.part first hfirst
  maximum := h.maximum
  sized other hother := by
    rcases List.mem_append.mp hother with hother | hother
    · exact h.sized other hother
    · rw [List.mem_singleton.mp hother]
      exact hsized
  acceptable other hother := by
    rcases List.mem_append.mp hother with hother | hother
    · exact h.acceptable other hother
    · rw [List.mem_singleton.mp hother]
      exact hok

theorem Incoming.arrive (h : Incoming input pending outgoing frames) (count : ℕ) :
    Incoming input (pending ++ [outgoing.take count]) (outgoing.drop count) frames where
  stream := by
    rw [← h.stream]
    simp
  part := h.part
  maximum := h.maximum
  sized := h.sized
  acceptable := h.acceptable

end Stream

section Handling

variable {c : Connection} {frame : Frame} {opcode : Opcode} {requestId : BitVec 64}

/-- A state event of the service. -/
def IsState (frame : Frame) : Prop := ∃ payload, validEvent payload ∧ frame = stateFrame payload

/-- Events are told from responses by their flag. -/
def isEvent (frame : Frame) : Bool := frame.flags &&& flagEvent != 0

theorem IsState.isEvent (h : IsState frame) : isEvent frame := by
  obtain ⟨payload, -, rfl⟩ := h
  simp only [Client.isEvent, stateFrame]
  decide

theorem IsState.decode (h : IsState frame) : eventStructDecode frame.payload = (true, eventOf frame) := by
  obtain ⟨payload, hvalid, rfl⟩ := h
  have htrue : (eventStructDecode payload).1 = true := (Bool.and_eq_true_iff.mp hvalid).1
  exact Prod.ext htrue rfl

theorem IsState.sized (h : IsState frame) : frame.Sized := by
  obtain ⟨payload, hvalid, rfl⟩ := h
  have hmax : maxResponse < 2 ^ 32 := by decide
  have hle : payload.length ≤ maxResponse := of_decide_eq_true (Bool.and_eq_true_iff.mp hvalid).2
  exact ⟨rfl, Nat.lt_of_le_of_lt hle hmax⟩

theorem IsState.acceptable (h : IsState frame) : frame.Acceptable clientRules := by
  obtain ⟨payload, hvalid, rfl⟩ := h
  have hle : payload.length ≤ maxResponse := of_decide_eq_true (Bool.and_eq_true_iff.mp hvalid).2
  have hheader : validPublicHeader (stateFrame []) = true := by decide
  exact ⟨rfl, rfl, rfl, hle, fun _ => hheader⟩

/-- The queue has no room for another event. -/
def Exceeds (c : Connection) (frame : Frame) : Prop :=
  c.queued.length = maxEvents ∨ maxEventBytes < c.queuedBytes + frame.payload.length

/-- The counters say what is queued, and the queue keeps its bounds. -/
structure Counted (c : Connection) : Prop where
  count : c.queuedCount = c.queued.length
  bytes : c.queuedBytes = (c.queued.map fun frame => frame.payload.length).sum
  few : c.queued.length ≤ maxEvents
  small : c.queuedBytes ≤ maxEventBytes

/-- An event that comes while a response is awaited is queued, or it is the end of the connection. -/
theorem acceptEvent_state (hcounted : Counted c) (h : IsState frame) :
    (Exceeds c frame ∧ ∃ reply, acceptEvent c frame = ({ c with connected := false }, some reply) ∧
      reply.response = none) ∨
    (¬Exceeds c frame ∧ ∃ scopes, acceptEvent c frame =
      ({ c with
        grantedScopes := scopes
        queuedCount := c.queuedCount + 1
        queuedBytes := c.queuedBytes + frame.payload.length
        queued := c.queued ++ [frame] }, none)) := by
  have hopcode : (frame.opcode == Op.stateEvent) = true := by
    obtain ⟨payload, -, rfl⟩ := h
    rfl
  have hfew := hcounted.few
  have hsmall := hcounted.small
  have hguard : (decide (maxEvents ≤ c.queuedCount) ||
      decide (maxEventBytes - c.queuedBytes < frame.payload.length)) = true ↔ Exceeds c frame := by
    rw [Bool.or_eq_true, decide_eq_true_eq, decide_eq_true_eq, hcounted.count, Exceeds]
    omega
  by_cases hfull : Exceeds c frame
  · refine Or.inl ⟨hfull, ?_⟩
    simp only [acceptEvent, hopcode, queueEvent, hguard.mpr hfull, if_true, failedReply, systemFailure]
    exact ⟨_, rfl, rfl⟩
  · refine Or.inr ⟨hfull, ?_⟩
    have hroom := mt hguard.mp hfull
    simp only [acceptEvent, hopcode, queueEvent, hroom, if_true, h.decode]
    exact ⟨_, rfl⟩

theorem nextFrame_state (c : Connection) (h : IsState frame) :
    ∃ scopes, nextFrame c frame = ({ c with grantedScopes := scopes }, .event (eventOf frame)) := by
  have hdecode := h.decode
  obtain ⟨payload, -, rfl⟩ := h
  have hrevoked : ((stateFrame payload).opcode == sessionRevoked) = false := rfl
  have hexpected : ((stateFrame payload).opcode != Op.stateEvent || (stateFrame payload).flags != flagEvent ||
      (stateFrame payload).requestId != 0) = false := rfl
  simp only [nextFrame, hrevoked, hexpected, Bool.false_eq_true, if_false, hdecode]
  exact ⟨_, rfl⟩

theorem parseResponse_eq_some {response : Response} {error : Error}
    (h : parseResponse frame opcode requestId = some (response, error)) : response.frame = frame := by
  unfold parseResponse at h
  split at h
  · cases h
  · obtain ⟨⟨status, c₁⟩, -, h⟩ := Option.bind_eq_some_iff.mp h
    obtain ⟨⟨detail, c₂⟩, -, h⟩ := Option.bind_eq_some_iff.mp h
    dsimp only at h
    split at h
    · cases h
    · split at h
      · cases h
        rfl
      · split at h
        · cases h
        · obtain ⟨message, -, h⟩ := Option.bind_eq_some_iff.mp h
          cases h
          rfl

theorem answerResponse_valid (c : Connection) (h : validResponse opcode requestId frame) :
    ∃ sequence reply response, answerResponse c opcode requestId frame = ({ c with sequence }, reply) ∧
      reply.response = some response ∧ response.frame = frame := by
  have hparsed := (Bool.and_eq_true_iff.mp h).2
  obtain ⟨⟨response, error⟩, hparse, htail⟩ := (Option.any_eq_true _ _).mp hparsed
  have hframe := parseResponse_eq_some hparse
  simp only [answerResponse, hparse]
  by_cases hmutates : (response.status == Status.ok && stateMutatesWindows opcode) = true
  · rw [hmutates, Bool.true_and, Bool.not_eq_true', decide_eq_false_iff_not] at htail
    rw [if_pos hmutates, if_neg htail]
    exact ⟨_, _, _, rfl, rfl, hframe⟩
  · rw [if_neg hmutates]
    exact ⟨c.sequence, _, _, rfl, rfl, hframe⟩

theorem validResponse_flags (h : validResponse opcode requestId frame) : isEvent frame = false := by
  have hflags := (Bool.and_eq_true_iff.mp (Bool.and_eq_true_iff.mp h).1).2
  rw [isEvent, bne, hflags]
  rfl

theorem validResponse_sized (h : validResponse opcode requestId frame) : frame.Sized := by
  have hhead := (Bool.and_eq_true_iff.mp (Bool.and_eq_true_iff.mp (Bool.and_eq_true_iff.mp h).1).1).1
  obtain ⟨hmagic, hlength⟩ := Bool.and_eq_true_iff.mp hhead
  have hmax : maxResponse < 2 ^ 32 := by decide
  refine ⟨?_, Nat.lt_of_le_of_lt (of_decide_eq_true hlength) hmax⟩
  rw [beq_iff_eq.mp hmagic]
  rfl

theorem validResponse_acceptable (h : validResponse opcode requestId frame) : frame.Acceptable clientRules :=
  (frameHeaderAcceptable_iff (validResponse_sized h)).mp
    (Bool.and_eq_true_iff.mp (Bool.and_eq_true_iff.mp (Bool.and_eq_true_iff.mp h).1).1).2

end Handling

section Invariant

/-- While the connection lasts, every event is returned, queued or still to be read, and at most one
response is still to be read: the one that is awaited. -/
structure Live (x : Exchange) (taken frames : List Frame) (due : Option Answer) : Prop where
  role : x.connection.role ≠ .rpc
  incoming : Incoming x.connection.input x.pending x.outgoing frames
  states : ∀ frame ∈ frames, isEvent frame → IsState frame
  events : x.emitted = taken ++ (x.connection.queued ++ frames.filter isEvent)
  answers : x.responses = x.replies ++ due.toList
  frames_due : frames.filter (fun frame => !isEvent frame) = due.toList.map Answer.frame
  waiting_due : ∀ answer ∈ due, x.waiting = some (answer.opcode, answer.requestId) ∧ x.answered = true ∧
    validResponse answer.opcode answer.requestId answer.frame

/-- What is true of every exchange; `taken` are the frames of the events that were returned. -/
structure Sound (x : Exchange) (taken : List Frame) : Prop where
  counted : Counted x.connection
  states : ∀ frame ∈ x.connection.queued, IsState frame
  returned : x.returned = taken.map eventOf
  unread : ∃ unread, x.emitted = taken ++ (x.connection.queued ++ unread)
  replies : x.replies <+: x.responses
  closed : x.connection.connected = false → x.waiting = none
  live : x.connection.connected = true → ∃ frames due, Live x taken frames due

variable {x : Exchange} {taken frames : List Frame} {due : Option Answer}

theorem Live.sound (h : Live x taken frames due) (hcounted : Counted x.connection)
    (hstates : ∀ frame ∈ x.connection.queued, IsState frame) (hreturned : x.returned = taken.map eventOf)
    (hconnected : x.connection.connected = true) : Sound x taken where
  counted := hcounted
  states := hstates
  returned := hreturned
  unread := ⟨_, h.events⟩
  replies := ⟨_, h.answers.symm⟩
  closed hclosed := by
    rw [hconnected] at hclosed
    cases hclosed
  live _ := ⟨frames, due, h⟩

theorem start_sound : Sound Exchange.start [] := by
  have hlive : Live Exchange.start [] [] none :=
    ⟨nofun, ⟨rfl, nofun, rfl, nofun, nofun⟩, nofun, rfl, rfl, rfl, nofun⟩
  exact hlive.sound ⟨rfl, rfl, Nat.zero_le _, Nat.zero_le _⟩ nofun rfl rfl

/-- The service may add to what is under way. -/
theorem emit_sound (h : Sound x taken) (payload : Bytes) : Sound (x.emit payload) taken := by
  unfold Exchange.emit
  split_ifs with hvalid
  · have hstate : IsState (stateFrame payload) := ⟨payload, hvalid, rfl⟩
    by_cases hconnected : x.connection.connected = true
    · obtain ⟨frames, due, hlive⟩ := h.live hconnected
      have hnew : Live { x with
          outgoing := x.outgoing ++ (stateFrame payload).bytes
          emitted := x.emitted ++ [stateFrame payload] } taken (frames ++ [stateFrame payload]) due := by
        refine ⟨hlive.role, hlive.incoming.append hstate.sized hstate.acceptable, ?_, ?_, hlive.answers, ?_,
          hlive.waiting_due⟩
        · intro frame hframe hevent
          rcases List.mem_append.mp hframe with hframe | hframe
          · exact hlive.states frame hframe hevent
          · rw [List.mem_singleton.mp hframe]
            exact hstate
        · simp [hlive.events, hstate.isEvent]
        · simp [hlive.frames_due, hstate.isEvent]
      exact hnew.sound h.counted h.states h.returned hconnected
    · obtain ⟨unread, hunread⟩ := h.unread
      refine ⟨h.counted, h.states, h.returned, ⟨unread ++ [stateFrame payload], ?_⟩, h.replies, h.closed,
        fun hopen => absurd hopen hconnected⟩
      simp [hunread]
  · exact h

theorem respond_sound (h : Sound x taken) (frame : Frame) : Sound (x.respond frame) taken := by
  unfold Exchange.respond
  split
  · exact h
  · next opcode requestId hwaiting =>
    split_ifs with hguard
    · obtain ⟨hanswered, hvalid⟩ := Bool.and_eq_true_iff.mp hguard
      have hconnected : x.connection.connected = true := by
        by_contra hclosed
        rw [h.closed (Bool.not_eq_true _ ▸ hclosed)] at hwaiting
        cases hwaiting
      obtain ⟨frames, due, hlive⟩ := h.live hconnected
      obtain rfl : due = none := by
        cases due with
        | none => rfl
        | some answer =>
          rw [(hlive.waiting_due answer rfl).2.1] at hanswered
          cases hanswered
      have hresponse := validResponse_flags hvalid
      have hnew : Live { x with
          outgoing := x.outgoing ++ frame.bytes
          answered := true
          responses := x.responses ++ [⟨opcode, requestId, frame⟩] } taken (frames ++ [frame])
          (some ⟨opcode, requestId, frame⟩) := by
        refine ⟨hlive.role, hlive.incoming.append (validResponse_sized hvalid) (validResponse_acceptable hvalid),
          ?_, ?_, ?_, ?_, ?_⟩
        · intro other hother hevent
          rcases List.mem_append.mp hother with hother | hother
          · exact hlive.states other hother hevent
          · rw [List.mem_singleton.mp hother, hresponse] at hevent
            cases hevent
        · simp [hlive.events, hresponse]
        · simp [hlive.answers]
        · simp [hlive.frames_due, hresponse]
        · intro answer hanswer
          cases hanswer
          exact ⟨hwaiting, rfl, hvalid⟩
      exact hnew.sound h.counted h.states h.returned hconnected
    · exact h

theorem arrive_sound (h : Sound x taken) (count : ℕ) : Sound (x.arrive count) taken where
  counted := h.counted
  states := h.states
  returned := h.returned
  unread := h.unread
  replies := h.replies
  closed := h.closed
  live hconnected := by
    obtain ⟨frames, due, hlive⟩ := h.live hconnected
    exact ⟨frames, due, hlive.role, hlive.incoming.arrive count, hlive.states, hlive.events, hlive.answers,
      hlive.frames_due, hlive.waiting_due⟩

theorem request_sound (h : Sound x taken) (opcode : Opcode) : Sound (x.request opcode) taken := by
  have hcounted : Counted { x.connection with nextRequestId := nextRequestId x.connection } :=
    ⟨h.counted.count, h.counted.bytes, h.counted.few, h.counted.small⟩
  unfold Exchange.request
  by_cases hwaiting : x.waiting.isSome = true
  · rw [if_pos hwaiting]
    exact h
  · rw [if_neg hwaiting]
    by_cases hconnected : x.connection.connected = true
    · obtain ⟨frames, due, hlive⟩ := h.live hconnected
      obtain rfl : due = none := by
        cases due with
        | none => rfl
        | some answer =>
          rw [(hlive.waiting_due answer rfl).1] at hwaiting
          exact absurd rfl hwaiting
      have hnew : Live { x with
          connection := { x.connection with nextRequestId := nextRequestId x.connection }
          waiting := some (opcode, nextRequestId x.connection)
          answered := false } taken frames none :=
        ⟨hlive.role, hlive.incoming, hlive.states, hlive.events, hlive.answers, hlive.frames_due, nofun⟩
      have hopen : ¬(!x.connection.connected) = true := by simp [hconnected]
      dsimp only
      rw [if_neg hopen]
      exact hnew.sound hcounted h.states h.returned hconnected
    · have hclosed : (!x.connection.connected) = true := by simpa using hconnected
      dsimp only
      rw [if_pos hclosed]
      exact ⟨hcounted, h.states, h.returned, h.unread, h.replies, h.closed, fun hopen => absurd hopen hconnected⟩

/-- A connection may fail, and keeps what it has. -/
theorem Sound.fail {y : Exchange} (h : Sound x taken) (hqueued : y.connection.queued = x.connection.queued)
    (hcounted : Counted y.connection) (hclosed : y.connection.connected = false) (hwaiting : y.waiting = none)
    (hemitted : y.emitted = x.emitted) (hreturned : y.returned = x.returned) (hreplies : y.replies = x.replies)
    (hresponses : y.responses = x.responses) : Sound y taken where
  counted := hcounted
  states := by
    rw [hqueued]
    exact h.states
  returned := by rw [hreturned, h.returned]
  unread := by
    rw [hemitted, hqueued]
    exact h.unread
  replies := by
    rw [hreplies, hresponses]
    exact h.replies
  closed _ := hwaiting
  live hopen := by
    rw [hclosed] at hopen
    cases hopen

theorem expire_sound (h : Sound x taken) : Sound x.expire taken := by
  unfold Exchange.expire
  split
  · exact h
  · exact h.fail rfl ⟨h.counted.count, h.counted.bytes, h.counted.few, h.counted.small⟩ rfl rfl rfl rfl rfl rfl

/-- What a pass of `read_response` may come to. -/
inductive Awaited (x : Exchange) (frames : List Frame) (due : Option Answer) : Exchange → Prop
  | again {input : Buffer} {pending : List Bytes} (incoming : Incoming input pending x.outgoing frames)
      (fewer : x.pending = [] ∧ pending = [] ∨ Stream.size pending < Stream.size x.pending) :
      Awaited x frames due { x with connection := { x.connection with input }, pending }
  | queued {frame : Frame} {rest : List Frame} {input : Buffer} {pending : List Bytes} {scopes : Scopes}
      (first : frames = frame :: rest) (state : IsState frame) (room : ¬Exceeds x.connection frame)
      (incoming : Incoming input pending x.outgoing rest)
      (fewer : Stream.size pending < Stream.size x.pending) :
      Awaited x frames due { x with
        connection := { x.connection with
          input
          grantedScopes := scopes
          queuedCount := x.connection.queuedCount + 1
          queuedBytes := x.connection.queuedBytes + frame.payload.length
          queued := x.connection.queued ++ [frame] }
        pending }
  | exceeded {frame : Frame} {rest : List Frame} {input : Buffer} {pending : List Bytes}
      (first : frames = frame :: rest) (state : IsState frame) (full : Exceeds x.connection frame) :
      Awaited x frames due { x with
        connection := { x.connection with input, connected := false }
        pending
        waiting := none }
  | answered {answer : Answer} {rest : List Frame} {input : Buffer} {pending : List Bytes} {sequence : BitVec 64}
      (expected : due = some answer) (first : frames = answer.frame :: rest)
      (incoming : Incoming input pending x.outgoing rest) :
      Awaited x frames due { x with
        connection := { x.connection with input, sequence }
        pending
        waiting := none
        replies := x.replies ++ [answer] }

theorem Live.response_due {frame : Frame} {rest : List Frame} (h : Live x taken (frame :: rest) due)
    (hresponse : isEvent frame = false) : ∃ answer, due = some answer ∧ answer.frame = frame := by
  have hframes := h.frames_due
  rw [List.filter_cons, hresponse] at hframes
  cases due with
  | none => cases hframes
  | some answer => exact ⟨answer, rfl, (List.cons.inj hframes).1.symm⟩

theorem await_cases (h : Live x taken frames due) (hcounted : Counted x.connection) {opcode : Opcode}
    {requestId : BitVec 64} (hwaiting : x.waiting = some (opcode, requestId)) : Awaited x frames due x.await := by
  obtain ⟨arrival, input, t, hreceive, houtcome⟩ := receiveEventFrame_incoming h.incoming
  obtain ⟨d, hd⟩ : ∃ d : Connection, d = { x.connection with input } := ⟨_, rfl⟩
  have hresponse : receiveResponse x.connection ⟨x.pending, false⟩ = (arrival, d, t) := by
    rw [receiveResponse, if_neg h.role, hreceive, hd]
  unfold Exchange.await
  rw [hwaiting]
  simp only [responsePass, hresponse]
  rcases houtcome with ⟨rfl, hincoming, hfewer⟩ | ⟨frame, rest, rfl, rfl, hincoming, hfewer⟩
  · subst hd
    simpa [hwaiting] using Awaited.again hincoming hfewer
  · by_cases hevent : isEvent frame = true
    · have hstate := h.states frame List.mem_cons_self hevent
      have hflag : (frame.flags &&& flagEvent != 0) = true := hevent
      have hcounted' : Counted d := by
        rw [hd]
        exact ⟨hcounted.count, hcounted.bytes, hcounted.few, hcounted.small⟩
      rcases acceptEvent_state hcounted' hstate with ⟨hfull, reply, haccept, hnone⟩ | ⟨hroom, scopes, haccept⟩
      · simp only [hflag, if_true, haccept]
        subst hd
        simpa [hnone] using Awaited.exceeded rfl hstate hfull
      · simp only [hflag, if_true, haccept]
        subst hd
        simpa [hwaiting] using Awaited.queued rfl hstate hroom hincoming hfewer
    · have hflag : (frame.flags &&& flagEvent != 0) = false := Bool.not_eq_true _ ▸ hevent
      obtain ⟨answer, rfl, rfl⟩ := h.response_due hflag
      obtain ⟨hrequest, -, hvalid⟩ := h.waiting_due answer rfl
      rw [hwaiting] at hrequest
      cases hrequest
      obtain ⟨sequence, reply, response, hanswer, hreply, hframe⟩ := answerResponse_valid d hvalid
      simp only [hflag, Bool.false_eq_true, if_false, hanswer]
      subst hd
      simpa [hreply, hframe] using Awaited.answered rfl rfl hincoming

/-- What a pass of `ksd_state_next` may come to. -/
inductive Polled (x : Exchange) (frames : List Frame) : Exchange → Prop
  | taken {frame : Frame} {queued : List Frame} {scopes : Scopes} (first : x.connection.queued = frame :: queued) :
      Polled x frames { x with
        connection := { x.connection with
          grantedScopes := scopes
          queuedCount := x.connection.queuedCount - 1
          queuedBytes := x.connection.queuedBytes - frame.payload.length
          queued }
        returned := x.returned ++ [eventOf frame] }
  | again {input : Buffer} {pending : List Bytes} (empty : x.connection.queued = [])
      (incoming : Incoming input pending x.outgoing frames)
      (fewer : x.pending = [] ∧ pending = [] ∨ Stream.size pending < Stream.size x.pending) :
      Polled x frames { x with connection := { x.connection with input }, pending }
  | received {frame : Frame} {rest : List Frame} {input : Buffer} {pending : List Bytes} {scopes : Scopes}
      (empty : x.connection.queued = []) (first : frames = frame :: rest) (state : IsState frame)
      (incoming : Incoming input pending x.outgoing rest)
      (fewer : Stream.size pending < Stream.size x.pending) :
      Polled x frames { x with
        connection := { x.connection with input, grantedScopes := scopes }
        pending
        returned := x.returned ++ [eventOf frame] }

/-- A queued event is returned whether the connection lasts or not. -/
theorem next_taken {frame : Frame} {queued : List Frame} (hwaiting : x.waiting = none)
    (hqueued : x.connection.queued = frame :: queued) (hstate : IsState frame) (frames : List Frame) :
    Polled x frames x.next := by
  obtain ⟨d, hd⟩ : ∃ d : Connection, d = { x.connection with
    queued
    queuedCount := x.connection.queuedCount - 1
    queuedBytes := x.connection.queuedBytes - frame.payload.length } := ⟨_, rfl⟩
  have htake : takeEvent x.connection = some (frame, d) := by
    rw [takeEvent, hqueued, hd]
  obtain ⟨scopes, hframe⟩ := nextFrame_state d hstate
  simp only [Exchange.next, hwaiting, stateNext, htake, hframe]
  subst hd
  simpa [hwaiting] using Polled.taken hqueued

theorem next_cases (h : Live x taken frames due) (hstates : ∀ frame ∈ x.connection.queued, IsState frame)
    (hconnected : x.connection.connected = true) (hwaiting : x.waiting = none) : Polled x frames x.next := by
  cases hqueued : x.connection.queued with
  | cons frame queued =>
    apply next_taken hwaiting hqueued
    apply hstates
    rw [hqueued]
    exact List.mem_cons_self
  | nil =>
    have htake : takeEvent x.connection = none := by rw [takeEvent, hqueued]
    obtain ⟨arrival, input, t, hreceive, houtcome⟩ := receiveEventFrame_incoming h.incoming
    obtain ⟨d, hd⟩ : ∃ d : Connection, d = { x.connection with input } := ⟨_, rfl⟩
    rw [← hd] at hreceive
    simp only [Exchange.next, hwaiting, stateNext, htake, hconnected, hreceive]
    rcases houtcome with ⟨rfl, hincoming, hfewer⟩ | ⟨frame, rest, rfl, rfl, hincoming, hfewer⟩
    · subst hd
      simpa [hwaiting] using Polled.again hqueued hincoming hfewer
    · have hevent : isEvent frame = true := by
        by_contra hresponse
        obtain ⟨answer, hdue, -⟩ := h.response_due (Bool.not_eq_true _ ▸ hresponse)
        rw [(h.waiting_due answer hdue).1] at hwaiting
        cases hwaiting
      have hstate := h.states frame List.mem_cons_self hevent
      obtain ⟨scopes, hframe⟩ := nextFrame_state d hstate
      simp only [hframe]
      subst hd
      simpa [hwaiting] using Polled.received hqueued rfl hstate hincoming hfewer

/-- One frame less is to be read. -/
theorem Live.event_rest {frame : Frame} {rest : List Frame} (h : Live x taken (frame :: rest) due)
    (hstate : IsState frame) :
    (∀ other ∈ rest, isEvent other → IsState other) ∧
      x.emitted = taken ++ (x.connection.queued ++ frame :: rest.filter isEvent) ∧
      rest.filter (fun other => !isEvent other) = due.toList.map Answer.frame := by
  have hevents := h.events
  have hframes := h.frames_due
  rw [List.filter_cons, if_pos hstate.isEvent] at hevents
  rw [List.filter_cons, hstate.isEvent] at hframes
  exact ⟨fun other hother => h.states other (List.mem_cons_of_mem _ hother), hevents, hframes⟩

theorem Counted.push {c d : Connection} {frame : Frame} (h : Counted c) (hroom : ¬Exceeds c frame)
    (hqueued : d.queued = c.queued ++ [frame]) (hcount : d.queuedCount = c.queuedCount + 1)
    (hbytes : d.queuedBytes = c.queuedBytes + frame.payload.length) : Counted d where
  count := by rw [hcount, hqueued, h.count, List.length_append, List.length_singleton]
  bytes := by simp [hbytes, hqueued, h.bytes]
  few := by
    have hfew := h.few
    rw [Exceeds] at hroom
    rw [hqueued, List.length_append, List.length_singleton]
    omega
  small := by
    rw [Exceeds] at hroom
    omega

theorem Counted.pop {c d : Connection} {frame : Frame} (h : Counted c) (hfirst : c.queued = frame :: d.queued)
    (hcount : d.queuedCount = c.queuedCount - 1)
    (hbytes : d.queuedBytes = c.queuedBytes - frame.payload.length) : Counted d where
  count := by rw [hcount, h.count, hfirst, List.length_cons, Nat.add_sub_cancel]
  bytes := by rw [hbytes, h.bytes, hfirst, List.map_cons, List.sum_cons, Nat.add_sub_cancel_left]
  few := by
    have hfew := h.few
    rw [hfirst, List.length_cons] at hfew
    omega
  small := by
    have hsmall := h.small
    omega

theorem Sound.connected (h : Sound x taken) {waiting : Opcode × BitVec 64} (hwaiting : x.waiting = some waiting) :
    x.connection.connected = true := by
  by_contra hclosed
  rw [h.closed (Bool.not_eq_true _ ▸ hclosed)] at hwaiting
  cases hwaiting

theorem await_sound (h : Sound x taken) : Sound x.await taken := by
  cases hwaiting : x.waiting with
  | none =>
    have hsame : x.await = x := by rw [Exchange.await, hwaiting]
    rw [hsame]
    exact h
  | some waiting =>
    have hconnected := h.connected hwaiting
    obtain ⟨frames, due, hlive⟩ := h.live hconnected
    have hcases := await_cases hlive h.counted hwaiting
    generalize x.await = y at hcases ⊢
    cases hcases with
    | @again input pending hincoming hfewer =>
      have hnew : Live { x with connection := { x.connection with input }, pending } taken frames due :=
        ⟨hlive.role, hincoming, hlive.states, hlive.events, hlive.answers, hlive.frames_due, hlive.waiting_due⟩
      exact hnew.sound ⟨h.counted.count, h.counted.bytes, h.counted.few, h.counted.small⟩ h.states h.returned
        hconnected
    | @queued frame rest input pending scopes hfirst hstate hroom hincoming hfewer =>
      subst hfirst
      obtain ⟨hstates, hevents, hframes⟩ := hlive.event_rest hstate
      have hnew : Live { x with
          connection := { x.connection with
            input
            grantedScopes := scopes
            queuedCount := x.connection.queuedCount + 1
            queuedBytes := x.connection.queuedBytes + frame.payload.length
            queued := x.connection.queued ++ [frame] }
          pending } taken rest due :=
        ⟨hlive.role, hincoming, hstates, by simp [hevents], hlive.answers, hframes, hlive.waiting_due⟩
      refine hnew.sound (h.counted.push hroom rfl rfl rfl) ?_ h.returned hconnected
      intro other hother
      rcases List.mem_append.mp hother with hother | hother
      · exact h.states other hother
      · rw [List.mem_singleton.mp hother]
        exact hstate
    | exceeded hfirst hstate hfull =>
      exact h.fail rfl ⟨h.counted.count, h.counted.bytes, h.counted.few, h.counted.small⟩ rfl rfl rfl rfl rfl rfl
    | @answered answer rest input pending sequence hdue hfirst hincoming =>
      subst hdue
      subst hfirst
      have hflag := validResponse_flags (hlive.waiting_due answer rfl).2.2
      have hevents := hlive.events
      have hframes := hlive.frames_due
      rw [List.filter_cons, hflag] at hevents hframes
      have hnew : Live { x with
          connection := { x.connection with input, sequence }
          pending
          waiting := none
          replies := x.replies ++ [answer] } taken rest none :=
        ⟨hlive.role, hincoming, fun other hother => hlive.states other (List.mem_cons_of_mem _ hother), hevents,
          by simpa using hlive.answers, (List.cons.inj hframes).2, nofun⟩
      exact hnew.sound ⟨h.counted.count, h.counted.bytes, h.counted.few, h.counted.small⟩ h.states h.returned
        hconnected

theorem next_closed (hclosed : x.connection.connected = false) (hqueued : x.connection.queued = [])
    (hwaiting : x.waiting = none) : x.next = x := by
  have htake : takeEvent x.connection = none := by rw [takeEvent, hqueued]
  have hsame : { x.connection with connected := false } = x.connection := by rw [← hclosed]
  simp only [Exchange.next, hwaiting, stateNext, htake, hclosed, failedNext, systemFailure]
  simp only [hsame, List.append_nil, Option.isSome_none, Bool.false_eq_true, if_false, Bool.not_false, if_true]
  rw [← hwaiting]

theorem next_sound (h : Sound x taken) : ∃ taken', Sound x.next taken' := by
  by_cases hwaiting : x.waiting = none
  · have htaken : ∀ (frame : Frame) (queued : List Frame) (scopes : Scopes),
        x.connection.queued = frame :: queued →
        Sound { x with
          connection := { x.connection with
            grantedScopes := scopes
            queuedCount := x.connection.queuedCount - 1
            queuedBytes := x.connection.queuedBytes - frame.payload.length
            queued }
          returned := x.returned ++ [eventOf frame] } (taken ++ [frame]) := by
      intro frame queued scopes hqueued
      refine ⟨h.counted.pop hqueued rfl rfl, fun other hother => h.states other ?_, ?_, ?_, h.replies, h.closed, ?_⟩
      · rw [hqueued]
        exact List.mem_cons_of_mem _ hother
      · simp [h.returned]
      · obtain ⟨unread, hunread⟩ := h.unread
        refine ⟨unread, ?_⟩
        simp [hunread, hqueued]
      · intro hconnected
        obtain ⟨frames, due, hlive⟩ := h.live hconnected
        exact ⟨frames, due, hlive.role, hlive.incoming, hlive.states, by simp [hlive.events, hqueued],
          hlive.answers, hlive.frames_due, hlive.waiting_due⟩
    by_cases hconnected : x.connection.connected = true
    · obtain ⟨frames, due, hlive⟩ := h.live hconnected
      have hcases := next_cases hlive h.states hconnected hwaiting
      generalize x.next = y at hcases ⊢
      cases hcases with
      | taken hfirst => exact ⟨_, htaken _ _ _ hfirst⟩
      | @again input pending hempty hincoming hfewer =>
        have hnew : Live { x with connection := { x.connection with input }, pending } taken frames due :=
          ⟨hlive.role, hincoming, hlive.states, hlive.events, hlive.answers, hlive.frames_due, hlive.waiting_due⟩
        exact ⟨taken, hnew.sound ⟨h.counted.count, h.counted.bytes, h.counted.few, h.counted.small⟩ h.states
          h.returned hconnected⟩
      | @received frame rest input pending scopes hempty hfirst hstate hincoming hfewer =>
        subst hfirst
        obtain ⟨hstates, hevents, hframes⟩ := hlive.event_rest hstate
        have hnew : Live { x with
            connection := { x.connection with input, grantedScopes := scopes }
            pending
            returned := x.returned ++ [eventOf frame] } (taken ++ [frame]) rest due :=
          ⟨hlive.role, hincoming, hstates, by simp [hevents, hempty], hlive.answers, hframes, hlive.waiting_due⟩
        exact ⟨_, hnew.sound ⟨h.counted.count, h.counted.bytes, h.counted.few, h.counted.small⟩ h.states
          (by simp [h.returned]) hconnected⟩
    · have hclosed : x.connection.connected = false := Bool.not_eq_true _ ▸ hconnected
      cases hqueued : x.connection.queued with
      | nil =>
        rw [next_closed hclosed hqueued hwaiting]
        exact ⟨taken, h⟩
      | cons frame queued =>
        have hcases := next_taken hwaiting hqueued (h.states frame (by
          rw [hqueued]
          exact List.mem_cons_self)) []
        generalize x.next = y at hcases ⊢
        cases hcases with
        | taken hfirst => exact ⟨_, htaken _ _ _ hfirst⟩
        | again hempty => simp [hempty] at hqueued
        | received hempty => simp [hempty] at hqueued
  · have hsame : x.next = x := if_pos (Option.isSome_iff_ne_none.mpr hwaiting)
    rw [hsame]
    exact ⟨taken, h⟩

theorem act_sound (h : Sound x taken) (a : Act) : ∃ taken', Sound (x.act a) taken' := by
  cases a with
  | emit payload => exact ⟨taken, emit_sound h payload⟩
  | respond frame => exact ⟨taken, respond_sound h frame⟩
  | arrive count => exact ⟨taken, arrive_sound h count⟩
  | request opcode => exact ⟨taken, request_sound h opcode⟩
  | await => exact ⟨taken, await_sound h⟩
  | expire => exact ⟨taken, expire_sound h⟩
  | next => exact next_sound h

/-- With nothing queued and nothing that has yet to arrive, every event was returned. -/
theorem Live.complete (h : Live x taken frames due) (hreturned : x.returned = taken.map eventOf)
    (hqueued : x.connection.queued = []) (hpending : x.pending = []) (houtgoing : x.outgoing = []) :
    x.returned = x.emitted.map eventOf := by
  have hframes : frames = [] := by
    cases frames with
    | nil => rfl
    | cons frame rest =>
      have hlength := congrArg List.length h.incoming.stream
      have hpart := h.incoming.part frame rfl
      rw [hpending, houtgoing, List.flatMap_cons] at hlength
      simp only [List.flatten_nil, List.append_nil, List.length_append] at hlength
      omega
  rw [hreturned, h.events, hqueued, hframes]
  simp

/-- A client that goes on reading gets all there is. -/
theorem drain {k : ℕ} (h : Sound x taken) (hconnected : x.connection.connected = true) (hwaiting : x.waiting = none)
    (houtgoing : x.outgoing = []) (hk : Stream.size x.pending + x.connection.queued.length ≤ k) :
    ∃ n, ((List.replicate n Act.next).foldl Exchange.act x).returned = x.emitted.map eventOf := by
  induction k generalizing x taken with
  | zero =>
    obtain ⟨frames, due, hlive⟩ := h.live hconnected
    have hqueued : x.connection.queued = [] := List.eq_nil_of_length_eq_zero (by omega)
    have hpending : x.pending = [] := by
      rw [Stream.size] at hk
      exact List.eq_nil_of_length_eq_zero (by omega)
    exact ⟨0, hlive.complete h.returned hqueued hpending houtgoing⟩
  | succ k ih =>
    obtain ⟨frames, due, hlive⟩ := h.live hconnected
    by_cases hdone : x.connection.queued = [] ∧ x.pending = []
    · exact ⟨0, hlive.complete h.returned hdone.1 hdone.2 houtgoing⟩
    · obtain ⟨taken', hsound⟩ := next_sound h
      have hless : Stream.size x.next.pending + x.next.connection.queued.length ≤ k ∧
          x.next.connection.connected = true ∧ x.next.waiting = none ∧ x.next.outgoing = [] ∧
          x.next.emitted = x.emitted := by
        have hcases := next_cases hlive h.states hconnected hwaiting
        generalize x.next = y at hcases ⊢
        cases hcases with
        | taken hfirst =>
          rw [hfirst, List.length_cons] at hk
          exact ⟨by dsimp only; omega, hconnected, hwaiting, houtgoing, rfl⟩
        | again hempty hincoming hfewer =>
          rcases hfewer with ⟨hnone, -⟩ | hfewer
          · exact absurd ⟨hempty, hnone⟩ hdone
          · exact ⟨by dsimp only; omega, hconnected, hwaiting, houtgoing, rfl⟩
        | received hempty hfirst hstate hincoming hfewer =>
          exact ⟨by dsimp only; omega, hconnected, hwaiting, houtgoing, rfl⟩
      obtain ⟨hsize, hopen, hidle, hnothing, hsame⟩ := hless
      obtain ⟨n, hn⟩ := ih hsound hopen hidle hnothing hsize
      refine ⟨n + 1, ?_⟩
      rw [List.replicate_succ, List.foldl_cons, ← hsame]
      exact hn

/-- A connection ends when its deadline passes or when an event finds no room, and in no other way. -/
theorem act_closes (h : Sound x taken) (hlive : Live x taken frames due) (hconnected : x.connection.connected = true)
    {a : Act} (hcloses : (x.act a).connection.connected = false) :
    a = .expire ∨ ∃ frame rest, a = .await ∧ frames = frame :: rest ∧ IsState frame ∧ Exceeds x.connection frame ∧
      (x.act a).connection.queued = x.connection.queued := by
  have hopen : x.connection.connected ≠ false := by
    rw [hconnected]
    decide
  cases a with
  | emit payload =>
    simp only [Exchange.act, Exchange.emit] at hcloses
    split_ifs at hcloses <;> exact absurd hcloses hopen
  | respond frame =>
    simp only [Exchange.act, Exchange.respond] at hcloses
    split at hcloses
    · exact absurd hcloses hopen
    · split_ifs at hcloses <;> exact absurd hcloses hopen
  | arrive count => exact absurd hcloses hopen
  | request opcode =>
    simp only [Exchange.act, Exchange.request] at hcloses
    split_ifs at hcloses <;> exact absurd hcloses hopen
  | expire => exact Or.inl rfl
  | await =>
    simp only [Exchange.act] at hcloses ⊢
    cases hwaiting : x.waiting with
    | none =>
      simp only [Exchange.await, hwaiting] at hcloses
      exact absurd hcloses hopen
    | some waiting =>
      have hcases := await_cases hlive h.counted hwaiting
      generalize x.await = y at hcases hcloses ⊢
      cases hcases with
      | again => exact absurd hcloses hopen
      | queued => exact absurd hcloses hopen
      | exceeded hfirst hstate hfull => exact Or.inr ⟨_, _, trivial, hfirst, hstate, hfull, rfl⟩
      | answered => exact absurd hcloses hopen
  | next =>
    simp only [Exchange.act] at hcloses
    by_cases hwaiting : x.waiting = none
    · have hcases := next_cases hlive h.states hconnected hwaiting
      generalize x.next = y at hcases hcloses
      cases hcases <;> exact absurd hcloses hopen
    · rw [Exchange.next, if_pos (Option.isSome_iff_ne_none.mpr hwaiting)] at hcloses
      exact absurd hcloses hopen

end Invariant

/-- What an exchange keeps, whatever happens. -/
structure Faithful (x : Exchange) : Prop where
  /-- The counters are exact and within their bounds. -/
  counted : Counted x.connection
  /-- What was returned and what is queued are the first state events of the stream, in its order. -/
  inOrder : ∃ taken unread, x.returned = taken.map eventOf ∧ x.emitted = taken ++ (x.connection.queued ++ unread)
  /-- Each request that was answered got the response that was written for it. -/
  answered : x.replies <+: x.responses
  /-- While the connection lasts nothing is lost, and it ends only where a deadline passes or where
  an event that has no room in the queue comes. -/
  complete : x.connection.connected = true → ∃ taken frames due, x.returned = taken.map eventOf ∧
    Live x taken frames due ∧ ∀ a, (x.act a).connection.connected = false → a = .expire ∨ ∃ frame rest,
      a = .await ∧ frames = frame :: rest ∧ IsState frame ∧ Exceeds x.connection frame ∧
        (x.act a).connection.queued = x.connection.queued
  /-- Once all has arrived, a client that goes on reading has got every event. -/
  drained : x.connection.connected = true → x.waiting = none → ∃ n,
    ((List.replicate n Act.next).foldl Exchange.act (x.arrive x.outgoing.length)).returned = x.emitted.map eventOf

/-- However the stream is cut and whatever calls are made, events and responses reach their readers. -/
theorem events_delivered (actions : List Act) : Faithful (actions.foldl Exchange.act Exchange.start) := by
  obtain ⟨taken, h⟩ : ∃ taken, Sound (actions.foldl Exchange.act Exchange.start) taken := by
    apply Run.invariant (I := fun x => ∃ taken, Sound x taken) _ (Run.foldl Exchange.act Exchange.start actions)
      ⟨[], start_sound⟩
    rintro x a y ⟨taken, h⟩ rfl
    exact act_sound h a
  generalize actions.foldl Exchange.act Exchange.start = x at h
  obtain ⟨unread, hunread⟩ := h.unread
  refine ⟨h.counted, ⟨taken, unread, h.returned, hunread⟩, h.replies, fun hconnected => ?_,
    fun hconnected hwaiting => ?_⟩
  · obtain ⟨frames, due, hlive⟩ := h.live hconnected
    exact ⟨taken, frames, due, h.returned, hlive, fun a hcloses => act_closes h hlive hconnected hcloses⟩
  · have hnothing : (x.arrive x.outgoing.length).outgoing = [] := List.drop_length
    exact drain (arrive_sound h _) hconnected hwaiting hnothing le_rfl

end KeysharpDesktop.Client
