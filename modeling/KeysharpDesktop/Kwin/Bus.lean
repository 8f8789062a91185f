import KeysharpDesktop.Kwin.Queue
import KeysharpDesktop.Kwin.Text

/-! The daemon between the relay socket and the script: requests come in as frames and go out
as jobs, and reports come in as method calls and go out as answers. -/
namespace KeysharpDesktop

def replyCapacity : ℕ := 65536

/-- One relayed request that waits on the script. -/
structure KwinInflight where
  active : Bool := false
  requestId : BitVec 64 := 0
  opcode : Opcode := 0
  sequence : Bytes := []
  deriving DecidableEq, Repr

/-- A method call, named by how many came before it. -/
abbrev Invocation := ℕ

/-- The tables have one place for each of the two lanes. -/
def laneSlot : KwinLane → Fin 2
  | .fast => 0
  | _ => 1

structure KwinBus where
  queue : KwinQueue
  peer : Bytes
  parked : Fin 2 → Option Invocation
  idleSource : Fin 2 → Bool
  inflight : List KwinInflight
  invocations : ℕ

/-- What the daemon does that its peers can see. `queued` and `parked` are not written
anywhere; they say which request became which job, and which call now waits. -/
inductive BusOutput
  | queued (sequence : Bytes) (requestId : BitVec 64) (opcode : Opcode)
  | answered (sequence : Option Bytes) (frame : RelayFrame)
  | relayFailed
  | parked (invocation : Invocation)
  | returned (invocation : Invocation) (text : Bytes)
  | error (invocation : Invocation) (text : Bytes)
  deriving DecidableEq, Repr

def deniedText : Bytes := ascii "not the KWin compositor this daemon is serving"
def idleErrorText : Bytes := ascii "cannot format an idle reply"
def envelopeErrorText : Bytes := ascii "the daemon did not understand that envelope"

section Peer

/-- The loop of `unique_name_valid`, with the digits of the current group and the groups
already closed. -/
def uniqueNameLoop : ℕ → ℕ → Bytes → Bool
  | digits, groups, [] => 1 ≤ groups && 0 < digits
  | digits, groups, c :: rest =>
    if c = 46 then if digits = 0 then false else uniqueNameLoop 0 (groups + 1) rest
    else if isDigit c then uniqueNameLoop (digits + 1) groups rest
    else false

def uniqueNameValid : Bytes → Bool
  | 58 :: rest => uniqueNameLoop 0 0 rest
  | _ => false

/-- Both uids are the daemon's own, so the comparison of uids is left out. -/
def kwinPeerAllowed (expectedUnique senderUnique expectedGeneration senderGeneration : Bytes) : Bool :=
  uniqueNameValid expectedUnique && uniqueNameValid senderUnique && validGeneration expectedGeneration &&
    validGeneration senderGeneration && expectedUnique == senderUnique &&
    expectedGeneration == senderGeneration

end Peer

/-- `relay_answer`; `written` says whether the frame went out before the deadline. -/
def busAnswer (written : Bool) (sequence : Option Bytes) (requestId : BitVec 64) (opcode : Opcode)
    (status : Status) (body : Bytes) : List BusOutput :=
  match relayAnswer requestId opcode status body with
  | none => []
  | some frame => if written then [.answered sequence frame] else [.relayFailed]

/-- What a finished job came to. -/
def kwinQueueResult (q : KwinQueue) (sequence : Bytes) : Option (Status × Bytes) :=
  match kwinQueueFind q sequence with
  | none => none
  | some job => if job.state ≠ .done then none else some (job.status, job.reply)

/-- One turn of `relay_drain`: the request in a slot is answered if its job is done. -/
def drainSlot (bus : KwinBus) (index : ℕ) (written : Bool) : KwinBus × List BusOutput :=
  let slot := bus.inflight.getD index {}
  if !slot.active then (bus, [])
  else
    match kwinQueueResult bus.queue slot.sequence with
    | none => (bus, [])
    | some (status, body) =>
      ({ bus with queue := kwinQueueRelease bus.queue slot.sequence
                  inflight := bus.inflight.set index { slot with active := false } },
        busAnswer written (some slot.sequence) slot.requestId slot.opcode status body)

/-- The drain from slot `index` on; `written` says which of the answers went out. -/
def relayDrainFrom (written : ℕ → Bool) : ℕ → ℕ → KwinBus → KwinBus × List BusOutput
  | 0, _, bus => (bus, [])
  | left + 1, index, bus =>
    let (bus, out) := drainSlot bus index (written index)
    let (bus, rest) := relayDrainFrom written left (index + 1) bus
    (bus, out ++ rest)

def relayDrain (bus : KwinBus) (written : ℕ → Bool) : KwinBus × List BusOutput :=
  relayDrainFrom written kwinMaxJobs 0 bus

/-- Ends a park with whatever the queue has for the lane. -/
def releasePark (bus : KwinBus) (lane : KwinLane) (nowMs : ℕ) : KwinBus × List BusOutput :=
  match bus.parked (laneSlot lane) with
  | none => (bus, [])
  | some invocation =>
    let (reply, queue) := kwinQueuePollParked bus.queue lane nowMs (bufferInit replyCapacity)
    ({ bus with queue
                parked := Function.update bus.parked (laneSlot lane) none
                idleSource := Function.update bus.idleSource (laneSlot lane) false },
      match reply with
      | some reply => [.returned invocation (cString reply.data)]
      | none => [.error invocation idleErrorText])

inductive BusMethod
  | hello | poll | report | event
  deriving DecidableEq, Repr

/-- The poll that found no work: whatever waited on its lane is answered, and it waits. -/
def parkPoll (bus : KwinBus) (invocation : Invocation) (lane : KwinLane) (nowMs : ℕ) :
    KwinBus × List BusOutput :=
  let (bus, out) := releasePark bus lane nowMs
  ({ bus with parked := Function.update bus.parked (laneSlot lane) (some invocation)
              idleSource := Function.update bus.idleSource (laneSlot lane) true },
    out ++ [.parked invocation])

/-- The reply at the end of `handle_call`. -/
def busReply (invocation : Invocation) : Option Buffer → List BusOutput
  | some reply => [.returned invocation (cString reply.data)]
  | none => [.error invocation envelopeErrorText]

def callAllowed (bus : KwinBus) (sender generation : Bytes) : BusMethod → Bool
  | .hello => bus.peer == sender && generation.isEmpty
  | _ => bus.peer == sender && kwinPeerAllowed bus.peer sender bus.queue.generation generation

def handleCall (bus : KwinBus) (sender generation : Bytes) (method : BusMethod) (envelope : Bytes)
    (nowMs : ℕ) (written : ℕ → Bool) : KwinBus × List BusOutput :=
  let invocation := bus.invocations
  let allowed := callAllowed bus sender generation method
  let bus := { bus with invocations := bus.invocations + 1 }
  if !allowed then (bus, [.error invocation deniedText])
  else
    match method with
    | .hello | .event =>
      (bus, busReply invocation (kwinFormatReportAck bus.queue.generation (bufferInit replyCapacity)))
    | .report =>
      let (ok, queue, reply) := kwinQueueReport bus.queue envelope (bufferInit replyCapacity)
      let bus := { bus with queue }
      if ok then
        let (bus, out) := relayDrain bus written
        (bus, out ++ busReply invocation (some reply))
      else (bus, busReply invocation none)
    | .poll =>
      let (outcome, queue) := kwinQueuePoll bus.queue envelope nowMs (bufferInit replyCapacity)
      let bus := { bus with queue }
      match outcome, kwinParsePoll envelope with
      | .answered reply, _ => (bus, [.returned invocation (cString reply.data)])
      | .parked, some poll => parkPoll bus invocation poll.lane nowMs
      | _, _ => (bus, busReply invocation none)

/-- What the relay socket holds when it is readable: a hang-up, or bytes of which a short
run stands for a transfer that misses its deadline. -/
inductive RelayInput
  | hangUp
  | bytes (stream : Bytes)
  deriving DecidableEq, Repr

/-- A request read whole from the relay socket. -/
structure RelayRequest where
  requestId : BitVec 64
  opcode : Opcode
  payload : Bytes
  deriving DecidableEq, Repr

/-- The request at the front of the socket and the bytes behind it. -/
def readRequest : RelayInput → Option (RelayRequest × Bytes)
  | .hangUp => none
  | .bytes stream => do
    let (head, stream) ← cursorBytes stream frameHeaderSize
    let header := decodeFrameHeader head
    if maxTextBytes < header.payloadLength.toNat then none
    else
      let (payload, rest) ← cursorBytes stream header.payloadLength.toNat
      some (⟨header.requestId, header.opcode, payload⟩, rest)

/-- The rest of `relay_readable`, once a request is read. -/
def relayRequest (bus : KwinBus) (request : RelayRequest) (nowMs : ℕ) (written : Bool) :
    KwinBus × List BusOutput :=
  match kwinRequestText request.opcode request.payload requestCapacity with
  | none => (bus, busAnswer written none request.requestId request.opcode Status.invalidRequest [])
  | some text =>
    match bus.inflight.findIdx? fun slot => !slot.active with
    | none => (bus, busAnswer written none request.requestId request.opcode Status.busy [])
    | some index =>
      match kwinQueueSubmit bus.queue request.opcode text nowMs with
      | none => (bus, busAnswer written none request.requestId request.opcode Status.busy [])
      | some (queue, sequence) =>
        let bus := { bus with
          queue
          inflight := bus.inflight.set index ⟨true, request.requestId, request.opcode, sequence⟩ }
        let (bus, out) := releasePark bus (kwinLaneFor request.opcode) nowMs
        (bus, .queued sequence request.requestId request.opcode :: out)

def relayReadable (bus : KwinBus) (input : RelayInput) (nowMs : ℕ) (written : Bool) :
    KwinBus × List BusOutput :=
  match readRequest input with
  | none => (bus, [.relayFailed])
  | some (request, _) => relayRequest bus request nowMs written

/-- A timer that has been removed does not fire. -/
def idleFired (bus : KwinBus) (lane : KwinLane) (nowMs : ℕ) : KwinBus × List BusOutput :=
  if bus.idleSource (laneSlot lane) then releasePark bus lane nowMs else (bus, [])

/-- One dispatch of the daemon's main loop. -/
inductive BusCall
  | relay (input : RelayInput) (nowMs : ℕ) (written : Bool)
  | method (sender generation : Bytes) (method : BusMethod) (envelope : Bytes) (nowMs : ℕ)
      (written : ℕ → Bool)
  | idleFast (nowMs : ℕ)
  | idleSlow (nowMs : ℕ)

def busDispatch (bus : KwinBus) : BusCall → KwinBus × List BusOutput
  | .relay input nowMs written => relayReadable bus input nowMs written
  | .method sender generation method envelope nowMs written =>
    handleCall bus sender generation method envelope nowMs written
  | .idleFast nowMs => idleFired bus .fast nowMs
  | .idleSlow nowMs => idleFired bus .slow nowMs

def busStep (bus : KwinBus) (call : BusCall) : KwinBus := (busDispatch bus call).1

def busOutputs (bus : KwinBus) (call : BusCall) : List BusOutput := (busDispatch bus call).2

/-- A daemon that has just taken its name. -/
def kwinBusStart (queue : KwinQueue) (peer : Bytes) : KwinBus :=
  ⟨queue, peer, fun _ => none, fun _ => false, List.replicate kwinMaxJobs {}, 0⟩

/-- The daemon once a method call has been counted and its queue has been asked. -/
def KwinBus.counted (bus : KwinBus) (queue : KwinQueue) : KwinBus :=
  { bus with queue, invocations := bus.invocations + 1 }

/-- The done lines that a report completes a job with. -/
def methodLines (bus : KwinBus) (sender generation : Bytes) (method : BusMethod) (envelope : Bytes) :
    List KwinDone :=
  if !callAllowed bus sender generation method then []
  else
    match method with
    | .report => (reportedLines bus.queue envelope).map Prod.snd
    | _ => []

/-- The jobs that one dispatch completes, by the lines they are completed with. -/
def busLines (bus : KwinBus) : BusCall → List KwinDone
  | .method sender generation method envelope _ _ => methodLines bus sender generation method envelope
  | _ => []

/-- Everything a method call can lead to, with the lines it completes jobs by. -/
inductive Handled (bus : KwinBus) (envelope : Bytes) (nowMs : ℕ) (written : ℕ → Bool) :
    BusMethod → List KwinDone → KwinBus × List BusOutput → Prop
  | denied (method : BusMethod) (text : Bytes) :
      Handled bus envelope nowMs written method []
        (bus.counted bus.queue, [.error bus.invocations text])
  | acknowledged (method : BusMethod) (reply : Option Buffer) (other : method = .hello ∨ method = .event) :
      Handled bus envelope nowMs written method []
        (bus.counted bus.queue, busReply bus.invocations reply)
  | reported (queue : KwinQueue) (reply : Buffer)
      (accepted : kwinQueueReport bus.queue envelope (bufferInit replyCapacity) = (true, queue, reply)) :
      Handled bus envelope nowMs written .report ((reportedLines bus.queue envelope).map Prod.snd)
        ((relayDrain (bus.counted queue) written).1,
          (relayDrain (bus.counted queue) written).2 ++ busReply bus.invocations (some reply))
  | unreported (queue : KwinQueue) (reply : Buffer)
      (refused : kwinQueueReport bus.queue envelope (bufferInit replyCapacity) = (false, queue, reply)) :
      Handled bus envelope nowMs written .report ((reportedLines bus.queue envelope).map Prod.snd)
        (bus.counted queue, busReply bus.invocations none)
  | polled (queue : KwinQueue) (reply : Buffer)
      (answered : kwinQueuePoll bus.queue envelope nowMs (bufferInit replyCapacity) =
        (.answered reply, queue)) :
      Handled bus envelope nowMs written .poll []
        (bus.counted queue, [.returned bus.invocations (cString reply.data)])
  | parked (queue : KwinQueue) (poll : KwinPoll) (parsed : kwinParsePoll envelope = some poll)
      (empty : kwinQueuePoll bus.queue envelope nowMs (bufferInit replyCapacity) = (.parked, queue)) :
      Handled bus envelope nowMs written .poll []
        (parkPoll (bus.counted queue) bus.invocations poll.lane nowMs)
  | unpolled (queue : KwinQueue)
      (refused : kwinQueuePoll bus.queue envelope nowMs (bufferInit replyCapacity) = (.refused, queue)) :
      Handled bus envelope nowMs written .poll []
        (bus.counted queue, busReply bus.invocations none)

/-- A poll is parked only once its envelope has been read. -/
theorem kwinQueuePoll_parked {q q' : KwinQueue} {envelope : Bytes} {nowMs : ℕ} {reply : Buffer}
    (h : kwinQueuePoll q envelope nowMs reply = (.parked, q')) :
    ∃ poll, kwinParsePoll envelope = some poll ∧ poll.generation = q.generation ∧
      (dispatchJobs q poll.lane nowMs).1 = [] ∧
      q' = setParked (dispatchJobs q poll.lane nowMs).2 poll.lane true := by
  unfold kwinQueuePoll at h
  cases hparse : kwinParsePoll envelope with
  | none =>
    rw [hparse] at h
    cases h
  | some poll =>
    rw [hparse] at h
    dsimp only at h
    split_ifs at h with hgen hempty
    · cases h
    · cases h
      exact ⟨poll, rfl, not_not.mp hgen, hempty, rfl⟩
    · split at h <;> cases h

theorem handleCall_handled (bus : KwinBus) (sender generation : Bytes) (method : BusMethod)
    (envelope : Bytes) (nowMs : ℕ) (written : ℕ → Bool) :
    Handled bus envelope nowMs written method (methodLines bus sender generation method envelope)
      (handleCall bus sender generation method envelope nowMs written) := by
  unfold handleCall methodLines
  dsimp only
  by_cases hallowed : callAllowed bus sender generation method
  swap
  · rw [Bool.not_eq_true] at hallowed
    rw [hallowed]
    exact .denied method deniedText
  rw [hallowed, Bool.not_true, if_neg Bool.false_ne_true, if_neg Bool.false_ne_true]
  cases method with
  | hello => exact .acknowledged .hello _ (.inl rfl)
  | event => exact .acknowledged .event _ (.inr rfl)
  | report =>
    rcases hreport : kwinQueueReport bus.queue envelope (bufferInit replyCapacity) with ⟨ok, queue, reply⟩
    cases ok with
    | false => exact .unreported queue reply hreport
    | true => exact .reported queue reply hreport
  | poll =>
    rcases hpoll : kwinQueuePoll bus.queue envelope nowMs (bufferInit replyCapacity) with ⟨outcome, queue⟩
    cases outcome with
    | answered reply => exact .polled queue reply hpoll
    | refused => exact .unpolled queue hpoll
    | parked =>
      obtain ⟨poll, hparse, -, -, -⟩ := kwinQueuePoll_parked hpoll
      simp only [hparse]
      exact .parked queue poll hparse hpoll

end KeysharpDesktop
