import KeysharpDesktop.State.Wire
import KeysharpDesktop.Wire.Result
import KeysharpDesktop.Wire.Transfer

/-! The client's end of a connection: frames from the socket, events that wait for their reader,
and the response to the request in progress. -/
namespace KeysharpDesktop.Client

def maxResponse : ℕ := maxCaptureBytes + 64
def maxEvents : ℕ := 256
def maxEventBytes : ℕ := 16 * 1024 * 1024

def sessionRevoked : Opcode := 0x0006

/-- What the client accepts of a service. -/
def clientRules : FrameRules := ⟨frameMagic, protocolMajor, protocolMinor, BitVec.ofNat 32 maxResponse, true⟩

/-- A socket as its reader sees it: what has arrived, and whether the service has hung up behind it. -/
structure Socket where
  pending : List Bytes
  ended : Bool
  deriving DecidableEq, Repr

def Socket.recv (amount : ℕ) (s : Socket) : Stream.Receipt UInt8 × Socket :=
  if s.pending.isEmpty && !s.ended then (.again, s)
  else
    let (receipt, pending) := Stream.recv amount s.pending
    (receipt, { s with pending })

structure Connection where
  role : Role
  connected : Bool
  nextRequestId : BitVec 64
  grantedScopes : Scopes
  sequence : BitVec 64
  input : Buffer
  queued : List Frame
  queuedBytes : ℕ
  queuedCount : ℕ
  deriving DecidableEq, Repr

inductive Errno
  | protocol | noBuffers | noMemory | connectionReset | notConnected | timedOut
  deriving DecidableEq, Repr

/-- `ksd_error`. -/
structure Error where
  detail : BitVec 32
  systemError : Option Errno
  message : Bytes
  deriving DecidableEq, Repr

section Errors

def resetError : Error := ⟨0, none, []⟩

/-- The message is cut where its array ends, as `snprintf` does. -/
def setError (detail : BitVec 32) (systemError : Option Errno) (message : Option Bytes) : Error :=
  ⟨detail, systemError, (cString (message.getD [])).take (errorMessageCapacity - 1)⟩

/-- The connection is closed, and the caller learns why. -/
def systemFailure (c : Connection) (errno : Errno) (message : String) : Connection × Status × Error :=
  ({ c with connected := false }, if errno = .timedOut then Status.timeout else Status.unavailable,
    setError 0 (some errno) (some (ascii (if errno = .protocol then
      "keysharp-desktop requires protocol 3.0 and client ABI 1.0; incompatible or invalid service data"
      else message))))

end Errors

section Events

def queueEvent (c : Connection) (frame : Frame) : Except Errno Connection :=
  if maxEvents ≤ c.queuedCount || maxEventBytes - c.queuedBytes < frame.payload.length then .error .noBuffers
  else
    match eventStructDecode frame.payload with
    | (false, _) => .error .protocol
    | (true, event) =>
      .ok { c with
        grantedScopes := if event.domain == StateDomain.grants.mask then event.grantedScopes else c.grantedScopes
        queuedCount := c.queuedCount + 1
        queuedBytes := c.queuedBytes + frame.payload.length
        queued := c.queued ++ [frame] }

def takeEvent (c : Connection) : Option (Frame × Connection) :=
  match c.queued with
  | [] => none
  | frame :: queued =>
    some (frame, { c with
      queued, queuedCount := c.queuedCount - 1, queuedBytes := c.queuedBytes - frame.payload.length })

def applyRevokedEvent (c : Connection) (frame : Frame) : Option (Scopes × Connection) :=
  if frame.opcode != sessionRevoked || frame.flags != flagEvent || frame.requestId != 0 ||
      frame.payload.length != 8 || decodeU32 (frame.payload.drop 4) != 0 then none
  else
    let revoked := decodeU32 frame.payload
    if revoked == 0 then none else some (revoked, { c with grantedScopes := c.grantedScopes &&& ~~~revoked })

end Events

section Receiving

/-- What a try to receive a frame gives. -/
inductive Arrival
  | frame (frame : Frame)
  | again
  | failed (errno : Errno)
  deriving DecidableEq, Repr

/-- The loop of `receive_event_frame`: what is read is never more than the frame still needs. -/
def receiveEventLoop : ℕ → Buffer → Socket → Arrival × Buffer × Socket
  | 0, input, s => (.again, input, s)
  | turns + 1, input, s =>
    let long : Bool := frameHeaderSize ≤ input.data.length
    let length := (decodeU32 (input.data.drop 12)).toNat
    if long && maxResponse < length then (.failed .protocol, input, s)
    else
      let needed := if long then frameHeaderSize + length else frameHeaderSize
      if long && input.data.length == needed then
        match frameUnpack clientRules input.data with
        | none => (.failed .protocol, { input with data := [] }, s)
        | some frame => (.frame frame, { input with data := [] }, s)
      else
        match s.recv (min (needed - input.data.length) 8192) with
        | (.again, s) => (.again, input, s)
        | (.closed, s) => (.failed .connectionReset, input, s)
        | (.data bytes, s) =>
          match bufferBytes input bytes with
          | none => (.failed .noMemory, input, s)
          | some input => receiveEventLoop turns input s

def receiveEventFrame (c : Connection) (s : Socket) : Arrival × Connection × Socket :=
  let (arrival, input, s) := receiveEventLoop (Stream.size s.pending + 2) c.input s
  (arrival, { c with input }, s)

/-- One try of `read_response` to receive a frame, as the role of the connection has it. -/
def receiveResponse (c : Connection) (s : Socket) : Arrival × Connection × Socket :=
  if c.role = .rpc then
    match frameReadFd clientRules s.pending with
    | (.done frame, pending) => (.frame frame, c, { s with pending })
    | (_, pending) => (.failed .protocol, c, { s with pending })
  else receiveEventFrame c s

end Receiving

section Responses

structure Response where
  frame : Frame
  status : Status
  detail : BitVec 32
  tail : Bytes
  deriving DecidableEq, Repr

def validStatus (status : Status) : Bool := status ≤ Status.revoked || status == Status.internal

/-- The message of a failure, if it has one. -/
def parseDiagnostic (c : Cursor) : Option (Option Bytes) :=
  if cursorFinished c then some none
  else do
    let (length, c) ← cursorU32 c
    if errorMessageCapacity ≤ length.toNat then none
    else do
      let (bytes, c) ← cursorBytes c length.toNat
      if !cursorFinished c || !utf8Valid false bytes then none else some (some bytes)

def parseResponse (frame : Frame) (opcode : Opcode) (requestId : BitVec 64) : Option (Response × Error) :=
  if frame.opcode != opcode || frame.requestId != requestId || frame.flags &&& flagResponse == 0 ||
      frame.flags &&& flagEvent != 0 || frame.payload.length < 8 then none
  else do
    let (status, c) ← cursorU32 frame.payload
    let (detail, c) ← cursorU32 c
    if !validStatus status then none
    else if status == Status.ok then some (⟨frame, status, detail, c⟩, resetError)
    else if frame.flags &&& flagMore != 0 then none
    else do
      let message ← parseDiagnostic c
      some (⟨frame, status, detail, []⟩, setError detail none message)

/-- What a request comes to: its response, or the end of the connection. -/
structure Reply where
  status : Status
  response : Option Response
  error : Error
  deriving DecidableEq, Repr

def failedReply (c : Connection) (errno : Errno) (message : String) : Connection × Reply :=
  let (c, status, error) := systemFailure c errno message
  (c, ⟨status, none, error⟩)

/-- `read_response` with a frame that is no event. -/
def answerResponse (c : Connection) (opcode : Opcode) (requestId : BitVec 64) (frame : Frame) :
    Connection × Reply :=
  match parseResponse frame opcode requestId with
  | none => failedReply c .protocol "desktop service sent an invalid response"
  | some (response, error) =>
    if response.status == Status.ok && stateMutatesWindows opcode then
      if response.tail.length < 8 then failedReply c .protocol "desktop service omitted the operation sequence"
      else
        let length := response.tail.length - 8
        ({ c with sequence := decodeU64 (response.tail.drop length) },
          ⟨response.status, some { response with tail := response.tail.take length }, error⟩)
    else (c, ⟨response.status, some response, error⟩)

/-- `read_response` with an event that arrives while the response is awaited. -/
def acceptEvent (c : Connection) (frame : Frame) : Connection × Option Reply :=
  let queued :=
    if frame.opcode == Op.stateEvent then queueEvent c frame
    else (applyRevokedEvent c frame).elim (.error .protocol) fun applied => .ok applied.2
  match queued with
  | .ok c => (c, none)
  | .error errno =>
    let (c, reply) := if errno = .noBuffers then
        failedReply c errno "desktop event queue exceeded 256 records or 16 MiB; reconnect and resnapshot"
      else failedReply c .protocol "desktop service sent an invalid event"
    (c, some reply)

/-- One pass of the loop of `read_response`; without a reply the loop goes on. -/
def responsePass (opcode : Opcode) (requestId : BitVec 64) (c : Connection) (s : Socket) :
    Connection × Socket × Option Reply :=
  match receiveResponse c s with
  | (.again, c, s) => (c, s, none)
  | (.failed errno, c, s) =>
    let (c, reply) := failedReply c errno "desktop service response failed"
    (c, s, some reply)
  | (.frame frame, c, s) =>
    if frame.flags &&& flagEvent != 0 then
      let (c, reply) := acceptEvent c frame
      (c, s, reply)
    else
      let (c, reply) := answerResponse c opcode requestId frame
      (c, s, some reply)

/-- As many passes as it takes, or as many as there are turns. -/
def readResponse (opcode : Opcode) (requestId : BitVec 64) : ℕ → Connection → Socket →
    Connection × Socket × Option Reply
  | 0, c, s => (c, s, none)
  | turns + 1, c, s =>
    match responsePass opcode requestId c s with
    | (c, s, some reply) => (c, s, some reply)
    | (c, s, none) => readResponse opcode requestId turns c s

end Responses

section Reading

/-- What `ksd_state_next` comes to. -/
inductive NextResult
  | event (event : EventStruct)
  | timeout
  | failed (status : Status) (error : Error)

def failedNext (c : Connection) (errno : Errno) (message : String) : Connection × NextResult :=
  let (c, status, error) := systemFailure c errno message
  (c, .failed status error)

/-- `read_event` and `ksd_state_next` with the frame that was received. -/
def nextFrame (c : Connection) (frame : Frame) : Connection × NextResult :=
  if frame.opcode == sessionRevoked then
    match applyRevokedEvent c frame with
    | none => failedNext c .protocol "desktop service sent invalid revocation"
    | some (revoked, c) =>
      (c, .event { eventStructInit with
        kind := StateKind.grantChanged.wire, domain := StateDomain.grants.mask,
        revokedScopes := revoked, grantedScopes := c.grantedScopes })
  else if frame.opcode != Op.stateEvent || frame.flags != flagEvent || frame.requestId != 0 then
    failedNext c .protocol "desktop service sent an unexpected event"
  else
    match eventStructDecode frame.payload with
    | (false, _) => failedNext c .protocol "desktop service sent invalid state data"
    | (true, event) =>
      ({ c with
        grantedScopes := if event.domain == StateDomain.grants.mask then event.grantedScopes else c.grantedScopes },
        .event event)

/-- One pass of the loop of `read_event`. A pass that finds nothing ends the call at its deadline, or
is followed by another once there is more to read. -/
def stateNext (c : Connection) (s : Socket) : Connection × Socket × NextResult :=
  match takeEvent c with
  | some (frame, c) =>
    let (c, result) := nextFrame c frame
    (c, s, result)
  | none =>
    if !c.connected then
      let (c, result) := failedNext c .notConnected "desktop event connection ended"
      (c, s, result)
    else
      match receiveEventFrame c s with
      | (.again, c, s) => (c, s, .timeout)
      | (.failed errno, c, s) =>
        let (c, result) := failedNext c errno "desktop event receive failed"
        (c, s, result)
      | (.frame frame, c, s) =>
        let (c, result) := nextFrame c frame
        (c, s, result)

end Reading

section Frames

variable {s t : Socket} {n turns : ℕ} {bytes later rest : Bytes} {frame : Frame} {input : Buffer}

theorem Socket.recv_data (hn : 0 < n) (h : s.recv n = (.data bytes, t)) :
    bytes.length ≤ n ∧ s.pending.flatten = bytes ++ t.pending.flatten ∧
      Stream.size t.pending < Stream.size s.pending ∧ t.ended = s.ended := by
  unfold Socket.recv at h
  split_ifs at h with hidle
  · cases h
  · rcases hrecv : Stream.recv n s.pending with ⟨receipt, pending⟩
    rw [hrecv] at h
    cases h
    obtain ⟨-, hle, hsplit, hsize⟩ := Stream.recv_data hn hrecv
    exact ⟨hle, hsplit, hsize, rfl⟩

theorem Socket.recv_again (h : s.recv n = (.again, t)) :
    t.pending.flatten = s.pending.flatten ∧ t.ended = s.ended ∧
      (s.pending = [] ∧ t.pending = [] ∨ Stream.size t.pending < Stream.size s.pending) := by
  unfold Socket.recv at h
  split_ifs at h with hidle
  · cases h
    have hnone := List.isEmpty_iff.mp (Bool.and_eq_true_iff.mp hidle).1
    exact ⟨rfl, rfl, Or.inl ⟨hnone, hnone⟩⟩
  · rcases hrecv : Stream.recv n s.pending with ⟨receipt, pending⟩
    rw [hrecv] at h
    cases h
    obtain ⟨hsame, hsize⟩ := Stream.size_again hrecv
    exact ⟨hsame, rfl, Or.inr hsize⟩

theorem Socket.recv_closed (h : s.recv n = (.closed, t)) : s.pending = [] ∧ s.ended = true := by
  unfold Socket.recv at h
  split_ifs at h with hidle
  · cases h
  · rcases hrecv : Stream.recv n s.pending with ⟨receipt, pending⟩
    rw [hrecv] at h
    cases h
    have hnone := (Stream.recv_closed hrecv).1
    rw [hnone] at hidle
    exact ⟨hnone, by simpa using hidle⟩

/-- A try to receive finds the next frame of the stream, or leaves the stream as it was. -/
structure Received (frame : Frame) (later rest : Bytes) (input : Buffer) (s : Socket) (arrival : Arrival)
    (input' : Buffer) (s' : Socket) : Prop where
  maximum : input'.maximum = input.maximum
  ended : s'.ended = s.ended
  outcome :
    arrival = .frame frame ∧ input'.data = [] ∧ s'.pending.flatten ++ later = rest ∧
        (input.data = frame.bytes ∧ s' = s ∨ Stream.size s'.pending < Stream.size s.pending) ∨
      arrival = .again ∧ input'.data.length < frame.bytes.length ∧
        input'.data ++ (s'.pending.flatten ++ later) = frame.bytes ++ rest ∧
        (s.pending = [] ∧ s'.pending = [] ∨ Stream.size s'.pending < Stream.size s.pending)

theorem frontOf_bytes (hle : input.data.length ≤ frame.bytes.length)
    (h : input.data ++ (s.pending.flatten ++ later) = frame.bytes ++ rest) :
    input.data = frame.bytes.take input.data.length := by
  have htake := congrArg (List.take input.data.length) h
  rw [List.take_left, List.take_append_of_le_length hle] at htake
  exact htake

/-- The length field of a frame can be read as soon as the header has arrived. -/
theorem decodeU32_input (hsized : frame.Sized) (hfront : input.data = frame.bytes.take input.data.length)
    (hlong : frameHeaderSize ≤ input.data.length) :
    (decodeU32 (input.data.drop 12)).toNat = frame.payload.length := by
  have hheader : decodeFrameHeader input.data = frame.header := by
    rw [← decodeFrameHeader_take, hfront, List.take_take, Nat.min_eq_left hlong, decodeFrameHeader_take,
      hsized.decode_bytes]
  have hfield := congrArg Header.payloadLength hheader
  rw [← hsized.payloadLength]
  exact congrArg BitVec.toNat hfield

/-- The rest of a turn once it is known how much the frame needs. -/
def receiveMore (turns : ℕ) (input : Buffer) (s : Socket) (needed : ℕ) : Arrival × Buffer × Socket :=
  match s.recv (min (needed - input.data.length) 8192) with
  | (.again, s) => (.again, input, s)
  | (.closed, s) => (.failed .connectionReset, input, s)
  | (.data bytes, s) =>
    match bufferBytes input bytes with
    | none => (.failed .noMemory, input, s)
    | some input => receiveEventLoop turns input s

theorem receiveEventLoop_succ (turns : ℕ) (input : Buffer) (s : Socket) :
    receiveEventLoop (turns + 1) input s =
      let long : Bool := frameHeaderSize ≤ input.data.length
      let length := (decodeU32 (input.data.drop 12)).toNat
      if long && maxResponse < length then (.failed .protocol, input, s)
      else
        let needed := if long then frameHeaderSize + length else frameHeaderSize
        if long && input.data.length == needed then
          match frameUnpack clientRules input.data with
          | none => (.failed .protocol, { input with data := [] }, s)
          | some frame => (.frame frame, { input with data := [] }, s)
        else receiveMore turns input s needed := rfl

theorem receiveEventLoop_received (hsized : frame.Sized) (hok : frame.Acceptable clientRules)
    (hturns : Stream.size s.pending < turns) (hended : s.ended = true → later = [])
    (hroom : frame.bytes.length ≤ input.maximum) (hle : input.data.length ≤ frame.bytes.length)
    (hstream : input.data ++ (s.pending.flatten ++ later) = frame.bytes ++ rest) :
    ∃ arrival input' s', receiveEventLoop turns input s = (arrival, input', s') ∧
      Received frame later rest input s arrival input' s' := by
  induction turns generalizing input s with
  | zero => omega
  | succ turns ih =>
    have hfront := frontOf_bytes hle hstream
    have hmaximum : frame.payload.length ≤ maxResponse := hok.length
    have hbytes := hsized.length_bytes
    -- Some more of the frame is asked for, and what comes is still a part of it.
    have hmore : ∀ needed, input.data.length < needed → needed ≤ frame.bytes.length →
        ∃ arrival input' s', receiveMore turns input s needed = (arrival, input', s') ∧
          Received frame later rest input s arrival input' s' := by
      intro needed hlt hneeded
      unfold receiveMore
      rcases hrecv : s.recv (min (needed - input.data.length) 8192) with ⟨bytes | _ | _, t⟩
      · obtain ⟨hcount, hsplit, hsize, hend⟩ := Socket.recv_data (by omega) hrecv
        have hgrown : input.data.length + bytes.length ≤ frame.bytes.length := by omega
        obtain ⟨grown, hgrow, hdata, hmax⟩ := (bufferBytes_writes bytes).exists_of_fits
          (b := input) (by omega)
        have hlength : grown.data.length = input.data.length + bytes.length := by
          rw [hdata, List.length_append]
        have hrest : grown.data ++ (t.pending.flatten ++ later) = frame.bytes ++ rest := by
          rw [← hstream, hdata, hsplit]
          simp only [List.append_assoc]
        obtain ⟨arrival, input', s', hloop, hreceived⟩ := ih (by omega) (by rwa [hend])
          (by omega) (by omega) hrest
        refine ⟨arrival, input', s', ?_, ?_⟩
        · simp only [hgrow, hloop]
        · refine ⟨by rw [hreceived.maximum, hmax], by rw [hreceived.ended, hend], ?_⟩
          rcases hreceived.outcome with ⟨hframe, hnone, hleft, hfewer⟩ | ⟨hagain, hpart, hsame, hfewer⟩
          · refine Or.inl ⟨hframe, hnone, hleft, Or.inr ?_⟩
            rcases hfewer with ⟨-, rfl⟩ | hfewer
            · exact hsize
            · omega
          · refine Or.inr ⟨hagain, hpart, hsame, Or.inr ?_⟩
            rcases hfewer with ⟨-, hnone⟩ | hfewer
            · rw [hnone, Stream.size, List.length_nil, List.flatten_nil, List.length_nil]
              omega
            · omega
      · obtain ⟨hsame, hend, hfewer⟩ := Socket.recv_again hrecv
        refine ⟨.again, input, t, rfl, rfl, hend, Or.inr ⟨rfl, by omega, ?_, hfewer⟩⟩
        rw [hsame, hstream]
      · obtain ⟨hnone, hend⟩ := Socket.recv_closed hrecv
        have hwhole := congrArg List.length hstream
        rw [hnone, hended hend] at hwhole
        simp only [List.flatten_nil, List.append_nil, List.length_append] at hwhole
        omega
    rw [receiveEventLoop_succ]
    by_cases hlong : frameHeaderSize ≤ input.data.length
    · have hlength := decodeU32_input hsized hfront hlong
      have hshort : ¬maxResponse < frame.payload.length := by omega
      by_cases hfull : input.data.length = frame.bytes.length
      · have hwhole : input.data = frame.bytes := by rw [hfront, hfull, List.take_length]
        have hunpack : frameUnpack clientRules input.data = some frame := by
          rw [hwhole, frameUnpack_bytes hsized, if_pos ((frameHeaderAcceptable_iff hsized).mpr hok)]
        rw [hwhole] at hstream
        refine ⟨.frame frame, { input with data := [] }, s, ?_, rfl, rfl,
          Or.inl ⟨rfl, rfl, List.append_cancel_left hstream, Or.inl ⟨hwhole, rfl⟩⟩⟩
        simp [hlength, hshort, hfull, hbytes, hunpack]
      · obtain ⟨arrival, input', s', hresult, hreceived⟩ := hmore frame.bytes.length (by omega) le_rfl
        refine ⟨arrival, input', s', ?_, hreceived⟩
        rw [hbytes] at hfull hresult
        simp [hlong, hlength, hshort, hfull, hresult]
    · obtain ⟨arrival, input', s', hresult, hreceived⟩ := hmore frameHeaderSize (by omega) (by omega)
      refine ⟨arrival, input', s', ?_, hreceived⟩
      simp [hlong, hresult]

end Frames

end KeysharpDesktop.Client
