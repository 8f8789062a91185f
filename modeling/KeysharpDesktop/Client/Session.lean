import KeysharpDesktop.Client.Events
import KeysharpDesktop.Client.Operations

/-! A connection of the client library over its whole life: the calls that are made on it, the frames that any
service may send, and the masks of granted scopes that the library stores and hands out. -/
namespace KeysharpDesktop.Client

def opHello : Opcode := 0x0001
def opAuthorize : Opcode := 0x0002

/-- `KSD_DESKTOP_ACCEPTED_SCOPES`. -/
def acceptedScopes : Scopes :=
  Scope.inputControl ||| Scope.windowMonitoring ||| Scope.windowControl ||| Scope.screenCapture |||
    Scope.audioCapture ||| Scope.cameraCapture ||| Scope.clipboardMonitoring

def abiMajor : BitVec 16 := 1
def abiMinor : BitVec 16 := 0

/-- `ksd_service_info`. -/
structure ServiceInfo where
  abiMajor : BitVec 16
  abiMinor : BitVec 16
  grantedScopes : Scopes
  availableOperations : BitVec 64
  backend : BitVec 32
  leaseId : BitVec 64
  deriving DecidableEq, Repr

section Calls

def parseHelloTail (tail : Bytes) : Option (Scopes × BitVec 64 × BitVec 32) := do
  let (granted, c) ← cursorU32 tail
  let (reserved0, c) ← cursorU32 c
  let (operations, c) ← cursorU64 c
  let (backend, c) ← cursorU32 c
  let (reserved1, c) ← cursorU32 c
  if c.length != 0 && c.length != 8 || reserved0 != 0 || reserved1 != 0 then none
  else some (granted &&& acceptedScopes, operations, backend)

/-- A connection that could not be made is freed, with the events that wait in it. -/
def releaseConnection (c : Connection) : Connection :=
  { c with connected := false, queued := [], queuedBytes := 0, queuedCount := 0 }

/-- `ksd_connect` from where its reply is read. -/
def connect (c : Connection) (reply : Reply) : Connection × Status × Error × Option ServiceInfo :=
  match reply.response with
  | none => (releaseConnection c, reply.status, reply.error, none)
  | some response =>
    if reply.status != Status.ok then (releaseConnection c, reply.status, reply.error, none)
    else
      match if response.frame.flags &&& flagMore != 0 then none else parseHelloTail response.tail with
      | none =>
        let (c, status, error) := systemFailure c .protocol "desktop service returned an invalid HELLO"
        (releaseConnection c, status, error, none)
      | some (granted, operations, backend) =>
        let leaseId := if 32 ≤ response.tail.length then decodeU64 (response.tail.drop 24) else 0
        ({ c with grantedScopes := granted }, Status.ok, reply.error,
          some ⟨abiMajor, abiMinor, granted, operations, backend, leaseId⟩)

def parseAuthorization (response : Response) : Option Scopes :=
  if response.frame.flags &&& flagMore != 0 then none
  else do
    let (granted, c) ← cursorU32 response.tail
    let (reserved, c) ← cursorU32 c
    if !cursorFinished c || reserved != 0 then none else some (granted &&& acceptedScopes)

/-- `ksd_authorize` from where its reply is read. -/
def authorize (c : Connection) (reply : Reply) : Connection × Status × Error × Option Scopes :=
  match reply.response with
  | none => (c, reply.status, reply.error, none)
  | some response =>
    if reply.status != Status.ok then (c, reply.status, reply.error, none)
    else
      match parseAuthorization response with
      | none =>
        let (c, status, error) := systemFailure c .protocol "desktop service returned invalid authorization"
        (c, status, error, none)
      | some granted => ({ c with grantedScopes := granted }, Status.ok, reply.error, some granted)

end Calls

section Session

/-- A request of the library: what opens a connection, what changes its mask, or any other, with its
reading of the response. -/
inductive Call
  | hello
  | authorize
  | other (opcode : Opcode) (read : Response → Except String Value)

def Call.opcode : Call → Opcode
  | .hello => opHello
  | .authorize => opAuthorize
  | .other opcode _ => opcode

/-- A connection and the service at its other end, with what the library has received and handed out. -/
structure Session where
  connection : Connection
  socket : Socket
  /-- `ksd_connect` has returned the connection. -/
  opened : Bool
  waiting : Option (Call × BitVec 64)
  /-- The frames that were taken from the socket. A frame that ends the connection is none of them. -/
  received : List Frame
  infos : List ServiceInfo
  authorizations : List Scopes
  /-- The events that were returned, each with the frame it was read from. -/
  events : List (Frame × EventStruct)

inductive SessionAct
  | arrive (segment : Bytes)
  | hangUp
  | request (call : Call)
  | await
  | expire
  | next

def SessionAct.isNext : SessionAct → Bool
  | .next => true
  | _ => false

def Arrival.frames : Arrival → List Frame
  | .frame received => [received]
  | _ => []

namespace Session

/-- `ksd_connect` has written its request. -/
def start (role : Role) : Session :=
  ⟨⟨role, true, 1, 0, 0, bufferInit (maxResponse + frameHeaderSize), [], 0, 0⟩, ⟨[], false⟩, false,
    some (.hello, 1), [], [], [], []⟩

def allowed (x : Session) : Call → Bool
  | .hello => false
  | .authorize => x.connection.role == .authorizationLease
  | .other opcode _ => opcode != opHello && opcode != opAuthorize

def request (x : Session) (call : Call) : Session :=
  if x.waiting.isSome || !x.opened || !x.allowed call then x
  else
    let requestId := nextRequestId x.connection
    let connection := { x.connection with nextRequestId := requestId }
    if !connection.connected then { x with connection }
    else { x with connection, waiting := some (call, requestId) }

/-- The end of a call, from where its reply is read. -/
def finish (x : Session) (call : Call) (reply : Reply) : Session :=
  match call with
  | .hello =>
    let (connection, _, _, info) := connect x.connection reply
    { x with connection, waiting := none, opened := info.isSome, infos := x.infos ++ info.toList }
  | .authorize =>
    let (connection, _, _, granted) := Client.authorize x.connection reply
    { x with connection, waiting := none, authorizations := x.authorizations ++ granted.toList }
  | .other _ read => { x with connection := (requestResult read x.connection reply).connection, waiting := none }

/-- What was received counts once it is clear that it does not end the connection. -/
def record (x : Session) (frames : List Frame) : Session :=
  if x.connection.connected then { x with received := x.received ++ frames } else x

def await (x : Session) : Session :=
  match x.waiting with
  | none => x
  | some (call, requestId) =>
    let (connection, socket, reply) := responsePass call.opcode requestId x.connection x.socket
    let y := { x with connection, socket }
    (reply.elim y (y.finish call)).record (receiveResponse x.connection x.socket).1.frames

/-- The deadline of the request passes. -/
def expire (x : Session) : Session :=
  match x.waiting with
  | none => x
  | some (call, _) =>
    let (connection, reply) := failedReply x.connection .timedOut "desktop service response timed out"
    { x with connection }.finish call reply

/-- The frame that a call of `ksd_state_next` finds on the socket, which it looks at behind its queue. -/
def fetched (x : Session) : List Frame :=
  match takeEvent x.connection with
  | some _ => []
  | none => if x.connection.connected then (receiveEventFrame x.connection x.socket).1.frames else []

def next (x : Session) : Session :=
  if x.waiting.isSome || !x.opened then x
  else
    let (connection, socket, result) := stateNext x.connection x.socket
    let handled := x.connection.queued.head?.toList ++ x.fetched
    { x with
      connection
      socket
      events := x.events ++ match result with
        | .event event => handled.map (·, event)
        | _ => [] }.record x.fetched

def act (x : Session) : SessionAct → Session
  | .arrive segment => { x with socket := { x.socket with pending := x.socket.pending ++ [segment] } }
  | .hangUp => { x with socket := { x.socket with ended := true } }
  | .request call => x.request call
  | .await => x.await
  | .expire => x.expire
  | .next => x.next

end Session

end Session

section Masks

/-- The mask once a frame is received: a grant event or a response gives it, a revocation removes from it. -/
def applyGrant (mask : Scopes) (frame : Frame) : Scopes :=
  if isEvent frame then
    if frame.opcode = Op.stateEvent then
      if (eventOf frame).domain == StateDomain.grants.mask then (eventOf frame).grantedScopes else mask
    else mask &&& ~~~decodeU32 frame.payload
  else if (frame.opcode = opHello ∨ frame.opcode = opAuthorize) ∧ decodeU32 frame.payload = Status.ok then
    decodeU32 (frame.payload.drop 8)
  else mask

def grantsOf (frames : List Frame) : Scopes := frames.foldl applyGrant 0

/-- Masks that are the same on the scopes this authority manages. -/
def Agrees (a b : Scopes) : Prop := a &&& acceptedScopes = b &&& acceptedScopes

instance (a b : Scopes) : Decidable (Agrees a b) := inferInstanceAs (Decidable (_ = _))

/-- A mask without a scope that this authority does not manage. -/
def Narrow (mask : Scopes) : Prop := mask &&& ~~~acceptedScopes = 0

instance (mask : Scopes) : Decidable (Narrow mask) := inferInstanceAs (Decidable (_ = _))

variable {a b : Scopes}

theorem Agrees.clear (h : Agrees a b) (mask : Scopes) : Agrees (a &&& mask) (b &&& mask) := by
  unfold Agrees at h ⊢
  rw [BitVec.and_assoc, BitVec.and_comm mask, ← BitVec.and_assoc, h, BitVec.and_assoc, BitVec.and_comm acceptedScopes,
    ← BitVec.and_assoc]

theorem agrees_accepted (a : Scopes) : Agrees (a &&& acceptedScopes) a := by
  rw [Agrees, BitVec.and_assoc, BitVec.and_self]

theorem narrow_accepted (a : Scopes) : Narrow (a &&& acceptedScopes) := by
  rw [Narrow, BitVec.and_assoc, BitVec.and_not_self]
  exact BitVec.and_zero

theorem Narrow.clear (h : Narrow a) (mask : Scopes) : Narrow (a &&& mask) := by
  unfold Narrow at h ⊢
  rw [BitVec.and_assoc, BitVec.and_comm mask, ← BitVec.and_assoc, h]
  exact BitVec.zero_and

end Masks

end KeysharpDesktop.Client
