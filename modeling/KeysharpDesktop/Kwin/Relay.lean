import KeysharpDesktop.Kwin.Answer
import KeysharpDesktop.Lib.Transition

/-! The relay: many callers share one socket, and whichever of them reads a frame hands it
to the caller whose request id it names. -/
namespace KeysharpDesktop

def kwinRelayPending : ℕ := 128

structure RelayPending where
  active : Bool := false
  done : Bool := false
  requestId : BitVec 64 := 0
  status : Status := 0
  detail : BitVec 32 := 0
  tail : Bytes := []
  tailLength : ℕ := 0
  payloadFd : Option File := none
  opcode : Opcode := 0
  deriving DecidableEq, Repr

/-- `nextRequestId` counts without wrapping; the id on the wire is its low 64 bits. -/
structure KwinRelay where
  broken : Bool
  nextRequestId : ℕ
  pending : List RelayPending
  deriving DecidableEq, Repr

def KwinRelay.slot (relay : KwinRelay) (i : ℕ) : RelayPending := relay.pending.getD i {}

def KwinRelay.setSlot (relay : KwinRelay) (i : ℕ) (slot : RelayPending) : KwinRelay :=
  { relay with pending := relay.pending.set i slot }

def kwinRelayCreate : KwinRelay := ⟨false, 1, List.replicate kwinRelayPending {}⟩

/-- What one call of `read_one` leaves: whether the channel holds, the relay, and the bytes
not yet read. -/
structure ReadOne where
  ok : Bool
  relay : KwinRelay
  rest : Bytes
  deriving DecidableEq, Repr

def headerAcceptable (header : Header) (fd : Option File) : Bool :=
  let fileResponse := header.flags == relayCaptureFd
  header.magic == frameMagic && header.major == protocolMajor && header.minor == protocolMinor &&
    (header.flags == 0 || fileResponse) && fileResponse == fd.isSome &&
    8 ≤ header.payloadLength.toNat && header.payloadLength.toNat ≤ maxTextBytes + 8 &&
    (!fileResponse || header.payloadLength == 12)

def fileAcceptable (status : Status) (length : ℕ) (file : File) : Bool :=
  status == Status.ok && 20 ≤ length && length ≤ maxCaptureTail && file.sealedOf length

def isCapture (opcode : Opcode) : Bool :=
  opcode ∈ [Op.captureArea, Op.captureWindow, Op.captureDesktop]

def awaiting (requestId : BitVec 64) (slot : RelayPending) : Bool :=
  slot.active && !slot.done && slot.requestId == requestId

/-- Hands a body to the first slot that waits for it; a body nobody waits for is dropped. -/
def deliver (relay : KwinRelay) (requestId : BitVec 64) (body : Bytes) (fd : Option File) :
    Bool × KwinRelay :=
  match relay.pending.findIdx? (awaiting requestId) with
  | none => (true, relay)
  | some i =>
    let slot := relay.slot i
    let marked := { slot with status := decodeU32 body, detail := decodeU32 (body.drop 4) }
    let tail := body.drop 8
    match fd with
    | some file =>
      if isCapture slot.opcode then
        (true, relay.setSlot i
          { marked with payloadFd := some file, tailLength := (decodeU32 tail).toNat, done := true })
      else (false, relay.setSlot i marked)
    | none =>
      let filled := if tail = [] then marked else { marked with tail, tailLength := tail.length }
      (true, relay.setSlot i { filled with done := true })

def readOne (relay : KwinRelay) (stream : Bytes) (fd : Option File) : ReadOne :=
  match cursorBytes stream frameHeaderSize with
  | none => ⟨false, relay, []⟩
  | some (head, stream) =>
    let header := decodeFrameHeader head
    if !headerAcceptable header fd then ⟨false, relay, stream⟩
    else match cursorBytes stream header.payloadLength.toNat with
      | none => ⟨false, relay, []⟩
      | some (body, rest) =>
        if fd.any fun file => !fileAcceptable (decodeU32 body) (decodeU32 (body.drop 8)).toNat file then
          ⟨false, relay, rest⟩
        else
          let (ok, relay) := deliver relay header.requestId body fd
          ⟨ok, relay, rest⟩

/-- A reader that fails breaks the channel for everyone. -/
def relayRead (relay : KwinRelay) (stream : Bytes) (fd : Option File) : KwinRelay :=
  let read := readOne relay stream fd
  if read.ok then read.relay else { read.relay with broken := true }

/-- The slot a new call takes; a broken or a full relay has none. -/
def relayBegin (relay : KwinRelay) (opcode : Opcode) : Option (ℕ × KwinRelay) :=
  if relay.broken then none
  else do
    let i ← relay.pending.findIdx? fun slot => !slot.active
    let slot := { active := true, opcode, requestId := BitVec.ofNat 64 relay.nextRequestId }
    some (i, { relay.setSlot i slot with nextRequestId := relay.nextRequestId + 1 })

def refusedText : Bytes :=
  ascii "the compositor refused the operation"

def timeoutText : Bytes :=
  ascii "the compositor did not answer in time"

def unreachedText : Bytes :=
  ascii "could not reach the compositor"

/-- What a slot that holds an answer gives its caller. -/
def slotAnswer (slot : RelayPending) : Option OperationResult :=
  if !slot.done then none
  else if slot.status = Status.ok then
    match slot.payloadFd with
    | some file => resultTakeFd file slot.tailLength
    | none => some (resultTake (if slot.tailLength ≠ 0 then slot.tail else []))
  else some (resultError slot.status slot.detail (if slot.tailLength ≠ 0 then slot.tail else refusedText))

/-- The end of `ksd_kwin_relay_call`, once the caller of slot `i` stops waiting. -/
def relayFinish (relay : KwinRelay) (i : ℕ) (attempted : Bool) : OperationResult × KwinRelay :=
  let result := (slotAnswer (relay.slot i)).getD
    (if attempted then resultError Status.timeout 0 timeoutText
      else resultError Status.busy 0 unreachedText)
  (result, relay.setSlot i {})

/-- One turn of the relay mutex, by any caller or by the registration's end. -/
inductive RelayStep
  | start (opcode : Opcode)
  | read (stream : Bytes) (fd : Option File)
  | finish (i : ℕ)
  | breakDown
  deriving DecidableEq, Repr

def relayStep (relay : KwinRelay) : RelayStep → KwinRelay
  | .start opcode => ((relayBegin relay opcode).map Prod.snd).getD relay
  | .read stream fd => relayRead relay stream fd
  | .finish i => (relayFinish relay i true).2
  | .breakDown => { relay with broken := true }

/-- Runs of the relay under any number of callers. -/
abbrev RelayRun := Transition.Run fun relay label relay' => relayStep relay label = relay'

def KwinRelay.Reachable (relay : KwinRelay) : Prop :=
  ∃ labels, RelayRun kwinRelayCreate labels relay

end KeysharpDesktop
