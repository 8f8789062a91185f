import KeysharpDesktop.Kwin.Delivery
import KeysharpDesktop.Lib.Exclusive

/-! The callers of a relay: any number of threads inside `ksd_kwin_relay_call`, with one of them
writing and one of them reading at a time, and a peer that answers in an order of its own. -/
namespace KeysharpDesktop

/-- A frame of the peer as it stands in the stream, with the descriptor that travels beside it. -/
structure PeerAnswer where
  frame : Frame
  fd : Option File
  magic : frame.magic.length = 4
  short : frame.payload.length < 2 ^ 32
  deriving DecidableEq

def PeerAnswer.id (a : PeerAnswer) : BitVec 64 := a.frame.requestId

/-- Where a thread stands between two holds of the relay's mutex. -/
inductive CallPhase
  | packing | queued | writing | waiting | reading
  | readDone (ok : Bool)
  deriving DecidableEq, Repr

/-- A call that has a slot. `answer` is what the peer's frame was that filled the slot. -/
structure RelayCall where
  request : Frame
  slot : ℕ
  requestId : BitVec 64
  packed : Bytes
  attempted : Bool
  sent : Bool
  phase : CallPhase
  answer : Option PeerAnswer
  deriving DecidableEq

/-- A call before, in and after `ksd_kwin_relay_call`; a call without a slot is refused at once. -/
inductive Caller
  | idle
  | refused (result : OperationResult)
  | calling (call : RelayCall)
  | returned (call : RelayCall) (result : OperationResult) (answered : Bool)
  deriving DecidableEq

/-- The relay and all of its callers. `inbox` is what the peer has sent and nobody has read, and
`consumed` what was read; `written` is how many bytes of a request the socket has taken. -/
structure RelaySystem where
  relay : KwinRelay
  writing : Bool
  reading : Bool
  callers : ℕ → Caller
  consumed : List PeerAnswer
  inbox : List PeerAnswer
  written : ℕ → ℕ

def relaySystemCreate : RelaySystem where
  relay := kwinRelayCreate
  writing := false
  reading := false
  callers := fun _ => .idle
  consumed := []
  inbox := []
  written := fun _ => 0

namespace RelaySystem

def answers (s : RelaySystem) : List PeerAnswer := s.consumed ++ s.inbox

def setCaller (s : RelaySystem) (c : ℕ) (caller : Caller) : RelaySystem :=
  { s with callers := Function.update s.callers c caller }

def setCall (s : RelaySystem) (c : ℕ) (call : RelayCall) : RelaySystem := s.setCaller c (.calling call)

/-- The call of a thread that stands at a phase. -/
def inPhase (s : RelaySystem) (c : ℕ) (phase : CallPhase) : Option RelayCall :=
  match s.callers c with
  | .calling call => if call.phase = phase then some call else none
  | _ => none

def breakDown (s : RelaySystem) : RelaySystem := { s with relay := { s.relay with broken := true } }

/-- A failure breaks the channel for everyone. -/
def breakUnless (s : RelaySystem) (ok : Bool) : RelaySystem := if ok then s else s.breakDown

end RelaySystem

def closedText : Bytes := ascii "the compositor channel is closed"
def crowdedText : Bytes := ascii "too many requests in flight for this compositor"

/-- What a call is told that gets no slot. -/
def relayRefusal (relay : KwinRelay) : OperationResult :=
  if relay.broken then resultError Status.unavailable 0 closedText
  else resultError Status.busy 0 crowdedText

/-- The request as it is written: with the relay's own id in place of the client's. -/
def outgoing (request : Frame) (requestId : BitVec 64) : Frame := { request with requestId }

/-- The bytes that follow a frame in the stream. -/
def inboxBytes (inbox : List PeerAnswer) : Bytes := (inbox.map fun a => a.frame.bytes).flatten

/-- A slot that a read has filled tells its call what filled it. -/
def noteAnswer (before after : KwinRelay) (a : PeerAnswer) : Caller → Caller
  | .calling call =>
    if (before.slot call.slot).done = false ∧ (after.slot call.slot).done = true then
      .calling { call with answer := some a }
    else .calling call
  | caller => caller

/-- One hold of the mutex, one transfer, or one frame of the peer. `timely` is whether the deadline
is still ahead, and `allocated` whether there was memory for the packed frame. -/
inductive RelayAction
  | start (c : ℕ) (request : Frame)
  | pack (c : ℕ) (allocated : Bool)
  | claim (c : ℕ) (timely : Bool)
  | transfer (c : ℕ) (n : ℕ)
  | endWrite (c : ℕ)
  | takeReader (c : ℕ) (timely : Bool)
  | readNothing (c : ℕ) (ok : Bool)
  | readFrame (c : ℕ)
  | endRead (c : ℕ)
  | finish (c : ℕ)
  | retire
  | answer (a : PeerAnswer)

namespace RelaySystem

def start (s : RelaySystem) (c : ℕ) (request : Frame) : RelaySystem :=
  match s.callers c with
  | .idle =>
    match relayBegin s.relay request.opcode with
    | none => s.setCaller c (.refused (relayRefusal s.relay))
    | some (slot, relay) =>
      { s with relay }.setCall c
        ⟨request, slot, BitVec.ofNat 64 s.relay.nextRequestId, [], false, false, .packing, none⟩
  | _ => s

def pack (s : RelaySystem) (c : ℕ) (call : RelayCall) (allocated : Bool) : RelaySystem :=
  match framePack (outgoing call.request call.requestId)
      (bufferInit (frameHeaderSize + call.request.payload.length + 16)) with
  | some packed =>
    if allocated then s.setCall c { call with packed := packed.data, phase := .queued }
    else s.setCall c { call with phase := .waiting }
  | none => s.setCall c { call with phase := .waiting }

def claim (s : RelaySystem) (c : ℕ) (call : RelayCall) (timely : Bool) : RelaySystem :=
  if !s.writing && !s.relay.broken && timely then
    { s with writing := true }.setCall c { call with attempted := true, sent := true, phase := .writing }
  else s.setCall c { call with phase := .waiting }

def transfer (s : RelaySystem) (c : ℕ) (call : RelayCall) (n : ℕ) : RelaySystem :=
  { s with written := Function.update s.written c (min (s.written c + n) call.packed.length) }

def endWrite (s : RelaySystem) (c : ℕ) (call : RelayCall) : RelaySystem :=
  let sent := s.written c == call.packed.length
  ({ s with writing := false }.breakUnless sent).setCall c { call with sent, phase := .waiting }

def takeReader (s : RelaySystem) (c : ℕ) (call : RelayCall) (timely : Bool) : RelaySystem :=
  if call.sent && !(s.relay.slot call.slot).done && !s.relay.broken && timely && !s.reading then
    { s with reading := true }.setCall c { call with phase := .reading }
  else s

/-- The read of a whole frame; the slot it fills, if any, is another caller's as often as not. -/
def readFrame (s : RelaySystem) (c : ℕ) (call : RelayCall) : RelaySystem :=
  match s.inbox with
  | [] => s
  | a :: inbox =>
    let read := readOne s.relay (a.frame.bytes ++ inboxBytes inbox) a.fd
    let s := s.setCall c { call with phase := .readDone read.ok }
    { s with
      relay := read.relay
      callers := fun c => noteAnswer s.relay read.relay a (s.callers c)
      consumed := s.consumed ++ [a]
      inbox }

def endRead (s : RelaySystem) (c : ℕ) (call : RelayCall) (ok : Bool) : RelaySystem :=
  ({ s with reading := false }.breakUnless ok).setCall c { call with phase := .waiting }

def finish (s : RelaySystem) (c : ℕ) (call : RelayCall) : RelaySystem :=
  let (result, relay) := relayFinish s.relay call.slot call.attempted
  let answered := (slotAnswer (s.relay.slot call.slot)).isSome
  { s with relay }.setCaller c (.returned call result answered)

/-- A thread at the given phase goes on; any other one is left where it is. -/
def goOn (s : RelaySystem) (c : ℕ) (phase : CallPhase) (next : RelayCall → RelaySystem) : RelaySystem :=
  match s.inPhase c phase with
  | some call => next call
  | none => s

end RelaySystem

def relayAct (s : RelaySystem) : RelayAction → RelaySystem
  | .start c request => s.start c request
  | .pack c allocated => s.goOn c .packing (s.pack c · allocated)
  | .claim c timely => s.goOn c .queued (s.claim c · timely)
  | .transfer c n => s.goOn c .writing (s.transfer c · n)
  | .endWrite c => s.goOn c .writing (s.endWrite c ·)
  | .takeReader c timely => s.goOn c .waiting (s.takeReader c · timely)
  | .readNothing c ok => s.goOn c .reading fun call => s.setCall c { call with phase := .readDone ok }
  | .readFrame c => s.goOn c .reading (s.readFrame c ·)
  | .endRead c =>
    match s.callers c with
    | .calling call =>
      match call.phase with
      | .readDone ok => s.endRead c call ok
      | _ => s
    | _ => s
  | .finish c => s.goOn c .waiting (s.finish c ·)
  | .retire => s.breakDown
  | .answer a => { s with inbox := s.inbox ++ [a] }

/-- The peer answers each id at most once. -/
def AnswersOnce (s : RelaySystem) : RelayAction → Prop
  | .answer a => ∀ b ∈ s.answers, b.id ≠ a.id
  | _ => True

section Turns

variable {s : RelaySystem}

theorem inPhase_eq_some {c : ℕ} {phase : CallPhase} {call : RelayCall} (h : s.inPhase c phase = some call) :
    s.callers c = .calling call ∧ call.phase = phase := by
  unfold RelaySystem.inPhase at h
  split at h
  · next found hfound =>
    split_ifs at h with hphase
    cases h
    exact ⟨hfound, hphase⟩
  · cases h

@[simp] theorem breakUnless_callers (s : RelaySystem) (ok : Bool) : (s.breakUnless ok).callers = s.callers := by
  cases ok <;> rfl

@[simp] theorem breakUnless_consumed (s : RelaySystem) (ok : Bool) :
    (s.breakUnless ok).consumed = s.consumed := by
  cases ok <;> rfl

@[simp] theorem breakUnless_inbox (s : RelaySystem) (ok : Bool) : (s.breakUnless ok).inbox = s.inbox := by
  cases ok <;> rfl

end Turns

section Bytes

variable {s : RelaySystem}

/-- What a call has written, by how far it has come. -/
def Caller.Unwritten (written : ℕ) : Caller → Prop
  | .idle | .refused _ => written = 0
  | .calling call => (call.phase = .writing → call.attempted) ∧ (call.attempted = false → written = 0)
  | .returned _ result answered => answered = false → result.status = Status.busy → written = 0

def RelaySystem.Unwritten (s : RelaySystem) : Prop := ∀ c, (s.callers c).Unwritten (s.written c)

/-- Only one caller moves on, and nothing was written meanwhile. -/
theorem RelaySystem.Unwritten.of_caller {t : RelaySystem} {c : ℕ} {caller : Caller} (h : s.Unwritten)
    (hcallers : t.callers = Function.update s.callers c caller) (hwritten : t.written = s.written)
    (hcaller : caller.Unwritten (s.written c)) : t.Unwritten := by
  intro d
  rw [hcallers, hwritten]
  by_cases hd : d = c
  · rw [hd, Function.update_self]
    exact hcaller
  · rw [Function.update_of_ne hd]
    exact h d

/-- A turn of a thread that keeps the account, keeps it where the thread is elsewhere too. -/
theorem goOn_unwritten {c : ℕ} {phase : CallPhase} {next : RelayCall → RelaySystem} (h : s.Unwritten)
    (hnext : ∀ call, s.callers c = .calling call → call.phase = phase →
      Caller.Unwritten (s.written c) (.calling call) → (next call).Unwritten) :
    (s.goOn c phase next).Unwritten := by
  unfold RelaySystem.goOn
  cases hphase : s.inPhase c phase with
  | none => exact h
  | some call =>
    obtain ⟨hcall, hat⟩ := inPhase_eq_some hphase
    have hself := h c
    rw [hcall] at hself
    exact hnext call hcall hat hself

@[simp] theorem breakUnless_written (s : RelaySystem) (ok : Bool) : (s.breakUnless ok).written = s.written := by
  cases ok <;> rfl

theorem relayFinish_busy {relay : KwinRelay} {i : ℕ} {attempted : Bool}
    (hnone : (slotAnswer (relay.slot i)).isSome = false)
    (hbusy : (relayFinish relay i attempted).1.status = Status.busy) : attempted = false := by
  rw [Option.isSome_eq_false_iff, Option.isNone_iff_eq_none] at hnone
  cases attempted with
  | false => rfl
  | true =>
    rw [relayFinish, hnone] at hbusy
    have htimeout : Status.timeout = Status.busy := hbusy
    exact absurd htimeout (by decide)

theorem relayAct_unwritten (h : s.Unwritten) (action : RelayAction) : (relayAct s action).Unwritten := by
  cases action with
  | start c request =>
    simp only [relayAct, RelaySystem.start]
    split
    · next hidle =>
      have hzero := h c
      rw [hidle] at hzero
      split
      · exact h.of_caller rfl rfl hzero
      · exact h.of_caller rfl rfl ⟨nofun, fun _ => hzero⟩
    · exact h
  | pack c allocated =>
    refine goOn_unwritten h fun call _ _ hself => ?_
    unfold RelaySystem.pack
    split
    · split_ifs
      · exact h.of_caller rfl rfl ⟨nofun, hself.2⟩
      · exact h.of_caller rfl rfl ⟨nofun, hself.2⟩
    · exact h.of_caller rfl rfl ⟨nofun, hself.2⟩
  | claim c timely =>
    refine goOn_unwritten h fun call _ _ hself => ?_
    unfold RelaySystem.claim
    split_ifs
    · exact h.of_caller rfl rfl ⟨fun _ => rfl, nofun⟩
    · exact h.of_caller rfl rfl ⟨nofun, hself.2⟩
  | transfer c n =>
    refine goOn_unwritten h fun call hcall hphase hself => ?_
    intro d
    by_cases hd : d = c
    · rw [hd]
      show (s.callers c).Unwritten _
      rw [hcall]
      refine ⟨hself.1, ?_⟩
      intro hnot
      rw [hself.1 hphase] at hnot
      cases hnot
    · show (s.callers d).Unwritten (Function.update s.written c _ d)
      rw [Function.update_of_ne hd]
      exact h d
  | endWrite c =>
    refine goOn_unwritten h fun call hcall _ hself => ?_
    have hcallers : (s.endWrite c call).callers = Function.update s.callers c
        (.calling { call with sent := s.written c == call.packed.length, phase := .waiting }) := by
      show Function.update (RelaySystem.breakUnless _ _).callers c _ = _
      rw [breakUnless_callers]
    exact h.of_caller hcallers (breakUnless_written _ _) ⟨nofun, hself.2⟩
  | takeReader c timely =>
    refine goOn_unwritten h fun call _ _ hself => ?_
    unfold RelaySystem.takeReader
    split_ifs
    · exact h.of_caller rfl rfl ⟨nofun, hself.2⟩
    · exact h
  | readNothing c ok =>
    refine goOn_unwritten h fun call _ _ hself => ?_
    exact h.of_caller rfl rfl ⟨nofun, hself.2⟩
  | readFrame c =>
    refine goOn_unwritten h fun call _ _ hself => ?_
    unfold RelaySystem.readFrame
    split
    · exact h
    · next a inbox _ =>
      have hphase : ∀ ok, (s.setCall c { call with phase := .readDone ok }).Unwritten :=
        fun ok => h.of_caller rfl rfl ⟨nofun, hself.2⟩
      intro d
      have hd := hphase (readOne s.relay (a.frame.bytes ++ inboxBytes inbox) a.fd).ok d
      show (noteAnswer _ _ a _).Unwritten (s.written d)
      generalize (RelaySystem.setCall s c _).callers d = caller at hd ⊢
      cases caller with
      | calling other =>
        simp only [noteAnswer]
        split_ifs
        · exact hd
        · exact hd
      | _ => exact hd
  | endRead c =>
    simp only [relayAct]
    split
    · next call hcall =>
      have hself := h c
      rw [hcall] at hself
      split
      · next ok hok =>
        have hcallers : (s.endRead c call ok).callers =
            Function.update s.callers c (.calling { call with phase := .waiting }) := by
          show Function.update (RelaySystem.breakUnless _ _).callers c _ = _
          rw [breakUnless_callers]
        exact h.of_caller hcallers (breakUnless_written _ _) ⟨nofun, hself.2⟩
      · exact h
    · exact h
  | finish c =>
    refine goOn_unwritten h fun call _ _ hself => ?_
    refine h.of_caller rfl rfl ?_
    intro hnone hbusy
    exact hself.2 (relayFinish_busy hnone hbusy)
  | retire => exact h
  | answer a => exact h

end Bytes

section Roles

variable {s : RelaySystem}

def Caller.writes : Caller → Bool
  | .calling call => call.phase == .writing
  | _ => false

def CallPhase.reads : CallPhase → Bool
  | .reading | .readDone _ => true
  | _ => false

def Caller.reads : Caller → Bool
  | .calling call => call.phase.reads
  | _ => false

variable {c : ℕ} {caller : Caller}

/-- One thread writes at a time and one reads. -/
structure RelaySystem.Roles (s : RelaySystem) : Prop where
  writer : Exclusive.Held s.writing s.callers Caller.writes
  reader : Exclusive.Held s.reading s.callers Caller.reads

theorem RelaySystem.Roles.of_caller {t : RelaySystem} (h : s.Roles)
    (hcallers : t.callers = Function.update s.callers c caller)
    (hwriting : t.writing = s.writing) (hreading : t.reading = s.reading)
    (hwrites : caller.writes = (s.callers c).writes) (hreads : caller.reads = (s.callers c).reads) : t.Roles := by
  constructor
  · rw [hcallers, hwriting]
    exact h.writer.keep hwrites
  · rw [hcallers, hreading]
    exact h.reader.keep hreads

theorem goOn_roles {phase : CallPhase} {next : RelayCall → RelaySystem} (h : s.Roles)
    (hnext : ∀ call, s.callers c = .calling call → call.phase = phase → (next call).Roles) :
    (s.goOn c phase next).Roles := by
  unfold RelaySystem.goOn
  cases hphase : s.inPhase c phase with
  | none => exact h
  | some call =>
    obtain ⟨hcall, hat⟩ := inPhase_eq_some hphase
    exact hnext call hcall hat

theorem writes_calling {call : RelayCall} {phase : CallPhase} (h : call.phase = phase) :
    (Caller.calling call).writes = (phase == .writing) := by rw [Caller.writes, h]

theorem reads_calling {call : RelayCall} {phase : CallPhase} (h : call.phase = phase) :
    (Caller.calling call).reads = phase.reads := by rw [Caller.reads, h]

theorem noteAnswer_writes {before after : KwinRelay} {a : PeerAnswer} (caller : Caller) :
    (noteAnswer before after a caller).writes = caller.writes := by
  cases caller with
  | calling call =>
    simp only [noteAnswer]
    split_ifs <;> rfl
  | _ => rfl

theorem noteAnswer_reads {before after : KwinRelay} {a : PeerAnswer} (caller : Caller) :
    (noteAnswer before after a caller).reads = caller.reads := by
  cases caller with
  | calling call =>
    simp only [noteAnswer]
    split_ifs <;> rfl
  | _ => rfl

@[simp] theorem breakUnless_writing (s : RelaySystem) (ok : Bool) : (s.breakUnless ok).writing = s.writing := by
  cases ok <;> rfl

@[simp] theorem breakUnless_reading (s : RelaySystem) (ok : Bool) : (s.breakUnless ok).reading = s.reading := by
  cases ok <;> rfl

theorem relayAct_roles (h : s.Roles) (action : RelayAction) : (relayAct s action).Roles := by
  cases action with
  | start c request =>
    simp only [relayAct, RelaySystem.start]
    split
    · next hidle =>
      split
      · exact h.of_caller rfl rfl rfl (by rw [hidle]; rfl) (by rw [hidle]; rfl)
      · exact h.of_caller rfl rfl rfl (by rw [hidle]; rfl) (by rw [hidle]; rfl)
    · exact h
  | pack c allocated =>
    refine goOn_roles h fun call hcall hphase => ?_
    have hwrites : (s.callers c).writes = false := by rw [hcall, writes_calling hphase]; rfl
    have hreads : (s.callers c).reads = false := by rw [hcall, reads_calling hphase]; rfl
    unfold RelaySystem.pack
    split
    · split_ifs
      · exact h.of_caller rfl rfl rfl hwrites.symm hreads.symm
      · exact h.of_caller rfl rfl rfl hwrites.symm hreads.symm
    · exact h.of_caller rfl rfl rfl hwrites.symm hreads.symm
  | claim c timely =>
    refine goOn_roles h fun call hcall hphase => ?_
    have hwrites : (s.callers c).writes = false := by rw [hcall, writes_calling hphase]; rfl
    have hreads : (s.callers c).reads = false := by rw [hcall, reads_calling hphase]; rfl
    unfold RelaySystem.claim
    split_ifs with hclaim
    · simp only [Bool.and_eq_true, Bool.not_eq_true'] at hclaim
      have hwriter := h.writer
      rw [hclaim.1.1] at hwriter
      exact ⟨hwriter.take c _, h.reader.keep hreads.symm⟩
    · exact h.of_caller rfl rfl rfl hwrites.symm hreads.symm
  | transfer c n => exact goOn_roles h fun call _ _ => ⟨h.writer, h.reader⟩
  | endWrite c =>
    refine goOn_roles h fun call hcall hphase => ?_
    have hwrites : (s.callers c).writes = true := by rw [hcall, writes_calling hphase]; rfl
    have hreads : (s.callers c).reads = false := by rw [hcall, reads_calling hphase]; rfl
    constructor
    · show Exclusive.Held (RelaySystem.breakUnless _ _).writing
        (Function.update (RelaySystem.breakUnless _ _).callers c _) _
      rw [breakUnless_writing, breakUnless_callers]
      exact h.writer.release hwrites rfl
    · show Exclusive.Held (RelaySystem.breakUnless _ _).reading
        (Function.update (RelaySystem.breakUnless _ _).callers c _) _
      rw [breakUnless_reading, breakUnless_callers]
      exact h.reader.keep hreads.symm
  | takeReader c timely =>
    refine goOn_roles h fun call hcall hphase => ?_
    have hwrites : (s.callers c).writes = false := by rw [hcall, writes_calling hphase]; rfl
    unfold RelaySystem.takeReader
    split_ifs with htake
    · simp only [Bool.and_eq_true, Bool.not_eq_true'] at htake
      have hreader := h.reader
      rw [htake.2] at hreader
      exact ⟨h.writer.keep hwrites.symm, hreader.take c _⟩
    · exact h
  | readNothing c ok =>
    refine goOn_roles h fun call hcall hphase => ?_
    have hwrites : (s.callers c).writes = false := by rw [hcall, writes_calling hphase]; rfl
    have hreads : (s.callers c).reads = true := by rw [hcall, reads_calling hphase]; rfl
    exact h.of_caller rfl rfl rfl hwrites.symm hreads.symm
  | readFrame c =>
    refine goOn_roles h fun call hcall hphase => ?_
    have hwrites : (s.callers c).writes = false := by rw [hcall, writes_calling hphase]; rfl
    have hreads : (s.callers c).reads = true := by rw [hcall, reads_calling hphase]; rfl
    unfold RelaySystem.readFrame
    split
    · exact h
    · have hset : ∀ ok, (s.setCall c { call with phase := .readDone ok }).Roles :=
        fun ok => h.of_caller rfl rfl rfl hwrites.symm hreads.symm
      exact ⟨(hset _).writer.map noteAnswer_writes, (hset _).reader.map noteAnswer_reads⟩
  | endRead c =>
    simp only [relayAct]
    split
    · next call hcall =>
      split
      · next ok hphase =>
        have hwrites : (s.callers c).writes = false := by rw [hcall, writes_calling hphase]; rfl
        have hreads : (s.callers c).reads = true := by rw [hcall, reads_calling hphase]; rfl
        constructor
        · show Exclusive.Held (RelaySystem.breakUnless _ _).writing
            (Function.update (RelaySystem.breakUnless _ _).callers c _) _
          rw [breakUnless_writing, breakUnless_callers]
          exact h.writer.keep hwrites.symm
        · show Exclusive.Held (RelaySystem.breakUnless _ _).reading
            (Function.update (RelaySystem.breakUnless _ _).callers c _) _
          rw [breakUnless_reading, breakUnless_callers]
          exact h.reader.release hreads rfl
      · exact h
    · exact h
  | finish c =>
    refine goOn_roles h fun call hcall hphase => ?_
    have hwrites : (s.callers c).writes = false := by rw [hcall, writes_calling hphase]; rfl
    have hreads : (s.callers c).reads = false := by rw [hcall, reads_calling hphase]; rfl
    exact h.of_caller rfl rfl rfl hwrites.symm hreads.symm
  | retire => exact ⟨h.writer, h.reader⟩
  | answer a => exact ⟨h.writer, h.reader⟩

end Roles

end KeysharpDesktop
