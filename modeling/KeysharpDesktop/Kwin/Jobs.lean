import KeysharpDesktop.Kwin.Envelope
import KeysharpDesktop.Lib.Transition

/-! The daemon's job queue for the KWin script: what waits, what was handed out and what
came back. A free slot holds no job; every other slot is named by its sequence. -/
namespace KeysharpDesktop

def kwinMaxJobs : ℕ := 128

inductive KwinJobState
  | free | queued | dispatched | done
  deriving DecidableEq, Repr

structure KwinJob where
  sequence : Bytes
  opcode : Opcode
  lane : KwinLane
  state : KwinJobState
  deadlineMs : ℕ
  ticket : BitVec 64
  status : BitVec 32
  body : Bytes
  reply : Bytes
  deriving DecidableEq, Repr

/-- A released slot: all bytes zero. -/
def freeSlot : KwinJob := ⟨[], 0, .fast, .free, 0, 0, 0, [], []⟩

structure KwinQueue where
  jobs : List KwinJob
  generation : Bytes
  nextSequence : BitVec 64
  nextTicket : BitVec 64
  parked : KwinLane → Bool

def kwinLaneFor (opcode : Opcode) : KwinLane :=
  if opcode ∈ [Op.windowActive, Op.windowQuery, Op.windowFocus, Op.windowRaise, Op.windowLower,
      Op.windowClose, Op.windowMoveResize, Op.windowMoveResizeXid, Op.windowSetState,
      Op.windowSetOpacity, Op.windowSetAbove, Op.windowSetDecorated, Op.windowSetSkipTaskbar,
      Op.cursorPosition, Op.workArea] then .fast
  else if opcode ∈ [Op.windowList, Op.windowHandles] then .slow
  else .none

def formatSequence (value : BitVec 64) : Bytes := hexText value.toNat kwinSeqHex

theorem formatSequence_injective {v w : BitVec 64} (h : formatSequence v = formatSequence w) : v = w := by
  have hmod := hexText_injective h
  have hv : v.toNat < 16 ^ kwinSeqHex := v.isLt
  have hw : w.toNat < 16 ^ kwinSeqHex := w.isLt
  rw [Nat.mod_eq_of_lt hv, Nat.mod_eq_of_lt hw] at hmod
  exact BitVec.eq_of_toNat_eq hmod

theorem validSequence_formatSequence (v : BitVec 64) : validSequence (formatSequence v) := by
  simp [validSequence, formatSequence, hexText_all]

def kwinQueueInit (generation : Bytes) : Option KwinQueue :=
  if validGeneration generation then
    some ⟨List.replicate kwinMaxJobs freeSlot, generation, 1, 1, fun _ => false⟩
  else none

/-- The first slot in use under a sequence. -/
def slotOf (jobs : List KwinJob) (sequence : Bytes) : Option ℕ :=
  jobs.findIdx? fun job => job.state ≠ .free ∧ job.sequence = sequence

def kwinQueueFind (q : KwinQueue) (sequence : Bytes) : Option KwinJob :=
  (slotOf q.jobs sequence).bind (q.jobs[·]?)

def kwinQueueSubmit (q : KwinQueue) (opcode : Opcode) (body : Bytes) (nowMs : ℕ) :
    Option (KwinQueue × Bytes) :=
  let lane := kwinLaneFor opcode
  if lane = .none then none
  else
    match q.jobs.findIdx? (fun job => job.state = .free) with
    | none => none
    | some i =>
      let sequence := formatSequence q.nextSequence
      let job : KwinJob := ⟨sequence, opcode, lane, .queued, nowMs + kwinOpDeadlineMs, q.nextTicket,
        0, body, []⟩
      some ({ q with jobs := q.jobs.set i job, nextSequence := q.nextSequence + 1,
                     nextTicket := q.nextTicket + 1 }, sequence)

/-- The scan for the oldest queued job of a lane, from slot `i` on. -/
def oldestQueued (lane : KwinLane) : ℕ → Option (ℕ × KwinJob) → List KwinJob → Option (ℕ × KwinJob)
  | _, oldest, [] => oldest
  | i, oldest, job :: jobs =>
    if job.state ≠ .queued ∨ job.lane ≠ lane then oldestQueued lane (i + 1) oldest jobs
    else
      match oldest with
      | none => oldestQueued lane (i + 1) (some (i, job)) jobs
      | some (_, o) =>
        if job.ticket < o.ticket then oldestQueued lane (i + 1) (some (i, job)) jobs
        else oldestQueued lane (i + 1) oldest jobs

/-- The batch a lane is handed, oldest first, and the slots with that batch dispatched. -/
def takeJobs (lane : KwinLane) : ℕ → List KwinJob → List KwinJob × List KwinJob
  | 0, jobs => ([], jobs)
  | limit + 1, jobs =>
    match oldestQueued lane 0 none jobs with
    | none => ([], jobs)
    | some (i, job) =>
      let job := { job with state := .dispatched }
      let (batch, jobs) := takeJobs lane limit (jobs.set i job)
      (job :: batch, jobs)

def kwinQueueTake (q : KwinQueue) (lane : KwinLane) (capacity : ℕ) : List KwinJob × KwinQueue :=
  let (batch, jobs) := takeJobs lane (min capacity (laneCapacity lane)) q.jobs
  (batch, { q with jobs := jobs })

def dispatchJobs (q : KwinQueue) (lane : KwinLane) (nowMs : ℕ) : List KwinDispatch × KwinQueue :=
  let (batch, q) := kwinQueueTake q lane kwinJobsPerReplyFast
  (batch.map fun job => ⟨job.sequence, job.opcode,
    if nowMs < job.deadlineMs then BitVec.ofNat 32 (job.deadlineMs - nowMs) else 0, job.body⟩, q)

def setParked (q : KwinQueue) (lane : KwinLane) (parked : Bool) : KwinQueue :=
  { q with parked := Function.update q.parked lane parked }

inductive KwinPollOutcome
  | answered (reply : Buffer) | parked | refused

def kwinQueuePoll (q : KwinQueue) (envelope : Bytes) (nowMs : ℕ) (reply : Buffer) :
    KwinPollOutcome × KwinQueue :=
  match kwinParsePoll envelope with
  | none => (.refused, q)
  | some poll =>
    if poll.generation ≠ q.generation then (.refused, q)
    else
      let (dispatch, q) := dispatchJobs q poll.lane nowMs
      if dispatch = [] then (.parked, setParked q poll.lane true)
      else
        let q := setParked q poll.lane false
        match kwinFormatPollReply q.generation poll.lane 0 dispatch reply with
        | none => (.refused, q)
        | some reply => (.answered reply, q)

def kwinQueuePollParked (q : KwinQueue) (lane : KwinLane) (nowMs : ℕ) (reply : Buffer) :
    Option Buffer × KwinQueue :=
  if lane = .none then (none, q)
  else
    let (dispatch, q) := dispatchJobs (setParked q lane false) lane nowMs
    let idle := if dispatch = [] then BitVec.ofNat 32 kwinIdleReplyMs else 0
    (kwinFormatPollReply q.generation lane idle dispatch reply, q)

/-- Refuses, without changing anything, a generation other than the queue's, a sequence
that names no job and a job that is not dispatched. -/
def kwinQueueComplete (q : KwinQueue) (generation sequence : Bytes) (status : BitVec 32)
    (reply : Bytes) : Option KwinQueue :=
  if !validGeneration generation ∨ generation ≠ q.generation then none
  else do
    let i ← slotOf q.jobs sequence
    let job ← q.jobs[i]?
    if job.state ≠ .dispatched then none
    else
      let reply := if reply = [] then job.reply else reply
      some { q with jobs := q.jobs.set i { job with state := .done, status := status, reply := reply } }

/-- The second pass of a report; it stops at the first completion that is refused. -/
def completeAll (q : KwinQueue) : List KwinDone → Bool × KwinQueue
  | [] => (true, q)
  | d :: ds =>
    match kwinQueueComplete q q.generation d.sequence d.status d.body with
    | none => (false, q)
    | some q => completeAll q ds

def isDispatched (q : KwinQueue) (d : KwinDone) : Bool :=
  (kwinQueueFind q d.sequence).any (fun job => job.state = .dispatched)

/-- The outcome, the queue after the call and the reply buffer. -/
def kwinQueueReport (q : KwinQueue) (envelope : Bytes) (reply : Buffer) :
    Bool × KwinQueue × Buffer :=
  match kwinParseReport envelope with
  | none => (false, q, reply)
  | some report =>
    if report.generation ≠ q.generation then (false, q, reply)
    else if !report.done.all (isDispatched q) then (false, q, reply)
    else
      match completeAll q report.done with
      | (false, q) => (false, q, reply)
      | (true, q) =>
        match kwinFormatReportAck q.generation reply with
        | none => (false, q, reply)
        | some reply => (true, q, reply)

def kwinQueueExpire (q : KwinQueue) (nowMs : ℕ) : KwinQueue :=
  { q with jobs := q.jobs.map fun job =>
      if job.state ≠ .queued ∨ nowMs < job.deadlineMs then job else freeSlot }

def kwinQueueRelease (q : KwinQueue) (sequence : Bytes) : KwinQueue :=
  match slotOf q.jobs sequence with
  | none => q
  | some i => { q with jobs := q.jobs.set i freeSlot }

/-- The calls that change a queue. -/
inductive KwinQueueCall
  | submit (opcode : Opcode) (body : Bytes) (nowMs : ℕ)
  | take (lane : KwinLane) (capacity : ℕ)
  | poll (envelope : Bytes) (nowMs : ℕ) (reply : Buffer)
  | pollParked (lane : KwinLane) (nowMs : ℕ) (reply : Buffer)
  | report (envelope : Bytes) (reply : Buffer)
  | complete (generation sequence : Bytes) (status : BitVec 32) (reply : Bytes)
  | expire (nowMs : ℕ)
  | release (sequence : Bytes)

def kwinQueueCall (q : KwinQueue) : KwinQueueCall → KwinQueue
  | .submit opcode body nowMs => ((kwinQueueSubmit q opcode body nowMs).map Prod.fst).getD q
  | .take lane capacity => (kwinQueueTake q lane capacity).2
  | .poll envelope nowMs reply => (kwinQueuePoll q envelope nowMs reply).2
  | .pollParked lane nowMs reply => (kwinQueuePollParked q lane nowMs reply).2
  | .report envelope reply => (kwinQueueReport q envelope reply).2.1
  | .complete generation sequence status reply =>
    (kwinQueueComplete q generation sequence status reply).getD q
  | .expire nowMs => kwinQueueExpire q nowMs
  | .release sequence => kwinQueueRelease q sequence

/-- Queues the daemon can come to hold. -/
def KwinQueue.Reachable (q : KwinQueue) : Prop :=
  ∃ generation start calls, kwinQueueInit generation = some start ∧
    Transition.Run (fun q call q' => q' = kwinQueueCall q call) start calls q

end KeysharpDesktop
