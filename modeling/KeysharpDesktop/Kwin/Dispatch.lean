import KeysharpDesktop.Kwin.Park

/-! Dispatch and delivery: the text of a poll reply, which always fits its buffer, and that no
job is marked as handed out in a call whose reply does not carry it. -/
namespace KeysharpDesktop

/-- The line that announces a job. -/
def jobLine (job : KwinDispatch) : Bytes :=
  ascii "job " ++ (job.sequence ++ (ascii " " ++ (hexText job.opcode.toNat 4 ++ (ascii " " ++
    (decimalText job.budgetMs.toNat ++ (ascii " " ++
      (decimalText (BitVec.ofNat 32 job.body.length).toNat ++ ascii "\n")))))))

def replyHead (generation : Bytes) (lane : KwinLane) (idleMs : BitVec 32) : Bytes :=
  ascii "KSK1\n" ++ (ascii "gen " ++ (generation ++ (ascii "\n" ++ (ascii "lane " ++ (laneName lane ++
    (ascii "\n" ++ (ascii "idle " ++ (decimalText idleMs.toNat ++ ascii "\n"))))))))

/-- A poll reply as the script reads it: the head, a line for each job, and the bodies. -/
def pollReplyText (generation : Bytes) (lane : KwinLane) (idleMs : BitVec 32)
    (jobs : List KwinDispatch) : Bytes :=
  replyHead generation lane idleMs ++ (jobs.flatMap jobLine ++ (ascii "end\n" ++
    jobs.flatMap KwinDispatch.body))

section Text

variable {generation : Bytes} {lane : KwinLane} {idleMs : BitVec 32} {jobs : List KwinDispatch}

theorem appendHex_writes (value : ℕ) {digits : ℕ} (h : digits ≤ 16) :
    Writes (appendHex · value digits) (hexText value digits) := by
  have heq : ∀ out, appendHex out value digits = bufferBytes out (hexText value digits) := by
    intro out
    rw [appendHex, if_neg (Nat.not_lt.mpr h)]
  simp only [heq]
  exact bufferBytes_writes _

theorem formatJob_writes (job : KwinDispatch) : Writes (formatJob · job) (jobLine job) :=
  (bufferBytes_writes _).bind <| (bufferBytes_writes _).bind <| (bufferBytes_writes _).bind <|
    (appendHex_writes _ (by omega)).bind <| (bufferBytes_writes _).bind <| (appendDecimal_writes _).bind <|
    (bufferBytes_writes _).bind <| (appendDecimal_writes _).bind (bufferBytes_writes _)

theorem bodyUnlessEmpty_writes (job : KwinDispatch) :
    Writes (fun out => if job.body = [] then some out else bufferBytes out job.body) job.body := by
  by_cases hempty : job.body = []
  · simp only [hempty, if_true]
    exact .skip
  · simp only [if_neg hempty]
    exact bufferBytes_writes _

/-- What `kwinFormatPollReply` appends, once its arguments are accepted. -/
theorem kwinFormatPollReply_writes (hg : validGeneration generation) (hlane : lane ≠ .none)
    (hcount : jobs.length ≤ laneCapacity lane) (hseq : ∀ job ∈ jobs, validSequence job.sequence) :
    Writes (kwinFormatPollReply generation lane idleMs jobs) (pollReplyText generation lane idleMs jobs) := by
  have hall : jobs.all (fun job => validSequence job.sequence) = true := List.all_eq_true.mpr hseq
  have hrest := (Writes.foldlM formatJob_writes jobs).bind <|
    (bufferBytes_writes (ascii "end\n")).bind (Writes.foldlM bodyUnlessEmpty_writes jobs)
  have hwhole := (bufferBytes_writes (ascii "KSK1\n")).bind <| (bufferBytes_writes (ascii "gen ")).bind <|
    (bufferBytes_writes generation).bind <| (bufferBytes_writes (ascii "\n")).bind <|
    (bufferBytes_writes (ascii "lane ")).bind <| (bufferBytes_writes (laneName lane)).bind <|
    (bufferBytes_writes (ascii "\n")).bind <| (bufferBytes_writes (ascii "idle ")).bind <|
    (appendDecimal_writes idleMs).bind <| (bufferBytes_writes (ascii "\n")).bind hrest
  have hcount := Nat.not_lt.mpr hcount
  unfold kwinFormatPollReply
  simp only [hg, hall, hlane, hcount, Bool.not_true, Bool.false_eq_true, if_false, pollReplyText, replyHead,
    List.append_assoc]
  exact hwhole

/-- ASCII other than NUL. -/
def isPlain (b : UInt8) : Bool := 0 < b && b < 128

theorem isHexDigit_plain {b : UInt8} : isHexDigit b → isPlain b := by
  refine forall_byte (p := fun b => isHexDigit b → isPlain b) ?_ b
  decide +kernel

theorem isRequestByte_plain {b : UInt8} : isRequestByte b → isPlain b := by
  refine forall_byte (p := fun b => isRequestByte b → isPlain b) ?_ b
  decide +kernel

theorem decimalText_plain (value : ℕ) : ∀ b ∈ decimalText value, isPlain b := by
  intro b hb
  exact isRequestByte_plain (decimalText_bytes value b hb)

theorem cString_eq_self {bs : Bytes} (h : ∀ b ∈ bs, isPlain b) : cString bs = bs := by
  rw [cString, List.takeWhile_eq_self_iff]
  intro b hb
  have hne : b ≠ 0 := by
    rintro rfl
    exact absurd (h 0 hb) (by decide)
  simpa using hne

theorem validGeneration_iff {generation : Bytes} : validGeneration generation ↔
    generation.length = kwinGenerationHex ∧ ∀ b ∈ generation, isHexDigit b := by
  simp [validGeneration]

theorem validSequence_iff {sequence : Bytes} : validSequence sequence ↔
    sequence.length = kwinSeqHex ∧ ∀ b ∈ sequence, isHexDigit b := by
  simp [validSequence]

/-- What the daemon hands out: a job under a valid sequence with a body of request text. -/
structure KwinDispatch.Fit (job : KwinDispatch) : Prop where
  sequence : validSequence job.sequence
  body : RequestBody job.body

theorem jobLine_plain {job : KwinDispatch} (h : job.Fit) : ∀ b ∈ jobLine job, isPlain b := by
  have hword : ∀ b ∈ ascii "job ", isPlain b := List.all_iff_forall_prop.mp (by decide)
  have hspace : ∀ b ∈ ascii " ", isPlain b := List.all_iff_forall_prop.mp (by decide)
  have hend : ∀ b ∈ ascii "\n", isPlain b := List.all_iff_forall_prop.mp (by decide)
  have hseq := (validSequence_iff.mp h.sequence).2
  have hop := List.all_eq_true.mp (hexText_all job.opcode.toNat 4)
  intro b hb
  simp only [jobLine, List.mem_append] at hb
  rcases hb with hb | hb | hb | hb | hb | hb | hb | hb | hb
  · exact hword b hb
  · exact isHexDigit_plain (hseq b hb)
  · exact hspace b hb
  · exact isHexDigit_plain (hop b hb)
  · exact hspace b hb
  · exact decimalText_plain _ b hb
  · exact hspace b hb
  · exact decimalText_plain _ b hb
  · exact hend b hb

theorem replyHead_plain (hg : validGeneration generation) :
    ∀ b ∈ replyHead generation lane idleMs, isPlain b := by
  have hgen := (validGeneration_iff.mp hg).2
  have hmagic : ∀ b ∈ ascii "KSK1\n", isPlain b := List.all_iff_forall_prop.mp (by decide)
  have hkey : ∀ b ∈ ascii "gen ", isPlain b := List.all_iff_forall_prop.mp (by decide)
  have hend : ∀ b ∈ ascii "\n", isPlain b := List.all_iff_forall_prop.mp (by decide)
  have hlanekey : ∀ b ∈ ascii "lane ", isPlain b := List.all_iff_forall_prop.mp (by decide)
  have hname : ∀ b ∈ laneName lane, isPlain b := by
    cases lane <;> exact List.all_iff_forall_prop.mp (by decide)
  have hidle : ∀ b ∈ ascii "idle ", isPlain b := List.all_iff_forall_prop.mp (by decide)
  intro b hb
  simp only [replyHead, List.mem_append] at hb
  rcases hb with hb | hb | hb | hb | hb | hb | hb | hb | hb | hb
  · exact hmagic b hb
  · exact hkey b hb
  · exact isHexDigit_plain (hgen b hb)
  · exact hend b hb
  · exact hlanekey b hb
  · exact hname b hb
  · exact hend b hb
  · exact hidle b hb
  · exact decimalText_plain _ b hb
  · exact hend b hb

/-- A poll reply is plain text, so it is one string to the bus. -/
theorem pollReplyText_plain (hg : validGeneration generation) (hfit : ∀ job ∈ jobs, job.Fit) :
    ∀ b ∈ pollReplyText generation lane idleMs jobs, isPlain b := by
  have hend : ∀ b ∈ ascii "end\n", isPlain b := List.all_iff_forall_prop.mp (by decide)
  intro b hb
  simp only [pollReplyText, List.mem_append, List.mem_flatMap] at hb
  rcases hb with hb | ⟨job, hjob, hb⟩ | hb | ⟨job, hjob, hb⟩
  · exact replyHead_plain hg b hb
  · exact jobLine_plain (hfit job hjob) b hb
  · exact hend b hb
  · exact isRequestByte_plain ((hfit job hjob).body.bytes b hb)

theorem length_decimalText_32 (value : BitVec 32) : (decimalText value.toNat).length ≤ 10 :=
  length_decimalText (Nat.lt_trans value.isLt (by norm_num)) (by omega)

theorem length_jobLine {job : KwinDispatch} (h : job.Fit) : (jobLine job).length ≤ 48 := by
  have hseq := (validSequence_iff.mp h.sequence).1
  have hbudget := length_decimalText_32 job.budgetMs
  have hlength := length_decimalText_32 (BitVec.ofNat 32 job.body.length)
  have hword : (ascii "job ").length = 4 := by decide
  have hspace : (ascii " ").length = 1 := by decide
  have hend : (ascii "\n").length = 1 := by decide
  simp only [jobLine, List.length_append, length_hexText, hseq, hword, hspace, hend, kwinSeqHex]
  omega

theorem length_replyHead (hg : validGeneration generation) :
    (replyHead generation lane idleMs).length ≤ 68 := by
  have hgen := (validGeneration_iff.mp hg).1
  have hidle := length_decimalText_32 idleMs
  have hmagic : (ascii "KSK1\n").length = 5 := by decide
  have hkey : (ascii "gen ").length = 4 := by decide
  have hend : (ascii "\n").length = 1 := by decide
  have hlanekey : (ascii "lane ").length = 5 := by decide
  have hname : (laneName lane).length = 4 := by cases lane <;> decide
  have hidlekey : (ascii "idle ").length = 5 := by decide
  simp only [replyHead, List.length_append, hgen, hmagic, hkey, hend, hlanekey, hname, hidlekey,
    kwinGenerationHex]
  omega

theorem length_flatMap_le {α : Type*} {f : α → Bytes} {n : ℕ} {l : List α} (h : ∀ a ∈ l, (f a).length ≤ n) :
    (l.flatMap f).length ≤ l.length * n := by
  induction l with
  | nil => simp
  | cons a l ih =>
    have hhead := h a List.mem_cons_self
    have htail := ih fun b hb => h b (List.mem_cons_of_mem a hb)
    rw [List.flatMap_cons, List.length_append, List.length_cons, Nat.add_mul, Nat.one_mul]
    omega

/-- The largest reply a lane can be given is far below the size of its buffer. -/
theorem length_pollReplyText (hg : validGeneration generation) (hcount : jobs.length ≤ laneCapacity lane)
    (hfit : ∀ job ∈ jobs, job.Fit) :
    (pollReplyText generation lane idleMs jobs).length ≤ replyCapacity := by
  have hhead : (replyHead generation lane idleMs).length ≤ 68 := length_replyHead hg
  have hlines : (jobs.flatMap jobLine).length ≤ jobs.length * 48 :=
    length_flatMap_le fun job hjob => length_jobLine (hfit job hjob)
  have hbodies : (jobs.flatMap KwinDispatch.body).length ≤ jobs.length * requestCapacity :=
    length_flatMap_le fun job hjob => Nat.le_of_lt (hfit job hjob).body.short
  have hend : (ascii "end\n").length = 4 := by decide
  have hjobs : jobs.length ≤ 8 := by
    refine hcount.trans ?_
    cases lane <;> decide
  simp only [pollReplyText, List.length_append, hend]
  unfold requestCapacity at hbodies
  unfold replyCapacity
  omega

/-- A reply to a batch that fits is always formatted, and is the whole text. -/
theorem kwinFormatPollReply_isText (hg : validGeneration generation) (hlane : lane ≠ .none)
    (hcount : jobs.length ≤ laneCapacity lane) (hfit : ∀ job ∈ jobs, job.Fit) :
    ∃ reply, kwinFormatPollReply generation lane idleMs jobs (bufferInit replyCapacity) = some reply ∧
      cString reply.data = pollReplyText generation lane idleMs jobs := by
  have hwrites : Writes (kwinFormatPollReply generation lane idleMs jobs)
      (pollReplyText generation lane idleMs jobs) :=
    kwinFormatPollReply_writes hg hlane hcount fun job hjob => (hfit job hjob).sequence
  have hroom : (bufferInit replyCapacity).data.length + (pollReplyText generation lane idleMs jobs).length ≤
      (bufferInit replyCapacity).maximum := by
    have hlength : (pollReplyText generation lane idleMs jobs).length ≤ replyCapacity :=
      length_pollReplyText hg hcount hfit
    simpa [bufferInit] using hlength
  obtain ⟨reply, hreply, hdata, -⟩ := hwrites.exists_of_fits hroom
  refine ⟨reply, hreply, ?_⟩
  rw [hdata]
  exact cString_eq_self (pollReplyText_plain hg hfit)

end Text

/-- The job goes out in a reply of this generation: its line and its body stand in the text that
a call is answered with. -/
def Carried (out : List BusOutput) (generation : Bytes) (job : KwinJob) : Prop :=
  ∃ invocation idleMs jobs, BusOutput.returned invocation (pollReplyText generation job.lane idleMs jobs) ∈ out ∧
    ∃ d ∈ jobs, d.sequence = job.sequence ∧ d.opcode = job.opcode ∧ d.body = job.body

/-- What waits in the queue can be sent. -/
structure KwinQueue.Sendable (q : KwinQueue) : Prop where
  generation : validGeneration q.generation
  queued : ∀ job ∈ q.jobs, job.state = .queued → validSequence job.sequence ∧ RequestBody job.body

section Queue

variable {q r : KwinQueue} {lane : KwinLane} {nowMs : ℕ} {job : KwinJob} {i : ℕ}

theorem KwinQueue.Moves.generation {es : List KwinQueueEvent} (h : q.Moves es r) :
    r.generation = q.generation := by
  induction h with
  | nil => rfl
  | cons hmove _ ih => exact ih.trans hmove.generation

theorem KwinQueue.Sendable.moves (h : q.Sendable) {es : List KwinQueueEvent} (hmoves : q.Moves es r)
    (hes : enteredAll es = []) : r.Sendable := by
  constructor
  · rw [hmoves.generation]
    exact h.generation
  · intro job hjob hstate
    exact h.queued job (hmoves.mem_of_queued hes job hjob hstate) hstate

theorem KwinQueue.Sendable.submit (h : q.Sendable) {opcode : Opcode} {body sequence : Bytes}
    (hbody : RequestBody body) (hsubmit : kwinQueueSubmit q opcode body nowMs = some (r, sequence)) :
    r.Sendable := by
  obtain ⟨k, slot, -, -, -, -, rfl⟩ := kwinQueueSubmit_move hsubmit
  constructor
  · exact h.generation
  · intro job hjob hstate
    rcases List.mem_or_eq_of_mem_set hjob with hjob | rfl
    · exact h.queued job hjob hstate
    · exact ⟨validSequence_formatSequence _, hbody⟩

theorem dispatchJobs_length (q : KwinQueue) (lane : KwinLane) (nowMs : ℕ) :
    (dispatchJobs q lane nowMs).1.length ≤ laneCapacity lane := by
  have hlen := (kwinQueueTake_moves q lane kwinJobsPerReplyFast).2.2
  have hmap : (dispatchJobs q lane nowMs).1.length =
      (kwinQueueTake q lane kwinJobsPerReplyFast).1.length := List.length_map _
  rw [hmap]
  exact hlen

/-- What is handed out can be sent. -/
theorem KwinQueue.Sendable.fit (h : q.Sendable) (lane : KwinLane) (nowMs : ℕ) :
    ∀ d ∈ (dispatchJobs q lane nowMs).1, d.Fit := by
  intro d hd
  obtain ⟨job, hjob, rfl⟩ := List.mem_map.mp hd
  obtain ⟨before, hbefore, hqueued, rfl⟩ := mem_takeJobs hjob
  obtain ⟨hseq, hbody⟩ := h.queued before hbefore hqueued
  exact ⟨hseq, hbody⟩

/-- A job of the batch is among what the reply announces. -/
theorem mem_dispatchJobs (h : job ∈ (kwinQueueTake q lane kwinJobsPerReplyFast).1) (nowMs : ℕ) :
    ∃ d ∈ (dispatchJobs q lane nowMs).1, d.sequence = job.sequence ∧ d.opcode = job.opcode ∧
      d.body = job.body :=
  ⟨_, List.mem_map.mpr ⟨job, h, rfl⟩, rfl, rfl, rfl⟩

theorem setParked_sendable (h : q.Sendable) (lane : KwinLane) (parked : Bool) :
    (setParked q lane parked).Sendable := ⟨h.generation, h.queued⟩

/-- The end of a park always has a reply to give. -/
theorem kwinQueuePollParked_reply (h : q.Sendable) (hlane : lane ≠ .none) (nowMs : ℕ) :
    ∃ reply idleMs, (kwinQueuePollParked q lane nowMs (bufferInit replyCapacity)).1 = some reply ∧
      cString reply.data =
        pollReplyText q.generation lane idleMs (dispatchJobs (setParked q lane false) lane nowMs).1 := by
  have hsend := setParked_sendable h lane false
  obtain ⟨reply, hreply, htext⟩ := kwinFormatPollReply_isText h.generation hlane
    (dispatchJobs_length (setParked q lane false) lane nowMs) (hsend.fit lane nowMs)
  refine ⟨reply, _, ?_, htext⟩
  rw [kwinQueuePollParked, if_neg hlane]
  exact hreply

/-- A poll that hands jobs out always has a reply to give. -/
theorem kwinQueuePoll_reply (h : q.Sendable) {envelope : Bytes} {poll : KwinPoll}
    (hparse : kwinParsePoll envelope = some poll) (hgen : poll.generation = q.generation)
    (hsome : (dispatchJobs q poll.lane nowMs).1 ≠ []) :
    ∃ reply, (kwinQueuePoll q envelope nowMs (bufferInit replyCapacity)).1 = .answered reply ∧
      cString reply.data =
        pollReplyText q.generation poll.lane 0 (dispatchJobs q poll.lane nowMs).1 := by
  obtain ⟨reply, hreply, htext⟩ := kwinFormatPollReply_isText h.generation (kwinParsePoll_lane hparse)
    (dispatchJobs_length q poll.lane nowMs) (h.fit poll.lane nowMs)
  refine ⟨reply, ?_, htext⟩
  have hformat : kwinFormatPollReply (setParked (dispatchJobs q poll.lane nowMs).2 poll.lane false).generation
      poll.lane 0 (dispatchJobs q poll.lane nowMs).1 (bufferInit replyCapacity) = some reply := hreply
  simp only [kwinQueuePoll, hparse, hgen, ne_eq, not_true_eq_false, if_false, if_neg hsome, hformat]

/-- A poll marks a job as handed out only when its answer carries the job. -/
theorem kwinQueuePoll_delivers (h : q.Sendable) {envelope : Bytes} {outcome : KwinPollOutcome}
    (hpoll : kwinQueuePoll q envelope nowMs (bufferInit replyCapacity) = (outcome, r))
    (hi : r.jobs[i]? = some job) (hstate : job.state = .dispatched) :
    q.jobs[i]? = some job ∨ ∃ reply jobs, outcome = .answered reply ∧
      cString reply.data = pollReplyText q.generation job.lane 0 jobs ∧
      ∃ d ∈ jobs, d.sequence = job.sequence ∧ d.opcode = job.opcode ∧ d.body = job.body := by
  have hqueue : r = kwinQueueCall q (.poll envelope nowMs (bufferInit replyCapacity)) := by
    rw [kwinQueueCall, hpoll]
  rw [hqueue] at hi
  rcases kwinQueueCall_dispatched q _ hi hstate with hsame | ⟨hmem, -⟩
  · exact .inl hsame
  right
  simp only [handedBatch] at hmem
  cases hparse : kwinParsePoll envelope with
  | none => simp [hparse] at hmem
  | some poll =>
    simp only [hparse] at hmem
    split_ifs at hmem with hgen
    · simp at hmem
    · have hlane := (kwinQueueTake_moves q poll.lane kwinJobsPerReplyFast).2.1 job hmem
      obtain ⟨d, hd, hrest⟩ := mem_dispatchJobs hmem nowMs
      obtain ⟨reply, hreply, htext⟩ := kwinQueuePoll_reply h hparse (not_not.mp hgen) (List.ne_nil_of_mem hd)
      rw [hpoll] at hreply
      refine ⟨reply, _, hreply, ?_, d, hd, hrest⟩
      rw [hlane]
      exact htext

end Queue

section Bus

variable {bus : KwinBus} {i : ℕ} {job : KwinJob} {lane : KwinLane} {nowMs : ℕ} {generation : Bytes}
  {out out' : List BusOutput}

theorem Carried.mono (h : Carried out generation job) (hsub : out ⊆ out') :
    Carried out' generation job := by
  obtain ⟨invocation, idleMs, jobs, hmem, hrest⟩ := h
  exact ⟨invocation, idleMs, jobs, hsub hmem, hrest⟩

/-- Whatever the end of a park hands out, it delivers. -/
theorem releasePark_delivers (h : bus.queue.Sendable) (hlane : lane ≠ .none)
    (hi : (releasePark bus lane nowMs).1.queue.jobs[i]? = some job) (hstate : job.state = .dispatched) :
    bus.queue.jobs[i]? = some job ∨
      Carried (releasePark bus lane nowMs).2 bus.queue.generation job := by
  cases hwait : bus.parked (laneSlot lane) with
  | none =>
    left
    simpa only [releasePark, hwait] using hi
  | some invocation =>
    have hqueue : (releasePark bus lane nowMs).1.queue =
        kwinQueueCall bus.queue (.pollParked lane nowMs (bufferInit replyCapacity)) := by
      simp only [releasePark, hwait]
      rfl
    rw [hqueue] at hi
    rcases kwinQueueCall_dispatched bus.queue _ hi hstate with hsame | ⟨hmem, -⟩
    · exact .inl hsame
    · right
      simp only [handedBatch, if_neg hlane] at hmem
      have hjob := (kwinQueueTake_moves (setParked bus.queue lane false) lane kwinJobsPerReplyFast).2.1 job hmem
      obtain ⟨reply, idleMs, hreply, htext⟩ := kwinQueuePollParked_reply h hlane nowMs
      refine ⟨invocation, idleMs, _, ?_, mem_dispatchJobs hmem nowMs⟩
      have hout : (releasePark bus lane nowMs).2 = [.returned invocation (cString reply.data)] := by
        simp only [releasePark, hwait, hreply]
      rw [hout, htext, hjob]
      exact List.mem_cons_self

theorem releasePark_sendable (h : bus.queue.Sendable) : (releasePark bus lane nowMs).1.queue.Sendable := by
  rcases releasePark_queue bus lane nowMs with hqueue | hqueue
  · rw [hqueue]
    exact h
  · rw [hqueue]
    exact h.moves (kwinQueueCall_moves _ _) (handedEvents_quiet _).1

/-- A request that becomes a job is handed out at once only in a reply that carries it. -/
theorem relayRequest_delivers (h : bus.queue.Sendable) (request : RelayRequest) (written : Bool)
    (hi : (relayRequest bus request nowMs written).1.queue.jobs[i]? = some job)
    (hstate : job.state = .dispatched) :
    bus.queue.jobs[i]? = some job ∨
      Carried (relayRequest bus request nowMs written).2 bus.queue.generation job := by
  rcases relayRequest_cases bus request nowMs written with
    ⟨status, -, hrequest⟩ | ⟨text, index, slot, queue, sequence, htext, -, -, hsubmit, hrequest⟩
  · rw [hrequest] at hi
    exact .inl hi
  · rw [hrequest] at hi ⊢
    have hsend := h.submit (kwinRequestText_body htext) hsubmit
    obtain ⟨k, slot', -, -, hlane, -, hqueue⟩ := kwinQueueSubmit_move hsubmit
    have hgen : queue.generation = bus.queue.generation := by rw [hqueue]
    have hsend' : ({ bus with
        queue
        inflight := bus.inflight.set index ⟨true, request.requestId, request.opcode, sequence⟩ } :
          KwinBus).queue.Sendable := hsend
    rcases releasePark_delivers hsend' hlane hi hstate with hsame | hdelivered
    · left
      have hmoves := kwinQueueCall_moves bus.queue (.submit request.opcode text nowMs)
      simp only [kwinQueueCall, kwinQueueEvents, hsubmit, Option.map_some, Option.getD_some] at hmoves
      exact hmoves.slot_dispatched rfl hsame hstate
    · right
      rw [hgen] at hdelivered
      exact hdelivered.mono (List.subset_cons_self _ _)

theorem relayRequest_sendable (h : bus.queue.Sendable) (request : RelayRequest) (written : Bool) :
    (relayRequest bus request nowMs written).1.queue.Sendable := by
  rcases relayRequest_cases bus request nowMs written with
    ⟨status, -, hrequest⟩ | ⟨text, index, slot, queue, sequence, htext, -, -, hsubmit, hrequest⟩
  · rw [hrequest]
    exact h
  · rw [hrequest]
    have hsend := h.submit (kwinRequestText_body htext) hsubmit
    exact releasePark_sendable hsend

/-- A report hands nothing out, and neither does the drain behind it. -/
theorem kwinQueueReport_undispatched {q r : KwinQueue} {envelope : Bytes} {reply reply' : Buffer} {ok : Bool}
    (h : kwinQueueReport q envelope reply = (ok, r, reply')) :
    ∃ es, q.Moves es r ∧ enteredAll es = [] ∧ handedAll es = [] := by
  have hmoves := kwinQueueCall_moves q (.report envelope reply)
  have hr : kwinQueueCall q (.report envelope reply) = r := by
    rw [kwinQueueCall, h]
  rw [hr] at hmoves
  refine ⟨_, hmoves, ?_, ?_⟩
  · simp [kwinQueueEvents, enteredAll]
  · simp [kwinQueueEvents, handedAll]

theorem handled_delivers (h : bus.queue.Sendable) {envelope : Bytes} {written : ℕ → Bool}
    {method : BusMethod} {new : List KwinDone} {result : KwinBus × List BusOutput}
    (hhandled : Handled bus envelope nowMs written method new result)
    (hi : result.1.queue.jobs[i]? = some job) (hstate : job.state = .dispatched) :
    bus.queue.jobs[i]? = some job ∨ Carried result.2 bus.queue.generation job := by
  cases hhandled with
  | denied _ text => exact .inl hi
  | acknowledged _ reply => exact .inl hi
  | reported queue reply hreport =>
    obtain ⟨es, hmoves, -, hes⟩ := kwinQueueReport_undispatched hreport
    have hdrain := relayDrainFrom_parks written kwinMaxJobs 0 (bus.counted queue)
    unfold relayDrain at hi
    generalize relayDrainFrom written kwinMaxJobs 0 (bus.counted queue) = drained at hdrain hi
    obtain ⟨-, -, hfree, -, -⟩ := hdrain
    exact .inl (hmoves.slot_dispatched hes (hfree.slot_dispatched rfl hi hstate) hstate)
  | unreported queue reply hreport =>
    obtain ⟨es, hmoves, -, hes⟩ := kwinQueueReport_undispatched hreport
    exact .inl (hmoves.slot_dispatched hes hi hstate)
  | polled queue reply hpoll =>
    rcases kwinQueuePoll_delivers h hpoll hi hstate with hsame | ⟨reply', jobs, houtcome, htext, hd⟩
    · exact .inl hsame
    · cases houtcome
      refine .inr ⟨bus.invocations, 0, jobs, ?_, hd⟩
      rw [htext]
      exact List.mem_cons_self
  | parked queue poll hparse hpoll =>
    have hqueue : queue = kwinQueueCall bus.queue (.poll envelope nowMs (bufferInit replyCapacity)) := by
      rw [kwinQueueCall, hpoll]
    have hsend : (bus.counted queue).queue.Sendable := by
      show queue.Sendable
      rw [hqueue]
      exact h.moves (kwinQueueCall_moves _ _) (handedEvents_quiet _).1
    have hgen : (bus.counted queue).queue.generation = bus.queue.generation := by
      show queue.generation = bus.queue.generation
      rw [hqueue]
      exact (kwinQueueCall_moves _ _).generation
    have hi : (releasePark (bus.counted queue) poll.lane nowMs).1.queue.jobs[i]? = some job := hi
    rcases releasePark_delivers hsend (kwinParsePoll_lane hparse) hi hstate with hsame | hdelivered
    · rcases kwinQueuePoll_delivers h hpoll hsame hstate with hsame | ⟨reply, jobs, houtcome, -⟩
      · exact .inl hsame
      · cases houtcome
    · right
      rw [hgen] at hdelivered
      exact hdelivered.mono (List.subset_append_left _ _)
  | unpolled queue hpoll =>
    rcases kwinQueuePoll_delivers h hpoll hi hstate with hsame | ⟨reply, jobs, houtcome, -⟩
    · exact .inl hsame
    · cases houtcome

theorem handled_sendable (h : bus.queue.Sendable) {envelope : Bytes} {written : ℕ → Bool}
    {method : BusMethod} {new : List KwinDone} {result : KwinBus × List BusOutput}
    (hhandled : Handled bus envelope nowMs written method new result) : result.1.queue.Sendable := by
  have hpolled : ∀ outcome queue, kwinQueuePoll bus.queue envelope nowMs (bufferInit replyCapacity) =
      (outcome, queue) → queue.Sendable := by
    intro outcome queue hpoll
    have hmoves := kwinQueueCall_moves bus.queue (.poll envelope nowMs (bufferInit replyCapacity))
    rw [kwinQueueCall, hpoll] at hmoves
    exact h.moves hmoves (handedEvents_quiet _).1
  cases hhandled with
  | denied _ text => exact h
  | acknowledged _ reply => exact h
  | reported queue reply hreport =>
    obtain ⟨es, hmoves, hes, -⟩ := kwinQueueReport_undispatched hreport
    have hdrain := relayDrainFrom_parks written kwinMaxJobs 0 (bus.counted queue)
    unfold relayDrain
    generalize relayDrainFrom written kwinMaxJobs 0 (bus.counted queue) = drained at hdrain
    obtain ⟨-, -, hfree, -, -⟩ := hdrain
    have hqueue : (bus.counted queue).queue.Sendable := h.moves hmoves hes
    exact hqueue.moves hfree rfl
  | unreported queue reply hreport =>
    obtain ⟨es, hmoves, hes, -⟩ := kwinQueueReport_undispatched hreport
    exact h.moves hmoves hes
  | polled queue reply hpoll => exact hpolled _ queue hpoll
  | parked queue poll hparse hpoll =>
    have hqueue : (bus.counted queue).queue.Sendable := hpolled _ queue hpoll
    exact releasePark_sendable hqueue
  | unpolled queue hpoll => exact hpolled _ queue hpoll

/-- One dispatch of the main loop keeps what waits sendable. -/
theorem busStep_sendable (h : bus.queue.Sendable) (call : BusCall) : (busStep bus call).queue.Sendable := by
  have hidle : ∀ lane nowMs, (idleFired bus lane nowMs).1.queue.Sendable := by
    intro lane nowMs
    unfold idleFired
    split_ifs
    · exact releasePark_sendable h
    · exact h
  cases call with
  | relay input nowMs written =>
    simp only [busStep, busDispatch, relayReadable]
    cases readRequest input with
    | none => exact h
    | some request => exact relayRequest_sendable h request.1 written
  | method sender generation method envelope nowMs written =>
    exact handled_sendable h (handleCall_handled bus sender generation method envelope nowMs written)
  | idleFast nowMs => exact hidle .fast nowMs
  | idleSlow nowMs => exact hidle .slow nowMs

/-- One dispatch of the main loop delivers whatever it marks as handed out. -/
theorem busStep_delivers (h : bus.queue.Sendable) (call : BusCall)
    (hi : (busStep bus call).queue.jobs[i]? = some job) (hstate : job.state = .dispatched) :
    bus.queue.jobs[i]? = some job ∨ Carried (busOutputs bus call) bus.queue.generation job := by
  have hidle : ∀ lane nowMs, lane ≠ .none → (idleFired bus lane nowMs).1.queue.jobs[i]? = some job →
      bus.queue.jobs[i]? = some job ∨
        Carried (idleFired bus lane nowMs).2 bus.queue.generation job := by
    intro lane nowMs hlane hi
    unfold idleFired at hi ⊢
    split_ifs at hi ⊢
    · exact releasePark_delivers h hlane hi hstate
    · exact .inl hi
  cases call with
  | relay input nowMs written =>
    simp only [busStep, busOutputs, busDispatch, relayReadable] at hi ⊢
    cases hread : readRequest input with
    | none =>
      rw [hread] at hi
      exact .inl hi
    | some request =>
      rw [hread] at hi
      exact relayRequest_delivers h request.1 written hi hstate
  | method sender generation method envelope nowMs written =>
    exact handled_delivers h (handleCall_handled bus sender generation method envelope nowMs written) hi hstate
  | idleFast nowMs => exact hidle .fast nowMs (by decide) hi
  | idleSlow nowMs => exact hidle .slow nowMs (by decide) hi

theorem kwinBusStart_sendable {queue : KwinQueue} (h : kwinQueueInit generation = some queue) (peer : Bytes) :
    (kwinBusStart queue peer).queue.Sendable := by
  unfold kwinQueueInit at h
  split_ifs at h with hgen
  cases h
  refine ⟨hgen, ?_⟩
  intro job hjob hqueued
  rw [(List.mem_replicate.mp hjob).2] at hqueued
  cases hqueued

/-- No dispatch without delivery, in any state the daemon can come to. -/
theorem kwinBus_delivers {queue : KwinQueue} (h : kwinQueueInit generation = some queue) (peer : Bytes)
    (calls : List BusCall) (call : BusCall)
    (hi : (busStep (calls.foldl busStep (kwinBusStart queue peer)) call).queue.jobs[i]? = some job)
    (hstate : job.state = .dispatched) :
    (calls.foldl busStep (kwinBusStart queue peer)).queue.jobs[i]? = some job ∨
      Carried (busOutputs (calls.foldl busStep (kwinBusStart queue peer)) call)
        (calls.foldl busStep (kwinBusStart queue peer)).queue.generation job := by
  have hrun := Transition.Run.foldl busStep (kwinBusStart queue peer) calls
  have hsend : (calls.foldl busStep (kwinBusStart queue peer)).queue.Sendable := by
    refine hrun.invariant (I := fun bus => bus.queue.Sendable) ?_ (kwinBusStart_sendable h peer)
    intro bus call bus' hbus hstep
    rw [← hstep]
    exact busStep_sendable hbus call
  exact busStep_delivers hsend call hi hstate

/-- The close of a window, once it has been handed out. -/
def closeJob : KwinJob := ⟨sequenceOf 1, Op.windowClose, .fast, .dispatched, 2000, 1, 0, ascii "7", []⟩

def closeArrives : List BusCall := [.relay (.bytes closeMessage) 0 true]

def firstPoll : BusCall := .method scriptPeer newQueue.generation .poll fastPoll 1 fun _ => true

theorem closeJob_delivered :
    (closeArrives.foldl busStep (kwinBusStart newQueue scriptPeer)).queue.jobs[0]? ≠ some closeJob ∧
      ((closeArrives.foldl busStep (kwinBusStart newQueue scriptPeer)).queue.jobs[0]? = some closeJob ∨
        Carried (busOutputs (closeArrives.foldl busStep (kwinBusStart newQueue scriptPeer)) firstPoll)
          (closeArrives.foldl busStep (kwinBusStart newQueue scriptPeer)).queue.generation closeJob) := by
  refine ⟨by decide +kernel, ?_⟩
  exact kwinBus_delivers kwinQueueInit_newQueue scriptPeer closeArrives firstPoll (by decide +kernel) rfl

end Bus

end KeysharpDesktop
