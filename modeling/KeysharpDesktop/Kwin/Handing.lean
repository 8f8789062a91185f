import KeysharpDesktop.Kwin.Script

/-! What one dispatch of the daemon does to the jobs the script is told of: each is told once, and
stays dispatched until a line of a report completes it. -/
namespace KeysharpDesktop

open JsText (Text)

/-- The jobs that an answer to the script announces. -/
def toldBy (generation : Bytes) : BusOutput → List ScriptJob
  | .returned _ text => (parsePollReply (JsText.ofBytes generation) (JsText.ofBytes text)).getD []
  | _ => []

def toldOf (generation : Bytes) (outputs : List BusOutput) : List ScriptJob :=
  outputs.flatMap (toldBy generation)

/-- A job under this sequence is dispatched, or some line has completed it. -/
def Owed (q : KwinQueue) (lines : List KwinDone) (sequence : Text) : Prop :=
  (∃ job ∈ q.jobs, job.state = .dispatched ∧ JsText.ofBytes job.sequence = sequence) ∨
    ∃ d ∈ lines, JsText.ofBytes d.sequence = sequence

/-- How a queue goes on: what its moves are, by what is put out and by the lines that complete
jobs, and what becomes of the jobs that were told and are told. -/
structure Hands (q r : KwinQueue) (out : List BusOutput) (lines : List KwinDone) : Prop where
  moves : ∃ es, q.Moves es r ∧ enteredAll es = queuedOf out ∧ completedAll es = lines.map KwinDone.sequence ∧
    (handedAll es).map JsText.ofBytes = (toldOf q.generation out).map ScriptJob.sequence
  kept : ∀ job ∈ q.jobs, job.state = .dispatched → Owed r lines (JsText.ofBytes job.sequence)
  told : ∀ j ∈ toldOf q.generation out, Owed r lines j.sequence

section Ack

/-- The text of an acknowledgement. -/
def reportAckText (generation : Bytes) : Bytes :=
  ascii "KSK1\n" ++ (ascii "gen " ++ (generation ++ ascii "\nack\nend\n"))

theorem kwinFormatReportAck_eq_some {generation : Bytes} {maximum : ℕ} {reply : Buffer}
    (h : kwinFormatReportAck generation (bufferInit maximum) = some reply) :
    validGeneration generation ∧ reply.data = reportAckText generation := by
  have hcases := h
  unfold kwinFormatReportAck at hcases
  split_ifs at hcases with hgen
  rw [Bool.not_eq_true, Bool.not_eq_false'] at hgen
  refine ⟨hgen, ?_⟩
  have hwrites : Writes (kwinFormatReportAck generation) (reportAckText generation) := by
    unfold kwinFormatReportAck
    rw [hgen]
    exact (bufferBytes_writes _).bind <| (bufferBytes_writes _).bind <| (bufferBytes_writes _).bind
      (bufferBytes_writes _)
  exact (hwrites.bufferInit_eq_some h).1

theorem reportAckText_plain {generation : Bytes} (hg : validGeneration generation) :
    ∀ b ∈ reportAckText generation, isPlain b := by
  have hgen := (validGeneration_iff.mp hg).2
  have hmagic : ∀ b ∈ ascii "KSK1\n", isPlain b := by decide
  have hkey : ∀ b ∈ ascii "gen ", isPlain b := by decide
  have hend : ∀ b ∈ ascii "\nack\nend\n", isPlain b := by decide
  intro b hb
  simp only [reportAckText, List.mem_append] at hb
  rcases hb with hb | hb | hb | hb
  · exact hmagic b hb
  · exact hkey b hb
  · exact isHexDigit_plain (hgen b hb)
  · exact hend b hb

/-- Nobody takes an acknowledgement for a reply with jobs. -/
theorem parsePollReply_reportAckText {generation : Bytes} (hg : validGeneration generation) (own : Text) :
    parsePollReply own (JsText.ofBytes (reportAckText generation)) = none := by
  have hnewline : (10 : UInt8) ∉ generation := (hexDigits_not_mem (validGeneration_iff.mp hg).2).1
  have hspec : ∀ line ∈ [JsText.lit "gen " ++ JsText.ofBytes generation, JsText.lit "ack"],
      (10 : UInt16) ∉ line ∧ ∃ first rest, line = first :: rest ∧ first ≠ 101 := by
    intro line hline
    simp only [List.mem_cons, List.not_mem_nil, or_false] at hline
    rcases hline with rfl | rfl
    · have hword : (10 : UInt16) ∉ JsText.lit "gen " := by decide
      refine ⟨?_, 103, JsText.lit "en " ++ JsText.ofBytes generation, rfl, by decide⟩
      rw [List.mem_append, not_or]
      exact ⟨hword, not_mem_ofBytes hnewline⟩
    · exact ⟨by decide, 97, JsText.lit "ck", by decide, by decide⟩
  have htext : JsText.ofBytes (reportAckText generation) = JsText.lit "KSK1" ++
      ([JsText.lit "gen " ++ JsText.ofBytes generation, JsText.lit "ack"].flatMap (10 :: ·) ++
        (JsText.lit "\nend\n" ++ [])) := by
    simp only [reportAckText, ofBytes_append, List.flatMap_cons, List.flatMap_nil, List.append_nil]
    have hhead : JsText.ofBytes (ascii "KSK1\n") = JsText.lit "KSK1" ++ [10] := by decide
    have hkey : JsText.ofBytes (ascii "gen ") = JsText.lit "gen " := by decide
    have htail : JsText.ofBytes (ascii "\nack\nend\n") = 10 :: JsText.lit "ack" ++ JsText.lit "\nend\n" := by decide
    rw [hhead, hkey, htail]
    simp only [List.append_assoc, List.cons_append, List.nil_append]
  have hlines : ∀ text offset, parseJobLines text offset [JsText.lit "ack"] = none := by
    intro text offset
    have hlane : JsText.startsWith (JsText.lit "lane ") (JsText.lit "ack") = false := by decide
    have hidle : JsText.startsWith (JsText.lit "idle ") (JsText.lit "ack") = false := by decide
    have hjob : JsText.startsWith (JsText.lit "job ") (JsText.lit "ack") = false := by decide
    simp only [parseJobLines, hlane, hidle, hjob, Bool.false_eq_true, or_self, if_false, Bool.not_false, if_true]
  rw [parsePollReply_lines own hspec htext, hlines]
  split_ifs
  · rfl
  · rfl

end Ack

section Steps

variable {q r s : KwinQueue} {out out' : List BusOutput} {lines lines' : List KwinDone} {sequence : Text}
  {lane : KwinLane} {nowMs : ℕ}

theorem toldOf_append (generation : Bytes) (out out' : List BusOutput) :
    toldOf generation (out ++ out') = toldOf generation out ++ toldOf generation out' := List.flatMap_append

theorem Owed.mono (h : Owed q lines sequence) (hkept : ∀ job ∈ q.jobs, job.state = .dispatched →
    Owed r lines' (JsText.ofBytes job.sequence)) : Owed r (lines ++ lines') sequence := by
  rcases h with ⟨job, hjob, hstate, hseq⟩ | ⟨d, hd, hseq⟩
  · rcases hkept job hjob hstate with hslot | ⟨d, hd, hd'⟩
    · rw [← hseq]
      exact .inl hslot
    · exact .inr ⟨d, List.mem_append_right _ hd, hd'.trans hseq⟩
  · exact .inr ⟨d, List.mem_append_left _ hd, hseq⟩

theorem Hands.generation (h : Hands q r out lines) : r.generation = q.generation := by
  obtain ⟨es, hmoves, -⟩ := h.moves
  exact hmoves.generation

theorem Hands.trans (h : Hands q r out lines) (h' : Hands r s out' lines') :
    Hands q s (out ++ out') (lines ++ lines') := by
  obtain ⟨es, hmoves, hentered, hcompleted, hhanded⟩ := h.moves
  obtain ⟨es', hmoves', hentered', hcompleted', hhanded'⟩ := h'.moves
  have hgen := h.generation
  rw [hgen] at hhanded'
  have htold := h'.told
  rw [hgen] at htold
  refine ⟨⟨es ++ es', hmoves.append hmoves', ?_, ?_, ?_⟩, ?_, ?_⟩
  · rw [queuedOf_append, ← hentered, ← hentered', enteredAll, List.filterMap_append]
    rfl
  · rw [List.map_append, ← hcompleted, ← hcompleted', completedAll, List.filterMap_append]
    rfl
  · rw [toldOf_append, List.map_append, ← hhanded, ← hhanded', ← List.map_append, handedAll,
      List.filterMap_append]
    rfl
  · intro job hjob hstate
    exact (h.kept job hjob hstate).mono h'.kept
  · intro j hj
    rw [toldOf_append, List.mem_append] at hj
    rcases hj with hj | hj
    · exact (h.told j hj).mono h'.kept
    · rcases htold j hj with hslot | ⟨d, hd, hseq⟩
      · exact .inl hslot
      · exact .inr ⟨d, List.mem_append_right _ hd, hseq⟩

/-- The queue stays as it is, and nothing is told. -/
theorem Hands.still (q : KwinQueue) (hqueued : queuedOf out = []) (htold : toldOf q.generation out = []) :
    Hands q q out [] := by
  refine ⟨⟨[], .nil q, hqueued.symm, rfl, by rw [htold]; rfl⟩, ?_, ?_⟩
  · intro job hjob hstate
    exact .inl ⟨job, hjob, hstate, rfl⟩
  · rw [htold]
    exact nofun

theorem Hands.parked (q : KwinQueue) (parked : KwinLane → Bool) : Hands q { q with parked } [] [] := by
  refine ⟨⟨[], .single (.park q parked), rfl, rfl, rfl⟩, ?_, nofun⟩
  intro job hjob hstate
  exact .inl ⟨job, hjob, hstate, rfl⟩

theorem Hands.submit {opcode : Opcode} {body seq : Bytes}
    (h : kwinQueueSubmit q opcode body nowMs = some (r, seq)) (requestId : BitVec 64) :
    Hands q r [.queued seq requestId opcode] [] := by
  obtain ⟨i, slot, hi, hfree, hlane, hseq, hr⟩ := kwinQueueSubmit_move h
  refine ⟨⟨[.entered (kwinLaneFor opcode) seq], ?_, rfl, rfl, rfl⟩, ?_, nofun⟩
  · rw [hseq, hr]
    exact .single (.enter q i slot opcode body nowMs hi hfree hlane)
  · intro job hjob hstate
    obtain ⟨j, hj⟩ := List.mem_iff_getElem?.mp hjob
    have hne : i ≠ j := by
      rintro rfl
      rw [Option.some.inj (hi.symm.trans hj)] at hfree
      rw [hfree] at hstate
      cases hstate
    refine .inl ⟨job, ?_, hstate, rfl⟩
    rw [hr]
    refine List.mem_of_getElem? (i := j) ?_
    rw [List.getElem?_set_ne hne]
    exact hj

/-- The jobs of a batch are in the queue that is left. -/
theorem mem_takeJobs_snd {limit : ℕ} {jobs : List KwinJob} {job : KwinJob}
    (h : job ∈ (takeJobs lane limit jobs).1) : job ∈ (takeJobs lane limit jobs).2 := by
  induction limit generalizing jobs with
  | zero => simp [takeJobs] at h
  | succ limit ih =>
    unfold takeJobs at h ⊢
    split at h
    · simp at h
    · next i head hold =>
      dsimp only
      rcases List.mem_cons.mp h with rfl | hmem
      · obtain ⟨hfound, -, -, -⟩ := oldestQueued_spec hold
        have hlt := (List.getElem?_eq_some_iff.mp hfound).1
        have hset : (jobs.set i { head with state := .dispatched })[i]? = some { head with state := .dispatched } := by
          rw [List.getElem?_set_self hlt]
        rcases takeJobs_slot lane limit (jobs.set i { head with state := .dispatched }) i with
          hsame | ⟨other, hother, hqueued, -, -⟩
        · exact List.mem_of_getElem? (hsame.trans hset)
        · rw [hset] at hother
          cases hother
          cases hqueued
      · exact ih hmem

theorem takeJobs_kept {limit : ℕ} {jobs : List KwinJob} {job : KwinJob} (hjob : job ∈ jobs)
    (hstate : job.state = .dispatched) : job ∈ (takeJobs lane limit jobs).2 := by
  obtain ⟨i, hi⟩ := List.mem_iff_getElem?.mp hjob
  rcases takeJobs_slot lane limit jobs i with hsame | ⟨other, hother, hqueued, -, -⟩
  · exact List.mem_of_getElem? (hsame.trans hi)
  · rw [Option.some.inj (hi.symm.trans hother), hqueued] at hstate
    cases hstate

theorem handedAll_handedEvents (batch : List KwinJob) :
    handedAll (handedEvents batch) = batch.map KwinJob.sequence := by
  induction batch with
  | nil => rfl
  | cons job batch ih =>
    rw [List.map_cons, ← ih]
    rfl

/-- The jobs handed to a lane are the jobs that the reply tells of. -/
theorem Hands.dispatch (h : q.Sendable) (lane : KwinLane) (nowMs : ℕ) (invocation : Invocation)
    (idleMs : BitVec 32) :
    Hands q (dispatchJobs q lane nowMs).2
      [.returned invocation (pollReplyText q.generation lane idleMs (dispatchJobs q lane nowMs).1)] [] := by
  have htold : toldOf q.generation
      [.returned invocation (pollReplyText q.generation lane idleMs (dispatchJobs q lane nowMs).1)] =
      (dispatchJobs q lane nowMs).1.map scriptJob := by
    rw [toldOf, List.flatMap_singleton, toldBy, parsePollReply_pollReplyText h.generation (h.fit lane nowMs),
      if_pos rfl]
    rfl
  obtain ⟨hmoves, -, -⟩ := kwinQueueTake_moves q lane kwinJobsPerReplyFast
  refine ⟨⟨_, hmoves, (handedEvents_quiet _).1, (handedEvents_quiet _).2, ?_⟩, ?_, ?_⟩
  · rw [htold, handedAll_handedEvents, dispatchJobs, List.map_map, List.map_map, List.map_map]
    rfl
  · intro job hjob hstate
    exact .inl ⟨job, takeJobs_kept hjob hstate, hstate, rfl⟩
  · rw [htold]
    intro j hj
    obtain ⟨d, hd, rfl⟩ := List.mem_map.mp hj
    obtain ⟨job, hjob, rfl⟩ := List.mem_map.mp hd
    obtain ⟨before, -, -, rfl⟩ := mem_takeJobs hjob
    exact .inl ⟨_, mem_takeJobs_snd hjob, rfl, rfl⟩

theorem Hands.report (q : KwinQueue) (envelope : Bytes) (reply : Buffer) :
    Hands q (kwinQueueReport q envelope reply).2.1 [] ((reportedLines q envelope).map Prod.snd) := by
  refine ⟨⟨_, kwinQueueCall_moves q (.report envelope reply), ?_, ?_, ?_⟩, ?_, nofun⟩
  · simp [kwinQueueEvents, enteredAll, queuedOf]
  · rw [List.map_map]
    unfold kwinQueueEvents completedAll
    rw [List.filterMap_map, ← List.filterMap_eq_map]
    rfl
  · simp [kwinQueueEvents, handedAll, toldOf]
  · intro job hjob hstate
    rcases kwinQueueReport_jobs q envelope reply with ⟨hq, -⟩ | ⟨report, -, -, hq, hlines⟩
    · rw [hq]
      exact .inl ⟨job, hjob, hstate, rfl⟩
    · obtain ⟨i, hi⟩ := List.mem_iff_getElem?.mp hjob
      rw [hq, hlines, List.map_map]
      rcases completeAll_slot q report.done i with hsame | ⟨before, d, hb, -, hmem, hseq, -⟩
      · exact .inl ⟨job, List.mem_of_getElem? (hsame.trans hi), hstate, rfl⟩
      · refine .inr ⟨d, List.mem_map.mpr ⟨d, hmem, rfl⟩, ?_⟩
        rw [hseq, Option.some.inj (hi.symm.trans hb)]

/-- Only what is done is let go. -/
theorem Hands.release {seq body : Bytes} {status : Status} (h : kwinQueueResult q seq = some (status, body)) :
    Hands q (kwinQueueRelease q seq) [] [] := by
  obtain ⟨i, done, hslot, hi, hdone, -, -, -⟩ := kwinQueueResult_eq_some h
  refine ⟨⟨[], kwinQueueRelease_moves q seq, rfl, rfl, rfl⟩, ?_, nofun⟩
  intro job hjob hstate
  obtain ⟨j, hj⟩ := List.mem_iff_getElem?.mp hjob
  have hne : i ≠ j := by
    rintro rfl
    rw [Option.some.inj (hi.symm.trans hj), hstate] at hdone
    cases hdone
  refine .inl ⟨job, ?_, hstate, rfl⟩
  rw [kwinQueueRelease_eq hslot]
  refine List.mem_of_getElem? (i := j) ?_
  rw [List.getElem?_set_ne hne]
  exact hj

end Steps

section Polls

variable {q r : KwinQueue} {envelope : Bytes} {nowMs : ℕ} {reply : Buffer}

/-- An answered poll hands out what its reply tells. -/
theorem kwinQueuePoll_answered (h : q.Sendable)
    (hpoll : kwinQueuePoll q envelope nowMs (bufferInit replyCapacity) = (.answered reply, r)) :
    ∃ poll, kwinParsePoll envelope = some poll ∧ poll.generation = q.generation ∧
      r = setParked (dispatchJobs q poll.lane nowMs).2 poll.lane false ∧
      cString reply.data = pollReplyText q.generation poll.lane 0 (dispatchJobs q poll.lane nowMs).1 := by
  cases hparse : kwinParsePoll envelope with
  | none =>
    simp only [kwinQueuePoll, hparse] at hpoll
    cases hpoll
  | some poll =>
    by_cases hgen : poll.generation = q.generation
    · by_cases hempty : (dispatchJobs q poll.lane nowMs).1 = []
      · simp only [kwinQueuePoll, hparse, hgen, ne_eq, not_true_eq_false, if_false, if_pos hempty] at hpoll
        cases hpoll
      · obtain ⟨answer, hanswer, htext⟩ := kwinQueuePoll_reply h hparse hgen hempty
        have hqueue : (kwinQueuePoll q envelope nowMs (bufferInit replyCapacity)).2 =
            setParked (dispatchJobs q poll.lane nowMs).2 poll.lane false := by
          simp only [kwinQueuePoll, hparse, hgen, ne_eq, not_true_eq_false, if_false, if_neg hempty]
          split <;> rfl
        rw [hpoll] at hanswer hqueue
        cases hanswer
        exact ⟨poll, rfl, hgen, hqueue, htext⟩
    · simp only [kwinQueuePoll, hparse, ne_eq, hgen, not_false_eq_true, if_true] at hpoll
      cases hpoll

/-- A poll that is refused changes nothing. -/
theorem kwinQueuePoll_refused (h : q.Sendable)
    (hpoll : kwinQueuePoll q envelope nowMs (bufferInit replyCapacity) = (.refused, r)) : r = q := by
  cases hparse : kwinParsePoll envelope with
  | none =>
    simp only [kwinQueuePoll, hparse] at hpoll
    cases hpoll
    rfl
  | some poll =>
    by_cases hgen : poll.generation = q.generation
    · by_cases hempty : (dispatchJobs q poll.lane nowMs).1 = []
      · simp only [kwinQueuePoll, hparse, hgen, ne_eq, not_true_eq_false, if_false, if_pos hempty] at hpoll
        cases hpoll
      · obtain ⟨answer, hanswer, -⟩ := kwinQueuePoll_reply h hparse hgen hempty
        rw [hpoll] at hanswer
        cases hanswer
    · simp only [kwinQueuePoll, hparse, ne_eq, hgen, not_false_eq_true, if_true] at hpoll
      cases hpoll
      rfl

/-- A lane that has nothing to hand out is left as it is. -/
theorem hands_of_empty (h : q.Sendable) {lane : KwinLane} (hnone : (dispatchJobs q lane nowMs).1 = []) :
    Hands q (dispatchJobs q lane nowMs).2 [] [] := by
  have hwhole := Hands.dispatch h lane nowMs 0 0
  obtain ⟨es, hmoves, hentered, hcompleted, hhanded⟩ := hwhole.moves
  have htold : toldOf q.generation
      [.returned 0 (pollReplyText q.generation lane 0 (dispatchJobs q lane nowMs).1)] = [] := by
    rw [toldOf, List.flatMap_singleton, toldBy, parsePollReply_pollReplyText h.generation (h.fit lane nowMs),
      if_pos rfl, hnone]
    rfl
  rw [htold] at hhanded
  exact ⟨⟨es, hmoves, hentered, hcompleted, hhanded⟩, hwhole.kept, nofun⟩

end Polls

section Bus

variable {bus : KwinBus} {lane : KwinLane} {nowMs : ℕ} {generation : Bytes}

theorem busAnswer_told (generation : Bytes) (written : Bool) (sequence : Option Bytes) (requestId : BitVec 64)
    (opcode : Opcode) (status : Status) (body : Bytes) :
    toldOf generation (busAnswer written sequence requestId opcode status body) = [] := by
  rcases busAnswer_cases written sequence requestId opcode status body with h | h | ⟨frame, -, h⟩
  · rw [h]
    rfl
  · rw [h]
    rfl
  · rw [h]
    rfl

theorem drainSlot_hands (bus : KwinBus) (index : ℕ) (written : Bool) :
    Hands bus.queue (drainSlot bus index written).1.queue (drainSlot bus index written).2 [] := by
  rcases drainSlot_cases bus index written with h | ⟨slot, status, body, -, -, hresult, h⟩
  · rw [h]
    exact .still bus.queue rfl rfl
  · rw [h]
    exact (Hands.release hresult).trans (.still _ (busAnswer_queuedOf ..) (busAnswer_told ..))

theorem relayDrainFrom_hands (written : ℕ → Bool) (left index : ℕ) (bus : KwinBus) :
    Hands bus.queue (relayDrainFrom written left index bus).1.queue
      (relayDrainFrom written left index bus).2 [] := by
  induction left generalizing index bus with
  | zero => exact .still bus.queue rfl rfl
  | succ left ih => exact (drainSlot_hands bus index (written index)).trans (ih (index + 1) _)

theorem relayDrain_hands (bus : KwinBus) (written : ℕ → Bool) :
    Hands bus.queue (relayDrain bus written).1.queue (relayDrain bus written).2 [] := by
  unfold relayDrain
  exact relayDrainFrom_hands written kwinMaxJobs 0 bus

theorem releasePark_hands (h : bus.queue.Sendable) (hlane : lane ≠ .none) :
    Hands bus.queue (releasePark bus lane nowMs).1.queue (releasePark bus lane nowMs).2 [] := by
  cases hwait : bus.parked (laneSlot lane) with
  | none =>
    simp only [releasePark, hwait]
    exact .still bus.queue rfl rfl
  | some invocation =>
    obtain ⟨reply, idleMs, hreply, htext⟩ := kwinQueuePollParked_reply h hlane nowMs
    have hout : (releasePark bus lane nowMs).2 = [.returned invocation (cString reply.data)] := by
      simp only [releasePark, hwait, hreply]
    have hqueue : (releasePark bus lane nowMs).1.queue =
        (dispatchJobs (setParked bus.queue lane false) lane nowMs).2 := by
      simp only [releasePark, hwait, kwinQueuePollParked, if_neg hlane]
    rw [hout, hqueue, htext]
    exact (Hands.parked bus.queue _).trans (.dispatch (setParked_sendable h lane false) lane nowMs invocation idleMs)

theorem parkPoll_hands (h : bus.queue.Sendable) (hlane : lane ≠ .none) (invocation : Invocation) :
    Hands bus.queue (parkPoll bus invocation lane nowMs).1.queue (parkPoll bus invocation lane nowMs).2 [] :=
  (releasePark_hands h hlane).trans (.still _ rfl rfl)

theorem relayRequest_hands (h : bus.queue.Sendable) (request : RelayRequest) (written : Bool) :
    Hands bus.queue (relayRequest bus request nowMs written).1.queue
      (relayRequest bus request nowMs written).2 [] := by
  rcases relayRequest_cases bus request nowMs written with
    ⟨status, -, hrequest⟩ | ⟨text, index, slot, queue, sequence, htext, -, -, hsubmit, hrequest⟩
  · rw [hrequest]
    exact .still bus.queue (busAnswer_queuedOf ..) (busAnswer_told ..)
  · rw [hrequest]
    have hsend := h.submit (kwinRequestText_body htext) hsubmit
    obtain ⟨-, -, -, -, hlane, -, -⟩ := kwinQueueSubmit_move hsubmit
    have hbus : ({ bus with
        queue
        inflight := bus.inflight.set index ⟨true, request.requestId, request.opcode, sequence⟩ } :
          KwinBus).queue.Sendable := hsend
    exact (Hands.submit hsubmit request.requestId).trans (releasePark_hands hbus hlane)

theorem toldBy_ack (hg : validGeneration generation) {maximum : ℕ} {reply : Buffer}
    (h : kwinFormatReportAck generation (bufferInit maximum) = some reply) (invocation : Invocation) :
    toldOf generation (busReply invocation (some reply)) = [] := by
  obtain ⟨-, hdata⟩ := kwinFormatReportAck_eq_some h
  simp only [busReply, toldOf, List.flatMap_singleton, toldBy, hdata, cString_eq_self (reportAckText_plain hg),
    parsePollReply_reportAckText hg, Option.getD_none]

theorem queuedOf_busReply (invocation : Invocation) (reply : Option Buffer) :
    queuedOf (busReply invocation reply) = [] := (plain_busReply invocation reply).queuedOf_eq_nil

/-- A report that is accepted is acknowledged. -/
theorem kwinQueueReport_reply {q r : KwinQueue} {envelope : Bytes} {reply : Buffer} {maximum : ℕ}
    (h : kwinQueueReport q envelope (bufferInit maximum) = (true, r, reply)) :
    kwinFormatReportAck r.generation (bufferInit maximum) = some reply := by
  unfold kwinQueueReport at h
  split at h
  · cases h
  · next report _ =>
    split_ifs at h
    · cases h
    · cases h
    · rcases hall : completeAll q report.done with ⟨ok, after⟩
      rw [hall] at h
      cases ok with
      | false => cases h
      | true =>
        dsimp only at h
        split at h
        · cases h
        · next ack hack =>
          cases h
          exact hack

/-- A greeting and an event are acknowledged, once they are allowed. -/
theorem handleCall_acknowledges (bus : KwinBus) (sender generation envelope : Bytes) (nowMs : ℕ)
    (written : ℕ → Bool) {method : BusMethod} (hack : method = .hello ∨ method = .event) :
    handleCall bus sender generation method envelope nowMs written =
        (bus.counted bus.queue, [.error bus.invocations deniedText]) ∨
      handleCall bus sender generation method envelope nowMs written = (bus.counted bus.queue,
        busReply bus.invocations (kwinFormatReportAck bus.queue.generation (bufferInit replyCapacity))) := by
  unfold handleCall
  dsimp only
  by_cases hallowed : callAllowed bus sender generation method
  · right
    rw [hallowed, Bool.not_true, if_neg Bool.false_ne_true]
    rcases hack with rfl | rfl
    · rfl
    · rfl
  · left
    rw [Bool.not_eq_true] at hallowed
    rw [hallowed, Bool.not_false, if_pos rfl]
    rfl

theorem handleCall_hands (h : bus.queue.Sendable) (sender generation : Bytes) (method : BusMethod)
    (envelope : Bytes) (written : ℕ → Bool) :
    Hands bus.queue (handleCall bus sender generation method envelope nowMs written).1.queue
      (handleCall bus sender generation method envelope nowMs written).2
      (methodLines bus sender generation method envelope) := by
  by_cases hack : method = .hello ∨ method = .event
  · have hlines : methodLines bus sender generation method envelope = [] := by
      unfold methodLines
      rcases hack with rfl | rfl
      · exact ite_self _
      · exact ite_self _
    have hcases := handleCall_acknowledges bus sender generation envelope nowMs written hack
    rw [hlines]
    rcases hcases with hcall | hcall
    · rw [hcall]
      exact .still bus.queue rfl rfl
    · rw [hcall]
      refine .still bus.queue (queuedOf_busReply _ _) ?_
      cases hformat : kwinFormatReportAck bus.queue.generation (bufferInit replyCapacity) with
      | none => rfl
      | some reply => exact toldBy_ack h.generation hformat bus.invocations
  · have hhandled := handleCall_handled bus sender generation method envelope nowMs written
    generalize handleCall bus sender generation method envelope nowMs written = result at hhandled
    generalize methodLines bus sender generation method envelope = lines at hhandled
    cases hhandled with
    | denied _ text => exact .still bus.queue rfl rfl
    | acknowledged _ reply hother => exact absurd hother hack
    | reported queue reply hreport =>
      have hqueue := Hands.report bus.queue envelope (bufferInit replyCapacity)
      rw [hreport] at hqueue
      have hvalid : validGeneration queue.generation := by
        have hsame : queue.generation = bus.queue.generation := hqueue.generation
        rw [hsame]
        exact h.generation
      have htold := toldBy_ack hvalid (kwinQueueReport_reply hreport) bus.invocations
      have hdrain : Hands queue (relayDrain (bus.counted queue) written).1.queue
          (relayDrain (bus.counted queue) written).2 [] := relayDrain_hands (bus.counted queue) written
      generalize relayDrain (bus.counted queue) written = drained at hdrain
      have hreply : Hands drained.1.queue drained.1.queue (busReply bus.invocations (some reply)) [] := by
        refine .still _ (queuedOf_busReply _ _) ?_
        rw [hdrain.generation]
        exact htold
      have hwhole := (hqueue.trans hdrain).trans hreply
      rw [List.append_nil, List.append_nil, List.nil_append] at hwhole
      exact hwhole
    | unreported queue reply hreport =>
      have hqueue := Hands.report bus.queue envelope (bufferInit replyCapacity)
      rw [hreport] at hqueue
      have hwhole := hqueue.trans (.still queue (queuedOf_busReply bus.invocations none) rfl)
      rw [List.append_nil] at hwhole
      exact hwhole
    | polled queue reply hpoll =>
      obtain ⟨poll, -, -, hqueue, htext⟩ := kwinQueuePoll_answered h hpoll
      rw [htext, hqueue]
      exact (Hands.dispatch h poll.lane nowMs bus.invocations 0).trans (.parked _ _)
    | parked queue poll hparse hpoll =>
      obtain ⟨poll', hparse', hgen, hnone, hqueue⟩ := kwinQueuePoll_parked hpoll
      have hsame : poll' = poll := Option.some.inj (hparse'.symm.trans hparse)
      rw [hsame] at hgen hnone hqueue
      have hempty := hands_of_empty h hnone
      have hsend : queue.Sendable := by
        obtain ⟨es, hmoves, hes, -⟩ := hempty.moves
        have hsend := setParked_sendable (h.moves hmoves hes) poll.lane true
        rwa [← hqueue] at hsend
      have hparked : Hands bus.queue queue [] [] := by
        rw [hqueue]
        exact hempty.trans (.parked _ _)
      have hcounted : (bus.counted queue).queue.Sendable := hsend
      have hpark : Hands queue (parkPoll (bus.counted queue) bus.invocations poll.lane nowMs).1.queue
          (parkPoll (bus.counted queue) bus.invocations poll.lane nowMs).2 [] :=
        parkPoll_hands hcounted (kwinParsePoll_lane hparse) bus.invocations
      have hwhole := hparked.trans hpark
      rw [List.nil_append] at hwhole
      exact hwhole
    | unpolled queue hpoll =>
      rw [kwinQueuePoll_refused h hpoll]
      exact .still bus.queue (queuedOf_busReply bus.invocations none) rfl

/-- Every dispatch of the main loop tells the script of exactly the jobs that it hands out. -/
theorem busStep_hands (h : bus.queue.Sendable) (call : BusCall) :
    Hands bus.queue (busStep bus call).queue (busOutputs bus call) (busLines bus call) := by
  have hidle : ∀ lane nowMs, lane ≠ .none →
      Hands bus.queue (idleFired bus lane nowMs).1.queue (idleFired bus lane nowMs).2 [] := by
    intro lane nowMs hlane
    unfold idleFired
    split_ifs
    · exact releasePark_hands h hlane
    · exact .still bus.queue rfl rfl
  cases call with
  | relay input nowMs written =>
    simp only [busStep, busOutputs, busDispatch, relayReadable, busLines]
    split
    · exact .still bus.queue rfl rfl
    · exact relayRequest_hands h _ written
  | method sender generation method envelope nowMs written =>
    exact handleCall_hands h sender generation method envelope written
  | idleFast nowMs => exact hidle .fast nowMs (by decide)
  | idleSlow nowMs => exact hidle .slow nowMs (by decide)

end Bus

section Returns

variable {bus : KwinBus} {lane : KwinLane} {nowMs : ℕ} {i : Invocation} {text : Bytes}

/-- A reply to a poll. -/
def IsReply (generation text : Bytes) : Prop :=
  ∃ lane idleMs jobs, text = pollReplyText generation lane idleMs jobs ∧ (∀ job ∈ jobs, job.Fit) ∧
    jobs.length ≤ laneCapacity lane

/-- The call is a poll. -/
def Polls : BusCall → Prop
  | .method _ _ method _ _ _ => method = .poll
  | _ => False

/-- The call is a method other than a poll. -/
def OtherMethod : BusCall → Prop
  | .method _ _ method _ _ _ => method ≠ .poll
  | _ => False

theorem IsReply.parse {generation : Bytes} (hg : validGeneration generation) (h : IsReply generation text)
    (own : Text) : ∃ jobs : List KwinDispatch, (∀ job ∈ jobs, job.Fit) ∧ jobs.length ≤ kwinJobsPerReplyFast ∧
      parsePollReply own (JsText.ofBytes text) =
        if JsText.ofBytes generation = own then some (jobs.map scriptJob) else none := by
  obtain ⟨lane, idleMs, jobs, rfl, hfit, hlength⟩ := h
  refine ⟨jobs, hfit, ?_, parsePollReply_pollReplyText hg hfit own⟩
  refine hlength.trans ?_
  cases lane <;> decide

theorem IsReply.ascii {generation : Bytes} (hg : validGeneration generation) (h : IsReply generation text) :
    JsText.IsAscii text := by
  obtain ⟨lane, idleMs, jobs, rfl, hfit, -⟩ := h
  intro b hb
  have hplain := pollReplyText_plain hg hfit b hb
  simp only [isPlain, Bool.and_eq_true, decide_eq_true_eq] at hplain
  exact UInt8.lt_iff_toNat_lt.mp hplain.2

theorem releasePark_returned (h : bus.queue.Sendable) (hlane : lane ≠ .none)
    (hmem : BusOutput.returned i text ∈ (releasePark bus lane nowMs).2) :
    (∃ slot, bus.parked slot = some i) ∧ IsReply bus.queue.generation text := by
  cases hwait : bus.parked (laneSlot lane) with
  | none => simp [releasePark, hwait] at hmem
  | some invocation =>
    obtain ⟨reply, idleMs, hreply, htext⟩ := kwinQueuePollParked_reply h hlane nowMs
    have hout : (releasePark bus lane nowMs).2 = [.returned invocation (cString reply.data)] := by
      simp only [releasePark, hwait, hreply]
    rw [hout, List.mem_singleton] at hmem
    cases hmem
    have hsend := setParked_sendable h lane false
    exact ⟨⟨_, hwait⟩, lane, idleMs, _, htext, hsend.fit lane nowMs, dispatchJobs_length _ lane nowMs⟩

theorem releasePark_still {slot : Fin 2} (h : (releasePark bus lane nowMs).1.parked slot = some i) :
    bus.parked slot = some i := by
  cases hwait : bus.parked (laneSlot lane) with
  | none => simpa only [releasePark, hwait] using h
  | some invocation =>
    simp only [releasePark, hwait] at h
    by_cases hslot : slot = laneSlot lane
    · rw [hslot, Function.update_self] at h
      cases h
    · rwa [Function.update_of_ne hslot] at h

theorem busAnswer_returned {written : Bool} {sequence : Option Bytes} {requestId : BitVec 64} {opcode : Opcode}
    {status : Status} {body : Bytes} :
    BusOutput.returned i text ∉ busAnswer written sequence requestId opcode status body := by
  rcases busAnswer_cases written sequence requestId opcode status body with h | h | ⟨frame, -, h⟩
  · rw [h]
    simp
  · rw [h]
    simp
  · rw [h]
    simp

theorem relayDrainFrom_returned (written : ℕ → Bool) (left index : ℕ) (bus : KwinBus) :
    BusOutput.returned i text ∉ (relayDrainFrom written left index bus).2 ∧
      (relayDrainFrom written left index bus).1.parked = bus.parked := by
  induction left generalizing index bus with
  | zero => exact ⟨List.not_mem_nil, rfl⟩
  | succ left ih =>
    obtain ⟨hnot, hparked⟩ := ih (index + 1) (drainSlot bus index (written index)).1
    have hslot : BusOutput.returned i text ∉ (drainSlot bus index (written index)).2 ∧
        (drainSlot bus index (written index)).1.parked = bus.parked := by
      rcases drainSlot_cases bus index (written index) with h | ⟨slot, status, body, -, -, -, h⟩
      · rw [h]
        exact ⟨List.not_mem_nil, rfl⟩
      · rw [h]
        exact ⟨busAnswer_returned, rfl⟩
    unfold relayDrainFrom
    dsimp only
    rw [List.mem_append, not_or]
    exact ⟨⟨hslot.1, hnot⟩, hparked.trans hslot.2⟩

theorem relayDrain_returned (written : ℕ → Bool) (bus : KwinBus) :
    BusOutput.returned i text ∉ (relayDrain bus written).2 ∧ (relayDrain bus written).1.parked = bus.parked := by
  unfold relayDrain
  exact relayDrainFrom_returned written kwinMaxJobs 0 bus

/-- What a dispatch can return: a reply to a poll that waited or that it met, or the
acknowledgement of another method. And a call that waits after it is one of those. -/
structure Replies (bus bus' : KwinBus) (out : List BusOutput) (call : BusCall) : Prop where
  returned : ∀ i text, BusOutput.returned i text ∈ out →
    ((∃ slot, bus.parked slot = some i) ∨ i = bus.invocations ∧ Polls call) ∧
        IsReply bus.queue.generation text ∨
      i = bus.invocations ∧ OtherMethod call ∧ text = reportAckText bus.queue.generation
  parked : ∀ slot i, bus'.parked slot = some i → bus.parked slot = some i ∨ i = bus.invocations ∧ Polls call

/-- An acknowledgement is returned as it is written. -/
theorem busReply_ack {generation : Bytes} {reply : Option Buffer} {maximum : ℕ} {j : Invocation}
    (hreply : ∀ r, reply = some r → kwinFormatReportAck generation (bufferInit maximum) = some r)
    (h : BusOutput.returned i text ∈ busReply j reply) : i = j ∧ text = reportAckText generation := by
  cases reply with
  | none => simp [busReply] at h
  | some reply =>
    simp only [busReply, List.mem_singleton, BusOutput.returned.injEq] at h
    obtain ⟨hg, hdata⟩ := kwinFormatReportAck_eq_some (hreply reply rfl)
    refine ⟨h.1, ?_⟩
    rw [h.2, hdata]
    exact cString_eq_self (reportAckText_plain hg)

theorem acknowledged_replies (sender generation envelope : Bytes) (written : ℕ → Bool) {method : BusMethod}
    (hack : method = .hello ∨ method = .event) :
    Replies bus (handleCall bus sender generation method envelope nowMs written).1
      (handleCall bus sender generation method envelope nowMs written).2
      (.method sender generation method envelope nowMs written) := by
  have hother : OtherMethod (.method sender generation method envelope nowMs written) := by
    rcases hack with rfl | rfl
    · exact nofun
    · exact nofun
  rcases handleCall_acknowledges bus sender generation envelope nowMs written hack with hcall | hcall
  · rw [hcall]
    exact ⟨by simp, fun slot i hi => .inl hi⟩
  · rw [hcall]
    refine ⟨?_, fun slot i hi => .inl hi⟩
    intro i text hmem
    obtain ⟨hi, htext⟩ := busReply_ack (fun r hr => hr) hmem
    exact .inr ⟨hi, hother, htext⟩

theorem handled_replies (h : bus.queue.Sendable) (sender generation : Bytes) (method : BusMethod)
    (envelope : Bytes) (written : ℕ → Bool) :
    Replies bus (handleCall bus sender generation method envelope nowMs written).1
      (handleCall bus sender generation method envelope nowMs written).2
      (.method sender generation method envelope nowMs written) := by
  by_cases hack : method = .hello ∨ method = .event
  · exact acknowledged_replies sender generation envelope written hack
  have hhandled := handleCall_handled bus sender generation method envelope nowMs written
  generalize handleCall bus sender generation method envelope nowMs written = result at hhandled
  generalize methodLines bus sender generation method envelope = lines at hhandled
  cases hhandled with
  | denied _ text => exact ⟨by simp, fun slot i hi => .inl hi⟩
  | acknowledged _ reply hother => exact absurd hother hack
  | reported queue reply hreport =>
    have hdrain : ∀ i text, BusOutput.returned i text ∉ (relayDrain (bus.counted queue) written).2 ∧
        (relayDrain (bus.counted queue) written).1.parked = bus.parked :=
      fun i text => relayDrain_returned written (bus.counted queue)
    have hgen : queue.generation = bus.queue.generation := by
      have hqueue := Hands.report bus.queue envelope (bufferInit replyCapacity)
      rw [hreport] at hqueue
      exact hqueue.generation
    have hformat := kwinQueueReport_reply hreport
    rw [hgen] at hformat
    generalize relayDrain (bus.counted queue) written = drained at hdrain
    refine ⟨?_, ?_⟩
    · intro i text hmem
      rcases List.mem_append.mp hmem with hmem | hmem
      · exact absurd hmem (hdrain i text).1
      · have hsame : ∀ r, some reply = some r →
            kwinFormatReportAck bus.queue.generation (bufferInit replyCapacity) = some r := by
          intro r hr
          rw [← hr]
          exact hformat
        obtain ⟨hi, htext⟩ := busReply_ack hsame hmem
        exact .inr ⟨hi, nofun, htext⟩
    · intro slot i hi
      have hsame := (hdrain i []).2
      dsimp only at hi
      rw [hsame] at hi
      exact .inl hi
  | unreported queue reply hreport => exact ⟨by simp [busReply], fun slot i hi => .inl hi⟩
  | polled queue reply hpoll =>
    obtain ⟨poll, -, -, -, htext⟩ := kwinQueuePoll_answered h hpoll
    refine ⟨?_, fun slot i hi => .inl hi⟩
    intro i text hmem
    rw [List.mem_singleton] at hmem
    cases hmem
    exact .inl ⟨.inr ⟨rfl, rfl⟩, poll.lane, 0, _, htext, h.fit poll.lane nowMs,
      dispatchJobs_length _ poll.lane nowMs⟩
  | parked queue poll hparse hpoll =>
    have hmoves := kwinQueueCall_moves bus.queue (.poll envelope nowMs (bufferInit replyCapacity))
    rw [kwinQueueCall, hpoll] at hmoves
    have hsend : (bus.counted queue).queue.Sendable := h.moves hmoves (handedEvents_quiet _).1
    have hgen : (bus.counted queue).queue.generation = bus.queue.generation := hmoves.generation
    refine ⟨?_, ?_⟩
    · intro i text hmem
      rcases List.mem_append.mp hmem with hmem | hmem
      · obtain ⟨hslot, hreply⟩ := releasePark_returned hsend (kwinParsePoll_lane hparse) hmem
        rw [hgen] at hreply
        exact .inl ⟨.inl hslot, hreply⟩
      · simp at hmem
    · intro slot i hi
      simp only [parkPoll] at hi
      by_cases hslot : slot = laneSlot poll.lane
      · rw [hslot, Function.update_self] at hi
        exact .inr ⟨(Option.some.inj hi).symm, rfl⟩
      · rw [Function.update_of_ne hslot] at hi
        have hstill : (bus.counted queue).parked slot = some i := releasePark_still hi
        exact .inl hstill
  | unpolled queue hpoll => exact ⟨by simp [busReply], fun slot i hi => .inl hi⟩

theorem busStep_replies (h : bus.queue.Sendable) (call : BusCall) :
    Replies bus (busStep bus call) (busOutputs bus call) call := by
  have hidle : ∀ lane nowMs, lane ≠ .none →
      Replies bus (idleFired bus lane nowMs).1 (idleFired bus lane nowMs).2 call := by
    intro lane nowMs hlane
    unfold idleFired
    split_ifs
    · refine ⟨?_, fun slot i hi => .inl (releasePark_still hi)⟩
      intro i text hmem
      obtain ⟨hslot, hreply⟩ := releasePark_returned h hlane hmem
      exact .inl ⟨.inl hslot, hreply⟩
    · exact ⟨nofun, fun slot i hi => .inl hi⟩
  cases call with
  | relay input nowMs written =>
    simp only [busStep, busOutputs, busDispatch, relayReadable]
    split
    · exact ⟨by simp, fun slot i hi => .inl hi⟩
    · next request _ _ =>
      rcases relayRequest_cases bus request nowMs written with
        ⟨status, -, hrequest⟩ | ⟨text, index, slot, queue, sequence, htext, -, -, hsubmit, hrequest⟩
      · rw [hrequest]
        exact ⟨fun i text hmem => absurd hmem busAnswer_returned, fun slot i hi => .inl hi⟩
      · rw [hrequest]
        have hsend : ({ bus with
            queue
            inflight := bus.inflight.set index ⟨true, request.requestId, request.opcode, sequence⟩ } :
              KwinBus).queue.Sendable := h.submit (kwinRequestText_body htext) hsubmit
        have hgen : queue.generation = bus.queue.generation := (Hands.submit hsubmit request.requestId).generation
        obtain ⟨-, -, -, -, hlane, -, -⟩ := kwinQueueSubmit_move hsubmit
        refine ⟨?_, ?_⟩
        swap
        · intro slot i hi
          have hstill : ({ bus with
              queue
              inflight := bus.inflight.set index ⟨true, request.requestId, request.opcode, sequence⟩ } :
                KwinBus).parked slot = some i := releasePark_still hi
          exact .inl hstill
        intro i text hmem
        rcases List.mem_cons.mp hmem with hmem | hmem
        · cases hmem
        · obtain ⟨hslot, hreply⟩ := releasePark_returned hsend hlane hmem
          dsimp only at hreply
          rw [hgen] at hreply
          exact .inl ⟨.inl hslot, hreply⟩
  | method sender generation method envelope nowMs written =>
    exact handled_replies h sender generation method envelope written
  | idleFast nowMs => exact hidle .fast nowMs (by decide)
  | idleSlow nowMs => exact hidle .slow nowMs (by decide)

end Returns

end KeysharpDesktop
