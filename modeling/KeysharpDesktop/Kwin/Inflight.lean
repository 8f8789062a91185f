import KeysharpDesktop.Kwin.Bus
import KeysharpDesktop.Lib.Slots

/-! The daemon's two tables in step: every request that waits has its own job in the queue, and
every job its own request. -/
namespace KeysharpDesktop

open scoped List

section Faces

/-- What of a slot a dispatch or a completion leaves alone. -/
def KwinJob.face (job : KwinJob) : KwinJob :=
  { job with state := if job.live then .queued else .free, status := 0, reply := [] }

/-- The jobs of a queue, each by its sequence and its opcode. -/
def liveEntries (jobs : List KwinJob) : List (Bytes × Opcode) :=
  (jobs.filter KwinJob.live).map fun job => (job.sequence, job.opcode)

variable {q q' : KwinQueue} {jobs jobs' : List KwinJob} {i : ℕ} {job : KwinJob}

@[simp] theorem KwinJob.face_live (job : KwinJob) : job.face.live = job.live := by
  unfold KwinJob.face
  cases h : job.live <;> simp [KwinJob.live]

theorem liveEntries_face (jobs : List KwinJob) : liveEntries (jobs.map KwinJob.face) = liveEntries jobs := by
  unfold liveEntries
  rw [List.filter_map, List.map_map]
  have hlive : KwinJob.live ∘ KwinJob.face = KwinJob.live := by
    funext job
    exact KwinJob.face_live job
  rw [hlive]
  rfl

theorem liveEntries_congr (h : jobs'.map KwinJob.face = jobs.map KwinJob.face) :
    liveEntries jobs' = liveEntries jobs := by
  rw [← liveEntries_face jobs', h, liveEntries_face]

theorem takeJobs_faces (lane : KwinLane) (limit : ℕ) (jobs : List KwinJob) :
    (takeJobs lane limit jobs).2.map KwinJob.face = jobs.map KwinJob.face := by
  induction limit generalizing jobs with
  | zero => rfl
  | succ limit ih =>
    unfold takeJobs
    split
    · rfl
    · rename_i k job hold
      obtain ⟨hfound, hqueued, -, -⟩ := oldestQueued_spec hold
      dsimp only
      rw [ih]
      refine Slots.map_set_of_eq hfound ?_
      simp [KwinJob.face, KwinJob.live, hqueued]

theorem completeAll_faces (q : KwinQueue) (ds : List KwinDone) :
    (completeAll q ds).2.jobs.map KwinJob.face = q.jobs.map KwinJob.face := by
  induction ds generalizing q with
  | nil => rfl
  | cons d ds ih =>
    unfold completeAll
    cases hc : kwinQueueComplete q q.generation d.sequence d.status d.body with
    | none => rfl
    | some r =>
      obtain ⟨-, k, job, hfound, hstate, -, rfl⟩ := kwinQueueComplete_cases hc
      dsimp only
      rw [ih, completeAt_jobs]
      refine Slots.map_set_of_eq hfound ?_
      simp [KwinJob.face, KwinJob.live, completed, hstate]

theorem kwinQueuePoll_faces (q : KwinQueue) (envelope : Bytes) (nowMs : ℕ) (reply : Buffer) :
    (kwinQueuePoll q envelope nowMs reply).2.jobs.map KwinJob.face = q.jobs.map KwinJob.face := by
  unfold kwinQueuePoll
  cases kwinParsePoll envelope with
  | none => rfl
  | some poll =>
    have htake := takeJobs_faces poll.lane (min kwinJobsPerReplyFast (laneCapacity poll.lane)) q.jobs
    dsimp only
    split_ifs
    · rfl
    · exact htake
    · split <;> exact htake

theorem kwinQueuePollParked_faces (q : KwinQueue) (lane : KwinLane) (nowMs : ℕ) (reply : Buffer) :
    (kwinQueuePollParked q lane nowMs reply).2.jobs.map KwinJob.face = q.jobs.map KwinJob.face := by
  unfold kwinQueuePollParked
  split
  · rfl
  · exact takeJobs_faces lane _ q.jobs

theorem kwinQueueReport_faces (q : KwinQueue) (envelope : Bytes) (reply : Buffer) :
    (kwinQueueReport q envelope reply).2.1.jobs.map KwinJob.face = q.jobs.map KwinJob.face := by
  rcases kwinQueueReport_jobs q envelope reply with ⟨hq, -⟩ | ⟨report, -, -, hq, -⟩
  · rw [hq]
  · rw [hq]
    exact completeAll_faces q report.done

end Faces

/-- The sequences given to requests, in order. -/
def queuedOf (outputs : List BusOutput) : List Bytes :=
  outputs.filterMap fun
    | .queued sequence _ _ => some sequence
    | _ => none

/-- The sequences whose requests were answered, in order. -/
def answeredOf (outputs : List BusOutput) : List Bytes :=
  outputs.filterMap fun
    | .answered (some sequence) _ => some sequence
    | _ => none

/-- The requests that wait, each by its sequence and its opcode. -/
def activeEntries (inflight : List KwinInflight) : List (Bytes × Opcode) :=
  (inflight.filter KwinInflight.active).map fun slot => (slot.sequence, slot.opcode)

/-- What an answer after a report owes to the request and to the done line of its sequence. -/
def AnswersFrom (outputs : List BusOutput) (lines : List KwinDone) (sequence : Bytes)
    (frame : RelayFrame) : Prop :=
  ∃ requestId opcode d, BusOutput.queued sequence requestId opcode ∈ outputs ∧ d ∈ lines ∧
    d.sequence = sequence ∧ relayAnswer requestId opcode d.status d.body = some frame

/-- What the daemon has put out so far, and what its tables hold. -/
structure KwinBus.Sound (bus : KwinBus) (outputs : List BusOutput) (lines : List KwinDone) : Prop where
  ledger : ∃ events, bus.queue.Ledger events ∧ enteredAll events = queuedOf outputs ∧
    completedAll events = lines.map KwinDone.sequence
  valid : bus.queue.Sound
  pairs : activeEntries bus.inflight ~ liveEntries bus.queue.jobs
  own : ∀ slot ∈ bus.inflight, slot.active →
    BusOutput.queued slot.sequence slot.requestId slot.opcode ∈ outputs
  done : ∀ job ∈ bus.queue.jobs, job.state = .done →
    ∃ d ∈ lines, d.sequence = job.sequence ∧ d.status = job.status ∧ d.body = job.reply
  answered : (answeredOf outputs).Nodup
  settled : ∀ s ∈ answeredOf outputs, s ∈ queuedOf outputs ∧
    ∀ slot ∈ bus.inflight, slot.active → slot.sequence ≠ s
  content : ∀ s frame, BusOutput.answered (some s) frame ∈ outputs → AnswersFrom outputs lines s frame

section Steps

variable {bus bus' : KwinBus} {outputs out : List BusOutput} {lines : List KwinDone}

/-- Two jobs of a sound daemon differ in their sequences. -/
theorem KwinBus.Sound.live_nodup (h : bus.Sound outputs lines)
    (hfew : (queuedOf outputs).length < 2 ^ 64) :
    ((liveEntries bus.queue.jobs).map Prod.fst).Nodup := by
  obtain ⟨events, hledger, hentered, -⟩ := h.ledger
  have hnum := hledger.numbered
  rw [hentered] at hnum
  unfold liveEntries
  rw [List.map_map]
  refine List.Nodup.map_on ?_ ?_
  · intro a ha b hb hab
    obtain ⟨ha, hla⟩ := List.mem_filter.mp ha
    obtain ⟨hb, hlb⟩ := List.mem_filter.mp hb
    obtain ⟨i, hi⟩ := List.mem_iff_getElem?.mp ha
    obtain ⟨j, hj⟩ := List.mem_iff_getElem?.mp hb
    have hij := hnum.sequence_injective hfew hi hj hla hlb hab
    subst hij
    exact Option.some.inj (hi.symm.trans hj)
  · have hne := hnum.apart.pairwise_ne
    refine hne.imp ?_
    rintro a b hab rfl
    exact hab rfl

/-- The jobs of the queue are the requests that wait, and no sequence is used twice. -/
theorem KwinBus.Sound.active_nodup (h : bus.Sound outputs lines)
    (hfew : (queuedOf outputs).length < 2 ^ 64) :
    ((activeEntries bus.inflight).map Prod.fst).Nodup :=
  (h.pairs.map Prod.fst).nodup_iff.mpr (h.live_nodup hfew)

/-- Outputs that neither queue a request nor answer one of the queue's. -/
def Plain (out : List BusOutput) : Prop :=
  ∀ o ∈ out, (∀ s r op, o ≠ .queued s r op) ∧ ∀ s frame, o ≠ .answered (some s) frame

theorem Plain.queuedOf_eq_nil (h : Plain out) : queuedOf out = [] := by
  rw [queuedOf, List.filterMap_eq_nil_iff]
  intro o ho
  have := (h o ho).1
  cases o <;> simp_all

theorem Plain.answeredOf_eq_nil (h : Plain out) : answeredOf out = [] := by
  rw [answeredOf, List.filterMap_eq_nil_iff]
  intro o ho
  have := (h o ho).2
  cases o with
  | answered sequence frame => cases sequence <;> simp_all
  | _ => rfl

theorem Plain.append {out' : List BusOutput} (h : Plain out) (h' : Plain out') : Plain (out ++ out') := by
  intro o ho
  rcases List.mem_append.mp ho with ho | ho
  · exact h o ho
  · exact h' o ho

theorem queuedOf_append (outputs out : List BusOutput) :
    queuedOf (outputs ++ out) = queuedOf outputs ++ queuedOf out := List.filterMap_append

theorem answeredOf_append (outputs out : List BusOutput) :
    answeredOf (outputs ++ out) = answeredOf outputs ++ answeredOf out := List.filterMap_append

theorem AnswersFrom.mono {outputs' : List BusOutput} {lines' : List KwinDone} {s : Bytes}
    {frame : RelayFrame} (h : AnswersFrom outputs lines s frame) (ho : outputs ⊆ outputs')
    (hl : lines ⊆ lines') : AnswersFrom outputs' lines' s frame := by
  obtain ⟨requestId, opcode, d, hq, hd, hs, hf⟩ := h
  exact ⟨requestId, opcode, d, ho hq, hl hd, hs, hf⟩

/-- A step that keeps the request table and every job's face, and completes jobs only by the
lines it reports. -/
theorem KwinBus.Sound.keep (h : bus.Sound outputs lines) (hplain : Plain out)
    (hfew : (queuedOf outputs).length < 2 ^ 64) {new : List KwinDone}
    {es : List KwinQueueEvent} (hmoves : bus.queue.Moves es bus'.queue) (hes : enteredAll es = [])
    (hnew : completedAll es = new.map KwinDone.sequence)
    (hvalid : bus'.queue.Sound) (hinflight : bus'.inflight = bus.inflight)
    (hfaces : bus'.queue.jobs.map KwinJob.face = bus.queue.jobs.map KwinJob.face)
    (hdone : ∀ job ∈ bus'.queue.jobs, job.state = .done → job ∈ bus.queue.jobs ∨
      ∃ d ∈ new, d.sequence = job.sequence ∧ d.status = job.status ∧ d.body = job.reply) :
    bus'.Sound (outputs ++ out) (lines ++ new) := by
  have hsub : outputs ⊆ outputs ++ out := List.subset_append_left _ _
  have hlines : lines ⊆ lines ++ new := List.subset_append_left _ _
  have hqueued : queuedOf (outputs ++ out) = queuedOf outputs := by
    rw [queuedOf_append, hplain.queuedOf_eq_nil, List.append_nil]
  have hanswered : answeredOf (outputs ++ out) = answeredOf outputs := by
    rw [answeredOf_append, hplain.answeredOf_eq_nil, List.append_nil]
  refine ⟨?_, hvalid, ?_, ?_, ?_, ?_, ?_, ?_⟩
  · obtain ⟨events, hledger, hentered, hcompleted⟩ := h.ledger
    have hall : enteredAll (events ++ es) = enteredAll events := by
      unfold enteredAll at hes ⊢
      rw [List.filterMap_append, hes, List.append_nil]
    refine ⟨events ++ es, KwinQueue.Ledger.moves hmoves hledger ?_, ?_, ?_⟩
    · rw [hall, hentered]
      exact hfew
    · rw [hall, hentered, hqueued]
    · rw [List.map_append, ← hcompleted, ← hnew]
      exact List.filterMap_append
  · rw [hinflight, liveEntries_congr hfaces]
    exact h.pairs
  · intro slot hslot hactive
    rw [hinflight] at hslot
    exact hsub (h.own slot hslot hactive)
  · intro job hjob hstate
    rcases hdone job hjob hstate with hold | hnew
    · obtain ⟨d, hd, hrest⟩ := h.done job hold hstate
      exact ⟨d, hlines hd, hrest⟩
    · obtain ⟨d, hd, hrest⟩ := hnew
      exact ⟨d, List.mem_append_right _ hd, hrest⟩
  · rw [hanswered]
    exact h.answered
  · rw [hanswered, hqueued, hinflight]
    exact h.settled
  · intro s frame hmem
    rcases List.mem_append.mp hmem with hmem | hmem
    · exact (h.content s frame hmem).mono hsub hlines
    · exact absurd rfl ((hplain _ hmem).2 s frame)

theorem mem_of_slot_done {q q' : KwinQueue} {es : List KwinQueueEvent} (hmoves : q.Moves es q')
    (hes : completedAll es = []) : ∀ job ∈ q'.jobs, job.state = .done → job ∈ q.jobs := by
  intro job hjob hstate
  obtain ⟨i, hi⟩ := List.mem_iff_getElem?.mp hjob
  exact List.mem_of_getElem? (hmoves.slot_done hes hi hstate)

theorem handedEvents_quiet (batch : List KwinJob) :
    enteredAll (handedEvents batch) = [] ∧ completedAll (handedEvents batch) = [] := by
  constructor
  · simp [handedEvents, enteredAll]
  · simp [handedEvents, completedAll]

/-- A call that only hands jobs out keeps the daemon sound. -/
theorem KwinBus.Sound.hand (h : bus.Sound outputs lines) (hplain : Plain out)
    (hfew : (queuedOf outputs).length < 2 ^ 64) {call : KwinQueueCall}
    (hevents : kwinQueueEvents bus.queue call = handedEvents (handedBatch bus.queue call))
    (hqueue : bus'.queue = kwinQueueCall bus.queue call) (hinflight : bus'.inflight = bus.inflight)
    (hfaces : bus'.queue.jobs.map KwinJob.face = bus.queue.jobs.map KwinJob.face) :
    bus'.Sound (outputs ++ out) lines := by
  have hmoves := kwinQueueCall_moves bus.queue call
  rw [← hqueue, hevents] at hmoves
  obtain ⟨hentered, hcompleted⟩ := handedEvents_quiet (handedBatch bus.queue call)
  have hkeep : bus'.Sound (outputs ++ out) (lines ++ []) := by
    refine h.keep hplain hfew hmoves hentered hcompleted ?_ hinflight hfaces ?_
    · rw [hqueue]
      exact kwinQueueCall_sound h.valid call
    · intro job hjob hstate
      exact .inl (mem_of_slot_done hmoves hcompleted job hjob hstate)
  rwa [List.append_nil] at hkeep

theorem releasePark_plain (bus : KwinBus) (lane : KwinLane) (nowMs : ℕ) :
    Plain (releasePark bus lane nowMs).2 := by
  unfold releasePark
  split
  · intro o ho
    simp at ho
  · dsimp only
    split
    · intro o ho
      rw [List.mem_singleton.mp ho]
      simp
    · intro o ho
      rw [List.mem_singleton.mp ho]
      simp

@[simp] theorem releasePark_inflight (bus : KwinBus) (lane : KwinLane) (nowMs : ℕ) :
    (releasePark bus lane nowMs).1.inflight = bus.inflight := by
  unfold releasePark
  split <;> rfl

@[simp] theorem releasePark_invocations (bus : KwinBus) (lane : KwinLane) (nowMs : ℕ) :
    (releasePark bus lane nowMs).1.invocations = bus.invocations := by
  unfold releasePark
  split <;> rfl

theorem releasePark_queue (bus : KwinBus) (lane : KwinLane) (nowMs : ℕ) :
    (releasePark bus lane nowMs).1.queue = bus.queue ∨
      (releasePark bus lane nowMs).1.queue =
        kwinQueueCall bus.queue (.pollParked lane nowMs (bufferInit replyCapacity)) := by
  unfold releasePark
  split
  · exact .inl rfl
  · exact .inr rfl

theorem KwinBus.Sound.plain (h : bus.Sound outputs lines) (hplain : Plain out)
    (hfew : (queuedOf outputs).length < 2 ^ 64) (hqueue : bus'.queue = bus.queue)
    (hinflight : bus'.inflight = bus.inflight) : bus'.Sound (outputs ++ out) lines := by
  have hmoves : bus.queue.Moves [] bus'.queue := by
    rw [hqueue]
    exact .nil _
  have hkeep : bus'.Sound (outputs ++ out) (lines ++ []) := by
    refine h.keep hplain hfew hmoves rfl rfl ?_ hinflight ?_ ?_
    · rw [hqueue]
      exact h.valid
    · rw [hqueue]
    · intro job hjob _
      rw [hqueue] at hjob
      exact .inl hjob
  rwa [List.append_nil] at hkeep

theorem KwinBus.Sound.releasePark (h : bus.Sound outputs lines)
    (hfew : (queuedOf outputs).length < 2 ^ 64) (lane : KwinLane) (nowMs : ℕ) :
    (releasePark bus lane nowMs).1.Sound (outputs ++ (releasePark bus lane nowMs).2) lines := by
  have hplain := releasePark_plain bus lane nowMs
  have hinflight := releasePark_inflight bus lane nowMs
  rcases releasePark_queue bus lane nowMs with hqueue | hqueue
  · exact h.plain hplain hfew hqueue hinflight
  · refine h.hand hplain hfew rfl hqueue hinflight ?_
    rw [hqueue]
    exact kwinQueuePollParked_faces bus.queue lane nowMs _

theorem KwinBus.Sound.parkPoll (h : bus.Sound outputs lines) (hfew : (queuedOf outputs).length < 2 ^ 64)
    (invocation : Invocation) (lane : KwinLane) (nowMs : ℕ) :
    (parkPoll bus invocation lane nowMs).1.Sound
      (outputs ++ (parkPoll bus invocation lane nowMs).2) lines := by
  have hpark := h.releasePark hfew lane nowMs
  have hsame : queuedOf (outputs ++ (KeysharpDesktop.releasePark bus lane nowMs).2) = queuedOf outputs := by
    rw [queuedOf_append, (releasePark_plain bus lane nowMs).queuedOf_eq_nil, List.append_nil]
  have hplain : Plain [BusOutput.parked invocation] := by
    intro o ho
    rw [List.mem_singleton.mp ho]
    simp
  have hfinal : (KeysharpDesktop.parkPoll bus invocation lane nowMs).1.Sound
      (outputs ++ (KeysharpDesktop.releasePark bus lane nowMs).2 ++ [.parked invocation]) lines :=
    hpark.plain hplain (by rw [hsame]; exact hfew) rfl rfl
  rwa [List.append_assoc] at hfinal

/-- A job that a report completes carries the status and the body of its line. -/
theorem kwinQueueReport_done {q : KwinQueue} (h : q.Sound) (envelope : Bytes) (reply : Buffer) :
    ∀ job ∈ (kwinQueueReport q envelope reply).2.1.jobs, job.state = .done → job ∈ q.jobs ∨
      ∃ d ∈ (reportedLines q envelope).map Prod.snd, d.sequence = job.sequence ∧ d.status = job.status ∧
        d.body = job.reply := by
  intro job hjob hstate
  obtain ⟨i, hi⟩ := List.mem_iff_getElem?.mp hjob
  rcases kwinQueueReport_jobs q envelope reply with ⟨hq, -⟩ | ⟨report, -, -, hq, hlines⟩
  · rw [hq] at hjob
    exact .inl hjob
  · rw [hq] at hi
    rcases completeAll_slot q report.done i with hsame | ⟨before, d, hb, hbs, hmem, hseq, hout⟩
    · rw [hsame] at hi
      exact .inl (List.mem_of_getElem? hi)
    · have heq : job = completed before d := Option.some.inj (hi.symm.trans hout)
      have hreply : before.reply = [] := h.reply before (List.mem_of_getElem? hb) (by simp [hbs])
      have hbody : d.body = (if d.body = [] then before.reply else d.body) := by
        split_ifs with hempty
        · rw [hreply, hempty]
        · rfl
      have hline : d ∈ (reportedLines q envelope).map Prod.snd := by
        rw [hlines, List.map_map]
        exact List.mem_map.mpr ⟨d, hmem, rfl⟩
      exact .inr ⟨d, hline, by rw [heq, hseq]; rfl, by rw [heq]; rfl, by rw [heq]; exact hbody⟩

theorem kwinQueueReport_moves (q : KwinQueue) (envelope : Bytes) (reply : Buffer) :
    ∃ es, q.Moves es (kwinQueueReport q envelope reply).2.1 ∧ enteredAll es = [] ∧
      completedAll es = ((reportedLines q envelope).map Prod.snd).map KwinDone.sequence := by
  refine ⟨kwinQueueEvents q (.report envelope reply), kwinQueueCall_moves q (.report envelope reply), ?_, ?_⟩
  · simp [kwinQueueEvents, enteredAll]
  · rw [List.map_map]
    unfold kwinQueueEvents completedAll
    rw [List.filterMap_map, ← List.filterMap_eq_map]
    rfl

theorem kwinQueueResult_eq_some {q : KwinQueue} {sequence body : Bytes} {status : Status}
    (h : kwinQueueResult q sequence = some (status, body)) :
    ∃ i job, slotOf q.jobs sequence = some i ∧ q.jobs[i]? = some job ∧ job.state = .done ∧
      job.sequence = sequence ∧ job.status = status ∧ job.reply = body := by
  unfold kwinQueueResult kwinQueueFind at h
  cases hslot : slotOf q.jobs sequence with
  | none => simp [hslot] at h
  | some i =>
    obtain ⟨job, hj, -, hseq⟩ := slotOf_eq_some hslot
    simp only [hslot, Option.bind_some, hj] at h
    split_ifs at h with hstate
    cases h
    exact ⟨i, job, rfl, hj, not_not.mp hstate, hseq, rfl, rfl⟩

theorem kwinQueueRelease_eq {q : KwinQueue} {sequence : Bytes} {i : ℕ}
    (h : slotOf q.jobs sequence = some i) :
    kwinQueueRelease q sequence = { q with jobs := q.jobs.set i freeSlot } := by
  rw [kwinQueueRelease, h]

theorem kwinQueueRelease_moves (q : KwinQueue) (sequence : Bytes) :
    q.Moves [] (kwinQueueRelease q sequence) := kwinQueueCall_moves q (.release sequence)

/-- Everything an answer to a waiting request can put out. -/
theorem busAnswer_cases (written : Bool) (sequence : Option Bytes) (requestId : BitVec 64)
    (opcode : Opcode) (status : Status) (body : Bytes) :
    busAnswer written sequence requestId opcode status body = [] ∨
      busAnswer written sequence requestId opcode status body = [.relayFailed] ∨
      ∃ frame, relayAnswer requestId opcode status body = some frame ∧
        busAnswer written sequence requestId opcode status body = [.answered sequence frame] := by
  unfold busAnswer
  cases relayAnswer requestId opcode status body with
  | none => exact .inl rfl
  | some frame =>
    cases written with
    | false => exact .inr (.inl rfl)
    | true => exact .inr (.inr ⟨frame, rfl, rfl⟩)

theorem busAnswer_queuedOf (written : Bool) (sequence : Option Bytes) (requestId : BitVec 64)
    (opcode : Opcode) (status : Status) (body : Bytes) :
    queuedOf (busAnswer written sequence requestId opcode status body) = [] := by
  rcases busAnswer_cases written sequence requestId opcode status body with h | h | ⟨frame, -, h⟩ <;>
    · rw [h]
      rfl

/-- Taking a finished job and its request out together keeps the tables in step. -/
theorem pairs_remove {inflight : List KwinInflight} {jobs : List KwinJob} {index i : ℕ}
    {slot : KwinInflight} {job : KwinJob} (hpairs : activeEntries inflight ~ liveEntries jobs)
    (hnodup : ((liveEntries jobs).map Prod.fst).Nodup) (hindex : inflight[index]? = some slot)
    (hactive : slot.active) (hi : jobs[i]? = some job) (hlive : job.live)
    (hseq : job.sequence = slot.sequence) :
    activeEntries (inflight.set index { slot with active := false }) ~
      liveEntries (jobs.set i freeSlot) := by
  have hentries := (Slots.filter_perm_set (b := { slot with active := false }) hindex hactive rfl).map
    fun slot => (slot.sequence, slot.opcode)
  have hjobs := (Slots.filter_perm_set (b := freeSlot) hi hlive rfl).map
    fun job => (job.sequence, job.opcode)
  have hslot : (slot.sequence, slot.opcode) ∈ liveEntries jobs :=
    hpairs.subset (hentries.symm.subset List.mem_cons_self)
  have hjob : (job.sequence, job.opcode) ∈ liveEntries jobs := hjobs.symm.subset List.mem_cons_self
  have hsame : (slot.sequence, slot.opcode) = (job.sequence, job.opcode) :=
    List.inj_on_of_nodup_map hnodup hslot hjob hseq.symm
  refine (List.perm_cons (slot.sequence, slot.opcode)).mp ?_
  refine hentries.symm.trans (hpairs.trans ?_)
  rw [hsame]
  exact hjobs

/-- A request that waits is the only one under its sequence. -/
theorem active_alone {inflight : List KwinInflight} {index j : ℕ} {slot other : KwinInflight}
    (hnodup : ((activeEntries inflight).map Prod.fst).Nodup) (hindex : inflight[index]? = some slot)
    (hj : inflight[j]? = some other) (hactive : slot.active) (hother : other.active) (hne : j ≠ index) :
    other.sequence ≠ slot.sequence := by
  have hpairwise : inflight.Pairwise fun a b => a.active → b.active → a.sequence ≠ b.sequence := by
    unfold activeEntries at hnodup
    rw [List.map_map, List.Nodup, List.pairwise_map, List.pairwise_filter] at hnodup
    exact hnodup
  rw [List.pairwise_iff_getElem] at hpairwise
  obtain ⟨hlt, rfl⟩ := List.getElem?_eq_some_iff.mp hindex
  obtain ⟨hlt', rfl⟩ := List.getElem?_eq_some_iff.mp hj
  rcases Nat.lt_or_gt_of_ne hne with hless | hmore
  · exact hpairwise j index hlt' hlt hless hother hactive
  · exact (hpairwise index j hlt hlt' hmore hactive hother).symm

/-- Everything one turn of the drain can do. -/
theorem drainSlot_cases (bus : KwinBus) (index : ℕ) (written : Bool) :
    drainSlot bus index written = (bus, []) ∨
      ∃ slot status body, bus.inflight[index]? = some slot ∧ slot.active ∧
        kwinQueueResult bus.queue slot.sequence = some (status, body) ∧
        drainSlot bus index written =
          ({ bus with queue := kwinQueueRelease bus.queue slot.sequence
                      inflight := bus.inflight.set index { slot with active := false } },
            busAnswer written (some slot.sequence) slot.requestId slot.opcode status body) := by
  unfold drainSlot
  dsimp only
  by_cases hlt : index < bus.inflight.length
  · rw [Slots.getD_of_lt hlt]
    split_ifs with hactive
    · exact .inl rfl
    · cases hresult : kwinQueueResult bus.queue bus.inflight[index].sequence with
      | none => exact .inl rfl
      | some result =>
        exact .inr ⟨_, _, _, List.getElem?_eq_getElem hlt, by simpa using hactive, hresult, rfl⟩
  · rw [Slots.getD_of_ge (Nat.not_lt.mp hlt)]
    exact .inl rfl

theorem KwinBus.Sound.drainSlot (h : bus.Sound outputs lines) (hfew : (queuedOf outputs).length < 2 ^ 64)
    (index : ℕ) (written : Bool) :
    (drainSlot bus index written).1.Sound (outputs ++ (drainSlot bus index written).2) lines := by
  rcases drainSlot_cases bus index written with hnone | ⟨slot, status, body, hindex, hactive, hresult, hdrain⟩
  · rw [hnone]
    simpa using h
  rw [hdrain]
  dsimp only
  obtain ⟨i, job, hi, hj, hstate, hseq, hstatus, hbody⟩ := kwinQueueResult_eq_some hresult
  have hlive : job.live := by simp [KwinJob.live, hstate]
  have hslotmem := List.mem_of_getElem? hindex
  have hown := h.own slot hslotmem hactive
  have hsub : outputs ⊆ outputs ++ busAnswer written (some slot.sequence) slot.requestId slot.opcode
      status body := List.subset_append_left _ _
  have hqueued : queuedOf (outputs ++ busAnswer written (some slot.sequence) slot.requestId slot.opcode
      status body) = queuedOf outputs := by
    rw [queuedOf_append, busAnswer_queuedOf, List.append_nil]
  have hinqueued : slot.sequence ∈ queuedOf outputs :=
    List.mem_filterMap.mpr ⟨_, hown, rfl⟩
  have hlater : ∀ other ∈ bus.inflight.set index { slot with active := false }, other.active →
      other ∈ bus.inflight ∧ other.sequence ≠ slot.sequence := by
    intro other hmem hother
    obtain ⟨j, hjmem⟩ := List.mem_iff_getElem?.mp hmem
    rw [List.getElem?_set] at hjmem
    split_ifs at hjmem with hij
    · cases hjmem
      cases hother
    · exact ⟨List.mem_of_getElem? hjmem, active_alone (h.active_nodup hfew) hindex hjmem hactive hother
        (Ne.symm hij)⟩
  have hmoves := kwinQueueRelease_moves bus.queue slot.sequence
  refine ⟨?_, kwinQueueCall_sound h.valid (.release slot.sequence), ?_, ?_, ?_, ?_, ?_, ?_⟩
  · obtain ⟨events, hledger, hentered, hcompleted⟩ := h.ledger
    refine ⟨events, ?_, by rw [hqueued, hentered], hcompleted⟩
    have := KwinQueue.Ledger.moves hmoves hledger (by rwa [List.append_nil, hentered])
    rwa [List.append_nil] at this
  · rw [kwinQueueRelease_eq hi]
    exact pairs_remove h.pairs (h.live_nodup hfew) hindex hactive hj hlive hseq
  · intro other hmem hother
    exact hsub (h.own other (hlater other hmem hother).1 hother)
  · intro other hmem hdone
    exact h.done other (mem_of_slot_done hmoves rfl other hmem hdone) hdone
  · rw [answeredOf_append]
    have hnot : slot.sequence ∉ answeredOf outputs := by
      intro hin
      exact (h.settled _ hin).2 slot hslotmem hactive rfl
    rcases busAnswer_cases written (some slot.sequence) slot.requestId slot.opcode status body with
      ho | ho | ⟨frame, -, ho⟩
    · rw [ho]
      simpa [answeredOf] using h.answered
    · rw [ho]
      simpa [answeredOf] using h.answered
    · rw [ho, List.nodup_append]
      refine ⟨h.answered, List.nodup_singleton _, ?_⟩
      intro a ha b hb hab
      rw [hab, List.mem_singleton.mp hb] at ha
      exact hnot ha
  · intro s hs
    rw [hqueued]
    rw [answeredOf_append] at hs
    have hcases : s ∈ answeredOf outputs ∨ s = slot.sequence := by
      rcases List.mem_append.mp hs with hs | hs
      · exact .inl hs
      · rcases busAnswer_cases written (some slot.sequence) slot.requestId slot.opcode status body with
          ho | ho | ⟨frame, -, ho⟩
        · rw [ho] at hs
          simp [answeredOf] at hs
        · rw [ho] at hs
          simp [answeredOf] at hs
        · rw [ho] at hs
          exact .inr (List.mem_singleton.mp hs)
    rcases hcases with hs | rfl
    · obtain ⟨hq, hnone⟩ := h.settled s hs
      exact ⟨hq, fun other hmem hother => hnone other (hlater other hmem hother).1 hother⟩
    · exact ⟨hinqueued, fun other hmem hother => (hlater other hmem hother).2⟩
  · intro s frame hmem
    rcases List.mem_append.mp hmem with hmem | hmem
    · exact (h.content s frame hmem).mono hsub (fun d hd => hd)
    · rcases busAnswer_cases written (some slot.sequence) slot.requestId slot.opcode status body with
        ho | ho | ⟨frame', hframe, ho⟩
      · rw [ho] at hmem
        simp at hmem
      · rw [ho] at hmem
        simp at hmem
      · rw [ho] at hmem
        have heq := List.mem_singleton.mp hmem
        cases heq
        obtain ⟨d, hd, hds, hdst, hdb⟩ := h.done job (List.mem_of_getElem? hj) hstate
        refine ⟨slot.requestId, slot.opcode, d, hsub hown, hd, hds.trans hseq, ?_⟩
        rw [hdst, hdb, hstatus, hbody]
        exact hframe

theorem drainSlot_queuedOf (bus : KwinBus) (index : ℕ) (written : Bool) :
    queuedOf (drainSlot bus index written).2 = [] := by
  rcases drainSlot_cases bus index written with h | ⟨slot, status, body, -, -, -, h⟩
  · rw [h]
    rfl
  · rw [h]
    exact busAnswer_queuedOf _ _ _ _ _ _

theorem relayDrainFrom_queuedOf (written : ℕ → Bool) (left index : ℕ) (bus : KwinBus) :
    queuedOf (relayDrainFrom written left index bus).2 = [] := by
  induction left generalizing index bus with
  | zero => rfl
  | succ left ih =>
    unfold relayDrainFrom
    dsimp only
    rw [queuedOf_append, drainSlot_queuedOf, ih, List.append_nil]

theorem KwinBus.Sound.relayDrainFrom (written : ℕ → Bool) (left index : ℕ)
    (h : bus.Sound outputs lines) (hfew : (queuedOf outputs).length < 2 ^ 64) :
    (relayDrainFrom written left index bus).1.Sound
      (outputs ++ (relayDrainFrom written left index bus).2) lines := by
  induction left generalizing index bus outputs with
  | zero => simpa [KeysharpDesktop.relayDrainFrom] using h
  | succ left ih =>
    have hslot := h.drainSlot hfew index (written index)
    have hsame : queuedOf (outputs ++ (KeysharpDesktop.drainSlot bus index (written index)).2) =
        queuedOf outputs := by
      rw [queuedOf_append, drainSlot_queuedOf, List.append_nil]
    have hrest := ih (index + 1) hslot (by rw [hsame]; exact hfew)
    rw [List.append_assoc] at hrest
    exact hrest

theorem relayDrain_queuedOf (written : ℕ → Bool) (bus : KwinBus) :
    queuedOf (relayDrain bus written).2 = [] := by
  unfold relayDrain
  exact relayDrainFrom_queuedOf written kwinMaxJobs 0 bus

theorem KwinBus.Sound.relayDrain (h : bus.Sound outputs lines) (hfew : (queuedOf outputs).length < 2 ^ 64)
    (written : ℕ → Bool) :
    (relayDrain bus written).1.Sound (outputs ++ (relayDrain bus written).2) lines := by
  unfold KeysharpDesktop.relayDrain
  exact h.relayDrainFrom written kwinMaxJobs 0 hfew

/-- A request becomes a job and an entry under one fresh sequence. -/
theorem KwinBus.Sound.enqueue (h : bus.Sound outputs lines) {index : ℕ} {slot : KwinInflight}
    (hindex : bus.inflight[index]? = some slot) (hfree : slot.active = false) {opcode : Opcode}
    {text sequence : Bytes} {nowMs : ℕ} {queue : KwinQueue}
    (hsubmit : kwinQueueSubmit bus.queue opcode text nowMs = some (queue, sequence))
    (requestId : BitVec 64)
    (hfew : (queuedOf (outputs ++ [.queued sequence requestId opcode])).length < 2 ^ 64) :
    { bus with queue
               inflight := bus.inflight.set index ⟨true, requestId, opcode, sequence⟩ }.Sound
      (outputs ++ [BusOutput.queued sequence requestId opcode]) lines := by
  obtain ⟨i, job, hjob, hjobfree, hlane, hseq, hqueue⟩ := kwinQueueSubmit_move hsubmit
  have hmove : bus.queue.Move [.entered (kwinLaneFor opcode) sequence] queue := by
    rw [hseq, hqueue]
    exact .enter bus.queue i job opcode text nowMs hjob hjobfree hlane
  have hsub : outputs ⊆ outputs ++ [BusOutput.queued sequence requestId opcode] :=
    List.subset_append_left _ _
  have hqueued : queuedOf (outputs ++ [.queued sequence requestId opcode]) =
      queuedOf outputs ++ [sequence] := queuedOf_append _ _
  have hanswered : answeredOf (outputs ++ [.queued sequence requestId opcode]) = answeredOf outputs := by
    rw [answeredOf_append]
    exact List.append_nil _
  obtain ⟨events, hledger, hentered, hcompleted⟩ := h.ledger
  have hall : enteredAll (events ++ [.entered (kwinLaneFor opcode) sequence]) =
      queuedOf (outputs ++ [.queued sequence requestId opcode]) := by
    rw [hqueued, ← hentered, enteredAll, enteredAll, List.filterMap_append]
    rfl
  have hledger' := hledger.move hmove (by rw [hall]; exact hfew)
  have hnew : sequence ∉ queuedOf outputs := by
    intro hin
    have hnodup : (queuedOf outputs ++ [sequence]).Nodup := by
      rw [← hqueued, ← hall, hledger'.entered]
      refine List.Nodup.map_on ?_ List.nodup_range
      intro m hm n hn heq
      have hm := List.mem_range.mp hm
      have hn := List.mem_range.mp hn
      rw [hall] at hm hn
      have := sequenceOf_injective (by omega) (by omega) heq
      omega
    exact (List.nodup_append.mp hnodup).2.2 sequence hin sequence (by simp) rfl
  have hsame : completedAll (events ++ [.entered (kwinLaneFor opcode) sequence]) = completedAll events := by
    simp [completedAll]
  refine ⟨⟨_, hledger', hall, hsame.trans hcompleted⟩, ?_, ?_, ?_, ?_, ?_, ?_, ?_⟩
  · have := kwinQueueCall_sound h.valid (.submit opcode text nowMs)
    simpa [kwinQueueCall, hsubmit] using this
  · have hentries := (Slots.filter_set_perm (p := KwinInflight.active)
      (b := ⟨true, requestId, opcode, sequence⟩) hindex hfree rfl).map
      fun slot => (slot.sequence, slot.opcode)
    have hjobs := (Slots.filter_set_perm (p := KwinJob.live)
      (b := submittedJob bus.queue opcode text nowMs) hjob (by simp [KwinJob.live, hjobfree]) rfl).map
      fun job => (job.sequence, job.opcode)
    have hcons : (sequence, opcode) :: activeEntries bus.inflight ~
        (formatSequence bus.queue.nextSequence, opcode) :: liveEntries bus.queue.jobs := by
      rw [hseq]
      exact h.pairs.cons _
    have hafter : liveEntries queue.jobs ~
        (formatSequence bus.queue.nextSequence, opcode) :: liveEntries bus.queue.jobs := by
      rw [hqueue]
      exact hjobs
    exact hentries.trans (hcons.trans hafter.symm)
  · intro other hmem hother
    rcases List.mem_or_eq_of_mem_set hmem with hmem | rfl
    · exact hsub (h.own other hmem hother)
    · exact List.mem_append_right _ List.mem_cons_self
  · intro other hmem hdone
    exact h.done other (mem_of_slot_done (.single hmove) rfl other hmem hdone) hdone
  · rw [hanswered]
    exact h.answered
  · rw [hanswered, hqueued]
    intro s hs
    obtain ⟨hq, hnone⟩ := h.settled s hs
    refine ⟨List.mem_append_left _ hq, ?_⟩
    intro other hmem hother
    rcases List.mem_or_eq_of_mem_set hmem with hmem | rfl
    · exact hnone other hmem hother
    · rintro rfl
      exact hnew hq
  · intro s frame hmem
    rcases List.mem_append.mp hmem with hmem | hmem
    · exact (h.content s frame hmem).mono hsub (fun d hd => hd)
    · simp at hmem

theorem plain_relayFailed : Plain [BusOutput.relayFailed] := by
  intro o ho
  rw [List.mem_singleton.mp ho]
  simp

/-- A refusal at the door answers nothing the queue holds. -/
theorem busAnswer_none_plain (written : Bool) (requestId : BitVec 64) (opcode : Opcode)
    (status : Status) (body : Bytes) : Plain (busAnswer written none requestId opcode status body) := by
  rcases busAnswer_cases written none requestId opcode status body with h | h | ⟨frame, -, h⟩
  · rw [h]
    intro o ho
    simp at ho
  · rw [h]
    exact plain_relayFailed
  · rw [h]
    intro o ho
    rw [List.mem_singleton.mp ho]
    simp

/-- Everything a request read from the relay can lead to: a refusal, or a job. -/
theorem relayRequest_cases (bus : KwinBus) (request : RelayRequest) (nowMs : ℕ) (written : Bool) :
    (∃ status, (status = Status.invalidRequest ∨ status = Status.busy) ∧
      relayRequest bus request nowMs written =
        (bus, busAnswer written none request.requestId request.opcode status [])) ∨
    ∃ text index slot queue sequence,
      kwinRequestText request.opcode request.payload requestCapacity = some text ∧
      bus.inflight[index]? = some slot ∧ slot.active = false ∧
      kwinQueueSubmit bus.queue request.opcode text nowMs = some (queue, sequence) ∧
      relayRequest bus request nowMs written =
        ((releasePark { bus with
            queue
            inflight := bus.inflight.set index ⟨true, request.requestId, request.opcode, sequence⟩ }
          (kwinLaneFor request.opcode) nowMs).1,
        .queued sequence request.requestId request.opcode :: (releasePark { bus with
            queue
            inflight := bus.inflight.set index ⟨true, request.requestId, request.opcode, sequence⟩ }
          (kwinLaneFor request.opcode) nowMs).2) := by
  unfold relayRequest
  cases htext : kwinRequestText request.opcode request.payload requestCapacity with
  | none => exact .inl ⟨_, .inl rfl, rfl⟩
  | some text =>
    dsimp only
    cases hfind : bus.inflight.findIdx? fun slot => !slot.active with
    | none => exact .inl ⟨_, .inr rfl, rfl⟩
    | some index =>
      dsimp only
      cases hsubmit : kwinQueueSubmit bus.queue request.opcode text nowMs with
      | none => exact .inl ⟨_, .inr rfl, rfl⟩
      | some result =>
        obtain ⟨hlt, hp, -⟩ := List.findIdx?_eq_some_iff_getElem.mp hfind
        exact .inr ⟨text, index, bus.inflight[index], result.1, result.2, rfl,
          List.getElem?_eq_getElem hlt, by simpa using hp, hsubmit, rfl⟩

theorem KwinBus.Sound.relayRequest (h : bus.Sound outputs lines) (request : RelayRequest) (nowMs : ℕ)
    (written : Bool)
    (hfew : (queuedOf (outputs ++ (relayRequest bus request nowMs written).2)).length < 2 ^ 64) :
    (relayRequest bus request nowMs written).1.Sound
      (outputs ++ (relayRequest bus request nowMs written).2) lines := by
  rcases relayRequest_cases bus request nowMs written with
    ⟨status, -, hrequest⟩ | ⟨text, index, slot, queue, sequence, -, hindex, hfree, hsubmit, hrequest⟩
  · rw [hrequest] at hfew ⊢
    have hplain := busAnswer_none_plain written request.requestId request.opcode status []
    rw [queuedOf_append, hplain.queuedOf_eq_nil, List.append_nil] at hfew
    exact h.plain hplain hfew rfl rfl
  · rw [hrequest] at hfew ⊢
    have hplain := releasePark_plain { bus with
      queue
      inflight := bus.inflight.set index ⟨true, request.requestId, request.opcode, sequence⟩ }
      (kwinLaneFor request.opcode) nowMs
    dsimp only at hfew ⊢
    rw [← List.singleton_append, ← List.append_assoc] at hfew ⊢
    rw [queuedOf_append, hplain.queuedOf_eq_nil, List.append_nil] at hfew
    exact (h.enqueue hindex hfree hsubmit request.requestId hfew).releasePark hfew _ nowMs

theorem plain_busReply (invocation : Invocation) (reply : Option Buffer) :
    Plain (busReply invocation reply) := by
  intro o ho
  cases reply with
  | none =>
    rw [List.mem_singleton.mp ho]
    simp
  | some reply =>
    rw [List.mem_singleton.mp ho]
    simp

theorem plain_error (invocation : Invocation) (text : Bytes) : Plain [BusOutput.error invocation text] := by
  intro o ho
  rw [List.mem_singleton.mp ho]
  simp

theorem KwinBus.Sound.reportQueue (h : bus.Sound outputs lines)
    (hfew : (queuedOf outputs).length < 2 ^ 64) {envelope : Bytes} {ok : Bool} {queue : KwinQueue}
    {reply : Buffer}
    (hreport : kwinQueueReport bus.queue envelope (bufferInit replyCapacity) = (ok, queue, reply)) :
    (bus.counted queue).Sound outputs (lines ++ (reportedLines bus.queue envelope).map Prod.snd) := by
  have hdone := kwinQueueReport_done h.valid envelope (bufferInit replyCapacity)
  have hfaces := kwinQueueReport_faces bus.queue envelope (bufferInit replyCapacity)
  have hvalid := kwinQueueReport_sound h.valid envelope (bufferInit replyCapacity)
  obtain ⟨es, hmoves, hes, hnew⟩ := kwinQueueReport_moves bus.queue envelope (bufferInit replyCapacity)
  rw [hreport] at hdone hfaces hvalid hmoves
  have hplain : Plain [] := fun o ho => by simp at ho
  have hkeep : (bus.counted queue).Sound (outputs ++ [])
      (lines ++ (reportedLines bus.queue envelope).map Prod.snd) :=
    h.keep hplain hfew hmoves hes hnew hvalid rfl hfaces hdone
  rwa [List.append_nil] at hkeep

theorem KwinBus.Sound.pollQueue (h : bus.Sound outputs lines)
    (hfew : (queuedOf outputs).length < 2 ^ 64) {envelope : Bytes} {nowMs : ℕ}
    {outcome : KwinPollOutcome} {queue : KwinQueue}
    (hpoll : kwinQueuePoll bus.queue envelope nowMs (bufferInit replyCapacity) = (outcome, queue))
    (hplain : Plain out) : (bus.counted queue).Sound (outputs ++ out) lines := by
  have hqueue : queue = kwinQueueCall bus.queue (.poll envelope nowMs (bufferInit replyCapacity)) := by
    rw [kwinQueueCall, hpoll]
  have hfaces := kwinQueuePoll_faces bus.queue envelope nowMs (bufferInit replyCapacity)
  rw [hpoll] at hfaces
  exact h.hand hplain hfew rfl hqueue rfl hfaces

theorem KwinBus.Sound.handled (h : bus.Sound outputs lines) (hfew : (queuedOf outputs).length < 2 ^ 64)
    {envelope : Bytes} {nowMs : ℕ} {written : ℕ → Bool} {method : BusMethod} {new : List KwinDone}
    {result : KwinBus × List BusOutput} (hhandled : Handled bus envelope nowMs written method new result) :
    result.1.Sound (outputs ++ result.2) (lines ++ new) := by
  cases hhandled with
  | denied _ text =>
    rw [List.append_nil]
    exact h.plain (plain_error _ _) hfew rfl rfl
  | acknowledged _ reply =>
    rw [List.append_nil]
    exact h.plain (plain_busReply _ _) hfew rfl rfl
  | reported queue reply hreport =>
    have hqueue := h.reportQueue hfew hreport
    have hdrain := hqueue.relayDrain hfew written
    have hfew' : (queuedOf (outputs ++ (KeysharpDesktop.relayDrain
        (bus.counted queue) written).2)).length < 2 ^ 64 := by
      rw [queuedOf_append, relayDrain_queuedOf, List.append_nil]
      exact hfew
    generalize KeysharpDesktop.relayDrain (bus.counted queue) written = drained at hdrain hfew'
    rw [← List.append_assoc]
    exact hdrain.plain (plain_busReply bus.invocations (some reply)) hfew' rfl rfl
  | unreported queue reply hreport =>
    exact (h.reportQueue hfew hreport).plain (plain_busReply bus.invocations none) hfew rfl rfl
  | polled queue reply hpoll =>
    rw [List.append_nil]
    refine h.pollQueue hfew hpoll ?_
    intro o ho
    rw [List.mem_singleton.mp ho]
    simp
  | parked queue poll _ hpoll =>
    have hqueue := h.pollQueue hfew hpoll (fun o (ho : o ∈ []) => by simp at ho)
    rw [List.append_nil] at hqueue ⊢
    exact hqueue.parkPoll hfew bus.invocations poll.lane nowMs
  | unpolled queue hpoll =>
    rw [List.append_nil]
    exact h.pollQueue hfew hpoll (plain_busReply bus.invocations none)

/-- Every dispatch of the main loop keeps the daemon sound. -/
theorem KwinBus.Sound.step (h : bus.Sound outputs lines) (call : BusCall)
    (hfew : (queuedOf (outputs ++ busOutputs bus call)).length < 2 ^ 64) :
    (busStep bus call).Sound (outputs ++ busOutputs bus call) (lines ++ busLines bus call) := by
  have hless : (queuedOf outputs).length < 2 ^ 64 := by
    rw [queuedOf_append, List.length_append] at hfew
    omega
  have hidle : ∀ lane nowMs, (idleFired bus lane nowMs).1.Sound
      (outputs ++ (idleFired bus lane nowMs).2) (lines ++ []) := by
    intro lane nowMs
    rw [List.append_nil]
    unfold idleFired
    split_ifs
    · exact h.releasePark hless lane nowMs
    · simpa using h
  cases call with
  | relay input nowMs written =>
    simp only [busStep, busOutputs, busDispatch, relayReadable, busLines, List.append_nil] at hfew ⊢
    cases hread : readRequest input with
    | none => exact h.plain plain_relayFailed hless rfl rfl
    | some request =>
      rw [hread] at hfew
      exact h.relayRequest request.1 nowMs written hfew
  | method sender generation method envelope nowMs written =>
    have hhandled := handleCall_handled bus sender generation method envelope nowMs written
    exact h.handled hless hhandled
  | idleFast nowMs => exact hidle .fast nowMs
  | idleSlow nowMs => exact hidle .slow nowMs

end Steps

section Answers

/-- The request an answer names. -/
def frameId (frame : RelayFrame) : BitVec 64 :=
  (decodeFrameHeader (frame.bytes.take frameHeaderSize)).requestId

def frameStatus (frame : RelayFrame) : Status := decodeU32 (frame.bytes.drop frameHeaderSize)

/-- What follows the status and the detail. -/
def frameTail (frame : RelayFrame) : Bytes := frame.bytes.drop (frameHeaderSize + 8)

/-- The status and the tail that a done line goes out with. -/
def answerContent (opcode : Opcode) (status : Status) (body : Bytes) : Status × Bytes :=
  if status = Status.ok then
    match kwinResponsePayload opcode body (bufferInit (maxTextBytes + 4)) with
    | some translated => (Status.ok, translated.data)
    | none => (Status.internal, [])
  else (status, [])

theorem relayAnswer_content (requestId : BitVec 64) (opcode : Opcode) (status : Status) (body : Bytes) :
    ∃ payload, relayAnswer requestId opcode status body =
      some ⟨(answerFrame 0 requestId payload).bytes, none⟩ ∧
      payload = encodeU32 (answerContent opcode status body).1 ++
        (encodeU32 0 ++ (answerContent opcode status body).2) := by
  unfold relayAnswer answerContent
  split_ifs with hs
  · cases kwinResponsePayload opcode body (bufferInit (maxTextBytes + 4)) with
    | some translated => exact ⟨_, relayFrame_eq (fun hne => absurd hs hne) requestId, by rw [hs]⟩
    | none => exact ⟨_, relayFrame_eq (fun _ => rfl) requestId, rfl⟩
  · exact ⟨_, relayFrame_eq (fun _ => rfl) requestId, rfl⟩

/-- An answer carries its request's id and the content of its done line. -/
theorem relayAnswer_fields {requestId : BitVec 64} {opcode : Opcode} {status : Status} {body : Bytes}
    {frame : RelayFrame} (h : relayAnswer requestId opcode status body = some frame) :
    frameId frame = requestId ∧ frameStatus frame = (answerContent opcode status body).1 ∧
      frameTail frame = (answerContent opcode status body).2 := by
  obtain ⟨payload, hanswer, hpayload⟩ := relayAnswer_content requestId opcode status body
  rw [hanswer] at h
  cases h
  have hmagic : (answerFrame 0 requestId payload).magic.length = 4 := by
    show frameMagic.length = 4
    decide
  have hlen := length_encodeFrameHeader hmagic
  refine ⟨?_, ?_, ?_⟩
  · have htake : (answerFrame 0 requestId payload).bytes.take frameHeaderSize =
        encodeFrameHeader (answerFrame 0 requestId payload) := by
      rw [Frame.bytes, List.take_left' hlen]
    rw [frameId, htake, decodeFrameHeader_encodeFrameHeader hmagic]
    rfl
  · have hdrop : (answerFrame 0 requestId payload).bytes.drop frameHeaderSize = payload := by
      rw [Frame.bytes, List.drop_left' hlen]
      rfl
    rw [frameStatus, hdrop, hpayload, decodeU32_encodeU32]
  · have hdrop : (answerFrame 0 requestId payload).bytes.drop (frameHeaderSize + 8) = payload.drop 8 := by
      rw [Frame.bytes, ← List.drop_drop, List.drop_left' hlen]
      rfl
    have hprologue : (encodeU32 (answerContent opcode status body).1 ++ encodeU32 0).length = 8 := by
      simp
    rw [frameTail, hdrop, hpayload, ← List.append_assoc, List.drop_left' hprologue]

end Answers

section Runs

/-- One dispatch of a run: the call, what it put out and the lines it completed jobs by. -/
structure BusEntry where
  call : BusCall
  outputs : List BusOutput
  lines : List KwinDone

def busLog (bus : KwinBus) (calls : List BusCall) : List BusEntry :=
  Transition.trace busStep (fun bus call => [⟨call, busOutputs bus call, busLines bus call⟩]) bus calls

def logOutputs (log : List BusEntry) : List BusOutput := log.flatMap BusEntry.outputs

def logLines (log : List BusEntry) : List KwinDone := log.flatMap BusEntry.lines

/-- The refusals a request met at the door. -/
def refusedOf (own : List BusOutput) : List RelayFrame :=
  own.filterMap fun
    | .answered none frame => some frame
    | _ => none

/-- The answers a run gave to the job of a sequence. -/
def drainedOf (sequence : Bytes) (outputs : List BusOutput) : List RelayFrame :=
  outputs.filterMap fun
    | .answered (some s) frame => if s = sequence then some frame else none
    | _ => none

/-- All the answers a run gave to the request of one call, from what that call put out itself. -/
def answersOf (own outputs : List BusOutput) : List RelayFrame :=
  refusedOf own ++ (queuedOf own).flatMap fun sequence => drainedOf sequence outputs

/-- What a daemon and the log of its run owe the requests that were relayed to it. -/
structure KwinBus.InStep (bus : KwinBus) (log : List BusEntry) : Prop where
  /-- The requests that wait and the jobs in use are the same sequences, each once. -/
  pairs : (activeEntries bus.inflight).map Prod.fst ~ (liveEntries bus.queue.jobs).map Prod.fst
  distinct : ((liveEntries bus.queue.jobs).map Prod.fst).Nodup
  /-- A request is answered at most once, under its own id. -/
  once : ∀ entry ∈ log, ∀ input nowMs written request rest,
    entry.call = .relay input nowMs written → readRequest input = some (request, rest) →
      (answersOf entry.outputs (logOutputs log)).length ≤ 1 ∧
        ∀ frame ∈ answersOf entry.outputs (logOutputs log), frameId frame = request.requestId
  /-- No job is completed by two lines. -/
  completed : ((logLines log).map KwinDone.sequence).Nodup
  /-- The answer to a job carries the content of the line that completed the job. -/
  content : ∀ sequence frame, BusOutput.answered (some sequence) frame ∈ logOutputs log →
    ∃ requestId opcode d, BusOutput.queued sequence requestId opcode ∈ logOutputs log ∧
      d ∈ logLines log ∧ d.sequence = sequence ∧ frameId frame = requestId ∧
      frameStatus frame = (answerContent opcode d.status d.body).1 ∧
      frameTail frame = (answerContent opcode d.status d.body).2

variable {start : KwinBus} {generation peer : Bytes} {queue : KwinQueue}

theorem kwinBusStart_sound (h : kwinQueueInit generation = some queue) :
    (kwinBusStart queue peer).Sound [] [] := by
  have hledger := kwinQueueInit_ledger h
  unfold kwinQueueInit at h
  split_ifs at h with hgen
  cases h
  have hvalid : (⟨List.replicate kwinMaxJobs freeSlot, generation, 1, 1, fun _ => false⟩ : KwinQueue).Sound := by
    refine ⟨hgen, ?_⟩
    intro job hmem _
    rw [(List.mem_replicate.mp hmem).2]
    rfl
  refine ⟨⟨[], hledger, rfl, rfl⟩, hvalid, ?_, ?_, ?_, List.nodup_nil, ?_, ?_⟩
  · have hactive : activeEntries (List.replicate kwinMaxJobs {}) = [] := by decide
    have hlive : liveEntries (List.replicate kwinMaxJobs freeSlot) = [] := by decide
    simp only [kwinBusStart, hactive, hlive]
    exact List.Perm.refl _
  · intro slot hmem hactive
    rw [(List.mem_replicate.mp hmem).2] at hactive
    cases hactive
  · intro job hmem hstate
    rw [(List.mem_replicate.mp hmem).2] at hstate
    cases hstate
  · simp [answeredOf]
  · simp

theorem busLog_sound (h : kwinQueueInit generation = some queue) (calls : List BusCall)
    (hfew : (queuedOf (logOutputs (busLog (kwinBusStart queue peer) calls))).length < 2 ^ 64) :
    (calls.foldl busStep (kwinBusStart queue peer)).Sound
      (logOutputs (busLog (kwinBusStart queue peer) calls))
      (logLines (busLog (kwinBusStart queue peer) calls)) := by
  have hinv : (queuedOf (logOutputs ([] ++ busLog (kwinBusStart queue peer) calls))).length < 2 ^ 64 →
      (calls.foldl busStep (kwinBusStart queue peer)).Sound
        (logOutputs ([] ++ busLog (kwinBusStart queue peer) calls))
        (logLines ([] ++ busLog (kwinBusStart queue peer) calls)) := by
    refine Transition.trace_invariant (I := fun (bus : KwinBus) log =>
      (queuedOf (logOutputs log)).length < 2 ^ 64 → bus.Sound (logOutputs log) (logLines log)) ?_
      (fun _ => kwinBusStart_sound h) calls
    intro bus log call hsound hn
    have houts : logOutputs (log ++ [⟨call, busOutputs bus call, busLines bus call⟩]) =
        logOutputs log ++ busOutputs bus call := by
      simp [logOutputs]
    have hlines : logLines (log ++ [⟨call, busOutputs bus call, busLines bus call⟩]) =
        logLines log ++ busLines bus call := by
      simp [logLines]
    rw [houts] at hn ⊢
    rw [hlines]
    have hless : (queuedOf (logOutputs log)).length < 2 ^ 64 := by
      rw [queuedOf_append, List.length_append] at hn
      omega
    exact (hsound hless).step call hn
  exact hinv hfew

theorem drainedOf_length (sequence : Bytes) (outputs : List BusOutput) :
    (drainedOf sequence outputs).length = (answeredOf outputs).count sequence := by
  induction outputs with
  | nil => rfl
  | cons o outputs ih =>
    cases o with
    | answered s frame =>
      cases s with
      | none => simpa [drainedOf, answeredOf] using ih
      | some s =>
        by_cases hs : s = sequence
        · simpa [drainedOf, answeredOf, hs] using ih
        · simpa [drainedOf, answeredOf, hs] using ih
    | _ => simpa [drainedOf, answeredOf] using ih

theorem mem_drainedOf {sequence : Bytes} {outputs : List BusOutput} {frame : RelayFrame}
    (h : frame ∈ drainedOf sequence outputs) : BusOutput.answered (some sequence) frame ∈ outputs := by
  obtain ⟨o, ho, hf⟩ := List.mem_filterMap.mp h
  cases o with
  | answered s f =>
    cases s with
    | none => simp at hf
    | some s =>
      simp only at hf
      split_ifs at hf with hs
      cases hf
      rwa [← hs]
  | _ => simp at hf

/-- What a relay call puts out: a refusal under the request's own id, or one fresh sequence. -/
theorem relayRequest_outputs (bus : KwinBus) (request : RelayRequest) (nowMs : ℕ) (written : Bool) :
    (queuedOf (relayRequest bus request nowMs written).2 = [] ∧
      (refusedOf (relayRequest bus request nowMs written).2).length ≤ 1 ∧
      ∀ frame ∈ refusedOf (relayRequest bus request nowMs written).2, frameId frame = request.requestId) ∨
    ∃ sequence, queuedOf (relayRequest bus request nowMs written).2 = [sequence] ∧
      refusedOf (relayRequest bus request nowMs written).2 = [] ∧
      BusOutput.queued sequence request.requestId request.opcode ∈
        (relayRequest bus request nowMs written).2 := by
  rcases relayRequest_cases bus request nowMs written with
    ⟨status, -, hrequest⟩ | ⟨text, index, slot, queue, sequence, -, -, -, -, hrequest⟩
  · left
    rw [hrequest]
    refine ⟨busAnswer_queuedOf _ _ _ _ _ _, ?_⟩
    rcases busAnswer_cases written none request.requestId request.opcode status [] with
      ho | ho | ⟨frame, hframe, ho⟩
    · rw [ho]
      simp [refusedOf]
    · rw [ho]
      simp [refusedOf]
    · rw [ho]
      refine ⟨le_rfl, ?_⟩
      intro f hf
      rw [List.mem_singleton.mp hf]
      exact (relayAnswer_fields hframe).1
  · right
    rw [hrequest]
    have hplain := releasePark_plain { bus with
      queue
      inflight := bus.inflight.set index ⟨true, request.requestId, request.opcode, sequence⟩ }
      (kwinLaneFor request.opcode) nowMs
    have hrefused : refusedOf (releasePark { bus with
        queue
        inflight := bus.inflight.set index ⟨true, request.requestId, request.opcode, sequence⟩ }
        (kwinLaneFor request.opcode) nowMs).2 = [] := by
      unfold releasePark
      split
      · rfl
      · dsimp only
        split <;> rfl
    refine ⟨sequence, ?_, hrefused, List.mem_cons_self⟩
    have hcons := congrArg (fun l => sequence :: l) hplain.queuedOf_eq_nil
    exact hcons

/-- In every run of the daemon the requests that wait and the jobs of the queue stay in step. -/
theorem kwinBus_inStep (h : kwinQueueInit generation = some queue) (peer : Bytes) (calls : List BusCall)
    (hfew : (queuedOf (logOutputs (busLog (kwinBusStart queue peer) calls))).length < 2 ^ 64) :
    (calls.foldl busStep (kwinBusStart queue peer)).InStep (busLog (kwinBusStart queue peer) calls) := by
  have hsound := busLog_sound h calls hfew
  obtain ⟨events, hledger, hentered, hcompleted⟩ := hsound.ledger
  have hqueued : (queuedOf (logOutputs (busLog (kwinBusStart queue peer) calls))).Nodup := by
    rw [← hentered, hledger.entered]
    refine List.Nodup.map_on ?_ List.nodup_range
    intro m hm n hn heq
    have hm := List.mem_range.mp hm
    have hn := List.mem_range.mp hn
    rw [hentered] at hm hn
    have := sequenceOf_injective (by omega) (by omega) heq
    omega
  refine ⟨hsound.pairs.map Prod.fst, hsound.live_nodup hfew, ?_, ?_, ?_⟩
  · intro entry hmem input nowMs written request rest hrelay hread
    obtain ⟨before, call, after, -, he⟩ := Transition.mem_trace_singleton hmem
    have hsub : entry.outputs ⊆ logOutputs (busLog (kwinBusStart queue peer) calls) :=
      fun o ho => List.mem_flatMap.mpr ⟨_, hmem, ho⟩
    have hcall : call = .relay input nowMs written := by
      rw [← hrelay, he]
    have hrequest : entry.outputs = (relayRequest (before.foldl busStep (kwinBusStart queue peer)) request
        nowMs written).2 := by
      rw [he, hcall]
      simp only [busOutputs, busDispatch, relayReadable, hread]
    have hcases := relayRequest_outputs (before.foldl busStep (kwinBusStart queue peer)) request nowMs written
    rw [← hrequest] at hcases
    unfold answersOf
    rcases hcases with ⟨hnone, hlen, hframes⟩ | ⟨sequence, hone, hrefused, hin⟩
    · rw [hnone, List.flatMap_nil, List.append_nil]
      exact ⟨hlen, hframes⟩
    · rw [hone, hrefused, List.nil_append, List.flatMap_singleton]
      refine ⟨?_, ?_⟩
      · rw [drainedOf_length]
        exact List.nodup_iff_count_le_one.mp hsound.answered sequence
      · intro frame hframe
        obtain ⟨requestId, opcode, d, hq, -, -, hanswer⟩ := hsound.content sequence frame (mem_drainedOf hframe)
        have hsame := Slots.eq_of_filterMap_nodup hqueued hq (hsub hin) rfl rfl
        cases hsame
        exact (relayAnswer_fields hanswer).1
  · rw [← hcompleted]
    exact hledger.done.nodup
  · intro sequence frame hmem
    obtain ⟨requestId, opcode, d, hq, hd, hseq, hanswer⟩ := hsound.content sequence frame hmem
    obtain ⟨hid, hstatus, htail⟩ := relayAnswer_fields hanswer
    exact ⟨requestId, opcode, d, hq, hd, hseq, hid, hstatus, htail⟩

/-- The stricter reading of an answer: it always carries the status of its line. -/
def StatusCarried (log : List BusEntry) : Prop :=
  ∀ sequence frame, BusOutput.answered (some sequence) frame ∈ logOutputs log →
    ∀ d ∈ logLines log, d.sequence = sequence → frameStatus frame = d.status

def scriptPeer : Bytes := ascii ":1.5"

/-- The close of window 7, as the relay asks for it. -/
def closeMessage : Bytes :=
  Frame.bytes ⟨frameMagic, protocolMajor, protocolMinor, Op.windowClose, 0, 9, encodeU64 7⟩

def fastPoll : Bytes :=
  ascii "KSK1\ngen " ++ newQueue.generation ++ ascii "\nlane fast\nrtt 0\nlost 0\nend\n"

/-- A report of success for the first job, with a body that a close does not have. -/
def wordyReport : Bytes :=
  ascii "KSK1\ngen " ++ newQueue.generation ++ ascii "\ndone 0000000000000001 0 1\nend\nx"

/-- A close that the script reports as done with a body. -/
def wordyClose : List BusCall :=
  [.relay (.bytes closeMessage) 0 true,
    .method scriptPeer newQueue.generation .poll fastPoll 1 fun _ => true,
    .method scriptPeer newQueue.generation .report wordyReport 2 fun _ => true]

theorem wordyClose_inStep :
    queuedOf (logOutputs (busLog (kwinBusStart newQueue scriptPeer) wordyClose)) = [sequenceOf 1] ∧
    answeredOf (logOutputs (busLog (kwinBusStart newQueue scriptPeer) wordyClose)) = [sequenceOf 1] ∧
    (wordyClose.foldl busStep (kwinBusStart newQueue scriptPeer)).InStep
      (busLog (kwinBusStart newQueue scriptPeer) wordyClose) := by
  refine ⟨by decide +kernel, by decide +kernel, ?_⟩
  exact kwinBus_inStep kwinQueueInit_newQueue scriptPeer wordyClose (by decide +kernel)

/-- The close is answered as an internal error, though its line says that it went well. -/
theorem wordyClose_not_statusCarried :
    ¬ StatusCarried (busLog (kwinBusStart newQueue scriptPeer) wordyClose) := by
  intro h
  have hframe : BusOutput.answered (some (sequenceOf 1))
      ⟨(answerFrame 0 9 (encodeU32 Status.internal ++ encodeU32 0)).bytes, none⟩ ∈
      logOutputs (busLog (kwinBusStart newQueue scriptPeer) wordyClose) := by
    decide +kernel
  have hline : (⟨sequenceOf 1, Status.ok, ascii "x"⟩ : KwinDone) ∈
      logLines (busLog (kwinBusStart newQueue scriptPeer) wordyClose) := by
    decide +kernel
  have hstatus := h _ _ hframe _ hline rfl
  revert hstatus
  decide +kernel

end Runs

end KeysharpDesktop
