import KeysharpDesktop.Kwin.Report
import KeysharpDesktop.Lib.Fifo

/-! The discipline of the job queue: each lane is a first-in first-out line kept in the slots,
a job is handed out once and completed once, and nothing else moves it. -/
namespace KeysharpDesktop

open scoped List

/-- What a call does that somebody outside the queue can see. -/
inductive KwinQueueEvent
  | entered (lane : KwinLane) (sequence : Bytes)
  | handed (lane : KwinLane) (sequence : Bytes)
  | completed (generation sequence : Bytes)
  deriving DecidableEq, Repr

section Events

/-- The done lines of a report that complete their job, up to the first that does not. -/
def completedLines (q : KwinQueue) : List KwinDone → List KwinDone
  | [] => []
  | d :: ds =>
    match kwinQueueComplete q q.generation d.sequence d.status d.body with
    | none => []
    | some q => d :: completedLines q ds

/-- The jobs a call hands to the script. -/
def handedBatch (q : KwinQueue) : KwinQueueCall → List KwinJob
  | .take lane capacity => (kwinQueueTake q lane capacity).1
  | .poll envelope _ _ =>
    match kwinParsePoll envelope with
    | none => []
    | some poll =>
      if poll.generation ≠ q.generation then []
      else (kwinQueueTake q poll.lane kwinJobsPerReplyFast).1
  | .pollParked lane _ _ =>
    if lane = .none then [] else (kwinQueueTake (setParked q lane false) lane kwinJobsPerReplyFast).1
  | _ => []

/-- The done lines a report completes. -/
def reportedLines (q : KwinQueue) (envelope : Bytes) : List (Bytes × KwinDone) :=
  match kwinParseReport envelope with
  | none => []
  | some report =>
    if report.generation ≠ q.generation then []
    else if !report.done.all (isDispatched q) then []
    else (completedLines q report.done).map fun d => (report.generation, d)

def handedEvents (batch : List KwinJob) : List KwinQueueEvent :=
  batch.map fun job => .handed job.lane job.sequence

def kwinQueueEvents (q : KwinQueue) : KwinQueueCall → List KwinQueueEvent
  | .submit opcode body nowMs =>
    ((kwinQueueSubmit q opcode body nowMs).map fun r =>
      KwinQueueEvent.entered (kwinLaneFor opcode) r.2).toList
  | .report envelope _ => (reportedLines q envelope).map fun r => .completed r.1 r.2.sequence
  | .complete generation sequence status reply =>
    if (kwinQueueComplete q generation sequence status reply).isSome then [.completed generation sequence]
    else []
  | call => handedEvents (handedBatch q call)

/-- The sequences that entered a lane, in the order of their submission. -/
def enteredOf (lane : KwinLane) (events : List KwinQueueEvent) : List Bytes :=
  events.filterMap fun
    | .entered l sequence => if l = lane then some sequence else none
    | _ => none

/-- The sequences handed out of a lane, in the order they were handed out. -/
def handedOf (lane : KwinLane) (events : List KwinQueueEvent) : List Bytes :=
  events.filterMap fun
    | .handed l sequence => if l = lane then some sequence else none
    | _ => none

/-- Every sequence submitted. -/
def enteredAll (events : List KwinQueueEvent) : List Bytes :=
  events.filterMap fun
    | .entered _ sequence => some sequence
    | _ => none

/-- Every sequence completed. -/
def completedAll (events : List KwinQueueEvent) : List Bytes :=
  events.filterMap fun
    | .completed _ sequence => some sequence
    | _ => none

end Events

/-- The job a submission stores. -/
def submittedJob (q : KwinQueue) (opcode : Opcode) (body : Bytes) (nowMs : ℕ) : KwinJob :=
  ⟨formatSequence q.nextSequence, opcode, kwinLaneFor opcode, .queued, nowMs + kwinOpDeadlineMs,
    q.nextTicket, 0, body, []⟩

/-- Everything that can happen to a queue, one slot at a time. -/
inductive KwinQueue.Move : KwinQueue → List KwinQueueEvent → KwinQueue → Prop
  | enter (q : KwinQueue) (i : ℕ) (slot : KwinJob) (opcode : Opcode) (body : Bytes) (nowMs : ℕ)
      (found : q.jobs[i]? = some slot) (free : slot.state = .free) (lane : kwinLaneFor opcode ≠ .none) :
      Move q [.entered (kwinLaneFor opcode) (formatSequence q.nextSequence)]
        { q with jobs := q.jobs.set i (submittedJob q opcode body nowMs),
                 nextSequence := q.nextSequence + 1, nextTicket := q.nextTicket + 1 }
  | hand (q : KwinQueue) (i : ℕ) (job : KwinJob) (found : q.jobs[i]? = some job)
      (queued : job.state = .queued)
      (oldest : ∀ other ∈ q.jobs, other.state = .queued → other.lane = job.lane →
        job.ticket.toNat ≤ other.ticket.toNat) :
      Move q [.handed job.lane job.sequence]
        { q with jobs := q.jobs.set i { job with state := .dispatched } }
  | complete (q : KwinQueue) (i : ℕ) (job : KwinJob) (status : BitVec 32) (reply : Bytes)
      (found : q.jobs[i]? = some job) (dispatched : job.state = .dispatched) :
      Move q [.completed q.generation job.sequence]
        { q with jobs := q.jobs.set i { job with state := .done, status := status, reply := reply } }
  | free (q : KwinQueue) (jobs : List KwinJob) (slots : jobs.length = q.jobs.length)
      (freed : ∀ i : ℕ, jobs[i]? = q.jobs[i]? ∨ jobs[i]? = some freeSlot) :
      Move q [] { q with jobs := jobs }
  | park (q : KwinQueue) (parked : KwinLane → Bool) : Move q [] { q with parked := parked }

/-- Any number of moves, with their events in order. -/
inductive KwinQueue.Moves : KwinQueue → List KwinQueueEvent → KwinQueue → Prop
  | nil (q : KwinQueue) : Moves q [] q
  | cons {q r s : KwinQueue} {es fs : List KwinQueueEvent} :
      Move q es r → Moves r fs s → Moves q (es ++ fs) s

theorem KwinQueue.Move.generation {q r : KwinQueue} {es : List KwinQueueEvent} (h : q.Move es r) :
    r.generation = q.generation := by
  cases h <;> rfl

namespace KwinQueue.Moves

variable {q r s : KwinQueue} {es fs : List KwinQueueEvent}

theorem single (h : Move q es r) : Moves q es r := by
  have := Moves.cons h (.nil r)
  rwa [List.append_nil] at this

theorem append (h : Moves q es r) (h' : Moves r fs s) : Moves q (es ++ fs) s := by
  induction h with
  | nil => exact h'
  | cons hmove _ ih =>
    rw [List.append_assoc]
    exact .cons hmove (ih h')

end KwinQueue.Moves

section Calls

variable {q q' : KwinQueue} {lane : KwinLane}

/-- The scan returns no job younger than another it met, and misses none of the lane. -/
theorem oldestQueued_oldest {jobs : List KwinJob} {i : ℕ} {oldest : Option (ℕ × KwinJob)}
    {found : Option (ℕ × KwinJob)} (h : oldestQueued lane i oldest jobs = found) :
    (∀ other ∈ jobs, other.state = .queued → other.lane = lane →
      ∃ r, found = some r ∧ r.2.ticket.toNat ≤ other.ticket.toNat) ∧
    (∀ o, oldest = some o → ∃ r, found = some r ∧ r.2.ticket.toNat ≤ o.2.ticket.toNat) := by
  induction jobs generalizing i oldest with
  | nil =>
    subst h
    refine ⟨by simp, ?_⟩
    rintro o rfl
    exact ⟨o, rfl, le_rfl⟩
  | cons head jobs ih =>
    unfold oldestQueued at h
    split_ifs at h with hskip
    · obtain ⟨hrest, hold⟩ := ih h
      refine ⟨?_, hold⟩
      intro other hmem hq hl
      rcases List.mem_cons.mp hmem with rfl | hmem
      · simp [hq, hl] at hskip
      · exact hrest other hmem hq hl
    · split at h
      · obtain ⟨hrest, hold⟩ := ih h
        refine ⟨?_, by simp⟩
        intro other hmem hq hl
        rcases List.mem_cons.mp hmem with rfl | hmem
        · exact hold _ rfl
        · exact hrest other hmem hq hl
      · rename_i k o
        split_ifs at h with hlt
        · obtain ⟨hrest, hold⟩ := ih h
          obtain ⟨r, hr, hle⟩ := hold _ rfl
          refine ⟨?_, ?_⟩
          · intro other hmem hq hl
            rcases List.mem_cons.mp hmem with rfl | hmem
            · exact ⟨r, hr, hle⟩
            · exact hrest other hmem hq hl
          · rintro _ ⟨⟩
            exact ⟨r, hr, hle.trans (Nat.le_of_lt hlt)⟩
        · obtain ⟨hrest, hold⟩ := ih h
          obtain ⟨r, hr, hle⟩ := hold _ rfl
          refine ⟨?_, hold⟩
          intro other hmem hq hl
          rcases List.mem_cons.mp hmem with rfl | hmem
          · exact ⟨r, hr, hle.trans (Nat.le_of_not_lt hlt)⟩
          · exact hrest other hmem hq hl

theorem oldestQueued_spec {jobs : List KwinJob} {i : ℕ} {job : KwinJob}
    (h : oldestQueued lane 0 none jobs = some (i, job)) :
    jobs[i]? = some job ∧ job.state = .queued ∧ job.lane = lane ∧
      ∀ other ∈ jobs, other.state = .queued → other.lane = lane →
        job.ticket.toNat ≤ other.ticket.toNat := by
  rcases oldestQueued_eq_some h with hn | ⟨-, hj, hq, hl⟩
  · cases hn
  · refine ⟨hj, hq, hl, ?_⟩
    intro other hmem hoq hol
    obtain ⟨r, hr, hle⟩ := (oldestQueued_oldest h).1 other hmem hoq hol
    cases hr
    exact hle

theorem oldestQueued_eq_none {jobs : List KwinJob} (h : oldestQueued lane 0 none jobs = none) :
    ∀ job ∈ jobs, job.state = .queued → job.lane ≠ lane := by
  intro job hmem hq hl
  obtain ⟨r, hr, -⟩ := (oldestQueued_oldest h).1 job hmem hq hl
  cases hr

/-- A batch is of one lane, no longer than asked for, and handed out oldest first. -/
theorem takeJobs_moves (lane : KwinLane) (limit : ℕ) (q : KwinQueue) :
    q.Moves (handedEvents (takeJobs lane limit q.jobs).1)
      { q with jobs := (takeJobs lane limit q.jobs).2 } ∧
    (∀ job ∈ (takeJobs lane limit q.jobs).1, job.lane = lane) ∧
    (takeJobs lane limit q.jobs).1.length ≤ limit := by
  induction limit generalizing q with
  | zero => exact ⟨.nil q, by simp [takeJobs], by simp [takeJobs]⟩
  | succ limit ih =>
    unfold takeJobs
    split
    · exact ⟨.nil q, by simp, by simp⟩
    · rename_i i job hold
      obtain ⟨hfound, hqueued, hlane, holdest⟩ := oldestQueued_spec hold
      obtain ⟨hmoves, hlanes, hlen⟩ := ih { q with jobs := q.jobs.set i { job with state := .dispatched } }
      have hmove := KwinQueue.Move.hand q i job hfound hqueued (hlane ▸ holdest)
      refine ⟨.cons hmove hmoves, ?_, ?_⟩
      · intro other hmem
        rcases List.mem_cons.mp hmem with rfl | hmem
        · exact hlane
        · exact hlanes other hmem
      · simpa using hlen

theorem kwinQueueTake_moves (q : KwinQueue) (lane : KwinLane) (capacity : ℕ) :
    q.Moves (handedEvents (kwinQueueTake q lane capacity).1) (kwinQueueTake q lane capacity).2 ∧
    (∀ job ∈ (kwinQueueTake q lane capacity).1, job.lane = lane) ∧
    (kwinQueueTake q lane capacity).1.length ≤ laneCapacity lane := by
  obtain ⟨hmoves, hlanes, hlen⟩ := takeJobs_moves lane (min capacity (laneCapacity lane)) q
  exact ⟨hmoves, hlanes, hlen.trans (min_le_right _ _)⟩

/-- A completion that is accepted is of a dispatched job, under the queue's own generation. -/
theorem kwinQueueComplete_cases {generation sequence reply : Bytes} {status : BitVec 32}
    (h : kwinQueueComplete q generation sequence status reply = some q') :
    generation = q.generation ∧ ∃ i job, q.jobs[i]? = some job ∧ job.state = .dispatched ∧
      job.sequence = sequence ∧
      q' = completeAt q i job ⟨sequence, status, reply⟩ := by
  unfold kwinQueueComplete at h
  split at h
  · cases h
  · rename_i hgen
    simp only [Option.bind_eq_bind, Option.bind_eq_some_iff] at h
    obtain ⟨i, hi, job, hj, h⟩ := h
    obtain ⟨other, ho, -, hseq⟩ := slotOf_eq_some hi
    have hsame : other = job := Option.some.inj (ho.symm.trans hj)
    split at h
    · cases h
    · rename_i hstate
      cases h
      exact ⟨not_not.mp fun hne => hgen (.inr hne), i, job, hj, not_not.mp hstate, hsame ▸ hseq, rfl⟩

theorem kwinQueueComplete_move {generation sequence reply : Bytes} {status : BitVec 32}
    (h : kwinQueueComplete q generation sequence status reply = some q') :
    q.Move [.completed generation sequence] q' := by
  obtain ⟨hgen, i, job, hj, hstate, hseq, rfl⟩ := kwinQueueComplete_cases h
  rw [hgen, ← hseq]
  exact .complete q i job status _ hj hstate

theorem completeAll_moves (q : KwinQueue) (ds : List KwinDone) :
    q.Moves ((completedLines q ds).map fun d => .completed q.generation d.sequence)
      (completeAll q ds).2 := by
  induction ds generalizing q with
  | nil => exact .nil q
  | cons d ds ih =>
    unfold completedLines completeAll
    cases hc : kwinQueueComplete q q.generation d.sequence d.status d.body with
    | none => exact .nil q
    | some r =>
      have hmove := kwinQueueComplete_move hc
      have hgen := hmove.generation
      have hrest := ih r
      rw [hgen] at hrest
      exact .cons hmove hrest

theorem kwinQueueSubmit_move {opcode : Opcode} {body sequence : Bytes} {nowMs : ℕ}
    (h : kwinQueueSubmit q opcode body nowMs = some (q', sequence)) :
    ∃ i slot, q.jobs[i]? = some slot ∧ slot.state = .free ∧ kwinLaneFor opcode ≠ .none ∧
      sequence = formatSequence q.nextSequence ∧
      q' = { q with jobs := q.jobs.set i (submittedJob q opcode body nowMs),
                    nextSequence := q.nextSequence + 1, nextTicket := q.nextTicket + 1 } := by
  unfold kwinQueueSubmit at h
  dsimp only at h
  split_ifs at h with hlane
  split at h
  · cases h
  · rename_i i hi
    obtain ⟨hlt, hfree, -⟩ := List.findIdx?_eq_some_iff_getElem.mp hi
    cases h
    exact ⟨i, q.jobs[i], List.getElem?_eq_getElem hlt, by simpa using hfree, hlane, rfl, rfl⟩

theorem kwinQueueReport_jobs (q : KwinQueue) (envelope : Bytes) (reply : Buffer) :
    (kwinQueueReport q envelope reply).2.1 = q ∧ reportedLines q envelope = [] ∨
      ∃ report, kwinParseReport envelope = some report ∧ report.generation = q.generation ∧
        (kwinQueueReport q envelope reply).2.1 = (completeAll q report.done).2 ∧
        reportedLines q envelope = (completedLines q report.done).map fun d => (q.generation, d) := by
  unfold kwinQueueReport reportedLines
  cases hparse : kwinParseReport envelope with
  | none => exact .inl ⟨rfl, rfl⟩
  | some report =>
    dsimp only
    split_ifs with hgen hall
    · exact .inl ⟨rfl, rfl⟩
    · exact .inl ⟨rfl, rfl⟩
    · refine .inr ⟨report, rfl, not_not.mp hgen, ?_, by rw [not_not.mp hgen]⟩
      rcases hc : completeAll q report.done with ⟨ok, r⟩
      cases ok with
      | false => rfl
      | true =>
        dsimp only
        split <;> rfl

/-- Every call is a sequence of moves that emit its events. -/
theorem kwinQueueCall_moves (q : KwinQueue) (call : KwinQueueCall) :
    q.Moves (kwinQueueEvents q call) (kwinQueueCall q call) := by
  cases call with
  | submit opcode body nowMs =>
    simp only [kwinQueueEvents, kwinQueueCall]
    cases hs : kwinQueueSubmit q opcode body nowMs with
    | none => exact .nil q
    | some r =>
      have hs : kwinQueueSubmit q opcode body nowMs = some (r.1, r.2) := hs
      obtain ⟨i, slot, hfound, hfree, hlane, hseq, hq⟩ := kwinQueueSubmit_move hs
      simp only [Option.map_some, Option.toList_some, Option.getD_some]
      rw [hseq, hq]
      exact .single (.enter q i slot opcode body nowMs hfound hfree hlane)
  | take lane capacity => exact (kwinQueueTake_moves q lane capacity).1
  | poll envelope nowMs reply =>
    simp only [kwinQueueEvents, handedBatch, kwinQueueCall, kwinQueuePoll]
    cases kwinParsePoll envelope with
    | none => exact .nil q
    | some poll =>
      dsimp only
      have htake := (kwinQueueTake_moves q poll.lane kwinJobsPerReplyFast).1
      split_ifs with hgen hempty
      · exact .nil q
      · have hmoves := htake.append (.single (.park _ (Function.update q.parked poll.lane true)))
        rwa [List.append_nil] at hmoves
      · have hmoves := htake.append (.single (.park _ (Function.update q.parked poll.lane false)))
        rw [List.append_nil] at hmoves
        split <;> exact hmoves
  | pollParked lane nowMs reply =>
    simp only [kwinQueueEvents, handedBatch, kwinQueueCall, kwinQueuePollParked]
    by_cases hlane : lane = .none
    · rw [if_pos hlane, if_pos hlane]
      exact .nil q
    · rw [if_neg hlane, if_neg hlane]
      have htake := (kwinQueueTake_moves (setParked q lane false) lane kwinJobsPerReplyFast).1
      exact .cons (.park q _) htake
  | report envelope reply =>
    simp only [kwinQueueEvents, kwinQueueCall]
    rcases kwinQueueReport_jobs q envelope reply with ⟨hq, hlines⟩ | ⟨report, -, -, hq, hlines⟩
    · rw [hq, hlines]
      exact .nil q
    · rw [hq, hlines, List.map_map]
      exact completeAll_moves q report.done
  | complete generation sequence status reply =>
    simp only [kwinQueueEvents, kwinQueueCall]
    cases hc : kwinQueueComplete q generation sequence status reply with
    | none => exact .nil q
    | some r => exact .single (kwinQueueComplete_move hc)
  | expire nowMs =>
    refine .single (.free q _ (List.length_map _) ?_)
    intro i
    rw [List.getElem?_map]
    cases q.jobs[i]? with
    | none => exact .inl rfl
    | some job =>
      simp only [Option.map_some, Option.some.injEq]
      split_ifs
      · exact .inl rfl
      · exact .inr rfl
  | release sequence =>
    simp only [kwinQueueEvents, handedBatch, handedEvents, List.map_nil, kwinQueueCall, kwinQueueRelease]
    split
    · exact .nil q
    · rename_i i hi
      refine .single (.free q _ List.length_set ?_)
      intro j
      rw [List.getElem?_set]
      split_ifs
      · exact .inr rfl
      · exact .inl (by simp_all)
      · exact .inl rfl

end Calls

section Ledger

def KwinJob.live (job : KwinJob) : Bool := job.state ≠ .free

def KwinJob.waitsIn (lane : KwinLane) (job : KwinJob) : Bool := job.state = .queued ∧ job.lane = lane

/-- The place of a job in the order of submission. -/
def KwinJob.number (job : KwinJob) : ℕ := job.ticket.toNat

/-- The line of a lane, oldest job first. -/
def KwinQueue.waiting (q : KwinQueue) (lane : KwinLane) : List KwinJob :=
  Fifo.line KwinJob.number (KwinJob.waitsIn lane) q.jobs

/-- The sequence of the `n`th submission. -/
def sequenceOf (n : ℕ) : Bytes := formatSequence (BitVec.ofNat 64 n)

theorem sequenceOf_injective {m n : ℕ} (hm : m < 2 ^ 64) (hn : n < 2 ^ 64)
    (h : sequenceOf m = sequenceOf n) : m = n := by
  have hnat := congrArg BitVec.toNat (formatSequence_injective h)
  rwa [BitVec.toNat_ofNat, BitVec.toNat_ofNat, Nat.mod_eq_of_lt hm, Nat.mod_eq_of_lt hn] at hnat

/-- After `n` submissions every job carries its own number, and both counters the next one. -/
structure KwinQueue.Numbered (q : KwinQueue) (n : ℕ) : Prop where
  ticket : q.nextTicket = BitVec.ofNat 64 (n + 1)
  sequence : q.nextSequence = BitVec.ofNat 64 (n + 1)
  positive : ∀ job ∈ q.jobs, job.live → 0 < job.number
  below : ∀ job ∈ q.jobs, job.live → job.number ≤ n
  named : ∀ job ∈ q.jobs, job.live → job.sequence = sequenceOf job.number
  lane : ∀ job ∈ q.jobs, job.live → job.lane = kwinLaneFor job.opcode
  apart : Fifo.Apart KwinJob.number KwinJob.live q.jobs

/-- A stage of a job's life, with the sequences that have passed it. -/
structure Stage (jobs : List KwinJob) (n : ℕ) (passed : KwinJobState → Bool) (sequences : List Bytes) :
    Prop where
  nodup : sequences.Nodup
  mem_iff : ∀ job ∈ jobs, job.live → (job.sequence ∈ sequences ↔ passed job.state)
  known : ∀ s ∈ sequences, ∃ k ≤ n, s = sequenceOf k

variable {q r : KwinQueue} {n i : ℕ} {job job' : KwinJob} {es events : List KwinQueueEvent}
  {passed : KwinJobState → Bool} {sequences : List Bytes} {jobs : List KwinJob}

theorem KwinJob.live_of_waitsIn {lane : KwinLane} (h : job.waitsIn lane) : job.live := by
  simp only [KwinJob.waitsIn, decide_eq_true_eq] at h
  simp [KwinJob.live, h.1]

theorem KwinQueue.Numbered.apart_waiting (h : q.Numbered n) (lane : KwinLane) :
    Fifo.Apart KwinJob.number (KwinJob.waitsIn lane) q.jobs :=
  h.apart.mono fun _ => KwinJob.live_of_waitsIn

/-- Two slots in use have different sequences. -/
theorem KwinQueue.Numbered.sequence_injective (h : q.Numbered n) (hn : n < 2 ^ 64) {i j : ℕ}
    {a b : KwinJob} (hi : q.jobs[i]? = some a) (hj : q.jobs[j]? = some b) (ha : a.live) (hb : b.live)
    (hab : a.sequence = b.sequence) : i = j := by
  have hma := List.mem_of_getElem? hi
  have hmb := List.mem_of_getElem? hj
  have hla := h.below a hma ha
  have hlb := h.below b hmb hb
  rw [h.named a hma ha, h.named b hmb hb] at hab
  exact h.apart i j a b hi hj ha hb (sequenceOf_injective (by omega) (by omega) hab)

/-- A job may change its state, its status and its reply. -/
theorem KwinQueue.Numbered.update (h : q.Numbered n) (hi : q.jobs[i]? = some job) (hlive : job.live)
    (hnumber : job'.number = job.number) (hseq : job'.sequence = job.sequence)
    (hlane : job'.lane = job.lane) (hop : job'.opcode = job.opcode) :
    { q with jobs := q.jobs.set i job' }.Numbered n := by
  have hjob := List.mem_of_getElem? hi
  have hcases : ∀ other ∈ q.jobs.set i job', other.live → other ∈ q.jobs ∧ other.live ∨ other = job' := by
    intro other hmem hother
    rcases List.mem_or_eq_of_mem_set hmem with hmem | rfl
    · exact .inl ⟨hmem, hother⟩
    · exact .inr rfl
  refine ⟨h.ticket, h.sequence, ?_, ?_, ?_, ?_, h.apart.update hi hnumber fun _ => hlive⟩
  · intro other hmem hother
    rcases hcases other hmem hother with ⟨hmem, hother⟩ | rfl
    · exact h.positive other hmem hother
    · rw [hnumber]
      exact h.positive job hjob hlive
  · intro other hmem hother
    rcases hcases other hmem hother with ⟨hmem, hother⟩ | rfl
    · exact h.below other hmem hother
    · rw [hnumber]
      exact h.below job hjob hlive
  · intro other hmem hother
    rcases hcases other hmem hother with ⟨hmem, hother⟩ | rfl
    · exact h.named other hmem hother
    · rw [hseq, hnumber]
      exact h.named job hjob hlive
  · intro other hmem hother
    rcases hcases other hmem hother with ⟨hmem, hother⟩ | rfl
    · exact h.lane other hmem hother
    · rw [hlane, hop]
      exact h.lane job hjob hlive

/-- The job a submission stores carries the next number. -/
theorem KwinQueue.Numbered.submittedJob_number (h : q.Numbered n) (hn : n + 1 < 2 ^ 64)
    (opcode : Opcode) (body : Bytes) (nowMs : ℕ) :
    (submittedJob q opcode body nowMs).number = n + 1 := by
  simp only [submittedJob, KwinJob.number, h.ticket, BitVec.toNat_ofNat]
  exact Nat.mod_eq_of_lt hn

theorem KwinQueue.Numbered.submittedJob_sequence (h : q.Numbered n) (opcode : Opcode) (body : Bytes)
    (nowMs : ℕ) : (submittedJob q opcode body nowMs).sequence = sequenceOf (n + 1) := by
  simp only [submittedJob, h.sequence, sequenceOf]

theorem KwinQueue.Numbered.enter (h : q.Numbered n) (hn : n + 1 < 2 ^ 64) (opcode : Opcode)
    (body : Bytes) (nowMs : ℕ) :
    { q with jobs := q.jobs.set i (submittedJob q opcode body nowMs),
             nextSequence := q.nextSequence + 1,
             nextTicket := q.nextTicket + 1 }.Numbered (n + 1) := by
  have hnumber := h.submittedJob_number hn opcode body nowMs
  have hseq := h.submittedJob_sequence opcode body nowMs
  have hnext : BitVec.ofNat 64 (n + 1) + 1 = BitVec.ofNat 64 (n + 1 + 1) := by
    apply BitVec.eq_of_toNat_eq
    simp
  refine ⟨?_, ?_, ?_, ?_, ?_, ?_, ?_⟩
  · rw [h.ticket, hnext]
  · rw [h.sequence, hnext]
  · intro other hmem hother
    rcases List.mem_or_eq_of_mem_set hmem with hmem | rfl
    · exact h.positive other hmem hother
    · omega
  · intro other hmem hother
    rcases List.mem_or_eq_of_mem_set hmem with hmem | rfl
    · exact Nat.le_succ_of_le (h.below other hmem hother)
    · omega
  · intro other hmem hother
    rcases List.mem_or_eq_of_mem_set hmem with hmem | rfl
    · exact h.named other hmem hother
    · rw [hseq, hnumber]
  · intro other hmem hother
    rcases List.mem_or_eq_of_mem_set hmem with hmem | rfl
    · exact h.lane other hmem hother
    · rfl
  · refine h.apart.set ?_
    intro _ j other _ hj hother
    have := h.below other (List.mem_of_getElem? hj) hother
    omega

/-- Freeing slots leaves only jobs that were there. -/
theorem mem_of_freed (h : ∀ i : ℕ, jobs[i]? = q.jobs[i]? ∨ jobs[i]? = some freeSlot)
    (hmem : job ∈ jobs) (hlive : job.live) : job ∈ q.jobs := by
  obtain ⟨i, hi⟩ := List.mem_iff_getElem?.mp hmem
  rcases h i with hsame | hfree
  · exact List.mem_iff_getElem?.mpr ⟨i, hsame ▸ hi⟩
  · rw [hi] at hfree
    cases hfree
    cases hlive

theorem KwinQueue.Numbered.free (h : q.Numbered n)
    (hfreed : ∀ i : ℕ, jobs[i]? = q.jobs[i]? ∨ jobs[i]? = some freeSlot) :
    { q with jobs := jobs }.Numbered n := by
  have hmem : ∀ job ∈ jobs, job.live → job ∈ q.jobs := fun job hj hl => mem_of_freed hfreed hj hl
  refine ⟨h.ticket, h.sequence, ?_, ?_, ?_, ?_, ?_⟩
  · exact fun job hj hl => h.positive job (hmem job hj hl) hl
  · exact fun job hj hl => h.below job (hmem job hj hl) hl
  · exact fun job hj hl => h.named job (hmem job hj hl) hl
  · exact fun job hj hl => h.lane job (hmem job hj hl) hl
  · intro i j a b hi hj ha hb hab
    have hsame : ∀ (k : ℕ) (c : KwinJob), jobs[k]? = some c → c.live → q.jobs[k]? = some c := by
      intro k c hk hc
      rcases hfreed k with h | h
      · rw [← h, hk]
      · rw [hk] at h
        cases h
        cases hc
    exact h.apart i j a b (hsame i a hi ha) (hsame j b hj hb) ha hb hab

namespace Stage

/-- A new job has passed nothing. -/
theorem enter (h : Stage jobs n passed sequences) (hn : n + 1 < 2 ^ 64)
    (hseq : job.sequence = sequenceOf (n + 1)) (hpassed : passed job.state = false) :
    Stage (jobs.set i job) (n + 1) passed sequences := by
  refine ⟨h.nodup, ?_, ?_⟩
  · intro other hmem hlive
    rcases List.mem_or_eq_of_mem_set hmem with hmem | rfl
    · exact h.mem_iff other hmem hlive
    · have hnot : other.sequence ∉ sequences := by
        intro hin
        obtain ⟨k, hk, heq⟩ := h.known _ hin
        have := sequenceOf_injective (by omega) (by omega) (hseq.symm.trans heq)
        omega
      simp [hnot, hpassed]
  · intro s hs
    obtain ⟨k, hk, heq⟩ := h.known s hs
    exact ⟨k, Nat.le_succ_of_le hk, heq⟩

/-- A job that stays on its side of the stage may change. -/
theorem keep (h : Stage jobs n passed sequences) (job' : KwinJob) (hi : jobs[i]? = some job)
    (hlive : job.live) (hseq : job'.sequence = job.sequence) (hpassed : passed job'.state = passed job.state) :
    Stage (jobs.set i job') n passed sequences := by
  refine ⟨h.nodup, ?_, h.known⟩
  intro other hmem hother
  rcases List.mem_or_eq_of_mem_set hmem with hmem | rfl
  · exact h.mem_iff other hmem hother
  · rw [hseq, hpassed]
    exact h.mem_iff job (List.mem_of_getElem? hi) hlive

/-- A job that passes the stage adds its sequence, and no other job has it. -/
theorem pass (h : Stage jobs n passed sequences) (job' : KwinJob) (hi : jobs[i]? = some job)
    (hlive : job.live) (hseq : job'.sequence = job.sequence) (hbefore : passed job.state = false)
    (hafter : passed job'.state = true) (hknown : ∃ k ≤ n, job.sequence = sequenceOf k)
    (halone : ∀ (j : ℕ) (other : KwinJob), jobs[j]? = some other → other.live →
      other.sequence = job.sequence → j = i) :
    Stage (jobs.set i job') n passed (sequences ++ [job.sequence]) := by
  have hnot : job.sequence ∉ sequences := by
    intro hin
    have := (h.mem_iff job (List.mem_of_getElem? hi) hlive).mp hin
    simp [hbefore] at this
  refine ⟨?_, ?_, ?_⟩
  · rw [List.nodup_append]
    refine ⟨h.nodup, List.nodup_singleton _, ?_⟩
    intro a ha b hb heq
    rw [heq, List.mem_singleton.mp hb] at ha
    exact hnot ha
  · intro other hmem hother
    obtain ⟨j, hj⟩ := List.mem_iff_getElem?.mp hmem
    rw [List.getElem?_set] at hj
    split_ifs at hj with hij
    · cases hj
      simp [hseq, hafter]
    · have hne : other.sequence ≠ job.sequence := fun heq => hij (halone j other hj hother heq).symm
      have hsame := h.mem_iff other (List.mem_of_getElem? hj) hother
      simpa [hne] using hsame
  · intro s hs
    rcases List.mem_append.mp hs with hs | hs
    · exact h.known s hs
    · rw [List.mem_singleton.mp hs]
      exact hknown

theorem free (h : Stage q.jobs n passed sequences)
    (hfreed : ∀ i : ℕ, jobs[i]? = q.jobs[i]? ∨ jobs[i]? = some freeSlot) :
    Stage jobs n passed sequences := by
  refine ⟨h.nodup, ?_, h.known⟩
  intro job hmem hlive
  exact h.mem_iff job (mem_of_freed hfreed hmem hlive) hlive

end Stage

/-- Every sequence handed to the script. -/
def handedAll (events : List KwinQueueEvent) : List Bytes :=
  events.filterMap fun
    | .handed _ sequence => some sequence
    | _ => none

/-- States in which the script has been given the job. -/
def wasHanded : KwinJobState → Bool
  | .dispatched | .done => true
  | _ => false

def isDone : KwinJobState → Bool
  | .done => true
  | _ => false

/-- What the events of a run say of the queue it ends in. -/
structure KwinQueue.Ledger (q : KwinQueue) (events : List KwinQueueEvent) : Prop where
  slots : q.jobs.length = kwinMaxJobs
  numbered : q.Numbered (enteredAll events).length
  entered : enteredAll events = (List.range (enteredAll events).length).map fun k => sequenceOf (k + 1)
  ordered : ∀ lane, Fifo.History.Ordered
    ⟨enteredOf lane events, handedOf lane events, (q.waiting lane).map KwinJob.sequence⟩
  handed : Stage q.jobs (enteredAll events).length wasHanded (handedAll events)
  done : Stage q.jobs (enteredAll events).length isDone (completedAll events)
  generation : ∀ g s, KwinQueueEvent.completed g s ∈ events → g = q.generation

namespace KwinQueue.Ledger

theorem enter (h : q.Ledger events) (hi : q.jobs[i]? = some job) (hfree : job.state = .free)
    (opcode : Opcode) (body : Bytes) (nowMs : ℕ) (hn : (enteredAll events).length + 1 < 2 ^ 64) :
    { q with jobs := q.jobs.set i (submittedJob q opcode body nowMs),
             nextSequence := q.nextSequence + 1, nextTicket := q.nextTicket + 1 }.Ledger
      (events ++ [KwinQueueEvent.entered (kwinLaneFor opcode) (formatSequence q.nextSequence)]) := by
  have hseq : formatSequence q.nextSequence = sequenceOf ((enteredAll events).length + 1) := by
    rw [h.numbered.sequence, sequenceOf]
  have hjob := h.numbered.submittedJob_sequence opcode body nowMs
  have hnumber := h.numbered.submittedJob_number hn opcode body nowMs
  have hall : enteredAll (events ++ [KwinQueueEvent.entered (kwinLaneFor opcode) (formatSequence q.nextSequence)]) =
      enteredAll events ++ [sequenceOf ((enteredAll events).length + 1)] := by
    simp [enteredAll, hseq]
  have hlen : (enteredAll (events ++
      [KwinQueueEvent.entered (kwinLaneFor opcode) (formatSequence q.nextSequence)])).length =
      (enteredAll events).length + 1 := by
    simp [hall]
  refine ⟨List.length_set.trans h.slots, ?_, ?_, ?_, ?_, ?_, ?_⟩
  · rw [hlen]
    exact h.numbered.enter hn opcode body nowMs
  · rw [hlen, List.range_succ, List.map_append, hall, ← h.entered]
    rfl
  · intro lane
    have hwaits : job.waitsIn lane = false := by simp [KwinJob.waitsIn, hfree]
    by_cases hlane : kwinLaneFor opcode = lane
    · have hline : Fifo.line KwinJob.number (KwinJob.waitsIn lane)
          (q.jobs.set i (submittedJob q opcode body nowMs)) =
          q.waiting lane ++ [submittedJob q opcode body nowMs] := by
        refine Fifo.line_join (h.numbered.apart_waiting lane) hi hwaits ?_ ?_
        · simp [KwinJob.waitsIn, submittedJob, hlane]
        · intro other hmem hother
          have := h.numbered.below other hmem (KwinJob.live_of_waitsIn hother)
          omega
      have := (h.ordered lane).enter (submittedJob q opcode body nowMs).sequence
      simpa [enteredOf, handedOf, KwinQueue.waiting, hline, hlane, hseq, hjob] using this
    · have hline : Fifo.line KwinJob.number (KwinJob.waitsIn lane)
          (q.jobs.set i (submittedJob q opcode body nowMs)) = q.waiting lane := by
        refine Fifo.line_set_of_not (h.numbered.apart_waiting lane) hi hwaits ?_
        simp [KwinJob.waitsIn, submittedJob, hlane]
      have := h.ordered lane
      simpa [enteredOf, handedOf, KwinQueue.waiting, hline, hlane] using this
  · rw [hlen]
    simpa [handedAll] using h.handed.enter (i := i) hn hjob rfl
  · rw [hlen]
    simpa [completedAll] using h.done.enter (i := i) hn hjob rfl
  · intro g s hmem
    exact h.generation g s (by simpa using hmem)

theorem hand (h : q.Ledger events) (hi : q.jobs[i]? = some job) (hqueued : job.state = .queued)
    (holdest : ∀ other ∈ q.jobs, other.state = .queued → other.lane = job.lane →
      job.ticket.toNat ≤ other.ticket.toNat) (hn : (enteredAll events).length < 2 ^ 64) :
    { q with jobs := q.jobs.set i { job with state := .dispatched } }.Ledger
      (events ++ [KwinQueueEvent.handed job.lane job.sequence]) := by
  have hlive : job.live := by simp [KwinJob.live, hqueued]
  have hmem := List.mem_of_getElem? hi
  have hknown : ∃ k ≤ (enteredAll events).length, job.sequence = sequenceOf k :=
    ⟨job.number, h.numbered.below job hmem hlive, h.numbered.named job hmem hlive⟩
  have hall : enteredAll (events ++ [KwinQueueEvent.handed job.lane job.sequence]) = enteredAll events := by
    simp [enteredAll]
  refine ⟨List.length_set.trans h.slots, ?_, ?_, ?_, ?_, ?_, ?_⟩
  · rw [hall]
    exact h.numbered.update hi hlive rfl rfl rfl rfl
  · rw [hall]
    exact h.entered
  · intro lane
    have hafter : KwinJob.waitsIn lane { job with state := .dispatched } = false := by
      simp [KwinJob.waitsIn]
    by_cases hlane : job.lane = lane
    · have hwaits : job.waitsIn lane := by simp [KwinJob.waitsIn, hqueued, hlane]
      have hline : q.waiting lane = job :: Fifo.line KwinJob.number (KwinJob.waitsIn lane)
          (q.jobs.set i { job with state := .dispatched }) := by
        refine Fifo.line_serve (h.numbered.apart_waiting lane) hi hwaits hafter ?_
        intro other hother hw
        simp only [KwinJob.waitsIn, decide_eq_true_eq] at hw
        exact holdest other hother hw.1 (hw.2.trans hlane.symm)
      have hord := h.ordered lane
      rw [hline, List.map_cons] at hord
      simpa [enteredOf, handedOf, KwinQueue.waiting, hlane] using hord.hand
    · have hwaits : job.waitsIn lane = false := by simp [KwinJob.waitsIn, hlane]
      have hline := Fifo.line_set_of_not (h.numbered.apart_waiting lane) hi hwaits hafter
      simpa [enteredOf, handedOf, KwinQueue.waiting, hline, hlane] using h.ordered lane
  · rw [hall]
    have := h.handed.pass { job with state := .dispatched } hi hlive rfl
      (by simp [wasHanded, hqueued]) rfl hknown
      (fun j other hj hother heq => h.numbered.sequence_injective hn hj hi hother hlive heq)
    simpa [handedAll] using this
  · rw [hall]
    have := h.done.keep { job with state := .dispatched } hi hlive rfl
      (by simp [isDone, hqueued])
    simpa [completedAll] using this
  · intro g s hin
    exact h.generation g s (by simpa using hin)

theorem complete (h : q.Ledger events) (hi : q.jobs[i]? = some job)
    (hdispatched : job.state = .dispatched) (status : BitVec 32) (reply : Bytes)
    (hn : (enteredAll events).length < 2 ^ 64) :
    { q with jobs := q.jobs.set i { job with state := .done, status := status, reply := reply } }.Ledger
      (events ++ [KwinQueueEvent.completed q.generation job.sequence]) := by
  have hlive : job.live := by simp [KwinJob.live, hdispatched]
  have hmem := List.mem_of_getElem? hi
  have hknown : ∃ k ≤ (enteredAll events).length, job.sequence = sequenceOf k :=
    ⟨job.number, h.numbered.below job hmem hlive, h.numbered.named job hmem hlive⟩
  have hall : enteredAll (events ++ [KwinQueueEvent.completed q.generation job.sequence]) = enteredAll events := by
    simp [enteredAll]
  refine ⟨List.length_set.trans h.slots, ?_, ?_, ?_, ?_, ?_, ?_⟩
  · rw [hall]
    exact h.numbered.update hi hlive rfl rfl rfl rfl
  · rw [hall]
    exact h.entered
  · intro lane
    have hline := Fifo.line_set_of_not (b := { job with state := .done, status := status, reply := reply })
      (h.numbered.apart_waiting lane) hi
      (by simp [KwinJob.waitsIn, hdispatched]) (by simp [KwinJob.waitsIn])
    simpa [enteredOf, handedOf, KwinQueue.waiting, hline] using h.ordered lane
  · rw [hall]
    have := h.handed.keep { job with state := .done, status := status, reply := reply }
      hi hlive rfl (by simp [wasHanded, hdispatched])
    simpa [handedAll] using this
  · rw [hall]
    have := h.done.pass { job with state := .done, status := status, reply := reply }
      hi hlive rfl (by simp [isDone, hdispatched]) rfl hknown
      (fun j other hj hother heq => h.numbered.sequence_injective hn hj hi hother hlive heq)
    simpa [completedAll] using this
  · intro g s hin
    rcases List.mem_append.mp hin with hin | hin
    · exact h.generation g s hin
    · cases List.mem_singleton.mp hin
      rfl

theorem free (h : q.Ledger events) (hslots : jobs.length = q.jobs.length)
    (hfreed : ∀ i : ℕ, jobs[i]? = q.jobs[i]? ∨ jobs[i]? = some freeSlot) :
    { q with jobs := jobs }.Ledger events := by
  refine ⟨hslots.trans h.slots, h.numbered.free hfreed, h.entered, ?_, h.handed.free hfreed,
    h.done.free hfreed, h.generation⟩
  intro lane
  refine (h.ordered lane).drop (List.Sublist.map _ ?_)
  refine Fifo.line_sublist (h.numbered.apart_waiting lane) ((h.numbered.free hfreed).apart_waiting lane) ?_
  intro job hmem hwaits
  exact mem_of_freed hfreed hmem (KwinJob.live_of_waitsIn hwaits)

/-- Every move keeps the ledger, as long as the counters have not wrapped. -/
theorem move (h : q.Ledger events) (hmove : q.Move es r)
    (hn : (enteredAll (events ++ es)).length < 2 ^ 64) : r.Ledger (events ++ es) := by
  have hless : (enteredAll events).length ≤ (enteredAll (events ++ es)).length := by
    simp only [enteredAll, List.filterMap_append, List.length_append]
    omega
  cases hmove with
  | enter i slot opcode body nowMs hfound hfree hlane =>
    refine h.enter hfound hfree opcode body nowMs ?_
    simpa [enteredAll] using hn
  | hand i job hfound hqueued holdest => exact h.hand hfound hqueued holdest (by omega)
  | complete i job status reply hfound hdispatched =>
    exact h.complete hfound hdispatched status reply (by omega)
  | free jobs hslots hfreed =>
    rw [List.append_nil]
    exact h.free hslots hfreed
  | park parked =>
    rw [List.append_nil]
    exact ⟨h.slots, ⟨h.numbered.ticket, h.numbered.sequence, h.numbered.positive, h.numbered.below,
      h.numbered.named, h.numbered.lane, h.numbered.apart⟩, h.entered, h.ordered, h.handed, h.done,
      h.generation⟩

theorem moves (hmoves : q.Moves es r) (h : q.Ledger events)
    (hn : (enteredAll (events ++ es)).length < 2 ^ 64) : r.Ledger (events ++ es) := by
  induction hmoves generalizing events with
  | nil q => rwa [List.append_nil]
  | @cons q r s es fs hmove _ ih =>
    rw [← List.append_assoc] at hn ⊢
    have hless : (enteredAll (events ++ es)).length ≤ (enteredAll (events ++ es ++ fs)).length := by
      simp only [enteredAll, List.filterMap_append, List.length_append]
      omega
    exact ih (h.move hmove (by omega)) hn

end KwinQueue.Ledger

theorem kwinQueueInit_ledger {generation : Bytes} (h : kwinQueueInit generation = some q) :
    q.Ledger [] := by
  unfold kwinQueueInit at h
  split_ifs at h
  cases h
  have hdead : ∀ job ∈ List.replicate kwinMaxJobs freeSlot, ¬ job.live := by
    intro job hmem
    rw [(List.mem_replicate.mp hmem).2]
    decide
  have hline : ∀ lane, Fifo.line KwinJob.number (KwinJob.waitsIn lane)
      (List.replicate kwinMaxJobs freeSlot) = [] := by
    intro lane
    rw [List.eq_nil_iff_forall_not_mem]
    intro job hmem
    obtain ⟨hmem, hwaits⟩ := Fifo.mem_line.mp hmem
    exact hdead job hmem (KwinJob.live_of_waitsIn hwaits)
  refine ⟨List.length_replicate, ⟨rfl, rfl, ?_, ?_, ?_, ?_, ?_⟩, rfl, ?_, ?_, ?_, by simp⟩
  · exact fun job hmem hlive => absurd hlive (hdead job hmem)
  · exact fun job hmem hlive => absurd hlive (hdead job hmem)
  · exact fun job hmem hlive => absurd hlive (hdead job hmem)
  · exact fun job hmem hlive => absurd hlive (hdead job hmem)
  · exact fun i j a b hi _ ha => absurd ha (hdead a (List.mem_of_getElem? hi))
  · intro lane
    simp [Fifo.History.Ordered, KwinQueue.waiting, hline, enteredOf, handedOf]
  · exact ⟨List.nodup_nil, fun job hmem hlive => absurd hlive (hdead job hmem), by simp [handedAll]⟩
  · exact ⟨List.nodup_nil, fun job hmem hlive => absurd hlive (hdead job hmem), by simp [completedAll]⟩

/-- The ledger of any run of calls. -/
theorem ledger_of_calls {generation : Bytes} (hinit : kwinQueueInit generation = some q)
    (calls : List KwinQueueCall)
    (hfew : (enteredAll (Transition.trace kwinQueueCall kwinQueueEvents q calls)).length < 2 ^ 64) :
    (calls.foldl kwinQueueCall q).Ledger (Transition.trace kwinQueueCall kwinQueueEvents q calls) := by
  have hinv : (enteredAll ([] ++ Transition.trace kwinQueueCall kwinQueueEvents q calls)).length < 2 ^ 64 →
      (calls.foldl kwinQueueCall q).Ledger
        ([] ++ Transition.trace kwinQueueCall kwinQueueEvents q calls) := by
    refine Transition.trace_invariant (I := fun (q : KwinQueue) events => (enteredAll events).length < 2 ^ 64 →
      q.Ledger events) ?_ (fun _ => kwinQueueInit_ledger hinit) calls
    intro s w call hs hn
    have hless : (enteredAll w).length ≤ (enteredAll (w ++ kwinQueueEvents s call)).length := by
      simp only [enteredAll, List.filterMap_append, List.length_append]
      omega
    exact (hs (by omega)).moves (kwinQueueCall_moves s call) hn
  exact hinv hfew

end Ledger

section Discipline

variable {q r : KwinQueue} {es : List KwinQueueEvent} {i : ℕ} {job : KwinJob}

/-- Moves that hand nothing out leave no slot newly dispatched. -/
theorem KwinQueue.Moves.slot_dispatched (h : q.Moves es r) (hes : handedAll es = [])
    (hi : r.jobs[i]? = some job) (hstate : job.state = .dispatched) : q.jobs[i]? = some job := by
  induction h with
  | nil => exact hi
  | @cons q r s es fs hmove _ ih =>
    simp only [handedAll, List.filterMap_append, List.append_eq_nil_iff] at hes
    have hr := ih hes.2 hi
    cases hmove with
    | enter k slot opcode body nowMs _ hfree =>
      simp only [List.getElem?_set] at hr
      split_ifs at hr
      · cases hr
        cases hstate
      · exact hr
    | hand => simp at hes
    | complete k other =>
      simp only [List.getElem?_set] at hr
      split_ifs at hr
      · cases hr
        cases hstate
      · exact hr
    | free jobs _ hfreed =>
      rcases hfreed i with hsame | hfree
      · rwa [← hsame]
      · rw [hfree] at hr
        cases hr
        cases hstate
    | park => exact hr

/-- Moves that complete nothing leave no slot newly done. -/
theorem KwinQueue.Moves.slot_done (h : q.Moves es r) (hes : completedAll es = [])
    (hi : r.jobs[i]? = some job) (hstate : job.state = .done) : q.jobs[i]? = some job := by
  induction h with
  | nil => exact hi
  | @cons q r s es fs hmove _ ih =>
    simp only [completedAll, List.filterMap_append, List.append_eq_nil_iff] at hes
    have hr := ih hes.2 hi
    cases hmove with
    | enter k slot opcode body nowMs _ hfree =>
      simp only [List.getElem?_set] at hr
      split_ifs at hr
      · cases hr
        cases hstate
      · exact hr
    | hand k other =>
      simp only [List.getElem?_set] at hr
      split_ifs at hr
      · cases hr
        cases hstate
      · exact hr
    | complete => simp at hes
    | free jobs _ hfreed =>
      rcases hfreed i with hsame | hfree
      · rwa [← hsame]
      · rw [hfree] at hr
        cases hr
        cases hstate
    | park => exact hr

/-- A slot a batch touches held a queued job, which is in the batch. -/
theorem takeJobs_slot (lane : KwinLane) (limit : ℕ) (jobs : List KwinJob) (i : ℕ) :
    (takeJobs lane limit jobs).2[i]? = jobs[i]? ∨
      ∃ job, jobs[i]? = some job ∧ job.state = .queued ∧
        { job with state := .dispatched } ∈ (takeJobs lane limit jobs).1 ∧
        (takeJobs lane limit jobs).2[i]? = some { job with state := .dispatched } := by
  induction limit generalizing jobs with
  | zero => exact .inl rfl
  | succ limit ih =>
    unfold takeJobs
    split
    · exact .inl rfl
    · rename_i k job hold
      obtain ⟨hfound, hqueued, -, -⟩ := oldestQueued_spec hold
      dsimp only
      have hlt : k < jobs.length := (List.getElem?_eq_some_iff.mp hfound).1
      rcases ih (jobs.set k { job with state := .dispatched }) with hsame | ⟨other, ho, hoq, hmem, hout⟩
      · rw [List.getElem?_set] at hsame
        split_ifs at hsame with hki
        · subst hki
          exact .inr ⟨job, hfound, hqueued, by simp, hsame⟩
        · exact .inl hsame
      · rw [List.getElem?_set] at ho
        split_ifs at ho with hki
        · cases ho
          cases hoq
        · exact .inr ⟨other, ho, hoq, List.mem_cons_of_mem _ hmem, hout⟩

/-- A slot a report touches held a dispatched job, which one of its lines completes. -/
theorem completeAll_slot (q : KwinQueue) (ds : List KwinDone) (i : ℕ) :
    (completeAll q ds).2.jobs[i]? = q.jobs[i]? ∨
      ∃ job d, q.jobs[i]? = some job ∧ job.state = .dispatched ∧ d ∈ completedLines q ds ∧
        d.sequence = job.sequence ∧ (completeAll q ds).2.jobs[i]? = some (completed job d) := by
  induction ds generalizing q with
  | nil => exact .inl rfl
  | cons d ds ih =>
    unfold completeAll completedLines
    cases hc : kwinQueueComplete q q.generation d.sequence d.status d.body with
    | none => exact .inl rfl
    | some r =>
      dsimp only
      have hvalid : validGeneration q.generation := by
        by_contra hbad
        simp [kwinQueueComplete, hbad] at hc
      obtain ⟨k, job, hk, hfound, hstate, rfl⟩ := (kwinQueueComplete_eq_some hvalid).mp hc
      obtain ⟨other, ho, -, hseq⟩ := slotOf_eq_some hk
      have hsame : other = job := Option.some.inj (ho.symm.trans hfound)
      have hlt : k < q.jobs.length := (List.getElem?_eq_some_iff.mp hfound).1
      rcases ih (completeAt q k job d) with hrest | ⟨later, e, hl, hls, hmem, heq, hout⟩
      · rw [completeAt_jobs, List.getElem?_set] at hrest
        split_ifs at hrest with hki
        · subst hki
          exact .inr ⟨job, d, hfound, hstate, by simp, by rw [← hseq, hsame], hrest⟩
        · exact .inl hrest
      · rw [completeAt_jobs, List.getElem?_set] at hl
        split_ifs at hl with hki
        · cases hl
          cases hls
        · exact .inr ⟨later, e, hl, hls, List.mem_cons_of_mem _ hmem, heq, hout⟩

/-- The lane a call asks for a batch of. -/
def askedLane : KwinQueueCall → KwinLane
  | .take lane _ => lane
  | .poll envelope _ _ => ((kwinParsePoll envelope).map KwinPoll.lane).getD .none
  | .pollParked lane _ _ => lane
  | _ => .none

theorem handedBatch_lane (q : KwinQueue) (call : KwinQueueCall) :
    (∀ job ∈ handedBatch q call, job.lane = askedLane call) ∧
      (handedBatch q call).length ≤ laneCapacity (askedLane call) := by
  cases call with
  | take lane capacity => exact (kwinQueueTake_moves q lane capacity).2
  | poll envelope nowMs reply =>
    simp only [handedBatch, askedLane]
    cases kwinParsePoll envelope with
    | none => simp
    | some poll =>
      dsimp only
      split_ifs
      · simp
      · exact (kwinQueueTake_moves q poll.lane kwinJobsPerReplyFast).2
  | pollParked lane nowMs reply =>
    simp only [handedBatch, askedLane]
    split_ifs
    · simp
    · exact (kwinQueueTake_moves (setParked q lane false) lane kwinJobsPerReplyFast).2
  | _ => simp [handedBatch]

/-- A slot becomes dispatched only with its job in the batch of the call. -/
theorem kwinQueueCall_dispatched (q : KwinQueue) (call : KwinQueueCall) {i : ℕ} {job : KwinJob}
    (hi : (kwinQueueCall q call).jobs[i]? = some job) (hstate : job.state = .dispatched) :
    q.jobs[i]? = some job ∨ (job ∈ handedBatch q call ∧
      ∃ before, q.jobs[i]? = some before ∧ before.state = .queued ∧
        job = { before with state := .dispatched }) := by
  have htake : ∀ (lane : KwinLane) (limit : ℕ), (takeJobs lane limit q.jobs).2[i]? = some job →
      q.jobs[i]? = some job ∨ (job ∈ (takeJobs lane limit q.jobs).1 ∧
        ∃ before, q.jobs[i]? = some before ∧ before.state = .queued ∧
          job = { before with state := .dispatched }) := by
    intro lane limit hjob
    rcases takeJobs_slot lane limit q.jobs i with hsame | ⟨before, hb, hqueued, hmem, hout⟩
    · exact .inl (hsame ▸ hjob)
    · have heq : job = { before with state := .dispatched } := Option.some.inj (hjob.symm.trans hout)
      exact .inr ⟨heq ▸ hmem, before, hb, hqueued, heq⟩
  have hother : handedAll (kwinQueueEvents q call) = [] → q.jobs[i]? = some job := by
    intro hes
    exact (kwinQueueCall_moves q call).slot_dispatched hes hi hstate
  cases call with
  | take lane capacity => exact htake lane _ hi
  | poll envelope nowMs reply =>
    simp only [kwinQueueCall, kwinQueuePoll, handedBatch] at hi ⊢
    cases hparse : kwinParsePoll envelope with
    | none =>
      rw [hparse] at hi
      exact .inl hi
    | some poll =>
      rw [hparse] at hi
      dsimp only at hi ⊢
      split_ifs at hi ⊢ with hgen hempty
      · exact .inl hi
      · exact htake poll.lane _ hi
      · refine htake poll.lane _ ?_
        split at hi <;> exact hi
  | pollParked lane nowMs reply =>
    by_cases hlane : lane = .none
    · simp only [kwinQueueCall, kwinQueuePollParked, if_pos hlane] at hi
      exact .inl hi
    · simp only [kwinQueueCall, kwinQueuePollParked, handedBatch, if_neg hlane] at hi ⊢
      exact htake lane _ hi
  | submit opcode body nowMs =>
    refine .inl (hother ?_)
    simp only [kwinQueueEvents]
    cases kwinQueueSubmit q opcode body nowMs <;> rfl
  | report envelope reply =>
    refine .inl (hother ?_)
    simp [kwinQueueEvents, handedAll]
  | complete generation sequence status reply =>
    refine .inl (hother ?_)
    simp only [kwinQueueEvents]
    split_ifs <;> rfl
  | expire nowMs => exact .inl (hother rfl)
  | release sequence => exact .inl (hother rfl)

/-- A slot becomes done only from dispatched, by a completion of its own sequence. -/
theorem kwinQueueCall_done (q : KwinQueue) (call : KwinQueueCall) {i : ℕ} {job : KwinJob}
    (hi : (kwinQueueCall q call).jobs[i]? = some job) (hstate : job.state = .done) :
    q.jobs[i]? = some job ∨ (KwinQueueEvent.completed q.generation job.sequence ∈ kwinQueueEvents q call ∧
      ∃ before, q.jobs[i]? = some before ∧ before.state = .dispatched ∧
        before.sequence = job.sequence) := by
  have hother : completedAll (kwinQueueEvents q call) = [] → q.jobs[i]? = some job := by
    intro hes
    exact (kwinQueueCall_moves q call).slot_done hes hi hstate
  have hhanded : ∀ batch, completedAll (handedEvents batch) = [] := by
    intro batch
    simp [handedEvents, completedAll]
  cases call with
  | take lane capacity => exact .inl (hother (hhanded _))
  | poll envelope nowMs reply => exact .inl (hother (hhanded _))
  | pollParked lane nowMs reply => exact .inl (hother (hhanded _))
  | submit opcode body nowMs =>
    refine .inl (hother ?_)
    simp only [kwinQueueEvents]
    cases kwinQueueSubmit q opcode body nowMs <;> rfl
  | report envelope reply =>
    simp only [kwinQueueCall, kwinQueueEvents] at hi ⊢
    rcases kwinQueueReport_jobs q envelope reply with ⟨hq, -⟩ | ⟨report, -, -, hq, hlines⟩
    · rw [hq] at hi
      exact .inl hi
    · rw [hq] at hi
      rw [hlines]
      rcases completeAll_slot q report.done i with hsame | ⟨before, d, hb, hbs, hmem, hseq, hout⟩
      · exact .inl (hsame ▸ hi)
      · have heq : job = completed before d := Option.some.inj (hi.symm.trans hout)
        refine .inr ⟨?_, before, hb, hbs, by rw [heq]; rfl⟩
        refine List.mem_map.mpr ⟨(q.generation, d), List.mem_map.mpr ⟨d, hmem, rfl⟩, ?_⟩
        rw [hseq, heq]
        rfl
  | complete generation sequence status reply =>
    simp only [kwinQueueCall, kwinQueueEvents] at hi ⊢
    cases hc : kwinQueueComplete q generation sequence status reply with
    | none =>
      rw [hc] at hi
      exact .inl hi
    | some r =>
      rw [hc] at hi
      simp only [Option.isSome_some, if_true, List.mem_singleton]
      obtain ⟨hgen, k, before, hb, hbs, hseq, rfl⟩ := kwinQueueComplete_cases hc
      have hset := hi
      rw [Option.getD_some, completeAt_jobs, List.getElem?_set] at hset
      by_cases hki : k = i
      · subst hki
        have hlt : k < q.jobs.length := (List.getElem?_eq_some_iff.mp hb).1
        rw [if_pos rfl, if_pos hlt] at hset
        cases hset
        exact .inr ⟨by rw [hgen, ← hseq]; rfl, before, hb, hbs, rfl⟩
      · rw [if_neg hki] at hset
        exact .inl hset
  | expire nowMs => exact .inl (hother rfl)
  | release sequence => exact .inl (hother rfl)

theorem kwinQueueSubmit_eq_none (q : KwinQueue) (opcode : Opcode) (body : Bytes) (nowMs : ℕ) :
    kwinQueueSubmit q opcode body nowMs = none ↔
      kwinLaneFor opcode = .none ∨ ∀ job ∈ q.jobs, job.state ≠ .free := by
  unfold kwinQueueSubmit
  dsimp only
  split_ifs with hlane
  · simp [hlane]
  · cases hfree : q.jobs.findIdx? (fun job => job.state = .free) with
    | none =>
      have hfull := List.findIdx?_eq_none_iff.mp hfree
      simpa [hlane] using hfull
    | some i =>
      obtain ⟨hlt, hp, -⟩ := List.findIdx?_eq_some_iff_getElem.mp hfree
      have hslot : q.jobs[i].state = .free := by simpa using hp
      simp only [reduceCtorEq, hlane, false_or, false_iff, not_forall, not_not]
      exact ⟨q.jobs[i], List.getElem_mem hlt, hslot⟩

/-- What a queue and the events that led to it owe their users. -/
structure KwinQueue.Disciplined (q : KwinQueue) (events : List KwinQueueEvent) : Prop where
  /-- Within a lane jobs are handed out in the order they were submitted. -/
  order : ∀ lane, handedOf lane events <+ enteredOf lane events
  /-- No sequence is given twice, and none is handed out or completed twice. -/
  once : (enteredAll events).Nodup ∧ (handedAll events).Nodup ∧ (completedAll events).Nodup
  /-- A slot becomes dispatched from queued, in the batch of the call that does it. -/
  dispatched : ∀ call (i : ℕ) job, (kwinQueueCall q call).jobs[i]? = some job →
    job.state = .dispatched → q.jobs[i]? = some job ∨ (job ∈ handedBatch q call ∧
      ∃ before, q.jobs[i]? = some before ∧ before.state = .queued ∧
        job = { before with state := .dispatched })
  /-- A batch is of the lane that was asked for, and within its cap. -/
  batch : ∀ call, (∀ job ∈ handedBatch q call, job.lane = askedLane call ∧
      kwinLaneFor job.opcode = askedLane call) ∧
    (handedBatch q call).length ≤ laneCapacity (askedLane call)
  /-- A slot becomes done from dispatched, by a completion of its own sequence. -/
  done : ∀ call (i : ℕ) job, (kwinQueueCall q call).jobs[i]? = some job → job.state = .done →
    q.jobs[i]? = some job ∨
      (KwinQueueEvent.completed q.generation job.sequence ∈ kwinQueueEvents q call ∧
      ∃ before, q.jobs[i]? = some before ∧ before.state = .dispatched ∧ before.sequence = job.sequence)
  /-- A done job has been completed once, and every completion was of the queue's generation. -/
  completed : (∀ job ∈ q.jobs, job.state = .done → (completedAll events).count job.sequence = 1) ∧
    ∀ generation sequence, KwinQueueEvent.completed generation sequence ∈ events →
      generation = q.generation
  /-- Expiry frees the queued jobs whose deadline has passed, and only these. -/
  expiry : ∀ nowMs (i : ℕ) job, q.jobs[i]? = some job → (kwinQueueExpire q nowMs).jobs[i]? =
    some (if job.state = .queued ∧ job.deadlineMs ≤ nowMs then freeSlot else job)
  /-- A submission fails only for want of a lane or of a free slot, and stores nothing. -/
  refusal : ∀ opcode body nowMs, kwinQueueSubmit q opcode body nowMs = none →
    (kwinLaneFor opcode = .none ∨ (q.jobs.filter KwinJob.live).length = kwinMaxJobs) ∧
      kwinQueueCall q (.submit opcode body nowMs) = q

/-- The jobs of a batch are queued jobs of the queue, marked as dispatched. -/
theorem mem_takeJobs {lane : KwinLane} {limit : ℕ} {jobs : List KwinJob} {job : KwinJob}
    (h : job ∈ (takeJobs lane limit jobs).1) :
    ∃ before ∈ jobs, before.state = .queued ∧ job = { before with state := .dispatched } := by
  induction limit generalizing jobs with
  | zero => simp [takeJobs] at h
  | succ limit ih =>
    unfold takeJobs at h
    split at h
    · simp at h
    · rename_i k head hold
      obtain ⟨hfound, hqueued, -, -⟩ := oldestQueued_spec hold
      rcases List.mem_cons.mp h with rfl | hmem
      · exact ⟨head, List.mem_of_getElem? hfound, hqueued, rfl⟩
      · obtain ⟨before, hb, hbq, heq⟩ := ih hmem
        rcases List.mem_or_eq_of_mem_set hb with hb | rfl
        · exact ⟨before, hb, hbq, heq⟩
        · cases hbq

theorem mem_handedBatch {call : KwinQueueCall} (h : job ∈ handedBatch q call) :
    ∃ before ∈ q.jobs, before.state = .queued ∧ job = { before with state := .dispatched } := by
  cases call with
  | take lane capacity => exact mem_takeJobs h
  | poll envelope nowMs reply =>
    simp only [handedBatch] at h
    split at h
    · simp at h
    · split_ifs at h
      · simp at h
      · exact mem_takeJobs h
  | pollParked lane nowMs reply =>
    simp only [handedBatch] at h
    split_ifs at h
    · simp at h
    · have h : job ∈ (takeJobs lane (min kwinJobsPerReplyFast (laneCapacity lane)) q.jobs).1 := h
      exact mem_takeJobs h
  | _ => simp [handedBatch] at h

/-- Every run of calls from a new queue keeps the discipline. -/
theorem kwinQueue_disciplined {generation : Bytes} {start : KwinQueue}
    (hinit : kwinQueueInit generation = some start) (calls : List KwinQueueCall)
    (hfew : (enteredAll (Transition.trace kwinQueueCall kwinQueueEvents start calls)).length < 2 ^ 64) :
    (calls.foldl kwinQueueCall start).Disciplined
      (Transition.trace kwinQueueCall kwinQueueEvents start calls) := by
  have hledger := ledger_of_calls hinit calls hfew
  generalize calls.foldl kwinQueueCall start = q at hledger
  generalize Transition.trace kwinQueueCall kwinQueueEvents start calls = events at hledger hfew
  refine ⟨fun lane => (hledger.ordered lane).handed_sublist, ⟨?_, hledger.handed.nodup, hledger.done.nodup⟩,
    fun call i job => kwinQueueCall_dispatched q call, ?_, fun call i job => kwinQueueCall_done q call,
    ⟨?_, hledger.generation⟩, ?_, ?_⟩
  · rw [hledger.entered]
    refine List.Nodup.map_on ?_ List.nodup_range
    intro m hm n hn heq
    have hm := List.mem_range.mp hm
    have hn := List.mem_range.mp hn
    have := sequenceOf_injective (by omega) (by omega) heq
    omega
  · intro call
    obtain ⟨hlane, hlen⟩ := handedBatch_lane q call
    refine ⟨fun job hmem => ⟨hlane job hmem, ?_⟩, hlen⟩
    obtain ⟨before, hb, hqueued, heq⟩ := mem_handedBatch hmem
    have hopcode := hledger.numbered.lane before hb (by simp [KwinJob.live, hqueued])
    rw [← hlane job hmem, heq]
    exact hopcode.symm
  · intro job hmem hstate
    have hin := (hledger.done.mem_iff job hmem (by simp [KwinJob.live, hstate])).mpr (by simp [hstate, isDone])
    exact List.count_eq_one_of_mem hledger.done.nodup hin
  · intro nowMs i job hi
    simp only [kwinQueueExpire, List.getElem?_map, hi, Option.map_some, Option.some.injEq]
    by_cases hexpired : job.state = .queued ∧ job.deadlineMs ≤ nowMs
    · rw [if_pos hexpired, if_neg]
      simpa [hexpired.1] using hexpired.2
    · rw [if_neg hexpired, if_pos]
      by_cases hqueued : job.state = .queued
      · exact .inr (by simpa [hqueued] using hexpired)
      · exact .inl hqueued
  · intro opcode body nowMs hnone
    refine ⟨?_, by simp [kwinQueueCall, hnone]⟩
    rcases (kwinQueueSubmit_eq_none q opcode body nowMs).mp hnone with hlane | hfull
    · exact .inl hlane
    · right
      rw [List.filter_eq_self.mpr]
      · exact hledger.slots
      · intro job hmem
        simpa [KwinJob.live] using hfull job hmem

/-- A queue as the daemon creates it. -/
def newQueue : KwinQueue :=
  ⟨List.replicate kwinMaxJobs freeSlot, List.replicate kwinGenerationHex 48, 1, 1, fun _ => false⟩

theorem kwinQueueInit_newQueue : kwinQueueInit (List.replicate kwinGenerationHex 48) = some newQueue := rfl

/-- Two operations of the fast lane, handed out together; the second is completed first. -/
def twoOperations : List KwinQueueCall :=
  [.submit Op.windowFocus (ascii "7") 0, .submit Op.windowClose (ascii "7") 1, .take .fast 8,
    .complete newQueue.generation (sequenceOf 2) 0 [], .release (sequenceOf 2), .expire 5000]

theorem twoOperations_disciplined :
    handedOf .fast (Transition.trace kwinQueueCall kwinQueueEvents newQueue twoOperations) =
      [sequenceOf 1, sequenceOf 2] ∧
    (twoOperations.foldl kwinQueueCall newQueue).Disciplined
      (Transition.trace kwinQueueCall kwinQueueEvents newQueue twoOperations) := by
  refine ⟨by decide +kernel, ?_⟩
  exact kwinQueue_disciplined kwinQueueInit_newQueue twoOperations (by decide +kernel)

end Discipline

end KeysharpDesktop
