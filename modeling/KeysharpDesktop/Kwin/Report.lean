import KeysharpDesktop.Kwin.Jobs

/-! Atomicity of a report: which reports change a queue, and how. -/
namespace KeysharpDesktop

/-- What every reachable queue keeps: its generation is well formed, and a job holds a
reply only once it is done. -/
structure KwinQueue.Sound (q : KwinQueue) : Prop where
  generation : validGeneration q.generation
  reply : ∀ job ∈ q.jobs, job.state ≠ .done → job.reply = []

section Slots

variable {jobs : List KwinJob} {sequence : Bytes} {i : ℕ} {job job' : KwinJob}

theorem slotOf_eq_some (h : slotOf jobs sequence = some i) :
    ∃ job, jobs[i]? = some job ∧ job.state ≠ .free ∧ job.sequence = sequence := by
  obtain ⟨hi, hp, -⟩ := List.findIdx?_eq_some_iff_getElem.mp h
  simp only [ne_eq, decide_eq_true_eq] at hp
  exact ⟨jobs[i], List.getElem?_eq_getElem hi, hp⟩

/-- Two sequences that name one slot are equal. -/
theorem slotOf_injective {other : Bytes} (h : slotOf jobs sequence = some i)
    (h' : slotOf jobs other = some i) : sequence = other := by
  obtain ⟨job, hj, -, hs⟩ := slotOf_eq_some h
  obtain ⟨job', hj', -, hs'⟩ := slotOf_eq_some h'
  rw [hj] at hj'
  cases hj'
  rw [← hs, hs']

/-- Completing a job leaves every slot under its name. -/
theorem slotOf_set (hi : jobs[i]? = some job) (hseq : job'.sequence = job.sequence)
    (hfree : job'.state = .free ↔ job.state = .free) :
    slotOf (jobs.set i job') sequence = slotOf jobs sequence := by
  let p : KwinJob → Bool := fun job => job.state ≠ .free ∧ job.sequence = sequence
  have hp : p job' = p job := by simp only [p, hseq, ne_eq, hfree]
  have hmap : (jobs.set i job').map p = jobs.map p := by
    rw [List.map_set, hp]
    apply List.ext_getElem?
    intro k
    rw [List.getElem?_set]
    split_ifs with hk hl
    · subst hk; simp [hi]
    · subst hk
      simp only [List.length_map, not_lt] at hl
      simp [List.getElem?_eq_none hl]
    · rfl
  have hid : ∀ l : List KwinJob, slotOf l sequence = (l.map p).findIdx? id := by
    intro l
    rw [List.findIdx?_map]
    rfl
  rw [hid, hid, hmap]

end Slots

section Completion

variable {q q' : KwinQueue} {d : KwinDone} {ds : List KwinDone}

/-- A job after the done line that names it. -/
def completed (job : KwinJob) (d : KwinDone) : KwinJob :=
  { job with state := .done, status := d.status, reply := if d.body = [] then job.reply else d.body }

/-- The queue after that line. -/
def completeAt (q : KwinQueue) (i : ℕ) (job : KwinJob) (d : KwinDone) : KwinQueue :=
  { q with jobs := q.jobs.set i (completed job d) }

@[simp] theorem completeAt_generation (i : ℕ) (job : KwinJob) :
    (completeAt q i job d).generation = q.generation := rfl

@[simp] theorem completeAt_jobs (i : ℕ) (job : KwinJob) :
    (completeAt q i job d).jobs = q.jobs.set i (completed job d) := rfl

theorem slotOf_completeAt {i : ℕ} {job : KwinJob} (hj : q.jobs[i]? = some job)
    (hs : job.state = .dispatched) (sequence : Bytes) :
    slotOf (completeAt q i job d).jobs sequence = slotOf q.jobs sequence :=
  slotOf_set hj rfl (by simp [completed, hs])

/-- A completion under the queue's own generation succeeds exactly on a dispatched job. -/
theorem kwinQueueComplete_eq_some (hg : validGeneration q.generation) :
    kwinQueueComplete q q.generation d.sequence d.status d.body = some q' ↔
      ∃ i job, slotOf q.jobs d.sequence = some i ∧ q.jobs[i]? = some job ∧
        job.state = .dispatched ∧ q' = completeAt q i job d := by
  constructor
  · intro h
    simp only [kwinQueueComplete, hg, Bool.not_true, Bool.false_eq_true, ne_eq, not_true_eq_false,
      or_self, if_false, Option.bind_eq_bind, Option.bind_eq_some_iff] at h
    obtain ⟨i, hi, job, hj, h⟩ := h
    by_cases hs : job.state = .dispatched
    · simp only [hs, not_true_eq_false, if_false, Option.some.injEq] at h
      exact ⟨i, job, hi, hj, hs, h.symm⟩
    · simp [hs] at h
  · rintro ⟨i, job, hi, hj, hs, rfl⟩
    simp only [kwinQueueComplete, hg, Bool.not_true, Bool.false_eq_true, ne_eq, not_true_eq_false,
      or_self, if_false, hi, hj, hs, Option.bind_eq_bind, Option.bind_some, completeAt, completed]

theorem isDispatched_iff :
    isDispatched q d ↔ ∃ i job, slotOf q.jobs d.sequence = some i ∧ q.jobs[i]? = some job ∧
      job.state = .dispatched := by
  simp only [isDispatched, kwinQueueFind, Option.any_eq_true, Option.bind_eq_some_iff,
    decide_eq_true_eq]
  constructor
  · rintro ⟨job, ⟨i, hi, hj⟩, hs⟩
    exact ⟨i, job, hi, hj, hs⟩
  · rintro ⟨i, job, hi, hj, hs⟩
    exact ⟨job, ⟨i, hi, hj⟩, hs⟩

/-- A done line moves only its own slot. -/
theorem isDispatched_complete {i : ℕ} {job : KwinJob} (hi : slotOf q.jobs d.sequence = some i)
    (hj : q.jobs[i]? = some job) (hs : job.state = .dispatched) (e : KwinDone) :
    isDispatched (completeAt q i job d) e ↔ isDispatched q e ∧ e.sequence ≠ d.sequence := by
  rw [isDispatched_iff, isDispatched_iff, slotOf_completeAt hj hs, completeAt_jobs]
  constructor
  · rintro ⟨k, other, hk, ho, hd⟩
    rw [List.getElem?_set] at ho
    split_ifs at ho with hik
    · cases ho
      simp [completed] at hd
    · refine ⟨⟨k, other, hk, ho, hd⟩, ?_⟩
      intro heq
      rw [heq, hi] at hk
      exact hik (Option.some.inj hk)
  · rintro ⟨⟨k, other, hk, ho, hd⟩, hne⟩
    refine ⟨k, other, hk, ?_, hd⟩
    rw [List.getElem?_set_ne]
    · exact ho
    · rintro rfl
      exact hne (slotOf_injective hk hi)

/-- The second pass succeeds exactly when it meets a dispatched job at every line, which
fails at a sequence given twice. -/
theorem completeAll_fst (hg : validGeneration q.generation) :
    (completeAll q ds).1 ↔ (∀ d ∈ ds, isDispatched q d) ∧ (ds.map KwinDone.sequence).Nodup := by
  induction ds generalizing q with
  | nil => simp [completeAll]
  | cons d ds ih =>
    by_cases hd : isDispatched q d
    · obtain ⟨i, job, hi, hj, hs⟩ := isDispatched_iff.mp hd
      have hc := (kwinQueueComplete_eq_some (d := d) hg).mpr ⟨i, job, hi, hj, hs, rfl⟩
      have hrest := isDispatched_complete (d := d) hi hj hs
      have hrec := ih (q := completeAt q i job d) hg
      simp only [completeAll, hc, hrec, hrest, List.mem_cons, forall_eq_or_imp, hd, true_and,
        List.map_cons, List.nodup_cons, List.mem_map, not_exists, not_and]
      constructor
      · rintro ⟨hall, hnodup⟩
        exact ⟨fun e he => (hall e he).1, fun e he => (hall e he).2, hnodup⟩
      · rintro ⟨hall, hne, hnodup⟩
        exact ⟨fun e he => ⟨hall e he, hne e he⟩, hnodup⟩
    · have hnone : kwinQueueComplete q q.generation d.sequence d.status d.body = none := by
        rw [← Option.not_isSome_iff_eq_none, Option.isSome_iff_exists]
        rintro ⟨r, hr⟩
        obtain ⟨i, job, hi, hj, hs, -⟩ := (kwinQueueComplete_eq_some hg).mp hr
        exact hd (isDispatched_iff.mpr ⟨i, job, hi, hj, hs⟩)
      simp [completeAll, hnone, hd]

/-- A done job stays as it is through the second pass. -/
theorem completeAll_done (hg : validGeneration q.generation) {i : ℕ} {job : KwinJob}
    (hi : q.jobs[i]? = some job) (hs : job.state = .done) :
    (completeAll q ds).2.jobs[i]? = some job := by
  induction ds generalizing q with
  | nil => exact hi
  | cons d ds ih =>
    unfold completeAll
    split
    · exact hi
    · rename_i r hr
      obtain ⟨k, other, hk, ho, hd, rfl⟩ := (kwinQueueComplete_eq_some hg).mp hr
      apply ih (q := completeAt q k other d) hg
      rw [completeAt_jobs, List.getElem?_set_ne]
      · exact hi
      · rintro rfl
        rw [hi] at ho
        cases ho
        simp [hs] at hd

/-- A slot no line names is left alone. -/
theorem completeAll_unnamed (hg : validGeneration q.generation) {i : ℕ}
    (hi : ∀ d ∈ ds, slotOf q.jobs d.sequence ≠ some i) :
    (completeAll q ds).2.jobs[i]? = q.jobs[i]? := by
  induction ds generalizing q with
  | nil => rfl
  | cons d ds ih =>
    unfold completeAll
    split
    · rfl
    · rename_i r hr
      obtain ⟨k, other, hk, ho, hd, rfl⟩ := (kwinQueueComplete_eq_some hg).mp hr
      have hki : k ≠ i := by
        rintro rfl
        exact hi d (by simp) hk
      have hrec := ih (q := completeAt q k other d) hg (by
        intro e he
        rw [slotOf_completeAt ho hd]
        exact hi e (by simp [he]))
      rw [hrec, completeAt_jobs, List.getElem?_set_ne hki]

/-- Every line of a successful pass completes its own job. -/
theorem completeAll_named (hg : validGeneration q.generation) (hok : (completeAll q ds).1)
    (hd : d ∈ ds) :
    ∃ i job, slotOf q.jobs d.sequence = some i ∧ q.jobs[i]? = some job ∧
      job.state = .dispatched ∧ (completeAll q ds).2.jobs[i]? = some (completed job d) := by
  induction ds generalizing q with
  | nil => simp at hd
  | cons e es ih =>
    obtain ⟨hall, -⟩ := (completeAll_fst hg).mp hok
    obtain ⟨i, job, hi, hj, hs⟩ := isDispatched_iff.mp (hall e (by simp))
    have hc := (kwinQueueComplete_eq_some (d := e) hg).mpr ⟨i, job, hi, hj, hs, rfl⟩
    have hlt : i < q.jobs.length := (List.getElem?_eq_some_iff.mp hj).1
    simp only [completeAll, hc] at hok ⊢
    rcases List.mem_cons.mp hd with rfl | hmem
    · refine ⟨i, job, hi, hj, hs, completeAll_done (q := completeAt q i job d) hg ?_ rfl⟩
      simp [hlt]
    · obtain ⟨k, other, hk, ho, hdis, hout⟩ := ih (q := completeAt q i job e) hg hok hmem
      rw [slotOf_completeAt hj hs] at hk
      rw [completeAt_jobs] at ho
      have hik : i ≠ k := by
        rintro rfl
        simp [hlt] at ho
        subst ho
        simp [completed] at hdis
      rw [List.getElem?_set_ne hik] at ho
      exact ⟨k, other, hk, ho, hdis, hout⟩

end Completion

section Reachable

variable {q : KwinQueue}

/-- The scan returns a queued job of the lane from the slot it names. -/
theorem oldestQueued_eq_some {lane : KwinLane} {jobs : List KwinJob} {i k : ℕ}
    {oldest : Option (ℕ × KwinJob)} {job : KwinJob}
    (h : oldestQueued lane i oldest jobs = some (k, job)) :
    oldest = some (k, job) ∨
      (i ≤ k ∧ jobs[k - i]? = some job ∧ job.state = .queued ∧ job.lane = lane) := by
  induction jobs generalizing i oldest with
  | nil => exact Or.inl h
  | cons head jobs ih =>
    have hlater : ∀ {o}, oldestQueued lane (i + 1) o jobs = some (k, job) → o = some (k, job) ∨
        (i ≤ k ∧ (head :: jobs)[k - i]? = some job ∧ job.state = .queued ∧ job.lane = lane) := by
      intro o ho
      rcases ih ho with hh | ⟨hk, hj, hs⟩
      · exact Or.inl hh
      · refine Or.inr ⟨by omega, ?_, hs⟩
        rw [show k - i = k - (i + 1) + 1 by omega, List.getElem?_cons_succ]
        exact hj
    unfold oldestQueued at h
    split_ifs at h with hskip
    · exact hlater h
    · obtain ⟨hq, hl⟩ := not_or.mp hskip
      have hhere : (i, head) = (k, job) →
          i ≤ k ∧ (head :: jobs)[k - i]? = some job ∧ job.state = .queued ∧ job.lane = lane := by
        rintro ⟨⟩
        exact ⟨le_rfl, by simp, not_not.mp hq, not_not.mp hl⟩
      have hnew : oldestQueued lane (i + 1) (some (i, head)) jobs = some (k, job) →
          i ≤ k ∧ (head :: jobs)[k - i]? = some job ∧ job.state = .queued ∧ job.lane = lane :=
        fun hn => (hlater hn).elim (fun he => hhere (Option.some.inj he)) id
      split at h
      · exact Or.inr (hnew h)
      · split_ifs at h
        · exact Or.inr (hnew h)
        · exact hlater h

/-- No call other than a completion puts a reply into a job. -/
def Unanswered (jobs : List KwinJob) : Prop := ∀ job ∈ jobs, job.state ≠ .done → job.reply = []

theorem Unanswered.set {jobs : List KwinJob} (h : Unanswered jobs) (i : ℕ) {job : KwinJob}
    (hjob : job.state ≠ .done → job.reply = []) : Unanswered (jobs.set i job) := by
  intro other hmem hs
  rcases List.mem_or_eq_of_mem_set hmem with hmem | rfl
  · exact h other hmem hs
  · exact hjob hs

theorem takeJobs_unanswered {lane : KwinLane} (limit : ℕ) {jobs : List KwinJob}
    (h : Unanswered jobs) : Unanswered (takeJobs lane limit jobs).2 := by
  induction limit generalizing jobs with
  | zero => exact h
  | succ limit ih =>
    unfold takeJobs
    split
    · exact h
    · rename_i i job hold
      rcases oldestQueued_eq_some hold with hn | ⟨-, hj, hs, -⟩
      · cases hn
      · have hmem : job ∈ jobs := List.mem_of_getElem? hj
        exact ih (h.set i fun _ => h job hmem (by simp [hs]))

theorem dispatchJobs_sound (h : q.Sound) (lane : KwinLane) (nowMs : ℕ) :
    (dispatchJobs q lane nowMs).2.Sound :=
  ⟨h.generation, takeJobs_unanswered _ h.reply⟩

theorem setParked_sound (h : q.Sound) (lane : KwinLane) (parked : Bool) :
    (setParked q lane parked).Sound :=
  ⟨h.generation, h.reply⟩

theorem kwinQueueComplete_sound (h : q.Sound) {q' : KwinQueue} {generation sequence : Bytes}
    {status : BitVec 32} {reply : Bytes}
    (hc : kwinQueueComplete q generation sequence status reply = some q') : q'.Sound := by
  unfold kwinQueueComplete at hc
  split at hc
  · cases hc
  · simp only [Option.bind_eq_bind, Option.bind_eq_some_iff] at hc
    obtain ⟨i, -, job, -, hc⟩ := hc
    split at hc
    · cases hc
    · cases hc
      exact ⟨h.generation, Unanswered.set h.reply i (by simp)⟩

theorem completeAll_sound (h : q.Sound) (ds : List KwinDone) : (completeAll q ds).2.Sound := by
  induction ds generalizing q with
  | nil => exact h
  | cons d ds ih =>
    unfold completeAll
    split
    · exact h
    · rename_i r hr
      exact ih (kwinQueueComplete_sound h hr)

theorem kwinQueueReport_sound (h : q.Sound) (envelope : Bytes) (reply : Buffer) :
    (kwinQueueReport q envelope reply).2.1.Sound := by
  unfold kwinQueueReport
  split
  · exact h
  · rename_i report _
    have hc := completeAll_sound h report.done
    split_ifs
    · exact h
    · exact h
    · split
      · rename_i hok; rw [hok] at hc; exact hc
      · rename_i hok
        rw [hok] at hc
        split <;> exact hc

theorem kwinQueuePoll_sound (h : q.Sound) (envelope : Bytes) (nowMs : ℕ) (reply : Buffer) :
    (kwinQueuePoll q envelope nowMs reply).2.Sound := by
  unfold kwinQueuePoll
  split
  · exact h
  · rename_i poll _
    have hd := dispatchJobs_sound h poll.lane nowMs
    split_ifs
    · exact h
    · dsimp only
      split_ifs
      · exact setParked_sound hd _ _
      · split <;> exact setParked_sound hd _ _

theorem kwinQueueCall_sound (h : q.Sound) (call : KwinQueueCall) : (kwinQueueCall q call).Sound := by
  cases call with
  | submit opcode body nowMs =>
    simp only [kwinQueueCall, kwinQueueSubmit]
    split_ifs
    · exact h
    · split
      · exact h
      · exact ⟨h.generation, Unanswered.set h.reply _ fun _ => rfl⟩
  | take lane capacity => exact ⟨h.generation, takeJobs_unanswered _ h.reply⟩
  | poll envelope nowMs reply => exact kwinQueuePoll_sound h envelope nowMs reply
  | pollParked lane nowMs reply =>
    simp only [kwinQueueCall, kwinQueuePollParked]
    split
    · exact h
    · exact dispatchJobs_sound (setParked_sound h lane false) lane nowMs
  | report envelope reply => exact kwinQueueReport_sound h envelope reply
  | complete generation sequence status reply =>
    simp only [kwinQueueCall]
    cases hc : kwinQueueComplete q generation sequence status reply with
    | none => exact h
    | some q' => exact kwinQueueComplete_sound h hc
  | expire nowMs =>
    refine ⟨h.generation, ?_⟩
    intro job hmem hs
    obtain ⟨other, ho, rfl⟩ := List.mem_map.mp hmem
    split_ifs at hs ⊢
    · exact h.reply other ho hs
    · rfl
  | release sequence =>
    simp only [kwinQueueCall, kwinQueueRelease]
    split
    · exact h
    · exact ⟨h.generation, Unanswered.set h.reply _ fun _ => rfl⟩

theorem KwinQueue.Reachable.sound (h : q.Reachable) : q.Sound := by
  obtain ⟨generation, start, calls, hinit, hrun⟩ := h
  refine Transition.Run.invariant ?_ hrun ?_
  · rintro s l t hs rfl
    exact kwinQueueCall_sound hs l
  unfold kwinQueueInit at hinit
  split_ifs at hinit with hg
  cases hinit
  refine ⟨hg, ?_⟩
  intro job hmem _
  rw [(List.mem_replicate.mp hmem).2]
  rfl

end Reachable

/-- The jobs a report names are completed with their own lines, and no other slot moves. -/
def Applied (q q' : KwinQueue) (ds : List KwinDone) : Prop :=
  (∀ d ∈ ds, ∃ i job, slotOf q.jobs d.sequence = some i ∧ q.jobs[i]? = some job ∧
    job.state = .dispatched ∧
    q'.jobs[i]? = some { job with state := .done, status := d.status, reply := d.body }) ∧
  ∀ i, (∀ d ∈ ds, slotOf q.jobs d.sequence ≠ some i) → q'.jobs[i]? = q.jobs[i]?

/-- A refused report changes no job; an accepted one completes exactly the jobs it names. -/
def ReportAtomic (q : KwinQueue) (envelope : Bytes) (reply : Buffer) : Prop :=
  ((kwinQueueReport q envelope reply).1 = false →
    (kwinQueueReport q envelope reply).2.1.jobs = q.jobs) ∧
  ((kwinQueueReport q envelope reply).1 = true →
    ∃ report, kwinParseReport envelope = some report ∧ report.generation = q.generation ∧
      Applied q (kwinQueueReport q envelope reply).2.1 report.done)

/-- A well-formed report of the queue's own generation that names only dispatched jobs and
names one of them twice. -/
def RepeatsDispatched (q : KwinQueue) (envelope : Bytes) : Prop :=
  ∃ report, kwinParseReport envelope = some report ∧ report.generation = q.generation ∧
    (∀ d ∈ report.done, isDispatched q d) ∧ ¬ (report.done.map KwinDone.sequence).Nodup

theorem applied_of_nodup {q : KwinQueue} (h : q.Sound) {ds : List KwinDone}
    (hok : (completeAll q ds).1) : Applied q (completeAll q ds).2 ds := by
  refine ⟨?_, fun i hi => completeAll_unnamed h.generation hi⟩
  intro d hd
  obtain ⟨i, job, hi, hj, hs, hout⟩ := completeAll_named h.generation hok hd
  refine ⟨i, job, hi, hj, hs, ?_⟩
  have hr : job.reply = [] := h.reply job (List.mem_of_getElem? hj) (by simp [hs])
  have hbody : (if d.body = [] then job.reply else d.body) = d.body := by
    split_ifs with hb
    · rw [hr, hb]
    · rfl
  rw [hout, completed, hbody]

/-- Repeating a dispatched sequence leaves its job completed by a report that was refused. -/
theorem completeAll_changes {q : KwinQueue} (h : q.Sound) {ds : List KwinDone} (hne : ds ≠ [])
    (hall : ∀ d ∈ ds, isDispatched q d) : (completeAll q ds).2.jobs ≠ q.jobs := by
  cases ds with
  | nil => exact absurd rfl hne
  | cons d ds =>
    obtain ⟨i, job, hi, hj, hs⟩ := isDispatched_iff.mp (hall d (by simp))
    have hc := (kwinQueueComplete_eq_some (d := d) h.generation).mpr ⟨i, job, hi, hj, hs, rfl⟩
    have hlt : i < q.jobs.length := (List.getElem?_eq_some_iff.mp hj).1
    have hout : (completeAll q (d :: ds)).2.jobs[i]? = some (completed job d) := by
      simp only [completeAll, hc]
      exact completeAll_done (q := completeAt q i job d) h.generation (by simp [hlt]) rfl
    intro heq
    rw [heq, hj] at hout
    have := congrArg KwinJob.state (Option.some.inj hout)
    simp [completed, hs] at this

/-- A report is atomic on every reachable queue exactly when it does not repeat a
dispatched sequence. -/
theorem kwinQueueReport_atomic_iff (q : KwinQueue) (hq : q.Reachable) (envelope : Bytes)
    (reply : Buffer) (hroom : reply.data.length + reportAckLength ≤ reply.maximum) :
    ReportAtomic q envelope reply ↔ ¬ RepeatsDispatched q envelope := by
  have h := hq.sound
  unfold ReportAtomic RepeatsDispatched kwinQueueReport
  cases hparse : kwinParseReport envelope with
  | none => simp
  | some report =>
    by_cases hgen : report.generation = q.generation
    swap
    · simp [hgen]
    by_cases hall : report.done.all (isDispatched q)
    swap
    · have hall' : ¬ ∀ d ∈ report.done, isDispatched q d = true := by simpa using hall
      simp [hgen, hall, hall']
    have hall' : ∀ d ∈ report.done, isDispatched q d = true := by simpa using hall
    have hfst : (completeAll q report.done).1 ↔ _ := completeAll_fst h.generation
    have hsound := completeAll_sound h report.done
    have happ : (completeAll q report.done).1 → _ := applied_of_nodup h
    have hchg : report.done ≠ [] → _ := completeAll_changes h
    by_cases hnodup : (report.done.map KwinDone.sequence).Nodup
    · have hok : (completeAll q report.done).1 = true := hfst.mpr ⟨hall', hnodup⟩
      obtain ⟨out, hout⟩ := Option.isSome_iff_exists.mp
        (kwinFormatReportAck_isSome _ reply hsound.generation hroom)
      have hpair : completeAll q report.done = (true, (completeAll q report.done).2) := by
        rw [← hok]
      simp only [hgen, ne_eq, not_true_eq_false, if_false, hall, Bool.not_true, Bool.false_eq_true]
      rw [hpair]
      simp [hout, hgen, hnodup, happ hok]
    · have hok : (completeAll q report.done).1 = false := by
        rw [← Bool.not_eq_true, hfst]
        exact fun hh => hnodup hh.2
      have hne : report.done ≠ [] := by
        rintro heq
        simp [heq] at hnodup
      have hpair : completeAll q report.done = (false, (completeAll q report.done).2) := by
        rw [← hok]
      simp only [hgen, ne_eq, not_true_eq_false, if_false, hall, Bool.not_true, Bool.false_eq_true]
      rw [hpair]
      simp only [forall_const, hchg hne hall', false_and, false_iff, not_not]
      exact ⟨report, rfl, hgen, hall', hnodup⟩

/-- A queue with one job handed to the script. -/
def oneDispatched : KwinQueue :=
  kwinQueueCall (kwinQueueCall ⟨List.replicate kwinMaxJobs freeSlot, List.replicate kwinGenerationHex 48,
    1, 1, fun _ => false⟩ (.submit Op.windowActive [] 0)) (.take .fast 8)

/-- A report for that queue with the given number of lines for its only job. -/
def reportOf (lines : ℕ) : Bytes :=
  ascii "KSK1\ngen " ++ List.replicate kwinGenerationHex 48 ++
    ascii "\n" ++
    (List.replicate lines (ascii "done " ++ formatSequence 1 ++
      ascii " 0 0\n")).flatten ++ ascii "end\n"

theorem oneDispatched_reachable : oneDispatched.Reachable :=
  ⟨List.replicate kwinGenerationHex 48, _, _, rfl, .cons rfl (.single rfl)⟩

/-- One job reported twice in a single report is completed, and the report is refused. -/
theorem reportOf_two_not_atomic :
    oneDispatched.Reachable ∧ ¬ ReportAtomic oneDispatched (reportOf 2) (bufferInit 65536) := by
  refine ⟨oneDispatched_reachable, fun h => ?_⟩
  have hrefused : (kwinQueueReport oneDispatched (reportOf 2) (bufferInit 65536)).1 = false := by
    decide +kernel
  have hchanged : (kwinQueueReport oneDispatched (reportOf 2) (bufferInit 65536)).2.1.jobs ≠
      oneDispatched.jobs := by decide +kernel
  exact hchanged (h.1 hrefused)

theorem reportOf_one_atomic : ReportAtomic oneDispatched (reportOf 1) (bufferInit 65536) := by
  refine (kwinQueueReport_atomic_iff _ oneDispatched_reachable _ _ (by decide)).mpr ?_
  rintro ⟨report, hparse, -, -, hrepeat⟩
  have hall : (kwinParseReport (reportOf 1)).all
      (fun r => decide (r.done.map KwinDone.sequence).Nodup) = true := by decide +kernel
  rw [hparse] at hall
  exact hrepeat (by simpa using hall)

end KeysharpDesktop
