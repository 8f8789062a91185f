import KeysharpDesktop.Kwin.Conversation
import KeysharpDesktop.Kwin.Sizes

/-! What becomes of a lane with the report of a batch: when the daemon accepts it, when the lane goes on, and
which jobs are completed. -/
namespace KeysharpDesktop.KwinScript

open JsText (Text)
open scoped List

section Apart

variable {generation : Bytes} {queue : KwinQueue} {s : Channel} {l : ScriptLane}

theorem ofBytes_injective : Function.Injective JsText.ofBytes :=
  List.map_injective_iff.mpr fun _ _ h => toUInt16_injective h

/-- What the daemon's ledger says of the jobs that it has told of. -/
theorem Channel.Kept.ledger (h : s.Kept queue) (hinit : kwinQueueInit generation = some queue)
    (hfew : (queuedOf s.outputs).length < 2 ^ 64) :
    s.bus.queue.Numbered (queuedOf s.outputs).length ∧
      ((toldOf queue.generation s.outputs).map ScriptJob.sequence).Nodup := by
  obtain ⟨es, hmoves, hentered, -, hhanded⟩ := h.hands.moves
  have hcount : (enteredAll ([] ++ es)).length < 2 ^ 64 := by
    rw [List.nil_append, hentered]
    exact hfew
  have hledger := (kwinQueueInit_ledger hinit).moves hmoves hcount
  rw [List.nil_append] at hledger
  have hnumbered := hledger.numbered
  rw [hentered] at hnumbered
  refine ⟨hnumbered, ?_⟩
  rw [← hhanded]
  exact hledger.handed.nodup.map ofBytes_injective

/-- No job is run twice. -/
theorem Channel.Kept.once (h : s.Kept queue) (hinit : kwinQueueInit generation = some queue)
    (hfew : (queuedOf s.outputs).length < 2 ^ 64) : (s.executions.map fun e => e.head.1).Nodup := by
  have hnodup := (h.ledger hinit hfew).2
  have htaken : (s.executions.map Execution.job : Multiset ScriptJob) ≤ toldOf queue.generation s.outputs :=
    le_trans (Multiset.le_add_right _ _) h.taken
  have hsequences := Multiset.map_le_map htaken (f := ScriptJob.sequence)
  rw [Multiset.map_coe, Multiset.map_coe, List.map_map] at hsequences
  have hrun := Multiset.nodup_of_le hsequences (Multiset.coe_nodup.mpr hnodup)
  refine List.Nodup.of_map JsText.ofBytes ?_
  rw [List.map_map]
  have hsame : s.executions.map (JsText.ofBytes ∘ fun e => e.head.1) =
      s.executions.map (ScriptJob.sequence ∘ Execution.job) :=
    List.map_congr_left fun e he => (h.spelled e he).ofBytes_head
  rw [hsame]
  exact Multiset.coe_nodup.mp hrun

/-- No result that is on its way has been reported before. -/
theorem Channel.Sound.unreported (h : s.Sound queue) (hinit : kwinQueueInit generation = some queue)
    (hfew : (queuedOf s.outputs).length < 2 ^ 64) {method : Text} {envelope : Text}
    (hsent : s.script.phase (.lane l) = .sent .report method envelope) :
    (s.lines.map KwinDone.sequence ++ (s.batch l).map fun e => e.head.1).Nodup := by
  have hreported := h.reported
  rw [add_lanes (fun l => ((outstanding (s.batch l) (s.script.phase (.lane l))).map Execution.head :
    Multiset (Bytes × BitVec 32))) l, hsent] at hreported
  have hpart : (s.lines.map headOf : Multiset (Bytes × BitVec 32)) + ((s.batch l).map Execution.head : List _) ≤
      (s.executions.map Execution.head : List _) :=
    le_trans (add_le_add le_rfl (Multiset.le_add_right _ _)) hreported
  have hsequences := Multiset.map_le_map hpart (f := Prod.fst)
  rw [Multiset.map_add, Multiset.map_coe, Multiset.map_coe, Multiset.map_coe, List.map_map, List.map_map, List.map_map,
    Multiset.coe_add] at hsequences
  exact Multiset.coe_nodup.mp (Multiset.nodup_of_le hsequences (Multiset.coe_nodup.mpr (h.kept.once hinit hfew)))

/-- A job that is out at the script is found under its sequence. -/
theorem isDispatched_of_mem {q : KwinQueue} {n : ℕ} (hnumbered : q.Numbered n) (hn : n < 2 ^ 64) {job : KwinJob}
    (hjob : job ∈ q.jobs) (hstate : job.state = .dispatched) {d : KwinDone} (hd : d.sequence = job.sequence) :
    isDispatched q d := by
  obtain ⟨i, hi⟩ := List.mem_iff_getElem?.mp hjob
  have hlive : job.live := by
    rw [KwinJob.live, hstate]
    decide
  have hslot : ∃ j, slotOf q.jobs d.sequence = some j := by
    rw [← Option.isSome_iff_exists, slotOf, List.findIdx?_isSome, List.any_eq_true]
    refine ⟨job, hjob, ?_⟩
    rw [decide_eq_true_eq, hstate, hd]
    exact ⟨by decide, rfl⟩
  obtain ⟨j, hj⟩ := hslot
  obtain ⟨other, hother, hused, hseq⟩ := slotOf_eq_some hj
  have holive : other.live := by
    rw [KwinJob.live]
    exact decide_eq_true hused
  have hij := hnumbered.sequence_injective hn hother hi holive hlive (hseq.trans hd)
  rw [hij] at hother hj
  rw [Option.some.inj (hother.symm.trans hi)] at hother
  exact isDispatched_iff.mpr ⟨i, job, hj, hother, hstate⟩

/-- Every job of a batch that is on its way is still out at the script, whatever the other lane has done. -/
theorem Channel.Sound.batch_dispatched (h : s.Sound queue) (hinit : kwinQueueInit generation = some queue)
    (hfew : (queuedOf s.outputs).length < 2 ^ 64) {method : Text} {envelope : Text}
    (hsent : s.script.phase (.lane l) = .sent .report method envelope) :
    (∀ e ∈ s.batch l, isDispatched s.bus.queue e.done) ∧ (((s.batch l).map Execution.done).map KwinDone.sequence).Nodup := by
  have hapart := h.unreported hinit hfew hsent
  obtain ⟨hnumbered, -⟩ := h.kept.ledger hinit hfew
  rw [List.nodup_append] at hapart
  obtain ⟨-, hbatch, hlines⟩ := hapart
  constructor
  · intro e he
    have hexecuted := h.kept.batched l e he
    have hspelled := h.kept.spelled e hexecuted
    have htold : e.job ∈ toldOf queue.generation s.outputs := by
      have htaken : (s.executions.map Execution.job : Multiset ScriptJob) ≤ toldOf queue.generation s.outputs :=
        le_trans (Multiset.le_add_right _ _) h.kept.taken
      exact Multiset.mem_of_le htaken (List.mem_map_of_mem hexecuted)
    rcases h.kept.hands.told e.job htold with ⟨job, hjob, hstate, hseq⟩ | ⟨d, hd, hseq⟩
    · refine isDispatched_of_mem hnumbered hfew hjob hstate (ofBytes_injective ?_)
      rw [hseq]
      exact hspelled.ofBytes_head
    · have hsame : d.sequence = e.head.1 := ofBytes_injective (hseq.trans hspelled.ofBytes_head.symm)
      exact absurd hsame (hlines _ (List.mem_map_of_mem hd) _ (List.mem_map_of_mem he))
  · rw [List.map_map]
    exact hbatch

end Apart

section Acceptance

variable {generation envelope : Bytes} {q : KwinQueue} {ds : List KwinDone} {executions : List Execution}

/-- A report of clean bodies is read back unless they are too long together. -/
theorem kwinParseReport_clean (hg : validGeneration generation) (hsome : executions ≠ [])
    (hcount : executions.length ≤ kwinMaxDonePerReport) (hspelled : ∀ e ∈ executions, e.Spelled)
    (hclean : ∀ e ∈ executions, JsText.Clean e.body) :
    kwinParseReport (cString (JsText.toUtf8 (buildReport (JsText.ofBytes generation) executions))) =
      if maxTextBytes < (executions.map fun e => JsText.byteSize e.body).sum then none
      else some ⟨generation, executions.map Execution.done⟩ := by
  have hwell : ∀ e ∈ executions, JsText.WellFormed e.body := fun e he => (hclean e he).wellFormed
  have hlines : ∀ l ∈ executions.map Execution.line, l.Readable := by
    intro l hl
    obtain ⟨e, he, rfl⟩ := List.mem_map.mp hl
    exact (hspelled e he).readable
  have hnonzero : (0 : UInt8) ∉ JsText.toUtf8 (executions.flatMap Execution.body) := by
    rw [toUtf8_bodies hwell, List.mem_flatMap]
    rintro ⟨e, he, hzero⟩
    exact (hclean e he).toUtf8_nonzero hzero
  have hbodies : cString (JsText.toUtf8 (executions.flatMap Execution.body)) =
      JsText.toUtf8 (executions.flatMap Execution.body) := by
    have happend := cString_append hnonzero []
    rwa [List.append_nil, show cString [] = [] from rfl, List.append_nil] at happend
  have hlength : (JsText.toUtf8 (executions.flatMap Execution.body)).length =
      (executions.map fun e => JsText.byteSize e.body).sum := by
    rw [toUtf8_bodies hwell, List.length_flatMap]
    exact congrArg List.sum (List.map_congr_left fun e he => JsText.length_toUtf8 (hwell e he))
  have hne : executions.map Execution.line ≠ [] := by
    rw [Ne, List.map_eq_nil_iff]
    exact hsome
  rw [toUtf8_buildReport hg hspelled, cString_reportBytes hg hlines, hbodies,
    kwinParseReport_eq_some hg hlines (by rwa [List.length_map]) hne (declaredBytes_lines hwell), hlength,
    attachBodies_lines hwell]

theorem completedLines_of_completeAll (h : (completeAll q ds).1 = true) : completedLines q ds = ds := by
  induction ds generalizing q with
  | nil => rfl
  | cons d ds ih =>
    unfold completeAll at h
    unfold completedLines
    cases hcomplete : kwinQueueComplete q q.generation d.sequence d.status d.body with
    | none =>
      rw [hcomplete] at h
      cases h
    | some r =>
      rw [hcomplete] at h
      dsimp only at h ⊢
      rw [ih h]

/-- A report that is read, of jobs that are all out and none twice, is accepted and completes all of them. -/
theorem kwinQueueReport_accepts (hg : validGeneration q.generation)
    (hparse : kwinParseReport envelope = some ⟨q.generation, ds⟩) (hall : ∀ d ∈ ds, isDispatched q d)
    (hnodup : (ds.map KwinDone.sequence).Nodup) :
    (kwinQueueReport q envelope (bufferInit replyCapacity)).1 = true ∧
      (reportedLines q envelope).map Prod.snd = ds := by
  have hcomplete := (completeAll_fst hg).mpr ⟨hall, hnodup⟩
  have hnot : ¬ (!ds.all (isDispatched q)) = true := by
    rw [Bool.not_eq_true', Bool.not_eq_false, List.all_eq_true]
    exact hall
  have hlines : (reportedLines q envelope).map Prod.snd = ds := by
    rw [reportedLines, hparse]
    dsimp only
    rw [if_neg (not_not.mpr rfl), if_neg hnot, completedLines_of_completeAll hcomplete, List.map_map]
    exact List.map_id ds
  refine ⟨?_, hlines⟩
  have hgeneration : (completeAll q ds).2.generation = q.generation := (completeAll_moves q ds).generation
  have hroom : (bufferInit replyCapacity).data.length + reportAckLength ≤ (bufferInit replyCapacity).maximum := by
    decide
  have hack := kwinFormatReportAck_isSome (completeAll q ds).2.generation (bufferInit replyCapacity)
    (by rw [hgeneration]; exact hg) hroom
  unfold kwinQueueReport
  rw [hparse]
  dsimp only
  rw [if_neg (not_not.mpr rfl), if_neg hnot]
  generalize completeAll q ds = after at hcomplete hack
  obtain ⟨ok, r⟩ := after
  dsimp only at hcomplete hack ⊢
  subst hcomplete
  dsimp only
  obtain ⟨reply, hreply⟩ := Option.isSome_iff_exists.mp hack
  rw [hreply]

end Acceptance

section Lane

variable {σ : Type} {c : Compositor σ} {queue : KwinQueue} {s : Channel} {l : ScriptLane} {generation envelope : Text}

theorem findSome?_answerTo {i : Invocation} {out : List BusOutput} (h : completedOf out = []) :
    out.findSome? (answerTo i) = none := by
  rw [List.findSome?_eq_none_iff]
  intro o ho
  have hnot : i ∉ completedOf out := by
    rw [h]
    exact List.not_mem_nil
  by_contra hanswer
  obtain ⟨answer, hanswer⟩ := Option.ne_none_iff_exists'.mp hanswer
  apply hnot
  rw [completedOf, List.mem_filterMap]
  rcases answerTo_some hanswer with ⟨text, -, rfl⟩ | ⟨-, text, rfl⟩
  · exact ⟨_, ho, rfl⟩
  · exact ⟨_, ho, rfl⟩

theorem cString_generation {g : Bytes} (hg : validGeneration g) : cString (JsText.toUtf8 (JsText.ofBytes g)) = g := by
  have hhex := (validGeneration_iff.mp hg).2
  rw [JsText.toUtf8_ofBytes (isAscii_of_hex hhex)]
  exact cString_eq_self fun b hb => isHexDigit_plain (hhex b hb)

theorem callAllowed_own {bus : KwinBus} (hg : validGeneration bus.queue.generation) (hnamed : uniqueNameValid bus.peer) :
    callAllowed bus bus.peer bus.queue.generation .report = true := by
  have hself : (bus.peer == bus.peer) = true := beq_self_eq_true _
  have hgen : (bus.queue.generation == bus.queue.generation) = true := beq_self_eq_true _
  simp only [callAllowed, kwinPeerAllowed, hself, hgen, hg, hnamed, Bool.and_self]

/-- What arrives of a report. -/
def arriving (envelope : Text) : Bytes := cString (JsText.toUtf8 envelope)

/-- A report that is accepted is acknowledged; one that is refused comes back as an error. -/
theorem Channel.Sound.receive_report (h : s.Sound queue)
    (hsent : s.script.phase (.lane l) = .sent .report generation envelope) (nowMs : ℕ) (written : ℕ → Bool) :
    ((kwinQueueReport s.bus.queue (arriving envelope) (bufferInit replyCapacity)).1 = true →
      ∃ text, (s.receive (.lane l) nowMs written).script.phase (.lane l) = .back .report text) ∧
    ((kwinQueueReport s.bus.queue (arriving envelope) (bufferInit replyCapacity)).1 = false →
      (s.receive (.lane l) nowMs written).script.phase (.lane l) = .dropped) ∧
    (s.receive (.lane l) nowMs written).lines =
      s.lines ++ (reportedLines s.bus.queue (arriving envelope)).map Prod.snd := by
  have hg := h.kept.sendable.generation
  have hfits := h.lanes l
  rw [hsent, ← h.kept.generation] at hfits
  obtain ⟨hgeneration, hnamed⟩ : generation = JsText.ofBytes s.bus.queue.generation ∧ uniqueNameValid s.bus.peer := by
    cases hfits with
    | reporting hnamed _ => exact ⟨rfl, hnamed⟩
  have hallowed := callAllowed_own hg hnamed
  have hphase : (s.receive (.lane l) nowMs written).script.phase (.lane l) =
      (BusPhase.held .report s.bus.invocations).hear (handleCall s.bus s.bus.peer s.bus.queue.generation .report
        (arriving envelope) nowMs written).2 := by
    rw [receive_eq hsent, hgeneration, cString_generation hg]
    simp only [Channel.dispatch, hear_phase, Channel.hold, set_phase_self]
    rfl
  have hlines : (s.receive (.lane l) nowMs written).lines =
      s.lines ++ methodLines s.bus s.bus.peer s.bus.queue.generation .report (arriving envelope) := by
    rw [receive_eq hsent, hgeneration, cString_generation hg]
    rfl
  rw [hphase, hlines]
  unfold handleCall methodLines
  dsimp only
  rw [hallowed, Bool.not_true, if_neg Bool.false_ne_true, if_neg Bool.false_ne_true]
  rcases kwinQueueReport s.bus.queue (arriving envelope) (bufferInit replyCapacity) with ⟨ok, q, reply⟩
  dsimp only
  refine ⟨?_, ?_, rfl⟩
  · intro hok
    rw [if_pos hok]
    have hdrain : completedOf (relayDrain (s.bus.counted q) written).2 = [] := by
      unfold relayDrain
      exact (relayDrainFrom_parks written kwinMaxJobs 0 (s.bus.counted q)).2.2.2.2
    have hcounted : ({ s.bus with queue := q, invocations := s.bus.invocations + 1 } : KwinBus) = s.bus.counted q := rfl
    rw [hcounted]
    generalize relayDrain (s.bus.counted q) written = drained at hdrain
    have hfind : (drained.2 ++ busReply s.bus.invocations (some reply)).findSome? (answerTo s.bus.invocations) =
        some (some (cString reply.data)) := by
      rw [List.findSome?_append, findSome?_answerTo hdrain]
      simp [busReply, answerTo]
    refine ⟨cString reply.data, ?_⟩
    simp only [BusPhase.hear, hfind]
  · intro hok
    rw [if_neg (ne_true_of_eq_false hok)]
    simp [BusPhase.hear, busReply, answerTo]

theorem Channel.step_sent (h : s.Sound queue) {method : BusMethod}
    (hsent : s.script.phase (.lane l) = .sent method generation envelope) {step : ChannelStep σ}
    (hstep : ∀ nowMs written, step ≠ .receive (.lane l) nowMs written) :
    (s.step c step).script.phase (.lane l) = .sent method generation envelope ∧
      (s.step c step).batch l = s.batch l := by
  have hdispatch : ∀ call, (s.dispatch call).script.phase (.lane l) = .sent method generation envelope ∧
      (s.dispatch call).batch l = s.batch l := by
    intro call
    simp only [Channel.dispatch, hear_phase, hsent]
    exact ⟨rfl, trivial⟩
  have hgreeting : s.script.phase .greeting = .off := by
    by_contra hnot
    have hoff := h.kept.early hnot l
    rw [hsent] at hoff
    cases hoff
  cases step with
  | relay input nowMs written => exact hdispatch _
  | idleFast nowMs => exact hdispatch _
  | idleSlow nowMs => exact hdispatch _
  | stranger sender generation' method' envelope' nowMs written =>
    unfold Channel.step
    dsimp only
    split_ifs
    · exact ⟨hsent, rfl⟩
    · exact hdispatch _
  | receive caller nowMs written =>
    have hne : ScriptCaller.lane l ≠ caller := fun heq => hstep nowMs written (by rw [heq])
    show (s.receive caller nowMs written).script.phase (.lane l) = _ ∧ (s.receive caller nowMs written).batch l = _
    cases hphase : s.script.phase caller with
    | sent method' generation' envelope' =>
      rw [receive_eq hphase]
      simp only [Channel.dispatch, Channel.hold, hear_phase, set_phase_of_ne hne, hsent]
      exact ⟨rfl, trivial⟩
    | _ =>
      rw [Channel.receive, hphase]
      exact ⟨hsent, rfl⟩
  | callback caller states =>
    show (s.callback c caller states).script.phase (.lane l) = _ ∧ (s.callback c caller states).batch l = _
    cases caller with
    | greeting =>
      simp only [Channel.callback, hgreeting]
      exact ⟨hsent, trivial⟩
    | lane l' =>
      by_cases hl : l = l'
      · rw [← hl]
        simp only [Channel.callback, hsent]
        exact ⟨trivial, trivial⟩
      have hne : ScriptCaller.lane l ≠ .lane l' := fun heq => hl (ScriptCaller.lane.inj heq)
      cases hphase : s.script.phase (.lane l') with
      | back method' text =>
        cases method' with
        | poll =>
          obtain ⟨-, hrunning, hgen, jobs, -, -, hparse⟩ := h.told hphase
          rw [← hgen] at hparse
          simp only [Channel.callback, hphase]
          rw [polled_eq hrunning hparse, turn_phase_of_ne hne]
          exact ⟨hsent, Function.update_of_ne hl _ _⟩
        | _ =>
          obtain ⟨hrunning, -⟩ := h.kept.late l' (by simp [hphase])
          simp only [Channel.callback, hphase, pollLane_running _ _ _ hrunning, set_phase_of_ne hne]
          exact ⟨hsent, trivial⟩
      | _ =>
        simp only [Channel.callback, hphase]
        exact ⟨hsent, trivial⟩

/-- A call that has not reached the daemon is not lost. -/
theorem Channel.run_sent (h : s.Sound queue) {method : BusMethod}
    (hsent : s.script.phase (.lane l) = .sent method generation envelope) {steps : List (ChannelStep σ)}
    (hsteps : ∀ step ∈ steps, ∀ nowMs written, step ≠ .receive (.lane l) nowMs written) :
    (steps.foldl (Channel.step c) s).Sound queue ∧
      (steps.foldl (Channel.step c) s).script.phase (.lane l) = .sent method generation envelope ∧
      (steps.foldl (Channel.step c) s).batch l = s.batch l := by
  induction steps generalizing s with
  | nil => exact ⟨h, hsent, rfl⟩
  | cons step steps ih =>
    obtain ⟨hphase, hbatch⟩ := Channel.step_sent (c := c) h hsent (hsteps step List.mem_cons_self)
    obtain ⟨hsound, hrest, hsame⟩ :=
      ih (h.step step) hphase fun step' hstep' => hsteps step' (List.mem_cons_of_mem step hstep')
    exact ⟨hsound, hrest, hsame.trans hbatch⟩

/-- The states that the daemon and the script can come to. -/
def Channel.Reachable (c : Compositor σ) (s : Channel) : Prop :=
  ∃ (generation : Bytes) (queue : KwinQueue) (peer : Bytes) (steps : List (ChannelStep σ)),
    kwinQueueInit generation = some queue ∧ s = steps.foldl (Channel.step c) (.start queue peer)

/-- The handles that a script gives out stay numbers. -/
theorem Channel.step_plain (h : s.script.handles.Plain) (step : ChannelStep σ) :
    (s.step c step).script.handles.Plain := by
  cases step with
  | stranger sender generation method envelope nowMs written =>
    unfold Channel.step
    dsimp only
    split_ifs
    · exact h
    · exact h
  | receive caller nowMs written =>
    show (s.receive caller nowMs written).script.handles.Plain
    unfold Channel.receive
    split
    · exact h
    · exact h
  | callback caller states =>
    show (s.callback c caller states).script.handles.Plain
    unfold Channel.callback
    have hpoll : ∀ (script : Script) l', script.handles.Plain → (script.pollLane l' 0).handles.Plain := by
      intro script l' hscript
      unfold Script.pollLane
      split_ifs
      · exact hscript
      · exact hscript
    split
    · show (s.script.greeted _).handles.Plain
      unfold Script.greeted
      dsimp only
      split
      · exact h
      · split_ifs
        · exact h
        · exact hpoll _ _ (hpoll _ _ h)
    · unfold Channel.polled
      split_ifs
      · exact h
      · split
        · exact h
        · dsimp only
          split_ifs
          · exact hpoll _ _ (executeAll_plain c h _)
          · exact executeAll_plain c h _
    · exact hpoll _ _ h
    · exact h
  | _ => exact h

theorem Channel.Reachable.sound (h : s.Reachable c) : ∃ generation queue, kwinQueueInit generation = some queue ∧
    s.Sound queue ∧ s.script.handles.Plain := by
  obtain ⟨generation, queue, peer, steps, hinit, rfl⟩ := h
  refine ⟨generation, queue, hinit, Channel.run_sound hinit peer steps, ?_⟩
  have hrun := Transition.Run.foldl (Channel.step c) (.start queue peer) steps
  refine hrun.invariant (I := fun s => s.script.handles.Plain) ?_ ⟨nofun, nofun⟩
  intro s step t hs hstep
  rw [← hstep]
  exact Channel.step_plain hs step

end Lane

section Survival

variable {σ : Type} {c : Compositor σ} {s : Channel} {l : ScriptLane} {text : Bytes} {jobs : List ScriptJob}
  {between : List (ChannelStep σ)}

/-- A lane that comes through with its batch: the daemon accepts the report that is on its way, every job is
completed with what came of it, and the callback polls again. -/
structure Channel.Survives (c : Compositor σ) (s : Channel) (l : ScriptLane) (jobs : List ScriptJob) (nowMs : ℕ)
    (written : ℕ → Bool) (states : ℕ → σ) : Prop where
  accepted : ∃ generation envelope, s.script.phase (.lane l) = .sent .report generation envelope ∧
    (kwinQueueReport s.bus.queue (arriving envelope) (bufferInit replyCapacity)).1 = true
  completed : ∀ job ∈ jobs, ∃ e ∈ s.batch l, e.job = job ∧
    ∃ d ∈ (s.receive (.lane l) nowMs written).lines, headOf d = e.head
  polls : ∃ envelope, ((s.receive (.lane l) nowMs written).callback c (.lane l) states).script.phase (.lane l) =
    .sent .poll s.script.generation envelope

/-- A report is read by the daemon exactly if what its jobs ask for fits into a text. -/
theorem Channel.Reachable.reports (hs : s.Reachable c) (hback : s.script.phase (.lane l) = .back .poll text)
    (hjobs : parsePollReply s.script.generation (JsText.ofBytes text) = some jobs) (hne : jobs ≠ [])
    {states : ℕ → σ} (hwell : ∀ i, (c.desktop (states i)).WellFormed)
    (hbetween : ∀ step ∈ between, ∀ nowMs written, step ≠ .receive (.lane l) nowMs written) :
    ∃ generation queue results, kwinQueueInit generation = some queue ∧
      (between.foldl (Channel.step c) (s.callback c (.lane l) states)).Sound queue ∧
      (between.foldl (Channel.step c) (s.callback c (.lane l) states)).script.phase (.lane l) =
        .sent .report (JsText.ofBytes queue.generation) (buildReport (JsText.ofBytes queue.generation) results) ∧
      (between.foldl (Channel.step c) (s.callback c (.lane l) states)).batch l = results ∧
      results.map Execution.job = jobs ∧
      kwinParseReport (arriving (buildReport (JsText.ofBytes queue.generation) results)) =
        if maxTextBytes < askedBytes c s.script.handles (turnsOf states jobs) then none
        else some ⟨queue.generation, results.map Execution.done⟩ := by
  obtain ⟨generation, queue, hinit, hsound, hplain⟩ := hs.sound
  have hg : validGeneration queue.generation := by
    rw [← hsound.kept.generation]
    exact hsound.kept.sendable.generation
  obtain ⟨-, hrunning, hgen, dispatched, hfit, hcount, hparse⟩ := hsound.told hback
  have hsame : jobs = dispatched.map scriptJob := by
    rw [hgen, hparse] at hjobs
    exact (Option.some.inj hjobs).symm
  have hnext := (hsound.callback (.lane l) states : (s.callback c (.lane l) states).Sound queue)
  have hcallback : s.callback c (.lane l) states = s.polled c l (JsText.ofBytes text) states := by
    simp only [Channel.callback, hback]
  have hresults := executeAll_jobs c s.script.handles (turnsOf states jobs)
  rw [turnsOf_jobs] at hresults
  have hsized := @executeAll_sized σ c s.script.handles (turnsOf states jobs) hplain
    (fun turn hturn => by
      obtain ⟨entry, -, rfl⟩ := List.mem_map.mp hturn
      exact hwell entry.2)
  have hspelled := @executeAll_sound σ c dispatched hfit s.script.handles states
  rw [← hsame] at hspelled
  rw [hcallback, polled_eq hrunning hjobs, hgen] at hnext ⊢
  generalize executeAll c s.script.handles (turnsOf states jobs) = ran at hnext hresults hsized hspelled ⊢
  obtain ⟨results, handles⟩ := ran
  dsimp only at hnext hresults hsized hspelled ⊢
  have hsome : results ≠ [] := by
    rintro rfl
    exact hne hresults.symm
  have hafter : afterBatch (JsText.ofBytes queue.generation) l results =
      .sent .report (JsText.ofBytes queue.generation) (buildReport (JsText.ofBytes queue.generation) results) :=
    if_neg hsome
  rw [hafter] at hnext ⊢
  obtain ⟨hsound', hphase, hbatch⟩ := Channel.run_sent (c := c) hnext (turn_phase_self _ _ _ _ _ _) hbetween
  have hself : (s.turn l handles results results (.sent .report (JsText.ofBytes queue.generation)
      (buildReport (JsText.ofBytes queue.generation) results))).batch l = results := Function.update_self _ _ _
  refine ⟨generation, queue, results, hinit, hsound', hphase, hbatch.trans hself, hresults, ?_⟩
  have hlength : results.length ≤ kwinMaxDonePerReport := by
    have hlen := congrArg List.length hresults
    rw [List.length_map, hsame, List.length_map] at hlen
    rw [hlen]
    exact hcount.trans (by decide)
  rw [arriving, kwinParseReport_clean hg hsome hlength (fun e he => (hspelled e he).1) hsized.2, hsized.1]

/-- A lane comes through with a batch exactly if what its jobs ask for fits into a text together. -/
theorem lane_survives_iff (hs : s.Reachable c) (hback : s.script.phase (.lane l) = .back .poll text)
    (hjobs : parsePollReply s.script.generation (JsText.ofBytes text) = some jobs) (hne : jobs ≠ [])
    {states : ℕ → σ} (hwell : ∀ i, (c.desktop (states i)).WellFormed)
    (hbetween : ∀ step ∈ between, ∀ nowMs written, step ≠ .receive (.lane l) nowMs written)
    (hfew : (queuedOf (between.foldl (Channel.step c) (s.callback c (.lane l) states)).outputs).length < 2 ^ 64)
    (nowMs : ℕ) (written : ℕ → Bool) (later : ℕ → σ) :
    (between.foldl (Channel.step c) (s.callback c (.lane l) states)).Survives c l jobs nowMs written later ↔
      askedBytes c s.script.handles (turnsOf states jobs) ≤ maxTextBytes := by
  obtain ⟨generation, queue, results, hinit, hsound, hphase, hbatch, hresults, hparse⟩ :=
    hs.reports hback hjobs hne hwell hbetween
  generalize between.foldl (Channel.step c) (s.callback c (.lane l) states) = r at hfew hsound hphase hbatch ⊢
  obtain ⟨haccept, hrefuse, hlines⟩ := hsound.receive_report hphase nowMs written
  constructor
  · rintro ⟨⟨generation', envelope, hsent, haccepted⟩, -, -⟩
    rw [hphase] at hsent
    cases hsent
    by_contra hlong
    rw [if_pos (Nat.not_le.mp hlong)] at hparse
    rw [kwinQueueReport, hparse] at haccepted
    cases haccepted
  · intro hshort
    have hg := hsound.kept.sendable.generation
    rw [if_neg (Nat.not_lt.mpr hshort), ← hsound.kept.generation] at hparse
    rw [← hsound.kept.generation] at hphase haccept hlines
    obtain ⟨hdispatched, hnodup⟩ := hsound.batch_dispatched hinit hfew hphase
    rw [hbatch] at hdispatched hnodup
    have hall : ∀ d ∈ results.map Execution.done, isDispatched r.bus.queue d := by
      intro d hd
      obtain ⟨e, he, rfl⟩ := List.mem_map.mp hd
      exact hdispatched e he
    obtain ⟨hok, hreported⟩ := kwinQueueReport_accepts hg hparse hall hnodup
    obtain ⟨reply, hacknowledged⟩ := haccept hok
    refine ⟨⟨_, _, hphase, hok⟩, ?_, ?_⟩
    · intro job hjob
      rw [← hresults] at hjob
      obtain ⟨e, he, rfl⟩ := List.mem_map.mp hjob
      rw [hbatch, hlines, hreported]
      exact ⟨e, he, rfl, e.done, List.mem_append_right _ (List.mem_map_of_mem he), rfl⟩
    · obtain ⟨hrunning, hgeneration⟩ := (hsound.receive (.lane l) nowMs written).kept.late l
        (by rw [hacknowledged]; exact nofun)
      have hsame : r.script.generation = (r.receive (.lane l) nowMs written).script.generation := by
        rw [hgeneration]
        exact (hsound.kept.late l (by rw [hphase]; exact nofun)).2
      simp only [Channel.callback, hacknowledged, pollLane_running _ _ _ hrunning, set_phase_self, hsame]
      exact ⟨_, rfl⟩

end Survival

section Captions

theorem le_windowSize (window : Window) (handle : Text) :
    JsText.quotedSize (window.caption.getD []) ≤ windowSize window handle := by
  unfold windowSize
  exact Nat.le_add_right_of_le <| Nat.le_add_right_of_le <| Nat.le_add_right_of_le <| Nat.le_add_right_of_le <|
    Nat.le_add_right_of_le <| Nat.le_add_left _ _

/-- The request for a list of all windows. -/
def listMessage : Bytes :=
  Frame.bytes ⟨frameMagic, protocolMajor, protocolMinor, Op.windowList, 0, 9, encodeU32 1 ++ encodeU32 0⟩

/-- A desktop with one window, under a caption. -/
def oneWindow (caption : Text) : Compositor Unit where
  desktop _ := { windows := [{ object := 1, caption := some caption }] }
  read _ _ := { object := 1 }
  act _ _ := none

/-- The script greets, a list is asked for, and a lane polls. -/
def listArrives : List (ChannelStep Unit) :=
  [.receive .greeting 0 fun _ => true, .callback .greeting fun _ => (), .relay (.bytes listMessage) 0 true,
    .receive (.lane .slow) 0 fun _ => true]

def listTold (caption : Text) : Channel :=
  listArrives.foldl (Channel.step (oneWindow caption)) (.start newQueue scriptPeer)

def listDispatch : KwinDispatch := ⟨sequenceOf 1, Op.windowList, 2000, ascii "1"⟩

theorem oneWindow_wellFormed {caption : Text} (h : JsText.WellFormed caption) (s : Unit) :
    ((oneWindow caption).desktop s).WellFormed := by
  refine ⟨?_, ?_⟩
  · intro window hwindow
    rw [List.mem_singleton.mp hwindow]
    exact ⟨.nil, h, .nil, .nil, .nil⟩
  · intro window hactive
    cases hactive

/-- No caption is looked at before the jobs are there. -/
theorem listTold_eq (caption : Text) : listTold caption = listTold [] := by
  have hgreet : ∀ s, Channel.step (oneWindow caption) s (.callback .greeting fun _ => ()) =
      Channel.step (oneWindow []) s (.callback .greeting fun _ => ()) := by
    intro s
    show s.callback (oneWindow caption) .greeting _ = s.callback (oneWindow []) .greeting _
    unfold Channel.callback
    cases s.script.phase .greeting with
    | _ => rfl
  unfold listTold listArrives
  simp only [List.foldl_cons, List.foldl_nil, hgreet]
  rfl

theorem listTold_spec (caption : Text) :
    (listTold caption).Reachable (oneWindow caption) ∧
      (listTold caption).script.phase (.lane .slow) =
        .back .poll (pollReplyText newQueue.generation .slow 0 [listDispatch]) ∧
      parsePollReply (listTold caption).script.generation
        (JsText.ofBytes (pollReplyText newQueue.generation .slow 0 [listDispatch])) = some [scriptJob listDispatch] := by
  refine ⟨⟨_, newQueue, scriptPeer, listArrives, kwinQueueInit_newQueue, rfl⟩, ?_, ?_⟩
  · rw [listTold_eq]
    decide +kernel
  · rw [listTold_eq]
    decide +kernel

theorem listTold_asked (caption : Text) : JsText.quotedSize caption ≤
    askedBytes (oneWindow caption) (listTold caption).script.handles (turnsOf (fun _ => ()) [scriptJob listDispatch]) := by
  have hlive : ¬ exhausted (scriptJob listDispatch) = true := by decide
  have hop : opcodeIs (scriptJob listDispatch) Op.windowList = true := by decide
  have hbody : (scriptJob listDispatch).body = JsText.lit "1" := by decide
  have hone : ∀ t : Handles, (nameWindows t (listed ((oneWindow caption).desktop ()) true)).1 =
      [({ object := 1, caption := some caption }, (windowHandle t { object := 1, caption := some caption }).1)] := fun _ => rfl
  rw [turnsOf, List.zipIdx_singleton, List.map_singleton, askedBytes, askedSize, if_neg hlive, if_pos hop,
    decide_eq_true hbody, hone]
  refine Nat.le_add_right_of_le (Nat.le_add_left_of_le ?_)
  exact le_windowSize { object := 1, caption := some caption } _

def longCaption : Text := List.replicate maxTextBytes 97

theorem longCaption_wellFormed : JsText.WellFormed longCaption := by
  apply JsText.wellFormed_of_lt
  intro c hc
  rw [(List.mem_replicate.mp hc).2]
  decide

theorem quotedSize_replicate (n : ℕ) : JsText.quotedSize (List.replicate n 97) = 2 + n := by
  have hunit : JsText.quotedUnitBytes 97 = 1 := by decide
  rw [JsText.quotedSize, List.map_replicate, List.sum_replicate_nat, hunit, mul_one]

theorem quotedSize_longCaption : JsText.quotedSize longCaption = 2 + maxTextBytes :=
  quotedSize_replicate maxTextBytes

/-- A list of one window with a caption of 4 MiB is refused, and its lane never polls again. -/
theorem longCaption_lost :
    ((oneWindow longCaption).desktop ()).WellFormed ∧
    (listTold longCaption).Reachable (oneWindow longCaption) ∧
    (listTold longCaption).script.phase (.lane .slow) =
      .back .poll (pollReplyText newQueue.generation .slow 0 [listDispatch]) ∧
    parsePollReply (listTold longCaption).script.generation
      (JsText.ofBytes (pollReplyText newQueue.generation .slow 0 [listDispatch])) = some [scriptJob listDispatch] ∧
    ¬ ((listTold longCaption).callback (oneWindow longCaption) (.lane .slow) fun _ => ()).Survives
      (oneWindow longCaption) .slow [scriptJob listDispatch] 0 (fun _ => true) (fun _ => ()) ∧
    (((listTold longCaption).callback (oneWindow longCaption) (.lane .slow) fun _ => ()).receive (.lane .slow) 0
      fun _ => true).script.phase (.lane .slow) = .dropped := by
  obtain ⟨hreachable, hback, hjobs⟩ := listTold_spec longCaption
  have hwell := oneWindow_wellFormed longCaption_wellFormed
  refine ⟨hwell (), hreachable, hback, hjobs, ?_⟩
  obtain ⟨generation, queue, results, -, hsound, hphase, -, -, hparse⟩ :=
    @Channel.Reachable.reports Unit (oneWindow longCaption) (listTold longCaption) .slow _ _ [] hreachable hback hjobs
      (List.cons_ne_nil _ _) (fun _ => ()) (fun _ => hwell ()) nofun
  rw [List.foldl_nil] at hsound hphase
  have hlong := listTold_asked longCaption
  rw [quotedSize_longCaption] at hlong
  rw [if_pos (by omega)] at hparse
  have hrefused : (kwinQueueReport ((listTold longCaption).callback (oneWindow longCaption) (.lane .slow)
      fun _ => ()).bus.queue (arriving (buildReport (JsText.ofBytes queue.generation) results))
      (bufferInit replyCapacity)).1 = false := by
    rw [kwinQueueReport, hparse]
  refine ⟨?_, (hsound.receive_report hphase 0 fun _ => true).2.1 hrefused⟩
  rintro ⟨⟨generation', envelope, hsent, haccepted⟩, -, -⟩
  rw [hphase] at hsent
  cases hsent
  rw [hrefused] at haccepted
  cases haccepted

theorem shortCaption_survives :
    askedBytes (oneWindow (JsText.lit "Files")) (listTold (JsText.lit "Files")).script.handles
      (turnsOf (fun _ => ()) [scriptJob listDispatch]) ≤ maxTextBytes ∧
    ((listTold (JsText.lit "Files")).callback (oneWindow (JsText.lit "Files")) (.lane .slow) fun _ => ()).Survives
      (oneWindow (JsText.lit "Files")) .slow [scriptJob listDispatch] 0 (fun _ => true) (fun _ => ()) := by
  obtain ⟨hreachable, hback, hjobs⟩ := listTold_spec (JsText.lit "Files")
  have hwell := @oneWindow_wellFormed (JsText.lit "Files") (JsText.wellFormed_of_lt (by decide))
  have hfits : askedBytes (oneWindow (JsText.lit "Files")) (listTold (JsText.lit "Files")).script.handles
      (turnsOf (fun _ => ()) [scriptJob listDispatch]) ≤ maxTextBytes := by
    refine le_trans (b := 1000) ?_ (by decide)
    decide +kernel
  have hsurvives := @lane_survives_iff Unit (oneWindow (JsText.lit "Files")) (listTold (JsText.lit "Files")) .slow _ _ []
    hreachable hback hjobs (List.cons_ne_nil _ _) (fun _ => ()) (fun _ => hwell ()) nofun (by decide +kernel) 0
    (fun _ => true) (fun _ => ())
  rw [List.foldl_nil] at hsurvives
  exact ⟨hfits, hsurvives.mpr hfits⟩

end Captions

end KeysharpDesktop.KwinScript
