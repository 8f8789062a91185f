import KeysharpDesktop.Kwin.Retry

/-! What the jobs of the script stand for: each was asked for by one operation, as it is, and what came of it is what
that operation hears. -/
namespace KeysharpDesktop

open KwinScript (Channel ChannelStep Compositor Execution oneWindow)

/-- The jobs of a queue are asked for: each with its sequence, its opcode and its body. -/
def KwinQueue.Means (q : KwinQueue) (asked : Bytes → Opcode → Bytes → Prop) : Prop :=
  ∀ job ∈ q.jobs, job.live → asked job.sequence job.opcode job.body

/-- What the script is told stands for jobs that are asked for. -/
def Tells (asked : Bytes → Opcode → Bytes → Prop) (jobs : List ScriptJob) : Prop :=
  ∀ j ∈ jobs, ∃ d : KwinDispatch, j = scriptJob d ∧ asked d.sequence d.opcode d.body

section Queue

variable {q r : KwinQueue} {asked asked' : Bytes → Opcode → Bytes → Prop} {lane : KwinLane} {nowMs : ℕ}

theorem KwinQueue.Means.mono (h : q.Means asked) (hmore : ∀ s o b, asked s o b → asked' s o b) : q.Means asked' :=
  fun job hjob hlive => hmore _ _ _ (h job hjob hlive)

theorem Tells.mono {jobs : List ScriptJob} (h : Tells asked jobs) (hmore : ∀ s o b, asked s o b → asked' s o b) :
    Tells asked' jobs := by
  intro j hj
  obtain ⟨d, hd, hasked⟩ := h j hj
  exact ⟨d, hd, hmore _ _ _ hasked⟩

theorem Tells.nil : Tells asked [] := fun _ hj => absurd hj List.not_mem_nil

theorem Tells.append {jobs jobs' : List ScriptJob} (h : Tells asked jobs) (h' : Tells asked jobs') :
    Tells asked (jobs ++ jobs') := by
  intro j hj
  rcases List.mem_append.mp hj with hj | hj
  · exact h j hj
  · exact h' j hj

/-- A slot that goes on with its job keeps what that stands for. -/
theorem KwinQueue.Means.set {i : ℕ} {job job' : KwinJob} (h : q.Means asked) (hi : q.jobs[i]? = some job)
    (hlive : job.live) (hsequence : job'.sequence = job.sequence) (hopcode : job'.opcode = job.opcode)
    (hbody : job'.body = job.body) : ({ q with jobs := q.jobs.set i job' } : KwinQueue).Means asked := by
  intro other hother hlive'
  rcases List.mem_or_eq_of_mem_set hother with hmem | rfl
  · exact h other hmem hlive'
  · rw [hsequence, hopcode, hbody]
    exact h job (List.mem_of_getElem? hi) hlive

/-- Only what is submitted brings jobs in. -/
theorem KwinQueue.Move.means {es : List KwinQueueEvent} (hmove : q.Move es r) (hes : enteredAll es = [])
    (h : q.Means asked) : r.Means asked := by
  cases hmove with
  | enter i slot opcode body nowMs found free lane => cases hes
  | hand i job found queued oldest =>
    refine h.set found ?_ rfl rfl rfl
    rw [KwinJob.live, queued]
    rfl
  | complete i job status reply found dispatched =>
    refine h.set found ?_ rfl rfl rfl
    rw [KwinJob.live, dispatched]
    rfl
  | free jobs slots freed =>
    intro job hjob hlive
    obtain ⟨i, hi⟩ := List.mem_iff_getElem?.mp hjob
    rcases freed i with hsame | hfree
    · exact h job (List.mem_of_getElem? (hsame.symm.trans hi)) hlive
    · rw [Option.some.inj (hi.symm.trans hfree)] at hlive
      cases hlive
  | park parked => exact h

theorem KwinQueue.Moves.means {es : List KwinQueueEvent} (hmoves : q.Moves es r) (hes : enteredAll es = [])
    (h : q.Means asked) : r.Means asked := by
  induction hmoves with
  | nil => exact h
  | cons hmove hrest ih =>
    rw [enteredAll, List.filterMap_append, List.append_eq_nil_iff] at hes
    exact ih hes.2 (hmove.means hes.1 h)

theorem Hands.means {out : List BusOutput} {lines : List KwinDone} (hhands : Hands q r out lines)
    (hqueued : queuedOf out = []) (h : q.Means asked) : r.Means asked := by
  obtain ⟨es, hmoves, hentered, -⟩ := hhands.moves
  exact hmoves.means (hentered.trans hqueued) h

theorem KwinQueue.Means.submit {opcode : Opcode} {body sequence : Bytes} (h : q.Means asked)
    (hsubmit : kwinQueueSubmit q opcode body nowMs = some (r, sequence)) (hasked : asked sequence opcode body) :
    r.Means asked := by
  obtain ⟨i, slot, -, -, -, hsequence, rfl⟩ := kwinQueueSubmit_move hsubmit
  intro job hjob hlive
  rcases List.mem_or_eq_of_mem_set hjob with hmem | rfl
  · exact h job hmem hlive
  · rw [hsequence] at hasked
    exact hasked

/-- A reply to a poll tells of jobs of the queue. -/
theorem KwinQueue.Means.tells (h : q.Means asked) (hsend : q.Sendable) (lane : KwinLane) (nowMs : ℕ)
    (idleMs : BitVec 32) (invocation : Invocation) :
    Tells asked (toldOf q.generation
      [.returned invocation (pollReplyText q.generation lane idleMs (dispatchJobs q lane nowMs).1)]) := by
  rw [toldOf, List.flatMap_singleton, toldBy, parsePollReply_pollReplyText hsend.generation (hsend.fit lane nowMs),
    if_pos rfl]
  intro j hj
  obtain ⟨d, hd, rfl⟩ := List.mem_map.mp hj
  obtain ⟨job, hjob, rfl⟩ := List.mem_map.mp hd
  obtain ⟨before, hbefore, hqueued, rfl⟩ := mem_takeJobs hjob
  refine ⟨_, rfl, h before hbefore ?_⟩
  rw [KwinJob.live, hqueued]
  rfl

end Queue

section Bus

variable {bus : KwinBus} {asked asked' : Bytes → Opcode → Bytes → Prop} {lane : KwinLane} {nowMs : ℕ}

theorem releasePark_tells (h : bus.queue.Means asked) (hsend : bus.queue.Sendable) (hlane : lane ≠ .none) :
    Tells asked (toldOf bus.queue.generation (releasePark bus lane nowMs).2) := by
  cases hwait : bus.parked (laneSlot lane) with
  | none =>
    simp only [releasePark, hwait]
    exact .nil
  | some invocation =>
    obtain ⟨reply, idleMs, hreply, htext⟩ := kwinQueuePollParked_reply hsend hlane nowMs
    have hout : (releasePark bus lane nowMs).2 = [.returned invocation (cString reply.data)] := by
      simp only [releasePark, hwait, hreply]
    rw [hout, htext]
    have hparked : (setParked bus.queue lane false).Means asked := h
    exact hparked.tells (setParked_sendable hsend lane false) lane nowMs idleMs invocation

theorem relayDrainFrom_told (generation : Bytes) (written : ℕ → Bool) (left index : ℕ) (bus : KwinBus) :
    toldOf generation (relayDrainFrom written left index bus).2 = [] := by
  induction left generalizing index bus with
  | zero => rfl
  | succ left ih =>
    have hslot : toldOf generation (drainSlot bus index (written index)).2 = [] := by
      rcases drainSlot_cases bus index (written index) with h | ⟨slot, status, body, -, -, -, h⟩
      · rw [h]
        rfl
      · rw [h]
        exact busAnswer_told ..
    unfold relayDrainFrom
    rw [toldOf_append, hslot, ih, List.append_nil]

theorem handleCall_tells (h : bus.queue.Means asked) (hsend : bus.queue.Sendable) (sender generation : Bytes)
    (method : BusMethod) (envelope : Bytes) (written : ℕ → Bool) :
    Tells asked (toldOf bus.queue.generation (handleCall bus sender generation method envelope nowMs written).2) := by
  by_cases hack : method = .hello ∨ method = .event
  · rcases handleCall_acknowledges bus sender generation envelope nowMs written hack with hcall | hcall
    · rw [hcall]
      exact .nil
    · rw [hcall]
      cases hformat : kwinFormatReportAck bus.queue.generation (bufferInit replyCapacity) with
      | none => exact .nil
      | some reply =>
        rw [toldBy_ack hsend.generation hformat bus.invocations]
        exact .nil
  · have hhandled := handleCall_handled bus sender generation method envelope nowMs written
    generalize handleCall bus sender generation method envelope nowMs written = result at hhandled
    generalize methodLines bus sender generation method envelope = lines at hhandled
    cases hhandled with
    | denied _ text => exact .nil
    | acknowledged _ reply hother => exact absurd hother hack
    | reported queue reply hreport =>
      have hqueue := Hands.report bus.queue envelope (bufferInit replyCapacity)
      rw [hreport] at hqueue
      have hsame : queue.generation = bus.queue.generation := hqueue.generation
      have hreply := kwinQueueReport_reply hreport
      rw [hsame] at hreply
      have hdrain : toldOf bus.queue.generation (relayDrain (bus.counted queue) written).2 = [] :=
        relayDrainFrom_told _ written kwinMaxJobs 0 _
      dsimp only
      rw [toldOf_append, hdrain, toldBy_ack hsend.generation hreply bus.invocations]
      exact .nil
    | unreported queue reply hreport => exact .nil
    | polled queue reply hpoll =>
      obtain ⟨poll, -, -, -, htext⟩ := kwinQueuePoll_answered hsend hpoll
      dsimp only
      rw [htext]
      exact h.tells hsend poll.lane nowMs 0 bus.invocations
    | parked queue poll hparse hpoll =>
      obtain ⟨poll', hparse', -, hnone, hqueue⟩ := kwinQueuePoll_parked hpoll
      have hsame : poll' = poll := Option.some.inj (hparse'.symm.trans hparse)
      rw [hsame] at hnone hqueue
      have hempty := hands_of_empty hsend hnone
      have hmeans : (bus.counted queue).queue.Means asked := by
        show queue.Means asked
        rw [hqueue]
        exact hempty.means rfl h
      have hnext : (bus.counted queue).queue.Sendable := by
        obtain ⟨es, hmoves, hes, -⟩ := hempty.moves
        show queue.Sendable
        rw [hqueue]
        exact setParked_sendable (hsend.moves hmoves hes) poll.lane true
      have hgeneration : (bus.counted queue).queue.generation = bus.queue.generation := by
        show queue.generation = bus.queue.generation
        rw [hqueue]
        exact hempty.generation
      have htells := @releasePark_tells _ _ _ nowMs hmeans hnext (kwinParsePoll_lane hparse)
      rw [hgeneration] at htells
      unfold parkPoll
      dsimp only
      rw [toldOf_append]
      exact htells.append .nil
    | unpolled queue hpoll => exact .nil

/-- A request is queued as it was read, or not at all. -/
theorem relayRequest_means (h : bus.queue.Means asked) (hsend : bus.queue.Sendable) (request : RelayRequest)
    (written : Bool) (hmore : ∀ s o b, asked s o b → asked' s o b)
    (hasked : ∀ sequence text, BusOutput.queued sequence request.requestId request.opcode ∈
        (relayRequest bus request nowMs written).2 →
      kwinRequestText request.opcode request.payload requestCapacity = some text →
      asked' sequence request.opcode text) :
    (relayRequest bus request nowMs written).1.queue.Means asked' ∧
      Tells asked' (toldOf bus.queue.generation (relayRequest bus request nowMs written).2) := by
  rcases relayRequest_cases bus request nowMs written with
    ⟨status, -, hrequest⟩ | ⟨text, index, slot, queue, sequence, htext, -, -, hsubmit, hrequest⟩
  · rw [hrequest]
    refine ⟨h.mono hmore, ?_⟩
    dsimp only
    rw [busAnswer_told]
    exact .nil
  · have hown := hasked sequence text (by rw [hrequest]; exact List.mem_cons_self) htext
    have hnext := hsend.submit (kwinRequestText_body htext) hsubmit
    have hmeans := (h.mono hmore).submit hsubmit hown
    have hlane : kwinLaneFor request.opcode ≠ .none := by
      obtain ⟨-, -, -, -, hlane, -⟩ := kwinQueueSubmit_move hsubmit
      exact hlane
    have hgeneration : queue.generation = bus.queue.generation := by
      obtain ⟨-, -, -, -, -, -, rfl⟩ := kwinQueueSubmit_move hsubmit
      rfl
    let accepted : KwinBus := { bus with
      queue
      inflight := bus.inflight.set index ⟨true, request.requestId, request.opcode, sequence⟩ }
    have hqueued : (releasePark accepted (kwinLaneFor request.opcode) nowMs).1.queue.Means asked' :=
      (@releasePark_hands accepted _ nowMs hnext hlane).means (releasePark_plain _ _ _).queuedOf_eq_nil hmeans
    have htells := @releasePark_tells accepted _ _ nowMs hmeans hnext hlane
    rw [hrequest]
    refine ⟨hqueued, ?_⟩
    rw [← hgeneration]
    exact htells

/-- Every dispatch of the main loop tells the script of jobs as they were asked for. -/
theorem busStep_means (h : bus.queue.Means asked) (hsend : bus.queue.Sendable) (call : BusCall)
    (hmore : ∀ s o b, asked s o b → asked' s o b)
    (hasked : ∀ input nowMs written request rest, call = .relay input nowMs written →
      readRequest input = some (request, rest) → ∀ sequence text,
      BusOutput.queued sequence request.requestId request.opcode ∈ busOutputs bus call →
      kwinRequestText request.opcode request.payload requestCapacity = some text →
      asked' sequence request.opcode text) :
    (busStep bus call).queue.Means asked' ∧ Tells asked' (toldOf bus.queue.generation (busOutputs bus call)) := by
  have hidle : ∀ lane nowMs, lane ≠ .none → (idleFired bus lane nowMs).1.queue.Means asked' ∧
      Tells asked' (toldOf bus.queue.generation (idleFired bus lane nowMs).2) := by
    intro lane nowMs hlane
    unfold idleFired
    split_ifs
    · exact ⟨(releasePark_hands hsend hlane).means (releasePark_plain _ _ _).queuedOf_eq_nil (h.mono hmore),
        releasePark_tells (h.mono hmore) hsend hlane⟩
    · exact ⟨h.mono hmore, .nil⟩
  cases call with
  | relay input nowMs written =>
    simp only [busStep, busOutputs, busDispatch, relayReadable] at hasked ⊢
    cases hread : readRequest input with
    | none => exact ⟨h.mono hmore, .nil⟩
    | some read =>
      have hown := hasked input nowMs written read.1 read.2 rfl hread
      rw [hread] at hown
      exact relayRequest_means h hsend read.1 written hmore hown
  | method sender generation method envelope nowMs written =>
    have hhands := @handleCall_hands bus nowMs hsend sender generation method envelope written
    have hunread : readIds (busOutputs bus (.method sender generation method envelope nowMs written)) = [] := by
      refine busOutputs_readIds bus ?_
      intro input nowMs' written' h
      cases h
    have hqueued := length_queuedOf_le (busOutputs bus (.method sender generation method envelope nowMs written))
    rw [hunread, List.length_nil, Nat.le_zero, List.length_eq_zero_iff] at hqueued
    exact ⟨hhands.means hqueued (h.mono hmore),
      handleCall_tells (h.mono hmore) hsend sender generation method envelope written⟩
  | idleFast nowMs => exact hidle .fast nowMs (by decide)
  | idleSlow nowMs => exact hidle .slow nowMs (by decide)

/-- A request is turned down for two reasons. -/
theorem busOutputs_declined (bus : KwinBus) (call : BusCall) {frame : RelayFrame}
    (h : BusOutput.answered none frame ∈ busOutputs bus call) :
    frameStatus frame = Status.invalidRequest ∨ frameStatus frame = Status.busy := by
  have hread : frameId frame ∈ readIds (busOutputs bus call) := List.mem_filterMap.mpr ⟨_, h, rfl⟩
  by_cases hrelay : ∃ input nowMs written, call = .relay input nowMs written
  · obtain ⟨input, nowMs, written, rfl⟩ := hrelay
    simp only [busOutputs, busDispatch, relayReadable] at h
    split at h
    · simp at h
    · next request rest hread =>
      rcases relayRequest_cases bus request nowMs written with
        ⟨status, hstatus, hrequest⟩ | ⟨text, index, slot, queue, sequence, -, -, -, -, hrequest⟩
      · rw [hrequest] at h
        rcases busAnswer_cases written none request.requestId request.opcode status [] with
          hout | hout | ⟨answer, hanswer, hout⟩
        · rw [hout] at h
          cases h
        · rw [hout] at h
          simp at h
        · rw [hout, List.mem_singleton, BusOutput.answered.injEq] at h
          obtain ⟨-, hcontent, -⟩ := relayAnswer_fields hanswer
          have hne : ∀ status, status = Status.invalidRequest ∨ status = Status.busy → status ≠ Status.ok := by
            rintro status (rfl | rfl)
            · decide
            · decide
          rw [h.2, hcontent, answerContent]
          simp only [hne status hstatus, if_false]
          exact hstatus
      · rw [hrequest] at h
        rcases List.mem_cons.mp h with h | h
        · cases h
        · have hplain := releasePark_readIds { bus with
              queue
              inflight := bus.inflight.set index ⟨true, request.requestId, request.opcode, sequence⟩ }
            (kwinLaneFor request.opcode) nowMs
          have hmem : frameId frame ∈ readIds (releasePark { bus with
              queue
              inflight := bus.inflight.set index ⟨true, request.requestId, request.opcode, sequence⟩ }
            (kwinLaneFor request.opcode) nowMs).2 := List.mem_filterMap.mpr ⟨_, h, rfl⟩
          rw [hplain] at hmem
          cases hmem
  · rw [busOutputs_readIds bus fun input nowMs written hcall => hrelay ⟨input, nowMs, written, hcall⟩] at hread
    cases hread

end Bus

section Owned

/-- Every call of the relay is for the request of its operation. -/
def KwinChain.Owned (s : KwinChain) : Prop :=
  ∀ i call, (s.relay.callers i).call? = some call → (s.operating i).request? = some call.request

variable {σ : Type} {c : Compositor σ} {pid : ℕ → ℕ} {s t : KwinChain} {i : ℕ}

theorem Operating.Fits.called {state : Operating} {caller : Caller} {crowded : Bool} {call : RelayCall}
    (h : state.Fits caller crowded) (hcall : caller.call? = some call) : ∃ request, state.request? = some request := by
  cases state with
  | idle | ended =>
    rw [h.1] at hcall
    cases hcall
  | _ => exact ⟨_, rfl⟩

theorem KwinChain.Owned.move (h : s.Owned) (hkept : s.Kept) (hkept' : t.Kept)
    (hrequest : ∀ i request, (t.operating i).request? = some request →
      (s.operating i).request? = some request ∨ s.operating i = .idle)
    (hcalls : ∀ i call, (t.relay.callers i).call? = some call →
      (∃ own, (s.relay.callers i).call? = some own ∧ own.request = call.request) ∨
        (t.operating i).request? = some call.request) : t.Owned := by
  intro i call hcall
  rcases hcalls i call hcall with ⟨own, hown, hsame⟩ | hnew
  · obtain ⟨request, hat⟩ := (hkept'.fits i).called hcall
    rcases hrequest i request hat with hold | hidle
    · rw [hat, ← hold, h i own hown, hsame]
    · have hfits := hkept.fits i
      rw [hidle] at hfits
      rw [hfits.1] at hown
      cases hown
  · exact hnew

/-- A step in which no call is started. -/
theorem KwinChain.Owned.advance (h : s.Owned) (hkept : s.Kept) (hkept' : t.Kept) (action : RelayAction)
    (hrelay : t.relay.callers = s.relay.callers ∨ t.relay = relayAct s.relay action)
    (hstart : ∀ i request, action ≠ .start i request)
    (hrequest : ∀ i request, (t.operating i).request? = some request →
      (s.operating i).request? = some request ∨ s.operating i = .idle) : t.Owned := by
  refine h.move hkept hkept' hrequest ?_
  intro i call hcall
  rcases hrelay with hsame | hact
  · rw [hsame] at hcall
    exact .inl ⟨call, hcall, rfl⟩
  · rw [hact] at hcall
    rcases (relayAct_advance s.relay action).call_cases hkept.wired.named hcall with ⟨⟨own, hown, hkeeps⟩, -⟩ | ⟨htaken, -⟩
    · exact .inl ⟨own, hown, hkeeps.request.symm⟩
    · exact absurd htaken (hstart i _)

/-- Nothing but a step of its own changes an operation. -/
theorem setOperating_requests {state : Operating}
    (h : ∀ request, state.request? = some request → (s.operating i).request? = some request ∨ s.operating i = .idle) :
    ∀ j request, ((s.setOperating i state).operating j).request? = some request →
      (s.operating j).request? = some request ∨ s.operating j = .idle := by
  intro j request hat
  rw [setOperating_operating] at hat
  by_cases hj : j = i
  · rw [hj] at hat ⊢
    rw [Function.update_self] at hat
    exact h request hat
  · rw [Function.update_of_ne hj] at hat
    exact .inl hat

theorem KwinChain.Owned.executeOperation {session : Session} {request : Frame} {before : ℕ} {available : Option (BitVec 64)}
    {relay memoryFree : Bool} {own : ℕ} (h : s.Owned) (hkept : s.Kept)
    (hkept' : (s.executeOperation own i session request before available relay memoryFree).Kept)
    (hat : s.operating i = .admitting request before) :
    (s.executeOperation own i session request before available relay memoryFree).Owned := by
  have hsame : ∀ state : Operating, state.request? = some request → ∀ request, state.request? = some request →
      (s.operating i).request? = some request ∨ s.operating i = .idle := by
    intro state hstate other hother
    rw [hat, ← hother, hstate]
    exact .inl rfl
  unfold KwinChain.executeOperation at hkept' ⊢
  dsimp only at hkept' ⊢
  have hrefused : ∀ slotFree, (admission session request before (available.map fun bits => (.kwin, bits)) slotFree
      memoryFree).request? = some request := by
    intro slotFree
    rcases admission_kwin session request before available slotFree memoryFree with
      ⟨hrunning, -⟩ | ⟨status, diagnostic, hrefused, -⟩
    · rw [hrunning]
      rfl
    · rw [hrefused]
      rfl
  have hnot : ∀ i request', RelayAction.retire ≠ .start i request' := by
    intro i request' h
    cases h
  rcases admission_kwin session request before available true memoryFree with
    ⟨hrunning, -⟩ | ⟨status, diagnostic, hturned, -⟩
  · simp only [hrunning] at hkept' ⊢
    by_cases hscript : kwinScript request = true
    · rw [if_pos hscript] at hkept' ⊢
      rcases hreserve : reserveKwinSlot s.budgets own with ⟨reserved, budgets⟩
      rw [hreserve] at hkept'
      cases reserved with
      | true =>
        cases relay with
        | true =>
          refine h.move hkept hkept' ?_ ?_
          · exact setOperating_requests (hsame (.running request .kwin before) rfl)
          · intro j call hcall
            rcases (relayAct_advance s.relay (.start i request)).call_cases hkept.wired.named hcall with
              ⟨⟨own, hown, hkeeps⟩, -⟩ | ⟨htaken, -⟩
            · exact .inl ⟨own, hown, hkeeps.request.symm⟩
            · rw [RelayAction.start.injEq] at htaken
              right
              change (Function.update s.operating i (.running request .kwin before) j).request? = _
              rw [← htaken.1, Function.update_self, ← htaken.2]
              rfl
        | false => exact h.advance hkept hkept' .retire (.inl rfl) hnot (setOperating_requests (hsame _ rfl))
      | false =>
        exact h.advance hkept hkept' .retire (.inl rfl) hnot (setOperating_requests (hsame _ (hrefused false)))
    · rw [if_neg hscript] at hkept' ⊢
      exact h.advance hkept hkept' .retire (.inl rfl) hnot (setOperating_requests (hsame _ rfl))
  · simp only [hturned] at hkept' ⊢
    exact h.advance hkept hkept' .retire (.inl rfl) hnot (setOperating_requests (hsame _ rfl))

theorem KwinChain.Owned.operate {session : Session} {lease : Lease} {relay : Bool} {step : OperateStep} (h : s.Owned)
    (hkept : s.Kept) (hkept' : (s.operate pid i session lease relay step).Kept) :
    (s.operate pid i session lease relay step).Owned := by
  have hnot : ∀ i request', RelayAction.retire ≠ .start i request' := by
    intro i request' h
    cases h
  have hself : ∀ {state : Operating}, (∀ request, state.request? = some request → (s.operating i).request? = some request) →
      (s.setOperating i state).Kept → (s.setOperating i state).Owned := by
    intro state hstate hkept'
    exact h.advance hkept hkept' .retire (.inl rfl) hnot (setOperating_requests fun request hat => .inl (hstate request hat))
  unfold KwinChain.operate at hkept' ⊢
  split at hkept'
  · exact h
  · next request before backend slotFree memoryFree hat => exact h.executeOperation hkept hkept' hat
  · next request kind before result hat =>
    split_ifs at hkept' ⊢ with hscript
    · split at hkept'
      · next own hresult =>
        refine hself ?_ hkept'
        intro other hother
        rw [hat]
        exact hother
      · exact h
    · refine hself ?_ hkept'
      intro other hother
      rw [hat]
      exact hother
  · unfold KwinChain.release at hkept' ⊢
    split_ifs at hkept' ⊢
    · exact h.advance hkept hkept' .retire (.inl rfl) hnot fun _ _ hat => .inl hat
    · exact h
  · next state step hrequest hdoor hfinish hnext =>
    refine hself ?_ hkept'
    intro request hat
    refine operate_request session lease ?_ ?_ hat
    · exact fun request htaken => hrequest request htaken
    · exact fun request before hat backend slotFree memoryFree htaken =>
        hdoor request before backend slotFree memoryFree hat htaken

theorem relayTurn_relay (s : KwinChain) (action : RelayAction) :
    (s.relayTurn action).relay = s.relay ∨ (s.relayTurn action).relay = relayAct s.relay action := by
  cases action with
  | start i request | answer a => exact .inl rfl
  | transfer i n =>
    simp only [KwinChain.relayTurn]
    split_ifs
    · exact .inl rfl
    · exact .inr rfl
  | _ => exact .inr rfl

theorem relayTurn_operating (s : KwinChain) (action : RelayAction) : (s.relayTurn action).operating = s.operating := by
  cases action with
  | transfer i n =>
    simp only [KwinChain.relayTurn]
    split_ifs
    · rfl
    · rfl
  | _ => rfl

theorem KwinChain.Owned.step (h : s.Owned) (hkept : s.Kept) (step : KwinChainStep σ)
    (hids : (s.step c pid step).relay.relay.nextRequestId < 2 ^ 64) : (s.step c pid step).Owned := by
  have hkept' := hkept.step step hids
  have hnot : ∀ i request', RelayAction.retire ≠ .start i request' := by
    intro i request' h
    cases h
  have hheard : ∀ step', (s.channelStep c step').Kept → (s.channelStep c step').Owned := by
    intro step' hkept'
    obtain ⟨inbox, hrelay⟩ := channelStep_relay (c := c) s step'
    refine h.advance hkept hkept' .retire (.inl ?_) hnot fun _ _ hat => .inl hat
    rw [hrelay]
  cases step with
  | request i session request sized =>
    simp only [KwinChain.step] at hkept' ⊢
    split at hkept'
    · next hat =>
      refine h.advance hkept hkept' .retire (.inl rfl) hnot (setOperating_requests ?_)
      intro own hown
      exact .inr hat
    · exact h
  | refresh i r =>
    refine h.advance hkept hkept' .retire (.inl rfl) hnot (setOperating_requests ?_)
    intro own hown
    exact .inl (refreshed_request r hown)
  | operate i session lease relay step => exact h.operate hkept hkept'
  | relay action =>
    by_cases hstart : ∃ i request, action = .start i request
    · obtain ⟨i, request, rfl⟩ := hstart
      exact h
    · refine h.advance hkept hkept' action ?_ (fun i request htaken => hstart ⟨i, request, htaken⟩) ?_
      · rcases relayTurn_relay s action with hsame | hact
        · left
          show (s.relayTurn action).relay.callers = _
          rw [hsame]
        · exact .inr hact
      · intro i request hat
        left
        rwa [← relayTurn_operating s action]
  | read nowMs written =>
    simp only [KwinChain.step] at hkept' ⊢
    by_cases hguard : (s.closed || s.wire.isEmpty) = true
    · rw [KwinChain.read, if_pos hguard]
      exact h
    · rw [KwinChain.read, if_neg hguard] at hkept' ⊢
      obtain ⟨inbox, hrelay⟩ := channelStep_relay (c := c) s (.relay (.bytes s.wire) nowMs written)
      refine h.advance hkept hkept' .retire (.inl ?_) hnot fun _ _ hat => .inl hat
      show (s.channelStep c _).relay.callers = _
      rw [hrelay]
  | hangUp nowMs written => exact hheard _ hkept'
  | daemon step =>
    cases step with
    | relay input nowMs written => exact h
    | _ => exact hheard _ hkept'

end Owned

section Told

/-- A job that an operation asked for: its request was queued under this sequence, with its opcode and as its text. -/
def KwinChain.Asks (s : KwinChain) (i : ℕ) (sequence : Bytes) (opcode : Opcode) (body : Bytes) : Prop :=
  ∃ call, (s.relay.callers i).call? = some call ∧ call.request.opcode = opcode ∧
    kwinRequestText opcode call.request.payload requestCapacity = some body ∧
    BusOutput.queued sequence call.requestId opcode ∈ s.channel.outputs

def KwinChain.Asked (s : KwinChain) (sequence : Bytes) (opcode : Opcode) (body : Bytes) : Prop :=
  ∃ i, s.Asks i sequence opcode body

/-- The jobs of the daemon, and those that the script has been told of, were asked for. -/
structure KwinChain.Told (queue : KwinQueue) (s : KwinChain) : Prop where
  owned : s.Owned
  jobs : s.channel.bus.queue.Means s.Asked
  told : Tells s.Asked (toldOf queue.generation s.channel.outputs)
  declined : ∀ frame, BusOutput.answered none frame ∈ s.channel.outputs →
    frameStatus frame = Status.invalidRequest ∨ frameStatus frame = Status.busy

variable {σ : Type} {c : Compositor σ} {pid : ℕ → ℕ} {queue : KwinQueue} {s t : KwinChain} {i : ℕ}

theorem KwinChain.Asked.mono {sequence body : Bytes} {opcode : Opcode} (h : s.Asked sequence opcode body)
    (hcalls : ∀ i call, (s.relay.callers i).call? = some call → ∃ own, (t.relay.callers i).call? = some own ∧
      own.request = call.request ∧ own.requestId = call.requestId)
    (houtputs : s.channel.outputs ⊆ t.channel.outputs) : t.Asked sequence opcode body := by
  obtain ⟨i, call, hcall, hopcode, htext, hqueued⟩ := h
  obtain ⟨own, hown, hrequest, hid⟩ := hcalls i call hcall
  refine ⟨i, own, hown, ?_, ?_, ?_⟩
  · rw [hrequest]
    exact hopcode
  · rw [hrequest]
    exact htext
  · rw [hid]
    exact houtputs hqueued

/-- A step in which the daemon and the script have no part. -/
theorem KwinChain.Told.advance (h : s.Told queue) (hheard : s.Heard queue) (howned : t.Owned) {action : RelayAction}
    (hrelay : t.relay = s.relay ∨ t.relay = relayAct s.relay action) (hchannel : t.channel = s.channel) :
    t.Told queue := by
  have hmore : ∀ sequence opcode body, s.Asked sequence opcode body → t.Asked sequence opcode body := by
    intro sequence opcode body hasked
    refine hasked.mono ?_ (by rw [hchannel]; exact List.Subset.refl _)
    intro i call hcall
    rcases hrelay with hsame | hact
    · rw [hsame]
      exact ⟨call, hcall, rfl, rfl⟩
    · obtain ⟨own, hown, hkeeps⟩ := (relayAct_advance s.relay action).call_kept hheard.kept.wired.named hcall
      rw [hact]
      exact ⟨own, hown, hkeeps.request, hkeeps.requestId⟩
  refine ⟨howned, ?_, ?_, ?_⟩
  · rw [hchannel]
    exact h.jobs.mono hmore
  · rw [hchannel]
    exact h.told.mono hmore
  · rw [hchannel]
    exact h.declined

/-- A step of the daemon or the script. What the daemon reads is a request of the relay. -/
theorem KwinChain.Told.heard (h : s.Told queue) (hheard : s.Heard queue) (howned : t.Owned) (step : ChannelStep σ)
    (hchannel : t.channel = s.channel.step c step) (hcallers : t.relay.callers = s.relay.callers)
    (hread : ∀ input nowMs written request rest, step = .relay input nowMs written →
      readRequest input = some (request, rest) → ∃ i call, (s.relay.callers i).call? = some call ∧
        request = ⟨call.requestId, call.request.opcode, call.request.payload⟩) : t.Told queue := by
  have hgeneration := hheard.channel.kept.generation
  have hkeep : s.channel.outputs ⊆ t.channel.outputs →
      ∀ sequence opcode body, s.Asked sequence opcode body → t.Asked sequence opcode body := by
    intro houtputs sequence opcode body hasked
    refine hasked.mono ?_ houtputs
    intro i call hcall
    rw [hcallers]
    exact ⟨call, hcall, rfl, rfl⟩
  rw [hchannel] at hkeep
  rcases channelStep_cases (c := c) s.channel step with ⟨hbus, hout, -⟩ | ⟨call, hbus, hout, -, hrelay⟩
  · rw [hout] at hkeep
    have hmore := hkeep (List.Subset.refl _)
    refine ⟨howned, ?_, ?_, ?_⟩
    · rw [hchannel, hbus]
      exact h.jobs.mono hmore
    · rw [hchannel, hout]
      exact h.told.mono hmore
    · rw [hchannel, hout]
      exact h.declined
  · rw [hout] at hkeep
    have hmore := hkeep (List.subset_append_left _ _)
    have hstep := busStep_means h.jobs hheard.channel.kept.sendable call hmore ?_
    · rw [hgeneration] at hstep
      refine ⟨howned, ?_, ?_, ?_⟩
      · rw [hchannel, hbus]
        exact hstep.1
      · rw [hchannel, hout, toldOf_append]
        exact (h.told.mono hmore).append hstep.2
      · intro frame hframe
        rw [hchannel, hout] at hframe
        rcases List.mem_append.mp hframe with hframe | hframe
        · exact h.declined frame hframe
        · exact busOutputs_declined s.channel.bus call hframe
    · intro input nowMs written request rest hcall hrequest sequence text hqueued htext
      obtain ⟨i, own, hown, rfl⟩ := hread input nowMs written request rest (hrelay input nowMs written hcall) hrequest
      refine ⟨i, own, by rw [hcallers]; exact hown, rfl, htext, ?_⟩
      rw [hchannel, hout]
      exact List.mem_append_right _ hqueued

theorem KwinChain.Told.read (h : s.Told queue) (hheard : s.Heard queue) (nowMs : ℕ) (written : Bool)
    (howned : (s.read c nowMs written).Owned) : (s.read c nowMs written).Told queue := by
  unfold KwinChain.read at howned ⊢
  split_ifs at howned ⊢ with hguard
  · exact h
  rw [Bool.or_eq_true, not_or, Bool.not_eq_true, List.isEmpty_iff] at hguard
  obtain ⟨i, call, rest, -, hcall, hfront⟩ := hheard.kept.wired.front hguard.1 hguard.2
  obtain ⟨inbox, hrelay⟩ := channelStep_relay (c := c) s (.relay (.bytes s.wire) nowMs written)
  refine h.heard (c := c) hheard howned (.relay (.bytes s.wire) nowMs written) rfl ?_ ?_
  · show (s.channelStep c _).relay.callers = _
    rw [hrelay]
  · intro input nowMs' written' request rest' hstep hread
    rw [ChannelStep.relay.injEq] at hstep
    rw [← hstep.1] at hread
    rcases hfront with hnone | ⟨hsome, -⟩
    · rw [hnone] at hread
      cases hread
    · rw [hsome, Option.some.injEq, Prod.mk.injEq] at hread
      exact ⟨i, call, hcall, hread.1.symm⟩

theorem KwinChain.Told.step (h : s.Told queue) (hheard : s.Heard queue) (step : KwinChainStep σ)
    (hids : (s.step c pid step).relay.relay.nextRequestId < 2 ^ 64) : (s.step c pid step).Told queue := by
  have howned := h.owned.step hheard.kept step hids
  rcases @KwinChain.step_cases σ c pid s step with
    ⟨action, -, hrelay, -, -, hchannel⟩ | ⟨step', hstep, hhang⟩ | ⟨nowMs, written, hstep⟩
  · exact h.advance hheard howned hrelay hchannel
  · obtain ⟨inbox, hrelay⟩ := channelStep_relay (c := c) s step'
    rw [hstep] at howned ⊢
    refine h.heard hheard howned step' rfl (by rw [hrelay]) ?_
    intro input nowMs written request rest hrelay hread
    rw [hhang input nowMs written hrelay] at hread
    cases hread
  · rw [hstep] at howned ⊢
    exact h.read hheard nowMs written howned

theorem start_told (queue : KwinQueue) {generation : Bytes} (h : kwinQueueInit generation = some queue) (peer : Bytes) :
    (KwinChain.start queue peer).Told queue := by
  refine ⟨?_, ?_, .nil, nofun⟩
  · intro i call hcall
    cases hcall
  · intro job hjob hlive
    unfold kwinQueueInit at h
    split_ifs at h
    cases h
    rw [List.eq_of_mem_replicate hjob] at hlive
    cases hlive

/-- Along every run the daemon and the script have nothing that was not asked for. -/
theorem KwinChain.run_told {generation : Bytes} (h : kwinQueueInit generation = some queue) (peer : Bytes)
    (steps : List (KwinChainStep σ))
    (hids : (steps.foldl (KwinChain.step c pid) (.start queue peer)).relay.relay.nextRequestId < 2 ^ 64) :
    (steps.foldl (KwinChain.step c pid) (.start queue peer)).Told queue := by
  have hrun := Transition.Run.foldl (KwinChain.step c pid) (.start queue peer) steps
  have hboth := hrun.invariant (I := fun s => s.relay.relay.nextRequestId < 2 ^ 64 → s.Heard queue ∧ s.Told queue) ?_
    (fun _ => ⟨start_heard h peer, start_told queue h peer⟩) hids
  · exact hboth.2
  · intro s step t hs hstep hids
    rw [← hstep] at hids ⊢
    obtain ⟨hheard, htold⟩ := hs (lt_of_le_of_lt (s.next_le step) hids)
    exact ⟨hheard.step step hids, htold.step hheard step hids⟩

end Told

section Answered

variable {σ : Type} {queue : KwinQueue} {s : KwinChain} {i : ℕ} {e : Execution}

/-- Whose an execution is: an operation whose request was written whole and is carried out as its client sent it. -/
structure KwinChain.Serves (s : KwinChain) (i : ℕ) (e : Execution) (call : RelayCall) (d : KwinDispatch) : Prop where
  caller : (s.relay.callers i).call? = some call
  operation : (s.operating i).request? = some call.request
  written : s.relay.written i = (s.relay.text i).length
  job : e.job = scriptJob d
  opcode : d.opcode = call.request.opcode
  body : kwinRequestText call.request.opcode call.request.payload requestCapacity = some d.body
  queued : BusOutput.queued d.sequence call.requestId call.request.opcode ∈ s.channel.outputs
  executes : s.Executes i e

theorem eq_of_nodup_filterMap {α β : Type*} {f : α → Option β} {l : List α} (h : (l.filterMap f).Nodup) {a b : α}
    (ha : a ∈ l) (hb : b ∈ l) {x : β} (hax : f a = some x) (hbx : f b = some x) : a = b := by
  by_contra hne
  have hpairs := List.pairwise_filterMap.mp h
  have hsymm : Std.Symm fun a b : α => ∀ x, f a = some x → ∀ y, f b = some y → x ≠ y :=
    ⟨fun a b hab x hx y hy hxy => hab y hy x hx hxy.symm⟩
  exact hpairs.forall ha hb hne x hax x hbx rfl

/-- A request under a number that was queued was taken off the socket. -/
theorem KwinChain.Heard.whole_of_queued (h : s.Heard queue) {call : RelayCall} {sequence : Bytes} {opcode : Opcode}
    (hcall : (s.relay.callers i).call? = some call)
    (hqueued : BusOutput.queued sequence call.requestId opcode ∈ s.channel.outputs) :
    s.relay.written i = (s.relay.text i).length := by
  have hread : call.requestId ∈ readIds s.channel.outputs := List.mem_filterMap.mpr ⟨_, hqueued, rfl⟩
  obtain ⟨j, hj, hname⟩ := List.mem_map.mp (h.reads.subset hread)
  obtain ⟨other, hother, -⟩ := (h.kept.wired.begun j).mp (List.mem_of_mem_take hj)
  rw [named_of_call hother] at hname
  have hsame := h.kept.wired.named.apart j i other call hother hcall hname
  subst hsame
  exact h.kept.wired.ledger.read j hj

/-- A sequence is given to one request. -/
theorem KwinChain.Heard.queued_once (h : s.Heard queue) {sequence : Bytes} {id id' : BitVec 64} {opcode opcode' : Opcode}
    (hqueued : BusOutput.queued sequence id opcode ∈ s.channel.outputs)
    (hqueued' : BusOutput.queued sequence id' opcode' ∈ s.channel.outputs) : id = id' ∧ opcode = opcode' := by
  obtain ⟨events, hledger, hentered, -⟩ := h.bus.ledger
  have hfew := h.kept.wired.queued_few h.few h.reads
  have hnodup : (queuedOf s.channel.outputs).Nodup := by
    rw [← hentered, hledger.entered]
    refine List.Nodup.map_on ?_ List.nodup_range
    intro m hm n hn hmn
    rw [List.mem_range, hentered] at hm hn
    have hsucc := sequenceOf_injective (by omega) (by omega) hmn
    omega
  have hsame := eq_of_nodup_filterMap hnodup hqueued hqueued' rfl rfl
  rw [BusOutput.queued.injEq] at hsame
  exact hsame.2

/-- What the script has run was asked for by one operation, and is its only execution. -/
theorem KwinChain.Heard.served (h : s.Heard queue) (htold : s.Told queue) (he : e ∈ s.channel.executions) :
    ∃ i call d, s.Serves i e call d ∧ ∀ j, s.Executes j e → j = i := by
  have hjob : e.job ∈ toldOf queue.generation s.channel.outputs := by
    have hmem : e.job ∈ (s.channel.executions.map Execution.job : Multiset ScriptJob) := List.mem_map_of_mem he
    exact Multiset.mem_of_le (le_trans (Multiset.le_add_right _ _) h.channel.kept.taken) hmem
  obtain ⟨d, hd, i, call, hcall, hopcode, hbody, hqueued⟩ := htold.told e.job hjob
  have hsequence : e.head.1 = d.sequence := by
    apply KwinScript.ofBytes_injective
    rw [(h.channel.kept.spelled e he).ofBytes_head, hd]
    rfl
  have hexecutes : s.Executes i e := by
    refine ⟨he, call, d.opcode, hcall, ?_⟩
    rw [hsequence]
    exact hqueued
  refine ⟨i, call, d, ⟨hcall, htold.owned i call hcall, h.whole_of_queued hcall hqueued, hd, hopcode.symm, ?_, ?_,
    hexecutes⟩, ?_⟩
  · rw [hopcode]
    exact hbody
  · rw [hopcode]
    exact hqueued
  · rintro j ⟨-, other, opcode, hother, hqueued'⟩
    rw [hsequence] at hqueued'
    exact h.kept.wired.named.apart j i other call hother hcall (h.queued_once hqueued' hqueued).1

variable (c : Compositor σ) (pid : ℕ → ℕ)

/-- Whatever the script executes, in any run in which the relay's ids have not come round, it executes for exactly one
operation, once, and as that operation's client asked: under its opcode and with the text of its request. No sequence
is executed twice. -/
theorem execution_asked {generation : Bytes} (hinit : kwinQueueInit generation = some queue) (peer : Bytes)
    (steps : List (KwinChainStep σ)) (hrun : s = steps.foldl (KwinChain.step c pid) (.start queue peer))
    (hids : s.relay.relay.nextRequestId < 2 ^ 64) (he : e ∈ s.channel.executions) :
    (s.channel.executions.map fun e => e.head.1).Nodup ∧
      ∃ i call d, s.Serves i e call d ∧ (∀ j, s.Executes j e → j = i) ∧ ∀ e', s.Executes i e' → e' = e := by
  subst hrun
  have h := KwinChain.run_heard hinit peer steps hids
  refine ⟨h.channel.kept.once hinit (h.kept.wired.queued_few h.few h.reads), ?_⟩
  obtain ⟨i, call, d, hserves, honly⟩ := h.served (KwinChain.run_told hinit peer steps hids) he
  exact ⟨i, call, d, hserves, honly, fun e' he' => h.executes_once hinit hserves.executes he'⟩

/-- A list of windows is asked for and given. -/
def promptPoll : List (KwinChainStep Unit) :=
  [.request 0 rpcSession listCall listCall_sized, .refresh 0 stillGranted,
    .operate 0 rpcSession monitoringLease true (.admission (some (.kwin, BitVec.allOnes 64)) true true),
    .relay (.pack 0 true), .relay (.claim 0 true), .relay (.transfer 0 1000), .relay (.endWrite 0),
    .daemon (.receive .greeting 0 fun _ => true), .daemon (.callback .greeting fun _ => ()), .read 0 true,
    .daemon (.receive (.lane .slow) 1 fun _ => true), .daemon (.callback (.lane .slow) fun _ => ()),
    .daemon (.receive (.lane .slow) 2 fun _ => true), .relay (.takeReader 0 true), .relay (.readFrame 0),
    .relay (.endRead 0), .relay (.finish 0)]

def promptEnd : KwinChain := promptPoll.foldl (KwinChain.step (oneWindow []) fun _ => 1) (.start newQueue scriptPeer)

theorem promptPoll_asked : ∃ e ∈ promptEnd.channel.executions,
    (promptEnd.channel.executions.map fun e => e.head.1).Nodup ∧
      ∃ i call d, promptEnd.Serves i e call d ∧
        (∀ j, promptEnd.Executes j e → j = i) ∧ ∀ e', promptEnd.Executes i e' → e' = e := by
  have hsome : promptEnd.channel.executions ≠ [] := by decide +kernel
  obtain ⟨e, he⟩ := List.exists_mem_of_ne_nil _ hsome
  exact ⟨e, he, execution_asked (s := promptEnd) (oneWindow []) (fun _ => 1) kwinQueueInit_newQueue scriptPeer promptPoll rfl
    (by decide +kernel) he⟩

/-- What a call of the relay comes back with: the daemon's refusal of a request that was never executed, or the answer
of the request's one execution. -/
inductive KwinChain.Answer (s : KwinChain) (i : ℕ) (call : RelayCall) (frame : RelayFrame) : Prop
  | declined (answer : BusOutput.answered Option.none frame ∈ s.channel.outputs)
      (reason : frameStatus frame = Status.invalidRequest ∨ frameStatus frame = Status.busy)
      (none : ∀ e, ¬ s.Executes i e)
  | executed (e : Execution) (d : KwinDispatch) (own : s.Serves i e call d) (only : ∀ e', s.Executes i e' → e' = e)
      (line : KwinDone) (reported : line ∈ s.channel.lines) (sequence : line.sequence = d.sequence)
      (status : line.status = BitVec.ofNat 32 e.status)
      (answer : relayAnswer call.requestId call.request.opcode line.status line.body = some frame)

theorem answer_of_execution {generation : Bytes} (hinit : kwinQueueInit generation = some queue) (peer : Bytes)
    (steps : List (KwinChainStep σ)) (hrun : s = steps.foldl (KwinChain.step c pid) (.start queue peer))
    (hids : s.relay.relay.nextRequestId < 2 ^ 64) {call : RelayCall} {result : OperationResult}
    (hreturned : s.relay.callers i = .returned call result true) :
    ∃ frame a, PeerAnswer.ofFrame frame = some a ∧ answerResult a = some result ∧ frameId frame = call.requestId ∧
      s.Answer i call frame := by
  subst hrun
  have h := KwinChain.run_heard hinit peer steps hids
  have htold := KwinChain.run_told hinit peer steps hids
  generalize steps.foldl (KwinChain.step c pid) (.start queue peer) = s at h htold hreturned
  have hcall : (s.relay.callers i).call? = some call := by rw [hreturned]; rfl
  obtain ⟨a, ha, -, hid, hresult, -⟩ := h.delivery.own hreturned
  obtain ⟨sequence, frame, hanswered, hframe⟩ := h.origin a ha
  rw [ofFrame_id hframe] at hid
  refine ⟨frame, a, hframe, hresult, hid, ?_⟩
  cases sequence with
  | none =>
    refine .declined hanswered (htold.declined frame hanswered) ?_
    rintro e ⟨-, call', opcode, hcall', hqueued⟩
    rw [hcall, Option.some.injEq] at hcall'
    rw [← hcall', ← hid] at hqueued
    have hsame := eq_of_readId (h.kept.wired.reads_nodup h.reads) hqueued hanswered rfl rfl
    cases hsame
  | some sequence =>
    obtain ⟨requestId, opcode, line, hqueued, hline, hsequence, hanswer⟩ := h.bus.content sequence frame hanswered
    obtain ⟨hown, -⟩ := relayAnswer_fields hanswer
    have hreported : KwinScript.headOf line ∈ s.channel.executions.map Execution.head := by
      have hmem : KwinScript.headOf line ∈ s.channel.lines.map KwinScript.headOf := List.mem_map_of_mem hline
      exact Multiset.mem_of_le (le_trans (Multiset.le_add_right _ _) h.channel.reported) hmem
    obtain ⟨e, he, hhead⟩ := List.mem_map.mp hreported
    have hexecuted : e.head.1 = sequence := by
      rw [hhead]
      exact hsequence
    obtain ⟨j, own, d, hserves, honly⟩ := h.served htold he
    have hself : s.Executes i e := by
      refine ⟨he, call, opcode, hcall, ?_⟩
      rw [hexecuted, ← hid, hown]
      exact hqueued
    have hsame := honly i hself
    subst hsame
    have hcallers := hserves.caller
    rw [hcall, Option.some.injEq] at hcallers
    subst hcallers
    have hseq : d.sequence = sequence := by
      apply KwinScript.ofBytes_injective
      rw [← hexecuted, (h.channel.kept.spelled e he).ofBytes_head, hserves.job]
      rfl
    have hqueued' := hserves.queued
    rw [hseq] at hqueued'
    obtain ⟨hnumber, hopcode⟩ := h.queued_once hqueued' hqueued
    rw [← hnumber, ← hopcode] at hanswer
    refine .executed e d hserves (fun e' he' => h.executes_once hinit hself he') line hline ?_ ?_ hanswer
    · rw [hseq]
      exact hsequence
    · exact (congrArg Prod.snd hhead).symm

/-- Whether a call came back with an answer of the peer. -/
def Caller.answered : Caller → Bool
  | .returned _ _ answered => answered
  | _ => false

theorem Caller.answered_returned {caller : Caller} (h : caller.answered = true) :
    ∃ call result, caller = .returned call result true := by
  cases caller with
  | returned call result answered =>
    obtain rfl : answered = true := h
    exact ⟨call, result, rfl⟩
  | _ => exact absurd h Bool.false_ne_true

theorem promptPoll_answered : ∃ call frame, promptEnd.Answer 0 call frame := by
  have hback : (promptEnd.relay.callers 0).answered = true := by decide +kernel
  obtain ⟨call, result, hreturned⟩ := Caller.answered_returned hback
  obtain ⟨frame, -, -, -, -, hanswer⟩ := answer_of_execution (s := promptEnd) (oneWindow []) (fun _ => 1) kwinQueueInit_newQueue
    scriptPeer promptPoll rfl (by decide +kernel) hreturned
  exact ⟨call, frame, hanswer⟩

end Answered

end KeysharpDesktop
