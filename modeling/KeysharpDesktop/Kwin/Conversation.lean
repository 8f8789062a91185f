import KeysharpDesktop.Kwin.Channel

/-! What the daemon and the script keep between them: every job is told to one call, run once and reported
once, whatever the order of their calls. -/
namespace KeysharpDesktop.KwinScript

open JsText (Text)
open scoped List

section Phases

variable {generation : Bytes} {out : List BusOutput} {p p' : BusPhase} {batch : List Execution}

/-- The jobs of a reply that its callback has yet to run. -/
def unread (generation : Bytes) : BusPhase → List ScriptJob
  | .back .poll text => (parsePollReply (JsText.ofBytes generation) (JsText.ofBytes text)).getD []
  | _ => []

/-- The results of a batch that are on their way to the daemon. -/
def outstanding (batch : List Execution) : BusPhase → List Execution
  | .sent .report _ _ => batch
  | _ => []

theorem outstanding_hear (batch : List Execution) (p : BusPhase) (out : List BusOutput) :
    outstanding batch (p.hear out) = outstanding batch p := by
  rcases hear_cases p out with hsame | ⟨method, i, rfl, ⟨text, hback, -⟩ | hdropped⟩
  · rw [hsame]
  · rw [hback]
    rfl
  · rw [hdropped]
    rfl

/-- A call hears of jobs only as the poll that they are told to. -/
theorem unread_hear (generation : Bytes) (p : BusPhase) (out : List BusOutput) :
    unread generation (p.hear out) = unread generation p ∨
      ∃ i, p = .held .poll i ∧ unread generation (p.hear out) = toldTo generation i out := by
  cases p with
  | held method i =>
    cases hfind : out.findSome? (answerTo i) with
    | none =>
      left
      simp only [BusPhase.hear, hfind]
    | some answer =>
      cases answer with
      | none =>
        left
        simp only [BusPhase.hear, hfind]
        rfl
      | some text =>
        have htold : toldTo generation i out = unread generation (.back .poll text) := by
          simp only [toldTo, hfind]
          rfl
        simp only [BusPhase.hear, hfind]
        cases method with
        | poll => exact .inr ⟨i, rfl, htold.symm⟩
        | _ => exact .inl rfl
  | _ => exact .inl rfl

/-- Two calls hear of no more jobs than are told. -/
theorem unread_add_hear (hapart : ∀ i, p = .held .poll i → p' ≠ .held .poll i) :
    (unread generation (p.hear out) : Multiset ScriptJob) + unread generation (p'.hear out) ≤
      unread generation p + unread generation p' + toldOf generation out := by
  have hnone : ∀ i, unread generation (.held .poll i) = [] := fun _ => rfl
  rcases unread_hear generation p out with h | ⟨i, rfl, h⟩
  · rcases unread_hear generation p' out with h' | ⟨j, rfl, h'⟩
    · rw [h, h']
      exact Multiset.le_add_right _ _
    · rw [h, h', hnone, Multiset.coe_nil, add_zero]
      exact add_le_add le_rfl (toldTo_le generation j out)
  · rcases unread_hear generation p' out with h' | ⟨j, rfl, h'⟩
    · rw [h, h', hnone, Multiset.coe_nil, zero_add, add_comm]
      exact add_le_add le_rfl (toldTo_le generation i out)
    · rw [h, h', hnone, hnone, Multiset.coe_nil, zero_add, zero_add]
      refine toldTo_add_le generation ?_ out
      rintro rfl
      exact hapart i rfl rfl

end Phases

section Updates

variable (script : Script) (caller : ScriptCaller) (phase : BusPhase) (l : ScriptLane) (lost : ℕ)
  (out : List BusOutput)

@[simp] theorem set_generation : (script.set caller phase).generation = script.generation := rfl

@[simp] theorem set_running : (script.set caller phase).running = script.running := rfl

@[simp] theorem set_handles : (script.set caller phase).handles = script.handles := rfl

@[simp] theorem set_phase_self : (script.set caller phase).phase caller = phase := Function.update_self _ _ _

theorem set_phase_of_ne {script : Script} {caller other : ScriptCaller} {phase : BusPhase} (h : other ≠ caller) :
    (script.set caller phase).phase other = script.phase other := Function.update_of_ne h _ _

@[simp] theorem hear_generation : (script.hear out).generation = script.generation := rfl

@[simp] theorem hear_running : (script.hear out).running = script.running := rfl

@[simp] theorem hear_phase : (script.hear out).phase caller = (script.phase caller).hear out := rfl

theorem pollLane_running (h : script.running = true) : script.pollLane l lost =
    script.set (.lane l) (.sent .poll script.generation (buildPoll script.generation l.name 0 lost)) := by
  rw [Script.pollLane, h]
  rfl

theorem lane_ne_greeting : ScriptCaller.lane l ≠ .greeting := nofun

end Updates

section Answers

variable {bus : KwinBus} {batch : List Execution} {p : BusPhase} {nowMs : ℕ} {written : ℕ → Bool}
  {generation envelope : Bytes}

/-- The method calls of a dispatch. -/
def callsOf : BusCall → ℕ
  | .method _ _ _ _ _ _ => 1
  | _ => 0

theorem releasePark_frame (bus : KwinBus) (lane : KwinLane) (nowMs : ℕ) :
    (releasePark bus lane nowMs).1.peer = bus.peer ∧
      (releasePark bus lane nowMs).1.invocations = bus.invocations := by
  unfold releasePark
  split
  · exact ⟨rfl, rfl⟩
  · exact ⟨rfl, rfl⟩

theorem relayDrainFrom_frame (written : ℕ → Bool) (left index : ℕ) (bus : KwinBus) :
    (relayDrainFrom written left index bus).1.peer = bus.peer ∧
      (relayDrainFrom written left index bus).1.invocations = bus.invocations := by
  induction left generalizing index bus with
  | zero => exact ⟨rfl, rfl⟩
  | succ left ih =>
    obtain ⟨hpeer, hcount⟩ := ih (index + 1) (drainSlot bus index (written index)).1
    have hslot : (drainSlot bus index (written index)).1.peer = bus.peer ∧
        (drainSlot bus index (written index)).1.invocations = bus.invocations := by
      rcases drainSlot_cases bus index (written index) with h | ⟨slot, status, body, -, -, -, h⟩
      · rw [h]
        exact ⟨rfl, rfl⟩
      · rw [h]
        exact ⟨rfl, rfl⟩
    exact ⟨hpeer.trans hslot.1, hcount.trans hslot.2⟩

theorem relayDrain_frame (written : ℕ → Bool) (bus : KwinBus) :
    (relayDrain bus written).1.peer = bus.peer ∧ (relayDrain bus written).1.invocations = bus.invocations := by
  unfold relayDrain
  exact relayDrainFrom_frame written kwinMaxJobs 0 bus

/-- A daemon serves one peer, and counts the calls it gets. -/
theorem busStep_frame (bus : KwinBus) (call : BusCall) :
    (busStep bus call).peer = bus.peer ∧ (busStep bus call).invocations = bus.invocations + callsOf call := by
  have hidle : ∀ lane nowMs, (idleFired bus lane nowMs).1.peer = bus.peer ∧
      (idleFired bus lane nowMs).1.invocations = bus.invocations := by
    intro lane nowMs
    unfold idleFired
    split_ifs
    · exact releasePark_frame bus lane nowMs
    · exact ⟨rfl, rfl⟩
  cases call with
  | relay input nowMs written =>
    simp only [busStep, busDispatch, relayReadable]
    split
    · exact ⟨rfl, rfl⟩
    · next request _ _ =>
      rcases relayRequest_cases bus request nowMs written with
        ⟨status, -, hrequest⟩ | ⟨text, index, slot, queue, sequence, -, -, -, -, hrequest⟩
      · rw [hrequest]
        exact ⟨rfl, rfl⟩
      · rw [hrequest]
        exact releasePark_frame _ _ _
  | method sender generation method envelope nowMs written =>
    have hhandled := handleCall_handled bus sender generation method envelope nowMs written
    simp only [busStep, busDispatch, callsOf]
    generalize handleCall bus sender generation method envelope nowMs written = result at hhandled
    generalize methodLines bus sender generation method envelope = lines at hhandled
    cases hhandled with
    | reported queue reply _ =>
      have hdrain := relayDrain_frame written (bus.counted queue)
      generalize relayDrain (bus.counted queue) written = drained at hdrain
      exact hdrain
    | parked queue poll _ _ => exact releasePark_frame (bus.counted queue) poll.lane nowMs
    | _ => exact ⟨rfl, rfl⟩
  | idleFast nowMs => exact hidle .fast nowMs
  | idleSlow nowMs => exact hidle .slow nowMs

theorem busReply_answers (i : Invocation) (reply : Option Buffer) :
    ∃ o ∈ busReply i reply, answerTo i o ≠ none := by
  cases reply with
  | none => exact ⟨_, List.mem_singleton_self _, by simp [answerTo]⟩
  | some reply => exact ⟨_, List.mem_singleton_self _, by simp [answerTo]⟩

/-- Every method but the poll is answered at once. -/
theorem handleCall_answers (bus : KwinBus) (sender generation envelope : Bytes) (nowMs : ℕ) (written : ℕ → Bool)
    {method : BusMethod} (hmethod : method ≠ .poll) :
    ∃ o ∈ (handleCall bus sender generation method envelope nowMs written).2, answerTo bus.invocations o ≠ none := by
  have hhandled := handleCall_handled bus sender generation method envelope nowMs written
  generalize handleCall bus sender generation method envelope nowMs written = result at hhandled
  generalize methodLines bus sender generation method envelope = lines at hhandled
  cases hhandled with
  | denied _ text => exact ⟨_, List.mem_singleton_self _, by simp [answerTo]⟩
  | acknowledged _ reply _ => exact busReply_answers bus.invocations reply
  | reported queue reply _ =>
    obtain ⟨o, ho, hanswer⟩ := busReply_answers bus.invocations (some reply)
    exact ⟨o, List.mem_append_right _ ho, hanswer⟩
  | unreported queue reply _ => exact busReply_answers bus.invocations none
  | polled queue reply _ => exact absurd rfl hmethod
  | parked queue poll _ _ => exact absurd rfl hmethod
  | unpolled queue _ => exact absurd rfl hmethod

/-- How a call of a lane can stand: it polls, has jobs to run, or reports what came of them. -/
inductive LaneFits (generation : Bytes) (bus : KwinBus) (batch : List Execution) : BusPhase → Prop
  | off : LaneFits generation bus batch .off
  | dropped : LaneFits generation bus batch .dropped
  | polling (envelope : Text) : LaneFits generation bus batch (.sent .poll (JsText.ofBytes generation) envelope)
  | waiting (i : ℕ) (named : uniqueNameValid bus.peer) (past : i < bus.invocations) :
      LaneFits generation bus batch (.held .poll i)
  | told (text : Bytes) (named : uniqueNameValid bus.peer) (reply : IsReply generation text) :
      LaneFits generation bus batch (.back .poll text)
  | reporting (named : uniqueNameValid bus.peer) (some : batch ≠ []) :
      LaneFits generation bus batch
        (.sent .report (JsText.ofBytes generation) (buildReport (JsText.ofBytes generation) batch))
  | acknowledged (text : Bytes) : LaneFits generation bus batch (.back .report text)

/-- How the greeting can stand. -/
inductive GreetingFits (generation : Bytes) : BusPhase → Prop
  | off : GreetingFits generation .off
  | dropped : GreetingFits generation .dropped
  | greeting (envelope : Text) : GreetingFits generation (.sent .hello [] envelope)
  | welcomed : GreetingFits generation (.back .hello (reportAckText generation))

theorem LaneFits.hear (h : LaneFits bus.queue.generation bus batch p) (hsend : bus.queue.Sendable) (call : BusCall) :
    LaneFits bus.queue.generation (busStep bus call) batch (p.hear (busOutputs bus call)) := by
  obtain ⟨hpeer, hcount⟩ := busStep_frame bus call
  cases h with
  | off => exact .off
  | dropped => exact .dropped
  | polling envelope => exact .polling envelope
  | waiting i hnamed hpast =>
    have hnamed : uniqueNameValid (busStep bus call).peer := by rwa [hpeer]
    rcases hear_cases (.held .poll i) (busOutputs bus call) with hsame | ⟨method, j, hheld, hheard⟩
    · rw [hsame]
      exact .waiting i hnamed (by omega)
    · cases hheld
      rcases hheard with ⟨text, hback, hreturned⟩ | hdropped
      · rw [hback]
        rcases (busStep_replies hsend call).returned i text hreturned with ⟨-, hreply⟩ | ⟨hi, -⟩
        · exact .told text hnamed hreply
        · exact absurd hi (Nat.ne_of_lt hpast)
      · rw [hdropped]
        exact .dropped
  | told text hnamed hreply => exact .told text (by rwa [hpeer]) hreply
  | reporting hnamed hsome => exact .reporting (by rwa [hpeer]) hsome
  | acknowledged text => exact .acknowledged text

theorem callAllowed_named {method : BusMethod} (hmethod : method ≠ .hello)
    (h : callAllowed bus bus.peer generation method) : uniqueNameValid bus.peer := by
  have hallowed : (bus.peer == bus.peer &&
      kwinPeerAllowed bus.peer bus.peer bus.queue.generation generation) = true := by
    cases method with
    | hello => exact absurd rfl hmethod
    | _ => exact h
  simp only [kwinPeerAllowed, Bool.and_eq_true] at hallowed
  exact hallowed.2.1.1.1.1.1

/-- What a poll can come to once the daemon has it. -/
theorem laneFits_poll (hsend : bus.queue.Sendable) {call : BusCall}
    (hcall : call = .method bus.peer generation .poll envelope nowMs written) :
    LaneFits bus.queue.generation (busStep bus call) batch
      ((BusPhase.held .poll bus.invocations).hear (busOutputs bus call)) := by
  obtain ⟨hpeer, hcount⟩ := busStep_frame bus call
  by_cases hallowed : callAllowed bus bus.peer generation .poll
  · have hnamed : uniqueNameValid (busStep bus call).peer := by
      rw [hpeer]
      have hmethod : BusMethod.poll ≠ .hello := nofun
      exact callAllowed_named hmethod hallowed
    rcases hear_cases (.held .poll bus.invocations) (busOutputs bus call) with hsame | ⟨method, j, hheld, hheard⟩
    · rw [hsame]
      refine .waiting _ hnamed ?_
      rw [hcount, hcall]
      exact Nat.lt_succ_self _
    · cases hheld
      rcases hheard with ⟨text, hback, hreturned⟩ | hdropped
      · rw [hback]
        rcases (busStep_replies hsend call).returned _ text hreturned with ⟨-, hreply⟩ | ⟨-, hother, -⟩
        · exact .told text hnamed hreply
        · rw [hcall] at hother
          exact absurd rfl hother
      · rw [hdropped]
        exact .dropped
  · have hout : busOutputs bus call = [.error bus.invocations deniedText] := by
      rw [hcall]
      simp only [busOutputs, busDispatch, handleCall, hallowed, Bool.not_false, if_true]
    have hdropped : (BusPhase.held .poll bus.invocations).hear (busOutputs bus call) = .dropped := by
      rw [hout]
      simp [BusPhase.hear, answerTo]
    rw [hdropped]
    exact .dropped

theorem laneFits_report {call : BusCall}
    (hcall : call = .method bus.peer generation .report envelope nowMs written) :
    (∃ text, (BusPhase.held .report bus.invocations).hear (busOutputs bus call) = .back .report text) ∨
      (BusPhase.held .report bus.invocations).hear (busOutputs bus call) = .dropped := by
  have hanswers := handleCall_answers bus bus.peer generation envelope nowMs written
    (show BusMethod.report ≠ .poll from nofun)
  rw [hcall]
  rcases hear_answered hanswers with ⟨text, hback, -⟩ | hdropped
  · exact .inl ⟨text, hback⟩
  · exact .inr hdropped

theorem greetingFits_hello (bus : KwinBus) (envelope : Bytes) {call : BusCall}
    (hcall : call = .method bus.peer generation .hello envelope nowMs written) :
    GreetingFits bus.queue.generation ((BusPhase.held .hello bus.invocations).hear (busOutputs bus call)) := by
  have hanswers := handleCall_answers bus bus.peer generation envelope nowMs written
    (show BusMethod.hello ≠ .poll from nofun)
  have hacks := handleCall_acknowledges bus bus.peer generation envelope nowMs written (.inl rfl)
  have hout : busOutputs bus call = (handleCall bus bus.peer generation .hello envelope nowMs written).2 := by
    rw [hcall]
    rfl
  rw [hout]
  rcases hear_answered hanswers with ⟨text, hback, hreturned⟩ | hdropped
  · rw [hback]
    rcases hacks with hdenied | hack
    · rw [hdenied] at hreturned
      simp at hreturned
    · rw [hack] at hreturned
      obtain ⟨-, htext⟩ := busReply_ack (fun r hr => hr) hreturned
      rw [htext]
      exact .welcomed
  · rw [hdropped]
    exact .dropped

theorem GreetingFits.hear (h : GreetingFits generation p) (out : List BusOutput) :
    GreetingFits generation (p.hear out) := by
  cases h with
  | off => exact .off
  | dropped => exact .dropped
  | greeting envelope => exact .greeting envelope
  | welcomed => exact .welcomed

end Answers

section Sound

/-- What neither the daemon nor the script can undo: jobs are taken as they are told, and only lanes that have
the daemon's generation go on. -/
structure Channel.Kept (queue : KwinQueue) (s : Channel) : Prop where
  sendable : s.bus.queue.Sendable
  hands : Hands queue s.bus.queue s.outputs s.lines
  early : s.script.phase .greeting ≠ .off → ∀ l, s.script.phase (.lane l) = .off
  late : ∀ l, s.script.phase (.lane l) ≠ .off →
    s.script.running ∧ s.script.generation = JsText.ofBytes queue.generation
  apart : ∀ i, s.script.phase (.lane .fast) = .held .poll i → s.script.phase (.lane .slow) ≠ .held .poll i
  taken : (s.executions.map Execution.job : Multiset ScriptJob) +
      (unread queue.generation (s.script.phase (.lane .fast)) +
        unread queue.generation (s.script.phase (.lane .slow))) ≤ toldOf queue.generation s.outputs
  spelled : ∀ e ∈ s.executions, e.Spelled
  batched : ∀ l, ∀ e ∈ s.batch l, e ∈ s.executions
  honest : ∀ e ∈ s.executions, e.status = statusBusy → exhausted e.job ∧ e.actions = []

/-- The results that are reported, or on their way, are results of the script. -/
structure Channel.Sound (queue : KwinQueue) (s : Channel) : Prop where
  kept : s.Kept queue
  greeting : GreetingFits queue.generation (s.script.phase .greeting)
  lanes : ∀ l, LaneFits queue.generation s.bus (s.batch l) (s.script.phase (.lane l))
  reported : (s.lines.map headOf : Multiset (Bytes × BitVec 32)) +
      ((outstanding (s.batch .fast) (s.script.phase (.lane .fast))).map Execution.head +
        (outstanding (s.batch .slow) (s.script.phase (.lane .slow))).map Execution.head) ≤
    (s.executions.map Execution.head : List _)

variable {queue : KwinQueue} {s : Channel} {l : ScriptLane}

theorem Channel.Kept.generation (h : s.Kept queue) : s.bus.queue.generation = queue.generation := h.hands.generation

theorem hear_eq_held {p : BusPhase} {out : List BusOutput} {method : BusMethod} {i : Invocation}
    (h : p.hear out = .held method i) : p = .held method i := by
  rcases hear_cases p out with hsame | ⟨method', j, rfl, ⟨text, hback, -⟩ | hdropped⟩
  · rwa [hsame] at h
  · rw [hback] at h
    cases h
  · rw [hdropped] at h
    cases h

theorem hear_ne_off {p : BusPhase} {out : List BusOutput} (h : p.hear out ≠ .off) : p ≠ .off := by
  rintro rfl
  exact h rfl

/-- What is kept stays so when the daemon dispatches. -/
theorem Channel.Kept.dispatch (h : s.Kept queue) (call : BusCall) : (s.dispatch call).Kept queue := by
  refine ⟨busStep_sendable h.sendable call, h.hands.trans (busStep_hands h.sendable call), ?_, ?_, ?_, ?_,
    h.spelled, h.batched, h.honest⟩
  · intro hgreeting l
    have hoff := h.early (hear_ne_off hgreeting) l
    show (s.script.phase (.lane l)).hear _ = .off
    rw [hoff]
    rfl
  · intro l hl
    exact h.late l (hear_ne_off hl)
  · intro i hfast hslow
    exact h.apart i (hear_eq_held hfast) (hear_eq_held hslow)
  · have hunread := @unread_add_hear queue.generation (busOutputs s.bus call) (s.script.phase (.lane .fast))
      (s.script.phase (.lane .slow)) h.apart
    show (s.executions.map Execution.job : Multiset ScriptJob) +
      (unread queue.generation ((s.script.phase (.lane .fast)).hear (busOutputs s.bus call)) +
        unread queue.generation ((s.script.phase (.lane .slow)).hear (busOutputs s.bus call))) ≤
      (toldOf queue.generation (s.outputs ++ busOutputs s.bus call) : List ScriptJob)
    rw [toldOf_append, ← Multiset.coe_add]
    calc _ ≤ (s.executions.map Execution.job : Multiset ScriptJob) +
          (unread queue.generation (s.script.phase (.lane .fast)) +
            unread queue.generation (s.script.phase (.lane .slow)) +
              toldOf queue.generation (busOutputs s.bus call)) := add_le_add le_rfl hunread
      _ = (s.executions.map Execution.job : Multiset ScriptJob) +
          (unread queue.generation (s.script.phase (.lane .fast)) +
            unread queue.generation (s.script.phase (.lane .slow))) +
              toldOf queue.generation (busOutputs s.bus call) := (add_assoc _ _ _).symm
      _ ≤ _ := add_le_add h.taken le_rfl

/-- A dispatch that completes no job keeps all of it. -/
theorem Channel.Sound.dispatch (h : s.Sound queue) {call : BusCall} (hlines : busLines s.bus call = []) :
    (s.dispatch call).Sound queue := by
  have hgen := h.kept.generation
  refine ⟨h.kept.dispatch call, h.greeting.hear _, ?_, ?_⟩
  · intro l
    have hlane := h.lanes l
    rw [← hgen] at hlane ⊢
    exact hlane.hear h.kept.sendable call
  · simp only [Channel.dispatch, hear_phase, outstanding_hear, hlines, List.append_nil]
    exact h.reported

/-- A call that reaches the daemon. -/
def Channel.hold (s : Channel) (caller : ScriptCaller) (method : BusMethod) : Channel :=
  { s with script := s.script.set caller (.held method s.bus.invocations) }

theorem LaneFits.held_lt {generation : Bytes} {bus : KwinBus} {batch : List Execution} {method : BusMethod} {i : ℕ}
    (h : LaneFits generation bus batch (.held method i)) : i < bus.invocations := by
  cases h with
  | waiting _ _ hpast => exact hpast

theorem Channel.Sound.hold (h : s.Sound queue) {caller : ScriptCaller} {method : BusMethod} {generation envelope : Text}
    (hsent : s.script.phase caller = .sent method generation envelope) : (s.hold caller method).Kept queue := by
  have hkept := h.kept
  have hother : ∀ c, c ≠ caller → (s.hold caller method).script.phase c = s.script.phase c :=
    fun c hc => set_phase_of_ne hc
  have hself : (s.hold caller method).script.phase caller = .held method s.bus.invocations := set_phase_self _ _ _
  have hoff : ∀ c, (s.hold caller method).script.phase c ≠ .off → s.script.phase c ≠ .off := by
    intro c hc
    by_cases hcaller : c = caller
    · rw [hcaller, hsent]
      exact nofun
    · rwa [hother c hcaller] at hc
  have hunread : ∀ c, unread queue.generation ((s.hold caller method).script.phase c) =
      unread queue.generation (s.script.phase c) := by
    intro c
    by_cases hcaller : c = caller
    · rw [hcaller, hself, hsent]
      rfl
    · rw [hother c hcaller]
  have hfresh : ∀ l l', l ≠ l' → caller = .lane l → ∀ i, (s.hold caller method).script.phase (.lane l) = .held .poll i →
      (s.hold caller method).script.phase (.lane l') ≠ .held .poll i := by
    intro l l' hne hcaller i hl hl'
    rw [hother _ (by rw [hcaller]; exact fun heq => hne (ScriptCaller.lane.inj heq).symm)] at hl'
    rw [← hcaller, hself] at hl
    have hi : i = s.bus.invocations := by
      cases hl
      rfl
    have hfits := h.lanes l'
    rw [hl', hi] at hfits
    exact absurd hfits.held_lt (Nat.lt_irrefl _)
  refine ⟨hkept.sendable, hkept.hands, ?_, ?_, ?_, ?_, hkept.spelled, hkept.batched, hkept.honest⟩
  · intro hgreeting l
    have hlane := hkept.early (hoff _ hgreeting) l
    have hne : ScriptCaller.lane l ≠ caller := by
      intro heq
      rw [heq, hsent] at hlane
      cases hlane
    rw [hother _ hne]
    exact hlane
  · intro l hl
    exact hkept.late l (hoff _ hl)
  · intro i hfast hslow
    by_cases hcfast : caller = .lane .fast
    · exact hfresh .fast .slow nofun hcfast i hfast hslow
    · by_cases hcslow : caller = .lane .slow
      · exact hfresh .slow .fast nofun hcslow i hslow hfast
      · rw [hother _ (Ne.symm hcfast)] at hfast
        rw [hother _ (Ne.symm hcslow)] at hslow
        exact hkept.apart i hfast hslow
  · rw [hunread, hunread]
    exact hkept.taken

theorem receive_eq {caller : ScriptCaller} {method : BusMethod} {generation envelope : Text}
    (hsent : s.script.phase caller = .sent method generation envelope) (nowMs : ℕ) (written : ℕ → Bool) :
    s.receive caller nowMs written = (s.hold caller method).dispatch (.method s.bus.peer
      (cString (JsText.toUtf8 generation)) method (cString (JsText.toUtf8 envelope)) nowMs written) := by
  rw [Channel.receive, hsent]
  rfl

theorem methodLines_of_ne {bus : KwinBus} {sender generation envelope : Bytes} {method : BusMethod}
    (h : method ≠ .report) : methodLines bus sender generation method envelope = [] := by
  unfold methodLines
  split_ifs
  · rfl
  · cases method with
    | report => exact absurd rfl h
    | _ => rfl

/-- What a report completes jobs with is among the batch that it was built from. -/
theorem Channel.Kept.methodLines_heads (h : s.Kept queue) (l : ScriptLane) (sender generation : Bytes) :
    ((methodLines s.bus sender generation .report (cString (JsText.toUtf8
      (buildReport (JsText.ofBytes queue.generation) (s.batch l))))).map headOf : Multiset (Bytes × BitVec 32)) ≤
    ((s.batch l).map Execution.head : List _) := by
  have hg : validGeneration queue.generation := by
    rw [← h.generation]
    exact h.sendable.generation
  unfold methodLines
  split_ifs
  · exact Multiset.zero_le _
  · rw [Multiset.coe_le]
    exact (reportedLines_heads hg fun e he => h.spelled e (h.batched l e he)).subperm

theorem Channel.Sound.receive_lane (h : s.Sound queue) {caller : ScriptCaller} {method : BusMethod}
    {generation envelope : Text} (hsent : s.script.phase caller = .sent method generation envelope) (nowMs : ℕ)
    (written : ℕ → Bool) (l : ScriptLane) :
    LaneFits queue.generation (s.receive caller nowMs written).bus (s.batch l)
      ((s.receive caller nowMs written).script.phase (.lane l)) := by
  have hgen := h.kept.generation
  have hfits := h.lanes l
  rw [← hgen] at hfits ⊢
  rw [receive_eq hsent]
  by_cases hcaller : ScriptCaller.lane l = caller
  · rw [hcaller, hsent] at hfits
    have hheld : (s.hold caller method).script.phase (.lane l) = .held method s.bus.invocations := by
      rw [hcaller]
      exact set_phase_self _ _ _
    simp only [Channel.dispatch, hear_phase, hheld]
    cases hfits with
    | polling envelope => exact laneFits_poll h.kept.sendable rfl
    | reporting hnamed hsome =>
      rcases @laneFits_report s.bus nowMs written (cString (JsText.toUtf8 (JsText.ofBytes s.bus.queue.generation)))
          (cString (JsText.toUtf8 (buildReport (JsText.ofBytes s.bus.queue.generation) (s.batch l)))) _ rfl with
        ⟨text, hback⟩ | hdropped
      · rw [show (s.hold caller .report).bus = s.bus from rfl, hback]
        exact .acknowledged text
      · rw [show (s.hold caller .report).bus = s.bus from rfl, hdropped]
        exact .dropped
  · have hsame : (s.hold caller method).script.phase (.lane l) = s.script.phase (.lane l) := set_phase_of_ne hcaller
    simp only [Channel.dispatch, hear_phase, hsame]
    exact hfits.hear h.kept.sendable _

theorem Channel.Sound.receive_greeting (h : s.Sound queue) {caller : ScriptCaller} {method : BusMethod}
    {generation envelope : Text} (hsent : s.script.phase caller = .sent method generation envelope) (nowMs : ℕ)
    (written : ℕ → Bool) :
    GreetingFits queue.generation ((s.receive caller nowMs written).script.phase .greeting) := by
  have hfits := h.greeting
  rw [receive_eq hsent]
  by_cases hcaller : ScriptCaller.greeting = caller
  · rw [hcaller, hsent] at hfits
    have hheld : (s.hold caller method).script.phase .greeting = .held method s.bus.invocations := by
      rw [hcaller]
      exact set_phase_self _ _ _
    simp only [Channel.dispatch, hear_phase, hheld]
    cases hfits with
    | greeting envelope =>
      rw [← h.kept.generation]
      exact greetingFits_hello s.bus _ rfl
  · have hsame : (s.hold caller method).script.phase .greeting = s.script.phase .greeting := set_phase_of_ne hcaller
    simp only [Channel.dispatch, hear_phase, hsame]
    exact hfits.hear _

theorem Channel.Sound.receive_outstanding {caller : ScriptCaller} {method : BusMethod} {generation envelope : Text}
    (hsent : s.script.phase caller = .sent method generation envelope) (nowMs : ℕ) (written : ℕ → Bool)
    (batch : List Execution) (c : ScriptCaller) :
    outstanding batch ((s.receive caller nowMs written).script.phase c) =
      if c = caller then [] else outstanding batch (s.script.phase c) := by
  rw [receive_eq hsent]
  simp only [Channel.dispatch, hear_phase, outstanding_hear]
  by_cases hcaller : c = caller
  · rw [if_pos hcaller, hcaller, Channel.hold]
    simp only [set_phase_self]
    rfl
  · rw [if_neg hcaller, Channel.hold]
    simp only [set_phase_of_ne hcaller]

theorem Channel.Sound.receive_reported (h : s.Sound queue) {caller : ScriptCaller} {method : BusMethod}
    {generation envelope : Text} (hsent : s.script.phase caller = .sent method generation envelope) (nowMs : ℕ)
    (written : ℕ → Bool) :
    ((s.receive caller nowMs written).lines.map headOf : Multiset (Bytes × BitVec 32)) +
      ((outstanding (s.batch .fast) ((s.receive caller nowMs written).script.phase (.lane .fast))).map Execution.head +
        (outstanding (s.batch .slow) ((s.receive caller nowMs written).script.phase (.lane .slow))).map
          Execution.head) ≤ (s.executions.map Execution.head : List _) := by
  have hlines : (s.receive caller nowMs written).lines = s.lines ++ methodLines s.bus s.bus.peer
      (cString (JsText.toUtf8 generation)) method (cString (JsText.toUtf8 envelope)) := by
    rw [receive_eq hsent]
    rfl
  have hreported := h.reported
  rw [receive_outstanding hsent, receive_outstanding hsent, hlines, List.map_append, ← Multiset.coe_add]
  by_cases hmethod : method = .report
  swap
  · have hnone : ∀ batch l, outstanding batch (s.script.phase (.lane l)) =
        if ScriptCaller.lane l = caller then [] else outstanding batch (s.script.phase (.lane l)) := by
      intro batch l
      split_ifs with hcaller
      · rw [hcaller, hsent]
        cases method with
        | report => exact absurd rfl hmethod
        | _ => rfl
      · rfl
    rw [← hnone, ← hnone, methodLines_of_ne hmethod, List.map_nil, Multiset.coe_nil, add_zero]
    exact hreported
  subst hmethod
  have hcaller : ∃ l, caller = .lane l := by
    cases caller with
    | greeting =>
      have hgreeting := h.greeting
      rw [hsent] at hgreeting
      cases hgreeting
    | lane l => exact ⟨l, rfl⟩
  obtain ⟨l, rfl⟩ := hcaller
  have henvelope : envelope = buildReport (JsText.ofBytes queue.generation) (s.batch l) := by
    have hfits := h.lanes l
    rw [hsent] at hfits
    cases hfits
    rfl
  have hheads := h.kept.methodLines_heads l s.bus.peer (cString (JsText.toUtf8 generation))
  rw [← henvelope] at hheads
  cases l with
  | fast =>
    rw [hsent] at hreported
    rw [if_pos rfl, if_neg nofun, List.map_nil, Multiset.coe_nil, zero_add, add_assoc]
    exact le_trans (add_le_add le_rfl (add_le_add hheads le_rfl)) hreported
  | slow =>
    rw [hsent] at hreported
    rw [if_neg nofun, if_pos rfl, List.map_nil, Multiset.coe_nil, add_zero, add_assoc,
      add_comm (methodLines s.bus _ _ _ _ |>.map headOf : Multiset (Bytes × BitVec 32))]
    exact le_trans (add_le_add le_rfl (add_le_add le_rfl hheads)) hreported

theorem Channel.Sound.receive (h : s.Sound queue) (caller : ScriptCaller) (nowMs : ℕ) (written : ℕ → Bool) :
    (s.receive caller nowMs written).Sound queue := by
  cases hphase : s.script.phase caller with
  | sent method generation envelope =>
    have hdispatch := (h.hold hphase).dispatch (.method s.bus.peer (cString (JsText.toUtf8 generation)) method
      (cString (JsText.toUtf8 envelope)) nowMs written)
    rw [← receive_eq hphase] at hdispatch
    have hbatch : (s.receive caller nowMs written).batch = s.batch := by
      rw [receive_eq hphase]
      rfl
    have hexecutions : (s.receive caller nowMs written).executions = s.executions := by
      rw [receive_eq hphase]
      rfl
    refine ⟨hdispatch, h.receive_greeting hphase nowMs written, ?_, ?_⟩
    · rw [hbatch]
      exact h.receive_lane hphase nowMs written
    · rw [hbatch, hexecutions]
      exact h.receive_reported hphase nowMs written
  | _ =>
    rw [Channel.receive, hphase]
    exact h

/-- A callback of a lane: it has run some jobs, and goes on with another call. -/
def Channel.turn (s : Channel) (l : ScriptLane) (handles : Handles) (results batch : List Execution) (p : BusPhase) :
    Channel :=
  { s with
    script := { s.script with handles }.set (.lane l) p
    executions := s.executions ++ results
    batch := Function.update s.batch l batch }

def ScriptLane.other : ScriptLane → ScriptLane
  | .fast => .slow
  | .slow => .fast

theorem ScriptLane.other_ne (l : ScriptLane) : ScriptCaller.lane l.other ≠ .lane l := by
  cases l with
  | fast => exact nofun
  | slow => exact nofun

/-- The two lanes as one and the other. -/
theorem add_lanes {M : Type*} [AddCommMonoid M] (f : ScriptLane → M) (l : ScriptLane) :
    f .fast + f .slow = f l + f l.other := by
  cases l with
  | fast => rfl
  | slow => exact add_comm _ _

section Turn

variable {results batch : List Execution} {handles : Handles} {p : BusPhase}

theorem turn_phase_self (s : Channel) (l : ScriptLane) (handles : Handles) (results batch : List Execution)
    (p : BusPhase) : (s.turn l handles results batch p).script.phase (.lane l) = p := set_phase_self _ _ _

theorem turn_phase_of_ne {caller : ScriptCaller} (h : caller ≠ .lane l) :
    (s.turn l handles results batch p).script.phase caller = s.script.phase caller := set_phase_of_ne h

theorem Channel.Kept.turn (h : s.Kept queue) (hon : s.script.phase (.lane l) ≠ .off)
    (hheld : ∀ method i, p ≠ .held method i)
    (hjobs : (results.map Execution.job : Multiset ScriptJob) + unread queue.generation p ≤
      unread queue.generation (s.script.phase (.lane l)))
    (hspelled : ∀ e ∈ results, e.Spelled)
    (hhonest : ∀ e ∈ results, e.status = statusBusy → exhausted e.job ∧ e.actions = [])
    (hbatch : ∀ e ∈ batch, e ∈ s.executions ++ results) : (s.turn l handles results batch p).Kept queue := by
  have hgreeting : s.script.phase .greeting = .off := by
    by_contra hgreeting
    exact hon (h.early hgreeting l)
  have hown := turn_phase_self s l handles results batch p
  have hother : (s.turn l handles results batch p).script.phase (.lane l.other) = s.script.phase (.lane l.other) :=
    turn_phase_of_ne l.other_ne
  refine ⟨h.sendable, h.hands, ?_, ?_, ?_, ?_, ?_, ?_, ?_⟩
  · intro hnot
    rw [turn_phase_of_ne (lane_ne_greeting l).symm] at hnot
    exact absurd hgreeting hnot
  · intro l' hl'
    exact h.late l hon
  · intro i hfast hslow
    cases l with
    | fast => exact hheld _ _ (hown.symm.trans hfast)
    | slow => exact hheld _ _ (hown.symm.trans hslow)
  · have htaken := h.taken
    rw [add_lanes (fun l => (unread queue.generation (s.script.phase (.lane l)) : Multiset ScriptJob)) l] at htaken
    rw [add_lanes (fun l' => (unread queue.generation
      ((s.turn l handles results batch p).script.phase (.lane l')) : Multiset ScriptJob)) l, hown, hother]
    show ((s.executions ++ results).map Execution.job : Multiset ScriptJob) + _ ≤ _
    rw [List.map_append, ← Multiset.coe_add, add_assoc,
      ← add_assoc (results.map Execution.job : Multiset ScriptJob)]
    exact le_trans (add_le_add le_rfl (add_le_add hjobs le_rfl)) htaken
  · intro e he
    rcases List.mem_append.mp he with he | he
    · exact h.spelled e he
    · exact hspelled e he
  · intro l' e he
    by_cases hl' : l' = l
    · rw [hl'] at he
      have hself : (s.turn l handles results batch p).batch l = batch := Function.update_self _ _ _
      rw [hself] at he
      exact hbatch e he
    · have hsame : (s.turn l handles results batch p).batch l' = s.batch l' := Function.update_of_ne hl' _ _
      rw [hsame] at he
      exact List.mem_append_left _ (h.batched l' e he)
  · intro e he
    rcases List.mem_append.mp he with he | he
    · exact h.honest e he
    · exact hhonest e he

theorem Channel.Sound.turn (h : s.Sound queue) (hkept : (s.turn l handles results batch p).Kept queue)
    (hfits : LaneFits queue.generation s.bus batch p)
    (hout : ((outstanding batch p).map Execution.head : Multiset (Bytes × BitVec 32)) ≤
      (results.map Execution.head : List _)) : (s.turn l handles results batch p).Sound queue := by
  have hown := turn_phase_self s l handles results batch p
  have hother : (s.turn l handles results batch p).script.phase (.lane l.other) = s.script.phase (.lane l.other) :=
    turn_phase_of_ne l.other_ne
  have hbatch : (s.turn l handles results batch p).batch l = batch := Function.update_self _ _ _
  have hbatch' : ∀ l', l' ≠ l → (s.turn l handles results batch p).batch l' = s.batch l' :=
    fun l' hl' => Function.update_of_ne hl' _ _
  refine ⟨hkept, ?_, ?_, ?_⟩
  · rw [turn_phase_of_ne (lane_ne_greeting l).symm]
    exact h.greeting
  · intro l'
    by_cases hl' : l' = l
    · rw [hl', hown, hbatch]
      exact hfits
    · have hne : ScriptCaller.lane l' ≠ .lane l := fun heq => hl' (ScriptCaller.lane.inj heq)
      rw [turn_phase_of_ne hne, hbatch' l' hl']
      exact h.lanes l'
  · have hreported := h.reported
    rw [add_lanes (fun l => ((outstanding (s.batch l) (s.script.phase (.lane l))).map Execution.head :
      Multiset (Bytes × BitVec 32))) l] at hreported
    have hne : l.other ≠ l := fun heq => l.other_ne (by rw [heq])
    rw [add_lanes (fun l' => ((outstanding ((s.turn l handles results batch p).batch l')
      ((s.turn l handles results batch p).script.phase (.lane l'))).map Execution.head :
      Multiset (Bytes × BitVec 32))) l, hown, hother, hbatch, hbatch' _ hne]
    show (s.lines.map headOf : Multiset (Bytes × BitVec 32)) + _ ≤
      ((s.executions ++ results).map Execution.head : List _)
    rw [List.map_append, ← Multiset.coe_add, add_left_comm,
      add_comm (s.executions.map Execution.head : Multiset (Bytes × BitVec 32))]
    refine add_le_add hout (le_trans (add_le_add le_rfl ?_) hreported)
    exact Multiset.le_add_left _ _

end Turn

end Sound

section Callbacks

variable {σ : Type} {c : Compositor σ} {queue : KwinQueue} {s : Channel} {l : ScriptLane} {text : Bytes}

theorem turnsOf_jobs (states : ℕ → σ) (jobs : List ScriptJob) : (turnsOf states jobs).map Turn.job = jobs := by
  unfold turnsOf
  rw [List.map_map]
  exact List.zipIdx_map_fst 0 jobs

theorem mem_turnsOf {states : ℕ → σ} {jobs : List ScriptJob} {turn : Turn σ} (h : turn ∈ turnsOf states jobs) :
    turn.job ∈ jobs := by
  rw [← turnsOf_jobs states jobs]
  exact List.mem_map_of_mem h

/-- What a poll that was told of jobs goes on with. -/
def afterBatch (generation : Text) (l : ScriptLane) (results : List Execution) : BusPhase :=
  if results = [] then .sent .poll generation (buildPoll generation l.name 0 (0 : ℕ))
  else .sent .report generation (buildReport generation results)

theorem polled_eq (hrunning : s.script.running = true) {jobs : List ScriptJob} {text : Text}
    (hparse : parsePollReply s.script.generation text = some jobs) (states : ℕ → σ) :
    s.polled c l text states = s.turn l (executeAll c s.script.handles (turnsOf states jobs)).2
      (executeAll c s.script.handles (turnsOf states jobs)).1 (executeAll c s.script.handles (turnsOf states jobs)).1
      (afterBatch s.script.generation l (executeAll c s.script.handles (turnsOf states jobs)).1) := by
  have hgo : ¬ (!s.script.running) = true := by
    rw [hrunning]
    decide
  unfold Channel.polled
  rw [if_neg hgo, hparse]
  unfold Channel.turn afterBatch
  dsimp only
  split_ifs with hnone
  · rw [pollLane_running { s.script with handles := (executeAll c s.script.handles (turnsOf states jobs)).2 } l 0
      hrunning]
  · rfl

/-- What the script makes of the jobs of a reply. -/
theorem executeAll_sound {jobs : List KwinDispatch} (hfit : ∀ job ∈ jobs, job.Fit) (t : Handles) (states : ℕ → σ) :
    ∀ e ∈ (executeAll c t (turnsOf states (jobs.map scriptJob))).1,
      e.Spelled ∧ (e.status = statusBusy → exhausted e.job ∧ e.actions = []) := by
  refine forall_executeAll ?_ t
  intro turn hturn t
  obtain ⟨job, hjob, hturnjob⟩ := List.mem_map.mp (mem_turnsOf hturn)
  refine ⟨⟨⟨job.sequence, (hfit job hjob).sequence, ?_⟩, execute_status_lt c t turn⟩, ?_⟩
  · rw [execute_job, ← hturnjob]
    rfl
  · intro hbusy
    have hspent := (execute_busy_iff c t turn).mp hbusy
    rw [execute_exhausted c t turn hspent]
    exact ⟨hspent, rfl⟩

theorem Channel.Sound.told (h : s.Sound queue) (hback : s.script.phase (.lane l) = .back .poll text) :
    uniqueNameValid s.bus.peer ∧ s.script.running = true ∧
      s.script.generation = JsText.ofBytes queue.generation ∧
      ∃ jobs : List KwinDispatch, (∀ job ∈ jobs, job.Fit) ∧ jobs.length ≤ kwinJobsPerReplyFast ∧
        parsePollReply (JsText.ofBytes queue.generation) (JsText.ofBytes text) = some (jobs.map scriptJob) := by
  have hg : validGeneration queue.generation := by
    rw [← h.kept.generation]
    exact h.kept.sendable.generation
  have hfits := h.lanes l
  rw [hback] at hfits
  obtain ⟨hrunning, hgen⟩ := h.kept.late l (by rw [hback]; exact nofun)
  cases hfits with
  | told _ hnamed hreply =>
    obtain ⟨jobs, hfit, hlength, hparse⟩ := hreply.parse hg (JsText.ofBytes queue.generation)
    rw [if_pos rfl] at hparse
    exact ⟨hnamed, hrunning, hgen, jobs, hfit, hlength, hparse⟩

theorem Channel.Sound.polled (h : s.Sound queue) (hback : s.script.phase (.lane l) = .back .poll text)
    (states : ℕ → σ) : (s.polled c l (JsText.ofBytes text) states).Sound queue := by
  obtain ⟨hnamed, hrunning, hgen, jobs, hfit, -, hparse⟩ := h.told hback
  have hsound := @executeAll_sound σ c jobs hfit s.script.handles states
  have hjobs := executeAll_jobs c s.script.handles (turnsOf states (jobs.map scriptJob))
  rw [turnsOf_jobs] at hjobs
  have hown : parsePollReply s.script.generation (JsText.ofBytes text) = some (jobs.map scriptJob) := by
    rw [hgen]
    exact hparse
  rw [polled_eq hrunning hown, hgen]
  generalize executeAll c s.script.handles (turnsOf states (jobs.map scriptJob)) = ran at hsound hjobs
  obtain ⟨results, handles⟩ := ran
  dsimp only at hsound hjobs ⊢
  have hunread : unread queue.generation (s.script.phase (.lane l)) = jobs.map scriptJob := by
    rw [hback]
    show (parsePollReply _ _).getD [] = _
    rw [hparse]
    rfl
  have hafter : unread queue.generation (afterBatch (JsText.ofBytes queue.generation) l results) = [] := by
    unfold afterBatch
    split_ifs
    · rfl
    · rfl
  refine h.turn (h.kept.turn ?_ ?_ ?_ ?_ ?_ ?_) ?_ ?_
  · rw [hback]
    exact nofun
  · intro method i
    unfold afterBatch
    split_ifs
    · exact nofun
    · exact nofun
  · rw [hafter, hunread, hjobs, Multiset.coe_nil, add_zero]
  · exact fun e he => (hsound e he).1
  · exact fun e he => (hsound e he).2
  · exact fun e he => List.mem_append_right _ he
  · unfold afterBatch
    split_ifs with hnone
    · exact .polling _
    · exact .reporting hnamed hnone
  · unfold afterBatch
    split_ifs with hnone
    · exact Multiset.zero_le _
    · exact le_rfl

/-- The script reads the daemon's generation off the answer to its greeting. -/
theorem greeted_generation {generation : Bytes} (hg : validGeneration generation) :
    JsText.indexOf (JsText.lit "gen ") (JsText.ofBytes (reportAckText generation)) = some 5 ∧
      JsText.slice (JsText.ofBytes (reportAckText generation)) (5 + 4) (5 + 4 + 32) = JsText.ofBytes generation ∧
      (JsText.ofBytes generation).length = 32 := by
  have hlength : generation.length = 32 := (validGeneration_iff.mp hg).1
  have hwords : JsText.ofBytes (ascii "KSK1\n") = JsText.lit "KSK1\n" ∧
      JsText.ofBytes (ascii "gen ") = 103 :: JsText.lit "en " ∧ JsText.lit "gen " = 103 :: JsText.lit "en " := by decide
  obtain ⟨hmagic, hkey, hpattern⟩ := hwords
  have htext : JsText.ofBytes (reportAckText generation) = JsText.lit "KSK1\n" ++ ((103 :: JsText.lit "en ") ++
      (JsText.ofBytes generation ++ JsText.ofBytes (ascii "\nack\nend\n"))) := by
    simp only [reportAckText, ofBytes_append, hmagic, hkey]
  have hlen : (JsText.ofBytes generation).length = 32 := by
    rw [JsText.ofBytes, List.length_map, hlength]
  refine ⟨?_, ?_, hlen⟩
  · have hnot : (103 : UInt16) ∉ JsText.lit "KSK1\n" := by decide
    have hfive : (JsText.lit "KSK1\n").length = 5 := by decide
    rw [htext, hpattern, JsText.indexOf_append_of_not_mem hnot, JsText.indexOf_append_self, hfive]
    rfl
  · have hnine : (JsText.lit "KSK1\n" ++ (103 :: JsText.lit "en ")).length = 9 := by decide
    have hdrop : (JsText.ofBytes (reportAckText generation)).drop 9 =
        JsText.ofBytes generation ++ JsText.ofBytes (ascii "\nack\nend\n") := by
      rw [htext, ← List.append_assoc, ← hnine, List.drop_left]
    have htake : (JsText.ofBytes generation ++ JsText.ofBytes (ascii "\nack\nend\n")).take 32 =
        JsText.ofBytes generation := by
      rw [← hlen, List.take_left]
    rw [JsText.slice, List.drop_take, hdrop]
    exact htake

theorem greeted_eq {generation : Bytes} (hg : validGeneration generation) (script : Script) :
    script.greeted (JsText.ofBytes (reportAckText generation)) =
      ((({ script with generation := JsText.ofBytes generation, running := true }.set .greeting .off).set
        (.lane .fast) (afterBatch (JsText.ofBytes generation) .fast [])).set
        (.lane .slow) (afterBatch (JsText.ofBytes generation) .slow [])) := by
  obtain ⟨hindex, hslice, hlength⟩ := greeted_generation hg
  have hshort : ¬ (JsText.ofBytes generation).length ≠ 32 := not_not.mpr hlength
  simp only [Script.greeted, hindex, hslice, if_neg hshort]
  rw [pollLane_running _ .fast 0 rfl, pollLane_running _ .slow 0 rfl]
  rfl

theorem Channel.Sound.greeted (h : s.Sound queue) {method : BusMethod}
    (hback : s.script.phase .greeting = .back method text) :
    ({ s with script := s.script.greeted (JsText.ofBytes text) } : Channel).Sound queue := by
  have hg : validGeneration queue.generation := by
    rw [← h.kept.generation]
    exact h.kept.sendable.generation
  have hfits := h.greeting
  have hoff := h.kept.early (by rw [hback]; exact nofun)
  rw [hback] at hfits
  have htext : text = reportAckText queue.generation := by
    cases hfits
    rfl
  rw [htext, greeted_eq hg]
  have hkept := h.kept
  have htaken := hkept.taken
  rw [hoff, hoff] at htaken
  have hreported := h.reported
  rw [hoff, hoff] at hreported
  refine ⟨⟨hkept.sendable, hkept.hands, ?_, ?_, ?_, htaken, hkept.spelled, hkept.batched, hkept.honest⟩, ?_, ?_,
    hreported⟩
  · intro hnot
    exact absurd rfl hnot
  · intro l _
    exact ⟨rfl, rfl⟩
  · intro i hfast
    cases hfast
  · exact .off
  · intro l
    cases l with
    | fast => exact .polling _
    | slow => exact .polling _

theorem Channel.Sound.acknowledged (h : s.Sound queue) {method : BusMethod} (hmethod : method ≠ .poll)
    (hback : s.script.phase (.lane l) = .back method text) :
    ({ s with script := s.script.pollLane l 0 } : Channel).Sound queue := by
  have hon : s.script.phase (.lane l) ≠ .off := by
    rw [hback]
    exact nofun
  obtain ⟨hrunning, hgen⟩ := h.kept.late l hon
  have hturn : ({ s with script := s.script.pollLane l 0 } : Channel) =
      s.turn l s.script.handles [] (s.batch l) (afterBatch (JsText.ofBytes queue.generation) l []) := by
    rw [pollLane_running _ _ _ hrunning, Channel.turn, List.append_nil, Function.update_eq_self, ← hgen]
    rfl
  have hunread : unread queue.generation (s.script.phase (.lane l)) = [] := by
    rw [hback]
    cases method with
    | poll => exact absurd rfl hmethod
    | _ => rfl
  rw [hturn]
  refine h.turn (h.kept.turn hon nofun ?_ nofun nofun ?_) (.polling _) le_rfl
  · rw [hunread]
    exact le_rfl
  · intro e he
    rw [List.append_nil]
    exact h.kept.batched l e he

theorem Channel.Sound.callback (h : s.Sound queue) (caller : ScriptCaller) (states : ℕ → σ) :
    (s.callback c caller states).Sound queue := by
  cases hphase : s.script.phase caller with
  | back method text =>
    cases caller with
    | greeting =>
      simp only [Channel.callback, hphase]
      exact h.greeted hphase
    | lane l =>
      cases method with
      | poll =>
        simp only [Channel.callback, hphase]
        exact h.polled hphase states
      | _ =>
        simp only [Channel.callback, hphase]
        refine h.acknowledged ?_ hphase
        exact nofun
  | _ =>
    cases caller with
    | greeting =>
      simp only [Channel.callback, hphase]
      exact h
    | lane l =>
      simp only [Channel.callback, hphase]
      exact h

theorem Channel.Sound.step (h : s.Sound queue) (step : ChannelStep σ) : (s.step c step).Sound queue := by
  cases step with
  | relay input nowMs written => exact h.dispatch rfl
  | idleFast nowMs => exact h.dispatch rfl
  | idleSlow nowMs => exact h.dispatch rfl
  | receive caller nowMs written => exact h.receive caller nowMs written
  | stranger sender generation method envelope nowMs written =>
    unfold Channel.step
    dsimp only
    split_ifs with hpeer
    · exact h
    · refine h.dispatch ?_
      have hdenied : callAllowed s.bus sender generation method = false := by
        have hne : (s.bus.peer == sender) = false := beq_eq_false_iff_ne.mpr (Ne.symm hpeer)
        cases method with
        | _ => simp only [callAllowed, hne, Bool.false_and]
      simp only [busLines, methodLines, hdenied, Bool.not_false, if_true]
  | callback caller states => exact h.callback caller states

theorem start_sound {generation : Bytes} (h : kwinQueueInit generation = some queue) (peer : Bytes) :
    (Channel.start queue peer).Sound queue := by
  refine ⟨⟨kwinBusStart_sendable h peer, .still queue rfl rfl, ?_, ?_, ?_, ?_, nofun, nofun, nofun⟩, ?_, ?_, ?_⟩
  · intro _ l
    rfl
  · intro l hl
    exact absurd rfl hl
  · intro i hfast
    cases hfast
  · exact le_rfl
  · exact .greeting _
  · intro l
    exact .off
  · exact le_rfl

/-- What the daemon and the script keep between them, they keep along every run. -/
theorem Channel.run_sound {generation : Bytes} (h : kwinQueueInit generation = some queue) (peer : Bytes)
    (steps : List (ChannelStep σ)) : (steps.foldl (Channel.step c) (.start queue peer)).Sound queue := by
  have hrun := Transition.Run.foldl (Channel.step c) (.start queue peer) steps
  refine hrun.invariant (I := fun s => s.Sound queue) ?_ (start_sound h peer)
  intro s step t hs hstep
  rw [← hstep]
  exact hs.step step

end Callbacks

end KeysharpDesktop.KwinScript
