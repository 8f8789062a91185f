import KeysharpDesktop.Kwin.Dispatch
import KeysharpDesktop.Kwin.Park

/-! A parked lane is written down twice, as a flag of the queue and as the call the daemon holds.
The two agree until a lane on which a call waits is polled again. -/
namespace KeysharpDesktop

/-- `ksd_kwin_queue_parked`. -/
def kwinQueueParked (q : KwinQueue) (lane : KwinLane) : Bool :=
  if lane = .none then false else q.parked lane

/-- The queue says of each lane what the daemon's own table says. -/
def KwinBus.Agrees (bus : KwinBus) : Prop :=
  ∀ lane, lane ≠ .none → kwinQueueParked bus.queue lane = (bus.parked (laneSlot lane)).isSome

/-- A poll that the daemon accepts, of a lane on which a call already waits. -/
def KwinBus.repolls (bus : KwinBus) : BusCall → Bool
  | .method sender generation .poll envelope _ _ =>
    callAllowed bus sender generation .poll &&
      (kwinParsePoll envelope).any fun poll =>
        poll.generation == bus.queue.generation && (bus.parked (laneSlot poll.lane)).isSome
  | _ => false

section Flags

variable {q r : KwinQueue} {lane other : KwinLane} {parked : Bool}

@[simp] theorem kwinQueueParked_of_ne (h : lane ≠ .none) : kwinQueueParked q lane = q.parked lane :=
  if_neg h

@[simp] theorem setParked_parked : (setParked q lane parked).parked = Function.update q.parked lane parked := rfl

@[simp] theorem dispatchJobs_parked (nowMs : ℕ) : (dispatchJobs q lane nowMs).2.parked = q.parked := rfl

theorem kwinQueueSubmit_parked {opcode : Opcode} {body sequence : Bytes} {nowMs : ℕ}
    (h : kwinQueueSubmit q opcode body nowMs = some (r, sequence)) :
    r.parked = q.parked ∧ kwinLaneFor opcode ≠ .none := by
  obtain ⟨i, slot, -, -, hlane, -, rfl⟩ := kwinQueueSubmit_move h
  exact ⟨rfl, hlane⟩

theorem kwinQueueRelease_parked (q : KwinQueue) (sequence : Bytes) :
    (kwinQueueRelease q sequence).parked = q.parked := by
  unfold kwinQueueRelease
  split <;> rfl

theorem completeAll_parked (q : KwinQueue) (ds : List KwinDone) : (completeAll q ds).2.parked = q.parked := by
  induction ds generalizing q with
  | nil => rfl
  | cons d ds ih =>
    unfold completeAll
    cases hc : kwinQueueComplete q q.generation d.sequence d.status d.body with
    | none => rfl
    | some r =>
      obtain ⟨-, i, job, -, -, -, rfl⟩ := kwinQueueComplete_cases hc
      exact ih (completeAt q i job ⟨d.sequence, d.status, d.body⟩)

theorem kwinQueueReport_parked (q : KwinQueue) (envelope : Bytes) (reply : Buffer) :
    (kwinQueueReport q envelope reply).2.1.parked = q.parked := by
  rcases kwinQueueReport_jobs q envelope reply with ⟨hq, -⟩ | ⟨report, -, -, hq, -⟩
  · rw [hq]
  · rw [hq]
    exact completeAll_parked q report.done

/-- A lane that hands something out was not idle. -/
theorem KwinQueue.Idle.dispatchJobs (h : q.Idle lane) (nowMs : ℕ) :
    (KeysharpDesktop.dispatchJobs q lane nowMs).1 = [] := by
  have hnone : oldestQueued lane 0 none q.jobs = none := by
    cases hold : oldestQueued lane 0 none q.jobs with
    | none => rfl
    | some found =>
      obtain ⟨i, job⟩ := found
      obtain ⟨hfound, hqueued, hlane, -⟩ := oldestQueued_spec hold
      exact absurd hlane (h job (List.mem_of_getElem? hfound) hqueued)
  have htake : ∀ limit, (takeJobs lane limit q.jobs).1 = [] := by
    intro limit
    cases limit with
    | zero => rfl
    | succ limit => rw [takeJobs, hnone]
  simp [KeysharpDesktop.dispatchJobs, kwinQueueTake, htake]

/-- A poll that is not made to wait leaves the flags as they were, or handed something out and
lowers the flag of its lane. -/
theorem kwinQueuePoll_unparked {envelope : Bytes} {nowMs : ℕ} {reply : Buffer}
    (h : (kwinQueuePoll q envelope nowMs reply).1 ≠ .parked) :
    (kwinQueuePoll q envelope nowMs reply).2.parked = q.parked ∧
        (∀ poll, kwinParsePoll envelope = some poll → poll.generation ≠ q.generation) ∨
      ∃ poll, kwinParsePoll envelope = some poll ∧ (dispatchJobs q poll.lane nowMs).1 ≠ [] ∧
        (kwinQueuePoll q envelope nowMs reply).2.parked = Function.update q.parked poll.lane false := by
  unfold kwinQueuePoll at h ⊢
  cases hparse : kwinParsePoll envelope with
  | none =>
    left
    simp
  | some poll =>
    rw [hparse] at h
    dsimp only at h ⊢
    split_ifs at h ⊢ with hgeneration hempty
    · left
      simpa using hgeneration
    · exact absurd rfl h
    · right
      refine ⟨poll, rfl, hempty, ?_⟩
      split <;> rfl

end Flags

section Steps

variable {bus bus' : KwinBus} {lane : KwinLane} {nowMs : ℕ}

/-- A step that touches neither record keeps them in agreement. -/
theorem KwinBus.Agrees.same (h : bus.Agrees) (hqueue : bus'.queue.parked = bus.queue.parked)
    (hparked : bus'.parked = bus.parked) : bus'.Agrees := by
  intro lane hlane
  have hlane' := h lane hlane
  rw [kwinQueueParked_of_ne hlane] at hlane' ⊢
  rw [hqueue, hparked]
  exact hlane'

/-- Both records of one lane are written, with the same value. -/
theorem KwinBus.Agrees.update (h : bus.Agrees) (waits : Option Invocation) (hlane : lane ≠ .none)
    (hqueue : bus'.queue.parked = Function.update bus.queue.parked lane waits.isSome)
    (hparked : bus'.parked = Function.update bus.parked (laneSlot lane) waits) : bus'.Agrees := by
  intro other hother
  rw [kwinQueueParked_of_ne hother, hqueue, hparked]
  by_cases hsame : other = lane
  · rw [hsame, Function.update_self, Function.update_self]
  · have hslot : laneSlot other ≠ laneSlot lane := fun hslot => hsame (laneSlot_injective hslot hother hlane)
    rw [Function.update_of_ne hsame, Function.update_of_ne hslot, ← h other hother,
      kwinQueueParked_of_ne hother]

/-- The end of a park clears both records of its lane, or finds nothing to end. -/
theorem releasePark_flags (bus : KwinBus) (hlane : lane ≠ .none) (nowMs : ℕ) :
    bus.parked (laneSlot lane) = none ∧ releasePark bus lane nowMs = (bus, []) ∨
      bus.parked (laneSlot lane) ≠ none ∧
        (releasePark bus lane nowMs).1.queue.parked = Function.update bus.queue.parked lane false ∧
        (releasePark bus lane nowMs).1.parked = Function.update bus.parked (laneSlot lane) none := by
  unfold releasePark
  cases bus.parked (laneSlot lane) with
  | none => exact .inl ⟨rfl, rfl⟩
  | some invocation =>
    right
    simp [kwinQueuePollParked, hlane]

theorem KwinBus.Agrees.releasePark (h : bus.Agrees) (hlane : lane ≠ .none) (nowMs : ℕ) :
    (KeysharpDesktop.releasePark bus lane nowMs).1.Agrees := by
  rcases releasePark_flags bus hlane nowMs with ⟨-, hsame⟩ | ⟨-, hqueue, hparked⟩
  · rw [hsame]
    exact h
  · exact h.update none hlane hqueue hparked

theorem KwinBus.Agrees.relayRequest (h : bus.Agrees) (request : RelayRequest) (nowMs : ℕ) (written : Bool) :
    (relayRequest bus request nowMs written).1.Agrees := by
  rcases relayRequest_cases bus request nowMs written with
    ⟨status, -, hrequest⟩ | ⟨text, index, slot, queue, sequence, -, -, -, hsubmit, hrequest⟩
  · rw [hrequest]
    exact h
  · rw [hrequest]
    obtain ⟨hflags, hlane⟩ := kwinQueueSubmit_parked hsubmit
    refine KwinBus.Agrees.releasePark ?_ hlane nowMs
    exact h.same hflags rfl

theorem relayDrainFrom_flags (written : ℕ → Bool) (left index : ℕ) (bus : KwinBus) :
    (relayDrainFrom written left index bus).1.queue.parked = bus.queue.parked := by
  induction left generalizing index bus with
  | zero => rfl
  | succ left ih =>
    have hslot : (drainSlot bus index (written index)).1.queue.parked = bus.queue.parked := by
      rcases drainSlot_cases bus index (written index) with h | ⟨slot, status, body, -, -, -, h⟩
      · rw [h]
      · rw [h]
        exact kwinQueueRelease_parked bus.queue slot.sequence
    exact (ih (index + 1) (drainSlot bus index (written index)).1).trans hslot

theorem relayDrain_flags (bus : KwinBus) (written : ℕ → Bool) :
    (relayDrain bus written).1.queue.parked = bus.queue.parked ∧ (relayDrain bus written).1.parked = bus.parked := by
  unfold relayDrain
  constructor
  · exact relayDrainFrom_flags written kwinMaxJobs 0 bus
  · exact (relayDrainFrom_parks written kwinMaxJobs 0 bus).1

/-- The call that found nothing waits on its lane. Where none waited before it both records say
so; where one did, the end of its park clears the flag that the poll has just raised. -/
theorem parkPoll_agrees_iff (hlane : lane ≠ .none) (h : bus.Agrees) {queue : KwinQueue}
    (hqueue : queue.parked = Function.update bus.queue.parked lane true) (i : Invocation)
    (nowMs : ℕ) : (parkPoll (bus.counted queue) i lane nowMs).1.Agrees ↔ bus.parked (laneSlot lane) = none := by
  unfold parkPoll
  rcases releasePark_flags (bus.counted queue) hlane nowMs with ⟨hnone, hsame⟩ | ⟨hwait, hflags, hparked⟩
  · rw [hsame]
    refine iff_of_true ?_ hnone
    exact h.update (some i) hlane hqueue rfl
  · refine iff_of_false ?_ hwait
    intro hagrees
    have hafter := hagrees lane hlane
    dsimp only at hafter
    rw [kwinQueueParked_of_ne hlane, Function.update_self, hflags, Function.update_self] at hafter
    cases hafter

theorem handlePoll_agrees_iff (hquiet : bus.Quiet) (h : bus.Agrees) (sender generation envelope : Bytes)
    (nowMs : ℕ) (written : ℕ → Bool) :
    (handleCall bus sender generation .poll envelope nowMs written).1.Agrees ↔
      bus.repolls (.method sender generation .poll envelope nowMs written) = false := by
  unfold handleCall KwinBus.repolls
  dsimp only
  by_cases hallowed : callAllowed bus sender generation .poll
  swap
  · rw [Bool.not_eq_true] at hallowed
    rw [hallowed]
    exact iff_of_true (h.same rfl rfl) rfl
  rw [hallowed, Bool.not_true, if_neg Bool.false_ne_true, Bool.true_and]
  by_cases hpark : (kwinQueuePoll bus.queue envelope nowMs (bufferInit replyCapacity)).1 = .parked
  · rcases hpoll : kwinQueuePoll bus.queue envelope nowMs (bufferInit replyCapacity) with ⟨outcome, queue⟩
    rw [hpoll] at hpark
    subst hpark
    obtain ⟨poll, hparse, hgeneration, -, hqueue⟩ := kwinQueuePoll_parked hpoll
    have hflags : queue.parked = Function.update bus.queue.parked poll.lane true := by
      rw [hqueue]
      rfl
    have hiff := parkPoll_agrees_iff (kwinParsePoll_lane hparse) h hflags bus.invocations nowMs
    simpa [hparse, hgeneration, KwinBus.counted] using hiff
  · have hagrees : (bus.counted (kwinQueuePoll bus.queue envelope nowMs (bufferInit replyCapacity)).2).Agrees ∧
        ((kwinParsePoll envelope).any fun poll =>
          poll.generation == bus.queue.generation && (bus.parked (laneSlot poll.lane)).isSome) = false := by
      rcases kwinQueuePoll_unparked hpark with ⟨hflags, hother⟩ | ⟨poll, hparse, hhanded, hflags⟩
      · refine ⟨h.same hflags rfl, ?_⟩
        cases hparse : kwinParsePoll envelope with
        | none => rfl
        | some poll => simp [hother poll hparse]
      · have hlane := kwinParsePoll_lane hparse
        -- Something was queued for the lane, so no call waited on it.
        have hfree : bus.parked (laneSlot poll.lane) = none := by
          by_contra hwait
          exact hhanded ((hquiet poll.lane hlane hwait).dispatchJobs nowMs)
        have hsame : Function.update bus.parked (laneSlot poll.lane) none = bus.parked := by
          rw [← hfree, Function.update_eq_self]
        refine ⟨h.update none hlane hflags hsame.symm, ?_⟩
        simp [hparse, hfree]
    refine iff_of_true ?_ hagrees.2
    rcases hpoll : kwinQueuePoll bus.queue envelope nowMs (bufferInit replyCapacity) with ⟨outcome, queue⟩
    rw [hpoll] at hpark hagrees
    cases outcome with
    | answered reply => exact hagrees.1
    | parked => exact absurd rfl hpark
    | refused => exact hagrees.1

/-- One dispatch breaks the agreement exactly when it polls a lane on which a call waits. -/
theorem busStep_agrees_iff (hquiet : bus.Quiet) (h : bus.Agrees) (call : BusCall) :
    (busStep bus call).Agrees ↔ bus.repolls call = false := by
  have hidle : ∀ lane nowMs, lane ≠ .none → (idleFired bus lane nowMs).1.Agrees := by
    intro lane nowMs hlane
    unfold idleFired
    split_ifs
    · exact h.releasePark hlane nowMs
    · exact h
  cases call with
  | relay input nowMs written =>
    refine iff_of_true ?_ rfl
    simp only [busStep, busDispatch, relayReadable]
    cases readRequest input with
    | none => exact h
    | some request => exact h.relayRequest request.1 nowMs written
  | idleFast nowMs => exact iff_of_true (hidle .fast nowMs (by decide)) rfl
  | idleSlow nowMs => exact iff_of_true (hidle .slow nowMs (by decide)) rfl
  | method sender generation method envelope nowMs written =>
    cases method with
    | poll => exact handlePoll_agrees_iff hquiet h sender generation envelope nowMs written
    | hello =>
      refine iff_of_true ?_ rfl
      have hhandled := handleCall_handled bus sender generation .hello envelope nowMs written
      simp only [busStep, busDispatch]
      generalize methodLines bus sender generation .hello envelope = lines at hhandled
      generalize handleCall bus sender generation .hello envelope nowMs written = result at hhandled
      cases hhandled <;> exact h.same rfl rfl
    | event =>
      refine iff_of_true ?_ rfl
      have hhandled := handleCall_handled bus sender generation .event envelope nowMs written
      simp only [busStep, busDispatch]
      generalize methodLines bus sender generation .event envelope = lines at hhandled
      generalize handleCall bus sender generation .event envelope nowMs written = result at hhandled
      cases hhandled <;> exact h.same rfl rfl
    | report =>
      refine iff_of_true ?_ rfl
      have hhandled := handleCall_handled bus sender generation .report envelope nowMs written
      have hflags := kwinQueueReport_parked bus.queue envelope (bufferInit replyCapacity)
      simp only [busStep, busDispatch]
      generalize methodLines bus sender generation .report envelope = lines at hhandled
      generalize handleCall bus sender generation .report envelope nowMs written = result at hhandled
      cases hhandled with
      | denied => exact h.same rfl rfl
      | acknowledged => exact h.same rfl rfl
      | reported queue reply hreport =>
        obtain ⟨hqueue, hparked⟩ := relayDrain_flags (bus.counted queue) written
        generalize relayDrain (bus.counted queue) written = drained at hqueue hparked
        rw [hreport] at hflags
        exact h.same (hqueue.trans hflags) hparked
      | unreported queue reply hreport =>
        rw [hreport] at hflags
        exact h.same hflags rfl

end Steps

section Runs

variable {generation : Bytes} {queue : KwinQueue}

theorem kwinBusStart_agrees (h : kwinQueueInit generation = some queue) (peer : Bytes) :
    (kwinBusStart queue peer).Agrees := by
  unfold kwinQueueInit at h
  split_ifs at h
  cases h
  intro lane hlane
  rw [kwinQueueParked_of_ne hlane]
  rfl

/-- The two records agree in every state of a run exactly when no step of it polls a lane on
which a call already waits. -/
theorem lanes_agree_iff (h : kwinQueueInit generation = some queue) (peer : Bytes) (calls : List BusCall) :
    (∀ n, ((calls.take n).foldl busStep (kwinBusStart queue peer)).Agrees) ↔
      Transition.Admitted busStep (fun bus call => bus.repolls call = false) (kwinBusStart queue peer) calls := by
  have hstart : (kwinBusStart queue peer).Quiet ∧ ∃ outputs, (kwinBusStart queue peer).Attended outputs := by
    refine ⟨fun lane _ hwait => absurd rfl hwait, [], ?_⟩
    constructor <;> simp [kwinBusStart, parkedOf, completedOf]
  refine Transition.admitted_iff_take (I := fun bus => bus.Quiet ∧ ∃ outputs, bus.Attended outputs) ?_ ?_ hstart
    (kwinBusStart_agrees h peer) calls
  · rintro bus call ⟨hquiet, outputs, hattended⟩
    obtain ⟨hnext, hkept⟩ := busStep_attended hquiet hattended call
    exact ⟨hnext, outputs ++ busOutputs bus call, hkept⟩
  · rintro bus call ⟨hquiet, -⟩ hagrees
    exact busStep_agrees_iff hquiet hagrees call

theorem firstPoll_agrees :
    Transition.Admitted busStep (fun bus call => bus.repolls call = false) (kwinBusStart newQueue scriptPeer)
        [firstPoll] ∧
      ∀ n, (([firstPoll].take n).foldl busStep (kwinBusStart newQueue scriptPeer)).Agrees := by
  have hadmitted : Transition.Admitted busStep (fun bus call => bus.repolls call = false)
      (kwinBusStart newQueue scriptPeer) [firstPoll] := by decide +kernel
  exact ⟨hadmitted, (lanes_agree_iff kwinQueueInit_newQueue scriptPeer [firstPoll]).mpr hadmitted⟩

/-- Two polls of one lane, with nothing to hand out, and the queue denies the park it has. -/
theorem secondPoll_disagrees :
    ¬ ∀ calls : List BusCall, (calls.foldl busStep (kwinBusStart newQueue scriptPeer)).Agrees := by
  intro h
  have hfast := h [firstPoll, firstPoll] .fast (by decide)
  revert hfast
  decide +kernel

end Runs

end KeysharpDesktop
