import KeysharpDesktop.Kwin.Chain
import KeysharpDesktop.Kwin.Survival
import Mathlib.Data.List.Pairwise

/-! What an operation of KWin may conclude from its answer: every answer is to a request that was read whole, and an
operation that is told that the compositor is busy was not executed. -/
namespace KeysharpDesktop

open scoped List
open KwinScript (Channel ChannelStep Compositor Execution exhausted statusBusy headOf oneWindow)

section Outputs

/-- The request that an output shows to have been read. -/
def readId : BusOutput → Option (BitVec 64)
  | .queued _ requestId _ => some requestId
  | .answered none frame => some (frameId frame)
  | _ => none

/-- The request that an output answers. -/
def answerId : BusOutput → Option (BitVec 64)
  | .answered _ frame => some (frameId frame)
  | _ => none

def readIds (outputs : List BusOutput) : List (BitVec 64) := outputs.filterMap readId

def answerIds (outputs : List BusOutput) : List (BitVec 64) := outputs.filterMap answerId

variable {bus : KwinBus} {outputs out : List BusOutput} {lines : List KwinDone}

theorem readIds_append (outputs out : List BusOutput) : readIds (outputs ++ out) = readIds outputs ++ readIds out :=
  List.filterMap_append

theorem answerIds_append (outputs out : List BusOutput) :
    answerIds (outputs ++ out) = answerIds outputs ++ answerIds out := List.filterMap_append

theorem length_queuedOf_le (outputs : List BusOutput) : (queuedOf outputs).length ≤ (readIds outputs).length := by
  induction outputs with
  | nil => exact Nat.le_refl _
  | cons o outputs ih =>
    cases o with
    | queued sequence requestId opcode => exact Nat.succ_le_succ ih
    | answered sequence frame =>
      cases sequence with
      | none => exact Nat.le_succ_of_le ih
      | some sequence => exact ih
    | _ => exact ih

theorem releasePark_readIds (bus : KwinBus) (lane : KwinLane) (nowMs : ℕ) :
    readIds (releasePark bus lane nowMs).2 = [] := by
  unfold releasePark
  split
  · rfl
  · dsimp only
    split
    · rfl
    · rfl

theorem busAnswer_readIds (written : Bool) (sequence : Bytes) (requestId : BitVec 64) (opcode : Opcode)
    (status : Status) (body : Bytes) : readIds (busAnswer written (some sequence) requestId opcode status body) = [] := by
  rcases busAnswer_cases written (some sequence) requestId opcode status body with h | h | ⟨frame, -, h⟩
  · rw [h]
    rfl
  · rw [h]
    rfl
  · rw [h]
    rfl

theorem relayDrainFrom_readIds (written : ℕ → Bool) (left index : ℕ) (bus : KwinBus) :
    readIds (relayDrainFrom written left index bus).2 = [] := by
  induction left generalizing index bus with
  | zero => rfl
  | succ left ih =>
    have hslot : readIds (drainSlot bus index (written index)).2 = [] := by
      rcases drainSlot_cases bus index (written index) with h | ⟨slot, status, body, -, -, -, h⟩
      · rw [h]
        rfl
      · rw [h]
        exact busAnswer_readIds _ _ _ _ _ _
    unfold relayDrainFrom
    rw [readIds_append, hslot, ih, List.append_nil]

theorem busReply_readIds (invocation : Invocation) (reply : Option Buffer) : readIds (busReply invocation reply) = [] := by
  cases reply with
  | none => rfl
  | some reply => rfl

/-- Nothing but the relay's socket brings requests. -/
theorem busOutputs_readIds (bus : KwinBus) {call : BusCall} (hcall : ∀ input nowMs written, call ≠ .relay input nowMs written) :
    readIds (busOutputs bus call) = [] := by
  have hidle : ∀ lane nowMs, readIds (idleFired bus lane nowMs).2 = [] := by
    intro lane nowMs
    unfold idleFired
    split_ifs
    · exact releasePark_readIds bus lane nowMs
    · rfl
  cases call with
  | relay input nowMs written => exact absurd rfl (hcall input nowMs written)
  | idleFast nowMs => exact hidle .fast nowMs
  | idleSlow nowMs => exact hidle .slow nowMs
  | method sender generation method envelope nowMs written =>
    have hhandled := handleCall_handled bus sender generation method envelope nowMs written
    show readIds (handleCall bus sender generation method envelope nowMs written).2 = []
    generalize handleCall bus sender generation method envelope nowMs written = after at hhandled
    generalize methodLines bus sender generation method envelope = own at hhandled
    cases hhandled with
    | denied method text => rfl
    | acknowledged method reply other => exact busReply_readIds _ _
    | reported queue reply accepted =>
      dsimp only
      rw [readIds_append, busReply_readIds, List.append_nil]
      exact relayDrainFrom_readIds written kwinMaxJobs 0 _
    | unreported queue reply refused =>
      dsimp only
      exact busReply_readIds _ _
    | polled queue reply answered => rfl
    | parked queue poll parsed empty =>
      unfold parkPoll
      dsimp only
      rw [readIds_append, releasePark_readIds]
      rfl
    | unpolled queue refused =>
      dsimp only
      exact busReply_readIds _ _

/-- A request that was read is queued or refused, if anything comes of it. -/
theorem relayRequest_readIds (bus : KwinBus) (request : RelayRequest) (nowMs : ℕ) (written : Bool) :
    readIds (relayRequest bus request nowMs written).2 <+ [request.requestId] := by
  rcases relayRequest_cases bus request nowMs written with
    ⟨status, -, h⟩ | ⟨text, index, slot, queue, sequence, -, -, -, -, h⟩
  · rw [h]
    rcases busAnswer_cases written none request.requestId request.opcode status [] with
      ho | ho | ⟨frame, hframe, ho⟩
    · rw [ho]
      exact List.nil_sublist _
    · rw [ho]
      exact List.nil_sublist _
    · rw [ho]
      show [frameId frame] <+ [request.requestId]
      rw [(relayAnswer_fields hframe).1]
  · rw [h]
    dsimp only
    rw [← List.singleton_append, readIds_append, releasePark_readIds]
    exact List.Sublist.refl _

/-- A request that was read once came to one thing. -/
theorem eq_of_readId (hread : (readIds outputs).Nodup) {o p : BusOutput} (ho : o ∈ outputs) (hp : p ∈ outputs)
    {id : BitVec 64} (hoid : readId o = some id) (hpid : readId p = some id) : o = p := by
  by_contra hne
  have hpairs := List.pairwise_filterMap.mp hread
  have hsymm : Std.Symm fun a b : BusOutput =>
      ∀ i, readId a = some i → ∀ j, readId b = some j → i ≠ j := ⟨fun a b hab i hi j hj hij => hab j hj i hi hij.symm⟩
  exact hpairs.forall ho hp hne id hoid id hpid rfl

/-- Where no request is read twice, none is answered twice. -/
theorem answerIds_nodup (h : bus.Sound outputs lines) (hread : (readIds outputs).Nodup) : (answerIds outputs).Nodup := by
  have hreads := List.pairwise_filterMap.mp hread
  have hanswers := List.pairwise_filterMap.mp h.answered
  refine List.pairwise_filterMap.mpr ((hreads.and hanswers).imp_of_mem ?_)
  intro o p ho hp hapart i hi j hj hij
  obtain ⟨hreads, hanswers⟩ := hapart
  -- An answer after a report names a request that was queued.
  have hqueued : ∀ sequence frame, BusOutput.answered (some sequence) frame ∈ outputs →
      ∃ opcode, BusOutput.queued sequence (frameId frame) opcode ∈ outputs := by
    intro sequence frame hmem
    obtain ⟨requestId, opcode, d, hqueued, -, -, hframe⟩ := h.content sequence frame hmem
    rw [(relayAnswer_fields hframe).1]
    exact ⟨opcode, hqueued⟩
  have hcross : ∀ sequence frame other, BusOutput.answered (some sequence) frame ∈ outputs →
      BusOutput.answered none other ∈ outputs → frameId frame ≠ frameId other := by
    intro sequence frame other hmem hother hsame
    obtain ⟨opcode, hentered⟩ := hqueued sequence frame hmem
    have heq := eq_of_readId hread hentered hother rfl (congrArg some hsame.symm)
    cases heq
  cases o with
  | answered sequence frame =>
    cases p with
    | answered sequence' frame' =>
      have hi' : frameId frame = i := Option.some.inj hi
      have hj' : frameId frame' = j := Option.some.inj hj
      have hsame : frameId frame = frameId frame' := by rw [hi', hj', hij]
      cases sequence with
      | none =>
        cases sequence' with
        | none => exact hreads _ rfl _ rfl hsame
        | some sequence' => exact hcross sequence' frame' frame hp ho hsame.symm
      | some sequence =>
        cases sequence' with
        | none => exact hcross sequence frame frame' ho hp hsame
        | some sequence' =>
          obtain ⟨opcode, hentered⟩ := hqueued sequence frame ho
          obtain ⟨opcode', hentered'⟩ := hqueued sequence' frame' hp
          have heq := eq_of_readId hread hentered hentered' rfl (congrArg some hsame.symm)
          rw [BusOutput.queued.injEq] at heq
          exact hanswers sequence rfl sequence' rfl heq.1
    | _ => cases hj
  | _ => cases hi

end Outputs

section Heard

variable {σ : Type} {c : Compositor σ} {pid : ℕ → ℕ}

theorem ofFrame_id {frame : RelayFrame} {a : PeerAnswer} (h : PeerAnswer.ofFrame frame = some a) :
    a.id = frameId frame := by
  unfold PeerAnswer.ofFrame at h
  dsimp only at h
  split_ifs at h
  cases h
  rfl

theorem mem_goingOut {out : List BusOutput} {a : PeerAnswer} (h : a ∈ goingOut out) :
    ∃ sequence frame, BusOutput.answered sequence frame ∈ out ∧ PeerAnswer.ofFrame frame = some a := by
  obtain ⟨o, ho, hframe⟩ := List.mem_filterMap.mp h
  have hmem := List.takeWhile_subset _ ho
  cases o with
  | answered sequence frame => exact ⟨sequence, frame, hmem, hframe⟩
  | _ => cases hframe

/-- The relay is told of nothing that was not answered. -/
theorem goingOut_ids (out : List BusOutput) : (goingOut out).map PeerAnswer.id <+ answerIds out := by
  have hall : ∀ out : List BusOutput, (out.filterMap fun
      | .answered _ frame => PeerAnswer.ofFrame frame
      | _ => none).map PeerAnswer.id <+ answerIds out := by
    intro out
    induction out with
    | nil => exact List.nil_sublist _
    | cons o out ih =>
      cases o with
      | answered sequence frame =>
        have hids : answerIds (.answered sequence frame :: out) = frameId frame :: answerIds out := rfl
        rw [hids]
        cases hframe : PeerAnswer.ofFrame frame with
        | none =>
          simp only [List.filterMap_cons, hframe]
          exact ih.cons _
        | some a =>
          simp only [List.filterMap_cons, hframe, List.map_cons, ofFrame_id hframe]
          exact ih.cons_cons _
      | _ => exact ih
  exact (hall _).trans ((List.takeWhile_sublist _).filterMap _)

/-- The id that an operation's call of the relay has. -/
def KwinChain.named (s : KwinChain) (i : ℕ) : BitVec 64 :=
  ((s.relay.callers i).call?.map RelayCall.requestId).getD 0

/-- The daemon has read the requests that were taken off the socket, each once, and has answered no request twice;
and the relay has been told of nothing else. -/
structure KwinChain.Heard (queue : KwinQueue) (s : KwinChain) : Prop where
  kept : s.Kept
  few : s.relay.relay.nextRequestId < 2 ^ 64
  channel : s.channel.Sound queue
  bus : s.channel.bus.Sound s.channel.outputs s.channel.lines
  reads : readIds s.channel.outputs <+ (s.order.take s.taken).map s.named
  answers : s.relay.answers.map PeerAnswer.id <+ answerIds s.channel.outputs
  origin : ∀ a ∈ s.relay.answers, ∃ sequence frame,
    BusOutput.answered sequence frame ∈ s.channel.outputs ∧ PeerAnswer.ofFrame frame = some a
  delivery : s.relay.Delivery
  unwritten : s.relay.Unwritten

variable {queue : KwinQueue} {s t : KwinChain} {i : ℕ} {call : RelayCall} {outputs : List BusOutput}

theorem named_of_call (h : (s.relay.callers i).call? = some call) : s.named i = call.requestId := by
  rw [KwinChain.named, h]
  rfl

theorem KwinChain.Wired.named_nodup (h : s.Wired) : (s.order.map s.named).Nodup := by
  refine h.ledger.nodup.map_on ?_
  intro i hi j hj hij
  obtain ⟨call, hcall, -⟩ := (h.begun i).mp hi
  obtain ⟨call', hcall', -⟩ := (h.begun j).mp hj
  rw [named_of_call hcall, named_of_call hcall'] at hij
  exact h.named.apart i j call call' hcall hcall' hij

theorem KwinChain.Wired.order_length_le (h : s.Wired) : s.order.length ≤ s.relay.relay.nextRequestId := by
  have hnodup : ((s.order.map s.named).map BitVec.toNat).Nodup :=
    h.named_nodup.map fun _ _ hab => BitVec.eq_of_toNat_eq hab
  have hsub : (s.order.map s.named).map BitVec.toNat ⊆ List.range s.relay.relay.nextRequestId := by
    intro n hn
    obtain ⟨id, hid, rfl⟩ := List.mem_map.mp hn
    obtain ⟨i, hi, rfl⟩ := List.mem_map.mp hid
    obtain ⟨call, hcall, -⟩ := (h.begun i).mp hi
    rw [named_of_call hcall, List.mem_range]
    exact h.named.below i call hcall
  have hle := (List.subperm_of_subset hnodup hsub).length_le
  rwa [List.length_map, List.length_map, List.length_range] at hle

/-- Requests that are taken off the socket are none twice, and not too many. -/
theorem KwinChain.Wired.reads_nodup (h : s.Wired) (hreads : readIds outputs <+ (s.order.take s.taken).map s.named) :
    (readIds outputs).Nodup :=
  h.named_nodup.sublist (hreads.trans ((List.take_sublist _ _).map _))

theorem KwinChain.Wired.queued_few (h : s.Wired) (hids : s.relay.relay.nextRequestId < 2 ^ 64)
    (hreads : readIds outputs <+ (s.order.take s.taken).map s.named) : (queuedOf outputs).length < 2 ^ 64 := by
  have hle := hreads.length_le
  rw [List.length_map, List.length_take] at hle
  calc (queuedOf outputs).length ≤ (readIds outputs).length := length_queuedOf_le outputs
    _ ≤ s.order.length := hle.trans (Nat.min_le_right _ _)
    _ ≤ s.relay.relay.nextRequestId := h.order_length_le
    _ < 2 ^ 64 := hids

/-- A call that has begun to write keeps its id. -/
theorem RelayAdvance.named_kept {r : RelaySystem} {action : RelayAction} (h : RelayAdvance s.relay action r)
    (hrelay : t.relay = r) (hwired : s.Wired) (hi : i ∈ s.order) : t.named i = s.named i := by
  obtain ⟨call, hcall, -⟩ := (hwired.begun i).mp hi
  obtain ⟨call', hcall', hkeeps⟩ := h.call_kept hwired.named hcall
  rw [← hrelay] at hcall'
  rw [named_of_call hcall', named_of_call hcall, hkeeps.requestId]

/-- A step in which the daemon and the script have no part. -/
theorem KwinChain.Heard.advance (h : s.Heard queue) (hkept : t.Kept) (hids : t.relay.relay.nextRequestId < 2 ^ 64)
    {action : RelayAction} (hrelay : t.relay = s.relay ∨ t.relay = relayAct s.relay action)
    (hnot : ∀ a, action ≠ .answer a) (horder : s.order <+: t.order) (htaken : t.taken = s.taken)
    (hchannel : t.channel = s.channel) : t.Heard queue := by
  have hadvance : RelayAdvance s.relay action t.relay := by
    rcases hrelay with hsame | hact
    · rw [hsame]
      exact .refl _ _
    · rw [hact]
      exact relayAct_advance _ _
  have hanswers : t.relay.answers = s.relay.answers := by
    rcases hadvance.answers with hsame | ⟨a, htaken, -⟩
    · exact hsame
    · exact absurd htaken (hnot a)
  refine ⟨hkept, hids, ?_, ?_, ?_, ?_, ?_, ?_, ?_⟩
  · rw [hchannel]
    exact h.channel
  · rw [hchannel]
    exact h.bus
  · obtain ⟨more, hmore⟩ := horder
    have htake : t.order.take t.taken = s.order.take s.taken := by
      rw [← hmore, htaken, List.take_append_of_le_length h.kept.wired.ledger.count]
    have hnamed : (s.order.take s.taken).map t.named = (s.order.take s.taken).map s.named :=
      List.map_congr_left fun i hi => hadvance.named_kept rfl h.kept.wired (List.mem_of_mem_take hi)
    rw [hchannel, htake, hnamed]
    exact h.reads
  · rw [hchannel, hanswers]
    exact h.answers
  · rw [hchannel, hanswers]
    exact h.origin
  · rcases hrelay with hsame | hact
    · rw [hsame]
      exact h.delivery
    · rw [hact]
      refine relayAct_delivery ?_ h.delivery
      cases action with
      | answer a => exact absurd rfl (hnot a)
      | _ => trivial
  · rcases hrelay with hsame | hact
    · rw [hsame]
      exact h.unwritten
    · rw [hact]
      exact relayAct_unwritten h.unwritten action

/-- A step of the daemon or the script, in which the daemon may have read requests off the socket. -/
theorem KwinChain.Heard.heard (h : s.Heard queue) (hkept : t.Kept) {step : ChannelStep σ}
    (hchannel : t.channel = s.channel.step c step)
    (hrelay : t.relay = s.relay ∨
      t.relay = { s.relay with inbox := s.relay.inbox ++ goingOut (newOutputs c s.channel step) })
    (horder : t.order = s.order) (htaken : s.taken ≤ t.taken)
    (hreads : readIds (newOutputs c s.channel step) <+ ((s.order.take t.taken).drop s.taken).map s.named) :
    t.Heard queue := by
  have hsame : t.relay.callers = s.relay.callers ∧ t.relay.relay = s.relay.relay ∧
      t.relay.written = s.relay.written := by
    rcases hrelay with hsame | hmore
    · rw [hsame]
      exact ⟨rfl, rfl, rfl⟩
    · rw [hmore]
      exact ⟨rfl, rfl, rfl⟩
  have hfew : t.relay.relay.nextRequestId < 2 ^ 64 := by
    rw [hsame.2.1]
    exact h.few
  have houtputs : t.channel.outputs = s.channel.outputs ++ newOutputs c s.channel step := by
    rw [hchannel]
    exact outputs_append s.channel step
  have hnamed : t.named = s.named := by
    funext i
    rw [KwinChain.named, hsame.1]
    rfl
  have hall : readIds t.channel.outputs <+ (t.order.take t.taken).map t.named := by
    have hsplit := (List.take_append_drop s.taken (s.order.take t.taken)).symm
    rw [List.take_take, Nat.min_eq_left htaken] at hsplit
    rw [houtputs, readIds_append, hnamed, horder, hsplit, List.map_append]
    exact h.reads.append hreads
  have hbus : t.channel.bus.Sound t.channel.outputs t.channel.lines := by
    have hcount := hkept.wired.queued_few hfew hall
    rw [hchannel] at hcount ⊢
    rcases channelStep_cases (c := c) s.channel step with ⟨hbus, hout, hlines⟩ | ⟨call, hbus, hout, hlines, -⟩
    · rw [hbus, hout, hlines]
      exact h.bus
    · rw [hout] at hcount
      rw [hbus, hout, hlines]
      exact h.bus.step call hcount
  have hanswers : t.relay.answers.map PeerAnswer.id <+ answerIds t.channel.outputs := by
    rw [houtputs, answerIds_append]
    rcases hrelay with hsame | hmore
    · rw [hsame]
      exact h.answers.trans (List.sublist_append_left _ _)
    · have hlist : t.relay.answers = s.relay.answers ++ goingOut (newOutputs c s.channel step) := by
        rw [hmore]
        exact (List.append_assoc ..).symm
      rw [hlist, List.map_append]
      exact h.answers.append (goingOut_ids _)
  have honce := (answerIds_nodup hbus (hkept.wired.reads_nodup hall)).sublist hanswers
  refine ⟨hkept, hfew, ?_, hbus, hall, hanswers, ?_, ?_, ?_⟩
  · rw [hchannel]
    exact h.channel.step step
  · intro a ha
    have hold : a ∈ s.relay.answers → ∃ sequence frame,
        BusOutput.answered sequence frame ∈ t.channel.outputs ∧ PeerAnswer.ofFrame frame = some a := by
      intro ha
      obtain ⟨sequence, frame, hmem, hframe⟩ := h.origin a ha
      rw [houtputs]
      exact ⟨sequence, frame, List.mem_append_left _ hmem, hframe⟩
    rcases hrelay with hsame | hmore
    · rw [hsame] at ha
      exact hold ha
    · have hlist : t.relay.answers = s.relay.answers ++ goingOut (newOutputs c s.channel step) := by
        rw [hmore]
        exact (List.append_assoc ..).symm
      rw [hlist] at ha
      rcases List.mem_append.mp ha with ha | ha
      · exact hold ha
      · obtain ⟨sequence, frame, hmem, hframe⟩ := mem_goingOut ha
        rw [houtputs]
        exact ⟨sequence, frame, List.mem_append_right _ hmem, hframe⟩
  · rcases hrelay with hsame | hmore
    · rw [hsame]
      exact h.delivery
    · have hd := h.delivery
      rw [hmore] at honce ⊢
      exact ⟨hd.relay, hd.held, hd.apart, hd.owned, hd.taken, hd.alone, honce, hd.past, hd.gone⟩
  · intro d
    rw [hsame.1, hsame.2.2]
    exact h.unwritten d

/-- A step moves the relay alone, or the daemon and the script. -/
theorem KwinChain.step_cases (s : KwinChain) (step : KwinChainStep σ) :
    (∃ action, (∀ a, action ≠ .answer a) ∧
        ((s.step c pid step).relay = s.relay ∨ (s.step c pid step).relay = relayAct s.relay action) ∧
        s.order <+: (s.step c pid step).order ∧ (s.step c pid step).taken = s.taken ∧
        (s.step c pid step).channel = s.channel) ∨
      (∃ step', s.step c pid step = s.channelStep c step' ∧
        ∀ input nowMs written, step' = .relay input nowMs written → input = .hangUp) ∨
      ∃ nowMs written, s.step c pid step = s.read c nowMs written := by
  have hkeep : ∀ {t : KwinChain}, t.relay = s.relay → t.order = s.order → t.taken = s.taken → t.channel = s.channel →
      ∃ action, (∀ a, action ≠ .answer a) ∧ (t.relay = s.relay ∨ t.relay = relayAct s.relay action) ∧
        s.order <+: t.order ∧ t.taken = s.taken ∧ t.channel = s.channel := by
    intro t hrelay horder htaken hchannel
    refine ⟨.retire, ?_, .inl hrelay, horder ▸ List.prefix_refl _, htaken, hchannel⟩
    intro a h
    cases h
  have hturn : ∀ {action}, (∀ a, action ≠ RelayAction.answer a) →
      s.relayTurn action = { s with relay := relayAct s.relay action } →
      ∃ action', (∀ a, action' ≠ .answer a) ∧
        ((s.relayTurn action).relay = s.relay ∨ (s.relayTurn action).relay = relayAct s.relay action') ∧
        s.order <+: (s.relayTurn action).order ∧ (s.relayTurn action).taken = s.taken ∧
        (s.relayTurn action).channel = s.channel := by
    intro action hnot hsame
    rw [hsame]
    exact ⟨action, hnot, .inr rfl, List.prefix_refl _, rfl, rfl⟩
  cases step with
  | request i session request sized =>
    left
    simp only [KwinChain.step]
    split
    · exact hkeep rfl rfl rfl rfl
    · exact hkeep rfl rfl rfl rfl
  | refresh i r => exact .inl (hkeep rfl rfl rfl rfl)
  | operate i session lease relay step =>
    left
    simp only [KwinChain.step, KwinChain.operate]
    split
    · exact hkeep rfl rfl rfl rfl
    · next request before backend slotFree memoryFree hat =>
      unfold KwinChain.executeOperation
      dsimp only
      split
      · split
        · split
          · split_ifs
            · refine ⟨.start i _, ?_, .inr rfl, List.prefix_refl _, rfl, rfl⟩
              intro a h
              cases h
            · exact hkeep rfl rfl rfl rfl
          · exact hkeep rfl rfl rfl rfl
        · exact hkeep rfl rfl rfl rfl
      · exact hkeep rfl rfl rfl rfl
    · split_ifs
      · split
        · exact hkeep rfl rfl rfl rfl
        · exact hkeep rfl rfl rfl rfl
      · exact hkeep rfl rfl rfl rfl
    · unfold KwinChain.release
      split_ifs
      · exact hkeep rfl rfl rfl rfl
      · exact hkeep rfl rfl rfl rfl
    · exact hkeep rfl rfl rfl rfl
  | relay action =>
    left
    simp only [KwinChain.step]
    cases action with
    | start i request | answer a => exact hkeep rfl rfl rfl rfl
    | claim i timely =>
      refine ⟨.claim i timely, ?_, .inr rfl, ?_, rfl, rfl⟩
      · intro a h
        cases h
      simp only [KwinChain.relayTurn]
      split_ifs
      · exact List.prefix_append _ _
      · exact List.prefix_refl _
    | transfer i n =>
      simp only [KwinChain.relayTurn]
      split_ifs
      · exact hkeep rfl rfl rfl rfl
      · refine ⟨.transfer i n, ?_, .inr rfl, List.prefix_refl _, rfl, rfl⟩
        intro a h
        cases h
    | _ =>
      refine hturn ?_ rfl
      intro a h
      cases h
  | read nowMs written => exact .inr (.inr ⟨nowMs, written, rfl⟩)
  | hangUp nowMs written =>
    refine .inr (.inl ⟨_, rfl, ?_⟩)
    intro input nowMs' written' h
    cases h
    rfl
  | daemon step =>
    cases step with
    | relay input nowMs written => exact .inl (hkeep rfl rfl rfl rfl)
    | _ =>
      refine .inr (.inl ⟨_, rfl, ?_⟩)
      intro input nowMs written h
      cases h

theorem channelStep_told (s : KwinChain) (step : ChannelStep σ) :
    (s.channelStep c step).relay = s.relay ∨ (s.channelStep c step).relay =
      { s.relay with inbox := s.relay.inbox ++ goingOut (newOutputs c s.channel step) } := by
  simp only [KwinChain.channelStep, answers_foldl]
  split_ifs
  · exact .inl rfl
  · exact .inr rfl

theorem newOutputs_unread (s : Channel) {step : ChannelStep σ}
    (h : ∀ input nowMs written, step = .relay input nowMs written → input = .hangUp) :
    readIds (newOutputs c s step) = [] := by
  unfold newOutputs
  rcases channelStep_cases (c := c) s step with ⟨-, hsame, -⟩ | ⟨call, -, hmore, -, hrelay⟩
  · rw [hsame, List.drop_length]
    rfl
  · rw [hmore, List.drop_left]
    by_cases hcall : ∃ input nowMs written, call = .relay input nowMs written
    · obtain ⟨input, nowMs, written, rfl⟩ := hcall
      rw [h input nowMs written (hrelay input nowMs written rfl)]
      rfl
    · refine busOutputs_readIds s.bus ?_
      rintro input nowMs written rfl
      exact hcall ⟨input, nowMs, written, rfl⟩

theorem KwinChain.Heard.read (h : s.Heard queue) (nowMs : ℕ) (written : Bool) : (s.read c nowMs written).Heard queue := by
  have hkept := h.kept.read (c := c) nowMs written
  unfold KwinChain.read at hkept ⊢
  split_ifs at hkept ⊢ with hguard
  · exact h
  rw [Bool.or_eq_true, not_or, Bool.not_eq_true, List.isEmpty_iff] at hguard
  obtain ⟨i, call, rest, hnext, hcall, hfront⟩ := h.kept.wired.front hguard.1 hguard.2
  have htold := channelStep_told (c := c) s (.relay (.bytes s.wire) nowMs written)
  rcases hfront with hnone | ⟨hread, -, -, hrest⟩
  · refine h.heard hkept rfl htold rfl ?_ ?_
    · simp only [hnone, Option.isSome_none, Bool.false_eq_true, if_false, le_refl]
    · rw [newOutputs_relay, relayReadable, hnone]
      exact List.nil_sublist _
  · refine h.heard hkept rfl htold rfl ?_ ?_
    · simp only [hread, Option.isSome_some, if_true]
      exact Nat.le_succ _
    · have htake : (s.order.take (s.taken + 1)).drop s.taken = [i] := by
        rw [List.drop_take, hnext]
        simp
      simp only [hread, Option.isSome_some, if_true, htake, List.map_singleton, named_of_call hcall]
      rw [newOutputs_relay, relayReadable, hread]
      exact relayRequest_readIds s.channel.bus ⟨call.requestId, call.request.opcode, call.request.payload⟩ nowMs written

theorem KwinChain.Heard.step (h : s.Heard queue) (step : KwinChainStep σ)
    (hids : (s.step c pid step).relay.relay.nextRequestId < 2 ^ 64) : (s.step c pid step).Heard queue := by
  have hkept := h.kept.step step hids
  rcases @KwinChain.step_cases σ c pid s step with
    ⟨action, hnot, hrelay, horder, htaken, hchannel⟩ | ⟨step', hstep, hhang⟩ | ⟨nowMs, written, hstep⟩
  · exact h.advance hkept hids hrelay hnot horder htaken hchannel
  · rw [hstep] at hkept ⊢
    refine h.heard hkept rfl (channelStep_told s step') rfl (le_refl _) ?_
    rw [newOutputs_unread s.channel hhang]
    exact List.nil_sublist _
  · rw [hstep]
    exact h.read nowMs written

theorem start_heard {generation : Bytes} (h : kwinQueueInit generation = some queue) (peer : Bytes) :
    (KwinChain.start queue peer).Heard queue := by
  refine ⟨start_kept queue peer, ?_, KwinScript.start_sound h peer, kwinBusStart_sound h, ?_, ?_, ?_,
    relaySystemCreate_delivery, fun _ => rfl⟩
  · exact Nat.one_lt_two_pow (by decide)
  · exact List.nil_sublist _
  · exact List.nil_sublist _
  · exact nofun

/-- Ids are never taken back. -/
theorem KwinChain.next_le (s : KwinChain) (step : KwinChainStep σ) :
    s.relay.relay.nextRequestId ≤ (s.step c pid step).relay.relay.nextRequestId := by
  rcases @KwinChain.step_cases σ c pid s step with
    ⟨action, -, hrelay, -⟩ | ⟨step', hstep, -⟩ | ⟨nowMs, written, hstep⟩
  · rcases hrelay with hsame | hact
    · rw [hsame]
    · rw [hact]
      exact (relayAct_advance s.relay action).next_le
  · obtain ⟨inbox, hrelay⟩ := channelStep_relay (c := c) s step'
    rw [hstep, hrelay]
  · rw [hstep]
    unfold KwinChain.read
    split_ifs
    · exact le_refl _
    · obtain ⟨inbox, hrelay⟩ := channelStep_relay (c := c) s (.relay (.bytes s.wire) nowMs written)
      dsimp only
      rw [hrelay]

/-- All of it holds along every run, whoever steps when, as long as the ids of the relay have not come round. -/
theorem KwinChain.run_heard {generation : Bytes} (h : kwinQueueInit generation = some queue) (peer : Bytes)
    (steps : List (KwinChainStep σ))
    (hids : (steps.foldl (KwinChain.step c pid) (.start queue peer)).relay.relay.nextRequestId < 2 ^ 64) :
    (steps.foldl (KwinChain.step c pid) (.start queue peer)).Heard queue := by
  have hrun := Transition.Run.foldl (KwinChain.step c pid) (.start queue peer) steps
  refine hrun.invariant (I := fun s => s.relay.relay.nextRequestId < 2 ^ 64 → s.Heard queue) ?_
    (fun _ => start_heard h peer) hids
  intro s step t hs hstep hids
  rw [← hstep] at hids ⊢
  exact (hs (lt_of_le_of_lt (s.next_le step) hids)).step step hids

end Heard

section Busy

variable {queue : KwinQueue} {s : KwinChain} {i : ℕ} {call : RelayCall} {result : OperationResult}

/-- An execution of an operation: that of the job that its request was queued as. -/
def KwinChain.Executes (s : KwinChain) (i : ℕ) (e : Execution) : Prop :=
  e ∈ s.channel.executions ∧ ∃ call opcode, (s.relay.callers i).call? = some call ∧
    BusOutput.queued e.head.1 call.requestId opcode ∈ s.channel.outputs

/-- Why an operation that was told that the compositor is busy was not executed: it had no slot, the relay turned it
down or wrote nothing of it, the daemon turned it down, or the script met it with its budget exhausted. -/
inductive KwinChain.Unexecuted (s : KwinChain) (i : ℕ) : Prop
  | crowded (full : s.crowded i = true) (uncalled : s.relay.callers i = .idle) (none : ∀ e, ¬ s.Executes i e)
  | refused (result : OperationResult) (caller : s.relay.callers i = .refused result) (unwritten : s.relay.written i = 0)
      (none : ∀ e, ¬ s.Executes i e)
  | unwritten (call : RelayCall) (result : OperationResult) (caller : s.relay.callers i = .returned call result false)
      (unwritten : s.relay.written i = 0) (none : ∀ e, ¬ s.Executes i e)
  | declined (call : RelayCall) (frame : RelayFrame) (caller : (s.relay.callers i).call? = some call)
      (answer : BusOutput.answered Option.none frame ∈ s.channel.outputs) (own : frameId frame = call.requestId)
      (busy : frameStatus frame = Status.busy) (none : ∀ e, ¬ s.Executes i e)
  | spent (e : Execution) (own : s.Executes i e) (budget : exhausted e.job = true) (still : e.actions = [])
      (only : ∀ e', s.Executes i e' → e' = e)

theorem not_executes_of_uncalled (h : (s.relay.callers i).call? = none) (e : Execution) : ¬ s.Executes i e := by
  rintro ⟨-, call, opcode, hcall, -⟩
  rw [h] at hcall
  cases hcall

/-- What was queued was read off the socket, so it was written. -/
theorem KwinChain.Heard.written_of_executes (h : s.Heard queue) {e : Execution} (he : s.Executes i e) :
    s.relay.written i ≠ 0 := by
  obtain ⟨-, call, opcode, hcall, hqueued⟩ := he
  have hread : call.requestId ∈ readIds s.channel.outputs := List.mem_filterMap.mpr ⟨_, hqueued, rfl⟩
  obtain ⟨j, hj, hname⟩ := List.mem_map.mp (h.reads.subset hread)
  obtain ⟨other, hother, hattempted⟩ := (h.kept.wired.begun j).mp (List.mem_of_mem_take hj)
  rw [named_of_call hother] at hname
  have hsame := h.kept.wired.named.apart j i other call hother hcall hname
  subst hsame
  have hsized : (outgoing other.request other.requestId).Sized :=
    ⟨(h.kept.wired.sized j other hother).magic, (h.kept.wired.sized j other hother).payload⟩
  rw [h.kept.wired.ledger.read j hj, text_of_call hother,
    (h.kept.wired.named.staged j other hother).framed (.inl hattempted), hsized.length_bytes]
  unfold frameHeaderSize
  omega

theorem answerResult_status {a : PeerAnswer} (h : answerResult a = some result) (hbusy : result.status = Status.busy) :
    decodeU32 a.frame.payload = Status.busy := by
  have hstatus : (filledSlot {} a).status = decodeU32 a.frame.payload := by
    unfold filledSlot
    cases a.fd with
    | some file => rfl
    | none =>
      dsimp only
      split_ifs
      · rfl
      · rfl
  rw [← hstatus]
  unfold answerResult slotAnswer at h
  rw [filledSlot_done] at h
  have hne : Status.ok ≠ Status.busy := by decide
  by_cases hok : (filledSlot {} a).status = Status.ok
  · rw [if_pos hok] at h
    exfalso
    cases hfd : (filledSlot {} a).payloadFd with
    | some file =>
      simp only [hfd, Bool.not_true, Bool.false_eq_true, if_false, resultTakeFd] at h
      split_ifs at h
      cases h
      exact hne hbusy
    | none =>
      simp only [hfd, Bool.not_true, Bool.false_eq_true, if_false] at h
      cases h
      exact hne hbusy
  · simp only [hok, Bool.not_true, Bool.false_eq_true, if_false] at h
    cases h
    exact hbusy

theorem answerContent_busy {opcode : Opcode} {status : Status} {body : Bytes}
    (h : (answerContent opcode status body).1 = Status.busy) : status = Status.busy := by
  have hok : Status.ok ≠ Status.busy := by decide
  have hinternal : Status.internal ≠ Status.busy := by decide
  unfold answerContent at h
  split_ifs at h
  · cases hpayload : kwinResponsePayload opcode body (bufferInit (maxTextBytes + 4)) with
    | some translated =>
      rw [hpayload] at h
      exact absurd h hok
    | none =>
      rw [hpayload] at h
      exact absurd h hinternal
  · exact h

/-- An operation is executed once at most. -/
theorem KwinChain.Heard.executes_once {generation : Bytes} (h : s.Heard queue) (hinit : kwinQueueInit generation = some queue)
    {e e' : Execution} (he : s.Executes i e) (he' : s.Executes i e') : e' = e := by
  obtain ⟨hmem, call, opcode, hcall, hqueued⟩ := he
  obtain ⟨hmem', call', opcode', hcall', hqueued'⟩ := he'
  rw [hcall, Option.some.injEq] at hcall'
  subst hcall'
  have hsame := eq_of_readId (h.kept.wired.reads_nodup h.reads) hqueued hqueued' rfl rfl
  rw [BusOutput.queued.injEq] at hsame
  have honce := h.channel.kept.once hinit (h.kept.wired.queued_few h.few h.reads)
  exact List.inj_on_of_nodup_map honce hmem' hmem hsame.1.symm

/-- A call that was answered that the compositor is busy was turned down by the daemon, or was not executed. -/
theorem KwinChain.Heard.answered_busy {generation : Bytes} (h : s.Heard queue)
    (hinit : kwinQueueInit generation = some queue) (hreturned : s.relay.callers i = .returned call result true)
    (hbusy : result.status = Status.busy) : s.Unexecuted i := by
  have hcall : (s.relay.callers i).call? = some call := by rw [hreturned]; rfl
  obtain ⟨a, ha, -, hid, hresult, -⟩ := h.delivery.own hreturned
  obtain ⟨sequence, frame, hanswered, hframe⟩ := h.origin a ha
  rw [ofFrame_id hframe] at hid
  have hstatus : frameStatus frame = Status.busy := by
    rw [← answerResult_status hresult hbusy]
    unfold PeerAnswer.ofFrame at hframe
    dsimp only at hframe
    split_ifs at hframe
    cases hframe
    rfl
  cases sequence with
  | none =>
    refine .declined call frame hcall hanswered hid hstatus ?_
    rintro e ⟨-, call', opcode, hcall', hqueued⟩
    rw [hcall, Option.some.injEq] at hcall'
    rw [← hcall', ← hid] at hqueued
    have hsame := eq_of_readId (h.kept.wired.reads_nodup h.reads) hqueued hanswered rfl rfl
    cases hsame
  | some sequence =>
    obtain ⟨requestId, opcode, d, hqueued, hd, hsequence, hanswer⟩ := h.bus.content sequence frame hanswered
    obtain ⟨hown, hcontent, -⟩ := relayAnswer_fields hanswer
    have hdone : d.status = Status.busy := by
      rw [hstatus] at hcontent
      exact answerContent_busy hcontent.symm
    -- The line that was reported is a result of the script.
    have hreported : headOf d ∈ s.channel.executions.map Execution.head := by
      have hmem : headOf d ∈ s.channel.lines.map headOf := List.mem_map_of_mem hd
      exact Multiset.mem_of_le (le_trans (Multiset.le_add_right _ _) h.channel.reported) hmem
    obtain ⟨e, he, hhead⟩ := List.mem_map.mp hreported
    have hseq : e.head.1 = sequence := by
      rw [hhead]
      exact hsequence
    have hself : s.Executes i e := by
      refine ⟨he, call, opcode, hcall, ?_⟩
      rw [hseq, ← hid, hown]
      exact hqueued
    have hcode : e.status = statusBusy := by
      have hword : BitVec.ofNat 32 e.status = Status.busy := by
        have hsnd := congrArg Prod.snd hhead
        exact hsnd.trans hdone
      have hsmall := (h.channel.kept.spelled e he).status
      have hnat := congrArg BitVec.toNat hword
      rw [BitVec.toNat_ofNat, Nat.mod_eq_of_lt (by omega)] at hnat
      exact hnat
    obtain ⟨hspent, hstill⟩ := h.channel.kept.honest e he hcode
    exact .spent e hself hspent hstill fun e' he' => h.executes_once hinit hself he'

variable {σ : Type} {c : Compositor σ} {pid : ℕ → ℕ}

/-- An operation that reaches the script and ends with the status busy was not executed, wherever in its way that
status came from, and can be tried again. This is so in every run in which the relay's ids have not come round. -/
theorem busy_unexecuted (c : Compositor σ) (pid : ℕ → ℕ) {generation : Bytes}
    (hinit : kwinQueueInit generation = some queue) (peer : Bytes) (steps : List (KwinChainStep σ))
    (hrun : s = steps.foldl (KwinChain.step c pid) (.start queue peer)) (hids : s.relay.relay.nextRequestId < 2 ^ 64)
    {request : Frame} {reply : Reply} (hanswered : s.operating i = .answered request reply)
    (hscript : kwinScript request = true) (hbusy : reply.status = Status.busy) : s.Unexecuted i := by
  subst hrun
  have h := KwinChain.run_heard hinit peer steps hids
  generalize steps.foldl (KwinChain.step c pid) (.start queue peer) = s at h hanswered
  have hfits := h.kept.fits i
  rw [hanswered] at hfits
  rcases hfits.2 hscript hbusy with hcrowded | ⟨result, hresult, hstatus⟩
  · have hidle := hfits.1 hcrowded
    refine .crowded hcrowded hidle (not_executes_of_uncalled ?_)
    rw [hidle]
    rfl
  have hunwritten := h.unwritten i
  cases hcaller : s.relay.callers i with
  | refused own =>
    rw [hcaller] at hunwritten
    refine .refused own hcaller hunwritten (not_executes_of_uncalled ?_)
    rw [hcaller]
    rfl
  | returned call own answered =>
    rw [hcaller] at hresult hunwritten
    have hsame : own = result := Option.some.inj hresult
    subst hsame
    cases answered with
    | true => exact h.answered_busy hinit hcaller hstatus
    | false =>
      have hzero := hunwritten rfl hstatus
      exact .unwritten call own hcaller hzero fun e he => h.written_of_executes he hzero
  | _ =>
    rw [hcaller] at hresult
    cases hresult

def listCall : Frame := ⟨frameMagic, protocolMajor, protocolMinor, Op.windowList, 0, 9, encodeU32 1 ++ encodeU32 0⟩

theorem listCall_sized : listCall.Sized := ⟨by decide, by decide⟩

def rpcSession : Session := { monitoringSession with role := .rpc }

def stillGranted : Refreshed := ⟨monitoringLease, rpcSession, true, false⟩

/-- A list of windows is asked for, and the script polls only when its budget is gone. -/
def latePoll : List (KwinChainStep Unit) :=
  [.request 0 rpcSession listCall listCall_sized, .refresh 0 stillGranted,
    .operate 0 rpcSession monitoringLease true (.admission (some (.kwin, BitVec.allOnes 64)) true true),
    .relay (.pack 0 true), .relay (.claim 0 true), .relay (.transfer 0 1000), .relay (.endWrite 0),
    .daemon (.receive .greeting 0 fun _ => true), .daemon (.callback .greeting fun _ => ()), .read 0 true,
    .daemon (.receive (.lane .slow) 5000 fun _ => true), .daemon (.callback (.lane .slow) fun _ => ()),
    .daemon (.receive (.lane .slow) 5001 fun _ => true), .relay (.takeReader 0 true), .relay (.readFrame 0),
    .relay (.endRead 0), .relay (.finish 0), .operate 0 rpcSession monitoringLease true (.finish (resultTake [])),
    .refresh 0 stillGranted, .operate 0 rpcSession monitoringLease true (.judge true (.child true))]

theorem latePoll_unexecuted :
    (latePoll.foldl (KwinChain.step (oneWindow []) fun _ => 1) (.start newQueue scriptPeer)).Unexecuted 0 := by
  have hanswered : (latePoll.foldl (KwinChain.step (oneWindow []) fun _ => 1) (.start newQueue scriptPeer)).operating 0 =
      .answered listCall ⟨Status.busy, 0, refusedText, [], none⟩ := by decide +kernel
  exact busy_unexecuted (oneWindow []) (fun _ => 1) kwinQueueInit_newQueue scriptPeer latePoll rfl (by decide +kernel)
    hanswered (by decide) rfl

end Busy

end KeysharpDesktop
