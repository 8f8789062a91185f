import KeysharpDesktop.Client.Session

/-! What a step of a session does to its masks: it leaves them, takes in an event or a response, or returns an event
that waited in the queue. -/
namespace KeysharpDesktop.Client

section Outcomes

variable {c d : Connection} {frame : Frame} {opcode : Opcode} {requestId : BitVec 64}

theorem receiveResponse_input (c : Connection) (s : Socket) :
    ∃ input, (receiveResponse c s).2.1 = { c with input } := by
  unfold receiveResponse receiveEventFrame
  split_ifs
  · split <;> exact ⟨c.input, rfl⟩
  · exact ⟨_, rfl⟩

theorem parseResponse_spec {response : Response} {error : Error}
    (h : parseResponse frame opcode requestId = some (response, error)) :
    frame.opcode = opcode ∧ isEvent frame = false ∧ response.status = decodeU32 frame.payload ∧
      (response.status = Status.ok → response.tail = frame.payload.drop 8) := by
  unfold parseResponse at h
  split at h
  · cases h
  · next hhead =>
    obtain ⟨⟨status, c₁⟩, hstatus, h⟩ := Option.bind_eq_some_iff.mp h
    obtain ⟨⟨detail, c₂⟩, hdetail, h⟩ := Option.bind_eq_some_iff.mp h
    have hpayload : frame.payload = encodeU32 status ++ (encodeU32 detail ++ c₂) := by
      rw [cursorU32_eq_some hstatus, cursorU32_eq_some hdetail]
    simp only [Bool.or_eq_true, bne_iff_ne, beq_iff_eq, decide_eq_true_eq, not_or, not_not] at hhead
    have hdecode : decodeU32 frame.payload = status := by
      rw [hpayload, decodeU32_encodeU32]
    have htail : frame.payload.drop 8 = c₂ := by
      rw [hpayload, ← List.append_assoc]
      exact List.drop_left' (by simp)
    have hevent : isEvent frame = false := by
      rw [isEvent, hhead.1.2]
      rfl
    refine ⟨hhead.1.1.1.1, hevent, ?_⟩
    dsimp only at h
    split at h
    · cases h
    · split at h
      · cases h
        exact ⟨hdecode.symm, fun _ => htail.symm⟩
      · next hok =>
        split at h
        · cases h
        · obtain ⟨message, -, h⟩ := Option.bind_eq_some_iff.mp h
          cases h
          exact ⟨hdecode.symm, fun hstatus => absurd (beq_iff_eq.mpr hstatus) hok⟩

theorem applyRevokedEvent_eq_some {revoked : Scopes} (h : applyRevokedEvent c frame = some (revoked, d)) :
    frame.opcode = sessionRevoked ∧ frame.flags = flagEvent ∧ revoked = decodeU32 frame.payload ∧
      d = { c with grantedScopes := c.grantedScopes &&& ~~~decodeU32 frame.payload } := by
  unfold applyRevokedEvent at h
  split at h
  · cases h
  · next hshape =>
    simp only [Bool.or_eq_true, bne_iff_ne, not_or, not_not] at hshape
    dsimp only at h
    split at h
    · cases h
    · cases h
      exact ⟨hshape.1.1.1.1, hshape.1.1.1.2, rfl, rfl⟩

/-- A response answers the request, or it ends the connection. -/
theorem answerResponse_cases (c : Connection) (opcode : Opcode) (requestId : BitVec 64) (frame : Frame) :
    ((answerResponse c opcode requestId frame).1 = { c with connected := false } ∧
      (answerResponse c opcode requestId frame).2.response = none) ∨
    ∃ sequence response, (answerResponse c opcode requestId frame).1 = { c with sequence } ∧
      (answerResponse c opcode requestId frame).2.response = some response ∧
      (answerResponse c opcode requestId frame).2.status = decodeU32 frame.payload ∧
      frame.opcode = opcode ∧ isEvent frame = false ∧
      (decodeU32 frame.payload = Status.ok → stateMutatesWindows opcode = false →
        response.tail = frame.payload.drop 8) := by
  unfold answerResponse
  cases hparse : parseResponse frame opcode requestId with
  | none => exact Or.inl ⟨rfl, rfl⟩
  | some parsed =>
    obtain ⟨response, error⟩ := parsed
    obtain ⟨hopcode, hevent, hstatus, htail⟩ := parseResponse_spec hparse
    dsimp only
    split_ifs with hmutates hshort
    · exact Or.inl ⟨rfl, rfl⟩
    · refine Or.inr ⟨_, _, rfl, rfl, hstatus, hopcode, hevent, fun _ hstays => ?_⟩
      rw [hstays, Bool.and_false] at hmutates
      cases hmutates
    · exact Or.inr ⟨c.sequence, _, rfl, rfl, hstatus, hopcode, hevent, fun hok _ => htail (hstatus.trans hok)⟩

/-- A state event that can be queued and read later. -/
structure IsQueued (frame : Frame) : Prop where
  event : isEvent frame = true
  opcode : frame.opcode = Op.stateEvent
  decodes : (eventStructDecode frame.payload).1 = true

/-- There is room for an event in the queue. -/
def HasRoom (c : Connection) (frame : Frame) : Prop :=
  c.queuedCount < maxEvents ∧ frame.payload.length ≤ maxEventBytes - c.queuedBytes

/-- What an event does that comes while a response is awaited. -/
inductive Accepted (c : Connection) (frame : Frame) : Connection → Option Reply → Prop
  | queued (state : IsQueued frame) (room : HasRoom c frame) : Accepted c frame
      { c with
        grantedScopes := applyGrant c.grantedScopes frame
        queuedCount := c.queuedCount + 1
        queuedBytes := c.queuedBytes + frame.payload.length
        queued := c.queued ++ [frame] } none
  | revoked (opcode : frame.opcode = sessionRevoked) :
      Accepted c frame { c with grantedScopes := applyGrant c.grantedScopes frame } none
  | failed (reply : Reply) (response : reply.response = none)
      (refused : IsQueued frame → ¬HasRoom c frame) : Accepted c frame { c with connected := false } (some reply)

theorem applyGrant_revoked (hopcode : frame.opcode = sessionRevoked) (hevent : isEvent frame = true) (mask : Scopes) :
    applyGrant mask frame = mask &&& ~~~decodeU32 frame.payload := by
  have hother : ¬frame.opcode = Op.stateEvent := by
    rw [hopcode]
    decide
  rw [applyGrant, if_pos hevent, if_neg hother]

theorem applyGrant_state (h : IsQueued frame) (mask : Scopes) :
    applyGrant mask frame =
      if (eventOf frame).domain == StateDomain.grants.mask then (eventOf frame).grantedScopes else mask := by
  rw [applyGrant, if_pos h.event, if_pos h.opcode]

theorem acceptEvent_cases (c : Connection) (hevent : isEvent frame = true) :
    Accepted c frame (acceptEvent c frame).1 (acceptEvent c frame).2 := by
  by_cases hopcode : frame.opcode = Op.stateEvent
  · have hstate : (frame.opcode == Op.stateEvent) = true := beq_iff_eq.mpr hopcode
    have hguard : (decide (maxEvents ≤ c.queuedCount) ||
        decide (maxEventBytes - c.queuedBytes < frame.payload.length)) = true ↔ ¬HasRoom c frame := by
      rw [Bool.or_eq_true, decide_eq_true_eq, decide_eq_true_eq, HasRoom]
      omega
    by_cases hroom : HasRoom c frame
    · have hguard := mt hguard.mp (not_not.mpr hroom)
      rcases hdecode : eventStructDecode frame.payload with ⟨_ | _, event⟩
      · simp only [acceptEvent, hstate, queueEvent, hguard, if_true, hdecode]
        refine .failed _ rfl fun hqueued => ?_
        have hdecodes := hqueued.decodes
        rw [hdecode] at hdecodes
        cases hdecodes
      · have hqueued : IsQueued frame := ⟨hevent, hopcode, by rw [hdecode]⟩
        have happly := Accepted.queued hqueued hroom
        rw [applyGrant_state hqueued, eventOf, hdecode] at happly
        simp only [acceptEvent, hstate, queueEvent, hguard, if_true, hdecode]
        exact happly
    · simp only [acceptEvent, hstate, queueEvent, hguard.mpr hroom, if_true]
      exact .failed _ rfl fun _ => hroom
  · have hstate : (frame.opcode == Op.stateEvent) = false := beq_false_of_ne hopcode
    have hrefused : IsQueued frame → ¬HasRoom c frame := fun hqueued => absurd hqueued.opcode hopcode
    cases happlied : applyRevokedEvent c frame with
    | none =>
      simp only [acceptEvent, hstate, happlied]
      exact .failed _ rfl hrefused
    | some applied =>
      obtain ⟨revoked, d⟩ := applied
      obtain ⟨hrevoked, -, rfl, rfl⟩ := applyRevokedEvent_eq_some happlied
      have happly := Accepted.revoked (c := c) hrevoked
      rw [applyGrant_revoked hrevoked hevent] at happly
      simp only [acceptEvent, hstate, happlied]
      exact happly

/-- A state event that `ksd_state_next` returns. -/
structure IsShown (frame : Frame) : Prop extends IsQueued frame where
  flags : frame.flags = flagEvent
  unasked : frame.requestId = 0

/-- What `ksd_state_next` does with a frame. -/
inductive Handled (c : Connection) (frame : Frame) : Connection → NextResult → Prop
  | state (shown : IsShown frame) :
      Handled c frame { c with grantedScopes := applyGrant c.grantedScopes frame } (.event (eventOf frame))
  | revoked (event : EventStruct) (opcode : frame.opcode = sessionRevoked) (isEvent : isEvent frame = true)
      (granted : event.grantedScopes = applyGrant c.grantedScopes frame)
      (revoked : event.revokedScopes = decodeU32 frame.payload) :
      Handled c frame { c with grantedScopes := applyGrant c.grantedScopes frame } (.event event)
  | failed (status : Status) (error : Error) (refused : ¬IsShown frame) :
      Handled c frame { c with connected := false } (.failed status error)

theorem isEvent_of_flags (h : frame.flags = flagEvent) : isEvent frame = true := by
  rw [isEvent, h]
  decide

theorem nextFrame_cases (c : Connection) (frame : Frame) :
    Handled c frame (nextFrame c frame).1 (nextFrame c frame).2 := by
  by_cases hopcode : frame.opcode = sessionRevoked
  · have hrevoked : (frame.opcode == sessionRevoked) = true := beq_iff_eq.mpr hopcode
    have hrefused : ¬IsShown frame := by
      intro hshown
      have hstate := hshown.opcode
      rw [hopcode] at hstate
      cases hstate
    cases happlied : applyRevokedEvent c frame with
    | none =>
      simp only [nextFrame, hrevoked, if_true, happlied]
      exact .failed _ _ hrefused
    | some applied =>
      obtain ⟨revoked, d⟩ := applied
      obtain ⟨-, hflags, rfl, rfl⟩ := applyRevokedEvent_eq_some happlied
      have hevent := isEvent_of_flags hflags
      have hmask := applyGrant_revoked hopcode hevent c.grantedScopes
      simp only [nextFrame, hrevoked, if_true, happlied]
      rw [← hmask]
      exact .revoked _ hopcode hevent rfl rfl
  · have hrevoked : (frame.opcode == sessionRevoked) = false := beq_false_of_ne hopcode
    by_cases hshape : frame.opcode = Op.stateEvent ∧ frame.flags = flagEvent ∧ frame.requestId = 0
    · obtain ⟨hstate, hflags, hid⟩ := hshape
      have hexpected : (frame.opcode != Op.stateEvent || frame.flags != flagEvent || frame.requestId != 0) = false := by
        simp [hstate, hflags, hid]
      rcases hdecode : eventStructDecode frame.payload with ⟨_ | _, event⟩
      · simp only [nextFrame, hrevoked, hexpected, Bool.false_eq_true, if_false, hdecode]
        refine .failed _ _ fun hshown => ?_
        have hdecodes := hshown.decodes
        rw [hdecode] at hdecodes
        cases hdecodes
      · have hshown : IsShown frame := ⟨⟨isEvent_of_flags hflags, hstate, by rw [hdecode]⟩, hflags, hid⟩
        have hhandled := Handled.state (c := c) hshown
        rw [applyGrant_state hshown.toIsQueued, eventOf, hdecode] at hhandled
        simp only [nextFrame, hrevoked, hexpected, Bool.false_eq_true, if_false, hdecode]
        exact hhandled
    · have hexpected : (frame.opcode != Op.stateEvent || frame.flags != flagEvent || frame.requestId != 0) = true := by
        simp only [Bool.or_eq_true, bne_iff_ne]
        tauto
      simp only [nextFrame, hrevoked, hexpected, Bool.false_eq_true, if_false, if_true]
      exact .failed _ _ fun hshown => hshape ⟨hshown.opcode, hshown.flags, hshown.unasked⟩

end Outcomes

section Effects

variable {x y : Session} {a : SessionAct} {call : Call} {reply : Reply}

/-- A state event that the step takes from the socket, or from the queue. -/
def Session.Takes (x : Session) : SessionAct → Frame → Prop
  | .await, frame => x.waiting.isSome ∧ (receiveResponse x.connection x.socket).1 = .frame frame ∧
      IsQueued frame ∧ HasRoom x.connection frame
  | .next, frame => x.waiting = none ∧ x.opened = true ∧
      frame ∈ x.connection.queued.head?.toList ++ x.fetched ∧ IsShown frame
  | _, _ => False

def Session.masks (x : Session) : List Scopes := x.infos.map ServiceInfo.grantedScopes ++ x.authorizations

/-- How a step changes the mask, what was received and what was handed out. -/
inductive Effect (x : Session) (a : SessionAct) (y : Session) : Prop
  | quiet (granted : y.connection.grantedScopes = x.connection.grantedScopes)
      (received : grantsOf y.received = grantsOf x.received) (masks : y.masks = x.masks)
      (events : y.events = x.events) (none : ∀ frame, ¬x.Takes a frame)
  | event (frame : Frame) (takes : x.Takes a frame) (fresh : a.isNext = true → x.connection.queued = [])
      (received : y.received = x.received ++ [frame])
      (granted : y.connection.grantedScopes = applyGrant x.connection.grantedScopes frame) (masks : y.masks = x.masks)
      (events : y.events = x.events ++ if a.isNext then [(frame, eventOf frame)] else [])
  | revoked (frame : Frame) (opcode : frame.opcode = sessionRevoked) (isEvent : isEvent frame = true)
      (received : y.received = x.received ++ [frame])
      (granted : y.connection.grantedScopes = applyGrant x.connection.grantedScopes frame) (masks : y.masks = x.masks)
      (events : y.events = x.events ∨ ∃ e : EventStruct, y.events = x.events ++ [(frame, e)] ∧
        e.grantedScopes = y.connection.grantedScopes ∧ e.revokedScopes = decodeU32 frame.payload)
      (none : ∀ frame, ¬x.Takes a frame)
  | drained (frame : Frame) (isNext : a = .next) (first : x.connection.queued.head? = some frame)
      (takes : x.Takes a frame) (received : y.received = x.received)
      (granted : y.connection.grantedScopes = applyGrant x.connection.grantedScopes frame) (masks : y.masks = x.masks)
      (events : y.events = x.events ++ [(frame, eventOf frame)])
  | answered (mask : Scopes) (received : grantsOf y.received = mask)
      (granted : y.connection.grantedScopes = mask &&& acceptedScopes)
      (masks : List.Perm y.masks (x.masks ++ [y.connection.grantedScopes])) (events : y.events = x.events)
      (none : ∀ frame, ¬x.Takes a frame)

theorem parseHelloTail_eq_some {tail : Bytes} {granted : Scopes} {operations : BitVec 64} {backend : BitVec 32}
    (h : parseHelloTail tail = some (granted, operations, backend)) :
    granted = decodeU32 tail &&& acceptedScopes := by
  obtain ⟨⟨mask, c⟩, hmask, h⟩ := Option.bind_eq_some_iff.mp h
  obtain ⟨_, -, h⟩ := Option.bind_eq_some_iff.mp h
  obtain ⟨_, -, h⟩ := Option.bind_eq_some_iff.mp h
  obtain ⟨_, -, h⟩ := Option.bind_eq_some_iff.mp h
  obtain ⟨_, -, h⟩ := Option.bind_eq_some_iff.mp h
  dsimp only at h
  split_ifs at h
  cases h
  rw [cursorU32_eq_some hmask, decodeU32_encodeU32]

theorem parseAuthorization_eq_some {response : Response} {granted : Scopes}
    (h : parseAuthorization response = some granted) : granted = decodeU32 response.tail &&& acceptedScopes := by
  unfold parseAuthorization at h
  split_ifs at h
  obtain ⟨⟨mask, c⟩, hmask, h⟩ := Option.bind_eq_some_iff.mp h
  obtain ⟨_, -, h⟩ := Option.bind_eq_some_iff.mp h
  dsimp only at h
  split_ifs at h
  cases h
  rw [cursorU32_eq_some hmask, decodeU32_encodeU32]

/-- What the end of a call leaves as it is. -/
structure Ended (x y : Session) : Prop where
  received : y.received = x.received
  events : y.events = x.events
  waiting : y.waiting = none
  queued : ∀ frame ∈ y.connection.queued, frame ∈ x.connection.queued

/-- A call ends without a mask, or with the one of its response. -/
inductive Finished (x : Session) (call : Call) (reply : Reply) (y : Session) : Prop
  | kept (granted : y.connection.grantedScopes = x.connection.grantedScopes) (masks : y.masks = x.masks)
      (quiet : y.connection.connected = true → x.connection.connected = true ∧
        (reply.response.isSome → reply.status ≠ Status.ok ∨ ∃ opcode read, call = .other opcode read))
  | granted (response : Response) (responds : reply.response = some response) (ok : reply.status = Status.ok)
      (asks : call = .hello ∨ call = .authorize)
      (granted : y.connection.grantedScopes = decodeU32 response.tail &&& acceptedScopes)
      (masks : List.Perm y.masks (x.masks ++ [y.connection.grantedScopes]))
      (connected : y.connection.connected = x.connection.connected)

/-- A connection is made with the mask of its response, or it is freed. -/
theorem connect_cases (c : Connection) (reply : Reply) :
    ((connect c reply).1.grantedScopes = c.grantedScopes ∧ (connect c reply).1.connected = false ∧
      (connect c reply).1.queued = [] ∧ (connect c reply).2.2.2 = none) ∨
    ∃ response info, reply.response = some response ∧ reply.status = Status.ok ∧
      (connect c reply).1 = { c with grantedScopes := info.grantedScopes } ∧ (connect c reply).2.2.2 = some info ∧
      info.grantedScopes = decodeU32 response.tail &&& acceptedScopes := by
  unfold connect
  cases hresponse : reply.response with
  | none => exact Or.inl ⟨rfl, rfl, rfl, rfl⟩
  | some response =>
    by_cases hok : reply.status = Status.ok
    · have hgood : ¬(reply.status != Status.ok) = true := by simp [hok]
      dsimp only
      rw [if_neg hgood]
      cases hparse : if response.frame.flags &&& flagMore != 0 then none else parseHelloTail response.tail with
      | none => exact Or.inl ⟨rfl, rfl, rfl, rfl⟩
      | some parsed =>
        obtain ⟨granted, operations, backend⟩ := parsed
        split_ifs at hparse
        exact Or.inr ⟨response, _, rfl, hok, rfl, rfl, parseHelloTail_eq_some hparse⟩
    · dsimp only
      rw [if_pos (bne_iff_ne.mpr hok)]
      exact Or.inl ⟨rfl, rfl, rfl, rfl⟩

theorem authorize_cases (c : Connection) (reply : Reply) :
    ((authorize c reply).2.2.2 = none ∧ ((authorize c reply).1 = { c with connected := false } ∨
      (authorize c reply).1 = c ∧ (reply.response.isSome → reply.status ≠ Status.ok))) ∨
    ∃ response granted, reply.response = some response ∧ reply.status = Status.ok ∧
      (authorize c reply).1 = { c with grantedScopes := granted } ∧ (authorize c reply).2.2.2 = some granted ∧
      granted = decodeU32 response.tail &&& acceptedScopes := by
  unfold authorize
  cases hresponse : reply.response with
  | none => exact Or.inl ⟨rfl, Or.inr ⟨rfl, nofun⟩⟩
  | some response =>
    by_cases hok : reply.status = Status.ok
    · have hgood : ¬(reply.status != Status.ok) = true := by simp [hok]
      dsimp only
      rw [if_neg hgood]
      cases hparse : parseAuthorization response with
      | none => exact Or.inl ⟨rfl, Or.inl rfl⟩
      | some granted => exact Or.inr ⟨response, granted, rfl, hok, rfl, rfl, parseAuthorization_eq_some hparse⟩
    · dsimp only
      rw [if_pos (bne_iff_ne.mpr hok)]
      exact Or.inl ⟨rfl, Or.inr ⟨rfl, fun _ => hok⟩⟩

theorem requestResult_connection (read : Response → Except String Value) (c : Connection) (reply : Reply) :
    (requestResult read c reply).connection = c ∨
      (requestResult read c reply).connection = { c with connected := false } := by
  unfold requestResult
  split
  · exact Or.inl rfl
  · split_ifs
    · exact Or.inl rfl
    · split
      · exact Or.inr rfl
      · exact Or.inl rfl

theorem finish_ended (x : Session) (call : Call) (reply : Reply) : Ended x (x.finish call reply) := by
  have hsame : ∀ frame ∈ x.connection.queued, frame ∈ x.connection.queued := fun frame hframe => hframe
  cases call with
  | hello =>
    refine ⟨rfl, rfl, rfl, ?_⟩
    simp only [Session.finish]
    rcases connect_cases x.connection reply with ⟨-, -, hempty, -⟩ | ⟨response, info, -, -, hmade, -, -⟩
    · rw [hempty]
      exact nofun
    · rw [hmade]
      exact hsame
  | authorize =>
    refine ⟨rfl, rfl, rfl, ?_⟩
    simp only [Session.finish]
    rcases authorize_cases x.connection reply with ⟨-, hclosed | ⟨hkept, -⟩⟩ | ⟨response, granted, -, -, hmade, -, -⟩
    · rw [hclosed]
      exact hsame
    · rw [hkept]
      exact hsame
    · rw [hmade]
      exact hsame
  | other opcode read =>
    refine ⟨rfl, rfl, rfl, ?_⟩
    simp only [Session.finish]
    rcases requestResult_connection read x.connection reply with hkept | hclosed
    · rw [hkept]
      exact hsame
    · rw [hclosed]
      exact hsame

theorem finish_cases (x : Session) (call : Call) (reply : Reply) : Finished x call reply (x.finish call reply) := by
  cases call with
  | hello =>
    simp only [Session.finish]
    rcases connect_cases x.connection reply with ⟨hgranted, hclosed, -, hnone⟩ | ⟨response, info, hresponse, hok,
      hmade, hsome, hmask⟩
    · rw [hnone]
      refine .kept hgranted (by simp [Session.masks]) fun hconnected => ?_
      rw [hclosed] at hconnected
      cases hconnected
    · rw [hmade, hsome]
      refine .granted response hresponse hok (Or.inl rfl) hmask ?_ rfl
      simpa [Session.masks] using (List.perm_append_singleton _ _).symm.append_left _
  | authorize =>
    simp only [Session.finish]
    rcases authorize_cases x.connection reply with ⟨hnone, hclosed | ⟨hkept, hbad⟩⟩ | ⟨response, granted, hresponse,
      hok, hmade, hsome, hmask⟩
    · rw [hnone, hclosed]
      exact .kept rfl (by simp [Session.masks]) nofun
    · rw [hnone, hkept]
      exact .kept rfl (by simp [Session.masks]) fun hconnected => ⟨hconnected, fun hsome => Or.inl (hbad hsome)⟩
    · rw [hmade, hsome]
      exact .granted response hresponse hok (Or.inr rfl) hmask (by simp [Session.masks]) rfl
  | other opcode read =>
    simp only [Session.finish]
    rcases requestResult_connection read x.connection reply with hkept | hclosed
    · rw [hkept]
      exact .kept rfl rfl fun hconnected => ⟨hconnected, fun _ => Or.inr ⟨opcode, read, rfl⟩⟩
    · rw [hclosed]
      exact .kept rfl rfl nofun

/-- What a session keeps: it waits on a connection that lasts, other calls have opcodes of their own, and only
state events are queued. -/
structure Ordered (x : Session) : Prop where
  live : x.waiting.isSome = true → x.connection.connected = true
  asked : ∀ opcode read requestId, x.waiting = some (.other opcode read, requestId) →
    opcode ≠ opHello ∧ opcode ≠ opAuthorize
  queued : ∀ frame ∈ x.connection.queued, IsQueued frame

theorem start_ordered (role : Role) : Ordered (Session.start role) :=
  ⟨fun _ => rfl, nofun, nofun⟩

theorem Effect.idle (hgranted : y.connection.grantedScopes = x.connection.grantedScopes)
    (hreceived : y.received = x.received) (hmasks : y.masks = x.masks) (hevents : y.events = x.events)
    (hnone : ∀ frame, ¬x.Takes a frame) : Effect x a y :=
  .quiet hgranted (by rw [hreceived]) hmasks hevents hnone

theorem Ended.ordered (h : Ended x y) (hqueued : ∀ frame ∈ x.connection.queued, IsQueued frame) : Ordered y where
  live hwaiting := by
    rw [h.waiting] at hwaiting
    cases hwaiting
  asked opcode read requestId hwaiting := by
    rw [h.waiting] at hwaiting
    cases hwaiting
  queued frame hframe := hqueued frame (h.queued frame hframe)

theorem failedReply_eq (c : Connection) (errno : Errno) (message : String) :
    ∃ reply, failedReply c errno message = ({ c with connected := false }, reply) ∧ reply.response = none :=
  ⟨_, rfl, rfl⟩

theorem request_effect (h : Ordered x) (call : Call) :
    Effect x (.request call) (x.request call) ∧ Ordered (x.request call) := by
  unfold Session.request
  by_cases hrefused : (x.waiting.isSome || !x.opened || !x.allowed call) = true
  · rw [if_pos hrefused]
    exact ⟨.idle rfl rfl rfl rfl nofun, h⟩
  · rw [if_neg hrefused]
    dsimp only
    split_ifs with hclosed
    · exact ⟨.idle rfl rfl rfl rfl nofun, h.live, h.asked, h.queued⟩
    · refine ⟨.idle rfl rfl rfl rfl nofun, fun _ => by simpa using hclosed, ?_, h.queued⟩
      intro opcode read requestId hwaiting
      cases hwaiting
      simp only [Bool.or_eq_true, Bool.not_eq_true', not_or, Session.allowed] at hrefused
      simpa using hrefused.2

theorem expire_effect (h : Ordered x) : Effect x .expire x.expire ∧ Ordered x.expire := by
  unfold Session.expire
  cases hwaiting : x.waiting with
  | none => exact ⟨.idle rfl rfl rfl rfl nofun, h⟩
  | some waiting =>
    obtain ⟨call, requestId⟩ := waiting
    obtain ⟨reply, hfailed, hnone⟩ := failedReply_eq x.connection .timedOut "desktop service response timed out"
    rw [hfailed]
    dsimp only
    have hended := finish_ended { x with connection := { x.connection with connected := false } } call reply
    have hcases := finish_cases { x with connection := { x.connection with connected := false } } call reply
    rw [hwaiting] at hended hcases
    refine ⟨?_, hended.ordered h.queued⟩
    cases hcases with
    | kept hgranted hmasks => exact .idle hgranted hended.received hmasks hended.events nofun
    | granted response hresponse =>
      rw [hnone] at hresponse
      cases hresponse

@[simp] theorem record_connection (x : Session) (frames : List Frame) :
    (x.record frames).connection = x.connection := by
  unfold Session.record
  split_ifs <;> rfl

@[simp] theorem record_waiting (x : Session) (frames : List Frame) : (x.record frames).waiting = x.waiting := by
  unfold Session.record
  split_ifs <;> rfl

@[simp] theorem record_masks (x : Session) (frames : List Frame) : (x.record frames).masks = x.masks := by
  unfold Session.record
  split_ifs <;> rfl

@[simp] theorem record_events (x : Session) (frames : List Frame) : (x.record frames).events = x.events := by
  unfold Session.record
  split_ifs <;> rfl

theorem record_open (h : x.connection.connected = true) (frames : List Frame) :
    (x.record frames).received = x.received ++ frames := by
  rw [Session.record, if_pos h]

theorem record_closed (h : x.connection.connected = false) (frames : List Frame) : x.record frames = x := by
  rw [Session.record, h]
  rfl

theorem Ordered.record (h : Ordered x) (frames : List Frame) : Ordered (x.record frames) where
  live := by simpa using h.live
  asked := by simpa using h.asked
  queued := by simpa using h.queued

/-- A step that ends the connection changes no mask. -/
theorem closed_effect (h : Ordered x) {d : Connection} (hgranted : d.grantedScopes = x.connection.grantedScopes)
    (hqueued : d.queued = x.connection.queued) (hclosed : d.connected = false) (hreply : reply.response = none)
    (hnone : ∀ frame, ¬x.Takes a frame) (t : Socket) (call : Call) (frames : List Frame) :
    Effect x a (({ x with connection := d, socket := t }.finish call reply).record frames) ∧
      Ordered (({ x with connection := d, socket := t }.finish call reply).record frames) := by
  have hended := finish_ended { x with connection := d, socket := t } call reply
  have hcases := finish_cases { x with connection := d, socket := t } call reply
  have hordered : Ordered ({ x with connection := d, socket := t }.finish call reply) :=
    hended.ordered (by simpa [hqueued] using h.queued)
  refine ⟨?_, hordered.record frames⟩
  cases hcases with
  | kept hkept hmasks hquiet =>
    have hend : ({ x with connection := d, socket := t }.finish call reply).connection.connected = false := by
      by_contra hopen
      have hopen := (hquiet (by simpa using hopen)).1
      dsimp only at hopen
      rw [hclosed] at hopen
      cases hopen
    rw [record_closed hend]
    exact .idle (hkept.trans hgranted) hended.received hmasks hended.events hnone
  | granted response hresponse =>
    rw [hreply] at hresponse
    cases hresponse

theorem grantsOf_snoc (frames : List Frame) (frame : Frame) :
    grantsOf (frames ++ [frame]) = applyGrant (grantsOf frames) frame := by
  rw [grantsOf, List.foldl_append]
  rfl

/-- A response that gives no mask changes none. -/
theorem applyGrant_other {frame : Frame} (hresponse : isEvent frame = false)
    (h : decodeU32 frame.payload ≠ Status.ok ∨ frame.opcode ≠ opHello ∧ frame.opcode ≠ opAuthorize) (mask : Scopes) :
    applyGrant mask frame = mask := by
  have hnot : ¬((frame.opcode = opHello ∨ frame.opcode = opAuthorize) ∧ decodeU32 frame.payload = Status.ok) := by
    rcases h with h | ⟨hhello, hauthorize⟩
    · exact fun hboth => h hboth.2
    · rintro ⟨hopcode | hopcode, -⟩
      · exact hhello hopcode
      · exact hauthorize hopcode
  rw [applyGrant, hresponse, if_neg nofun, if_neg hnot]

theorem applyGrant_answer {frame : Frame} (hresponse : isEvent frame = false)
    (hopcode : frame.opcode = opHello ∨ frame.opcode = opAuthorize) (hok : decodeU32 frame.payload = Status.ok)
    (mask : Scopes) : applyGrant mask frame = decodeU32 (frame.payload.drop 8) := by
  rw [applyGrant, hresponse, if_neg nofun, if_pos ⟨hopcode, hok⟩]

theorem await_eq {requestId : BitVec 64} (h : x.waiting = some (call, requestId)) :
    x.await =
      let (connection, socket, reply) := responsePass call.opcode requestId x.connection x.socket
      let y := { x with connection, socket }
      (reply.elim y (y.finish call)).record (receiveResponse x.connection x.socket).1.frames := by
  unfold Session.await
  split
  · next hnone => cases h.symm.trans hnone
  · next call' requestId' hsome =>
    cases h.symm.trans hsome
    rfl

/-- The response of a call is taken with the mask it gives. -/
theorem answered_effect (h : Ordered x) {requestId sequence : BitVec 64} {input : Buffer} {frame : Frame}
    {response : Response} (hwaiting : x.waiting = some (call, requestId)) (hresponse : reply.response = some response)
    (hstatus : reply.status = decodeU32 frame.payload) (hopcode : frame.opcode = call.opcode)
    (hevent : isEvent frame = false) (htail : decodeU32 frame.payload = Status.ok →
      stateMutatesWindows call.opcode = false → response.tail = frame.payload.drop 8)
    (hnone : ∀ frame, ¬x.Takes a frame) (t : Socket) :
    Effect x a (({ x with connection := { x.connection with input, sequence }, socket := t }.finish call
        reply).record [frame]) ∧
      Ordered (({ x with connection := { x.connection with input, sequence }, socket := t }.finish call
        reply).record [frame]) := by
  have hconnected : x.connection.connected = true := h.live (by rw [hwaiting]; rfl)
  have hended := finish_ended { x with connection := { x.connection with input, sequence }, socket := t } call reply
  have hcases := finish_cases { x with connection := { x.connection with input, sequence }, socket := t } call reply
  refine ⟨?_, (hended.ordered h.queued).record [frame]⟩
  cases hcases with
  | kept hgranted hmasks hquiet =>
    refine .quiet (by simpa using hgranted) ?_ ((record_masks _ _).trans hmasks) (by simpa using hended.events) hnone
    rcases hopen : ({ x with connection := { x.connection with input, sequence }, socket := t }.finish call
        reply).connection.connected with _ | _
    · rw [record_closed hopen, hended.received]
    · rw [record_open hopen, grantsOf_snoc, hended.received]
      refine applyGrant_other hevent ?_ _
      rcases (hquiet hopen).2 (by rw [hresponse]; rfl) with hbad | ⟨opcode, read, rfl⟩
      · exact Or.inl (hstatus ▸ hbad)
      · rw [hopcode]
        exact Or.inr (h.asked opcode read requestId hwaiting)
  | granted other hother hok hasks hgranted hmasks hopen =>
    obtain rfl : response = other := Option.some.inj (hresponse.symm.trans hother)
    have hstays : stateMutatesWindows call.opcode = false := by
      rcases hasks with rfl | rfl <;> rfl
    have hanswers : frame.opcode = opHello ∨ frame.opcode = opAuthorize := by
      rw [hopcode]
      exact hasks.imp (fun hcall => by rw [hcall]; rfl) (fun hcall => by rw [hcall]; rfl)
    have hcode : decodeU32 frame.payload = Status.ok := hstatus ▸ hok
    refine .answered (decodeU32 (frame.payload.drop 8)) ?_ ?_ ?_ (by simpa using hended.events) hnone
    · rw [record_open (hopen.trans hconnected), grantsOf_snoc, applyGrant_answer hevent hanswers hcode]
    · rw [record_connection, hgranted, htail hcode hstays]
    · rw [record_masks, record_connection]
      exact hmasks

theorem await_effect (h : Ordered x) : Effect x .await x.await ∧ Ordered x.await := by
  cases hwaiting : x.waiting with
  | none =>
    have hsame : x.await = x := by
      unfold Session.await
      rw [hwaiting]
    rw [hsame]
    refine ⟨.idle rfl rfl rfl rfl ?_, h⟩
    rintro frame ⟨hsome, -⟩
    rw [hwaiting] at hsome
    cases hsome
  | some waiting =>
    obtain ⟨call, requestId⟩ := waiting
    have hconnected : x.connection.connected = true := h.live (by rw [hwaiting]; rfl)
    obtain ⟨input, hinput⟩ := receiveResponse_input x.connection x.socket
    rcases hreceive : receiveResponse x.connection x.socket with ⟨arrival, c, t⟩
    rw [hreceive] at hinput
    dsimp only at hinput
    subst hinput
    have harrives : ∀ frame, x.Takes .await frame → arrival = .frame frame := by
      rintro frame ⟨-, harrival, -⟩
      rw [hreceive] at harrival
      exact harrival
    rw [await_eq hwaiting]
    cases arrival with
    | again =>
      simp only [responsePass, hreceive, Option.elim_none, Arrival.frames]
      have hnew : Ordered { x with connection := { x.connection with input }, socket := t } :=
        ⟨h.live, h.asked, h.queued⟩
      refine ⟨.idle (by simp) ?_ (record_masks _ _) (by simp) fun frame htakes => ?_, hnew.record []⟩
      · rw [record_open (by exact hconnected), List.append_nil]
      · cases harrives frame htakes
    | failed errno =>
      obtain ⟨reply, hfailed, hnone⟩ := failedReply_eq { x.connection with input } errno
        "desktop service response failed"
      simp only [responsePass, hreceive, hfailed, Option.elim_some, Arrival.frames]
      refine closed_effect h (by rfl) (by rfl) (by rfl) hnone (fun frame htakes => ?_) t call []
      cases harrives frame htakes
    | frame frame =>
      simp only [responsePass, hreceive, Arrival.frames]
      by_cases hevent : isEvent frame = true
      · rw [if_pos (show (frame.flags &&& flagEvent != 0) = true from hevent)]
        have hcases := acceptEvent_cases { x.connection with input } hevent
        generalize acceptEvent { x.connection with input } frame = accepted at hcases
        obtain ⟨d, reply⟩ := accepted
        dsimp only at hcases ⊢
        cases hcases with
        | queued hstate hroom =>
          simp only [Option.elim_none]
          refine ⟨.event frame ⟨by rw [hwaiting]; rfl, by rw [hreceive], hstate, hroom⟩ (by simp [SessionAct.isNext])
            (record_open (by exact hconnected) _)
            (by simp) (record_masks _ _) (by simp [SessionAct.isNext]), ?_⟩
          apply Ordered.record
          refine ⟨h.live, h.asked, ?_⟩
          intro other hother
          rcases List.mem_append.mp hother with hother | hother
          · exact h.queued other hother
          · rw [List.mem_singleton.mp hother]
            exact hstate
        | revoked hopcode =>
          simp only [Option.elim_none]
          refine ⟨.revoked frame hopcode hevent (record_open (by exact hconnected) _) (by simp) (record_masks _ _)
            (Or.inl (by simp)) ?_, ?_⟩
          · rintro other ⟨-, harrival, hqueued, -⟩
            rw [hreceive] at harrival
            cases harrival
            have hstate := hqueued.opcode
            rw [hopcode] at hstate
            cases hstate
          · apply Ordered.record
            exact ⟨h.live, h.asked, h.queued⟩
        | failed reply hresponse hrefused =>
          refine closed_effect h (by rfl) (by rfl) (by rfl) hresponse ?_ t call [frame]
          rintro other ⟨-, harrival, hqueued, hroom⟩
          rw [hreceive] at harrival
          cases harrival
          exact hrefused hqueued hroom
      · have hresponse : isEvent frame = false := Bool.not_eq_true _ ▸ hevent
        have hnone : ∀ other, ¬x.Takes .await other := by
          rintro other ⟨-, harrival, hqueued, -⟩
          rw [hreceive] at harrival
          cases harrival
          exact hevent hqueued.event
        rw [if_neg (show ¬(frame.flags &&& flagEvent != 0) = true from hevent)]
        rcases answerResponse_cases { x.connection with input } call.opcode requestId frame with ⟨hclosed, hreply⟩ |
          ⟨sequence, response, hmade, hreply, hstatus, hopcode, -, htail⟩
        · dsimp only [Option.elim_some]
          rw [hclosed]
          exact closed_effect h (by rfl) (by rfl) (by rfl) hreply hnone t call [frame]
        · dsimp only [Option.elim_some]
          rw [hmade]
          exact answered_effect h hwaiting hreply hstatus hopcode hresponse htail hnone t

theorem next_eq (hwaiting : x.waiting = none) (hopened : x.opened = true) :
    x.next =
      let (connection, socket, result) := stateNext x.connection x.socket
      let handled := x.connection.queued.head?.toList ++ x.fetched
      { x with
        connection
        socket
        events := x.events ++ match result with
          | .event event => handled.map (·, event)
          | _ => [] }.record x.fetched := by
  have hgo : ¬(x.waiting.isSome || !x.opened) = true := by simp [hwaiting, hopened]
  rw [Session.next]
  exact if_neg hgo

/-- The rest of a call of `ksd_state_next` that has tried to receive. -/
def receivedNext (c : Connection) (s : Socket) : Arrival → Connection × Socket × NextResult
  | .again => (c, s, .timeout)
  | .failed errno =>
    let (c, result) := failedNext c errno "desktop event receive failed"
    (c, s, result)
  | .frame received =>
    let (c, result) := nextFrame c received
    (c, s, result)

theorem stateNext_received {c d : Connection} {s t : Socket} {arrival : Arrival} (htake : takeEvent c = none)
    (hconnected : c.connected = true) (hreceive : receiveEventFrame c s = (arrival, d, t)) :
    stateNext c s = receivedNext d t arrival := by
  have hopen : ¬(!c.connected) = true := by simp [hconnected]
  unfold stateNext
  rw [htake]
  dsimp only
  rw [if_neg hopen, hreceive]
  cases arrival <;> rfl

theorem next_effect (h : Ordered x) : Effect x .next x.next ∧ Ordered x.next := by
  by_cases hidle : x.waiting = none ∧ x.opened = true
  · obtain ⟨hwaiting, hopened⟩ := hidle
    have hlive : ∀ d : Connection, x.waiting.isSome = true → d.connected = true := by simp [hwaiting]
    rw [next_eq hwaiting hopened]
    cases hqueued : x.connection.queued with
    | cons frame rest =>
      have hstate : IsQueued frame := h.queued frame (by simp [hqueued])
      have hfetched : x.fetched = [] := by simp [Session.fetched, takeEvent, hqueued]
      have hrest : ∀ other ∈ rest, IsQueued other := fun other hother => h.queued other (by simp [hqueued, hother])
      have htakes : ∀ other, x.Takes .next other ↔ other = frame ∧ IsShown frame := by
        intro other
        simp only [Session.Takes, hwaiting, hopened, hqueued, hfetched, List.head?_cons, Option.toList_some,
          List.append_nil, List.mem_singleton, true_and]
        constructor
        · rintro ⟨rfl, hshown⟩
          exact ⟨rfl, hshown⟩
        · rintro ⟨rfl, hshown⟩
          exact ⟨rfl, hshown⟩
      simp only [stateNext, takeEvent, hqueued, hfetched]
      have hcases := nextFrame_cases { x.connection with
        queued := rest
        queuedCount := x.connection.queuedCount - 1
        queuedBytes := x.connection.queuedBytes - frame.payload.length } frame
      generalize nextFrame _ frame = handled at hcases ⊢
      obtain ⟨d, result⟩ := handled
      dsimp only at hcases ⊢
      cases hcases with
      | state hshown =>
        refine ⟨.drained frame rfl (by rw [hqueued]; rfl) ((htakes frame).mpr ⟨rfl, hshown⟩) ?_ (by simp)
          (record_masks _ _) (by simp), ?_⟩
        · unfold Session.record
          split_ifs
          · exact List.append_nil _
          · rfl
        · apply Ordered.record
          exact ⟨hlive _, h.asked, hrest⟩
      | revoked event hopcode =>
        have hother := hstate.opcode
        rw [hopcode] at hother
        cases hother
      | failed status error hrefused =>
        rw [record_closed rfl]
        refine ⟨.idle rfl rfl rfl (by simp) fun other htaken => ?_, ?_⟩
        · exact hrefused ((htakes other).mp htaken).2
        · exact ⟨hlive _, h.asked, hrest⟩
    | nil =>
      have htake : takeEvent x.connection = none := by rw [takeEvent, hqueued]
      have htakes : ∀ other, x.Takes .next other → other ∈ x.fetched ∧ IsShown other := by
        rintro other ⟨-, -, hother, hshown⟩
        rw [hqueued] at hother
        exact ⟨hother, hshown⟩
      by_cases hconnected : x.connection.connected = true
      · rcases hreceive : receiveEventFrame x.connection x.socket with ⟨arrival, c, t⟩
        obtain ⟨input, rfl⟩ : ∃ input, c = { x.connection with input } := by
          have hinput := congrArg (fun r => r.2.1) hreceive
          exact ⟨_, hinput.symm⟩
        have hfetched : x.fetched = arrival.frames := by
          simp only [Session.fetched, htake, hconnected, if_true, hreceive]
        rw [hfetched] at htakes ⊢
        rw [stateNext_received htake hconnected hreceive]
        cases arrival with
        | again =>
          dsimp only [receivedNext]
          refine ⟨.idle (by simp) ?_ (record_masks _ _) (by simp) fun other htaken => ?_, ?_⟩
          · rw [record_open (by exact hconnected)]
            exact List.append_nil _
          · exact absurd (htakes other htaken).1 List.not_mem_nil
          · apply Ordered.record
            exact ⟨hlive _, h.asked, by simp [hqueued]⟩
        | failed errno =>
          dsimp only [receivedNext, failedNext, systemFailure]
          rw [record_closed rfl]
          refine ⟨.idle rfl rfl rfl (by simp) fun other htaken => ?_, hlive _, h.asked, by simp [hqueued]⟩
          exact absurd (htakes other htaken).1 List.not_mem_nil
        | frame frame =>
          have hcases := nextFrame_cases { x.connection with input } frame
          dsimp only [Arrival.frames, receivedNext] at hcases htakes ⊢
          generalize nextFrame _ frame = handled at hcases ⊢
          obtain ⟨d, result⟩ := handled
          dsimp only at hcases ⊢
          cases hcases with
          | state hshown =>
            refine ⟨.event frame ⟨hwaiting, hopened, ?_, hshown⟩ (fun _ => hqueued) (record_open (by exact hconnected) _)
              (by simp) (record_masks _ _) (by simp [hqueued, SessionAct.isNext]), ?_⟩
            · rw [hqueued, hfetched]
              exact List.mem_singleton_self frame
            · apply Ordered.record
              exact ⟨hlive _, h.asked, by simp [hqueued]⟩
          | revoked event hopcode hevent hgranted hrevoked =>
            refine ⟨.revoked frame hopcode hevent (record_open (by exact hconnected) _) (by simp) (record_masks _ _)
              (Or.inr ⟨event, by simp [hqueued], by simpa using hgranted, hrevoked⟩) fun other htaken => ?_, ?_⟩
            · obtain ⟨hother, hshown⟩ := htakes other htaken
              have hstate := hshown.opcode
              rw [List.mem_singleton.mp hother, hopcode] at hstate
              cases hstate
            · apply Ordered.record
              exact ⟨hlive _, h.asked, by simp [hqueued]⟩
          | failed status error hrefused =>
            rw [record_closed rfl]
            refine ⟨.idle rfl rfl rfl (by simp) fun other htaken => ?_, hlive _, h.asked, by simp [hqueued]⟩
            obtain ⟨hother, hshown⟩ := htakes other htaken
            rw [List.mem_singleton.mp hother] at hshown
            exact hrefused hshown
      · have hclosed : x.connection.connected = false := Bool.not_eq_true _ ▸ hconnected
        have hfetched : x.fetched = [] := by simp [Session.fetched, htake, hclosed]
        simp only [stateNext, htake, hclosed, Bool.not_false, if_true, failedNext, systemFailure]
        rw [record_closed rfl]
        refine ⟨.idle rfl rfl rfl (by simp) fun other htaken => ?_, hlive _, h.asked, by simp [hqueued]⟩
        rw [hfetched] at htakes
        exact absurd (htakes other htaken).1 List.not_mem_nil
  · have hsame : x.next = x := by
      rw [Session.next, if_pos]
      cases hwaiting : x.waiting with
      | none => simpa [hwaiting] using hidle
      | some waiting => rfl
    rw [hsame]
    exact ⟨.idle rfl rfl rfl rfl fun other htaken => hidle ⟨htaken.1, htaken.2.1⟩, h⟩

theorem act_effect (h : Ordered x) (a : SessionAct) : Effect x a (x.act a) ∧ Ordered (x.act a) := by
  cases a with
  | arrive segment => exact ⟨.idle rfl rfl rfl rfl nofun, h.live, h.asked, h.queued⟩
  | hangUp => exact ⟨.idle rfl rfl rfl rfl nofun, h.live, h.asked, h.queued⟩
  | request call => exact request_effect h call
  | await => exact await_effect h
  | expire => exact expire_effect h
  | next => exact next_effect h

end Effects

end KeysharpDesktop.Client
