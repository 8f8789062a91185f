import KeysharpDesktop.Client.Effects
import KeysharpDesktop.Lib.Transition

/-! The mask that a connection keeps and the masks that the library hands out, over every run of a session. -/
namespace KeysharpDesktop.Client

open Transition

section Current

variable {x y : Session} {a : SessionAct} {frame : Frame} {b c : Scopes}

/-- The mask of the connection is the one that the frames received so far give. -/
def Session.Current (x : Session) : Prop := Agrees x.connection.grantedScopes (grantsOf x.received)

instance (x : Session) : Decidable x.Current := inferInstanceAs (Decidable (Agrees _ _))

/-- The call takes a grant event from the queue, and frames received behind it have given another mask. -/
def Session.Overtaken (x : Session) (a : SessionAct) : Prop :=
  a.isNext = true ∧ ∃ frame, x.connection.queued.head? = some frame ∧ x.Takes a frame ∧
    (eventOf frame).domain = StateDomain.grants.mask ∧ ¬Agrees (eventOf frame).grantedScopes (grantsOf x.received)

theorem Agrees.applyGrant (h : Agrees b c) (frame : Frame) :
    Agrees (applyGrant b frame) (applyGrant c frame) := by
  unfold Client.applyGrant
  split_ifs
  · rfl
  · exact h
  · exact h.clear _
  · rfl
  · exact h

theorem Session.Takes.isQueued (h : x.Takes a frame) : IsQueued frame := by
  cases a with
  | await => exact h.2.2.1
  | next => exact h.2.2.2.toIsQueued
  | arrive | hangUp | request | expire => cases h

theorem current_iff (heffect : Effect x a y) (hcurrent : x.Current) : y.Current ↔ ¬x.Overtaken a := by
  have hmust : y.Current → ¬x.Overtaken a → (y.Current ↔ ¬x.Overtaken a) :=
    fun hyes hno => ⟨fun _ => hno, fun _ => hyes⟩
  unfold Session.Current at hcurrent hmust ⊢
  cases heffect with
  | quiet hgranted hreceived _ _ hnone =>
    refine hmust ?_ fun hover => ?_
    · rw [hgranted, hreceived]
      exact hcurrent
    · obtain ⟨-, frame, -, htakes, -⟩ := hover
      exact hnone frame htakes
  | event frame _ hfresh hreceived hgranted =>
    refine hmust ?_ fun hover => ?_
    · rw [hgranted, hreceived, grantsOf_snoc]
      exact hcurrent.applyGrant frame
    · obtain ⟨hnext, other, hfirst, -⟩ := hover
      rw [hfresh hnext] at hfirst
      cases hfirst
  | revoked frame _ _ hreceived hgranted _ _ hnone =>
    refine hmust ?_ fun hover => ?_
    · rw [hgranted, hreceived, grantsOf_snoc]
      exact hcurrent.applyGrant frame
    · obtain ⟨-, other, -, htakes, -⟩ := hover
      exact hnone other htakes
  | drained frame hnext hfirst htakes hreceived hgranted =>
    rw [hgranted, hreceived, applyGrant_state htakes.isQueued]
    by_cases hdomain : (eventOf frame).domain = StateDomain.grants.mask
    · rw [if_pos (beq_iff_eq.mpr hdomain)]
      constructor
      · rintro hagrees ⟨-, other, hother, -, -, hdiffers⟩
        cases hfirst.symm.trans hother
        exact hdiffers hagrees
      · intro hnot
        by_contra hdiffers
        exact hnot ⟨by rw [hnext]; rfl, frame, hfirst, htakes, hdomain, hdiffers⟩
    · rw [if_neg (mt beq_iff_eq.mp hdomain)]
      refine ⟨fun _ hover => ?_, fun _ => hcurrent⟩
      obtain ⟨-, other, hother, -, hgrants, -⟩ := hover
      cases hfirst.symm.trans hother
      exact hdomain hgrants
  | answered mask hreceived hgranted _ _ hnone =>
    refine hmust ?_ fun hover => ?_
    · rw [hgranted, hreceived]
      exact agrees_accepted mask
    · obtain ⟨-, frame, -, htakes, -⟩ := hover
      exact hnone frame htakes

/-- The mask stays current exactly as long as no call takes an overtaken grant event from the queue. -/
theorem granted_current_iff (role : Role) (acts : List SessionAct) :
    (∀ n, ((acts.take n).foldl Session.act (Session.start role)).Current) ↔
      Admitted Session.act (fun x a => ¬x.Overtaken a) (Session.start role) acts :=
  admitted_iff_take (I := Ordered) (fun _ a hx => (act_effect hx a).2)
    (fun _ a hx hcurrent => current_iff (act_effect hx a).1 hcurrent) (start_ordered role) rfl acts

end Current

section Narrowing

variable {x y : Session} {a : SessionAct} {frame : Frame}

/-- Every mask that is stored, and every one that was handed out, is narrowed. -/
structure Session.Narrowed (x : Session) : Prop where
  stored : Narrow x.connection.grantedScopes
  masks : ∀ mask ∈ x.masks, Narrow mask
  events : ∀ event ∈ x.events, Narrow event.2.grantedScopes

/-- The step takes in a state event with a mask that is not narrow: one about grants, or one that it returns. -/
def Session.Widened (x : Session) (a : SessionAct) : Prop :=
  ∃ frame, x.Takes a frame ∧ (a.isNext = true ∨ (eventOf frame).domain = StateDomain.grants.mask) ∧
    ¬Narrow (eventOf frame).grantedScopes

/-- The revoked mask as it stands in a frame. -/
def revokedMask (frame : Frame) : Scopes :=
  if frame.opcode = sessionRevoked then decodeU32 frame.payload else decodeU32 (frame.payload.drop 28)

theorem eventOf_revokedScopes (h : IsQueued frame) : (eventOf frame).revokedScopes = revokedMask frame := by
  have hdecode : eventStructDecode frame.payload = (true, eventOf frame) := Prod.ext h.decodes rfl
  have hother : ¬frame.opcode = sessionRevoked := by
    rw [h.opcode]
    decide
  obtain ⟨rest, hsplit⟩ : ∃ rest, frame.payload = (encodeU32 (eventOf frame).kind ++
      encodeU32 (eventOf frame).domain ++ encodeU64 (eventOf frame).epoch ++ encodeU64 (eventOf frame).sequence ++
      encodeU32 (eventOf frame).grantedScopes) ++ (encodeU32 (eventOf frame).revokedScopes ++ rest) := by
    have hbytes := (eventStructDecode_eq_true hdecode).1
    simp only [structBytes, headBytes, List.append_assoc] at hbytes
    simp only [List.append_assoc]
    exact ⟨_, hbytes⟩
  rw [revokedMask, if_neg hother, hsplit, List.drop_left' (by simp), decodeU32_encodeU32]

theorem Arrival.frames_unique {arrival : Arrival} {other : Frame} (h : frame ∈ arrival.frames)
    (hother : other ∈ arrival.frames) : other = frame := by
  cases arrival with
  | frame received =>
    cases List.mem_singleton.mp h
    exact List.mem_singleton.mp hother
  | again => cases h
  | failed errno => cases h

theorem Session.Takes.unique {other : Frame} (h : x.Takes a frame) (hother : x.Takes a other) : other = frame := by
  cases a with
  | await =>
    cases h.2.1.symm.trans hother.2.1
    rfl
  | next =>
    have hmem := h.2.2.1
    have hmem' := hother.2.2.1
    cases hqueued : x.connection.queued with
    | nil =>
      have htake : takeEvent x.connection = none := by rw [takeEvent, hqueued]
      simp only [hqueued, Session.fetched, htake, List.head?_nil, Option.toList_none, List.nil_append] at hmem hmem'
      split_ifs at hmem hmem'
      · exact Arrival.frames_unique hmem hmem'
      · cases hmem
    | cons first rest =>
      simp only [hqueued, Session.fetched, takeEvent, List.head?_cons, Option.toList_some, List.append_nil,
        List.mem_singleton] at hmem hmem'
      rw [hmem, hmem']
  | arrive | hangUp | request | expire => cases h

theorem applyGrant_narrow (h : Narrow (eventOf frame).grantedScopes ∨ (eventOf frame).domain ≠ StateDomain.grants.mask)
    (hqueued : IsQueued frame) {mask : Scopes} (hmask : Narrow mask) : Narrow (applyGrant mask frame) := by
  rw [applyGrant_state hqueued]
  split_ifs with hdomain
  · exact h.resolve_right (not_not.mpr (beq_iff_eq.mp hdomain))
  · exact hmask

/-- A step that takes a state event in keeps the masks narrowed exactly when the mask of the event is. -/
theorem narrowed_taken (h : x.Narrowed) (htakes : x.Takes a frame)
    (hgranted : y.connection.grantedScopes = applyGrant x.connection.grantedScopes frame) (hmasks : y.masks = x.masks)
    (hevents : y.events = x.events ++ if a.isNext then [(frame, eventOf frame)] else []) :
    y.Narrowed ↔ ¬x.Widened a := by
  have hwide : x.Widened a ↔ (a.isNext = true ∨ (eventOf frame).domain = StateDomain.grants.mask) ∧
      ¬Narrow (eventOf frame).grantedScopes := by
    constructor
    · rintro ⟨other, hother, hcase⟩
      obtain rfl := htakes.unique hother
      exact hcase
    · exact fun hcase => ⟨frame, htakes, hcase⟩
  rw [hwide]
  constructor
  · rintro ⟨hstored, -, hshown⟩ ⟨hnext | hdomain, hnarrow⟩
    · rw [hevents, if_pos hnext] at hshown
      exact hnarrow (hshown (frame, eventOf frame) (by simp))
    · rw [hgranted, applyGrant_state htakes.isQueued, if_pos (beq_iff_eq.mpr hdomain)] at hstored
      exact hnarrow hstored
  · intro hnot
    refine ⟨?_, by rw [hmasks]; exact h.masks, ?_⟩
    · rw [hgranted]
      refine applyGrant_narrow ?_ htakes.isQueued h.stored
      tauto
    · intro event hevent
      rw [hevents] at hevent
      rcases List.mem_append.mp hevent with hevent | hevent
      · exact h.events event hevent
      · split_ifs at hevent with hnext
        · rw [List.mem_singleton.mp hevent]
          tauto
        · cases hevent

theorem narrowed_iff (heffect : Effect x a y) (h : x.Narrowed) : y.Narrowed ↔ ¬x.Widened a := by
  have hmust : y.Narrowed → (∀ frame, ¬x.Takes a frame) → (y.Narrowed ↔ ¬x.Widened a) := by
    intro hyes hnone
    refine ⟨fun _ hwide => ?_, fun _ => hyes⟩
    obtain ⟨frame, htakes, -⟩ := hwide
    exact hnone frame htakes
  cases heffect with
  | quiet hgranted _ hmasks hevents hnone =>
    refine hmust ⟨?_, ?_, ?_⟩ hnone
    · rw [hgranted]
      exact h.stored
    · rw [hmasks]
      exact h.masks
    · rw [hevents]
      exact h.events
  | event frame htakes _ _ hgranted hmasks hevents => exact narrowed_taken h htakes hgranted hmasks hevents
  | revoked frame hopcode hevent _ hgranted hmasks hevents hnone =>
    have hstored : Narrow y.connection.grantedScopes := by
      rw [hgranted, applyGrant_revoked hopcode hevent]
      exact h.stored.clear _
    refine hmust ⟨hstored, ?_, ?_⟩ hnone
    · rw [hmasks]
      exact h.masks
    · rcases hevents with hsame | ⟨shown, hadded, hmask, -⟩
      · rw [hsame]
        exact h.events
      · intro event hmem
        rw [hadded] at hmem
        rcases List.mem_append.mp hmem with hmem | hmem
        · exact h.events event hmem
        · rw [List.mem_singleton.mp hmem, hmask]
          exact hstored
  | drained frame hnext _ htakes _ hgranted hmasks hevents =>
    refine narrowed_taken h htakes hgranted hmasks ?_
    rw [hevents, hnext]
    rfl
  | answered mask _ hgranted hmasks hevents hnone =>
    refine hmust ⟨?_, ?_, ?_⟩ hnone
    · rw [hgranted]
      exact narrow_accepted mask
    · intro other hother
      rcases List.mem_append.mp (hmasks.mem_iff.mp hother) with hother | hother
      · exact h.masks other hother
      · rw [List.mem_singleton.mp hother, hgranted]
        exact narrow_accepted mask
    · rw [hevents]
      exact h.events

/-- The revoked masks that were handed out are the ones of the frames. -/
def Session.Verbatim (x : Session) : Prop := ∀ event ∈ x.events, event.2.revokedScopes = revokedMask event.1

theorem verbatim_step (heffect : Effect x a y) (h : x.Verbatim) : y.Verbatim := by
  have hadd : ∀ (frame : Frame) (event : EventStruct), event.revokedScopes = revokedMask frame →
      y.events = x.events ++ [(frame, event)] → y.Verbatim := by
    intro frame event hmask hevents shown hshown
    rw [hevents] at hshown
    rcases List.mem_append.mp hshown with hshown | hshown
    · exact h shown hshown
    · rw [List.mem_singleton.mp hshown]
      exact hmask
  have hsame : y.events = x.events → y.Verbatim := by
    intro hevents
    unfold Session.Verbatim
    rw [hevents]
    exact h
  cases heffect with
  | quiet _ _ _ hevents => exact hsame hevents
  | event frame htakes _ _ _ _ hevents =>
    split_ifs at hevents
    · exact hadd frame _ (eventOf_revokedScopes htakes.isQueued) hevents
    · exact hsame (hevents.trans (List.append_nil _))
  | revoked frame hopcode _ _ _ _ hevents =>
    rcases hevents with hevents | ⟨event, hevents, -, hmask⟩
    · exact hsame hevents
    · refine hadd frame event ?_ hevents
      rw [revokedMask, if_pos hopcode]
      exact hmask
  | drained frame _ _ htakes _ _ _ hevents => exact hadd frame _ (eventOf_revokedScopes htakes.isQueued) hevents
  | answered _ _ _ _ hevents => exact hsame hevents

/-- The masks stay narrowed exactly as long as no step takes in a state event whose mask is not; revoked masks are
always handed out as they come. -/
theorem granted_narrowed_iff (role : Role) (acts : List SessionAct) :
    ((∀ n, ((acts.take n).foldl Session.act (Session.start role)).Narrowed) ↔
      Admitted Session.act (fun x a => ¬x.Widened a) (Session.start role) acts) ∧
    (acts.foldl Session.act (Session.start role)).Verbatim := by
  have hzero : Narrow 0 := by decide
  constructor
  · exact admitted_iff_take (I := Ordered) (fun _ a hx => (act_effect hx a).2)
      (fun _ a hx hnarrowed => narrowed_iff (act_effect hx a).1 hnarrowed) (start_ordered role)
      ⟨hzero, nofun, nofun⟩ acts
  · have hrun := Run.invariant (I := fun x => Ordered x ∧ x.Verbatim) ?_
      (Run.foldl Session.act (Session.start role) acts) ⟨start_ordered role, nofun⟩
    · exact hrun.2
    · rintro x a y ⟨hordered, hverbatim⟩ rfl
      obtain ⟨heffect, hnext⟩ := act_effect hordered a
      exact ⟨hnext, verbatim_step heffect hverbatim⟩

end Narrowing

section Counterexamples

def replyFrame (opcode : Opcode) (requestId : BitVec 64) (tail : Bytes) : Frame :=
  ⟨frameMagic, protocolMajor, protocolMinor, opcode, flagResponse, requestId,
    encodeU32 Status.ok ++ (encodeU32 0 ++ tail)⟩

def helloFrame (mask : Scopes) : Frame :=
  replyFrame opHello 1 (encodeU32 mask ++ (encodeU32 0 ++ (encodeU64 0 ++ (encodeU32 5 ++ encodeU32 0))))

def grantFrame (mask : Scopes) : Frame :=
  stateFrame (structBytes { eventStructInit with
    kind := StateKind.grantChanged.wire, domain := StateDomain.grants.mask, grantedScopes := mask })

/-- A grant event comes before the response of a request, and its reader takes it after the response. -/
def overtakenRun : List SessionAct :=
  [.arrive (helloFrame 0).bytes, .await, .request .authorize, .arrive (grantFrame Scope.windowControl).bytes, .await,
    .arrive (replyFrame opAuthorize 2
      (encodeU32 (Scope.windowControl ||| Scope.screenCapture) ++ encodeU32 0)).bytes, .await, .next]

/-- The mask goes back to the older event. -/
theorem overtakenRun_regresses :
    ¬∀ n, ((overtakenRun.take n).foldl Session.act (Session.start .authorizationLease)).Current := by
  have hend : ¬((overtakenRun.take 8).foldl Session.act (Session.start .authorizationLease)).Current := by
    decide +kernel
  exact fun hall => hend (hall 8)

/-- A service with a scope that this library does not name reports it in a grant event. -/
def widenedRun : List SessionAct :=
  [.arrive (helloFrame 0).bytes, .await, .arrive (grantFrame 0x100).bytes, .next]

theorem widenedRun_widens :
    ¬∀ n, ((widenedRun.take n).foldl Session.act (Session.start .authorizationLease)).Narrowed := by
  have hend : ¬Narrow ((widenedRun.take 4).foldl Session.act
      (Session.start .authorizationLease)).connection.grantedScopes := by
    decide +kernel
  exact fun hall => hend (hall 4).stored

end Counterexamples

end KeysharpDesktop.Client
