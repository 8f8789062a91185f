import KeysharpDesktop.Kwin.Demux
import KeysharpDesktop.Wire.Transfer

/-! What one turn of a relay's threads can do to a caller, and what stays of a call that has begun to write. -/
namespace KeysharpDesktop

section Turns

/-- A call that has gone on without another id, slot or text of its own. -/
structure RelayCall.Continues (before after : RelayCall) : Prop where
  request : after.request = before.request
  requestId : after.requestId = before.requestId
  packed : after.packed = before.packed
  attempted : after.attempted = before.attempted
  phase : after.phase = before.phase ∨
    after.phase ≠ .packing ∧ after.phase ≠ .queued ∧ after.phase ≠ .writing

/-- Everything that a turn can make of one caller. -/
inductive CallerTurn (s : RelaySystem) (action : RelayAction) (t : RelaySystem) (c : ℕ) : Prop
  | same (after : t.callers c = s.callers c)
  | refused (request : Frame) (taken : action = .start c request) (before : s.callers c = .idle)
      (after : t.callers c = .refused (relayRefusal s.relay))
  | begun (request : Frame) (slot : ℕ) (taken : action = .start c request) (before : s.callers c = .idle)
      (next : t.relay.nextRequestId = s.relay.nextRequestId + 1)
      (after : t.callers c = .calling
        ⟨request, slot, BitVec.ofNat 64 s.relay.nextRequestId, [], false, false, .packing, none⟩)
  | packed (call : RelayCall) (text : Buffer) (before : s.callers c = .calling call) (phase : call.phase = .packing)
      (packs : framePack (outgoing call.request call.requestId)
        (bufferInit (frameHeaderSize + call.request.payload.length + 16)) = some text)
      (after : t.callers c = .calling { call with packed := text.data, phase := .queued })
  | claimed (call : RelayCall) (timely : Bool) (taken : action = .claim c timely)
      (before : s.callers c = .calling call) (phase : call.phase = .queued) (free : s.writing = false)
      (open' : s.relay.broken = false)
      (after : t.callers c = .calling { call with attempted := true, sent := true, phase := .writing })
  | goes (call call' : RelayCall) (before : s.callers c = .calling call) (on : call.Continues call')
      (ends : call.phase ≠ .writing ∨ call'.phase = call.phase ∨ action = .endWrite c)
      (after : t.callers c = .calling call')
  | returned (call : RelayCall) (before : s.callers c = .calling call) (phase : call.phase = .waiting)
      (after : t.callers c = .returned call (relayFinish s.relay call.slot call.attempted).1
        (slotAnswer (s.relay.slot call.slot)).isSome)

/-- What a turn does to the relay. Only a start takes an id, only a transfer writes, and only the peer answers. -/
structure RelayAdvance (s : RelaySystem) (action : RelayAction) (t : RelaySystem) : Prop where
  callers : ∀ c, CallerTurn s action t c
  next : t.relay.nextRequestId = s.relay.nextRequestId ∨
    t.relay.nextRequestId = s.relay.nextRequestId + 1 ∧ ∃ c request, action = .start c request
  broken : s.relay.broken = true → t.relay.broken = true
  written : t.written = s.written ∨ ∃ c n call, action = .transfer c n ∧ s.callers c = .calling call ∧
    call.phase = .writing ∧ t.written = Function.update s.written c (min (s.written c + n) call.packed.length)
  answers : t.answers = s.answers ∨ ∃ a, action = .answer a ∧ t.answers = s.answers ++ [a]

variable {s t : RelaySystem} {action : RelayAction} {c : ℕ} {call call' : RelayCall} {caller : Caller}

theorem RelayAdvance.refl (s : RelaySystem) (action : RelayAction) : RelayAdvance s action s :=
  ⟨fun _ => .same rfl, .inl rfl, id, .inl rfl, .inl rfl⟩

/-- A turn that changes one caller and leaves the ids and the bytes alone. -/
theorem RelayAdvance.of_caller (hcallers : t.callers = Function.update s.callers c caller)
    (hself : t.callers c = caller → CallerTurn s action t c)
    (hnext : t.relay.nextRequestId = s.relay.nextRequestId) (hbroken : s.relay.broken = true → t.relay.broken = true)
    (hwritten : t.written = s.written) (hanswers : t.answers = s.answers) : RelayAdvance s action t := by
  refine ⟨?_, .inl hnext, hbroken, .inl hwritten, .inl hanswers⟩
  intro d
  by_cases hd : d = c
  · rw [hd]
    apply hself
    rw [hcallers, Function.update_self]
  · refine .same ?_
    rw [hcallers, Function.update_of_ne hd]

/-- A call goes on as long as it goes where it neither packs nor writes. -/
theorem RelayCall.continues (call : RelayCall) (sent : Bool) (phase : CallPhase) (answer : Option PeerAnswer)
    (hpacking : phase ≠ .packing) (hqueued : phase ≠ .queued) (hwriting : phase ≠ .writing) :
    call.Continues { call with sent, phase, answer } :=
  ⟨rfl, rfl, rfl, rfl, .inr ⟨hpacking, hqueued, hwriting⟩⟩

/-- A turn in which one call goes on. -/
theorem RelayAdvance.of_call (hcall : s.callers c = .calling call) (hon : call.Continues call')
    (hends : call.phase ≠ .writing ∨ call'.phase = call.phase ∨ action = .endWrite c)
    (hcallers : t.callers = Function.update s.callers c (.calling call'))
    (hnext : t.relay.nextRequestId = s.relay.nextRequestId) (hbroken : s.relay.broken = true → t.relay.broken = true)
    (hwritten : t.written = s.written) (hanswers : t.answers = s.answers) : RelayAdvance s action t :=
  .of_caller hcallers (fun hself => .goes call call' hcall hon hends hself) hnext hbroken hwritten hanswers

theorem RelayAdvance.goOn {phase : CallPhase} {next : RelayCall → RelaySystem}
    (h : ∀ call, s.callers c = .calling call → call.phase = phase → RelayAdvance s action (next call)) :
    RelayAdvance s action (s.goOn c phase next) := by
  unfold RelaySystem.goOn
  cases hphase : s.inPhase c phase with
  | none => exact .refl s action
  | some call =>
    obtain ⟨hcall, hat⟩ := inPhase_eq_some hphase
    exact h call hcall hat

theorem breakUnless_turn (s : RelaySystem) (ok : Bool) :
    (s.breakUnless ok).relay.nextRequestId = s.relay.nextRequestId ∧
      (s.relay.broken = true → (s.breakUnless ok).relay.broken = true) := by
  cases ok with
  | true => exact ⟨rfl, id⟩
  | false => exact ⟨rfl, fun _ => rfl⟩

theorem breakUnless_answers (s : RelaySystem) (ok : Bool) : (s.breakUnless ok).answers = s.answers := by
  rw [RelaySystem.answers, breakUnless_consumed, breakUnless_inbox]
  rfl

theorem readOne_next (relay : KwinRelay) (stream : Bytes) (fd : Option File) :
    (readOne relay stream fd).relay.nextRequestId = relay.nextRequestId ∧
      (readOne relay stream fd).relay.broken = relay.broken := by
  rcases readOne_relay relay stream fd with hsame | ⟨requestId, body, hdeliver⟩
  · rw [hsame]
    exact ⟨rfl, rfl⟩
  · rw [hdeliver]
    rcases deliver_cases relay requestId body fd with h | ⟨i, slot, -, h⟩
    all_goals simp_all

theorem start_turn (s : RelaySystem) (c : ℕ) (request : Frame) :
    RelayAdvance s (.start c request) (relayAct s (.start c request)) := by
  simp only [relayAct, RelaySystem.start]
  split
  · next hidle =>
    rcases relayBegin_cases s.relay request.opcode with hnone | ⟨slot, -, hsome⟩
    · rw [hnone]
      exact .of_caller rfl (fun hself => .refused request rfl hidle hself) rfl id rfl rfl
    · rw [hsome]
      refine ⟨?_, .inr ⟨rfl, c, request, rfl⟩, id, .inl rfl, .inl rfl⟩
      intro d
      by_cases hd : d = c
      · rw [hd]
        exact .begun request slot rfl hidle rfl (Function.update_self ..)
      · exact .same (Function.update_of_ne hd ..)
  · exact .refl s _

theorem pack_turn (hcall : s.callers c = .calling call) (hphase : call.phase = .packing) (allocated : Bool) :
    RelayAdvance s action (s.pack c call allocated) := by
  have hwait := call.continues call.sent .waiting call.answer (by decide) (by decide) (by decide)
  have hnot : call.phase ≠ .writing := by
    rw [hphase]
    decide
  unfold RelaySystem.pack
  split
  · next text hpack =>
    split_ifs
    · exact .of_caller rfl (fun hself => .packed call text hcall hphase hpack hself) rfl id rfl rfl
    · exact .of_call hcall hwait (.inl hnot) rfl rfl id rfl rfl
  · exact .of_call hcall hwait (.inl hnot) rfl rfl id rfl rfl

theorem claim_turn (hcall : s.callers c = .calling call) (hphase : call.phase = .queued) (timely : Bool) :
    RelayAdvance s (.claim c timely) (s.claim c call timely) := by
  have hwait := call.continues call.sent .waiting call.answer (by decide) (by decide) (by decide)
  have hnot : call.phase ≠ .writing := by
    rw [hphase]
    decide
  unfold RelaySystem.claim
  split_ifs with hclaim
  · simp only [Bool.and_eq_true, Bool.not_eq_true'] at hclaim
    refine .of_caller rfl (fun hself => ?_) rfl id rfl rfl
    exact .claimed call timely rfl hcall hphase hclaim.1.1 hclaim.1.2 hself
  · exact .of_call hcall hwait (.inl hnot) rfl rfl id rfl rfl

theorem endWrite_turn (hcall : s.callers c = .calling call) :
    RelayAdvance s (.endWrite c) (s.endWrite c call) := by
  obtain ⟨hnext, hbroken⟩ := breakUnless_turn { s with writing := false } (s.written c == call.packed.length)
  have hwait := call.continues (s.written c == call.packed.length) .waiting call.answer (by decide)
    (by decide) (by decide)
  refine .of_call hcall hwait (.inr (.inr rfl)) ?_ hnext hbroken (breakUnless_written _ _) (breakUnless_answers _ _)
  show Function.update (RelaySystem.breakUnless _ _).callers c _ = _
  rw [breakUnless_callers]

theorem takeReader_turn (hcall : s.callers c = .calling call) (hphase : call.phase ≠ .writing) (timely : Bool) :
    RelayAdvance s action (s.takeReader c call timely) := by
  have hread := call.continues call.sent .reading call.answer (by decide) (by decide) (by decide)
  unfold RelaySystem.takeReader
  split_ifs
  · exact .of_call hcall hread (.inl hphase) rfl rfl id rfl rfl
  · exact .refl s action

theorem endRead_turn (hcall : s.callers c = .calling call) (hphase : call.phase ≠ .writing) (ok : Bool) :
    RelayAdvance s action (s.endRead c call ok) := by
  obtain ⟨hnext, hbroken⟩ := breakUnless_turn { s with reading := false } ok
  have hwait := call.continues call.sent .waiting call.answer (by decide) (by decide) (by decide)
  refine .of_call hcall hwait (.inl hphase) ?_ hnext hbroken (breakUnless_written _ _) (breakUnless_answers _ _)
  show Function.update (RelaySystem.breakUnless _ _).callers c _ = _
  rw [breakUnless_callers]

theorem noteAnswer_cases (before after : KwinRelay) (a : PeerAnswer) (caller : Caller) :
    noteAnswer before after a caller = caller ∨ ∃ call, caller = .calling call ∧
      noteAnswer before after a caller = .calling { call with answer := some a } := by
  cases caller with
  | calling call =>
    simp only [noteAnswer]
    split_ifs
    · exact .inr ⟨call, rfl, rfl⟩
    · exact .inl rfl
  | _ => exact .inl rfl

/-- The reader goes on, and whichever call the frame was for has it noted. -/
theorem readFrame_turn (hcall : s.callers c = .calling call) (hphase : call.phase ≠ .writing) :
    RelayAdvance s action (s.readFrame c call) := by
  unfold RelaySystem.readFrame
  split
  · exact .refl s action
  · next a inbox hinbox =>
    obtain ⟨hnext, hbroken⟩ := readOne_next s.relay (a.frame.bytes ++ inboxBytes inbox) a.fd
    generalize readOne s.relay (a.frame.bytes ++ inboxBytes inbox) a.fd = read at hnext hbroken
    refine ⟨?_, .inl hnext, fun h => hbroken.trans h, .inl rfl, .inl ?_⟩
    · intro d
      have hnote := noteAnswer_cases s.relay read.relay a
        ((s.setCall c { call with phase := .readDone read.ok }).callers d)
      by_cases hd : d = c
      · have hself : (s.setCall c { call with phase := .readDone read.ok }).callers d =
            .calling { call with phase := .readDone read.ok } := by
          rw [hd]
          exact Function.update_self ..
        rcases hnote with hsame | ⟨own, hown, hnoted⟩
        · refine .goes call { call with phase := .readDone read.ok } (hd ▸ hcall) ?_ (.inl hphase) (hsame.trans hself)
          exact call.continues call.sent _ call.answer nofun nofun nofun
        · rw [hself] at hown
          cases hown
          refine .goes call _ (hd ▸ hcall) ?_ (.inl hphase) hnoted
          exact call.continues call.sent _ (some a) nofun nofun nofun
      · have hother : (s.setCall c { call with phase := .readDone read.ok }).callers d = s.callers d :=
          Function.update_of_ne hd ..
        rcases hnote with hsame | ⟨own, hown, hnoted⟩
        · exact .same (hsame.trans hother)
        · exact .goes own { own with answer := some a } (hother ▸ hown) ⟨rfl, rfl, rfl, rfl, .inl rfl⟩
            (.inr (.inl rfl)) hnoted
    · show (s.consumed ++ [a]) ++ inbox = s.answers
      rw [RelaySystem.answers, hinbox, List.append_assoc]
      rfl

theorem relayAct_advance (s : RelaySystem) (action : RelayAction) : RelayAdvance s action (relayAct s action) := by
  cases action with
  | start c request => exact start_turn s c request
  | pack c allocated => exact .goOn fun call hcall hphase => pack_turn hcall hphase allocated
  | claim c timely => exact .goOn fun call hcall hphase => claim_turn hcall hphase timely
  | transfer c n =>
    refine .goOn fun call hcall hphase => ⟨fun d => .same rfl, .inl rfl, id, .inr ?_, .inl rfl⟩
    exact ⟨c, n, call, rfl, hcall, hphase, rfl⟩
  | endWrite c => exact .goOn fun call hcall _ => endWrite_turn hcall
  | takeReader c timely =>
    exact .goOn fun call hcall hphase => takeReader_turn hcall (hphase ▸ by decide) timely
  | readNothing c ok =>
    refine .goOn fun call hcall hphase => .of_call hcall ?_ (.inl (hphase ▸ by decide)) rfl rfl id rfl rfl
    exact call.continues call.sent _ call.answer nofun nofun nofun
  | readFrame c => exact .goOn fun call hcall hphase => readFrame_turn hcall (hphase ▸ by decide)
  | endRead c =>
    simp only [relayAct]
    split
    · next call hcall =>
      split
      · next ok hphase => exact endRead_turn hcall (hphase ▸ nofun) ok
      · exact .refl s _
    · exact .refl s _
  | finish c =>
    refine .goOn fun call hcall hphase => .of_caller rfl (fun hself => ?_) rfl id rfl rfl
    exact .returned call hcall hphase hself
  | retire => exact ⟨fun d => .same rfl, .inl rfl, fun _ => rfl, .inl rfl, .inl rfl⟩
  | answer a =>
    refine ⟨fun d => .same rfl, .inl rfl, id, .inl rfl, .inr ⟨a, rfl, ?_⟩⟩
    show s.consumed ++ (s.inbox ++ [a]) = s.consumed ++ s.inbox ++ [a]
    rw [List.append_assoc]

end Turns

section Calls

/-- The call that a caller has, or had. -/
def Caller.call? : Caller → Option RelayCall
  | .calling call | .returned call _ _ => some call
  | _ => none

/-- What a call has come to. -/
def Caller.result? : Caller → Option OperationResult
  | .refused result | .returned _ result _ => some result
  | _ => none

/-- A call is packed before it is written, and is written as its request under the relay's id. -/
structure RelayCall.Staged (call : RelayCall) : Prop where
  early : call.phase = .packing ∨ call.phase = .queued → call.attempted = false
  writing : call.phase = .writing → call.attempted = true
  framed : call.attempted = true ∨ call.phase = .queued →
    call.packed = (outgoing call.request call.requestId).bytes

/-- Every call is staged, and has an id that nobody else has. -/
structure RelaySystem.Named (s : RelaySystem) : Prop where
  staged : ∀ c call, (s.callers c).call? = some call → call.Staged
  below : ∀ c call, (s.callers c).call? = some call → call.requestId.toNat < s.relay.nextRequestId
  apart : ∀ c d call call', (s.callers c).call? = some call → (s.callers d).call? = some call' →
    call.requestId = call'.requestId → c = d

/-- What a later call has of an earlier one of the same caller. -/
structure RelayCall.Keeps (before after : RelayCall) : Prop where
  request : after.request = before.request
  requestId : after.requestId = before.requestId
  attempted : before.attempted = true → after.attempted = true
  packed : before.attempted = true → after.packed = before.packed

theorem RelayCall.Keeps.refl (call : RelayCall) : call.Keeps call := ⟨rfl, rfl, id, fun _ => rfl⟩

variable {s t : RelaySystem} {action : RelayAction} {c : ℕ} {call call' : RelayCall}

theorem RelayCall.Continues.staged (h : call.Continues call') (hs : call.Staged) : call'.Staged := by
  obtain ⟨hrequest, hid, hpacked, hattempted, hphase⟩ := h
  rcases hphase with hsame | ⟨hpacking, hqueued, hwriting⟩
  · refine ⟨?_, ?_, ?_⟩
    · rw [hsame, hattempted]
      exact hs.early
    · rw [hsame, hattempted]
      exact hs.writing
    · rw [hsame, hattempted, hpacked, hrequest, hid]
      exact hs.framed
  · refine ⟨?_, fun h => absurd h hwriting, ?_⟩
    · rintro (h | h)
      · exact absurd h hpacking
      · exact absurd h hqueued
    · rintro (h | h)
      · rw [hpacked, hrequest, hid]
        exact hs.framed (.inl (hattempted ▸ h))
      · exact absurd h hqueued

/-- A caller's call after a turn is the one before it, gone on, or one that has just begun. -/
theorem RelayAdvance.call_cases (h : RelayAdvance s action t) (hs : s.Named) (hcall : (t.callers c).call? = some call') :
    (∃ call, (s.callers c).call? = some call ∧ call.Keeps call') ∧ call'.Staged ∨
      action = .start c call'.request ∧ s.callers c = .idle ∧
        t.relay.nextRequestId = s.relay.nextRequestId + 1 ∧
        call'.requestId = BitVec.ofNat 64 s.relay.nextRequestId ∧ call'.Staged := by
  cases h.callers c with
  | same hafter =>
    rw [hafter] at hcall
    exact .inl ⟨⟨call', hcall, .refl call'⟩, hs.staged c call' hcall⟩
  | refused request taken hbefore hafter =>
    rw [hafter] at hcall
    cases hcall
  | begun request slot taken hbefore hnext hafter =>
    rw [hafter] at hcall
    cases hcall
    refine .inr ⟨taken, hbefore, hnext, rfl, fun _ => rfl, nofun, ?_⟩
    rintro (h | h)
    · cases h
    · cases h
  | packed call text hbefore hphase hpacks hafter =>
    rw [hafter] at hcall
    cases hcall
    have hown : (s.callers c).call? = some call := by rw [hbefore]; rfl
    have hearly := (hs.staged c call hown).early (.inl hphase)
    refine .inl ⟨⟨call, hown, rfl, rfl, id, fun h => ?_⟩, fun _ => hearly, nofun, fun _ => (framePack_writes _).data hpacks⟩
    rw [hearly] at h
    cases h
  | claimed call timely taken hbefore hphase free open' hafter =>
    rw [hafter] at hcall
    cases hcall
    have hown : (s.callers c).call? = some call := by rw [hbefore]; rfl
    refine .inl ⟨⟨call, hown, rfl, rfl, fun _ => rfl, fun _ => rfl⟩, ?_, fun _ => rfl, ?_⟩
    · rintro (h | h)
      · cases h
      · cases h
    · exact fun _ => (hs.staged c call hown).framed (.inr hphase)
  | goes call after hbefore hon hends hafter =>
    rw [hafter] at hcall
    cases hcall
    have hown : (s.callers c).call? = some call := by rw [hbefore]; rfl
    refine .inl ⟨⟨call, hown, hon.request, hon.requestId, fun h => hon.attempted.trans h, fun _ => hon.packed⟩, ?_⟩
    exact hon.staged (hs.staged c call hown)
  | returned call hbefore hphase hafter =>
    rw [hafter] at hcall
    cases hcall
    have hown : (s.callers c).call? = some call' := by rw [hbefore]; rfl
    exact .inl ⟨⟨call', hown, .refl call'⟩, hs.staged c call' hown⟩

/-- A caller's call never goes away. -/
theorem RelayAdvance.call_kept (h : RelayAdvance s action t) (hs : s.Named) (hcall : (s.callers c).call? = some call) :
    ∃ call', (t.callers c).call? = some call' ∧ call.Keeps call' := by
  have hnext : ∃ call', (t.callers c).call? = some call' := by
    cases h.callers c with
    | same hafter => exact ⟨call, by rw [hafter, hcall]⟩
    | refused request taken hbefore hafter | begun request slot taken hbefore hnext hafter =>
      rw [hbefore] at hcall
      cases hcall
    | packed own text hbefore hphase hpacks hafter | claimed own timely taken hbefore hphase free open' hafter
    | goes own after hbefore hon hends hafter | returned own hbefore hphase hafter =>
      rw [hafter]
      exact ⟨_, rfl⟩
  obtain ⟨call', hcall'⟩ := hnext
  rcases h.call_cases hs hcall' with ⟨⟨own, hown, hkeeps⟩, -⟩ | ⟨-, hidle, -⟩
  · rw [hcall] at hown
    cases hown
    exact ⟨call', hcall', hkeeps⟩
  · rw [hidle] at hcall
    cases hcall

theorem RelayAdvance.next_le (h : RelayAdvance s action t) : s.relay.nextRequestId ≤ t.relay.nextRequestId := by
  rcases h.next with hsame | ⟨hmore, -⟩
  · exact Nat.le_of_eq hsame.symm
  · omega

theorem RelayAdvance.named (h : RelayAdvance s action t) (hs : s.Named) (hids : t.relay.nextRequestId ≤ 2 ^ 64) : t.Named := by
  have hnew : t.relay.nextRequestId = s.relay.nextRequestId + 1 →
      (BitVec.ofNat 64 s.relay.nextRequestId).toNat = s.relay.nextRequestId := by
    intro hnext
    rw [BitVec.toNat_ofNat, Nat.mod_eq_of_lt (by omega)]
  refine ⟨?_, ?_, ?_⟩
  · intro c call' hcall
    rcases h.call_cases hs hcall with ⟨-, hstaged⟩ | ⟨-, -, -, -, hstaged⟩
    · exact hstaged
    · exact hstaged
  · intro c call' hcall
    rcases h.call_cases hs hcall with ⟨⟨call, hown, hkeeps⟩, -⟩ | ⟨-, -, hnext, hid, -⟩
    · rw [hkeeps.requestId]
      exact lt_of_lt_of_le (hs.below c call hown) h.next_le
    · rw [hid, hnew hnext, hnext]
      exact Nat.lt_succ_self _
  · intro c d call' other hc hd heq
    rcases h.call_cases hs hc with ⟨⟨call, hown, hkeeps⟩, -⟩ | ⟨hstart, -, hnext, hid, -⟩
    · rcases h.call_cases hs hd with ⟨⟨call₂, hown₂, hkeeps₂⟩, -⟩ | ⟨-, -, hnext, hid, -⟩
      · exact hs.apart c d call call₂ hown hown₂ (by rw [← hkeeps.requestId, heq, hkeeps₂.requestId])
      · have hlt := hs.below c call hown
        rw [← hkeeps.requestId, heq, hid, hnew hnext] at hlt
        exact absurd hlt (lt_irrefl _)
    · rcases h.call_cases hs hd with ⟨⟨call₂, hown₂, hkeeps₂⟩, -⟩ | ⟨hstart₂, -⟩
      · have hlt := hs.below d call₂ hown₂
        rw [← hkeeps₂.requestId, ← heq, hid, hnew hnext] at hlt
        exact absurd hlt (lt_irrefl _)
      · rw [hstart, RelayAction.start.injEq] at hstart₂
        exact hstart₂.1

theorem relaySystemCreate_named : relaySystemCreate.Named := by
  refine ⟨?_, ?_, ?_⟩
  · intro c call hcall
    cases hcall
  · intro c call hcall
    cases hcall
  · intro c d call call' hcall
    cases hcall

/-- A call is attempted from the turn on in which it takes the writer's role. -/
theorem RelayAdvance.attempted_cases (h : RelayAdvance s action t) (hcall : (t.callers c).call? = some call')
    (hattempted : call'.attempted = true) :
    (∃ call, (s.callers c).call? = some call ∧ call.attempted = true) ∨
      (∃ timely, action = .claim c timely) ∧ s.writing = false ∧ s.relay.broken = false ∧
        (s.callers c).writes = false ∧ (t.callers c).writes = true := by
  cases h.callers c with
  | same hafter =>
    rw [hafter] at hcall
    exact .inl ⟨call', hcall, hattempted⟩
  | refused request taken hbefore hafter | begun request slot taken hbefore hnext hafter =>
    rw [hafter] at hcall
    cases hcall
    try cases hattempted
  | packed call text hbefore hphase hpacks hafter =>
    rw [hafter] at hcall
    cases hcall
    exact .inl ⟨call, by rw [hbefore]; rfl, hattempted⟩
  | claimed call timely taken hbefore hphase free open' hafter =>
    refine .inr ⟨⟨timely, taken⟩, free, open', ?_, ?_⟩
    · rw [hbefore, writes_calling hphase]
      rfl
    · rw [hafter]
      rfl
  | goes call after hbefore hon hends hafter =>
    rw [hafter] at hcall
    cases hcall
    exact .inl ⟨call, by rw [hbefore]; rfl, hon.attempted.symm.trans hattempted⟩
  | returned call hbefore hphase hafter =>
    rw [hafter] at hcall
    cases hcall
    exact .inl ⟨call', by rw [hbefore]; rfl, hattempted⟩

/-- A call that writes has been attempted. -/
theorem RelaySystem.Named.writes (h : s.Named) (hwrites : (s.callers c).writes = true) :
    ∃ call, s.callers c = .calling call ∧ call.phase = .writing ∧ call.attempted = true := by
  cases hcaller : s.callers c with
  | calling call =>
    rw [hcaller, Caller.writes, beq_iff_eq] at hwrites
    exact ⟨call, rfl, hwrites, (h.staged c call (by rw [hcaller]; rfl)).writing hwrites⟩
  | _ =>
    rw [hcaller] at hwrites
    cases hwrites

/-- Nobody comes to write except by claiming the role. -/
theorem RelayAdvance.writes_cases (h : RelayAdvance s action t) (hwrites : (t.callers c).writes = true) :
    (s.callers c).writes = true ∨ ∃ timely, action = .claim c timely := by
  cases h.callers c with
  | same hafter =>
    rw [hafter] at hwrites
    exact .inl hwrites
  | claimed call timely taken hbefore hphase free open' hafter => exact .inr ⟨timely, taken⟩
  | goes call after hbefore hon hends hafter =>
    rw [hafter, Caller.writes, beq_iff_eq] at hwrites
    rcases hon.phase with hsame | ⟨-, -, hnot⟩
    · left
      rw [hbefore, Caller.writes, ← hsame, hwrites]
      rfl
    · exact absurd hwrites hnot
  | refused request taken hbefore hafter | begun request slot taken hbefore hnext hafter
  | packed call text hbefore hphase hpacks hafter | returned call hbefore hphase hafter =>
    rw [hafter] at hwrites
    cases hwrites

theorem RelayAdvance.claimed_of (h : RelayAdvance s action t) (hnot : (s.callers c).writes = false)
    (hwrites : (t.callers c).writes = true) :
    ∃ call, s.callers c = .calling call ∧ call.phase = .queued ∧ s.writing = false ∧ s.relay.broken = false ∧
      t.callers c = .calling { call with attempted := true, sent := true, phase := .writing } := by
  cases h.callers c with
  | same hafter =>
    rw [hafter, hnot] at hwrites
    cases hwrites
  | claimed call timely taken hbefore hphase free open' hafter =>
    exact ⟨call, hbefore, hphase, free, open', hafter⟩
  | goes call after hbefore hon hends hafter =>
    rw [hafter, Caller.writes, beq_iff_eq] at hwrites
    rcases hon.phase with hsame | ⟨-, -, hother⟩
    · rw [hbefore, Caller.writes, ← hsame, hwrites] at hnot
      cases hnot
    · exact absurd hwrites hother
  | refused request taken hbefore hafter | begun request slot taken hbefore hnext hafter
  | packed call text hbefore hphase hpacks hafter | returned call hbefore hphase hafter =>
    rw [hafter] at hwrites
    cases hwrites

theorem RelayAdvance.idle_kept (h : RelayAdvance s action t) (hidle : s.callers c = .idle)
    (hnot : ∀ request, action ≠ .start c request) : t.callers c = .idle := by
  cases h.callers c with
  | same hafter => rw [hafter, hidle]
  | refused request taken hbefore hafter | begun request slot taken hbefore hnext hafter =>
    exact absurd taken (hnot request)
  | packed call text hbefore hphase hpacks hafter | claimed call timely taken hbefore hphase free open' hafter
  | goes call after hbefore hon hends hafter | returned call hbefore hphase hafter =>
    rw [hidle] at hbefore
    cases hbefore

/-- A call that has come to a result is left alone. -/
theorem RelayAdvance.result_kept (h : RelayAdvance s action t) {result : OperationResult}
    (hresult : (s.callers c).result? = some result) : t.callers c = s.callers c := by
  cases h.callers c with
  | same hafter => exact hafter
  | refused request taken hbefore hafter | begun request slot taken hbefore hnext hafter
  | packed call text hbefore hphase hpacks hafter | claimed call timely taken hbefore hphase free open' hafter
  | goes call after hbefore hon hends hafter | returned call hbefore hphase hafter =>
    rw [hbefore] at hresult
    cases hresult

/-- The bytes that a caller has to write. -/
def RelaySystem.text (s : RelaySystem) (c : ℕ) : Bytes := ((s.callers c).call?.map RelayCall.packed).getD []

theorem text_of_call (h : (s.callers c).call? = some call) : s.text c = call.packed := by
  rw [RelaySystem.text, h]
  rfl

/-- Whoever stops writing has written everything, or has broken the channel. -/
theorem relayAct_ended (hwrites : (s.callers c).writes = true) (action : RelayAction) :
    ((relayAct s action).callers c).writes = true ∨ (relayAct s action).relay.broken = true ∨
      s.written c = (s.text c).length := by
  cases hcaller : s.callers c with
  | calling call =>
    have hphase : call.phase = .writing := by
      rwa [hcaller, Caller.writes, beq_iff_eq] at hwrites
    have hcase := (relayAct_advance s action).callers c
    cases hcase with
    | same hafter =>
      left
      rw [hafter]
      exact hwrites
    | refused request taken hbefore hafter | begun request slot taken hbefore hnext hafter =>
      rw [hcaller] at hbefore
      cases hbefore
    | packed own text hbefore hown hpacks hafter | claimed own timely taken hbefore hown free open' hafter
    | returned own hbefore hown hafter =>
      rw [hcaller] at hbefore
      cases hbefore
      rw [hphase] at hown
      cases hown
    | goes own after hbefore hon hends hafter =>
      rw [hcaller] at hbefore
      cases hbefore
      rcases hends with hnot | hsame | rfl
      · exact absurd hphase hnot
      · left
        rw [hafter, Caller.writes, hsame, hphase]
        rfl
      · right
        have hown : (s.callers c).call? = some call := by rw [hcaller]; rfl
        have hend : relayAct s (.endWrite c) = s.endWrite c call := by
          simp only [relayAct, RelaySystem.goOn, RelaySystem.inPhase, hcaller, hphase, if_true]
        rw [hend, text_of_call hown]
        by_cases hall : s.written c = call.packed.length
        · exact .inr hall
        · left
          have hsent : (s.written c == call.packed.length) = false := beq_false_of_ne hall
          simp only [RelaySystem.endWrite, hsent]
          rfl
  | _ =>
    rw [hcaller] at hwrites
    cases hwrites

end Calls

end KeysharpDesktop
