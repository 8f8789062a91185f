import KeysharpDesktop.Authority.Admission
import KeysharpDesktop.Lib.Transition

/-! The budget for requests that come in parts: who has reserved of it, under any number of connections and
any frames. -/
namespace KeysharpDesktop

/-- How far the thread of a public connection is. Another thread may run between any two of these. -/
inductive AssemblyPhase
  | reading
  | reserving (accepted : AssemblyResult)
  | completing (request : Option Frame)
  | serving (request : Frame)
  | ending
  | releasing
  | ended
  deriving DecidableEq, Repr

/-- A public connection. `reserved` is no field of the source: it says whether the connection has reserved of
the budget and has not released since. -/
structure PublicConnection where
  uid : ℕ
  session : AuthoritySession
  phase : AssemblyPhase
  reserved : Bool
  deriving DecidableEq, Repr

structure AssemblyState where
  budgets : Budgets
  connections : List PublicConnection
  deriving DecidableEq, Repr

namespace PublicConnection

def withAssembly (c : PublicConnection) (assembly : RequestAssembly) : PublicConnection :=
  { c with session := { c.session with assembly } }

def endAssembly (c : PublicConnection) : PublicConnection := c.withAssembly requestAssemblyInit

/-- The end of an assembly that is whole: it is taken and cleared, and then the budget is due. -/
def complete (c : PublicConnection) : PublicConnection :=
  { c.endAssembly with phase := .completing (requestAssemblyTake c.session.assembly) }

/-- `handle_public_frame` up to where it first needs the authority's mutex. -/
def handleFrame (c : PublicConnection) (frame : Frame) (timely : Bool) : PublicConnection :=
  let starting := !c.session.assembly.active
  if starting && frame.flags &&& flagMore == 0 then { c with phase := .serving frame }
  else if starting && !mayBeginAssembly ⟨timely, true⟩ c.session frame then { c with phase := .ending }
  else if !timely then { c with phase := .ending }
  else
    match requestAssemblyAccept c.session.assembly frame with
    | (.invalid, assembly) => { c.withAssembly assembly with phase := .ending }
    | (accepted, assembly) =>
      if starting then { c.withAssembly assembly with phase := .reserving accepted }
      else if accepted = .pending then c.withAssembly assembly
      else (c.withAssembly assembly).complete

/-- The end of `handle_public_connection`, up to where it needs the mutex. -/
def tearDown (c : PublicConnection) : PublicConnection :=
  if c.session.assembly.active then { c.endAssembly with phase := .releasing } else { c with phase := .ended }

end PublicConnection

/-- What the threads do, one at a time. -/
inductive AssemblyStep
  | accept (uid : ℕ) (role : Role)
  | frame (i : ℕ) (frame : Frame) (timely : Bool)
  | interrupt (i : ℕ)
  | reserve (i : ℕ)
  | release (i : ℕ)
  | served (i : ℕ) (ok : Bool)
  | tearDown (i : ℕ)
  deriving DecidableEq, Repr

namespace AssemblyState

def put (s : AssemblyState) (i : ℕ) (c : PublicConnection) : AssemblyState :=
  { s with connections := s.connections.set i c }

/-- `reserve_assembly_memory` for the chunk that began a request, and what depends on it. A refusal is answered
and ends the connection. -/
def reserve (s : AssemblyState) (i : ℕ) (c : PublicConnection) (accepted : AssemblyResult) : AssemblyState :=
  match reserveAssemblyMemory s.budgets c.uid with
  | (false, budgets) => { budgets, connections := s.connections.set i { c.endAssembly with phase := .ending } }
  | (true, budgets) =>
    let c := { c with reserved := true }
    { budgets, connections := s.connections.set i
        (if accepted = .pending then { c with phase := .reading } else c.complete) }

/-- `release_assembly_memory`, of a request that is whole or of a connection that ends. -/
def release (s : AssemblyState) (i : ℕ) (c : PublicConnection) (phase : AssemblyPhase) : AssemblyState :=
  { budgets := releaseAssemblyMemory s.budgets c.uid
    connections := s.connections.set i { c with phase, reserved := false } }

def step (s : AssemblyState) (step : AssemblyStep) : AssemblyState :=
  match step with
  | .accept uid role =>
    { s with connections := s.connections ++ [⟨uid, ⟨role, requestAssemblyInit⟩, .reading, false⟩] }
  | .frame i frame timely =>
    (s.connections[i]?).elim s fun c =>
      match c.phase with
      | .reading => s.put i (c.handleFrame frame timely)
      | _ => s
  | .interrupt i =>
    (s.connections[i]?).elim s fun c =>
      match c.phase with
      | .reading => s.put i { c with phase := .ending }
      | _ => s
  | .reserve i =>
    (s.connections[i]?).elim s fun c =>
      match c.phase with
      | .reserving accepted => s.reserve i c accepted
      | _ => s
  | .release i =>
    (s.connections[i]?).elim s fun c =>
      match c.phase with
      | .completing none => s.release i c .ending
      | .completing (some request) => s.release i c (.serving request)
      | .releasing => s.release i c .ended
      | _ => s
  | .served i ok =>
    (s.connections[i]?).elim s fun c =>
      match c.phase with
      | .serving _ => s.put i { c with phase := if ok then .reading else .ending }
      | _ => s
  | .tearDown i =>
    (s.connections[i]?).elim s fun c =>
      match c.phase with
      | .ending => s.put i c.tearDown
      | _ => s

def init : AssemblyState := ⟨budgetsInit, []⟩

end AssemblyState

section Frames

variable {c : PublicConnection} {frame : Frame} {timely : Bool}

/-- What a frame comes to once the threads have run on, with or without room in the budget. -/
def PublicConnection.outcome (c : PublicConnection) (budget : Bool) : FrameOutcome :=
  match c.phase with
  | .reading => .waiting c.session
  | .reserving accepted =>
    if !budget then .closed
    else if accepted = .pending then .waiting c.session
    else
      match requestAssemblyTake c.session.assembly with
      | none => .closed
      | some request => handlePublicRequest c.endAssembly.session request
  | .completing none => .closed
  | .completing (some request) => handlePublicRequest c.session request
  | .serving request => handlePublicRequest c.session request
  | _ => .closed

/-- In parts the handling of a frame comes to what it comes to as a whole. -/
theorem handlePublicFrame_eq (hreading : c.phase = .reading) (frame : Frame) (timely budget : Bool) :
    handlePublicFrame ⟨timely, budget⟩ c.session frame = (c.handleFrame frame timely).outcome budget := by
  unfold handlePublicFrame PublicConnection.handleFrame
  have hmay : mayBeginAssembly ⟨timely, budget⟩ c.session frame = mayBeginAssembly ⟨timely, true⟩ c.session frame := rfl
  by_cases hwhole : (!c.session.assembly.active && frame.flags &&& flagMore == 0) = true
  · simp only [hwhole, if_true, PublicConnection.outcome]
  rw [if_neg hwhole, if_neg hwhole]
  by_cases hbegin : (!c.session.assembly.active && !mayBeginAssembly ⟨timely, true⟩ c.session frame) = true
  · simp only [hmay, hbegin, if_true, PublicConnection.outcome]
  rw [hmay, if_neg hbegin, if_neg hbegin]
  by_cases hlate : (!timely) = true
  · simp only [hlate, if_true, PublicConnection.outcome]
  rw [if_neg hlate, if_neg hlate]
  rcases requestAssemblyAccept c.session.assembly frame with ⟨_ | _ | _, assembly⟩
  · rfl
  · cases hactive : c.session.assembly.active with
    | false => cases budget <;> rfl
    | true => simp [PublicConnection.outcome, PublicConnection.withAssembly, hreading]
  · cases hactive : c.session.assembly.active with
    | false => cases budget <;> rfl
    | true =>
      simp only [PublicConnection.outcome, PublicConnection.complete, PublicConnection.withAssembly]
      cases requestAssemblyTake assembly <;> rfl

end Frames

section Conservation

variable {s : AssemblyState} {c d : PublicConnection} {i : ℕ}

/-- Whether a connection owes the budget something, by where it is. -/
def PublicConnection.owes (c : PublicConnection) : Bool :=
  match c.phase with
  | .reading => c.session.assembly.active
  | .ending => c.session.assembly.active
  | .completing _ => true
  | .releasing => true
  | _ => false

/-- What every connection keeps to. -/
structure PublicConnection.Settled (c : PublicConnection) : Prop where
  owes : c.reserved = c.owes
  begun : ∀ accepted, c.phase = .reserving accepted → c.session.assembly.active = true
  taken : ∀ request, c.phase = .completing request → c.session.assembly.active = false
  served : ∀ request, c.phase = .serving request → c.session.assembly.active = false

theorem requestAssemblyAccept_cases (assembly : RequestAssembly) (frame : Frame) :
    requestAssemblyAccept assembly frame = (.invalid, assembly) ∨
      (∃ next, requestAssemblyAccept assembly frame = (.pending, next) ∧ next.active = true) ∨
      ∃ next, requestAssemblyAccept assembly frame = (.complete, next) ∧ assembly.active = true ∧
        next.active = true := by
  unfold requestAssemblyAccept
  dsimp only
  generalize (!frameIsRequest frame || frame.requestId == 0 || frame.payload.isEmpty ||
    decide (maxRequestPayload < frame.payload.length)) = unfit
  generalize (frame.flags != (if (frame.flags &&& flagMore != 0) = true then flagMore else 0) ||
    (frame.flags &&& flagMore != 0 && frame.payload.length != maxRequestPayload)) = wrong
  generalize (frame.opcode != assembly.opcode || frame.requestId != assembly.requestId) = other
  generalize (frame.flags &&& flagMore != 0) = more
  cases unfit with
  | true => exact .inl rfl
  | false =>
    cases wrong with
    | true => exact .inl rfl
    | false =>
      cases hactive : assembly.active with
      | false =>
        cases more with
        | false => exact .inl rfl
        | true =>
          cases bufferBytes assembly.payload frame.payload with
          | none => exact .inl rfl
          | some payload => exact .inr (.inl ⟨_, rfl, rfl⟩)
      | true =>
        cases other with
        | true => exact .inl rfl
        | false =>
          cases bufferBytes assembly.payload frame.payload with
          | none => exact .inl rfl
          | some payload =>
            cases more with
            | true => exact .inr (.inl ⟨_, rfl, rfl⟩)
            | false => exact .inr (.inr ⟨_, rfl, rfl, rfl⟩)

theorem PublicConnection.Settled.complete (hreserved : c.reserved = true) : c.complete.Settled :=
  ⟨hreserved, nofun, fun _ _ => rfl, nofun⟩

theorem PublicConnection.Settled.handleFrame (h : c.Settled) (hreading : c.phase = .reading) (frame : Frame)
    (timely : Bool) : (c.handleFrame frame timely).Settled := by
  have howes : c.reserved = c.session.assembly.active := by
    rw [h.owes, PublicConnection.owes, hreading]
  unfold PublicConnection.handleFrame
  by_cases hwhole : (!c.session.assembly.active && frame.flags &&& flagMore == 0) = true
  · have hidle : c.session.assembly.active = false := by
      rw [Bool.and_eq_true] at hwhole
      simpa using hwhole.1
    simp only [hwhole, if_true]
    exact ⟨howes.trans hidle, nofun, nofun, fun _ _ => hidle⟩
  rw [if_neg hwhole]
  by_cases hbegin : (!c.session.assembly.active && !mayBeginAssembly ⟨timely, true⟩ c.session frame) = true
  · simp only [hbegin, if_true]
    exact ⟨howes, nofun, nofun, nofun⟩
  rw [if_neg hbegin]
  by_cases hlate : (!timely) = true
  · simp only [hlate, if_true]
    exact ⟨howes, nofun, nofun, nofun⟩
  rw [if_neg hlate]
  obtain haccept | ⟨next, haccept, hnext⟩ | ⟨next, haccept, hactive, hnext⟩ :=
    requestAssemblyAccept_cases c.session.assembly frame
  · rw [haccept]
    exact ⟨howes, nofun, nofun, nofun⟩
  · rw [haccept]
    cases hactive : c.session.assembly.active with
    | false => exact ⟨howes.trans hactive, fun _ _ => hnext, nofun, nofun⟩
    | true =>
      have hsame : (c.withAssembly next).phase = .reading := hreading
      simp only [Bool.not_true, Bool.false_eq_true, if_false, if_true]
      refine ⟨?_, ?_, ?_, ?_⟩
      · rw [PublicConnection.owes, hsame]
        exact (howes.trans hactive).trans hnext.symm
      · rw [hsame]
        exact nofun
      · rw [hsame]
        exact nofun
      · rw [hsame]
        exact nofun
  · rw [haccept, hactive]
    exact .complete (howes.trans hactive)

theorem PublicConnection.Settled.tearDown (h : c.Settled) (hending : c.phase = .ending) : c.tearDown.Settled := by
  have howes : c.reserved = c.session.assembly.active := by
    rw [h.owes, PublicConnection.owes, hending]
  unfold PublicConnection.tearDown
  by_cases hactive : c.session.assembly.active = true
  · rw [if_pos hactive]
    exact ⟨howes.trans hactive, nofun, nofun, nofun⟩
  · rw [if_neg hactive]
    exact ⟨howes.trans (Bool.eq_false_iff.mpr hactive), nofun, nofun, nofun⟩

/-- What a frame and the end of a connection leave as it was. -/
theorem handleFrame_reserved (c : PublicConnection) (frame : Frame) (timely : Bool) :
    (c.handleFrame frame timely).reserved = c.reserved ∧ (c.handleFrame frame timely).uid = c.uid := by
  unfold PublicConnection.handleFrame
  dsimp only
  split_ifs
  · exact ⟨rfl, rfl⟩
  · exact ⟨rfl, rfl⟩
  · exact ⟨rfl, rfl⟩
  · rcases requestAssemblyAccept c.session.assembly frame with ⟨_ | _ | _, assembly⟩ <;> exact ⟨rfl, rfl⟩
  · rcases requestAssemblyAccept c.session.assembly frame with ⟨_ | _ | _, assembly⟩ <;> exact ⟨rfl, rfl⟩

theorem tearDown_reserved (c : PublicConnection) : c.tearDown.reserved = c.reserved ∧ c.tearDown.uid = c.uid := by
  unfold PublicConnection.tearDown
  split_ifs <;> exact ⟨rfl, rfl⟩

/-- The counters agree with the connections, and each connection with itself. -/
structure AssemblyState.Sound (s : AssemblyState) : Prop where
  metered : Metered maxAssembliesPerUid maxRequestTotalPayload s.budgets.assemblyUsage s.budgets.assemblyBytes
    s.connections PublicConnection.reserved PublicConnection.uid
  settled : ∀ c ∈ s.connections, c.Settled

theorem settled_set (h : s.Sound) (hd : d.Settled) : ∀ c ∈ s.connections.set i d, c.Settled := by
  intro c hc
  rcases List.mem_or_eq_of_mem_set hc with hold | hnew
  · exact h.settled c hold
  · rw [hnew]
    exact hd

theorem AssemblyState.Sound.put (h : s.Sound) (hi : s.connections[i]? = some c) (hd : d.Settled)
    (hsame : d.reserved = c.reserved ∧ d.uid = c.uid) : (s.put i d).Sound :=
  ⟨h.metered.keep hi hsame.1 hsame.2, settled_set h hd⟩

theorem AssemblyState.Sound.reserve (h : s.Sound) (hi : s.connections[i]? = some c) {accepted : AssemblyResult}
    (hphase : c.phase = .reserving accepted) : (s.reserve i c accepted).Sound := by
  have hsettled := h.settled c (List.mem_of_getElem? hi)
  have hidle : c.reserved = false := by
    rw [hsettled.owes, PublicConnection.owes, hphase]
  have hactive := hsettled.begun accepted hphase
  unfold AssemblyState.reserve
  obtain hrefused | ⟨slot, hfind, -, hcap, hreserved⟩ := reserveAssemblyMemory_cases s.budgets c.uid
  · rw [hrefused]
    have hended : PublicConnection.Settled { c.endAssembly with phase := .ending } := ⟨hidle, nofun, nofun, nofun⟩
    exact h.put hi hended ⟨rfl, rfl⟩
  · rw [hreserved]
    by_cases hpending : accepted = .pending
    · have hreading : PublicConnection.Settled { c with reserved := true, phase := .reading } :=
        ⟨hactive.symm, nofun, nofun, nofun⟩
      simp only [if_pos hpending]
      exact ⟨h.metered.take hi hidle rfl rfl hfind hcap, settled_set h hreading⟩
    · have hcomplete : PublicConnection.Settled (PublicConnection.complete { c with reserved := true }) := .complete rfl
      simp only [if_neg hpending]
      exact ⟨h.metered.take hi hidle rfl rfl hfind hcap, settled_set h hcomplete⟩

theorem AssemblyState.Sound.release (h : s.Sound) (hi : s.connections[i]? = some c) (hreserved : c.reserved = true)
    {phase : AssemblyPhase} (hd : PublicConnection.Settled { c with phase, reserved := false }) :
    (s.release i c phase).Sound := by
  have hgive := h.metered.give (b := { c with phase, reserved := false }) hi hreserved rfl
  have hbytes : (releaseAssemblyMemory s.budgets c.uid).assemblyBytes =
      s.budgets.assemblyBytes - maxRequestTotalPayload := if_pos hgive.1
  refine ⟨?_, settled_set h hd⟩
  show Metered _ _ _ (releaseAssemblyMemory s.budgets c.uid).assemblyBytes _ _ _
  rw [hbytes]
  exact hgive.2

theorem init_sound : AssemblyState.init.Sound := by
  have hempty : ∀ slot ∈ List.replicate maxAuthorityWorkers (⟨0, 0⟩ : UsageSlot), slot.count = 0 := by
    intro slot hslot
    rw [List.eq_of_mem_replicate hslot]
  exact ⟨⟨⟨List.length_replicate, Tally.exact_nil hempty, fun k => Nat.zero_le _⟩, rfl⟩,
    fun c hc => absurd hc List.not_mem_nil⟩

theorem AssemblyState.Sound.step (h : s.Sound) (step : AssemblyStep) : (s.step step).Sound := by
  have hat : ∀ (i : ℕ) (f : PublicConnection → AssemblyState),
      (∀ c, s.connections[i]? = some c → c.Settled → (f c).Sound) → ((s.connections[i]?).elim s f).Sound := by
    intro i f hf
    cases hi : s.connections[i]? with
    | none => exact h
    | some c => exact hf c hi (h.settled c (List.mem_of_getElem? hi))
  cases step with
  | accept uid role =>
    refine ⟨h.metered.join_idle rfl, fun c hc => ?_⟩
    rcases List.mem_append.mp hc with hold | hnew
    · exact h.settled c hold
    · rw [List.mem_singleton.mp hnew]
      exact ⟨rfl, nofun, nofun, nofun⟩
  | frame i frame timely =>
    refine hat i _ fun c hi hc => ?_
    split
    · next hphase => exact h.put hi (hc.handleFrame hphase frame timely) (handleFrame_reserved c frame timely)
    · exact h
  | interrupt i =>
    refine hat i _ fun c hi hc => ?_
    split
    · next hphase =>
      have howes : c.reserved = c.session.assembly.active := by rw [hc.owes, PublicConnection.owes, hphase]
      exact h.put hi ⟨howes, nofun, nofun, nofun⟩ ⟨rfl, rfl⟩
    · exact h
  | reserve i =>
    refine hat i _ fun c hi hc => ?_
    split
    · next accepted hphase => exact h.reserve hi hphase
    · exact h
  | release i =>
    refine hat i _ fun c hi hc => ?_
    split
    · next hphase =>
      have hreserved : c.reserved = true := by rw [hc.owes, PublicConnection.owes, hphase]
      exact h.release hi hreserved ⟨(hc.taken _ hphase).symm, nofun, nofun, nofun⟩
    · next request hphase =>
      have hreserved : c.reserved = true := by rw [hc.owes, PublicConnection.owes, hphase]
      exact h.release hi hreserved ⟨rfl, nofun, nofun, fun _ _ => hc.taken _ hphase⟩
    · next hphase =>
      have hreserved : c.reserved = true := by rw [hc.owes, PublicConnection.owes, hphase]
      exact h.release hi hreserved ⟨rfl, nofun, nofun, nofun⟩
    · exact h
  | served i ok =>
    refine hat i _ fun c hi hc => ?_
    split
    · next request hphase =>
      have hidle : c.reserved = c.session.assembly.active := by
        rw [hc.owes, PublicConnection.owes, hphase, hc.served request hphase]
      cases ok with
      | true => exact h.put hi ⟨hidle, nofun, nofun, nofun⟩ ⟨rfl, rfl⟩
      | false => exact h.put hi ⟨hidle, nofun, nofun, nofun⟩ ⟨rfl, rfl⟩
    · exact h
  | tearDown i =>
    refine hat i _ fun c hi hc => ?_
    split
    · next hphase => exact h.put hi (hc.tearDown hphase) (tearDown_reserved c)
    · exact h

/-- What the budget says of the connections. -/
structure AssemblyState.Conserved (s : AssemblyState) : Prop where
  bytes : s.budgets.assemblyBytes = maxRequestTotalPayload * (s.connections.filter PublicConnection.reserved).length
  perUid : Tally.Exact s.budgets.assemblyUsage
    ((s.connections.filter PublicConnection.reserved).map PublicConnection.uid)
  owed : ∀ c ∈ s.connections, c.reserved = c.owes
  returned : (∀ c ∈ s.connections, c.phase = .ended) →
    s.budgets.assemblyBytes = 0 ∧ ∀ slot ∈ s.budgets.assemblyUsage, slot.count = 0

/-- Whatever frames any number of connections receive, the budget is out by exactly what the requests that were
admitted and have not ended owe it. -/
theorem assemblyBudget_conserved (steps : List AssemblyStep) :
    (steps.foldl AssemblyState.step AssemblyState.init).Conserved := by
  have h : (steps.foldl AssemblyState.step AssemblyState.init).Sound := by
    refine (Transition.Run.foldl AssemblyState.step AssemblyState.init steps).invariant ?_ init_sound
    intro s step t hs hstep
    rw [← hstep]
    exact hs.step step
  generalize steps.foldl AssemblyState.step AssemblyState.init = s at h
  refine ⟨h.metered.bytes, h.metered.limited.counts, fun c hc => (h.settled c hc).owes, fun hended => ?_⟩
  have hnone : s.connections.filter PublicConnection.reserved = [] := by
    rw [List.filter_eq_nil_iff]
    intro c hc
    rw [(h.settled c hc).owes, PublicConnection.owes, hended c hc]
    exact Bool.false_ne_true
  refine ⟨?_, fun slot hslot => ?_⟩
  · rw [h.metered.bytes, hnone]
    rfl
  · by_contra hlive
    have hcount := h.metered.limited.counts.counts slot hslot hlive
    rw [hnone] at hcount
    exact hlive hcount

end Conservation

end KeysharpDesktop
