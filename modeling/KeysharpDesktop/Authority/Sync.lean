import KeysharpDesktop.Authority.Grants
import KeysharpDesktop.Authority.Source

/-! The fence behind a window operation: when the lease's table is taken to show what was asked
for, the wait for that moment, and the number that is then reported to the client. -/
namespace KeysharpDesktop

open Transition

inductive BackendKind
  | none | kwin | gnome | cinnamon | generic | x11
  deriving DecidableEq, Repr

section Observed

/-- The least signed 32-bit number, which asks for no position. -/
def int32Min : BitVec 32 := 0x80000000

def windowStateMinimized : BitVec 32 := 1
def windowStateMaximized : BitVec 32 := 2
def windowStateUnminimized : BitVec 32 := 3

/-- Each of the fields is known; the masks that are asked for have one bit or two. -/
def WindowRecord.has (w : WindowRecord) (fields : BitVec 64) : Bool := w.validFields &&& fields == fields

/-- The number that the payloads of most window requests carry behind the handle. -/
def argument (request : Frame) : BitVec 32 := decodeU32 (request.payload.drop 8)

def requestedRect (request : Frame) : Rect where
  x := decodeU32 (request.payload.drop 8)
  y := decodeU32 (request.payload.drop 12)
  width := decodeU32 (request.payload.drop 16)
  height := decodeU32 (request.payload.drop 20)

/-- The stacking order at the end of the table that a request moves its window to. -/
def stackingEdge (opcode : Opcode) (windows : WindowTable) (start : BitVec 64) : BitVec 64 :=
  windows.foldl (fun edge other =>
    let edge := if opcode == Op.windowRaise && edge < other.stackingOrder then other.stackingOrder else edge
    if opcode == Op.windowLower && other.stackingOrder < edge then other.stackingOrder else edge) start

def restackObserved (windows : WindowTable) (w : WindowRecord) (request : Frame)
    (before : Option WindowRecord) : Bool :=
  w.stackingOrder == stackingEdge request.opcode windows w.stackingOrder ||
    before.any (·.stackingOrder != w.stackingOrder)

/-- A component that was asked for is there, or the compositor has settled on another one. -/
def componentObserved (unset wanted now : BitVec 32) (prior : Option (BitVec 32)) : Bool :=
  wanted == unset || now == wanted || prior.any (now != ·)

def geometryObserved (w : WindowRecord) (request : Frame) (before : Option WindowRecord) : Bool :=
  if request.payload.length < 24 || !w.has Field.frame then false
  else
    let wanted := requestedRect request
    let prior := (before.filter (·.has Field.frame)).map WindowRecord.frame
    componentObserved int32Min wanted.x w.frame.x (prior.map Rect.x) &&
      componentObserved int32Min wanted.y w.frame.y (prior.map Rect.y) &&
      componentObserved 0 wanted.width w.frame.width (prior.map Rect.width) &&
      componentObserved 0 wanted.height w.frame.height (prior.map Rect.height)

def titleObserved (w : WindowRecord) (request : Frame) : Bool :=
  if request.payload.length < 12 || !w.has Field.title then false
  else
    let length := (argument request).toNat
    length == w.title.bytes.length && length == request.payload.length - 12 &&
      (length == 0 || w.title.bytes == (request.payload.drop 12).take length)

/-- A request that sets or clears one flag of a window. -/
def flagObserved (field : BitVec 64) (flag : BitVec 32) (w : WindowRecord) (request : Frame) : Bool :=
  12 ≤ request.payload.length && w.has field && (w.flags &&& flag != 0) == (argument request != 0)

def visibleObserved : WindowRecord → Frame → Bool := flagObserved Field.visible Flag.visible
def aboveObserved : WindowRecord → Frame → Bool := flagObserved Field.above Flag.above
def decoratedObserved : WindowRecord → Frame → Bool := flagObserved Field.decorated Flag.decorated

def opacityObserved (w : WindowRecord) (request : Frame) : Bool :=
  12 ≤ request.payload.length && w.has Field.transparency && w.transparency == argument request

def stateObserved (w : WindowRecord) (request : Frame) : Bool :=
  if request.payload.length < 12 then false
  else
    let state := argument request
    let fields := if state == windowStateMinimized || state == windowStateUnminimized then Field.minimized
      else Field.minimized ||| Field.maximized
    if !w.has fields then false
    else if state == windowStateMinimized then w.flags &&& Flag.minimized != 0
    else if state == windowStateMaximized then w.flags &&& (Flag.minimized ||| Flag.maximized) == Flag.maximized
    else if state == windowStateUnminimized then w.flags &&& Flag.minimized == 0
    else w.flags &&& (Flag.minimized ||| Flag.maximized) == 0

def windowObserved (windows : WindowTable) (w : WindowRecord) (request : Frame)
    (before : Option WindowRecord) : Bool :=
  if request.opcode == Op.windowRaise || request.opcode == Op.windowLower then
    restackObserved windows w request before
  else if request.opcode == Op.windowFocus then w.has Field.active && w.flags &&& Flag.active != 0
  else if request.opcode == Op.windowMoveResize || request.opcode == Op.windowMoveResizeXid then
    geometryObserved w request before
  else if request.opcode == Op.windowSetTitle then titleObserved w request
  else if request.opcode == Op.windowSetVisible then visibleObserved w request
  else if request.opcode == Op.windowSetAbove then aboveObserved w request
  else if request.opcode == Op.windowSetDecorated then decoratedObserved w request
  else if request.opcode == Op.windowSetOpacity then opacityObserved w request
  else if request.opcode == Op.windowSetState then stateObserved w request
  else true

/-- A table shows what the request asked for; a table that is being replaced shows nothing. -/
def operationObserved (pending : Bool) (windows : WindowTable) (request : Frame)
    (before : Option WindowRecord) : Bool :=
  if pending then false
  else if request.payload.length < 8 then true
  else
    let item := windows.slot (decodeU64 request.payload)
    if request.opcode == Op.windowClose || request.opcode == Op.windowKill then item.isNone
    else item.any fun w => windowObserved windows w request before

/-- A requested component that differs from what it was. -/
def componentChanged (unset wanted now prior : BitVec 32) : Bool :=
  wanted != unset && wanted != prior && now != prior

/-- Part of a requested geometry shows, though not all of it. -/
def operationGeometryChanged (pending : Bool) (windows : WindowTable) (request : Frame)
    (before : Option WindowRecord) : Bool :=
  if pending || request.payload.length < 24 ||
      !(request.opcode == Op.windowMoveResize || request.opcode == Op.windowMoveResizeXid) then false
  else match before.filter (·.has Field.frame),
      (windows.slot (decodeU64 request.payload)).filter (·.has Field.frame) with
    | some before, some w =>
      let wanted := requestedRect request
      componentChanged int32Min wanted.x w.frame.x before.frame.x ||
        componentChanged int32Min wanted.y w.frame.y before.frame.y ||
        componentChanged 0 wanted.width w.frame.width before.frame.width ||
        componentChanged 0 wanted.height w.frame.height before.frame.height
    | _, _ => false

end Observed

section Sync

/-- A session inside `operation_sync`. Whether the windows are watched is decided at its start. -/
structure SyncWait where
  request : Frame
  before : Option WindowRecord
  monitoring : Bool
  deriving DecidableEq

inductive WaitResult
  | woken | timedOut | failed
  deriving DecidableEq, Repr

structure Synced where
  ok : Bool
  effectiveSequence : ℕ
  deriving DecidableEq, Repr

def Lease.observed (lease : Lease) (w : SyncWait) : Bool :=
  operationObserved lease.snapshotPending lease.windows w.request w.before

def Lease.controls (lease : Lease) : Bool := lease.active && lease.grantedScopes &&& Scope.windowControl != 0

/-- Restacking is not fenced where the table is not the compositor's own stack. -/
def syncBegin (lease : Lease) (backend : BackendKind) (request : Frame) (before : Option WindowRecord) :
    SyncWait :=
  ⟨request, before, lease.subscribed .windows && !((backend == .generic || backend == .x11) &&
    (request.opcode == Op.windowRaise || request.opcode == Op.windowLower))⟩

/-- One look at the lease with the mutex held: `none` waits again. `late` is whether the
deadline has passed by the time the loop is left. -/
def operationSync (lease : Lease) (w : SyncWait) (result : WaitResult) (late : Bool) : Option Synced :=
  if w.monitoring && lease.controls && !lease.observed w && result == .woken then none
  else
    let observed := !w.monitoring || lease.observed w
    let constrained := !observed && result == .timedOut && late &&
      operationGeometryChanged lease.snapshotPending lease.windows w.request w.before
    let ok := lease.controls && (observed || constrained)
    some ⟨ok, if w.monitoring && ok && observed then lease.sequences .windows else 0⟩

end Sync

section System

/-- The sessions of a lease, and those among them that wait for an operation to show. -/
structure SyncSystem extends LeaseSystem where
  waiting : ℕ → Option SyncWait

/-- The domains that the source of a lane serves. -/
def laneDomains (lane : Fin 3) : List StateDomain :=
  [StateDomain.windows, .keyboard, .displays, .clipboard].filter fun domain =>
    (lane == 1) == (domain == .clipboard) && !(lane == 2 && domain == .windows)

def resetDomain (sent : StateDomain → Bool) (lease : Lease) (domain : StateDomain) : Lease :=
  if lease.subscribed domain then
    (leaseEmit (lease.bump domain) (stateEventInit .reset domain) (sent domain)).1
  else lease

/-- A source that ends leaves its domains to be read again. -/
def sourceLost (lease : Lease) (lane : Fin 3) (sent : StateDomain → Bool) : Lease :=
  (laneDomains lane).foldl (resetDomain sent) lease

/-- One hold of the mutex by anyone. A source's event is applied in a hold of its own, after a
refresh; the end of the lease's own connection closes it. -/
inductive SyncCall
  | lease (call : LeaseCall)
  | source (frame : Frame) (sent : Bool)
  | sourceLost (lane : Fin 3) (sent : StateDomain → Bool)
  | hangUp
  | sync (i : ℕ) (backend : BackendKind) (request : Frame) (before : Option WindowRecord)
  | wake (i : ℕ) (result : WaitResult) (late : Bool)

def SyncSystem.setWaiting (s : SyncSystem) (i : ℕ) (w : Option SyncWait) : SyncSystem :=
  { s with waiting := Function.update s.waiting i w }

def sourceApply (lease : Lease) (frame : Frame) (sent : Bool) : Lease :=
  match sourceEvent frame with
  | some event => (applySource lease event sent).1
  | none => lease

/-- What session `i` is told when it looks at the lease once more. -/
def SyncSystem.returns (s : SyncSystem) (i : ℕ) (result : WaitResult) (late : Bool) : Option Synced :=
  (s.waiting i).bind fun w => operationSync s.lease w result late

def syncStep (s : SyncSystem) : SyncCall → SyncSystem
  | .lease call => { s with toLeaseSystem := leaseStep s.toLeaseSystem call }
  | .source frame sent => { s with lease := sourceApply s.lease frame sent }
  | .sourceLost lane sent => { s with lease := sourceLost s.lease lane sent }
  | .hangUp => { s with lease := s.lease.close }
  | .sync i backend request before =>
    if (s.waiting i).isSome then s else s.setWaiting i (some (syncBegin s.lease backend request before))
  | .wake i result late => if (s.returns i result late).isSome then s.setWaiting i none else s

end System

section Followed

/-- A client that has replayed the stream so far holds the lease's tables, and the last window
event it was sent has the current number. -/
structure Followed (lease : Lease) : Prop where
  reader : Reader.replay ⟨[], []⟩ lease.emitted = lease.reader
  bounded : ∀ e ∈ lease.emitted, e.domain = .windows → e.sequence ≤ lease.sequences .windows
  current : lease.sequences .windows ≠ 0 →
    ∃ e ∈ lease.emitted, e.domain = .windows ∧ e.sequence = lease.sequences .windows

/-- Nothing about windows happened. -/
theorem Followed.of_other {a b : Lease} (news : List StateEvent) (h : Followed a)
    (hreader : b.reader = a.reader) (hsequence : b.sequences .windows = a.sequences .windows)
    (hemitted : b.emitted = a.emitted ++ news) (hnews : ∀ e ∈ news, e.domain ≠ .windows) : Followed b := by
  refine ⟨?_, ?_, ?_⟩
  · rw [hemitted, Reader.replay_append, Reader.replay_of_other _ hnews, h.reader, hreader]
  · intro e he hdomain
    rw [hemitted] at he
    rw [hsequence]
    rcases List.mem_append.mp he with he | he
    · exact h.bounded e he hdomain
    · exact absurd hdomain (hnews e he)
  · intro hne
    rw [hsequence] at hne ⊢
    obtain ⟨e, he, hcurrent⟩ := h.current hne
    exact ⟨e, by rw [hemitted]; exact List.mem_append_left _ he, hcurrent⟩

theorem Followed.of_sameWindows {a b : Lease} (h : Followed a) (hsame : SameWindows a b) : Followed b := by
  obtain ⟨news, hemitted, hnews⟩ := hsame.emitted
  exact h.of_other news hsame.reader hsame.sequence hemitted hnews

/-- An event about windows was written, under the number that is now current. -/
theorem Followed.of_event {a b : Lease} {e : StateEvent} (h : Followed a)
    (hreader : b.reader = a.reader.apply e) (hemitted : b.emitted = a.emitted ++ [e])
    (hdomain : e.domain = .windows) (hsequence : e.sequence = b.sequences .windows)
    (hle : a.sequences .windows ≤ b.sequences .windows) : Followed b := by
  refine ⟨?_, ?_, ?_⟩
  · rw [hemitted, Reader.replay_append, h.reader, hreader]
    rfl
  · intro e' he' hdomain'
    rw [hemitted] at he'
    rcases List.mem_append.mp he' with he' | he'
    · exact Nat.le_trans (h.bounded e' he' hdomain') hle
    · rw [List.mem_singleton.mp he', hsequence]
  · intro _
    exact ⟨e, by rw [hemitted]; simp, hdomain, hsequence⟩

theorem Followed.of_emits {a b : Lease} {kind : StateKind} {e : StateEvent} (h : Followed a)
    (hemits : Emits a kind b e) : Followed b := by
  apply h.of_event hemits.reader hemits.emitted hemits.domain hemits.sequence
  rw [hemits.number]
  split_ifs <;> omega

theorem leaseCreate_followed (session : Session) (epoch : BitVec 64) : Followed (leaseCreate session epoch) :=
  ⟨rfl, by simp [leaseCreate], by simp [leaseCreate]⟩

/-- Every record that a source gives the lease to store can be copied. -/
def Storable (s : SyncSystem) : SyncCall → Prop
  | .source frame _ => ∀ event ∈ sourceEvent frame, event.domain = .windows →
      s.lease.enabled .windows → event.kind.stores → Copyable event.window
  | _ => True

instance Storable.decidable (s : SyncSystem) : ∀ call, Decidable (Storable s call)
  | .source frame _ => inferInstanceAs (Decidable (∀ event ∈ sourceEvent frame, event.domain = .windows →
      s.lease.enabled .windows → event.kind.stores → Copyable event.window))
  | .lease _ | .sourceLost _ _ | .hangUp | .sync .. | .wake .. => isTrue trivial

theorem sourceApply_followed {lease : Lease} {frame : Frame} {sent : Bool}
    (hstorable : ∀ event ∈ sourceEvent frame, event.domain = .windows →
      lease.enabled .windows → event.kind.stores → Copyable event.window)
    (h : lease.active → Followed lease) :
    (sourceApply lease frame sent).active → Followed (sourceApply lease frame sent) := by
  unfold sourceApply
  cases hsource : sourceEvent frame with
  | none => exact h
  | some event =>
    simp only
    intro hactive
    rcases applySource_cases lease event sent with ⟨-, hsame⟩ | ⟨hdomain, henabled, houtcome⟩
    · exact (h (hsame.active hactive)).of_sameWindows hsame
    · have hcopy := hstorable event hsource hdomain henabled
      generalize applySource lease event sent = result at hactive houtcome ⊢
      obtain ⟨after, ok⟩ := result
      cases houtcome with
      | unchanged => exact h hactive
      | emits e hemits => exact (h hemits.active.1).of_emits hemits
      | refused => exact h hactive
      | closed hclosed => exact absurd (hactive.symm.trans hclosed) (by decide)
      | torn _ _ hstores hlong => exact absurd (hcopy hstores) hlong

theorem resetDomain_followed {lease : Lease} (sent : StateDomain → Bool) (domain : StateDomain)
    (h : lease.active → Followed lease) :
    (resetDomain sent lease domain).active → Followed (resetDomain sent lease domain) := by
  unfold resetDomain
  split_ifs
  · intro hactive
    have hlease := leaseEmit_of_active hactive
    have hbefore : lease.active := by
      rw [hlease] at hactive
      exact hactive
    rw [hlease]
    by_cases hwindows : domain = .windows
    · subst hwindows
      refine (h hbefore).of_event (e := (lease.bump .windows).stamp (stateEventInit .reset .windows))
        ?_ rfl rfl rfl ?_
      · rfl
      · simp
    · refine (h hbefore).of_other _ rfl ?_ rfl ?_
      · exact lease.bump_sequences_of_ne (Ne.symm hwindows)
      · intro e he
        rw [List.mem_singleton.mp he]
        exact hwindows
  · exact h

theorem sourceLost_followed {lease : Lease} (lane : Fin 3) (sent : StateDomain → Bool)
    (h : lease.active → Followed lease) :
    (sourceLost lease lane sent).active → Followed (sourceLost lease lane sent) := by
  unfold sourceLost
  induction laneDomains lane generalizing lease with
  | nil => exact h
  | cons domain domains ih => exact ih (resetDomain_followed sent domain h)

theorem leaseStep_followed {s : LeaseSystem} (call : LeaseCall) (h : s.lease.active → Followed s.lease) :
    (leaseStep s call).lease.active → Followed (leaseStep s call).lease := by
  have hactive : (leaseStep s call).lease.active → s.lease.active := leaseStep_active
  have hvisit := leaseStep_visit s call
  generalize (leaseStep s call).lease = after at hvisit hactive ⊢
  intro hafter
  have hbefore := h (hactive hafter)
  cases hvisit with
  | none => exact hbefore
  | refresh => exact hbefore.of_sameWindows (sessionRefresh_sameTables _ _ _ _ _).sameWindows
  | @complete i requested status a =>
    exact hbefore.of_sameWindows (completeAuthorization_sameTables _ _ requested status _).sameWindows
  | subscribe => exact hbefore.of_sameWindows (sessionRefresh_sameTables _ _ _ _ _).sameWindows
  | set => exact hbefore.of_other [] rfl rfl (by simp [subscribeSet]) (by simp)
  | snapshot => exact hbefore.of_sameWindows (grantsSnapshot_sameTables _ _).sameWindows

theorem syncStep_followed {s t : SyncSystem} {call : SyncCall}
    (hstep : Restrict (fun s call t => syncStep s call = t) Storable s call t)
    (h : s.lease.active → Followed s.lease) : t.lease.active → Followed t.lease := by
  obtain ⟨rfl, hstorable⟩ := hstep
  cases call with
  | lease call => exact leaseStep_followed call h
  | source frame sent => exact sourceApply_followed hstorable h
  | sourceLost lane sent => exact sourceLost_followed lane sent h
  | hangUp => exact fun hactive => by cases hactive
  | sync i backend request before =>
    simp only [syncStep]
    split_ifs <;> exact h
  | wake i result late =>
    simp only [syncStep]
    split_ifs <;> exact h

end Followed

section Fence

/-- The window events of a stream up to a number. -/
def upTo (n : ℕ) (events : List StateEvent) : List StateEvent :=
  events.filter fun e => e.domain = .windows ∧ e.sequence ≤ n

theorem replay_upTo (r : Reader) {n : ℕ} {events : List StateEvent}
    (h : ∀ e ∈ events, e.domain = .windows → e.sequence ≤ n) : r.replay (upTo n events) = r.replay events := by
  induction events generalizing r with
  | nil => rfl
  | cons e events ih =>
    have hrest := ih (r.apply e) fun e' he' => h e' (List.mem_cons_of_mem _ he')
    by_cases hdomain : e.domain = .windows
    · have hle := h e List.mem_cons_self hdomain
      have hcons : upTo n (e :: events) = e :: upTo n events := by simp [upTo, hdomain, hle]
      rw [hcons]
      exact hrest
    · have hcons : upTo n (e :: events) = upTo n events := by simp [upTo, hdomain]
      have hskip : r.apply e = r := if_pos hdomain
      rw [hskip] at hrest
      rw [hcons, hrest]
      exact congrArg (fun r => Reader.replay r events) hskip.symm

/-- The reported number is that of an event in the stream, and the table that the stream up to
it amounts to shows the operation; where nothing was observed, no number is reported. -/
structure Synced.Fenced (r : Synced) (lease : Lease) (w : SyncWait) : Prop where
  emitted : r.effectiveSequence ≠ 0 →
    ∃ e ∈ lease.emitted, e.domain = .windows ∧ e.sequence = r.effectiveSequence
  observed : r.effectiveSequence ≠ 0 →
    operationObserved false (Reader.replay ⟨[], []⟩ (upTo r.effectiveSequence lease.emitted)).table
      w.request w.before
  unobserved : ¬(w.monitoring ∧ lease.observed w) → r.effectiveSequence = 0

/-- A look that ends the wait, by what it saw. -/
theorem operationSync_cases {lease : Lease} {w : SyncWait} {result : WaitResult} {late : Bool} {r : Synced}
    (h : operationSync lease w result late = some r) (hok : r.ok) :
    lease.active ∧ (w.monitoring ∧ lease.observed w ∧ r.effectiveSequence = lease.sequences .windows ∨
      ¬(w.monitoring ∧ lease.observed w) ∧ r.effectiveSequence = 0) := by
  unfold operationSync at h
  split_ifs at h with hwait
  simp only [Option.some.injEq] at h
  subst h
  simp only [Bool.and_eq_true] at hok
  have hactive : lease.active := by
    have hcontrols := hok.1
    rw [Lease.controls, Bool.and_eq_true] at hcontrols
    exact hcontrols.1
  refine ⟨hactive, ?_⟩
  cases hmonitoring : w.monitoring <;> cases hobserved : lease.observed w <;> simp_all

theorem Followed.fenced {lease : Lease} {w : SyncWait} {result : WaitResult} {late : Bool} {r : Synced}
    (hfollowed : lease.active → Followed lease) (h : operationSync lease w result late = some r)
    (hok : r.ok) : r.Fenced lease w := by
  obtain ⟨hactive, ⟨hmonitoring, hobserved, hsequence⟩ | ⟨hnone, hzero⟩⟩ := operationSync_cases h hok
  · have hlease := hfollowed hactive
    refine ⟨?_, ?_, ?_⟩
    · rw [hsequence]
      exact hlease.current
    · intro _
      have hpending : lease.snapshotPending = false := by
        by_contra hpending
        simp [Lease.observed, operationObserved, hpending] at hobserved
      rw [Lease.observed, hpending] at hobserved
      rw [hsequence, replay_upTo _ hlease.bounded, hlease.reader]
      exact hobserved
    · intro hnone
      exact absurd ⟨hmonitoring, hobserved⟩ hnone
  · exact ⟨fun h => absurd hzero h, fun h => absurd hzero h, fun _ => hzero⟩

/-- Along every run from the creation of the lease whose records can all be stored, whatever a
waiting session is told is fenced by the stream. -/
theorem operationSync_fenced {s t : SyncSystem} {calls : List SyncCall} {session : Session}
    {epoch : BitVec 64} (hs : s.lease = leaseCreate session epoch)
    (hrun : Run (Restrict (fun s call t => syncStep s call = t) Storable) s calls t) :
    ∀ i w result late r, t.waiting i = some w → operationSync t.lease w result late = some r → r.ok →
      r.Fenced t.lease w := by
  have hfollowed : t.lease.active → Followed t.lease := by
    apply hrun.invariant (I := fun s => s.lease.active → Followed s.lease)
    · intro s call t h hstep
      exact syncStep_followed hstep h
    · rw [hs]
      exact fun _ => leaseCreate_followed session epoch
  intro i w result late r _ hreturn hok
  exact Followed.fenced hfollowed hreturn hok

/-- A client that may watch and control windows, with a session of each kind. -/
def controlSession : Session := ⟨.authorizationLease, ⟨1000, 4242, 77, []⟩, 0x8c, 0x8c, 5⟩

def controlAnswers : Answers := ⟨⟨true, 5⟩, some controlSession.identity, ⟨true, 0x8c, 5⟩, true⟩

def controlSystem : SyncSystem where
  lease := leaseCreate controlSession 1
  sessions := fun i => if i = 0 then controlSession else { controlSession with role := .rpc }
  subscribing := fun _ => none
  waiting := fun _ => none

/-- One event of the lease session's source: the refresh, and then the event. -/
def sourceCalls (kind : StateKind) (w : WindowRecord) : List SyncCall :=
  [.lease (.refresh 0 true true controlAnswers),
    .source (eventFrame (eventBytes { stateEventInit kind .windows with window := w })) true]

def openWindow : WindowRecord := { windowRecordInit with handle := 7, validFields := Field.id }

def closeRequest : Frame := ⟨frameMagic, protocolMajor, protocolMinor, Op.windowClose, 0, 9, encodeU64 7⟩

/-- A subscription, a snapshot of one window, and a session that waits for it to close. -/
def closingCalls : List SyncCall :=
  [.lease (.subscribe 0 StateDomain.windows.mask controlAnswers), .lease (.setDomains 0),
    .lease (.sendGrants 0 (true, true, true))] ++ sourceCalls .snapshotBegin windowRecordInit ++
    sourceCalls .snapshotItem openWindow ++ sourceCalls .snapshotEnd windowRecordInit ++
    [.sync 1 .kwin closeRequest (some openWindow)]

def closingSystem : SyncSystem := closingCalls.foldl syncStep controlSystem

def closingWait : SyncWait := ⟨closeRequest, some openWindow, true⟩

/-- The window goes, and the session is told the number of the event that took it away. -/
def closedSystem : SyncSystem := (closingCalls ++ sourceCalls .destroy openWindow).foldl syncStep controlSystem

theorem closedWindow_fenced :
    closedSystem.waiting 1 = some closingWait ∧
      operationSync closedSystem.lease closingWait .woken false = some ⟨true, 2⟩ ∧
      Synced.Fenced ⟨true, 2⟩ closedSystem.lease closingWait := by
  have hrun : Run (Restrict (fun s call t => syncStep s call = t) Storable) controlSystem
      (closingCalls ++ sourceCalls .destroy openWindow) closedSystem := Run.of_admitted (by decide +kernel)
  have hwait : closedSystem.waiting 1 = some closingWait := by decide +kernel
  have hreturn : operationSync closedSystem.lease closingWait .woken false = some ⟨true, 2⟩ := by
    decide +kernel
  exact ⟨hwait, hreturn, operationSync_fenced rfl hrun 1 closingWait .woken false ⟨true, 2⟩ hwait hreturn rfl⟩

/-- A record that cannot be copied clears the entry it was meant for, and nothing is written. -/
theorem applySource_uncopied {lease : Lease} {e : StateEvent} (sent : Bool)
    (hdomain : e.domain = .windows) (hkind : e.kind = .changed) (henabled : lease.enabled .windows)
    (hcopied : ∀ w ∈ lease.windows, Copyable w) (hlong : ¬Copyable e.window) :
    (applySource lease e sent).1 =
      { lease with windows := lease.windows.put e.window.handle windowRecordInit } := by
  have hincoming : ¬Copyable (lease.incoming lease.windows e) := by rwa [copyable_incoming]
  have hhandle : (lease.incoming lease.windows e).handle = e.window.handle := handle_fillOrder _ _ _
  have hnew : lease.windows.slot e.window.handle ≠ some (lease.incoming lease.windows e) := by
    intro hslot
    exact hincoming (hcopied _ (List.mem_of_find?_eq_some hslot))
  have happly : applySource lease e sent = applyUpsert lease e sent := by
    simp [applySource, hdomain, henabled, stateWindowApply, hkind]
  rw [happly, applyUpsert_eq]
  simp [hnew, hincoming, hhandle]

theorem exists_letters {n : ℕ} (h : n ≤ maxTextBytes) : ∃ text : StateText, text.bytes = List.replicate n 0x61 := by
  refine ⟨⟨List.replicate n 0x61, ?_, by rwa [List.length_replicate]⟩, rfl⟩
  apply utf8Valid_of_ascii
  intro byte hbyte
  rw [List.eq_of_mem_replicate hbyte]
  decide

/-- The waiting session is told that the window has closed, though all that happened is that its
entry was cleared. -/
theorem closingSystem_uncopied (title : StateText) (hlong : maxTextBytes < 152 + title.bytes.length) :
    ∃ t, Run (fun s call t => syncStep s call = t) closingSystem
        (sourceCalls .changed { openWindow with title }) t ∧
      t.waiting 1 = some closingWait ∧ operationSync t.lease closingWait .woken false = some ⟨true, 1⟩ ∧
      t.lease.emitted = closingSystem.lease.emitted := by
  have hsource : sourceEvent (eventFrame (eventBytes
      { stateEventInit .changed .windows with window := { openWindow with title } })) =
      some { stateEventInit .changed .windows with window := { openWindow with title } } :=
    stateEventDecode_eventBytes (Nat.two_pow_pos 64) rfl (Nat.zero_le _)
  have huncopied : ¬Copyable { openWindow with title } := by
    have hlength : textLength { openWindow with title } = title.bytes.length := by
      simp [textLength, openWindow, windowRecordInit, StateText.empty]
    rw [Copyable, hlength]
    omega
  let s := syncStep closingSystem (.lease (.refresh 0 true true controlAnswers))
  have hready : s.lease.enabled .windows ∧ ∀ w ∈ s.lease.windows, Copyable w := by decide +kernel
  obtain ⟨henabled, hcopied⟩ := hready
  have happly := applySource_uncopied (e := { stateEventInit .changed .windows with
    window := { openWindow with title } }) true rfl rfl henabled hcopied huncopied
  refine ⟨{ s with lease := { s.lease with windows := s.lease.windows.put 7 windowRecordInit } },
    .cons rfl (.cons ?_ (.nil _)), by decide +kernel, by decide +kernel, by decide +kernel⟩
  change { s with lease := sourceApply s.lease _ true } = _
  rw [sourceApply, hsource]
  simp only [happly]
  rfl

/-- A title within the text limit whose record is not: what is reported is that the window has
closed, by a number whose table still has it. -/
theorem longTitle_not_fenced :
    ∃ title : StateText, title.bytes = List.replicate 4194156 0x61 ∧
      ∃ t, Run (fun s call t => syncStep s call = t) controlSystem
        (closingCalls ++ sourceCalls .changed { openWindow with title }) t ∧
      t.waiting 1 = some closingWait ∧ operationSync t.lease closingWait .woken false = some ⟨true, 1⟩ ∧
      operationObserved false (Reader.replay ⟨[], []⟩ (upTo 1 t.lease.emitted)).table
        closingWait.request closingWait.before = false := by
  obtain ⟨title, htitle⟩ := exists_letters (n := 4194156) (by decide)
  have hlength : title.bytes.length = 4194156 := by rw [htitle, List.length_replicate]
  have hmax : maxTextBytes = 4194304 := rfl
  obtain ⟨t, hrun, hwait, hreturn, hemitted⟩ := closingSystem_uncopied title (by omega)
  refine ⟨title, htitle, t, (Run.foldl syncStep controlSystem closingCalls).append hrun, hwait, hreturn, ?_⟩
  rw [hemitted]
  decide +kernel

end Fence

end KeysharpDesktop
