import KeysharpDesktop.Authority.Authorize
import KeysharpDesktop.Kwin.Relay

/-! One desktop operation of a client, from its request to the reply: what is checked before the
backend is asked and after it has answered, while the store and the lease go on changing. -/
namespace KeysharpDesktop

open Transition

section Opcodes

/-- The permission scope that an opcode demands. -/
def operationScope (opcode : Opcode) : Scopes :=
  if opcode == Op.captureArea || opcode == Op.captureWindow || opcode == Op.captureDesktop then
    Scope.screenCapture
  else if opcode == Op.windowList || opcode == Op.windowActive || opcode == Op.windowWatch ||
      opcode == Op.windowQuery || opcode == Op.windowChildren || opcode == Op.windowAtPoint then
    Scope.windowMonitoring
  else if (Op.windowFocus ≤ opcode && opcode ≤ Op.windowSetSkipTaskbar) || opcode == Op.windowSetTitle ||
      opcode == Op.windowSetVisible || opcode == Op.windowRedraw || opcode == Op.windowClick ||
      opcode == Op.windowButton || opcode == Op.windowFocusChild then
    Scope.windowControl
  else if Op.clipboardMimetypes ≤ opcode && opcode ≤ Op.clipboardWatch then Scope.clipboardMonitoring
  else if Op.mouseMoveAbsolute ≤ opcode && opcode ≤ Op.mouseScroll then Scope.inputControl
  else 0

def operationScopeFree (opcode : Opcode) : Bool :=
  opcode == Op.cursorPosition || opcode == Op.workArea || opcode == Op.clipboardSetContent ||
    opcode == Op.windowHandles || opcode == Op.displayList || opcode == Op.keyboardState

/-- The operations of the backends, in the order of their bits. -/
def operations : List Opcode :=
  [Op.captureArea, Op.captureWindow, Op.windowList, Op.windowActive, Op.windowWatch, Op.windowFocus,
    Op.windowRaise, Op.windowLower, Op.windowClose, Op.windowKill, Op.windowMoveResize,
    Op.windowMoveResizeXid, Op.windowSetState, Op.windowSetOpacity, Op.windowSetAbove,
    Op.windowSetDecorated, Op.windowReserve, Op.windowGetReserved, Op.clipboardMimetypes,
    Op.clipboardContent, Op.clipboardText, Op.clipboardWatch, Op.mouseMoveAbsolute, Op.mouseMoveRelative,
    Op.mouseButton, Op.mouseScroll, Op.cursorPosition, Op.workArea, Op.clipboardSetContent,
    Op.windowHandles, Op.windowSetSkipTaskbar, Op.captureDesktop, Op.windowQuery, Op.windowChildren,
    Op.windowAtPoint, Op.displayList, Op.keyboardState, Op.windowSetTitle, Op.windowSetVisible,
    Op.windowRedraw, Op.windowClick, Op.windowButton, Op.windowFocusChild]

/-- The bit of an operation, or zero where the opcode is not one. -/
def operationBit (opcode : Opcode) : BitVec 64 :=
  if opcode ∈ operations then BitVec.twoPow 64 (operations.idxOf opcode) else 0

end Opcodes

section Reply

/-- What a client is sent: a status with a text, and the data of a result, if any. -/
structure Reply where
  status : Status
  detail : BitVec 32
  diagnostic : Bytes
  tail : Bytes
  capture : Option File
  deriving DecidableEq, Repr

def refuse (status : Status) (diagnostic : String) : Reply := ⟨status, 0, ascii diagnostic, [], none⟩

/-- A result as it is forwarded. A window operation that succeeds carries the number of the state
that shows it. -/
def forwardResult (request : Frame) (result : OperationResult) (effectiveSequence : ℕ) : Reply :=
  match result.payloadFd with
  | some file => ⟨result.status, result.detail, [], [], some file⟩
  | none => ⟨result.status, result.detail, if result.status == Status.ok then [] else result.diagnostic,
      if result.status == Status.ok && stateMutatesWindows request.opcode then
        result.tail ++ encodeU64 (BitVec.ofNat 64 effectiveSequence) else result.tail, none⟩

end Reply

section Operate

/-- How far a session is with its request. A request that passed its first check keeps the
generation that was read there. -/
inductive Operating
  | idle
  | first (request : Frame)
  | admitting (request : Frame) (before : ℕ)
  | running (request : Frame) (backend : BackendKind) (before : ℕ)
  | second (request : Frame) (before : ℕ) (result : OperationResult)
  | judged (request : Frame) (valid : Bool) (result : OperationResult)
  | syncing (request : Frame) (result : OperationResult) (wait : SyncWait)
  | lapsed (request : Frame)
  | answered (request : Frame) (reply : Reply)
  | ended
  deriving DecidableEq

/-- The request that a session is at, from when it is read until the session goes on to the next one. -/
def Operating.request? : Operating → Option Frame
  | .first request | .admitting request _ | .running request _ _ | .second request _ _ | .judged request _ _
  | .syncing request _ _ | .lapsed request | .answered request _ => some request
  | .idle | .ended => none

/-- Where a window operation is looked for: in the lease's table, or, for a child window of X11,
at the server itself. -/
inductive SyncTarget
  | table (backend : BackendKind) (prior : Option WindowRecord)
  | child (observed : Bool)

/-- The next thing that a session does on its own, with what it is answered. -/
inductive OperateStep
  | request (request : Frame)
  | admission (backend : Option (BackendKind × BitVec 64)) (slotFree memoryFree : Bool)
  | finish (result : OperationResult)
  | judge (current : Bool) (target : SyncTarget)
  | look (result : WaitResult) (late : Bool)
  | recheck
  | next

/-- What is refused before anything is looked up. -/
def receive (session : Session) (request : Frame) : Operating :=
  if operationBit request.opcode == 0 then
    .answered request (refuse Status.unsupported "unknown desktop operation")
  else if session.role ≠ .rpc ∧ session.role ≠ .eventStream then
    .answered request (refuse Status.invalidRequest "operation is invalid for this role")
  else if operationScope request.opcode == 0 && !operationScopeFree request.opcode then
    .answered request (refuse Status.internal "operation carries no permission scope")
  else .first request

/-- The check before the operation. -/
def firstCheck (request : Frame) (r : Refreshed) : Operating :=
  let scope := operationScope request.opcode
  if !r.ok then .ended
  else if scope != 0 && r.session.grantedScopes &&& scope != scope then
    .answered request (refuse Status.denied "required permission is not granted")
  else .admitting request r.session.generation

/-- What is refused for want of a backend, a place or memory. -/
def admission (session : Session) (request : Frame) (before : ℕ) (backend : Option (BackendKind × BitVec 64))
    (slotFree memoryFree : Bool) : Operating :=
  match backend with
  | none => .answered request (refuse Status.unavailable "operation is unavailable on this backend")
  | some (kind, available) =>
    let capture := isCapture request.opcode
    let kwinScript := kind == .kwin && !capture && request.opcode != Op.keyboardState
    if available &&& operationBit request.opcode == 0 then
      .answered request (refuse Status.unavailable "operation is unavailable on this backend")
    else if request.opcode == Op.windowWatch || request.opcode == Op.clipboardWatch then
      .answered request (refuse Status.invalidRequest "subscribe to state on the lease connection")
    else if session.role ≠ .rpc then
      .answered request (refuse Status.invalidRequest "event streams only accept subscriptions")
    else if kwinScript && !slotFree then
      .answered request (refuse Status.busy "too many concurrent requests for this compositor")
    else if capture && !memoryFree then
      .answered request (refuse Status.resourceExhausted "capture memory budget is busy")
    else .running request kind before

/-- The check after the operation: nothing has changed since the first one. -/
def secondCheck (request : Frame) (before : ℕ) (result : OperationResult) (r : Refreshed) : Operating :=
  let scope := operationScope request.opcode
  .judged request (r.ok && (scope == 0 || (!r.changed && r.session.generation == before &&
    r.session.grantedScopes &&& scope == scope))) result

def withdraw (request : Frame) : Operating :=
  if operationScope request.opcode == 0 then
    .answered request (refuse Status.cancelled "application identity or backend changed")
  else .answered request (refuse Status.revoked "permission changed during the operation")

/-- A result that is still valid is forwarded, where it has to with the state that shows it. -/
def judge (lease : Lease) (request : Frame) (valid : Bool) (result : OperationResult) (current : Bool)
    (target : SyncTarget) : Operating :=
  if !(valid && current) then withdraw request
  else if result.status == Status.ok && stateMutatesWindows request.opcode then
    match target with
    | .table backend prior => .syncing request result (syncBegin lease backend request prior)
    | .child observed => if observed then .answered request (forwardResult request result 0) else .lapsed request
  else .answered request (forwardResult request result 0)

def look (lease : Lease) (request : Frame) (result : OperationResult) (wait : SyncWait)
    (outcome : WaitResult) (late : Bool) : Operating :=
  match operationSync lease wait outcome late with
  | none => .syncing request result wait
  | some synced => if synced.ok then .answered request (forwardResult request result synced.effectiveSequence)
    else .lapsed request

/-- What stands in for the result of an operation that did not show in time. -/
def unacknowledged : OperationResult :=
  resultError Status.timeout 0 (ascii "compositor state did not acknowledge the window operation within 2 seconds")

/-- An operation that did not show in time is an error of its own, unless the scope is gone. -/
def recheck (lease : Lease) (request : Frame) : Operating :=
  let scope := operationScope request.opcode
  if lease.active && lease.grantedScopes &&& scope == scope then
    .answered request (forwardResult request unacknowledged 0)
  else withdraw request

def operate (session : Session) (lease : Lease) : Operating → OperateStep → Operating
  | .idle, .request request => receive session request
  | .admitting request before, .admission backend slotFree memoryFree =>
    admission session request before backend slotFree memoryFree
  | .running request _ before, .finish result => .second request before result
  | .judged request valid result, .judge current target => judge lease request valid result current target
  | .syncing request result wait, .look outcome late => look lease request result wait outcome late
  | .lapsed request, .recheck => recheck lease request
  | .answered .., .next => .idle
  | state, _ => state

end Operate

section Service

/-- The world of a lease, with the operations of its sessions. -/
structure Service extends World where
  operating : ℕ → Operating

inductive ServiceAction
  | world (action : Action)
  | operate (i : ℕ) (step : OperateStep)

/-- A session visits the lease between requests, at both of its checks, and, where a capture runs
in the worker of KWin, whenever that asks whether to go on. -/
def Operating.mayEnter (forceIdentity notify : Bool) : Operating → Bool
  | .idle => true
  | .first _ | .second .. => forceIdentity && notify
  | .running request backend _ => backend == .kwin && isCapture request.opcode && forceIdentity && notify
  | _ => false

/-- What a session goes on with after a refresh. -/
def Operating.refreshed (r : Refreshed) : Operating → Operating
  | .idle => if r.ok then .idle else .ended
  | .first request => firstCheck request r
  | .second request before result => secondCheck request before result r
  | state => state

/-- The refresh that is about to end, and whose it is. -/
def World.refreshed (w : World) (verified : Option Identity) (failure : Option (Scopes × ℕ)) (sent : Bool) :
    Option (ℕ × Refreshed) :=
  match w.lease, w.held with
  | some lease, some ⟨i, .refresh forceIdentity notify, generation⟩ =>
    some (i, sessionRefresh lease (w.sessions i) forceIdentity notify
      (w.answers lease ⟨i, .refresh forceIdentity notify, generation⟩ lease.requestedScopes verified failure sent))
  | _, _ => none

namespace Service

def setOperating (s : Service) (i : ℕ) (state : Operating) : Service :=
  { s with operating := Function.update s.operating i state }

/-- Whether a session can take its next step: it is not inside a visit, and nobody else is where
the step takes the mutex. -/
def ready (s : Service) (i : ℕ) : OperateStep → Bool
  | .judge _ (.table ..) | .look .. | .recheck => s.held.isNone
  | _ => !s.held.any (·.session = i)

def step (s : Service) : ServiceAction → Service
  | .world (.enter i forceIdentity notify failure) =>
    if (s.operating i).mayEnter forceIdentity notify then
      { s with toWorld := s.toWorld.step (.enter i forceIdentity notify failure) }
    else s
  | .world (.leave verified failure sent) =>
    let after := { s with toWorld := s.toWorld.step (.leave verified failure sent) }
    match s.refreshed verified failure sent with
    | some (i, r) => after.setOperating i ((s.operating i).refreshed r)
    | none => after
  | .world action => { s with toWorld := s.toWorld.step action }
  | .operate i step =>
    match s.lease with
    | some lease => if s.ready i step then s.setOperating i (operate (s.sessions i) lease (s.operating i) step) else s
    | none => s

/-- No session has a request yet. -/
structure Initial (s : Service) : Prop where
  world : s.toWorld.Initial
  operating : ∀ i, s.operating i = .idle

end Service

end Service

section Inversion

/-- The request that has passed its first check, and the generation it has kept from there. -/
def Operating.opened : Operating → Option (Frame × ℕ)
  | .admitting request before | .running request _ before | .second request before _ => some (request, before)
  | _ => none

/-- The request that has passed both of its checks, and the result that is held for it. Where the operation did not
show in time, nothing is held. -/
def Operating.passed : Operating → Option (Frame × Option OperationResult)
  | .judged request true result | .syncing request result _ => some (request, some result)
  | .lapsed request => some (request, none)
  | _ => none

def Operating.reply : Operating → Option (Frame × Reply)
  | .answered request reply => some (request, reply)
  | _ => none

/-- Nothing of a result, with one of the statuses that stand for a refusal. -/
structure Reply.Refusal (reply : Reply) : Prop where
  tail : reply.tail = []
  capture : reply.capture = none
  status : reply.status ∈ [Status.unsupported, Status.invalidRequest, Status.denied, Status.unavailable,
    Status.busy, Status.resourceExhausted, Status.revoked]

/-- What is answered once a result has passed both checks: the result as it is forwarded, or that it did not show in
time. -/
def Reply.Releases (reply : Reply) (request : Frame) (result : OperationResult) : Prop :=
  (∃ effectiveSequence, reply = forwardResult request result effectiveSequence) ∨
    reply = forwardResult request unacknowledged 0

/-- What a step of a session on its own never does: it opens no request, passes none, and holds no other result. -/
structure Operates (before after : Operating) : Prop where
  opened : ∀ x, after.opened = some x → before.opened = some x
  passed : ∀ request held, after.passed = some (request, held) →
    ∃ held', before.passed = some (request, held') ∧ ∀ result ∈ held, result ∈ held'
  reply : ∀ request reply, after.reply = some (request, reply) →
    before.reply = some (request, reply) ∨
      (∃ held, before.passed = some (request, held) ∧
        ∀ result, (∀ r ∈ held, r = result) → reply.Releases request result) ∨
      (operationScope request.opcode ≠ 0 → reply.Refusal)

theorem Operates.refl (state : Operating) : Operates state state :=
  ⟨fun _ h => h, fun _ held h => ⟨held, h, fun _ hmem => hmem⟩, fun _ _ h => .inl h⟩

theorem refuse_refusal {status : Status} (diagnostic : String)
    (h : status ∈ [Status.unsupported, Status.invalidRequest, Status.denied, Status.unavailable, Status.busy,
      Status.resourceExhausted, Status.revoked]) : (refuse status diagnostic).Refusal := ⟨rfl, rfl, h⟩

/-- A request that is answered without having passed is refused. -/
theorem Operates.of_refusal {before : Operating} {request : Frame} {reply : Reply}
    (h : operationScope request.opcode ≠ 0 → reply.Refusal) : Operates before (.answered request reply) := by
  refine ⟨by simp [Operating.opened], by simp [Operating.passed], ?_⟩
  intro request' reply' hreply
  cases hreply
  exact .inr (.inr h)

/-- A request that has passed goes on with what is held for it. -/
theorem Operates.of_passed {before after : Operating} {request : Frame} {held held' : Option OperationResult}
    (hbefore : before.passed = some (request, held')) (hafter : after.passed = some (request, held))
    (hheld : ∀ result ∈ held, result ∈ held') (hopened : after.opened = none) (hreply : after.reply = none) :
    Operates before after := by
  refine ⟨by simp [hopened], ?_, by simp [hreply]⟩
  intro request' held'' hpassed
  rw [hafter, Option.some.injEq, Prod.mk.injEq] at hpassed
  obtain ⟨rfl, rfl⟩ := hpassed
  exact ⟨held', hbefore, hheld⟩

/-- A request that has passed is answered with what is held for it. -/
theorem Operates.of_released {before : Operating} {request : Frame} {held : Option OperationResult} {reply : Reply}
    (hbefore : before.passed = some (request, held))
    (h : ∀ result, (∀ r ∈ held, r = result) → reply.Releases request result) :
    Operates before (.answered request reply) := by
  refine ⟨by simp [Operating.opened], by simp [Operating.passed], ?_⟩
  intro request' reply' hreply
  cases hreply
  exact .inr (.inl ⟨held, hbefore, h⟩)

/-- A state in which nothing is open, passed or answered. -/
theorem Operates.of_fresh {before after : Operating} (hopened : after.opened = none) (hpassed : after.passed = none)
    (hreply : after.reply = none) : Operates before after :=
  ⟨by simp [hopened], by simp [hpassed], by simp [hreply]⟩

theorem forwarded_releases (request : Frame) (held : OperationResult) (effectiveSequence : ℕ) :
    ∀ result, (∀ r ∈ some held, r = result) →
      (forwardResult request held effectiveSequence).Releases request result := by
  intro result hheld
  rw [← hheld held rfl]
  exact .inl ⟨effectiveSequence, rfl⟩

theorem withdraw_operates (before : Operating) (request : Frame) : Operates before (withdraw request) := by
  unfold withdraw
  split_ifs with hscope
  · exact .of_refusal fun h => absurd (by simpa using hscope) h
  · exact .of_refusal fun _ => refuse_refusal _ (by decide)

theorem receive_operates (session : Session) (request : Frame) : Operates .idle (receive session request) := by
  unfold receive
  split_ifs with hbit hrole hscope
  · exact .of_refusal fun _ => refuse_refusal _ (by decide)
  · exact .of_refusal fun _ => refuse_refusal _ (by decide)
  · apply Operates.of_refusal
    intro h
    simp only [Bool.and_eq_true, beq_iff_eq] at hscope
    exact absurd hscope.1 h
  · exact .of_fresh rfl rfl rfl

theorem admission_operates (session : Session) (request : Frame) (before : ℕ)
    (backend : Option (BackendKind × BitVec 64)) (slotFree memoryFree : Bool) :
    Operates (.admitting request before) (admission session request before backend slotFree memoryFree) := by
  unfold admission
  split
  · exact .of_refusal fun _ => refuse_refusal _ (by decide)
  · simp only
    split_ifs
    all_goals first
      | exact .of_refusal fun _ => refuse_refusal _ (by decide)
      | exact ⟨fun _ h => h, by simp [Operating.passed], by simp [Operating.reply]⟩

theorem judge_operates (lease : Lease) (request : Frame) (valid : Bool) (result : OperationResult)
    (current : Bool) (target : SyncTarget) :
    Operates (.judged request valid result) (judge lease request valid result current target) := by
  unfold judge
  split_ifs with hvalid hsync
  · exact withdraw_operates _ _
  · have hpassed : (Operating.judged request valid result).passed = some (request, some result) := by
      simp only [Bool.not_eq_true', Bool.not_eq_false, Bool.and_eq_true] at hvalid
      rw [hvalid.1]
      rfl
    cases target with
    | table backend prior => exact .of_passed hpassed rfl (fun _ h => h) rfl rfl
    | child observed =>
      cases observed with
      | true => exact .of_released hpassed (forwarded_releases request result 0)
      | false => exact .of_passed hpassed rfl (by simp) rfl rfl
  · have hpassed : (Operating.judged request valid result).passed = some (request, some result) := by
      simp only [Bool.not_eq_true', Bool.not_eq_false, Bool.and_eq_true] at hvalid
      rw [hvalid.1]
      rfl
    exact .of_released hpassed (forwarded_releases request result 0)

theorem operate_operates (session : Session) (lease : Lease) (state : Operating) (step : OperateStep) :
    Operates state (operate session lease state step) := by
  fun_cases operate session lease state step with
  | case1 request => exact receive_operates session request
  | case2 request before backend slotFree memoryFree => exact admission_operates session request before _ _ _
  | case3 => exact ⟨fun _ h => h, by simp [Operating.passed], by simp [Operating.reply]⟩
  | case4 => exact judge_operates _ _ _ _ _ _
  | case5 request result wait outcome late =>
    unfold look
    split
    · exact .refl _
    · split_ifs
      · exact .of_released rfl (forwarded_releases request result _)
      · exact .of_passed rfl rfl (by simp) rfl rfl
  | case6 request =>
    unfold recheck
    simp only
    split_ifs
    · exact .of_released rfl fun _ _ => .inr rfl
    · exact withdraw_operates _ _
  | case7 => exact .of_fresh rfl rfl rfl
  | case8 => exact .refl _

/-- Every action acts on the world by one of its own actions, or not at all. -/
theorem Service.step_world (s : Service) (action : ServiceAction) :
    (s.step action).toWorld = s.toWorld ∨ ∃ a, (s.step action).toWorld = s.toWorld.step a := by
  cases action with
  | world a =>
    cases a with
    | enter i forceIdentity notify failure =>
      simp only [Service.step]
      split_ifs
      · exact .inr ⟨.enter i forceIdentity notify failure, rfl⟩
      · exact .inl rfl
    | leave verified failure sent =>
      simp only [Service.step]
      split <;> exact .inr ⟨.leave verified failure sent, rfl⟩
    | storeChange skip grants => exact .inr ⟨.storeChange skip grants, rfl⟩
    | authorize step => exact .inr ⟨.authorize step, rfl⟩
    | create epoch made => exact .inr ⟨.create epoch made, rfl⟩
    | work work => exact .inr ⟨.work work, rfl⟩
  | operate i step =>
    simp only [Service.step]
    split
    · split_ifs <;> exact .inl rfl
    · exact .inl rfl

/-- A session goes on by leaving a refresh of its own, or by a step of its own. -/
theorem Service.step_operating (s : Service) (action : ServiceAction) (i : ℕ) :
    (s.step action).operating i = s.operating i ∨
    (∃ verified failure sent r, s.refreshed verified failure sent = some (i, r) ∧
      (s.step action).operating i = (s.operating i).refreshed r) ∨
    ∃ lease step, (s.step action).operating i = operate (s.sessions i) lease (s.operating i) step := by
  cases action with
  | world a =>
    cases a with
    | enter j forceIdentity notify failure =>
      simp only [Service.step]
      split_ifs <;> exact .inl rfl
    | leave verified failure sent =>
      simp only [Service.step]
      split
      · next j r hrefreshed =>
        by_cases hi : i = j
        · subst hi
          refine .inr (.inl ⟨verified, failure, sent, r, hrefreshed, ?_⟩)
          simp [Service.setOperating]
        · left
          simp [Service.setOperating, hi]
      · exact .inl rfl
    | storeChange | authorize | create | work => exact .inl rfl
  | operate j step =>
    simp only [Service.step]
    split
    · next lease hlease =>
      split_ifs
      · by_cases hi : i = j
        · subst hi
          refine .inr (.inr ⟨lease, step, ?_⟩)
          simp [Service.setOperating]
        · left
          simp [Service.setOperating, hi]
      · exact .inl rfl
    · exact .inl rfl

end Inversion

section Past

/-- One action of the service. -/
def Service.Acts (s : Service) (action : ServiceAction) (t : Service) : Prop := s.step action = t

/-- The first service is an earlier state of the second. -/
def Service.Past (a s : Service) : Prop := ∃ actions, Run Service.Acts a actions s

theorem Service.Past.refl (s : Service) : s.Past s := ⟨[], .nil s⟩

theorem Service.Past.step {a s : Service} (h : a.Past s) (action : ServiceAction) : a.Past (s.step action) := by
  obtain ⟨actions, hrun⟩ := h
  exact ⟨_, hrun.append (.single rfl)⟩

/-- What every action keeps, and the start has, every later state has. -/
theorem Service.Past.invariant {I : Service → Prop} {a s : Service} (h : a.Past s)
    (hstep : ∀ s action, a.Past s → I s → I (s.step action)) (ha : I a) : I s := by
  obtain ⟨actions, hrun⟩ := h
  have hboth : a.Past s ∧ I s := by
    apply hrun.invariant (I := fun s => a.Past s ∧ I s) _ ⟨.refl a, ha⟩
    intro s action t hs hacts
    rw [← hacts]
    exact ⟨hs.1.step action, hstep s action hs.1 hs.2⟩
  exact hboth.2

variable {s₀ s : Service}

theorem Service.sound_of_past (hinitial : s₀.Initial) (h : s₀.Past s) : s.toWorld.Sound := by
  apply h.invariant (I := fun s => s.toWorld.Sound) _ hinitial.world.sound
  intro s action _ hs
  rcases s.step_world action with hsame | ⟨a, hstep⟩
  · rwa [hsame]
  · rw [hstep]
    exact hs.step a

theorem Service.generation_le_step (s : Service) (action : ServiceAction) :
    s.store.generation ≤ (s.step action).store.generation := by
  rcases s.step_world action with hsame | ⟨a, hstep⟩
  · rw [hsame]
  · rw [hstep]
    exact s.toWorld.generation_le_step a

/-- One action within a request of a session: the session is still at that request after it. -/
def Service.Within (i : ℕ) (request : Frame) (s : Service) (action : ServiceAction) (t : Service) : Prop :=
  s.Acts action t ∧ (t.operating i).request? = some request

/-- One action by which a session does not go on. -/
def Service.Steady (i : ℕ) (s : Service) (action : ServiceAction) (t : Service) : Prop :=
  s.Acts action t ∧ t.operating i = s.operating i

theorem Service.steady_operating {a s : Service} {i : ℕ} {actions : List ServiceAction}
    (hrun : Run (Service.Steady i) a actions s) : s.operating i = a.operating i := by
  apply hrun.invariant (I := fun s => s.operating i = a.operating i) _ rfl
  intro s action t hs hsteady
  rw [hsteady.2, hs]

theorem Service.steady_within {a s : Service} {i : ℕ} {request : Frame} {actions : List ServiceAction}
    (hrun : Run (Service.Steady i) a actions s) (hrequest : (s.operating i).request? = some request) :
    Run (Service.Within i request) a actions s := by
  induction hrun with
  | nil s => exact .nil s
  | cons hstep hrest ih =>
    have hnext := Service.steady_operating hrest
    exact .cons ⟨hstep.1, by rwa [← hnext]⟩ (ih hrequest)

/-- A store whose generation is what it was has not been touched in between. -/
theorem Service.run_sameStore {a b : Service} {i : ℕ} {request : Frame} {actions : List ServiceAction}
    (hrun : Run (Service.Within i request) a actions b) (h : a.store.generation = b.store.generation) :
    Run (fun s action t => s.Within i request action t ∧ t.store = s.store) a actions b := by
  induction hrun with
  | nil s => exact .nil s
  | @cons s t u action actions hstep hrest ih =>
    have hfirst := s.generation_le_step action
    have hlast : t.store.generation ≤ u.store.generation := by
      apply hrest.monotone (m := fun s => s.store.generation)
      intro x action y hwithin
      rw [← hwithin.1]
      exact x.generation_le_step action
    rw [hstep.1] at hfirst
    have hsame : t.store = s.store := by
      rcases s.step_world action with hworld | ⟨a, hworld⟩
      · rw [← hstep.1, hworld]
      · rcases s.toWorld.step_store a with hstore | ⟨skip, grants, hstore⟩
        · rw [← hstep.1, hworld, hstore]
        · have hgeneration : t.store.generation = s.store.generation + 1 + skip := by
            rw [← hstep.1, hworld, hstore]
            rfl
          omega
    exact .cons ⟨hstep, hsame⟩ (ih (by omega))

/-- While a session holds the mutex, the lease is as it was when the session entered, the session does not go on, and
it has read the generation of that moment. -/
structure HeldSince (a s : Service) (v : Hold) : Prop where
  held : a.held = some v
  lease : a.lease = s.lease
  steady : ∃ actions, Run (Service.Steady v.session) a actions s
  generation : v.generation.ok → v.generation.generation = a.store.generation

theorem enter_held {w : World} {i : ℕ} {forceIdentity notify : Bool} {failure : Option ℕ} {v : Hold}
    (h : (w.enter i forceIdentity notify failure).held = some v) :
    (w.held = some v ∧ w.enter i forceIdentity notify failure = w) ∨
      (w.lease.isSome ∧ (w.enter i forceIdentity notify failure).lease = w.lease ∧
        (v.generation.ok → v.generation.generation = (w.enter i forceIdentity notify failure).store.generation)) := by
  unfold World.enter at h ⊢
  split_ifs at h ⊢ with hblocked
  · exact .inl ⟨h, rfl⟩
  · simp only [Bool.or_eq_true, not_or, Bool.not_eq_true, Option.isNone_eq_false_iff] at hblocked
    refine .inr ⟨hblocked.2, rfl, ?_⟩
    simp only [Option.map_eq_some_iff] at h
    obtain ⟨kind, -, rfl⟩ := h
    cases failure with
    | none => exact fun _ => rfl
    | some output => exact fun h => by cases h

/-- A hold that outlives an attempt to leave was not one that could be left. -/
theorem leave_held {w : World} {verified : Option Identity} {failure : Option (Scopes × ℕ)} {sent : Bool} {v : Hold}
    (h : (w.leave verified failure sent).held = some v) :
    w.leave verified failure sent = w ∧ w.refreshed verified failure sent = none := by
  unfold World.leave World.refreshed at *
  cases hlease : w.lease with
  | none => simp
  | some lease =>
    cases hheld : w.held with
    | none => simp
    | some hold =>
      obtain ⟨i, kind, generation⟩ := hold
      simp only [hlease, hheld] at h ⊢
      cases kind with
      | refresh forceIdentity notify => cases h
      | complete =>
        cases hstate : w.authorizing with
        | decided requested status detail =>
          rw [hstate] at h
          cases h
        | _ => exact ⟨rfl, rfl⟩

theorem Service.step_held {s : Service} {action : ServiceAction} {v : Hold}
    (h : (s.step action).held = some v) (hsome : s.held.isSome → s.lease.isSome) :
    (s.held = some v ∧ (s.step action).lease = s.lease ∧
      (s.step action).operating v.session = s.operating v.session) ∨
    ((s.step action).lease.isSome ∧
      (v.generation.ok → v.generation.generation = (s.step action).store.generation)) := by
  cases action with
  | world a =>
    cases a with
    | enter i forceIdentity notify failure =>
      simp only [Service.step] at h ⊢
      split_ifs at h ⊢
      · rcases enter_held h with ⟨hheld, hsame⟩ | ⟨hlease, hlease', hgeneration⟩
        · refine .inl ⟨hheld, ?_, rfl⟩
          exact congrArg World.lease hsame
        · refine .inr ⟨?_, hgeneration⟩
          change (s.toWorld.enter i forceIdentity notify failure).lease.isSome
          rwa [hlease']
      · exact .inl ⟨h, rfl, rfl⟩
    | leave verified failure sent =>
      have hheld : (s.toWorld.leave verified failure sent).held = some v := by
        simp only [Service.step] at h
        split at h <;> exact h
      obtain ⟨hsame, hnone⟩ := leave_held hheld
      rw [hsame] at hheld
      refine .inl ⟨hheld, ?_, ?_⟩
      · simp only [Service.step, hnone]
        exact congrArg World.lease hsame
      · simp only [Service.step, hnone]
    | storeChange skip grants => exact .inl ⟨h, rfl, rfl⟩
    | authorize step =>
      simp only [Service.step, World.step] at h ⊢
      split_ifs at h ⊢ <;> exact .inl ⟨h, rfl, trivial⟩
    | create epoch made =>
      simp only [Service.step, World.step, World.create] at h ⊢
      split_ifs at h ⊢ with hblocked
      · exact .inl ⟨h, rfl, trivial⟩
      · simp only [Bool.or_eq_true, not_or, Bool.not_eq_true] at hblocked
        have hlease := hsome (by rw [h]; rfl)
        rw [hblocked.1] at hlease
        cases hlease
      · exact .inl ⟨h, rfl, trivial⟩
    | work work =>
      simp only [Service.step, World.step] at h ⊢
      split_ifs at h ⊢ with hheld
      · exact .inl ⟨h, rfl, trivial⟩
      · exact absurd (by rw [h]; rfl) hheld
  | operate i step =>
    simp only [Service.step] at h ⊢
    split at h
    · split_ifs at h ⊢ with hready
      · refine .inl ⟨h, rfl, ?_⟩
        have hheld : s.held = some v := h
        have hother : v.session ≠ i := by
          intro heq
          unfold Service.ready at hready
          split at hready <;> simp [hheld, heq] at hready
        simp [Service.setOperating, hother]
      · exact .inl ⟨h, rfl, rfl⟩
    · exact .inl ⟨h, rfl, rfl⟩

theorem Service.heldSince_of_past (hinitial : s₀.Initial) (h : s₀.Past s) :
    (s.held.isSome → s.lease.isSome) ∧
      ∀ v, s.held = some v → ∃ a, s₀.Past a ∧ HeldSince a s v := by
  apply h.invariant (I := fun s => (s.held.isSome → s.lease.isSome) ∧
    ∀ v, s.held = some v → ∃ a, s₀.Past a ∧ HeldSince a s v)
  · intro s action hpast hs
    obtain ⟨hsome, hsince⟩ := hs
    constructor
    · intro hheld
      obtain ⟨v, hv⟩ := Option.isSome_iff_exists.mp hheld
      rcases Service.step_held hv hsome with ⟨hbefore, hlease, -⟩ | ⟨hlease, -⟩
      · rw [hlease]
        exact hsome (by rw [hbefore]; rfl)
      · exact hlease
    · intro v hv
      rcases Service.step_held hv hsome with ⟨hbefore, hlease, hoperating⟩ | ⟨-, hgeneration⟩
      · obtain ⟨a, hstart, hheld⟩ := hsince v hbefore
        obtain ⟨actions, hrun⟩ := hheld.steady
        exact ⟨a, hstart, hheld.held, by rw [hlease]; exact hheld.lease,
          ⟨_, hrun.append (.single ⟨rfl, hoperating⟩)⟩, hheld.generation⟩
      · exact ⟨s.step action, hpast.step action, hv, rfl, ⟨[], .nil _⟩, hgeneration⟩
  · have hnone := hinitial.world.held
    refine ⟨by simp [hnone], by simp [hnone]⟩

end Past

section Release

/-- A moment within a check of session `i` at which the store grants the scope to the lease. -/
structure Service.Granted (s : Service) (i : ℕ) (scope : Scopes) : Prop where
  held : ∃ v, s.held = some v ∧ v.session = i
  granted : ∃ lease, s.lease = some lease ∧ lease.active ∧
    s.store.grants lease.identity.hash lease.requestedScopes &&& scope = scope

theorem and_eq_of_subset {granted answer scope : Scopes} (hgranted : granted &&& scope = scope)
    (hanswer : granted &&& answer = granted) : answer &&& scope = scope := by
  calc answer &&& scope = answer &&& (granted &&& scope) := by rw [hgranted]
    _ = (granted &&& answer) &&& scope := by rw [← BitVec.and_assoc, BitVec.and_comm answer granted]
    _ = scope := by rw [hanswer, hgranted]

/-- Where the mask of a refresh comes from: it is the lease's, at the generation that was just
read, or that of the check. -/
theorem refreshReading_source {lease : Lease} {forceIdentity : Bool} {a : Answers}
    (hok : (refreshReading lease forceIdentity a).ok)
    (hgranted : (refreshReading lease forceIdentity a).granted ≠ 0)
    (hunasked : lease.requestedScopes = 0 → lease.grantedScopes = 0) :
    (a.generation.ok ∧ a.generation.generation = lease.generation ∧
      (refreshReading lease forceIdentity a).granted = lease.grantedScopes ∧
      (refreshReading lease forceIdentity a).generation = lease.generation) ∨
    (a.check.ok ∧ (refreshReading lease forceIdentity a).granted = a.check.granted ∧
      (refreshReading lease forceIdentity a).generation = a.check.generation) := by
  have hactive := active_of_refreshReading hok
  unfold refreshReading at hok hgranted ⊢
  simp only [hactive, if_true, Bool.true_and] at hok hgranted ⊢
  split_ifs at hok hgranted ⊢ with hread hcheck hread'
  · exact .inr ⟨hcheck, rfl, rfl⟩
  · exact absurd hok hcheck
  · left
    have hgeneration : a.generation.ok := (Bool.and_eq_true_iff.mp hread').1
    have hsame : a.generation.generation = lease.generation := by
      by_contra hmoved
      have hrequested : lease.requestedScopes ≠ 0 := fun h => hgranted (hunasked h)
      apply hread
      rw [hread', Bool.true_and, Bool.and_eq_true]
      exact ⟨by simpa using hmoved, by simpa using hrequested⟩
    exact ⟨hgeneration, hsame, rfl, hsame⟩
  · exact absurd hok hread'

variable {s₀ s : Service}

/-- A refresh that finds the scope found it granted by the store, at the generation that it leaves
in the session. -/
theorem Service.refreshed_granted (hinitial : s₀.Initial) (hpast : s₀.Past s) {i : ℕ} {r : Refreshed}
    {verified : Option Identity} {failure : Option (Scopes × ℕ)} {sent : Bool} {scope : Scopes}
    (h : s.refreshed verified failure sent = some (i, r)) (hok : r.ok) (hscope : scope ≠ 0)
    (hgranted : r.session.grantedScopes &&& scope = scope) :
    ∃ a actions, s₀.Past a ∧ Run (Service.Steady i) a actions s ∧
      a.store.generation = r.session.generation ∧ a.Granted i scope := by
  unfold World.refreshed at h
  split at h
  · next lease j forceIdentity notify generation hlease hheld =>
    simp only [Option.some.injEq, Prod.mk.injEq] at h
    obtain ⟨rfl, rfl⟩ := h
    generalize hanswers : s.toWorld.answers lease _ lease.requestedScopes verified failure sent = answers at hok hgranted ⊢
    have hcheck : answers.check = s.store.checkReply lease.identity.hash lease.requestedScopes failure := by
      rw [← hanswers]
      rfl
    have hgeneration : answers.generation = generation := by
      rw [← hanswers]
      rfl
    have hreading := sessionRefresh_ok hok
    have hsession : (sessionRefresh lease (s.sessions j) forceIdentity notify answers).session.grantedScopes =
          (refreshReading lease forceIdentity answers).granted ∧
        (sessionRefresh lease (s.sessions j) forceIdentity notify answers).session.generation =
          (refreshReading lease forceIdentity answers).generation := by
      unfold sessionRefresh
      simp only
      split_ifs <;> exact ⟨rfl, rfl⟩
    rw [hsession.1] at hgranted
    rw [hsession.2]
    have hactive := active_of_refreshReading hreading
    have hne : (refreshReading lease forceIdentity answers).granted ≠ 0 := by
      intro hzero
      rw [hzero] at hgranted
      exact hscope (by simpa using hgranted.symm)
    have hbacked := (Service.sound_of_past hinitial hpast).lease lease hlease hactive
    rcases refreshReading_source hreading hne hbacked.unasked with ⟨hread, hsame, hmask, hat⟩ | ⟨hchecked, hmask, hat⟩
    · obtain ⟨a, hstart, hsince⟩ := (Service.heldSince_of_past hinitial hpast).2 _ hheld
      obtain ⟨actions, hsteady⟩ := hsince.steady
      have hlease' : a.lease = some lease := hsince.lease.trans hlease
      have hstore : a.store.generation = lease.generation := by
        rw [hgeneration] at hread hsame
        rw [← hsince.generation hread, hsame]
      have hanswered := ((Service.sound_of_past hinitial hstart).lease lease hlease' hactive).answered
        (by rwa [← hmask])
      refine ⟨a, actions, hstart, hsteady, by rw [hat, hstore], ⟨_, hsince.held, rfl⟩, lease, hlease', hactive, ?_⟩
      rw [hmask] at hgranted
      rw [Store.grants, hstore]
      exact and_eq_of_subset hgranted hanswered.2
    · cases failure with
      | some output =>
        rw [hcheck] at hchecked
        cases hchecked
      | none =>
        refine ⟨s, [], hpast, .nil s, by rw [hat, hcheck]; rfl, ⟨_, hheld, rfl⟩, lease, hlease, hactive, ?_⟩
        rw [hmask, hcheck] at hgranted
        exact hgranted
  · cases h

theorem request_of_opened {state : Operating} {request : Frame} {before : ℕ}
    (h : state.opened = some (request, before)) : state.request? = some request := by
  cases state with
  | admitting | running | second =>
    simp only [Operating.opened, Option.some.injEq, Prod.mk.injEq] at h
    rw [Operating.request?, h.1]
  | _ => cases h

theorem request_of_passed {state : Operating} {request : Frame} {held : Option OperationResult}
    (h : state.passed = some (request, held)) : state.request? = some request := by
  unfold Operating.passed at h
  split at h
  all_goals cases h
  all_goals rfl

theorem request_of_reply {state : Operating} {request : Frame} {reply : Reply}
    (h : state.reply = some (request, reply)) : state.request? = some request := by
  cases state with
  | answered =>
    simp only [Operating.reply, Option.some.injEq, Prod.mk.injEq] at h
    rw [Operating.request?, h.1]
  | _ => cases h

/-- A request that is open passed its first check at the generation it has kept, and the session has been at it
since. -/
theorem Service.first_granted (hinitial : s₀.Initial) (hpast : s₀.Past s) :
    ∀ i request before, (s.operating i).opened = some (request, before) → operationScope request.opcode ≠ 0 →
      ∃ a actions, s₀.Past a ∧ Run (Service.Within i request) a actions s ∧ a.operating i = .first request ∧
        a.store.generation = before ∧ a.Granted i (operationScope request.opcode) := by
  apply hpast.invariant (I := fun s => ∀ i request before, (s.operating i).opened = some (request, before) →
    operationScope request.opcode ≠ 0 → ∃ a actions, s₀.Past a ∧ Run (Service.Within i request) a actions s ∧
      a.operating i = .first request ∧ a.store.generation = before ∧ a.Granted i (operationScope request.opcode))
  · intro s action hpast hs i request before hopened hscope
    have hstay := request_of_opened hopened
    have hearlier : (s.operating i).opened = some (request, before) → ∃ a actions, s₀.Past a ∧
        Run (Service.Within i request) a actions (s.step action) ∧ a.operating i = .first request ∧
          a.store.generation = before ∧ a.Granted i (operationScope request.opcode) := by
      intro h
      obtain ⟨a, actions, hstart, hrun, hrest⟩ := hs i request before h hscope
      exact ⟨a, _, hstart, hrun.append (.single ⟨rfl, hstay⟩), hrest⟩
    rcases s.step_operating action i with hsame | ⟨verified, failure, sent, r, hrefreshed, hafter⟩ | ⟨lease, step, hafter⟩
    · exact hearlier (by rwa [hsame] at hopened)
    · rw [hafter] at hopened
      cases hstate : s.operating i with
      | first request' =>
        simp only [hstate, Operating.refreshed, firstCheck] at hopened
        split_ifs at hopened with hok hdenied
        all_goals simp only [Operating.opened, Option.some.injEq, Prod.mk.injEq, reduceCtorEq] at hopened
        obtain ⟨rfl, rfl⟩ := hopened
        have hmask : r.session.grantedScopes &&& operationScope request'.opcode = operationScope request'.opcode := by
          by_contra hmissing
          apply hdenied
          rw [Bool.and_eq_true]
          exact ⟨by simpa using hscope, by simpa using hmissing⟩
        obtain ⟨a, actions, hstart, hsteady, hrest⟩ :=
          Service.refreshed_granted hinitial hpast hrefreshed (by simpa using hok) hscope hmask
        have hwithin : Run (Service.Within i request') a actions s :=
          Service.steady_within hsteady (by rw [hstate]; rfl)
        have hoperating : a.operating i = .first request' := by rw [← Service.steady_operating hsteady, hstate]
        exact ⟨a, _, hstart, hwithin.append (.single ⟨rfl, hstay⟩), hoperating, hrest⟩
      | idle =>
        simp only [hstate, Operating.refreshed] at hopened
        split_ifs at hopened <;> cases hopened
      | second request' before' result =>
        rw [hstate] at hopened
        cases hopened
      | admitting | running | judged | syncing | lapsed | answered | ended =>
        exact hearlier (by rw [hstate] at hopened ⊢; exact hopened)
    · rw [hafter] at hopened
      exact hearlier ((operate_operates (s.sessions i) lease (s.operating i) step).opened _ hopened)
  · intro i request before hopened
    rw [hinitial.operating i] at hopened
    cases hopened

/-- Both checks of the operation that session `i` is at found its scope granted, by a store that did not change from
the first to the second, and the result is the one that was held at the second. From the first check on the session
has been at this request: an earlier operation of the same frame does not count. -/
def Service.Fenced (s₀ s : Service) (i : ℕ) (request : Frame) (result : OperationResult) : Prop :=
  ∃ a b actions later before, s₀.Past a ∧
    Run (fun s action t => s.Within i request action t ∧ t.store = s.store) a actions b ∧
    Run (Service.Within i request) b later s ∧
    a.operating i = .first request ∧ a.Granted i (operationScope request.opcode) ∧
    b.operating i = .second request before result ∧ b.Granted i (operationScope request.opcode) ∧
    a.store.generation = before ∧ b.store.generation = before

theorem Service.Fenced.step {i : ℕ} {request : Frame} {result : OperationResult} (h : s₀.Fenced s i request result)
    (action : ServiceAction) (hstay : ((s.step action).operating i).request? = some request) :
    s₀.Fenced (s.step action) i request result := by
  obtain ⟨a, b, actions, later, before, hstart, hsame, hlater, hrest⟩ := h
  exact ⟨a, b, actions, _, before, hstart, hsame, hlater.append (.single ⟨rfl, hstay⟩), hrest⟩

theorem Service.second_granted (hinitial : s₀.Initial) (hpast : s₀.Past s) {i : ℕ} {r : Refreshed}
    {verified : Option Identity} {failure : Option (Scopes × ℕ)} {sent : Bool} {request : Frame} {before : ℕ}
    {result : OperationResult} (hstate : s.operating i = .second request before result)
    (h : s.refreshed verified failure sent = some (i, r)) (hscope : operationScope request.opcode ≠ 0)
    (hpassed : (secondCheck request before result r).passed.isSome) : s₀.Fenced s i request result := by
  unfold secondCheck at hpassed
  simp only at hpassed
  generalize hvalid : (r.ok && (operationScope request.opcode == 0 || (!r.changed &&
    r.session.generation == before &&
    r.session.grantedScopes &&& operationScope request.opcode == operationScope request.opcode))) = valid at hpassed
  cases valid with
  | false => cases hpassed
  | true =>
    simp only [Bool.and_eq_true, Bool.or_eq_true, beq_iff_eq, hscope, false_or] at hvalid
    obtain ⟨hok, ⟨-, hgeneration⟩, hmask⟩ := hvalid
    obtain ⟨b, later, hstart, hsteady, hat, hgranted⟩ :=
      Service.refreshed_granted hinitial hpast h hok hscope hmask
    have hoperating : b.operating i = .second request before result := by
      rw [← Service.steady_operating hsteady, hstate]
    obtain ⟨a, actions, hfirst, hrun, hopen, hbefore, hopened⟩ :=
      Service.first_granted hinitial hstart i request before (by rw [hoperating]; rfl) hscope
    have hsame : b.store.generation = before := hat.trans hgeneration
    have hlater : Run (Service.Within i request) b later s :=
      Service.steady_within hsteady (by rw [hstate]; rfl)
    exact ⟨a, b, actions, later, before, hfirst, Service.run_sameStore hrun (hbefore.trans hsame.symm), hlater,
      hopen, hopened, hoperating, hgranted, hbefore, hsame⟩

/-- What is held of a request that has passed, and what it is answered, is of a result that both checks let pass. -/
structure Service.Releasing (s₀ s : Service) (i : ℕ) (request : Frame) : Prop where
  passed : ∀ held, (s.operating i).passed = some (request, held) →
    ∃ result, s₀.Fenced s i request result ∧ ∀ r ∈ held, r = result
  reply : ∀ reply, (s.operating i).reply = some (request, reply) →
    (∃ result, s₀.Fenced s i request result ∧ reply.Releases request result) ∨ reply.Refusal

/-- A session with nothing that has passed, and no reply. -/
theorem Service.Releasing.of_fresh {i : ℕ} {request : Frame} (hpassed : (s.operating i).passed = none)
    (hreply : (s.operating i).reply = none) : s₀.Releasing s i request :=
  ⟨by simp [hpassed], by simp [hreply]⟩

/-- A step of a session on its own releases nothing else than what had passed before. -/
theorem Service.Releasing.step {i : ℕ} {request : Frame} (h : s₀.Releasing s i request) (action : ServiceAction)
    (hoperates : Operates (s.operating i) ((s.step action).operating i))
    (hscope : operationScope request.opcode ≠ 0) : s₀.Releasing (s.step action) i request := by
  constructor
  · intro held hpassed
    obtain ⟨held', hbefore, hheld⟩ := hoperates.passed request held hpassed
    obtain ⟨result, hfenced, hresult⟩ := h.passed held' hbefore
    exact ⟨result, hfenced.step action (request_of_passed hpassed), fun r hr => hresult r (hheld r hr)⟩
  · intro reply hreply
    have hstay := request_of_reply hreply
    rcases hoperates.reply request reply hreply with hbefore | ⟨held, hbefore, hreleases⟩ | hrefusal
    · refine (h.reply reply hbefore).imp_left ?_
      rintro ⟨result, hfenced, hreleases⟩
      exact ⟨result, hfenced.step action hstay, hreleases⟩
    · obtain ⟨result, hfenced, hresult⟩ := h.passed held hbefore
      exact .inl ⟨result, hfenced.step action hstay, hreleases result hresult⟩
    · exact .inr (hrefusal hscope)

theorem Service.passed_fenced (hinitial : s₀.Initial) (hpast : s₀.Past s) :
    ∀ i request, operationScope request.opcode ≠ 0 → s₀.Releasing s i request := by
  apply hpast.invariant (I := fun s => ∀ i request, operationScope request.opcode ≠ 0 → s₀.Releasing s i request)
  · intro s action hpast hs i request hscope
    rcases s.step_operating action i with hsame | ⟨verified, failure, sent, r, hrefreshed, hafter⟩ | ⟨lease, step, hafter⟩
    · exact (hs i request hscope).step action (by rw [hsame]; exact .refl _) hscope
    · cases hstate : s.operating i with
      | first request' =>
        rw [hstate] at hafter
        simp only [Operating.refreshed, firstCheck] at hafter
        split_ifs at hafter
        · exact .of_fresh (by rw [hafter]; rfl) (by rw [hafter]; rfl)
        · refine ⟨by simp [hafter, Operating.passed], ?_⟩
          intro reply hreply
          rw [hafter] at hreply
          cases hreply
          exact .inr (refuse_refusal _ (by decide))
        · exact .of_fresh (by rw [hafter]; rfl) (by rw [hafter]; rfl)
      | idle =>
        rw [hstate] at hafter
        simp only [Operating.refreshed] at hafter
        split_ifs at hafter <;> exact .of_fresh (by rw [hafter]; rfl) (by rw [hafter]; rfl)
      | second request' before result =>
        rw [hstate] at hafter
        simp only [Operating.refreshed] at hafter
        refine ⟨?_, by simp [hafter, secondCheck, Operating.reply]⟩
        intro held hpassed
        have hstay := request_of_passed hpassed
        rw [hafter] at hpassed
        have hsame : request' = request ∧ held = some result := by
          unfold secondCheck Operating.passed at hpassed
          split at hpassed
          all_goals simp_all
        obtain ⟨rfl, rfl⟩ := hsame
        have hfenced := Service.second_granted hinitial hpast hstate hrefreshed hscope (by rw [hpassed]; rfl)
        exact ⟨result, hfenced.step action hstay, by simp⟩
      | admitting | running | judged | syncing | lapsed | answered | ended =>
        rw [hstate] at hafter
        exact (hs i request hscope).step action (by rw [hafter, hstate]; exact .refl _) hscope
    · exact (hs i request hscope).step action (by rw [hafter]; exact operate_operates _ _ _ _) hscope
  · intro i request _
    exact .of_fresh (by rw [hinitial.operating i]; rfl) (by rw [hinitial.operating i]; rfl)

/-- What a client is answered for an operation that demands a scope. Either both checks of this very operation found
the scope granted, by a store that did not change in between, and the reply is made from the result that was held at
the second check alone; or the reply is a refusal without any data. -/
theorem operation_fenced {s₀ s : Service} {actions : List ServiceAction} (hinitial : s₀.Initial)
    (hrun : Run Service.Acts s₀ actions s) (i : ℕ) (request : Frame) (reply : Reply)
    (hscope : operationScope request.opcode ≠ 0) (hanswered : s.operating i = .answered request reply) :
    (∃ result, s₀.Fenced s i request result ∧ reply.Releases request result) ∨ reply.Refusal := by
  apply (Service.passed_fenced hinitial ⟨actions, hrun⟩ i request hscope).reply
  rw [hanswered]
  rfl

/-- A client whose every wish is granted, before it has said anything. -/
def newService : Service where
  toWorld := newWorld fun _ requested => requested
  operating := fun _ => .idle

theorem newService_initial : newService.Initial := ⟨newWorld_initial _, fun _ => rfl⟩

def listRequest : Frame := ⟨frameMagic, protocolMajor, protocolMinor, Op.windowList, 0, 9, []⟩

def visitActions : List ServiceAction :=
  [.world (.enter 1 true true none), .world (.leave (some clientIdentity) none true)]

/-- The lease is created with window monitoring, and a session asks for the list of windows. -/
def listActions : List ServiceAction :=
  [.world (.authorize (.start Scope.windowMonitoring authCheck)), .world (.authorize (.check none)),
    .world (.create 1 true), .operate 1 (.request listRequest)] ++ visitActions

/-- Without a backend, the answer is neither of the two that stand for a missing permission. -/
theorem listWithoutBackend_unavailable :
    ∃ s reply, Run Service.Acts newService (listActions ++ [.operate 1 (.admission none true true)]) s ∧
      operationScope listRequest.opcode ≠ 0 ∧ s.operating 1 = .answered listRequest reply ∧
      reply.status ≠ Status.denied ∧ reply.status ≠ Status.revoked := by
  refine ⟨_, refuse Status.unavailable "operation is unavailable on this backend",
    Run.foldl Service.step newService _, by decide, by decide +kernel, by decide, by decide⟩

/-- The list arrives, and nothing has changed. -/
def listedActions : List ServiceAction :=
  listActions ++ [.operate 1 (.admission (some (.kwin, BitVec.allOnes 64)) true true),
    .operate 1 (.finish (resultTake [1]))] ++ visitActions ++ [.operate 1 (.judge true (.child true))]

theorem listedWindows_fenced :
    ∃ s result, s.operating 1 = .answered listRequest ⟨Status.ok, 0, [], [1], none⟩ ∧
      newService.Fenced s 1 listRequest result ∧
        Reply.Releases ⟨Status.ok, 0, [], [1], none⟩ listRequest result := by
  have hanswered : (listedActions.foldl Service.step newService).operating 1 =
      .answered listRequest ⟨Status.ok, 0, [], [1], none⟩ := by decide +kernel
  rcases operation_fenced newService_initial (Run.foldl Service.step newService listedActions) 1 listRequest _
    (by decide) hanswered with ⟨result, hfenced, hreleases⟩ | hrefusal
  · exact ⟨_, result, hanswered, hfenced, hreleases⟩
  · cases hrefusal.tail

end Release

end KeysharpDesktop
