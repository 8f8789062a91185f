import KeysharpDesktop.Authority.Store
import KeysharpDesktop.Authority.Sync

/-! Asking the user for permission while the store goes on changing: `authorize_scopes` and
`complete_authorization` of the lease's own session, between the visits of all others. -/
namespace KeysharpDesktop

open Transition

section Authorize

/-- Every scope that a client may ask for. -/
def acceptedScopes : Scopes :=
  Scope.inputControl ||| Scope.windowMonitoring ||| Scope.windowControl ||| Scope.screenCapture |||
    Scope.audioCapture ||| Scope.cameraCapture ||| Scope.clipboardMonitoring

def authCheck : BitVec 16 := 0
def authRequest : BitVec 16 := 1
def detailNoAuthenticationAgent : BitVec 32 := 0x00010000

inductive PolkitResult
  | granted | denied | cancelled | identityChanged | noAgent | unavailable
  deriving DecidableEq, Repr

/-- How far the lease's session is with its request, by what it still has to do. -/
inductive Authorizing
  | idle
  | checking (requested : Scopes) (mode : BitVec 16)
  | locking (requested : Scopes)
  | rechecking (requested : Scopes)
  | prompting (requested missing : Scopes) (generation : ℕ)
  | granting (requested missing : Scopes) (generation : ℕ) (verified : Identity)
  | confirming (requested : Scopes)
  | decided (requested : Scopes) (status : Status) (detail : BitVec 32)
  | reported (requested : Scopes) (status : Status) (detail : BitVec 32)
  | ended
  deriving DecidableEq, Repr

/-- The next thing the session does, with what it is answered. -/
inductive AuthorizeStep
  | start (requested : Scopes) (mode : BitVec 16)
  | check (failure : Option (Scopes × ℕ))
  | lock (acquired disconnected : Bool) (verified : Option Identity)
  | prompt (decision : PolkitResult) (verified : Option Identity)
  | grant (works : Bool) (skip : ℕ)

def PolkitResult.status : PolkitResult → Status
  | .granted => Status.ok
  | .denied => Status.denied
  | .cancelled | .identityChanged => Status.cancelled
  | .noAgent | .unavailable => Status.unavailable

def PolkitResult.detail : PolkitResult → BitVec 32
  | .noAgent => detailNoAuthenticationAgent
  | _ => 0

/-- `authorize_scopes`, one call at a time. The store is not held between them. -/
def authorizeScopes (store : Store) (session : Session) :
    Authorizing → AuthorizeStep → Store × Session × Authorizing
  | .idle, .start requested mode | .reported .., .start requested mode =>
    if requested == 0 || requested &&& ~~~acceptedScopes != 0 || !(mode == authCheck || mode == authRequest) then
      (store, session, .decided requested Status.invalidRequest 0)
    else (store, { session with requestedScopes := session.requestedScopes ||| requested },
      .checking requested mode)
  | .checking requested mode, .check failure =>
    let c := store.checkReply session.identity.hash session.requestedScopes failure
    if !c.ok then (store, session, .decided requested Status.internal 0)
    else
      let session := { session with generation := c.generation, grantedScopes := c.granted }
      if c.granted &&& requested == requested then (store, session, .decided requested Status.ok 0)
      else if mode == authCheck then (store, session, .decided requested Status.denied 0)
      else (store, session, .locking requested)
  | .locking requested, .lock acquired disconnected verified =>
    if !acquired then
      (store, session, .decided requested (if disconnected then Status.cancelled else Status.internal) 0)
    else match verified.filter (sameIdentity session.identity) with
      | none => (store, session, .decided requested Status.cancelled 0)
      | some verified => (store, { session with identity := verified }, .rechecking requested)
  | .rechecking requested, .check failure =>
    let c := store.checkReply session.identity.hash session.requestedScopes failure
    if !c.ok then (store, session, .decided requested Status.internal 0)
    else
      let session := { session with generation := c.generation, grantedScopes := c.granted }
      let missing := requested &&& ~~~c.granted
      if missing == 0 then (store, session, .decided requested Status.ok 0)
      else (store, session, .prompting requested missing c.generation)
  | .prompting requested missing generation, .prompt decision verified =>
    if decision ≠ .granted then (store, session, .decided requested decision.status decision.detail)
    else match verified.filter (sameIdentity session.identity) with
      | none => (store, session, .decided requested Status.cancelled 0)
      | some verified => (store, session, .granting requested missing generation verified)
  | .granting requested missing generation verified, .grant works skip =>
    match store.grantIfGeneration verified.hash missing generation works skip with
    | (.added, store) => (store, { session with identity := verified }, .confirming requested)
    | (.changed, store) => (store, session, .decided requested Status.revoked 0)
    | (.failed, store) => (store, session, .decided requested Status.internal 0)
  | .confirming requested, .check failure =>
    let c := store.checkReply session.identity.hash session.requestedScopes failure
    let session := { session with generation := c.generation }
    if !c.ok then (store, session, .decided requested Status.internal 0)
    else (store, { session with grantedScopes := c.granted },
      .decided requested (if c.granted &&& requested == requested then Status.ok else Status.revoked) 0)
  | state, _ => (store, session, state)

/-- A lease is created where nothing was asked for, or where all that was asked for is granted. -/
def Authorizing.mayCreate : Authorizing → Bool
  | .idle => true
  | .decided _ status _ => status == Status.ok
  | _ => false

end Authorize

section World

/-- Everything else that is done to a lease with its mutex held. -/
inductive LeaseWork
  | source (frame : Frame) (sent : Bool)
  | sourceLost (lane : Fin 3) (sent : StateDomain → Bool)
  | subscribe (domains : Domains)
  | sendGrants (sent : Bool × Bool × Bool)
  | close

def LeaseWork.apply (lease : Lease) : LeaseWork → Lease
  | .source frame sent => sourceApply lease frame sent
  | .sourceLost lane sent => KeysharpDesktop.sourceLost lease lane sent
  | .subscribe domains => subscribeSet lease domains
  | .sendGrants sent => grantsSnapshot lease sent
  | .close => lease.close

inductive HoldKind
  | refresh (forceIdentity notify : Bool)
  | complete
  deriving DecidableEq, Repr

/-- A session inside a visit: it holds the mutex and has read the store's generation. -/
structure Hold where
  session : ℕ
  kind : HoldKind
  generation : GenerationReply
  deriving DecidableEq, Repr

/-- The store, the lease once it is created, and the sessions: session 0 is the lease's own. -/
structure World where
  store : Store
  lease : Option Lease
  sessions : ℕ → Session
  authorizing : Authorizing
  held : Option Hold

/-- A visit reads the store up to twice, so it is entered and left in two actions; meanwhile the
store may change and the lease's session may go on asking. -/
inductive Action
  | storeChange (skip : ℕ) (grants : Grants)
  | authorize (step : AuthorizeStep)
  | create (epoch : BitVec 64) (made : Bool)
  | enter (i : ℕ) (forceIdentity notify : Bool) (failure : Option ℕ)
  | leave (verified : Option Identity) (failure : Option (Scopes × ℕ)) (sent : Bool)
  | work (work : LeaseWork)

namespace World

def setSession (w : World) (i : ℕ) (session : Session) : World :=
  { w with sessions := Function.update w.sessions i session }

/-- The kind of visit that a session makes next, if it can make one. -/
def holdKind (w : World) (i : ℕ) (forceIdentity notify : Bool) : Option HoldKind :=
  if i ≠ 0 then some (.refresh forceIdentity notify)
  else match w.authorizing with
    | .idle | .reported .. => some (.refresh forceIdentity notify)
    | .decided .. => some .complete
    | _ => none

def enter (w : World) (i : ℕ) (forceIdentity notify : Bool) (failure : Option ℕ) : World :=
  if w.held.isSome || w.lease.isNone then w
  else { w with held := (w.holdKind i forceIdentity notify).map fun kind =>
    ⟨i, kind, w.store.generationReply failure⟩ }

/-- The answers that a visit works with. -/
def answers (w : World) (lease : Lease) (v : Hold) (requested : Scopes) (verified : Option Identity)
    (failure : Option (Scopes × ℕ)) (sent : Bool) : Answers :=
  ⟨v.generation, verified, w.store.checkReply lease.identity.hash requested failure, sent⟩

def leaveRefresh (w : World) (lease : Lease) (v : Hold) (forceIdentity notify : Bool) (a : Answers) : World :=
  let r := sessionRefresh lease (w.sessions v.session) forceIdentity notify a
  { w with
    lease := some r.lease, held := none
    authorizing := if v.session = 0 ∧ !r.ok then .ended else w.authorizing }.setSession v.session r.session

def leaveComplete (w : World) (lease : Lease) (v : Hold) (requested : Scopes) (status : Status)
    (detail : BitVec 32) (a : Answers) : World :=
  let r := completeAuthorization lease (w.sessions v.session) requested status a
  { w with
    lease := some r.lease, held := none
    authorizing := if r.ok then .reported requested r.status detail else .ended }.setSession v.session r.session

def leave (w : World) (verified : Option Identity) (failure : Option (Scopes × ℕ)) (sent : Bool) : World :=
  match w.lease, w.held with
  | some lease, some v =>
    match v.kind, w.authorizing with
    | .refresh forceIdentity notify, _ => w.leaveRefresh lease v forceIdentity notify
        (w.answers lease v lease.requestedScopes verified failure sent)
    | .complete, .decided requested status detail => w.leaveComplete lease v requested status detail
        (w.answers lease v (lease.requestedScopes ||| (w.sessions v.session).requestedScopes) verified
          failure sent)
    | .complete, _ => w
  | _, _ => w

def create (w : World) (epoch : BitVec 64) (made : Bool) : World :=
  if w.lease.isSome || !w.authorizing.mayCreate then w
  else if made then { w with lease := some (leaseCreate (w.sessions 0) epoch), authorizing := .idle }
  else { w with authorizing := .ended }

def step (w : World) : Action → World
  | .storeChange skip grants => { w with store := w.store.change skip grants }
  | .authorize action =>
    if w.held.any (·.session = 0) then w
    else
      let (store, session, authorizing) := authorizeScopes w.store (w.sessions 0) w.authorizing action
      { w with store, authorizing }.setSession 0 session
  | .create epoch made => w.create epoch made
  | .enter i forceIdentity notify failure => w.enter i forceIdentity notify failure
  | .leave verified failure sent => w.leave verified failure sent
  | .work work => if w.held.isSome then w else { w with lease := w.lease.map work.apply }

end World

end World

section Advance

namespace Authorizing

/-- The session is between its first check of the store and its last. -/
def asking : Authorizing → Bool
  | .checking .. | .locking .. | .rechecking .. | .prompting .. | .granting .. | .confirming .. => true
  | _ => false

/-- The generation that a prompt was shown at, until the grant is made. -/
def pending : Authorizing → Option ℕ
  | .prompting _ _ generation | .granting _ _ generation _ => some generation
  | _ => none

/-- The prompt, if there is one, is still to come. -/
def early : Authorizing → Bool
  | .checking .. | .locking .. | .rechecking .. => true
  | _ => false

/-- What `authorize_scopes` or the whole request came to. -/
def status : Authorizing → Option Status
  | .decided _ status _ | .reported _ status _ => some status
  | _ => none

end Authorizing

/-- Everything that one step of `authorize_scopes` can do. -/
inductive Advance (store : Store) (session : Session) (state : Authorizing) (action : AuthorizeStep) :
    Store × Session × Authorizing → Prop
  | stays : Advance store session state action (store, session, state)
  | starts {requested : Scopes} {mode : BitVec 16} :
      action = .start requested mode → requested ≠ 0 →
      Advance store session state action
        (store, { session with requestedScopes := session.requestedScopes ||| requested }, .checking requested mode)
  | refused {session' : Session} {requested : Scopes} {status : Status} {detail : BitVec 32} :
      status ≠ Status.ok → Advance store session state action (store, session', .decided requested status detail)
  | granted {requested : Scopes} (failure : Option (Scopes × ℕ)) :
      state.asking → state.pending = none →
      (store.checkReply session.identity.hash session.requestedScopes failure).ok →
      Advance store session state action
        (store, { session with
          generation := (store.checkReply session.identity.hash session.requestedScopes failure).generation
          grantedScopes := (store.checkReply session.identity.hash session.requestedScopes failure).granted },
          .decided requested Status.ok 0)
  | proceeds {session' : Session} {state' : Authorizing} :
      state.asking → state'.asking → session'.requestedScopes = session.requestedScopes →
      state'.pending = state.pending → (state'.early → state.early) → Advance store session state action (store, session', state')
  | prompts {session' : Session} {requested missing : Scopes} :
      state = .rechecking requested → session'.requestedScopes = session.requestedScopes →
      Advance store session state action
        (store, session', .prompting requested missing store.generation)
  | added {requested missing : Scopes} {verified : Identity} {works : Bool} {skip : ℕ} (grants : Grants) :
      state = .granting requested missing store.generation verified → action = .grant works skip →
      Advance store session state action
        (store.change skip grants, { session with identity := verified }, .confirming requested)

theorem PolkitResult.status_ne_ok {decision : PolkitResult} (h : decision ≠ .granted) :
    decision.status ≠ Status.ok := by
  cases decision <;> first | exact absurd rfl h | decide

theorem authorizeScopes_advance (store : Store) (session : Session) (state : Authorizing)
    (action : AuthorizeStep) :
    Advance store session state action (authorizeScopes store session state action) := by
  fun_cases authorizeScopes store session state action with
  | case1 | case3 => exact .refused (by decide)
  | case2 requested mode h | case4 _ _ _ requested mode h =>
    apply Advance.starts rfl
    intro hzero
    simp [hzero] at h
  | case5 | case10 | case12 | case16 => exact .refused (by decide)
  | case6 requested mode failure c hok | case13 requested failure c hok =>
    exact .granted failure rfl rfl (by simpa using hok)
  | case7 => exact .refused (by decide)
  | case8 | case11 | case17 => exact .proceeds rfl rfl rfl rfl id
  | case9 _ _ disconnected => exact .refused (by cases disconnected <;> decide)
  | case14 requested failure c hok =>
    have hgeneration : c.generation = store.generation := by
      cases failure with
      | some output => simp [c, Store.checkReply] at hok
      | none => rfl
    rw [hgeneration]
    exact .prompts rfl rfl
  | case15 _ _ _ decision _ h => exact .refused (PolkitResult.status_ne_ok h)
  | case18 _ missing generation verified works skip store' h =>
    rcases store.grantIfGeneration_cases verified.hash missing generation works skip with
      ⟨hgeneration, grants, hgrant⟩ | ⟨hreply, -⟩
    · rw [h] at hgrant
      obtain ⟨-, rfl⟩ := Prod.mk.inj hgrant
      rw [← hgeneration]
      exact .added grants rfl rfl
    · rw [h] at hreply
      exact absurd rfl hreply
  | case19 _ missing generation verified works skip store' h
  | case20 _ missing generation verified works skip store' h =>
    rcases store.grantIfGeneration_cases verified.hash missing generation works skip with
      ⟨-, grants, hgrant⟩ | ⟨-, hsame⟩
    · rw [h] at hgrant
      cases hgrant
    · rw [h] at hsame
      simp only at hsame
      rw [hsame]
      exact .refused (by decide)
  | case21 => exact .refused (by decide)
  | case22 requested failure c _ hok =>
    split_ifs with hcovers
    · exact .granted failure rfl rfl (by simpa using hok)
    · exact .refused (by decide)
  | case23 => exact .stays

end Advance

section Hold

/-- What a lease holds: for whom, what was asked for, and what the store answered and when. -/
def Lease.hold (lease : Lease) : Identity × Scopes × Scopes × ℕ :=
  (lease.identity, lease.requestedScopes, lease.grantedScopes, lease.generation)

/-- What is not about authority leaves the hold alone, unless it ends the lease. -/
def Keeps (a b : Lease) : Prop := b.active → a.active ∧ b.hold = a.hold

theorem Keeps.of_eq {a b : Lease} (hactive : b.active = a.active) (hhold : b.hold = a.hold) : Keeps a b := by
  intro h
  exact ⟨by rwa [← hactive], hhold⟩

theorem Keeps.leaseEmit {a b : Lease} (h : Keeps a b) (event : StateEvent) (sent : Bool) :
    Keeps a (leaseEmit b event sent).1 := by
  intro hactive
  have hlease := leaseEmit_of_active hactive
  rw [hlease] at hactive ⊢
  exact h hactive

/-- An event is emitted after some other fields of the lease have been set. -/
theorem keeps_emit (a b : Lease) (event : StateEvent) (sent : Bool) (hactive : b.active = a.active)
    (hhold : b.hold = a.hold) : Keeps a (leaseEmit b event sent).1 :=
  (Keeps.of_eq hactive hhold).leaseEmit event sent

theorem Keeps.trans {a b c : Lease} (hab : Keeps a b) (hbc : Keeps b c) : Keeps a c := by
  intro hactive
  obtain ⟨hb, hhold⟩ := hbc hactive
  obtain ⟨ha, hhold'⟩ := hab hb
  exact ⟨ha, hhold.trans hhold'⟩

theorem stateWindowApply_keeps (lease : Lease) (event : StateEvent) (sent : Bool) :
    Keeps lease (stateWindowApply lease event sent).1 := by
  unfold stateWindowApply
  split
  · exact keeps_emit lease _ _ _ rfl rfl
  · split_ifs
    · exact .of_eq rfl rfl
    · exact keeps_emit lease _ _ _ rfl rfl
  · split_ifs
    · exact .of_eq rfl rfl
    · rw [applyItem_eq]
      simp only
      split_ifs
      · exact keeps_emit lease _ _ _ rfl rfl
      · exact .of_eq rfl rfl
  · split
    · exact .of_eq rfl rfl
    · exact keeps_emit lease _ _ _ rfl rfl
  · rw [applyUpsert_eq]
    simp only
    split_ifs
    · exact .of_eq rfl rfl
    · exact keeps_emit lease _ _ _ rfl rfl
    · exact .of_eq rfl rfl

theorem sourceApply_keeps (lease : Lease) (frame : Frame) (sent : Bool) :
    Keeps lease (sourceApply lease frame sent) := by
  unfold sourceApply
  split
  · unfold applySource
    split_ifs
    · exact .of_eq rfl rfl
    · exact stateWindowApply_keeps _ _ _
    · exact keeps_emit lease _ _ _ rfl rfl
    · exact keeps_emit lease _ _ _ rfl rfl
  · exact .of_eq rfl rfl

theorem sourceLost_keeps (lease : Lease) (lane : Fin 3) (sent : StateDomain → Bool) :
    Keeps lease (sourceLost lease lane sent) := by
  unfold sourceLost
  induction laneDomains lane generalizing lease with
  | nil => exact .of_eq rfl rfl
  | cons domain domains ih =>
    have hreset : Keeps lease (resetDomain sent lease domain) := by
      unfold resetDomain
      split_ifs
      · exact keeps_emit lease _ _ _ rfl rfl
      · exact .of_eq rfl rfl
    exact hreset.trans (ih _)

theorem LeaseWork.apply_keeps (work : LeaseWork) (lease : Lease) : Keeps lease (work.apply lease) := by
  cases work with
  | source frame sent => exact sourceApply_keeps lease frame sent
  | sourceLost lane sent => exact sourceLost_keeps lease lane sent
  | subscribe domains => exact .of_eq rfl rfl
  | sendGrants sent => exact ((keeps_emit lease lease _ _ rfl rfl).leaseEmit _ _).leaseEmit _ _
  | close => exact fun h => by cases h

theorem sessionRefresh_hold {lease : Lease} {session : Session} {forceIdentity notify : Bool} {a : Answers}
    (hactive : (sessionRefresh lease session forceIdentity notify a).lease.active) :
    lease.active ∧ (sessionRefresh lease session forceIdentity notify a).lease.hold =
      (lease.identity, lease.requestedScopes, (refreshReading lease forceIdentity a).granted,
        (refreshReading lease forceIdentity a).generation) := by
  unfold sessionRefresh at hactive ⊢
  generalize refreshReading lease forceIdentity a = r at hactive ⊢
  simp only at hactive ⊢
  split_ifs at hactive ⊢
  · have hannounce := leaseEmit_of_active hactive
    unfold announce at hactive ⊢
    rw [hannounce] at hactive ⊢
    exact ⟨hactive, rfl⟩
  · exact ⟨hactive, rfl⟩

theorem completeAuthorization_hold {lease : Lease} {session : Session} {requested : Scopes} {status : Status}
    {a : Answers} (hactive : (completeAuthorization lease session requested status a).lease.active) :
    let asked := { lease with requestedScopes := lease.requestedScopes ||| session.requestedScopes }
    (completeReading asked a).ok ∧ (completeAuthorization lease session requested status a).lease.hold =
      (asked.identity, asked.requestedScopes, (completeReading asked a).granted,
        (completeReading asked a).generation) := by
  unfold completeAuthorization at hactive ⊢
  simp only at hactive ⊢
  generalize completeReading _ a = r at hactive ⊢
  generalize hupdated : Lease.dropDomains _ _ = updated at hactive ⊢
  have hhold : updated.hold = (lease.identity, lease.requestedScopes ||| session.requestedScopes, r.granted,
      r.generation) := by
    rw [← hupdated]
    rfl
  cases hok : r.ok with
  | false => simp [hok] at hactive
  | true =>
    simp only [hok, if_true] at hactive ⊢
    refine ⟨trivial, ?_⟩
    rw [← hhold]
    split_ifs at hactive ⊢
    · unfold announce at hactive ⊢
      rw [leaseEmit_of_active hactive]
      rfl
    · rfl

end Hold

section Sound

variable {store : Store} {lease : Lease} {a : Answers} {failure : Option (Scopes × ℕ)}

/-- The store stands behind what a lease holds. -/
def Lease.Backed (lease : Lease) (store : Store) : Prop :=
  store.Backs lease.identity.hash lease.requestedScopes lease.grantedScopes lease.generation

theorem Lease.Backed.of_hold {b : Lease} {identity : Identity} {requested granted : Scopes} {generation : ℕ}
    (hhold : b.hold = (identity, requested, granted, generation))
    (h : store.Backs identity.hash requested granted generation) : b.Backed store := by
  cases hhold
  exact h

theorem refreshReading_backs (h : lease.Backed store) (forceIdentity : Bool)
    (hcheck : a.check = store.checkReply lease.identity.hash lease.requestedScopes failure) :
    store.Backs lease.identity.hash lease.requestedScopes (refreshReading lease forceIdentity a).granted
      (refreshReading lease forceIdentity a).generation := by
  unfold refreshReading
  generalize (if lease.active then a.generation.generation else lease.generation) = generation
  generalize (lease.active && a.generation.ok && (!forceIdentity || verifies lease.identity a.verified)) = ok
  simp only
  split_ifs with hread hcheckOk hok
  · simp only [Bool.and_eq_true, bne_iff_ne, ne_eq] at hread
    rw [hcheck] at hcheckOk ⊢
    exact Store.backs_checkReply hread.2 hcheckOk
  · exact Store.backs_zero ..
  · by_cases hsame : generation = lease.generation
    · rw [hsame]
      exact h
    · have hunasked : lease.requestedScopes = 0 := by
        by_contra hrequested
        exact hread (by simpa [hok, hsame] using hrequested)
      rw [h.unasked hunasked]
      exact Store.backs_zero ..
  · exact Store.backs_zero ..

theorem completeReading_backs (hok : (completeReading lease a).ok)
    (hcheck : a.check = store.checkReply lease.identity.hash lease.requestedScopes failure) :
    store.Backs lease.identity.hash lease.requestedScopes (completeReading lease a).granted
      (completeReading lease a).generation := by
  unfold completeReading at hok ⊢
  split_ifs at hok ⊢ with hcurrent hnone
  · exact Store.backs_zero ..
  · rw [hcheck] at hok ⊢
    exact Store.backs_checkReply (by simpa using hnone) hok

/-- Before there is a lease: a session that asks asks for something, and what a lease would
take over is answered for. -/
structure Owner (store : Store) (session : Session) (state : Authorizing) : Prop where
  asks : state.asking → session.requestedScopes ≠ 0
  backed : state.mayCreate →
    store.Backs session.identity.hash session.requestedScopes session.grantedScopes session.generation

theorem Owner.change {session : Session} {state : Authorizing} (h : Owner store session state) (skip : ℕ)
    (grants : Grants) : Owner (store.change skip grants) session state :=
  ⟨h.asks, fun hcreate => (h.backed hcreate).change skip grants⟩

theorem Owner.advance {session : Session} {state : Authorizing} {action : AuthorizeStep}
    {after : Store × Session × Authorizing} (h : Owner store session state)
    (hadvance : Advance store session state action after) : Owner after.1 after.2.1 after.2.2 := by
  cases hadvance with
  | stays => exact h
  | @starts requested mode _ hrequested =>
    refine ⟨?_, by simp [Authorizing.mayCreate]⟩
    intro _ hzero
    exact hrequested (BitVec.or_eq_zero_iff.mp hzero).2
  | refused hstatus =>
    refine ⟨by simp [Authorizing.asking], ?_⟩
    intro hcreate
    exact absurd (by simpa [Authorizing.mayCreate] using hcreate) hstatus
  | granted failure hasking _ hok =>
    exact ⟨by simp [Authorizing.asking], fun _ => Store.backs_checkReply (h.asks hasking) hok⟩
  | @proceeds session' state' hasking hasking' hrequested =>
    refine ⟨fun _ => by rw [hrequested]; exact h.asks hasking, ?_⟩
    intro hcreate
    cases state' <;> simp [Authorizing.asking, Authorizing.mayCreate] at hasking' hcreate
  | prompts hstate hrequested =>
    refine ⟨?_, by simp [Authorizing.mayCreate]⟩
    intro _
    rw [hrequested]
    exact h.asks (by rw [hstate]; rfl)
  | added grants hstate =>
    refine ⟨?_, by simp [Authorizing.mayCreate]⟩
    intro _
    exact h.asks (by rw [hstate]; rfl)

/-- The store stands behind the lease, and behind the session that is going to create it. -/
structure World.Sound (w : World) : Prop where
  lease : ∀ lease, w.lease = some lease → lease.active → lease.Backed w.store
  owner : w.lease = none → Owner w.store (w.sessions 0) w.authorizing

/-- Where everything starts: a session that has asked for nothing yet. -/
structure World.Initial (w : World) : Prop where
  lease : w.lease = none
  held : w.held = none
  authorizing : w.authorizing = .idle
  requested : (w.sessions 0).requestedScopes = 0
  granted : (w.sessions 0).grantedScopes = 0

theorem World.Initial.sound {w : World} (h : w.Initial) : w.Sound := by
  refine ⟨fun lease hlease => ?_, fun _ => ?_⟩
  · rw [h.lease] at hlease
    cases hlease
  · rw [h.authorizing]
    refine ⟨by simp [Authorizing.asking], fun _ => ?_⟩
    rw [h.granted]
    exact Store.backs_zero ..

theorem World.sound_leave {w : World} (h : w.Sound) (verified : Option Identity)
    (failure : Option (Scopes × ℕ)) (sent : Bool) : (w.leave verified failure sent).Sound := by
  unfold World.leave
  split
  · next lease v hlease hheld =>
    split
    · refine ⟨?_, by simp [World.leaveRefresh, World.setSession]⟩
      intro after hafter hactive
      simp only [World.leaveRefresh, World.setSession, Option.some.injEq] at hafter
      subst hafter
      obtain ⟨hbefore, hhold⟩ := sessionRefresh_hold hactive
      exact .of_hold hhold (refreshReading_backs (h.lease lease hlease hbefore) _ rfl)
    · refine ⟨?_, by simp [World.leaveComplete, World.setSession]⟩
      intro after hafter hactive
      simp only [World.leaveComplete, World.setSession, Option.some.injEq] at hafter
      subst hafter
      obtain ⟨hok, hhold⟩ := completeAuthorization_hold hactive
      exact .of_hold hhold (completeReading_backs hok rfl)
    · exact h
  · exact h

theorem World.Sound.step {w : World} (h : w.Sound) (action : Action) : (w.step action).Sound := by
  cases action with
  | storeChange skip grants =>
    refine ⟨fun lease hlease hactive => ?_, fun hnone => (h.owner hnone).change skip grants⟩
    exact (h.lease lease hlease hactive).change skip grants
  | authorize action =>
    simp only [World.step]
    split_ifs
    · exact h
    · have hadvance := authorizeScopes_advance w.store (w.sessions 0) w.authorizing action
      refine ⟨fun lease hlease hactive => ?_, fun hnone => ?_⟩
      · have hbacked := h.lease lease hlease hactive
        generalize authorizeScopes w.store (w.sessions 0) w.authorizing action = after at hadvance ⊢
        cases hadvance with
        | added grants => exact hbacked.change _ grants
        | _ => exact hbacked
      · have howner := (h.owner hnone).advance hadvance
        simpa [World.setSession] using howner
  | create epoch made =>
    simp only [World.step, World.create]
    split_ifs with hcreate
    · exact h
    · simp only [Bool.or_eq_true, Bool.not_eq_true', not_or, Bool.not_eq_false] at hcreate
      have hbacked := (h.owner (by simpa using hcreate.1)).backed hcreate.2
      refine ⟨?_, by simp⟩
      intro lease hlease _
      simp only [Option.some.injEq] at hlease
      subst hlease
      exact hbacked
    · exact ⟨h.lease, fun _ => ⟨by simp [Authorizing.asking], by simp [Authorizing.mayCreate]⟩⟩
  | enter i forceIdentity notify failure =>
    simp only [World.step, World.enter]
    split_ifs
    · exact h
    · exact ⟨h.lease, h.owner⟩
  | leave verified failure sent => exact sound_leave h verified failure sent
  | work work =>
    simp only [World.step]
    split_ifs
    · exact h
    · refine ⟨?_, ?_⟩
      · intro after hafter hactive
        simp only [Option.map_eq_some_iff] at hafter
        obtain ⟨lease, hlease, rfl⟩ := hafter
        obtain ⟨hbefore, hhold⟩ := work.apply_keeps lease hactive
        exact .of_hold hhold (h.lease lease hlease hbefore)
      · intro hnone
        exact h.owner (by simpa using hnone)

end Sound

section Fence

def Action.starts : Action → Bool
  | .authorize (.start ..) => true
  | _ => false

def Action.grants : Action → Bool
  | .authorize (.grant ..) => true
  | _ => false

/-- The lease's session goes on with the request that it has. -/
def Continues : World → Action → World → Prop :=
  Restrict (fun w action after => w.step action = after) fun _ action => ¬action.starts

theorem completeAuthorization_status (lease : Lease) (session : Session) (requested : Scopes) {status : Status}
    (a : Answers) (h : status ≠ Status.ok) :
    (completeAuthorization lease session requested status a).status = status := by
  simp [completeAuthorization, h]

theorem World.leaveRefresh_authorizing (w : World) (lease : Lease) (v : Hold) (forceIdentity notify : Bool)
    (a : Answers) :
    (w.leaveRefresh lease v forceIdentity notify a).authorizing = w.authorizing ∨
      (w.leaveRefresh lease v forceIdentity notify a).authorizing = .ended := by
  simp only [World.leaveRefresh, World.setSession]
  split_ifs
  · exact .inr rfl
  · exact .inl rfl

theorem World.leaveComplete_authorizing (w : World) (lease : Lease) (v : Hold) (requested : Scopes)
    (status : Status) (detail : BitVec 32) (a : Answers) :
    (w.leaveComplete lease v requested status detail a).authorizing = .ended ∨
      ∃ status', (w.leaveComplete lease v requested status detail a).authorizing =
        .reported requested status' detail ∧ (status ≠ Status.ok → status' ≠ Status.ok) := by
  simp only [World.leaveComplete, World.setSession]
  split_ifs
  · refine .inr ⟨_, rfl, ?_⟩
    intro hstatus
    rwa [completeAuthorization_status _ _ _ _ hstatus]
  · exact .inl rfl

/-- Everything that an action does to the request of the lease's session, where it does not start
a new one. -/
theorem World.step_cases {w after : World} {action : Action} (h : Continues w action after) :
    (after.authorizing = w.authorizing ∧ ¬action.grants) ∨
    (∃ step session session', action = .authorize step ∧ (∀ requested mode, step ≠ .start requested mode) ∧
      Advance w.store session w.authorizing step (after.store, session', after.authorizing)) ∨
    (¬action.grants ∧ (after.authorizing = .ended ∨ after.authorizing = .idle ∨
        ∃ requested status status' detail, w.authorizing = .decided requested status detail ∧
          after.authorizing = .reported requested status' detail ∧
          (status ≠ Status.ok → status' ≠ Status.ok))) := by
  obtain ⟨rfl, hcontinues⟩ := h
  cases action with
  | storeChange skip grants => exact .inl ⟨rfl, by simp [Action.grants]⟩
  | authorize step =>
    refine .inr (.inl ⟨step, w.sessions 0, (w.step (.authorize step)).sessions 0, rfl, ?_, ?_⟩)
    · rintro requested mode rfl
      exact hcontinues rfl
    · simp only [World.step]
      split_ifs
      · exact .stays
      · have hadvance := authorizeScopes_advance w.store (w.sessions 0) w.authorizing step
        simpa [World.setSession] using hadvance
  | create epoch made =>
    simp only [World.step, World.create]
    split_ifs
    · exact .inl ⟨rfl, by simp [Action.grants]⟩
    · exact .inr (.inr ⟨by simp [Action.grants], .inr (.inl rfl)⟩)
    · exact .inr (.inr ⟨by simp [Action.grants], .inl rfl⟩)
  | enter i forceIdentity notify failure =>
    simp only [World.step, World.enter]
    split_ifs <;> exact .inl ⟨rfl, by simp [Action.grants]⟩
  | leave verified failure sent =>
    simp only [World.step, World.leave]
    split
    · next lease v hlease hheld =>
      split
      · next forceIdentity notify hkind =>
        rcases w.leaveRefresh_authorizing lease v forceIdentity notify
          (w.answers lease v lease.requestedScopes verified failure sent) with hsame | hended
        · exact .inl ⟨hsame, by simp [Action.grants]⟩
        · exact .inr (.inr ⟨by simp [Action.grants], .inl hended⟩)
      · next requested status detail hkind hdecided =>
        refine .inr (.inr ⟨by simp [Action.grants], ?_⟩)
        rcases w.leaveComplete_authorizing lease v requested status detail (w.answers lease v
          (lease.requestedScopes ||| (w.sessions v.session).requestedScopes) verified failure sent) with
          hended | ⟨status', hreported, hstatus⟩
        · exact .inl hended
        · exact .inr (.inr ⟨requested, status, status', detail, hdecided, hreported, hstatus⟩)
      · exact .inl ⟨rfl, by simp [Action.grants]⟩
    · exact .inl ⟨rfl, by simp [Action.grants]⟩
  | work work =>
    simp only [World.step]
    split_ifs <;> exact .inl ⟨rfl, by simp [Action.grants]⟩

/-- Every action leaves the store as it is, or takes it to a later generation. -/
theorem World.step_store (w : World) (action : Action) :
    (w.step action).store = w.store ∨ ∃ skip grants, (w.step action).store = w.store.change skip grants := by
  cases action with
  | storeChange skip grants => exact .inr ⟨skip, grants, rfl⟩
  | authorize step =>
    simp only [World.step]
    split_ifs
    · exact .inl rfl
    · have hadvance := authorizeScopes_advance w.store (w.sessions 0) w.authorizing step
      generalize authorizeScopes w.store (w.sessions 0) w.authorizing step = after at hadvance ⊢
      cases hadvance with
      | added grants => exact .inr ⟨_, grants, rfl⟩
      | _ => exact .inl rfl
  | create epoch made =>
    simp only [World.step, World.create]
    split_ifs <;> exact .inl rfl
  | enter i forceIdentity notify failure =>
    simp only [World.step, World.enter]
    split_ifs <;> exact .inl rfl
  | leave verified failure sent =>
    simp only [World.step, World.leave]
    split
    · split <;> exact .inl rfl
    · exact .inl rfl
  | work work =>
    simp only [World.step]
    split_ifs <;> exact .inl rfl

theorem World.generation_le_step (w : World) (action : Action) :
    w.store.generation ≤ (w.step action).store.generation := by
  rcases w.step_store action with hsame | ⟨skip, grants, hchange⟩
  · rw [hsame]
  · rw [hchange, Store.generation_change]
    omega

/-- The prompt of the request, if there was one, was shown at generation `g`. -/
def Prompted (g : ℕ) (state : Authorizing) : Prop :=
  ¬state.early ∧ ∀ generation, state.pending = some generation → generation = g

theorem Prompted.step {g : ℕ} {w after : World} {action : Action} (h : Prompted g w.authorizing)
    (hstep : Continues w action after) : Prompted g after.authorizing := by
  rcases World.step_cases hstep with ⟨hsame, -⟩ | ⟨step, session, session', -, hcontinues, hadvance⟩ |
    ⟨-, hended | hidle | ⟨requested, status, status', detail, -, hreported, -⟩⟩
  · rwa [hsame]
  · generalize after.authorizing = state at hadvance
    generalize after.store = store at hadvance
    cases hadvance with
    | stays => exact h
    | starts hstart => exact absurd hstart (hcontinues _ _)
    | refused => exact ⟨by simp [Authorizing.early], by simp [Authorizing.pending]⟩
    | granted => exact ⟨by simp [Authorizing.early], by simp [Authorizing.pending]⟩
    | proceeds _ _ _ hpending hearly => exact ⟨mt hearly h.1, by rw [hpending]; exact h.2⟩
    | prompts hstate =>
      rw [hstate] at h
      exact absurd rfl h.1
    | added => exact ⟨by simp [Authorizing.early], by simp [Authorizing.pending]⟩
  · rw [hended]
    exact ⟨by decide, by simp [Authorizing.pending]⟩
  · rw [hidle]
    exact ⟨by decide, by simp [Authorizing.pending]⟩
  · rw [hreported]
    exact ⟨by simp [Authorizing.early], by simp [Authorizing.pending]⟩

/-- The request cannot succeed any more: it waits for a grant at a generation that has passed, or
it has already come to something else than success. -/
def Lost (g : ℕ) (w : World) : Prop :=
  (w.authorizing.pending = some g ∧ g < w.store.generation) ∨
    (¬w.authorizing.asking ∧ w.authorizing.status ≠ some Status.ok)

theorem Lost.status_ne_ok {g : ℕ} {w : World} (h : Lost g w) : w.authorizing.status ≠ some Status.ok := by
  rcases h with ⟨hpending, -⟩ | ⟨-, hstatus⟩
  · generalize w.authorizing = state at hpending ⊢
    cases state <;> simp [Authorizing.pending, Authorizing.status] at hpending ⊢
  · exact hstatus

/-- A step of a request that is lost leaves it lost, and the store as it is. -/
theorem Lost.advance {g : ℕ} {w after : World} {step : AuthorizeStep} {session session' : Session}
    (h : Lost g w) (hcontinues : ∀ requested mode, step ≠ .start requested mode)
    (hadvance : Advance w.store session w.authorizing step (after.store, session', after.authorizing)) :
    Lost g after ∧ after.store = w.store := by
  unfold Lost
  generalize after.authorizing = state at hadvance ⊢
  generalize after.store = store at hadvance ⊢
  cases hadvance with
  | stays => exact ⟨h, rfl⟩
  | starts hstart => exact absurd hstart (hcontinues _ _)
  | refused hstatus =>
    refine ⟨.inr ⟨by simp [Authorizing.asking], ?_⟩, rfl⟩
    simpa [Authorizing.status] using hstatus
  | granted _ hasking hpending =>
    rcases h with ⟨hg, -⟩ | ⟨hnot, -⟩
    · rw [hpending] at hg
      cases hg
    · exact absurd hasking hnot
  | proceeds hasking _ _ hpending _ =>
    rcases h with ⟨hg, hlt⟩ | ⟨hnot, -⟩
    · exact ⟨.inl ⟨by rw [hpending]; exact hg, hlt⟩, rfl⟩
    · exact absurd hasking hnot
  | prompts hstate =>
    rw [Lost, hstate] at h
    rcases h with ⟨hg, -⟩ | ⟨hnot, -⟩
    · cases hg
    · exact absurd rfl hnot
  | added grants hstate =>
    rw [Lost, hstate] at h
    rcases h with ⟨hg, hlt⟩ | ⟨hnot, -⟩
    · simp only [Authorizing.pending, Option.some.injEq] at hg
      omega
    · exact absurd rfl hnot

theorem Lost.step {g : ℕ} {w after : World} {action : Action} (h : Lost g w)
    (hstep : Continues w action after) : Lost g after ∧ (action.grants → after.store = w.store) := by
  rcases World.step_cases hstep with ⟨hsame, hgrants⟩ |
    ⟨step, session, session', -, hcontinues, hadvance⟩ |
    ⟨hgrants, hended | hidle | ⟨requested, status, status', detail, hdecided, hreported, hstatus⟩⟩
  · refine ⟨?_, fun h => absurd h hgrants⟩
    have hle := w.generation_le_step action
    rw [hstep.1] at hle
    rw [Lost, hsame]
    exact h.imp_left fun hg => ⟨hg.1, by omega⟩
  · exact (h.advance hcontinues hadvance).imp_right fun hstore _ => hstore
  · refine ⟨.inr ?_, fun h => absurd h hgrants⟩
    rw [hended]
    decide
  · refine ⟨.inr ?_, fun h => absurd h hgrants⟩
    rw [hidle]
    decide
  · refine ⟨.inr ?_, fun h => absurd h hgrants⟩
    rw [Lost, hdecided] at h
    rw [hreported]
    simp only [Authorizing.pending, Authorizing.asking, Authorizing.status] at h ⊢
    simp only [reduceCtorEq, false_and, false_or, not_false_eq_true, true_and, ne_eq, Option.some.injEq] at h ⊢
    simpa using hstatus h

/-- The check before the prompt is the one whose generation the prompt is shown at. -/
theorem World.step_rechecking {w : World} {requested : Scopes} {failure : Option (Scopes × ℕ)}
    (h : w.authorizing = .rechecking requested)
    (hpending : (w.step (.authorize (.check failure))).authorizing.pending.isSome) :
    Prompted w.store.generation (w.step (.authorize (.check failure))).authorizing ∧
      (w.step (.authorize (.check failure))).store = w.store := by
  simp only [World.step] at hpending ⊢
  split_ifs at hpending ⊢
  · rw [h] at hpending
    cases hpending
  · have hadvance := authorizeScopes_advance w.store (w.sessions 0) w.authorizing (.check failure)
    generalize authorizeScopes w.store (w.sessions 0) w.authorizing (.check failure) = after at hadvance hpending ⊢
    simp only [World.setSession] at hpending ⊢
    cases hadvance with
    | stays =>
      rw [h] at hpending
      cases hpending
    | starts hstart => cases hstart
    | refused => cases hpending
    | granted => cases hpending
    | proceeds _ _ _ hsame _ =>
      rw [hsame, h] at hpending
      cases hpending
    | prompts => exact ⟨⟨by simp [Authorizing.early], by simp [Authorizing.pending]⟩, rfl⟩
    | added _ hstate =>
      rw [h] at hstate
      cases hstate

/-- Success is only reported for scopes that the check of `complete_authorization` itself found. -/
theorem completeAuthorization_granted {lease : Lease} {session : Session} {requested : Scopes} {status : Status}
    {a : Answers} (hok : (completeAuthorization lease session requested status a).ok)
    (hstatus : (completeAuthorization lease session requested status a).status = Status.ok) :
    let asked := { lease with requestedScopes := lease.requestedScopes ||| session.requestedScopes }
    (completeReading asked a).ok ∧ (completeReading asked a).granted &&& requested = requested := by
  unfold completeAuthorization at hok hstatus
  simp only at hok hstatus ⊢
  generalize completeReading _ a = r at hok hstatus ⊢
  refine ⟨(Bool.and_eq_true_iff.mp hok).1, ?_⟩
  split_ifs at hstatus with hrevoked
  · cases hstatus
  · by_contra hmissing
    exact hrevoked (by simp [hstatus, hmissing])

theorem completeReading_granted {lease : Lease} {a : Answers} (store : Store) (failure : Option (Scopes × ℕ))
    (hcheck : a.check = store.checkReply lease.identity.hash lease.requestedScopes failure)
    (hok : (completeReading lease a).ok) (hgranted : (completeReading lease a).granted ≠ 0) :
    (completeReading lease a).granted = store.grants lease.identity.hash lease.requestedScopes := by
  unfold completeReading at hok hgranted ⊢
  split_ifs at hok hgranted ⊢
  · exact absurd rfl hgranted
  · rw [hcheck] at hok ⊢
    cases failure with
    | some output => cases hok
    | none => rfl

theorem World.leave_reported {w : World} {lease : Lease} {v : Hold} {requested : Scopes} {status : Status}
    {detail : BitVec 32} {verified : Option Identity} {failure : Option (Scopes × ℕ)} {sent : Bool}
    (hlease : w.lease = some lease) (hheld : w.held = some v) (hkind : v.kind = .complete)
    (hdecided : w.authorizing = .decided requested status detail)
    (hreported : (w.step (.leave verified failure sent)).authorizing = .reported requested Status.ok detail) :
    requested &&& w.store.grants lease.identity.hash
      (lease.requestedScopes ||| (w.sessions v.session).requestedScopes) = requested := by
  simp only [World.step, World.leave, hlease, hheld, hkind, hdecided, World.leaveComplete,
    World.setSession] at hreported
  generalize ha : w.answers lease v _ verified failure sent = a at hreported
  have hcheck : a.check = w.store.checkReply lease.identity.hash
      (lease.requestedScopes ||| (w.sessions v.session).requestedScopes) failure := by rw [← ha]; rfl
  split_ifs at hreported with hok
  simp only [Authorizing.reported.injEq, true_and, and_true] at hreported
  obtain ⟨hread, hcovers⟩ := completeAuthorization_granted hok hreported
  by_cases hzero : requested = 0
  · simp [hzero]
  · have hgranted : (completeReading { lease with
        requestedScopes := lease.requestedScopes ||| (w.sessions v.session).requestedScopes } a).granted ≠ 0 := by
      intro hnone
      rw [hnone] at hcovers
      exact hzero (by simpa using hcovers.symm)
    rw [completeReading_granted w.store failure hcheck hread hgranted] at hcovers
    rw [BitVec.and_comm]
    exact hcovers

/-- Late approvals are fenced. (1) Once the store has moved on from the generation that the last
check before a prompt has read, the grant of the prompt is not made and the request does not end
in success. (2) Success is only reported for scopes that the check inside `complete_authorization`
has found. (3) What an active lease grants is what the store answered at the generation that the
lease holds. -/
theorem authorization_fenced {w₀ w : World} {actions : List Action} (hinitial : w₀.Initial)
    (hrun : Run (fun w action after => w.step action = after) w₀ actions w) :
    (∀ requested failure, w.authorizing = .rechecking requested →
      (w.step (.authorize (.check failure))).authorizing.pending.isSome →
      ∀ before v after t, Run Continues (w.step (.authorize (.check failure))) before v →
        v.authorizing.pending.isSome → v.store.generation ≠ w.store.generation → Run Continues v after t →
        Run (fun s action t => Continues s action t ∧ (action.grants → t.store = s.store)) v after t ∧
          t.authorizing.status ≠ some Status.ok) ∧
    (∀ lease v requested status detail verified failure sent, w.lease = some lease → w.held = some v →
      v.kind = .complete → w.authorizing = .decided requested status detail →
      (w.step (.leave verified failure sent)).authorizing = .reported requested Status.ok detail →
      requested &&& w.store.grants lease.identity.hash
        (lease.requestedScopes ||| (w.sessions v.session).requestedScopes) = requested) ∧
    (∀ lease, w.lease = some lease → lease.active →
      lease.grantedScopes &&& w.store.history lease.generation lease.identity.hash lease.requestedScopes =
        lease.grantedScopes) := by
  have hsound : w.Sound := by
    apply hrun.invariant (I := World.Sound) _ hinitial.sound
    intro s action t hs hstep
    rw [← hstep]
    exact hs.step action
  refine ⟨?_, ?_, ?_⟩
  · intro requested failure hrechecking hprompts before v after t hbefore hpending hmoved hafter
    obtain ⟨hprompted, hstore⟩ := World.step_rechecking hrechecking hprompts
    have hpromptedv : Prompted w.store.generation v.authorizing :=
      hbefore.invariant (I := fun w' => Prompted w.store.generation w'.authorizing)
        (fun _ _ _ h hstep => h.step hstep) hprompted
    have hle : w.store.generation ≤ v.store.generation := by
      rw [← hstore]
      apply hbefore.monotone (m := fun w => w.store.generation)
      intro s action t hstep
      rw [← hstep.1]
      exact s.generation_le_step action
    have hlost : Lost w.store.generation v := by
      obtain ⟨g, hg⟩ := Option.isSome_iff_exists.mp hpending
      exact .inl ⟨by rw [hg, hpromptedv.2 g hg], by omega⟩
    have hstep : ∀ s action t, Lost w.store.generation s → Continues s action t →
        Lost w.store.generation t := fun _ _ _ h hstep => (h.step hstep).1
    refine ⟨hafter.strengthen hstep (fun _ _ _ h hstep => (h.step hstep).2) hlost, ?_⟩
    exact (hafter.invariant hstep hlost).status_ne_ok
  · intro lease v requested status detail verified failure sent hlease hheld hkind hdecided hreported
    exact World.leave_reported hlease hheld hkind hdecided hreported
  · intro lease hlease hactive
    by_cases hgranted : lease.grantedScopes = 0
    · simp [hgranted]
    · exact ((hsound.lease lease hlease hactive).answered hgranted).2

def clientIdentity : Identity := ⟨1000, 4242, 77, []⟩

/-- A client that has just connected, with what the store grants at its start. -/
def newWorld (grants : Grants) : World where
  store := ⟨5, fun _ => grants⟩
  lease := none
  sessions := fun i => ⟨if i = 0 then .authorizationLease else .rpc, clientIdentity, 0, 0, 0⟩
  authorizing := .idle
  held := none

theorem newWorld_initial (grants : Grants) : (newWorld grants).Initial := ⟨rfl, rfl, rfl, rfl, rfl⟩

/-- The client asks for window monitoring, and is about to be checked again before the prompt. -/
def askingActions : List Action :=
  [.create 1 true, .authorize (.start Scope.windowMonitoring authRequest), .authorize (.check none),
    .authorize (.lock true false (some clientIdentity))]

/-- Another program is granted something while the prompt is open, and then the user agrees. -/
def promptActions : List Action :=
  [.storeChange 0 (fun _ _ => 0), .authorize (.prompt .granted (some clientIdentity))]

def lateActions : List Action :=
  [.authorize (.grant true 0), .enter 0 true true none, .leave (some clientIdentity) none true]

theorem lateApproval_fenced :
    let w := askingActions.foldl World.step (newWorld fun _ _ => 0)
    let v := promptActions.foldl World.step (w.step (.authorize (.check none)))
    let t := lateActions.foldl World.step v
    t.authorizing = .reported Scope.windowMonitoring Status.revoked 0 ∧
      t.authorizing.status ≠ some Status.ok := by
  intro w v t
  have hfenced := authorization_fenced (newWorld_initial fun _ _ => 0)
    (Run.foldl World.step (newWorld fun _ _ => 0) askingActions)
  have hbefore : Run Continues (w.step (.authorize (.check none))) promptActions v :=
    Run.of_admitted (by simp [promptActions, Admitted, Action.starts])
  have hafter : Run Continues v lateActions t :=
    Run.of_admitted (by simp [lateActions, Admitted, Action.starts])
  refine ⟨by decide +kernel, (hfenced.1 Scope.windowMonitoring none (by decide +kernel) (by decide +kernel)
    promptActions v lateActions t hbefore (by decide +kernel) (by decide +kernel) hafter).2⟩

end Fence

end KeysharpDesktop
