import KeysharpDesktop.Authority.Lease
import KeysharpDesktop.Lib.Transition

/-! The sessions of one lease, taking turns at its mutex: whether every change of the granted
mask is reported, and whether what is subscribed is always permitted. -/
namespace KeysharpDesktop

open Transition

section System

/-- What a session that subscribes has still to do, between two holds of the mutex. -/
inductive Subscribing
  | permitted (domains : Domains)
  | answered (domains : Domains)
  deriving DecidableEq, Repr

structure LeaseSystem where
  lease : Lease
  sessions : ℕ → Session
  subscribing : ℕ → Option Subscribing

/-- One hold of the mutex by session `i`, or a step of its own between two holds. -/
inductive LeaseCall
  | refresh (i : ℕ) (forceIdentity notify : Bool) (a : Answers)
  | authorizeScopes (i : ℕ) (requested granted : Scopes) (generation : ℕ)
  | completeAuthorization (i : ℕ) (requested : Scopes) (status : Status) (a : Answers)
  | subscribe (i : ℕ) (domains : Domains) (a : Answers)
  | setDomains (i : ℕ)
  | sendGrants (i : ℕ) (sent : Bool × Bool × Bool)

namespace LeaseSystem

def setSession (s : LeaseSystem) (i : ℕ) (session : Session) : LeaseSystem :=
  { s with sessions := Function.update s.sessions i session }

def setSubscribing (s : LeaseSystem) (i : ℕ) (state : Option Subscribing) : LeaseSystem :=
  { s with subscribing := Function.update s.subscribing i state }

end LeaseSystem

/-- The mask covers the domains that are asked for. -/
def Scopes.covers (granted : Scopes) (domains : Domains) : Bool :=
  !(domains &&& StateDomain.windows.mask != 0 && granted &&& Scope.windowMonitoring == 0) &&
    !(domains &&& StateDomain.clipboard.mask != 0 && granted &&& Scope.clipboardMonitoring == 0)

/-- `handle_state_subscribe` up to its answer to the client's permission: the refresh, and the
check of the session's own copy of the mask. -/
def subscribeCheck (s : LeaseSystem) (i : ℕ) (domains : Domains) (a : Answers) : LeaseSystem :=
  if (s.sessions i).role ≠ .authorizationLease ∨ domains &&& ~~~stateAll ≠ 0 then s
  else
    let r := sessionRefresh s.lease (s.sessions i) true true a
    let s := { s with lease := r.lease }.setSession i r.session
    if r.ok && r.session.grantedScopes.covers domains then s.setSubscribing i (some (.permitted domains)) else s

/-- Its second hold of the mutex, which no longer looks at the mask. -/
def subscribeSet (lease : Lease) (domains : Domains) : Lease :=
  { lease with domains, snapshotPending := domains &&& StateDomain.windows.mask != 0 }

/-- The snapshot of the mask that answers a subscription to the grants domain. -/
def grantsSnapshot (lease : Lease) (sent : Bool × Bool × Bool) : Lease :=
  let event := { stateEventInit .snapshotBegin .grants with grantedScopes := lease.grantedScopes }
  let lease := (leaseEmit lease event sent.1).1
  let lease := (leaseEmit lease { event with kind := .snapshotItem } sent.2.1).1
  (leaseEmit lease { event with kind := .snapshotEnd } sent.2.2).1

def leaseStep (s : LeaseSystem) : LeaseCall → LeaseSystem
  | .refresh i forceIdentity notify a =>
    if (s.subscribing i).isSome then s
    else
      let r := sessionRefresh s.lease (s.sessions i) forceIdentity notify a
      { s with lease := r.lease }.setSession i r.session
  | .authorizeScopes i requested granted generation =>
    if (s.subscribing i).isSome then s
    else s.setSession i { s.sessions i with
      requestedScopes := (s.sessions i).requestedScopes ||| requested
      grantedScopes := granted, generation }
  | .completeAuthorization i requested status a =>
    if (s.subscribing i).isSome then s
    else
      let r := completeAuthorization s.lease (s.sessions i) requested status a
      { s with lease := r.lease }.setSession i r.session
  | .subscribe i domains a => if (s.subscribing i).isSome then s else subscribeCheck s i domains a
  | .setDomains i =>
    match s.subscribing i with
    | some (.permitted domains) =>
      { s with lease := subscribeSet s.lease domains }.setSubscribing i (some (.answered domains))
    | _ => s
  | .sendGrants i sent =>
    match s.subscribing i with
    | some (.answered domains) =>
      let lease := if domains &&& StateDomain.grants.mask != 0 then grantsSnapshot s.lease sent else s.lease
      { s with lease }.setSubscribing i none
    | _ => s

/-- The session is elsewhere in its program, so that the call does not take place. -/
def LeaseCall.Idle (s : LeaseSystem) : LeaseCall → Prop
  | .refresh i .. => s.subscribing i ≠ none
  | .setDomains i => ∀ domains, s.subscribing i ≠ some (.permitted domains)
  | _ => True

/-- What a call does to the lease: everything it can do, and nothing else. -/
inductive Visit (s : LeaseSystem) : LeaseCall → Lease → Prop
  | none {call : LeaseCall} : call.Idle s → Visit s call s.lease
  | refresh {i : ℕ} {forceIdentity notify : Bool} {a : Answers} : s.subscribing i = Option.none →
      Visit s (.refresh i forceIdentity notify a)
        (sessionRefresh s.lease (s.sessions i) forceIdentity notify a).lease
  | complete {i : ℕ} {requested : Scopes} {status : Status} {a : Answers} :
      Visit s (.completeAuthorization i requested status a)
        (completeAuthorization s.lease (s.sessions i) requested status a).lease
  | subscribe {i : ℕ} {domains : Domains} {a : Answers} :
      Visit s (.subscribe i domains a) (sessionRefresh s.lease (s.sessions i) true true a).lease
  | set {i : ℕ} {domains : Domains} : s.subscribing i = some (.permitted domains) →
      Visit s (.setDomains i) (subscribeSet s.lease domains)
  | snapshot {i : ℕ} {sent : Bool × Bool × Bool} :
      Visit s (.sendGrants i sent) (grantsSnapshot s.lease sent)

theorem leaseStep_visit (s : LeaseSystem) (call : LeaseCall) : Visit s call (leaseStep s call).lease := by
  cases call with
  | refresh i forceIdentity notify a =>
    simp only [leaseStep]
    split_ifs with hbusy
    · exact .none (Option.isSome_iff_ne_none.mp hbusy)
    · exact .refresh (by simpa using hbusy)
  | authorizeScopes i requested granted generation =>
    simp only [leaseStep]
    split_ifs <;> exact .none trivial
  | completeAuthorization i requested status a =>
    simp only [leaseStep]
    split_ifs
    · exact .none trivial
    · exact .complete
  | subscribe i domains a =>
    simp only [leaseStep, subscribeCheck]
    split_ifs
    · exact .none trivial
    · exact .none trivial
    all_goals exact .subscribe
  | setDomains i =>
    simp only [leaseStep]
    split
    · next domains hstate => exact .set hstate
    · next hother => exact .none hother
  | sendGrants i sent =>
    simp only [leaseStep]
    split
    · split_ifs
      · exact .snapshot
      · exact .none trivial
    · exact .none trivial

/-- Every write to the client's socket during the call succeeds. -/
def LeaseCall.sent : LeaseCall → Bool
  | .refresh _ _ _ a | .completeAuthorization _ _ _ a | .subscribe _ _ a => a.sent
  | .authorizeScopes .. | .setDomains _ => true
  | .sendGrants _ sent => sent.1 && sent.2.1 && sent.2.2

/-- The mask that the answers of a refresh amount to. -/
def Answers.mask (a : Answers) (lease : Lease) (forceIdentity : Bool) : Scopes :=
  if a.generation.ok ∧ (forceIdentity → verifies lease.identity a.verified) then
    if a.generation.generation = lease.generation ∨ lease.requestedScopes = 0 then lease.grantedScopes
    else if a.check.ok then a.check.granted else 0
  else 0

theorem refreshReading_granted {lease : Lease} (h : lease.active) (forceIdentity : Bool) (a : Answers) :
    (refreshReading lease forceIdentity a).granted = a.mask lease forceIdentity := by
  have hforce : (a.generation.ok && (!forceIdentity || verifies lease.identity a.verified)) = true ↔
      a.generation.ok ∧ (forceIdentity → verifies lease.identity a.verified) := by
    cases a.generation.ok <;> cases forceIdentity <;> simp
  unfold refreshReading Answers.mask
  simp only [h, Bool.true_and, if_true, ← hforce]
  cases a.generation.ok && (!forceIdentity || verifies lease.identity a.verified) with
  | false => rfl
  | true =>
    by_cases hgeneration : a.generation.generation = lease.generation
    · simp [hgeneration]
    · by_cases hrequested : lease.requestedScopes = 0#32
      · simp [hrequested]
      · simp [hgeneration, hrequested]

end System

section Reports

def grantReports (events : List StateEvent) : List StateEvent := events.filter fun e => e.kind = .grantChanged

/-- A change of the mask comes with one report that carries it, under the next number; where
the mask does not change, nothing is reported. -/
def Reported (before after : Lease) : Prop :=
  if after.grantedScopes = before.grantedScopes then
    grantReports after.emitted = grantReports before.emitted ∧
      after.sequences .grants = before.sequences .grants
  else ∃ e, after.emitted = before.emitted ++ [e] ∧ e.kind = .grantChanged ∧ e.domain = .grants ∧
    e.grantedScopes = after.grantedScopes ∧
    e.revokedScopes = before.grantedScopes &&& ~~~after.grantedScopes ∧
    e.sequence = before.sequences .grants + 1 ∧ after.sequences .grants = before.sequences .grants + 1

/-- The mask as the reports of a stream leave it. -/
def reportedMask (start : Scopes) (events : List StateEvent) : Scopes :=
  events.foldl (fun mask e => if e.kind = .grantChanged then e.grantedScopes else mask) start

theorem Reported.of_same {before after : Lease} (hgranted : after.grantedScopes = before.grantedScopes)
    (hemitted : after.emitted = before.emitted) (hsequences : after.sequences = before.sequences) :
    Reported before after := by
  rw [Reported, if_pos hgranted, hemitted, hsequences]
  exact ⟨rfl, rfl⟩

theorem Reported.of_announce (before updated : Lease) {after : Lease} {granted : Scopes}
    (hactive : updated.active)
    (hemitted : updated.emitted = before.emitted) (hsequences : updated.sequences = before.sequences)
    (hne : granted ≠ before.grantedScopes) (hgranted : after.grantedScopes = granted)
    (hafter : after.emitted =
      (announce updated granted (before.grantedScopes &&& ~~~granted) true).1.emitted)
    (hnumbers : after.sequences =
      (announce updated granted (before.grantedScopes &&& ~~~granted) true).1.sequences) :
    Reported before after := by
  rw [announce_sent _ hactive] at hafter hnumbers
  have hnext : (updated.bump .grants).sequences .grants = before.sequences .grants + 1 := by
    rw [Lease.bump_sequences_self, hsequences]
  rw [Reported, if_neg (by rwa [hgranted]), hgranted]
  refine ⟨_, by rw [hafter, hemitted], rfl, rfl, rfl, rfl, hnext, ?_⟩
  rw [hnumbers]
  exact hnext

theorem sessionRefresh_reported {lease : Lease} (session : Session) (forceIdentity : Bool) {a : Answers}
    (hactive : lease.active) (hsent : a.sent) :
    Reported lease (sessionRefresh lease session forceIdentity true a).lease := by
  unfold sessionRefresh
  generalize refreshReading lease forceIdentity a = r
  simp only [hsent, Bool.and_true]
  split_ifs with hchanged
  · have hkept := announce_sent (lease.regrant r.granted r.generation) hactive r.granted
      (lease.grantedScopes &&& ~~~r.granted)
    refine Reported.of_announce lease (lease.regrant r.granted r.generation) hactive rfl rfl ?_ ?_ rfl rfl
    · intro h
      simp [h] at hchanged
    · rw [hkept]
      rfl
  · have hsame : r.granted = lease.grantedScopes := by
      symm
      simpa using hchanged
    exact Reported.of_same hsame rfl rfl

theorem completeAuthorization_reported {lease : Lease} (session : Session) (requested : Scopes)
    (status : Status) {a : Answers} (hactive : lease.active) (hsent : a.sent) :
    Reported lease (completeAuthorization lease session requested status a).lease := by
  unfold completeAuthorization
  simp only [hsent]
  generalize completeReading _ a = r
  generalize hupdated : Lease.dropDomains _ _ = updated
  have hsame : updated.active ∧ updated.emitted = lease.emitted ∧ updated.sequences = lease.sequences ∧
      updated.grantedScopes = r.granted := by
    rw [← hupdated]
    exact ⟨hactive, rfl, rfl, rfl⟩
  obtain ⟨hupdatedActive, hemitted, hsequences, hgranted⟩ := hsame
  by_cases hchanged : r.granted = lease.grantedScopes
  · simp only [hchanged, bne_self_eq_false, Bool.false_eq_true, if_false]
    split_ifs <;> exact Reported.of_same (hgranted.trans hchanged) hemitted hsequences
  · have hne : (lease.grantedScopes != r.granted) = true := by simpa using Ne.symm hchanged
    have hkept := announce_sent updated hupdatedActive r.granted (lease.grantedScopes &&& ~~~r.granted)
    have hafter : (announce updated r.granted (lease.grantedScopes &&& ~~~r.granted) true).1.grantedScopes =
        r.granted := by
      rw [hkept]
      exact hgranted
    simp only [hne, if_true]
    split_ifs <;>
      exact Reported.of_announce lease updated hupdatedActive hemitted hsequences hchanged hafter rfl rfl

/-- Without a report, the mask must be as it was. -/
theorem sessionRefresh_silent_reported_iff {lease : Lease} (session : Session) (forceIdentity : Bool)
    (a : Answers) (hactive : lease.active) :
    Reported lease (sessionRefresh lease session forceIdentity false a).lease ↔
      a.mask lease forceIdentity = lease.grantedScopes := by
  rw [← refreshReading_granted hactive]
  unfold sessionRefresh
  generalize refreshReading lease forceIdentity a = r
  simp only [Bool.and_false, Bool.false_eq_true, if_false]
  constructor
  · intro h
    by_contra hne
    unfold Reported at h
    split_ifs at h with hsame
    · exact hne hsame
    · obtain ⟨e, hemitted, -⟩ := h
      have := congrArg List.length hemitted
      simp [Lease.regrant] at this
  · intro h
    exact Reported.of_same h rfl rfl

theorem grantsSnapshot_sent {lease : Lease} (hactive : lease.active) :
    ∃ news, grantsSnapshot lease (true, true, true) = { lease with emitted := lease.emitted ++ news } ∧
      ∀ e ∈ news, e.kind.isSnapshot ∧ e.domain = .grants := by
  simp only [grantsSnapshot, stateEventInit, leaseEmit_sent, emittable_of_empty, hactive, List.append_assoc]
  refine ⟨_, rfl, ?_⟩
  simp [Lease.stamp, StateKind.isSnapshot]

theorem grantsSnapshot_reported {lease : Lease} (hactive : lease.active) :
    Reported lease (grantsSnapshot lease (true, true, true)) := by
  obtain ⟨news, hlease, hnews⟩ := grantsSnapshot_sent hactive
  rw [hlease, Reported, if_pos rfl]
  refine ⟨?_, rfl⟩
  have hnone : grantReports news = [] := by
    rw [grantReports, List.filter_eq_nil_iff]
    intro e he hkind
    have hsnapshot := (hnews e he).1
    rw [of_decide_eq_true hkind] at hsnapshot
    cases hsnapshot
  have hsplit : grantReports (lease.emitted ++ news) = grantReports lease.emitted ++ grantReports news :=
    List.filter_append ..
  rw [hsplit, hnone, List.append_nil]

/-- A call during which the socket takes every write. -/
def SentStep (s : LeaseSystem) (call : LeaseCall) (t : LeaseSystem) : Prop := leaseStep s call = t ∧ call.sent

/-- A refresh that does not notify, as the one of a new RPC session, finds the mask as the lease
has it. -/
def SilentKeeps (s : LeaseSystem) : LeaseCall → Prop
  | .refresh i forceIdentity false a => s.subscribing i = none → s.lease.active →
      a.mask s.lease forceIdentity = s.lease.grantedScopes
  | _ => True

theorem leaseStep_reported_iff {s t : LeaseSystem} {call : LeaseCall} (h : SentStep s call t) :
    (s.lease.active → Reported s.lease t.lease) ↔ SilentKeeps s call := by
  obtain ⟨rfl, hsent⟩ := h
  have hvisit := leaseStep_visit s call
  generalize (leaseStep s call).lease = after at hvisit
  cases hvisit with
  | none hidle =>
    have hkeeps : SilentKeeps s call := by
      unfold SilentKeeps
      split
      · intro hfree
        exact absurd hfree hidle
      · trivial
    exact ⟨fun _ => hkeeps, fun _ _ => Reported.of_same rfl rfl rfl⟩
  | @refresh i forceIdentity notify a hfree =>
    cases notify with
    | true => exact ⟨fun _ => trivial, fun _ hactive => sessionRefresh_reported _ _ hactive hsent⟩
    | false =>
      constructor
      · intro h _ hactive
        exact (sessionRefresh_silent_reported_iff _ _ _ hactive).mp (h hactive)
      · intro h hactive
        exact (sessionRefresh_silent_reported_iff _ _ _ hactive).mpr (h hfree hactive)
  | @complete i requested status a =>
    exact ⟨fun _ => trivial, fun _ hactive => completeAuthorization_reported _ requested status hactive hsent⟩
  | subscribe => exact ⟨fun _ => trivial, fun _ hactive => sessionRefresh_reported _ _ hactive hsent⟩
  | set => exact ⟨fun _ => trivial, fun _ _ => Reported.of_same rfl rfl rfl⟩
  | @snapshot i sent =>
    obtain ⟨first, second, third⟩ := sent
    simp only [LeaseCall.sent, Bool.and_eq_true] at hsent
    obtain ⟨⟨rfl, rfl⟩, rfl⟩ := hsent
    exact ⟨fun _ => trivial, fun _ hactive => grantsSnapshot_reported hactive⟩

theorem grantsSnapshot_sameTables (lease : Lease) (sent : Bool × Bool × Bool) :
    SameTables lease (grantsSnapshot lease sent) :=
  ((SameTables.leaseEmit lease _ sent.1 rfl).trans (.leaseEmit _ _ sent.2.1 rfl)).trans
    (.leaseEmit _ _ sent.2.2 rfl)

/-- A lease that is over stays over. -/
theorem leaseStep_active {s : LeaseSystem} {call : LeaseCall} (h : (leaseStep s call).lease.active) :
    s.lease.active := by
  have hvisit := leaseStep_visit s call
  generalize (leaseStep s call).lease = after at hvisit h
  cases hvisit with
  | none => exact h
  | refresh => exact (sessionRefresh_sameTables _ _ _ _ _).active h
  | @complete i requested status a => exact (completeAuthorization_sameTables _ _ requested status _).active h
  | subscribe => exact (sessionRefresh_sameTables _ _ _ _ _).active h
  | set => exact h
  | snapshot => exact (grantsSnapshot_sameTables _ _).active h

theorem reportedMask_grantReports (start : Scopes) (events : List StateEvent) :
    reportedMask start (grantReports events) = reportedMask start events := by
  induction events generalizing start with
  | nil => rfl
  | cons e events ih =>
    by_cases hkind : e.kind = .grantChanged
    · have hcons : grantReports (e :: events) = e :: grantReports events := by simp [grantReports, hkind]
      rw [hcons]
      exact ih _
    · have hcons : grantReports (e :: events) = grantReports events := by simp [grantReports, hkind]
      rw [hcons, ih]
      simp [reportedMask, hkind]

theorem Reported.mask {before after : Lease} {start : Scopes} (h : Reported before after)
    (hbefore : reportedMask start before.emitted = before.grantedScopes) :
    reportedMask start after.emitted = after.grantedScopes := by
  unfold Reported at h
  split_ifs at h with hsame
  · rw [← reportedMask_grantReports, h.1, reportedMask_grantReports, hbefore, hsame]
  · obtain ⟨e, hemitted, hkind, -, hgranted, -⟩ := h
    simp [hemitted, reportedMask, hkind, hgranted]

/-- Every change of the mask is reported throughout a run exactly where no silent refresh of the
run meets a change; in such a run the stream always tells the mask. -/
theorem grantChanges_reported_iff (s t : LeaseSystem) (calls : List LeaseCall) (start : Scopes) :
    (Run (fun s call t => SentStep s call t ∧ (s.lease.active → Reported s.lease t.lease)) s calls t ↔
      Run (Restrict SentStep SilentKeeps) s calls t) ∧
    (reportedMask start s.lease.emitted = s.lease.grantedScopes →
      Run (Restrict SentStep SilentKeeps) s calls t → t.lease.active →
        reportedMask start t.lease.emitted = t.lease.grantedScopes) := by
  constructor
  · exact Run.and_iff_restrict (I := fun _ => True) (fun _ _ _ _ h => leaseStep_reported_iff h)
      (fun _ _ _ _ _ _ => trivial) trivial
  · intro hstart hrun
    have hstep : ∀ s call t, (s.lease.active → reportedMask start s.lease.emitted = s.lease.grantedScopes) →
        Restrict SentStep SilentKeeps s call t →
        (t.lease.active → reportedMask start t.lease.emitted = t.lease.grantedScopes) := by
      intro s call t hs h hactive
      have hbefore : s.lease.active := leaseStep_active (by rwa [h.1.1])
      exact ((leaseStep_reported_iff h.1).mpr h.2 hbefore).mask (hs hbefore)
    exact hrun.invariant hstep fun _ => hstart

/-- The lease session and the RPC sessions bound to its lease. -/
def monitoringSystem : LeaseSystem where
  lease := monitoringLease
  sessions := fun i => if i = 0 then monitoringSession else { monitoringSession with role := .rpc }
  subscribing := fun _ => none

/-- Window monitoring has been revoked in the store since the lease last looked. -/
def revokedAnswers : Answers :=
  ⟨⟨true, 6⟩, some monitoringSession.identity, ⟨true, Scope.clipboardMonitoring, 6⟩, true⟩

/-- A new RPC session takes in the revocation without a report, and the next refresh of the
lease session has nothing left to report. -/
theorem rpcHello_not_reported :
    ∃ t, Run SentStep monitoringSystem
        [.refresh 1 true false revokedAnswers, .refresh 0 true true revokedAnswers] t ∧
      reportedMask 0x84 monitoringSystem.lease.emitted = monitoringSystem.lease.grantedScopes ∧
      t.lease.active ∧ t.lease.grantedScopes = Scope.clipboardMonitoring ∧ t.lease.emitted = [] ∧
      reportedMask 0x84 t.lease.emitted ≠ t.lease.grantedScopes := by
  refine ⟨_, .cons ⟨rfl, rfl⟩ (.cons ⟨rfl, rfl⟩ (.nil _)), ?_, ?_, ?_, ?_, ?_⟩
  all_goals decide

theorem leaseRefresh_reported :
    (leaseStep monitoringSystem (.refresh 0 true true revokedAnswers)).lease.active ∧
      reportedMask 0x84 (leaseStep monitoringSystem (.refresh 0 true true revokedAnswers)).lease.emitted =
        (leaseStep monitoringSystem (.refresh 0 true true revokedAnswers)).lease.grantedScopes := by
  have hactive : (leaseStep monitoringSystem (.refresh 0 true true revokedAnswers)).lease.active := by
    decide +kernel
  exact ⟨hactive, (grantChanges_reported_iff monitoringSystem _ [.refresh 0 true true revokedAnswers] 0x84).2
    (by decide) (.single ⟨⟨rfl, rfl⟩, trivial⟩) hactive⟩

end Reports

section Permission

/-- Every subscribed domain that has a scope has it granted. -/
def Lease.Permitted (lease : Lease) : Prop :=
  ∀ domain, lease.subscribed domain → lease.grantedScopes.monitors domain

instance (lease : Lease) : Decidable lease.Permitted :=
  decidable_of_iff (∀ domain ∈ [StateDomain.windows, .keyboard, .displays, .clipboard, .grants],
    lease.subscribed domain → lease.grantedScopes.monitors domain) (by
      constructor
      · intro h domain
        exact h domain (by cases domain <;> simp)
      · exact fun h domain _ => h domain)

theorem dropDomains_permitted {lease : Lease} (h : lease.Permitted) (granted : Scopes) (generation : ℕ) :
    ((lease.regrant granted generation).dropDomains (lease.grantedScopes &&& ~~~granted)).Permitted := by
  intro domain hsubscribed
  have hdrop := lease.subscribed_dropDomains lease.grantedScopes granted domain
  change (lease.dropDomains (lease.grantedScopes &&& ~~~granted)).subscribed domain = true at hsubscribed
  rw [hdrop, Bool.and_eq_true] at hsubscribed
  have hbefore := h domain hsubscribed.1
  change granted.monitors domain = true
  simpa [hbefore] using hsubscribed.2

theorem announce_permitted {lease : Lease} {granted revoked : Scopes} {sent : Bool}
    (h : (announce lease granted revoked sent).1.active) :
    (announce lease granted revoked sent).1.domains = lease.domains ∧
      (announce lease granted revoked sent).1.grantedScopes = lease.grantedScopes := by
  unfold announce at h ⊢
  rw [leaseEmit_of_active h]
  exact ⟨rfl, rfl⟩

theorem permitted_congr {a b : Lease} (hdomains : b.domains = a.domains)
    (hgranted : b.grantedScopes = a.grantedScopes) : b.Permitted ↔ a.Permitted := by
  unfold Lease.Permitted Lease.subscribed
  rw [hdomains, hgranted]

theorem sessionRefresh_permitted {lease : Lease} {session : Session} {forceIdentity : Bool} {a : Answers}
    (h : lease.Permitted) (hactive : (sessionRefresh lease session forceIdentity true a).lease.active) :
    (sessionRefresh lease session forceIdentity true a).lease.Permitted := by
  unfold sessionRefresh at hactive ⊢
  generalize refreshReading lease forceIdentity a = r at hactive ⊢
  simp only [Bool.and_true] at hactive ⊢
  split_ifs at hactive ⊢ with hchanged
  · obtain ⟨hdomains, hgranted⟩ := announce_permitted hactive
    have hdropped := dropDomains_permitted h r.granted r.generation
    refine (permitted_congr ?_ ?_).mpr hdropped
    · simp only [Lease.dropDomains, hdomains]
    · exact hgranted
  · have hsame : lease.grantedScopes = r.granted := by simpa using hchanged
    exact (permitted_congr (a := lease) (b := lease.regrant r.granted r.generation) rfl hsame.symm).mpr h

theorem completeAuthorization_permitted {lease : Lease} {session : Session} {requested : Scopes}
    {status : Status} {a : Answers} (h : lease.Permitted)
    (hactive : (completeAuthorization lease session requested status a).lease.active) :
    (completeAuthorization lease session requested status a).lease.Permitted := by
  unfold completeAuthorization at hactive ⊢
  simp only at hactive ⊢
  generalize completeReading _ a = r at hactive ⊢
  generalize hupdated : Lease.dropDomains _ _ = updated at hactive ⊢
  have hdropped : updated.Permitted := by
    rw [← hupdated]
    exact dropDomains_permitted h r.granted r.generation
  cases hok : r.ok with
  | false => simp [hok] at hactive
  | true =>
    simp only [hok, if_true] at hactive ⊢
    split_ifs at hactive ⊢ with hchanged
    · obtain ⟨hdomains, hgranted⟩ := announce_permitted hactive
      exact (permitted_congr hdomains hgranted).mpr hdropped
    · exact hdropped

theorem grantsSnapshot_permitted {lease : Lease} {sent : Bool × Bool × Bool} (h : lease.Permitted)
    (hactive : (grantsSnapshot lease sent).active) : (grantsSnapshot lease sent).Permitted := by
  unfold grantsSnapshot at hactive ⊢
  simp only at hactive ⊢
  have hthird := leaseEmit_of_active hactive
  have hsecond := leaseEmit_of_active ((SameTables.leaseEmit _ _ _ rfl).active hactive)
  have hfirst := leaseEmit_of_active
    ((SameTables.leaseEmit _ _ _ rfl).active ((SameTables.leaseEmit _ _ _ rfl).active hactive))
  rw [hthird, hsecond, hfirst]
  exact h

/-- A silent refresh takes no scope of a subscribed domain, and a subscription is recorded while
the lease still holds the scopes it was checked for. -/
def SubscriptionKept (s : LeaseSystem) : LeaseCall → Prop
  | .refresh i forceIdentity false a => s.subscribing i = none → s.lease.active →
      ∀ domain, s.lease.subscribed domain → (a.mask s.lease forceIdentity).monitors domain
  | .setDomains i => ∀ domains, s.subscribing i = some (.permitted domains) → s.lease.active →
      ∀ domain : StateDomain, domains &&& domain.mask != 0 → s.lease.grantedScopes.monitors domain
  | _ => True

theorem leaseStep_permitted_iff {s : LeaseSystem} {call : LeaseCall}
    (hs : s.lease.active → s.lease.Permitted) :
    ((leaseStep s call).lease.active → (leaseStep s call).lease.Permitted) ↔ SubscriptionKept s call := by
  have hactive : (leaseStep s call).lease.active → s.lease.active := leaseStep_active
  have hvisit := leaseStep_visit s call
  generalize (leaseStep s call).lease = after at hvisit hactive ⊢
  cases hvisit with
  | none hidle =>
    have hkept : SubscriptionKept s call := by
      unfold SubscriptionKept
      split
      · intro hfree
        exact absurd hfree hidle
      · intro domains hstate
        exact absurd hstate (hidle domains)
      · trivial
    exact ⟨fun _ => hkept, fun _ => hs⟩
  | @refresh i forceIdentity notify a hfree =>
    cases notify with
    | true => exact ⟨fun _ => trivial, fun _ h => sessionRefresh_permitted (hs (hactive h)) h⟩
    | false =>
      have hlease : (sessionRefresh s.lease (s.sessions i) forceIdentity false a).lease =
          s.lease.regrant (refreshReading s.lease forceIdentity a).granted
            (refreshReading s.lease forceIdentity a).generation := by
        simp [sessionRefresh]
      rw [hlease]
      constructor
      · intro h _ hbefore
        rw [← refreshReading_granted hbefore]
        exact h hbefore
      · intro h hafter
        have hbefore : s.lease.active := hafter
        have hmask := h hfree hbefore
        rw [← refreshReading_granted hbefore] at hmask
        exact hmask
  | complete => exact ⟨fun _ => trivial, fun _ h => completeAuthorization_permitted (hs (hactive h)) h⟩
  | subscribe => exact ⟨fun _ => trivial, fun _ h => sessionRefresh_permitted (hs (hactive h)) h⟩
  | @set i domains hstate =>
    constructor
    · intro h domains' hstate'
      rw [hstate] at hstate'
      cases hstate'
      exact h
    · intro h
      exact h domains hstate
  | snapshot => exact ⟨fun _ => trivial, fun _ h => grantsSnapshot_permitted (hs (hactive h)) h⟩

/-- What is subscribed is permitted in every state of a run exactly where each of its silent
refreshes and each of its subscriptions meets the condition. -/
theorem subscriptions_permitted_iff (s t : LeaseSystem) (calls : List LeaseCall)
    (hs : s.lease.active → s.lease.Permitted) :
    Run (fun s call t => leaseStep s call = t ∧ (t.lease.active → t.lease.Permitted)) s calls t ↔
      Run (Restrict (fun s call t => leaseStep s call = t) SubscriptionKept) s calls t := by
  apply Run.and_iff_restrict (I := fun s => s.lease.active → s.lease.Permitted) _ _ hs
  · intro s call t hs hstep
    rw [← hstep]
    exact leaseStep_permitted_iff hs
  · intro s call t hs hstep hkept
    rw [← hstep]
    exact (leaseStep_permitted_iff hs).mpr hkept

/-- A new RPC session takes in the revocation, and the subscription outlives the scope. -/
theorem rpcHello_not_permitted :
    ∃ t, Run (fun s call t => leaseStep s call = t) monitoringSystem
        [.refresh 1 true false revokedAnswers] t ∧
      monitoringSystem.lease.Permitted ∧ t.lease.active ∧ t.lease.subscribed .windows ∧
      t.lease.grantedScopes &&& Scope.windowMonitoring = 0 := by
  refine ⟨_, .single rfl, ?_, ?_, ?_, ?_⟩
  all_goals decide

theorem leaseRefresh_permitted :
    ∃ t, Run (fun s call t => leaseStep s call = t ∧ (t.lease.active → t.lease.Permitted)) monitoringSystem
      [.refresh 0 true true revokedAnswers] t :=
  ⟨_, (subscriptions_permitted_iff monitoringSystem _ _ (fun _ => by decide)).mpr
    (.single ⟨rfl, trivial⟩)⟩

end Permission

end KeysharpDesktop
