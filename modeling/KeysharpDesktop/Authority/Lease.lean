import KeysharpDesktop.Authority.Permissions
import KeysharpDesktop.Lib.Flags
import KeysharpDesktop.State.Codec
import KeysharpDesktop.Wire.Frame
import KeysharpDesktop.Wire.Result
import Mathlib.Logic.Function.Basic

/-! The lease that a client's connections share: its mask of granted scopes, the domains it is
subscribed to, and the stream of state events written to its socket. -/
namespace KeysharpDesktop

abbrev WindowTable := List WindowRecord

/-- The lease as it stands between two holders of its mutex. Each domain has its own counter;
`emitted` is what the client has been sent so far. -/
structure Lease where
  active : Bool
  epoch : BitVec 64
  sequences : StateDomain → ℕ
  identity : Identity
  requestedScopes : Scopes
  grantedScopes : Scopes
  domains : Domains
  generation : ℕ
  windows : WindowTable
  snapshotWindows : WindowTable
  snapshotPending : Bool
  emitted : List StateEvent

/-- A connection bound to the lease. -/
structure Session where
  role : Role
  identity : Identity
  requestedScopes : Scopes
  grantedScopes : Scopes
  generation : ℕ
  deriving DecidableEq, Repr

/-- Whether a mask allows a domain; only two domains have a scope of their own. -/
def Scopes.monitors (granted : Scopes) : StateDomain → Bool
  | .windows => granted &&& Scope.windowMonitoring != 0
  | .clipboard => granted &&& Scope.clipboardMonitoring != 0
  | _ => true

namespace Lease

def subscribed (lease : Lease) (domain : StateDomain) : Bool := lease.domains &&& domain.mask != 0

/-- A domain is served while it is subscribed and its scope, where it has one, is granted. -/
def enabled (lease : Lease) (domain : StateDomain) : Bool :=
  lease.subscribed domain && lease.grantedScopes.monitors domain

def bump (lease : Lease) (domain : StateDomain) : Lease :=
  { lease with sequences := Function.update lease.sequences domain (lease.sequences domain + 1) }

@[simp] theorem bump_sequences_self (lease : Lease) (domain : StateDomain) :
    (lease.bump domain).sequences domain = lease.sequences domain + 1 := Function.update_self ..

theorem bump_sequences_of_ne (lease : Lease) {domain other : StateDomain} (h : other ≠ domain) :
    (lease.bump domain).sequences other = lease.sequences other := Function.update_of_ne h ..

/-- An event as it is written: with the lease's epoch and its domain's counter. -/
def stamp (lease : Lease) (event : StateEvent) : StateEvent :=
  { event with epoch := lease.epoch, sequence := lease.sequences event.domain }

/-- The mask and the generation it was read at. -/
def regrant (lease : Lease) (granted : Scopes) (generation : ℕ) : Lease :=
  { lease with grantedScopes := granted, generation }

def close (lease : Lease) : Lease := { lease with active := false, grantedScopes := 0 }

/-- Losing a monitoring scope ends the subscription to its domain. -/
def dropDomains (lease : Lease) (revoked : Scopes) : Lease :=
  let domains := if revoked &&& Scope.windowMonitoring != 0 then
    lease.domains &&& ~~~StateDomain.windows.mask else lease.domains
  { lease with domains := if revoked &&& Scope.clipboardMonitoring != 0 then
      domains &&& ~~~StateDomain.clipboard.mask else domains }

/-- A subscription ends exactly where the scope of its domain was lost. -/
theorem subscribed_dropDomains (lease : Lease) (old new : Scopes) (domain : StateDomain) :
    (lease.dropDomains (old &&& ~~~new)).subscribed domain =
      (lease.subscribed domain && !(old.monitors domain && !new.monitors domain)) := by
  have hwindows : ((old &&& ~~~new) &&& Scope.windowMonitoring != 0) =
      (old.monitors .windows && !new.monitors .windows) := Flags.test_lost (i := 2) old new (by decide)
  have hclipboard : ((old &&& ~~~new) &&& Scope.clipboardMonitoring != 0) =
      (old.monitors .clipboard && !new.monitors .clipboard) := Flags.test_lost (i := 7) old new (by decide)
  have hmask (d : StateDomain) : d.mask = BitVec.twoPow 32 d.index := by cases d <;> decide
  have hindex : domain.index < 32 := by cases domain <;> decide
  unfold dropDomains subscribed
  simp only [hwindows, hclipboard, hmask]
  rw [Flags.test_clear _ _ hindex, Flags.test_clear _ _ hindex]
  cases domain <;> simp [StateDomain.index, Scopes.monitors]

end Lease

/-- A new lease takes over what its session was just granted; the epoch is drawn at random. -/
def leaseCreate (session : Session) (epoch : BitVec 64) : Lease where
  active := true
  epoch
  sequences := fun _ => 0
  identity := session.identity
  requestedScopes := session.requestedScopes
  grantedScopes := session.grantedScopes
  domains := 0
  generation := session.generation
  windows := []
  snapshotWindows := []
  snapshotPending := false
  emitted := []

section Emit

def eventFrame (payload : Bytes) : Frame :=
  ⟨frameMagic, protocolMajor, protocolMinor, Op.stateEvent, flagEvent, 0, payload⟩

/-- `sent` is whether the socket takes every byte it is offered. -/
def writeLeaseFrame (frame : Frame) (sent : Bool) : Bool :=
  (framePack frame (bufferInit (maxTextBytes + 512))).isSome && sent

/-- A failed write closes the lease for good. -/
def leaseEmit (lease : Lease) (event : StateEvent) (sent : Bool) : Lease × Bool :=
  if !lease.active then (lease, false)
  else
    let event := lease.stamp event
    let ok := (stateEventEncode event (bufferInit (maxTextBytes + 256))).any fun payload =>
      writeLeaseFrame (eventFrame payload.data) sent
    if ok then ({ lease with emitted := lease.emitted ++ [event] }, true) else (lease.close, false)

/-- An event that the buffers of `lease_emit` have room for. -/
def Emittable (event : StateEvent) : Prop :=
  event.data.length ≤ maxTextBytes ∧ textLength event.window + event.data.length ≤ maxTextBytes + 104

instance (event : StateEvent) : Decidable (Emittable event) :=
  inferInstanceAs (Decidable (_ ∧ _))

/-- The packed frame has room for every payload that `lease_emit` builds. -/
theorem writeLeaseFrame_eventFrame (payload : Bytes) (sent : Bool)
    (h : payload.length ≤ maxTextBytes + 256) : writeLeaseFrame (eventFrame payload) sent = sent := by
  have hheader : (encodeFrameHeader (eventFrame payload)).length = 24 :=
    length_encodeFrameHeader rfl
  have hlen : (eventFrame payload).bytes.length = 24 + payload.length := by
    rw [Frame.bytes, List.length_append, hheader]
    rfl
  obtain ⟨packed, hpacked, -⟩ := (framePack_writes (eventFrame payload)).exists_of_fits
    (b := bufferInit (maxTextBytes + 512)) (by
      simp only [bufferInit, List.length_nil]
      omega)
  simp [writeLeaseFrame, hpacked]

theorem encode_any_write (event : StateEvent) (sent : Bool) :
    ((stateEventEncode event (bufferInit (maxTextBytes + 256))).any fun payload =>
      writeLeaseFrame (eventFrame payload.data) sent) = (decide (Emittable event) && sent) := by
  have hlen := length_eventBytes event
  by_cases hdata : event.data.length ≤ maxTextBytes
  · have hwrites := stateEventEncode_writes hdata
    cases hpayload : stateEventEncode event (bufferInit (maxTextBytes + 256)) with
    | none =>
      have hlong := hwrites.bufferInit_eq_none.mp hpayload
      have hfits : ¬Emittable event := by
        intro hfits
        have := hfits.2
        omega
      simp [hfits]
    | some payload =>
      obtain ⟨hbytes, hshort⟩ := hwrites.bufferInit_eq_some hpayload
      have hfits : Emittable event := ⟨hdata, by omega⟩
      have hwrite := writeLeaseFrame_eventFrame payload.data sent (by rwa [hbytes])
      simp [hfits, hwrite]
  · have hnone : stateEventEncode event (bufferInit (maxTextBytes + 256)) = none := by
      simp [stateEventEncode, encodeText, hdata]
    simp [hnone, Emittable, hdata]

theorem leaseEmit_eq (lease : Lease) (event : StateEvent) (sent : Bool) :
    leaseEmit lease event sent =
      if lease.active then
        if Emittable event ∧ sent then ({ lease with emitted := lease.emitted ++ [lease.stamp event] }, true)
        else (lease.close, false)
      else (lease, false) := by
  have hstamp : Emittable (lease.stamp event) ↔ Emittable event := Iff.rfl
  unfold leaseEmit
  simp only [encode_any_write, hstamp]
  cases lease.active <;> by_cases hfits : Emittable event <;> cases sent <;> simp [hfits]

theorem leaseEmit_sent {lease : Lease} {event : StateEvent} (hactive : lease.active) (hfits : Emittable event) :
    leaseEmit lease event true = ({ lease with emitted := lease.emitted ++ [lease.stamp event] }, true) := by
  simp [leaseEmit_eq, hactive, hfits]

/-- An event about neither a window nor a text is small. -/
theorem emittable_of_empty {event : StateEvent} (hwindow : event.window = windowRecordInit)
    (hdata : event.data = []) : Emittable event := by
  rw [Emittable, hwindow, hdata]
  constructor <;> simp [textLength, windowRecordInit, StateText.empty]

/-- Either the event is in the stream, or the lease is over. -/
theorem leaseEmit_cases (lease : Lease) (event : StateEvent) (sent : Bool) :
    ((leaseEmit lease event sent).2 = true ∧ lease.active ∧
      (leaseEmit lease event sent).1 = { lease with emitted := lease.emitted ++ [lease.stamp event] }) ∨
    ((leaseEmit lease event sent).2 = false ∧ (leaseEmit lease event sent).1.active = false ∧
      ((leaseEmit lease event sent).1 = lease ∨ (leaseEmit lease event sent).1 = lease.close)) := by
  rw [leaseEmit_eq]
  split_ifs with hactive hsent
  · exact .inl ⟨rfl, hactive, rfl⟩
  · exact .inr ⟨rfl, rfl, .inr rfl⟩
  · exact .inr ⟨rfl, by simpa using hactive, .inl rfl⟩

theorem leaseEmit_of_active {lease : Lease} {event : StateEvent} {sent : Bool}
    (h : (leaseEmit lease event sent).1.active) :
    (leaseEmit lease event sent).1 = { lease with emitted := lease.emitted ++ [lease.stamp event] } := by
  rcases leaseEmit_cases lease event sent with ⟨-, -, hlease⟩ | ⟨-, hover, -⟩
  · exact hlease
  · rw [h] at hover
    cases hover

end Emit

section Refresh

/-- What one visit read from the store: whether the lease still stands, whether the first
read found a new generation, and the mask and generation to go on with. -/
structure Reading where
  ok : Bool
  changed : Bool
  granted : Scopes
  generation : ℕ
  deriving DecidableEq, Repr

def grantChanged (granted revoked : Scopes) : StateEvent :=
  { stateEventInit .grantChanged .grants with grantedScopes := granted, revokedScopes := revoked }

/-- The next number of the grants domain goes to a report of the mask. -/
def announce (lease : Lease) (granted revoked : Scopes) (sent : Bool) : Lease × Bool :=
  leaseEmit (lease.bump .grants) (grantChanged granted revoked) sent

/-- The reads of `session_refresh`. The mask is read again only where the generation moved. -/
def refreshReading (lease : Lease) (forceIdentity : Bool) (a : Answers) : Reading :=
  let generation := if lease.active then a.generation.generation else lease.generation
  let ok := lease.active && a.generation.ok && (!forceIdentity || verifies lease.identity a.verified)
  let changed := generation != lease.generation
  if ok && changed && lease.requestedScopes != 0 then
    ⟨a.check.ok, changed, if a.check.ok then a.check.granted else 0, a.check.generation⟩
  else ⟨ok, changed, if ok then lease.grantedScopes else 0, generation⟩

structure Refreshed where
  lease : Lease
  session : Session
  ok : Bool
  changed : Bool

/-- `session_refresh` of a session that is bound to a lease. -/
def sessionRefresh (lease : Lease) (session : Session) (forceIdentity notify : Bool) (a : Answers) :
    Refreshed :=
  let r := refreshReading lease forceIdentity a
  let revoked := lease.grantedScopes &&& ~~~r.granted
  let grantsChanged := lease.grantedScopes != r.granted
  let updated := lease.regrant r.granted r.generation
  let session := { session with
    identity := lease.identity, generation := r.generation
    requestedScopes := lease.requestedScopes, grantedScopes := r.granted }
  if grantsChanged && notify then
    let (lease, sent) := announce updated r.granted revoked a.sent
    ⟨lease.dropDomains revoked, session, sent && r.ok, r.changed⟩
  else ⟨updated, session, r.ok, r.changed⟩

end Refresh

section Authorize

structure Completed where
  lease : Lease
  session : Session
  status : Status
  ok : Bool

/-- The reads of `complete_authorization`. -/
def completeReading (lease : Lease) (a : Answers) : Reading :=
  if !(lease.active && verifies lease.identity a.verified) then ⟨false, false, 0, lease.generation⟩
  else if lease.requestedScopes == 0 then ⟨a.generation.ok, false, 0, a.generation.generation⟩
  else ⟨a.check.ok, false, a.check.granted, a.check.generation⟩

def completeAuthorization (lease : Lease) (session : Session) (requested : Scopes) (status : Status)
    (a : Answers) : Completed :=
  let lease := { lease with requestedScopes := lease.requestedScopes ||| session.requestedScopes }
  let r := completeReading lease a
  let revoked := lease.grantedScopes &&& ~~~r.granted
  let updated := (lease.regrant r.granted r.generation).dropDomains revoked
  let session := { session with
    requestedScopes := lease.requestedScopes, grantedScopes := r.granted, generation := r.generation }
  let (sentLease, sent) := if lease.grantedScopes != r.granted then
    announce updated r.granted revoked a.sent else (updated, true)
  let status := if status == Status.ok && r.granted &&& requested != requested then Status.revoked
    else status
  ⟨if r.ok then sentLease else { sentLease with active := false }, session, status, r.ok && sent⟩

end Authorize

section Sent

theorem announce_sent (lease : Lease) (hactive : lease.active) (granted revoked : Scopes) :
    announce lease granted revoked true =
      ({ lease.bump .grants with
          emitted := lease.emitted ++ [(lease.bump .grants).stamp (grantChanged granted revoked)] }, true) :=
  leaseEmit_sent hactive (emittable_of_empty rfl rfl)

theorem active_of_refreshReading {lease : Lease} {forceIdentity : Bool} {a : Answers}
    (h : (refreshReading lease forceIdentity a).ok) : lease.active := by
  by_contra hactive
  simp [refreshReading, hactive] at h

theorem sessionRefresh_ok {lease : Lease} {session : Session} {forceIdentity notify : Bool} {a : Answers}
    (h : (sessionRefresh lease session forceIdentity notify a).ok) :
    (refreshReading lease forceIdentity a).ok := by
  unfold sessionRefresh at h
  simp only at h
  split_ifs at h
  · simp only [Bool.and_eq_true] at h
    exact h.2
  · exact h

/-- A notifying refresh that finds the lease in force: it serves the domains that are still
subscribed and whose scopes it read as granted. -/
theorem sessionRefresh_in_force {lease : Lease} {forceIdentity : Bool} {a : Answers}
    (session : Session) (hok : (refreshReading lease forceIdentity a).ok) (hsent : a.sent) :
    (sessionRefresh lease session forceIdentity true a).ok ∧
      (sessionRefresh lease session forceIdentity true a).lease.active ∧
      ∀ domain, (sessionRefresh lease session forceIdentity true a).lease.enabled domain =
        (lease.subscribed domain && (refreshReading lease forceIdentity a).granted.monitors domain) := by
  have hactive := active_of_refreshReading hok
  unfold sessionRefresh
  generalize refreshReading lease forceIdentity a = r at hok
  simp only [hsent, Bool.and_true]
  split_ifs with hchanged
  · have hannounce := announce_sent (lease.regrant r.granted r.generation) hactive r.granted
      (lease.grantedScopes &&& ~~~r.granted)
    rw [hannounce]
    refine ⟨by simpa using hok, hactive, ?_⟩
    intro domain
    have hdrop := lease.subscribed_dropDomains lease.grantedScopes r.granted domain
    change ((lease.dropDomains (lease.grantedScopes &&& ~~~r.granted)).subscribed domain &&
      r.granted.monitors domain) = _
    rw [hdrop]
    cases lease.subscribed domain <;> cases lease.grantedScopes.monitors domain <;>
      cases r.granted.monitors domain <;> rfl
  · exact ⟨hok, hactive, fun _ => rfl⟩

end Sent

section Frame

/-- What a visit that is only about authority leaves alone: the tables, their counters, and
every event of another domain. -/
structure SameTables (before after : Lease) : Prop where
  windows : after.windows = before.windows
  snapshotWindows : after.snapshotWindows = before.snapshotWindows
  snapshotPending : after.snapshotPending = before.snapshotPending
  sequences : ∀ domain ≠ .grants, after.sequences domain = before.sequences domain
  emitted : ∃ news, after.emitted = before.emitted ++ news ∧ ∀ event ∈ news, event.domain = .grants
  active : after.active → before.active

namespace SameTables

variable {a b c : Lease}

theorem refl (a : Lease) : SameTables a a :=
  ⟨rfl, rfl, rfl, fun _ _ => rfl, ⟨[], by simp, by simp⟩, id⟩

theorem trans (hab : SameTables a b) (hbc : SameTables b c) : SameTables a c := by
  obtain ⟨xs, hxs, hx⟩ := hab.emitted
  obtain ⟨ys, hys, hy⟩ := hbc.emitted
  refine ⟨hbc.windows.trans hab.windows, hbc.snapshotWindows.trans hab.snapshotWindows,
    hbc.snapshotPending.trans hab.snapshotPending,
    fun d hd => (hbc.sequences d hd).trans (hab.sequences d hd), ⟨xs ++ ys, ?_, ?_⟩,
    hab.active ∘ hbc.active⟩
  · rw [hys, hxs, List.append_assoc]
  · intro event hevent
    rcases List.mem_append.mp hevent with h | h
    · exact hx event h
    · exact hy event h

theorem bump (a : Lease) : SameTables a (a.bump .grants) := by
  refine ⟨rfl, rfl, rfl, ?_, ⟨[], by simp [Lease.bump], by simp⟩, id⟩
  intro domain hdomain
  exact a.bump_sequences_of_ne hdomain

theorem leaseEmit (a : Lease) (event : StateEvent) (sent : Bool) (h : event.domain = .grants) :
    SameTables a (leaseEmit a event sent).1 := by
  rw [leaseEmit_eq]
  split_ifs with hactive hsent
  · refine ⟨rfl, rfl, rfl, fun _ _ => rfl, ⟨[a.stamp event], rfl, ?_⟩, id⟩
    intro stamped hstamped
    rw [List.mem_singleton.mp hstamped]
    exact h
  · exact ⟨rfl, rfl, rfl, fun _ _ => rfl, ⟨[], by simp [Lease.close], by simp⟩, fun _ => hactive⟩
  · exact refl a

theorem announce (a : Lease) (granted revoked : Scopes) (sent : Bool) :
    SameTables a (announce a granted revoked sent).1 :=
  (bump a).trans (leaseEmit _ _ _ rfl)

/-- Only fields that are about authority changed. -/
theorem of_eq (hwindows : b.windows = a.windows) (hsnapshot : b.snapshotWindows = a.snapshotWindows)
    (hpending : b.snapshotPending = a.snapshotPending) (hsequences : b.sequences = a.sequences)
    (hemitted : b.emitted = a.emitted) (hactive : b.active → a.active) : SameTables a b :=
  ⟨hwindows, hsnapshot, hpending, fun _ _ => by rw [hsequences], ⟨[], by simp [hemitted], by simp⟩, hactive⟩

end SameTables

theorem sessionRefresh_sameTables (lease : Lease) (session : Session) (forceIdentity notify : Bool)
    (a : Answers) : SameTables lease (sessionRefresh lease session forceIdentity notify a).lease := by
  unfold sessionRefresh
  generalize refreshReading lease forceIdentity a = r
  have hupdated : SameTables lease (lease.regrant r.granted r.generation) :=
    .of_eq rfl rfl rfl rfl rfl id
  simp only
  split_ifs
  · exact (hupdated.trans (.announce _ _ _ _)).trans (.of_eq rfl rfl rfl rfl rfl id)
  · exact hupdated

theorem completeAuthorization_sameTables (lease : Lease) (session : Session) (requested : Scopes)
    (status : Status) (a : Answers) :
    SameTables lease (completeAuthorization lease session requested status a).lease := by
  unfold completeAuthorization
  simp only
  generalize completeReading _ a = r
  generalize hupdated : Lease.dropDomains _ _ = updated
  have hsame : SameTables lease updated := by
    rw [← hupdated]
    exact .of_eq rfl rfl rfl rfl rfl id
  have hsent : SameTables lease (if lease.grantedScopes != r.granted then
      announce updated r.granted (lease.grantedScopes &&& ~~~r.granted) a.sent else (updated, true)).1 := by
    split_ifs
    · exact hsame.trans (.announce _ _ _ _)
    · exact hsame
  split_ifs at hsent ⊢ with hok
  all_goals first
    | exact hsent
    | exact hsent.trans (.of_eq rfl rfl rfl rfl rfl (by simp))

end Frame

/-- A session that holds the monitoring scopes, for examples. -/
def monitoringSession : Session :=
  ⟨.authorizationLease, ⟨1000, 4242, 77, []⟩, 0x84, 0x84, 5⟩

/-- Its lease, subscribed to everything. -/
def monitoringLease : Lease := { leaseCreate monitoringSession 1 with domains := stateAll }

/-- The store and the identity check find everything as the lease has it. -/
def steadyAnswers : Answers :=
  ⟨⟨true, 5⟩, some monitoringSession.identity, ⟨true, 0x84, 5⟩, true⟩

end KeysharpDesktop
