import KeysharpDesktop.Authority.Replication
import KeysharpDesktop.Authority.Sync

/-! The counters of a lease's domains are 64 bits wide, and the model's are natural numbers. How many numbers each hold
of the mutex takes, and so that the two agree in every run that is not longer than the counters are wide. -/
namespace KeysharpDesktop

open Transition

section Taken

/-- At most `n` numbers of each domain are taken. -/
def Takes (n : ℕ) (before after : Lease) : Prop := ∀ domain, after.sequences domain ≤ before.sequences domain + n

variable {a b c : Lease} {m n : ℕ}

theorem Takes.of_eq (h : b.sequences = a.sequences) : Takes n a b := by
  intro domain
  rw [h]
  exact Nat.le_add_right _ _

theorem Takes.mono (h : Takes m a b) (hle : m ≤ n) : Takes n a b := by
  intro domain
  have hb := h domain
  omega

theorem Takes.trans (hab : Takes m a b) (hbc : Takes n b c) : Takes (m + n) a c := by
  intro domain
  have hb := hab domain
  have hc := hbc domain
  omega

theorem Takes.then (hab : Takes n a b) (h : c.sequences = b.sequences) : Takes n a c := by
  intro domain
  rw [h]
  exact hab domain

theorem Lease.bump_takes (lease : Lease) (domain : StateDomain) : Takes 1 lease (lease.bump domain) := by
  intro other
  by_cases hsame : other = domain
  · rw [hsame, Lease.bump_sequences_self]
  · rw [Lease.bump_sequences_of_ne lease hsame]
    exact Nat.le_succ _

/-- To write an event takes no number. -/
theorem leaseEmit_sequences (lease : Lease) (event : StateEvent) (sent : Bool) :
    (leaseEmit lease event sent).1.sequences = lease.sequences := by
  rw [leaseEmit_eq]
  split_ifs <;> rfl

theorem announce_takes (lease : Lease) (granted revoked : Scopes) (sent : Bool) :
    Takes 1 lease (announce lease granted revoked sent).1 :=
  (lease.bump_takes .grants).then (leaseEmit_sequences _ _ _)

theorem sessionRefresh_takes (lease : Lease) (session : Session) (forceIdentity notify : Bool) (a : Answers) :
    Takes 1 lease (sessionRefresh lease session forceIdentity notify a).lease := by
  unfold sessionRefresh
  generalize refreshReading lease forceIdentity a = r
  have hupdated : Takes 0 lease (lease.regrant r.granted r.generation) := Takes.of_eq rfl
  have hannounced := hupdated.trans (announce_takes (lease.regrant r.granted r.generation) r.granted
    (lease.grantedScopes &&& ~~~r.granted) a.sent)
  dsimp only
  split_ifs
  · exact hannounced.then rfl
  · exact Takes.of_eq rfl

theorem completeAuthorization_takes (lease : Lease) (session : Session) (requested : Scopes) (status : Status)
    (a : Answers) : Takes 1 lease (completeAuthorization lease session requested status a).lease := by
  unfold completeAuthorization
  dsimp only
  generalize completeReading _ a = r
  generalize hupdated : Lease.dropDomains _ _ = updated
  have hsame : Takes 0 lease updated := by
    rw [← hupdated]
    exact Takes.of_eq rfl
  have hsent : Takes 1 lease (if lease.grantedScopes != r.granted then
      announce updated r.granted (lease.grantedScopes &&& ~~~r.granted) a.sent else (updated, true)).1 := by
    split_ifs
    · exact hsame.trans (announce_takes _ _ _ _)
    · exact hsame.mono (Nat.zero_le 1)
  generalize (if lease.grantedScopes != r.granted then
    announce updated r.granted (lease.grantedScopes &&& ~~~r.granted) a.sent else (updated, true)) = sent at hsent ⊢
  split_ifs
  · exact hsent
  · exact hsent.then rfl

theorem grantsSnapshot_takes (lease : Lease) (sent : Bool × Bool × Bool) : Takes 0 lease (grantsSnapshot lease sent) := by
  apply Takes.of_eq
  unfold grantsSnapshot
  simp only [leaseEmit_sequences]

theorem stateWindowApply_takes (lease : Lease) (event : StateEvent) (sent : Bool) :
    Takes 1 lease (stateWindowApply lease event sent).1 := by
  have hupsert : Takes 1 lease (applyUpsert lease event sent).1 := by
    rw [applyUpsert_eq]
    dsimp only
    split_ifs
    · exact Takes.of_eq rfl
    · exact Takes.then (Lease.bump_takes { lease with windows := _ } .windows) (leaseEmit_sequences _ _ _)
    · exact Takes.of_eq rfl
  unfold stateWindowApply
  cases event.kind with
  | snapshotBegin => exact (lease.bump_takes .windows).then (leaseEmit_sequences _ _ _)
  | snapshotEnd =>
    dsimp only
    split_ifs
    · exact Takes.of_eq rfl
    · exact Takes.of_eq (leaseEmit_sequences _ _ _)
  | snapshotItem =>
    dsimp only
    split_ifs
    · exact Takes.of_eq rfl
    · rw [applyItem_eq]
      dsimp only
      split_ifs
      · exact Takes.of_eq (leaseEmit_sequences _ _ _)
      · exact Takes.of_eq rfl
  | destroy =>
    dsimp only
    cases lease.windows.slot event.window.handle with
    | none => exact Takes.of_eq rfl
    | some w => exact Takes.then (Lease.bump_takes { lease with windows := _ } .windows) (leaseEmit_sequences _ _ _)
  | _ => exact hupsert

theorem applySource_takes (lease : Lease) (event : StateEvent) (sent : Bool) :
    Takes 1 lease (applySource lease event sent).1 := by
  unfold applySource
  split_ifs
  · exact Takes.of_eq rfl
  · exact stateWindowApply_takes lease event sent
  · exact Takes.of_eq (leaseEmit_sequences _ _ _)
  · exact (lease.bump_takes event.domain).then (leaseEmit_sequences _ _ _)

theorem resetDomain_sequences (sent : StateDomain → Bool) (lease : Lease) (domain other : StateDomain) :
    (resetDomain sent lease domain).sequences other ≤ lease.sequences other + if other = domain then 1 else 0 := by
  unfold resetDomain
  split_ifs with hsubscribed hsame hsame
  · rw [leaseEmit_sequences]
    exact lease.bump_takes domain other
  · rw [leaseEmit_sequences, Lease.bump_sequences_of_ne lease hsame]
    exact le_rfl
  · exact Nat.le_add_right _ _
  · exact le_rfl

theorem foldl_resetDomain_sequences (sent : StateDomain → Bool) (lease : Lease) (domains : List StateDomain)
    (other : StateDomain) :
    (domains.foldl (resetDomain sent) lease).sequences other ≤ lease.sequences other + domains.count other := by
  induction domains generalizing lease with
  | nil => exact le_rfl
  | cons domain domains ih =>
    have hone := resetDomain_sequences sent lease domain other
    have hrest := ih (resetDomain sent lease domain)
    rw [List.foldl_cons, List.count_cons]
    split_ifs at hone with hsame
    · subst hsame
      simp only [beq_self_eq_true, if_true]
      omega
    · have hne : (domain == other) = false := beq_eq_false_iff_ne.mpr (Ne.symm hsame)
      rw [hne, if_neg Bool.false_ne_true]
      omega

/-- No lane serves a domain twice. -/
theorem sourceLost_takes (lease : Lease) (lane : Fin 3) (sent : StateDomain → Bool) :
    Takes 1 lease (sourceLost lease lane sent) := by
  intro other
  have honce : (laneDomains lane).count other ≤ 1 := by
    cases other <;> revert lane <;> decide
  have hall := foldl_resetDomain_sequences sent lease (laneDomains lane) other
  exact hall.trans (Nat.add_le_add_left honce _)

end Taken

section Steps

theorem leaseStep_takes (s : LeaseSystem) (call : LeaseCall) : Takes 1 s.lease (leaseStep s call).lease := by
  have hvisit := leaseStep_visit s call
  generalize (leaseStep s call).lease = after at hvisit ⊢
  cases hvisit with
  | none => exact Takes.of_eq rfl
  | refresh => exact sessionRefresh_takes _ _ _ _ _
  | @complete i requested status a => exact completeAuthorization_takes _ _ requested status _
  | subscribe => exact sessionRefresh_takes _ _ _ _ _
  | set => exact Takes.of_eq rfl
  | snapshot => exact (grantsSnapshot_takes _ _).mono (Nat.zero_le 1)

/-- A hold of the mutex takes at most one number of each domain. -/
theorem syncStep_takes (s : SyncSystem) (call : SyncCall) : Takes 1 s.lease (syncStep s call).lease := by
  cases call with
  | lease call => exact leaseStep_takes s.toLeaseSystem call
  | source frame sent =>
    show Takes 1 s.lease (sourceApply s.lease frame sent)
    unfold sourceApply
    cases sourceEvent frame with
    | none => exact Takes.of_eq rfl
    | some event => exact applySource_takes s.lease event sent
  | sourceLost lane sent => exact sourceLost_takes s.lease lane sent
  | hangUp => exact Takes.of_eq rfl
  | sync i backend request before =>
    simp only [syncStep]
    split_ifs <;> exact Takes.of_eq rfl
  | wake i result late =>
    simp only [syncStep]
    split_ifs <;> exact Takes.of_eq rfl

theorem syncRun_takes {P : SyncSystem → SyncCall → Prop} {s t : SyncSystem} {calls : List SyncCall}
    (hrun : Run (Restrict (fun s call t => syncStep s call = t) P) s calls t) :
    Takes calls.length s.lease t.lease := by
  induction hrun with
  | nil s => exact Takes.of_eq rfl
  | @cons s _ _ call calls hstep _ ih =>
    have hone := syncStep_takes s call
    rw [hstep.1] at hone
    have hall := hone.trans ih
    rw [Nat.add_comm] at hall
    exact hall

/-- A call of `state_source_event` takes two numbers at most, one of them for a report of the grants. -/
theorem stateSourceEvent_takes (lease : Lease) (session : Session) (frame : Frame) (a : Answers) (sent : Bool) :
    Takes 2 lease (stateSourceEvent lease session frame a sent).lease := by
  have hrefreshed := sessionRefresh_takes lease session true true a
  have hlast : Takes 2 lease (sessionRefresh lease session true true a).lease :=
    hrefreshed.mono one_le_two
  unfold stateSourceEvent
  dsimp only
  generalize sessionRefresh lease session true true a = r at hrefreshed hlast ⊢
  split_ifs
  · exact hlast
  · exact hlast
  · exact hlast
  · cases sourceEvent frame with
    | none => exact hlast
    | some event => exact hrefreshed.trans (applySource_takes r.lease event sent)

theorem sourceRun_takes {s t : Lease × Session} {calls : List SourceCall} (hrun : Run SourceStep s calls t) :
    Takes (2 * calls.length) s.1 t.1 := by
  induction hrun with
  | nil s => exact Takes.of_eq rfl
  | @cons s _ _ call calls hstep _ ih =>
    have hone := stateSourceEvent_takes s.1 s.2 call.frame call.answers call.sent
    obtain ⟨-, rfl, -⟩ := hstep
    have hall := hone.trans ih
    rw [List.length_cons, Nat.mul_succ, Nat.add_comm]
    exact hall

end Steps

section Width

/-- No counter of a new lease comes round in fewer steps than 64 bits can count, so that each number is the one that
the code's counter has. -/
theorem counters_fit {P : SyncSystem → SyncCall → Prop} {s t : SyncSystem} {calls : List SyncCall} {session : Session}
    {epoch : BitVec 64} (hs : s.lease = leaseCreate session epoch)
    (hrun : Run (Restrict (fun s call t => syncStep s call = t) P) s calls t) (hshort : calls.length < 2 ^ 64)
    (domain : StateDomain) : (BitVec.ofNat 64 (t.lease.sequences domain)).toNat = t.lease.sequences domain := by
  have htaken := syncRun_takes hrun domain
  have hnew : s.lease.sequences domain = 0 := by
    rw [hs]
    rfl
  rw [BitVec.toNat_ofNat]
  exact Nat.mod_eq_of_lt (by omega)

/-- So also along the calls of one source. -/
theorem sourceCounters_fit {s t : Lease × Session} {calls : List SourceCall} (hrun : Run SourceStep s calls t)
    {domain : StateDomain} (hshort : s.1.sequences domain + 2 * calls.length < 2 ^ 64) :
    (BitVec.ofNat 64 (t.1.sequences domain)).toNat = t.1.sequences domain := by
  have htaken := sourceRun_takes hrun domain
  rw [BitVec.toNat_ofNat]
  exact Nat.mod_eq_of_lt (by omega)

end Width

end KeysharpDesktop
