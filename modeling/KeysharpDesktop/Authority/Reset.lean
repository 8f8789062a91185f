import KeysharpDesktop.Authority.Sync

/-! The windows of a lease after their source has failed: a reset stands until the next snapshot is
complete, and the table of the time before it is kept all the while. -/
namespace KeysharpDesktop

open Transition

section Stands

def resetAfter (stands : Bool) (e : StateEvent) : Bool :=
  if e.domain ≠ .windows then stands
  else match e.kind with
    | .reset => true
    | .snapshotEnd => false
    | _ => stands

/-- A reset of the windows was emitted, and no snapshot has ended since. -/
def Lease.resetStands (lease : Lease) : Bool := lease.emitted.foldl resetAfter false

theorem mem_of_foldl_resetAfter {stands : Bool} {events : List StateEvent}
    (h : events.foldl resetAfter stands = true) :
    stands = true ∨ ∃ e ∈ events, e.domain = .windows ∧ e.kind = .reset := by
  induction events generalizing stands with
  | nil => exact .inl h
  | cons e events ih =>
    rcases ih h with hstands | ⟨e', he', hreset⟩
    · by_cases hwindows : e.domain = .windows
      · by_cases hkind : e.kind = .reset
        · exact .inr ⟨e, List.mem_cons_self, hwindows, hkind⟩
        · left
          unfold resetAfter at hstands
          rw [if_neg (not_not.mpr hwindows)] at hstands
          split at hstands
          · next h => exact absurd h hkind
          · cases hstands
          · exact hstands
      · left
        unfold resetAfter at hstands
        rwa [if_pos hwindows] at hstands
    · exact .inr ⟨e', List.mem_cons_of_mem e he', hreset⟩

/-- A lease in force numbers its window events from one, once a reset stands. -/
def Lease.Numbered (lease : Lease) : Prop := lease.active → lease.resetStands → 0 < lease.sequences .windows

/-- The number is never lowered, and a reset that is written has one. -/
theorem Lease.Numbered.of_news {a b : Lease} {news : List StateEvent} (h : a.Numbered)
    (hactive : b.active → a.active) (hemitted : b.emitted = a.emitted ++ news)
    (hle : a.sequences .windows ≤ b.sequences .windows)
    (hnews : ∀ e ∈ news, e.domain = .windows → e.kind = .reset → 0 < b.sequences .windows) : b.Numbered := by
  intro hb hstands
  rw [Lease.resetStands, hemitted, List.foldl_append] at hstands
  rcases mem_of_foldl_resetAfter hstands with hstood | ⟨e, he, hwindows, hkind⟩
  · have hpos := h (hactive hb) hstood
    omega
  · exact hnews e he hwindows hkind

theorem Lease.Numbered.of_sameWindows {a b : Lease} (h : a.Numbered) (hsame : SameWindows a b) :
    b.Numbered := by
  obtain ⟨news, hemitted, hnews⟩ := hsame.emitted
  apply h.of_news hsame.active hemitted hsame.sequence.ge
  intro e he hwindows
  exact absurd hwindows (hnews e he)

theorem Lease.Numbered.of_emits {a b : Lease} {kind : StateKind} {e : StateEvent} (h : a.Numbered)
    (hemits : Emits a kind b e) : b.Numbered := by
  have hnumber := hemits.number
  apply h.of_news (fun _ => hemits.active.1) hemits.emitted
  · split_ifs at hnumber <;> omega
  · intro e' he' _ hkind
    rw [List.mem_singleton.mp he'] at hkind
    rw [hkind] at hnumber
    simp only [reduceCtorEq, or_self, if_false] at hnumber
    omega

theorem sourceApply_numbered {lease : Lease} (h : lease.Numbered) (frame : Frame) (sent : Bool) :
    (sourceApply lease frame sent).Numbered := by
  unfold sourceApply
  cases sourceEvent frame with
  | none => exact h
  | some event =>
    rcases applySource_cases lease event sent with ⟨-, hsame⟩ | ⟨-, -, houtcome⟩
    · exact h.of_sameWindows hsame
    · simp only
      generalize applySource lease event sent = result at houtcome ⊢
      obtain ⟨after, ok⟩ := result
      cases houtcome with
      | unchanged => exact h
      | emits e hemits => exact h.of_emits hemits
      | refused => exact h
      | closed hclosed =>
        intro hactive
        exact absurd (hactive.symm.trans hclosed) (by decide)
      | torn => exact h

theorem resetDomain_numbered {lease : Lease} (h : lease.Numbered) (sent : StateDomain → Bool)
    (domain : StateDomain) : (resetDomain sent lease domain).Numbered := by
  unfold resetDomain
  split_ifs
  · rcases leaseEmit_cases (lease.bump domain) (stateEventInit .reset domain) (sent domain) with
      ⟨-, -, hlease⟩ | ⟨-, hclosed, -⟩
    · have hself := lease.bump_sequences_self domain
      rw [hlease]
      by_cases hwindows : domain = .windows
      · subst hwindows
        refine h.of_news (fun hactive => hactive) rfl ?_ ?_
        · show lease.sequences .windows ≤ (lease.bump .windows).sequences .windows
          omega
        · intro _ _ _ _
          show 0 < (lease.bump .windows).sequences .windows
          omega
      · refine h.of_news (fun hactive => hactive) rfl ?_ ?_
        · exact (lease.bump_sequences_of_ne (Ne.symm hwindows)).ge
        · intro e he hdomain
          rw [List.mem_singleton.mp he] at hdomain
          exact absurd hdomain hwindows
    · intro hactive
      exact absurd (hactive.symm.trans hclosed) (by decide)
  · exact h

theorem sourceLost_numbered {lease : Lease} (h : lease.Numbered) (lane : Fin 3)
    (sent : StateDomain → Bool) : (sourceLost lease lane sent).Numbered := by
  unfold sourceLost
  induction laneDomains lane generalizing lease with
  | nil => exact h
  | cons domain domains ih => exact ih (resetDomain_numbered h sent domain)

theorem leaseStep_numbered {s : LeaseSystem} (h : s.lease.Numbered) (call : LeaseCall) :
    (leaseStep s call).lease.Numbered := by
  have hvisit := leaseStep_visit s call
  generalize (leaseStep s call).lease = after at hvisit ⊢
  cases hvisit with
  | none => exact h
  | refresh => exact h.of_sameWindows (sessionRefresh_sameTables _ _ _ _ _).sameWindows
  | @complete i requested status a =>
    exact h.of_sameWindows (completeAuthorization_sameTables _ _ requested status _).sameWindows
  | subscribe => exact h.of_sameWindows (sessionRefresh_sameTables _ _ _ _ _).sameWindows
  | set => exact h
  | snapshot => exact h.of_sameWindows (grantsSnapshot_sameTables _ _).sameWindows

theorem syncStep_numbered {s : SyncSystem} (h : s.lease.Numbered) (call : SyncCall) :
    (syncStep s call).lease.Numbered := by
  cases call with
  | lease call => exact leaseStep_numbered h call
  | source frame sent => exact sourceApply_numbered h frame sent
  | sourceLost lane sent => exact sourceLost_numbered h lane sent
  | hangUp =>
    intro hactive
    cases hactive
  | sync i backend request before =>
    simp only [syncStep]
    split_ifs <;> exact h
  | wake i result late =>
    simp only [syncStep]
    split_ifs <;> exact h

end Stands

section Looks

/-- No wait is told a number while a reset stands. -/
def UnansweredAfterReset (s : SyncSystem) : SyncCall → Prop
  | .wake i result late => ∀ r, s.returns i result late = some r → s.lease.resetStands →
      r.effectiveSequence = 0
  | _ => True

/-- The table that a reset left behind is taken for the state of the windows, and shows what a
wait is looking for. -/
def Lease.ReadsStale (lease : Lease) (w : SyncWait) : Prop :=
  lease.resetStands ∧ lease.snapshotPending = false ∧ w.monitoring ∧ lease.controls ∧
    operationObserved false lease.windows w.request w.before

instance (lease : Lease) (w : SyncWait) : Decidable (lease.ReadsStale w) :=
  inferInstanceAs (Decidable (_ ∧ _))

/-- No wait looks at the lease while the table of the time before a reset shows its request. -/
def ReadsFresh (s : SyncSystem) : SyncCall → Prop
  | .wake i _ _ => ∀ w ∈ s.waiting i, ¬s.lease.ReadsStale w
  | _ => True

instance ReadsFresh.decidable (s : SyncSystem) : ∀ call, Decidable (ReadsFresh s call)
  | .wake i _ _ => inferInstanceAs (Decidable (∀ w ∈ s.waiting i, ¬s.lease.ReadsStale w))
  | .lease _ | .source .. | .sourceLost .. | .hangUp | .sync .. => isTrue trivial

/-- A look that is told a number found the lease in control and the request in its table. -/
theorem observed_of_effectiveSequence {lease : Lease} {w : SyncWait} {result : WaitResult} {late : Bool}
    {r : Synced} (h : operationSync lease w result late = some r) (hne : r.effectiveSequence ≠ 0) :
    w.monitoring ∧ lease.controls ∧ lease.observed w := by
  unfold operationSync at h
  split_ifs at h with hwait
  simp only [Option.some.injEq] at h
  subst h
  simp only [ne_eq, ite_eq_right_iff, not_forall] at hne
  obtain ⟨hall, -⟩ := hne
  simp only [Bool.and_eq_true] at hall
  obtain ⟨⟨hmonitoring, hcontrols, -⟩, hobserved⟩ := hall
  rw [hmonitoring, Bool.not_true, Bool.false_or] at hobserved
  exact ⟨hmonitoring, hcontrols, hobserved⟩

/-- A look that finds the request in the table ends the wait with the current number. -/
theorem operationSync_of_observed {lease : Lease} {w : SyncWait} (hmonitoring : w.monitoring)
    (hcontrols : lease.controls) (hobserved : lease.observed w) (result : WaitResult) (late : Bool) :
    operationSync lease w result late = some ⟨true, lease.sequences .windows⟩ := by
  unfold operationSync
  rw [hmonitoring, hcontrols, hobserved]
  rfl

theorem observed_iff {lease : Lease} {w : SyncWait} :
    lease.observed w ↔ lease.snapshotPending = false ∧
      operationObserved false lease.windows w.request w.before := by
  cases hpending : lease.snapshotPending with
  | true => simp [Lease.observed, operationObserved, hpending]
  | false => simp [Lease.observed, hpending]

theorem syncStep_unanswered_iff {s : SyncSystem} (h : s.lease.Numbered) (call : SyncCall) :
    UnansweredAfterReset s call ↔ ReadsFresh s call := by
  cases call with
  | wake i result late =>
    constructor
    · intro hunanswered w hwait hstale
      obtain ⟨hstands, hpending, hmonitoring, hcontrols, hshown⟩ := hstale
      have hobserved : s.lease.observed w := observed_iff.mpr ⟨hpending, hshown⟩
      have hreturn : s.returns i result late = some ⟨true, s.lease.sequences .windows⟩ := by
        rw [SyncSystem.returns, hwait]
        exact operationSync_of_observed hmonitoring hcontrols hobserved result late
      have hzero : s.lease.sequences .windows = 0 := hunanswered _ hreturn hstands
      have hactive : s.lease.active := by
        rw [Lease.controls, Bool.and_eq_true] at hcontrols
        exact hcontrols.1
      have hpos := h hactive hstands
      omega
    · intro hfresh r hreturn hstands
      by_contra hne
      obtain ⟨w, hwait, hlook⟩ := Option.bind_eq_some_iff.mp hreturn
      obtain ⟨hmonitoring, hcontrols, hobserved⟩ := observed_of_effectiveSequence hlook hne
      obtain ⟨hpending, hshown⟩ := observed_iff.mp hobserved
      exact hfresh w hwait ⟨hstands, hpending, hmonitoring, hcontrols, hshown⟩
  | _ => exact Iff.rfl

/-- Along a run from the creation of a lease, no wait is told a number while a reset stands,
exactly where no wait of the run looks while the retained table shows its request. -/
theorem resets_unanswered_iff {s t : SyncSystem} {calls : List SyncCall} {session : Session}
    {epoch : BitVec 64} (hs : s.lease = leaseCreate session epoch) :
    Run (fun s call t => syncStep s call = t ∧ UnansweredAfterReset s call) s calls t ↔
      Run (Restrict (fun s call t => syncStep s call = t) ReadsFresh) s calls t := by
  have hcreated : s.lease.Numbered := by
    rw [hs]
    intro _ hstands
    cases hstands
  apply Run.and_iff_restrict (I := fun s => s.lease.Numbered) _ _ hcreated
  · intro s call t hnumbered _
    exact syncStep_unanswered_iff hnumbered call
  · intro s call t hnumbered hstep _
    rw [← hstep]
    exact syncStep_numbered hnumbered call

def activeWindow : WindowRecord :=
  { windowRecordInit with handle := 7, validFields := Field.id ||| Field.active, flags := Flag.active }

def focusRequest : Frame := ⟨frameMagic, protocolMajor, protocolMinor, Op.windowFocus, 0, 9, encodeU64 7⟩

/-- A subscription to the windows. -/
def subscribeCalls : List SyncCall :=
  [.lease (.subscribe 0 StateDomain.windows.mask controlAnswers), .lease (.setDomains 0),
    .lease (.sendGrants 0 (true, true, true))]

/-- A snapshot of one window, which has the focus. -/
def snapshotOfActive : List SyncCall :=
  sourceCalls .snapshotBegin windowRecordInit ++ sourceCalls .snapshotItem activeWindow ++
    sourceCalls .snapshotEnd windowRecordInit

theorem windowLane_lt : 0 < 3 := by decide

/-- The source fails, and a session then asks for the focus that the window had before. -/
def focusAfterReset : List SyncCall :=
  subscribeCalls ++ snapshotOfActive ++ [.sourceLost ⟨0, windowLane_lt⟩ fun _ => true, .sync 1 .gnome focusRequest none]

/-- The client subscribes again before anyone looks, and the wait ends after the new snapshot. -/
def focusAfterSnapshot : List SyncCall :=
  subscribeCalls ++ snapshotOfActive ++ [.sourceLost ⟨0, windowLane_lt⟩ fun _ => true] ++ subscribeCalls ++
    [.sync 1 .gnome focusRequest none, .wake 1 .woken false] ++ snapshotOfActive ++ [.wake 1 .woken false]

theorem focusAfterSnapshot_unanswered :
    Run (fun s call t => syncStep s call = t ∧ UnansweredAfterReset s call) controlSystem focusAfterSnapshot
      (focusAfterSnapshot.foldl syncStep controlSystem) :=
  (resets_unanswered_iff rfl).mpr (Run.of_admitted (by decide +kernel))

/-- The wait is told the number of the reset itself, on the strength of the table from before it. -/
theorem focusAfterReset_answered :
    (focusAfterReset.foldl syncStep controlSystem).lease.resetStands ∧
      (focusAfterReset.foldl syncStep controlSystem).returns 1 .woken false = some ⟨true, 2⟩ ∧
      ¬UnansweredAfterReset (focusAfterReset.foldl syncStep controlSystem) (.wake 1 .woken false) := by
  have hlook : (focusAfterReset.foldl syncStep controlSystem).lease.resetStands = true ∧
      (focusAfterReset.foldl syncStep controlSystem).returns 1 .woken false = some ⟨true, 2⟩ := by
    decide +kernel
  refine ⟨hlook.1, hlook.2, ?_⟩
  intro hunanswered
  have hzero : (2 : ℕ) = 0 := hunanswered _ hlook.2 hlook.1
  omega

end Looks

end KeysharpDesktop
