import KeysharpDesktop.Authority.Source

/-! A reader of the emitted stream holds the lease's window table: through every run of source
events, however they are rewritten, filled in, suppressed or staged on the way out. -/
namespace KeysharpDesktop

open Transition

section Stream

/-- In the order of a source: a snapshot that has begun is finished before anything else. -/
def Framed : Bool → List StateKind → Prop
  | _, [] => True
  | inside, kind :: rest => match kind with
    | .snapshotBegin => inside = false ∧ Framed true rest
    | .snapshotItem => Framed inside rest
    | .snapshotEnd => Framed false rest
    | _ => inside = false ∧ Framed false rest

/-- The numbers of a stream after `n`: a snapshot has one for all of its events, and every
other event has the next one. -/
def Numbered : Bool → ℕ → List StateEvent → Prop
  | _, _, [] => True
  | inside, n, e :: rest => match e.kind with
    | .snapshotBegin => inside = false ∧ e.sequence = n + 1 ∧ Numbered true (n + 1) rest
    | .snapshotItem => e.sequence = n ∧ Numbered inside n rest
    | .snapshotEnd => e.sequence = n ∧ Numbered false n rest
    | _ => inside = false ∧ e.sequence = n + 1 ∧ Numbered false (n + 1) rest

/-- Whether a stream is inside a snapshot after an event of this kind. -/
def StateKind.inside (kind : StateKind) (before : Bool) : Bool :=
  match kind with
  | .snapshotBegin => true
  | .snapshotItem => before
  | _ => false

theorem StateKind.inside_of_not_isSnapshot {kind : StateKind} (h : ¬kind.isSnapshot) (before : Bool) :
    kind.inside before = false := by
  revert h
  cases kind <;> simp [StateKind.isSnapshot, StateKind.inside]

theorem framed_cons {inside : Bool} {kind : StateKind} {rest : List StateKind} :
    Framed inside (kind :: rest) ↔
      (kind ≠ .snapshotItem → kind ≠ .snapshotEnd → inside = false) ∧ Framed (kind.inside inside) rest := by
  cases kind <;> simp [Framed, StateKind.inside]

theorem numbered_cons {inside : Bool} {n : ℕ} {e : StateEvent} {rest : List StateEvent} :
    Numbered inside n (e :: rest) ↔
      (e.kind ≠ .snapshotItem → e.kind ≠ .snapshotEnd → inside = false) ∧
        e.sequence = (if e.kind = .snapshotItem ∨ e.kind = .snapshotEnd then n else n + 1) ∧
        Numbered (e.kind.inside inside) e.sequence rest := by
  cases hkind : e.kind <;> simp only [Numbered, hkind, StateKind.inside] <;> aesop

def windowEvents (events : List StateEvent) : List StateEvent := events.filter fun e => e.domain = .windows

theorem windowEvents_of_other {events : List StateEvent} (h : ∀ e ∈ events, e.domain ≠ .windows) :
    windowEvents events = [] := by
  rw [windowEvents, List.filter_eq_nil_iff]
  simpa using h

end Stream

section Run

/-- One call of `state_source_event`, with everything the call is answered. -/
structure SourceCall where
  frame : Frame
  answers : Answers
  sent : Bool

/-- The kind of the window event that a call is fed, if it is fed one. -/
def SourceCall.windowKind (call : SourceCall) : Option StateKind :=
  if call.frame.flags = flagEvent then
    (sourceEvent call.frame).bind fun e => if e.domain = .windows then some e.kind else none
  else none

/-- A call that returns true, after which the window domain is still subscribed and granted. -/
def SourceStep (s : Lease × Session) (call : SourceCall) (t : Lease × Session) : Prop :=
  let r := stateSourceEvent s.1 s.2 call.frame call.answers call.sent
  r.ok ∧ t = (r.lease, r.session) ∧ r.lease.enabled .windows

/-- What one call adds to the stream. -/
structure Streams (s t : Lease) (kind : Option StateKind) (news : List StateEvent) : Prop where
  emitted : t.emitted = s.emitted ++ news
  reader : t.reader = s.reader.replay news
  numbers :
    (windowEvents news = [] ∧ t.sequences .windows = s.sequences .windows ∧
      ∀ k, kind = some k → ¬k.isSnapshot) ∨
    ∃ e k, windowEvents news = [e] ∧ kind = some k ∧ e.sequence = t.sequences .windows ∧
      (e.sequence = if e.kind = .snapshotItem ∨ e.kind = .snapshotEnd then s.sequences .windows
        else s.sequences .windows + 1) ∧
      if k.isSnapshot then e.kind = k else ¬e.kind.isSnapshot ∧ t.windows ≠ s.windows

/-- A visit that is not about windows adds nothing about windows. -/
theorem Streams.of_sameWindows {s t : Lease} {kind : Option StateKind} (h : SameWindows s t)
    (hkind : ∀ k, kind = some k → ¬k.isSnapshot) : ∃ news, Streams s t kind news := by
  obtain ⟨news, hemitted, hother⟩ := h.emitted
  refine ⟨news, hemitted, ?_, .inl ⟨windowEvents_of_other hother, h.sequence, hkind⟩⟩
  rw [Reader.replay_of_other _ hother, h.reader]

/-- Re-reading the authority first makes no difference. -/
theorem Streams.after {s r t : Lease} {kind : Option StateKind} {news : List StateEvent}
    (hr : SameWindows s r) (h : Streams r t kind news) : ∃ news, Streams s t kind news := by
  obtain ⟨before, hemitted, hother⟩ := hr.emitted
  have hwindows : windowEvents (before ++ news) = windowEvents news := by
    have hsplit : windowEvents (before ++ news) = windowEvents before ++ windowEvents news :=
      List.filter_append ..
    rw [hsplit, windowEvents_of_other hother, List.nil_append]
  have htable : r.windows = s.windows := congrArg Reader.table hr.reader
  refine ⟨before ++ news, ?_, ?_, ?_⟩
  · rw [h.emitted, hemitted, List.append_assoc]
  · rw [Reader.replay_append, Reader.replay_of_other _ hother, h.reader, hr.reader]
  · rw [hwindows, ← hr.sequence, ← htable]
    exact h.numbers

/-- An applied event adds at most one event about windows. -/
theorem applySource_streams {r : Lease} {event : StateEvent} {sent : Bool}
    (hok : (applySource r event sent).2) (henabled : (applySource r event sent).1.enabled .windows) :
    ∃ news, Streams r (applySource r event sent).1
      (if event.domain = .windows then some event.kind else none) news := by
  by_cases hdropped : event.domain = .windows ∧ r.enabled .windows = false
  · have hsame : (applySource r event sent).1 = r := by simp [applySource, hdropped]
    rw [hsame, hdropped.2] at henabled
    cases henabled
  rcases applySource_cases r event sent with ⟨hother, hsame⟩ | ⟨hwindows, -, houtcome⟩
  · rw [if_neg fun h => hdropped ⟨h, hother h⟩]
    exact Streams.of_sameWindows hsame (by simp)
  · rw [if_pos hwindows]
    generalize applySource r event sent = result at hok houtcome ⊢
    obtain ⟨t, ok⟩ := result
    change ok = true at hok
    subst hok
    cases houtcome with
    | unchanged hkind =>
      refine Streams.of_sameWindows (SameTables.refl _).sameWindows ?_
      intro k hk
      rwa [← Option.some.inj hk]
    | emits e h =>
      have hone : windowEvents [e] = [e] := by simp [windowEvents, h.domain]
      exact ⟨[e], h.emitted, h.reader, .inr ⟨e, _, hone, rfl, h.sequence, h.sequence.trans h.number,
        h.kind⟩⟩

theorem sourceStep_streams {s t : Lease × Session} {call : SourceCall} (h : SourceStep s call t) :
    ∃ news, Streams s.1 t.1 call.windowKind news := by
  obtain ⟨hok, rfl, henabled⟩ := h
  have hrefresh := (sessionRefresh_sameTables s.1 s.2 true true call.answers).sameWindows
  rcases stateSourceEvent_cases hok with ⟨hflags, hlease⟩ | ⟨event, hflags, hsource, hlease, happlied⟩
  · have hkind : call.windowKind = none := by
      rw [SourceCall.windowKind, hflags]
      rfl
    rw [hkind, hlease]
    exact Streams.of_sameWindows hrefresh (by simp)
  · have hkind : call.windowKind = if event.domain = .windows then some event.kind else none := by
      simp [SourceCall.windowKind, hflags, hsource]
    rw [hlease] at henabled
    obtain ⟨news, hnews⟩ := applySource_streams happlied henabled
    rw [hkind, hlease]
    exact hnews.after hrefresh

/-- One call keeps to the order of its source. -/
theorem Streams.numbered {s t : Lease} {kind : Option StateKind} {news rest : List StateEvent}
    {kinds : List StateKind} {inside : Bool} (h : Streams s t kind news)
    (hframed : Framed inside (kind.toList ++ kinds))
    (hrest : ∀ inside, Framed inside kinds → Numbered inside (t.sequences .windows) (windowEvents rest)) :
    Numbered inside (s.sequences .windows) (windowEvents (news ++ rest)) := by
  have hsplit : windowEvents (news ++ rest) = windowEvents news ++ windowEvents rest := List.filter_append ..
  rw [hsplit]
  rcases h.numbers with ⟨hnone, hsequence, hkind⟩ | ⟨e, k, hone, rfl, hcurrent, hnumber, hk⟩
  · rw [hnone, List.nil_append, ← hsequence]
    cases kind with
    | none => exact hrest inside hframed
    | some k =>
      obtain ⟨houtside, hrestframed⟩ := framed_cons.mp hframed
      have hplain := hkind k rfl
      have hinside : inside = false := by
        apply houtside <;>
          · rintro rfl
            exact hplain (by decide)
      rw [StateKind.inside_of_not_isSnapshot hplain] at hrestframed
      rw [hinside]
      exact hrest false hrestframed
  · obtain ⟨houtside, hrestframed⟩ := framed_cons.mp hframed
    rw [hone, List.singleton_append, numbered_cons]
    refine ⟨?_, hnumber, ?_⟩
    · intro hitem hend
      split_ifs at hk with hsnapshot
      · exact houtside (hk ▸ hitem) (hk ▸ hend)
      · apply houtside <;>
          · rintro rfl
            exact hsnapshot (by decide)
    · rw [hcurrent]
      apply hrest
      split_ifs at hk with hsnapshot
      · rwa [hk]
      · rw [StateKind.inside_of_not_isSnapshot hk.1]
        rwa [StateKind.inside_of_not_isSnapshot hsnapshot] at hrestframed

/-- What a whole run adds to the stream. -/
theorem run_streams {s t : Lease × Session} {calls : List SourceCall} (hrun : Run SourceStep s calls t) :
    ∃ news, t.1.emitted = s.1.emitted ++ news ∧ t.1.reader = s.1.reader.replay news ∧
      ∀ inside, Framed inside (calls.filterMap SourceCall.windowKind) →
        Numbered inside (s.1.sequences .windows) (windowEvents news) := by
  induction hrun with
  | nil s => exact ⟨[], by simp, rfl, fun _ _ => trivial⟩
  | @cons s u t call calls hstep _ ih =>
    obtain ⟨news, h⟩ := sourceStep_streams hstep
    obtain ⟨rest, hemitted, hreader, hnumbered⟩ := ih
    refine ⟨news ++ rest, ?_, ?_, ?_⟩
    · rw [hemitted, h.emitted, List.append_assoc]
    · rw [Reader.replay_append, ← h.reader, hreader]
    · intro inside hframed
      refine h.numbered ?_ hnumbered
      convert hframed using 1
      cases hk : call.windowKind <;> simp [hk]

/-- The reader of the stream holds the table after every run; numbers are as documented, an
event that changes nothing is not sent, and no handle occurs twice. -/
theorem stateSourceEvent_replicates {s t : Lease × Session} {calls : List SourceCall}
    (hrun : Run SourceStep s calls t) (hframed : Framed false (calls.filterMap SourceCall.windowKind))
    (hdistinct : s.1.reader.Distinct) :
    ∃ news, t.1.emitted = s.1.emitted ++ news ∧ s.1.reader.replay news = t.1.reader ∧
      Numbered false (s.1.sequences .windows) (windowEvents news) ∧ t.1.windows.Distinct ∧
      ∀ call kind u, SourceStep t call u → call.windowKind = some kind → ¬kind.isSnapshot →
        u.1.windows = t.1.windows → windowEvents u.1.emitted = windowEvents t.1.emitted := by
  obtain ⟨news, hemitted, hreader, hnumbered⟩ := run_streams hrun
  refine ⟨news, hemitted, hreader.symm, hnumbered false hframed, ?_, ?_⟩
  · have hreplay := hdistinct.replay news
    rw [← hreader] at hreplay
    exact hreplay.table
  · intro call kind u hstep hkind hdelta hsame
    obtain ⟨more, h⟩ := sourceStep_streams hstep
    have hsplit : windowEvents u.1.emitted = windowEvents t.1.emitted ++ windowEvents more := by
      rw [h.emitted]
      exact List.filter_append ..
    rw [hsplit]
    rcases h.numbers with ⟨hnone, -⟩ | ⟨e, k, -, hk, -, -, hchange⟩
    · rw [hnone, List.append_nil]
    · rw [hkind] at hk
      cases hk
      rw [if_neg hdelta] at hchange
      exact absurd hsame hchange.2

def windowCall (kind : StateKind) (w : WindowRecord) : SourceCall :=
  ⟨eventFrame (eventBytes { stateEventInit kind .windows with window := w }), steadyAnswers, true⟩

/-- A snapshot of one window, and a change to it. -/
def snapshotCalls : List SourceCall :=
  [windowCall .snapshotBegin windowRecordInit, windowCall .snapshotItem { windowRecordInit with handle := 7 },
    windowCall .snapshotEnd windowRecordInit,
    windowCall .changed { windowRecordInit with handle := 7, flags := Flag.active }]

def afterCalls : Lease × Session → List SourceCall → Lease × Session
  | s, [] => s
  | s, call :: calls =>
    let r := stateSourceEvent s.1 s.2 call.frame call.answers call.sent
    afterCalls (r.lease, r.session) calls

/-- Whether every call returns true with the window domain still served. -/
def callsServed : Lease × Session → List SourceCall → Bool
  | _, [] => true
  | s, call :: calls =>
    let r := stateSourceEvent s.1 s.2 call.frame call.answers call.sent
    r.ok && r.lease.enabled .windows && callsServed (r.lease, r.session) calls

theorem run_of_callsServed {s : Lease × Session} {calls : List SourceCall} (h : callsServed s calls) :
    Run SourceStep s calls (afterCalls s calls) := by
  induction calls generalizing s with
  | nil => exact .nil s
  | cons call calls ih =>
    simp only [callsServed, Bool.and_eq_true] at h
    exact .cons ⟨h.1.1, rfl, h.1.2⟩ (ih h.2)

theorem snapshotCalls_replicated :
    (afterCalls (monitoringLease, monitoringSession) snapshotCalls).1.windows.length = 1 ∧
      ∃ news, (afterCalls (monitoringLease, monitoringSession) snapshotCalls).1.emitted = [] ++ news ∧
        monitoringLease.reader.replay news =
          (afterCalls (monitoringLease, monitoringSession) snapshotCalls).1.reader := by
  have hrun : Run SourceStep (monitoringLease, monitoringSession) snapshotCalls _ :=
    run_of_callsServed (by decide +kernel)
  obtain ⟨news, hemitted, hreader, -⟩ := stateSourceEvent_replicates hrun (by
    have hkinds : snapshotCalls.filterMap SourceCall.windowKind =
        [.snapshotBegin, .snapshotItem, .snapshotEnd, .changed] := by decide +kernel
    rw [hkinds]
    simp [Framed]) ⟨List.nodup_nil, List.nodup_nil⟩
  exact ⟨by decide +kernel, news, hemitted, hreader⟩

end Run

end KeysharpDesktop
