import KeysharpDesktop.Authority.Windows
import KeysharpDesktop.Lib.Transition
import KeysharpDesktop.State.Json

/-! Frames of a state source: how one becomes a state event, and what the lease does with it. -/
namespace KeysharpDesktop

section Decode

def windowEventClose : BitVec 16 := 2

/-- The types after the first, each behind a comma. -/
def clipboardTypes : ℕ → Bool → Buffer → Cursor → Option (Buffer × Cursor)
  | 0, _, b, c => some (b, c)
  | count + 1, first, b, c => do
    let (length, c) ← cursorU32 c
    let (text, c) ← cursorBytes c length.toNat
    let b ← if first then some b else bufferBytes b (ascii ",")
    let b ← bufferJsonString b text false
    clipboardTypes count false b c

/-- The clipboard's text and types, as one JSON object within the text limit. -/
def clipboardJson (payload : Bytes) : Option Bytes := do
  let (length, c) ← cursorU32 payload
  let (count, c) ← cursorU32 c
  let (text, c) ← cursorBytes c length.toNat
  let b ← bufferBytes (bufferInit maxTextBytes) (ascii "\x7b\"text\":")
  let b ← bufferJsonString b text false
  let b ← bufferBytes b (ascii ",\"mimetypes\":[")
  let (b, c) ← clipboardTypes count.toNat true b c
  if !cursorFinished c then none
  else do
    let b ← bufferBytes b (ascii "]\x7d")
    some b.data

/-- The event that a source's frame stands for. -/
def sourceEvent (frame : Frame) : Option StateEvent :=
  if frame.opcode == Op.stateEvent then stateEventDecode frame.payload
  else if frame.opcode == Op.windowEvent then do
    if frame.payload.length < 8 ∨ (decodeU32 (frame.payload.drop 4)).toNat ≠ frame.payload.length - 8 then none
    else
      let window ← stateWindowJson (frame.payload.drop 8)
      let kind := if decodeU16 frame.payload == windowEventClose then StateKind.destroy else .changed
      some { stateEventInit kind .windows with window }
  else if frame.opcode == Op.clipboardEvent then do
    let data ← clipboardJson frame.payload
    some { stateEventInit .changed .clipboard with data }
  else none

end Decode

section Apply

/-- The second half of `state_source_event`, under the lease's mutex. -/
def applySource (lease : Lease) (event : StateEvent) (sent : Bool) : Lease × Bool :=
  if !lease.enabled event.domain then (lease, true)
  else if event.domain = .windows then stateWindowApply lease event sent
  else leaseEmit (if event.kind.isSnapshot then lease else lease.bump event.domain) event sent

/-- An event is dropped, or is about another domain, or is applied to the window table. -/
theorem applySource_cases (lease : Lease) (event : StateEvent) (sent : Bool) :
    ((event.domain = .windows → lease.enabled .windows = false) ∧
      SameWindows lease (applySource lease event sent).1) ∨
    (event.domain = .windows ∧ lease.enabled .windows ∧
      Outcome lease event (applySource lease event sent).1 (applySource lease event sent).2) := by
  unfold applySource
  split_ifs with hdropped hwindows hsnapshot
  · refine .inl ⟨?_, (SameTables.refl lease).sameWindows⟩
    intro hdomain
    simpa [hdomain] using hdropped
  · refine .inr ⟨hwindows, ?_, stateWindowApply_outcome lease sent hwindows⟩
    simpa [hwindows] using hdropped
  · exact .inl ⟨fun h => absurd h hwindows, SameWindows.leaseEmit lease event sent hwindows⟩
  · have hbump : SameWindows lease (lease.bump event.domain) :=
      ⟨rfl, rfl, Lease.bump_sequences_of_ne _ (Ne.symm hwindows), ⟨[], by simp [Lease.bump], by simp⟩, id⟩
    exact .inl ⟨fun h => absurd h hwindows, hbump.trans (.leaseEmit _ event sent hwindows)⟩

structure Sourced where
  lease : Lease
  session : Session
  ok : Bool

/-- `a.sent` is the write of a grant report, `sent` that of the event itself. -/
def stateSourceEvent (lease : Lease) (session : Session) (frame : Frame) (a : Answers) (sent : Bool) :
    Sourced :=
  let r := sessionRefresh lease session true true a
  if !r.ok then ⟨r.lease, r.session, false⟩
  else if frame.flags == flagResponse then ⟨r.lease, r.session, true⟩
  else if frame.flags != flagEvent then ⟨r.lease, r.session, false⟩
  else match sourceEvent frame with
    | none => ⟨r.lease, r.session, false⟩
    | some event =>
      let (lease, ok) := applySource r.lease event sent
      ⟨lease, r.session, ok⟩

/-- A call that returns true either only refreshed, or applied the frame's event. -/
theorem stateSourceEvent_cases {lease : Lease} {session : Session} {frame : Frame} {a : Answers}
    {sent : Bool} (h : (stateSourceEvent lease session frame a sent).ok) :
    (frame.flags = flagResponse ∧ (stateSourceEvent lease session frame a sent).lease =
      (sessionRefresh lease session true true a).lease) ∨
    ∃ event, frame.flags = flagEvent ∧ sourceEvent frame = some event ∧
      (stateSourceEvent lease session frame a sent).lease =
        (applySource (sessionRefresh lease session true true a).lease event sent).1 ∧
      (applySource (sessionRefresh lease session true true a).lease event sent).2 := by
  unfold stateSourceEvent at h ⊢
  generalize sessionRefresh lease session true true a = r at h ⊢
  simp only at h ⊢
  split_ifs at h ⊢ with hok hresponse hevent
  · exact .inl ⟨by simpa using hresponse, rfl⟩
  · have hflags : frame.flags = flagEvent := by simpa using hevent
    cases hsource : sourceEvent frame with
    | none =>
      rw [hsource] at h
      cases h
    | some event =>
      rw [hsource] at h
      exact .inr ⟨event, hflags, rfl, rfl, h⟩

theorem stateSourceEvent_refreshed {lease : Lease} {session : Session} {frame : Frame} {a : Answers}
    {sent : Bool} (h : (stateSourceEvent lease session frame a sent).ok) :
    (sessionRefresh lease session true true a).ok := by
  cases hok : (sessionRefresh lease session true true a).ok with
  | true => rfl
  | false => simp [stateSourceEvent, hok] at h

end Apply

end KeysharpDesktop
