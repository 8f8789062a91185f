import KeysharpDesktop.Display.ToplevelTable
import KeysharpDesktop.Lib.Diff
import KeysharpDesktop.Wire.Request

/-! The watch of a Wayland compositor's windows: what it writes when its list of them changes, and a client that keeps
up with the list by what is written. -/
namespace KeysharpDesktop.Watch

open KeysharpDesktop.Wayland

section Watch

/-- The kinds of a window event. -/
abbrev WindowEvent := Diff.Kind

def findWindow (windows : List WindowRecord) (id : BitVec 64) : Option WindowRecord :=
  Keyed.find WindowRecord.handle id windows

/-- `ksd_wayland_watch_diff`, which hands its events to a callback. -/
def watchDiff {σ : Type} (emit : σ → WindowEvent → BitVec 64 → σ) (previous next : List WindowRecord)
    (context : σ) : σ :=
  let context := next.foldl (fun context now =>
    match findWindow previous now.handle with
    | none => emit context .create now.handle
    | some was => if !stateWindowEqual was now then emit context .change now.handle else context) context
  previous.foldl (fun context was =>
    if (findWindow next was.handle).isNone then emit context .close was.handle else context) context

/-- The windows of a watch, whether it has failed, the frames that are in its stream, and how many were refused. -/
structure WindowWatch where
  windows : List WindowRecord
  failed : Bool
  written : List Frame
  refused : ℕ
  deriving DecidableEq

/-- A stream, by whether it takes the frame of each attempt. It may refuse one and take the next. -/
abbrev FrameStream := ℕ → Bool

/-- The number of an attempt. -/
def WindowWatch.attempts (watch : WindowWatch) : ℕ := watch.written.length + watch.refused

def writeFrame (stream : FrameStream) (watch : WindowWatch) (opcode : Opcode) (flags : BitVec 16)
    (requestId : BitVec 64) (payload : Bytes) : WindowWatch × Bool :=
  if stream watch.attempts then
    ({ watch with written := watch.written ++ [requestFrame opcode flags requestId payload] }, true)
  else ({ watch with refused := watch.refused + 1 }, false)

def stateEvent (domain : StateDomain) (kind : StateKind) (window : WindowRecord) (data : Bytes) : StateEvent :=
  { stateEventInit kind domain with window, data }

def emitState (stream : FrameStream) (watch : WindowWatch) (domain : StateDomain) (kind : StateKind)
    (window : Option WindowRecord) (data : Bytes) : WindowWatch × Bool :=
  match stateEventEncode (stateEvent domain kind (window.getD windowRecordInit) data)
      (bufferInit (maxTextBytes + 256)) with
  | none => (watch, false)
  | some payload => writeFrame stream watch Op.stateEvent flagEvent 0 payload.data

/-- What is said of a window that is gone. -/
def closedWindow (id : BitVec 64) : WindowRecord := { windowRecordInit with handle := id, validFields := Field.id }

def emitEvent (stream : FrameStream) (watch : WindowWatch) (kind : WindowEvent) (id : BitVec 64) : WindowWatch :=
  if watch.failed then watch
  else
    match if kind = .close then some (closedWindow id) else findWindow watch.windows id with
    | none => { watch with failed := true }
    | some window =>
      let (watch, ok) :=
        emitState stream watch .windows (if kind = .close then .destroy else .changed) (some window) []
      { watch with failed := !ok }

/-- A refresh that has no snapshot leaves the windows as they are. -/
def updateWindows (stream : FrameStream) (view : Option View) (outputs : List Output) (table : ToplevelTable)
    (emit : Bool) (watch : WindowWatch) : WindowWatch × Bool :=
  match view with
  | none => (watch, true)
  | some view =>
    match snapshot view outputs table.items with
    | none => (watch, false)
    | some windows =>
      let next := { watch with windows }
      (if emit then watchDiff (emitEvent stream) watch.windows windows next else next, true)

end Watch

section Client

/-- What a client knows of the windows. -/
abbrev WindowMap := BitVec 64 → Option WindowRecord

def applyEvent (table : WindowMap) (event : StateEvent) : WindowMap :=
  match event.kind with
  | .destroy => Function.update table event.window.handle none
  | .create | .changed => Function.update table event.window.handle (some event.window)
  | _ => table

def receive (table : WindowMap) (frame : Frame) : WindowMap :=
  match stateEventDecode frame.payload with
  | none => table
  | some event => applyEvent table event

def receiveAll (table : WindowMap) (frames : List Frame) : WindowMap := frames.foldl receive table

end Client

section Events

variable {stream : FrameStream} {watch : WindowWatch} {windows : List WindowRecord} {edit : WindowEvent × BitVec 64}

/-- The event that stands for what a difference says of a window. -/
def eventOf (windows : List WindowRecord) (edit : WindowEvent × BitVec 64) : StateEvent :=
  if edit.1 = .close then stateEvent .windows .destroy (closedWindow edit.2) []
  else stateEvent .windows .changed ((findWindow windows edit.2).getD windowRecordInit) []

def frameOf (windows : List WindowRecord) (edit : WindowEvent × BitVec 64) : Frame :=
  requestFrame Op.stateEvent flagEvent 0 (eventBytes (eventOf windows edit))

/-- A window is gone exactly when it is said to be. -/
def Sound (windows : List WindowRecord) (edit : WindowEvent × BitVec 64) : Prop :=
  edit.1 = .close ↔ findWindow windows edit.2 = none

theorem eventOf_handle (h : Sound windows edit) : (eventOf windows edit).window.handle = edit.2 := by
  unfold eventOf
  split_ifs with hclose
  · rfl
  · cases hfind : findWindow windows edit.2 with
    | none => exact absurd (h.mpr hfind) hclose
    | some w => exact Keyed.key_of_find hfind

theorem stateEventDecode_frameOf (windows : List WindowRecord) (edit : WindowEvent × BitVec 64) :
    stateEventDecode (frameOf windows edit).payload = some (eventOf windows edit) := by
  have hempty : (eventOf windows edit).data = [] ∧ (eventOf windows edit).sequence = 0 := by
    unfold eventOf
    split_ifs <;> exact ⟨rfl, rfl⟩
  apply stateEventDecode_eventBytes
  · rw [hempty.2]
    exact Nat.two_pow_pos 64
  · rw [hempty.1]
    rfl
  · rw [hempty.1]
    exact Nat.zero_le _

/-- What a frame says reaches the client as what the list has of the window. -/
theorem receive_frameOf (h : Sound windows edit) (table : WindowMap) :
    receive table (frameOf windows edit) = Function.update table edit.2 (findWindow windows edit.2) := by
  rw [receive, stateEventDecode_frameOf]
  dsimp only
  have hhandle := eventOf_handle h
  unfold eventOf at hhandle ⊢
  split_ifs at hhandle ⊢ with hclose
  · rw [h.mp hclose]
    rfl
  · cases hfind : findWindow windows edit.2 with
    | none => exact absurd (h.mpr hfind) hclose
    | some w =>
      rw [hfind] at hhandle
      rw [← hhandle]
      rfl

theorem emitState_eq (stream : FrameStream) (watch : WindowWatch) (domain : StateDomain) (kind : StateKind)
    (window : Option WindowRecord) {data : Bytes} (hshort : data.length ≤ maxTextBytes) :
    emitState stream watch domain kind window data =
      if 152 + textLength (window.getD windowRecordInit) + data.length ≤ maxTextBytes + 256 then
        writeFrame stream watch Op.stateEvent flagEvent 0
          (eventBytes (stateEvent domain kind (window.getD windowRecordInit) data))
      else (watch, false) := by
  have hwrites : Writes (stateEventEncode (stateEvent domain kind (window.getD windowRecordInit) data))
      (eventBytes (stateEvent domain kind (window.getD windowRecordInit) data)) := stateEventEncode_writes hshort
  have hlength : (eventBytes (stateEvent domain kind (window.getD windowRecordInit) data)).length =
      152 + textLength (window.getD windowRecordInit) + data.length := length_eventBytes _
  unfold emitState
  cases hencode : stateEventEncode (stateEvent domain kind (window.getD windowRecordInit) data)
      (bufferInit (maxTextBytes + 256)) with
  | none =>
    have hlong := hwrites.bufferInit_eq_none.mp hencode
    rw [if_neg (by omega)]
  | some payload =>
    obtain ⟨hdata, hfits⟩ := hwrites.bufferInit_eq_some hencode
    rw [hlength] at hfits
    rw [if_pos hfits, ← hdata]

/-- The frame of an event fits the buffer it is made in, and the stream takes it. -/
def Goes (stream : FrameStream) (watch : WindowWatch) (edit : WindowEvent × BitVec 64) : Prop :=
  152 + textLength (eventOf watch.windows edit).window ≤ maxTextBytes + 256 ∧ stream watch.attempts

/-- An event that goes is written; one that does not fails the watch. -/
theorem emitEvent_cases (hwatch : watch.failed = false) (h : Sound watch.windows edit) :
    (Goes stream watch edit ∧ emitEvent stream watch edit.1 edit.2 =
      { watch with written := watch.written ++ [frameOf watch.windows edit] }) ∨
    (¬Goes stream watch edit ∧ ∃ refused,
      emitEvent stream watch edit.1 edit.2 = { watch with failed := true, refused }) := by
  have hunfailed : ¬watch.failed = true := by
    rw [hwatch]
    exact Bool.false_ne_true
  have hwindow : (if edit.1 = .close then some (closedWindow edit.2) else findWindow watch.windows edit.2) =
      some (eventOf watch.windows edit).window := by
    unfold eventOf
    split_ifs with hclose
    · rfl
    · cases hfind : findWindow watch.windows edit.2 with
      | none => exact absurd (h.mpr hfind) hclose
      | some w => rfl
  have hevent : stateEvent .windows (if edit.1 = .close then .destroy else .changed)
      (eventOf watch.windows edit).window [] = eventOf watch.windows edit := by
    unfold eventOf
    split_ifs <;> rfl
  have hemit := @emitState_eq stream watch .windows (if edit.1 = .close then .destroy else .changed)
    (some (eventOf watch.windows edit).window) [] (Nat.zero_le _)
  rw [Option.getD_some, hevent] at hemit
  unfold emitEvent
  rw [if_neg hunfailed, hwindow]
  dsimp only
  rw [hemit]
  by_cases hfits : 152 + textLength (eventOf watch.windows edit).window ≤ maxTextBytes + 256
  · rw [if_pos (by exact hfits)]
    unfold writeFrame
    by_cases htaken : stream watch.attempts
    · rw [if_pos htaken]
      refine Or.inl ⟨⟨hfits, htaken⟩, ?_⟩
      dsimp only
      rw [hwatch]
      rfl
    · rw [if_neg htaken]
      exact Or.inr ⟨fun hgoes => htaken hgoes.2, watch.refused + 1, rfl⟩
  · rw [if_neg (by exact hfits)]
    exact Or.inr ⟨fun hgoes => hfits hgoes.1, watch.refused, rfl⟩

theorem emitEvent_failed (hwatch : watch.failed = true) : emitEvent stream watch edit.1 edit.2 = watch := if_pos hwatch

end Events

section Differences

variable {stream : FrameStream} {watch : WindowWatch} {previous next : List WindowRecord}
  {edits : List (WindowEvent × BitVec 64)}

/-- What a run of events has written: the frames of the first of them, and of all of them unless the watch fails. -/
structure Emitted (watch after : WindowWatch) (edits : List (WindowEvent × BitVec 64)) : Prop where
  windows : after.windows = watch.windows
  written : ∃ sent, sent <+: edits ∧ after.written = watch.written ++ sent.map (frameOf watch.windows) ∧
    (after.failed = false → sent = edits)

theorem emitEvents_failed (hwatch : watch.failed = true) :
    edits.foldl (fun watch edit => emitEvent stream watch edit.1 edit.2) watch = watch := by
  induction edits with
  | nil => rfl
  | cons edit edits ih => rw [List.foldl_cons, emitEvent_failed hwatch, ih]

theorem emitEvents_emitted (stream : FrameStream) {watch : WindowWatch} (hwatch : watch.failed = false)
    (h : ∀ edit ∈ edits, Sound watch.windows edit) :
    Emitted watch (edits.foldl (fun watch edit => emitEvent stream watch edit.1 edit.2) watch) edits := by
  induction edits generalizing watch with
  | nil => exact ⟨rfl, [], List.nil_prefix, (List.append_nil _).symm, fun _ => rfl⟩
  | cons edit edits ih =>
    rw [List.foldl_cons]
    obtain ⟨-, hemit⟩ | ⟨-, refused, hemit⟩ :=
      @emitEvent_cases stream watch edit hwatch (h edit List.mem_cons_self)
    · rw [hemit]
      have hunfailed : ({ watch with written := watch.written ++ [frameOf watch.windows edit] } : WindowWatch).failed =
          false := hwatch
      obtain ⟨hwindows, sent, hfirst, hwritten, hall⟩ :=
        ih hunfailed fun e he => h e (List.mem_cons_of_mem _ he)
      refine ⟨hwindows, edit :: sent, (List.prefix_cons_inj edit).mpr hfirst, ?_, ?_⟩
      · rw [hwritten, List.append_assoc]
        rfl
      · intro hafter
        rw [hall hafter]
    · rw [hemit, emitEvents_failed rfl]
      exact ⟨rfl, [], List.nil_prefix, (List.append_nil _).symm, fun hafter => by cases hafter⟩

/-- A watch whose stream takes everything fails for no list of windows that are short enough. -/
theorem emitEvents_unfailed (hwatch : watch.failed = false) (h : ∀ edit ∈ edits, Sound watch.windows edit)
    (hstream : ∀ n, stream n = true) (hshort : ∀ w ∈ watch.windows, textLength w ≤ maxTextBytes) :
    (edits.foldl (fun watch edit => emitEvent stream watch edit.1 edit.2) watch).failed = false := by
  induction edits generalizing watch with
  | nil => exact hwatch
  | cons edit edits ih =>
    have hgoes : Goes stream watch edit := by
      refine ⟨?_, hstream _⟩
      unfold eventOf
      split_ifs with hclose
      · have hempty : textLength (closedWindow edit.2) = 0 := rfl
        simp only [stateEvent, hempty]
        omega
      · cases hfind : findWindow watch.windows edit.2 with
        | none => exact absurd ((h edit List.mem_cons_self).mpr hfind) hclose
        | some w =>
          have hw := hshort w (List.mem_of_find?_eq_some hfind)
          simp only [stateEvent, Option.getD_some]
          omega
    obtain ⟨-, hemit⟩ | ⟨hstays, -⟩ := @emitEvent_cases stream watch edit hwatch (h edit List.mem_cons_self)
    · rw [List.foldl_cons, hemit]
      exact ih hwatch (fun e he => h e (List.mem_cons_of_mem _ he)) hshort
    · exact absurd hgoes hstays

theorem watchDiff_eq {σ : Type} (emit : σ → WindowEvent → BitVec 64 → σ) (context : σ) :
    watchDiff emit previous next context =
      (Diff.diff WindowRecord.handle stateWindowEqual previous next).foldl (fun context edit =>
        emit context edit.1 edit.2) context := by
  unfold watchDiff Diff.diff
  rw [List.foldl_append, List.foldl_filterMap, List.foldl_filterMap]
  dsimp only
  congr 1
  · funext context was
    unfold findWindow
    split_ifs <;> rfl
  · congr 1
    funext context now
    unfold findWindow
    cases Keyed.find WindowRecord.handle now.handle previous with
    | none => rfl
    | some was =>
      cases hsame : stateWindowEqual was now <;> simp [Diff.between, hsame]

/-- Every handle of a difference is told as the next list has it. -/
theorem diff_sound (hprevious : Keyed.Distinct WindowRecord.handle previous)
    (hnext : Keyed.Distinct WindowRecord.handle next) :
    ∀ edit ∈ Diff.diff WindowRecord.handle stateWindowEqual previous next, Sound next edit := by
  rintro ⟨kind, id⟩ hedit
  exact Diff.close_iff ((Diff.mem_diff hprevious hnext).mp hedit)

theorem receiveAll_frames (h : ∀ edit ∈ edits, Sound next edit) (table : WindowMap) :
    receiveAll table (edits.map (frameOf next)) = Diff.replay (findWindow next) table (edits.map Prod.snd) := by
  unfold receiveAll Diff.replay
  induction edits generalizing table with
  | nil => rfl
  | cons edit edits ih =>
    simp only [List.map_cons, List.foldl_cons]
    rw [receive_frameOf (h edit List.mem_cons_self)]
    exact ih (fun e he => h e (List.mem_cons_of_mem _ he)) _

/-- The window that a frame is about. -/
def frameHandle (frame : Frame) : Option (BitVec 64) := (stateEventDecode frame.payload).map (·.window.handle)

theorem frameHandle_frames (h : ∀ edit ∈ edits, Sound next edit) :
    (edits.map (frameOf next)).filterMap frameHandle = edits.map Prod.snd := by
  induction edits with
  | nil => rfl
  | cons edit edits ih =>
    have hhandle : frameHandle (frameOf next edit) = some edit.2 := by
      rw [frameHandle, stateEventDecode_frameOf, Option.map_some, eventOf_handle (h edit List.mem_cons_self)]
    rw [List.map_cons, List.filterMap_cons_some hhandle, ih fun e he => h e (List.mem_cons_of_mem _ he), List.map_cons]

end Differences

section Refreshes

variable {stream : FrameStream} {watch : WindowWatch} {previous next : List WindowRecord}

/-- Lists that are the same as maps. -/
def SameWindows (previous next : List WindowRecord) : Prop :=
  ∀ id, Option.Rel (fun was now => stateWindowEqual was now = true) (findWindow previous id) (findWindow next id)

/-- What a difference that is emitted comes to, for a watch that has the next list already. -/
theorem watchDiff_emitted (stream : FrameStream) (watch : WindowWatch)
    (hprevious : Keyed.Distinct WindowRecord.handle previous)
    (hnext : Keyed.Distinct WindowRecord.handle watch.windows) (hwatch : watch.failed = false) :
    Emitted watch (watchDiff (emitEvent stream) previous watch.windows watch)
      (Diff.diff WindowRecord.handle stateWindowEqual previous watch.windows) := by
  rw [watchDiff_eq]
  exact emitEvents_emitted stream hwatch (diff_sound hprevious hnext)

/-- From the previous map, the frames of a difference make the next one, each about a window of its own; for lists
that are the same there are none, and only a frame that cannot be written fails the watch. -/
theorem watchDiff_replicates (stream : FrameStream) (hprevious : Keyed.Distinct WindowRecord.handle previous)
    (hnext : Keyed.Distinct WindowRecord.handle next) :
    let after := watchDiff (emitEvent stream) previous next ⟨next, false, [], 0⟩
    (after.failed = false → receiveAll (findWindow previous) after.written = findWindow next) ∧
      (after.written.filterMap frameHandle).Nodup ∧ (∀ frame ∈ after.written, (frameHandle frame).isSome) ∧
      (SameWindows previous next → after = ⟨next, false, [], 0⟩) ∧
      ((∀ n, stream n = true) → (∀ w ∈ next, textLength w ≤ maxTextBytes) → after.failed = false) := by
  intro after
  have hsound := diff_sound hprevious hnext
  obtain ⟨-, sent, hfirst, hwritten, hall⟩ :=
    watchDiff_emitted stream ⟨next, false, [], 0⟩ hprevious hnext rfl
  rw [List.nil_append] at hwritten
  have hsent : ∀ edit ∈ sent, Sound next edit := fun edit hedit => hsound edit (hfirst.subset hedit)
  refine ⟨?_, ?_, ?_, ?_, ?_⟩
  · intro hafter
    rw [hwritten, receiveAll_frames hsent, hall hafter]
    exact Diff.replay_diff hprevious hnext fun was now h => (stateWindowEqual_iff was now).mp h
  · rw [hwritten, frameHandle_frames hsent]
    exact (Diff.diff_keys_nodup hprevious hnext).sublist (hfirst.sublist.map Prod.snd)
  · intro frame hframe
    rw [hwritten] at hframe
    obtain ⟨edit, -, rfl⟩ := List.mem_map.mp hframe
    rw [frameHandle, stateEventDecode_frameOf]
    rfl
  · intro hsame
    have hnil : Diff.diff WindowRecord.handle stateWindowEqual previous next = [] :=
      (Diff.diff_eq_nil_iff hprevious hnext).mpr hsame
    show watchDiff (emitEvent stream) previous next ⟨next, false, [], 0⟩ = _
    rw [watchDiff_eq, hnil]
    rfl
  · intro hstream hshort
    show (watchDiff (emitEvent stream) previous next ⟨next, false, [], 0⟩).failed = false
    rw [watchDiff_eq]
    exact emitEvents_unfailed rfl hsound hstream hshort

/-- A window that is gone, one that has changed and one that is new. -/
theorem watchDiff_replicates_three :
    let previous : List WindowRecord := [{ windowRecordInit with handle := 1 }, { windowRecordInit with handle := 2 }]
    let next : List WindowRecord :=
      [{ windowRecordInit with handle := 2, flags := Flag.active }, { windowRecordInit with handle := 3 }]
    let after := watchDiff (emitEvent fun _ => true) previous next ⟨next, false, [], 0⟩
    (after.failed = false → receiveAll (findWindow previous) after.written = findWindow next) ∧
      (after.written.filterMap frameHandle).Nodup ∧ (∀ frame ∈ after.written, (frameHandle frame).isSome) ∧
      (SameWindows previous next → after = ⟨next, false, [], 0⟩) ∧
      ((∀ n : ℕ, (fun _ => true) n = true) → (∀ w ∈ next, textLength w ≤ maxTextBytes) → after.failed = false) :=
  watchDiff_replicates (fun _ => true) (by decide) (by decide)

end Refreshes

section Snapshots

variable {view : View} {outputs : List Output} {table : List Toplevel} {windows : List WindowRecord}

theorem mapM_map_eq {α β γ : Type*} {f : α → Option β} (g : β → γ) (g' : α → γ) (h : ∀ a b, f a = some b → g b = g' a)
    {l : List α} {bs : List β} (hl : l.mapM f = some bs) : bs.map g = l.map g' := by
  induction l generalizing bs with
  | nil =>
    cases hl
    rfl
  | cons a l ih =>
    rw [List.mapM_cons] at hl
    obtain ⟨b, hb, hl⟩ := Option.bind_eq_some_iff.mp hl
    obtain ⟨bs, hbs, hl⟩ := Option.bind_eq_some_iff.mp hl
    cases hl
    rw [List.map_cons, List.map_cons, h a b hb, ih hbs]

theorem stateWindowJson_handle {item : Toplevel} {w : WindowRecord}
    (h : stateWindowJson (view.windowText outputs item) = some w) : w.handle = item.id := by
  obtain ⟨hid, hobject⟩ := windowText_id view outputs item
  obtain ⟨hnumber, hnamed⟩ := number_handle item
  unfold stateWindowJson at h
  simp only [hobject, hid, hnumber, Option.bind_eq_bind, Option.bind_some, if_neg hnamed, Option.bind_eq_some_iff,
    Option.some.injEq] at h
  obtain ⟨title, -, appId, -, captureId, -, compositorId, -, rfl⟩ := h
  exact BitVec.ofNat_toNat 64 item.id

/-- A snapshot has the handles of the windows that it is taken of. -/
theorem snapshot_handles (h : snapshot view outputs table = some windows) :
    windows.map WindowRecord.handle = (table.filter view.usable).map Toplevel.id := by
  have hmap := mapM_map_eq WindowRecord.handle (Toplevel.id ∘ Prod.fst) ?_ h
  · rw [hmap, ← List.map_map, List.zipIdx_map_fst]
  · rintro ⟨item, used⟩ w hw
    obtain ⟨b, hb, hw⟩ := Option.bind_eq_some_iff.mp hw
    obtain ⟨read, hread, hw⟩ := Option.bind_eq_some_iff.mp hw
    cases hw
    rw [(appendWindow_writes view outputs item).data hb] at hread
    have hhandle : read.handle = item.id := stateWindowJson_handle hread
    exact hhandle

theorem snapshot_distinct {table : ToplevelTable} (h : snapshot view outputs table.items = some windows) :
    Keyed.Distinct WindowRecord.handle windows := by
  unfold Keyed.Distinct
  rw [snapshot_handles h]
  exact table.usable_distinct view

end Snapshots

section Runs

variable {stream : FrameStream} {watch : WindowWatch} {view : Option View} {initial : WindowMap}

/-- A client that had `initial` follows a watch: what it has received makes it know the watch's windows. -/
structure Follows (initial : WindowMap) (watch : WindowWatch) : Prop where
  distinct : Keyed.Distinct WindowRecord.handle watch.windows
  known : watch.failed = false → receiveAll initial watch.written = findWindow watch.windows

theorem Follows.updateWindows (h : Follows initial watch) (outputs : List Output) (table : ToplevelTable) :
    Follows initial (Watch.updateWindows stream view outputs table true watch).1 := by
  unfold Watch.updateWindows
  cases view with
  | none => exact h
  | some view =>
    dsimp only
    cases hsnapshot : snapshot view outputs table.items with
    | none => exact h
    | some windows =>
      have hdistinct := snapshot_distinct hsnapshot
      have hsound := diff_sound h.distinct hdistinct
      dsimp only
      rw [if_pos rfl, watchDiff_eq]
      cases hwatch : watch.failed with
      | true =>
        rw [emitEvents_failed rfl]
        exact ⟨hdistinct, fun hunfailed => by cases hunfailed⟩
      | false =>
        have hunfailed : ({ watch with windows } : WindowWatch).failed = false := hwatch
        obtain ⟨hwindows, sent, -, hwritten, hall⟩ := emitEvents_emitted stream hunfailed hsound
        rw [hwatch] at hwindows hwritten hall
        constructor
        · rw [hwindows]
          exact hdistinct
        · intro hafter
          rw [hwritten, hall hafter, hwindows]
          unfold receiveAll
          rw [List.foldl_append]
          change receiveAll (receiveAll initial watch.written) _ = _
          rw [h.known hwatch, receiveAll_frames hsound]
          exact Diff.replay_diff h.distinct hdistinct fun was now hsame => (stateWindowEqual_iff was now).mp hsame

/-- Over every run of refreshes, a client knows the windows of the watch until it fails: no change is lost between
two refreshes, also where one of them has no snapshot. -/
theorem Follows.run (h : Follows initial watch) (tables : List (List Output × ToplevelTable)) :
    Follows initial (tables.foldl (fun watch t => (Watch.updateWindows stream view t.1 t.2 true watch).1) watch) := by
  induction tables generalizing watch with
  | nil => exact h
  | cons t tables ih =>
    rw [List.foldl_cons]
    exact ih (h.updateWindows t.1 t.2)

end Runs

end KeysharpDesktop.Watch
