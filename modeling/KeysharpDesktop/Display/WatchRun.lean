import KeysharpDesktop.Authority.Source
import KeysharpDesktop.Display.Watch
import KeysharpDesktop.Hypr.Events
import KeysharpDesktop.Kwin.Text
import KeysharpDesktop.Lib.Transition

/-! The watch of a Wayland compositor as it runs: its opening snapshots, the loop that looks again, and a reader that
knows by its stream what it has seen last. -/
namespace KeysharpDesktop.Watch

open KeysharpDesktop.Wayland
open KeysharpDesktop.Hypr (EventReader eventReaderInit eventFeedAll eventFeedAll_eq)

section Keyboard

/-- A keymap, its checksum and its layouts, with the one that is in use where the compositor says. -/
structure Keymap where
  text : Bytes
  revision : Bytes
  layouts : List Bytes
  group : Option ℕ
  named : revision.length = 64

/-- What a query of the keyboard or of the displays comes to. -/
structure AuxAnswer where
  status : Status
  tail : Bytes
  deriving DecidableEq

def keymapEscape (byte : UInt8) : Bytes :=
  if byte = 34 ∨ byte = 92 then [92, byte]
  else if byte.toNat < 32 then jsonEscape false byte
  else [byte]

/-- The `json_string` of the keyboard. -/
def keymapString (text : Bytes) : Bytes := 34 :: (text.flatMap keymapEscape ++ [34])

/-- A keymap that a reader has already is left out. -/
def keyboardText (keymap : Keymap) (unchanged : Bool) : Bytes :=
  ascii "\x7b\"ok\":true,\"validFields\":[" ++ (if unchanged then [] else ascii "\"keymap\",") ++
    ascii (if keymap.group.isSome then "\"layouts\",\"mapRevision\",\"group\"]" else "\"layouts\",\"mapRevision\"]") ++
    (if unchanged then [] else ascii ",\"keymap\":" ++ keymapString keymap.text) ++
    ascii ",\"mapRevision\":" ++ keymapString keymap.revision ++
    (match keymap.group with
      | some group => ascii ",\"group\":" ++ decimalText group
      | none => []) ++
    ascii ",\"layouts\":[" ++ (ascii ",").intercalate (keymap.layouts.map keymapString) ++ ascii "]\x7d"

/-- A text as it is answered with: behind its length, unless it is too long. -/
def framedAnswer (text : Bytes) : AuxAnswer :=
  match (bufferBytes (bufferInit maxTextBytes) text).bind (bufferFrameText · maxTextBytes) with
  | some framed => ⟨Status.ok, framed.data⟩
  | none => ⟨Status.resourceExhausted, []⟩

/-- `ksd_wayland_keyboard_snapshot_since`. -/
def keyboardSnapshotSince (keymap : Option Keymap) (since : Bytes) : AuxAnswer :=
  match keymap with
  | none => ⟨Status.unavailable, []⟩
  | some keymap => framedAnswer (keyboardText keymap (since = keymap.revision))

end Keyboard

section Displays

/-- The outputs at a question: whether they can be listed, whether the compositor answers in time when it is waited
for, whether each output has its place and its size, and what `serialize_displays` writes of them. An output's name is
copied there byte for byte. -/
structure Displays where
  available : Bool
  answered : Bool
  complete : Bool
  text : Bytes

/-- `ksd_wayland_display_list`. -/
def displayList (displays : Displays) : AuxAnswer :=
  if !displays.available then ⟨Status.unsupported, []⟩
  else if !displays.answered then ⟨Status.timeout, []⟩
  else framedAnswer displays.text

/-- `ksd_wayland_display_snapshot`. -/
def displaySnapshot (displays : Displays) : AuxAnswer :=
  if !displays.available then ⟨Status.unsupported, []⟩
  else if !displays.complete then ⟨Status.unavailable, []⟩
  else framedAnswer displays.text

end Displays

section Model

def tickMs : ℕ := 250
def coalesceMs : ℕ := 30
def refreshFailures : ℕ := 3
def refreshByte : UInt8 := 1

/-- What a refresh meets at the compositor: whether it answers about windows and about the keyboard, and what it
has. -/
structure Surroundings where
  refreshed : Bool
  outputs : List Output
  table : ToplevelTable
  responds : Bool
  keymap : Option Keymap
  displays : Displays

structure WatchState extends WindowWatch where
  keyboardState : Bytes
  displayState : Bytes
  revision : Bytes
  deriving DecidableEq

/-- The last state of a domain that was sent. -/
def WatchState.aux (watch : WatchState) (domain : StateDomain) : Bytes :=
  if domain = .keyboard then watch.keyboardState else watch.displayState

def WatchState.setAux (watch : WatchState) (domain : StateDomain) (json : Bytes) : WatchState :=
  if domain = .keyboard then { watch with keyboardState := json } else { watch with displayState := json }

def WatchState.setWindows (watch : WatchState) (windows : WindowWatch) : WatchState :=
  { watch with toWindowWatch := windows }

variable (stream : FrameStream) (view : Option View)

/-- The frames of a snapshot with one item, or one of a change. -/
def emitAux (domain : StateDomain) (initial : Bool) (json : Bytes) (watch : WindowWatch) : WindowWatch × Bool :=
  if initial then
    let (watch, ok) := emitState stream watch domain .snapshotBegin none []
    if !ok then (watch, false)
    else
      let (watch, ok) := emitState stream watch domain .snapshotItem none json
      if !ok then (watch, false) else emitState stream watch domain .snapshotEnd none []
  else emitState stream watch domain .changed none json

/-- Only the first question waits for the compositor. -/
def auxAnswer (domain : StateDomain) (initial : Bool) (around : Surroundings) (watch : WatchState) : AuxAnswer :=
  if domain = .keyboard then
    if initial && !around.responds then ⟨Status.unavailable, []⟩
    else keyboardSnapshotSince around.keymap watch.revision
  else if initial then displayList around.displays
  else displaySnapshot around.displays

/-- A state that was said last is not said again. -/
def sayAux (domain : StateDomain) (initial : Bool) (json : Bytes) (watch : WatchState) : WatchState × Bool :=
  if initial ∨ watch.aux domain ≠ json then
    let (windows, ok) := emitAux stream domain initial json watch.toWindowWatch
    match bufferBytes (bufferInit maxTextBytes) json with
    | some state => ((watch.setWindows windows).setAux domain state.data, ok)
    | none => ((watch.setWindows windows).setAux domain [], false)
  else (watch, true)

/-- The keymap that a reader has from now on. -/
def WatchState.revise (watch : WatchState) (domain : StateDomain) (around : Surroundings) : WatchState :=
  match around.keymap with
  | some keymap => if domain = .keyboard then { watch with revision := keymap.revision } else watch
  | none => watch

def auxiliaryState (domain : StateDomain) (initial : Bool) (around : Surroundings) (watch : WatchState) :
    WatchState × Bool :=
  let answer := auxAnswer domain initial around watch
  if answer.status = Status.ok ∧ 4 ≤ answer.tail.length then
    let (watch, ok) := sayAux stream domain initial (answer.tail.drop 4) watch
    (if ok then watch.revise domain around else watch, ok)
  else (watch, true)

/-- The two domains beside the windows. -/
def auxiliaryStates (initial : Bool) (around : Surroundings) (watch : WatchState) : WatchState × Bool :=
  let (watch, ok) := auxiliaryState stream .keyboard initial around watch
  if !ok then (watch, false) else auxiliaryState stream .displays initial around watch

def emitItems : List WindowRecord → WindowWatch → WindowWatch × Bool
  | [], watch => (watch, true)
  | window :: windows, watch =>
    let (watch, ok) := emitState stream watch .windows .snapshotItem (some window) []
    if !ok then (watch, false) else emitItems windows watch

def initialWindows (watch : WindowWatch) : WindowWatch × Bool :=
  if view.isNone then (watch, true)
  else
    let (watch, ok) := emitState stream watch .windows .snapshotBegin none []
    if !ok then (watch, false)
    else
      let (watch, ok) := emitItems stream watch.windows watch
      if !ok then (watch, false) else emitState stream watch .windows .snapshotEnd none []

def refresh (emit auxiliary : Bool) (around : Surroundings) (watch : WatchState) : WatchState × Bool :=
  if !(view.isNone || around.refreshed) then (watch, false)
  else
    let (watch, ok) := if auxiliary then auxiliaryStates stream false around watch else (watch, true)
    if !ok then (watch, false)
    else
      let (windows, ok) := updateWindows stream view around.outputs around.table emit watch.toWindowWatch
      (watch.setWindows windows, ok)

/-- What a descriptor that does not block has: the pieces that are received, between which a call may be interrupted,
and whether the last call would have blocked. -/
structure Arrivals where
  pieces : List (Option Bytes)
  blocked : Bool

def Arrivals.bytes (arrivals : Arrivals) : List Bytes := arrivals.pieces.filterMap id

/-- `read_events`: the reader, whether a line was ended, and whether Hyprland keeps the stream open. -/
def readEvents (arrivals : Arrivals) (reader : EventReader) (dirty : Bool) : EventReader × Bool × Bool :=
  let (names, reader) := eventFeedAll reader arrivals.bytes
  (reader, dirty || !names.isEmpty, arrivals.blocked)

/-- `receive_refresh`: an authority asks by bytes of its own, and of nothing else. -/
def receiveRefresh (arrivals : Arrivals) : Bool :=
  let bytes := arrivals.bytes.flatten
  bytes.all (· == refreshByte) && arrivals.blocked && !bytes.isEmpty

/-- What the poll says of the stream's descriptor. -/
inductive Asked
  | quiet
  | gone
  | readable (arrivals : Arrivals)

/-- What the poll says of the display, and whether what it has can be dispatched. -/
structure Displayed where
  broken : Bool
  readable : Bool
  dispatched : Bool

inductive Flush
  | done | full | broken

inductive Woken
  | interrupted
  | failed
  | ready (asked : Asked) (display : Option Displayed) (events : Option Arrivals)

/-- What a turn of the loop meets: the flush of the display, the poll, the clock behind it, the compositor when it is
asked, and the clock after that. -/
structure Turn where
  flush : Flush
  woken : Woken
  now : ℕ
  around : Surroundings
  after : ℕ

structure WatchLoop where
  watch : WatchState
  reader : EventReader
  dirty : Bool
  failures : ℕ
  lastRefresh : ℕ
  nextTick : ℕ
  ok : Bool
  ended : Bool

/-- The loop has been left, by its condition or by a break. -/
def WatchLoop.over (s : WatchLoop) : Bool := s.ended || !s.ok || s.watch.failed

def WatchLoop.leave (s : WatchLoop) (ok : Bool) : WatchLoop := { s with ok, ended := true }

def WatchLoop.scheduled (s : WatchLoop) (hypr : Bool) (now : ℕ) : Bool :=
  (hypr && s.nextTick ≤ now) || (s.dirty && (!hypr || s.lastRefresh + coalesceMs ≤ now))

variable (hypr : Bool)

/-- The end of a turn. Samples of the windows alone do not put off the rest. -/
def look (s : WatchLoop) (requested : Bool) (t : Turn) : WatchLoop :=
  let scheduled := s.scheduled hypr t.now
  if !requested && !scheduled then s
  else
    let (watch, ok) := refresh stream view true scheduled t.around s.watch
    let failures := if ok then 0 else s.failures + 1
    let s := { s with watch, failures, ok := failures < refreshFailures }
    if scheduled then { s with dirty := false, lastRefresh := t.after, nextTick := t.after + tickMs } else s

/-- What the descriptors have, in the order that the loop looks at them. -/
def serve (s : WatchLoop) (t : Turn) (asked : Asked) (display : Option Displayed) (events : Option Arrivals) :
    WatchLoop :=
  match asked with
  | .gone => s.leave true
  | .quiet => hear s t false display events
  | .readable arrivals => if receiveRefresh arrivals then hear s t true display events else s.leave true
where
  hear (s : WatchLoop) (t : Turn) (requested : Bool) (display : Option Displayed) (events : Option Arrivals) :
      WatchLoop :=
    match display with
    | some display =>
      if display.broken || display.readable && !display.dispatched then s.leave false
      else listen { s with dirty := s.dirty || display.readable } t requested events
    | none => listen s t requested events
  listen (s : WatchLoop) (t : Turn) (requested : Bool) (events : Option Arrivals) : WatchLoop :=
    match events with
    | some arrivals =>
      let (reader, dirty, blocked) := readEvents arrivals s.reader s.dirty
      if blocked then look stream view hypr { s with reader, dirty } requested t
      else { s with reader, dirty }.leave false
    | none => look stream view hypr s requested t

/-- A turn of the loop. -/
def turn (s : WatchLoop) (t : Turn) : WatchLoop :=
  if s.over then s
  else
    match t.flush, t.woken with
    | .broken, _ => s.leave false
    | _, .interrupted => s
    | _, .failed => s.leave false
    | _, .ready asked display events => serve stream view hypr s t asked display events

/-- What is known before the loop: a Hyprland whose events can be heard, and the compositor at two times. -/
structure Opening where
  hypr : Bool
  eventsOpen : Bool
  requestId : BitVec 64
  first : Surroundings
  second : Surroundings
  now : ℕ

def watchInit : WatchState := ⟨⟨[], false, [], 0⟩, [], [], []⟩

def openingAnswer (hypr ok : Bool) : Bytes :=
  encodeU32 (if ok then Status.ok else Status.unavailable) ++ encodeU32 (if hypr then 1 else 0)

/-- `ksd_wayland_watch_run` up to its loop. -/
def watchStart (o : Opening) : WatchLoop :=
  let (watch, ok) := if !o.hypr || o.eventsOpen then refresh stream view false false o.first watchInit
    else (watchInit, false)
  let (windows, sent) := writeFrame stream watch.toWindowWatch 0 0 o.requestId (openingAnswer o.hypr ok)
  let watch := watch.setWindows windows
  let (watch, ok) :=
    if !(sent && ok) then (watch, false)
    else
      let (watch, ok) := auxiliaryStates stream true o.second watch
      if !ok then (watch, false)
      else
        let (windows, ok) := updateWindows stream view o.second.outputs o.second.table false watch.toWindowWatch
        let watch := watch.setWindows windows
        if !ok then (watch, false)
        else
          let (windows, ok) := initialWindows stream view watch.toWindowWatch
          (watch.setWindows windows, ok)
  ⟨watch, eventReaderInit, false, 0, o.now, o.now + tickMs, ok, false⟩

/-- A watch, after some turns of its loop. -/
def watchRun (o : Opening) (turns : List Turn) : WatchLoop :=
  turns.foldl (turn stream view o.hypr) (watchStart stream view o)

end Model

section Reading

/-- What a reader of the stream knows: the windows, and the last state of the other two domains. -/
structure Known where
  reader : Reader
  keyboard : Option Bytes
  displays : Option Bytes

/-- The kinds that carry the state of a domain that is not about windows. -/
def carriesState (kind : StateKind) : Bool := kind = .snapshotItem || kind = .changed

def Known.hear (known : Known) (event : StateEvent) : Known :=
  { reader := known.reader.apply event
    keyboard := if event.domain = .keyboard ∧ carriesState event.kind then some event.data else known.keyboard
    displays := if event.domain = .displays ∧ carriesState event.kind then some event.data else known.displays }

/-- A reader takes the events, and gives up at one that it cannot read. The answer to the request is none. -/
def Known.take (known : Known) (frame : Frame) : Option Known :=
  if frame.flags != flagEvent then some known else (sourceEvent frame).map known.hear

def Known.takeAll (known : Known) (frames : List Frame) : Option Known := frames.foldlM Known.take known

theorem takeAll_append (known : Known) (xs ys : List Frame) :
    known.takeAll (xs ++ ys) = (known.takeAll xs).bind fun known => known.takeAll ys := List.foldlM_append

theorem takeAll_cons (known : Known) (frame : Frame) (frames : List Frame) :
    known.takeAll (frame :: frames) = (known.take frame).bind fun known => known.takeAll frames := List.foldlM_cons

theorem takeAll_singleton (known : Known) (frame : Frame) : known.takeAll [frame] = known.take frame := by
  rw [takeAll_cons]
  exact Option.bind_fun_some _

def stateFrame (domain : StateDomain) (kind : StateKind) (window : WindowRecord) (data : Bytes) : Frame :=
  requestFrame Op.stateEvent flagEvent 0 (eventBytes (stateEvent domain kind window data))

variable {known : Known} {domain : StateDomain} {kind : StateKind} {window : WindowRecord} {data : Bytes}

theorem sourceEvent_stateFrame (hvalid : utf8Valid false data) (hshort : data.length ≤ maxTextBytes) :
    sourceEvent (stateFrame domain kind window data) = some (stateEvent domain kind window data) :=
  stateEventDecode_eventBytes (Nat.two_pow_pos 64) hvalid hshort

theorem take_stateFrame (hvalid : utf8Valid false data) (hshort : data.length ≤ maxTextBytes) :
    known.take (stateFrame domain kind window data) = some (known.hear (stateEvent domain kind window data)) := by
  have htake : known.take (stateFrame domain kind window data) =
      (sourceEvent (stateFrame domain kind window data)).map known.hear := rfl
  rw [htake, sourceEvent_stateFrame hvalid hshort, Option.map_some]

theorem take_stateFrame_none (hinvalid : ¬utf8Valid false data) (hshort : data.length ≤ maxTextBytes) :
    known.take (stateFrame domain kind window data) = none := by
  have hsource : sourceEvent (stateFrame domain kind window data) = none := stateEventDecode_eq_none hinvalid hshort
  have htake : known.take (stateFrame domain kind window data) =
      (sourceEvent (stateFrame domain kind window data)).map known.hear := rfl
  rw [htake, hsource, Option.map_none]

theorem take_empty (known : Known) (domain : StateDomain) (kind : StateKind) (window : WindowRecord) :
    known.take (stateFrame domain kind window []) = some (known.hear (stateEvent domain kind window [])) :=
  take_stateFrame rfl (Nat.zero_le _)

end Reading

section Emitting

variable {domain : StateDomain} {kind : StateKind} {window : Option WindowRecord} {data : Bytes}

theorem stateEventEncode_eq_none {event : StateEvent} (h : maxTextBytes < event.data.length) (b : Buffer) :
    stateEventEncode event b = none := by
  have htext : ∀ b, encodeText b event.data = none := by
    intro b
    rw [encodeText, if_neg (by omega)]
  unfold stateEventEncode
  simp only [htext, Option.bind_eq_bind, Option.bind_fun_none]

/-- What the emission of an event may come to: it is too long, or it is refused, or it is in the stream. -/
inductive Emission (watch : WindowWatch) (domain : StateDomain) (kind : StateKind) (window : Option WindowRecord)
    (data : Bytes) : WindowWatch × Bool → Prop
  | long (hlong : maxTextBytes < data.length ∨
      maxTextBytes + 104 < textLength (window.getD windowRecordInit) + data.length) :
      Emission watch domain kind window data (watch, false)
  | refused : Emission watch domain kind window data ({ watch with refused := watch.refused + 1 }, false)
  | taken (hshort : data.length ≤ maxTextBytes) : Emission watch domain kind window data
      ({ watch with written := watch.written ++ [stateFrame domain kind (window.getD windowRecordInit) data] }, true)

theorem emitState_emission (stream : FrameStream) (watch : WindowWatch) (domain : StateDomain) (kind : StateKind)
    (window : Option WindowRecord) (data : Bytes) :
    Emission watch domain kind window data (emitState stream watch domain kind window data) := by
  by_cases hlong : maxTextBytes < data.length
  · have hnone := @stateEventEncode_eq_none (stateEvent domain kind (window.getD windowRecordInit) data) hlong
      (bufferInit (maxTextBytes + 256))
    unfold emitState
    rw [hnone]
    exact .long (Or.inl hlong)
  · have hshort : data.length ≤ maxTextBytes := Nat.not_lt.mp hlong
    rw [emitState_eq stream watch domain kind window hshort]
    split_ifs with hfits
    · unfold writeFrame
      split_ifs
      · exact .taken hshort
      · exact .refused
    · refine .long (Or.inr ?_)
      omega

end Emitting

section Answers

variable {around : Surroundings}

/-- Of the surroundings: what there is to say of the keyboard and of the displays is text. -/
structure Surroundings.Legible (around : Surroundings) : Prop where
  keyboard : ∀ keymap unchanged, around.keymap = some keymap → utf8Valid false (keyboardText keymap unchanged)
  displays : utf8Valid false around.displays.text

/-- An answer is empty, or it is a text that fits behind its length. -/
theorem framedAnswer_tail (text : Bytes) :
    (framedAnswer text).tail = [] ∨ text.length ≤ maxTextBytes ∧ (framedAnswer text).tail.drop 4 = text ∧
      (framedAnswer text).tail.length = 4 + text.length := by
  unfold framedAnswer
  cases hframed : (bufferBytes (bufferInit maxTextBytes) text).bind (bufferFrameText · maxTextBytes) with
  | none => exact Or.inl rfl
  | some framed =>
    obtain ⟨b, hb, hframe⟩ := Option.bind_eq_some_iff.mp hframed
    obtain ⟨hdata, hfits⟩ := (bufferBytes_writes _).bufferInit_eq_some hb
    obtain ⟨c, hc, hcdata⟩ := @bufferFrameText_eq b (by rwa [hdata])
    rw [hc] at hframe
    cases hframe
    rw [hdata] at hcdata
    refine Or.inr ⟨hfits, ?_, ?_⟩
    · show framed.data.drop 4 = _
      rw [hcdata]
      exact List.drop_left' (length_encodeU32 _)
    · show framed.data.length = _
      rw [hcdata, List.length_append, length_encodeU32]

/-- What is said of a domain: nothing, or what the surroundings have of it. -/
theorem auxAnswer_eq (domain : StateDomain) (initial : Bool) (around : Surroundings) (watch : WatchState) :
    (auxAnswer domain initial around watch).tail = [] ∨
      ∃ text, (auxAnswer domain initial around watch).tail = (framedAnswer text).tail ∧
        (around.Legible → utf8Valid false text) := by
  unfold auxAnswer keyboardSnapshotSince displayList displaySnapshot
  split_ifs
  · exact Or.inl rfl
  · cases hkeymap : around.keymap with
    | none => exact Or.inl rfl
    | some keymap => exact Or.inr ⟨_, rfl, fun h => h.keyboard keymap _ hkeymap⟩
  · exact Or.inl rfl
  · exact Or.inl rfl
  · exact Or.inr ⟨_, rfl, fun h => h.displays⟩
  · exact Or.inl rfl
  · exact Or.inl rfl
  · exact Or.inr ⟨_, rfl, fun h => h.displays⟩

theorem auxAnswer_tail (domain : StateDomain) (initial : Bool) (around : Surroundings) (watch : WatchState) :
    (auxAnswer domain initial around watch).tail.length ≤ maxTextBytes + 4 ∧
      (around.Legible → utf8Valid false ((auxAnswer domain initial around watch).tail.drop 4)) := by
  obtain hnone | ⟨text, htail, htext⟩ := auxAnswer_eq domain initial around watch
  · rw [hnone]
    exact ⟨Nat.zero_le _, fun _ => rfl⟩
  · rw [htail]
    obtain hnone | ⟨hfits, hdrop, hlength⟩ := framedAnswer_tail text
    · rw [hnone]
      exact ⟨Nat.zero_le _, fun _ => rfl⟩
    · rw [hdrop, hlength]
      exact ⟨by omega, htext⟩

end Answers

section Following

variable {stream : FrameStream} {domain : StateDomain} {kind : StateKind} {json : Bytes}

/-- A frame has been refused, or the watch has given up. -/
def Lost (watch : WindowWatch) : Prop := watch.failed = true ∨ watch.refused ≠ 0

def knownInit : Known := ⟨⟨[], []⟩, none, none⟩

/-- What a reader knows who has read all that is written, unless it has given up. -/
def heard (watch : WindowWatch) : Option Known := knownInit.takeAll watch.written

theorem heard_written (watch : WindowWatch) (frame : Frame) :
    heard { watch with written := watch.written ++ [frame] } = (heard watch).bind fun known => known.take frame := by
  rw [heard, takeAll_append]
  simp only [takeAll_singleton]
  rfl

def Known.setAux (known : Known) (domain : StateDomain) (json : Bytes) : Known :=
  if domain = .keyboard then { known with keyboard := some json } else { known with displays := some json }

theorem take_aux {known : Known} (hdomain : domain = .keyboard ∨ domain = .displays) (hvalid : utf8Valid false json)
    (hshort : json.length ≤ maxTextBytes) :
    known.take (stateFrame domain kind windowRecordInit json) =
      some (if carriesState kind then known.setAux domain json else known) := by
  rw [take_stateFrame hvalid hshort]
  rcases hdomain with rfl | rfl <;> cases kind <;> rfl

/-- What a watch writes goes behind what it has written, and a reader that has given up hears no more. -/
structure Grown (before after : WindowWatch) : Prop where
  windows : after.windows = before.windows
  lost : Lost before → Lost after
  deaf : heard before = none → heard after = none

theorem Grown.refl (watch : WindowWatch) : Grown watch watch := ⟨rfl, id, id⟩

theorem Grown.trans {a b c : WindowWatch} (hab : Grown a b) (hbc : Grown b c) : Grown a c :=
  ⟨hbc.windows.trans hab.windows, hbc.lost ∘ hab.lost, hbc.deaf ∘ hab.deaf⟩

theorem Emission.grown {watch : WindowWatch} {window : Option WindowRecord} {data : Bytes} {r : WindowWatch × Bool}
    (h : Emission watch domain kind window data r) : Grown watch r.1 := by
  cases h with
  | long => exact Grown.refl watch
  | refused => exact ⟨rfl, fun _ => Or.inr (Nat.succ_ne_zero _), id⟩
  | taken =>
    refine ⟨rfl, id, fun hdeaf => ?_⟩
    rw [heard_written, hdeaf, Option.bind_none]

/-- What is written beside the windows changes what a reader knows as `change` does, unless a frame of it is refused, or
it is no text and the reader gives up. -/
structure Said (legible : Prop) (before after : WindowWatch) (change : Known → Known) : Prop
    extends Grown before after where
  known : Lost after ∨ ¬legible ∧ heard after = none ∨ heard after = (heard before).map change

section Said

variable {legible : Prop} {a b c : WindowWatch} {f g : Known → Known}

theorem Said.trans (hab : Said legible a b f) (hbc : Said legible b c g) : Said legible a c (g ∘ f) := by
  refine ⟨hab.toGrown.trans hbc.toGrown, ?_⟩
  obtain hlost | hnone | hc := hbc.known
  · exact Or.inl hlost
  · exact Or.inr (Or.inl hnone)
  · obtain hlost | ⟨hillegible, hnone⟩ | hb := hab.known
    · exact Or.inl (hbc.lost hlost)
    · rw [hnone, Option.map_none] at hc
      exact Or.inr (Or.inl ⟨hillegible, hc⟩)
    · rw [hb, Option.map_map] at hc
      exact Or.inr (Or.inr hc)

theorem Said.congr (h : Said legible a b f) (hsame : ∀ known, f known = g known) : Said legible a b g := by
  have hfg : f = g := funext hsame
  rw [← hfg]
  exact h

/-- Of what is lost nothing is known. -/
theorem Said.giveUp (h : Said legible a b f) (hlost : Lost b) : Said legible a b g := ⟨h.toGrown, Or.inl hlost⟩

end Said

theorem emitState_said (hdomain : domain = .keyboard ∨ domain = .displays) (hshort : json.length ≤ maxTextBytes)
    (watch : WindowWatch) :
    Said (utf8Valid false json) watch (emitState stream watch domain kind none json).1
        (fun known => if carriesState kind then known.setAux domain json else known) ∧
      ((emitState stream watch domain kind none json).2 = false →
        Lost (emitState stream watch domain kind none json).1) := by
  have hemission := emitState_emission stream watch domain kind none json
  have hgrown := hemission.grown
  generalize emitState stream watch domain kind none json = r at hemission hgrown ⊢
  cases hemission with
  | long hlong =>
    have htext : textLength ((none : Option WindowRecord).getD windowRecordInit) = 0 := rfl
    omega
  | refused =>
    have hrefused : Lost { watch with refused := watch.refused + 1 } := Or.inr (Nat.succ_ne_zero _)
    exact ⟨⟨hgrown, Or.inl hrefused⟩, fun _ => hrefused⟩
  | taken =>
    refine ⟨⟨hgrown, Or.inr ?_⟩, nofun⟩
    rw [heard_written, Option.getD_none]
    by_cases hvalid : utf8Valid false json
    · right
      simp only [take_aux hdomain hvalid hshort]
      exact Option.map_eq_bind.symm
    · have hnone : ∀ known : Known, known.take (stateFrame domain kind windowRecordInit json) = none :=
        fun known => take_stateFrame_none hvalid hshort
      refine Or.inl ⟨hvalid, ?_⟩
      simp only [hnone, Option.bind_fun_none]

theorem Said.of_empty {legible : Prop} {a b : WindowWatch} {f : Known → Known} (h : Said (utf8Valid false []) a b f) :
    Said legible a b f :=
  ⟨h.toGrown, h.known.imp_right fun hknown => hknown.imp_left fun hnone => absurd rfl hnone.1⟩

theorem emitAux_said (hdomain : domain = .keyboard ∨ domain = .displays) (hshort : json.length ≤ maxTextBytes)
    (initial : Bool) (watch : WindowWatch) :
    Said (utf8Valid false json) watch (emitAux stream domain initial json watch).1 (Known.setAux · domain json) := by
  unfold emitAux
  cases initial with
  | false =>
    rw [if_neg Bool.false_ne_true]
    exact (emitState_said hdomain hshort watch).1.congr fun known => if_pos rfl
  | true =>
    obtain ⟨hbegin, hbroken⟩ := @emitState_said stream domain .snapshotBegin [] hdomain (Nat.zero_le _) watch
    rw [if_pos rfl]
    rcases hfirst : emitState stream watch domain .snapshotBegin none [] with ⟨begun, ok⟩
    rw [hfirst] at hbegin hbroken
    have hbegun : Said (utf8Valid false json) watch begun _ := hbegin.of_empty
    cases ok with
    | false => exact hbegun.giveUp (hbroken rfl)
    | true =>
      obtain ⟨hitem, hbroken⟩ := @emitState_said stream domain .snapshotItem json hdomain hshort begun
      dsimp only
      rw [if_neg (by exact Bool.false_ne_true)]
      rcases hsecond : emitState stream begun domain .snapshotItem none json with ⟨told, ok⟩
      rw [hsecond] at hitem hbroken
      cases ok with
      | false => exact (hbegun.trans hitem).giveUp (hbroken rfl)
      | true =>
        have hend := (@emitState_said stream domain .snapshotEnd [] hdomain (Nat.zero_le _) told).1
        dsimp only
        rw [if_neg (by exact Bool.false_ne_true)]
        exact ((hbegun.trans hitem).trans hend.of_empty).congr fun known => by simp [carriesState]

/-- What a reader knows of the other domains is what was said last, and of the windows what `P` says, unless the stream
is lost, or the reader has given up at what one of the surroundings met has that is no text. -/
def Followed (met : Surroundings → Prop) (P : Reader → List WindowRecord → Prop) (watch : WatchState) : Prop :=
  Lost watch.toWindowWatch ∨
    (heard watch.toWindowWatch = none ∧ ∃ around, met around ∧ ¬around.Legible) ∨
    ∃ known, heard watch.toWindowWatch = some known ∧ P known.reader watch.windows ∧
      known.keyboard.getD [] = watch.keyboardState ∧ known.displays.getD [] = watch.displayState

variable {met : Surroundings → Prop} {P : Reader → List WindowRecord → Prop} {watch : WatchState}
  {around : Surroundings}

theorem Followed.sayAux (h : Followed met P watch) (hdomain : domain = .keyboard ∨ domain = .displays)
    (hmet : ¬utf8Valid false json → ∃ around, met around ∧ ¬around.Legible) (hshort : json.length ≤ maxTextBytes)
    (initial : Bool) : Followed met P (Watch.sayAux stream domain initial json watch).1 := by
  unfold Watch.sayAux
  split_ifs
  · have hsaid := @emitAux_said stream domain json hdomain hshort initial watch.toWindowWatch
    generalize emitAux stream domain initial json watch.toWindowWatch = emitted at hsaid ⊢
    obtain ⟨windows, ok⟩ := emitted
    obtain ⟨⟨hwindows, hlost, -⟩, hknown⟩ := hsaid
    obtain ⟨state, hstate⟩ : ∃ state, bufferBytes (bufferInit maxTextBytes) json = some state := by
      rw [← Option.isSome_iff_exists, Option.isSome_iff_ne_none, ne_eq, (bufferBytes_writes json).bufferInit_eq_none]
      omega
    have hdata := ((bufferBytes_writes json).bufferInit_eq_some hstate).1
    dsimp only at hwindows hlost hknown ⊢
    rw [hstate]
    dsimp only
    rw [hdata]
    have hsame : ((watch.setWindows windows).setAux domain json).toWindowWatch = windows := by
      rcases hdomain with rfl | rfl <;> rfl
    unfold Followed
    rw [hsame]
    rcases h with h | h
    · exact Or.inl (hlost h)
    · obtain hbroken | ⟨hinvalid, hnone⟩ | hheard := hknown
      · exact Or.inl hbroken
      · exact Or.inr (Or.inl ⟨hnone, hmet hinvalid⟩)
      · rw [hheard, hwindows]
        obtain ⟨hnone, hunread⟩ | ⟨known, hsome, hP, hkeyboard, hdisplays⟩ := h
        · rw [hnone]
          exact Or.inr (Or.inl ⟨rfl, hunread⟩)
        · rw [hsome]
          refine Or.inr (Or.inr ⟨known.setAux domain json, rfl, ?_⟩)
          rcases hdomain with rfl | rfl
          · exact ⟨hP, rfl, hdisplays⟩
          · exact ⟨hP, hkeyboard, rfl⟩
  · exact h

theorem revise_same (watch : WatchState) (domain : StateDomain) (around : Surroundings) :
    ∃ revision, watch.revise domain around = { watch with revision } := by
  unfold WatchState.revise
  cases around.keymap with
  | none => exact ⟨watch.revision, rfl⟩
  | some keymap =>
    dsimp only
    split_ifs
    · exact ⟨keymap.revision, rfl⟩
    · exact ⟨watch.revision, rfl⟩

theorem Followed.auxiliaryState (h : Followed met P watch) (hdomain : domain = .keyboard ∨ domain = .displays)
    (hmet : met around) (initial : Bool) :
    Followed met P (Watch.auxiliaryState stream domain initial around watch).1 := by
  obtain ⟨hshort, hvalid⟩ := auxAnswer_tail domain initial around watch
  unfold Watch.auxiliaryState
  dsimp only
  by_cases hanswer : (auxAnswer domain initial around watch).status = Status.ok ∧
      4 ≤ (auxAnswer domain initial around watch).tail.length
  · rw [if_pos hanswer]
    have hjson : ((auxAnswer domain initial around watch).tail.drop 4).length ≤ maxTextBytes := by
      rw [List.length_drop]
      omega
    have hillegible : ¬utf8Valid false ((auxAnswer domain initial around watch).tail.drop 4) →
        ∃ around, met around ∧ ¬around.Legible := fun hinvalid => ⟨around, hmet, fun h => hinvalid (hvalid h)⟩
    have hsaid := @Followed.sayAux stream _ _ met P watch h hdomain hillegible hjson initial
    generalize Watch.sayAux stream domain initial ((auxAnswer domain initial around watch).tail.drop 4) watch = r
      at hsaid ⊢
    obtain ⟨said, ok⟩ := r
    cases ok with
    | false => exact hsaid
    | true =>
      obtain ⟨revision, heq⟩ := revise_same said domain around
      show Followed met P (said.revise domain around)
      rw [heq]
      exact hsaid
  · rw [if_neg hanswer]
    exact h

theorem Followed.auxiliaryStates (h : Followed met P watch) (hmet : met around) (initial : Bool) :
    Followed met P (Watch.auxiliaryStates stream initial around watch).1 := by
  have hkeyboard := @Followed.auxiliaryState stream _ met P watch around h (Or.inl rfl) hmet initial
  unfold Watch.auxiliaryStates
  generalize Watch.auxiliaryState stream .keyboard initial around watch = r at hkeyboard ⊢
  obtain ⟨said, ok⟩ := r
  cases ok with
  | false => exact hkeyboard
  | true =>
    dsimp only
    rw [if_neg (by exact Bool.false_ne_true)]
    exact hkeyboard.auxiliaryState (Or.inr rfl) hmet initial

end Following

section Windows

variable {stream : FrameStream} {windows : List WindowRecord} {edit : WindowEvent × BitVec 64}
  {edits : List (WindowEvent × BitVec 64)} {known : Known}

/-- A reader shows the windows of a list: by handle, what is in its table is what is in the list. -/
structure Shown (reader : Reader) (windows : List WindowRecord) : Prop where
  distinct : Keyed.Distinct WindowRecord.handle windows
  table : reader.table.Distinct
  slot : reader.table.slot = findWindow windows

/-- What frames about windows leave of what a reader knows. -/
structure Replayed (known after : Known) (slots : WindowMap) : Prop where
  table : after.reader.table.Distinct
  slot : after.reader.table.slot = slots
  keyboard : after.keyboard = known.keyboard
  displays : after.displays = known.displays

theorem take_frameOf (h : Sound windows edit) (hknown : known.reader.table.Distinct) :
    ∃ after, known.take (frameOf windows edit) = some after ∧
      Replayed known after (Function.update known.reader.table.slot edit.2 (findWindow windows edit.2)) := by
  have htake : known.take (frameOf windows edit) = some (known.hear (eventOf windows edit)) := by
    have hsource : sourceEvent (frameOf windows edit) = some (eventOf windows edit) :=
      stateEventDecode_frameOf windows edit
    have hevent : known.take (frameOf windows edit) = (sourceEvent (frameOf windows edit)).map known.hear := rfl
    rw [hevent, hsource, Option.map_some]
  refine ⟨_, htake, ?_⟩
  by_cases hclose : edit.1 = .close
  · have hevent : eventOf windows edit = stateEvent .windows .destroy (closedWindow edit.2) [] := if_pos hclose
    rw [hevent]
    refine ⟨hknown.remove, ?_, rfl, rfl⟩
    funext handle
    rw [h.mp hclose, Function.update_apply]
    exact Keyed.find_remove hknown
  · cases hfind : findWindow windows edit.2 with
    | none => exact absurd (h.mpr hfind) hclose
    | some w =>
      have hhandle : w.handle = edit.2 := Keyed.key_of_find hfind
      have hevent : eventOf windows edit = stateEvent .windows .changed w [] := by
        rw [eventOf, if_neg hclose, hfind]
        rfl
      rw [hevent]
      refine ⟨hknown.put rfl, ?_, rfl, rfl⟩
      funext handle
      rw [Function.update_apply, ← hhandle]
      exact Keyed.find_put rfl

theorem takeAll_frames (h : ∀ edit ∈ edits, Sound windows edit) (hknown : known.reader.table.Distinct) :
    ∃ after, known.takeAll (edits.map (frameOf windows)) = some after ∧
      Replayed known after (Diff.replay (findWindow windows) known.reader.table.slot (edits.map Prod.snd)) := by
  induction edits generalizing known with
  | nil => exact ⟨known, rfl, hknown, rfl, rfl, rfl⟩
  | cons edit edits ih =>
    obtain ⟨told, htold, hone⟩ := take_frameOf (h edit List.mem_cons_self) hknown
    obtain ⟨after, hafter, hrest⟩ := ih (fun e he => h e (List.mem_cons_of_mem _ he)) hone.table
    rw [hone.slot] at hrest
    refine ⟨after, ?_, hrest.table, hrest.slot, hrest.keyboard.trans hone.keyboard, hrest.displays.trans hone.displays⟩
    rw [List.map_cons, takeAll_cons, htold]
    exact hafter

theorem emitEvent_grown (stream : FrameStream) (watch : WindowWatch) (kind : WindowEvent) (handle : BitVec 64) :
    Grown watch (emitEvent stream watch kind handle) := by
  unfold emitEvent
  by_cases hfailed : watch.failed = true
  · rw [if_pos hfailed]
    exact Grown.refl watch
  · rw [if_neg hfailed]
    generalize (if kind = .close then some (closedWindow handle) else findWindow watch.windows handle) = found
    cases found with
    | none => exact ⟨rfl, fun _ => Or.inl rfl, id⟩
    | some window =>
      have hemission := emitState_emission stream watch .windows (if kind = .close then .destroy else .changed)
        (some window) []
      have hdeaf := hemission.grown.deaf
      dsimp only
      generalize emitState stream watch .windows (if kind = .close then .destroy else .changed) (some window) [] = r
        at hemission hdeaf ⊢
      cases hemission with
      | long => exact ⟨rfl, fun _ => Or.inl rfl, hdeaf⟩
      | refused => exact ⟨rfl, fun _ => Or.inl rfl, hdeaf⟩
      | taken => exact ⟨rfl, fun h => Or.inr (h.resolve_left hfailed), hdeaf⟩

theorem emitEvents_grown (stream : FrameStream) (watch : WindowWatch) (edits : List (WindowEvent × BitVec 64)) :
    Grown watch (edits.foldl (fun watch edit => emitEvent stream watch edit.1 edit.2) watch) := by
  induction edits generalizing watch with
  | nil => exact Grown.refl watch
  | cons edit edits ih => exact (emitEvent_grown stream watch edit.1 edit.2).trans (ih _)

variable {met : Surroundings → Prop} {watch : WatchState} {around : Surroundings} {view : Option View}

/-- What the events of a difference make of a reader that shows the list before. -/
theorem Shown.emitted {before after : WindowWatch} {known : Known} {previous : List WindowRecord}
    (h : Shown known.reader previous) (hheard : heard before = some known)
    (hdistinct : Keyed.Distinct WindowRecord.handle before.windows)
    (hemitted : Emitted before after (Diff.diff WindowRecord.handle stateWindowEqual previous before.windows))
    (hafter : after.failed = false) :
    ∃ told, heard after = some told ∧ Shown told.reader after.windows ∧ told.keyboard = known.keyboard ∧
      told.displays = known.displays := by
  have hsound := diff_sound h.distinct hdistinct
  obtain ⟨hwindows, sent, -, hwritten, hall⟩ := hemitted
  rw [hall hafter] at hwritten
  obtain ⟨told, htold, hreplayed⟩ := takeAll_frames hsound h.table
  have hreplay : Diff.replay (findWindow before.windows) (findWindow previous)
      ((Diff.diff WindowRecord.handle stateWindowEqual previous before.windows).map Prod.snd) =
      findWindow before.windows :=
    Diff.replay_diff h.distinct hdistinct fun was now hsame => (stateWindowEqual_iff was now).mp hsame
  have hslot := hreplayed.slot
  rw [h.slot, hreplay] at hslot
  refine ⟨told, ?_, ⟨?_, hreplayed.table, ?_⟩, hreplayed.keyboard, hreplayed.displays⟩
  · rw [heard, hwritten, takeAll_append]
    change (heard before).bind _ = _
    rw [hheard]
    exact htold
  · rw [hwindows]
    exact hdistinct
  · rw [hwindows]
    exact hslot

/-- A refresh tells a reader what has changed since the last one. -/
theorem Followed.updateWindows (h : Followed met Shown watch) (outputs : List Output) (table : ToplevelTable) :
    Followed met Shown
      (watch.setWindows (Watch.updateWindows stream view outputs table true watch.toWindowWatch).1) := by
  unfold Watch.updateWindows
  cases view with
  | none => exact h
  | some view =>
    dsimp only
    cases hsnapshot : snapshot view outputs table.items with
    | none => exact h
    | some windows =>
      have hdistinct : Keyed.Distinct WindowRecord.handle windows := snapshot_distinct hsnapshot
      dsimp only
      rw [if_pos rfl]
      have hgrown := emitEvents_grown stream { watch.toWindowWatch with windows }
        (Diff.diff WindowRecord.handle stateWindowEqual watch.windows windows)
      rw [← watchDiff_eq] at hgrown
      obtain hlost | ⟨hnone, hunread⟩ | ⟨known, hsome, hshown, haux⟩ := h
      · exact Or.inl (hgrown.lost hlost)
      · exact Or.inr (Or.inl ⟨hgrown.deaf hnone, hunread⟩)
      · by_cases hfailed : watch.failed = true
        · exact Or.inl (hgrown.lost (Or.inl hfailed))
        · have hheard : heard { watch.toWindowWatch with windows } = some known := hsome
          have hemitted := watchDiff_emitted stream { watch.toWindowWatch with windows } hshown.distinct hdistinct
            (Bool.eq_false_iff.mpr hfailed)
          dsimp only at hemitted
          generalize watchDiff (emitEvent stream) watch.windows windows { watch.toWindowWatch with windows } = after
            at hemitted ⊢
          cases hafter : after.failed with
          | true => exact Or.inl (Or.inl hafter)
          | false =>
            obtain ⟨told, htold, hnext, hkeyboard, hdisplays⟩ := hshown.emitted hheard hdistinct hemitted hafter
            refine Or.inr (Or.inr ⟨told, htold, hnext, ?_⟩)
            rw [hkeyboard, hdisplays]
            exact haux

theorem Followed.refresh (h : Followed met Shown watch) (hmet : met around) (auxiliary : Bool) :
    Followed met Shown (Watch.refresh stream view true auxiliary around watch).1 := by
  unfold Watch.refresh
  by_cases hrefreshed : (!(view.isNone || around.refreshed)) = true
  · rw [if_pos hrefreshed]
    exact h
  · rw [if_neg hrefreshed]
    cases auxiliary with
    | false =>
      rw [if_neg Bool.false_ne_true]
      exact h.updateWindows around.outputs around.table
    | true =>
      have haux := @Followed.auxiliaryStates stream met Shown watch around h hmet false
      rw [if_pos rfl]
      generalize Watch.auxiliaryStates stream false around watch = r at haux ⊢
      obtain ⟨said, ok⟩ := r
      cases ok with
      | false => exact haux
      | true =>
        dsimp only
        rw [if_neg (by exact Bool.false_ne_true)]
        exact haux.updateWindows around.outputs around.table

end Windows

section Start

variable {stream : FrameStream} {view : Option View} {windows : List WindowRecord}

/-- Before the first snapshot of the windows a reader has none, and there is no view that could show one. -/
structure Unseen (view : Option View) (reader : Reader) (windows : List WindowRecord) : Prop where
  reader : reader = ⟨[], []⟩
  distinct : Keyed.Distinct WindowRecord.handle windows
  hidden : view = none → windows = []

/-- Windows with new handles go behind those that are there. -/
theorem upsert_all {front : WindowTable} (h : Keyed.Distinct WindowRecord.handle (front ++ windows)) :
    windows.foldl Reader.upsert front = front ++ windows := by
  induction windows generalizing front with
  | nil => exact (List.append_nil front).symm
  | cons w windows ih =>
    have hone : Reader.upsert front w = front ++ [w] := by
      have hnew : ∀ v ∈ front, v.handle ≠ w.handle := by
        intro v hv heq
        unfold Keyed.Distinct at h
        rw [List.map_append, List.map_cons, List.nodup_append] at h
        exact h.2.2 _ (List.mem_map_of_mem hv) _ List.mem_cons_self heq
      clear h ih
      induction front with
      | nil => rfl
      | cons v front ih =>
        have hrest := ih fun u hu => hnew u (List.mem_cons_of_mem _ hu)
        show Keyed.put WindowRecord.handle w.handle w (v :: front) = _
        rw [Keyed.put_cons, if_neg (hnew v List.mem_cons_self)]
        exact congrArg (v :: ·) hrest
    rw [List.append_cons] at h
    rw [List.foldl_cons, hone, ih h, ← List.append_cons]

theorem take_window (known : Known) (kind : StateKind) (window : WindowRecord) :
    known.take (stateFrame .windows kind window []) =
      some { known with reader := known.reader.apply (stateEvent .windows kind window []) } := by
  rw [take_empty]
  rfl

theorem emitState_windows {told after : WindowWatch} {kind : StateKind} {window : Option WindowRecord}
    (h : emitState stream told .windows kind window [] = (after, true)) :
    Grown told after ∧ heard after = (heard told).map fun known =>
      { known with reader := known.reader.apply (stateEvent .windows kind (window.getD windowRecordInit) []) } := by
  have hemission := emitState_emission stream told .windows kind window []
  have hgrown := hemission.grown
  rw [h] at hemission hgrown
  refine ⟨hgrown, ?_⟩
  cases hemission with
  | taken =>
    rw [heard_written]
    simp only [take_window]
    exact Option.map_eq_bind.symm

theorem emitItems_heard {watch after : WindowWatch} (h : emitItems stream windows watch = (after, true)) :
    Grown watch after ∧ heard after = (heard watch).map fun known =>
      { known with reader := { known.reader with staging := windows.foldl Reader.upsert known.reader.staging } } := by
  induction windows generalizing watch with
  | nil =>
    cases h
    exact ⟨Grown.refl _, Option.map_id'.symm⟩
  | cons w windows ih =>
    unfold emitItems at h
    rcases hitem : emitState stream watch .windows .snapshotItem (some w) [] with ⟨told, ok⟩
    rw [hitem] at h
    cases ok with
    | false => cases h
    | true =>
      obtain ⟨hgrown, hheard⟩ := emitState_windows hitem
      obtain ⟨hrest, hafter⟩ := ih h
      rw [hheard, Option.map_map] at hafter
      exact ⟨hgrown.trans hrest, hafter⟩

end Start

section Runs

variable {stream : FrameStream} {view : Option View} {watch : WatchState} {hypr : Bool} {met : Surroundings → Prop}
  {around : Surroundings}

/-- The first snapshot shows a reader every window. -/
theorem Followed.initialWindows (h : Followed met (Unseen view) watch) {after : WindowWatch}
    (hok : Watch.initialWindows stream view watch.toWindowWatch = (after, true)) :
    Followed met Shown (watch.setWindows after) := by
  unfold Watch.initialWindows at hok
  cases view with
  | none =>
    cases hok
    obtain hlost | hunread | ⟨known, hsome, ⟨hreader, -, hhidden⟩, haux⟩ := h
    · exact Or.inl hlost
    · exact Or.inr (Or.inl hunread)
    · have hempty : watch.windows = [] := hhidden rfl
      refine Or.inr (Or.inr ⟨known, hsome, ⟨?_, ?_, ?_⟩, haux⟩)
      · show Keyed.Distinct WindowRecord.handle watch.windows
        rw [hempty]
        exact List.nodup_nil
      · rw [hreader]
        exact List.nodup_nil
      · show known.reader.table.slot = findWindow watch.windows
        rw [hreader, hempty]
        rfl
  | some view =>
    rw [if_neg (by exact Bool.false_ne_true)] at hok
    rcases hbegun : emitState stream watch.toWindowWatch .windows .snapshotBegin none [] with ⟨begun, ok⟩
    rw [hbegun] at hok
    cases ok with
    | false => cases hok
    | true =>
      obtain ⟨hbegin, hheard⟩ := emitState_windows hbegun
      dsimp only at hok
      rw [if_neg (by exact Bool.false_ne_true)] at hok
      rcases hitems : emitItems stream begun.windows begun with ⟨told, ok⟩
      rw [hitems] at hok
      cases ok with
      | false => cases hok
      | true =>
        obtain ⟨hitem, hheard'⟩ := emitItems_heard hitems
        dsimp only at hok
        rw [if_neg (by exact Bool.false_ne_true)] at hok
        obtain ⟨hend, hheard''⟩ := emitState_windows hok
        have hgrown : Grown watch.toWindowWatch after := (hbegin.trans hitem).trans hend
        obtain hlost | ⟨hnone, hunread⟩ | ⟨known, hsome, ⟨hreader, hdistinct, -⟩, haux⟩ := h
        · exact Or.inl (hgrown.lost hlost)
        · exact Or.inr (Or.inl ⟨hgrown.deaf hnone, hunread⟩)
        · rw [hheard', hheard, hsome] at hheard''
          have hshown : begun.windows.foldl Reader.upsert [] = watch.windows := by
            rw [hbegin.windows, @upsert_all watch.windows [] hdistinct]
            rfl
          refine Or.inr (Or.inr ⟨_, hheard'', ⟨?_, ?_, ?_⟩, haux⟩)
          · show Keyed.Distinct WindowRecord.handle after.windows
            rw [hgrown.windows]
            exact hdistinct
          · show (begun.windows.foldl Reader.upsert []).Distinct
            rw [hshown]
            exact hdistinct
          · show (begun.windows.foldl Reader.upsert []).slot = findWindow after.windows
            rw [hshown, hgrown.windows]
            rfl

/-- A look at the compositor without a word leaves a reader as it was. -/
theorem Followed.updateSilently (h : Followed met (Unseen view) watch) (outputs : List Output) (table : ToplevelTable) :
    Followed met (Unseen view)
      (watch.setWindows (Watch.updateWindows stream view outputs table false watch.toWindowWatch).1) := by
  unfold Watch.updateWindows
  cases view with
  | none => exact h
  | some view =>
    dsimp only
    cases hsnapshot : snapshot view outputs table.items with
    | none => exact h
    | some windows =>
      obtain hlost | hunread | ⟨known, hsome, ⟨hreader, -, -⟩, haux⟩ := h
      · exact Or.inl hlost
      · exact Or.inr (Or.inl hunread)
      · exact Or.inr (Or.inr ⟨known, hsome, ⟨hreader, snapshot_distinct hsnapshot, nofun⟩, haux⟩)

theorem Followed.refreshSilently (h : Followed met (Unseen view) watch) (around : Surroundings) :
    Followed met (Unseen view) (Watch.refresh stream view false false around watch).1 := by
  unfold Watch.refresh
  by_cases hrefreshed : (!(view.isNone || around.refreshed)) = true
  · rw [if_pos hrefreshed]
    exact h
  · rw [if_neg hrefreshed, if_neg Bool.false_ne_true]
    exact h.updateSilently around.outputs around.table

/-- The answer to the request is no event. -/
theorem Followed.answer {P : Reader → List WindowRecord → Prop} (h : Followed met P watch) (requestId : BitVec 64)
    (payload : Bytes) :
    Followed met P (watch.setWindows (writeFrame stream watch.toWindowWatch 0 0 requestId payload).1) := by
  unfold writeFrame
  by_cases htaken : stream watch.attempts = true
  · rw [if_pos htaken]
    have htake : ∀ known : Known, known.take (requestFrame 0 0 requestId payload) = some known := fun _ => rfl
    have hheard : heard { watch.toWindowWatch with
        written := watch.written ++ [requestFrame 0 0 requestId payload] } = heard watch.toWindowWatch := by
      rw [heard_written]
      simp only [htake]
      exact Option.bind_fun_some _
    unfold Followed
    dsimp only [WatchState.setWindows]
    rw [hheard]
    exact h
  · rw [if_neg htaken]
    exact Or.inl (Or.inr (Nat.succ_ne_zero _))

/-- A watch that has begun has a reader that follows it. -/
theorem watchStart_followed (o : Opening) (hmet : met o.second) (hok : (watchStart stream view o).ok = true) :
    Followed met Shown (watchStart stream view o).watch := by
  have hinit : Followed met (Unseen view) watchInit :=
    Or.inr (Or.inr ⟨knownInit, rfl, ⟨rfl, List.nodup_nil, fun _ => rfl⟩, rfl, rfl⟩)
  have hlooked : ∀ {looked : WatchState} {ok : Bool}, (if !o.hypr || o.eventsOpen then
      refresh stream view false false o.first watchInit else (watchInit, false)) = (looked, ok) →
      Followed met (Unseen view) looked := by
    intro looked ok hlook
    split_ifs at hlook
    · have hrefreshed := @Followed.refreshSilently stream view watchInit met hinit o.first
      rw [hlook] at hrefreshed
      exact hrefreshed
    · cases hlook
      exact hinit
  unfold watchStart at hok ⊢
  rcases hlook : (if !o.hypr || o.eventsOpen then refresh stream view false false o.first watchInit
    else (watchInit, false)) with ⟨looked, ok⟩
  have hlooked := hlooked hlook
  rw [hlook] at hok
  dsimp only at hok ⊢
  have hanswered := @Followed.answer stream looked met _ hlooked o.requestId (openingAnswer o.hypr ok)
  generalize writeFrame stream looked.toWindowWatch 0 0 o.requestId (openingAnswer o.hypr ok) = answered
    at hok hanswered ⊢
  obtain ⟨windows, sent⟩ := answered
  dsimp only at hok hanswered ⊢
  cases hgo : sent && ok with
  | false =>
    rw [hgo] at hok
    cases hok
  | true =>
    have haux := @Followed.auxiliaryStates stream met _ _ o.second hanswered hmet true
    rw [hgo] at hok
    rw [if_neg (by exact Bool.false_ne_true)] at hok ⊢
    generalize auxiliaryStates stream true o.second (looked.setWindows windows) = r at hok haux ⊢
    obtain ⟨told, ok'⟩ := r
    cases ok' with
    | false => cases hok
    | true =>
      dsimp only at hok haux ⊢
      rw [if_neg (by exact Bool.false_ne_true)] at hok ⊢
      have hlisted := @Followed.updateSilently stream view told met haux o.second.outputs o.second.table
      generalize updateWindows stream view o.second.outputs o.second.table false told.toWindowWatch = r
        at hok hlisted ⊢
      obtain ⟨listed, ok''⟩ := r
      cases ok'' with
      | false => cases hok
      | true =>
        dsimp only at hok hlisted ⊢
        rw [if_neg (by exact Bool.false_ne_true)] at hok ⊢
        rcases hshow : initialWindows stream view (told.setWindows listed).toWindowWatch with ⟨shown, ok'''⟩
        rw [hshow] at hok
        obtain rfl : ok''' = true := hok
        exact hlisted.initialWindows hshow

/-- Of what is read of the events, a line that ends is a reason to look again, and nothing else is. -/
theorem readEvents_dirty (arrivals : Arrivals) (reader : EventReader) (dirty : Bool) :
    (readEvents arrivals reader dirty).2.1 = true ↔ dirty = true ∨ 10 ∈ arrivals.bytes.flatten := by
  have hlines := @Framer.feed_nil_iff _ _ _ _ 10 eventReaderInit EventReader.push EventReader.name reader
    arrivals.bytes.flatten
  unfold readEvents
  rw [eventFeedAll_eq, Framer.feedAll_eq]
  dsimp only
  rw [Bool.or_eq_true, Bool.not_eq_true', List.isEmpty_eq_false_iff, ne_eq, hlines, not_not]

/-- What the descriptors have may give a reason to look, and leaves the watch alone. -/
structure Noticed (s noticed : WatchLoop) : Prop where
  watch : noticed.watch = s.watch
  dirty : s.dirty = true → noticed.dirty = true

theorem listen_noticed (s : WatchLoop) (t : Turn) (requested : Bool) (events : Option Arrivals) :
    ∃ noticed, Noticed s noticed ∧ (serve.listen stream view hypr s t requested events = noticed ∨
      serve.listen stream view hypr s t requested events = look stream view hypr noticed requested t) := by
  unfold serve.listen
  cases events with
  | none => exact ⟨s, ⟨rfl, id⟩, Or.inr rfl⟩
  | some arrivals =>
    have hdirty : s.dirty = true → (readEvents arrivals s.reader s.dirty).2.1 = true :=
      fun h => (readEvents_dirty arrivals s.reader s.dirty).mpr (Or.inl h)
    dsimp only
    split_ifs
    · refine ⟨_, ?_, Or.inr rfl⟩
      exact ⟨rfl, hdirty⟩
    · refine ⟨_, ?_, Or.inl rfl⟩
      exact ⟨rfl, hdirty⟩

theorem hear_noticed (s : WatchLoop) (t : Turn) (requested : Bool) (display : Option Displayed)
    (events : Option Arrivals) :
    ∃ noticed, Noticed s noticed ∧ (serve.hear stream view hypr s t requested display events = noticed ∨
      serve.hear stream view hypr s t requested display events = look stream view hypr noticed requested t) := by
  unfold serve.hear
  cases display with
  | none => exact listen_noticed s t requested events
  | some display =>
    dsimp only
    split_ifs
    · refine ⟨_, ?_, Or.inl rfl⟩
      exact ⟨rfl, id⟩
    · obtain ⟨noticed, ⟨hwatch, hdirty⟩, hcases⟩ :=
        @listen_noticed stream view hypr { s with dirty := s.dirty || display.readable } t requested events
      refine ⟨noticed, ⟨hwatch, fun h => hdirty ?_⟩, hcases⟩
      show (s.dirty || display.readable) = true
      rw [h, Bool.true_or]

/-- A turn notices something, and may then look. -/
theorem turn_noticed (s : WatchLoop) (t : Turn) :
    ∃ noticed, Noticed s noticed ∧ (turn stream view hypr s t = noticed ∨
      ∃ requested, turn stream view hypr s t = look stream view hypr noticed requested t) := by
  have hheard : ∀ requested display events, ∃ noticed, Noticed s noticed ∧
      (serve.hear stream view hypr s t requested display events = noticed ∨
        ∃ requested', serve.hear stream view hypr s t requested display events =
          look stream view hypr noticed requested' t) := by
    intro requested display events
    obtain ⟨noticed, hnoticed, hcases⟩ := @hear_noticed stream view hypr s t requested display events
    exact ⟨noticed, hnoticed, hcases.imp_right fun h => ⟨requested, h⟩⟩
  unfold turn
  split_ifs
  · exact ⟨s, ⟨rfl, id⟩, Or.inl rfl⟩
  · cases t.flush with
    | broken =>
      refine ⟨_, ?_, Or.inl rfl⟩
      exact ⟨rfl, id⟩
    | done | full =>
      cases t.woken with
      | interrupted => exact ⟨s, ⟨rfl, id⟩, Or.inl rfl⟩
      | failed =>
        refine ⟨_, ?_, Or.inl rfl⟩
        exact ⟨rfl, id⟩
      | ready asked display events =>
        dsimp only
        unfold serve
        cases asked with
        | quiet => exact hheard false display events
        | gone =>
          refine ⟨_, ?_, Or.inl rfl⟩
          exact ⟨rfl, id⟩
        | readable arrivals =>
          dsimp only
          split_ifs
          · exact hheard true display events
          · refine ⟨_, ?_, Or.inl rfl⟩
            exact ⟨rfl, id⟩

/-- A look does nothing, refreshes the windows only, or refreshes everything and has no reason left to look. -/
theorem look_cases (s : WatchLoop) (requested : Bool) (t : Turn) :
    look stream view hypr s requested t = s ∨
      ((look stream view hypr s requested t).watch = (refresh stream view true false t.around s.watch).1 ∧
        (look stream view hypr s requested t).dirty = s.dirty) ∨
      (look stream view hypr s requested t).watch = (refresh stream view true true t.around s.watch).1 ∧
        (look stream view hypr s requested t).dirty = false := by
  unfold look
  dsimp only
  by_cases hidle : (!requested && !s.scheduled hypr t.now) = true
  · rw [if_pos hidle]
    exact Or.inl rfl
  · rw [if_neg hidle]
    cases s.scheduled hypr t.now with
    | false =>
      rw [if_neg Bool.false_ne_true]
      exact Or.inr (Or.inl ⟨rfl, rfl⟩)
    | true =>
      rw [if_pos rfl]
      exact Or.inr (Or.inr ⟨rfl, rfl⟩)

/-- A turn leaves the watch alone, or refreshes it. -/
theorem turn_watch (s : WatchLoop) (t : Turn) :
    (turn stream view hypr s t).watch = s.watch ∨
      ∃ auxiliary, (turn stream view hypr s t).watch = (refresh stream view true auxiliary t.around s.watch).1 := by
  obtain ⟨noticed, ⟨hwatch, -⟩, heq | ⟨requested, heq⟩⟩ := @turn_noticed stream view hypr s t
  · rw [heq]
    exact Or.inl hwatch
  · rw [heq, ← hwatch]
    obtain hsame | ⟨hlook, -⟩ | ⟨hlook, -⟩ := @look_cases stream view hypr noticed requested t
    · rw [hsame]
      exact Or.inl rfl
    · exact Or.inr ⟨false, hlook⟩
    · exact Or.inr ⟨true, hlook⟩

/-- A reason to look again stands until all three domains have been looked at. -/
theorem turn_dirty (s : WatchLoop) (t : Turn) (h : s.dirty = true) :
    (turn stream view hypr s t).dirty = true ∨
      (turn stream view hypr s t).watch = (refresh stream view true true t.around s.watch).1 := by
  obtain ⟨noticed, ⟨hwatch, hdirty⟩, heq | ⟨requested, heq⟩⟩ := @turn_noticed stream view hypr s t
  · rw [heq]
    exact Or.inl (hdirty h)
  · rw [heq, ← hwatch]
    obtain hsame | ⟨-, hlook⟩ | ⟨hlook, -⟩ := @look_cases stream view hypr noticed requested t
    · rw [hsame]
      exact Or.inl (hdirty h)
    · rw [hlook]
      exact Or.inl (hdirty h)
    · exact Or.inr hlook

theorem turns_followed (turns : List Turn) (hmet : ∀ t ∈ turns, met t.around) {s : WatchLoop}
    (h : Followed met Shown s.watch) : Followed met Shown (turns.foldl (turn stream view hypr) s).watch := by
  induction turns generalizing s with
  | nil => exact h
  | cons t turns ih =>
    apply ih fun u hu => hmet u (List.mem_cons_of_mem _ hu)
    obtain heq | ⟨auxiliary, heq⟩ := @turn_watch stream view hypr s t
    · rw [heq]
      exact h
    · rw [heq]
      exact h.refresh (hmet t List.mem_cons_self) auxiliary

/-- The surroundings that a run tells of: those behind the answer to the request, and those of the turns. -/
def Opening.Meets (o : Opening) (turns : List Turn) (around : Surroundings) : Prop :=
  around = o.second ∨ ∃ t ∈ turns, t.around = around

theorem watchRun_tells (o : Opening) (turns : List Turn) (hok : (watchStart stream view o).ok = true) :
    Followed (o.Meets turns) Shown (watchRun stream view o turns).watch := by
  have hstart : Followed (o.Meets turns) Shown (watchStart stream view o).watch :=
    watchStart_followed o (Or.inl rfl) hok
  exact turns_followed turns (fun t ht => Or.inr ⟨t, ht, rfl⟩) hstart

/-- Over every run of a watch, its stream tells a reader the windows, the keyboard and the displays as the watch has
them, until a frame is refused or the watch gives up, or the reader meets what is no text and gives up itself. -/
theorem watchRun_followed (o : Opening) (turns : List Turn) (hok : (watchStart stream view o).ok = true) :
    let watch := (watchRun stream view o turns).watch
    watch.failed = true ∨ watch.refused ≠ 0 ∨
      (knownInit.takeAll watch.written = none ∧ ∃ around, o.Meets turns around ∧ ¬around.Legible) ∨
      ∃ known, knownInit.takeAll watch.written = some known ∧
        known.reader.table.slot = findWindow watch.windows ∧ known.keyboard.getD [] = watch.keyboardState ∧
          known.displays.getD [] = watch.displayState := by
  intro watch
  obtain (hfailed | hrefused) | hunread | ⟨known, hknown, hshown, haux⟩ := watchRun_tells o turns hok
  · exact Or.inl hfailed
  · exact Or.inr (Or.inl hrefused)
  · exact Or.inr (Or.inr (Or.inl hunread))
  · exact Or.inr (Or.inr (Or.inr ⟨known, hknown, hshown.slot, haux⟩))

/-- What a compositor with no windows has, and what is said of its displays. -/
def bareSurroundings (displays : Bytes) : Surroundings :=
  ⟨true, [], ToplevelTable.empty, true, none, ⟨true, true, true, displays⟩⟩

/-- A turn in which the display has something to say. -/
def displayTurn (displays : Bytes) : Turn :=
  ⟨.done, .ready .quiet (some ⟨false, true, true⟩) none, 0, bareSurroundings displays, 0⟩

/-- Of three looks at the displays, the second finds them changed. -/
theorem watchRun_followed_displays :
    let o : Opening := ⟨false, false, 1, bareSurroundings (ascii "[]"), bareSurroundings (ascii "[]"), 0⟩
    let turns := [displayTurn (ascii "[1]"), displayTurn (ascii "[1]")]
    let watch := (watchRun (fun _ => true) none o turns).watch
    watch.failed = true ∨ watch.refused ≠ 0 ∨
      (knownInit.takeAll watch.written = none ∧ ∃ around, o.Meets turns around ∧ ¬around.Legible) ∨
      ∃ known, knownInit.takeAll watch.written = some known ∧
        known.reader.table.slot = findWindow watch.windows ∧ known.keyboard.getD [] = watch.keyboardState ∧
          known.displays.getD [] = watch.displayState :=
  watchRun_followed _ _ (by decide +kernel)

/-- A name of an output that is no text, and a reader that gives up at it. -/
example :
    let o : Opening := ⟨false, false, 1, bareSurroundings (ascii "[]"), bareSurroundings (ascii "[]"), 0⟩
    knownInit.takeAll (watchRun (fun _ => true) none o [displayTurn [0xff]]).watch.written = none := by decide +kernel

/-- A refresh that succeeds leaves the watch with the windows that the compositor has. -/
theorem refresh_snapshot {view : View} {around : Surroundings} {auxiliary : Bool}
    (hok : (refresh stream (some view) true auxiliary around watch).2 = true) :
    snapshot view around.outputs around.table.items =
      some (refresh stream (some view) true auxiliary around watch).1.windows := by
  have hupdate : ∀ {told : WindowWatch},
      (updateWindows stream (some view) around.outputs around.table true told).2 = true →
      snapshot view around.outputs around.table.items =
        some (updateWindows stream (some view) around.outputs around.table true told).1.windows := by
    intro told htold
    unfold updateWindows at htold ⊢
    dsimp only at htold ⊢
    cases hsnapshot : snapshot view around.outputs around.table.items with
    | none =>
      rw [hsnapshot] at htold
      cases htold
    | some windows =>
      dsimp only
      rw [if_pos rfl, watchDiff_eq, (emitEvents_grown stream _ _).windows]
  unfold refresh at hok ⊢
  by_cases hrefreshed : (!((some view).isNone || around.refreshed)) = true
  · rw [if_pos hrefreshed] at hok
    cases hok
  · rw [if_neg hrefreshed] at hok ⊢
    dsimp only at hok ⊢
    generalize (if auxiliary then auxiliaryStates stream false around watch else (watch, true)) = r at hok ⊢
    obtain ⟨told, ok⟩ := r
    cases ok with
    | false => cases hok
    | true =>
      dsimp only at hok ⊢
      rw [if_neg (by exact Bool.false_ne_true)] at hok ⊢
      exact hupdate hok

/-- After a run and one more look that succeeds, a reader shows the windows that the compositor has. -/
theorem watchRun_shows {view : View} (o : Opening) (turns : List Turn)
    (hok : (watchStart stream (some view) o).ok = true) (t : Turn) {auxiliary : Bool}
    (hlook : (refresh stream (some view) true auxiliary t.around
      (watchRun stream (some view) o turns).watch).2 = true) :
    let next := (refresh stream (some view) true auxiliary t.around (watchRun stream (some view) o turns).watch).1
    next.failed = true ∨ next.refused ≠ 0 ∨
      (knownInit.takeAll next.written = none ∧ ∃ around, o.Meets (turns ++ [t]) around ∧ ¬around.Legible) ∨
      ∃ known windows, knownInit.takeAll next.written = some known ∧
        snapshot view t.around.outputs t.around.table.items = some windows ∧
        known.reader.table.slot = findWindow windows := by
  intro next
  have hmore : ∀ {u : Turn}, u ∈ turns → u ∈ turns ++ [t] := fun hu => List.mem_append_left _ hu
  have hlast : t ∈ turns ++ [t] := List.mem_append_right _ (List.mem_singleton_self t)
  have hstart : Followed (o.Meets (turns ++ [t])) Shown (watchStart stream (some view) o).watch :=
    watchStart_followed o (Or.inl rfl) hok
  have hrun : Followed (o.Meets (turns ++ [t])) Shown (watchRun stream (some view) o turns).watch :=
    turns_followed turns (fun u hu => Or.inr ⟨u, hmore hu, rfl⟩) hstart
  have hnext : Followed (o.Meets (turns ++ [t])) Shown next :=
    Followed.refresh hrun (Or.inr ⟨t, hlast, rfl⟩) auxiliary
  obtain (hfailed | hrefused) | hunread | ⟨known, hknown, hshown, -⟩ := hnext
  · exact Or.inl hfailed
  · exact Or.inr (Or.inl hrefused)
  · exact Or.inr (Or.inr (Or.inl hunread))
  · exact Or.inr (Or.inr (Or.inr ⟨known, next.windows, hknown, refresh_snapshot hlook, hshown.slot⟩))

end Runs

end KeysharpDesktop.Watch
