import KeysharpDesktop.Display.Watch
import KeysharpDesktop.Lib.SearchTable

/-! The watch of an X server's windows: the table that it searches, and how each event of the server changes it. -/
namespace KeysharpDesktop.X11

open Watch (FrameStream stateEvent)

abbrev WindowId := BitVec 32

section Table

/-- What the watch asks for by name. -/
structure Atoms where
  clientList : BitVec 32
  clientListStacking : BitVec 32
  currentDesktop : BitVec 32
  workArea : BitVec 32
  activeWindow : BitVec 32
  wmName : BitVec 32
  wmState : BitVec 32
  stateHidden : BitVec 32
  frameExtents : BitVec 32
  icccmWmState : BitVec 32
  deriving DecidableEq, Repr

def atomWmName : BitVec 32 := 39

structure WatchedWindow where
  id : WindowId
  frame : WindowId
  minimized : Bool
  aboveSibling : WindowId := 0
  deriving DecidableEq, Repr

structure WindowWatch where
  root : WindowId
  atoms : Atoms
  windows : List WatchedWindow := []
  active : WindowId := 0
  queryDisplay : Bool := false
  xkbEventBase : BitVec 8 := 0
  randrEventBase : BitVec 8 := 0
  written : List Frame := []
  deriving DecidableEq

def idKey (window : WatchedWindow) : ℕ := window.id.toNat

def findWindow (watch : WindowWatch) (id : WindowId) : Option WatchedWindow :=
  SearchTable.find idKey watch.windows id.toNat

/-- The place of the entry that the search finds. -/
def windowIndex (watch : WindowWatch) (id : WindowId) : ℕ := SearchTable.position idKey watch.windows id.toNat

end Table

section Server

/-- A property of format 32, and what of it was left out. -/
structure Listing where
  format : BitVec 8
  ids : List WindowId
  bytesAfter : BitVec 32

structure Tree where
  root : WindowId
  parent : WindowId

inductive Attributes
  | present | badWindow | failed
  deriving DecidableEq

/-- What the server, the memory and the stream answer while one event is handled. A question that is asked of several
windows is answered by window, and one that a search asks again by the turn it is asked in. -/
structure Replies where
  listing : Option Listing := none
  rootChildren : Option (List WindowId) := none
  managed : ℕ → WindowId → Bool := fun _ _ => false
  children : ℕ → WindowId → Option (List WindowId) := fun _ _ => none
  tree : WindowId → ℕ → Option Tree := fun _ _ => none
  states : WindowId → Option (List (BitVec 32)) := fun _ => none
  attributes : WindowId → Attributes := fun _ => .failed
  query : WindowId → OperationResult
  failedAfter : WindowId → Bool := fun _ => false
  enumerationFailed : Bool := false
  connectionFailed : Bool := false
  activeWindow : Option WindowId := none
  windowList : OperationResult
  keyboard : OperationResult
  displays : OperationResult
  allocates : Bool := true
  grows : WindowId → Bool := fun _ => true
  stream : FrameStream := fun _ => true

variable (r : Replies)

def maxWindows : ℕ := 4096

def addHandle (windows : List WindowId) (window : WindowId) : Option (List WindowId) :=
  if window = 0 then some windows
  else if window ∈ windows then some windows
  else if windows.length = maxWindows then none
  else some (windows ++ [window])

/-- The managed window below a window, and what is left of the budget. -/
def managedChild (wmState : BitVec 32) : ℕ → WindowId → ℕ → WindowId × ℕ
  | 0, _, budget => (0, budget)
  | depth + 1, window, budget =>
    if wmState = 0 ∨ budget = 0 then (0, budget)
    else
      let budget := budget - 1
      if r.managed budget window then (window, budget)
      else
        match r.children budget window with
        | none => (0, budget)
        | some children =>
          children.reverse.foldl (fun (found, budget) child =>
            if found = 0 ∧ budget ≠ 0 then managedChild wmState depth child budget else (found, budget)) (0, budget)

def addChildren (wmState : BitVec 32) : List WindowId → List WindowId → ℕ → Option (List WindowId)
  | [], windows, _ => some windows
  | child :: children, windows, budget =>
    if child ∈ windows then addChildren wmState children windows budget
    else
      let (client, budget) := managedChild r wmState 64 child budget
      if client = 0 ∧ budget = 0 then none
      else do
        let windows ← addHandle windows (if client = 0 then child else client)
        addChildren wmState children windows budget

/-- The windows that the window manager lists. -/
def listedWindows : Option (List WindowId) :=
  match r.listing with
  | none => some []
  | some listing =>
    if listing.format = 32 then (listing.ids.foldlM addHandle []).filter fun _ => listing.bytesAfter = 0
    else some []

/-- `ksd_x11_enumerate_windows`. -/
def enumerateWindows (atoms : Atoms) : Option (List WindowId) := do
  let windows ← listedWindows r
  let children ← r.rootChildren
  let windows ← addChildren r atoms.icccmWmState children windows maxWindows
  if r.enumerationFailed then none else some windows

/-- The walk up to the window that the root holds. -/
def frameLoop (start : WindowId) : ℕ → ℕ → WindowId → WindowId
  | 0, _, id => id
  | turns + 1, depth, id =>
    match r.tree start depth with
    | none => id
    | some reply =>
      if reply.parent = reply.root ∨ reply.parent = 0 ∨ reply.parent = id then id
      else frameLoop start turns (depth + 1) reply.parent

def frameFor (id : WindowId) : WindowId := frameLoop r id 64 0 id

def minimized (atoms : Atoms) (id : WindowId) : Bool :=
  atoms.stateHidden != 0 && (r.states id).any fun states => (states.take 64).contains atoms.stateHidden

end Server

section Emission

/-- A watch and whether what was done with it came to its end. -/
abbrev Outcome := WindowWatch × Bool

/-- The `&&` of the source. -/
def Outcome.andThen (outcome : Outcome) (next : WindowWatch → Outcome) : Outcome :=
  if outcome.2 then next outcome.1 else outcome

namespace Kind

def create : BitVec 16 := 1
def close : BitVec 16 := 2
def active : BitVec 16 := 3
def title : BitVec 16 := 4
def minimize : BitVec 16 := 5
def restore : BitVec 16 := 6
def move : BitVec 16 := 7
def activeState : BitVec 16 := 8
def showWindow : BitVec 16 := 9
def hideWindow : BitVec 16 := 10
def changed : BitVec 16 := 11

end Kind

variable (r : Replies)

def writeFrame (watch : WindowWatch) (opcode : Opcode) (flags : BitVec 16) (requestId : BitVec 64)
    (payload : Bytes) : Outcome :=
  if r.stream watch.written.length then
    ({ watch with written := watch.written ++ [requestFrame opcode flags requestId payload] }, true)
  else (watch, false)

/-- What is sent of a window that is gone. -/
def closedJson (id : WindowId) : Bytes := ascii "\x7b\"id\":\"" ++ decimalText id.toNat ++ ascii "\"\x7d"

def windowAnswer : Bytes := ascii "\x7b\"ok\":true,\"window\":"

/-- The object of a window in the answer of a query. -/
def answeredJson (result : OperationResult) : Option Bytes :=
  if result.tailLength ≤ 4 + windowAnswer.length || (decodeU32 result.tail).toNat != result.tailLength - 4 ||
      (result.tail.drop 4).take windowAnswer.length != windowAnswer ||
      result.tail[result.tailLength - 1]? != some 125 then none
  else some ((result.tail.drop (4 + windowAnswer.length)).take (result.tailLength - 4 - windowAnswer.length - 1))

def eventPayload (kind : BitVec 16) (json : Bytes) : Option Buffer := do
  let b ← bufferU16 (bufferInit (maxTextBytes + 8)) kind
  let b ← bufferU16 b 0
  let b ← bufferU32 b (BitVec.ofNat 32 json.length)
  bufferBytes b json

def sendWindow (watch : WindowWatch) (kind : BitVec 16) (json : Bytes) : Outcome :=
  match eventPayload kind json with
  | none => (watch, false)
  | some payload => writeFrame r watch Op.windowEvent flagEvent 0 payload.data

/-- A window that is gone before it is asked about is passed over. -/
def emitWindow (watch : WindowWatch) (id : WindowId) (kind : BitVec 16) : Outcome :=
  if kind = Kind.close then sendWindow r watch kind (closedJson id)
  else if (r.query id).status ≠ Status.ok then (watch, !r.failedAfter id)
  else
    match answeredJson (r.query id) with
    | none => (watch, false)
    | some json => sendWindow r watch kind json

def emitState (watch : WindowWatch) (kind : StateKind) (domain : StateDomain) (window : Option WindowRecord)
    (data : Bytes) : Outcome :=
  match stateEventEncode (stateEvent domain kind (window.getD windowRecordInit) data)
      (bufferInit (maxTextBytes + 256)) with
  | none => (watch, false)
  | some payload => writeFrame r watch Op.stateEvent flagEvent 0 payload.data

def emitQueryState (watch : WindowWatch) (domain : StateDomain) (initial : Bool) : Outcome :=
  let result := if domain = .keyboard then r.keyboard else r.displays
  let data := (result.tail.take result.tailLength).drop 4
  if !watch.queryDisplay || result.status != Status.ok || result.tailLength < 4 then (watch, true)
  else if initial then
    ((emitState r watch .snapshotBegin domain none []).andThen fun watch =>
      emitState r watch .snapshotItem domain none data).andThen fun watch =>
        emitState r watch .snapshotEnd domain none []
  else emitState r watch .changed domain none data

end Emission

section Refresh

variable (r : Replies)

def newWindow (watch : WindowWatch) (id : WindowId) : WatchedWindow :=
  ⟨id, frameFor r id, minimized r watch.atoms id, 0⟩

/-- The loop over the sorted client list, which takes over the entries it finds. -/
def refreshListed (initial : Bool) :
    Option WindowId → List WindowId → WindowWatch → List WatchedWindow → List WatchedWindow × Outcome
  | _, [], watch, next => (next, watch, true)
  | previous, id :: ids, watch, next =>
    if id = 0 ∨ previous = some id then refreshListed initial (some id) ids watch next
    else
      match findWindow watch id with
      | some old => refreshListed initial (some id) ids watch (next ++ [old])
      | none =>
        let next := next ++ [newWindow r watch id]
        let (watch, ok) := if initial then (watch, true) else emitWindow r watch id Kind.create
        if ok then refreshListed initial (some id) ids watch next else (next, watch, false)

/-- The loop over the old table, which keeps what is only hidden and closes what is gone. -/
def refreshSurvivors (initial : Bool) (ids : List WindowId) :
    List WatchedWindow → WindowWatch → List WatchedWindow → List WatchedWindow × Outcome
  | [], watch, next => (next, watch, true)
  | window :: windows, watch, next =>
    if ids.contains window.id then refreshSurvivors initial ids windows watch next
    else
      match r.attributes window.id with
      | .failed => (next, watch, false)
      | .present =>
        let (watch, ok) := if initial then (watch, true) else emitWindow r watch window.id Kind.hideWindow
        if ok then refreshSurvivors initial ids windows watch (next ++ [window])
        else (next ++ [window], watch, false)
      | .badWindow =>
        let (watch, ok) := if initial then (watch, true) else emitWindow r watch window.id Kind.close
        if ok then refreshSurvivors initial ids windows watch next else (next, watch, false)

def refreshClients (watch : WindowWatch) (initial : Bool) : Outcome :=
  match enumerateWindows r watch.atoms with
  | none => (watch, false)
  | some ids =>
    let ids := SearchTable.sort BitVec.toNat ids
    if !r.allocates then (watch, false)
    else
      let (next, after, ok) := refreshListed r initial none ids watch []
      let (next, after, ok) := if ok then refreshSurvivors r initial ids watch.windows after next
        else (next, after, false)
      ({ after with windows := SearchTable.sort idKey next }, ok && !r.connectionFailed)

end Refresh

section Snapshot

variable (r : Replies)

/-- The loop over the windows of a list, which hands each record to a callback. A turn for each byte is enough. -/
def windowsLoop {σ : Type} (callback : WindowRecord → σ → σ × Bool) : ℕ → ℕ → Bytes → σ → σ × Bool
  | 0, _, _, context => (context, false)
  | turns + 1, order, windows, context =>
    if windows = [] ∨ windows.head? = some 93 then (context, windows.head? == some 93)
    else
      match Json.value windows with
      | none => (context, false)
      | some (value, rest) =>
        match stateWindowJson value with
        | none => (context, false)
        | some window =>
          let (context, ok) := callback
            { window with
              stackingOrder := BitVec.ofNat 64 order
              validFields := window.validFields ||| Field.stackingOrder } context
          if !ok then (context, false)
          else
            match Json.skipSpace rest with
            | [] => (context, false)
            | b :: rest =>
              if b = 93 then (context, true)
              else if b ≠ 44 then (context, false)
              else windowsLoop callback turns (order + 1) rest context

def stateWindowsJson {σ : Type} (data : Bytes) (callback : WindowRecord → σ → σ × Bool) (context : σ) : σ × Bool :=
  match Json.field data "windows" with
  | none => (context, false)
  | some windows =>
    if windows.length < 2 ∨ windows.head? ≠ some 91 then (context, false)
    else windowsLoop callback windows.length 0 (Json.skipSpace windows.tail) context

def initialWindow (window : WindowRecord) (watch : WindowWatch) : Outcome :=
  let id : WindowId := window.handle.setWidth 32
  match findWindow watch id with
  | some _ => emitState r watch .snapshotItem .windows (some window) []
  | none =>
    if !r.grows id then (watch, false)
    else
      let entry : WatchedWindow := ⟨id, frameFor r id, window.flags &&& Flag.minimized != 0, 0⟩
      let watch := { watch with windows := SearchTable.sort idKey (watch.windows ++ [entry]) }
      emitState r watch .snapshotItem .windows (some window) []

def initialSnapshot (watch : WindowWatch) : Outcome :=
  let result := r.windowList
  if result.status ≠ Status.ok ∨ result.tailLength < 4 then (watch, false)
  else
    ((emitState r watch .snapshotBegin .windows none []).andThen fun watch =>
      stateWindowsJson ((result.tail.take result.tailLength).drop 4) (initialWindow r) watch).andThen fun watch =>
        emitState r watch .snapshotEnd .windows none []

end Snapshot

section Events

/-- The fields of an event, of which each type has some. -/
structure Event where
  responseType : BitVec 8
  window : WindowId := 0
  parent : WindowId := 0
  atom : BitVec 32 := 0
  aboveSibling : WindowId := 0
  deriving DecidableEq, Repr

namespace EventType

def createNotify : BitVec 8 := 16
def destroyNotify : BitVec 8 := 17
def unmapNotify : BitVec 8 := 18
def mapNotify : BitVec 8 := 19
def reparentNotify : BitVec 8 := 21
def configureNotify : BitVec 8 := 22
def propertyNotify : BitVec 8 := 28

end EventType

variable (r : Replies)

def activeChanged (watch : WindowWatch) : Outcome :=
  let active := r.activeWindow.getD 0
  if active = watch.active then (watch, true)
  else
    let old := watch.active
    let watch := { watch with active }
    Outcome.andThen (if (findWindow watch old).isNone then (watch, true) else emitWindow r watch old Kind.activeState)
      fun watch => if active = 0 then (watch, true) else emitWindow r watch active Kind.active

def rootProperty (watch : WindowWatch) (atom : BitVec 32) : Outcome :=
  if atom = watch.atoms.clientList then refreshClients r watch false
  else if atom = watch.atoms.clientListStacking then initialSnapshot r watch
  else if atom = watch.atoms.currentDesktop ∨ atom = watch.atoms.workArea then
    emitQueryState r watch .displays false
  else if atom = watch.atoms.activeWindow then activeChanged r watch
  else (watch, true)

/-- The entry that the search finds is changed in place. -/
def changeWindow (watch : WindowWatch) (id : WindowId) (change : WatchedWindow → WatchedWindow) : WindowWatch :=
  { watch with windows := watch.windows.modify (windowIndex watch id) change }

def windowProperty (watch : WindowWatch) (id : WindowId) (atom : BitVec 32) : Outcome :=
  match findWindow watch id with
  | none => (watch, true)
  | some window =>
    if atom = watch.atoms.wmName ∨ atom = atomWmName then emitWindow r watch id Kind.title
    else if atom = watch.atoms.frameExtents then emitWindow r watch id Kind.move
    else
      let state := minimized r watch.atoms id
      if atom = watch.atoms.wmState ∧ state ≠ window.minimized then
        emitWindow r (changeWindow watch id fun window => { window with minimized := state }) id
          (if state then Kind.minimize else Kind.restore)
      else emitWindow r watch id Kind.changed

def destroyed (watch : WindowWatch) (id : WindowId) : Outcome :=
  match findWindow watch id with
  | none => (watch, true)
  | some _ =>
    let (after, ok) := emitWindow r watch id Kind.close
    ({ after with windows := watch.windows.eraseIdx (windowIndex watch id) }, ok)

/-- The loop over the table, which tells of each entry that the window or its frame is. -/
def configureLoop (id sibling : WindowId) : List WatchedWindow → WindowWatch → List WatchedWindow × Bool × Outcome
  | [], watch => ([], false, watch, true)
  | window :: windows, watch =>
    if window.id ≠ id ∧ window.frame ≠ id then
      let (windows, restacked, outcome) := configureLoop id sibling windows watch
      (window :: windows, restacked, outcome)
    else
      let (watch, ok) := emitWindow r watch window.id Kind.move
      if !ok then (window :: windows, false, watch, false)
      else
        let (windows, restacked, outcome) := configureLoop id sibling windows watch
        ({ window with aboveSibling := sibling } :: windows, window.aboveSibling != sibling || restacked, outcome)

def configured (watch : WindowWatch) (id sibling : WindowId) : Outcome :=
  let (windows, restacked, after, ok) := configureLoop r id sibling watch.windows watch
  let after := { after with windows }
  if !ok then (after, false) else if restacked then initialSnapshot r after else (after, true)

def handleEvent (watch : WindowWatch) (event : Event) : Outcome :=
  let type := event.responseType &&& 0x7f
  if watch.xkbEventBase ≠ 0 ∧ type = watch.xkbEventBase then emitQueryState r watch .keyboard false
  else if watch.randrEventBase ≠ 0 ∧
      (type = watch.randrEventBase ∨ type.toNat = watch.randrEventBase.toNat + 1) then
    emitQueryState r watch .displays false
  else if type = EventType.createNotify ∧ event.parent = watch.root then refreshClients r watch false
  else if type = EventType.propertyNotify then
    if event.window = watch.root then rootProperty r watch event.atom
    else windowProperty r watch event.window event.atom
  else if type = EventType.mapNotify ∨ type = EventType.unmapNotify then
    if (findWindow watch event.window).isSome then
      emitWindow r watch event.window (if type = EventType.mapNotify then Kind.showWindow else Kind.hideWindow)
    else if type = EventType.mapNotify then refreshClients r watch false
    else (watch, true)
  else if type = EventType.destroyNotify then destroyed r watch event.window
  else if type = EventType.configureNotify then configured r watch event.window event.aboveSibling
  else if type = EventType.reparentNotify then
    match findWindow watch event.window with
    | none => (watch, true)
    | some _ => (changeWindow watch event.window fun window => { window with frame := frameFor r event.window }, true)
  else (watch, true)

/-- The setup of `ksd_x11_watch_run`, with the replies to each of its parts. -/
def watchStart (refresh snapshot states : Replies) (requestId : BitVec 64) (watch : WindowWatch) : Outcome :=
  let (watch, ok) := refreshClients refresh { watch with windows := [], written := [] } true
  let watch := { watch with active := refresh.activeWindow.getD watch.active }
  let status := if ok then Status.ok else Status.unavailable
  let (watch, sent) := writeFrame refresh watch 0 0 requestId (encodeU32 status ++ encodeU32 0)
  ((Outcome.andThen (watch, sent && ok) (initialSnapshot snapshot)).andThen fun watch =>
    emitQueryState states watch .keyboard true).andThen fun watch => emitQueryState states watch .displays true

end Events

end KeysharpDesktop.X11
