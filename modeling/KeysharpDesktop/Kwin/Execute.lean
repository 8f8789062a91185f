import Mathlib.Data.List.DropRight
import KeysharpDesktop.Kwin.Script
import KeysharpDesktop.Lib.JsNumber

/-! The script's verbs: what it reads of the desktop, the handles it gives to windows, what it
does for a job, and the envelopes it sends. -/
namespace KeysharpDesktop.KwinScript

open JsText (Text)

section Desktop

/-- A rectangle of the compositor, whose numbers are finite; the script rounds them where it writes them. -/
structure Area where
  x : ℚ
  y : ℚ
  width : ℚ
  height : ℚ
  deriving DecidableEq, Repr

/-- What marks a window as furniture. -/
structure Furniture where
  specialWindow : Bool := false
  dock : Bool := false
  desktopWindow : Bool := false
  splash : Bool := false
  dropdownMenu : Bool := false
  menu : Bool := false
  popupMenu : Bool := false
  popupWindow : Bool := false
  toolbar : Bool := false
  tooltip : Bool := false
  notification : Bool := false
  onScreenDisplay : Bool := false
  deriving Repr

/-- A window as the script finds it; `none` is a property this version of KWin does not have.
`object` says which window it is, and `maximizeArea` what `clientArea` gives for it. -/
structure Window where
  object : ℕ
  internalId : Option Text := none
  caption : Option Text := none
  resourceClass : Option Text := none
  desktopFileName : Option Text := none
  resourceName : Option Text := none
  pid : Option ℤ := none
  frameGeometry : Option Area := none
  geometry : Option Area := none
  bufferGeometry : Option Area := none
  minimized : Option Bool := none
  hidden : Option Bool := none
  active : Option Bool := none
  keepAbove : Option Bool := none
  noBorder : Option Bool := none
  opacity : Option ℚ := none
  maximizeMode : Option ℤ := none
  maximized : Option Bool := none
  maximizeArea : Option Area := none
  canMaximize : Bool := false
  deleted : Bool := false
  furniture : Furniture := {}
  deriving Repr

/-- What a job can read. The three areas are what `clientArea` gives for the screen, for placement
and for the active window. -/
structure Desktop where
  windows : List Window
  activeWindow : Option Window := none
  cursorPos : Option (ℚ × ℚ) := none
  screenArea : Option Area := none
  placementArea : Option Area := none
  windowArea : Option Area := none
  canRaiseWindow : Bool := false
  canSlotRaise : Bool := false
  canSlotLower : Bool := false
  deriving Repr

/-- What a job can change: an assignment to a property or a call of the compositor. A number the
script could not read is `none`. -/
inductive WindowAction
  | setMinimized (object : ℕ) (value : Bool)
  | setMaximize (object : ℕ) (vertically horizontally : Bool)
  | setActiveWindow (object : ℕ)
  | raiseWindow (object : ℕ)
  | slotWindowRaise
  | slotWindowLower
  | closeWindow (object : ℕ)
  | setFrameGeometry (object : ℕ) (x y width height : Option ℚ)
  | setOpacity (object : ℕ) (value : Option ℚ)
  | setKeepAbove (object : ℕ) (value : Bool)
  | setNoBorder (object : ℕ) (value : Bool)
  | setSkipTaskbar (object : ℕ) (value : Bool)
  | setSkipPager (object : ℕ) (value : Bool)
  | setSkipSwitcher (object : ℕ) (value : Bool)
  deriving DecidableEq, Repr

/-- The compositor behind the script: what it shows, and what an action makes of it. An action
that throws leads nowhere. -/
structure Compositor (σ : Type) where
  desktop : σ → Desktop
  read : σ → ℕ → Window
  act : WindowAction → σ → Option σ

variable {σ : Type}

/-- The actions up to the one that throws, and the state after all of them. -/
def perform (c : Compositor σ) : σ → List WindowAction → List WindowAction × Option σ
  | s, [] => ([], some s)
  | s, action :: actions =>
    match c.act action s with
    | none => ([action], none)
    | some s =>
      let (done, s) := perform c s actions
      (action :: done, s)

end Desktop

section Handles

/-- `String` of a whole number. -/
def number (n : ℤ) : Text := JsText.ofBytes (signedText n)

/-- The tables of public handles. -/
structure Handles where
  handleByNativeId : List (Text × Text) := []
  nativeIdByHandle : List (Text × Text) := []
  fallbackHandles : List (ℕ × Text) := []
  nextFallbackHandle : ℕ := 4294967295
  deriving DecidableEq, Repr

/-- The loop down to a handle that is not taken. -/
def fallbackFrom (taken : List (Text × Text)) : ℕ → ℕ
  | 0 => 0
  | n + 1 => if (taken.lookup (number (n + 1))).isSome ∧ 1 < n + 1 then fallbackFrom taken n else n + 1

def fallbackWindowHandle (t : Handles) (window : Window) : Text × Handles :=
  match t.fallbackHandles.lookup window.object with
  | some handle => (handle, t)
  | none =>
    let n := fallbackFrom t.nativeIdByHandle t.nextFallbackHandle
    (number n, { t with
      nativeIdByHandle := (number n, JsText.lit "fallback") :: t.nativeIdByHandle
      fallbackHandles := t.fallbackHandles ++ [(window.object, number n)]
      nextFallbackHandle := if 1 < n then n - 1 else n })

def hashStart (nativeId : Text) : ℕ :=
  let hash := nativeId.foldl (fun hash c => (hash * 33 % 2 ^ 32) ^^^ c.toNat) 5381
  if hash = 0 then 1 else hash

def hashNext (hash : ℕ) : ℕ :=
  let hash := (hash + 1) % 2 ^ 32
  if hash = 0 then 1 else hash

/-- The loop up to a handle that no other window has. One more turn than there are entries is
enough, unless every number is taken. -/
def hashFrom (taken : List (Text × Text)) (nativeId : Text) : ℕ → ℕ → ℕ
  | 0, hash => hash
  | turns + 1, hash =>
    if (taken.lookup (number hash)).any (· ≠ nativeId) then hashFrom taken nativeId turns (hashNext hash)
    else hash

def windowHandle (t : Handles) (window : Window) : Text × Handles :=
  let nativeId := window.internalId.getD []
  if nativeId = [] then fallbackWindowHandle t window
  else
    match t.handleByNativeId.lookup nativeId with
    | some handle => (handle, t)
    | none =>
      let hash := hashFrom t.nativeIdByHandle nativeId (t.nativeIdByHandle.length + 1) (hashStart nativeId)
      (number hash, { t with
        handleByNativeId := (nativeId, number hash) :: t.handleByNativeId
        nativeIdByHandle := (number hash, nativeId) :: t.nativeIdByHandle })

/-- The windows with their handles, in the order in which the script asks for them. -/
def nameWindows : Handles → List Window → List (Window × Text) × Handles
  | t, [] => ([], t)
  | t, window :: windows =>
    let (handle, t) := windowHandle t window
    let (named, t) := nameWindows t windows
    ((window, handle) :: named, t)

def findWindow : Handles → List Window → Text → Option Window × Handles
  | t, [], _ => (none, t)
  | t, window :: windows, handle =>
    let (found, t) := windowHandle t window
    if found = handle then (some window, t) else findWindow t windows handle

end Handles

section Json

def jsonString (value : Option Text) : Text := JsText.quote (value.getD [])

/-- `Math.round`. -/
def mathRound (x : ℚ) : ℤ := (x + 1 / 2).floor

/-- The digits of a large number, the first of them before the point. -/
def exponentText (n : ℕ) : Bytes :=
  let digits := decimalText n
  let kept := digits.rdropWhile (· = 48)
  kept.take 1 ++ (if kept.length ≤ 1 then [] else ascii "." ++ kept.drop 1) ++ ascii "e+" ++
    decimalText (digits.length - 1)

/-- `String` of a number that is an integer. -/
def integerText (n : ℤ) : Bytes :=
  let written := JsNumber.shortest n.natAbs
  (if n < 0 then ascii "-" else []) ++ if written < 10 ^ 21 then decimalText written else exponentText written

/-- `String(Math.round(x))`. -/
def roundedText : JsNumber.Number → Bytes
  | .nan => ascii "NaN"
  | .infinite negative => ascii (if negative then "-Infinity" else "Infinity")
  | .finite x => integerText (mathRound x)

def rounded (x : JsNumber.Number) : Text := JsText.ofBytes (roundedText x)

def truth (b : Bool) : Text := if b then JsText.lit "true" else JsText.lit "false"

/-- The value of `a || b` for strings, of which the empty one is false. -/
def orElse (a b : Option Text) : Option Text := if (a.getD []) = [] then b else a

def truthy (b : Option Bool) : Bool := b.getD false

/-- `Math.abs(a - b) <= 1`. -/
def near (a b : ℚ) : Bool := |JsNumber.double (a - b)| ≤ 1

/-- `none` is a window of which nothing is known. -/
def maximizedState (window : Window) : Option Bool :=
  match window.maximizeMode, window.maximized with
  | some mode, _ => some (mode = 3)
  | none, some maximized => some maximized
  | none, none => do
    let area ← window.maximizeArea
    let geometry ← window.frameGeometry <|> window.geometry
    some (near geometry.x area.x && near geometry.y area.y && near geometry.width area.width &&
      near geometry.height area.height)

def appId (window : Window) : Option Text :=
  orElse window.resourceClass (orElse window.desktopFileName window.resourceName)

/-- The fields that a record vouches for. -/
def validFields (window : Window) : List Text :=
  [(true, "id"), (window.caption.isSome, "title"), (window.internalId.isSome, "captureId"),
    ((appId window).getD [] ≠ [], "appId"), (window.pid.any (0 < ·), "pid"),
    ((window.frameGeometry <|> window.geometry).isSome, "frame"),
    ((window.frameGeometry <|> window.geometry).isSome, "client"), (window.bufferGeometry.isSome, "buffer"),
    (window.minimized.isSome, "minimized"), ((maximizedState window).isSome, "maximized"),
    (window.active.isSome, "active"), (window.hidden.isSome && window.minimized.isSome, "visible"),
    (window.keepAbove.isSome, "alwaysOnTop"), (window.noBorder.isSome, "decorated"),
    (window.opacity.isSome, "transparency")].filterMap fun (valid, name) =>
      if valid then some (JsText.lit name) else none

/-- Texts one after another, with commas between them. -/
def commas : List Text → Text
  | [] => []
  | [text] => text
  | text :: texts => text ++ (JsText.lit "," ++ commas texts)

def areaJson (area : Area) : Text :=
  [JsText.lit "\x7b\"x\":", rounded (.finite area.x), JsText.lit ",\"y\":", rounded (.finite area.y),
    JsText.lit ",\"width\":", rounded (.finite area.width), JsText.lit ",\"height\":", rounded (.finite area.height),
    JsText.lit "\x7d"].flatten

def nowhere : Area := ⟨0, 0, 0, 0⟩

/-- The opacity in parts of 255. -/
def transparency (window : Window) : JsNumber.Number := .ofRat (window.opacity.getD 1 * 255)

def windowJson (window : Window) (handle : Text) : Text :=
  let geometry := (window.frameGeometry <|> window.geometry).getD nowhere
  let buffer := window.bufferGeometry.getD nowhere
  [JsText.lit "\x7b\"validFields\":[", commas ((validFields window).map JsText.quote), JsText.lit "],\"id\":",
    JsText.quote handle, JsText.lit ",\"captureId\":", jsonString window.internalId, JsText.lit ",\"title\":",
    jsonString window.caption, JsText.lit ",\"appId\":", jsonString (appId window), JsText.lit ",\"pid\":",
    number (max 0 (window.pid.getD 0)), JsText.lit ",\"frame\":", areaJson geometry, JsText.lit ",\"client\":",
    areaJson geometry, JsText.lit ",\"buffer\":", areaJson buffer, JsText.lit ",\"minimized\":",
    truth (truthy window.minimized), JsText.lit ",\"active\":", truth (truthy window.active),
    JsText.lit ",\"maximized\":", truth (truthy (maximizedState window)), JsText.lit ",\"visible\":",
    truth (!(truthy window.hidden || truthy window.minimized)), JsText.lit ",\"alwaysOnTop\":",
    truth (truthy window.keepAbove), JsText.lit ",\"decorated\":", truth (!truthy window.noBorder),
    JsText.lit ",\"transparency\":", rounded (transparency window), JsText.lit "\x7d"].flatten

end Json

section Verbs

variable {σ : Type}

def statusOk : ℕ := 0
def statusUnsupported : ℕ := 2
def statusInvalidRequest : ℕ := 3
def statusBusy : ℕ := 5
def statusNotFound : ℕ := 6
def statusInternal : ℕ := 255

/-- A window this service will report or act on. -/
def isOrdinary (window : Window) : Bool :=
  let f := window.furniture
  !window.deleted && !(f.specialWindow || f.dock || f.desktopWindow || f.splash || f.dropdownMenu || f.menu ||
    f.popupMenu || f.popupWindow || f.toolbar || f.tooltip || f.notification || f.onScreenDisplay)

/-- What a job comes to: its answer, unless it throws, what it did on the way, and the tables. -/
structure Performed where
  answer : Option (ℕ × Text)
  actions : List WindowAction
  handles : Handles
  deriving DecidableEq, Repr

/-- An answer that nothing was done for. -/
def answering (status : ℕ) (body : Text) (t : Handles) : Performed := ⟨some (status, body), [], t⟩

/-- An answer without a body, once some actions are done. -/
def acting (c : Compositor σ) (s : σ) (t : Handles) (actions : List WindowAction) (status : ℕ) : Performed :=
  let (done, after) := perform c s actions
  ⟨after.map fun _ => (status, []), done, t⟩

/-- The windows that a list shows. -/
def listed (desktop : Desktop) (includeHidden : Bool) : List Window :=
  desktop.windows.filter fun window =>
    isOrdinary window && (includeHidden || !(truthy window.hidden || truthy window.minimized))

def ordinary (desktop : Desktop) : List Window := desktop.windows.filter isOrdinary

def listBody (named : List (Window × Text)) : Text :=
  [JsText.lit "\x7b\"ok\":true,\"windows\":[", commas (named.map fun (window, handle) => windowJson window handle),
    JsText.lit "]\x7d"].flatten

def handlesBody (named : List (Window × Text)) : Text :=
  [JsText.lit "\x7b\"ok\":true,\"handles\":[", commas (named.map fun (_, handle) => JsText.quote handle),
    JsText.lit "]\x7d"].flatten

/-- The answer about one window; no window is `null`. -/
def windowBody : Option (Window × Text) → Text
  | some (window, handle) =>
    [JsText.lit "\x7b\"ok\":true,\"window\":", windowJson window handle, JsText.lit "\x7d"].flatten
  | none => JsText.lit "\x7b\"ok\":true,\"window\":null\x7d"

def pointBody (point : ℚ × ℚ) : Text :=
  [JsText.lit "\x7b\"x\":", rounded (.finite point.1), JsText.lit ",\"y\":", rounded (.finite point.2),
    JsText.lit "\x7d"].flatten

def windowList (desktop : Desktop) (t : Handles) (includeHidden : Bool) : Performed :=
  let (named, t) := nameWindows t (listed desktop includeHidden)
  answering statusOk (listBody named) t

def windowHandles (desktop : Desktop) (t : Handles) : Performed :=
  let (named, t) := nameWindows t (ordinary desktop)
  answering statusOk (handlesBody named) t

def windowActive (desktop : Desktop) (t : Handles) : Performed :=
  match desktop.activeWindow.filter isOrdinary with
  | some window =>
    let (handle, t) := windowHandle t window
    answering statusOk (windowBody (some (window, handle))) t
  | none => answering statusOk (windowBody none) t

/-- A cursor that cannot be read throws. -/
def cursorPosition (desktop : Desktop) (t : Handles) : Performed :=
  ⟨desktop.cursorPos.map fun point => (statusOk, pointBody point), [], t⟩

def workArea (desktop : Desktop) (t : Handles) : Performed :=
  match desktop.screenArea <|> desktop.placementArea <|> desktop.windowArea with
  | some area => answering statusOk (areaJson area) t
  | none => answering statusUnsupported [] t

def clearMaximize (window : Window) : List WindowAction :=
  if !window.canMaximize then []
  else
    match window.maximizeMode with
    | some mode => if mode ≠ 0 then [.setMaximize window.object false false] else []
    | none => if window.maximized = some true then [.setMaximize window.object false false] else []

/-- A coordinate that the request leaves as it is, or its own number. -/
def requested (keep : ℤ) (current : ℚ) (field : Text) : Option ℚ :=
  match JsText.parseInt field 10 with
  | some n => some (if n = keep then current else n)
  | none => none

/-- The frame is read once the window is no longer maximized; without one this throws. -/
def moveResize (c : Compositor σ) (s : σ) (t : Handles) (window : Window) (x y width height : Text) : Performed :=
  let (cleared, after) := perform c s (clearMaximize window)
  match after with
  | none => ⟨none, cleared, t⟩
  | some s =>
    let now := c.read s window.object
    match now.frameGeometry <|> now.geometry with
    | none => ⟨none, cleared, t⟩
    | some frame =>
      let x := requested (-2147483648) frame.x x
      let y := requested (-2147483648) frame.y y
      let width := requested 0 frame.width width
      let height := requested 0 frame.height height
      let moved := acting c s t (if x = some frame.x ∧ y = some frame.y ∧ width = some frame.width ∧
        height = some frame.height then [] else [.setFrameGeometry window.object x y width height]) statusOk
      { moved with actions := cleared ++ moved.actions }

/-- The number behind the handle. -/
def argument (job : ScriptJob) : Option ℤ :=
  ((JsText.split 32 job.body)[1]?).bind fun field => JsText.parseInt field 10

def raiseActions (desktop : Desktop) (window : Window) : Option (List WindowAction) :=
  if desktop.canRaiseWindow then some [.raiseWindow window.object]
  else if desktop.canSlotRaise then some [.setActiveWindow window.object, .slotWindowRaise]
  else none

def lowerActions (desktop : Desktop) (window : Window) : Option (List WindowAction) :=
  if desktop.canSlotLower then some [.setActiveWindow window.object, .slotWindowLower] else none

def stateActions (window : Window) : Option ℤ → Option (List WindowAction)
  | some 1 => some [.setMinimized window.object true]
  | some 2 => some [.setMinimized window.object false, .setMaximize window.object true true]
  | some 3 => some [.setMinimized window.object false]
  | some 0 => some [.setMinimized window.object false, .setMaximize window.object false false]
  | _ => none

/-- What is done or, where the compositor or the request has no way to it, what is answered. -/
def actingOr (c : Compositor σ) (s : σ) (t : Handles) (actions : Option (List WindowAction)) (status : ℕ) :
    Performed :=
  match actions with
  | some actions => acting c s t actions statusOk
  | none => answering status [] t

def opcodeIs (job : ScriptJob) (opcode : Opcode) : Bool := job.opcode = some (opcode.toNat : ℤ)

/-- The verbs that take a window. -/
def executeOn (c : Compositor σ) (s : σ) (t : Handles) (job : ScriptJob) (window : Window) : Performed :=
  let value := argument job
  if opcodeIs job Op.windowQuery then
    let (handle, t) := windowHandle t window
    answering statusOk (windowBody (some (window, handle))) t
  else if opcodeIs job Op.windowFocus then
    acting c s t [.setMinimized window.object false, .setActiveWindow window.object] statusOk
  else if opcodeIs job Op.windowRaise then
    actingOr c s t (raiseActions (c.desktop s) window) statusUnsupported
  else if opcodeIs job Op.windowLower then
    actingOr c s t (lowerActions (c.desktop s) window) statusUnsupported
  else if opcodeIs job Op.windowClose then acting c s t [.closeWindow window.object] statusOk
  else if opcodeIs job Op.windowMoveResize then
    match JsText.split 32 job.body with
    | [_, x, y, width, height] => moveResize c s t window x y width height
    | _ => answering statusInvalidRequest [] t
  else if opcodeIs job Op.windowSetState then
    actingOr c s t (stateActions window value) statusInvalidRequest
  else if opcodeIs job Op.windowSetOpacity then
    acting c s t [.setOpacity window.object (value.map fun n => JsNumber.double (n / 255))] statusOk
  else if opcodeIs job Op.windowSetAbove then
    acting c s t [.setKeepAbove window.object (value ≠ some 0)] statusOk
  else if opcodeIs job Op.windowSetDecorated then
    acting c s t [.setNoBorder window.object (value = some 0)] statusOk
  else if opcodeIs job Op.windowSetSkipTaskbar then
    acting c s t [.setSkipTaskbar window.object (value ≠ some 0), .setSkipPager window.object (value ≠ some 0),
      .setSkipSwitcher window.object (value ≠ some 0)] statusOk
  else answering statusUnsupported [] t

/-- The budget has run out; a number that could not be read has not. -/
def exhausted (job : ScriptJob) : Bool := job.budget.any (· ≤ 0)

def executeJob (c : Compositor σ) (s : σ) (t : Handles) (job : ScriptJob) : Performed :=
  if exhausted job then answering statusBusy [] t
  else
    let desktop := c.desktop s
    if opcodeIs job Op.windowList then windowList desktop t (job.body = JsText.lit "1")
    else if opcodeIs job Op.windowHandles then windowHandles desktop t
    else if opcodeIs job Op.windowActive then windowActive desktop t
    else if opcodeIs job Op.cursorPosition then cursorPosition desktop t
    else if opcodeIs job Op.workArea then workArea desktop t
    else
      let (found, t) := findWindow t desktop.windows ((JsText.split 32 job.body).headD [])
      match found.filter isOrdinary with
      | none => answering statusNotFound [] t
      | some window => executeOn c s t job window

end Verbs

section Batch

variable {σ : Type}

/-- A job's turn: the job, and the compositor as the job meets it. -/
structure Turn (σ : Type) where
  job : ScriptJob
  state : σ
  deriving DecidableEq, Repr

/-- What the script keeps of a turn. -/
structure Execution where
  job : ScriptJob
  status : ℕ
  body : Text
  actions : List WindowAction
  deriving DecidableEq, Repr

/-- One turn of the loop over a reply's jobs; a job that throws is an internal error. -/
def execute (c : Compositor σ) (t : Handles) (turn : Turn σ) : Execution × Handles :=
  let performed := executeJob c turn.state t turn.job
  let (status, body) := performed.answer.getD (statusInternal, [])
  (⟨turn.job, status, body, performed.actions⟩, performed.handles)

def executeAll (c : Compositor σ) : Handles → List (Turn σ) → List Execution × Handles
  | t, [] => ([], t)
  | t, turn :: turns =>
    let (execution, t) := execute c t turn
    let (executions, t) := executeAll c t turns
    (execution :: executions, t)

/-- The bytes of a string by its units; a unit behind the first half of a pair is passed over. -/
def utf8Length : Text → ℕ
  | [] => 0
  | c :: rest =>
    if c.toNat < 0x80 then 1 + utf8Length rest
    else if c.toNat < 0x800 then 2 + utf8Length rest
    else if JsText.isHigh c then
      match rest with
      | [] => 4
      | _ :: rest => 4 + utf8Length rest
    else 3 + utf8Length rest

def doneText (execution : Execution) : Text :=
  [JsText.lit "done ", execution.job.sequence, JsText.lit " ", number execution.status, JsText.lit " ",
    number (utf8Length execution.body), JsText.lit "\n"].flatten

def buildReport (generation : Text) (executions : List Execution) : Text :=
  [JsText.lit "KSK1\ngen ", generation, JsText.lit "\n", executions.flatMap doneText, JsText.lit "end\n",
    executions.flatMap Execution.body].flatten

/-- A count as an envelope spells it. -/
def countText (x : ℚ) : Text := number (max 0 x.floor)

def buildPoll (generation lane : Text) (roundTripMs lost : ℚ) : Text :=
  [JsText.lit "KSK1\ngen ", generation, JsText.lit "\nlane ", lane, JsText.lit "\nrtt ", countText roundTripMs,
    JsText.lit "\nlost ", countText lost, JsText.lit "\nend\n"].flatten

end Batch

section Outcomes

variable {σ : Type} {c : Compositor σ} {s : σ} {t : Handles} {job : ScriptJob}

/-- The statuses of a job that is run to its end. -/
def runStatuses : List ℕ := [statusOk, statusUnsupported, statusInvalidRequest, statusNotFound]

/-- The handle that a job starts with. -/
def handleOf (job : ScriptJob) : Text := (JsText.split 32 job.body).headD []

/-- The window that a job is about. -/
def targetOf (desktop : Desktop) (t : Handles) (job : ScriptJob) : Option Window :=
  (findWindow t desktop.windows (handleOf job)).1.filter isOrdinary

/-- A job that looks for no window by its handle. -/
def looksAround (job : ScriptJob) : Bool :=
  opcodeIs job Op.windowList || opcodeIs job Op.windowHandles || opcodeIs job Op.windowActive ||
    opcodeIs job Op.cursorPosition || opcodeIs job Op.workArea

/-- An outcome that carries no body. -/
def Performed.Silent (p : Performed) : Prop :=
  ∀ status body, p.answer = some (status, body) → status ∈ runStatuses ∧ body = []

/-- Everything a job can come to. -/
inductive Executed (c : Compositor σ) (s : σ) (t : Handles) (job : ScriptJob) : Performed → Prop
  | refused (spent : exhausted job) : Executed c s t job (answering statusBusy [] t)
  | list (live : exhausted job = false) (op : opcodeIs job Op.windowList) :
      Executed c s t job (windowList (c.desktop s) t (job.body = JsText.lit "1"))
  | handles (live : exhausted job = false) (op : opcodeIs job Op.windowHandles) :
      Executed c s t job (windowHandles (c.desktop s) t)
  | active (live : exhausted job = false) (op : opcodeIs job Op.windowActive) :
      Executed c s t job (windowActive (c.desktop s) t)
  | cursor (live : exhausted job = false) (op : opcodeIs job Op.cursorPosition) :
      Executed c s t job (cursorPosition (c.desktop s) t)
  | area (live : exhausted job = false) (op : opcodeIs job Op.workArea) :
      Executed c s t job (workArea (c.desktop s) t)
  | query (live : exhausted job = false) (op : opcodeIs job Op.windowQuery) (window : Window)
      (found : targetOf (c.desktop s) t job = some window) :
      Executed c s t job (executeOn c s (findWindow t (c.desktop s).windows (handleOf job)).2 job window)
  | silent (live : exhausted job = false) (around : looksAround job = false)
      (other : opcodeIs job Op.windowQuery = false ∨ targetOf (c.desktop s) t job = none) (p : Performed)
      (quiet : p.Silent) (tables : p.handles = (findWindow t (c.desktop s).windows (handleOf job)).2) :
      Executed c s t job p

theorem silent_answering {status : ℕ} (h : status ∈ runStatuses) (t : Handles) :
    (answering status [] t).Silent := by
  intro status' body hanswer
  cases hanswer
  exact ⟨h, rfl⟩

theorem silent_acting (c : Compositor σ) (s : σ) (t : Handles) (actions : List WindowAction) {status : ℕ}
    (h : status ∈ runStatuses) : (acting c s t actions status).Silent := by
  intro status' body hanswer
  obtain ⟨after, -, hpair⟩ := Option.map_eq_some_iff.mp hanswer
  cases hpair
  exact ⟨h, rfl⟩

theorem silent_actingOr (c : Compositor σ) (s : σ) (t : Handles) (actions : Option (List WindowAction)) {status : ℕ}
    (h : status ∈ runStatuses) :
    (actingOr c s t actions status).Silent ∧ (actingOr c s t actions status).handles = t := by
  cases actions with
  | none => exact ⟨silent_answering h t, rfl⟩
  | some actions => exact ⟨silent_acting c s t actions (by decide), rfl⟩

theorem silent_moveResize (c : Compositor σ) (s : σ) (t : Handles) (window : Window) (x y width height : Text) :
    (moveResize c s t window x y width height).Silent ∧
      (moveResize c s t window x y width height).handles = t := by
  unfold moveResize
  dsimp only
  split
  · exact ⟨nofun, rfl⟩
  · split
    · exact ⟨nofun, rfl⟩
    · refine ⟨?_, rfl⟩
      exact silent_acting c _ t _ (by decide)

/-- Every verb on a window but the query says nothing beyond its status. -/
theorem silent_executeOn (c : Compositor σ) (s : σ) (t : Handles) (window : Window)
    (hquery : opcodeIs job Op.windowQuery = false) :
    (executeOn c s t job window).Silent ∧ (executeOn c s t job window).handles = t := by
  unfold executeOn
  dsimp only
  rw [hquery, if_neg Bool.false_ne_true]
  split_ifs
  · exact ⟨silent_acting c s t _ (by decide), rfl⟩
  · exact silent_actingOr c s t _ (by decide)
  · exact silent_actingOr c s t _ (by decide)
  · exact ⟨silent_acting c s t _ (by decide), rfl⟩
  · split
    · exact silent_moveResize c s t window _ _ _ _
    · exact ⟨silent_answering (by decide) t, rfl⟩
  · exact silent_actingOr c s t _ (by decide)
  · exact ⟨silent_acting c s t _ (by decide), rfl⟩
  · exact ⟨silent_acting c s t _ (by decide), rfl⟩
  · exact ⟨silent_acting c s t _ (by decide), rfl⟩
  · exact ⟨silent_acting c s t _ (by decide), rfl⟩
  · exact ⟨silent_answering (by decide) t, rfl⟩

theorem executeJob_executed (c : Compositor σ) (s : σ) (t : Handles) (job : ScriptJob) :
    Executed c s t job (executeJob c s t job) := by
  unfold executeJob
  dsimp only
  by_cases hspent : exhausted job
  · rw [if_pos hspent]
    exact .refused hspent
  rw [if_neg hspent]
  rw [Bool.not_eq_true] at hspent
  by_cases hlist : opcodeIs job Op.windowList
  · rw [if_pos hlist]
    exact .list hspent hlist
  by_cases hhandles : opcodeIs job Op.windowHandles
  · rw [if_neg hlist, if_pos hhandles]
    exact .handles hspent hhandles
  by_cases hactive : opcodeIs job Op.windowActive
  · rw [if_neg hlist, if_neg hhandles, if_pos hactive]
    exact .active hspent hactive
  by_cases hcursor : opcodeIs job Op.cursorPosition
  · rw [if_neg hlist, if_neg hhandles, if_neg hactive, if_pos hcursor]
    exact .cursor hspent hcursor
  by_cases harea : opcodeIs job Op.workArea
  · rw [if_neg hlist, if_neg hhandles, if_neg hactive, if_neg hcursor, if_pos harea]
    exact .area hspent harea
  rw [if_neg hlist, if_neg hhandles, if_neg hactive, if_neg hcursor, if_neg harea]
  have haround : looksAround job = false := by
    rw [Bool.not_eq_true] at hlist hhandles hactive hcursor harea
    simp only [looksAround, hlist, hhandles, hactive, hcursor, harea, Bool.or_self]
  cases htarget : targetOf (c.desktop s) t job with
  | none =>
    have hfilter : (findWindow t (c.desktop s).windows ((JsText.split 32 job.body).headD [])).1.filter isOrdinary =
        none := htarget
    rw [hfilter]
    exact .silent hspent haround (.inr htarget) _ (silent_answering (by decide) _) rfl
  | some window =>
    have hfilter : (findWindow t (c.desktop s).windows ((JsText.split 32 job.body).headD [])).1.filter isOrdinary =
        some window := htarget
    rw [hfilter]
    by_cases hquery : opcodeIs job Op.windowQuery
    · exact .query hspent hquery window htarget
    · rw [Bool.not_eq_true] at hquery
      obtain ⟨hsilent, htables⟩ := silent_executeOn c s
        (findWindow t (c.desktop s).windows ((JsText.split 32 job.body).headD [])).2 window hquery
      exact .silent hspent haround (.inl hquery) _ hsilent htables

theorem executeOn_query (c : Compositor σ) (s : σ) (t : Handles) (window : Window)
    (hquery : opcodeIs job Op.windowQuery) : executeOn c s t job window =
      answering statusOk (windowBody (some (window, (windowHandle t window).1))) (windowHandle t window).2 := by
  rw [executeOn, if_pos hquery]

/-- A job that is not refused for its budget ends with another status. -/
theorem executeJob_status (hlive : exhausted job = false) {status : ℕ} {body : Text}
    (h : (executeJob c s t job).answer = some (status, body)) : status ∈ runStatuses := by
  have hcases := executeJob_executed c s t job
  generalize executeJob c s t job = p at h hcases
  have hok : statusOk ∈ runStatuses := by decide
  cases hcases with
  | refused hspent =>
    rw [hspent] at hlive
    cases hlive
  | list _ _ =>
    cases h
    exact hok
  | handles _ _ =>
    cases h
    exact hok
  | active _ _ =>
    unfold windowActive at h
    split at h
    · cases h
      exact hok
    · cases h
      exact hok
  | cursor _ _ =>
    obtain ⟨point, -, hpair⟩ := Option.map_eq_some_iff.mp h
    cases hpair
    exact hok
  | area _ _ =>
    unfold workArea at h
    split at h
    · cases h
      exact hok
    · cases h
      decide
  | query _ hquery window _ =>
    rw [executeOn_query c s _ window hquery] at h
    cases h
    exact hok
  | silent _ _ _ _ hsilent _ => exact (hsilent status body h).1

/-- The script says busy exactly where it has done nothing: no window is touched, and no handle
is given. -/
theorem execute_busy_iff (c : Compositor σ) (t : Handles) (turn : Turn σ) :
    (execute c t turn).1.status = statusBusy ↔ exhausted turn.job := by
  constructor
  · intro hbusy
    by_contra hlive
    rw [Bool.not_eq_true] at hlive
    simp only [execute] at hbusy
    cases hanswer : (executeJob c turn.state t turn.job).answer with
    | none =>
      rw [hanswer] at hbusy
      exact absurd hbusy (by decide)
    | some answer =>
      have hstatus := executeJob_status hlive hanswer
      rw [hanswer] at hbusy
      have hsame : answer.1 = statusBusy := hbusy
      rw [hsame] at hstatus
      exact absurd hstatus (by decide)
  · intro hspent
    simp only [execute, executeJob, if_pos hspent]
    rfl

theorem execute_exhausted (c : Compositor σ) (t : Handles) (turn : Turn σ) (h : exhausted turn.job) :
    execute c t turn = (⟨turn.job, statusBusy, [], []⟩, t) := by
  simp only [execute, executeJob, if_pos h]
  rfl

theorem execute_status_lt (c : Compositor σ) (t : Handles) (turn : Turn σ) :
    (execute c t turn).1.status < 256 := by
  by_cases hspent : exhausted turn.job
  · rw [execute_exhausted c t turn hspent]
    show statusBusy < 256
    decide
  rw [Bool.not_eq_true] at hspent
  simp only [execute]
  cases hanswer : (executeJob c turn.state t turn.job).answer with
  | none => decide
  | some answer =>
    have hstatus := executeJob_status hspent hanswer
    simp only [runStatuses, List.mem_cons, List.not_mem_nil, or_false] at hstatus
    show answer.1 < 256
    unfold statusOk statusUnsupported statusInvalidRequest statusNotFound at hstatus
    omega

@[simp] theorem execute_job (c : Compositor σ) (t : Handles) (turn : Turn σ) : (execute c t turn).1.job = turn.job := rfl

theorem executeAll_jobs (c : Compositor σ) (t : Handles) (turns : List (Turn σ)) :
    (executeAll c t turns).1.map Execution.job = turns.map Turn.job := by
  induction turns generalizing t with
  | nil => rfl
  | cons turn turns ih =>
    simp only [executeAll, List.map_cons, execute_job, ih]

/-- What holds of every turn, whatever the tables, holds of a batch. -/
theorem forall_executeAll {P : Execution → Prop} {turns : List (Turn σ)}
    (h : ∀ turn ∈ turns, ∀ t, P (execute c t turn).1) (t : Handles) : ∀ e ∈ (executeAll c t turns).1, P e := by
  induction turns generalizing t with
  | nil => exact nofun
  | cons turn turns ih =>
    intro e he
    rcases List.mem_cons.mp he with rfl | he
    · exact h turn List.mem_cons_self t
    · exact ih (fun turn' hturn' => h turn' (List.mem_cons_of_mem turn hturn')) _ e he

end Outcomes

end KeysharpDesktop.KwinScript
