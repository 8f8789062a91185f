import KeysharpDesktop.Client.Operations
import KeysharpDesktop.Display.Requests
import KeysharpDesktop.State.Objects

/-! The window list of a Wayland compositor: the table of toplevels, the JSON that each view writes of one, the
answers that are made of it, and the snapshot that the watch takes. -/
namespace KeysharpDesktop.Wayland

open Json

section Table

/-- A string of another application, as it comes through the compositor. -/
structure ClientText where
  bytes : Bytes
  terminated : (0 : UInt8) ∉ bytes
  deriving DecidableEq

def ClientText.empty : ClientText := ⟨[], by simp⟩

structure CosmicGeometry where
  output : ℕ
  x : BitVec 32
  y : BitVec 32
  width : BitVec 32
  height : BitVec 32
  deriving DecidableEq, Repr

/-- An output, and where it is, if that is known. -/
structure Output where
  output : ℕ
  bounds : Option Rect
  deriving DecidableEq, Repr

structure HyprClient where
  pid : BitVec 64
  frame : Rect
  mapped : Bool
  hidden : Bool
  visible : Bool
  floating : Bool
  active : Bool
  fullscreen : BitVec 32
  workspaceName : Bytes
  deriving DecidableEq, Repr

/-- An entry of the table; no entry is made without a handle. -/
structure Toplevel where
  id : BitVec 64
  named : id ≠ 0
  handle : Bool
  wlrHandle : Bool
  cosmicHandle : Bool
  closed : Bool
  ready : Bool
  title : Option ClientText
  appId : Option ClientText
  identifier : Option ClientText
  state : BitVec 32
  geometries : List CosmicGeometry
  hyprKnown : Bool
  hypr : HyprClient
  hyprOpacity : BitVec 32
  deriving DecidableEq

def stateMaximized : BitVec 32 := 1
def stateMinimized : BitVec 32 := 2
def stateActivated : BitVec 32 := 4

/-- The four sources of a window list. -/
inductive View
  | generic | wlr | cosmic | hypr
  deriving DecidableEq, Repr

end Table

section Hyprland

def minimizedWorkspace : Bytes := ascii "special:minimized"

def minimized (item : Toplevel) : Bool := item.hypr.workspaceName == minimizedWorkspace

def shown (item : Toplevel) : Bool :=
  item.hyprKnown && item.hypr.mapped && !item.hypr.hidden && item.hypr.visible && !minimized item

def hyprState (item : Toplevel) : BitVec 32 :=
  (if minimized item then stateMinimized else 0) ||| (if item.hypr.fullscreen != 0 then stateMaximized else 0) |||
    (if item.hypr.active && shown item then stateActivated else 0)

end Hyprland

def View.usable : View → Toplevel → Bool
  | .generic, item => item.handle && !item.closed && item.identifier.isSome
  | .wlr, item => item.wlrHandle && item.ready
  | .cosmic, item => !item.closed && item.cosmicHandle && item.ready && item.identifier.isSome && item.id != 0
  | .hypr, item => item.handle && !item.closed && item.identifier.isSome && item.hyprKnown && item.hypr.mapped

def View.state : View → Toplevel → BitVec 32
  | .generic, _ => 0
  | .hypr, item => hyprState item
  | _, item => item.state

section Writers

/-- A text that `snprintf` has to fit in its buffer. -/
def bufferFormatted (b : Buffer) (capacity : ℕ) (text : Bytes) : Option Buffer :=
  if text.length = 0 ∨ capacity ≤ text.length then none else bufferBytes b text

def bufferText (b : Buffer) (text : Option ClientText) : Option Buffer :=
  bufferJsonString b (text.getD ClientText.empty).bytes false

def flagText (value : Bool) : Bytes := ascii (if value then "true" else "false")

/-- `{"name":`. -/
def opening (name : String) : Bytes := ascii "\x7b\"" ++ ascii name ++ ascii "\":"

/-- `,"name":`. -/
def memberStart (name : String) : Bytes := ascii ",\"" ++ ascii name ++ ascii "\":"

def rectText (r : Rect) : Bytes :=
  opening "x" ++ signedText r.x.toInt ++ memberStart "y" ++ signedText r.y.toInt ++ memberStart "width" ++
    signedText r.width.toInt ++ memberStart "height" ++ signedText r.height.toInt ++ ascii "\x7d"

def geometryText (r : Rect) : Bytes := memberStart "frame" ++ rectText r ++ memberStart "client" ++ rectText r

/-- The first geometry on an output that has a place decides. -/
def resolveGeometry (outputs : List Output) (item : Toplevel) : Option Rect :=
  let place (geometry : CosmicGeometry) (bounds : Rect) : Option Rect :=
    let x := bounds.x.toInt + geometry.x.toInt
    let y := bounds.y.toInt + geometry.y.toInt
    if geometry.width.toInt ≤ 0 || geometry.height.toInt ≤ 0 || x < Display.int32Min || Display.int32Max < x ||
        y < Display.int32Min || Display.int32Max < y then none
    else some ⟨BitVec.ofInt 32 x, BitVec.ofInt 32 y, geometry.width, geometry.height⟩
  (item.geometries.findSome? fun geometry =>
    outputs.findSome? fun output =>
      if output.output != geometry.output then none else output.bounds.map (place geometry)).join

def bufferGeometry (b : Buffer) : Option Rect → Option Buffer
  | none => some b
  | some r => bufferFormatted b 320 (geometryText r)

def bufferWhen (b : Buffer) (condition : Bool) (write : Buffer → Option Buffer) : Option Buffer :=
  if condition then write b else some b

def genericWindow (item : Toplevel) (b : Buffer) : Option Buffer := do
  let b ← bufferBytes b (opening "id")
  let b ← bufferJsonString b (decimalText item.id.toNat) false
  let b ← bufferBytes b (memberStart "compositorId")
  let b ← bufferText b item.identifier
  let b ← bufferBytes b (memberStart "captureId")
  let b ← bufferText b item.identifier
  let b ← bufferBytes b (memberStart "title")
  let b ← bufferText b item.title
  let b ← bufferBytes b (memberStart "appId")
  let b ← bufferText b item.appId
  bufferBytes b (ascii ",\"validFields\":[\"id\",\"compositorId\",\"captureId\",\"title\",\"appId\"]\x7d")

def wlrWindow (item : Toplevel) (b : Buffer) : Option Buffer := do
  let b ← bufferBytes b (opening "id" ++ ascii "\"")
  let b ← bufferBytes b (decimalText item.id.toNat)
  let b ← bufferBytes b (ascii "\"" ++ memberStart "title")
  let b ← bufferText b item.title
  let b ← bufferBytes b (memberStart "appId")
  let b ← bufferText b item.appId
  let b ← bufferBytes b (memberStart "active")
  let b ← bufferBytes b (flagText (item.state &&& stateActivated != 0))
  let b ← bufferBytes b (memberStart "minimized")
  let b ← bufferBytes b (flagText (item.state &&& stateMinimized != 0))
  let b ← bufferBytes b (memberStart "maximized")
  let b ← bufferBytes b (flagText (item.state &&& stateMaximized != 0))
  bufferBytes b (ascii ",\"validFields\":[\"id\",\"title\",\"appId\",\"active\",\"minimized\",\"maximized\"]\x7d")

def cosmicWindow (outputs : List Output) (item : Toplevel) (b : Buffer) : Option Buffer := do
  let b ← bufferBytes b (opening "id" ++ ascii "\"")
  let b ← bufferBytes b (decimalText item.id.toNat)
  let b ← bufferBytes b (ascii "\"" ++ memberStart "title")
  let b ← bufferText b item.title
  let b ← bufferBytes b (memberStart "appId")
  let b ← bufferText b item.appId
  let b ← bufferBytes b (memberStart "captureId")
  let b ← bufferText b item.identifier
  let geometry := resolveGeometry outputs item
  let b ← bufferGeometry b geometry
  let b ← bufferBytes b (memberStart "active" ++ flagText (item.state &&& stateActivated != 0))
  let b ← bufferBytes b (memberStart "minimized" ++ flagText (item.state &&& stateMinimized != 0))
  let b ← bufferBytes b (memberStart "maximized" ++ flagText (item.state &&& stateMaximized != 0))
  let b ← bufferBytes b
    (ascii ",\"validFields\":[\"id\",\"captureId\",\"title\",\"appId\",\"active\",\"minimized\",\"maximized\"")
  let b ← bufferWhen b geometry.isSome (bufferBytes · (ascii ",\"frame\""))
  bufferBytes b (ascii "]\x7d")

def appendFlag (b : Buffer) (name : String) (value : Bool) : Option Buffer :=
  bufferFormatted b 48 (memberStart name ++ flagText value)

/-- The fields that Hyprland has of every window. -/
def hyprFields : Bytes :=
  ascii (",\"validFields\":[\"id\",\"compositorId\",\"captureId\",\"title\",\"appId\",\"frame\"," ++
    "\"client\",\"active\",\"minimized\",\"maximized\",\"visible\",\"alwaysOnTop\",\"onCurrentWorkspace\"")

def hyprWindow (item : Toplevel) (b : Buffer) : Option Buffer := do
  let flags := hyprState item
  let b ← bufferFormatted b 384 (opening "id" ++ ascii "\"" ++ decimalText item.id.toNat ++ ascii "\"")
  let b ← bufferBytes b (memberStart "compositorId")
  let b ← bufferText b item.identifier
  let b ← bufferBytes b (memberStart "captureId")
  let b ← bufferText b item.identifier
  let b ← bufferBytes b (memberStart "title")
  let b ← bufferText b item.title
  let b ← bufferBytes b (memberStart "appId")
  let b ← bufferText b item.appId
  let b ← bufferFormatted b 384 (geometryText item.hypr.frame)
  let b ← bufferWhen b (0 < item.hypr.pid.toInt)
    (bufferFormatted · 384 (memberStart "pid" ++ signedText item.hypr.pid.toInt))
  let b ← bufferWhen b (0 ≤ item.hyprOpacity.toInt)
    (bufferFormatted · 384 (memberStart "transparency" ++ signedText item.hyprOpacity.toInt))
  let b ← appendFlag b "active" (flags &&& stateActivated != 0)
  let b ← appendFlag b "minimized" (flags &&& stateMinimized != 0)
  let b ← appendFlag b "maximized" (flags &&& stateMaximized != 0)
  let b ← appendFlag b "visible" (!item.hypr.hidden)
  let b ← appendFlag b "alwaysOnTop" item.hypr.floating
  let b ← appendFlag b "onCurrentWorkspace" (item.hypr.visible || minimized item)
  let b ← bufferBytes b hyprFields
  let b ← bufferWhen b (0 < item.hypr.pid.toInt) (bufferBytes · (ascii ",\"pid\""))
  let b ← bufferWhen b (0 ≤ item.hyprOpacity.toInt) (bufferBytes · (ascii ",\"transparency\""))
  bufferBytes b (ascii "]\x7d")

/-- `append_window` of a view. -/
def View.appendWindow (outputs : List Output) : View → Toplevel → Buffer → Option Buffer
  | .generic => genericWindow
  | .wlr => wlrWindow
  | .cosmic => cosmicWindow outputs
  | .hypr => hyprWindow

end Writers

section Members

/-- What a member of a window's object holds. -/
inductive WindowValue
  | handle (id : BitVec 64)
  | text (text : ClientText)
  | flag (value : Bool)
  | number (n : ℤ)
  | rect (r : Rect)
  | names (ns : List String)

def WindowValue.bytes : WindowValue → Bytes
  | handle id => jsonString false (decimalText id.toNat)
  | text t => jsonString false t.bytes
  | flag value => flagText value
  | number n => signedText n
  | rect r => objectText [(ascii "x", signedText r.x.toInt), (ascii "y", signedText r.y.toInt),
      (ascii "width", signedText r.width.toInt), (ascii "height", signedText r.height.toInt)]
  | names ns => containerText false (ns.map fun name => quoted (ascii name))

def optionalText (text : Option ClientText) : WindowValue := .text (text.getD ClientText.empty)

/-- The members that a view writes of a window behind its handle. -/
def View.others (outputs : List Output) : View → Toplevel → List (String × WindowValue)
  | .generic, item =>
    [("compositorId", optionalText item.identifier),
      ("captureId", optionalText item.identifier), ("title", optionalText item.title),
      ("appId", optionalText item.appId),
      ("validFields", .names ["id", "compositorId", "captureId", "title", "appId"])]
  | .wlr, item =>
    [("title", optionalText item.title), ("appId", optionalText item.appId),
      ("active", .flag (item.state &&& stateActivated != 0)), ("minimized", .flag (item.state &&& stateMinimized != 0)),
      ("maximized", .flag (item.state &&& stateMaximized != 0)),
      ("validFields", .names ["id", "title", "appId", "active", "minimized", "maximized"])]
  | .cosmic, item =>
    let geometry := resolveGeometry outputs item
    [("title", optionalText item.title), ("appId", optionalText item.appId),
      ("captureId", optionalText item.identifier)] ++
    (geometry.toList.flatMap fun r => [("frame", .rect r), ("client", .rect r)]) ++
    [("active", .flag (item.state &&& stateActivated != 0)), ("minimized", .flag (item.state &&& stateMinimized != 0)),
      ("maximized", .flag (item.state &&& stateMaximized != 0)),
      ("validFields", .names (["id", "captureId", "title", "appId", "active", "minimized", "maximized"] ++
        if geometry.isSome then ["frame"] else []))]
  | .hypr, item =>
    [("compositorId", optionalText item.identifier),
      ("captureId", optionalText item.identifier), ("title", optionalText item.title),
      ("appId", optionalText item.appId), ("frame", .rect item.hypr.frame), ("client", .rect item.hypr.frame)] ++
    (if 0 < item.hypr.pid.toInt then [("pid", .number item.hypr.pid.toInt)] else []) ++
    (if 0 ≤ item.hyprOpacity.toInt then [("transparency", .number item.hyprOpacity.toInt)] else []) ++
    [("active", .flag (hyprState item &&& stateActivated != 0)),
      ("minimized", .flag (hyprState item &&& stateMinimized != 0)),
      ("maximized", .flag (hyprState item &&& stateMaximized != 0)), ("visible", .flag (!item.hypr.hidden)),
      ("alwaysOnTop", .flag item.hypr.floating),
      ("onCurrentWorkspace", .flag (item.hypr.visible || minimized item)),
      ("validFields", .names (["id", "compositorId", "captureId", "title", "appId", "frame", "client", "active",
        "minimized", "maximized", "visible", "alwaysOnTop", "onCurrentWorkspace"] ++
        (if 0 < item.hypr.pid.toInt then ["pid"] else []) ++
        (if 0 ≤ item.hyprOpacity.toInt then ["transparency"] else [])))]

def View.members (outputs : List Output) (view : View) (item : Toplevel) : List (String × WindowValue) :=
  ("id", .handle item.id) :: view.others outputs item

/-- The object that stands for a window in every answer. -/
def View.windowText (outputs : List Output) (view : View) (item : Toplevel) : Bytes :=
  objectText ((view.members outputs item).map fun m => (ascii m.1, m.2.bytes))

variable {outputs : List Output}

theorem bufferText_writes (text : Option ClientText) : Writes (bufferText · text) (optionalText text).bytes :=
  bufferJsonString_writes _ false

theorem bufferWhen_writes {f : Buffer → Option Buffer} {x : Bytes} (condition : Bool) (h : Writes f x) :
    Writes (bufferWhen · condition f) (if condition then x else []) := by
  cases condition
  · exact Writes.skip
  · exact h

theorem bufferFormatted_writes {capacity : ℕ} {text : Bytes} (hne : text.length ≠ 0) (hfits : text.length < capacity) :
    Writes (bufferFormatted · capacity text) text := by
  have hroom : ¬(text.length = 0 ∨ capacity ≤ text.length) := by omega
  unfold bufferFormatted
  simp only [if_neg hroom]
  exact bufferBytes_writes text

theorem handle_bytes (id : BitVec 64) : (WindowValue.handle id).bytes = quoted (decimalText id.toNat) :=
  (quoted_eq (plain_decimalText id.toNat)).symm

theorem flag_bytes (value : Bool) : (WindowValue.flag value).bytes = flagText value := rfl

theorem number_bytes (n : ℤ) : (WindowValue.number n).bytes = signedText n := rfl

theorem quoted_append (name rest : Bytes) : quoted name ++ rest = ascii "\"" ++ (name ++ (ascii "\"" ++ rest)) := by
  rw [quoted, List.cons_append, List.append_assoc]
  rfl

theorem opening_eq (name : String) : opening name = 123 :: 34 :: (ascii name ++ [34, 58]) := by
  simp only [opening, List.append_assoc]
  rfl

theorem memberStart_eq (name : String) : memberStart name = 44 :: 34 :: (ascii name ++ [34, 58]) := by
  simp only [memberStart, List.append_assoc]
  rfl

/-- An object's first member, and one behind others. -/
theorem opening_append (name : String) (v : Bytes) : opening name ++ v = 123 :: memberText (ascii name, v) := by
  simp only [opening_eq, memberText, quoted, List.cons_append, List.append_assoc, List.nil_append]

theorem memberStart_append (name : String) (v : Bytes) : memberStart name ++ v = 44 :: memberText (ascii name, v) := by
  simp only [memberStart_eq, memberText, quoted, List.cons_append, List.append_assoc, List.nil_append]

theorem rect_bytes (r : Rect) : (WindowValue.rect r).bytes = rectText r := by
  simp only [WindowValue.bytes, rectText, objectText, containerText, joined, opening_append, memberStart_append,
    List.map_cons, List.map_nil, List.flatMap_cons, List.flatMap_nil, if_true, List.append_assoc]
  simp only [memberText, List.cons_append, List.append_assoc]
  rfl

theorem length_geometryText (r : Rect) : (geometryText r).length ≠ 0 ∧ (geometryText r).length < 320 := by
  have hx := Display.length_signedText r.x
  have hy := Display.length_signedText r.y
  have hwidth := Display.length_signedText r.width
  have hheight := Display.length_signedText r.height
  have hnames : (ascii "x").length = 1 ∧ (ascii "y").length = 1 ∧ (ascii "width").length = 5 ∧
      (ascii "height").length = 6 ∧ (ascii "frame").length = 5 ∧ (ascii "client").length = 6 ∧
      (ascii "\x7d").length = 1 := by decide
  simp only [geometryText, rectText, opening_eq, memberStart_eq, List.length_append, List.length_cons, List.length_nil]
  omega

theorem bufferGeometry_writes (geometry : Option Rect) :
    Writes (bufferGeometry · geometry) (geometry.elim [] geometryText) := by
  cases geometry with
  | none => exact Writes.skip
  | some r =>
    obtain ⟨hne, hfits⟩ := length_geometryText r
    exact bufferFormatted_writes hne hfits

theorem length_signedText_64 (value : BitVec 64) : (signedText value.toInt).length ≤ 20 := by
  have hlow := BitVec.le_toInt value
  have hhigh := BitVec.toInt_lt (x := value)
  have hdigits : (decimalText value.toInt.natAbs).length ≤ 19 := length_decimalText (by omega) (by omega)
  have hminus : (ascii "-").length = 1 := rfl
  unfold signedText
  split_ifs
  · rw [List.length_append]
    omega
  · omega

theorem windowText_eq (view : View) (outputs : List Output) (item : Toplevel) :
    view.windowText outputs item = opening "id" ++ (ascii "\"" ++ (decimalText item.id.toNat ++ (ascii "\"" ++
      (((view.others outputs item).flatMap fun m => memberStart m.1 ++ m.2.bytes) ++ ascii "\x7d")))) := by
  simp only [View.windowText, View.members, objectText, containerText, joined, closing, handle_bytes, List.map_cons,
    List.flatMap_map, if_true, opening_eq, memberStart_eq, memberText, quoted, List.append_assoc, List.cons_append,
    List.nil_append]
  rfl

theorem genericWindow_writes (item : Toplevel) :
    Writes (genericWindow item) (View.generic.windowText outputs item) := by
  have hfields : ascii ",\"validFields\":[\"id\",\"compositorId\",\"captureId\",\"title\",\"appId\"]\x7d" =
      memberStart "validFields" ++
        ((WindowValue.names ["id", "compositorId", "captureId", "title", "appId"]).bytes ++ ascii "\x7d") := by
    simp only [memberStart, WindowValue.bytes, containerText, joined, quoted, List.map_cons, List.map_nil]
    repeat rw [ascii_ofList]
    rfl
  have hchain := (bufferBytes_writes (opening "id")).bind <|
    (bufferJsonString_writes (decimalText item.id.toNat) false).bind <|
    (bufferBytes_writes (memberStart "compositorId")).bind <| (bufferText_writes item.identifier).bind <|
    (bufferBytes_writes (memberStart "captureId")).bind <| (bufferText_writes item.identifier).bind <|
    (bufferBytes_writes (memberStart "title")).bind <| (bufferText_writes item.title).bind <|
    (bufferBytes_writes (memberStart "appId")).bind <| (bufferText_writes item.appId).bind <|
    (bufferBytes_writes
      (ascii ",\"validFields\":[\"id\",\"compositorId\",\"captureId\",\"title\",\"appId\"]\x7d"))
  apply hchain.of_eq
  rw [windowText_eq, hfields, ← quoted_append, ← handle_bytes]
  simp only [View.others, List.flatMap_cons, List.flatMap_nil, List.append_assoc, List.nil_append]
  rfl

theorem wlrWindow_writes (item : Toplevel) : Writes (wlrWindow item) (View.wlr.windowText outputs item) := by
  have hfields : ascii ",\"validFields\":[\"id\",\"title\",\"appId\",\"active\",\"minimized\",\"maximized\"]\x7d" =
      memberStart "validFields" ++
        ((WindowValue.names ["id", "title", "appId", "active", "minimized", "maximized"]).bytes ++ ascii "\x7d") := by
    simp only [memberStart, WindowValue.bytes, containerText, joined, quoted, List.map_cons, List.map_nil]
    repeat rw [ascii_ofList]
    rfl
  have hchain := (bufferBytes_writes (opening "id" ++ ascii "\"")).bind <|
    (bufferBytes_writes (decimalText item.id.toNat)).bind <|
    (bufferBytes_writes (ascii "\"" ++ memberStart "title")).bind <| (bufferText_writes item.title).bind <|
    (bufferBytes_writes (memberStart "appId")).bind <| (bufferText_writes item.appId).bind <|
    (bufferBytes_writes (memberStart "active")).bind <|
    (bufferBytes_writes (flagText (item.state &&& stateActivated != 0))).bind <|
    (bufferBytes_writes (memberStart "minimized")).bind <|
    (bufferBytes_writes (flagText (item.state &&& stateMinimized != 0))).bind <|
    (bufferBytes_writes (memberStart "maximized")).bind <|
    (bufferBytes_writes (flagText (item.state &&& stateMaximized != 0))).bind <|
    (bufferBytes_writes
      (ascii ",\"validFields\":[\"id\",\"title\",\"appId\",\"active\",\"minimized\",\"maximized\"]\x7d"))
  apply hchain.of_eq
  rw [windowText_eq, hfields]
  simp only [View.others, flag_bytes, List.flatMap_cons, List.flatMap_nil, List.append_assoc, List.nil_append]

theorem cosmicWindow_writes (outputs : List Output) (item : Toplevel) :
    Writes (cosmicWindow outputs item) (View.cosmic.windowText outputs item) := by
  have hfields : ∀ placed : Bool,
      ascii ",\"validFields\":[\"id\",\"captureId\",\"title\",\"appId\",\"active\",\"minimized\",\"maximized\"" ++
        ((if placed then ascii ",\"frame\"" else []) ++ ascii "]\x7d") =
      memberStart "validFields" ++ ((WindowValue.names (["id", "captureId", "title", "appId", "active", "minimized",
        "maximized"] ++ if placed then ["frame"] else [])).bytes ++ ascii "\x7d") := by
    intro placed
    cases placed <;>
    · simp only [memberStart, WindowValue.bytes, containerText, joined, quoted, List.map_cons, List.map_nil,
        List.cons_append, List.nil_append, if_true, if_false, Bool.false_eq_true, List.append_nil]
      repeat rw [ascii_ofList]
      rfl
  have hchain := (bufferBytes_writes (opening "id" ++ ascii "\"")).bind <|
    (bufferBytes_writes (decimalText item.id.toNat)).bind <|
    (bufferBytes_writes (ascii "\"" ++ memberStart "title")).bind <| (bufferText_writes item.title).bind <|
    (bufferBytes_writes (memberStart "appId")).bind <| (bufferText_writes item.appId).bind <|
    (bufferBytes_writes (memberStart "captureId")).bind <| (bufferText_writes item.identifier).bind <|
    (bufferGeometry_writes (resolveGeometry outputs item)).bind <|
    (bufferBytes_writes (memberStart "active" ++ flagText (item.state &&& stateActivated != 0))).bind <|
    (bufferBytes_writes (memberStart "minimized" ++ flagText (item.state &&& stateMinimized != 0))).bind <|
    (bufferBytes_writes (memberStart "maximized" ++ flagText (item.state &&& stateMaximized != 0))).bind <|
    (bufferBytes_writes (ascii
      ",\"validFields\":[\"id\",\"captureId\",\"title\",\"appId\",\"active\",\"minimized\",\"maximized\"")).bind <|
    (bufferWhen_writes (resolveGeometry outputs item).isSome (bufferBytes_writes (ascii ",\"frame\""))).bind <|
    (bufferBytes_writes (ascii "]\x7d"))
  have hgeometry : ((resolveGeometry outputs item).toList.flatMap fun r =>
      [("frame", WindowValue.rect r), ("client", WindowValue.rect r)]).flatMap
        (fun m => memberStart m.1 ++ m.2.bytes) = (resolveGeometry outputs item).elim [] geometryText := by
    cases resolveGeometry outputs item with
    | none => rfl
    | some r =>
      simp only [Option.toList, Option.elim, List.flatMap_cons, List.flatMap_nil, rect_bytes, geometryText,
        List.append_assoc, List.append_nil]
  apply hchain.of_eq
  rw [windowText_eq, hfields]
  simp only [View.others, flag_bytes, List.flatMap_append, List.flatMap_cons, List.flatMap_nil, List.append_assoc,
    List.nil_append, hgeometry]

theorem appendFlag_writes (name : String) (value : Bool) (h : (ascii name).length ≤ 30) :
    Writes (appendFlag · name value) (memberStart name ++ flagText value) := by
  have hflag : (flagText value).length ≤ 5 := by cases value <;> decide
  apply bufferFormatted_writes
  · simp only [memberStart_eq, List.length_append, List.length_cons]
    omega
  · simp only [memberStart_eq, List.length_append, List.length_cons, List.length_nil]
    omega

theorem hyprFields_append (pid transparency : Bool) :
    hyprFields ++ ((if pid then ascii ",\"pid\"" else []) ++
        ((if transparency then ascii ",\"transparency\"" else []) ++ ascii "]\x7d")) =
      memberStart "validFields" ++ ((WindowValue.names (["id", "compositorId", "captureId", "title", "appId", "frame",
        "client", "active", "minimized", "maximized", "visible", "alwaysOnTop", "onCurrentWorkspace"] ++
        (if pid then ["pid"] else []) ++ (if transparency then ["transparency"] else []))).bytes ++ ascii "\x7d") := by
  have hfirst : ascii ",\"validFields\":[\"id\",\"compositorId\",\"captureId\",\"title\",\"appId\",\"frame\"," =
      memberStart "validFields" ++ 91 :: (joined (["id", "compositorId", "captureId", "title", "appId", "frame"].map
        fun name => quoted (ascii name)) ++ [44]) := by
    simp only [memberStart, joined, quoted, List.map_cons, List.map_nil]
    repeat rw [ascii_ofList]
    rfl
  have hsecond : ascii
      "\"client\",\"active\",\"minimized\",\"maximized\",\"visible\",\"alwaysOnTop\",\"onCurrentWorkspace\"" =
      joined (["client", "active", "minimized", "maximized", "visible", "alwaysOnTop", "onCurrentWorkspace"].map
        fun name => quoted (ascii name)) := by
    simp only [joined, quoted, List.map_cons, List.map_nil]
    repeat rw [ascii_ofList]
    rfl
  have hpid : ascii ",\"pid\"" = 44 :: quoted (ascii "pid") := by decide
  have htransparency : ascii ",\"transparency\"" = 44 :: quoted (ascii "transparency") := by decide
  have hclose : ascii "]\x7d" = 93 :: ascii "\x7d" := by decide
  rw [hyprFields, ascii_append, hfirst, hsecond, hpid, htransparency, hclose]
  cases pid <;> cases transparency <;>
    simp only [WindowValue.bytes, containerText, joined, closing, List.map_cons, List.map_nil,
      List.cons_append, List.append_assoc, List.flatMap_cons, List.flatMap_nil, List.nil_append,
      List.append_nil, if_true, if_false, Bool.false_eq_true]

theorem hyprWindow_writes (item : Toplevel) : Writes (hyprWindow item) (View.hypr.windowText outputs item) := by
  have hid : Writes (bufferFormatted · 384 (opening "id" ++ ascii "\"" ++ decimalText item.id.toNat ++ ascii "\""))
      (opening "id" ++ ascii "\"" ++ decimalText item.id.toNat ++ ascii "\"") := by
    have hlength : (decimalText item.id.toNat).length ≤ 20 := length_decimalText (by omega) (by omega)
    have hfixed : (opening "id").length = 6 ∧ (ascii "\"").length = 1 := by decide
    apply bufferFormatted_writes <;> simp only [List.length_append] <;> omega
  have hframe : Writes (bufferFormatted · 384 (geometryText item.hypr.frame)) (geometryText item.hypr.frame) := by
    have hlength := length_geometryText item.hypr.frame
    exact bufferFormatted_writes hlength.1 (by omega)
  have hpid : Writes (bufferFormatted · 384 (memberStart "pid" ++ signedText item.hypr.pid.toInt))
      (memberStart "pid" ++ signedText item.hypr.pid.toInt) := by
    have hlength := length_signedText_64 item.hypr.pid
    have hfixed : (memberStart "pid").length = 7 := by decide
    apply bufferFormatted_writes <;> simp only [List.length_append] <;> omega
  have hopacity : Writes (bufferFormatted · 384 (memberStart "transparency" ++ signedText item.hyprOpacity.toInt))
      (memberStart "transparency" ++ signedText item.hyprOpacity.toInt) := by
    have hlength := Display.length_signedText item.hyprOpacity
    have hfixed : (memberStart "transparency").length = 16 := by decide
    apply bufferFormatted_writes <;> simp only [List.length_append] <;> omega
  have hmember : ∀ (present : Prop) [Decidable present] (name : String) (v : WindowValue),
      (if present then [(name, v)] else []).flatMap (fun m => memberStart m.1 ++ m.2.bytes) =
        if decide present then memberStart name ++ v.bytes else [] := by
    intro present _ name v
    by_cases h : present <;> simp [h]
  have hchain := hid.bind <|
    (bufferBytes_writes (memberStart "compositorId")).bind <| (bufferText_writes item.identifier).bind <|
    (bufferBytes_writes (memberStart "captureId")).bind <| (bufferText_writes item.identifier).bind <|
    (bufferBytes_writes (memberStart "title")).bind <| (bufferText_writes item.title).bind <|
    (bufferBytes_writes (memberStart "appId")).bind <| (bufferText_writes item.appId).bind <| hframe.bind <|
    (bufferWhen_writes (0 < item.hypr.pid.toInt) hpid).bind <|
    (bufferWhen_writes (0 ≤ item.hyprOpacity.toInt) hopacity).bind <|
    (appendFlag_writes "active" (hyprState item &&& stateActivated != 0) (by decide)).bind <|
    (appendFlag_writes "minimized" (hyprState item &&& stateMinimized != 0) (by decide)).bind <|
    (appendFlag_writes "maximized" (hyprState item &&& stateMaximized != 0) (by decide)).bind <|
    (appendFlag_writes "visible" (!item.hypr.hidden) (by decide)).bind <|
    (appendFlag_writes "alwaysOnTop" item.hypr.floating (by decide)).bind <|
    (appendFlag_writes "onCurrentWorkspace" (item.hypr.visible || minimized item) (by decide)).bind <|
    (bufferBytes_writes hyprFields).bind <|
    (bufferWhen_writes (0 < item.hypr.pid.toInt) (bufferBytes_writes (ascii ",\"pid\""))).bind <|
    (bufferWhen_writes (0 ≤ item.hyprOpacity.toInt) (bufferBytes_writes (ascii ",\"transparency\""))).bind <|
    (bufferBytes_writes (ascii "]\x7d"))
  apply hchain.of_eq
  rw [windowText_eq, hyprFields_append]
  simp only [View.others, List.flatMap_append, List.flatMap_cons, List.flatMap_nil, hmember, rect_bytes, geometryText,
    flag_bytes, number_bytes, decide_eq_true_eq]
  generalize (WindowValue.names _).bytes = fields
  simp only [List.append_assoc, List.nil_append]

end Members

section Answers

/-- The elements of a list, each after the first behind a comma. -/
def appendAll (append : Toplevel → Buffer → Option Buffer) : Bool → List Toplevel → Buffer → Option Buffer
  | _, [], b => some b
  | first, item :: items, b => do
    let b ← if first then some b else bufferBytes b (ascii ",")
    let b ← append item b
    appendAll append false items b

/-- The framed text that `body` writes, or an error that names what is too large. -/
def textAnswer (body : Buffer → Option Buffer) (tooLarge : String) : OperationResult :=
  match body (bufferInit maxTextBytes) with
  | none => resultError Status.resourceExhausted 0 (ascii tooLarge)
  | some b => resultTakeFramedText b Status.resourceExhausted (ascii tooLarge)

def windowOf (view : View) (outputs : List Output) (item : Option Toplevel) (b : Buffer) : Option Buffer := do
  let b ← bufferBytes b (ascii "\x7b\"ok\":true,\"window\":")
  let b ← match item with
    | none => bufferBytes b (ascii "null")
    | some item => view.appendWindow outputs item b
  bufferBytes b (ascii "\x7d")

def findWindow (view : View) (table : List Toplevel) (handle : BitVec 64) : Option Toplevel :=
  table.find? fun item => view.usable item && item.id == handle

def windowQuery (view : View) (outputs : List Output) (table : List Toplevel) (handle : BitVec 64) : OperationResult :=
  match findWindow view table handle with
  | none => resultError Status.notFound 0 (ascii "the window no longer exists")
  | some item => textAnswer (windowOf view outputs (some item)) "the window result is too large"

def windowHandles (view : View) (table : List Toplevel) : OperationResult :=
  textAnswer (fun b => do
    let b ← bufferBytes b (ascii "\x7b\"ok\":true,\"handles\":[")
    let b ← appendAll (fun item b => bufferJsonString b (decimalText item.id.toNat) false) true
      (table.filter view.usable) b
    bufferBytes b (ascii "]\x7d")) "the handle list is too large"

def View.listed (view : View) (includeHidden : Bool) (item : Toplevel) : Bool :=
  view.usable item && (includeHidden || view.state item &&& stateMinimized == 0)

def windowList (view : View) (outputs : List Output) (table : List Toplevel) (includeHidden : Bool) :
    OperationResult :=
  textAnswer (fun b => do
    let b ← bufferBytes b (ascii "\x7b\"ok\":true,\"windows\":[")
    let b ← appendAll (view.appendWindow outputs) true (table.filter (view.listed includeHidden)) b
    bufferBytes b (ascii "]\x7d")) "the window list is too large"

def activeWindow (view : View) (outputs : List Output) (table : List Toplevel) : OperationResult :=
  if view = .generic then
    resultError Status.unsupported 0 (ascii "this compositor does not expose an active window")
  else
    textAnswer (windowOf view outputs
      (table.find? fun item => view.usable item && view.state item &&& stateActivated != 0))
      "the active window result is too large"

def Rect.holds (r : Rect) (x y : ℤ) : Bool :=
  r.x.toInt ≤ x && r.y.toInt ≤ y && x < r.x.toInt + r.width.toInt && y < r.y.toInt + r.height.toInt

/-- The last hit of the list is the one on top. -/
def hyprWindowAtPoint (outputs : List Output) (table : List Toplevel) (x y : ℤ) : OperationResult :=
  textAnswer (windowOf .hypr outputs
    (table.reverse.find? fun item => View.hypr.usable item && shown item && Rect.holds item.hypr.frame x y))
    "the window result is too large"

inductive Query
  | list (includeHidden : Bool)
  | window (handle : BitVec 64)
  | handles
  | active
  | atPoint (x y : ℤ)

/-- The text operations on a table that has just been refreshed. -/
def answer (view : View) (outputs : List Output) (table : List Toplevel) : Query → OperationResult
  | .list includeHidden => windowList view outputs table includeHidden
  | .window handle => windowQuery view outputs table handle
  | .handles => windowHandles view table
  | .active => activeWindow view outputs table
  | .atPoint x y =>
    if view = .hypr then hyprWindowAtPoint outputs table x y
    else resultError Status.unsupported 0 (ascii "this compositor does not report window geometry")

/-- The watch's snapshot: one record a usable window, in the table's order. -/
def snapshot (view : View) (outputs : List Output) (table : List Toplevel) : Option (List WindowRecord) :=
  (table.filter view.usable).zipIdx.mapM fun (item, used) => do
    let b ← view.appendWindow outputs item (bufferInit maxTextBytes)
    let w ← stateWindowJson b.data
    some { w with stackingOrder := BitVec.ofNat 64 used, validFields := w.validFields ||| Field.stackingOrder }

end Answers

section Refresh

/-- What a refresh comes to: the table after each of its waits, and what Hyprland says of it. -/
structure Compositor where
  roundtrip : Option (List Toplevel)
  settled : Option (List Toplevel)
  hypr : List Toplevel → Except OperationResult (List Toplevel)

def cosmicReady (table : List Toplevel) : Bool :=
  table.all fun item => item.closed || !item.cosmicHandle || item.ready

def sweepClosed (table : List Toplevel) : List Toplevel := table.filter fun item => !item.closed

def windowsRefresh (compositor : Compositor) (view : Option View) : Except OperationResult (List Toplevel) := do
  match view with
  | none => .error (resultError Status.unsupported 0 (ascii "this compositor does not list its windows"))
  | some view =>
    match compositor.roundtrip with
    | none => .error (resultError Status.timeout 0 (ascii "the compositor did not answer"))
    | some table =>
      let settled := if view = .cosmic && !cosmicReady table then compositor.settled else some table
      match settled with
      | none => .error (resultError Status.timeout 0 (ascii "the compositor did not finish its window state"))
      | some table => if view = .hypr then compositor.hypr (sweepClosed table) else .ok (sweepClosed table)

end Refresh

end KeysharpDesktop.Wayland
