import KeysharpDesktop.Provider.Overlays

/-! `ShowImageOverlay` of the shell provider: the client's buffer is mapped for the overlay, its frame is checked
against the byte quotas, and the actor is drawn from it, whole or in the damaged area. -/
namespace KeysharpDesktop.Shell

structure Area where
  x : ℤ
  y : ℤ
  width : ℤ
  height : ℤ
  deriving DecidableEq

def SharedFrame.whole (shared : SharedFrame) : Area := ⟨0, 0, shared.width, shared.height⟩

/-- What the message's descriptor list gives at an index: nothing when the descriptor cannot be duplicated, and a
descriptor that may not be mappable. -/
inductive Descriptor
  | lost
  | unmappable
  | file (mapped : MappedFile)

/-- How the compositor takes an update of an actor; where it does not throw, it may not draw a part of a content. -/
inductive UpdateAnswer
  | throws
  | draws (regional : Bool)

/-- A call with the answers of the compositor to the update of the overlay's actor and to that of a new one. Damage is
absent where it is not four numbers. -/
structure ImageCall where
  id : ℤ
  owner : Owner
  busName : String
  width : ℤ
  height : ℤ
  fds : Option (List Descriptor)
  frameIndex : ℤ
  frameSerial : ℕ
  pixelWidth : ℤ
  pixelHeight : ℤ
  stride : ℤ
  damage : Option Area
  update : UpdateAnswer
  create : UpdateAnswer

/-- `shown` tells the area that was drawn; after `threw`, as after `refused`, the call returns false. -/
inductive ImageAnswer
  | shown (drawn : Option Area)
  | refused
  | threw
  deriving DecidableEq

def ImageCall.key (c : ImageCall) : String := overlayKey c.id c.owner

/-- The descriptor of the frame, where the list has one that can be duplicated. -/
def ImageCall.frame (c : ImageCall) : Option (Option MappedFile) :=
  match c.fds.bind fun list => if c.frameIndex < 0 then none else list[c.frameIndex.toNat]? with
  | none | some .lost => none
  | some .unmappable => some none
  | some (.file mapped) => some (some mapped)

def frameArea (damage : Option Area) (pixelWidth pixelHeight : ℤ) : Area :=
  let area := damage.getD ⟨0, 0, pixelWidth, pixelHeight⟩
  if area.width ≤ 0 ∨ area.height ≤ 0 then
    ⟨0, 0, 0, 0⟩
  else
    let left := max 0 area.x
    let top := max 0 area.y
    let right := min pixelWidth (area.x + area.width)
    let bottom := min pixelHeight (area.y + area.height)
    if left < right ∧ top < bottom then ⟨left, top, right - left, bottom - top⟩ else ⟨0, 0, 0, 0⟩

/-- The overlay's own mapping is kept where it is of the same buffer. -/
def SharedFrame.Fits (shared : SharedFrame) (c : ImageCall) : Prop :=
  shared.serial = c.frameSerial ∧ shared.width = c.pixelWidth ∧ shared.height = c.pixelHeight ∧
    shared.stride = c.stride

instance (shared : SharedFrame) (c : ImageCall) : Decidable (shared.Fits c) :=
  inferInstanceAs (Decidable (_ ∧ _))

/-- The mapping to draw from and the area to draw, for an overlay with the given mapping. A new mapping is drawn
whole. -/
def mapFrame (existing : Option SharedFrame) (file : Option MappedFile) (c : ImageCall) :
    Option (SharedFrame × Area) :=
  match existing.filter fun shared => shared.Fits c with
  | some shared => some (shared, frameArea c.damage c.pixelWidth c.pixelHeight)
  | none =>
    match file with
    | none => none
    | some mapped =>
      if (mapped.length : ℤ) < c.stride * c.pixelHeight then
        none
      else
        let shared : SharedFrame := ⟨c.frameSerial, mapped, c.pixelWidth, c.pixelHeight, c.stride⟩
        some (shared, shared.whole)

/-- The content after an update, and the area of the frame that was drawn into it. -/
def makeImageContent (content : Option SharedFrame) (shared : SharedFrame) (area : Area) (sameSize regional : Bool) :
    Option SharedFrame × Option Area :=
  let content := if sameSize then content else none
  if content.isSome ∧ (area.width ≤ 0 ∨ area.height ≤ 0) then
    (content, none)
  else if content.isSome ∧ area ≠ shared.whole ∧ regional then
    (some shared, some area)
  else
    (some shared, some shared.whole)

def newActor : ImageActor := ⟨none, none⟩

/-- No result stands for an exception. -/
def updateImageActor (actor : ImageActor) (shared : SharedFrame) (area : Area) :
    UpdateAnswer → Option (ImageActor × Option Area)
  | .throws => none
  | .draws regional =>
    let sameSize := actor.size = some (shared.width, shared.height)
    let (content, drawn) := makeImageContent actor.content shared area sameSize regional
    some (⟨some (shared.width, shared.height), content⟩, drawn)

/-- The bytes of a frame; its stride and its height are positive. -/
def SharedFrame.bytes (shared : SharedFrame) : ℕ := (shared.stride * shared.height).toNat

/-- An actor is made for an overlay that has none. -/
def createImageOverlay (t : Overlays) (c : ImageCall) (shared : SharedFrame) (area : Area) : Overlays × ImageAnswer :=
  match updateImageActor newActor shared area c.create with
  | none => (t, .threw)
  | some (actor, drawn) =>
    let entry : ImageOverlay := ⟨⟨c.owner, c.busName⟩, shared.bytes, shared, actor⟩
    (Overlays.ensureOverlayCleanupTimer { t with imageOverlays := t.imageOverlays.insert c.key entry }, .shown drawn)

/-- `_mapFrame` writes its mapping into the overlay it is given. -/
def Overlays.setShared (t : Overlays) (key : String) (shared : SharedFrame) : Overlays :=
  match t.imageOverlays.lookup key with
  | none => t
  | some entry => { t with imageOverlays := t.imageOverlays.insert key { entry with shared } }

def presentImageOverlay (t : Overlays) (c : ImageCall) (file : Option MappedFile) : Overlays × ImageAnswer :=
  match mapFrame ((t.imageOverlays.lookup c.key).map ImageOverlay.shared) file c with
  | none => (t, .refused)
  | some (shared, area) =>
    -- The overlay has the new mapping before the quota is checked.
    let t := t.setShared c.key shared
    let existing := t.imageOverlays.lookup c.key
    if ¬t.overlayBytesAvailable c.owner shared.bytes existing then
      (t, .refused)
    else
      match existing with
      | none => createImageOverlay t c shared area
      | some entry =>
        match updateImageActor entry.actor shared area c.update with
        | none => createImageOverlay (t.removeImageOverlayByKey c.key) c shared area
        | some (actor, drawn) =>
          let entry := { entry with owner := c.owner, busName := c.busName, frameBytes := shared.bytes, actor }
          (Overlays.ensureOverlayCleanupTimer { t with imageOverlays := t.imageOverlays.insert c.key entry },
            .shown drawn)

/-- The checks before the frame is looked at. -/
def ImageCall.valid (c : ImageCall) : Bool :=
  validOverlayGeometry c.width c.height && validOverlayGeometry c.pixelWidth c.pixelHeight &&
    decide (c.pixelWidth * 4 ≤ c.stride) && decide (c.stride * c.pixelHeight ≤ maxOverlayPixels * 4)

def showImageOverlay (t : Overlays) (c : ImageCall) : Overlays × ImageAnswer :=
  let t := t.cancelOverlayReconnectTimer c.owner
  if ¬(c.valid && t.overlayQuotaAvailable c.owner (t.imageOverlays.lookup c.key).isSome) then
    (t, .refused)
  else
    match c.frame with
    | none => (t, .refused)
    | some file => presentImageOverlay t c file

/-- What can happen to the overlays between two points of the main loop. -/
inductive OverlayCall
  | registerOwner (owner : Owner) (bus : String) (alive : Owner → Bool)
  | showHighlight (id : ℤ) (owner : Owner) (busName : String) (width height : ℤ) (throws : Bool)
  | hideHighlight (id : ℤ) (owner : Owner)
  | showImage (call : ImageCall)
  | moveImage (id : ℤ) (owner : Owner) (width height : ℤ)
  | clearImage (key : String)
  | hideImage (id : ℤ) (owner : Owner)
  | showTooltip (supportsTooltip : Bool) (slot : ℤ) (owner : Owner) (busName : String) (textLength : ℕ) (throws : Bool)
  | hideTooltip (supportsTooltip : Bool) (slot : ℤ) (owner : Owner)
  | nameOwnerChanged (name oldOwner newOwner : String) (alive : Owner → Bool)
  | reconnectFires (owner : Owner) (alive : Owner → Bool)
  | cleanupFires (alive : Owner → Bool)

def overlayCall (t : Overlays) : OverlayCall → Overlays
  | .registerOwner owner bus alive => t.registerHighlightOwner owner bus alive
  | .showHighlight id owner busName width height throws => (showHighlight t id owner busName width height throws).1
  | .hideHighlight id owner => t.hideHighlight id owner
  | .showImage call => (showImageOverlay t call).1
  | .moveImage id owner width height => (moveImageOverlay t id owner width height).1
  | .clearImage key => t.clearImageOverlay key
  | .hideImage id owner => t.hideImageOverlay id owner
  | .showTooltip supportsTooltip slot owner busName textLength throws =>
    (showTooltip t supportsTooltip slot owner busName textLength throws).1
  | .hideTooltip supportsTooltip slot owner => t.hideTooltip supportsTooltip slot owner
  | .nameOwnerChanged name oldOwner newOwner alive => t.handleNameOwnerChanged name oldOwner newOwner alive
  | .reconnectFires owner alive => t.reconnectFires owner alive
  | .cleanupFires alive => t.cleanupFires alive

end KeysharpDesktop.Shell
