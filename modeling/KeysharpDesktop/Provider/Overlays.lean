import KeysharpDesktop.Lib.Table
import Mathlib.Data.Int.Basic

/-! The overlays of the shell provider: highlights, image overlays and tooltips in their tables, the owners they belong
to, the quotas over them, and the timers that clean up after an owner that is gone. -/
namespace KeysharpDesktop.Shell

def maxOverlayDimension : ℤ := 8192
def maxOverlayPixels : ℤ := 16 * 1024 * 1024
def maxOverlaysPerOwner : ℕ := 64
def maxOverlaysTotal : ℕ := 512
def maxOverlayBytesPerOwner : ℕ := 64 * 1024 * 1024
def maxOverlayBytesTotal : ℕ := 256 * 1024 * 1024
def maxTooltipChars : ℕ := 65536

/-- A client process. `_overlayCallerMatches` lets a call through only under the caller's own process id and start time,
and the start time is a part of a text split at colons. -/
structure Owner where
  pid : ℕ
  startTime : String
  plain : ':' ∉ startTime.toList
  deriving DecidableEq

def Owner.key (owner : Owner) : String := Nat.repr owner.pid ++ ":" ++ owner.startTime

def overlayKey (id : ℤ) (owner : Owner) : String := owner.key ++ ":" ++ Int.repr id

/-- A highlight or a tooltip. -/
structure Overlay where
  owner : Owner
  busName : String

structure MappedFile where
  file : ℕ
  length : ℕ
  deriving DecidableEq

/-- The client's buffer as an overlay keeps it mapped. -/
structure SharedFrame where
  serial : ℕ
  mapped : MappedFile
  width : ℤ
  height : ℤ
  stride : ℤ
  deriving DecidableEq

/-- What an update of an image actor reads of it: the size of its image, and its content by the buffer that was last
drawn into it. -/
structure ImageActor where
  size : Option (ℤ × ℤ)
  content : Option SharedFrame
  deriving DecidableEq

structure ImageOverlay extends Overlay where
  frameBytes : ℕ
  shared : SharedFrame
  actor : ImageActor

/-- A registration writes the bus name of an owner onto its overlays. -/
def Overlay.stamp (owner : Owner) (bus : String) (o : Overlay) : Overlay :=
  if o.owner = owner then { o with busName := bus } else o

def ImageOverlay.stamp (owner : Owner) (bus : String) (o : ImageOverlay) : ImageOverlay :=
  if o.owner = owner then { o with busName := bus } else o

/-- A reconnect timer is kept with the bus name whose loss started it. -/
structure Overlays where
  highlights : Table String Overlay
  imageOverlays : Table String ImageOverlay
  tooltips : Table String Overlay
  reconnectTimers : Table Owner String
  /-- `_overlayCleanupId` is not 0. -/
  cleanupId : Bool
  /-- The source of the cleanup timer is attached to the main loop. -/
  cleanupSource : Bool

namespace Overlays

def start : Overlays := ⟨∅, ∅, ∅, ∅, false, false⟩

variable (t : Overlays)

section Quotas

def size : ℕ := t.highlights.size + t.imageOverlays.size + t.tooltips.size

def hasAnyOverlays : Bool := t.highlights.size != 0 || t.imageOverlays.size != 0 || t.tooltips.size != 0

/-- How many overlays an owner has. -/
def ownerCount (owner : Owner) : ℕ :=
  (t.highlights.keep fun o => o.owner = owner).size + (t.imageOverlays.keep fun o => o.owner = owner).size +
    (t.tooltips.keep fun o => o.owner = owner).size

def hasOverlaysForOwner (owner : Owner) : Bool := t.ownerCount owner != 0

def overlayBytes : ℕ := t.imageOverlays.total ImageOverlay.frameBytes

def ownerBytes (owner : Owner) : ℕ := (t.imageOverlays.keep fun o => o.owner = owner).total ImageOverlay.frameBytes

def overlayQuotaAvailable (owner : Owner) (existing : Bool) : Bool :=
  existing || (decide (t.size < maxOverlaysTotal) && decide (t.ownerCount owner < maxOverlaysPerOwner))

def overlayBytesAvailable (owner : Owner) (frameBytes : ℕ) (existing : Option ImageOverlay) : Bool :=
  let previous := (existing.map ImageOverlay.frameBytes).getD 0
  decide (t.overlayBytes - previous + frameBytes ≤ maxOverlayBytesTotal) &&
    decide (t.ownerBytes owner - previous + frameBytes ≤ maxOverlayBytesPerOwner)

end Quotas

section Timers

def ensureOverlayCleanupTimer : Overlays :=
  if t.cleanupId then t else { t with cleanupId := true, cleanupSource := true }

def stopOverlayCleanupTimer : Overlays :=
  if t.cleanupId then { t with cleanupId := false, cleanupSource := false } else t

/-- The timer stops with the last overlay. -/
def stopUnused : Overlays :=
  if t.hasAnyOverlays then t else t.stopOverlayCleanupTimer

def cancelOverlayReconnectTimer (owner : Owner) : Overlays :=
  { t with reconnectTimers := t.reconnectTimers.erase owner }

end Timers

section Removal

def removeHighlightByKey (key : String) : Overlays := { t with highlights := t.highlights.erase key }

def removeImageOverlayByKey (key : String) : Overlays := { t with imageOverlays := t.imageOverlays.erase key }

def removeTooltipByKey (key : String) : Overlays := { t with tooltips := t.tooltips.erase key }

def removeOwnerOverlays (owner : Owner) : Overlays :=
  stopUnused <| cancelOverlayReconnectTimer
    { t with
      highlights := t.highlights.keep fun o => o.owner ≠ owner
      imageOverlays := t.imageOverlays.keep fun o => o.owner ≠ owner
      tooltips := t.tooltips.keep fun o => o.owner ≠ owner } owner

/-- What follows the removal of one overlay of an owner. -/
def afterHide (owner : Owner) : Overlays :=
  stopUnused <| if t.hasOverlaysForOwner owner then t else t.cancelOverlayReconnectTimer owner

def hideHighlight (id : ℤ) (owner : Owner) : Overlays :=
  (t.removeHighlightByKey (overlayKey id owner)).afterHide owner

def hideImageOverlay (id : ℤ) (owner : Owner) : Overlays :=
  (t.removeImageOverlayByKey (overlayKey id owner)).afterHide owner

def hideTooltip (supportsTooltip : Bool) (slot : ℤ) (owner : Owner) : Overlays :=
  if supportsTooltip then (t.removeTooltipByKey (overlayKey slot owner)).afterHide owner else t

def clearImageOverlay (key : String) : Overlays := (t.removeImageOverlayByKey key).stopUnused

end Removal

section Owners

/-- The overlays whose owner and bus name meet a condition, by their owners, each once. -/
def ownersWhere (p : Overlay → Bool) : List Owner :=
  let overlays := t.highlights.entries.map (·.2) ++ t.imageOverlays.entries.map (·.2.toOverlay) ++
    t.tooltips.entries.map (·.2)
  ((overlays.filter p).map Overlay.owner).eraseDups

/-- `alive` stands for `_overlayOwnerAlive`, the look at the process table. -/
def cleanupDeadOverlays (alive : Owner → Bool) : Overlays :=
  (t.ownersWhere fun o => !alive o.owner).foldl removeOwnerOverlays t

def registerHighlightOwner (owner : Owner) (bus : String) (alive : Owner → Bool) : Overlays :=
  let t := (t.cleanupDeadOverlays alive).cancelOverlayReconnectTimer owner
  { t with
    highlights := t.highlights.alter (Overlay.stamp owner bus)
    imageOverlays := t.imageOverlays.alter (ImageOverlay.stamp owner bus)
    tooltips := t.tooltips.alter (Overlay.stamp owner bus) }

def ownerHasReplacementBus (owner : Owner) (lostBusName : String) : Bool :=
  (t.ownersWhere fun o => o.busName != "" && o.busName != lostBusName).contains owner

def handleOverlayConnectionLost (alive : Owner → Bool) (lostBusName : String) (owner : Owner) : Overlays :=
  if alive owner then
    let t := t.cancelOverlayReconnectTimer owner
    { t with reconnectTimers := t.reconnectTimers.insert owner lostBusName }
  else
    t.removeOwnerOverlays owner

/-- Only a name that had an owner and has none now is lost. -/
def handleNameOwnerChanged (name oldOwner newOwner : String) (alive : Owner → Bool) : Overlays :=
  if name = "" ∨ oldOwner = "" ∨ newOwner ≠ "" then
    t
  else
    (t.ownersWhere fun o => o.busName == name).foldl (fun t => t.handleOverlayConnectionLost alive name) t

/-- The callback of a reconnect timer, where one is pending. -/
def reconnectFires (owner : Owner) (alive : Owner → Bool) : Overlays :=
  match t.reconnectTimers.lookup owner with
  | none => t
  | some lostBusName =>
    let t := t.cancelOverlayReconnectTimer owner
    if t.hasOverlaysForOwner owner && (!alive owner || !t.ownerHasReplacementBus owner lostBusName) then
      t.removeOwnerOverlays owner
    else
      t

/-- The callback of the cleanup timer, where its source is attached. -/
def cleanupFires (alive : Owner → Bool) : Overlays :=
  if t.cleanupSource then
    let t := t.cleanupDeadOverlays alive
    if t.hasAnyOverlays then t else { t with cleanupId := false, cleanupSource := false }
  else
    t

end Owners

end Overlays

section Show

def validOverlayGeometry (width height : ℤ) : Bool :=
  decide (0 < width) && decide (0 < height) && decide (width ≤ maxOverlayDimension) &&
    decide (height ≤ maxOverlayDimension) && decide (width * height ≤ maxOverlayPixels)

/-- `throws` tells whether the compositor fails while the edges are built. -/
def showHighlight (t : Overlays) (id : ℤ) (owner : Owner) (busName : String) (width height : ℤ) (throws : Bool) :
    Overlays × Bool :=
  let key := overlayKey id owner
  if (1 ≤ width ∨ 1 ≤ height) ∧
      ¬(validOverlayGeometry width height && t.overlayQuotaAvailable owner (t.highlights.lookup key).isSome) then
    (t, false)
  else
    let t := (t.cancelOverlayReconnectTimer owner).removeHighlightByKey key
    if width < 1 ∨ height < 1 then
      (t.stopUnused, true)
    else if throws then
      (t, false)
    else
      (Overlays.ensureOverlayCleanupTimer { t with highlights := t.highlights.insert key { owner, busName } }, true)

/-- `textLength` counts code units; the empty text clears the tooltip. -/
def showTooltip (t : Overlays) (supportsTooltip : Bool) (slot : ℤ) (owner : Owner) (busName : String)
    (textLength : ℕ) (throws : Bool) : Overlays × Bool :=
  let key := overlayKey slot owner
  if ¬supportsTooltip then
    (t, false)
  else if maxTooltipChars < textLength ∨
      textLength ≠ 0 ∧ ¬t.overlayQuotaAvailable owner (t.tooltips.lookup key).isSome then
    (t, false)
  else
    let t := (t.cancelOverlayReconnectTimer owner).removeTooltipByKey key
    if textLength = 0 then
      (t.stopUnused, true)
    else if throws then
      (t, false)
    else
      (Overlays.ensureOverlayCleanupTimer { t with tooltips := t.tooltips.insert key { owner, busName } }, true)

/-- The position and the size of an actor are the compositor's; the tables stay. -/
def moveImageOverlay (t : Overlays) (id : ℤ) (owner : Owner) (width height : ℤ) : Overlays × Bool :=
  (t, (t.imageOverlays.lookup (overlayKey id owner)).isSome && validOverlayGeometry width height)

end Show

end KeysharpDesktop.Shell
