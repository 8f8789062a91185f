import KeysharpDesktop.Wire.Buffer
import KeysharpDesktop.Wire.Utf8

/-! Window records and state events, and their wire form. -/
namespace KeysharpDesktop

/-- A string that can stand in a record: valid, without NUL, and within the text limit. -/
structure StateText where
  bytes : Bytes
  valid : utf8Valid false bytes
  short : bytes.length ≤ maxTextBytes
  deriving DecidableEq

def StateText.empty : StateText := ⟨[], rfl, by decide⟩

instance : Inhabited StateText := ⟨StateText.empty⟩

structure Rect where
  x : BitVec 32
  y : BitVec 32
  width : BitVec 32
  height : BitVec 32
  deriving DecidableEq, Repr, Inhabited

structure WindowRecord where
  flags : BitVec 32
  validFields : BitVec 64
  handle : BitVec 64
  parent : BitVec 64
  pid : BitVec 32
  transparency : BitVec 32
  frame : Rect
  client : Rect
  surface : Rect
  bufferWidth : BitVec 32
  bufferHeight : BitVec 32
  title : StateText
  appId : StateText
  captureId : StateText
  compositorId : StateText
  stackingOrder : BitVec 64
  deriving DecidableEq, Inhabited

/-- A record with every field zero. -/
def windowRecordInit : WindowRecord :=
  ⟨0, 0, 0, 0, 0, 0, ⟨0, 0, 0, 0⟩, ⟨0, 0, 0, 0⟩, ⟨0, 0, 0, 0⟩, 0, 0, StateText.empty, StateText.empty, StateText.empty,
    StateText.empty, 0⟩

namespace Field

def id : BitVec 64 := 0x1
def title : BitVec 64 := 0x2
def frame : BitVec 64 := 0x10
def visible : BitVec 64 := 0x40
def active : BitVec 64 := 0x80
def minimized : BitVec 64 := 0x100
def maximized : BitVec 64 := 0x200
def above : BitVec 64 := 0x400
def decorated : BitVec 64 := 0x800
def transparency : BitVec 64 := 0x1000
def surface : BitVec 64 := 0x10000
def buffer : BitVec 64 := 0x20000
def stackingOrder : BitVec 64 := 0x80000

end Field

namespace Flag

def visible : BitVec 32 := 0x1
def active : BitVec 32 := 0x2
def minimized : BitVec 32 := 0x4
def maximized : BitVec 32 := 0x8
def above : BitVec 32 := 0x10
def decorated : BitVec 32 := 0x20

end Flag

inductive StateDomain
  | windows | keyboard | displays | clipboard | grants
  deriving DecidableEq, Repr, Inhabited

namespace StateDomain

/-- The place of a domain's counter among a lease's sequences. -/
def index : StateDomain → ℕ
  | windows => 0
  | keyboard => 1
  | displays => 2
  | clipboard => 3
  | grants => 4

def mask (domain : StateDomain) : Domains := 1 <<< domain.index

def ofMask (mask : Domains) : Option StateDomain :=
  [windows, keyboard, displays, clipboard, grants].find? fun domain => domain.mask == mask

theorem ofMask_mask (domain : StateDomain) : ofMask domain.mask = some domain := by
  cases domain <;> decide

end StateDomain

/-- Every domain bit. -/
def stateAll : Domains := 31

inductive StateKind
  | snapshotBegin | snapshotItem | snapshotEnd | create | destroy | shown | hidden | geometry | title
  | active | changed | grantChanged | reset
  deriving DecidableEq, Repr, Inhabited

namespace StateKind

def all : List StateKind :=
  [snapshotBegin, snapshotItem, snapshotEnd, create, destroy, shown, hidden, geometry, title, active,
    changed, grantChanged, reset]

def wire (kind : StateKind) : BitVec 32 := BitVec.ofNat 32 (all.idxOf kind + 1)

def ofWire (v : BitVec 32) : Option StateKind := all.find? fun kind => kind.wire == v

theorem ofWire_wire (kind : StateKind) : ofWire kind.wire = some kind := by
  cases kind <;> decide

/-- The three kinds that carry a snapshot. -/
def isSnapshot (kind : StateKind) : Bool := kind ∈ [snapshotBegin, snapshotItem, snapshotEnd]

end StateKind

/-- Sequences count without wrapping; the wire carries their low 64 bits. -/
structure StateEvent where
  kind : StateKind
  domain : StateDomain
  epoch : BitVec 64
  sequence : ℕ
  grantedScopes : Scopes
  revokedScopes : Scopes
  window : WindowRecord
  data : Bytes
  deriving DecidableEq, Inhabited

/-- A new event; the caller sets its kind and domain at once. -/
def stateEventInit (kind : StateKind) (domain : StateDomain) : StateEvent :=
  ⟨kind, domain, 0, 0, 0, 0, windowRecordInit, []⟩

section Encode

def encodeText (b : Buffer) (text : Bytes) : Option Buffer :=
  if text.length ≤ maxTextBytes then do
    let b ← bufferU32 b (BitVec.ofNat 32 text.length)
    bufferBytes b text
  else none

def bufferRect (b : Buffer) (r : Rect) : Option Buffer := do
  let b ← bufferU32 b r.x
  let b ← bufferU32 b r.y
  let b ← bufferU32 b r.width
  bufferU32 b r.height

/-- The part of an event that describes its window. -/
def bufferWindow (b : Buffer) (w : WindowRecord) : Option Buffer := do
  let b ← bufferU32 b w.flags
  let b ← bufferU64 b w.validFields
  let b ← bufferU64 b w.handle
  let b ← bufferU64 b w.parent
  let b ← bufferU32 b w.pid
  let b ← bufferU32 b w.transparency
  let b ← bufferRect b w.frame
  let b ← bufferRect b w.client
  let b ← bufferRect b w.surface
  let b ← bufferU32 b w.bufferWidth
  let b ← bufferU32 b w.bufferHeight
  let b ← bufferU64 b w.stackingOrder
  let b ← encodeText b w.title.bytes
  let b ← encodeText b w.appId.bytes
  let b ← encodeText b w.captureId.bytes
  encodeText b w.compositorId.bytes

def stateEventEncode (e : StateEvent) (b : Buffer) : Option Buffer := do
  let b ← bufferU32 b e.kind.wire
  let b ← bufferU32 b e.domain.mask
  let b ← bufferU64 b e.epoch
  let b ← bufferU64 b (BitVec.ofNat 64 e.sequence)
  let b ← bufferU32 b e.grantedScopes
  let b ← bufferU32 b e.revokedScopes
  let b ← bufferWindow b e.window
  encodeText b e.data

end Encode

section Decode

def decodeText (c : Cursor) : Option (StateText × Cursor) := do
  let (length, c) ← cursorU32 c
  let (data, c) ← cursorBytes c length.toNat
  if h : utf8Valid false data ∧ data.length ≤ maxTextBytes then some (⟨data, h.1, h.2⟩, c) else none

def cursorRect (c : Cursor) : Option (Rect × Cursor) := do
  let (x, c) ← cursorU32 c
  let (y, c) ← cursorU32 c
  let (width, c) ← cursorU32 c
  let (height, c) ← cursorU32 c
  some (⟨x, y, width, height⟩, c)

def cursorWindow (c : Cursor) : Option (WindowRecord × Cursor) := do
  let (flags, c) ← cursorU32 c
  let (validFields, c) ← cursorU64 c
  let (handle, c) ← cursorU64 c
  let (parent, c) ← cursorU64 c
  let (pid, c) ← cursorU32 c
  let (transparency, c) ← cursorU32 c
  let (frame, c) ← cursorRect c
  let (client, c) ← cursorRect c
  let (surface, c) ← cursorRect c
  let (bufferWidth, c) ← cursorU32 c
  let (bufferHeight, c) ← cursorU32 c
  let (stackingOrder, c) ← cursorU64 c
  let (title, c) ← decodeText c
  let (appId, c) ← decodeText c
  let (captureId, c) ← decodeText c
  let (compositorId, c) ← decodeText c
  some (⟨flags, validFields, handle, parent, pid, transparency, frame, client, surface, bufferWidth,
    bufferHeight, title, appId, captureId, compositorId, stackingOrder⟩, c)

def stateEventDecode (data : Bytes) : Option StateEvent := do
  let (kind, c) ← cursorU32 data
  let (domain, c) ← cursorU32 c
  let (epoch, c) ← cursorU64 c
  let (sequence, c) ← cursorU64 c
  let (grantedScopes, c) ← cursorU32 c
  let (revokedScopes, c) ← cursorU32 c
  let (window, c) ← cursorWindow c
  let (text, c) ← decodeText c
  if !cursorFinished c then none
  else do
    let kind ← StateKind.ofWire kind
    let domain ← StateDomain.ofMask domain
    some ⟨kind, domain, epoch, sequence.toNat, grantedScopes, revokedScopes, window, text.bytes⟩

end Decode

def stateWindowEqual (a b : WindowRecord) : Bool :=
  a.flags == b.flags && a.validFields == b.validFields && a.handle == b.handle && a.parent == b.parent &&
    a.pid == b.pid && a.transparency == b.transparency && a.frame == b.frame && a.client == b.client &&
    a.surface == b.surface && a.bufferWidth == b.bufferWidth && a.bufferHeight == b.bufferHeight &&
    a.stackingOrder == b.stackingOrder && a.title == b.title && a.appId == b.appId &&
    a.captureId == b.captureId && a.compositorId == b.compositorId

/-- A record is copied through its wire form, in a buffer of the text limit. -/
def stateWindowCopy (w : WindowRecord) : Option WindowRecord := do
  let b ← stateEventEncode { stateEventInit .changed .windows with window := w } (bufferInit maxTextBytes)
  let copy ← stateEventDecode b.data
  some copy.window

def stateMutatesWindows (opcode : Opcode) : Bool :=
  (Op.windowFocus ≤ opcode && opcode ≤ Op.windowSetSkipTaskbar && opcode != Op.windowGetReserved &&
      opcode != Op.windowReserve) ||
    opcode == Op.windowSetTitle || opcode == Op.windowSetVisible || opcode == Op.windowFocusChild

end KeysharpDesktop
