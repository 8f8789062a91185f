import KeysharpDesktop.Kwin.Text
import KeysharpDesktop.Wire.Request
import KeysharpDesktop.Wire.Utf8

/-! What the display workers accept of a request, and the window geometry that the client sends to any of them. -/
namespace KeysharpDesktop.Display

def int16Min : ℤ := -32768
def int16Max : ℤ := 32767
def int32Min : ℤ := -2147483648
def int32Max : ℤ := 2147483647

def maxCaptureDimension : ℕ := 32768
def maxCapturePixels : ℕ := 64 * 1024 * 1024

section Fields

/-- Two words, the first a flag and the second reserved. -/
def validFlagRequest (payload : Bytes) : Bool :=
  (do
    let (flag, c) ← cursorU32 payload
    let (reserved, c) ← cursorU32 c
    some (flag.toNat ≤ 1 && reserved == 0 && cursorFinished c) : Option Bool).getD false

/-- An optional revision of the keyboard state. -/
def validRevisionRequest (payload : Bytes) : Bool :=
  payload.isEmpty || (do
    let (length, c) ← cursorU32 payload
    if 64 < length.toNat then none
    else do
      let (revision, c) ← cursorBytes c length.toNat
      some (cursorFinished c && utf8Valid false revision) : Option Bool).getD false

def validPointRequest (payload : Bytes) : Bool :=
  (do
    let (_, c) ← cursorU32 payload
    let (_, c) ← cursorU32 c
    let (deepest, c) ← cursorU32 c
    let (zero, c) ← cursorU32 c
    some (deepest.toNat ≤ 1 && zero == 0 && cursorFinished c) : Option Bool).getD false

def validPositionRequest (accepts : ℤ → ℤ → Bool) (payload : Bytes) : Bool :=
  (do
    let (x, c) ← cursorU32 payload
    let (y, c) ← cursorU32 c
    some (accepts x.toInt y.toInt && cursorFinished c) : Option Bool).getD false

def validMimetypeRequest (payload : Bytes) : Bool :=
  (do
    let (length, c) ← cursorU32 payload
    if length == 0 || maxMimetypeBytes < length.toNat then none
    else do
      let (mimetype, c) ← cursorBytes c length.toNat
      some (cursorFinished c && utf8Valid false mimetype) : Option Bool).getD false

def validHandleRequest (accepts : BitVec 64 → Bool) (payload : Bytes) : Bool :=
  (do
    let (handle, c) ← cursorU64 payload
    some (cursorFinished c && accepts handle) : Option Bool).getD false

def validValueRequest (accepts : BitVec 64 → Bool) (ceiling : ℕ) (payload : Bytes) : Bool :=
  (do
    let (handle, c) ← cursorU64 payload
    let (value, c) ← cursorU32 c
    let (reserved, c) ← cursorU32 c
    some (cursorFinished c && accepts handle && reserved == 0 && value.toNat ≤ ceiling) : Option Bool).getD false

def validGeometryRequest (accepts : BitVec 64 → ℤ → ℤ → ℕ → ℕ → Bool) (payload : Bytes) : Bool :=
  (do
    let (handle, c) ← cursorU64 payload
    let (x, c) ← cursorU32 c
    let (y, c) ← cursorU32 c
    let (width, c) ← cursorU32 c
    let (height, c) ← cursorU32 c
    some (cursorFinished c && accepts handle x.toInt y.toInt width.toNat height.toNat) : Option Bool).getD false

def validAreaRequest (accepts : ℤ → ℤ → ℕ → ℕ → Bool) (payload : Bytes) : Bool :=
  (do
    let (x, c) ← cursorU32 payload
    let (y, c) ← cursorU32 c
    let (width, c) ← cursorU32 c
    let (height, c) ← cursorU32 c
    some (cursorFinished c && accepts x.toInt y.toInt width.toNat height.toNat) : Option Bool).getD false

end Fields

section X11

def x11HandleDigits : ℕ := 10

/-- `parse_xid`: a decimal number without leading zeros that names a window. -/
def parseXid (bytes : Bytes) : Option (BitVec 32) :=
  if bytes.isEmpty || x11HandleDigits < bytes.length then none
  else if 1 < bytes.length && bytes.head? == some 48 then none
  else if !bytes.all isDigit then none
  else
    let value := bytes.foldl (fun value byte => value * 10 + (byte.toNat - 48)) 0
    if value == 0 || 2 ^ 32 - 1 < value then none else some (BitVec.ofNat 32 value)

def handleIsXid (handle : BitVec 64) : Bool := handle != 0 && handle.toNat ≤ 2 ^ 32 - 1

def inInt16 (value : ℤ) : Bool := int16Min ≤ value && value ≤ int16Max

def validTitleRequest (payload : Bytes) : Bool :=
  (do
    let (handle, c) ← cursorU64 payload
    let (length, c) ← cursorU32 c
    if !handleIsXid handle || maxRequestPayload - 12 < length.toNat then none
    else do
      let (title, c) ← cursorBytes c length.toNat
      some (cursorFinished c && utf8Valid false title) : Option Bool).getD false

/-- A click, or one change of a button. -/
def validButtonRequest (buttons : ℕ) (validCount : ℕ → Bool) (payload : Bytes) : Bool :=
  (do
    let (handle, c) ← cursorU64 payload
    let (x, c) ← cursorU32 c
    let (y, c) ← cursorU32 c
    let (button, c) ← cursorU32 c
    let (count, c) ← cursorU32 c
    some (handleIsXid handle && inInt16 x.toInt && inInt16 y.toInt && 1 ≤ button.toNat && button.toNat ≤ buttons &&
      validCount count.toNat && cursorFinished c) : Option Bool).getD false

def captureWindowIncludeDecoration : BitVec 32 := 1

def validXidCapture (payload : Bytes) : Bool :=
  (do
    let (flags, c) ← cursorU32 payload
    let (length, c) ← cursorU32 c
    if flags &&& ~~~captureWindowIncludeDecoration != 0 then none
    else do
      let (bytes, c) ← cursorBytes c length.toNat
      some (cursorFinished c && (parseXid bytes).isSome) : Option Bool).getD false

/-- `ksd_x11_request_valid`'s check of a new geometry. -/
def x11Geometry (handle : BitVec 64) (x y : ℤ) (width height : ℕ) : Bool :=
  handleIsXid handle && width != 0 && height != 0 && width ≤ int16Max && height ≤ int16Max && inInt16 x && inInt16 y

def x11RequestValid (request : Frame) : Bool :=
  let opcode := request.opcode
  let payload := request.payload
  if opcode = Op.windowList then validFlagRequest payload
  else if opcode ∈ [Op.windowActive, Op.windowHandles, Op.cursorPosition, Op.workArea, Op.displayList,
      Op.clipboardMimetypes, Op.clipboardText] then payload.isEmpty
  else if opcode = Op.keyboardState then validRevisionRequest payload
  else if opcode = Op.windowAtPoint then validPointRequest payload
  else if opcode = Op.mouseMoveAbsolute then validPositionRequest (fun x y => inInt16 x && inInt16 y) payload
  else if opcode = Op.windowSetTitle then validTitleRequest payload
  else if opcode = Op.windowButton then validButtonRequest 32 (fun count => count ≤ 1) payload
  else if opcode = Op.windowClick then validButtonRequest 5 (fun count => 1 ≤ count && count ≤ 100) payload
  else if opcode = Op.captureArea then validAreaRequest (fun _ _ _ _ => true) payload
  else if opcode = Op.captureWindow then validXidCapture payload
  else if opcode ∈ [Op.windowFocus, Op.windowRaise, Op.windowLower, Op.windowClose, Op.windowKill, Op.windowQuery,
      Op.windowChildren, Op.windowFocusChild, Op.windowRedraw] then validHandleRequest handleIsXid payload
  else if opcode = Op.windowMoveResize then validGeometryRequest x11Geometry payload
  else if opcode = Op.windowSetState then validValueRequest handleIsXid 3 payload
  else if opcode = Op.windowSetOpacity then validValueRequest handleIsXid 255 payload
  else if opcode ∈ [Op.windowSetAbove, Op.windowSetDecorated, Op.windowSetVisible] then
    validValueRequest handleIsXid 1 payload
  else if opcode = Op.clipboardContent then validMimetypeRequest payload
  else false

end X11

section Wayland

def isHandle (handle : BitVec 64) : Bool := handle != 0

/-- `capture_window_identifier`. -/
def captureWindowIdentifier (payload : Bytes) : Option Bytes := do
  let (flags, c) ← cursorU32 payload
  let (length, c) ← cursorU32 c
  if 1 < flags.toNat || length == 0 || 128 < length.toNat then none
  else do
    let (bytes, c) ← cursorBytes c length.toNat
    if !cursorFinished c || !utf8Valid false bytes then none else some bytes

/-- `ksd_wayland_request_valid`'s check of a new geometry. -/
def waylandGeometry (handle : BitVec 64) (x y : ℤ) (width height : ℕ) : Bool :=
  isHandle handle && width ≤ int16Max && height ≤ int16Max &&
    (x != int32Min || y != int32Min || width != 0 || height != 0)

def waylandArea (x y : ℤ) (width height : ℕ) : Bool :=
  width != 0 && height != 0 && width ≤ maxCaptureDimension && height ≤ maxCaptureDimension &&
    width * height ≤ maxCapturePixels && x + width ≤ int32Max && y + height ≤ int32Max

def waylandRequestValid (request : Frame) : Bool :=
  let opcode := request.opcode
  let payload := request.payload
  if opcode ∈ [Op.clipboardMimetypes, Op.clipboardText, Op.captureDesktop, Op.windowHandles, Op.windowActive,
      Op.cursorPosition, Op.displayList, Op.workArea] then payload.isEmpty
  else if opcode = Op.keyboardState then validRevisionRequest payload
  else if opcode = Op.clipboardContent then validMimetypeRequest payload
  else if opcode ∈ [Op.windowFocus, Op.windowRaise, Op.windowLower, Op.windowKill, Op.windowClose, Op.windowQuery] then
    validHandleRequest isHandle payload
  else if opcode = Op.windowSetState then validValueRequest isHandle 3 payload
  else if opcode = Op.windowSetOpacity then validValueRequest isHandle 255 payload
  else if opcode = Op.windowSetAbove then validValueRequest isHandle 1 payload
  else if opcode = Op.windowMoveResize then validGeometryRequest waylandGeometry payload
  else if opcode = Op.windowAtPoint then validPointRequest payload
  else if opcode = Op.windowList then validFlagRequest payload
  else if opcode = Op.captureArea then validAreaRequest waylandArea payload
  else if opcode = Op.captureWindow then (captureWindowIdentifier payload).isSome
  else if opcode = Op.mouseMoveAbsolute then validPositionRequest (fun _ _ => true) payload
  else false

end Wayland

section Geometry

/-- `valid_window_geometry` of the client. -/
def validWindowGeometry (x y : ℤ) (width height : ℕ) : Bool :=
  !(x == int32Min && y == int32Min && width == 0 && height == 0) &&
    width ≤ maxCaptureDimension && height ≤ maxCaptureDimension &&
    (x == int32Min || width == 0 || x + width ≤ int32Max) && (y == int32Min || height == 0 || y + height ≤ int32Max)

/-- The payload of `request_geometry`. -/
def geometryPayload (handle : BitVec 64) (x y width height : BitVec 32) : Bytes :=
  encodeU64 handle ++ (encodeU32 x ++ (encodeU32 y ++ (encodeU32 width ++ encodeU32 height)))

def moveResizeRequest (requestId handle : BitVec 64) (x y width height : BitVec 32) : Frame :=
  requestFrame Op.windowMoveResize 0 requestId (geometryPayload handle x y width height)

/-- A geometry that the client accepts, with coordinates that are kept or that a display of 16 bits has. -/
structure CommonGeometry (x y : ℤ) (width height : ℕ) : Prop where
  client : validWindowGeometry x y width height
  left : x = int32Min ∨ int16Min ≤ x ∧ x ≤ int16Max
  top : y = int32Min ∨ int16Min ≤ y ∧ y ≤ int16Max
  narrow : width ≤ int16Max
  low : height ≤ int16Max

/-- No coordinate is left unchanged. -/
def SetsAll (x y : ℤ) (width height : ℕ) : Prop := x ≠ int32Min ∧ y ≠ int32Min ∧ width ≠ 0 ∧ height ≠ 0

variable {handle : BitVec 64} {x y width height : BitVec 32}

theorem validGeometryRequest_payload (accepts : BitVec 64 → ℤ → ℤ → ℕ → ℕ → Bool) (handle : BitVec 64)
    (x y width height : BitVec 32) :
    validGeometryRequest accepts (geometryPayload handle x y width height) =
      accepts handle x.toInt y.toInt width.toNat height.toNat := by
  have hlast : cursorU32 (encodeU32 height) = some (height, []) := by
    have hread := cursorU32_encodeU32 height []
    rwa [List.append_nil] at hread
  simp [validGeometryRequest, geometryPayload, hlast, cursorFinished]

theorem x11RequestValid_moveResize (requestId handle : BitVec 64) (x y width height : BitVec 32) :
    x11RequestValid (moveResizeRequest requestId handle x y width height) =
      x11Geometry handle x.toInt y.toInt width.toNat height.toNat :=
  validGeometryRequest_payload x11Geometry handle x y width height

theorem waylandRequestValid_moveResize (requestId handle : BitVec 64) (x y width height : BitVec 32) :
    waylandRequestValid (moveResizeRequest requestId handle x y width height) =
      waylandGeometry handle x.toInt y.toInt width.toNat height.toNat :=
  validGeometryRequest_payload waylandGeometry handle x y width height

theorem length_signedText (value : BitVec 32) : (signedText value.toInt).length ≤ 11 := by
  have hlow := BitVec.le_toInt value
  have hhigh := BitVec.toInt_lt (x := value)
  have hdigits : (decimalText value.toInt.natAbs).length ≤ 10 := length_decimalText (by omega) (by omega)
  have hminus : (ascii "-").length = 1 := rfl
  unfold signedText
  split_ifs
  · rw [List.length_append]
    omega
  · omega

/-- Every geometry has a text that the script can be handed. -/
theorem kwinRequestText_moveResize (hhandle : handle ≠ 0) (x y width height : BitVec 32) :
    (kwinRequestText Op.windowMoveResize (geometryPayload handle x y width height) requestCapacity).isSome := by
  have hlength : (geometryPayload handle x y width height).length = 24 := by simp [geometryPayload]
  have hdecode : decodeU64 (geometryPayload handle x y width height) = handle := decodeU64_encodeU64 _ _
  have hnumber : (decimalText handle.toNat).length ≤ 20 := length_decimalText (by omega) (by omega)
  have hspace : (ascii " ").length = 1 := rfl
  obtain ⟨text, htext, hshort⟩ : ∃ text,
      requestFormat Op.windowMoveResize (geometryPayload handle x y width height) = some text ∧
        text.length < requestCapacity := by
    unfold requestFormat
    rw [if_neg (by decide), if_neg (by decide), if_pos rfl, hlength, hdecode, if_neg (by simpa using hhandle)]
    refine ⟨_, rfl, ?_⟩
    have hx := length_signedText (decodeU32 ((geometryPayload handle x y width height).drop 8))
    have hy := length_signedText (decodeU32 ((geometryPayload handle x y width height).drop 12))
    have hwidth : (decimalText (decodeU32 ((geometryPayload handle x y width height).drop 16)).toNat).length ≤ 10 :=
      length_decimalText (by omega) (by omega)
    have hheight : (decimalText (decodeU32 ((geometryPayload handle x y width height).drop 20)).toNat).length ≤ 10 :=
      length_decimalText (by omega) (by omega)
    simp only [List.length_append, requestCapacity]
    omega
  unfold kwinRequestText
  rw [if_neg (by decide), if_neg (by decide), htext]
  simp [Nat.not_le.mpr hshort]

theorem waylandGeometry_common {x y : ℤ} {width height : ℕ} (hhandle : handle ≠ 0)
    (h : CommonGeometry x y width height) : waylandGeometry handle x y width height := by
  have hclient := h.client
  have hnarrow := h.narrow
  have hlow := h.low
  simp only [validWindowGeometry, Bool.and_eq_true, Bool.not_eq_true', Bool.and_eq_false_iff, beq_eq_false_iff_ne]
    at hclient
  simp only [waylandGeometry, isHandle, Bool.and_eq_true, Bool.or_eq_true, bne_iff_ne, decide_eq_true_eq]
  refine ⟨⟨⟨hhandle, hnarrow⟩, hlow⟩, ?_⟩
  tauto

theorem x11Geometry_common_iff {x y : ℤ} {width height : ℕ} (hhandle : handle ≠ 0) (hxid : handle.toNat < 2 ^ 32)
    (h : CommonGeometry x y width height) : x11Geometry handle x y width height ↔ SetsAll x y width height := by
  have hnarrow := h.narrow
  have hlow := h.low
  have hleft := h.left
  have htop := h.top
  simp only [x11Geometry, handleIsXid, inInt16, Bool.and_eq_true, bne_iff_ne, decide_eq_true_eq, SetsAll]
  have hmin : int32Min < int16Min := by decide
  constructor
  · rintro ⟨⟨⟨⟨⟨⟨-, hwidth⟩, hheight⟩, -⟩, -⟩, hx, -⟩, hy, -⟩
    exact ⟨by omega, by omega, hwidth, hheight⟩
  · rintro ⟨hx, hy, hwidth, hheight⟩
    exact ⟨⟨⟨⟨⟨⟨⟨hhandle, by omega⟩, hwidth⟩, hheight⟩, hnarrow⟩, hlow⟩, hleft.resolve_left hx⟩, htop.resolve_left hy⟩

/-- Every backend accepts a geometry that the client sends exactly when it leaves no coordinate unchanged. -/
theorem moveResize_accepted_iff (requestId handle : BitVec 64) (x y width height : BitVec 32) (hhandle : handle ≠ 0)
    (hxid : handle.toNat < 2 ^ 32) (h : CommonGeometry x.toInt y.toInt width.toNat height.toNat) :
    let request := moveResizeRequest requestId handle x y width height
    (x11RequestValid request ∧ waylandRequestValid request ∧
      (kwinRequestText request.opcode request.payload requestCapacity).isSome) ↔
        SetsAll x.toInt y.toInt width.toNat height.toNat := by
  have hwayland := waylandGeometry_common hhandle h
  have hkwin := kwinRequestText_moveResize hhandle x y width height
  have hx11 := x11Geometry_common_iff hhandle hxid h
  dsimp only
  rw [waylandRequestValid_moveResize, x11RequestValid_moveResize]
  constructor
  · exact fun hall => hx11.mp hall.1
  · exact fun hsets => ⟨hx11.mpr hsets, hwayland, hkwin⟩

/-- A window that is moved and resized. -/
theorem moveResize_accepted :
    let request := moveResizeRequest 5 7 10 20 300 200
    x11RequestValid request ∧ waylandRequestValid request ∧
      (kwinRequestText request.opcode request.payload requestCapacity).isSome :=
  (moveResize_accepted_iff 5 7 10 20 300 200 (by decide) (by decide)
    ⟨by decide, Or.inr (by decide), Or.inr (by decide), by decide, by decide⟩).mpr (by unfold SetsAll; decide)

/-- A window that is only moved keeps its size everywhere but on X11, which refuses the request. -/
theorem moveOnly_refused :
    CommonGeometry 10 20 0 0 ∧ x11RequestValid (moveResizeRequest 5 7 10 20 0 0) = false ∧
      waylandRequestValid (moveResizeRequest 5 7 10 20 0 0) = true :=
  ⟨⟨by decide, Or.inr (by decide), Or.inr (by decide), by decide, by decide⟩, by decide, by decide⟩

end Geometry

end KeysharpDesktop.Display
