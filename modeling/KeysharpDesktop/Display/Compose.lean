import Mathlib.Data.List.Nodup
import Mathlib.Data.List.ProdSigma
import KeysharpDesktop.Display.Capture
import KeysharpDesktop.Lib.Edges

/-! Captures of a Wayland display: every output gives a segment in its own scale and orientation, and the segments are
sampled into one image behind a header. -/
namespace KeysharpDesktop.Compose

open KeysharpDesktop.Capture KeysharpDesktop.Display

section Geometry

/-- A rectangle of the layout, which every caller has found not to be empty. -/
structure Request where
  x : BitVec 32
  y : BitVec 32
  width : BitVec 32
  height : BitVec 32
  wide : width ≠ 0
  high : height ≠ 0

/-- `captured_segment`: a rectangle of the layout, the part of a frame that shows it, and the contents of the frame's
file, `none` where it cannot be mapped. -/
structure Segment where
  x : BitVec 32
  y : BitVec 32
  width : BitVec 32
  height : BitVec 32
  pixelWidth : BitVec 32
  pixelHeight : BitVec 32
  sourceWidth : BitVec 32
  sourceHeight : BitVec 32
  sourceX : BitVec 32
  sourceY : BitVec 32
  stride : BitVec 32
  transform : BitVec 32
  flags : BitVec 32
  swapRedBlue : Bool
  isOpaque : Bool
  source : Option Bytes

def yInvert : BitVec 32 := 1

/-- A denominator of zero stops the process. -/
def roundedRatio (numerator denominator : ℕ) : Option ℕ :=
  if denominator = 0 then none
  else
    let quotient := numerator / denominator
    let remainder := numerator % denominator
    let rounded :=
      if denominator / 2 < remainder || remainder * 2 == denominator && quotient % 2 != 0 then quotient + 1
      else quotient
    some (min rounded (2 ^ 32 - 1))

/-- The first pixel whose centre is at or past an edge. -/
def mappedEdge (offset screenLength pixelLength : ℕ) : ℕ :=
  if offset = 0 ∨ screenLength = 0 ∨ pixelLength = 0 then 0
  else
    let numerator : ℤ := 2 * offset * pixelLength - screenLength
    let denominator : ℤ := 2 * screenLength
    if numerator ≤ 0 then 0 else ((numerator + denominator - 1) / denominator).toNat % 2 ^ 32

def inverseTransform (x y width height transform : BitVec 32) : BitVec 32 × BitVec 32 :=
  match transform.toNat with
  | 1 => (y, height - 1 - x)
  | 2 => (width - 1 - x, height - 1 - y)
  | 3 => (width - 1 - y, x)
  | 4 => (width - 1 - x, y)
  | 5 => (y, x)
  | 6 => (x, height - 1 - y)
  | 7 => (width - 1 - y, height - 1 - x)
  | _ => (x, y)

/-- The size of a frame as it is seen: a quarter turn swaps the sides. -/
def orientedSize (width height transform : BitVec 32) : BitVec 32 × BitVec 32 :=
  match transform.toNat with
  | 1 | 3 | 5 | 7 => (height, width)
  | _ => (width, height)

end Geometry

section ImageCopy

/-- `image_copy_state`. -/
structure ImageCopyState where
  width : BitVec 32
  height : BitVec 32
  transform : BitVec 32
  failureReason : BitVec 32
  argb : Bool
  xrgb : Bool
  abgr : Bool
  xbgr : Bool
  stopped : Bool
  ready : Bool
  failed : Bool
  deriving DecidableEq, Repr

/-- Whether red and blue are swapped in the first format offered that can be read, and whether it is opaque. -/
def imageFormat (state : ImageCopyState) : Option (Bool × Bool) :=
  if state.argb then some (false, false)
  else if state.xrgb then some (false, true)
  else if state.abgr then some (true, false)
  else if state.xbgr then some (true, true)
  else none

/-- What the compositor and the calls of one image copy come to: the state after the constraints and after the frame,
`none` where the wait for it fails, and the contents of the frame's file. -/
structure ImageCopy where
  session : Bool
  connectionFailed : Bool
  constraints : Option ImageCopyState
  allocated : Bool
  buffer : Bool
  frame : Bool
  finished : Option ImageCopyState
  source : Option Bytes

def intMax : ℕ := 2 ^ 31 - 1

def stoppedReason : BitVec 32 := 2

def captureError (copy : ImageCopy) (diagnostic : String) : OperationResult :=
  resultError (if copy.connectionFailed then Status.unavailable else Status.timeout) 0 (ascii diagnostic)

/-- The last steps of `capture_source_image_copy`: the part of the finished frame that shows the area. -/
def cropSegment (copy : ImageCopy) (state : ImageCopyState) (stride : BitVec 32) (swapRedBlue isOpaque : Bool)
    (localX localY logicalWidth logicalHeight outputWidth outputHeight : BitVec 32) (segment : Segment) :
    Except OperationResult Segment :=
  let oriented := orientedSize state.width state.height state.transform
  let sourceX := mappedEdge localX.toNat outputWidth.toNat oriented.1.toNat
  let sourceY := mappedEdge localY.toNat outputHeight.toNat oriented.2.toNat
  let cropRight := mappedEdge (localX + logicalWidth).toNat outputWidth.toNat oriented.1.toNat
  let cropBottom := mappedEdge (localY + logicalHeight).toNat outputHeight.toNat oriented.2.toNat
  if cropRight ≤ sourceX || cropBottom ≤ sourceY || oriented.1.toNat < cropRight || oriented.2.toNat < cropBottom then
    .error (resultError Status.unavailable 0 (ascii "the image-copy frame does not cover the requested area"))
  else
    .ok { segment with
      sourceX := BitVec.ofNat 32 sourceX
      sourceY := BitVec.ofNat 32 sourceY
      pixelWidth := BitVec.ofNat 32 (cropRight - sourceX)
      pixelHeight := BitVec.ofNat 32 (cropBottom - sourceY)
      sourceWidth := state.width
      sourceHeight := state.height
      stride, swapRedBlue, isOpaque
      transform := state.transform
      flags := 0
      source := copy.source }

def refuseIf (refused : Bool) (status : Status) (diagnostic : String) : Except OperationResult Unit :=
  if refused then .error (resultError status 0 (ascii diagnostic)) else .ok ()

/-- A wait for the compositor. -/
def awaited (copy : ImageCopy) (state : Option ImageCopyState) (diagnostic : String) :
    Except OperationResult ImageCopyState :=
  match state with
  | none => .error (captureError copy diagnostic)
  | some state => .ok state

/-- The size of the buffer is that of the constraints; the frame may come with another. -/
def captureSourceImageCopy (copy : ImageCopy)
    (localX localY logicalWidth logicalHeight outputWidth outputHeight : BitVec 32) (segment : Segment) :
    Except OperationResult Segment := do
  refuseIf (!copy.session) Status.unavailable "the compositor refused the image-copy session"
  let announced ← awaited copy copy.constraints "the compositor did not describe the image-copy buffer"
  refuseIf announced.stopped Status.cancelled "the compositor stopped the capture session"
  refuseIf ((imageFormat announced).isNone || announced.width == 0 || announced.height == 0 ||
      maxCaptureDimension < announced.width.toNat || maxCaptureDimension < announced.height.toNat)
    Status.unavailable "the compositor offered no supported image-copy buffer"
  let format := (imageFormat announced).getD (false, false)
  let stride := announced.width * 4
  let byteLength := stride.toNat * announced.height.toNat
  refuseIf (byteLength == 0 || maxCaptureBytes < byteLength || intMax < byteLength)
    Status.resourceExhausted "the image-copy buffer exceeds the service limit"
  refuseIf (!copy.allocated) Status.resourceExhausted "could not allocate the image-copy buffer"
  refuseIf (!copy.buffer) Status.resourceExhausted "could not create the image-copy buffer"
  refuseIf (!copy.frame) Status.unavailable "the compositor refused the image-copy frame"
  let state ← awaited copy copy.finished "the compositor did not finish the image-copy frame"
  refuseIf (state.stopped || state.failed && state.failureReason == stoppedReason)
    Status.cancelled "the compositor stopped the capture session"
  refuseIf (!state.ready || state.failed || 7 < state.transform.toNat)
    Status.unavailable "the compositor could not capture this source"
  if outputWidth = 0 ∧ outputHeight = 0 then
    -- A window is its own output.
    let oriented := orientedSize state.width state.height state.transform
    cropSegment copy state stride format.1 format.2 localX localY oriented.1 oriented.2 oriented.1 oriented.2 segment
  else
    cropSegment copy state stride format.1 format.2 localX localY logicalWidth logicalHeight outputWidth outputHeight
      segment

end ImageCopy

section Composition

/-- The pixels `left ≤ x < right`, `top ≤ y < bottom` of an image. -/
structure Area where
  left : ℕ
  top : ℕ
  right : ℕ
  bottom : ℕ
  deriving DecidableEq, Repr

def Area.Holds (area : Area) (x y : ℕ) : Prop := area.left ≤ x ∧ x < area.right ∧ area.top ≤ y ∧ y < area.bottom

instance (area : Area) (x y : ℕ) : Decidable (area.Holds x y) := inferInstanceAs (Decidable (_ ∧ _ ∧ _ ∧ _))

/-- The offsets of a segment's edges from the request's, as the source converts them. -/
def leftOffset (requestX x : BitVec 32) : ℕ := (x - requestX).toNat

def rightOffset (requestX x width : BitVec 32) : ℕ := ((x.toInt + width.toNat - requestX.toInt) % 2 ^ 32).toNat

/-- The rectangle that a segment is drawn on. -/
def destination (targetWidth targetHeight : ℕ) (request : Request) (segment : Segment) : Area where
  left := min (mappedEdge (leftOffset request.x segment.x) request.width.toNat targetWidth) targetWidth
  top := min (mappedEdge (leftOffset request.y segment.y) request.height.toNat targetHeight) targetHeight
  right := min (mappedEdge (rightOffset request.x segment.x segment.width) request.width.toNat targetWidth) targetWidth
  bottom :=
    min (mappedEdge (rightOffset request.y segment.y segment.height) request.height.toNat targetHeight) targetHeight

/-- One turn of the inner loop: a pixel of the image and the pixel of the frame that it is copied from. -/
structure PixelCopy where
  x : ℕ
  y : ℕ
  sourceX : BitVec 32
  sourceY : BitVec 32
  deriving DecidableEq, Repr

/-- The coordinate under the centre of pixel `i` of `n`. -/
def orientedCoordinate (first length : BitVec 32) (i n : ℕ) : BitVec 32 :=
  first + BitVec.ofNat 32 ((i * 2 + 1) * length.toNat % 2 ^ 64 / (n * 2))

def pixelCopy (area : Area) (segment : Segment) (row column : ℕ) : PixelCopy :=
  let orientedY := orientedCoordinate segment.sourceY segment.pixelHeight row (area.bottom - area.top)
  let orientedX := orientedCoordinate segment.sourceX segment.pixelWidth column (area.right - area.left)
  let source :=
    inverseTransform orientedX orientedY segment.sourceWidth segment.sourceHeight segment.transform
  { x := area.left + column
    y := area.top + row
    sourceX := source.1
    sourceY := if segment.flags &&& yInvert != 0 then segment.sourceHeight - 1 - source.2 else source.2 }

/-- The turns of both loops, row by row. -/
def pixelCopies (area : Area) (segment : Segment) : List PixelCopy :=
  ((List.range (area.bottom - area.top)).product (List.range (area.right - area.left))).map fun (row, column) =>
    pixelCopy area segment row column

/-- Why a composition has no image: a call that failed, or an access outside of a mapping. -/
inductive Stop
  | failed | fault
  deriving DecidableEq, Repr

def inputOffset (segment : Segment) (copy : PixelCopy) : ℕ :=
  copy.sourceY.toNat * segment.stride.toNat + copy.sourceX.toNat * 4

def outputOffset (targetWidth : ℕ) (copy : PixelCopy) : ℕ := captureHeaderSize + copy.y * targetWidth * 4 + copy.x * 4

def convertPixel (segment : Segment) (pixel : Bytes) : Bytes :=
  let pixel := if segment.swapRedBlue then [pixel[2]!, pixel[1]!, pixel[0]!, pixel[3]!] else pixel
  if segment.isOpaque then pixel.set 3 0xff else pixel

def copyPixel (targetWidth : ℕ) (segment : Segment) (source : Bytes) (target : Bytes) (copy : PixelCopy) :
    Except Stop Bytes :=
  if source.length < inputOffset segment copy + 4 || target.length < outputOffset targetWidth copy + 4 then .error .fault
  else
    .ok (writeAt target (outputOffset targetWidth copy)
      (convertPixel segment ((source.drop (inputOffset segment copy)).take 4)))

def composeSegment (target : Bytes) (targetWidth targetHeight : ℕ) (request : Request) (segment : Segment) :
    Except Stop Bytes :=
  let area := destination targetWidth targetHeight request segment
  if area.right ≤ area.left || area.bottom ≤ area.top then .ok target
  else
    match segment.source with
    | none => .error .failed
    | some source =>
      let mapped := source.take (segment.stride.toNat * segment.sourceHeight.toNat)
      (pixelCopies area segment).foldlM (copyPixel targetWidth segment mapped) target

/-- The larger of a scale and a segment's own, as fractions. -/
def raiseScale (scale : ℕ × ℕ) (pixels length : ℕ) : ℕ × ℕ :=
  if scale.1 * length < pixels * scale.2 then (pixels, length) else scale

def composedSize (request : Request) (segments : List Segment) : Option (ℕ × ℕ) := do
  let scaleX := segments.foldl (fun scale segment =>
    raiseScale scale segment.pixelWidth.toNat segment.width.toNat) (1, 1)
  let scaleY := segments.foldl (fun scale segment =>
    raiseScale scale segment.pixelHeight.toNat segment.height.toNat) (1, 1)
  let pixelWidth ← roundedRatio (request.width.toNat * scaleX.1) scaleX.2
  let pixelHeight ← roundedRatio (request.height.toNat * scaleY.1) scaleY.2
  some (pixelWidth, pixelHeight)

def pixelLength (pixelWidth pixelHeight : ℕ) : ℕ := pixelWidth * pixelHeight * 4 % 2 ^ 64

/-- The size that `compose_capture` admits. -/
def admits (pixelWidth pixelHeight : ℕ) : Bool :=
  let total := (captureHeaderSize + pixelLength pixelWidth pixelHeight) % 2 ^ 64
  !(pixelWidth = 0 || pixelHeight = 0 || maxCaptureDimension < pixelWidth || maxCaptureDimension < pixelHeight ||
    maxCapturePixels < pixelWidth * pixelHeight || maxCaptureBytes < pixelLength pixelWidth pixelHeight ||
    2 ^ 32 - 1 < total)

/-- The last steps of `compose_capture`, with every segment in the map. -/
def sealComposed (calls : FileCalls) (pixelWidth pixelHeight : ℕ) (map : Bytes) : CaptureAnswer :=
  let total := captureHeaderSize + pixelLength pixelWidth pixelHeight
  let header := captureHeader pixelWidth pixelHeight (pixelWidth * 4 % 2 ^ 32) (pixelLength pixelWidth pixelHeight)
  if !calls.unmapped || !calls.sealed then Capture.refuse Status.internal "could not seal the composed capture"
  else
    match resultTakeFd ⟨calls.inode, total, true, some requiredSeals⟩ (total % 2 ^ 32) with
    | none => Capture.refuse Status.internal "could not return the composed capture"
    | some result => ⟨result, writeAt map 0 header⟩

/-- `none` is a process that does not survive. -/
def composeCapture (calls : FileCalls) (request : Request) (segments : List Segment) : Option CaptureAnswer := do
  let (pixelWidth, pixelHeight) ← composedSize request segments
  if !admits pixelWidth pixelHeight then
    some (Capture.refuse Status.resourceExhausted "the scaled capture exceeds the service limit")
  else if !calls.created || !calls.sized then
    some (Capture.refuse Status.resourceExhausted "could not allocate the composed capture")
  else if !calls.mapped then some (Capture.refuse Status.resourceExhausted "could not map the composed capture")
  else
    let map := List.replicate (captureHeaderSize + pixelLength pixelWidth pixelHeight) 0
    match segments.foldlM (fun map segment => composeSegment map pixelWidth pixelHeight request segment) map with
    | .error .fault => none
    | .error .failed => some (Capture.refuse Status.internal "could not compose the captured outputs")
    | .ok map => some (sealComposed calls pixelWidth pixelHeight map)

end Composition

section Edges

variable {offset screenLength length pixels : ℕ}

/-- An edge in one division: numbers below one half are rounded with the rest. -/
theorem mappedEdge_eq (hscreen : 0 < screenLength) :
    mappedEdge offset screenLength pixels =
      (2 * offset * pixels + screenLength - 1) / (2 * screenLength) % 2 ^ 32 := by
  have hsmall : 2 * offset * pixels ≤ screenLength →
      (2 * offset * pixels + screenLength - 1) / (2 * screenLength) = 0 := by
    intro h
    apply Nat.div_eq_of_lt
    omega
  unfold mappedEdge
  split_ifs with hzero
  · have hproduct : 2 * offset * pixels = 0 := by
      obtain rfl | h | rfl := hzero
      · rw [Nat.mul_zero, Nat.zero_mul]
      · omega
      · rw [Nat.mul_zero]
    rw [hsmall (by omega), Nat.zero_mod]
  · have hcast : 2 * (offset : ℤ) * pixels - screenLength + 2 * screenLength - 1 =
        ((2 * offset * pixels + screenLength - 1 : ℕ) : ℤ) := by
      push_cast [Nat.cast_sub (show 1 ≤ 2 * offset * pixels + screenLength by omega)]
      ring
    dsimp only
    split_ifs with hnumerator
    · rw [hsmall (by exact_mod_cast sub_nonpos.mp hnumerator), Nat.zero_mod]
    · rw [hcast]
      norm_cast

theorem mappedEdge_of_le (hscreen : 0 < screenLength) (hpixels : pixels < 2 ^ 32) (hoffset : offset ≤ screenLength) :
    mappedEdge offset screenLength pixels = (2 * offset * pixels + screenLength - 1) / (2 * screenLength) := by
  have hle : 2 * offset * pixels ≤ 2 * screenLength * pixels := Nat.mul_le_mul_right pixels (by omega)
  rw [mappedEdge_eq hscreen, Nat.mod_eq_of_lt]
  rw [Nat.div_lt_iff_lt_mul (by omega)]
  calc 2 * offset * pixels + screenLength - 1 < 2 * screenLength * pixels + 2 * screenLength := by omega
    _ = (pixels + 1) * (2 * screenLength) := by ring
    _ ≤ 2 ^ 32 * (2 * screenLength) := Nat.mul_le_mul_right _ (by omega)

/-- The edges of a line of the request among the pixels of the image. -/
theorem mappedEdge_scales (hlength : 0 < length) (hpixels : pixels < 2 ^ 32) :
    Edges.Scales (fun offset => mappedEdge offset length pixels) length pixels where
  first := by simp [mappedEdge]
  last := by
    have hsplit : 2 * length * pixels + length - 1 = length - 1 + pixels * (2 * length) := by
      rw [Nat.mul_comm pixels]
      omega
    rw [mappedEdge_of_le hlength hpixels (Nat.le_refl length), hsplit, Nat.add_mul_div_right _ _ (by omega),
      Nat.div_eq_of_lt (by omega), Nat.zero_add]
  mono a b hab hb := by
    have hproduct : 2 * a * pixels ≤ 2 * b * pixels := Nat.mul_le_mul_right pixels (by omega)
    rw [mappedEdge_of_le hlength hpixels (Nat.le_trans hab hb), mappedEdge_of_le hlength hpixels hb]
    exact Nat.div_le_div_right (by omega)

/-- No step of the computation leaves the 64 bits that the source takes for it. -/
theorem mappedEdge_int64 (hoffset : offset < 2 ^ 32) (hscreen : screenLength < 2 ^ 32)
    (hpixels : pixels ≤ maxCaptureDimension) :
    2 * offset * pixels + 2 * screenLength < 2 ^ 63 := by
  have hdimension : maxCaptureDimension = 32768 := rfl
  have hproduct : 2 * offset * pixels ≤ 2 * 2 ^ 32 * 32768 := Nat.mul_le_mul (by omega) (by omega)
  omega

end Edges

section Tiling

variable {request : Request} {segments : List Segment} {segment : Segment} {targetWidth targetHeight px py : ℕ}

/-- The places of the layout that the request asks for, and those that a segment shows. -/
def Request.Holds (request : Request) (a b : ℤ) : Prop :=
  request.x.toInt ≤ a ∧ a < request.x.toInt + request.width.toNat ∧
    request.y.toInt ≤ b ∧ b < request.y.toInt + request.height.toNat

def Segment.Shows (segment : Segment) (a b : ℤ) : Prop :=
  segment.x.toInt ≤ a ∧ a < segment.x.toInt + segment.width.toNat ∧
    segment.y.toInt ≤ b ∧ b < segment.y.toInt + segment.height.toNat

/-- Segments that are disjoint and cover the request exactly. -/
structure Tiled (request : Request) (segments : List Segment) : Prop where
  disjoint : segments.Pairwise fun s t => ∀ a b, s.Shows a b → ¬t.Shows a b
  cover : ∀ a b, request.Holds a b ↔ ∃ s ∈ segments, s.Shows a b

/-- Areas that are disjoint and cover an image exactly. -/
structure Partitions (width height : ℕ) (areas : List Area) : Prop where
  disjoint : areas.Pairwise fun s t => ∀ x y, s.Holds x y → ¬t.Holds x y
  cover : ∀ x y, x < width ∧ y < height ↔ ∃ area ∈ areas, area.Holds x y

theorem leftOffset_eq {requestX x : BitVec 32} (h : requestX.toInt ≤ x.toInt) :
    (leftOffset requestX x : ℤ) = x.toInt - requestX.toInt := by
  have hx := x.isLt
  have hrequest := requestX.isLt
  unfold leftOffset
  rw [BitVec.toNat_sub]
  rw [BitVec.toInt_eq_toNat_cond, BitVec.toInt_eq_toNat_cond] at *
  split_ifs at * <;> omega

theorem rightOffset_eq {requestX x width : BitVec 32} (hfirst : requestX.toInt ≤ x.toInt + width.toNat)
    (hlast : x.toInt + width.toNat - requestX.toInt < 2 ^ 32) :
    (rightOffset requestX x width : ℤ) = x.toInt + width.toNat - requestX.toInt := by
  unfold rightOffset
  rw [Int.emod_eq_of_lt (by omega) hlast, Int.toNat_of_nonneg (by omega)]

/-- The edges of an empty segment are one edge. -/
theorem rightOffset_zero (requestX x : BitVec 32) : rightOffset requestX x 0 = leftOffset requestX x := by
  have hx := x.isLt
  have hrequest := requestX.isLt
  unfold leftOffset rightOffset
  rw [BitVec.toNat_sub, BitVec.toInt_eq_toNat_cond, BitVec.toInt_eq_toNat_cond]
  have hzero : (0 : BitVec 32).toNat = 0 := rfl
  rw [hzero]
  split_ifs <;> omega

/-- On one side of the image, the pixels between a segment's edges are those whose cell it shows. -/
theorem between_edges_iff (px : ℕ) {requestX x width requestWidth : BitVec 32} (hrequest : requestWidth ≠ 0)
    (htarget : targetWidth < 2 ^ 32) (hfirst : requestX.toInt ≤ x.toInt)
    (hlast : x.toInt + width.toNat ≤ requestX.toInt + requestWidth.toNat) :
    min (mappedEdge (leftOffset requestX x) requestWidth.toNat targetWidth) targetWidth ≤ px ∧
        px < min (mappedEdge (rightOffset requestX x width) requestWidth.toNat targetWidth) targetWidth ↔
      let place := requestX.toInt +
        Edges.cell (fun offset => mappedEdge offset requestWidth.toNat targetWidth) requestWidth.toNat px
      x.toInt ≤ place ∧ place < x.toInt + width.toNat := by
  have hpositive : 0 < requestWidth.toNat :=
    Nat.pos_of_ne_zero fun hzero => hrequest (BitVec.eq_of_toNat_eq hzero)
  have hscales := mappedEdge_scales hpositive htarget
  have hbound := requestWidth.isLt
  have hleft := leftOffset_eq hfirst
  have hright : (rightOffset requestX x width : ℤ) = x.toInt + width.toNat - requestX.toInt :=
    rightOffset_eq (by omega) (by omega)
  have hwithinLeft : leftOffset requestX x ≤ requestWidth.toNat := by omega
  have hwithinRight : rightOffset requestX x width ≤ requestWidth.toNat := by omega
  have hbetween := hscales.between_iff px hwithinLeft hwithinRight
  have hleftMin := hscales.le_pixels (a := leftOffset requestX x) (by omega)
  have hrightMin := hscales.le_pixels (a := rightOffset requestX x width) (by omega)
  dsimp only at hbetween hleftMin hrightMin ⊢
  rw [Nat.min_eq_left hleftMin, Nat.min_eq_left hrightMin, hbetween]
  omega

/-- The place of the layout that a pixel of the image shows. -/
def placeX (request : Request) (targetWidth px : ℕ) : ℤ :=
  request.x.toInt + Edges.cell (fun offset => mappedEdge offset request.width.toNat targetWidth) request.width.toNat px

def placeY (request : Request) (targetHeight py : ℕ) : ℤ :=
  request.y.toInt +
    Edges.cell (fun offset => mappedEdge offset request.height.toNat targetHeight) request.height.toNat py

theorem Request.width_pos (request : Request) : 0 < request.width.toNat :=
  Nat.pos_of_ne_zero fun hzero => request.wide (BitVec.eq_of_toNat_eq hzero)

theorem Request.height_pos (request : Request) : 0 < request.height.toNat :=
  Nat.pos_of_ne_zero fun hzero => request.high (BitVec.eq_of_toNat_eq hzero)

theorem place_holds (request : Request) (hwidth : targetWidth < 2 ^ 32) (hheight : targetHeight < 2 ^ 32)
    (hpx : px < targetWidth) (hpy : py < targetHeight) :
    request.Holds (placeX request targetWidth px) (placeY request targetHeight py) := by
  have hx := (mappedEdge_scales request.width_pos hwidth).cell_lt hpx
  have hy := (mappedEdge_scales request.height_pos hheight).cell_lt hpy
  unfold Request.Holds placeX placeY
  omega

/-- What lies inside the request keeps inside its sides. -/
theorem Segment.within (hwithin : ∀ a b, segment.Shows a b → request.Holds a b) (hwide : 0 < segment.width.toNat)
    (hhigh : 0 < segment.height.toNat) :
    request.x.toInt ≤ segment.x.toInt ∧
      segment.x.toInt + segment.width.toNat ≤ request.x.toInt + request.width.toNat ∧
      request.y.toInt ≤ segment.y.toInt ∧
      segment.y.toInt + segment.height.toNat ≤ request.y.toInt + request.height.toNat := by
  have hfirst := hwithin segment.x.toInt segment.y.toInt
  have hlast := hwithin (segment.x.toInt + segment.width.toNat - 1) (segment.y.toInt + segment.height.toNat - 1)
  unfold Segment.Shows Request.Holds at hfirst hlast
  omega

/-- A pixel is drawn by a segment exactly when the segment shows the pixel's place. -/
theorem destination_holds_iff (hwidth : targetWidth < 2 ^ 32) (hheight : targetHeight < 2 ^ 32)
    (hwithin : ∀ a b, segment.Shows a b → request.Holds a b) :
    (destination targetWidth targetHeight request segment).Holds px py ↔
      segment.Shows (placeX request targetWidth px) (placeY request targetHeight py) := by
  by_cases hwide : segment.width = 0
  · have hempty : ¬segment.Shows (placeX request targetWidth px) (placeY request targetHeight py) := by
      have hzero : segment.width.toNat = 0 := by rw [hwide]; rfl
      unfold Segment.Shows
      omega
    simp only [hempty, iff_false, Area.Holds, destination, hwide, rightOffset_zero]
    omega
  by_cases hhigh : segment.height = 0
  · have hempty : ¬segment.Shows (placeX request targetWidth px) (placeY request targetHeight py) := by
      have hzero : segment.height.toNat = 0 := by rw [hhigh]; rfl
      unfold Segment.Shows
      omega
    simp only [hempty, iff_false, Area.Holds, destination, hhigh, rightOffset_zero]
    omega
  have hwidePos : 0 < segment.width.toNat := Nat.pos_of_ne_zero fun hzero => hwide (BitVec.eq_of_toNat_eq hzero)
  have hhighPos : 0 < segment.height.toNat := Nat.pos_of_ne_zero fun hzero => hhigh (BitVec.eq_of_toNat_eq hzero)
  obtain ⟨hleft, hright, htop, hbottom⟩ := Segment.within hwithin hwidePos hhighPos
  have hx := between_edges_iff px request.wide hwidth hleft hright
  have hy := between_edges_iff py request.high hheight htop hbottom
  dsimp only at hx hy
  unfold Area.Holds Segment.Shows placeX placeY destination
  dsimp only
  rw [← and_assoc, hx, hy, and_assoc]

theorem Area.Holds.inside (h : (destination targetWidth targetHeight request segment).Holds px py) :
    px < targetWidth ∧ py < targetHeight := by
  unfold Area.Holds destination at h
  dsimp only at h
  omega

/-- Segments that tile the request are drawn on areas that tile the image. -/
theorem Tiled.partitions (h : Tiled request segments) (hwidth : targetWidth < 2 ^ 32)
    (hheight : targetHeight < 2 ^ 32) :
    Partitions targetWidth targetHeight (segments.map (destination targetWidth targetHeight request)) := by
  have hwithin : ∀ segment ∈ segments, ∀ a b, segment.Shows a b → request.Holds a b := fun segment hmem a b hshows =>
    (h.cover a b).mpr ⟨segment, hmem, hshows⟩
  constructor
  · rw [List.pairwise_map]
    apply List.Pairwise.imp_of_mem ?_ h.disjoint
    intro s t hs ht hdisjoint px py hdrawn hother
    rw [destination_holds_iff hwidth hheight (hwithin s hs)] at hdrawn
    rw [destination_holds_iff hwidth hheight (hwithin t ht)] at hother
    exact hdisjoint _ _ hdrawn hother
  · intro px py
    simp only [List.mem_map, exists_exists_and_eq_and]
    constructor
    · rintro ⟨hpx, hpy⟩
      obtain ⟨segment, hmem, hshows⟩ := (h.cover _ _).mp (place_holds request hwidth hheight hpx hpy)
      exact ⟨segment, hmem, (destination_holds_iff hwidth hheight (hwithin segment hmem)).mpr hshows⟩
    · rintro ⟨segment, -, hholds⟩
      exact hholds.inside

end Tiling

section Writes

variable {request : Request} {segments : List Segment} {segment : Segment} {area : Area}
  {targetWidth targetHeight x y : ℕ}

/-- Where each turn of the loops writes. -/
def positions (area : Area) (segment : Segment) : List (ℕ × ℕ) :=
  (pixelCopies area segment).map fun copy => (copy.x, copy.y)

theorem positions_eq (area : Area) (segment : Segment) :
    positions area segment =
      ((List.range (area.bottom - area.top)).product (List.range (area.right - area.left))).map fun (row, column) =>
        (area.left + column, area.top + row) := by
  unfold positions pixelCopies
  rw [List.map_map]
  rfl

theorem mem_positions (segment : Segment) : (x, y) ∈ positions area segment ↔ area.Holds x y := by
  rw [positions_eq]
  simp only [List.mem_map, Prod.exists, Prod.mk.injEq, List.pair_mem_product, List.mem_range, Area.Holds]
  constructor
  · rintro ⟨row, column, ⟨hrow, hcolumn⟩, rfl, rfl⟩
    omega
  · rintro ⟨hleft, hright, htop, hbottom⟩
    exact ⟨y - area.top, x - area.left, by omega, by omega, by omega⟩

theorem positions_nodup (area : Area) (segment : Segment) : (positions area segment).Nodup := by
  rw [positions_eq]
  apply List.Nodup.map
  · rintro ⟨row, column⟩ ⟨row', column'⟩ heq
    simp only [Prod.mk.injEq] at heq ⊢
    omega
  · exact List.Nodup.product List.nodup_range List.nodup_range

/-- Every position that a composition of all segments writes, in the order of the writes. -/
def composedPositions (targetWidth targetHeight : ℕ) (request : Request) (segments : List Segment) : List (ℕ × ℕ) :=
  segments.flatMap fun segment => positions (destination targetWidth targetHeight request segment) segment

theorem composedPositions_singleton (segment : Segment) :
    composedPositions targetWidth targetHeight request [segment] =
      positions (destination targetWidth targetHeight request segment) segment := List.append_nil _

/-- Segments that tile the request write every pixel of the image once. -/
theorem Tiled.composedPositions (h : Tiled request segments) (hwidth : targetWidth < 2 ^ 32)
    (hheight : targetHeight < 2 ^ 32) :
    (composedPositions targetWidth targetHeight request segments).Nodup ∧
      ∀ x y, (x, y) ∈ composedPositions targetWidth targetHeight request segments ↔
        x < targetWidth ∧ y < targetHeight := by
  have hpartitions := h.partitions hwidth hheight
  unfold Compose.composedPositions
  constructor
  · rw [List.nodup_flatMap]
    constructor
    · exact fun segment _ => positions_nodup _ segment
    · apply List.Pairwise.imp ?_ (List.pairwise_map.mp hpartitions.disjoint)
      rintro s t hdisjoint ⟨x, y⟩ hs ht
      exact hdisjoint x y ((mem_positions _).mp hs) ((mem_positions _).mp ht)
  · intro x y
    rw [hpartitions.cover x y]
    simp only [List.mem_flatMap, mem_positions, List.mem_map, exists_exists_and_eq_and]

end Writes

section Transforms

/-- The coordinates of a frame. -/
def grid (size : BitVec 32 × BitVec 32) : Set (BitVec 32 × BitVec 32) :=
  {p | p.1.toNat < size.1.toNat ∧ p.2.toNat < size.2.toNat}

/-- The transform that takes a frame back: the two quarter turns undo each other, and every other is its own. -/
def backTransform (transform : BitVec 32) : BitVec 32 :=
  match transform.toNat with
  | 1 => 3
  | 3 => 1
  | _ => transform

theorem reverse_lt {length x : BitVec 32} (h : x.toNat < length.toNat) : (length - 1 - x).toNat < length.toNat := by
  have hlength := length.isLt
  have hone : (1 : BitVec 32).toNat = 1 := rfl
  rw [BitVec.toNat_sub, BitVec.toNat_sub, hone]
  omega

theorem inverseTransform_mapsTo (width height transform : BitVec 32) :
    Set.MapsTo (fun p => inverseTransform p.1 p.2 width height transform) (grid (orientedSize width height transform))
      (grid (width, height)) := by
  rintro ⟨x, y⟩ ⟨hx, hy⟩
  unfold orientedSize at hx hy
  unfold inverseTransform
  dsimp only at hx hy ⊢
  split at hx <;> simp only [*] at hy ⊢
  · exact ⟨hy, reverse_lt hx⟩
  · exact ⟨reverse_lt hy, hx⟩
  · exact ⟨hy, hx⟩
  · exact ⟨reverse_lt hy, reverse_lt hx⟩
  · split
    · contradiction
    · exact ⟨reverse_lt hx, reverse_lt hy⟩
    · contradiction
    · exact ⟨reverse_lt hx, hy⟩
    · contradiction
    · exact ⟨hx, reverse_lt hy⟩
    · contradiction
    · exact ⟨hx, hy⟩

/-- Taking a frame back with its own transform changes nothing. -/
theorem inverseTransform_back (x y width height transform : BitVec 32) :
    let size := orientedSize width height transform
    let p := inverseTransform x y width height transform
    inverseTransform p.1 p.2 size.1 size.2 (backTransform transform) = (x, y) := by
  have hturns : BitVec.toNat (1 : BitVec 32) = 1 ∧ BitVec.toNat (3 : BitVec 32) = 3 := by decide
  have hcancel : ∀ a b : BitVec 32, a - (a - b) = b := by
    intro a b
    bv_omega
  unfold orientedSize backTransform
  dsimp only
  rw [inverseTransform.eq_def x y]
  split <;> rename_i htransform <;> simp only [htransform, hturns, inverseTransform, hcancel]

theorem orientedSize_back (width height transform : BitVec 32) :
    let size := orientedSize width height transform
    orientedSize size.1 size.2 (backTransform transform) = (width, height) := by
  have hturns : BitVec.toNat (1 : BitVec 32) = 1 ∧ BitVec.toNat (3 : BitVec 32) = 3 := by decide
  unfold backTransform
  dsimp only
  rw [orientedSize.eq_def width height]
  split <;> rename_i htransform <;> simp only [htransform, hturns, orientedSize]

theorem backTransform_back (transform : BitVec 32) : backTransform (backTransform transform) = transform := by
  rw [backTransform.eq_def transform]
  split
  · apply BitVec.eq_of_toNat_eq
    simp only [*]
    rfl
  · apply BitVec.eq_of_toNat_eq
    simp only [*]
    rfl
  · rw [backTransform.eq_def]
    split
    · contradiction
    · contradiction
    · rfl

/-- Every transform takes the coordinates of a frame as it is seen to those of the frame, each from one. -/
theorem inverseTransform_bijOn (width height transform : BitVec 32) :
    Set.BijOn (fun p => inverseTransform p.1 p.2 width height transform) (grid (orientedSize width height transform))
      (grid (width, height)) := by
  have hsize := orientedSize_back width height transform
  have hback := inverseTransform_mapsTo (orientedSize width height transform).1 (orientedSize width height transform).2
    (backTransform transform)
  dsimp only at hsize
  rw [hsize] at hback
  refine Set.InvOn.bijOn ⟨?_, ?_⟩ (inverseTransform_mapsTo width height transform) hback
  · intro p _
    exact inverseTransform_back p.1 p.2 width height transform
  · intro p _
    have hforth := inverseTransform_back p.1 p.2 (orientedSize width height transform).1
      (orientedSize width height transform).2 (backTransform transform)
    dsimp only at hforth
    rwa [hsize, backTransform_back] at hforth

end Transforms

section Ranges

variable {segment : Segment} {area : Area} {copy : PixelCopy} {targetWidth targetHeight : ℕ} {request : Request}

/-- What the image-copy path admits: a crop that is not empty, inside of the frame as it is seen, and rows that hold
the frame's pixels. -/
structure Admitted (segment : Segment) : Prop where
  wide : 0 < segment.pixelWidth.toNat
  high : 0 < segment.pixelHeight.toNat
  right : segment.sourceX.toNat + segment.pixelWidth.toNat ≤
    (orientedSize segment.sourceWidth segment.sourceHeight segment.transform).1.toNat
  bottom : segment.sourceY.toNat + segment.pixelHeight.toNat ≤
    (orientedSize segment.sourceWidth segment.sourceHeight segment.transform).2.toNat
  rows : segment.sourceWidth.toNat * 4 ≤ segment.stride.toNat

/-- Every coordinate that is sampled lies in the crop. -/
theorem orientedCoordinate_lt {first length bound : BitVec 32} {i n : ℕ} (hi : i < n) (hn : n ≤ maxCaptureDimension)
    (hlength : 0 < length.toNat) (hbound : first.toNat + length.toNat ≤ bound.toNat) :
    (orientedCoordinate first length i n).toNat = first.toNat + Edges.sample i n length.toNat ∧
      (orientedCoordinate first length i n).toNat < first.toNat + length.toNat := by
  have hdimension : maxCaptureDimension = 32768 := rfl
  have hsample := Edges.sample_lt hi hlength
  have hlimit := bound.isLt
  have hproduct : (i * 2 + 1) * length.toNat < 2 ^ 64 := by
    calc (i * 2 + 1) * length.toNat ≤ 65536 * length.toNat := Nat.mul_le_mul_right _ (by omega)
      _ < 2 ^ 64 := by omega
  have hcoordinate : (orientedCoordinate first length i n).toNat = first.toNat + Edges.sample i n length.toNat := by
    unfold orientedCoordinate
    rw [Nat.mod_eq_of_lt hproduct]
    unfold Edges.sample at hsample ⊢
    rw [BitVec.toNat_add, BitVec.toNat_ofNat, Nat.mod_eq_of_lt (by omega : _ / _ < 2 ^ 32), Nat.mod_eq_of_lt (by omega)]
  exact ⟨hcoordinate, by omega⟩

/-- What every turn of the loops reads and writes. -/
theorem Admitted.pixelCopies (h : Admitted segment) (hwidth : area.right ≤ maxCaptureDimension)
    (hheight : area.bottom ≤ maxCaptureDimension) (hcopy : copy ∈ pixelCopies area segment) :
    copy.sourceX.toNat < segment.sourceWidth.toNat ∧ copy.sourceY.toNat < segment.sourceHeight.toNat ∧
      area.Holds copy.x copy.y := by
  have hholds : area.Holds copy.x copy.y := by
    rw [← mem_positions segment]
    exact List.mem_map_of_mem hcopy
  obtain ⟨⟨row, column⟩, hturn, rfl⟩ := List.mem_map.mp hcopy
  rw [List.pair_mem_product, List.mem_range, List.mem_range] at hturn
  obtain ⟨hrow, hcolumn⟩ := hturn
  have hx := (orientedCoordinate_lt hcolumn (by omega) h.wide h.right).2
  have hy := (orientedCoordinate_lt hrow (by omega) h.high h.bottom).2
  have hright := h.right
  have hbottom := h.bottom
  have hsource := inverseTransform_mapsTo segment.sourceWidth segment.sourceHeight segment.transform
    (x := (orientedCoordinate segment.sourceX segment.pixelWidth column (area.right - area.left),
      orientedCoordinate segment.sourceY segment.pixelHeight row (area.bottom - area.top)))
    ⟨Nat.lt_of_lt_of_le hx hright, Nat.lt_of_lt_of_le hy hbottom⟩
  refine ⟨hsource.1, ?_, hholds⟩
  unfold pixelCopy
  dsimp only
  split_ifs
  · exact reverse_lt hsource.2
  · exact hsource.2

/-- The last byte of a pixel that is in a picture, behind rows of `stride` bytes. -/
theorem pixel_end_le {x y width height stride : ℕ} (hx : x < width) (hy : y < height) (hrow : width * 4 ≤ stride) :
    y * stride + x * 4 + 4 ≤ stride * height := by
  have hrows : (y + 1) * stride ≤ height * stride := Nat.mul_le_mul_right stride hy
  rw [Nat.mul_comm stride]
  calc y * stride + x * 4 + 4 ≤ y * stride + stride := by omega
    _ = (y + 1) * stride := by ring
    _ ≤ height * stride := hrows

/-- What the check of a composed size says. -/
theorem admits_iff : admits targetWidth targetHeight ↔
    targetWidth ≠ 0 ∧ targetHeight ≠ 0 ∧ targetWidth ≤ maxCaptureDimension ∧ targetHeight ≤ maxCaptureDimension ∧
      targetWidth * targetHeight ≤ maxCapturePixels := by
  have hpixels : maxCapturePixels * 4 = maxCaptureBytes := by decide
  have hbytes : captureHeaderSize + maxCaptureBytes < 2 ^ 32 := by decide
  simp only [admits, Bool.not_eq_true', Bool.or_eq_false_iff, decide_eq_false_iff_not, not_lt]
  constructor
  · rintro ⟨⟨⟨⟨⟨⟨hw, hh⟩, hwide⟩, hhigh⟩, harea⟩, -⟩, -⟩
    exact ⟨hw, hh, hwide, hhigh, harea⟩
  · rintro ⟨hw, hh, hwide, hhigh, harea⟩
    have hlength : pixelLength targetWidth targetHeight = targetWidth * targetHeight * 4 :=
      Nat.mod_eq_of_lt (by omega)
    rw [hlength]
    exact ⟨⟨⟨⟨⟨⟨hw, hh⟩, hwide⟩, hhigh⟩, harea⟩, by omega⟩, by omega⟩

theorem pixelLength_eq (h : admits targetWidth targetHeight) :
    pixelLength targetWidth targetHeight = targetWidth * 4 * targetHeight := by
  have hpixels : maxCapturePixels * 4 = maxCaptureBytes := by decide
  have hbytes : captureHeaderSize + maxCaptureBytes < 2 ^ 32 := by decide
  have harea := (admits_iff.mp h).2.2.2.2
  unfold pixelLength
  rw [Nat.mod_eq_of_lt (by omega)]
  ring

theorem Admitted.inputOffset (h : Admitted segment) (hx : copy.sourceX.toNat < segment.sourceWidth.toNat)
    (hy : copy.sourceY.toNat < segment.sourceHeight.toNat) :
    inputOffset segment copy + 4 ≤ segment.stride.toNat * segment.sourceHeight.toNat :=
  pixel_end_le hx hy h.rows

theorem outputOffset_le (hadmits : admits targetWidth targetHeight) (hx : copy.x < targetWidth)
    (hy : copy.y < targetHeight) :
    outputOffset targetWidth copy + 4 ≤ captureHeaderSize + pixelLength targetWidth targetHeight := by
  have hend := pixel_end_le hx hy (Nat.le_refl (targetWidth * 4))
  rw [pixelLength_eq hadmits]
  unfold outputOffset
  rw [Nat.mul_assoc copy.y]
  omega

/-- No turn of the loops leaves the frame that it reads or the image that it writes. -/
theorem Admitted.ranges (h : Admitted segment) (hadmits : admits targetWidth targetHeight)
    (hcopy : copy ∈ Compose.pixelCopies (destination targetWidth targetHeight request segment) segment) :
    (copy.sourceX.toNat < segment.sourceWidth.toNat ∧ copy.sourceY.toNat < segment.sourceHeight.toNat) ∧
      Compose.inputOffset segment copy + 4 ≤ segment.stride.toNat * segment.sourceHeight.toNat ∧
      (copy.x < targetWidth ∧ copy.y < targetHeight) ∧
      outputOffset targetWidth copy + 4 ≤ captureHeaderSize + pixelLength targetWidth targetHeight := by
  obtain ⟨-, -, hwide, hhigh, -⟩ := admits_iff.mp hadmits
  have hright : (destination targetWidth targetHeight request segment).right ≤ targetWidth := Nat.min_le_right _ _
  have hbottom : (destination targetWidth targetHeight request segment).bottom ≤ targetHeight := Nat.min_le_right _ _
  obtain ⟨hx, hy, hholds⟩ := h.pixelCopies (Nat.le_trans hright hwide) (Nat.le_trans hbottom hhigh) hcopy
  obtain ⟨htargetX, htargetY⟩ := hholds.inside
  exact ⟨⟨hx, hy⟩, h.inputOffset hx hy, ⟨htargetX, htargetY⟩, outputOffset_le hadmits htargetX htargetY⟩

end Ranges

section Crops

variable {copy : ImageCopy} {state : ImageCopyState} {segment result : Segment} {stride : BitVec 32}
  {swapRedBlue isOpaque : Bool} {localX localY logicalWidth logicalHeight outputWidth outputHeight : BitVec 32}

theorem cropSegment_admitted
    (h : cropSegment copy state stride swapRedBlue isOpaque localX localY logicalWidth logicalHeight outputWidth
      outputHeight segment = .ok result) (hrows : state.width.toNat * 4 ≤ stride.toNat) : Admitted result := by
  unfold cropSegment at h
  dsimp only at h
  have hwide := (orientedSize state.width state.height state.transform).1.isLt
  have hhigh := (orientedSize state.width state.height state.transform).2.isLt
  split_ifs at h with hrefused
  cases h
  simp only [Bool.or_eq_true, decide_eq_true_eq, not_or, not_le, not_lt] at hrefused
  obtain ⟨⟨⟨hleft, htop⟩, hright⟩, hbottom⟩ := hrefused
  constructor
  · dsimp only
    rw [BitVec.toNat_ofNat, Nat.mod_eq_of_lt (by omega)]
    omega
  · dsimp only
    rw [BitVec.toNat_ofNat, Nat.mod_eq_of_lt (by omega)]
    omega
  · dsimp only
    rw [BitVec.toNat_ofNat, BitVec.toNat_ofNat, Nat.mod_eq_of_lt (by omega), Nat.mod_eq_of_lt (by omega)]
    omega
  · dsimp only
    rw [BitVec.toNat_ofNat, BitVec.toNat_ofNat, Nat.mod_eq_of_lt (by omega), Nat.mod_eq_of_lt (by omega)]
    omega
  · exact hrows

theorem refuseIf_ok {refused : Bool} {status : Status} {diagnostic : String} {f : Unit → Except OperationResult Segment} :
    (refuseIf refused status diagnostic >>= f) = .ok result ↔ refused = false ∧ f () = .ok result := by
  cases refused with
  | false =>
    constructor
    · intro h
      exact ⟨rfl, h⟩
    · rintro ⟨-, h⟩
      exact h
  | true =>
    constructor
    · intro h
      cases h
    · rintro ⟨h, -⟩
      cases h

theorem awaited_ok {state : Option ImageCopyState} {diagnostic : String}
    {f : ImageCopyState → Except OperationResult Segment} :
    (awaited copy state diagnostic >>= f) = .ok result ↔ ∃ s, state = some s ∧ f s = .ok result := by
  cases state with
  | none =>
    constructor
    · intro h
      cases h
    · rintro ⟨s, h, -⟩
      cases h
  | some s =>
    constructor
    · intro h
      exact ⟨s, rfl, h⟩
    · rintro ⟨t, h, hf⟩
      cases h
      exact hf

/-- A frame that comes in the size of its buffer, or narrower, gives a segment that can be composed. -/
theorem captureSourceImageCopy_admitted
    (h : captureSourceImageCopy copy localX localY logicalWidth logicalHeight outputWidth outputHeight segment =
      .ok result) {announced finished : ImageCopyState} (hannounced : copy.constraints = some announced)
    (hfinished : copy.finished = some finished) (hwidth : finished.width.toNat ≤ announced.width.toNat) :
    Admitted result := by
  have hdimension : maxCaptureDimension = 32768 := rfl
  have hfour : (4 : BitVec 32).toNat = 4 := rfl
  simp only [captureSourceImageCopy, refuseIf_ok, awaited_ok, hannounced, hfinished, Option.some.injEq,
    exists_eq_left'] at h
  obtain ⟨-, -, hsize, -, -, -, -, -, -, hcrop⟩ := h
  simp only [Bool.or_eq_false_iff, decide_eq_false_iff_not, not_lt] at hsize
  have hrows : finished.width.toNat * 4 ≤ (announced.width * 4).toNat := by
    rw [BitVec.toNat_mul, hfour]
    omega
  split_ifs at hcrop
  · exact cropSegment_admitted hcrop hrows
  · exact cropSegment_admitted hcrop hrows

end Crops

section Images

variable {segment : Segment} {segments : List Segment} {request : Request} {copy : PixelCopy} {copies : List PixelCopy}
  {source target result : Bytes} {targetWidth targetHeight : ℕ}

theorem length_convertPixel (segment : Segment) {pixel : Bytes} (h : pixel.length = 4) :
    (convertPixel segment pixel).length = 4 := by
  unfold convertPixel
  dsimp only
  split_ifs <;> simp [h]

theorem copyPixel_ok (h : copyPixel targetWidth segment source target copy = .ok result) :
    result = writeAt target (outputOffset targetWidth copy)
        (convertPixel segment ((source.drop (inputOffset segment copy)).take 4)) ∧
      result.length = target.length := by
  unfold copyPixel at h
  split_ifs at h with hfault
  simp only [Bool.or_eq_true, decide_eq_true_eq, not_or, not_lt] at hfault
  cases h
  have hpixel : ((source.drop (inputOffset segment copy)).take 4).length = 4 := by
    rw [List.length_take, List.length_drop]
    omega
  refine ⟨rfl, length_writeAt ?_⟩
  rw [length_convertPixel segment hpixel]
  exact hfault.2

/-- A fold that can stop keeps what every turn keeps. -/
theorem foldlM_invariant {α β ε : Type*} {f : β → α → Except ε β} {P : β → Prop}
    (hstep : ∀ b a b', f b a = .ok b' → P b → P b') {items : List α} {b b' : β} (h : items.foldlM f b = .ok b')
    (hb : P b) : P b' := by
  induction items generalizing b with
  | nil =>
    cases h
    exact hb
  | cons a items ih =>
    rw [List.foldlM_cons] at h
    cases ha : f b a with
    | error e =>
      rw [ha] at h
      cases h
    | ok c =>
      rw [ha] at h
      exact ih h (hstep b a c ha hb)

theorem composeSegment_length (h : composeSegment target targetWidth targetHeight request segment = .ok result) :
    result.length = target.length := by
  unfold composeSegment at h
  dsimp only at h
  split_ifs at h
  · cases h
    rfl
  · cases hsource : segment.source with
    | none =>
      rw [hsource] at h
      cases h
    | some source =>
      rw [hsource] at h
      exact foldlM_invariant (P := fun map => map.length = target.length)
        (fun map copy map' hcopy hmap => (copyPixel_ok hcopy).2.trans hmap) h rfl

theorem copyPixel_isOk (hinput : inputOffset segment copy + 4 ≤ source.length)
    (houtput : outputOffset targetWidth copy + 4 ≤ target.length) :
    ∃ result, copyPixel targetWidth segment source target copy = .ok result := by
  have hfault : ¬(source.length < inputOffset segment copy + 4 || target.length < outputOffset targetWidth copy + 4 :
      Bool) = true := by
    simp only [Bool.or_eq_true, decide_eq_true_eq, not_or, not_lt]
    exact ⟨hinput, houtput⟩
  unfold copyPixel
  rw [if_neg hfault]
  exact ⟨_, rfl⟩

theorem copyPixels_isOk (hinput : ∀ copy ∈ copies, inputOffset segment copy + 4 ≤ source.length)
    (houtput : ∀ copy ∈ copies, outputOffset targetWidth copy + 4 ≤ target.length) :
    ∃ result, copies.foldlM (copyPixel targetWidth segment source) target = .ok result := by
  induction copies generalizing target with
  | nil => exact ⟨target, rfl⟩
  | cons copy copies ih =>
    obtain ⟨next, hnext⟩ := copyPixel_isOk (hinput copy List.mem_cons_self) (houtput copy List.mem_cons_self)
    have hlength := (copyPixel_ok hnext).2
    rw [List.foldlM_cons, hnext]
    apply ih
    · exact fun copy hcopy => hinput copy (List.mem_cons_of_mem _ hcopy)
    · intro copy hcopy
      rw [hlength]
      exact houtput copy (List.mem_cons_of_mem _ hcopy)

/-- A segment whose frame can be mapped whole is composed. -/
theorem Admitted.composeSegment (h : Admitted segment) (hadmits : admits targetWidth targetHeight)
    (hsource : segment.source = some source)
    (hwhole : segment.stride.toNat * segment.sourceHeight.toNat ≤ source.length)
    (htarget : target.length = captureHeaderSize + pixelLength targetWidth targetHeight) :
    ∃ result, composeSegment target targetWidth targetHeight request segment = .ok result := by
  unfold Compose.composeSegment
  rw [hsource]
  dsimp only
  split_ifs
  · exact ⟨target, rfl⟩
  · apply copyPixels_isOk
    · intro copy hcopy
      rw [List.length_take_of_le hwhole]
      exact (h.ranges hadmits hcopy).2.1
    · intro copy hcopy
      rw [htarget]
      exact (h.ranges hadmits hcopy).2.2.2

end Images

section Painted

variable {request : Request} {segments : List Segment} {segment : Segment} {copy : PixelCopy} {copies : List PixelCopy}
  {source target result image : Bytes} {targetWidth targetHeight : ℕ}

/-- The bytes of an image that are those of one of its pixels. -/
def Covers (targetWidth : ℕ) (p : ℕ × ℕ) (k : ℕ) : Prop :=
  captureHeaderSize + p.2 * targetWidth * 4 + p.1 * 4 ≤ k ∧ k < captureHeaderSize + p.2 * targetWidth * 4 + p.1 * 4 + 4

/-- The pixel of an image that a turn writes, and the pixel of the frame that it reads. -/
def pixelAt (image : Bytes) (targetWidth : ℕ) (copy : PixelCopy) : Bytes :=
  (image.drop (outputOffset targetWidth copy)).take 4

def sourcePixel (segment : Segment) (source : Bytes) (copy : PixelCopy) : Bytes :=
  ((source.take (segment.stride.toNat * segment.sourceHeight.toNat)).drop (inputOffset segment copy)).take 4

/-- Every turn's pixel is in the image as the frame has it. -/
def Shown (targetWidth targetHeight : ℕ) (request : Request) (segments : List Segment) (image : Bytes) : Prop :=
  ∀ segment ∈ segments, ∀ copy ∈ pixelCopies (destination targetWidth targetHeight request segment) segment,
    ∃ source, segment.source = some source ∧
      pixelAt image targetWidth copy = convertPixel segment (sourcePixel segment source copy)

/-- The segments are composed into an image: their pixels are there, and no byte of another pixel has changed. -/
structure Composed (targetWidth targetHeight : ℕ) (request : Request) (segments : List Segment) (target result : Bytes) :
    Prop where
  shown : Shown targetWidth targetHeight request segments result
  other : ∀ k, (∀ p ∈ composedPositions targetWidth targetHeight request segments, ¬Covers targetWidth p k) →
    result[k]? = target[k]?

/-- The pixels of a row of the image, and of two rows, have no byte in common. -/
theorem Covers.apart {p q : ℕ × ℕ} {k : ℕ} (hp : p.1 < targetWidth) (hq : q.1 < targetWidth) (hne : p ≠ q)
    (h : Covers targetWidth p k) : ¬Covers targetWidth q k := by
  have hbelow : ∀ {a b : ℕ}, a < b → a * targetWidth + targetWidth ≤ b * targetWidth := by
    intro a b hab
    rw [← Nat.succ_mul]
    exact Nat.mul_le_mul_right _ hab
  rintro ⟨hfrom, hto⟩
  obtain ⟨hfrom', hto'⟩ := h
  rcases Nat.lt_trichotomy p.2 q.2 with hrow | hrow | hrow
  · have hrows := hbelow hrow
    omega
  · have hcolumn : p.1 ≠ q.1 := fun heq => hne (Prod.ext heq hrow)
    rw [hrow] at hfrom' hto'
    omega
  · have hrows := hbelow hrow
    omega

/-- A pixel is as it was where none of its bytes has changed. -/
theorem pixelAt_congr (h : ∀ k, Covers targetWidth (copy.x, copy.y) k → result[k]? = image[k]?) :
    pixelAt result targetWidth copy = pixelAt image targetWidth copy := by
  apply List.ext_getElem?
  intro i
  unfold pixelAt
  rw [List.getElem?_take, List.getElem?_take]
  split_ifs with hi
  · rw [List.getElem?_drop, List.getElem?_drop]
    apply h
    unfold Covers outputOffset
    dsimp only
    omega
  · rfl

theorem copyPixel_painted (h : copyPixel targetWidth segment source target copy = .ok result) :
    pixelAt result targetWidth copy = convertPixel segment ((source.drop (inputOffset segment copy)).take 4) ∧
      ∀ k, ¬Covers targetWidth (copy.x, copy.y) k → result[k]? = target[k]? := by
  unfold copyPixel at h
  split_ifs at h with hfault
  simp only [Bool.or_eq_true, decide_eq_true_eq, not_or, not_lt] at hfault
  cases h
  have hlength : (convertPixel segment ((source.drop (inputOffset segment copy)).take 4)).length = 4 := by
    apply length_convertPixel
    rw [List.length_take, List.length_drop]
    omega
  have hroom : outputOffset targetWidth copy +
      (convertPixel segment ((source.drop (inputOffset segment copy)).take 4)).length ≤ target.length := by omega
  constructor
  · have hread := take_drop_writeAt hroom
    rwa [hlength] at hread
  · intro k hk
    apply getElem?_writeAt_of_outside hroom
    unfold Covers at hk
    unfold outputOffset at hlength ⊢
    dsimp only at hk
    omega

/-- The turns of one segment, which write at distinct places: the later ones leave the pixels of the earlier. -/
theorem copyPixels_painted (hwithin : ∀ copy ∈ copies, copy.x < targetWidth)
    (hnodup : (copies.map fun copy => (copy.x, copy.y)).Nodup)
    (h : copies.foldlM (copyPixel targetWidth segment source) target = .ok result) :
    (∀ copy ∈ copies, pixelAt result targetWidth copy =
        convertPixel segment ((source.drop (inputOffset segment copy)).take 4)) ∧
      ∀ k, (∀ copy ∈ copies, ¬Covers targetWidth (copy.x, copy.y) k) → result[k]? = target[k]? := by
  induction copies generalizing target with
  | nil =>
    cases h
    exact ⟨by simp, fun _ _ => rfl⟩
  | cons copy copies ih =>
    rw [List.foldlM_cons] at h
    cases hnext : copyPixel targetWidth segment source target copy with
    | error stop =>
      rw [hnext] at h
      cases h
    | ok next =>
      rw [hnext] at h
      rw [List.map_cons, List.nodup_cons] at hnodup
      obtain ⟨hpixel, hother⟩ := copyPixel_painted hnext
      obtain ⟨hpixels, hothers⟩ := ih (fun copy hcopy => hwithin copy (List.mem_cons_of_mem _ hcopy)) hnodup.2 h
      constructor
      · intro own hown
        rcases List.mem_cons.mp hown with rfl | hown
        · rw [← hpixel]
          apply pixelAt_congr
          intro k hk
          apply hothers
          intro later hlater
          refine hk.apart (hwithin _ hown) (hwithin later (List.mem_cons_of_mem _ hlater)) ?_
          intro hsame
          exact hnodup.1 (List.mem_map.mpr ⟨later, hlater, hsame.symm⟩)
        · exact hpixels own hown
      · intro k hk
        rw [hothers k fun copy hcopy => hk copy (List.mem_cons_of_mem _ hcopy)]
        exact hother k (hk copy List.mem_cons_self)

theorem holds_of_mem_pixelCopies {area : Area} (h : copy ∈ pixelCopies area segment) : area.Holds copy.x copy.y :=
  (mem_positions segment).mp (List.mem_map_of_mem h)

theorem composeSegment_painted (h : composeSegment target targetWidth targetHeight request segment = .ok result) :
    Composed targetWidth targetHeight request [segment] target result := by
  unfold composeSegment at h
  dsimp only at h
  split_ifs at h with hempty
  · cases h
    refine ⟨?_, fun _ _ => rfl⟩
    intro own hown copy hcopy
    rw [List.mem_singleton.mp hown] at hcopy
    have hholds := holds_of_mem_pixelCopies hcopy
    simp only [Bool.or_eq_true, decide_eq_true_eq] at hempty
    unfold Area.Holds at hholds
    omega
  · cases hsource : segment.source with
    | none =>
      rw [hsource] at h
      cases h
    | some source =>
      rw [hsource] at h
      obtain ⟨hpixels, hother⟩ := copyPixels_painted (fun copy hcopy => (holds_of_mem_pixelCopies hcopy).inside.1)
        (positions_nodup _ segment) h
      constructor
      · intro own hown copy hcopy
        rw [List.mem_singleton.mp hown] at hcopy ⊢
        exact ⟨source, hsource, hpixels copy hcopy⟩
      · intro k hk
        apply hother
        intro copy hcopy
        apply hk
        rw [composedPositions_singleton]
        exact List.mem_map_of_mem hcopy

/-- Segments that write at distinct places leave each other's pixels. -/
theorem composeSegments_painted (hnodup : (composedPositions targetWidth targetHeight request segments).Nodup)
    (h : segments.foldlM (fun map segment => composeSegment map targetWidth targetHeight request segment) target =
      .ok result) : Composed targetWidth targetHeight request segments target result := by
  induction segments generalizing target with
  | nil =>
    cases h
    exact ⟨by simp [Shown], fun _ _ => rfl⟩
  | cons segment segments ih =>
    rw [List.foldlM_cons] at h
    cases hnext : composeSegment target targetWidth targetHeight request segment with
    | error stop =>
      rw [hnext] at h
      cases h
    | ok next =>
      rw [hnext] at h
      have hsplit : composedPositions targetWidth targetHeight request (segment :: segments) =
          positions (destination targetWidth targetHeight request segment) segment ++
            composedPositions targetWidth targetHeight request segments := List.flatMap_cons
      rw [hsplit, List.nodup_append] at hnodup
      have hfirst := composeSegment_painted hnext
      have hrest := ih hnodup.2.1 h
      constructor
      · intro own hown copy hcopy
        rcases List.mem_cons.mp hown with rfl | hown
        · obtain ⟨source, hsource, hpixel⟩ := hfirst.shown own List.mem_cons_self copy hcopy
          refine ⟨source, hsource, ?_⟩
          rw [← hpixel]
          apply pixelAt_congr
          intro k hk
          apply hrest.other
          intro p hp
          have hwithin : p.1 < targetWidth := by
            obtain ⟨later, -, hlater⟩ := List.mem_flatMap.mp hp
            exact ((mem_positions later).mp hlater).inside.1
          refine hk.apart (holds_of_mem_pixelCopies hcopy).inside.1 hwithin ?_
          exact hnodup.2.2 _ (List.mem_map_of_mem hcopy) _ hp
        · exact hrest.shown own hown copy hcopy
      · intro k hk
        rw [hsplit] at hk
        rw [hrest.other k fun p hp => hk p (List.mem_append_right _ hp)]
        apply hfirst.other
        rw [composedPositions_singleton]
        exact fun p hp => hk p (List.mem_append_left _ hp)

/-- The header is written over the first bytes of the file, where no pixel is. -/
theorem composeCapture_shown {calls : FileCalls} {answer : CaptureAnswer}
    (hnodup : (composedPositions targetWidth targetHeight request segments).Nodup)
    (hsize : composedSize request segments = some (targetWidth, targetHeight))
    (h : composeCapture calls request segments = some answer) (hok : answer.result.status = Status.ok) :
    Shown targetWidth targetHeight request segments answer.contents := by
  unfold composeCapture at h
  rw [hsize, Option.bind_eq_bind, Option.bind_some] at h
  dsimp only at h
  split_ifs at h
  · cases h
    cases hok
  · cases h
    cases hok
  · cases h
    cases hok
  split at h
  · cases h
  · cases h
    cases hok
  · next map hmap =>
    cases h
    have hlength : map.length = captureHeaderSize + pixelLength targetWidth targetHeight :=
      foldlM_invariant (P := fun map => map.length = captureHeaderSize + pixelLength targetWidth targetHeight)
        (fun map segment map' hsegment hmap => (composeSegment_length hsegment).trans hmap) hmap List.length_replicate
    unfold sealComposed at hok ⊢
    dsimp only at hok ⊢
    split_ifs at hok ⊢
    · cases hok
    split at hok
    · cases hok
    · next result hresult =>
      have hheader := length_captureHeader targetWidth targetHeight (targetWidth * 4 % 2 ^ 32)
        (pixelLength targetWidth targetHeight)
      intro segment hsegment copy hcopy
      obtain ⟨source, hsource, hpixel⟩ := (composeSegments_painted hnodup hmap).shown segment hsegment copy hcopy
      refine ⟨source, hsource, ?_⟩
      rw [← hpixel]
      apply pixelAt_congr
      intro k hk
      unfold Covers at hk
      exact getElem?_writeAt_of_outside (by omega) (by omega)

end Painted

section Composed

/-- Segments that tile a request are drawn on areas that tile the image, in every size: each pixel is written once, and
the edges of every side go from the first pixel to the last in order. What is composed has at each of these places the
pixel of its frame, and nothing else of the image changes. -/
theorem composition_tiled {request : Request} {segments : List Segment} {targetWidth targetHeight : ℕ}
    (hadmits : admits targetWidth targetHeight) (htiled : Tiled request segments) :
    Partitions targetWidth targetHeight (segments.map (destination targetWidth targetHeight request)) ∧
      ((composedPositions targetWidth targetHeight request segments).Nodup ∧
        ∀ x y, (x, y) ∈ composedPositions targetWidth targetHeight request segments ↔
          x < targetWidth ∧ y < targetHeight) ∧
      Edges.Scales (fun offset => mappedEdge offset request.width.toNat targetWidth) request.width.toNat targetWidth ∧
      Edges.Scales (fun offset => mappedEdge offset request.height.toNat targetHeight) request.height.toNat
        targetHeight ∧
      (∀ target result, segments.foldlM (fun map segment =>
        composeSegment map targetWidth targetHeight request segment) target = .ok result →
          Composed targetWidth targetHeight request segments target result) ∧
      ∀ calls answer, composedSize request segments = some (targetWidth, targetHeight) →
        composeCapture calls request segments = some answer → answer.result.status = Status.ok →
          Shown targetWidth targetHeight request segments answer.contents := by
  have hdimension : maxCaptureDimension = 32768 := rfl
  obtain ⟨-, -, hwide, hhigh, -⟩ := admits_iff.mp hadmits
  have hwidth : targetWidth < 2 ^ 32 := by omega
  have hheight : targetHeight < 2 ^ 32 := by omega
  have hpositions := htiled.composedPositions hwidth hheight
  exact ⟨htiled.partitions hwidth hheight, hpositions, mappedEdge_scales request.width_pos hwidth,
    mappedEdge_scales request.height_pos hheight, fun _ _ h => composeSegments_painted hpositions.1 h,
    fun _ _ hsize h hok => composeCapture_shown hpositions.1 hsize h hok⟩

/-- A segment at an offset, of a frame of the same size without turns. -/
def plainSegment (x width height : BitVec 32) : Segment :=
  ⟨x, 0, width, height, width, height, width, height, 0, 0, width * 4, 0, 0, false, false, none⟩

/-- Three columns of two segments, drawn on five. -/
theorem composition_tiled_columns :
    let request : Request := ⟨0, 0, 3, 2, by decide, by decide⟩
    let segments := [plainSegment 0 1 2, plainSegment 1 2 2]
    Partitions 5 3 (segments.map (destination 5 3 request)) ∧
      ((composedPositions 5 3 request segments).Nodup ∧
        ∀ x y, (x, y) ∈ composedPositions 5 3 request segments ↔ x < 5 ∧ y < 3) ∧
      Edges.Scales (fun offset => mappedEdge offset request.width.toNat 5) request.width.toNat 5 ∧
      Edges.Scales (fun offset => mappedEdge offset request.height.toNat 3) request.height.toNat 3 ∧
      (∀ target result, segments.foldlM (fun map segment => composeSegment map 5 3 request segment) target =
        .ok result → Composed 5 3 request segments target result) ∧
      ∀ calls answer, composedSize request segments = some (5, 3) →
        composeCapture calls request segments = some answer → answer.result.status = Status.ok →
          Shown 5 3 request segments answer.contents := by
  have hnumbers : (0 : BitVec 32).toInt = 0 ∧ (1 : BitVec 32).toInt = 1 ∧ (1 : BitVec 32).toNat = 1 ∧
      (2 : BitVec 32).toNat = 2 ∧ (3 : BitVec 32).toNat = 3 := by decide
  obtain ⟨hzero, hone, hwidth, htwo, hthree⟩ := hnumbers
  apply composition_tiled (by decide)
  constructor
  · simp only [List.pairwise_cons, List.mem_singleton, forall_eq, List.not_mem_nil, false_implies, implies_true,
      List.Pairwise.nil, and_true, Segment.Shows, plainSegment, hzero, hone, hwidth, htwo]
    intro a b hfirst
    omega
  · intro a b
    simp only [List.mem_cons, List.not_mem_nil, or_false, exists_eq_or_imp, exists_eq_left, Request.Holds,
      Segment.Shows, plainSegment, hzero, hone, hwidth, htwo, hthree]
    omega

/-- No pixel of an admitted segment is read outside of its frame or written outside of the image, and every transform
is a bijection of the coordinates. -/
theorem composition_inRange {segment : Segment} (h : Admitted segment) {targetWidth targetHeight : ℕ}
    (hadmits : admits targetWidth targetHeight) (request : Request) :
    (∀ copy ∈ pixelCopies (destination targetWidth targetHeight request segment) segment,
      (copy.sourceX.toNat < segment.sourceWidth.toNat ∧ copy.sourceY.toNat < segment.sourceHeight.toNat) ∧
        inputOffset segment copy + 4 ≤ segment.stride.toNat * segment.sourceHeight.toNat ∧
        (copy.x < targetWidth ∧ copy.y < targetHeight) ∧
        outputOffset targetWidth copy + 4 ≤ captureHeaderSize + pixelLength targetWidth targetHeight) ∧
      ∀ width height transform,
        Set.BijOn (fun p => inverseTransform p.1 p.2 width height transform)
          (grid (orientedSize width height transform)) (grid (width, height)) := by
  constructor
  · intro copy hcopy
    exact h.ranges hadmits hcopy
  · exact inverseTransform_bijOn

/-- A frame of two columns and three rows, seen on its side and upside down. -/
def turnedSegment : Segment := ⟨0, 0, 6, 4, 3, 2, 2, 3, 0, 0, 8, 1, yInvert, false, false, none⟩

theorem composition_inRange_turned :
    (∀ copy ∈ pixelCopies (destination 6 4 ⟨0, 0, 6, 4, by decide, by decide⟩ turnedSegment) turnedSegment,
      (copy.sourceX.toNat < (2 : BitVec 32).toNat ∧ copy.sourceY.toNat < (3 : BitVec 32).toNat) ∧
        inputOffset turnedSegment copy + 4 ≤ (8 : BitVec 32).toNat * (3 : BitVec 32).toNat ∧
        (copy.x < 6 ∧ copy.y < 4) ∧ outputOffset 6 copy + 4 ≤ captureHeaderSize + pixelLength 6 4) ∧
      ∀ width height transform,
        Set.BijOn (fun p => inverseTransform p.1 p.2 width height transform)
          (grid (orientedSize width height transform)) (grid (width, height)) :=
  have hadmitted : Admitted turnedSegment := ⟨by decide, by decide, by decide, by decide, by decide⟩
  composition_inRange hadmitted (by decide) ⟨0, 0, 6, 4, by decide, by decide⟩

end Composed

end KeysharpDesktop.Compose
