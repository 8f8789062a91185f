import KeysharpDesktop.Display.Requests
import KeysharpDesktop.Wire.Result

/-! Captures of an X11 display: what the server is asked for, how its pixels get into a sealed file behind a header,
and the check that every consumer makes of such a file. -/
namespace KeysharpDesktop.Capture

open KeysharpDesktop.Display

abbrev Xid := BitVec 32

def formatPng : BitVec 16 := 1
def formatBgra8Premultiplied : BitVec 16 := 2

section Validator

/-- `ksd_capture_tail_valid`. -/
def captureTailValid (tail : Bytes) (tailLength : ℕ) : Bool :=
  if tailLength < 20 then false
  else
    let format := decodeU16 tail
    let reserved := decodeU16 (tail.drop 2)
    let width := (decodeU32 (tail.drop 4)).toNat
    let height := (decodeU32 (tail.drop 8)).toNat
    let stride := (decodeU32 (tail.drop 12)).toNat
    let length := (decodeU32 (tail.drop 16)).toNat
    if reserved != 0 || width == 0 || height == 0 || maxCaptureDimension < width || maxCaptureDimension < height ||
        maxCapturePixels < width * height || length == 0 || maxCaptureBytes < length ||
        tailLength != (20 + length) % 2 ^ 32 then false
    else if format == formatPng then stride == 0
    else format == formatBgra8Premultiplied && width * 4 ≤ stride && stride * height == length

end Validator

section Server

/-- The server pads a scanline to a positive number of bits. -/
structure PixmapFormat where
  depth : BitVec 8
  bitsPerPixel : BitVec 8
  scanlinePad : BitVec 8
  padded : scanlinePad ≠ 0

structure VisualType where
  visualId : Xid
  redMask : BitVec 32
  greenMask : BitVec 32
  blueMask : BitVec 32
  deriving DecidableEq, Repr

structure Screen where
  root : Xid
  rootVisual : Xid
  rootDepth : BitVec 8
  allowedDepths : List (List VisualType)
  deriving DecidableEq, Repr

structure CaptureTarget where
  drawable : Xid
  x : BitVec 16
  y : BitVec 16
  width : BitVec 16
  height : BitVec 16
  deriving DecidableEq, Repr

structure Geometry where
  width : BitVec 16
  height : BitVec 16
  depth : BitVec 8
  deriving DecidableEq, Repr

/-- The composite extension, and what its requests about one window come to. -/
structure Composite where
  present : Bool
  version : Option (ℕ × ℕ)
  pixmap : Xid
  named : Bool
  redirected : Bool
  renamed : Bool

/-- What the display answers while a capture is made. -/
structure XDisplay where
  pixmapFormats : List PixmapFormat
  lsbFirst : Bool
  screen : Screen
  parent : Xid → Option Xid
  viewable : Xid → Option Bool
  geometry : Xid → Option Geometry
  composite : Composite
  shmPresent : Bool
  shmVersion : Bool
  shmImage : CaptureTarget → Option Bytes
  coreImage : CaptureTarget → Option Bytes

/-- What the calls about the file come to. -/
structure FileCalls where
  inode : ℕ
  created : Bool
  sized : Bool
  mapped : Bool
  duplicated : Bool
  unmapped : Bool
  sealed : Bool

def formatForDepth (display : XDisplay) (depth : BitVec 8) : Option PixmapFormat :=
  display.pixmapFormats.find? fun format => format.depth == depth

/-- The masks of the first visual that is the root's. -/
def serverIsBgra8 (display : XDisplay) (depth : BitVec 8) (format : PixmapFormat) : Bool :=
  format.bitsPerPixel == 32 && (depth == 24 || depth == 32) && display.lsbFirst &&
    (display.screen.allowedDepths.flatten.find? fun visual => visual.visualId == display.screen.rootVisual).any
      fun visual => visual.redMask == 0x00ff0000 && visual.greenMask == 0x0000ff00 && visual.blueMask == 0x000000ff

def scanlineBytes (width : ℕ) (format : PixmapFormat) : ℕ :=
  let bits := width * format.bitsPerPixel.toNat
  let pad := format.scanlinePad.toNat
  (bits + pad - 1) / pad * pad / 8

end Server

section Capture

def captureHeaderSize : ℕ := 20

def writeAt (map : Bytes) (offset : ℕ) (bytes : Bytes) : Bytes :=
  map.take offset ++ bytes ++ map.drop (offset + bytes.length)

def forceOpaque (pixels : Bytes) (stride height width : ℕ) : Bytes :=
  (List.range height).foldl (fun pixels row =>
    (List.range width).foldl (fun pixels column => pixels.set (row * stride + (column * 4 + 3)) 0xff) pixels) pixels

/-- The server writes an image only where the segment has room for it. -/
def shmIntoFd (display : XDisplay) (calls : FileCalls) (target : CaptureTarget) (map : Bytes) : Option Bytes :=
  if !display.shmPresent || !display.shmVersion || !calls.duplicated then none
  else
    match display.shmImage target with
    | none => none
    | some image =>
      if map.length < captureHeaderSize + image.length then none else some (writeAt map captureHeaderSize image)

def coreIntoMap (display : XDisplay) (target : CaptureTarget) (map : Bytes) (length : ℕ) : Option Bytes :=
  match display.coreImage target with
  | none => none
  | some image => if image.length != length then none else some (writeAt map captureHeaderSize image)

def imageIntoMap (display : XDisplay) (calls : FileCalls) (target : CaptureTarget) (map : Bytes) (length : ℕ) :
    Option Bytes :=
  (shmIntoFd display calls target map).or (coreIntoMap display target map length)

def captureHeader (width height stride length : ℕ) : Bytes :=
  encodeU16 formatBgra8Premultiplied ++ encodeU16 0 ++ encodeU32 (BitVec.ofNat 32 width) ++
    encodeU32 (BitVec.ofNat 32 height) ++ encodeU32 (BitVec.ofNat 32 stride) ++ encodeU32 (BitVec.ofNat 32 length)

/-- An answer, with the contents of the file that it carries. -/
structure CaptureAnswer where
  result : OperationResult
  contents : Bytes
  deriving DecidableEq, Repr

def refuse (status : Status) (diagnostic : String) : CaptureAnswer := ⟨resultError status 0 (ascii diagnostic), []⟩

/-- The last steps of `capture_drawable`, with the pixels in the map. -/
def sealCapture (calls : FileCalls) (target : CaptureTarget) (depth : BitVec 8) (stride length : ℕ) (map : Bytes) :
    CaptureAnswer :=
  let total := captureHeaderSize + length
  let pixels := map.drop captureHeaderSize
  let pixels := if depth == 24 then forceOpaque pixels stride target.height.toNat target.width.toNat else pixels
  let contents := captureHeader target.width.toNat target.height.toNat stride length ++ pixels
  if !calls.unmapped || !calls.sealed then refuse Status.internal "could not seal the capture buffer"
  else
    match resultTakeFd ⟨calls.inode, total, true, some requiredSeals⟩ (total % 2 ^ 32) with
    | none => refuse Status.internal "could not seal the capture buffer"
    | some result => ⟨result, contents⟩

def captureDrawable (display : XDisplay) (calls : FileCalls) (target : CaptureTarget) (depth : BitVec 8) :
    CaptureAnswer :=
  match (formatForDepth display depth).filter (serverIsBgra8 display depth) with
  | none =>
    refuse Status.unsupported "this display stores pixels in a format this service does not convert"
  | some format =>
    let stride := scanlineBytes target.width.toNat format
    let length := stride * target.height.toNat
    if length == 0 || maxCaptureBytes < length || 2 ^ 32 - 1 < stride ||
        maxCapturePixels < target.width.toNat * target.height.toNat then
      refuse Status.invalidRequest "the requested area is larger than this service will capture"
    else if !calls.created then refuse Status.internal "could not allocate the capture buffer"
    else if !calls.sized then refuse Status.internal "could not size the capture buffer"
    else if !calls.mapped then refuse Status.internal "could not map the capture buffer"
    else
      match imageIntoMap display calls target (List.replicate (captureHeaderSize + length) 0) length with
      | none => refuse Status.unavailable "the display would not produce an image for this request"
      | some map => sealCapture calls target depth stride length map

def captureArea (display : XDisplay) (calls : FileCalls) (x y : ℤ) (width height : ℕ) : CaptureAnswer :=
  if width == 0 || height == 0 || int16Max < width || int16Max < height || x < int16Min || int16Max < x ||
      y < int16Min || int16Max < y then
    refuse Status.invalidRequest "the requested area is not one this display can address"
  else
    captureDrawable display calls
      ⟨display.screen.root, BitVec.ofInt 16 x, BitVec.ofInt 16 y, BitVec.ofNat 16 width, BitVec.ofNat 16 height⟩
      display.screen.rootDepth

/-- The window that the picture is taken of: with its decoration, the parent, unless that is the root. -/
def decorated (display : XDisplay) (window : Xid) : Xid :=
  match display.parent window with
  | none => window
  | some parent => if parent != 0 && parent != display.screen.root then parent else window

/-- The pixmap that the composite extension keeps of a window, named at once or after a redirection. -/
def windowPixmap (composite : Composite) : Option Xid :=
  if !composite.present then none
  else
    match composite.version with
    | none => none
    | some (major, minor) =>
      if major == 0 && minor < 2 then none
      else if composite.named || composite.redirected && composite.renamed then some composite.pixmap
      else none

def captureWindow (display : XDisplay) (calls : FileCalls) (window : Xid) (includeDecoration : Bool) :
    CaptureAnswer :=
  let drawable := if includeDecoration then decorated display window else window
  match display.viewable drawable, display.geometry drawable with
  | some true, some geometry =>
    if geometry.width == 0 || geometry.height == 0 then
      refuse Status.unavailable "that window has no area to capture"
    else
      captureDrawable display calls
        ⟨(windowPixmap display.composite).getD drawable, 0, 0, geometry.width, geometry.height⟩ geometry.depth
  | _, _ => refuse Status.unavailable "that window is not on screen"

end Capture

section Shape

variable {display : XDisplay} {calls : FileCalls} {target : CaptureTarget} {depth : BitVec 8} {map map' : Bytes}
  {stride length : ℕ}

theorem length_writeAt {offset : ℕ} {bytes : Bytes} (h : offset + bytes.length ≤ map.length) :
    (writeAt map offset bytes).length = map.length := by
  simp only [writeAt, List.length_append, List.length_take, List.length_drop]
  omega

theorem getElem?_writeAt_of_outside {offset k : ℕ} {bytes : Bytes} (h : offset + bytes.length ≤ map.length)
    (hk : k < offset ∨ offset + bytes.length ≤ k) : (writeAt map offset bytes)[k]? = map[k]? := by
  have hfront : (map.take offset).length = offset := List.length_take_of_le (by omega)
  unfold writeAt
  rcases hk with hbefore | hafter
  · rw [List.append_assoc, List.getElem?_append_left (by omega), List.getElem?_take_of_lt hbefore]
  · have hboth : (map.take offset ++ bytes).length = offset + bytes.length := by rw [List.length_append, hfront]
    rw [List.getElem?_append_right (by omega), hboth, List.getElem?_drop, Nat.add_sub_cancel' hafter]

theorem take_drop_writeAt {offset : ℕ} {bytes : Bytes} (h : offset + bytes.length ≤ map.length) :
    ((writeAt map offset bytes).drop offset).take bytes.length = bytes := by
  have hfront : (map.take offset).length = offset := List.length_take_of_le (by omega)
  unfold writeAt
  rw [List.append_assoc, List.drop_left' hfront, List.take_left]

theorem length_captureHeader (width height stride length : ℕ) :
    (captureHeader width height stride length).length = captureHeaderSize := by
  simp only [captureHeader, List.length_append, length_encodeU16, length_encodeU32, captureHeaderSize]

theorem length_forceOpaque (pixels : Bytes) (stride height width : ℕ) :
    (forceOpaque pixels stride height width).length = pixels.length := by
  have hline : ∀ (row : ℕ) (columns : List ℕ) (pixels : Bytes),
      (columns.foldl (fun pixels column => pixels.set (row * stride + (column * 4 + 3)) (0xff : UInt8)) pixels).length =
        pixels.length := by
    intro row columns
    induction columns with
    | nil => exact fun pixels => rfl
    | cons column columns ih =>
      intro pixels
      rw [List.foldl_cons, ih, List.length_set]
  unfold forceOpaque
  generalize List.range height = rows
  induction rows generalizing pixels with
  | nil => rfl
  | cons row rows ih => rw [List.foldl_cons, ih, hline]

/-- Either transport fills the map and leaves its size as it is. -/
theorem length_imageIntoMap (hmap : map.length = captureHeaderSize + length)
    (h : imageIntoMap display calls target map length = some map') : map'.length = map.length := by
  obtain hshm | ⟨-, hcore⟩ := Option.or_eq_some_iff.mp h
  · unfold shmIntoFd at hshm
    split_ifs at hshm
    cases himage : display.shmImage target with
    | none =>
      rw [himage] at hshm
      cases hshm
    | some image =>
      rw [himage] at hshm
      dsimp only at hshm
      split_ifs at hshm with hroom
      cases hshm
      exact length_writeAt (by omega)
  · unfold coreIntoMap at hcore
    cases himage : display.coreImage target with
    | none =>
      rw [himage] at hcore
      cases hcore
    | some image =>
      rw [himage] at hcore
      dsimp only at hcore
      split_ifs at hcore with hlength
      cases hcore
      have hsame : image.length = length := by simpa using hlength
      exact length_writeAt (by omega)

/-- A scanline has room for its pixels, whatever the server pads it to. -/
theorem scanlineBytes_ge {format : PixmapFormat} (hbits : format.bitsPerPixel = 32) (width : ℕ) :
    width * 4 ≤ scanlineBytes width format := by
  have hpad : 0 < format.scanlinePad.toNat := by
    have hne := format.padded
    have hzero : format.scanlinePad.toNat ≠ (0 : BitVec 8).toNat := mt BitVec.eq_of_toNat_eq hne
    exact Nat.pos_of_ne_zero hzero
  have hthirtyTwo : format.bitsPerPixel.toNat = 32 := by rw [hbits]; rfl
  have hround : width * 32 ≤
      (width * 32 + format.scanlinePad.toNat - 1) / format.scanlinePad.toNat * format.scanlinePad.toNat := by
    have hdiv := Nat.div_add_mod (width * 32 + format.scanlinePad.toNat - 1) format.scanlinePad.toNat
    have hmod := Nat.mod_lt (width * 32 + format.scanlinePad.toNat - 1) hpad
    rw [Nat.mul_comm] at hdiv
    omega
  simp only [scanlineBytes, hthirtyTwo]
  omega

theorem scanlineBytes_zero (format : PixmapFormat) : scanlineBytes 0 format = 0 := by
  have hpad : format.scanlinePad.toNat - 1 < format.scanlinePad.toNat ∨ format.scanlinePad.toNat = 0 := by omega
  unfold scanlineBytes
  dsimp only
  rw [Nat.zero_mul, Nat.zero_add]
  obtain hpad | hpad := hpad
  · rw [Nat.div_eq_of_lt hpad, Nat.zero_mul, Nat.zero_div]
  · rw [hpad, Nat.mul_zero, Nat.zero_div]

/-- What the check says of a header that `capture_drawable` writes. -/
theorem captureTailValid_captureHeader {width height stride length tailLength : ℕ} (hwidth : width < 2 ^ 32)
    (hheight : height < 2 ^ 32) (hstride : stride < 2 ^ 32) (hlength : length < 2 ^ 32) (pixels : Bytes) :
    captureTailValid (captureHeader width height stride length ++ pixels) tailLength = true ↔
      20 ≤ tailLength ∧ width ≠ 0 ∧ height ≠ 0 ∧ width ≤ maxCaptureDimension ∧ height ≤ maxCaptureDimension ∧
        width * height ≤ maxCapturePixels ∧ length ≠ 0 ∧ length ≤ maxCaptureBytes ∧
        tailLength = (20 + length) % 2 ^ 32 ∧ width * 4 ≤ stride ∧ stride * height = length := by
  have hword : ∀ value : ℕ, value < 2 ^ 32 → (BitVec.ofNat 32 value).toNat = value := fun value hvalue => by
    rw [BitVec.toNat_ofNat, Nat.mod_eq_of_lt hvalue]
  unfold captureTailValid
  have hkind : decodeU16 (captureHeader width height stride length ++ pixels) = formatBgra8Premultiplied := by
    simp [captureHeader]
  have hreserved : decodeU16 ((captureHeader width height stride length ++ pixels).drop 2) = 0 := by
    simp [captureHeader, drop_field (length_encodeU16 _)]
  have hw : decodeU32 ((captureHeader width height stride length ++ pixels).drop 4) = BitVec.ofNat 32 width := by
    simp [captureHeader, drop_field (length_encodeU16 _)]
  have hh : decodeU32 ((captureHeader width height stride length ++ pixels).drop 8) = BitVec.ofNat 32 height := by
    simp [captureHeader, drop_field (length_encodeU16 _), drop_field (length_encodeU32 _)]
  have hs : decodeU32 ((captureHeader width height stride length ++ pixels).drop 12) = BitVec.ofNat 32 stride := by
    simp [captureHeader, drop_field (length_encodeU16 _), drop_field (length_encodeU32 _)]
  have hl : decodeU32 ((captureHeader width height stride length ++ pixels).drop 16) = BitVec.ofNat 32 length := by
    simp [captureHeader, drop_field (length_encodeU16 _), drop_field (length_encodeU32 _)]
  have hpng : (formatBgra8Premultiplied == formatPng) = false := by decide
  dsimp only
  rw [hkind, hreserved, hw, hh, hs, hl, hword _ hwidth, hword _ hheight, hword _ hstride, hword _ hlength, hpng]
  have hreadable : (formatBgra8Premultiplied == formatBgra8Premultiplied) = true := by decide
  simp only [hreadable, bne_self_eq_false, Bool.false_or, Bool.true_and, Bool.false_eq_true, if_false]
  by_cases hshort : tailLength < 20
  · rw [if_pos hshort]
    constructor
    · intro h
      cases h
    · intro h
      omega
  · rw [if_neg hshort]
    split_ifs with hrefused
    · simp only [Bool.or_eq_true, beq_iff_eq, bne_iff_ne, decide_eq_true_eq] at hrefused
      constructor
      · intro h
        cases h
      · rintro ⟨-, hw, hh, hwide, hhigh, harea, hzero, hbytes, htotal, -⟩
        omega
    · simp only [Bool.or_eq_true, beq_iff_eq, bne_iff_ne, decide_eq_true_eq, not_or, not_not, not_lt] at hrefused
      obtain ⟨⟨⟨⟨⟨⟨⟨hw, hh⟩, hwide⟩, hhigh⟩, harea⟩, hzero⟩, hbytes⟩, htotal⟩ := hrefused
      simp only [Bool.and_eq_true, decide_eq_true_eq, beq_iff_eq]
      constructor
      · rintro ⟨hstride, hlength⟩
        exact ⟨by omega, hw, hh, hwide, hhigh, harea, hzero, hbytes, htotal, hstride, hlength⟩
      · rintro ⟨-, -, -, -, -, -, -, -, -, hstride, hlength⟩
        exact ⟨hstride, hlength⟩

/-- The check before anything is allocated. -/
structure Capturable (target : CaptureTarget) (stride : ℕ) : Prop where
  positive : stride * target.height.toNat ≠ 0
  bytes : stride * target.height.toNat ≤ maxCaptureBytes
  word : stride ≤ 2 ^ 32 - 1
  pixels : target.width.toNat * target.height.toNat ≤ maxCapturePixels

/-- A sealed file with `length` bytes of pixels behind their header. -/
structure Captured (target : CaptureTarget) (stride length : ℕ) (answer : CaptureAnswer) : Prop where
  tailLength : answer.result.tailLength = captureHeaderSize + length
  sealed : ∃ file, answer.result.payloadFd = some file ∧ file.sealedOf answer.result.tailLength
  contents : ∃ pixels, answer.contents = captureHeader target.width.toNat target.height.toNat stride length ++ pixels ∧
    pixels.length = length

theorem refuse_status (status : Status) (diagnostic : String) : (refuse status diagnostic).result.status = status := rfl

theorem sealCapture_captured (hbytes : length ≤ maxCaptureBytes) (hmap : map.length = captureHeaderSize + length)
    (h : (sealCapture calls target depth stride length map).result.status = Status.ok) :
    Captured target stride length (sealCapture calls target depth stride length map) := by
  have hmax : captureHeaderSize + maxCaptureBytes < 2 ^ 32 := by decide
  have htotal : (captureHeaderSize + length) % 2 ^ 32 = captureHeaderSize + length := Nat.mod_eq_of_lt (by omega)
  have hpositive : captureHeaderSize + length ≠ 0 := by
    unfold captureHeaderSize
    omega
  unfold sealCapture at h ⊢
  dsimp only at h ⊢
  rw [htotal] at h ⊢
  by_cases hsealed : (!calls.unmapped || !calls.sealed) = true
  · rw [if_pos hsealed, refuse_status] at h
    exact absurd h (by decide)
  · rw [if_neg hsealed]
    simp only [resultTakeFd, if_neg hpositive]
    refine ⟨rfl, ⟨_, rfl, by simp [File.sealedOf]⟩, ⟨_, rfl, ?_⟩⟩
    split_ifs
    · rw [length_forceOpaque, List.length_drop, hmap, Nat.add_sub_cancel_left]
    · rw [List.length_drop, hmap, Nat.add_sub_cancel_left]

/-- A capture that succeeds passed the check, and its file holds what the header says. -/
theorem captureDrawable_captured (h : (captureDrawable display calls target depth).result.status = Status.ok) :
    ∃ stride, target.width.toNat ≠ 0 ∧ target.width.toNat * 4 ≤ stride ∧ Capturable target stride ∧
      Captured target stride (stride * target.height.toNat) (captureDrawable display calls target depth) := by
  unfold captureDrawable at h ⊢
  cases hformat : (formatForDepth display depth).filter (serverIsBgra8 display depth) with
  | none =>
    rw [hformat] at h
    cases h
  | some format =>
    rw [hformat] at h
    obtain ⟨-, hbgra⟩ := Option.filter_eq_some_iff.mp hformat
    have hbits : format.bitsPerPixel = 32 := by
      simp only [serverIsBgra8, Bool.and_eq_true, beq_iff_eq] at hbgra
      exact hbgra.1.1.1
    have hempty : target.width.toNat = 0 → scanlineBytes target.width.toNat format = 0 := fun hwidth => by
      rw [hwidth, scanlineBytes_zero]
    have hrow := scanlineBytes_ge hbits target.width.toNat
    refine ⟨scanlineBytes target.width.toNat format, ?_⟩
    dsimp only at h ⊢
    generalize scanlineBytes target.width.toNat format = stride at h hempty hrow ⊢
    split_ifs at h with hlarge hcreated hsized hmapped
    · cases h
    · cases h
    · cases h
    · cases h
    · rw [if_neg hlarge, if_neg hcreated, if_neg hsized, if_neg hmapped]
      simp only [Bool.or_eq_true, beq_iff_eq, decide_eq_true_eq, not_or, not_lt] at hlarge
      obtain ⟨⟨⟨hzero, hbytes⟩, hword⟩, hpixels⟩ := hlarge
      have hwidth : target.width.toNat ≠ 0 := fun hwidth => hzero (by rw [hempty hwidth, Nat.zero_mul])
      refine ⟨hwidth, hrow, ⟨hzero, hbytes, hword, hpixels⟩, ?_⟩
      cases himage : imageIntoMap display calls target
          (List.replicate (captureHeaderSize + stride * target.height.toNat) 0) (stride * target.height.toNat) with
      | none =>
        rw [himage] at h
        cases h
      | some map =>
        rw [himage] at h
        have hsize := length_imageIntoMap (List.length_replicate ..) himage
        rw [List.length_replicate] at hsize
        exact sealCapture_captured hbytes hsize h

/-- Where the display and the calls do their part, a drawable that passes the check is captured. -/
theorem captureDrawable_ok {format : PixmapFormat} (hformat : formatForDepth display depth = some format)
    (hbgra : serverIsBgra8 display depth format)
    (hcapturable : Capturable target (scanlineBytes target.width.toNat format))
    (hcalls : calls.created ∧ calls.sized ∧ calls.mapped ∧ calls.unmapped ∧ calls.sealed) {image : Bytes}
    (himage : display.coreImage target = some image)
    (hlength : image.length = scanlineBytes target.width.toNat format * target.height.toNat) :
    (captureDrawable display calls target depth).result.status = Status.ok := by
  obtain ⟨hcreated, hsized, hmapped, hunmapped, hsealed⟩ := hcalls
  have hmax : captureHeaderSize + maxCaptureBytes < 2 ^ 32 := by decide
  have hpositive := hcapturable.positive
  have hbytes := hcapturable.bytes
  have hfits : (scanlineBytes target.width.toNat format * target.height.toNat == 0 ||
      maxCaptureBytes < scanlineBytes target.width.toNat format * target.height.toNat ||
      2 ^ 32 - 1 < scanlineBytes target.width.toNat format ||
      maxCapturePixels < target.width.toNat * target.height.toNat : Bool) = false := by
    simp only [Bool.or_eq_false_iff, beq_eq_false_iff_ne, decide_eq_false_iff_not, not_lt]
    exact ⟨⟨⟨hpositive, hbytes⟩, hcapturable.word⟩, hcapturable.pixels⟩
  obtain ⟨map, hmap⟩ : ∃ map, imageIntoMap display calls target
      (List.replicate (captureHeaderSize + scanlineBytes target.width.toNat format * target.height.toNat) 0)
      (scanlineBytes target.width.toNat format * target.height.toNat) = some map := by
    apply Option.isSome_iff_exists.mp
    simp [imageIntoMap, coreIntoMap, himage, hlength]
  unfold captureDrawable
  rw [hformat, Option.filter_some, hbgra]
  simp only [if_true, hfits, hcreated, hsized, hmapped, hmap, Bool.not_true, Bool.false_eq_true, if_false]
  have htotal : (captureHeaderSize + scanlineBytes target.width.toNat format * target.height.toNat) % 2 ^ 32 ≠ 0 := by
    rw [Nat.mod_eq_of_lt (by omega)]
    omega
  simp only [sealCapture, hunmapped, hsealed, resultTakeFd, if_neg htotal, Bool.not_true, Bool.or_self,
    Bool.false_eq_true, if_false]

theorem captureWindow_onScreen {window : Xid} (geometry : Geometry) (hviewable : display.viewable window = some true)
    (hgeometry : display.geometry window = some geometry) (harea : geometry.width ≠ 0 ∧ geometry.height ≠ 0) :
    captureWindow display calls window false =
      captureDrawable display calls
        ⟨(windowPixmap display.composite).getD window, 0, 0, geometry.width, geometry.height⟩ geometry.depth := by
  have hempty : (geometry.width == 0 || geometry.height == 0) = false := by
    rw [Bool.or_eq_false_iff]
    exact ⟨beq_false_of_ne harea.1, beq_false_of_ne harea.2⟩
  simp only [captureWindow, Bool.false_eq_true, if_false, hviewable, hgeometry, hempty]

theorem captured_valid_iff {answer : CaptureAnswer} (hwidth : target.width.toNat ≠ 0)
    (hrow : target.width.toNat * 4 ≤ stride)
    (hcapturable : Capturable target stride) (h : Captured target stride (stride * target.height.toNat) answer) :
    captureTailValid answer.contents answer.result.tailLength ↔
      target.width.toNat ≤ maxCaptureDimension ∧ target.height.toNat ≤ maxCaptureDimension := by
  have hmax : captureHeaderSize + maxCaptureBytes < 2 ^ 32 := by decide
  have hheader : captureHeaderSize = 20 := rfl
  obtain ⟨pixels, hcontents, -⟩ := h.contents
  have hpositive := hcapturable.positive
  have hbytes := hcapturable.bytes
  have hheight : target.height.toNat ≠ 0 := right_ne_zero_of_mul hpositive
  have hstride : stride < 2 ^ 32 := by
    have hword := hcapturable.word
    omega
  rw [hcontents, h.tailLength, captureTailValid_captureHeader (by omega) (by omega) hstride (by omega)]
  constructor
  · intro hvalid
    exact ⟨hvalid.2.2.2.1, hvalid.2.2.2.2.1⟩
  · rintro ⟨hwide, hhigh⟩
    refine ⟨by omega, hwidth, hheight, hwide, hhigh, hcapturable.pixels, hpositive, hbytes, ?_, hrow, rfl⟩
    rw [Nat.mod_eq_of_lt (by omega), hheader]

/-- The file of a successful capture passes the consumers' check exactly when neither side is too long for it. -/
theorem captureDrawable_valid_iff (display : XDisplay) (calls : FileCalls) (target : CaptureTarget) (depth : BitVec 8)
    (h : (captureDrawable display calls target depth).result.status = Status.ok) :
    let answer := captureDrawable display calls target depth
    captureTailValid answer.contents answer.result.tailLength ↔
      target.width.toNat ≤ maxCaptureDimension ∧ target.height.toNat ≤ maxCaptureDimension := by
  obtain ⟨stride, hwidth, hrow, hcapturable, hcaptured⟩ := captureDrawable_captured h
  exact captured_valid_iff hwidth hrow hcapturable hcaptured

/-- An area has 15 bits a side, so every picture of one is accepted. -/
theorem captureArea_valid {x y : ℤ} {width height : ℕ}
    (h : (captureArea display calls x y width height).result.status = Status.ok) :
    captureTailValid (captureArea display calls x y width height).contents
      (captureArea display calls x y width height).result.tailLength := by
  unfold captureArea at h ⊢
  split_ifs at h ⊢ with hrefused
  · cases h
  · simp only [Bool.or_eq_true, beq_iff_eq, decide_eq_true_eq, not_or, not_lt] at hrefused
    have hmax : int16Max = 32767 := rfl
    have hdimension : maxCaptureDimension = 32768 := rfl
    obtain ⟨stride, hwidth, hrow, hcapturable, hcaptured⟩ := captureDrawable_captured h
    apply (captured_valid_iff hwidth hrow hcapturable hcaptured).mpr
    simp only [BitVec.toNat_ofNat]
    omega

end Shape

section Runs

def wideFormat : PixmapFormat := ⟨32, 32, 32, by decide⟩

/-- A display of true colours, without shared memory, that has every drawable in sight at one size. -/
def plainDisplay (width height : BitVec 16) : XDisplay where
  pixmapFormats := [⟨24, 32, 32, by decide⟩, wideFormat]
  lsbFirst := true
  screen := ⟨1, 0x21, 24, [[⟨0x21, 0x00ff0000, 0x0000ff00, 0x000000ff⟩]]⟩
  parent _ := some 1
  viewable _ := some true
  geometry _ := some ⟨width, height, 32⟩
  composite := ⟨false, none, 0, false, false, false⟩
  shmPresent := false
  shmVersion := false
  shmImage _ := none
  coreImage target := some (List.replicate (4 * target.width.toNat * target.height.toNat) 0)

def fileCalls : FileCalls := ⟨7, true, true, true, true, true, true⟩

/-- Two rows of three pixels, each padded by the server to a multiple of 64 bits. -/
def paddedDisplay : XDisplay :=
  { plainDisplay 3 2 with
    pixmapFormats := [⟨24, 32, 64, by decide⟩]
    coreImage := fun _ => some ((List.range 32).map UInt8.ofNat) }

theorem captureDrawable_valid_padded :
    (captureDrawable paddedDisplay fileCalls ⟨2, 0, 0, 3, 2⟩ 24).contents.length = captureHeaderSize + 16 * 2 ∧
      (captureTailValid (captureDrawable paddedDisplay fileCalls ⟨2, 0, 0, 3, 2⟩ 24).contents
        (captureDrawable paddedDisplay fileCalls ⟨2, 0, 0, 3, 2⟩ 24).result.tailLength ↔
          (3 : BitVec 16).toNat ≤ maxCaptureDimension ∧ (2 : BitVec 16).toNat ≤ maxCaptureDimension) := by
  have hlength : (captureDrawable paddedDisplay fileCalls ⟨2, 0, 0, 3, 2⟩ 24).contents.length =
      captureHeaderSize + 16 * 2 := by decide +kernel
  exact ⟨hlength, captureDrawable_valid_iff paddedDisplay fileCalls ⟨2, 0, 0, 3, 2⟩ 24 (by decide +kernel)⟩

/-- A window of one line with 40000 pixels is captured, and no consumer accepts the file. -/
theorem wideWindow_refused :
    let answer := captureWindow (plainDisplay 40000 1) fileCalls 2 false
    answer.result.status = Status.ok ∧ captureTailValid answer.contents answer.result.tailLength = false := by
  have hanswer : captureWindow (plainDisplay 40000 1) fileCalls 2 false =
      captureDrawable (plainDisplay 40000 1) fileCalls ⟨2, 0, 0, 40000, 1⟩ 32 :=
    captureWindow_onScreen ⟨40000, 1, 32⟩ rfl rfl (by decide)
  have hok : (captureDrawable (plainDisplay 40000 1) fileCalls ⟨2, 0, 0, 40000, 1⟩ 32).result.status = Status.ok := by
    have hcapturable : Capturable ⟨2, 0, 0, 40000, 1⟩ (scanlineBytes (40000 : BitVec 16).toNat wideFormat) :=
      ⟨by decide, by decide, by decide, by decide⟩
    exact captureDrawable_ok rfl rfl hcapturable ⟨rfl, rfl, rfl, rfl, rfl⟩ rfl List.length_replicate
  obtain ⟨stride, hwidth, hrow, hcapturable, hcaptured⟩ := captureDrawable_captured hok
  have hvalid := captured_valid_iff hwidth hrow hcapturable hcaptured
  dsimp only
  rw [hanswer]
  refine ⟨hok, ?_⟩
  rw [Bool.eq_false_iff]
  intro haccepted
  have hnarrow := (hvalid.mp haccepted).1
  exact absurd hnarrow (by decide)

end Runs

end KeysharpDesktop.Capture
