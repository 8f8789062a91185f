import KeysharpDesktop.Display.Compose

/-! The tail of a capture: the client's reader of one, and the service's encoder of an image that a compositor writes
into a pipe. -/
namespace KeysharpDesktop.Capture

open KeysharpDesktop.Display

section Reader

structure ClientCapture where
  format : BitVec 16
  width : BitVec 32
  height : BitVec 32
  stride : BitVec 32
  data : Bytes
  deriving DecidableEq, Repr

/-- `parse_capture_tail`. -/
def parseCaptureTail (data : Bytes) : Option ClientCapture := do
  let (format, c) ← cursorU16 data
  let (reserved, c) ← cursorU16 c
  let (width, c) ← cursorU32 c
  let (height, c) ← cursorU32 c
  let (stride, c) ← cursorU32 c
  let (byteLength, c) ← cursorU32 c
  let (bytes, c) ← cursorBytes c byteLength.toNat
  if !cursorFinished c || reserved != 0 || width.toNat == 0 || height.toNat == 0 ||
      maxCaptureDimension < width.toNat || maxCaptureDimension < height.toNat ||
      maxCapturePixels < width.toNat * height.toNat || byteLength.toNat == 0 || maxCaptureBytes < byteLength.toNat ||
      format == formatPng && stride.toNat != 0 ||
      format == formatBgra8Premultiplied &&
        (stride.toNat < width.toNat * 4 || stride.toNat * height.toNat != byteLength.toNat) ||
      format != formatPng && format != formatBgra8Premultiplied then none
  else some ⟨format, width, height, stride, bytes⟩

end Reader

section Encoder

def bytesPerPixel (format : ℕ) : ℕ :=
  if format ∈ [4, 5, 6, 16, 17, 18] then 4 else if format ∈ [13, 29] then 3 else 0

def premultiply (value alpha : UInt8) : UInt8 := UInt8.ofNat ((value.toNat * alpha.toNat + 127) / 255)

/-- One pixel of a source row as blue, green, red and alpha. -/
def convertedPixel (source : Bytes) (index format : ℕ) : Bytes :=
  if format = 13 ∨ format = 29 then
    let byte (i : ℕ) := source.getD (index * 3 + i) 0
    if format = 13 then [byte 2, byte 1, byte 0, 255] else [byte 0, byte 1, byte 2, 255]
  else
    let byte (i : ℕ) := source.getD (index * 4 + i) 0
    let colours := if format = 4 ∨ format = 5 ∨ format = 6 then (byte 0, byte 1, byte 2) else (byte 2, byte 1, byte 0)
    let alpha := if format = 4 ∨ format = 16 then 255 else byte 3
    if format = 5 ∨ format = 17 then
      [premultiply colours.1 alpha, premultiply colours.2.1 alpha, premultiply colours.2.2 alpha, alpha]
    else [colours.1, colours.2.1, colours.2.2, alpha]

def convertRow (source : Bytes) (width format : ℕ) : Bytes :=
  (List.range width).flatMap fun index => convertedPixel source index format

/-- A pipe with an image: what is written before the end, which rows come before the deadline, and whether the end
does. -/
structure ImagePipe where
  bytes : Bytes
  timely : ℕ → Bool
  ended : Bool

/-- The loop over the rows from `y` on, and what it leaves in the pipe. -/
def encodeRows (pipe : ImagePipe) (width stride format : ℕ) : ℕ → ℕ → Bytes → Option (Bytes × Bytes)
  | 0, _, rest => some ([], rest)
  | rows + 1, y, rest =>
    if !pipe.timely y || rest.length < stride then none
    else do
      let (pixels, left) ← encodeRows pipe width stride format rows (y + 1) (rest.drop stride)
      some (convertRow (rest.take stride) width format ++ pixels, left)

/-- `none` is a capture that fails; the caller says why. -/
def encodeCapture (pipe : ImagePipe) (width height sourceStride sourceFormat : BitVec 32) :
    Option OperationResult :=
  let sourceBpp := bytesPerPixel sourceFormat.toNat
  let sourceLength := sourceStride.toNat * height.toNat
  let outputStride := width.toNat * 4
  let outputLength := outputStride * height.toNat % 2 ^ 64
  if width.toNat == 0 || height.toNat == 0 || maxCaptureDimension < width.toNat || maxCaptureDimension < height.toNat ||
      maxCapturePixels < width.toNat * height.toNat || sourceBpp == 0 || sourceStride.toNat < width.toNat * sourceBpp ||
      sourceLength == 0 || maxCaptureBytes < sourceLength || outputLength == 0 || maxCaptureBytes < outputLength ||
      2 ^ 32 - 1 < outputStride then none
  else do
    let (pixels, left) ← encodeRows pipe width.toNat sourceStride.toNat sourceFormat.toNat height.toNat 0 pipe.bytes
    if !pipe.ended || !left.isEmpty then none
    else some (resultTake (captureHeader width.toNat height.toNat outputStride outputLength ++ pixels))

end Encoder

section Readers

variable {tail : Bytes}

theorem cursorU16_of_le {c : Cursor} (h : 2 ≤ c.length) : cursorU16 c = some (decodeU16 c, c.drop 2) := by
  simp only [cursorU16, cursorBytes, if_pos h, Option.bind_eq_bind, Option.bind_some, decodeU16, List.take_take,
    Nat.min_self]

theorem cursorU32_of_le {c : Cursor} (h : 4 ≤ c.length) : cursorU32 c = some (decodeU32 c, c.drop 4) := by
  simp only [cursorU32, cursorBytes, if_pos h, Option.bind_eq_bind, Option.bind_some, decodeU32, List.take_take,
    Nat.min_self]

/-- A reader that succeeds has read the whole header. -/
theorem parseCaptureTail_length (h : (parseCaptureTail tail).isSome) : 20 ≤ tail.length := by
  obtain ⟨capture, h⟩ := Option.isSome_iff_exists.mp h
  obtain ⟨⟨format, c1⟩, h1, h⟩ := Option.bind_eq_some_iff.mp h
  obtain ⟨⟨reserved, c2⟩, h2, h⟩ := Option.bind_eq_some_iff.mp h
  obtain ⟨⟨width, c3⟩, h3, h⟩ := Option.bind_eq_some_iff.mp h
  obtain ⟨⟨height, c4⟩, h4, h⟩ := Option.bind_eq_some_iff.mp h
  obtain ⟨⟨stride, c5⟩, h5, h⟩ := Option.bind_eq_some_iff.mp h
  obtain ⟨⟨length, c6⟩, h6, -⟩ := Option.bind_eq_some_iff.mp h
  rw [cursorU16_eq_some h1, cursorU16_eq_some h2, cursorU32_eq_some h3, cursorU32_eq_some h4, cursorU32_eq_some h5,
    cursorU32_eq_some h6]
  simp only [List.length_append, length_encodeU16, length_encodeU32]
  omega

/-- What both readers ask of the fields of a tail. -/
structure Acceptable (tail : Bytes) : Prop where
  reserved : decodeU16 (tail.drop 2) = 0
  wide : (decodeU32 (tail.drop 4)).toNat ≠ 0
  high : (decodeU32 (tail.drop 8)).toNat ≠ 0
  width_le : (decodeU32 (tail.drop 4)).toNat ≤ maxCaptureDimension
  height_le : (decodeU32 (tail.drop 8)).toNat ≤ maxCaptureDimension
  pixels_le : (decodeU32 (tail.drop 4)).toNat * (decodeU32 (tail.drop 8)).toNat ≤ maxCapturePixels
  filled : (decodeU32 (tail.drop 16)).toNat ≠ 0
  bytes_le : (decodeU32 (tail.drop 16)).toNat ≤ maxCaptureBytes
  whole : tail.length = 20 + (decodeU32 (tail.drop 16)).toNat
  format : decodeU16 tail = formatPng ∧ (decodeU32 (tail.drop 12)).toNat = 0 ∨
    decodeU16 tail = formatBgra8Premultiplied ∧
      (decodeU32 (tail.drop 4)).toNat * 4 ≤ (decodeU32 (tail.drop 12)).toNat ∧
      (decodeU32 (tail.drop 12)).toNat * (decodeU32 (tail.drop 8)).toNat = (decodeU32 (tail.drop 16)).toNat

theorem formatBgra8Premultiplied_ne_formatPng : formatBgra8Premultiplied ≠ formatPng := by decide

/-- The service computes the length of a tail in 32 bits, once it knows that they hold it. -/
theorem captureTailValid_iff : captureTailValid tail tail.length ↔ Acceptable tail := by
  have hceiling : maxCaptureBytes + 20 < 2 ^ 32 := by decide
  have hne := formatBgra8Premultiplied_ne_formatPng
  constructor
  · intro h
    simp only [captureTailValid, Bool.if_false_left, Bool.or_eq_true, bne_iff_ne, beq_iff_eq, decide_eq_true_eq,
      Bool.and_eq_true, Bool.not_eq_true', decide_eq_false_iff_not, not_or, not_not, not_lt] at h
    obtain ⟨hlong, ⟨⟨⟨⟨⟨⟨⟨⟨hreserved, hwide⟩, hhigh⟩, hwidth⟩, hheight⟩, hpixels⟩, hfilled⟩, hbytes⟩, htotal⟩,
      hformat⟩ := h
    rw [Nat.mod_eq_of_lt (by omega)] at htotal
    refine ⟨hreserved, hwide, hhigh, hwidth, hheight, hpixels, hfilled, hbytes, htotal, ?_⟩
    split_ifs at hformat with hpng
    · exact Or.inl ⟨hpng, beq_iff_eq.mp hformat⟩
    · simp only [Bool.and_eq_true, beq_iff_eq, decide_eq_true_eq] at hformat
      exact Or.inr ⟨hformat.1.1, hformat.1.2, hformat.2⟩
  · rintro ⟨hreserved, hwide, hhigh, hwidth, hheight, hpixels, hfilled, hbytes, htotal, hformat⟩
    simp only [captureTailValid, Bool.if_false_left, Bool.or_eq_true, bne_iff_ne, beq_iff_eq, decide_eq_true_eq,
      Bool.and_eq_true, Bool.not_eq_true', decide_eq_false_iff_not, not_or, not_not, not_lt]
    rw [Nat.mod_eq_of_lt (by omega)]
    refine ⟨by omega, ⟨⟨⟨⟨⟨⟨⟨⟨hreserved, hwide⟩, hhigh⟩, hwidth⟩, hheight⟩, hpixels⟩, hfilled⟩, hbytes⟩, htotal⟩, ?_⟩
    obtain ⟨hpng, hstride⟩ | ⟨hraw, hstride, hlength⟩ := hformat
    · rw [if_pos hpng, hstride]
      rfl
    · rw [if_neg (hraw ▸ hne), hraw]
      simp only [beq_self_eq_true, Bool.true_and, Bool.and_eq_true, decide_eq_true_eq, beq_iff_eq]
      exact ⟨hstride, hlength⟩

/-- The client reads the fields one after another, and the pixels last. -/
theorem parseCaptureTail_isSome_iff : (parseCaptureTail tail).isSome ↔ Acceptable tail := by
  by_cases hlength : 20 ≤ tail.length
  · unfold parseCaptureTail
    simp only [Option.bind_eq_bind]
    rw [cursorU16_of_le (by omega), Option.bind_some, cursorU16_of_le (by rw [List.length_drop]; omega),
      Option.bind_some, cursorU32_of_le (by simp only [List.length_drop]; omega), Option.bind_some,
      cursorU32_of_le (by simp only [List.length_drop]; omega), Option.bind_some,
      cursorU32_of_le (by simp only [List.length_drop]; omega), Option.bind_some,
      cursorU32_of_le (by simp only [List.length_drop]; omega), Option.bind_some]
    simp only [List.drop_drop, Nat.reduceAdd, cursorBytes, List.length_drop]
    have hne := formatBgra8Premultiplied_ne_formatPng
    constructor
    · intro h
      obtain ⟨capture, h⟩ := Option.isSome_iff_exists.mp h
      obtain ⟨⟨bytes, rest⟩, hbytes, h⟩ := Option.bind_eq_some_iff.mp h
      simp only [Option.ite_none_right_eq_some, Option.some.injEq, Prod.mk.injEq] at hbytes
      obtain ⟨hroom, rfl, rfl⟩ := hbytes
      simp only [Option.ite_none_left_eq_some, Bool.or_eq_true, Bool.not_eq_true', bne_iff_ne, beq_iff_eq,
        decide_eq_true_eq, Bool.and_eq_true, not_or, not_lt, not_not, not_and, Bool.not_eq_false, ne_eq, cursorFinished,
        List.isEmpty_iff, List.drop_eq_nil_iff] at h
      obtain ⟨⟨⟨⟨⟨⟨⟨⟨⟨⟨⟨⟨hend, hreserved⟩, hwide⟩, hhigh⟩, hwidth⟩, hheight⟩, hpixels⟩, hfilled⟩, hbytes⟩, hpng⟩, hraw⟩,
        hknown⟩, -⟩ := h
      have htotal : tail.length = 20 + (decodeU32 (tail.drop 16)).toNat := by omega
      refine ⟨hreserved, hwide, hhigh, hwidth, hheight, hpixels, hfilled, hbytes, htotal, ?_⟩
      by_cases hkind : decodeU16 tail = formatPng
      · exact Or.inl ⟨hkind, hpng hkind⟩
      · exact Or.inr ⟨hknown hkind, hraw (hknown hkind)⟩
    · rintro ⟨hreserved, hwide, hhigh, hwidth, hheight, hpixels, hfilled, hbytes, htotal, hformat⟩
      rw [if_pos (by omega), Option.bind_some, if_neg]
      · exact Option.isSome_some
      · simp only [Bool.or_eq_true, Bool.not_eq_true', bne_iff_ne, beq_iff_eq, decide_eq_true_eq, Bool.and_eq_true,
          not_or, not_lt, not_not, not_and, Bool.not_eq_false, ne_eq, cursorFinished, List.isEmpty_iff,
          List.drop_eq_nil_iff]
        have hend : tail.length ≤ 20 + (decodeU32 (tail.drop 16)).toNat := by omega
        have hpng : decodeU16 tail = formatPng → (decodeU32 (tail.drop 12)).toNat = 0 := by
          intro hkind
          obtain ⟨-, hstride⟩ | ⟨hraw, -⟩ := hformat
          · exact hstride
          · exact absurd (hraw.symm.trans hkind) hne
        have hraw : decodeU16 tail = formatBgra8Premultiplied →
            (decodeU32 (tail.drop 4)).toNat * 4 ≤ (decodeU32 (tail.drop 12)).toNat ∧
              (decodeU32 (tail.drop 12)).toNat * (decodeU32 (tail.drop 8)).toNat =
                (decodeU32 (tail.drop 16)).toNat := by
          intro hkind
          obtain ⟨hpng, -⟩ | ⟨-, hrows⟩ := hformat
          · exact absurd (hkind.symm.trans hpng) hne
          · exact hrows
        have hknown : ¬decodeU16 tail = formatPng → decodeU16 tail = formatBgra8Premultiplied := by
          intro hkind
          obtain ⟨hpng, -⟩ | ⟨hraw, -⟩ := hformat
          · exact absurd hpng hkind
          · exact hraw
        exact ⟨⟨⟨⟨⟨⟨⟨⟨⟨⟨⟨hend, hreserved⟩, hwide⟩, hhigh⟩, hwidth⟩, hheight⟩, hpixels⟩, hfilled⟩, hbytes⟩, hpng⟩, hraw⟩,
          hknown⟩
  · constructor
    · intro h
      exact absurd (parseCaptureTail_length h) hlength
    · intro h
      exact absurd h.whole (by omega)

/-- The two readers of a tail accept the same ones. -/
theorem captureTailValid_iff_parse : captureTailValid tail tail.length ↔ (parseCaptureTail tail).isSome :=
  captureTailValid_iff.trans parseCaptureTail_isSome_iff.symm

end Readers

section Producers

variable {width height : ℕ} {pixels : Bytes}

/-- A tail that both readers accept, of `height` rows of `width` pixels of four bytes: every number of its header is the
one that was computed, and the length that is told is its own. -/
structure Produced (width height : ℕ) (tail : Bytes) (tailLength : ℕ) : Prop where
  width : (decodeU32 (tail.drop 4)).toNat = width
  height : (decodeU32 (tail.drop 8)).toNat = height
  length : tail.length = tailLength
  served : captureTailValid tail tailLength
  parsed : (parseCaptureTail tail).isSome
  stride : (decodeU32 (tail.drop 12)).toNat = (decodeU32 (tail.drop 4)).toNat * 4
  byteLength : (decodeU32 (tail.drop 16)).toNat = (decodeU32 (tail.drop 12)).toNat * (decodeU32 (tail.drop 8)).toNat
  total : tailLength = captureHeaderSize + (decodeU32 (tail.drop 16)).toNat
  word : tailLength < 2 ^ 32

/-- A picture within the limits, behind its header. -/
theorem produced_of_le (hwide : width ≠ 0) (hhigh : height ≠ 0) (hwidth : width ≤ maxCaptureDimension)
    (hheight : height ≤ maxCaptureDimension) (harea : width * height ≤ maxCapturePixels)
    (hpixels : pixels.length = width * 4 * height) :
    Produced width height (captureHeader width height (width * 4) (width * 4 * height) ++ pixels)
      (captureHeaderSize + width * 4 * height) := by
  have hfour : maxCapturePixels * 4 = maxCaptureBytes := by decide
  have hbytes : captureHeaderSize + maxCaptureBytes < 2 ^ 32 := by decide
  have hdimension : maxCaptureDimension = 32768 := rfl
  have hheader : captureHeaderSize = 20 := rfl
  have hproduct : width * 4 * height = width * height * 4 := by ring
  have hpositive : 0 < width * height := Nat.mul_pos (Nat.pos_of_ne_zero hwide) (Nat.pos_of_ne_zero hhigh)
  have hword : ∀ value : ℕ, value < 2 ^ 32 → (BitVec.ofNat 32 value).toNat = value := fun value hvalue => by
    rw [BitVec.toNat_ofNat, Nat.mod_eq_of_lt hvalue]
  have hlength : (captureHeader width height (width * 4) (width * 4 * height) ++ pixels).length =
      captureHeaderSize + width * 4 * height := by
    rw [List.length_append, length_captureHeader, hpixels]
  have hvalid : captureTailValid (captureHeader width height (width * 4) (width * 4 * height) ++ pixels)
      (captureHeaderSize + width * 4 * height) := by
    rw [captureTailValid_captureHeader (by omega) (by omega) (by omega) (by omega)]
    exact ⟨by omega, hwide, hhigh, hwidth, hheight, harea, by omega, by omega,
      by rw [Nat.mod_eq_of_lt (by omega), hheader], Nat.le_refl _, rfl⟩
  have hw : decodeU32 ((captureHeader width height (width * 4) (width * 4 * height) ++ pixels).drop 4) =
      BitVec.ofNat 32 width := by
    simp [captureHeader, drop_field (length_encodeU16 _)]
  have hh : decodeU32 ((captureHeader width height (width * 4) (width * 4 * height) ++ pixels).drop 8) =
      BitVec.ofNat 32 height := by
    simp [captureHeader, drop_field (length_encodeU16 _), drop_field (length_encodeU32 _)]
  have hs : decodeU32 ((captureHeader width height (width * 4) (width * 4 * height) ++ pixels).drop 12) =
      BitVec.ofNat 32 (width * 4) := by
    simp [captureHeader, drop_field (length_encodeU16 _), drop_field (length_encodeU32 _)]
  have hl : decodeU32 ((captureHeader width height (width * 4) (width * 4 * height) ++ pixels).drop 16) =
      BitVec.ofNat 32 (width * 4 * height) := by
    simp [captureHeader, drop_field (length_encodeU16 _), drop_field (length_encodeU32 _)]
  constructor
  · rw [hw, hword _ (by omega)]
  · rw [hh, hword _ (by omega)]
  · exact hlength
  · exact hvalid
  · rw [← captureTailValid_iff_parse, hlength]
    exact hvalid
  · rw [hs, hw, hword _ (by omega), hword _ (by omega)]
  · rw [hl, hs, hh, hword _ (by omega), hword _ (by omega), hword _ (by omega)]
  · rw [hl, hword _ (by omega)]
  · omega

theorem length_convertedPixel (source : Bytes) (index format : ℕ) :
    (convertedPixel source index format).length = 4 := by
  unfold convertedPixel
  dsimp only
  split_ifs <;> rfl

theorem length_convertRow (source : Bytes) (width format : ℕ) :
    (convertRow source width format).length = width * 4 := by
  simp only [convertRow, List.length_flatMap, length_convertedPixel, List.map_const', List.length_range]
  exact List.sum_replicate_nat

/-- Every row that is read gives a row of the picture. -/
theorem encodeRows_length {pipe : ImagePipe} {stride format rows y : ℕ} {rest left : Bytes}
    (h : encodeRows pipe width stride format rows y rest = some (pixels, left)) :
    pixels.length = width * 4 * rows := by
  induction rows generalizing y rest pixels with
  | zero =>
    cases h
    rfl
  | succ rows ih =>
    unfold encodeRows at h
    split_ifs at h
    obtain ⟨⟨below, end'⟩, hbelow, h⟩ := Option.bind_eq_some_iff.mp h
    cases h
    rw [List.length_append, length_convertRow, ih hbelow]
    ring

theorem encodeCapture_produced {pipe : ImagePipe} {width height sourceStride sourceFormat : BitVec 32}
    {result : OperationResult} (h : encodeCapture pipe width height sourceStride sourceFormat = some result) :
    Produced width.toNat height.toNat result.tail result.tailLength := by
  have hfour : maxCapturePixels * 4 = maxCaptureBytes := by decide
  have hbytes : captureHeaderSize + maxCaptureBytes < 2 ^ 32 := by decide
  unfold encodeCapture at h
  dsimp only at h
  split_ifs at h with hrefused
  simp only [Bool.or_eq_true, beq_iff_eq, decide_eq_true_eq, not_or, not_lt] at hrefused
  obtain ⟨⟨⟨⟨⟨⟨⟨⟨⟨⟨⟨hwide, hhigh⟩, hwidth⟩, hheight⟩, harea⟩, -⟩, -⟩, -⟩, -⟩, -⟩, -⟩, -⟩ := hrefused
  obtain ⟨⟨pixels, left⟩, hrows, h⟩ := Option.bind_eq_some_iff.mp h
  dsimp only at h
  split_ifs at h
  cases h
  have hlength := encodeRows_length hrows
  have hproduct : width.toNat * 4 * height.toNat = width.toNat * height.toNat * 4 := by ring
  rw [Nat.mod_eq_of_lt (by omega)]
  have hproduced := produced_of_le hwide hhigh hwidth hheight harea hlength
  rw [← hproduced.length] at hproduced
  exact hproduced

/-- The header of a composed capture is written over the first bytes of its map. -/
theorem sealComposed_produced {calls : FileCalls} {map : Bytes} (hadmits : Compose.admits width height)
    (hmap : map.length = captureHeaderSize + width * 4 * height)
    (hok : (Compose.sealComposed calls width height map).result.status = Status.ok) :
    Produced width height (Compose.sealComposed calls width height map).contents
      (Compose.sealComposed calls width height map).result.tailLength := by
  have hfour : maxCapturePixels * 4 = maxCaptureBytes := by decide
  have hbytes : captureHeaderSize + maxCaptureBytes < 2 ^ 32 := by decide
  have hdimension : maxCaptureDimension = 32768 := rfl
  obtain ⟨hwide, hhigh, hwidth, hheight, harea⟩ := Compose.admits_iff.mp hadmits
  have hproduct : width * 4 * height = width * height * 4 := by ring
  have hpixels : (map.drop captureHeaderSize).length = width * 4 * height := by
    rw [List.length_drop, hmap, Nat.add_sub_cancel_left]
  have hproduced := produced_of_le hwide hhigh hwidth hheight harea hpixels
  unfold Compose.sealComposed at hok ⊢
  dsimp only at hok ⊢
  split_ifs at hok ⊢
  · cases hok
  rw [Compose.pixelLength_eq hadmits, Nat.mod_eq_of_lt (by omega), Nat.mod_eq_of_lt (by omega)] at hok ⊢
  split at hok
  · cases hok
  · rename_i result hresult
    unfold resultTakeFd at hresult
    split_ifs at hresult
    cases hresult
    unfold writeAt
    rw [length_captureHeader, List.take_zero, List.nil_append, Nat.zero_add]
    exact hproduced

theorem composeCapture_produced {calls : FileCalls} {request : Compose.Request} {segments : List Compose.Segment}
    {answer : CaptureAnswer} (h : Compose.composeCapture calls request segments = some answer)
    (hok : answer.result.status = Status.ok) :
    ∃ size, Compose.composedSize request segments = some size ∧
      Produced size.1 size.2 answer.contents answer.result.tailLength := by
  obtain ⟨⟨pixelWidth, pixelHeight⟩, hsize, h⟩ := Option.bind_eq_some_iff.mp h
  refine ⟨_, hsize, ?_⟩
  dsimp only at h ⊢
  split_ifs at h with hadmits
  · cases h
    cases hok
  · cases h
    cases hok
  · cases h
    cases hok
  simp only [Bool.not_eq_true', Bool.not_eq_false] at hadmits
  split at h
  · cases h
  · cases h
    cases hok
  · rename_i map hmap
    cases h
    have hlength : map.length = captureHeaderSize + pixelWidth * 4 * pixelHeight := by
      rw [← Compose.pixelLength_eq hadmits]
      exact Compose.foldlM_invariant
        (P := fun map => map.length = captureHeaderSize + Compose.pixelLength pixelWidth pixelHeight)
        (fun map segment map' hsegment hmap => (Compose.composeSegment_length hsegment).trans hmap) hmap
        List.length_replicate
    exact sealComposed_produced hadmits hlength hok

/-- One pixel with half of its light, from a pipe. -/
example :
    (encodeCapture ⟨[4, 6, 8, 128], fun _ => true, true⟩ 1 1 4 5).map (fun result => result.tail.drop 20) =
      some [2, 3, 4, 128] := by
  decide

/-- The service and the client accept the same tails, and both of them every tail that the encoder of a pipe's image or
the composer of segments answers with: a picture of the size that the image has, or that the segments are composed in. -/
theorem captureTail_agreed :
    (∀ tail : Bytes, tail.length ≤ maxCaptureTail →
      (captureTailValid tail tail.length ↔ (parseCaptureTail tail).isSome)) ∧
      (∀ pipe width height sourceStride sourceFormat result,
        encodeCapture pipe width height sourceStride sourceFormat = some result →
          Produced width.toNat height.toNat result.tail result.tailLength) ∧
      ∀ calls request segments answer, Compose.composeCapture calls request segments = some answer →
        answer.result.status = Status.ok → ∃ size, Compose.composedSize request segments = some size ∧
          Produced size.1 size.2 answer.contents answer.result.tailLength := by
  constructor
  · intro tail _
    exact captureTailValid_iff_parse
  · constructor
    · intro pipe width height sourceStride sourceFormat result h
      exact encodeCapture_produced h
    · intro calls request segments answer h hok
      exact composeCapture_produced h hok

/-- An image of two rows of two pixels, each row padded by four bytes. -/
def paddedPipe : ImagePipe := ⟨(List.range 24).map UInt8.ofNat, fun _ => true, true⟩

/-- Two outputs side by side, of which the second has twice the scale. -/
def scaledSegments : List Compose.Segment :=
  [⟨0, 0, 1, 1, 1, 1, 1, 1, 0, 0, 4, 0, 0, false, true, some [1, 2, 3, 4]⟩,
    ⟨1, 0, 1, 1, 2, 2, 2, 2, 0, 0, 8, 0, 0, false, false, some ((List.range 16).map UInt8.ofNat)⟩]

theorem captureTail_agreed_rows :
    (∃ result, encodeCapture paddedPipe 2 2 12 5 = some result ∧ Produced 2 2 result.tail result.tailLength) ∧
      ∃ answer, Compose.composeCapture fileCalls ⟨0, 0, 2, 1, by decide, by decide⟩ scaledSegments = some answer ∧
        ∃ size, size = (4, 2) ∧ Produced size.1 size.2 answer.contents answer.result.tailLength := by
  obtain ⟨-, hencoded, hcomposed⟩ := captureTail_agreed
  constructor
  · have hsome : (encodeCapture paddedPipe 2 2 12 5).isSome := by decide
    obtain ⟨result, hresult⟩ := Option.isSome_iff_exists.mp hsome
    exact ⟨result, hresult, hencoded paddedPipe 2 2 12 5 result hresult⟩
  · have hok : (Compose.composeCapture fileCalls ⟨0, 0, 2, 1, by decide, by decide⟩ scaledSegments).map
        (fun answer => answer.result.status) = some Status.ok := by decide +kernel
    obtain ⟨answer, hanswer, hstatus⟩ := Option.map_eq_some_iff.mp hok
    obtain ⟨size, hsize, hproduced⟩ := hcomposed fileCalls _ scaledSegments answer hanswer hstatus
    refine ⟨answer, hanswer, size, ?_, hproduced⟩
    have hfour : Compose.composedSize ⟨0, 0, 2, 1, by decide, by decide⟩ scaledSegments = some (4, 2) := by
      decide +kernel
    rw [hfour] at hsize
    exact (Option.some.inj hsize).symm

end Producers

end KeysharpDesktop.Capture
