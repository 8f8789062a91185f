import KeysharpDesktop.Lib.JsNumber
import KeysharpDesktop.Provider.Frames

/-! The damaged area of an image overlay's frame, as it comes from the client, and the bytes that an upload of it
reads: they are inside the frame, and the frame is inside the mapping. -/
namespace KeysharpDesktop.Shell

open JsNumber

/-- An element of the damage, with what `Number` makes of one that is no number: it may throw. -/
inductive Element where
  | number (n : Number)
  | other (converted : Option Number)

def Element.toNumber : Element → Option Number
  | number n => some n
  | other converted => converted

/-- The damage of a call: an array, or no array at all. -/
inductive Damage where
  | array (elements : List Element)
  | other

section Area

def emptyArea : Area := ⟨0, 0, 0, 0⟩

/-- The area of a rectangle of integers, whose far corner is computed in doubles. -/
def clipped (x y width height pixelWidth pixelHeight : ℤ) : Area :=
  let left := max 0 x
  let top := max 0 y
  let right := (JsNumber.round (x + width)).min pixelWidth
  let bottom := (JsNumber.round (y + height)).min pixelHeight
  match right, bottom with
  | .finite right, .finite bottom =>
    if left < right ∧ top < bottom then ⟨left, top, right - left, bottom - top⟩ else emptyArea
  | _, _ => emptyArea

/-- The four numbers of the damage, or those of the frame. -/
def Damage.numbers (pixelWidth pixelHeight : ℤ) : Damage → Option (Number × Number × Number × Number)
  | array [x, y, width, height] => do
    let x ← x.toNumber
    let y ← y.toNumber
    let width ← width.toNumber
    let height ← height.toNumber
    some (x, y, width, height)
  | _ => some (.finite 0, .finite 0, .finite pixelWidth, .finite pixelHeight)

/-- Nothing where a conversion throws. -/
def Damage.frameArea (damage : Damage) (pixelWidth pixelHeight : ℤ) : Option Area := do
  let (x, y, width, height) ← damage.numbers pixelWidth pixelHeight
  match x.integer?, y.integer?, width.integer?, height.integer? with
  | some x, some y, some width, some height =>
    if width ≤ 0 ∨ height ≤ 0 then some emptyArea else some (clipped x y width height pixelWidth pixelHeight)
  | _, _, _, _ => some emptyArea

def maxOverlayStrideBytes : ℤ := maxOverlayPixels * 4

/-- `_validOverlayGeometry` on any two numbers. -/
def validGeometry (width height : Number) : Bool :=
  match width.integer?, height.integer? with
  | some width, some height =>
    decide (0 < width) && decide (0 < height) && decide (width ≤ maxOverlayDimension) &&
      decide (height ≤ maxOverlayDimension) && (JsNumber.round (width * height)).le maxOverlayPixels
  | _, _ => false

/-- What `_showImageOverlay` checks of a frame. -/
def admitsFrame (pixelWidth pixelHeight stride : Number) : Bool :=
  validGeometry pixelWidth pixelHeight &&
    match pixelWidth.integer?, pixelHeight.integer?, stride.integer? with
    | some width, some height, some stride =>
      decide (Safe stride) && (JsNumber.round (width * 4)).le stride &&
        (JsNumber.round (stride * height)).le maxOverlayStrideBytes
    | _, _, _ => false

/-- The first byte that an upload reads, and how many. -/
def areaOffset (area : Area) (stride : ℤ) : ℤ := area.y * stride + area.x * 4

def areaLength (area : Area) (stride : ℤ) : ℤ :=
  if 0 < area.width ∧ 0 < area.height then (area.height - 1) * stride + area.width * 4 else 0

end Area

section Frame

variable {width height stride : ℤ} {area : Area}

/-- A frame that the checks admit. -/
structure Admitted (width height stride : ℤ) : Prop where
  width_pos : 0 < width
  height_pos : 0 < height
  width_le : width ≤ 8192
  height_le : height ≤ 8192
  stride_ge : width * 4 ≤ stride
  bytes_le : stride * height ≤ 2 ^ 26

theorem safe_of_small {v : ℤ} (hlow : -2 ^ 26 ≤ v) (hhigh : v ≤ 2 ^ 26) : Safe v := by
  unfold Safe maxSafeInteger
  omega

theorem Admitted.stride_le (h : Admitted width height stride) : stride ≤ 2 ^ 26 := by
  have hnonneg : 0 ≤ stride := by
    have hwidth := h.width_pos
    have hstride := h.stride_ge
    omega
  have hone : stride * 1 ≤ stride * height := Int.mul_le_mul_of_nonneg_left h.height_pos hnonneg
  have hbytes := h.bytes_le
  omega

theorem admitted_of_valid (hgeometry : validOverlayGeometry width height) (hstride : width * 4 ≤ stride)
    (hbytes : stride * height ≤ maxOverlayPixels * 4) : Admitted width height stride := by
  simp only [validOverlayGeometry, Bool.and_eq_true, decide_eq_true_eq] at hgeometry
  obtain ⟨⟨⟨⟨hwidth, hheight⟩, hmaxWidth⟩, hmaxHeight⟩, -⟩ := hgeometry
  exact ⟨hwidth, hheight, hmaxWidth, hmaxHeight, hstride, hbytes⟩

/-- In doubles the checks are those of the exact products. -/
theorem admitsFrame_iff (pixelWidth pixelHeight pixelStride : Number) :
    admitsFrame pixelWidth pixelHeight pixelStride ↔ ∃ width height stride : ℤ,
      pixelWidth.integer? = some width ∧ pixelHeight.integer? = some height ∧ pixelStride.integer? = some stride ∧
        validOverlayGeometry width height ∧ width * 4 ≤ stride ∧ stride * height ≤ maxOverlayPixels * 4 := by
  have hpixels : Safe maxOverlayPixels := by decide
  have hbytes : Safe maxOverlayStrideBytes := by decide
  unfold admitsFrame validGeometry
  cases pixelWidth.integer? with
  | none => simp
  | some width =>
    cases pixelHeight.integer? with
    | none => simp
    | some height =>
      cases pixelStride.integer? with
      | none => simp
      | some stride =>
        have hgeometry : (decide (0 < width) && decide (0 < height) && decide (width ≤ maxOverlayDimension) &&
            decide (height ≤ maxOverlayDimension) && (JsNumber.round (width * height)).le maxOverlayPixels) =
            validOverlayGeometry width height := by
          rw [round_le hpixels, validOverlayGeometry]
        simp only [hgeometry, round_le hbytes, Bool.and_eq_true, decide_eq_true_eq, Option.some.injEq,
          exists_eq_left', exists_and_left]
        constructor
        · rintro ⟨hvalid, ⟨hsafe, hstride⟩, hlimit⟩
          rw [round_le hsafe, decide_eq_true_eq] at hstride
          exact ⟨hvalid, hstride, hlimit⟩
        · rintro ⟨hvalid, hstride, hlimit⟩
          have hadmitted := admitted_of_valid hvalid hstride hlimit
          have hsafe : Safe stride := by
            have hwidth := hadmitted.width_pos
            exact safe_of_small (by omega) hadmitted.stride_le
          rw [round_le hsafe, decide_eq_true_eq]
          exact ⟨hvalid, ⟨hsafe, hstride⟩, hlimit⟩

end Frame

section Clipping

variable {x y width height pixelWidth pixelHeight : ℤ} {area : Area}

/-- Either nothing, or some of the frame. -/
def Area.Inside (area : Area) (pixelWidth pixelHeight : ℤ) : Prop :=
  area = emptyArea ∨ (0 ≤ area.x ∧ 0 < area.width ∧ area.x + area.width ≤ pixelWidth) ∧
    0 ≤ area.y ∧ 0 < area.height ∧ area.y + area.height ≤ pixelHeight

def Area.Covers (area : Area) (i j : ℤ) : Prop :=
  (area.x ≤ i ∧ i < area.x + area.width) ∧ area.y ≤ j ∧ j < area.y + area.height

/-- A far corner in doubles is the exact one, unless the rectangle ends far before the frame. -/
theorem corner_cases {v limit : ℤ} (h : Safe limit) :
    (JsNumber.round v).min limit = .finite (min limit v) ∨ v < 0 ∧ ((JsNumber.round v).min limit = .below ∨
      ∃ w < 0, (JsNumber.round v).min limit = .finite w) := by
  obtain heq | ⟨hv, hbelow | ⟨w, hw, heq⟩⟩ := round_min h
  · exact Or.inl heq
  · right
    unfold maxSafeInteger at hv
    exact ⟨by omega, Or.inl hbelow⟩
  · right
    unfold maxSafeInteger at hv hw
    exact ⟨by omega, Or.inr ⟨w, by omega, heq⟩⟩

/-- In doubles the area is that of the exact corners. -/
theorem clipped_eq (hwidth : Safe pixelWidth) (hheight : Safe pixelHeight) :
    clipped x y width height pixelWidth pixelHeight =
      if max 0 x < min pixelWidth (x + width) ∧ max 0 y < min pixelHeight (y + height) then
        ⟨max 0 x, max 0 y, min pixelWidth (x + width) - max 0 x, min pixelHeight (y + height) - max 0 y⟩
      else emptyArea := by
  unfold clipped
  dsimp only
  obtain hright | ⟨hv, hright | ⟨w, hw, hright⟩⟩ := corner_cases (v := x + width) hwidth
  · obtain hbottom | ⟨hv, hbottom | ⟨w, hw, hbottom⟩⟩ := corner_cases (v := y + height) hheight
    · rw [hright, hbottom]
    · rw [hright, hbottom, if_neg (by omega)]
    · rw [hright, hbottom]
      dsimp only
      rw [if_neg (by omega), if_neg (by omega)]
  · rw [hright, if_neg (by omega)]
  · rw [hright, if_neg (by omega)]
    cases (JsNumber.round (y + height)).min pixelHeight with
    | finite bottom =>
      dsimp only
      rw [if_neg (by omega)]
    | below => rfl
    | above => rfl

theorem clipped_inside (hwidth : Safe pixelWidth) (hheight : Safe pixelHeight) :
    (clipped x y width height pixelWidth pixelHeight).Inside pixelWidth pixelHeight := by
  rw [clipped_eq hwidth hheight]
  split_ifs with h
  · right
    dsimp only
    omega
  · exact Or.inl rfl

/-- The pixels of the area are those of the rectangle that are in the frame. -/
theorem clipped_covers (hwidth : Safe pixelWidth) (hheight : Safe pixelHeight) (i j : ℤ) :
    (clipped x y width height pixelWidth pixelHeight).Covers i j ↔
      ((x ≤ i ∧ i < x + width) ∧ y ≤ j ∧ j < y + height) ∧ (0 ≤ i ∧ i < pixelWidth) ∧ 0 ≤ j ∧ j < pixelHeight := by
  rw [clipped_eq hwidth hheight]
  split_ifs with h
  · unfold Area.Covers
    dsimp only
    omega
  · unfold Area.Covers emptyArea
    dsimp only
    omega

theorem emptyArea_covers (i j : ℤ) : ¬emptyArea.Covers i j := by
  unfold Area.Covers emptyArea
  dsimp only
  omega

theorem Damage.frameArea_inside {damage : Damage} (hwidth : Safe pixelWidth) (hheight : Safe pixelHeight)
    (h : damage.frameArea pixelWidth pixelHeight = some area) : area.Inside pixelWidth pixelHeight := by
  obtain ⟨⟨x, y, w, v⟩, -, h⟩ := Option.bind_eq_some_iff.mp h
  dsimp only at h
  split at h
  · split_ifs at h
    · cases h
      exact Or.inl rfl
    · rw [← Option.some.inj h]
      exact clipped_inside hwidth hheight
  · cases h
    exact Or.inl rfl

def integerDamage (x y width height : ℤ) : Damage :=
  .array [.number (.finite x), .number (.finite y), .number (.finite width), .number (.finite height)]

theorem integer?_cast (v : ℤ) : Number.integer? (.finite v) = some v := by
  simp [Number.integer?, Rat.isInt]

theorem Damage.frameArea_integer (hwidth : Safe pixelWidth) (hheight : Safe pixelHeight) :
    ∃ area, (integerDamage x y width height).frameArea pixelWidth pixelHeight = some area ∧ ∀ i j, area.Covers i j ↔
      ((x ≤ i ∧ i < x + width) ∧ y ≤ j ∧ j < y + height) ∧ (0 ≤ i ∧ i < pixelWidth) ∧ 0 ≤ j ∧ j < pixelHeight := by
  simp only [Damage.frameArea, integerDamage, Damage.numbers, Element.toNumber, Option.bind_eq_bind, Option.bind_some,
    integer?_cast]
  split_ifs with hempty
  · refine ⟨emptyArea, rfl, fun i j => ?_⟩
    apply iff_of_false (emptyArea_covers i j)
    omega
  · exact ⟨_, rfl, clipped_covers hwidth hheight⟩

end Clipping

section Bytes

variable {width height stride : ℤ} {area : Area}

/-- Every product and every sum that the upload of an area computes is a safe integer. -/
structure SafeProducts (area : Area) (width height stride : ℤ) : Prop where
  pixels : Safe (width * height)
  row : Safe (width * 4)
  frame : Safe (stride * height)
  rows : Safe (area.y * stride)
  columns : Safe (area.x * 4)
  offset : Safe (areaOffset area stride)
  span : Safe ((area.height - 1) * stride)
  last : Safe (area.width * 4)
  length : Safe (areaLength area stride)

/-- The last row of an upload ends within the frame, though it is shorter than the stride. -/
theorem Area.Inside.bytes (h : Admitted width height stride) (harea : area.Inside width height) :
    (0 ≤ areaOffset area stride ∧ 0 ≤ areaLength area stride ∧
      areaOffset area stride + areaLength area stride ≤ stride * height) ∧ SafeProducts area width height stride := by
  obtain ⟨hwidth, hheight, hmaxWidth, hmaxHeight, hstride, hbytes⟩ := h
  have hnonneg : 0 ≤ stride := by omega
  have hpixels : width * 4 * height ≤ stride * height := Int.mul_le_mul_of_nonneg_right hstride hheight.le
  have hpixelsEq : width * 4 * height = 4 * (width * height) := by ring
  have hpixelsPos : 0 ≤ width * height := Int.mul_nonneg hwidth.le hheight.le
  have hframePos : 0 ≤ stride * height := Int.mul_nonneg hnonneg hheight.le
  have hpixelsSafe : Safe (width * height) := safe_of_small (by omega) (by omega)
  have hrowSafe : Safe (width * 4) := safe_of_small (by omega) (by omega)
  have hframeSafe : Safe (stride * height) := safe_of_small (by omega) hbytes
  have hheightEq : stride * height = (height - 1) * stride + stride := by ring
  obtain rfl | ⟨⟨hx, hw, hright⟩, hy, hv, hbottom⟩ := harea
  · have hoffset : areaOffset emptyArea stride = 0 := by simp [areaOffset, emptyArea]
    have hlength : areaLength emptyArea stride = 0 := by simp [areaLength, emptyArea]
    have hlastStride : stride ≤ stride * height := by
      have hrows : 0 ≤ (height - 1) * stride := Int.mul_nonneg (by omega) hnonneg
      omega
    refine ⟨⟨by omega, by omega, by omega⟩, hpixelsSafe, hrowSafe, hframeSafe, ?_, ?_, ?_, ?_, ?_, ?_⟩
    · exact safe_of_small (by simp [emptyArea]) (by simp [emptyArea])
    · exact safe_of_small (by simp [emptyArea]) (by simp [emptyArea])
    · exact safe_of_small (by omega) (by omega)
    · have hspan : (emptyArea.height - 1) * stride = -stride := by simp [emptyArea]
      rw [hspan]
      exact safe_of_small (by omega) (by omega)
    · exact safe_of_small (by simp [emptyArea]) (by simp [emptyArea])
    · exact safe_of_small (by omega) (by omega)
  · have hrows : 0 ≤ area.y * stride := Int.mul_nonneg hy hnonneg
    have hspan : 0 ≤ (area.height - 1) * stride := Int.mul_nonneg (by omega) hnonneg
    have hlast : (area.y + (area.height - 1)) * stride ≤ (height - 1) * stride :=
      Int.mul_le_mul_of_nonneg_right (by omega) hnonneg
    have hsum : (area.y + (area.height - 1)) * stride = area.y * stride + (area.height - 1) * stride := by ring
    have hoffset : areaOffset area stride = area.y * stride + area.x * 4 := rfl
    have hlength : areaLength area stride = (area.height - 1) * stride + area.width * 4 := if_pos ⟨hw, hv⟩
    have hend : areaOffset area stride + areaLength area stride ≤ stride * height := by omega
    refine ⟨⟨by omega, by omega, hend⟩, hpixelsSafe, hrowSafe, hframeSafe, ?_, ?_, ?_, ?_, ?_, ?_⟩
    all_goals exact safe_of_small (by omega) (by omega)

end Bytes

section Mapping

variable {t u : Overlays} {c : ImageCall} {file : Option MappedFile} {shared : SharedFrame} {area : Area}

def SharedFrame.Long (shared : SharedFrame) : Prop := shared.stride * shared.height ≤ shared.mapped.length

/-- No overlay is drawn from a mapping that is shorter than its frame. -/
def Overlays.Mapped (t : Overlays) : Prop := ∀ key o, t.imageOverlays.lookup key = some o → o.shared.Long

theorem Overlays.Mapped.of_images (h : t.Mapped) (himages : u.imageOverlays = t.imageOverlays) : u.Mapped := by
  unfold Overlays.Mapped
  rw [himages]
  exact h

theorem Overlays.Mapped.within (h : t.Mapped) (hwithin : u.Within t) : u.Mapped := by
  intro key o ho
  obtain ⟨o', ho', -, -, hshared, -⟩ := hwithin.image key o ho
  rw [← hshared]
  exact h key o' ho'

theorem Overlays.Mapped.insertImage (h : t.Mapped) (key : String) {o : ImageOverlay} (ho : o.shared.Long) :
    Overlays.Mapped { t with imageOverlays := t.imageOverlays.insert key o } := by
  intro other o' ho'
  obtain ⟨-, rfl⟩ | ⟨-, ho'⟩ := Table.lookup_insert.mp ho'
  · exact ho
  · exact h other o' ho'

theorem Overlays.Mapped.setShared (h : t.Mapped) (key : String) (hshared : shared.Long) :
    (t.setShared key shared).Mapped := by
  unfold Overlays.setShared
  cases t.imageOverlays.lookup key with
  | none => exact h
  | some entry => exact h.insertImage key hshared

/-- What is mapped for a frame is long enough for it. -/
theorem mapFrame_long {existing : Option SharedFrame} (h : ∀ old, existing = some old → old.Long)
    (hmap : mapFrame existing file c = some (shared, area)) : shared.Long := by
  unfold mapFrame at hmap
  cases hfilter : existing.filter fun shared => shared.Fits c with
  | some old =>
    rw [hfilter] at hmap
    cases hmap
    exact h _ (Option.filter_eq_some_iff.mp hfilter).1
  | none =>
    rw [hfilter] at hmap
    cases file with
    | none => cases hmap
    | some mapped =>
      dsimp only at hmap
      split_ifs at hmap with hshort
      cases hmap
      exact Int.not_lt.mp hshort

theorem Overlays.Mapped.existing (h : t.Mapped) (key : String) :
    ∀ old, (t.imageOverlays.lookup key).map ImageOverlay.shared = some old → old.Long := by
  intro old hold
  obtain ⟨o, ho, rfl⟩ := Option.map_eq_some_iff.mp hold
  exact h key o ho

theorem Overlays.Mapped.ensure (h : t.Mapped) : t.ensureOverlayCleanupTimer.Mapped :=
  h.of_images (ensureOverlayCleanupTimer_imageOverlays t)

theorem createImageOverlay_mapped (h : t.Mapped) (c : ImageCall) (hshared : shared.Long) (area : Area) :
    (createImageOverlay t c shared area).1.Mapped := by
  unfold createImageOverlay
  cases updateImageActor newActor shared area c.create with
  | none => exact h
  | some result => exact (h.insertImage c.key hshared).ensure

theorem presentImageOverlay_mapped (h : t.Mapped) (c : ImageCall) (file : Option MappedFile) :
    (presentImageOverlay t c file).1.Mapped := by
  unfold presentImageOverlay
  cases hmap : mapFrame ((t.imageOverlays.lookup c.key).map ImageOverlay.shared) file c with
  | none => exact h
  | some result =>
    obtain ⟨shared, area⟩ := result
    have hshared := mapFrame_long (h.existing c.key) hmap
    have hset := h.setShared c.key hshared
    dsimp only
    split_ifs
    · cases hfound : (t.setShared c.key shared).imageOverlays.lookup c.key with
      | none => exact createImageOverlay_mapped hset c hshared area
      | some entry =>
        dsimp only
        cases updateImageActor entry.actor shared area c.update with
        | none =>
          have hremoved := hset.within (removeImageOverlayByKey_reduces _ c.key).within
          exact createImageOverlay_mapped hremoved c hshared area
        | some result =>
          obtain ⟨actor, drawn⟩ := result
          have hentry : entry.shared.Long := hset c.key entry hfound
          have hinsert := hset.insertImage (o := { entry with
            owner := c.owner, busName := c.busName, frameBytes := shared.bytes, actor }) c.key hentry
          exact hinsert.ensure
    · exact hset

theorem showImageOverlay_mapped (h : t.Mapped) (c : ImageCall) : (showImageOverlay t c).1.Mapped := by
  have hcancel := h.within (cancelOverlayReconnectTimer_reduces t c.owner).within
  unfold showImageOverlay
  dsimp only
  split_ifs
  · cases c.frame with
    | none => exact hcancel
    | some file => exact presentImageOverlay_mapped hcancel c file
  · exact hcancel

theorem overlayCall_mapped (h : t.Mapped) (call : OverlayCall) : (overlayCall t call).Mapped := by
  cases call with
  | registerOwner owner bus alive => exact h.within (registerHighlightOwner_reduces alive t owner bus).within
  | showHighlight id owner busName width height throws =>
    exact h.of_images (showHighlight_imageOverlays t id owner busName width height throws)
  | hideHighlight id owner => exact h.within (hideHighlight_reduces t id owner).within
  | showImage call => exact showImageOverlay_mapped h call
  | moveImage id owner width height => exact h
  | clearImage key => exact h.within (clearImageOverlay_reduces t key).within
  | hideImage id owner => exact h.within (hideImageOverlay_reduces t id owner).within
  | showTooltip supportsTooltip slot owner busName textLength throws =>
    exact h.of_images (showTooltip_imageOverlays t supportsTooltip slot owner busName textLength throws)
  | hideTooltip supportsTooltip slot owner => exact h.within (hideTooltip_reduces t supportsTooltip slot owner).within
  | nameOwnerChanged name oldOwner newOwner alive =>
    exact h.within (handleNameOwnerChanged_reduces alive t name oldOwner newOwner).within
  | reconnectFires owner alive => exact h.within (reconnectFires_reduces alive t owner).within
  | cleanupFires alive => exact h.within (cleanupFires_reduces alive t).within

theorem overlays_mapped (calls : List OverlayCall) : (calls.foldl overlayCall .start).Mapped := by
  refine (Transition.Run.foldl overlayCall .start calls).invariant ?_ ?_
  · intro t call u h hstep
    rw [← hstep]
    exact overlayCall_mapped h call
  · intro key o ho
    simp [Overlays.start] at ho

end Mapping

section Regions

variable {width height : ℤ} {damage : Damage}

/-- The damage as the frame's area reads it: absent, or a rectangle of integers, which is empty where the numbers are
no integers. -/
def Damage.rectangle : Damage → Option (Option Area)
  | array [x, y, width, height] => do
    let x ← x.toNumber
    let y ← y.toNumber
    let width ← width.toNumber
    let height ← height.toNumber
    match x.integer?, y.integer?, width.integer?, height.integer? with
    | some x, some y, some width, some height => some (some ⟨x, y, width, height⟩)
    | _, _, _, _ => some (some emptyArea)
  | _ => some none

theorem frameArea_clipped (hwidth : Safe width) (hheight : Safe height) (x y w v : ℤ) :
    (if w ≤ 0 ∨ v ≤ 0 then emptyArea else clipped x y w v width height) =
      frameArea (some ⟨x, y, w, v⟩) width height := by
  rw [clipped_eq hwidth hheight]
  rfl

theorem frameArea_whole (hwidth : Safe width) (hheight : Safe height) :
    (do
      let (x, y, w, v) ← (Damage.other.numbers width height)
      match x.integer?, y.integer?, w.integer?, v.integer? with
      | some x, some y, some w, some v =>
        if w ≤ 0 ∨ v ≤ 0 then some emptyArea else some (clipped x y w v width height)
      | _, _, _, _ => some emptyArea) = some (Shell.frameArea none width height) := by
  have hzero := integer?_cast 0
  rw [Int.cast_zero] at hzero
  have hclipped := frameArea_clipped hwidth hheight 0 0 width height
  simp only [Damage.numbers, Option.bind_eq_bind, Option.bind_some, hzero, integer?_cast]
  rw [← apply_ite some, hclipped]
  rfl

/-- The area in doubles is the area of integers. -/
theorem Damage.frameArea_eq (hwidth : Safe width) (hheight : Safe height) (damage : Damage) :
    damage.frameArea width height = damage.rectangle.map fun rectangle => Shell.frameArea rectangle width height := by
  have hwhole := frameArea_whole hwidth hheight
  cases damage with
  | other => exact hwhole
  | array elements =>
    rcases elements with _ | ⟨x, _ | ⟨y, _ | ⟨w, _ | ⟨v, _ | ⟨z, elements⟩⟩⟩⟩⟩
    · exact hwhole
    · exact hwhole
    · exact hwhole
    · exact hwhole
    · simp only [Damage.frameArea, Damage.numbers, Damage.rectangle]
      cases x.toNumber with
      | none => rfl
      | some x =>
        cases y.toNumber with
        | none => rfl
        | some y =>
          cases w.toNumber with
          | none => rfl
          | some w =>
            cases v.toNumber with
            | none => rfl
            | some v =>
              simp only [Option.bind_eq_bind, Option.bind_some]
              split
              · next x y w v _ _ _ _ =>
                rw [← apply_ite some, frameArea_clipped hwidth hheight x y w v]
                rfl
              · rfl
    · exact hwhole

end Regions

/-- For a frame that is admitted, in any run: the area of any damage is inside the frame; for integers it covers what
the damage and the frame share; the bytes that an upload reads are in the frame, with no operation beyond the safe
integers; and the frame is in the mapping that it is drawn from. -/
theorem areaPixels_inside {pixelWidth pixelHeight pixelStride : Number}
    (h : admitsFrame pixelWidth pixelHeight pixelStride) (calls : List OverlayCall) :
    ∃ width height stride : ℤ, pixelWidth.integer? = some width ∧ pixelHeight.integer? = some height ∧
      pixelStride.integer? = some stride ∧
      (∀ damage area, Damage.frameArea damage width height = some area → area.Inside width height) ∧
      (∀ x y w v : ℤ, ∃ area, (integerDamage x y w v).frameArea width height = some area ∧ ∀ i j, area.Covers i j ↔
        ((x ≤ i ∧ i < x + w) ∧ y ≤ j ∧ j < y + v) ∧ (0 ≤ i ∧ i < width) ∧ 0 ≤ j ∧ j < height) ∧
      (∀ area, Area.Inside area width height →
        (0 ≤ areaOffset area stride ∧ 0 ≤ areaLength area stride ∧
          areaOffset area stride + areaLength area stride ≤ stride * height) ∧
        SafeProducts area width height stride) ∧
      ∀ (c : ImageCall) (damage : Damage) (key : String) (file : Option MappedFile) (shared : SharedFrame)
        (area : Area), (c.pixelWidth = width ∧ c.pixelHeight = height ∧ c.stride = stride) →
        damage.rectangle = some c.damage →
        mapFrame (((calls.foldl overlayCall .start).imageOverlays.lookup key).map ImageOverlay.shared) file c =
            some (shared, area) →
        area.Inside width height ∧ (some area = damage.frameArea width height ∨ area = ⟨0, 0, width, height⟩) ∧
          stride * height ≤ shared.mapped.length := by
  obtain ⟨width, height, stride, hw, hv, hs, hvalid, hstride, hlimit⟩ := (admitsFrame_iff _ _ _).mp h
  have hadmitted := admitted_of_valid hvalid hstride hlimit
  have hwidthPos := hadmitted.width_pos
  have hwidthLe := hadmitted.width_le
  have hheightPos := hadmitted.height_pos
  have hheightLe := hadmitted.height_le
  have hwidth : Safe width := safe_of_small (by omega) (by omega)
  have hheight : Safe height := safe_of_small (by omega) (by omega)
  refine ⟨width, height, stride, hw, hv, hs, ?_, ?_, ?_, ?_⟩
  · exact fun damage area harea => damage.frameArea_inside hwidth hheight harea
  · exact fun x y w v => Damage.frameArea_integer hwidth hheight
  · exact fun area harea => harea.bytes hadmitted
  · rintro c damage key file shared area ⟨rfl, rfl, rfl⟩ hrectangle hmap
    have hlong := mapFrame_long ((overlays_mapped calls).existing key) hmap
    have hdamage := Damage.frameArea_eq hwidth hheight damage
    rw [hrectangle, Option.map_some] at hdamage
    obtain ⟨⟨-, hw, hv, hs⟩, hkind⟩ := mapFrame_cases hmap
    have hbytes : c.stride * c.pixelHeight ≤ shared.mapped.length := by
      rw [← hs, ← hv]
      exact hlong
    obtain ⟨-, harea⟩ | ⟨-, harea, -⟩ := hkind
    · rw [harea]
      exact ⟨damage.frameArea_inside hwidth hheight hdamage, Or.inl hdamage.symm, hbytes⟩
    · have hwhole : area = ⟨0, 0, c.pixelWidth, c.pixelHeight⟩ := by
        rw [harea, SharedFrame.whole, hw, hv]
      refine ⟨Or.inr ?_, Or.inr hwhole, hbytes⟩
      rw [hwhole]
      dsimp only
      omega

/-- Damage that begins to the left of the frame and ends below it. -/
theorem areaPixels_inside_clipped :
    ∃ area, (integerDamage (-2) 3 5 10).frameArea 8 8 = some area ∧ ∀ i j, area.Covers i j ↔
      ((-2 ≤ i ∧ i < -2 + 5) ∧ 3 ≤ j ∧ j < 3 + 10) ∧ (0 ≤ i ∧ i < 8) ∧ 0 ≤ j ∧ j < 8 := by
  have hinteger : Number.integer? (.finite 8) = some 8 := by decide
  have hadmits : admitsFrame (.finite 8) (.finite 8) (.finite 32) :=
    (admitsFrame_iff _ _ _).mpr ⟨8, 8, 32, hinteger, hinteger, by decide, by decide, by decide, by decide⟩
  obtain ⟨width, height, stride, hw, hv, hs, -, hcovers, -⟩ := areaPixels_inside hadmits []
  rw [hinteger] at hw hv
  obtain rfl := Option.some.inj hw
  obtain rfl := Option.some.inj hv
  exact hcovers (-2) 3 5 10

/-- A rectangle of fractions is no area, though it meets the frame in whole pixels. -/
theorem frameArea_fractions :
    ¬∀ (width height : ℤ) (x y w v : ℚ) (left top right bottom : ℤ), validOverlayGeometry width height →
      (left : ℚ) = max 0 x → (top : ℚ) = max 0 y → (right : ℚ) = min (width : ℚ) (x + w) →
      (bottom : ℚ) = min (height : ℚ) (y + v) → left < right → top < bottom →
      Damage.frameArea (.array [.number (.finite x), .number (.finite y), .number (.finite w), .number (.finite v)])
        width height = some ⟨left, top, right - left, bottom - top⟩ := by
  intro h
  have harea := h 8 8 (-1 / 2) 0 (21 / 2) 5 0 0 8 5 (by decide) (by decide +kernel) (by decide +kernel)
    (by decide +kernel) (by decide +kernel) (by decide) (by decide)
  have hempty : Damage.frameArea (.array [.number (.finite (-1 / 2)), .number (.finite 0), .number (.finite (21 / 2)),
      .number (.finite 5)]) 8 8 = some emptyArea := by
    have hfraction : Number.integer? (.finite (-1 / 2)) = none := by decide +kernel
    simp only [Damage.frameArea, Damage.numbers, Element.toNumber, Option.bind_eq_bind, Option.bind_some, hfraction]
  rw [hempty] at harea
  exact absurd harea (by decide)

end KeysharpDesktop.Shell
