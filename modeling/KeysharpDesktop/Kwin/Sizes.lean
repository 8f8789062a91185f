import Mathlib.Tactic.Ring
import KeysharpDesktop.Kwin.RoundTrip

/-! How long the script's answers are: what the desktop shows says how many bytes a batch comes to. -/
namespace KeysharpDesktop.KwinScript

open JsText (Text)

section Model

/-- A window whose texts are well formed. -/
structure Window.WellFormed (window : Window) : Prop where
  internalId : JsText.WellFormed (window.internalId.getD [])
  caption : JsText.WellFormed (window.caption.getD [])
  resourceClass : JsText.WellFormed (window.resourceClass.getD [])
  desktopFileName : JsText.WellFormed (window.desktopFileName.getD [])
  resourceName : JsText.WellFormed (window.resourceName.getD [])

structure Desktop.WellFormed (desktop : Desktop) : Prop where
  windows : ∀ window ∈ desktop.windows, window.WellFormed
  active : ∀ window, desktop.activeWindow = some window → window.WellFormed

def numberSize (n : ℤ) : ℕ := (signedText n).length

/-- How long a number is that the script rounds. -/
def roundedSize (x : JsNumber.Number) : ℕ := (roundedText x).length

/-- Pieces with commas between them. -/
def commasSize : List ℕ → ℕ
  | [] => 0
  | [size] => size
  | size :: sizes => size + (1 + commasSize sizes)

def areaSize (area : Area) : ℕ :=
  30 + (roundedSize (.finite area.x) + roundedSize (.finite area.y) + roundedSize (.finite area.width) +
    roundedSize (.finite area.height))

def truthSize (b : Bool) : ℕ := if b then 4 else 5

/-- The record of a window by its title, its class, its ids and its numbers; the rest of it is fixed. -/
def windowSize (window : Window) (handle : Text) : ℕ :=
  let geometry := (window.frameGeometry <|> window.geometry).getD nowhere
  182 + commasSize ((validFields window).map JsText.quotedSize) + JsText.quotedSize handle +
    JsText.quotedSize (window.internalId.getD []) + JsText.quotedSize (window.caption.getD []) +
    JsText.quotedSize ((appId window).getD []) + numberSize (max 0 (window.pid.getD 0)) +
    (areaSize geometry + areaSize geometry + areaSize (window.bufferGeometry.getD nowhere)) +
    (truthSize (truthy window.minimized) + truthSize (truthy window.active) +
      truthSize (truthy (maximizedState window)) +
      truthSize (!(truthy window.hidden || truthy window.minimized)) + truthSize (truthy window.keepAbove) +
      truthSize (!truthy window.noBorder)) +
    roundedSize (transparency window)

def listSize (named : List (Window × Text)) : ℕ :=
  24 + commasSize (named.map fun (window, handle) => windowSize window handle)

def handlesSize (named : List (Window × Text)) : ℕ :=
  24 + commasSize (named.map fun (_, handle) => JsText.quotedSize handle)

def shownSize : Option (Window × Text) → ℕ
  | some (window, handle) => 21 + windowSize window handle
  | none => 25

def pointSize (point : ℚ × ℚ) : ℕ := 11 + (roundedSize (.finite point.1) + roundedSize (.finite point.2))

variable {σ : Type}

/-- How many bytes a job asks for, of the desktop that it meets. -/
def askedSize (c : Compositor σ) (s : σ) (t : Handles) (job : ScriptJob) : ℕ :=
  let desktop := c.desktop s
  if exhausted job then 0
  else if opcodeIs job Op.windowList then listSize (nameWindows t (listed desktop (job.body = JsText.lit "1"))).1
  else if opcodeIs job Op.windowHandles then handlesSize (nameWindows t (ordinary desktop)).1
  else if opcodeIs job Op.windowActive then
    shownSize ((desktop.activeWindow.filter isOrdinary).map fun window => (window, (windowHandle t window).1))
  else if opcodeIs job Op.cursorPosition then (desktop.cursorPos.map pointSize).getD 0
  else if opcodeIs job Op.workArea then
    ((desktop.screenArea <|> desktop.placementArea <|> desktop.windowArea).map areaSize).getD 0
  else if opcodeIs job Op.windowQuery then
    ((targetOf desktop t job).map fun window => shownSize (some (window,
      (windowHandle (findWindow t desktop.windows (handleOf job)).2 window).1))).getD 0
  else 0

/-- How many bytes a batch asks for; each job meets the handles that the jobs before it have given out. -/
def askedBytes (c : Compositor σ) : Handles → List (Turn σ) → ℕ
  | _, [] => 0
  | t, turn :: turns => askedSize c turn.state t turn.job + askedBytes c (execute c t turn).2 turns

end Model

section Records

variable {window : Window} {handle text : Text}

/-- Text that is no part of a caption can stand in any answer. -/
theorem clean_lit {s : String} (h : (∀ c ∈ JsText.lit s, 0 < c.toNat ∧ c.toNat < 0xd800)) :
    JsText.Clean (JsText.lit s) := JsText.clean_of_plain h

/-- Plain text is ASCII without a zero. -/
theorem ascii_of_plain {bs : Bytes} (h : ∀ b ∈ bs, isPlain b) : JsText.IsAscii bs ∧ (0 : UInt8) ∉ bs := by
  constructor
  · intro b hb
    have hplain := h b hb
    simp only [isPlain, Bool.and_eq_true, decide_eq_true_eq] at hplain
    exact UInt8.lt_iff_toNat_lt.mp hplain.2
  · intro hmem
    exact absurd (h 0 hmem) (by decide)

theorem signedText_ascii (n : ℤ) : JsText.IsAscii (signedText n) ∧ (0 : UInt8) ∉ signedText n :=
  ascii_of_plain fun b hb => isRequestByte_plain (signedText_bytes n b hb)

theorem exponentText_plain (n : ℕ) : ∀ b ∈ exponentText n, isPlain b := by
  have hpoint : ∀ b ∈ ascii ".", isPlain b := List.all_iff_forall_prop.mp (by decide)
  have hexponent : ∀ b ∈ ascii "e+", isPlain b := List.all_iff_forall_prop.mp (by decide)
  have hkept : ∀ b ∈ (decimalText n).rdropWhile (· = 48), isPlain b :=
    fun b hb => decimalText_plain n b ((List.rdropWhile_prefix _ _).subset hb)
  intro b hb
  unfold exponentText at hb
  rcases List.mem_append.mp hb with hb | hb
  · rcases List.mem_append.mp hb with hb | hb
    · rcases List.mem_append.mp hb with hb | hb
      · exact hkept b (List.mem_of_mem_take hb)
      · split_ifs at hb
        · cases hb
        · rcases List.mem_append.mp hb with hb | hb
          · exact hpoint b hb
          · exact hkept b (List.mem_of_mem_drop hb)
    · exact hexponent b hb
  · exact decimalText_plain _ b hb

theorem integerText_plain (n : ℤ) : ∀ b ∈ integerText n, isPlain b := by
  have hminus : ∀ b ∈ ascii "-", isPlain b := List.all_iff_forall_prop.mp (by decide)
  intro b hb
  unfold integerText at hb
  rcases List.mem_append.mp hb with hb | hb
  · split_ifs at hb
    · exact hminus b hb
    · cases hb
  · split_ifs at hb
    · exact decimalText_plain _ b hb
    · exact exponentText_plain _ b hb

theorem roundedText_plain (x : JsNumber.Number) : ∀ b ∈ roundedText x, isPlain b := by
  cases x with
  | nan => exact List.all_iff_forall_prop.mp (by decide)
  | infinite negative =>
    cases negative with
    | false => exact List.all_iff_forall_prop.mp (by decide)
    | true => exact List.all_iff_forall_prop.mp (by decide)
  | finite x => exact integerText_plain (mathRound x)

theorem byteSize_number (n : ℤ) : JsText.byteSize (number n) = numberSize n :=
  JsText.byteSize_ofBytes (signedText_ascii n).1

theorem clean_number (n : ℤ) : JsText.Clean (number n) := JsText.clean_ofBytes (signedText_ascii n).2

theorem byteSize_rounded (x : JsNumber.Number) : JsText.byteSize (rounded x) = roundedSize x :=
  JsText.byteSize_ofBytes (ascii_of_plain (roundedText_plain x)).1

theorem clean_rounded (x : JsNumber.Number) : JsText.Clean (rounded x) :=
  JsText.clean_ofBytes (ascii_of_plain (roundedText_plain x)).2

theorem byteSize_truth (b : Bool) : JsText.byteSize (truth b) = truthSize b := by
  cases b with
  | true => decide
  | false => decide

theorem clean_truth (b : Bool) : JsText.Clean (truth b) := by
  cases b with
  | true => exact clean_lit (by decide)
  | false => exact clean_lit (by decide)

theorem byteSize_commas (texts : List Text) :
    JsText.byteSize (commas texts) = commasSize (texts.map JsText.byteSize) := by
  induction texts with
  | nil => rfl
  | cons text texts ih =>
    cases texts with
    | nil => rfl
    | cons next texts =>
      have hcomma : JsText.byteSize (JsText.lit ",") = 1 := by decide
      have hcommas : commas (text :: next :: texts) = text ++ (JsText.lit "," ++ commas (next :: texts)) := rfl
      rw [hcommas, JsText.byteSize_append, JsText.byteSize_append, ih, hcomma]
      rfl

theorem clean_commas {texts : List Text} (h : ∀ text ∈ texts, JsText.Clean text) : JsText.Clean (commas texts) := by
  induction texts with
  | nil => exact JsText.clean_nil
  | cons text texts ih =>
    cases texts with
    | nil => exact h text List.mem_cons_self
    | cons next texts =>
      have hrest := ih fun text' htext' => h text' (List.mem_cons_of_mem text htext')
      exact (h text List.mem_cons_self).append ((clean_lit (by decide)).append hrest)

theorem byteSize_areaJson (area : Area) : JsText.byteSize (areaJson area) = areaSize area := by
  have hlits : JsText.byteSize (JsText.lit "\x7b\"x\":") = 5 ∧ JsText.byteSize (JsText.lit ",\"y\":") = 5 ∧
      JsText.byteSize (JsText.lit ",\"width\":") = 9 ∧ JsText.byteSize (JsText.lit ",\"height\":") = 10 ∧
      JsText.byteSize (JsText.lit "\x7d") = 1 := by decide
  obtain ⟨hx, hy, hwidth, hheight, hend⟩ := hlits
  rw [areaJson, JsText.byteSize_flatten]
  simp only [List.map_cons, List.map_nil, List.sum_cons, List.sum_nil, hx, hy, hwidth, hheight, hend,
    byteSize_rounded, areaSize]
  omega

theorem clean_areaJson (area : Area) : JsText.Clean (areaJson area) := by
  apply JsText.Clean.flatten
  simp only [List.forall_mem_cons]
  exact ⟨clean_lit (by decide), clean_rounded _, clean_lit (by decide), clean_rounded _, clean_lit (by decide),
    clean_rounded _, clean_lit (by decide), clean_rounded _, clean_lit (by decide), nofun⟩

theorem Window.WellFormed.appId (h : window.WellFormed) : JsText.WellFormed ((appId window).getD []) := by
  unfold KwinScript.appId orElse
  split_ifs
  · exact h.resourceName
  · exact h.desktopFileName
  · exact h.resourceClass

/-- The fields that a record vouches for are words. -/
theorem validFields_clean (window : Window) : ∀ name ∈ (validFields window).map JsText.quote, JsText.Clean name := by
  intro name hname
  obtain ⟨word, hword, rfl⟩ := List.mem_map.mp hname
  obtain ⟨⟨valid, s⟩, hs, hsome⟩ := List.mem_filterMap.mp hword
  have hwords : ∀ s ∈ ["id", "title", "captureId", "appId", "pid", "frame", "client", "buffer", "minimized",
      "maximized", "active", "visible", "alwaysOnTop", "decorated", "transparency"],
      ∀ c ∈ JsText.lit s, c.toNat < 0xd800 := by decide
  have hmem : s ∈ ["id", "title", "captureId", "appId", "pid", "frame", "client", "buffer", "minimized",
      "maximized", "active", "visible", "alwaysOnTop", "decorated", "transparency"] := by
    have hnames := List.mem_map_of_mem (f := Prod.snd) hs
    exact hnames
  dsimp only at hsome
  split_ifs at hsome
  cases hsome
  exact JsText.clean_quote (JsText.wellFormed_of_lt (hwords s hmem))

theorem byteSize_windowJson (window : Window) (handle : Text) :
    JsText.byteSize (windowJson window handle) = windowSize window handle := by
  have hlits : JsText.byteSize (JsText.lit "\x7b\"validFields\":[") = 16 ∧
      JsText.byteSize (JsText.lit "],\"id\":") = 7 ∧ JsText.byteSize (JsText.lit ",\"captureId\":") = 13 ∧
      JsText.byteSize (JsText.lit ",\"title\":") = 9 ∧ JsText.byteSize (JsText.lit ",\"appId\":") = 9 ∧
      JsText.byteSize (JsText.lit ",\"pid\":") = 7 ∧ JsText.byteSize (JsText.lit ",\"frame\":") = 9 ∧
      JsText.byteSize (JsText.lit ",\"client\":") = 10 ∧ JsText.byteSize (JsText.lit ",\"buffer\":") = 10 ∧
      JsText.byteSize (JsText.lit ",\"minimized\":") = 13 ∧ JsText.byteSize (JsText.lit ",\"active\":") = 10 ∧
      JsText.byteSize (JsText.lit ",\"maximized\":") = 13 ∧ JsText.byteSize (JsText.lit ",\"visible\":") = 11 ∧
      JsText.byteSize (JsText.lit ",\"alwaysOnTop\":") = 15 ∧
      JsText.byteSize (JsText.lit ",\"decorated\":") = 13 ∧
      JsText.byteSize (JsText.lit ",\"transparency\":") = 16 ∧ JsText.byteSize (JsText.lit "\x7d") = 1 := by decide
  obtain ⟨h1, h2, h3, h4, h5, h6, h7, h8, h9, h10, h11, h12, h13, h14, h15, h16, h17⟩ := hlits
  have hquote : (JsText.byteSize ∘ JsText.quote) = JsText.quotedSize := funext JsText.byteSize_quote
  unfold windowJson
  dsimp only
  rw [JsText.byteSize_flatten]
  simp only [List.map_cons, List.map_nil, List.sum_cons, List.sum_nil, h1, h2, h3, h4, h5, h6, h7, h8, h9, h10, h11,
    h12, h13, h14, h15, h16, h17, byteSize_commas, List.map_map, hquote, JsText.byteSize_quote, jsonString,
    byteSize_number, byteSize_areaJson, byteSize_truth, byteSize_rounded, windowSize]
  ring

theorem clean_windowJson (h : window.WellFormed) (hhandle : JsText.WellFormed handle) :
    JsText.Clean (windowJson window handle) := by
  unfold windowJson
  apply JsText.Clean.flatten
  simp only [List.forall_mem_cons]
  refine ⟨clean_lit (by decide), clean_commas (validFields_clean window), clean_lit (by decide),
    JsText.clean_quote hhandle, clean_lit (by decide), JsText.clean_quote h.internalId, clean_lit (by decide),
    JsText.clean_quote h.caption, clean_lit (by decide), JsText.clean_quote h.appId, clean_lit (by decide),
    clean_number _, clean_lit (by decide), clean_areaJson _, clean_lit (by decide), clean_areaJson _,
    clean_lit (by decide), clean_areaJson _, clean_lit (by decide), clean_truth _, clean_lit (by decide),
    clean_truth _, clean_lit (by decide), clean_truth _, clean_lit (by decide), clean_truth _,
    clean_lit (by decide), clean_truth _, clean_lit (by decide), clean_truth _, clean_lit (by decide),
    clean_rounded _, clean_lit (by decide), nofun⟩

end Records

section Bodies

variable {desktop : Desktop} {t : Handles} {named : List (Window × Text)}

/-- Every handle in the tables is a number. -/
structure Handles.Plain (t : Handles) : Prop where
  byNativeId : ∀ entry ∈ t.handleByNativeId, JsText.WellFormed entry.2
  fallback : ∀ entry ∈ t.fallbackHandles, JsText.WellFormed entry.2

theorem wellFormed_number (n : ℤ) : JsText.WellFormed (number n) := (clean_number n).wellFormed

theorem mem_of_lookup {α β : Type*} [BEq α] [LawfulBEq α] {a : α} {b : β} {entries : List (α × β)}
    (h : entries.lookup a = some b) : (a, b) ∈ entries := by
  induction entries with
  | nil => cases h
  | cons entry entries ih =>
    rw [List.lookup_cons] at h
    split at h
    · next heq =>
      cases h
      rw [eq_of_beq heq]
      exact List.mem_cons_self
    · exact List.mem_cons_of_mem entry (ih h)

theorem windowHandle_plain (h : t.Plain) (window : Window) :
    JsText.WellFormed (windowHandle t window).1 ∧ (windowHandle t window).2.Plain := by
  unfold windowHandle
  dsimp only
  split_ifs
  · unfold fallbackWindowHandle
    split
    · next handle hlookup => exact ⟨h.fallback _ (mem_of_lookup hlookup), h⟩
    · refine ⟨wellFormed_number _, h.byNativeId, ?_⟩
      intro entry hentry
      rcases List.mem_append.mp hentry with hentry | hentry
      · exact h.fallback entry hentry
      · rw [List.mem_singleton.mp hentry]
        exact wellFormed_number _
  · split
    · next handle hlookup => exact ⟨h.byNativeId _ (mem_of_lookup hlookup), h⟩
    · refine ⟨wellFormed_number _, ?_, h.fallback⟩
      intro entry hentry
      rcases List.mem_cons.mp hentry with rfl | hentry
      · exact wellFormed_number _
      · exact h.byNativeId entry hentry

theorem nameWindows_plain (h : t.Plain) (windows : List Window) :
    (∀ entry ∈ (nameWindows t windows).1, entry.1 ∈ windows ∧ JsText.WellFormed entry.2) ∧
      (nameWindows t windows).2.Plain := by
  induction windows generalizing t with
  | nil =>
    rw [nameWindows]
    exact ⟨fun entry hentry => absurd hentry List.not_mem_nil, h⟩
  | cons window windows ih =>
    obtain ⟨hhandle, hplain⟩ := windowHandle_plain h window
    obtain ⟨hrest, htables⟩ := ih hplain
    refine ⟨?_, htables⟩
    intro entry hentry
    rcases List.mem_cons.mp hentry with rfl | hentry
    · exact ⟨List.mem_cons_self, hhandle⟩
    · exact ⟨List.mem_cons_of_mem window (hrest entry hentry).1, (hrest entry hentry).2⟩

theorem findWindow_plain (h : t.Plain) (windows : List Window) (handle : Text) :
    (∀ window, (findWindow t windows handle).1 = some window → window ∈ windows) ∧
      (findWindow t windows handle).2.Plain := by
  induction windows generalizing t with
  | nil =>
    rw [findWindow]
    exact ⟨fun window hfound => absurd hfound (by simp), h⟩
  | cons window windows ih =>
    obtain ⟨-, hplain⟩ := windowHandle_plain h window
    obtain ⟨hrest, htables⟩ := ih hplain
    unfold findWindow
    dsimp only
    split_ifs
    · refine ⟨?_, hplain⟩
      intro found hfound
      cases hfound
      exact List.mem_cons_self
    · exact ⟨fun found hfound => List.mem_cons_of_mem window (hrest found hfound), htables⟩

theorem listBody_sized (h : ∀ entry ∈ named, entry.1.WellFormed ∧ JsText.WellFormed entry.2) :
    JsText.byteSize (listBody named) = listSize named ∧ JsText.Clean (listBody named) := by
  have hlits : JsText.byteSize (JsText.lit "\x7b\"ok\":true,\"windows\":[") = 22 ∧
      JsText.byteSize (JsText.lit "]\x7d") = 2 := by decide
  have hsizes : (named.map fun entry => windowJson entry.1 entry.2).map JsText.byteSize =
      named.map fun entry => windowSize entry.1 entry.2 := by
    rw [List.map_map]
    exact List.map_congr_left fun entry _ => byteSize_windowJson entry.1 entry.2
  constructor
  · rw [listBody, JsText.byteSize_flatten]
    simp only [List.map_cons, List.map_nil, List.sum_cons, List.sum_nil, hlits.1, hlits.2, byteSize_commas, hsizes,
      listSize]
    ring
  · apply JsText.Clean.flatten
    simp only [List.forall_mem_cons]
    refine ⟨clean_lit (by decide), clean_commas ?_, clean_lit (by decide), nofun⟩
    intro text htext
    obtain ⟨entry, hentry, rfl⟩ := List.mem_map.mp htext
    exact clean_windowJson (h entry hentry).1 (h entry hentry).2

theorem handlesBody_sized (h : ∀ entry ∈ named, JsText.WellFormed entry.2) :
    JsText.byteSize (handlesBody named) = handlesSize named ∧ JsText.Clean (handlesBody named) := by
  have hlits : JsText.byteSize (JsText.lit "\x7b\"ok\":true,\"handles\":[") = 22 ∧
      JsText.byteSize (JsText.lit "]\x7d") = 2 := by decide
  have hsizes : (named.map fun entry => JsText.quote entry.2).map JsText.byteSize =
      named.map fun entry => JsText.quotedSize entry.2 := by
    rw [List.map_map]
    exact List.map_congr_left fun entry _ => JsText.byteSize_quote entry.2
  constructor
  · rw [handlesBody, JsText.byteSize_flatten]
    simp only [List.map_cons, List.map_nil, List.sum_cons, List.sum_nil, hlits.1, hlits.2, byteSize_commas, hsizes,
      handlesSize]
    ring
  · apply JsText.Clean.flatten
    simp only [List.forall_mem_cons]
    refine ⟨clean_lit (by decide), clean_commas ?_, clean_lit (by decide), nofun⟩
    intro text htext
    obtain ⟨entry, hentry, rfl⟩ := List.mem_map.mp htext
    exact JsText.clean_quote (h entry hentry)

theorem windowBody_sized {shown : Option (Window × Text)}
    (h : ∀ window handle, shown = some (window, handle) → window.WellFormed ∧ JsText.WellFormed handle) :
    JsText.byteSize (windowBody shown) = shownSize shown ∧ JsText.Clean (windowBody shown) := by
  cases shown with
  | none => exact ⟨by decide, clean_lit (by decide)⟩
  | some entry =>
    obtain ⟨window, handle⟩ := entry
    obtain ⟨hwindow, hhandle⟩ := h window handle rfl
    have hlits : JsText.byteSize (JsText.lit "\x7b\"ok\":true,\"window\":") = 20 ∧
        JsText.byteSize (JsText.lit "\x7d") = 1 := by decide
    constructor
    · rw [windowBody, JsText.byteSize_flatten]
      simp only [List.map_cons, List.map_nil, List.sum_cons, List.sum_nil, hlits.1, hlits.2, byteSize_windowJson,
        shownSize]
      ring
    · apply JsText.Clean.flatten
      simp only [List.forall_mem_cons]
      exact ⟨clean_lit (by decide), clean_windowJson hwindow hhandle, clean_lit (by decide), List.forall_mem_nil _⟩

theorem pointBody_sized (point : ℚ × ℚ) :
    JsText.byteSize (pointBody point) = pointSize point ∧ JsText.Clean (pointBody point) := by
  have hlits : JsText.byteSize (JsText.lit "\x7b\"x\":") = 5 ∧ JsText.byteSize (JsText.lit ",\"y\":") = 5 ∧
      JsText.byteSize (JsText.lit "\x7d") = 1 := by decide
  obtain ⟨hx, hy, hend⟩ := hlits
  constructor
  · rw [pointBody, JsText.byteSize_flatten]
    simp only [List.map_cons, List.map_nil, List.sum_cons, List.sum_nil, hx, hy, hend, byteSize_rounded,
      pointSize]
    ring
  · apply JsText.Clean.flatten
    simp only [List.forall_mem_cons]
    exact ⟨clean_lit (by decide), clean_rounded _, clean_lit (by decide), clean_rounded _, clean_lit (by decide), nofun⟩

end Bodies

section Answers

variable {σ : Type} {c : Compositor σ} {s : σ} {t : Handles} {job : ScriptJob} {p : Performed}

/-- The text that a job answers with. -/
def Performed.body (p : Performed) : Text := (p.answer.getD (statusInternal, [])).2

theorem opcodeIs_ne {a b : Opcode} (h : opcodeIs job a) (hne : a ≠ b) : ¬ opcodeIs job b = true := by
  simp only [opcodeIs, decide_eq_true_eq] at h
  simp only [opcodeIs, h, decide_eq_true_eq, Option.some.injEq, Nat.cast_inj]
  exact fun heq => hne (BitVec.eq_of_toNat_eq heq)

theorem mem_listed {desktop : Desktop} {includeHidden : Bool} {window : Window}
    (h : window ∈ listed desktop includeHidden) : window ∈ desktop.windows := List.mem_of_mem_filter h

@[simp] theorem answering_body (status : ℕ) (body : Text) (t : Handles) : (answering status body t).body = body := rfl

theorem windowActive_body (desktop : Desktop) (t : Handles) : (windowActive desktop t).body =
    windowBody ((desktop.activeWindow.filter isOrdinary).map fun window => (window, (windowHandle t window).1)) := by
  unfold windowActive
  cases desktop.activeWindow.filter isOrdinary with
  | none => rfl
  | some window => rfl

/-- What a job answers is as long as it was asked for, and it can go over the bus. -/
theorem Executed.sized (h : Executed c s t job p) (hplain : t.Plain) (hwell : (c.desktop s).WellFormed) :
    JsText.byteSize p.body = askedSize c s t job ∧ JsText.Clean p.body := by
  have hnothing : JsText.byteSize [] = 0 ∧ JsText.Clean [] := ⟨rfl, JsText.clean_nil⟩
  cases h with
  | refused hspent =>
    rw [askedSize, if_pos hspent]
    exact hnothing
  | list hlive hop =>
    rw [askedSize, if_neg (ne_true_of_eq_false hlive), if_pos hop]
    refine listBody_sized ?_
    intro entry hentry
    obtain ⟨hmem, hhandle⟩ := (nameWindows_plain hplain _).1 entry hentry
    exact ⟨hwell.windows _ (mem_listed hmem), hhandle⟩
  | handles hlive hop =>
    rw [askedSize, if_neg (ne_true_of_eq_false hlive),
      if_neg (opcodeIs_ne hop (by decide)), if_pos hop]
    refine handlesBody_sized ?_
    exact fun entry hentry => ((nameWindows_plain hplain _).1 entry hentry).2
  | active hlive hop =>
    rw [askedSize, if_neg (ne_true_of_eq_false hlive),
      if_neg (opcodeIs_ne hop (by decide)), if_neg (opcodeIs_ne hop (by decide)), if_pos hop]
    rw [windowActive_body]
    refine windowBody_sized ?_
    intro window handle hshown
    obtain ⟨shown, hactive, hpair⟩ := Option.map_eq_some_iff.mp hshown
    obtain ⟨hsome, -⟩ := Option.filter_eq_some_iff.mp hactive
    cases hpair
    exact ⟨hwell.active window hsome, (windowHandle_plain hplain window).1⟩
  | cursor hlive hop =>
    rw [askedSize, if_neg (ne_true_of_eq_false hlive),
      if_neg (opcodeIs_ne hop (by decide)), if_neg (opcodeIs_ne hop (by decide)),
      if_neg (opcodeIs_ne hop (by decide)), if_pos hop]
    unfold cursorPosition
    cases (c.desktop s).cursorPos with
    | none => exact hnothing
    | some point => exact pointBody_sized point
  | area hlive hop =>
    rw [askedSize, if_neg (ne_true_of_eq_false hlive),
      if_neg (opcodeIs_ne hop (by decide)), if_neg (opcodeIs_ne hop (by decide)),
      if_neg (opcodeIs_ne hop (by decide)), if_neg (opcodeIs_ne hop (by decide)), if_pos hop]
    unfold workArea
    cases (c.desktop s).screenArea <|> (c.desktop s).placementArea <|> (c.desktop s).windowArea with
    | none => exact hnothing
    | some area => exact ⟨byteSize_areaJson area, clean_areaJson area⟩
  | query hlive hop window hfound =>
    rw [askedSize, if_neg (ne_true_of_eq_false hlive),
      if_neg (opcodeIs_ne hop (by decide)), if_neg (opcodeIs_ne hop (by decide)),
      if_neg (opcodeIs_ne hop (by decide)), if_neg (opcodeIs_ne hop (by decide)),
      if_neg (opcodeIs_ne hop (by decide)), if_pos hop, hfound,
      executeOn_query c s _ window hop, answering_body, Option.map_some, Option.getD_some]
    obtain ⟨hmem, hplain'⟩ := findWindow_plain hplain (c.desktop s).windows (handleOf job)
    obtain ⟨hsome, -⟩ := Option.filter_eq_some_iff.mp hfound
    refine windowBody_sized ?_
    intro window' handle hshown
    cases hshown
    exact ⟨hwell.windows window (hmem window hsome), (windowHandle_plain hplain' window).1⟩
  | silent hlive haround hother _ hquiet _ =>
    have hbody : p.body = [] := by
      unfold Performed.body
      cases hanswer : p.answer with
      | none => rfl
      | some answer => exact (hquiet answer.1 answer.2 hanswer).2
    simp only [looksAround, Bool.or_eq_false_iff] at haround
    obtain ⟨⟨⟨⟨hlist, hhandles⟩, hactive⟩, hcursor⟩, harea⟩ := haround
    have hasked : askedSize c s t job = 0 := by
      simp only [askedSize, hlive, hlist, hhandles, hactive, hcursor, harea, Bool.false_eq_true, if_false]
      rcases hother with hquery | hnone
      · rw [hquery, if_neg Bool.false_ne_true]
      · rw [hnone]
        exact ite_self 0
    rw [hbody, hasked]
    exact hnothing

/-- A job leaves the tables with numbers in them. -/
theorem Executed.plain (h : Executed c s t job p) (hplain : t.Plain) : p.handles.Plain := by
  cases h with
  | refused _ => exact hplain
  | list _ _ => exact (nameWindows_plain hplain _).2
  | handles _ _ => exact (nameWindows_plain hplain _).2
  | active _ _ =>
    unfold windowActive
    split
    · exact (windowHandle_plain hplain _).2
    · exact hplain
  | cursor _ _ => exact hplain
  | area _ _ =>
    unfold workArea
    split
    · exact hplain
    · exact hplain
  | query _ hop window _ =>
    rw [executeOn_query c s _ window hop]
    exact (windowHandle_plain (findWindow_plain hplain _ _).2 window).2
  | silent _ _ _ _ _ htables =>
    rw [htables]
    exact (findWindow_plain hplain _ _).2

theorem execute_body (c : Compositor σ) (t : Handles) (turn : Turn σ) :
    (execute c t turn).1.body = (executeJob c turn.state t turn.job).body := rfl

theorem executeAll_plain (c : Compositor σ) {t : Handles} (h : t.Plain) (turns : List (Turn σ)) :
    (executeAll c t turns).2.Plain := by
  induction turns generalizing t with
  | nil => exact h
  | cons turn turns ih => exact ih ((executeJob_executed c turn.state t turn.job).plain h)

/-- What a batch answers is as long as it was asked for. -/
theorem executeAll_sized {turns : List (Turn σ)} (hplain : t.Plain)
    (hwell : ∀ turn ∈ turns, (c.desktop turn.state).WellFormed) :
    ((executeAll c t turns).1.map fun e => JsText.byteSize e.body).sum = askedBytes c t turns ∧
      ∀ e ∈ (executeAll c t turns).1, JsText.Clean e.body := by
  induction turns generalizing t with
  | nil => exact ⟨rfl, nofun⟩
  | cons turn turns ih =>
    have hexecuted := executeJob_executed c turn.state t turn.job
    obtain ⟨hsize, hclean⟩ := hexecuted.sized hplain (hwell turn List.mem_cons_self)
    rw [← execute_body] at hsize hclean
    obtain ⟨hsizes, hcleans⟩ := @ih (execute c t turn).2 (hexecuted.plain hplain)
      fun turn' hturn' => hwell turn' (List.mem_cons_of_mem turn hturn')
    have hcons : (executeAll c t (turn :: turns)).1 =
        (execute c t turn).1 :: (executeAll c (execute c t turn).2 turns).1 := rfl
    rw [hcons, List.map_cons, List.sum_cons, hsize, hsizes, List.forall_mem_cons]
    exact ⟨rfl, hclean, hcleans⟩

end Answers

end KeysharpDesktop.KwinScript
