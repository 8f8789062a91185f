import KeysharpDesktop.Hypr.Words
import KeysharpDesktop.Lib.Framer

/-! The reader of Hyprland's event stream: the names of its events, line by line, however the stream arrives. -/
namespace KeysharpDesktop.Hypr

section Reader

def eventLineCapacity : ℕ := 256

structure EventReader where
  line : Bytes
  discarding : Bool
  deriving DecidableEq, Repr

def eventReaderInit : EventReader := ⟨[], false⟩

/-- What stands before the first `>>`. -/
def beforeSeparator : Bytes → Option Bytes
  | a :: b :: rest => if a = 62 ∧ b = 62 then some [] else (beforeSeparator (b :: rest)).map (a :: ·)
  | _ => none

/-- A line as C reads it. -/
def emitLine (reader : EventReader) : Bytes := (beforeSeparator (cString reader.line)).getD []

/-- A byte that does not end its line. -/
def EventReader.push (reader : EventReader) (value : UInt8) : EventReader :=
  if reader.discarding then reader
  else if reader.line.length = eventLineCapacity - 1 then { reader with discarding := true }
  else { reader with line := reader.line ++ [value] }

/-- `ksd_wayland_hypr_event_feed`, with the names that it calls back with in their order. -/
def eventFeed : EventReader → Bytes → List Bytes × EventReader
  | reader, [] => ([], reader)
  | reader, value :: bytes =>
    if value = 10 then
      let name := if reader.discarding then [] else emitLine reader
      let rest := eventFeed eventReaderInit bytes
      (name :: rest.1, rest.2)
    else eventFeed (reader.push value) bytes

/-- The stream as it is read, piece by piece. -/
def eventFeedAll : EventReader → List Bytes → List Bytes × EventReader
  | reader, [] => ([], reader)
  | reader, piece :: pieces =>
    let first := eventFeed reader piece
    let rest := eventFeedAll first.2 pieces
    (first.1 ++ rest.1, rest.2)

def windowEvents : List Bytes :=
  ["openwindow", "closewindow", "windowtitle", "windowtitlev2", "activewindow", "activewindowv2", "movewindow",
    "movewindowv2", "changefloatingmode", "fullscreen", "pin", "workspace", "workspacev2", "focusedmon", "focusedmonv2",
    "activespecial", "activespecialv2", "createworkspace", "createworkspacev2", "destroyworkspace", "destroyworkspacev2",
    "moveworkspace", "moveworkspacev2", "monitoradded", "monitoraddedv2", "monitorremoved", "monitorremovedv2",
    "togglegroup", "moveintogroup", "moveoutofgroup", "configreloaded"].map ascii

/-- A line that could not be read may have been any of these. -/
def eventAffectsWindows (name : Bytes) : Bool := name = [] || windowEvents.contains name

end Reader

section Lines

/-- The name that a line is reported by: none for one that is too long or has no separator. -/
def eventName (line : Bytes) : Bytes :=
  if line.length < eventLineCapacity then (beforeSeparator (cString line)).getD [] else []

def EventReader.name (reader : EventReader) : Bytes := if reader.discarding then [] else emitLine reader

theorem eventFeed_eq (reader : EventReader) (bytes : Bytes) :
    eventFeed reader bytes = Framer.feed 10 eventReaderInit EventReader.push EventReader.name reader bytes := by
  induction bytes generalizing reader with
  | nil => rfl
  | cons value bytes ih =>
    rw [eventFeed, Framer.feed]
    by_cases hend : value = 10
    · rw [if_pos hend, if_pos hend, ih eventReaderInit]
      rfl
    · rw [if_neg hend, if_neg hend]
      exact ih (reader.push value)

theorem eventFeedAll_eq (reader : EventReader) (pieces : List Bytes) :
    eventFeedAll reader pieces = Framer.feedAll 10 eventReaderInit EventReader.push EventReader.name reader pieces := by
  induction pieces generalizing reader with
  | nil => rfl
  | cons piece pieces ih =>
    rw [eventFeedAll, Framer.feedAll, ih, eventFeed_eq]

theorem foldl_push (line : Bytes) (reader : EventReader) (hroom : reader.line.length ≤ eventLineCapacity - 1)
    (hopen : reader.discarding = false) :
    line.foldl EventReader.push reader =
      ⟨(reader.line ++ line).take (eventLineCapacity - 1), eventLineCapacity ≤ (reader.line ++ line).length⟩ := by
  unfold eventLineCapacity at hroom ⊢
  induction line generalizing reader with
  | nil =>
    have hshort : ¬ 256 ≤ reader.line.length := by omega
    rw [List.foldl_nil, List.append_nil, List.take_of_length_le hroom, decide_eq_false hshort, ← hopen]
  | cons value line ih =>
    rw [List.foldl_cons]
    by_cases hfull : reader.line.length = 255
    · have hpush : reader.push value = ⟨reader.line, true⟩ := by
        simp only [EventReader.push, hopen, Bool.false_eq_true, if_false, eventLineCapacity, hfull, if_true]
      have hstay : ∀ line : Bytes, line.foldl EventReader.push ⟨reader.line, true⟩ = ⟨reader.line, true⟩ := by
        intro line
        induction line with
        | nil => rfl
        | cons other line ih => exact ih
      have hlong : 256 ≤ (reader.line ++ value :: line).length := by
        rw [List.length_append, List.length_cons]
        omega
      rw [hpush, hstay, List.take_append_of_le_length (Nat.le_of_eq hfull.symm), List.take_of_length_le hroom,
        decide_eq_true hlong]
    · have hpush : reader.push value = ⟨reader.line ++ [value], false⟩ := by
        simp only [EventReader.push, hopen, Bool.false_eq_true, if_false, eventLineCapacity, hfull]
      have hnext : (reader.line ++ [value]).length ≤ 255 := by
        rw [List.length_append, List.length_singleton]
        omega
      rw [hpush, ih ⟨reader.line ++ [value], false⟩ hnext rfl, List.append_assoc]
      rfl

/-- What has come of a line that is not ended yet. -/
def readerOf (line : Bytes) : EventReader :=
  ⟨line.take (eventLineCapacity - 1), eventLineCapacity ≤ line.length⟩

theorem name_readerOf (line : Bytes) : (readerOf line).name = eventName line := by
  unfold EventReader.name eventName emitLine readerOf
  by_cases hshort : line.length < eventLineCapacity
  · have hopen : ¬ eventLineCapacity ≤ line.length := by omega
    rw [if_pos hshort, decide_eq_false hopen, List.take_of_length_le (by omega)]
    rfl
  · have hlong : eventLineCapacity ≤ line.length := by omega
    rw [if_neg hshort, decide_eq_true hlong]
    rfl

theorem beforeSeparator_append {name : Bytes} (h : 62 ∉ name) (data : Bytes) :
    beforeSeparator (name ++ 62 :: 62 :: data) = some name := by
  induction name with
  | nil => rfl
  | cons a name ih =>
    rw [List.mem_cons, not_or] at h
    cases hrest : name ++ 62 :: 62 :: data with
    | nil =>
      have hlength := congrArg List.length hrest
      rw [List.length_append, List.length_cons] at hlength
      cases hlength
    | cons b rest =>
      have hne : ¬ (a = 62 ∧ b = 62) := fun hboth => h.1 hboth.1.symm
      have hown := ih h.2
      rw [hrest] at hown
      rw [List.cons_append, hrest, beforeSeparator, if_neg hne, hown]
      rfl

theorem eq_of_beforeSeparator {line name : Bytes} (h : beforeSeparator line = some name) :
    ∃ data, line = name ++ 62 :: 62 :: data := by
  induction line using beforeSeparator.induct generalizing name with
  | case1 a b rest hboth =>
    rw [beforeSeparator, if_pos hboth] at h
    cases h
    exact ⟨rest, by rw [hboth.1, hboth.2, List.nil_append]⟩
  | case2 a b rest hnot ih =>
    rw [beforeSeparator, if_neg hnot] at h
    obtain ⟨name, hname, rfl⟩ := Option.map_eq_some_iff.mp h
    obtain ⟨data, hdata⟩ := ih hname
    exact ⟨data, by rw [hdata, List.cons_append]⟩
  | case3 line hnot =>
    rw [beforeSeparator] at h
    · cases h
    · exact hnot

theorem windowEvents_plain : ∀ name ∈ windowEvents, (62 : UInt8) ∉ name ∧ (0 : UInt8) ∉ name := by decide

/-- A line about windows is reported as one, also where it is too long to be read. -/
theorem eventAffectsWindows_of_listed {name : Bytes} (h : name ∈ windowEvents) (data : Bytes) :
    eventAffectsWindows (eventName (name ++ 62 :: 62 :: data)) = true := by
  obtain ⟨hplain, hzero⟩ := windowEvents_plain name h
  unfold eventName
  split_ifs
  · have hread : cString (name ++ 62 :: 62 :: data) = name ++ 62 :: 62 :: cString data := by
      unfold cString
      rw [List.takeWhile_append_of_pos]
      · rfl
      · intro b hb
        rw [bne_iff_ne]
        rintro rfl
        exact hzero hb
    rw [hread, beforeSeparator_append hplain, Option.getD_some, eventAffectsWindows, List.contains_iff_mem.mpr h,
      Bool.or_true]
  · rfl

/-- Only a line whose name was read, and is none of these, is reported as one that is not about windows. -/
theorem unlisted_of_not_affects {line : Bytes} (h : eventAffectsWindows (eventName line) = false) :
    ∃ name data, line = name ++ 62 :: 62 :: data ∧ eventName line = name ∧ name ≠ [] ∧ name ∉ windowEvents := by
  rw [eventAffectsWindows, Bool.or_eq_false_iff, decide_eq_false_iff_not] at h
  obtain ⟨hsome, hunlisted⟩ := h
  have hunlisted : eventName line ∉ windowEvents := by
    intro hmem
    rw [List.contains_iff_mem.mpr hmem] at hunlisted
    cases hunlisted
  unfold eventName at hsome hunlisted ⊢
  split_ifs at hsome hunlisted ⊢
  · cases hname : beforeSeparator (cString line) with
    | none =>
      rw [hname] at hsome
      exact absurd rfl hsome
    | some name =>
      rw [hname] at hsome hunlisted
      obtain ⟨data, hdata⟩ := eq_of_beforeSeparator hname
      obtain ⟨rest, hrest⟩ := List.takeWhile_prefix (l := line) (· != 0)
      refine ⟨name, data ++ rest, ?_, rfl, hsome, hunlisted⟩
      rw [← hrest]
      show cString line ++ rest = _
      rw [hdata, List.append_assoc]
      rfl
  · exact absurd rfl hsome

/-- However the stream of events is cut on its way, each of its lines is reported, in order and by its name: one about
windows never as one that is not, and a line that was not read as any event at all. -/
theorem eventFeedAll_lines {lines : List Bytes} {tail : Bytes} (hlines : ∀ line ∈ lines, (10 : UInt8) ∉ line)
    (htail : (10 : UInt8) ∉ tail) {pieces : List Bytes} (h : pieces.flatten = (lines.map (· ++ [10])).flatten ++ tail) :
    eventFeedAll eventReaderInit pieces = (lines.map eventName, readerOf tail) ∧
      (∀ name data, name ++ 62 :: 62 :: data ∈ lines → name ∈ windowEvents →
        eventAffectsWindows (eventName (name ++ 62 :: 62 :: data)) = true) ∧
      ∀ line ∈ lines, eventAffectsWindows (eventName line) = false →
        ∃ name data, line = name ++ 62 :: 62 :: data ∧ eventName line = name ∧ name ≠ [] ∧ name ∉ windowEvents := by
  have hfold : ∀ line : Bytes, line.foldl EventReader.push eventReaderInit = readerOf line :=
    fun line => foldl_push line eventReaderInit (Nat.zero_le _) rfl
  refine ⟨?_, fun name data _ hname => eventAffectsWindows_of_listed hname data,
    fun line _ hnot => unlisted_of_not_affects hnot⟩
  rw [eventFeedAll_eq, Framer.feedAll_start, h, Framer.split_flatten hlines htail]
  simp only [hfold, name_readerOf]

/-- A name in two pieces, and a line without one. -/
theorem eventFeedAll_two :
    let pieces := [ascii "openwindow>>5bf0
active", ascii "windowv2>>
noseparator
bell"]
    eventFeedAll eventReaderInit pieces =
        ([ascii "openwindow>>5bf0", ascii "activewindowv2>>", ascii "noseparator"].map eventName,
          readerOf (ascii "bell")) := by
  intro pieces
  exact (eventFeedAll_lines (by decide) (by decide) (by decide)).1

end Lines

end KeysharpDesktop.Hypr
