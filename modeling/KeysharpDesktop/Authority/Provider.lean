import KeysharpDesktop.Authority.Source

/-! Events of a compositor provider, from the signal it emits to the lease: which of them the
watch accepts, and which of those the lease survives. -/
namespace KeysharpDesktop

section Watch

def windowEventNames : List (String × BitVec 16) :=
  [("create", 1), ("close", windowEventClose), ("active", 3), ("title", 4), ("minimize", 5), ("restore", 6),
    ("move", 7), ("show", 9), ("hide", 10), ("changed", 11), ("active-state", 8)]

def eventKind (name : Bytes) : BitVec 16 :=
  ((windowEventNames.find? fun entry => ascii entry.1 == name).map Prod.snd).getD 0

/-- The payload for a signal about one window. -/
def windowEvent (name json : Bytes) : Option Bytes :=
  let kind := eventKind name
  if kind == 0 || json.length > maxTextBytes || !utf8Valid false json then none
  else do
    let b ← bufferU16 (bufferInit (maxTextBytes + 8)) kind
    let b ← bufferU16 b 0
    let b ← bufferU32 b (BitVec.ofNat 32 json.length)
    let b ← bufferBytes b json
    some b.data

def bufferType (b : Buffer) (mimetype : Bytes) : Option Buffer :=
  if mimetype.length == 0 || mimetype.length > maxMimetypeBytes || !utf8Valid false mimetype then none
  else do
    let b ← bufferU32 b (BitVec.ofNat 32 mimetype.length)
    bufferBytes b mimetype

/-- The payload for a signal about the clipboard. -/
def clipboardEvent (text : Bytes) (mimetypes : List Bytes) : Option Bytes :=
  if text.length > maxTextBytes || mimetypes.length > maxMimetypes || !utf8Valid false text then none
  else do
    let b ← bufferU32 (bufferInit maxTextBytes) (BitVec.ofNat 32 text.length)
    let b ← bufferU32 b (BitVec.ofNat 32 mimetypes.length)
    let b ← bufferBytes b text
    let b ← mimetypes.foldlM bufferType b
    some b.data

/-- What a provider's signal carries. -/
inductive ProviderEvent
  | window (name json : Bytes)
  | clipboard (text : Bytes) (mimetypes : List Bytes)

namespace ProviderEvent

def domain : ProviderEvent → StateDomain
  | window .. => .windows
  | clipboard .. => .clipboard

/-- The frame that the watch forwards, where it accepts the signal. -/
def frame : ProviderEvent → Option Frame
  | window name json => (windowEvent name json).map fun payload =>
      ⟨frameMagic, protocolMajor, protocolMinor, Op.windowEvent, flagEvent, 0, payload⟩
  | clipboard text mimetypes => (clipboardEvent text mimetypes).map fun payload =>
      ⟨frameMagic, protocolMajor, protocolMinor, Op.clipboardEvent, flagEvent, 0, payload⟩

end ProviderEvent

end Watch

section Clipboard

/-- The types as they stand in the JSON text. -/
def typesText : Bool → List Bytes → Bytes
  | _, [] => []
  | first, mimetype :: rest =>
    (if first then [] else ascii ",") ++ (jsonString false mimetype ++ typesText false rest)

/-- The JSON text that the lease sends for a clipboard. -/
def clipboardText (text : Bytes) (mimetypes : List Bytes) : Bytes :=
  ascii "\x7b\"text\":" ++ (jsonString false text ++ (ascii ",\"mimetypes\":[" ++
    (typesText true mimetypes ++ ascii "]\x7d")))

/-- What `clipboard_event` writes. -/
def clipboardPayload (text : Bytes) (mimetypes : List Bytes) : Bytes :=
  encodeU32 (BitVec.ofNat 32 text.length) ++ (encodeU32 (BitVec.ofNat 32 mimetypes.length) ++
    (text ++ mimetypes.flatMap textBytes))

theorem bufferType_eq_some {b b' : Buffer} {mimetype : Bytes} (h : bufferType b mimetype = some b') :
    b'.data = b.data ++ textBytes mimetype ∧ mimetype.length < 2 ^ 32 := by
  unfold bufferType at h
  split_ifs at h with hbad
  simp only [Bool.or_eq_true, decide_eq_true_eq, not_or, Nat.not_lt, beq_iff_eq, Bool.not_eq_true] at hbad
  have hwrites := (bufferU32_writes (BitVec.ofNat 32 mimetype.length)).bind (bufferBytes_writes mimetype)
  refine ⟨hwrites.data h, lt_of_le_of_lt hbad.1.2 (by decide)⟩

theorem foldlM_bufferType {b b' : Buffer} {mimetypes : List Bytes}
    (h : mimetypes.foldlM bufferType b = some b') :
    b'.data = b.data ++ mimetypes.flatMap textBytes ∧ ∀ m ∈ mimetypes, m.length < 2 ^ 32 := by
  induction mimetypes generalizing b with
  | nil =>
    cases h
    simp
  | cons m rest ih =>
    rw [List.foldlM_cons] at h
    obtain ⟨c, hc, h⟩ := Option.bind_eq_some_iff.mp h
    obtain ⟨hdata, hm⟩ := bufferType_eq_some hc
    obtain ⟨hrest, hall⟩ := ih h
    refine ⟨?_, ?_⟩
    · rw [hrest, hdata, List.flatMap_cons, List.append_assoc]
    · intro m' hm'
      rcases List.mem_cons.mp hm' with rfl | hm'
      · exact hm
      · exact hall m' hm'

theorem clipboardEvent_eq_some {text : Bytes} {mimetypes : List Bytes} {payload : Bytes}
    (h : clipboardEvent text mimetypes = some payload) :
    payload = clipboardPayload text mimetypes ∧ text.length < 2 ^ 32 ∧ mimetypes.length < 2 ^ 32 ∧
      ∀ m ∈ mimetypes, m.length < 2 ^ 32 := by
  unfold clipboardEvent at h
  split_ifs at h with hbad
  simp only [Bool.or_eq_true, decide_eq_true_eq, not_or, Nat.not_lt, Bool.not_eq_true] at hbad
  obtain ⟨b₁, h₁, h⟩ := Option.bind_eq_some_iff.mp h
  obtain ⟨b₂, h₂, h⟩ := Option.bind_eq_some_iff.mp h
  obtain ⟨b₃, h₃, h⟩ := Option.bind_eq_some_iff.mp h
  obtain ⟨b₄, h₄, h⟩ := Option.bind_eq_some_iff.mp h
  obtain ⟨hdata, hall⟩ := foldlM_bufferType h₄
  refine ⟨?_, lt_of_le_of_lt hbad.1.1 (by decide), lt_of_le_of_lt hbad.1.2 (by decide), hall⟩
  rw [← Option.some.inj h, hdata, (bufferBytes_writes _).data h₃, (bufferU32_writes _).data h₂,
    (bufferU32_writes _).data h₁]
  simp [clipboardPayload, bufferInit]

/-- The types of a payload, written one after another. -/
def bufferTypes : Bool → List Bytes → Buffer → Option Buffer
  | _, [], b => some b
  | first, m :: rest, b => do
    let b ← if first then some b else bufferBytes b (ascii ",")
    let b ← bufferJsonString b m false
    bufferTypes false rest b

theorem bufferTypes_writes (first : Bool) (mimetypes : List Bytes) :
    Writes (bufferTypes first mimetypes) (typesText first mimetypes) := by
  induction mimetypes generalizing first with
  | nil => exact .skip
  | cons m rest ih =>
    have hcomma : Writes (fun b => if first then some b else bufferBytes b (ascii ","))
        (if first then [] else ascii ",") := by
      cases first
      · exact bufferBytes_writes _
      · exact .skip
    have hbind := hcomma.bind ((bufferJsonString_writes m false).bind (ih false))
    cases first <;> exact hbind

theorem cursor_textBytes {β : Type} {text : Bytes} (h : text.length < 2 ^ 32) (rest : Bytes)
    (next : Bytes × Cursor → Option β) :
    (do
      let (length, c) ← cursorU32 (textBytes text ++ rest)
      let read ← cursorBytes c length.toNat
      next read) = next (text, rest) := by
  have hlen : (BitVec.ofNat 32 text.length).toNat = text.length := by
    rw [BitVec.toNat_ofNat, Nat.mod_eq_of_lt h]
  simp [textBytes, hlen]

theorem clipboardTypes_eq {mimetypes : List Bytes} (h : ∀ m ∈ mimetypes, m.length < 2 ^ 32)
    (first : Bool) (b : Buffer) (rest : Bytes) :
    clipboardTypes mimetypes.length first b (mimetypes.flatMap textBytes ++ rest) =
      (bufferTypes first mimetypes b).map fun b => (b, rest) := by
  induction mimetypes generalizing first b with
  | nil => rfl
  | cons m types ih =>
    have hm := h m List.mem_cons_self
    have hrest := ih fun m' hm' => h m' (List.mem_cons_of_mem _ hm')
    rw [List.length_cons, List.flatMap_cons, List.append_assoc]
    refine (cursor_textBytes hm _ _).trans ?_
    unfold bufferTypes
    cases first <;> simp [hrest, Option.map_bind]

/-- The object that the lease builds, as one write. -/
def bufferClipboard (text : Bytes) (mimetypes : List Bytes) (b : Buffer) : Option Buffer := do
  let b ← bufferBytes b (ascii "\x7b\"text\":")
  let b ← bufferJsonString b text false
  let b ← bufferBytes b (ascii ",\"mimetypes\":[")
  let b ← bufferTypes true mimetypes b
  bufferBytes b (ascii "]\x7d")

theorem bufferClipboard_writes (text : Bytes) (mimetypes : List Bytes) :
    Writes (bufferClipboard text mimetypes) (clipboardText text mimetypes) :=
  (bufferBytes_writes _).bind <| (bufferJsonString_writes _ _).bind <| (bufferBytes_writes _).bind <|
    (bufferTypes_writes _ _).bind (bufferBytes_writes _)

/-- The lease can take over a clipboard whose JSON text is within the limit, and no other. -/
theorem clipboardJson_clipboardPayload {text : Bytes} {mimetypes : List Bytes}
    (htext : text.length < 2 ^ 32) (hcount : mimetypes.length < 2 ^ 32)
    (hall : ∀ m ∈ mimetypes, m.length < 2 ^ 32) :
    clipboardJson (clipboardPayload text mimetypes) =
      if (clipboardText text mimetypes).length ≤ maxTextBytes then some (clipboardText text mimetypes)
      else none := by
  have hlen : (BitVec.ofNat 32 text.length).toNat = text.length := by
    rw [BitVec.toNat_ofNat, Nat.mod_eq_of_lt htext]
  have hnum : (BitVec.ofNat 32 mimetypes.length).toNat = mimetypes.length := by
    rw [BitVec.toNat_ofNat, Nat.mod_eq_of_lt hcount]
  have htypes := fun b => clipboardTypes_eq hall true b []
  simp only [List.append_nil] at htypes
  have hbuffer : clipboardJson (clipboardPayload text mimetypes) =
      (bufferClipboard text mimetypes (bufferInit maxTextBytes)).map Buffer.data := by
    unfold clipboardJson clipboardPayload bufferClipboard
    simp [hlen, hnum, htypes, cursorFinished, Option.map_eq_bind, Option.bind_assoc]
  rw [hbuffer]
  cases hb : bufferClipboard text mimetypes (bufferInit maxTextBytes) with
  | none =>
    have hlong := (bufferClipboard_writes text mimetypes).bufferInit_eq_none.mp hb
    rw [if_neg (by omega)]
    rfl
  | some b =>
    obtain ⟨hdata, hshort⟩ := (bufferClipboard_writes text mimetypes).bufferInit_eq_some hb
    rw [if_pos hshort, Option.map_some, hdata]

end Clipboard

section Window

theorem windowEvent_eq_some {name json payload : Bytes} (h : windowEvent name json = some payload) :
    payload = encodeU16 (eventKind name) ++ (encodeU16 0 ++ (encodeU32 (BitVec.ofNat 32 json.length) ++ json)) ∧
      json.length ≤ maxTextBytes := by
  unfold windowEvent at h
  simp only at h
  split_ifs at h with hbad
  simp only [Bool.or_eq_true, decide_eq_true_eq, not_or, Nat.not_lt, Bool.not_eq_true] at hbad
  obtain ⟨b₁, h₁, h⟩ := Option.bind_eq_some_iff.mp h
  obtain ⟨b₂, h₂, h⟩ := Option.bind_eq_some_iff.mp h
  obtain ⟨b₃, h₃, h⟩ := Option.bind_eq_some_iff.mp h
  obtain ⟨b₄, h₄, h⟩ := Option.bind_eq_some_iff.mp h
  refine ⟨?_, hbad.1.2⟩
  rw [← Option.some.inj h, (bufferBytes_writes _).data h₄, (bufferU32_writes _).data h₃,
    (bufferU16_writes _).data h₂, (bufferU16_writes _).data h₁]
  simp [bufferInit]

/-- The event that the lease makes of a signal about one window. -/
def windowDelta (name : Bytes) (w : WindowRecord) : StateEvent :=
  { stateEventInit (if eventKind name == windowEventClose then .destroy else .changed) .windows with window := w }

theorem sourceEvent_window {name json : Bytes} {frame : Frame}
    (h : (ProviderEvent.window name json).frame = some frame) :
    frame.flags = flagEvent ∧ json.length ≤ maxTextBytes ∧
      sourceEvent frame = (stateWindowJson json).map (windowDelta name) := by
  obtain ⟨payload, hpayload, rfl⟩ := Option.map_eq_some_iff.mp h
  obtain ⟨rfl, hshort⟩ := windowEvent_eq_some hpayload
  refine ⟨rfl, hshort, ?_⟩
  have hlen : (BitVec.ofNat 32 json.length).toNat = json.length := by
    rw [BitVec.toNat_ofNat, Nat.mod_eq_of_lt (lt_of_le_of_lt hshort (by decide))]
  have hdrop4 : (encodeU16 (eventKind name) ++ (encodeU16 0 ++ (encodeU32 (BitVec.ofNat 32 json.length) ++
      json))).drop 4 = encodeU32 (BitVec.ofNat 32 json.length) ++ json := by
    rw [← List.append_assoc, List.drop_left' (by simp)]
  have hdrop8 : (encodeU16 (eventKind name) ++ (encodeU16 0 ++ (encodeU32 (BitVec.ofNat 32 json.length) ++
      json))).drop 8 = json := by
    rw [← List.append_assoc, ← List.append_assoc, List.drop_left' (by simp)]
  have hlength : (encodeU16 (eventKind name) ++ (encodeU16 0 ++ (encodeU32 (BitVec.ofNat 32 json.length) ++
      json))).length = 8 + json.length := by
    simp only [List.length_append, length_encodeU16, length_encodeU32]
    omega
  have hstate : (Op.windowEvent == Op.stateEvent) = false := by decide
  unfold sourceEvent
  simp only [hstate, beq_self_eq_true, if_true, Bool.false_eq_true, if_false, hdrop4, hdrop8, hlength,
    decodeU32_encodeU32, decodeU16_encodeU16, hlen]
  rw [if_neg (by omega)]
  cases stateWindowJson json <;> rfl

theorem sourceEvent_clipboard {text : Bytes} {mimetypes : List Bytes} {frame : Frame}
    (h : (ProviderEvent.clipboard text mimetypes).frame = some frame) :
    frame.flags = flagEvent ∧ sourceEvent frame =
      if (clipboardText text mimetypes).length ≤ maxTextBytes then
        some { stateEventInit .changed .clipboard with data := clipboardText text mimetypes }
      else none := by
  obtain ⟨payload, hpayload, rfl⟩ := Option.map_eq_some_iff.mp h
  obtain ⟨rfl, htext, hcount, hall⟩ := clipboardEvent_eq_some hpayload
  refine ⟨rfl, ?_⟩
  have hstate : (Op.clipboardEvent == Op.stateEvent) = false := by decide
  have hwindow : (Op.clipboardEvent == Op.windowEvent) = false := by decide
  unfold sourceEvent
  simp only [hstate, hwindow, beq_self_eq_true, if_true, Bool.false_eq_true, if_false,
    clipboardJson_clipboardPayload htext hcount hall]
  split_ifs <;> rfl

end Window

section Survival

/-- A change is taken over where its record can be copied; a close always is. -/
theorem stateWindowApply_windowDelta {lease : Lease} {w : WindowRecord} (name : Bytes)
    (hactive : lease.active) (hcopied : ∀ v ∈ lease.windows, Copyable v)
    (hshort : textLength w ≤ maxTextBytes) :
    (stateWindowApply lease (windowDelta name w) true).2 =
      (eventKind name == windowEventClose || decide (Copyable w)) := by
  have hdata : (windowDelta name w).data = [] := rfl
  have hwindow : (windowDelta name w).window = w := rfl
  by_cases hclose : eventKind name = windowEventClose
  · have hkind : (windowDelta name w).kind = .destroy := by simp [windowDelta, stateEventInit, hclose]
    have hfits : Emittable (windowDelta name w) := by
      refine ⟨by simp [hdata], ?_⟩
      rw [hdata, hwindow, List.length_nil]
      omega
    unfold stateWindowApply
    rw [hkind]
    cases lease.windows.slot (windowDelta name w).window.handle with
    | none => simp [hclose]
    | some old => simp [leaseEmit_eq, Lease.bump, hactive, hfits, hclose]
  · have hkind : (windowDelta name w).kind = .changed := by simp [windowDelta, stateEventInit, hclose]
    have htext : textLength (lease.incoming lease.windows (windowDelta name w)) = textLength w :=
      textLength_fillOrder _ _ _
    have hsame : Copyable (lease.incoming lease.windows (windowDelta name w)) ↔ Copyable w := by
      rw [Copyable, htext]
      rfl
    unfold stateWindowApply
    rw [hkind]
    simp only
    rw [applyUpsert_eq]
    simp only [hsame]
    split_ifs with hequal hcopy
    · have hmem := List.mem_of_find?_eq_some hequal
      simp [hsame.mp (hcopied _ hmem)]
    · have hfits : Emittable { windowDelta name w with
          kind := upsertKind (lease.windows.slot (windowDelta name w).window.handle)
            (lease.incoming lease.windows (windowDelta name w))
          window := lease.incoming lease.windows (windowDelta name w) } := by
        refine ⟨by simp [hdata], ?_⟩
        have := hcopy
        simp only [hdata, List.length_nil, htext]
        omega
      simp [leaseEmit_eq, Lease.bump, hactive, hfits, hcopy]
    · simp [hclose, hcopy]

/-- What the limits of the lease leave of the events that the watch accepts, where the refresh
reads the mask `granted`. -/
def ProviderEvent.Fits (granted : Scopes) : ProviderEvent → Prop
  | .clipboard text mimetypes => (clipboardText text mimetypes).length ≤ maxTextBytes
  | .window name json => ∃ w, stateWindowJson json = some w ∧
      (eventKind name = windowEventClose ∨ ¬granted.monitors .windows ∨ Copyable w)

/-- Tables stay well formed through every event that the lease takes over. -/
theorem applySource_tables {lease : Lease} {event : StateEvent} {sent : Bool}
    (hok : (applySource lease event sent).2) (hdistinct : lease.reader.Distinct)
    (hcopied : lease.reader.Copied) :
    (applySource lease event sent).1.reader.Distinct ∧ (applySource lease event sent).1.reader.Copied := by
  rcases applySource_cases lease event sent with ⟨-, hsame⟩ | ⟨-, -, houtcome⟩
  · rw [hsame.reader]
    exact ⟨hdistinct, hcopied⟩
  · generalize applySource lease event sent = result at hok houtcome ⊢
    obtain ⟨t, ok⟩ := result
    change ok = true at hok
    subst hok
    cases houtcome with
    | unchanged => exact ⟨hdistinct, hcopied⟩
    | emits e h =>
      rw [h.reader]
      exact ⟨hdistinct.apply e, hcopied.apply h.stored⟩

/-- Which events of a provider an active lease takes over. -/
theorem applySource_provider {lease : Lease} {event : ProviderEvent} {frame : Frame} {granted : Scopes}
    (hframe : event.frame = some frame) (hactive : lease.active) (hcopied : lease.reader.Copied)
    (hserved : event.domain = .windows → lease.enabled .windows = granted.monitors .windows) :
    (∃ e, sourceEvent frame = some e ∧ (applySource lease e true).2) ↔ event.Fits granted := by
  cases event with
  | clipboard text mimetypes =>
    obtain ⟨-, hsource⟩ := sourceEvent_clipboard hframe
    rw [hsource]
    split_ifs with hfits
    · have hemit : Emittable { stateEventInit .changed .clipboard with data := clipboardText text mimetypes } := by
        refine ⟨hfits, ?_⟩
        simp only [stateEventInit, textLength, windowRecordInit, StateText.empty, List.length_nil]
        omega
      refine ⟨fun _ => hfits, fun _ => ⟨_, rfl, ?_⟩⟩
      unfold applySource
      split_ifs with hdropped hwindows hsnapshot
      · rfl
      · cases hwindows
      all_goals simp [leaseEmit_eq, hactive, hemit, Lease.bump]
    · constructor
      · intro h
        obtain ⟨e, he, -⟩ := h
        cases he
      · exact fun h => absurd h hfits
  | window name json =>
    obtain ⟨-, hshort, hsource⟩ := sourceEvent_window hframe
    have happly : ∀ w, stateWindowJson json = some w → ((applySource lease (windowDelta name w) true).2 ↔
        (eventKind name = windowEventClose ∨ ¬granted.monitors .windows ∨ Copyable w)) := by
      intro w hw
      have hlength : textLength w ≤ maxTextBytes := (stateWindowJson_textLength hw).trans hshort
      have hdelta := stateWindowApply_windowDelta name hactive hcopied.table hlength
      have hdomain : (windowDelta name w).domain = .windows := rfl
      unfold applySource
      rw [hdomain, hserved rfl]
      cases granted.monitors .windows
      · simp
      · simp only [Bool.not_true, Bool.false_eq_true, if_false, if_true, hdelta]
        simp
    rw [hsource]
    constructor
    · intro h
      obtain ⟨e, he, hok⟩ := h
      obtain ⟨w, hw, rfl⟩ := Option.map_eq_some_iff.mp he
      exact ⟨w, hw, (happly w hw).mp hok⟩
    · intro h
      obtain ⟨w, hw, hfits⟩ := h
      exact ⟨windowDelta name w, by rw [hw]; rfl, (happly w hw).mpr hfits⟩

/-- An event that the watch accepts leaves the lease standing and its tables well formed exactly
where the lease is still in force and the event is within the lease's own limits. -/
theorem stateSourceEvent_survives_iff {event : ProviderEvent} {frame : Frame} {a : Answers}
    (lease : Lease) (session : Session) (hframe : event.frame = some frame) (hserved : lease.enabled event.domain)
    (hdistinct : lease.reader.Distinct) (hcopied : lease.reader.Copied) (hsent : a.sent) :
    ((stateSourceEvent lease session frame a true).ok ∧
      (stateSourceEvent lease session frame a true).lease.reader.Distinct ∧
      (stateSourceEvent lease session frame a true).lease.reader.Copied) ↔
    (refreshReading lease true a).ok ∧ event.Fits (refreshReading lease true a).granted := by
  have hflags : frame.flags = flagEvent := by
    cases event with
    | window name json => exact (sourceEvent_window hframe).1
    | clipboard text mimetypes => exact (sourceEvent_clipboard hframe).1
  have hreader := (sessionRefresh_sameTables lease session true true a).sameWindows.reader
  rw [← hreader] at hdistinct hcopied
  by_cases hok : (refreshReading lease true a).ok
  · obtain ⟨hrefresh, hactive, henabled⟩ := sessionRefresh_in_force session hok hsent
    have hsubscribed : event.domain = .windows →
        (sessionRefresh lease session true true a).lease.enabled .windows =
          (refreshReading lease true a).granted.monitors .windows := by
      intro hdomain
      rw [hdomain, Lease.enabled, Bool.and_eq_true] at hserved
      rw [henabled, hserved.1, Bool.true_and]
    have hprovider := applySource_provider hframe hactive hcopied hsubscribed
    have hcall : ∀ e, sourceEvent frame = some e → stateSourceEvent lease session frame a true =
        ⟨(applySource (sessionRefresh lease session true true a).lease e true).1,
          (sessionRefresh lease session true true a).session,
          (applySource (sessionRefresh lease session true true a).lease e true).2⟩ := by
      intro e he
      have hresponse : (flagEvent == flagResponse) = false := by decide
      simp [stateSourceEvent, hrefresh, hflags, hresponse, he]
    rw [← hprovider]
    constructor
    · intro h
      rcases stateSourceEvent_cases h.1 with ⟨hresponse, -⟩ | ⟨e, -, he, -, happlied⟩
      · rw [hflags] at hresponse
        cases hresponse
      · exact ⟨hok, e, he, happlied⟩
    · intro h
      obtain ⟨-, e, he, happlied⟩ := h
      rw [hcall e he]
      exact ⟨happlied, applySource_tables happlied hdistinct hcopied⟩
  · constructor
    · intro h
      exact absurd (sessionRefresh_ok (stateSourceEvent_refreshed h.1)) hok
    · exact fun h => absurd h.1 hok

/-- The watch accepts every valid text that fits its own payload. -/
theorem clipboardEvent_isSome {text : Bytes} (hvalid : utf8Valid false text)
    (hshort : text.length + 8 ≤ maxTextBytes) : (clipboardEvent text []).isSome := by
  have hwrites := (bufferU32_writes (BitVec.ofNat 32 text.length)).bind
    ((bufferU32_writes (BitVec.ofNat 32 0)).bind (bufferBytes_writes text))
  obtain ⟨b, hb, -⟩ := hwrites.exists_of_fits (b := bufferInit maxTextBytes) (by
    simp only [bufferInit, List.length_append, length_encodeU32, List.length_nil]
    omega)
  have hlength : ¬text.length > maxTextBytes := by omega
  have hsome : clipboardEvent text [] = some b.data := by
    unfold clipboardEvent
    rw [if_neg (by simp [hlength, hvalid])]
    simp only [Option.bind_eq_bind, List.length_nil, List.foldlM_nil] at hb ⊢
    simp only [← Option.bind_assoc] at hb ⊢
    rw [hb]
    rfl
  rw [hsome]
  rfl

/-- The limit on the JSON text stands after the escaping. -/
theorem stateSourceEvent_clipboard_long {lease : Lease} {session : Session} {a : Answers} {sent : Bool}
    {text : Bytes} {mimetypes : List Bytes} {frame : Frame}
    (hframe : (ProviderEvent.clipboard text mimetypes).frame = some frame)
    (hlong : maxTextBytes < (clipboardText text mimetypes).length) :
    (stateSourceEvent lease session frame a sent).ok = false := by
  obtain ⟨hflags, hsource⟩ := sourceEvent_clipboard hframe
  rw [if_neg (by omega)] at hsource
  by_contra hok
  rcases stateSourceEvent_cases (by simpa using hok) with ⟨hresponse, -⟩ | ⟨e, -, he, -⟩
  · rw [hflags] at hresponse
    cases hresponse
  · rw [hsource] at he
    cases he

theorem length_clipboardText_quoted (n : ℕ) :
    (clipboardText (List.replicate n 0x22) []).length = 26 + 2 * n := by
  have hopen : (ascii "\x7b\"text\":").length = 8 := by decide +kernel
  have hmiddle : (ascii ",\"mimetypes\":[").length = 14 := by decide +kernel
  have hclose : (ascii "]\x7d").length = 2 := by decide +kernel
  have hquote : (ascii "\"").length = 1 := by decide +kernel
  have hescape : (jsonEscape false 0x22).length = 2 := by decide +kernel
  have hbody : ((List.replicate n (0x22 : UInt8)).flatMap (jsonEscape false)).length = 2 * n := by
    induction n with
    | zero => rfl
    | succ n ih =>
      rw [List.replicate_succ, List.flatMap_cons, List.length_append, hescape, ih]
      omega
  simp only [clipboardText, jsonString, typesText, List.length_append, hopen, hmiddle, hclose, hquote, hbody,
    List.length_nil]
  omega

theorem monitoringLease_tables : monitoringLease.reader.Distinct ∧ monitoringLease.reader.Copied :=
  ⟨⟨List.nodup_nil, List.nodup_nil⟩, ⟨List.forall_mem_nil _, List.forall_mem_nil _⟩⟩

/-- More than two million quotation marks, which the watch accepts and the escaping doubles. -/
theorem quotedText_not_survived :
    ∃ frame, (ProviderEvent.clipboard (List.replicate 2200000 0x22) []).frame = some frame ∧
      monitoringLease.enabled .clipboard ∧ monitoringLease.reader.Distinct ∧ monitoringLease.reader.Copied ∧
      (refreshReading monitoringLease true steadyAnswers).ok ∧ steadyAnswers.sent ∧
      (stateSourceEvent monitoringLease monitoringSession frame steadyAnswers true).ok = false := by
  have hlong := length_clipboardText_quoted 2200000
  have hlength : (List.replicate 2200000 (0x22 : UInt8)).length = 2200000 := List.length_replicate
  have hvalid : utf8Valid false (List.replicate 2200000 (0x22 : UInt8)) := by
    refine utf8Valid_of_ascii ?_ false
    intro byte hbyte
    rw [List.eq_of_mem_replicate hbyte]
    decide
  have hmax : maxTextBytes = 4194304 := rfl
  generalize List.replicate 2200000 (0x22 : UInt8) = text at hlong hlength hvalid ⊢
  obtain ⟨payload, hpayload⟩ := Option.isSome_iff_exists.mp (clipboardEvent_isSome hvalid (by omega))
  obtain ⟨frame, hframe⟩ : ∃ frame, (ProviderEvent.clipboard text []).frame = some frame :=
    ⟨_, by rw [ProviderEvent.frame, hpayload]; rfl⟩
  exact ⟨frame, hframe, by decide, monitoringLease_tables.1, monitoringLease_tables.2, by decide, rfl,
    stateSourceEvent_clipboard_long hframe (by omega)⟩

theorem plainText_survived :
    ∃ frame, (ProviderEvent.clipboard (ascii "plain") [ascii "text/plain"]).frame = some frame ∧
      (stateSourceEvent monitoringLease monitoringSession frame steadyAnswers true).ok := by
  have hframe : (ProviderEvent.clipboard (ascii "plain") [ascii "text/plain"]).frame.isSome := by
    decide +kernel
  obtain ⟨frame, hframe⟩ := Option.isSome_iff_exists.mp hframe
  have hsurvives := (stateSourceEvent_survives_iff (a := steadyAnswers) monitoringLease monitoringSession hframe
    (by decide) monitoringLease_tables.1 monitoringLease_tables.2 rfl).mpr ⟨by decide, by
      change (clipboardText (ascii "plain") [ascii "text/plain"]).length ≤ maxTextBytes
      decide +kernel⟩
  exact ⟨frame, hframe, hsurvives.1⟩

end Survival

end KeysharpDesktop
