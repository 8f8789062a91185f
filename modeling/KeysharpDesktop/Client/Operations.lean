import KeysharpDesktop.Client.Response
import KeysharpDesktop.Kwin.Delivery
import KeysharpDesktop.Kwin.Envelope

/-! The client's functions for the operations KWin serves, and which answers of its script they take. -/
namespace KeysharpDesktop.Client

/-- What the data of a successful response stands for. -/
inductive Value
  | done
  | text (text : Bytes)
  | position (x y : ℤ)
  | area (x y : ℤ) (width height : ℕ)
  deriving DecidableEq, Repr

/-- What a function of the client returns. -/
structure Outcome where
  connection : Connection
  status : Status
  error : Error
  value : Option Value
  deriving DecidableEq, Repr

section Functions

def invalidResponse (c : Connection) (message : String) : Outcome :=
  let (c, status, error) := systemFailure c .protocol message
  ⟨c, status, error, none⟩

/-- The functions share this end: a failure is returned as it is, and data that cannot be read closes the
connection. -/
def requestResult (read : Response → Except String Value) (c : Connection) (reply : Reply) : Outcome :=
  match reply.response with
  | none => ⟨c, reply.status, reply.error, none⟩
  | some response =>
    if reply.status != Status.ok then ⟨c, reply.status, reply.error, none⟩
    else
      match read response with
      | .error message => invalidResponse c message
      | .ok value => ⟨c, Status.ok, reply.error, some value⟩

def parseOwnedString (data : Bytes) ( prefixed : Bool) : Option Bytes := do
  let text ← if prefixed then do
      let (length, c) ← cursorU32 data
      if maxTextBytes < length.toNat then none
      else do
        let (text, c) ← cursorBytes c length.toNat
        if cursorFinished c then some text else none
    else some data
  if maxTextBytes < text.length || !utf8Valid false text then none else some text

def readEmpty (response : Response) : Except String Value :=
  if response.tail.length != 0 || response.frame.flags &&& flagMore != 0 then
    .error "desktop service returned invalid operation data"
  else .ok .done

def readString (response : Response) : Except String Value :=
  if response.frame.flags &&& flagMore != 0 then .error "desktop service returned invalid text data"
  else
    match parseOwnedString response.tail true with
    | none => .error "desktop service returned invalid text data"
    | some text => .ok (.text text)

def readPosition (response : Response) : Except String Value :=
  if response.frame.flags &&& flagMore != 0 || response.tail.length != 8 then
    .error "desktop service returned invalid cursor-position data"
  else .ok (.position (decodeU32 response.tail).toInt (decodeU32 (response.tail.drop 4)).toInt)

def int32Max : ℕ := 2 ^ 31 - 1

def readArea (response : Response) : Except String Value :=
  if response.frame.flags &&& flagMore != 0 || response.tail.length != 16 then
    .error "desktop service returned invalid work-area data"
  else
    let x := (decodeU32 response.tail).toInt
    let y := (decodeU32 (response.tail.drop 4)).toInt
    let width := (decodeU32 (response.tail.drop 8)).toNat
    let height := (decodeU32 (response.tail.drop 12)).toNat
    if width == 0 || height == 0 || int32Max < width || int32Max < height || int32Max < x + width ||
        int32Max < y + height then
      .error "desktop service returned invalid work-area bounds"
    else .ok (.area x y width height)

def requestEmptyResult : Connection → Reply → Outcome := requestResult readEmpty
def requestStringResult : Connection → Reply → Outcome := requestResult readString
def cursorPosition : Connection → Reply → Outcome := requestResult readPosition
def workArea : Connection → Reply → Outcome := requestResult readArea

/-- The function for an opcode that KWin's script serves, from where its reply is read. -/
def operation (opcode : Opcode) : Connection → Reply → Outcome :=
  if isTextAnswer opcode then requestStringResult
  else if opcode = Op.cursorPosition then cursorPosition
  else if opcode = Op.workArea then workArea
  else requestEmptyResult

end Functions

section Translation

variable {opcode : Opcode} {body tail : Bytes} {frame : Frame}

/-- A work area on the wire. -/
def areaTail (x y width height : BitVec 32) : Bytes :=
  encodeU32 x ++ (encodeU32 y ++ (encodeU32 width ++ encodeU32 height))

/-- What the daemon makes of the body of a successful script answer, by opcode. -/
inductive Translated (opcode : Opcode) (body : Bytes) : Bytes → Prop
  | text (isText : isTextAnswer opcode) (fits : body.length ≤ maxTextBytes) (valid : utf8Valid false body) :
      Translated opcode body (encodeU32 (BitVec.ofNat 32 body.length) ++ body)
  | position (isPosition : opcode = Op.cursorPosition) (x y : ℤ) (parsed : parsePoint body = some (x, y)) :
      Translated opcode body (encodeU32 (BitVec.ofInt 32 x) ++ encodeU32 (BitVec.ofInt 32 y))
  | area (isArea : opcode = Op.workArea) (x y width height : ℤ)
      (parsed : parseArea body = some (x, y, width, height)) :
      Translated opcode body (areaTail (BitVec.ofInt 32 x) (BitVec.ofInt 32 y) (BitVec.ofInt 32 width)
        (BitVec.ofInt 32 height))
  | empty (isEmpty : isEmptyAnswer opcode) (nothing : body = []) : Translated opcode body []

theorem translated_of_kwinResponsePayload {n : ℕ} {b : Buffer}
    (h : kwinResponsePayload opcode body (bufferInit n) = some b) : Translated opcode body b.data := by
  unfold kwinResponsePayload at h
  split_ifs at h with htext hbody hposition harea hempty
  · obtain ⟨hdata, -⟩ := ((bufferU32_writes _).bind (bufferBytes_writes body)).bufferInit_eq_some h
    rw [hdata]
    exact .text htext hbody.1 hbody.2
  · obtain ⟨⟨x, y⟩, hparsed, h⟩ := Option.bind_eq_some_iff.mp h
    obtain ⟨hdata, -⟩ := ((bufferU32_writes _).bind (bufferU32_writes _)).bufferInit_eq_some h
    rw [hdata]
    exact .position hposition x y hparsed
  · obtain ⟨⟨x, y, width, height⟩, hparsed, h⟩ := Option.bind_eq_some_iff.mp h
    obtain ⟨hdata, -⟩ := ((bufferU32_writes _).bind ((bufferU32_writes _).bind
      ((bufferU32_writes _).bind (bufferU32_writes _)))).bufferInit_eq_some h
    rw [hdata]
    exact .area harea x y width height hparsed
  · cases h
    exact .empty hempty.1 hempty.2

/-- The right and the bottom edge of a work area are numbers of 32 bits. -/
def edgesFit (body : Bytes) : Bool :=
  (parseArea body).all fun (x, y, width, height) => isInt32 (x + width) && isInt32 (y + height)

/-- The reader of a response that belongs to the function for an opcode. -/
def reader (opcode : Opcode) : Response → Except String Value :=
  if isTextAnswer opcode then readString
  else if opcode = Op.cursorPosition then readPosition
  else if opcode = Op.workArea then readArea
  else readEmpty

theorem operation_eq (opcode : Opcode) : operation opcode = requestResult (reader opcode) := by
  unfold operation reader
  split_ifs <;> rfl

theorem parseOwnedString_framed (hfits : body.length ≤ maxTextBytes) (hvalid : utf8Valid false body) :
    parseOwnedString (encodeU32 (BitVec.ofNat 32 body.length) ++ body) true = some body := by
  have hmax : maxTextBytes < 2 ^ 32 := by decide
  have hlength : (BitVec.ofNat 32 body.length).toNat = body.length := by
    rw [BitVec.toNat_ofNat, Nat.mod_eq_of_lt (by omega)]
  have hread := cursorBytes_append body []
  rw [List.append_nil] at hread
  have hshort : ¬maxTextBytes < body.length := Nat.not_lt.mpr hfits
  simp only [parseOwnedString, if_true, cursorU32_encodeU32, Option.bind_eq_bind, Option.bind_some, hlength,
    if_neg hshort, hread, cursorFinished, List.isEmpty_nil, decide_eq_false hshort, hvalid, Bool.not_true,
    Bool.or_self, Bool.false_eq_true, if_false]

theorem parseArea_bounds {x y width height : ℤ} (h : parseArea body = some (x, y, width, height)) :
    isInt32 x ∧ isInt32 y ∧ 0 < width ∧ isInt32 width ∧ 0 < height ∧ isInt32 height := by
  unfold parseArea at h
  split_ifs at h with hlength
  simp only [Option.bind_eq_bind, Option.bind_eq_some_iff, Prod.exists] at h
  obtain ⟨a, t₁, -, b, t₂, -, c, t₃, -, d, t₄, -, t₅, -, h⟩ := h
  split_ifs at h with hbad
  cases h
  simp only [not_or, not_not, not_le] at hbad
  exact ⟨hbad.2.1, hbad.2.2.1, hbad.2.2.2.1, hbad.2.2.2.2.1, hbad.2.2.2.2.2.1, hbad.2.2.2.2.2.2⟩

theorem toInt_ofInt {v : ℤ} (h : isInt32 v) : (BitVec.ofInt 32 v).toInt = v := by
  simp only [isInt32, Bool.and_eq_true, decide_eq_true_eq] at h
  rw [BitVec.toInt_ofInt]
  exact Int.bmod_eq_of_le (by omega) (by omega)

theorem toNat_ofInt {v : ℤ} (h : isInt32 v) (hpos : 0 < v) : ((BitVec.ofInt 32 v).toNat : ℤ) = v := by
  simp only [isInt32, Bool.and_eq_true, decide_eq_true_eq] at h
  rw [BitVec.toNat_ofInt, Int.toNat_of_nonneg (Int.emod_nonneg _ (by norm_num))]
  exact Int.emod_eq_of_lt (by omega) (by norm_num; omega)

theorem readArea_areaTail (hmore : frame.flags &&& flagMore = 0) (status : Status) (detail : BitVec 32)
    (x y width height : BitVec 32) :
    readArea ⟨frame, status, detail, areaTail x y width height⟩ =
      if width.toNat == 0 || height.toNat == 0 || int32Max < width.toNat || int32Max < height.toNat ||
          int32Max < x.toInt + width.toNat || int32Max < y.toInt + height.toNat then
        .error "desktop service returned invalid work-area bounds"
      else .ok (.area x.toInt y.toInt width.toNat height.toNat) := by
  have hlength : (areaTail x y width height).length = 16 := by
    simp only [areaTail, List.length_append, length_encodeU32]
  have hx : decodeU32 (areaTail x y width height) = x := decodeU32_encodeU32 _ _
  have hy : decodeU32 ((areaTail x y width height).drop 4) = y := by
    rw [areaTail, List.drop_left' (length_encodeU32 _)]
    exact decodeU32_encodeU32 _ _
  have hwidth : decodeU32 ((areaTail x y width height).drop 8) = width := by
    rw [areaTail, ← List.append_assoc, List.drop_left' (by simp)]
    exact decodeU32_encodeU32 _ _
  have hheight : decodeU32 ((areaTail x y width height).drop 12) = height := by
    have hword := decodeU32_encodeU32 height []
    rw [List.append_nil] at hword
    rw [areaTail, ← List.append_assoc, ← List.append_assoc, List.drop_left' (by simp)]
    exact hword
  simp only [readArea, hmore, hlength, hx, hy, hwidth, hheight, bne_self_eq_false, Bool.or_self, Bool.false_eq_true,
    if_false]

/-- A work area is read where its edges fit, which the daemon does not look at. -/
theorem readArea_ok_iff (hmore : frame.flags &&& flagMore = 0) (status : Status) (detail : BitVec 32)
    {x y width height : ℤ} (h : parseArea body = some (x, y, width, height)) :
    (∃ value, readArea ⟨frame, status, detail, areaTail (BitVec.ofInt 32 x) (BitVec.ofInt 32 y)
        (BitVec.ofInt 32 width) (BitVec.ofInt 32 height)⟩ = .ok value) ↔ edgesFit body := by
  obtain ⟨hx, hy, hwidth, hwidth32, hheight, hheight32⟩ := parseArea_bounds h
  have hw := toNat_ofInt hwidth32 hwidth
  have hh := toNat_ofInt hheight32 hheight
  rw [readArea_areaTail hmore, toInt_ofInt hx, toInt_ofInt hy, hw, hh]
  simp only [isInt32, Bool.and_eq_true, decide_eq_true_eq] at hx hy hwidth32 hheight32
  have hmax : (int32Max : ℤ) = 2 ^ 31 - 1 := by decide
  have hpositive : (BitVec.ofInt 32 width).toNat ≠ 0 ∧ (BitVec.ofInt 32 height).toNat ≠ 0 := by omega
  have hsmall : ¬int32Max < (BitVec.ofInt 32 width).toNat ∧ ¬int32Max < (BitVec.ofInt 32 height).toNat := by omega
  simp only [beq_false_of_ne hpositive.1, beq_false_of_ne hpositive.2, decide_eq_false hsmall.1,
    decide_eq_false hsmall.2, Bool.false_or]
  have hfit : edgesFit body ↔ x + width < 2 ^ 31 ∧ y + height < 2 ^ 31 := by
    simp only [edgesFit, h, Option.all_some, isInt32, Bool.and_eq_true, decide_eq_true_eq]
    omega
  rw [hfit]
  by_cases hedges : x + width < 2 ^ 31 ∧ y + height < 2 ^ 31
  · have hright : ¬(int32Max : ℤ) < x + width := by omega
    have hbottom : ¬(int32Max : ℤ) < y + height := by omega
    rw [decide_eq_false hright, decide_eq_false hbottom]
    exact ⟨fun _ => hedges, fun _ => ⟨_, rfl⟩⟩
  · have hover : (decide ((int32Max : ℤ) < x + width) || decide ((int32Max : ℤ) < y + height)) = true := by
      simp only [Bool.or_eq_true, decide_eq_true_eq]
      omega
    rw [hover]
    exact ⟨nofun, fun hfits => absurd hfits hedges⟩

/-- Every other answer that the daemon translates is read. -/
theorem reader_ok_iff (h : Translated opcode body tail) (hmore : frame.flags &&& flagMore = 0) (status : Status)
    (detail : BitVec 32) :
    (∃ value, reader opcode ⟨frame, status, detail, tail⟩ = .ok value) ↔
      (opcode = Op.workArea → edgesFit body) := by
  cases h with
  | text isText fits valid =>
    have hne : opcode ≠ Op.workArea := by
      rintro rfl
      exact absurd isText (by decide)
    have hread : reader opcode ⟨frame, status, detail, encodeU32 (BitVec.ofNat 32 body.length) ++ body⟩ =
        .ok (.text body) := by
      simp only [reader, isText, if_true, readString, hmore, bne_self_eq_false, Bool.false_eq_true, if_false,
        parseOwnedString_framed fits valid]
    simp [hread, hne]
  | position isPosition x y parsed =>
    subst isPosition
    have hne : Op.cursorPosition ≠ Op.workArea := by decide
    have htext : ¬isTextAnswer Op.cursorPosition := by decide
    simp [reader, htext, readPosition, hmore, hne]
  | area isArea x y width height parsed =>
    subst isArea
    have hread : reader Op.workArea = readArea := rfl
    rw [hread, readArea_ok_iff hmore status detail parsed]
    simp
  | empty isEmpty nothing =>
    have hclasses : isTextAnswer opcode = false ∧ opcode ≠ Op.cursorPosition ∧ opcode ≠ Op.workArea := by
      simp only [isEmptyAnswer, decide_eq_true_eq, List.mem_cons, List.not_mem_nil, or_false] at isEmpty
      rcases isEmpty with h | h | h | h | h | h | h | h | h | h <;> subst h <;> decide
    obtain ⟨htext, hposition, harea⟩ := hclasses
    simp [reader, htext, hposition, harea, readEmpty, hmore]

end Translation

section Acceptance

variable {request : Frame} {status : Status} {detail : BitVec 32} {diagnostic : Option Bytes} {tail rest : Bytes}
  {effectiveSequence : BitVec 64} {c : Connection} {s : Socket} {turns : ℕ} {result : OperationResult}

/-- The function that sent a request, from where it waits for the response. -/
def perform (request : Frame) (turns : ℕ) (c : Connection) (s : Socket) : Option Outcome :=
  match readResponse request.opcode request.requestId turns c s with
  | (_, _, none) => none
  | (c, _, some reply) => some (operation request.opcode c reply)

/-- The function returns, and exactly where the response is acceptable the connection holds and the status is
the one that was sent. -/
def Returns (request : Frame) (turns : ℕ) (c : Connection) (s : Socket) (status : Status) (acceptable : Prop) :
    Prop :=
  ∃ outcome, perform request turns c s = some outcome ∧ (outcome.connection.connected ↔ acceptable) ∧
    (acceptable → outcome.status = status)

theorem Returns.congr {p q : Prop} (h : Returns request turns c s status p) (hpq : p ↔ q) :
    Returns request turns c s status q := propext hpq ▸ h

/-- A connection between two requests, with a response in front of what has arrived. -/
structure Answered (c : Connection) (s : Socket) (turns : ℕ) (sent : Frame) : Prop where
  connected : c.connected
  idle : c.input.data = []
  room : c.input.maximum = maxResponse + frameHeaderSize
  front : ∃ rest, s.pending.flatten = sent.bytes ++ rest
  turns : Stream.size s.pending < turns

theorem Answered.read {payload : Bytes} (h : Answered c s turns (responseFrame request false payload))
    (hid : request.requestId ≠ 0) (hpayload : payload.length ≤ maxResponse) :
    ∃ d t, d.connected ∧ readResponse request.opcode request.requestId turns c s =
      ((answerResponse d request.opcode request.requestId (responseFrame request false payload)).1, t,
        some (answerResponse d request.opcode request.requestId (responseFrame request false payload)).2) := by
  obtain ⟨rest, hfront⟩ := h.front
  have hsized := responseFrame_sized request false hpayload
  obtain ⟨input, t, -, -, hread⟩ := readResponse_frame hsized (responseFrame_acceptable hid false hpayload)
    (responseFrame_flags request false _).2 h.idle
    (by
      rw [h.room, hsized.length_bytes, Nat.add_comm]
      exact Nat.add_le_add_right hpayload _) hfront h.turns
  exact ⟨{ c with input }, t, h.connected, hread⟩

theorem length_sequencedTail_le (opcode : Opcode) (tail : Bytes) (effectiveSequence : BitVec 64) :
    (sequencedTail opcode tail effectiveSequence).length ≤ tail.length + 8 := by
  unfold sequencedTail
  split_ifs
  · rw [List.length_append, length_encodeU64]
  · omega

theorem returns_ok (hid : request.requestId ≠ 0) (hshort : tail.length ≤ maxTextBytes)
    (h : Answered c s turns (responseFrame request false
      (encodeU32 Status.ok ++ (encodeU32 detail ++ sequencedTail request.opcode tail effectiveSequence)))) :
    Returns request turns c s Status.ok
      (∃ value, reader request.opcode ⟨responseFrame request false (encodeU32 Status.ok ++ (encodeU32 detail ++
        sequencedTail request.opcode tail effectiveSequence)), Status.ok, detail, tail⟩ = .ok value) := by
  have hlength := length_sequencedTail_le request.opcode tail effectiveSequence
  have hroom : maxTextBytes + 16 ≤ maxResponse := by decide
  obtain ⟨d, t, hconnected, hread⟩ := h.read hid (by
    simp only [List.length_append, length_encodeU32]
    omega)
  rw [answerResponse_ok] at hread
  simp only [Returns, perform, hread, operation_eq, Option.some.injEq, exists_eq_left']
  generalize responseFrame request false (encodeU32 Status.ok ++ (encodeU32 detail ++
    sequencedTail request.opcode tail effectiveSequence)) = sent
  cases hvalue : reader request.opcode ⟨sent, Status.ok, detail, tail⟩ with
  | error message => simp [requestResult, hvalue, invalidResponse, systemFailure]
  | ok value => simp [requestResult, hvalue, hconnected]

theorem returns_error (hid : request.requestId ≠ 0) (hstatus : status ≠ Status.ok)
    (h : Answered c s turns (responseFrame request false
      (encodeU32 status ++ (encodeU32 detail ++ messageBytes diagnostic)))) :
    Returns request turns c s status (validStatus status) := by
  have hmessage := length_messageBytes_le diagnostic
  have hroom : 8 + (3 + errorMessageCapacity) ≤ maxResponse := by decide
  obtain ⟨d, t, hconnected, hread⟩ := h.read hid (by
    simp only [List.length_append, length_encodeU32]
    omega)
  by_cases hvalid : validStatus status
  · rw [answerResponse_error d request diagnostic detail hvalid hstatus] at hread
    simp [Returns, perform, hread, operation_eq, requestResult, hstatus, hconnected, hvalid]
  · have hrefused : parseResponse (responseFrame request false
        (encodeU32 status ++ (encodeU32 detail ++ messageBytes diagnostic))) request.opcode request.requestId = none := by
      rw [parseResponse_head]
      simp [hvalid]
    simp only [answerResponse, hrefused] at hread
    simp [Returns, perform, hread, operation_eq, requestResult, failedReply, systemFailure, hvalid]

end Acceptance

section Relay

variable {request : Frame} {status : Status} {body : Bytes} {effectiveSequence : BitVec 64} {c : Connection}
  {s : Socket} {turns i : ℕ} {result : OperationResult} {relay : KwinRelay} {requestId : BitVec 64}
  {frame : RelayFrame} {opcode : Opcode}

/-- What `ksd_kwin_relay_call` returns to the caller of slot `i` once a frame has arrived, whatever the others
do in between; nobody reads from a channel that is broken. -/
def Relayed (relay : KwinRelay) (i : ℕ) (frame : RelayFrame) (result : OperationResult) : Prop :=
  ∃ rest labels later, RelayRun (relayRead relay (frame.bytes ++ rest) frame.fd) labels later ∧
    RelayStep.finish i ∉ labels ∧
    ((relayRead relay (frame.bytes ++ rest) frame.fd).broken → ∀ stream fd, RelayStep.read stream fd ∉ labels) ∧
    result = (relayFinish later i true).1

theorem kwinResult_ok {translated : Buffer}
    (h : kwinResponsePayload opcode body (bufferInit (maxTextBytes + 4)) = some translated) :
    kwinResult opcode Status.ok body = resultTake translated.data := by
  rw [kwinResult, if_pos rfl, h]

/-- Only a text can pass the reader's limit. -/
theorem Translated.isText_of_long {tail : Bytes} (h : Translated opcode body tail)
    (hlong : ¬tail.length ≤ maxTextBytes) : isTextAnswer opcode := by
  have hroom : 16 ≤ maxTextBytes := by decide
  cases h with
  | text isText => exact isText
  | position =>
    simp only [List.length_append, length_encodeU32] at hlong
    omega
  | area =>
    simp only [areaTail, List.length_append, length_encodeU32] at hlong
    omega
  | empty => exact absurd (Nat.zero_le _) hlong

/-- An answer that the relay refuses leaves its caller to wait in vain. -/
theorem Relayed.of_long (h : Relayed relay i frame result) (hs : relay.Sound) (hids : relay.nextRequestId ≤ 2 ^ 64)
    (hw : Waiting relay i opcode requestId)
    (hsent : relayAnswer requestId opcode status body = some frame)
    (hlong : ¬(kwinResult opcode status body).tail.length ≤ maxTextBytes) :
    result = resultError Status.timeout 0 timeoutText := by
  obtain ⟨rest, labels, later, hrun, hother, hreads, rfl⟩ := h
  have ha : BackendAnswer requestId opcode frame (kwinResult opcode status body) := .kwin hsent
  obtain ⟨-, hbroken⟩ := relayRead_long hs hids hw ha hlong rest
  have hread := readOne_answer hs hids hw ha.shape rest
  rw [if_neg (mt (length_answerTail ha.shape).mp hlong)] at hread
  have hslot : (relayRead relay (frame.bytes ++ rest) frame.fd).slot i = relay.slot i := by
    rw [ha.frame_eq]
    simp only [relayRead, hread]
    rfl
  have hkept := RelayRun.slot_unread hrun (by rw [hslot]; exact hw.active) hother (hreads hbroken)
  simp only [relayFinish, hkept, hslot, slotAnswer, hw.undone, Bool.not_false, if_true, Option.getD_none]

theorem Relayed.of_short (h : Relayed relay i frame result) (hs : relay.Sound)
    (hids : relay.nextRequestId ≤ 2 ^ 64) (hw : Waiting relay i opcode requestId)
    (hsent : relayAnswer requestId opcode status body = some frame)
    (hshort : (kwinResult opcode status body).tail.length ≤ maxTextBytes) :
    result = received (kwinResult opcode status body) := by
  obtain ⟨rest, labels, later, hrun, hother, -, rfl⟩ := h
  exact (delivered_of_short hs hids hw (.kwin hsent) hshort).returned rest labels later hrun hother

/-- A failure reaches the client where it knows the status. -/
theorem resultResponse_error (hid : request.requestId ≠ 0) (hstatus : result.status ≠ Status.ok)
    (effectiveSequence : BitVec 64) :
    ∃ sent, resultResponse request result effectiveSequence = some sent ∧
      ∀ c s turns, Answered c s turns sent →
        Returns request turns c s result.status (validStatus result.status) := by
  refine ⟨_, forwardResponse_error hid hstatus result.detail effectiveSequence false, ?_⟩
  intro c s turns hanswered
  exact returns_error hid hstatus hanswered

theorem resultResponse_ok {tail : Bytes} (hid : request.requestId ≠ 0) (hshort : tail.length ≤ maxTextBytes)
    (htranslated : Translated request.opcode body tail) (effectiveSequence : BitVec 64) :
    ∃ sent, resultResponse request (resultTake tail) effectiveSequence = some sent ∧
      ∀ c s turns, Answered c s turns sent →
        Returns request turns c s Status.ok (request.opcode = Op.workArea → edgesFit body) := by
  have hlength := length_sequencedTail_le request.opcode tail effectiveSequence
  have hroom : maxTextBytes + 16 ≤ maxCaptureBytes + 64 := by decide
  have hfits : 8 + (sequencedTail request.opcode tail effectiveSequence).length ≤ maxCaptureBytes + 64 := by omega
  refine ⟨_, forwardResponse_ok hid 0 effectiveSequence false hfits, ?_⟩
  intro c s turns hanswered
  refine (returns_ok hid hshort hanswered).congr (reader_ok_iff htranslated ?_ Status.ok 0)
  simp only [responseFrame]
  decide

theorem parseArea_eq_none (h : kwinResponsePayload Op.workArea body (bufferInit (maxTextBytes + 4)) = none) :
    parseArea body = none := by
  cases hparsed : parseArea body with
  | none => rfl
  | some area =>
    obtain ⟨x, y, width, height⟩ := area
    obtain ⟨b, hb, -⟩ := ((bufferU32_writes (BitVec.ofInt 32 x)).bind ((bufferU32_writes (BitVec.ofInt 32 y)).bind
      ((bufferU32_writes (BitVec.ofInt 32 width)).bind
        (bufferU32_writes (BitVec.ofInt 32 height))))).exists_of_fits (b := bufferInit (maxTextBytes + 4)) (by
          simp only [bufferInit, List.length_nil, List.length_append, length_encodeU32]
          decide)
    have hwritten : kwinResponsePayload Op.workArea body (bufferInit (maxTextBytes + 4)) = some b := by
      have htext : ¬isTextAnswer Op.workArea := by decide
      have hposition : Op.workArea ≠ Op.cursorPosition := by decide
      rw [kwinResponsePayload, if_neg htext, if_neg hposition, if_pos rfl, hparsed]
      exact hb
    rw [h] at hwritten
    cases hwritten

/-- What becomes of a script's answer on the way to the authority. -/
inductive Carried (opcode : Opcode) (status : Status) (body : Bytes) : OperationResult → Prop
  | data (tail : Bytes) (succeeded : status = Status.ok) (short : tail.length ≤ maxTextBytes)
      (translated : Translated opcode body tail) : Carried opcode status body (resultTake tail)
  | refused (result : OperationResult) (succeeded : status = Status.ok) (error : result.status ≠ Status.ok)
      (known : validStatus result.status) (elsewhere : opcode = Op.workArea → edgesFit body) :
      Carried opcode status body result
  | failed (result : OperationResult) (failed : status ≠ Status.ok) (same : result.status = status) :
      Carried opcode status body result

theorem Relayed.carried (h : Relayed relay i frame result) (hs : relay.Sound) (hids : relay.nextRequestId ≤ 2 ^ 64)
    (hw : Waiting relay i opcode requestId) (hsent : relayAnswer requestId opcode status body = some frame) :
    Carried opcode status body result := by
  by_cases hstatus : status = Status.ok
  · subst hstatus
    cases hpayload : kwinResponsePayload opcode body (bufferInit (maxTextBytes + 4)) with
    | none =>
      have hkwin : kwinResult opcode Status.ok body = resultError Status.internal 0 [] := by
        rw [kwinResult, if_pos rfl, hpayload]
      have hresult := h.of_short hs hids hw hsent (by rw [hkwin]; exact Nat.zero_le _)
      rw [hkwin] at hresult
      rw [hresult]
      refine .refused _ rfl (by decide) (by decide) fun harea => ?_
      rw [harea] at hpayload
      rw [edgesFit, parseArea_eq_none hpayload]
      rfl
    | some translated =>
      have hkwin := kwinResult_ok hpayload
      have htranslated := translated_of_kwinResponsePayload hpayload
      by_cases hshort : translated.data.length ≤ maxTextBytes
      · have hresult := h.of_short hs hids hw hsent (by rw [hkwin]; exact hshort)
        rw [hkwin] at hresult
        rw [hresult]
        exact .data translated.data rfl hshort htranslated
      · have hresult := h.of_long hs hids hw hsent (by rw [hkwin]; exact hshort)
        have htext := htranslated.isText_of_long hshort
        rw [hresult]
        refine .refused _ rfl (by decide) (by decide) fun harea => ?_
        rw [harea] at htext
        exact absurd htext (by decide)
  · have hkwin : kwinResult opcode status body = resultError status 0 [] := by
      rw [kwinResult, if_neg hstatus]
    have hresult := h.of_short hs hids hw hsent (by rw [hkwin]; exact Nat.zero_le _)
    refine .failed result hstatus ?_
    rw [hresult, hkwin, received]
    split_ifs <;> rfl

/-- The client takes an answer of KWin's script exactly where it knows the status, and where the edges of a
work area fit 32 bits; any other answer costs it the connection. -/
theorem kwinAnswer_accepted_iff (hrelay : relay.Reachable) (hids : relay.nextRequestId ≤ 2 ^ 64)
    (hw : Waiting relay i request.opcode requestId) (hid : request.requestId ≠ 0)
    (hsent : relayAnswer requestId request.opcode status body = some frame)
    (hrelayed : Relayed relay i frame result) (effectiveSequence : BitVec 64) :
    ∃ sent, resultResponse request result effectiveSequence = some sent ∧
      ∀ c s turns, Answered c s turns sent →
        Returns request turns c s result.status
          (validStatus status ∧ (status = Status.ok → request.opcode = Op.workArea → edgesFit body)) := by
  have hknown : validStatus Status.ok := by decide
  cases hrelayed.carried hrelay.sound hids hw hsent with
  | data tail succeeded short translated =>
    obtain ⟨sent, hresponse, hreturns⟩ := resultResponse_ok hid short translated effectiveSequence
    refine ⟨sent, hresponse, fun c s turns hanswered => (hreturns c s turns hanswered).congr ?_⟩
    simp [succeeded, hknown]
  | refused result succeeded error known elsewhere =>
    obtain ⟨sent, hresponse, hreturns⟩ := resultResponse_error hid error effectiveSequence
    refine ⟨sent, hresponse, fun c s turns hanswered => (hreturns c s turns hanswered).congr ?_⟩
    rw [succeeded]
    exact iff_of_true known ⟨hknown, fun _ => elsewhere⟩
  | failed result failed same =>
    obtain ⟨sent, hresponse, hreturns⟩ := resultResponse_error hid (by rwa [same]) effectiveSequence
    refine ⟨sent, hresponse, fun c s turns hanswered => (hreturns c s turns hanswered).congr ?_⟩
    simp [same, failed]

end Relay

section Cases

/-- A request for the work area. -/
def areaRequest : Frame := requestFrame Op.workArea 0 9 []

/-- A work area as wide as a number of 32 bits, one pixel from the left. -/
def wideBody : Bytes := ascii "\x7b\"x\":1,\"y\":0,\"width\":2147483647,\"height\":1080\x7d"

def wideDone : KwinDone := ⟨ascii "0000000000000001", Status.ok, wideBody⟩

/-- The report that brings it. -/
def wideReport : Bytes :=
  ascii "KSK1\ngen 0123456789abcdef0123456789abcdef\ndone 0000000000000001 0 46\nend\n" ++ wideBody

def commonBody : Bytes := ascii "\x7b\"x\":0,\"y\":0,\"width\":1920,\"height\":1080\x7d"

/-- A connection that has just been set up. -/
def freshConnection : Connection :=
  ⟨.rpc, true, 10, 0, 0, bufferInit (maxResponse + frameHeaderSize), [], 0, 0⟩

theorem freshConnection_answered (sent : Frame) :
    Answered freshConnection ⟨[sent.bytes], false⟩ (Stream.size [sent.bytes] + 1) sent :=
  ⟨rfl, rfl, rfl, ⟨[], by simp⟩, Nat.lt_succ_self _⟩

/-- The caller of a fresh relay takes its answer at once. -/
theorem oneWaiting_relayed (opcode : Opcode) (frame : RelayFrame) :
    ∃ result, Relayed (oneWaiting opcode) 0 frame result :=
  ⟨_, [], [], _, .nil _, List.not_mem_nil, fun _ _ _ => List.not_mem_nil, rfl⟩

/-- The daemon accepts the report, and the client closes its connection over the answer. -/
theorem wideArea_closes :
    kwinParseReport wideReport = some ⟨ascii "0123456789abcdef0123456789abcdef", [wideDone]⟩ ∧
      ∃ frame result sent outcome, relayAnswer 1 Op.workArea wideDone.status wideDone.body = some frame ∧
        Relayed (oneWaiting Op.workArea) 0 frame result ∧ resultResponse areaRequest result 0 = some sent ∧
        perform areaRequest (Stream.size [sent.bytes] + 1) freshConnection ⟨[sent.bytes], false⟩ = some outcome ∧
        freshConnection.connected ∧ outcome.connection.connected = false := by
  refine ⟨by decide +kernel, ?_⟩
  obtain ⟨frame, hsent⟩ : ∃ frame, relayAnswer 1 Op.workArea Status.ok wideBody = some frame :=
    ⟨_, by rw [relayAnswer_eq, servePersistently_eq]⟩
  obtain ⟨result, hrelayed⟩ := oneWaiting_relayed Op.workArea frame
  have hedges : ¬edgesFit wideBody := by decide +kernel
  refine ⟨frame, result, ?_⟩
  cases hrelayed.carried (oneWaiting_reachable _).sound (by decide) (oneWaiting_waiting _) hsent with
  | data tail _ short translated =>
    have hid : areaRequest.requestId ≠ 0 := by decide
    have harea : Translated areaRequest.opcode wideBody tail := translated
    obtain ⟨sent, hresponse, hreturns⟩ := resultResponse_ok hid short harea 0
    obtain ⟨outcome, hperform, hconnected, -⟩ := hreturns _ _ _ (freshConnection_answered sent)
    refine ⟨sent, outcome, hsent, hrelayed, hresponse, hperform, rfl, ?_⟩
    rw [← Bool.not_eq_true, hconnected]
    exact fun hfits => hedges (hfits rfl)
  | refused _ _ _ _ elsewhere => exact absurd (elsewhere rfl) hedges
  | failed _ failed => exact absurd rfl failed

/-- The work area of a common screen is accepted. -/
theorem commonArea_accepted :
    ∃ frame result sent, relayAnswer 1 areaRequest.opcode Status.ok commonBody = some frame ∧
      Relayed (oneWaiting areaRequest.opcode) 0 frame result ∧ resultResponse areaRequest result 0 = some sent ∧
      ∀ c s turns, Answered c s turns sent → Returns areaRequest turns c s result.status True := by
  obtain ⟨frame, hsent⟩ : ∃ frame, relayAnswer 1 areaRequest.opcode Status.ok commonBody = some frame :=
    ⟨_, by rw [relayAnswer_eq, servePersistently_eq]⟩
  obtain ⟨result, hrelayed⟩ := oneWaiting_relayed areaRequest.opcode frame
  obtain ⟨sent, hresponse, hreturns⟩ := kwinAnswer_accepted_iff (oneWaiting_reachable _) (by decide)
    (oneWaiting_waiting _) (by decide) hsent hrelayed 0
  have hedges : edgesFit commonBody := by decide +kernel
  refine ⟨frame, result, sent, hsent, hrelayed, hresponse, fun c s turns hanswered => ?_⟩
  exact (hreturns c s turns hanswered).congr (iff_true_intro ⟨by decide, fun _ _ => hedges⟩)

end Cases

end KeysharpDesktop.Client
