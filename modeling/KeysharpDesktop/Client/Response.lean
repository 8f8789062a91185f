import KeysharpDesktop.Authority.Respond
import KeysharpDesktop.Client.Connection

/-! What the authority sends in response to a request is what the client makes of it. -/
namespace KeysharpDesktop.Client

section Arrival

variable {opcode : Opcode} {requestId : BitVec 64} {c : Connection} {s : Socket} {frame : Frame} {rest : Bytes}
  {turns : ℕ}

theorem responsePass_frame {t : Socket} {d : Connection} (h : receiveResponse c s = (.frame frame, d, t))
    (hevent : frame.flags &&& flagEvent = 0) :
    responsePass opcode requestId c s =
      ((answerResponse d opcode requestId frame).1, t, some (answerResponse d opcode requestId frame).2) := by
  simp only [responsePass, h, hevent, bne_self_eq_false, Bool.false_eq_true, if_false]

/-- On a stream the response may come in parts, and a pass that gets one part of it is followed by another. -/
theorem readResponse_stream (hsized : frame.Sized) (hok : frame.Acceptable clientRules)
    (hevent : frame.flags &&& flagEvent = 0) (hrole : c.role ≠ .rpc)
    (hroom : frame.bytes.length ≤ c.input.maximum) (hpart : c.input.data.length < frame.bytes.length)
    (hstream : c.input.data ++ s.pending.flatten = frame.bytes ++ rest) (hturns : Stream.size s.pending < turns) :
    ∃ input t, input.data = [] ∧ t.pending.flatten = rest ∧
      readResponse opcode requestId turns c s =
        ((answerResponse { c with input } opcode requestId frame).1, t,
          some (answerResponse { c with input } opcode requestId frame).2) := by
  induction turns generalizing c s with
  | zero => omega
  | succ turns ih =>
    have henough : Stream.size s.pending < Stream.size s.pending + 2 := by omega
    obtain ⟨arrival, input, t, hloop, hreceived⟩ := receiveEventLoop_received hsized hok henough (fun _ => rfl)
      hroom (Nat.le_of_lt hpart) (by rwa [List.append_nil])
    have hreceive : receiveResponse c s = (arrival, { c with input }, t) := by
      simp only [receiveResponse, hrole, if_false, receiveEventFrame, hloop]
    rcases hreceived.outcome with ⟨rfl, hinput, hrest, -⟩ | ⟨rfl, hshort, hsame, hfewer⟩
    · rw [List.append_nil] at hrest
      refine ⟨input, t, hinput, hrest, ?_⟩
      simp only [readResponse, responsePass_frame hreceive hevent]
    · rw [List.append_nil] at hsame
      have hpass : responsePass opcode requestId c s = ({ c with input }, t, none) := by
        simp only [responsePass, hreceive]
      have hless : Stream.size t.pending < Stream.size s.pending := by
        rcases hfewer with ⟨-, hnone⟩ | hless
        · have hlength := congrArg List.length hsame
          rw [hnone] at hlength
          simp only [List.flatten_nil, List.append_nil, List.length_append] at hlength
          omega
        · exact hless
      obtain ⟨last, u, hlast, hu, hread⟩ := ih (c := { c with input }) hrole (by rwa [hreceived.maximum])
        hshort hsame (by omega)
      refine ⟨last, u, hlast, hu, ?_⟩
      rw [readResponse, hpass]
      exact hread

/-- A frame at the front of what has arrived is the response that is read. -/
theorem readResponse_frame (hsized : frame.Sized) (hok : frame.Acceptable clientRules)
    (hevent : frame.flags &&& flagEvent = 0) (hinput : c.input.data = [])
    (hroom : frame.bytes.length ≤ c.input.maximum)
    (hstream : s.pending.flatten = frame.bytes ++ rest) (hturns : Stream.size s.pending < turns) :
    ∃ input t, input.data = [] ∧ t.pending.flatten = rest ∧
      readResponse opcode requestId turns c s =
        ((answerResponse { c with input } opcode requestId frame).1, t,
          some (answerResponse { c with input } opcode requestId frame).2) := by
  by_cases hrole : c.role = .rpc
  · have hgives := frameReadFd_gives clientRules s.pending
    have hone : OneFrame frame.bytes := by
      rw [OneFrame, hsized.decode_bytes, hsized.length_bytes]
      exact congrArg _ hsized.payloadLength.symm
    rw [hstream, frontFrame_append hone, frameUnpack_bytes hsized,
      if_pos ((frameHeaderAcceptable_iff hsized).mpr hok)] at hgives
    obtain ⟨hdone, hrest⟩ := hgives
    rcases hread : frameReadFd clientRules s.pending with ⟨r, pending⟩
    rw [hread] at hdone hrest
    obtain rfl : r = .done frame := hdone
    have hreceive : receiveResponse c s = (.frame frame, c, { s with pending }) := by
      simp only [receiveResponse, hrole, if_true, hread]
    refine ⟨c.input, { s with pending }, hinput, hrest, ?_⟩
    obtain ⟨turns, rfl⟩ : ∃ n, turns = n + 1 := ⟨turns - 1, by omega⟩
    simp only [readResponse, responsePass_frame hreceive hevent]
  · apply readResponse_stream hsized hok hevent hrole hroom _ _ hturns
    · rw [hinput, hsized.length_bytes, List.length_nil, frameHeaderSize]
      omega
    · rw [hinput, List.nil_append, hstream]

end Arrival

section Parse

variable {request : Frame} {status : Status} {tail payload : Bytes} {diagnostic : Option Bytes}

theorem responseFrame_flags (request : Frame) (more : Bool) (payload : Bytes) :
    (responseFrame request more payload).flags &&& flagResponse ≠ 0 ∧
      (responseFrame request more payload).flags &&& flagEvent = 0 := by
  simp only [responseFrame]
  cases more <;> decide

theorem responseFrame_sized (request : Frame) (more : Bool) (h : payload.length ≤ maxResponse) :
    (responseFrame request more payload).Sized := by
  have hmax : maxResponse < 2 ^ 32 := by decide
  exact ⟨rfl, Nat.lt_of_le_of_lt h hmax⟩

theorem responseFrame_acceptable (hid : request.requestId ≠ 0) (more : Bool) (h : payload.length ≤ maxResponse) :
    (responseFrame request more payload).Acceptable clientRules := by
  refine ⟨rfl, rfl, rfl, h, fun _ => ?_⟩
  simp only [validPublicHeader, responseFrame]
  cases more <;> simpa [flagAll, flagResponse, flagEvent, flagMore] using hid

/-- The fields in front of every response are the ones it was built with. -/
theorem parseResponse_head (request : Frame) (status : Status) (detail : BitVec 32) (body : Bytes) (more : Bool) :
    let frame := responseFrame request more (encodeU32 status ++ (encodeU32 detail ++ body))
    parseResponse frame request.opcode request.requestId =
      if !validStatus status then none
      else if status == Status.ok then some (⟨frame, status, detail, body⟩, resetError)
      else if frame.flags &&& flagMore != 0 then none
      else (parseDiagnostic body).bind fun message =>
        some (⟨frame, status, detail, []⟩, setError detail none message) := by
  obtain ⟨hresponse, hevent⟩ := responseFrame_flags request more (encodeU32 status ++ (encodeU32 detail ++ body))
  have hlength : ¬(encodeU32 status ++ (encodeU32 detail ++ body)).length < 8 := by
    simp only [List.length_append, length_encodeU32]
    omega
  have hopcode : (responseFrame request more (encodeU32 status ++ (encodeU32 detail ++ body))).opcode =
      request.opcode := rfl
  have hid : (responseFrame request more (encodeU32 status ++ (encodeU32 detail ++ body))).requestId =
      request.requestId := rfl
  have hpayload : (responseFrame request more (encodeU32 status ++ (encodeU32 detail ++ body))).payload =
      encodeU32 status ++ (encodeU32 detail ++ body) := rfl
  simp only [parseResponse, beq_false_of_ne hresponse, hevent, hopcode, hid, hpayload, decide_eq_false hlength,
    bne_self_eq_false, Bool.or_self, Bool.false_eq_true, if_false, cursorU32_encodeU32, Option.bind_eq_bind,
    Option.bind_some]

theorem parseResponse_ok (request : Frame) (detail : BitVec 32) (tail : Bytes) (more : Bool) :
    let frame := responseFrame request more (encodeU32 Status.ok ++ (encodeU32 detail ++ tail))
    parseResponse frame request.opcode request.requestId = some (⟨frame, Status.ok, detail, tail⟩, resetError) := by
  have hvalid : validStatus Status.ok = true := by decide
  dsimp only
  rw [parseResponse_head, hvalid]
  rfl

/-- The part of a message that is sent. -/
def sentMessage (text : Bytes) : Bytes := (cString text).take (diagnosticLength (cString text))

theorem sentMessage_valid (text : Bytes) : utf8Valid false (sentMessage text) := utf8Trim_valid

theorem length_sentMessage (text : Bytes) : (sentMessage text).length = diagnosticLength (cString text) := by
  rw [sentMessage, List.length_take, Nat.min_eq_left (diagnosticLength_le _)]

theorem parseDiagnostic_messageBytes (diagnostic : Option Bytes) :
    parseDiagnostic (messageBytes diagnostic) = some (diagnostic.map sentMessage) := by
  cases diagnostic with
  | none => rfl
  | some text =>
    have hlt := diagnosticLength_lt (cString text)
    have hsmall : errorMessageCapacity < 2 ^ 32 := by decide
    have hlength : (BitVec.ofNat 32 (diagnosticLength (cString text))).toNat = (sentMessage text).length := by
      rw [length_sentMessage, BitVec.toNat_ofNat, Nat.mod_eq_of_lt (by omega)]
    have hbytes : messageBytes (some text) =
        encodeU32 (BitVec.ofNat 32 (diagnosticLength (cString text))) ++ sentMessage text := rfl
    have hlong : cursorFinished (messageBytes (some text)) = false := by
      rw [cursorFinished, List.isEmpty_eq_false_iff, ← List.length_pos_iff, hbytes, List.length_append,
        length_encodeU32]
      omega
    have hread := cursorBytes_append (sentMessage text) []
    rw [List.append_nil] at hread
    have hroom : ¬errorMessageCapacity ≤ (sentMessage text).length := by
      rw [length_sentMessage]
      omega
    simp only [parseDiagnostic, hlong, Bool.false_eq_true, if_false]
    simp only [hbytes, cursorU32_encodeU32, Option.bind_eq_bind, Option.bind_some, hlength, if_neg hroom, hread,
      cursorFinished, List.isEmpty_nil, sentMessage_valid, Bool.not_true, Bool.or_self, Bool.false_eq_true,
      if_false, Option.map_some]

theorem parseResponse_error (request : Frame) (diagnostic : Option Bytes) (hvalid : validStatus status)
    (hstatus : status ≠ Status.ok) (detail : BitVec 32) :
    let frame := responseFrame request false (encodeU32 status ++ (encodeU32 detail ++ messageBytes diagnostic))
    parseResponse frame request.opcode request.requestId =
      some (⟨frame, status, detail, []⟩, setError detail none (diagnostic.map sentMessage)) := by
  have hmore : ((responseFrame request false (encodeU32 status ++ (encodeU32 detail ++
      messageBytes diagnostic))).flags &&& flagMore != 0) = false := by
    simp only [responseFrame]
    decide
  dsimp only
  rw [parseResponse_head, hvalid, hmore, beq_false_of_ne hstatus, parseDiagnostic_messageBytes]
  rfl

end Parse

section RoundTrip

variable {request : Frame} {status : Status} {detail : BitVec 32} {diagnostic : Option Bytes} {tail : Bytes}
  {effectiveSequence : BitVec 64} {more : Bool}

/-- The longest part from the front of a text that is valid and leaves room for its terminator. -/
structure Longest (text message : Bytes) : Prop where
  front : message <+: text
  valid : utf8Valid false message
  short : message.length < errorMessageCapacity
  longest : ∀ other, other <+: text → utf8Valid false other → other.length < errorMessageCapacity →
    other.length ≤ message.length

theorem cString_of_notMem {text : Bytes} (h : 0 ∉ text) : cString text = text := by
  rw [cString, List.takeWhile_eq_self_iff]
  intro b hb
  rw [bne_iff_ne]
  rintro rfl
  exact h hb

theorem sentMessage_longest {text : Bytes} (h : 0 ∉ text) : Longest text (sentMessage text) := by
  have hlength := length_sentMessage text
  rw [cString_of_notMem h] at hlength
  refine ⟨?_, sentMessage_valid text, ?_, fun other hother hvalid hshort => ?_⟩
  · rw [sentMessage, cString_of_notMem h]
    exact List.take_prefix _ _
  · rw [hlength]
    exact diagnosticLength_lt text
  · have hle := hother.length_le
    rw [hlength]
    apply le_utf8Trim
    · rw [← List.prefix_iff_eq_take.mp hother]
      exact hvalid
    · split_ifs
      · omega
      · exact hle

/-- A message within its room is kept as it is. -/
theorem setError_sentMessage (detail : BitVec 32) (diagnostic : Option Bytes) :
    (setError detail none (diagnostic.map sentMessage)).message = (diagnostic.map sentMessage).getD [] := by
  cases diagnostic with
  | none => rfl
  | some text =>
    have hlt := diagnosticLength_lt (cString text)
    simp only [setError, Option.map_some, Option.getD_some, cString_of_valid (sentMessage_valid text)]
    apply List.take_of_length_le
    rw [length_sentMessage]
    omega

theorem answerResponse_ok (c : Connection) (request : Frame) (detail : BitVec 32) (tail : Bytes)
    (effectiveSequence : BitVec 64) (more : Bool) :
    let frame := responseFrame request more
      (encodeU32 Status.ok ++ (encodeU32 detail ++ sequencedTail request.opcode tail effectiveSequence))
    answerResponse c request.opcode request.requestId frame =
      ({ c with sequence := if stateMutatesWindows request.opcode then effectiveSequence else c.sequence },
        ⟨Status.ok, some ⟨frame, Status.ok, detail, tail⟩, resetError⟩) := by
  dsimp only
  rw [answerResponse, parseResponse_ok]
  by_cases hmutates : stateMutatesWindows request.opcode
  · have htail : sequencedTail request.opcode tail effectiveSequence = tail ++ encodeU64 effectiveSequence :=
      if_pos hmutates
    have hlength : (tail ++ encodeU64 effectiveSequence).length - 8 = tail.length := by
      rw [List.length_append, length_encodeU64]
      omega
    have hlong : ¬(tail ++ encodeU64 effectiveSequence).length < 8 := by
      rw [List.length_append, length_encodeU64]
      omega
    have hsequence : decodeU64 (encodeU64 effectiveSequence) = effectiveSequence := by
      have hword := decodeU64_encodeU64 effectiveSequence []
      rwa [List.append_nil] at hword
    simp only [htail, BEq.rfl, hmutates, Bool.and_self, if_true, if_neg hlong, hlength, List.drop_left,
      List.take_left, hsequence]
  · have htail : sequencedTail request.opcode tail effectiveSequence = tail := if_neg hmutates
    simp only [htail, BEq.rfl, hmutates, Bool.and_false, Bool.false_eq_true, if_false]

theorem answerResponse_error (c : Connection) (request : Frame) (diagnostic : Option Bytes) (detail : BitVec 32)
    (hvalid : validStatus status) (hstatus : status ≠ Status.ok) :
    let frame := responseFrame request false (encodeU32 status ++ (encodeU32 detail ++ messageBytes diagnostic))
    answerResponse c request.opcode request.requestId frame =
      (c, ⟨status, some ⟨frame, status, detail, []⟩, setError detail none (diagnostic.map sentMessage)⟩) := by
  dsimp only
  rw [answerResponse, parseResponse_error request diagnostic hvalid hstatus]
  simp only [beq_false_of_ne hstatus, Bool.false_and, Bool.false_eq_true, if_false]

/-- Whatever the authority responds, the client reads the same status, detail and data, and of a
message as much as it has room for. -/
theorem response_roundTrip (hid : request.requestId ≠ 0) (hvalid : validStatus status)
    (hnul : ∀ text ∈ diagnostic, (0 : UInt8) ∉ text) (hnone : status = Status.ok → diagnostic = none)
    (hmore : more = true → status = Status.ok)
    (hfits : status = Status.ok →
      8 + (sequencedTail request.opcode tail effectiveSequence).length ≤ maxResponse) :
    ∃ frame, forwardResponse request status detail diagnostic tail effectiveSequence more = some frame ∧
      ∀ (c : Connection) (s : Socket) (rest : Bytes) (turns : ℕ), c.input.data = [] →
        c.input.maximum = maxResponse + frameHeaderSize → s.pending.flatten = frame.bytes ++ rest →
        Stream.size s.pending < turns →
        ∃ d t error, readResponse request.opcode request.requestId turns c s =
            (d, t, some ⟨status, some ⟨frame, status, detail, if status = Status.ok then tail else []⟩, error⟩) ∧
          d.connected = c.connected ∧ t.pending.flatten = rest ∧
          d.sequence = (if status = Status.ok ∧ stateMutatesWindows request.opcode then effectiveSequence
            else c.sequence) ∧
          (status ≠ Status.ok → error.detail = detail ∧ Longest (diagnostic.getD []) error.message) := by
  by_cases hstatus : status = Status.ok
  · obtain rfl := hstatus
    obtain rfl := hnone rfl
    refine ⟨_, forwardResponse_ok hid detail effectiveSequence more (hfits rfl), ?_⟩
    intro c s rest turns hinput hmaximum hstream hturns
    have hpayload : (encodeU32 Status.ok ++ (encodeU32 detail ++
        sequencedTail request.opcode tail effectiveSequence)).length ≤ maxResponse := by
      have := hfits rfl
      simp only [List.length_append, length_encodeU32]
      omega
    have hsized := responseFrame_sized request more hpayload
    obtain ⟨input, t, -, hrest, hread⟩ := readResponse_frame hsized
      (responseFrame_acceptable hid more hpayload) (responseFrame_flags request more _).2 hinput
      (by
        rw [hmaximum, hsized.length_bytes, Nat.add_comm]
        exact Nat.add_le_add_right hpayload _) hstream hturns
    rw [answerResponse_ok] at hread
    refine ⟨_, t, resetError, hread, rfl, hrest, ?_, fun hne => absurd rfl hne⟩
    simp
  · obtain rfl : more = false := by
      cases more
      · rfl
      · exact absurd (hmore rfl) hstatus
    refine ⟨_, forwardResponse_error hid hstatus detail effectiveSequence false, ?_⟩
    intro c s rest turns hinput hmaximum hstream hturns
    have hpayload : (encodeU32 status ++ (encodeU32 detail ++ messageBytes diagnostic)).length ≤ maxResponse := by
      have hmessage := length_messageBytes_le diagnostic
      have hroom : 8 + (3 + errorMessageCapacity) ≤ maxResponse := by decide
      simp only [List.length_append, length_encodeU32]
      omega
    have hsized := responseFrame_sized request false hpayload
    obtain ⟨input, t, -, hrest, hread⟩ := readResponse_frame hsized
      (responseFrame_acceptable hid false hpayload) (responseFrame_flags request false _).2 hinput
      (by
        rw [hmaximum, hsized.length_bytes, Nat.add_comm]
        exact Nat.add_le_add_right hpayload _) hstream hturns
    rw [answerResponse_error { c with input } request diagnostic detail hvalid hstatus] at hread
    refine ⟨{ c with input }, t, setError detail none (diagnostic.map sentMessage), by rw [hread, if_neg hstatus],
      rfl, hrest, ?_, fun _ => ⟨rfl, ?_⟩⟩
    · simp [hstatus]
    · rw [setError_sentMessage]
      cases diagnostic with
      | none =>
        exact ⟨List.nil_prefix, rfl, by decide, fun other hother _ _ => by
          rw [List.prefix_nil.mp hother]
          exact le_rfl⟩
      | some text => exact sentMessage_longest (hnul text rfl)

/-- A request to raise a window. -/
def raiseRequest : Frame := requestFrame Op.windowRaise 0 9 []

theorem raiseRequest_roundTrip :
    ∃ frame, forwardResponse raiseRequest Status.timeout 3 (some [0x61, 0xc3]) [] 0 false = some frame ∧
      ∀ (c : Connection) (s : Socket) (rest : Bytes) (turns : ℕ), c.input.data = [] →
        c.input.maximum = maxResponse + frameHeaderSize → s.pending.flatten = frame.bytes ++ rest →
        Stream.size s.pending < turns →
        ∃ d t error, readResponse raiseRequest.opcode raiseRequest.requestId turns c s =
            (d, t, some ⟨Status.timeout, some ⟨frame, Status.timeout, 3,
              if Status.timeout = Status.ok then [] else []⟩, error⟩) ∧
          d.connected = c.connected ∧ t.pending.flatten = rest ∧
          d.sequence = (if Status.timeout = Status.ok ∧ stateMutatesWindows raiseRequest.opcode then 0
            else c.sequence) ∧
          (Status.timeout ≠ Status.ok → error.detail = 3 ∧ Longest [0x61, 0xc3] error.message) :=
  response_roundTrip (by decide) (by decide)
    (by
      intro text htext
      cases htext
      decide)
    (fun h => absurd h (by decide)) (fun h => absurd h (by decide)) (fun h => absurd h (by decide))

end RoundTrip

end KeysharpDesktop.Client
