import KeysharpDesktop.Wire.Buffer

/-! The line envelope the KWin script and the daemon exchange: the parsers for a poll and
a report, and the writers for a poll reply and an acknowledgement. Every accessor refuses
rather than truncating. -/
namespace KeysharpDesktop

def kwinGenerationHex : ℕ := 32
def kwinSeqHex : ℕ := 16
def kwinMaxHeaderBytes : ℕ := 8192
def kwinMaxDonePerReport : ℕ := 9
def kwinJobsPerReplyFast : ℕ := 8
def kwinJobsPerReplySlow : ℕ := 1
def kwinOpDeadlineMs : ℕ := 2000
def kwinIdleReplyMs : ℕ := 8000

inductive KwinLane
  | fast | slow | none
  deriving DecidableEq, Repr

/-- The header region still unread, with the number of bytes already consumed. -/
structure Scanner where
  rest : Bytes
  offset : ℕ
  deriving DecidableEq, Repr

/-- One line without its newline; a last line that no newline ends is refused. -/
def line (scan : Scanner) : Option (Bytes × Scanner) :=
  let text := scan.rest.takeWhile (· != 10)
  if text.length = scan.rest.length then none
  else some (text, ⟨scan.rest.drop (text.length + 1), scan.offset + text.length + 1⟩)

/-- The next word of a line and what follows the one space after it. -/
def token (cursor : Bytes) : Option (Bytes × Bytes) :=
  let word := cursor.takeWhile (· != 32)
  if word = [] then none else some (word, cursor.drop (word.length + 1))

def decimalDigits : ℕ → Bytes → Option ℕ
  | parsed, [] => some parsed
  | parsed, b :: bs =>
    if b < 48 ∨ 57 < b then none
    else if (4294967295 - (b.toNat - 48)) / 10 < parsed then none
    else decimalDigits (parsed * 10 + (b.toNat - 48)) bs

/-- No leading zeros, and no value above the limit. -/
def decimal (word : Bytes) (limit : ℕ) : Option ℕ :=
  if word.length = 0 ∨ 10 < word.length then none
  else if 1 < word.length ∧ word.head? = some 48 then none
  else do
    let parsed ← decimalDigits 0 word
    if limit < parsed then none else some parsed

def isHexDigit (b : UInt8) : Bool := (48 ≤ b && b ≤ 57) || (97 ≤ b && b ≤ 102)

/-- Lowercase only, and an exact width. -/
def hex (word : Bytes) (expected : ℕ) : Option Bytes :=
  if word.length = expected ∧ word.all isHexDigit then some word else none

def magicOk (scan : Scanner) : Option Scanner := do
  let (text, scan) ← line scan
  if text = ascii "KSK1" then some scan else none

structure KwinPoll where
  generation : Bytes
  lane : KwinLane
  roundTripMs : ℕ
  lost : ℕ
  deriving DecidableEq, Repr

/-- Fields of a poll header read so far; a field may be given once. -/
structure PollFields where
  generation : Option Bytes := none
  lane : Option KwinLane := none
  roundTripMs : Option ℕ := none
  lost : Option ℕ := none
  deriving DecidableEq, Repr

def pollLane (word : Bytes) : Option KwinLane :=
  if word = ascii "fast" then some .fast
  else if word = ascii "slow" then some .slow
  else none

def pollField (fields : PollFields) (keyword word : Bytes) : Option PollFields :=
  if keyword = ascii "gen" then
    if fields.generation.isSome then none
    else (hex word kwinGenerationHex).map fun g => { fields with generation := some g }
  else if keyword = ascii "lane" then
    if fields.lane.isSome then none
    else (pollLane word).map fun l => { fields with lane := some l }
  else if keyword = ascii "rtt" then
    if fields.roundTripMs.isSome then none
    else (decimal word 600000).map fun n => { fields with roundTripMs := some n }
  else if keyword = ascii "lost" then
    if fields.lost.isSome then none
    else (decimal word 65535).map fun n => { fields with lost := some n }
  else none

/-- The poll loop. Each turn consumes a newline, so the length of the text bounds it. -/
def parsePollLines : ℕ → Scanner → PollFields → Option KwinPoll
  | 0, _, _ => none
  | turns + 1, scan, fields => do
    let (text, scan) ← line scan
    let (keyword, cursor) ← token text
    if keyword = ascii "end" then
      if cursor ≠ [] ∨ scan.rest ≠ [] then none
      else do
        let generation ← fields.generation
        let lane ← fields.lane
        let roundTripMs ← fields.roundTripMs
        let lost ← fields.lost
        some ⟨generation, lane, roundTripMs, lost⟩
    else do
      let (word, cursor) ← token cursor
      if cursor ≠ [] then none
      else do
        let fields ← pollField fields keyword word
        parsePollLines turns scan fields

def kwinParsePoll (data : Bytes) : Option KwinPoll :=
  if kwinMaxHeaderBytes < data.length then none
  else do
    let scan ← magicOk ⟨data, 0⟩
    parsePollLines data.length scan {}

/-- One done line, before the bodies are attached. -/
structure DoneLine where
  sequence : Bytes
  status : BitVec 32
  bodyLength : ℕ
  deriving DecidableEq, Repr

structure KwinDone where
  sequence : Bytes
  status : BitVec 32
  body : Bytes
  deriving DecidableEq, Repr

structure KwinReport where
  generation : Bytes
  done : List KwinDone
  deriving DecidableEq, Repr

def doneLine (cursor : Bytes) : Option DoneLine := do
  let (word, cursor) ← token cursor
  let sequence ← hex word kwinSeqHex
  let (word, cursor) ← token cursor
  let status ← decimal word 255
  let (word, cursor) ← token cursor
  let bodyLength ← decimal word maxTextBytes
  if cursor ≠ [] then none else some ⟨sequence, BitVec.ofNat 32 status, bodyLength⟩

/-- The bodies follow the terminator in the order their lines declared them. -/
def attachBodies : List DoneLine → Bytes → List KwinDone
  | [], _ => []
  | d :: ds, bodies =>
    ⟨d.sequence, d.status, bodies.take d.bodyLength⟩ :: attachBodies ds (bodies.drop d.bodyLength)

/-- The report loop; `declared` is the running sum of the body lengths. -/
def parseReportLines : ℕ → Scanner → Option Bytes → List DoneLine → ℕ → Option KwinReport
  | 0, _, _, _, _ => none
  | turns + 1, scan, generation, lines, declared => do
    let (text, scan) ← line scan
    if kwinMaxHeaderBytes < scan.offset then none
    else do
      let (keyword, cursor) ← token text
      if keyword = ascii "end" then
        if cursor ≠ [] ∨ lines = [] ∨ declared ≠ scan.rest.length then none
        else do
          let generation ← generation
          some ⟨generation, attachBodies lines scan.rest⟩
      else if keyword = ascii "gen" then do
        let (word, cursor) ← token cursor
        if cursor ≠ [] ∨ generation.isSome then none
        else do
          let g ← hex word kwinGenerationHex
          parseReportLines turns scan (some g) lines declared
      else if keyword ≠ ascii "done" then none
      else if lines.length = kwinMaxDonePerReport then none
      else do
        let d ← doneLine cursor
        if maxTextBytes < declared + d.bodyLength then none
        else parseReportLines turns scan generation (lines ++ [d]) (declared + d.bodyLength)

def kwinParseReport (data : Bytes) : Option KwinReport := do
  let scan ← magicOk ⟨data, 0⟩
  parseReportLines data.length scan none [] 0

/-- One job as it goes out to the script. -/
structure KwinDispatch where
  sequence : Bytes
  opcode : Opcode
  budgetMs : BitVec 32
  body : Bytes
  deriving DecidableEq, Repr

def hexDigit (n : ℕ) : UInt8 := if n < 10 then UInt8.ofNat (48 + n) else UInt8.ofNat (87 + n)

/-- Fixed-width lowercase hex, most significant digit first. -/
def hexText (value : ℕ) : ℕ → Bytes
  | 0 => []
  | digits + 1 => hexDigit (value / 16 ^ digits % 16) :: hexText value digits

@[simp] theorem length_hexText (value digits : ℕ) : (hexText value digits).length = digits := by
  induction digits with
  | zero => rfl
  | succ digits ih => simp [hexText, ih]

theorem hexDigit_injective : ∀ a < 16, ∀ b < 16, hexDigit a = hexDigit b → a = b := by
  decide

theorem isHexDigit_hexDigit : ∀ a < 16, isHexDigit (hexDigit a) := by
  decide

theorem hexText_all (value digits : ℕ) : (hexText value digits).all isHexDigit := by
  induction digits with
  | zero => rfl
  | succ digits ih =>
    have hdigit := isHexDigit_hexDigit _ (Nat.mod_lt (value / 16 ^ digits) (by omega : 16 > 0))
    simp [hexText, hdigit, ih]

/-- Hex text tells apart what its width can hold. -/
theorem hexText_injective {v w digits : ℕ} (h : hexText v digits = hexText w digits) :
    v % 16 ^ digits = w % 16 ^ digits := by
  induction digits with
  | zero => simp [Nat.mod_one]
  | succ digits ih =>
    obtain ⟨hdigit, hrest⟩ := List.cons.inj h
    have hsame := hexDigit_injective _ (Nat.mod_lt _ (by omega)) _ (Nat.mod_lt _ (by omega)) hdigit
    rw [Nat.mod_pow_succ, Nat.mod_pow_succ, ih hrest, hsame]

def appendHex (out : Buffer) (value digits : ℕ) : Option Buffer :=
  if 16 < digits then none else bufferBytes out (hexText value digits)

/-- The digits of a value, least significant first; ten cover every 32-bit value. -/
def decimalReversed : ℕ → ℕ → Bytes
  | 0, _ => []
  | turns + 1, value =>
    if value = 0 then [] else UInt8.ofNat (48 + value % 10) :: decimalReversed turns (value / 10)

def appendDecimal (out : Buffer) (value : BitVec 32) : Option Buffer :=
  if value = 0 then bufferBytes out (ascii "0")
  else bufferBytes out (decimalReversed 16 value.toNat).reverse

def validGeneration (generation : Bytes) : Bool :=
  generation.length = kwinGenerationHex ∧ generation.all isHexDigit

def validSequence (sequence : Bytes) : Bool :=
  sequence.length = kwinSeqHex ∧ sequence.all isHexDigit

def laneCapacity : KwinLane → ℕ
  | .fast => kwinJobsPerReplyFast
  | .slow => kwinJobsPerReplySlow
  | .none => 0

def laneName : KwinLane → Bytes
  | .fast => ascii "fast"
  | _ => ascii "slow"

def formatJob (out : Buffer) (job : KwinDispatch) : Option Buffer := do
  let out ← bufferBytes out (ascii "job ")
  let out ← bufferBytes out job.sequence
  let out ← bufferBytes out (ascii " ")
  let out ← appendHex out job.opcode.toNat 4
  let out ← bufferBytes out (ascii " ")
  let out ← appendDecimal out job.budgetMs
  let out ← bufferBytes out (ascii " ")
  let out ← appendDecimal out (BitVec.ofNat 32 job.body.length)
  bufferBytes out (ascii "\n")

def kwinFormatPollReply (generation : Bytes) (lane : KwinLane) (idleMs : BitVec 32)
    (jobs : List KwinDispatch) (out : Buffer) : Option Buffer :=
  if !validGeneration generation then none
  else if lane = .none then none
  else if laneCapacity lane < jobs.length then none
  else if !jobs.all (fun job => validSequence job.sequence) then none
  else do
    let out ← bufferBytes out (ascii "KSK1\n")
    let out ← bufferBytes out (ascii "gen ")
    let out ← bufferBytes out generation
    let out ← bufferBytes out (ascii "\n")
    let out ← bufferBytes out (ascii "lane ")
    let out ← bufferBytes out (laneName lane)
    let out ← bufferBytes out (ascii "\n")
    let out ← bufferBytes out (ascii "idle ")
    let out ← appendDecimal out idleMs
    let out ← bufferBytes out (ascii "\n")
    let out ← jobs.foldlM formatJob out
    let out ← bufferBytes out (ascii "end\n")
    jobs.foldlM (fun out job => if job.body = [] then some out else bufferBytes out job.body) out

def kwinFormatReportAck (generation : Bytes) (out : Buffer) : Option Buffer :=
  if !validGeneration generation then none
  else do
    let out ← bufferBytes out (ascii "KSK1\n")
    let out ← bufferBytes out (ascii "gen ")
    let out ← bufferBytes out generation
    bufferBytes out (ascii "\nack\nend\n")

/-- The size of an acknowledgement. -/
def reportAckLength : ℕ := 50

theorem kwinFormatReportAck_isSome (generation : Bytes) (out : Buffer)
    (hg : validGeneration generation) (hroom : out.data.length + reportAckLength ≤ out.maximum) :
    (kwinFormatReportAck generation out).isSome := by
  have hlen : generation.length = 32 := by
    have := hg
    simp only [validGeneration, decide_eq_true_eq] at this
    exact this.1
  have hw := (bufferBytes_writes (ascii "KSK1\n")).bind
    ((bufferBytes_writes (ascii "gen ")).bind
      ((bufferBytes_writes generation).bind
        (bufferBytes_writes (ascii "\nack\nend\n"))))
  unfold kwinFormatReportAck
  rw [hg]
  refine (hw.isSome (Nat.le_of_add_right_le hroom)).mpr ?_
  simpa [ascii, hlen, reportAckLength] using hroom

end KeysharpDesktop
