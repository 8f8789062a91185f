import KeysharpDesktop.Kwin.Execute
import KeysharpDesktop.Kwin.Lines

/-! The envelopes of the script at the daemon's parsers: a report is read back as the results it was
built from, a poll as its numbers, and no report is read whose lengths are off. -/
namespace KeysharpDesktop.KwinScript

open JsText (Text)

section Ascii

theorem isAscii_of_hex {bs : Bytes} (h : ∀ b ∈ bs, isHexDigit b) : JsText.IsAscii bs := by
  intro b hb
  have hplain := isHexDigit_plain (h b hb)
  simp only [isPlain, Bool.and_eq_true, decide_eq_true_eq] at hplain
  exact UInt8.lt_iff_toNat_lt.mp hplain.2

theorem isAscii_decimalText (value : ℕ) : JsText.IsAscii (decimalText value) := by
  intro b hb
  have hbounds := isDigit_bounds (decimalText_all value b hb)
  omega

theorem isAscii_append {a b : Bytes} (ha : JsText.IsAscii a) (hb : JsText.IsAscii b) : JsText.IsAscii (a ++ b) := by
  intro c hc
  rcases List.mem_append.mp hc with hc | hc
  · exact ha c hc
  · exact hb c hc

theorem isAscii_cons {c : UInt8} {a : Bytes} (hc : c.toNat < 0x80) (ha : JsText.IsAscii a) :
    JsText.IsAscii (c :: a) := by
  intro b hb
  rcases List.mem_cons.mp hb with rfl | hb
  · exact hc
  · exact ha b hb

/-- Text behind ASCII goes over the bus behind the same bytes. -/
theorem toUtf8_ofBytes_append {bs : Bytes} (h : JsText.IsAscii bs) (text : Text) :
    JsText.toUtf8 (JsText.ofBytes bs ++ text) = bs ++ JsText.toUtf8 text := by
  have hwell : JsText.WellFormed (JsText.ofBytes bs) := by
    apply JsText.wellFormed_of_lt
    intro c hc
    obtain ⟨b, hb, rfl⟩ := List.mem_map.mp hc
    have hlt := h b hb
    rw [UInt8.toNat_toUInt16]
    omega
  rw [JsText.toUtf8_append hwell, JsText.toUtf8_ofBytes h]

theorem number_natCast (n : ℕ) : number (n : ℤ) = JsText.ofBytes (decimalText n) := by
  have hsign : ¬ (n : ℤ) < 0 := by omega
  rw [number, signedText, if_neg hsign, Int.natAbs_natCast]

theorem countText_natCast (n : ℕ) : countText n = JsText.ofBytes (decimalText n) := by
  have hfloor : (n : ℚ).floor = n := Rat.floor_intCast n
  have hmax : max 0 (n : ℤ) = n := by omega
  rw [countText, hfloor, hmax, number_natCast]

/-- The script's own count is the number of bytes. -/
theorem utf8Length_eq {text : Text} (h : JsText.WellFormed text) : utf8Length text = JsText.byteSize text := by
  induction h with
  | nil => rfl
  | @unit c rest high low _ ih =>
    have hsize : JsText.byteSize (c :: rest) = JsText.unitBytes c + JsText.byteSize rest := rfl
    rw [utf8Length.eq_def, hsize, JsText.unitBytes, high, low]
    simp only [high, ih, Bool.or_self, Bool.false_eq_true, if_false]
    split_ifs
    · rfl
    · rfl
    · rfl
  | @pair c d rest high low _ ih =>
    have hc := JsText.isHigh_bounds high
    have hsize : JsText.byteSize (c :: d :: rest) =
        JsText.unitBytes c + (JsText.unitBytes d + JsText.byteSize rest) := rfl
    rw [utf8Length.eq_def]
    dsimp only
    rw [if_neg (by omega), if_neg (by omega), if_pos high, ih, hsize, JsText.unitBytes_high high,
      JsText.unitBytes_low low]
    omega

end Ascii

section Report

/-- The line that a result is announced by. -/
def Execution.line (e : Execution) : ReportLine :=
  ⟨JsText.toUtf8 e.job.sequence, e.status, utf8Length e.body⟩

/-- A result as the daemon should read it. -/
def Execution.done (e : Execution) : KwinDone :=
  ⟨JsText.toUtf8 e.job.sequence, BitVec.ofNat 32 e.status, JsText.toUtf8 e.body⟩

/-- A result under a sequence of the daemon, with a status that fits a byte. -/
structure Execution.Spelled (e : Execution) : Prop where
  sequence : ∃ s, validSequence s ∧ e.job.sequence = JsText.ofBytes s
  status : e.status < 256

variable {generation : Bytes} {e : Execution} {executions : List Execution}

theorem Execution.Spelled.readable (h : e.Spelled) : e.line.Readable := by
  obtain ⟨s, hs, hseq⟩ := h.sequence
  refine ⟨?_, h.status⟩
  show validSequence (JsText.toUtf8 e.job.sequence)
  rw [hseq, JsText.toUtf8_ofBytes (isAscii_of_hex (validSequence_iff.mp hs).2)]
  exact hs

theorem Execution.Spelled.isAscii (h : e.Spelled) : JsText.IsAscii e.line.bytes := by
  have hsequence : JsText.IsAscii e.line.sequence := isAscii_of_hex (validSequence_iff.mp h.readable.sequence).2
  have hword : JsText.IsAscii (ascii "done") := by
    unfold JsText.IsAscii
    decide
  have hend : JsText.IsAscii [10] := by
    unfold JsText.IsAscii
    decide
  refine isAscii_append (isAscii_append hword (isAscii_cons (by decide) ?_)) hend
  exact isAscii_append hsequence (isAscii_cons (by decide) (isAscii_append (isAscii_decimalText _)
    (isAscii_cons (by decide) (isAscii_decimalText _))))

theorem Execution.Spelled.doneText (h : e.Spelled) : doneText e = JsText.ofBytes e.line.bytes := by
  obtain ⟨s, hs, hseq⟩ := h.sequence
  have hutf8 : JsText.toUtf8 e.job.sequence = s := by
    rw [hseq, JsText.toUtf8_ofBytes (isAscii_of_hex (validSequence_iff.mp hs).2)]
  have hword : JsText.lit "done " = JsText.ofBytes (ascii "done" ++ [32]) := by decide
  have hspace : JsText.lit " " = JsText.ofBytes [32] := by decide
  have hend : JsText.lit "\n" = JsText.ofBytes [10] := by decide
  unfold KwinScript.doneText
  rw [hseq, number_natCast, number_natCast, hword, hspace, hend]
  simp only [List.flatten_cons, List.flatten_nil, List.append_nil, ← ofBytes_append, Execution.line,
    ReportLine.bytes, ReportLine.words, hutf8, List.append_assoc, List.cons_append, List.nil_append]

theorem flatMap_doneText (h : ∀ e ∈ executions, e.Spelled) :
    executions.flatMap doneText = JsText.ofBytes ((executions.map Execution.line).flatMap ReportLine.bytes) ∧
      JsText.IsAscii ((executions.map Execution.line).flatMap ReportLine.bytes) := by
  induction executions with
  | nil => exact ⟨rfl, nofun⟩
  | cons e executions ih =>
    obtain ⟨htext, hascii⟩ := ih fun e' he' => h e' (List.mem_cons_of_mem e he')
    have he := h e List.mem_cons_self
    rw [List.flatMap_cons, List.map_cons, List.flatMap_cons, htext, he.doneText, ofBytes_append]
    exact ⟨rfl, isAscii_append he.isAscii hascii⟩

/-- A report goes over the bus as a head, a line for each result and the bodies. -/
theorem toUtf8_buildReport (hg : validGeneration generation) (h : ∀ e ∈ executions, e.Spelled) :
    JsText.toUtf8 (buildReport (JsText.ofBytes generation) executions) =
      reportBytes generation (executions.map Execution.line)
        (JsText.toUtf8 (executions.flatMap Execution.body)) := by
  obtain ⟨htext, hascii⟩ := flatMap_doneText h
  have hhead : JsText.lit "KSK1\ngen " = JsText.ofBytes (ascii "KSK1" ++ 10 :: (ascii "gen" ++ [32])) := by decide
  have hline : JsText.lit "\n" = JsText.ofBytes [10] := by decide
  have hend : JsText.lit "end\n" = JsText.ofBytes (ascii "end" ++ [10]) := by decide
  have hgen : JsText.IsAscii generation := isAscii_of_hex (validGeneration_iff.mp hg).2
  have hfirst : JsText.IsAscii (ascii "KSK1" ++ 10 :: (ascii "gen" ++ [32])) := by
    unfold JsText.IsAscii
    decide
  have hnewline : JsText.IsAscii [10] := by
    unfold JsText.IsAscii
    decide
  have hlast : JsText.IsAscii (ascii "end" ++ [10]) := by
    unfold JsText.IsAscii
    decide
  unfold buildReport
  rw [htext, hhead, hline, hend]
  simp only [List.flatten_cons, List.flatten_nil, List.append_nil]
  rw [toUtf8_ofBytes_append hfirst, toUtf8_ofBytes_append hgen, toUtf8_ofBytes_append hnewline,
    toUtf8_ofBytes_append hascii, toUtf8_ofBytes_append hlast, reportBytes]
  simp only [List.append_assoc, List.cons_append, List.nil_append]

theorem length_toUtf8_body (h : JsText.WellFormed e.body) : (JsText.toUtf8 e.body).length = e.line.length := by
  rw [JsText.length_toUtf8 h, ← utf8Length_eq h]
  rfl

theorem toUtf8_bodies (h : ∀ e ∈ executions, JsText.WellFormed e.body) :
    JsText.toUtf8 (executions.flatMap Execution.body) = executions.flatMap fun e => JsText.toUtf8 e.body := by
  induction executions with
  | nil => rfl
  | cons e executions ih =>
    rw [List.flatMap_cons, List.flatMap_cons, JsText.toUtf8_append (h e List.mem_cons_self),
      ih fun e' he' => h e' (List.mem_cons_of_mem e he')]

theorem declaredBytes_lines (h : ∀ e ∈ executions, JsText.WellFormed e.body) :
    declaredBytes (executions.map Execution.line) =
      (JsText.toUtf8 (executions.flatMap Execution.body)).length := by
  rw [toUtf8_bodies h]
  induction executions with
  | nil => rfl
  | cons e executions ih =>
    have hrest := ih fun e' he' => h e' (List.mem_cons_of_mem e he')
    rw [List.flatMap_cons, List.length_append, ← hrest, length_toUtf8_body (h e List.mem_cons_self)]
    rfl

/-- Each body is cut out where its length says. -/
theorem attachBodies_lines (h : ∀ e ∈ executions, JsText.WellFormed e.body) :
    attachBodies ((executions.map Execution.line).map ReportLine.done)
      (JsText.toUtf8 (executions.flatMap Execution.body)) = executions.map Execution.done := by
  rw [toUtf8_bodies h]
  induction executions with
  | nil => rfl
  | cons e executions ih =>
    have hrest := ih fun e' he' => h e' (List.mem_cons_of_mem e he')
    have hlength := length_toUtf8_body (h e List.mem_cons_self)
    have hdone : e.line.done.bodyLength = (JsText.toUtf8 e.body).length := hlength.symm
    rw [List.map_cons, List.map_cons, List.flatMap_cons, attachBodies, hdone, List.take_left, List.drop_left,
      hrest]
    rfl

/-- What a report can carry: some results, each of them spelled out, with well-formed bodies that
together fit the bound on a text. -/
structure Reportable (executions : List Execution) : Prop where
  some : executions ≠ []
  few : executions.length ≤ kwinMaxDonePerReport
  spelled : ∀ e ∈ executions, e.Spelled
  wellFormed : ∀ e ∈ executions, JsText.WellFormed e.body
  short : (executions.map fun e => (JsText.toUtf8 e.body).length).sum ≤ maxTextBytes

theorem kwinParseReport_buildReport (hg : validGeneration generation) (h : Reportable executions) :
    kwinParseReport (JsText.toUtf8 (buildReport (JsText.ofBytes generation) executions)) =
      some ⟨generation, executions.map Execution.done⟩ := by
  have hlines : ∀ l ∈ executions.map Execution.line, l.Readable := by
    intro l hl
    obtain ⟨e, he, rfl⟩ := List.mem_map.mp hl
    exact (h.spelled e he).readable
  have hfew : (executions.map Execution.line).length ≤ kwinMaxDonePerReport := by
    rw [List.length_map]
    exact h.few
  have hsome : executions.map Execution.line ≠ [] := by
    rw [Ne, List.map_eq_nil_iff]
    exact h.some
  have hshort : ¬ maxTextBytes < (JsText.toUtf8 (executions.flatMap Execution.body)).length := by
    rw [toUtf8_bodies h.wellFormed, List.length_flatMap]
    exact Nat.not_lt.mpr h.short
  rw [toUtf8_buildReport hg h.spelled,
    kwinParseReport_eq_some hg hlines hfew hsome (declaredBytes_lines h.wellFormed), if_neg hshort,
    attachBodies_lines h.wellFormed]

end Report

section Poll

variable {keyword word rest : Bytes} {turns offset : ℕ} {fields : PollFields}

/-- A word that stands on a line of its own or between spaces. -/
structure Word (word : Bytes) : Prop where
  some : word ≠ []
  line : (10 : UInt8) ∉ word
  space : (32 : UInt8) ∉ word

theorem word_decimalText (value : ℕ) : Word (decimalText value) :=
  ⟨decimalText_ne_nil value, (decimalText_not_sep value).1, (decimalText_not_sep value).2⟩

theorem word_generation {generation : Bytes} (hg : validGeneration generation) : Word generation := by
  obtain ⟨hlength, hhex⟩ := validGeneration_iff.mp hg
  refine ⟨?_, (isHexDigit_not_sep hhex).1, (isHexDigit_not_sep hhex).2⟩
  rintro rfl
  cases hlength

/-- What the loop does with the line of a field. -/
theorem parsePollLines_field (hkeyword : Word keyword) (hend : keyword ≠ ascii "end") (hword : Word word) :
    parsePollLines (turns + 1) ⟨keyword ++ 32 :: (word ++ 10 :: rest), offset⟩ fields =
      (pollField fields keyword word).bind
        (parsePollLines turns ⟨rest, offset + (keyword ++ 32 :: word).length + 1⟩) := by
  have hscan : keyword ++ 32 :: (word ++ 10 :: rest) = (keyword ++ 32 :: word) ++ 10 :: rest := by
    simp only [List.append_assoc, List.cons_append]
  have hline : (10 : UInt8) ∉ keyword ++ 32 :: word := by
    simp only [List.mem_append, List.mem_cons, not_or]
    exact ⟨hkeyword.line, by decide, hword.line⟩
  have hfirst : token (keyword ++ 32 :: word) = some (keyword, word) :=
    token_append hkeyword.space hkeyword.some word
  have hsecond : token word = some (word, []) := token_last hword.space hword.some
  rw [hscan]
  simp only [parsePollLines, line_append hline, hfirst, hsecond, Option.bind_eq_bind, Option.bind_some, if_neg hend,
    ne_eq, not_true_eq_false, if_false]

/-- The lanes as the script and the daemon name them. -/
def laneText (lane : KwinLane) : Bytes := if lane = .fast then ascii "fast" else ascii "slow"

/-- A poll as it goes over the bus. -/
def pollBytes (generation lane : Bytes) (roundTripMs lost : ℕ) : Bytes :=
  ascii "KSK1" ++ 10 :: (ascii "gen" ++ 32 :: (generation ++ 10 :: (ascii "lane" ++ 32 :: (lane ++ 10 ::
    (ascii "rtt" ++ 32 :: (decimalText roundTripMs ++ 10 :: (ascii "lost" ++ 32 :: (decimalText lost ++ 10 ::
      (ascii "end" ++ 10 :: [])))))))))

theorem toUtf8_buildPoll {generation lane : Bytes} (hg : validGeneration generation) (hlane : JsText.IsAscii lane)
    (roundTripMs lost : ℕ) :
    JsText.toUtf8 (buildPoll (JsText.ofBytes generation) (JsText.ofBytes lane) roundTripMs lost) =
      pollBytes generation lane roundTripMs lost := by
  have hlit : ∀ s ∈ ["KSK1\ngen ", "\nlane ", "\nrtt ", "\nlost ", "\nend\n"],
      JsText.lit s = JsText.ofBytes (ascii s) ∧ JsText.IsAscii (ascii s) := by
    unfold JsText.IsAscii
    decide
  have hbytes : buildPoll (JsText.ofBytes generation) (JsText.ofBytes lane) roundTripMs lost =
      JsText.ofBytes (ascii "KSK1\ngen " ++ (generation ++ (ascii "\nlane " ++ (lane ++ (ascii "\nrtt " ++
        (decimalText roundTripMs ++ (ascii "\nlost " ++ (decimalText lost ++ ascii "\nend\n")))))))) := by
    unfold buildPoll
    rw [countText_natCast, countText_natCast, (hlit "KSK1\ngen " (by decide)).1, (hlit "\nlane " (by decide)).1,
      (hlit "\nrtt " (by decide)).1, (hlit "\nlost " (by decide)).1, (hlit "\nend\n" (by decide)).1]
    simp only [List.flatten_cons, List.flatten_nil, List.append_nil, ← ofBytes_append]
  rw [hbytes, JsText.toUtf8_ofBytes]
  · rfl
  · have hgen := isAscii_of_hex (validGeneration_iff.mp hg).2
    have hlost := isAscii_append (isAscii_decimalText lost) (hlit "\nend\n" (by decide)).2
    have hround := isAscii_append (isAscii_decimalText roundTripMs)
      (isAscii_append (hlit "\nlost " (by decide)).2 hlost)
    have hfields := isAscii_append hlane (isAscii_append (hlit "\nrtt " (by decide)).2 hround)
    exact isAscii_append (hlit "KSK1\ngen " (by decide)).2
      (isAscii_append hgen (isAscii_append (hlit "\nlane " (by decide)).2 hfields))

theorem laneText_spec {lane : KwinLane} (h : lane ≠ .none) : Word (laneText lane) ∧
    JsText.IsAscii (laneText lane) ∧ (laneText lane).length = 4 ∧
      KeysharpDesktop.pollLane (laneText lane) = some lane := by
  unfold JsText.IsAscii
  cases lane with
  | fast => exact ⟨⟨by decide, by decide, by decide⟩, by decide, by decide, by decide⟩
  | slow => exact ⟨⟨by decide, by decide, by decide⟩, by decide, by decide, by decide⟩
  | none => exact absurd rfl h

/-- A poll whose numbers are within bounds is read back as it is. -/
theorem kwinParsePoll_pollBytes {generation : Bytes} {lane : KwinLane} {roundTripMs lost : ℕ}
    (hg : validGeneration generation) (hlane : lane ≠ .none) (hround : roundTripMs ≤ 600000)
    (hlost : lost ≤ 65535) :
    kwinParsePoll (pollBytes generation (laneText lane) roundTripMs lost) =
      some ⟨generation, lane, roundTripMs, lost⟩ := by
  obtain ⟨hlaneWord, -, hlaneLength, hlaneRead⟩ := laneText_spec hlane
  obtain ⟨hlength, hhex⟩ := validGeneration_iff.mp hg
  have hlength : generation.length = 32 := hlength
  have hgenRead : hex generation kwinGenerationHex = some generation := by
    rw [hex, if_pos ⟨hlength, List.all_eq_true.mpr hhex⟩]
  have hroundRead : decimal (decimalText roundTripMs) 600000 = some roundTripMs := by
    rw [decimal_decimalText (by decide), if_neg (by omega)]
  have hlostRead : decimal (decimalText lost) 65535 = some lost := by
    rw [decimal_decimalText (by decide), if_neg (by omega)]
  have hroundLength : (decimalText roundTripMs).length ≤ 6 := length_decimalText (by omega) (by omega)
  have hlostLength : (decimalText lost).length ≤ 5 := length_decimalText (by omega) (by omega)
  have hsize : (pollBytes generation (laneText lane) roundTripMs lost).length =
      67 + (decimalText roundTripMs).length + (decimalText lost).length := by
    have hwords : (ascii "KSK1").length = 4 ∧ (ascii "gen").length = 3 ∧ (ascii "lane").length = 4 ∧
        (ascii "rtt").length = 3 ∧ (ascii "lost").length = 4 ∧ (ascii "end").length = 3 := by decide
    simp only [pollBytes, List.length_append, List.length_cons, List.length_nil]
    omega
  obtain ⟨turns, hturns⟩ : ∃ n, (pollBytes generation (laneText lane) roundTripMs lost).length = n + 5 :=
    ⟨(pollBytes generation (laneText lane) roundTripMs lost).length - 5, by omega⟩
  have hheader : ¬ kwinMaxHeaderBytes < (pollBytes generation (laneText lane) roundTripMs lost).length := by
    rw [hsize]
    unfold kwinMaxHeaderBytes
    omega
  have hkeywords : Word (ascii "gen") ∧ Word (ascii "lane") ∧ Word (ascii "rtt") ∧ Word (ascii "lost") :=
    ⟨⟨by decide, by decide, by decide⟩, ⟨by decide, by decide, by decide⟩, ⟨by decide, by decide, by decide⟩,
      by decide, by decide, by decide⟩
  obtain ⟨hkgen, hklane, hkrtt, hklost⟩ := hkeywords
  have hmagic : magicOk ⟨pollBytes generation (laneText lane) roundTripMs lost, 0⟩ = some
      ⟨ascii "gen" ++ 32 :: (generation ++ 10 :: (ascii "lane" ++ 32 :: (laneText lane ++ 10 ::
        (ascii "rtt" ++ 32 :: (decimalText roundTripMs ++ 10 :: (ascii "lost" ++ 32 :: (decimalText lost ++ 10 ::
          (ascii "end" ++ 10 :: [])))))))), 5⟩ := by
    have hword : (10 : UInt8) ∉ ascii "KSK1" := by decide
    rw [magicOk, pollBytes, line_append hword]
    rfl
  have hlast : token (ascii "end") = some (ascii "end", []) := token_last (by decide) (by decide)
  have hendLine : (10 : UInt8) ∉ ascii "end" := by decide
  have hfirst : pollField {} (ascii "gen") generation = some { generation := some generation } := by
    rw [pollField, if_pos rfl, hgenRead]
    rfl
  have hsecond : pollField { generation := some generation } (ascii "lane") (laneText lane) =
      some { generation := some generation, lane := some lane } := by
    rw [pollField, if_neg (by decide), if_pos rfl, hlaneRead]
    rfl
  have hthird : pollField { generation := some generation, lane := some lane } (ascii "rtt")
      (decimalText roundTripMs) =
        some { generation := some generation, lane := some lane, roundTripMs := some roundTripMs } := by
    rw [pollField, if_neg (by decide), if_neg (by decide), if_pos rfl, hroundRead]
    rfl
  have hfourth : pollField { generation := some generation, lane := some lane, roundTripMs := some roundTripMs }
      (ascii "lost") (decimalText lost) = some ⟨some generation, some lane, some roundTripMs, some lost⟩ := by
    rw [pollField, if_neg (by decide), if_neg (by decide), if_neg (by decide), if_pos rfl, hlostRead]
    rfl
  rw [kwinParsePoll, if_neg hheader, hturns, hmagic, Option.bind_eq_bind, Option.bind_some,
    parsePollLines_field hkgen (by decide) (word_generation hg), hfirst, Option.bind_some,
    parsePollLines_field hklane (by decide) hlaneWord, hsecond, Option.bind_some,
    parsePollLines_field hkrtt (by decide) (word_decimalText roundTripMs), hthird, Option.bind_some,
    parsePollLines_field hklost (by decide) (word_decimalText lost), hfourth, Option.bind_some]
  simp only [parsePollLines, line_append hendLine, hlast, Option.bind_eq_bind, Option.bind_some, ne_eq,
    not_true_eq_false, or_self, if_false, if_true]

end Poll

section Declared

/-- The result that a line of a header announces, if it announces one. -/
def headerDone (text : Bytes) : Option DoneLine := do
  let (keyword, cursor) ← token text
  if keyword = ascii "done" then doneLine cursor else none

/-- A line by its first word. -/
def opensWith (keyword text : Bytes) : Prop := ∃ cursor, token text = some (keyword, cursor)

/-- The lines of a text up to the first that ends its header, and the bytes behind them. -/
structure HeaderOf (data : Bytes) (header : List Bytes) (last bodies : Bytes) : Prop where
  split : data = (header ++ [last]).flatMap (· ++ [10]) ++ bodies
  lines : ∀ text ∈ header ++ [last], (10 : UInt8) ∉ text
  ends : opensWith (ascii "end") last
  unended : ∀ text ∈ header, ¬ opensWith (ascii "end") text

variable {scan scan' : Scanner} {text data : Bytes} {generation : Option Bytes} {read : List DoneLine}
  {turns declared : ℕ} {report : KwinReport}

theorem line_eq_some (h : line scan = some (text, scan')) :
    scan.rest = text ++ 10 :: scan'.rest ∧ (10 : UInt8) ∉ text := by
  unfold line at h
  dsimp only at h
  split_ifs at h with hlength
  cases h
  have hnot : (10 : UInt8) ∉ scan.rest.takeWhile (· != 10) := by
    intro hmem
    simpa using List.mem_takeWhile_imp hmem
  have hwhole := List.takeWhile_append_dropWhile (l := scan.rest) (p := (· != 10))
  have hhead := List.head?_dropWhile_not (fun b : UInt8 => b != 10) scan.rest
  refine ⟨?_, hnot⟩
  cases hdrop : scan.rest.dropWhile (· != 10) with
  | nil =>
    rw [hdrop, List.append_nil] at hwhole
    exact absurd (by rw [hwhole]) hlength
  | cons c rest =>
    rw [hdrop] at hwhole hhead
    have hc : c = 10 := by simpa using hhead
    generalize scan.rest.takeWhile (· != 10) = word at hwhole
    have htail : scan.rest.drop (word.length + 1) = rest := by
      rw [← hwhole, List.drop_append]
      simp
    dsimp only
    rw [htail, ← hwhole, hc]

/-- One more line in front of a header. -/
theorem HeaderOf.cons {header : List Bytes} {last bodies rest : Bytes} (h : HeaderOf rest header last bodies)
    (hline : (10 : UInt8) ∉ text) (hopen : ¬ opensWith (ascii "end") text) :
    HeaderOf (text ++ 10 :: rest) (text :: header) last bodies := by
  refine ⟨?_, ?_, h.ends, ?_⟩
  · rw [h.split, List.cons_append, List.flatMap_cons]
    simp only [List.append_assoc, List.cons_append, List.nil_append]
  · intro text' hmem
    rcases List.mem_cons.mp hmem with rfl | hmem
    · exact hline
    · exact h.lines text' hmem
  · intro text' hmem
    rcases List.mem_cons.mp hmem with rfl | hmem
    · exact hopen
    · exact h.unended text' hmem

/-- What a header that is read all the way comes to. -/
theorem parseReportLines_accepts
    (h : parseReportLines turns scan generation read declared = some report) :
    ∃ header last bodies, HeaderOf scan.rest header last bodies ∧
      declared + ((header.filterMap headerDone).map DoneLine.bodyLength).sum = bodies.length ∧
      report.done = attachBodies (read ++ header.filterMap headerDone) bodies := by
  induction turns generalizing scan generation read declared with
  | zero => cases h
  | succ turns ih =>
    simp only [parseReportLines, Option.bind_eq_bind, Option.bind_eq_some_iff] at h
    obtain ⟨⟨text, scan'⟩, hline, h⟩ := h
    obtain ⟨hsplit, hnot⟩ := line_eq_some hline
    dsimp only at h
    by_cases hheader : kwinMaxHeaderBytes < scan'.offset
    · rw [if_pos hheader] at h
      cases h
    rw [if_neg hheader] at h
    obtain ⟨⟨keyword, cursor⟩, htoken, h⟩ := Option.bind_eq_some_iff.mp h
    dsimp only at h
    have hopen : keyword ≠ ascii "end" → ¬ opensWith (ascii "end") text := by
      rintro hne ⟨cursor', htoken'⟩
      rw [htoken] at htoken'
      cases htoken'
      exact hne rfl
    by_cases hend : keyword = ascii "end"
    · rw [if_pos hend] at h
      split_ifs at h with hbad
      obtain ⟨generation, -, h⟩ := Option.bind_eq_some_iff.mp h
      cases h
      simp only [not_or, not_not] at hbad
      refine ⟨[], text, scan'.rest, ⟨?_, ?_, ?_, by simp⟩, ?_, ?_⟩
      · rw [hsplit]
        simp
      · intro text' hmem
        rw [List.nil_append, List.mem_singleton] at hmem
        rw [hmem]
        exact hnot
      · rw [hend] at htoken
        exact ⟨cursor, htoken⟩
      · exact hbad.2.2
      · simp
    rw [if_neg hend] at h
    by_cases hgen : keyword = ascii "gen"
    · rw [if_pos hgen] at h
      obtain ⟨⟨word, cursor'⟩, -, h⟩ := Option.bind_eq_some_iff.mp h
      dsimp only at h
      split_ifs at h
      obtain ⟨g, -, h⟩ := Option.bind_eq_some_iff.mp h
      obtain ⟨header, last, bodies, hof, hsum, hreport⟩ := ih h
      have hnone : headerDone text = none := by
        simp only [headerDone, htoken, Option.bind_eq_bind, Option.bind_some, hgen]
        exact if_neg (by decide)
      refine ⟨text :: header, last, bodies, ?_, ?_, ?_⟩
      · rw [hsplit]
        exact hof.cons hnot (hopen hend)
      · rwa [List.filterMap_cons_none hnone]
      · rwa [List.filterMap_cons_none hnone]
    rw [if_neg hgen] at h
    by_cases hdone : keyword = ascii "done"
    swap
    · rw [if_pos hdone] at h
      cases h
    · rw [if_neg (not_not.mpr hdone)] at h
      by_cases hfull : read.length = kwinMaxDonePerReport
      · rw [if_pos hfull] at h
        cases h
      rw [if_neg hfull] at h
      obtain ⟨d, hd, h⟩ := Option.bind_eq_some_iff.mp h
      split_ifs at h
      obtain ⟨header, last, bodies, hof, hsum, hreport⟩ := ih h
      have hsome : headerDone text = some d := by
        simp only [headerDone, htoken, Option.bind_eq_bind, Option.bind_some]
        rw [if_pos hdone]
        exact hd
      refine ⟨text :: header, last, bodies, ?_, ?_, ?_⟩
      · rw [hsplit]
        exact hof.cons hnot (hopen hend)
      · rw [List.filterMap_cons_some hsome, List.map_cons, List.sum_cons]
        omega
      · rw [List.filterMap_cons_some hsome, hreport, List.append_assoc, List.singleton_append]

/-- Nothing is read whose lengths do not add up to exactly the bytes behind the header. -/
theorem kwinParseReport_declared (h : kwinParseReport data = some report) :
    ∃ header last bodies, HeaderOf data header last bodies ∧
      ((header.filterMap headerDone).map DoneLine.bodyLength).sum = bodies.length ∧
      report.done = attachBodies (header.filterMap headerDone) bodies := by
  simp only [kwinParseReport, magicOk, Option.bind_eq_bind, Option.bind_eq_some_iff] at h
  obtain ⟨scan, ⟨⟨text, scan'⟩, hline, hmagic⟩, h⟩ := h
  obtain ⟨hsplit, hnot⟩ := line_eq_some hline
  dsimp only at hsplit hmagic
  split_ifs at hmagic with htext
  cases hmagic
  obtain ⟨header, last, bodies, hof, hsum, hreport⟩ := parseReportLines_accepts h
  have hnone : headerDone text = none := by
    rw [htext]
    decide
  have hopen : ¬ opensWith (ascii "end") text := by
    rintro ⟨cursor, htoken⟩
    rw [htext] at htoken
    have hword : token (ascii "KSK1") = some (ascii "KSK1", []) := by decide
    rw [hword] at htoken
    cases htoken
  refine ⟨text :: header, last, bodies, ?_, ?_, ?_⟩
  · rw [hsplit]
    exact hof.cons hnot hopen
  · rw [List.filterMap_cons_none hnone]
    omega
  · rwa [List.filterMap_cons_none hnone]

/-- What the script builds the daemon reads back: the generation, the sequences, the statuses and
the bodies of a report, whatever stands in them, and the fields of a poll. And a report is read only
if the lengths it declares add up to the bytes behind its header. -/
theorem envelopes_roundTrip {generation : Bytes} (hg : validGeneration generation) :
    (∀ executions, Reportable executions →
      kwinParseReport (JsText.toUtf8 (buildReport (JsText.ofBytes generation) executions)) =
        some ⟨generation, executions.map Execution.done⟩) ∧
    (∀ lane roundTripMs lost, lane ≠ .none → roundTripMs ≤ 600000 → lost ≤ 65535 →
      kwinParsePoll (JsText.toUtf8 (buildPoll (JsText.ofBytes generation) (JsText.ofBytes (laneText lane))
        (roundTripMs : ℕ) (lost : ℕ))) = some ⟨generation, lane, roundTripMs, lost⟩) ∧
    ∀ data report, kwinParseReport data = some report →
      ∃ header last bodies, HeaderOf data header last bodies ∧
        ((header.filterMap headerDone).map DoneLine.bodyLength).sum = bodies.length ∧
        report.done = attachBodies (header.filterMap headerDone) bodies := by
  refine ⟨?_, ?_, ?_⟩
  · intro executions hexecutions
    exact kwinParseReport_buildReport hg hexecutions
  · intro lane roundTripMs lost hlane hround hlost
    obtain ⟨-, hascii, -, -⟩ := laneText_spec hlane
    rw [toUtf8_buildPoll hg hascii]
    exact kwinParsePoll_pollBytes hg hlane hround hlost
  · intro data report h
    exact kwinParseReport_declared h

/-- A generation of zeros. -/
def zeroGeneration : Bytes := List.replicate 32 48

/-- A result whose body imitates the lines of a header, with a pair of surrogates in it. -/
def trickyResult : Execution :=
  ⟨⟨JsText.ofBytes (List.replicate 16 49), some 0x2010, some 2000, []⟩, statusOk,
    JsText.lit "end\ndone " ++ [0xd83d, 0xde00], []⟩

theorem trickyResult_roundTrip : Reportable [trickyResult] ∧
    kwinParseReport (JsText.toUtf8 (buildReport (JsText.ofBytes zeroGeneration) [trickyResult])) =
      some ⟨zeroGeneration, [trickyResult].map Execution.done⟩ := by
  have hwell : JsText.WellFormed (JsText.lit "end\ndone " ++ [0xd83d, 0xde00]) := by
    refine .append (JsText.wellFormed_of_lt (by decide)) (.pair (by decide) (by decide) .nil)
  have hreportable : Reportable [trickyResult] := by
    refine ⟨List.cons_ne_nil _ _, by decide, ?_, ?_, by decide +kernel⟩
    · intro e he
      rw [List.mem_singleton.mp he]
      exact ⟨⟨List.replicate 16 49, by decide, rfl⟩, by decide⟩
    · intro e he
      rw [List.mem_singleton.mp he]
      exact hwell
  have hg : validGeneration zeroGeneration := by decide
  exact ⟨hreportable, (envelopes_roundTrip hg).1 [trickyResult] hreportable⟩

end Declared

end KeysharpDesktop.KwinScript
