import KeysharpDesktop.Kwin.Dispatch

/-! A report as it is written: what the daemon's parser makes of a head, a line for each job and
the bodies behind them. -/
namespace KeysharpDesktop

section Words

variable {word rest text : Bytes} {offset : ℕ}

theorem takeWhile_append_cons {b : UInt8} (h : b ∉ word) (rest : Bytes) :
    (word ++ b :: rest).takeWhile (· != b) = word := by
  induction word with
  | nil => simp
  | cons c word ih =>
    have hc : c ≠ b := fun heq => h (heq ▸ List.mem_cons_self)
    have hrest := ih fun hmem => h (List.mem_cons_of_mem c hmem)
    simp [hc, hrest]

theorem takeWhile_of_not_mem {b : UInt8} (h : b ∉ word) : word.takeWhile (· != b) = word := by
  rw [List.takeWhile_eq_self_iff]
  intro c hc
  have hne : c ≠ b := fun heq => h (heq ▸ hc)
  simpa using hne

/-- A line ends at its newline. -/
theorem line_append (h : (10 : UInt8) ∉ text) (rest : Bytes) (offset : ℕ) :
    line ⟨text ++ 10 :: rest, offset⟩ = some (text, ⟨rest, offset + text.length + 1⟩) := by
  have hlen : text.length ≠ (text ++ 10 :: rest).length := by
    rw [List.length_append, List.length_cons]
    omega
  have hdrop : (text ++ 10 :: rest).drop (text.length + 1) = rest := by
    rw [← List.drop_drop, List.drop_left]
    rfl
  simp only [line, takeWhile_append_cons h, if_neg hlen, hdrop]

theorem token_append (h : (32 : UInt8) ∉ word) (hne : word ≠ []) (rest : Bytes) :
    token (word ++ 32 :: rest) = some (word, rest) := by
  have hdrop : (word ++ 32 :: rest).drop (word.length + 1) = rest := by
    rw [← List.drop_drop, List.drop_left]
    rfl
  simp only [token, takeWhile_append_cons h, if_neg hne, hdrop]

theorem token_last (h : (32 : UInt8) ∉ word) (hne : word ≠ []) : token word = some (word, []) := by
  have hdrop : word.drop (word.length + 1) = [] := List.drop_eq_nil_of_le (Nat.le_succ _)
  simp only [token, takeWhile_of_not_mem h, if_neg hne, hdrop]

end Words

section Numbers

/-- Digits read on from a value. -/
def digitsFrom (parsed : ℕ) (ds : Bytes) : ℕ := ds.foldl (fun v d => v * 10 + (d.toNat - 48)) parsed

theorem le_digitsFrom (parsed : ℕ) (ds : Bytes) : parsed ≤ digitsFrom parsed ds := by
  induction ds generalizing parsed with
  | nil => exact Nat.le_refl _
  | cons d ds ih =>
    have hrest := ih (parsed * 10 + (d.toNat - 48))
    have hcons : digitsFrom parsed (d :: ds) = digitsFrom (parsed * 10 + (d.toNat - 48)) ds := rfl
    omega

theorem isDigit_bounds {b : UInt8} (h : isDigit b) : 48 ≤ b.toNat ∧ b.toNat ≤ 57 := by
  simp only [isDigit, Bool.and_eq_true, decide_eq_true_eq, UInt8.le_iff_toNat_le] at h
  exact h

/-- The loop stops where the value leaves 32 bits. -/
theorem decimalDigits_eq {ds : Bytes} (h : ∀ b ∈ ds, isDigit b) {parsed : ℕ} (hparsed : parsed ≤ 4294967295) :
    decimalDigits parsed ds = if digitsFrom parsed ds ≤ 4294967295 then some (digitsFrom parsed ds) else none := by
  induction ds generalizing parsed with
  | nil => rw [digitsFrom, List.foldl_nil, if_pos hparsed, decimalDigits]
  | cons d ds ih =>
    have hd := isDigit_bounds (h d List.mem_cons_self)
    have hds : ∀ b ∈ ds, isDigit b := fun b hb => h b (List.mem_cons_of_mem d hb)
    have hcons : digitsFrom parsed (d :: ds) = digitsFrom (parsed * 10 + (d.toNat - 48)) ds := rfl
    have hrange : ¬ (d < 48 ∨ 57 < d) := by
      rw [UInt8.lt_iff_toNat_lt, UInt8.lt_iff_toNat_lt]
      show ¬ (d.toNat < 48 ∨ 57 < d.toNat)
      omega
    rw [decimalDigits, if_neg hrange, hcons]
    by_cases hover : (4294967295 - (d.toNat - 48)) / 10 < parsed
    · have hle := le_digitsFrom (parsed * 10 + (d.toNat - 48)) ds
      rw [if_pos hover, if_neg (by omega)]
    · rw [if_neg hover]
      exact ih hds (by omega)

theorem decimalReversed_last {turns value : ℕ} (hlt : value < 10 ^ turns) (hne : value ≠ 0) :
    ∃ init d, decimalReversed turns value = init ++ [d] ∧ d ≠ 48 := by
  induction turns generalizing value with
  | zero => omega
  | succ turns ih =>
    have hnext : value / 10 < 10 ^ turns := Nat.div_lt_of_lt_mul (by rwa [Nat.pow_succ, Nat.mul_comm] at hlt)
    rw [decimalReversed, if_neg hne]
    by_cases hsmall : value / 10 = 0
    · have hnil : decimalReversed turns (value / 10) = [] := by
        cases turns with
        | zero => rfl
        | succ turns => rw [decimalReversed, if_pos hsmall]
      have hdigit : ∀ d < 10, d ≠ 0 → UInt8.ofNat (48 + d) ≠ 48 := by decide
      exact ⟨[], _, by rw [hnil]; rfl, hdigit _ (Nat.mod_lt _ (by omega)) (by omega)⟩
    · obtain ⟨init, d, heq, hd⟩ := ih hnext hsmall
      exact ⟨_ :: init, d, by rw [heq]; rfl, hd⟩

/-- No number is written with a zero in front. -/
theorem decimalText_head (value : ℕ) : ¬ (1 < (decimalText value).length ∧ (decimalText value).head? = some 48) := by
  intro h
  by_cases hzero : value = 0
  · rw [hzero] at h
    exact absurd h.1 (by decide)
  · obtain ⟨init, d, heq, hd⟩ := decimalReversed_last (lt_ten_pow value) hzero
    rw [decimalText, if_neg hzero, heq, List.reverse_append] at h
    exact hd (Option.some.inj h.2)

/-- The strict reader takes what the writers write. -/
theorem decimal_decimalText {value limit : ℕ} (hlimit : limit ≤ 4294967295) :
    decimal (decimalText value) limit = if limit < value then none else some value := by
  have hvalue : digitsFrom 0 (decimalText value) = value := digitsValue_decimalText value
  have hdigits := decimalDigits_eq (decimalText_all value) (Nat.zero_le 4294967295)
  rw [hvalue] at hdigits
  have hempty : (decimalText value).length ≠ 0 := fun hlen =>
    decimalText_ne_nil value (List.length_eq_zero_iff.mp hlen)
  unfold decimal
  by_cases hlong : 10 < (decimalText value).length
  · have hbig : ¬ value < 10 ^ 10 := fun hlt =>
      absurd (length_decimalText hlt (by omega)) (Nat.not_le.mpr hlong)
    rw [if_pos (.inr hlong), if_pos (by omega)]
  · rw [if_neg (by omega), if_neg (decimalText_head value), hdigits]
    by_cases hfit : value ≤ 4294967295
    · rw [if_pos hfit]
      rfl
    · rw [if_neg hfit, if_pos (by omega)]
      rfl

end Numbers

section Lines

/-- A done line by its numbers; the body stands elsewhere. -/
structure ReportLine where
  sequence : Bytes
  status : ℕ
  length : ℕ
  deriving DecidableEq, Repr

namespace ReportLine

def words (l : ReportLine) : Bytes :=
  l.sequence ++ 32 :: (decimalText l.status ++ 32 :: decimalText l.length)

def bytes (l : ReportLine) : Bytes := ascii "done" ++ 32 :: l.words ++ [10]

def done (l : ReportLine) : DoneLine := ⟨l.sequence, BitVec.ofNat 32 l.status, l.length⟩

/-- A line that the parser can read. -/
structure Readable (l : ReportLine) : Prop where
  sequence : validSequence l.sequence
  status : l.status < 256

end ReportLine

/-- The bytes of all the bodies that some lines declare. -/
def declaredBytes (lines : List ReportLine) : ℕ := (lines.map ReportLine.length).sum

/-- A report of a generation. -/
def reportBytes (generation : Bytes) (lines : List ReportLine) (bodies : Bytes) : Bytes :=
  ascii "KSK1" ++ 10 :: (ascii "gen" ++ 32 :: generation ++ 10 ::
    (lines.flatMap ReportLine.bytes ++ (ascii "end" ++ 10 :: bodies)))

variable {l : ReportLine} {lines : List ReportLine} {generation bodies rest : Bytes} {turns offset declared : ℕ}
  {read : List DoneLine} {report : KwinReport}

theorem isHexDigit_not_sep {bs : Bytes} (h : ∀ b ∈ bs, isHexDigit b) : (10 : UInt8) ∉ bs ∧ (32 : UInt8) ∉ bs := by
  constructor
  · intro hmem
    exact absurd (h 10 hmem) (by decide)
  · intro hmem
    exact absurd (h 32 hmem) (by decide)

theorem decimalText_not_sep (value : ℕ) : (10 : UInt8) ∉ decimalText value ∧ (32 : UInt8) ∉ decimalText value := by
  constructor
  · intro hmem
    exact absurd (decimalText_all value 10 hmem) (by decide)
  · intro hmem
    exact absurd (decimalText_all value 32 hmem) (by decide)

theorem doneLine_words (h : l.Readable) :
    doneLine l.words = if maxTextBytes < l.length then none else some l.done := by
  obtain ⟨hlen, hhex⟩ := validSequence_iff.mp h.sequence
  have hsequence : l.sequence ≠ [] := by
    intro hnil
    rw [hnil] at hlen
    exact absurd hlen (by decide)
  have hword : hex l.sequence kwinSeqHex = some l.sequence := by
    rw [hex, if_pos ⟨hlen, List.all_eq_true.mpr hhex⟩]
  have hfirst : token l.words = some (l.sequence, decimalText l.status ++ 32 :: decimalText l.length) :=
    token_append (isHexDigit_not_sep hhex).2 hsequence _
  have hsecond : token (decimalText l.status ++ 32 :: decimalText l.length) =
      some (decimalText l.status, decimalText l.length) :=
    token_append (decimalText_not_sep l.status).2 (decimalText_ne_nil l.status) _
  have hthird : token (decimalText l.length) = some (decimalText l.length, []) :=
    token_last (decimalText_not_sep l.length).2 (decimalText_ne_nil l.length)
  have hstatus : decimal (decimalText l.status) 255 = some l.status := by
    rw [decimal_decimalText (by omega), if_neg (by have := h.status; omega)]
  have hlength := @decimal_decimalText l.length maxTextBytes (by decide)
  simp only [doneLine, hfirst, hword, hsecond, hstatus, hthird, hlength, Option.bind_eq_bind, Option.bind_some,
    ne_eq, not_true_eq_false, if_false]
  split_ifs
  · rfl
  · rfl

theorem words_not_newline (h : l.Readable) : (10 : UInt8) ∉ ascii "done" ++ 32 :: l.words := by
  have hhex := (isHexDigit_not_sep (validSequence_iff.mp h.sequence).2).1
  have hword : (10 : UInt8) ∉ ascii "done" := by decide
  simp only [ReportLine.words, List.mem_append, List.mem_cons, not_or]
  exact ⟨hword, by decide, hhex, by decide, (decimalText_not_sep _).1, by decide, (decimalText_not_sep _).1⟩

/-- What the loop does with a done line. -/
theorem parseReportLines_done (h : l.Readable) :
    parseReportLines (turns + 1) ⟨l.bytes ++ rest, offset⟩ (some generation) read declared =
      if kwinMaxHeaderBytes < offset + l.bytes.length ∨ read.length = kwinMaxDonePerReport ∨
          maxTextBytes < l.length ∨ maxTextBytes < declared + l.length then none
      else parseReportLines turns ⟨rest, offset + l.bytes.length⟩ (some generation) (read ++ [l.done])
        (declared + l.length) := by
  have hscan : l.bytes ++ rest = (ascii "done" ++ 32 :: l.words) ++ 10 :: rest := by
    simp [ReportLine.bytes]
  have hlen : offset + (ascii "done" ++ 32 :: l.words).length + 1 = offset + l.bytes.length := by
    simp [ReportLine.bytes]
    omega
  have htoken : token (ascii "done" ++ 32 :: l.words) = some (ascii "done", l.words) :=
    token_append (by decide) (by decide) _
  have hend : ascii "done" ≠ ascii "end" := by decide
  have hgen : ascii "done" ≠ ascii "gen" := by decide
  rw [parseReportLines, hscan, line_append (words_not_newline h)]
  simp only [Option.bind_eq_bind, Option.bind_some, htoken, if_neg hend, if_neg hgen, ne_eq, not_true_eq_false,
    if_false, doneLine_words h, hlen]
  by_cases hheader : kwinMaxHeaderBytes < offset + l.bytes.length
  · rw [if_pos hheader, if_pos (.inl hheader)]
  by_cases hcount : read.length = kwinMaxDonePerReport
  · rw [if_neg hheader, if_pos hcount, if_pos (.inr (.inl hcount))]
  by_cases hlong : maxTextBytes < l.length
  · rw [if_neg hheader, if_neg hcount, if_pos hlong, if_pos (.inr (.inr (.inl hlong)))]
    rfl
  rw [if_neg hheader, if_neg hcount, if_neg hlong, Option.bind_some]
  have hdone : l.done.bodyLength = l.length := rfl
  rw [hdone]
  by_cases hsum : maxTextBytes < declared + l.length
  · rw [if_pos hsum, if_pos (.inr (.inr (.inr hsum)))]
  · rw [if_neg hsum, if_neg]
    simp only [hheader, hcount, hlong, hsum, or_self, not_false_eq_true]

theorem parseReportLines_end :
    parseReportLines (turns + 1) ⟨ascii "end" ++ 10 :: bodies, offset⟩ (some generation) read declared =
      if kwinMaxHeaderBytes < offset + 4 ∨ read = [] ∨ declared ≠ bodies.length then none
      else some ⟨generation, attachBodies read bodies⟩ := by
  have htoken : token (ascii "end") = some (ascii "end", []) := token_last (by decide) (by decide)
  have hlen : offset + (ascii "end").length + 1 = offset + 4 := rfl
  rw [parseReportLines, line_append (by decide)]
  simp only [Option.bind_eq_bind, Option.bind_some, htoken, if_true, ne_eq, not_true_eq_false, false_or, hlen]
  by_cases hheader : kwinMaxHeaderBytes < offset + 4
  · rw [if_pos hheader, if_pos (.inl hheader)]
  · rw [if_neg hheader]
    simp only [hheader, false_or]

theorem length_done_bytes (h : l.Readable) (hshort : l.length ≤ maxTextBytes) : l.bytes.length ≤ 40 := by
  have hsequence : l.sequence.length = 16 := (validSequence_iff.mp h.sequence).1
  have hstatus : (decimalText l.status).length ≤ 3 :=
    length_decimalText (by have := h.status; omega) (by omega)
  have hlength : (decimalText l.length).length ≤ 10 := by
    unfold maxTextBytes at hshort
    exact length_decimalText (by omega) (by omega)
  have hword : (ascii "done").length = 4 := by decide
  simp only [ReportLine.bytes, ReportLine.words, List.length_append, List.length_cons, List.length_nil, hword]
  omega

theorem length_le_bytes (lines : List ReportLine) : lines.length ≤ (lines.flatMap ReportLine.bytes).length := by
  induction lines with
  | nil => exact Nat.le_refl _
  | cons l lines ih =>
    have hone : 1 ≤ l.bytes.length := by
      rw [ReportLine.bytes, List.length_append]
      exact Nat.le_add_left _ _
    rw [List.flatMap_cons, List.length_append, List.length_cons]
    omega

/-- Lines that are read all the way declare exactly the bytes behind them, and no more than fits. -/
theorem parseReportLines_sound (h : ∀ l ∈ lines, l.Readable)
    (hparse : parseReportLines turns ⟨lines.flatMap ReportLine.bytes ++ (ascii "end" ++ 10 :: bodies), offset⟩
      (some generation) read declared = some report) (hdeclared : declared ≤ maxTextBytes) :
    report = ⟨generation, attachBodies (read ++ lines.map ReportLine.done) bodies⟩ ∧
      declared + declaredBytes lines = bodies.length ∧ bodies.length ≤ maxTextBytes := by
  induction lines generalizing turns offset read declared with
  | nil =>
    cases turns with
    | zero => cases hparse
    | succ turns =>
      rw [List.flatMap_nil, List.nil_append, parseReportLines_end] at hparse
      split_ifs at hparse with hbad
      cases hparse
      simp only [not_or, ne_eq, not_not] at hbad
      refine ⟨by rw [List.map_nil, List.append_nil], hbad.2.2, ?_⟩
      rw [← hbad.2.2]
      exact hdeclared
  | cons l lines ih =>
    cases turns with
    | zero => cases hparse
    | succ turns =>
      rw [List.flatMap_cons, List.append_assoc, parseReportLines_done (h l List.mem_cons_self)] at hparse
      split_ifs at hparse with hbad
      simp only [not_or, Nat.not_lt] at hbad
      obtain ⟨hreport, hsum, hshort⟩ :=
        ih (fun l' hl' => h l' (List.mem_cons_of_mem l hl')) hparse hbad.2.2.2
      refine ⟨?_, ?_, hshort⟩
      · rw [hreport, List.map_cons, List.append_assoc, List.singleton_append]
      · rw [← hsum, declaredBytes, declaredBytes, List.map_cons, List.sum_cons]
        omega

/-- Lines that fit are read all the way. -/
theorem parseReportLines_complete (h : ∀ l ∈ lines, l.Readable) (hturns : lines.length < turns)
    (hheader : offset + 40 * lines.length + 4 ≤ kwinMaxHeaderBytes)
    (hcount : read.length + lines.length ≤ kwinMaxDonePerReport) (hsome : read ++ lines.map ReportLine.done ≠ [])
    (hsum : declared + declaredBytes lines = bodies.length) (hshort : bodies.length ≤ maxTextBytes) :
    parseReportLines turns ⟨lines.flatMap ReportLine.bytes ++ (ascii "end" ++ 10 :: bodies), offset⟩
      (some generation) read declared =
      some ⟨generation, attachBodies (read ++ lines.map ReportLine.done) bodies⟩ := by
  induction lines generalizing turns offset read declared with
  | nil =>
    obtain ⟨turns, rfl⟩ : ∃ n, turns = n + 1 := ⟨turns - 1, by simp only [List.length_nil] at hturns; omega⟩
    rw [List.map_nil, List.append_nil] at hsome
    rw [declaredBytes, List.map_nil, List.sum_nil, Nat.add_zero] at hsum
    rw [List.length_nil] at hheader
    rw [List.flatMap_nil, List.nil_append, parseReportLines_end, if_neg, List.map_nil, List.append_nil]
    simp only [not_or, Nat.not_lt, ne_eq, not_not]
    exact ⟨by omega, hsome, hsum⟩
  | cons l lines ih =>
    obtain ⟨turns, rfl⟩ : ∃ n, turns = n + 1 := ⟨turns - 1, by omega⟩
    rw [List.length_cons] at hturns hheader hcount
    rw [declaredBytes, List.map_cons, List.sum_cons] at hsum
    have hl := h l List.mem_cons_self
    have hlength : l.length ≤ maxTextBytes := by omega
    have hbytes := length_done_bytes hl hlength
    have hlines := fun l' hl' => h l' (List.mem_cons_of_mem l hl')
    have hrest : (read ++ [l.done]).length = read.length + 1 := by simp
    rw [List.flatMap_cons, List.append_assoc, parseReportLines_done hl, if_neg]
    · rw [ih hlines (by omega) (by omega) (by omega) (by simp) (by rw [declaredBytes]; omega),
        List.map_cons, List.append_assoc, List.singleton_append]
    · simp only [not_or, Nat.not_lt]
      exact ⟨by omega, by omega, hlength, by omega⟩

/-- The head of a report is passed over. -/
theorem kwinParseReport_reportBytes (hg : validGeneration generation) :
    kwinParseReport (reportBytes generation lines bodies) =
      parseReportLines ((reportBytes generation lines bodies).length - 1)
        ⟨lines.flatMap ReportLine.bytes ++ (ascii "end" ++ 10 :: bodies), 42⟩ (some generation) [] 0 := by
  obtain ⟨hlen, hhex⟩ := validGeneration_iff.mp hg
  have hlen : generation.length = 32 := hlen
  have hmagic : magicOk ⟨reportBytes generation lines bodies, 0⟩ = some ⟨ascii "gen" ++ 32 :: generation ++ 10 ::
      (lines.flatMap ReportLine.bytes ++ (ascii "end" ++ 10 :: bodies)), 5⟩ := by
    rw [magicOk, reportBytes, line_append (by decide)]
    rfl
  have hnewline : (10 : UInt8) ∉ ascii "gen" ++ 32 :: generation := by
    have hword : (10 : UInt8) ∉ ascii "gen" := by decide
    simp only [List.mem_append, List.mem_cons, not_or]
    exact ⟨hword, by decide, (isHexDigit_not_sep hhex).1⟩
  have htoken : token (ascii "gen" ++ 32 :: generation) = some (ascii "gen", generation) :=
    token_append (by decide) (by decide) _
  have hne : generation ≠ [] := by
    intro hnil
    rw [hnil] at hlen
    exact absurd hlen (by decide)
  have hword : token generation = some (generation, []) := token_last (isHexDigit_not_sep hhex).2 hne
  have hgen : hex generation kwinGenerationHex = some generation := by
    rw [hex, if_pos ⟨hlen, List.all_eq_true.mpr hhex⟩]
  have hoffset : 5 + (ascii "gen" ++ 32 :: generation).length + 1 = 42 := by
    have hthree : (ascii "gen").length = 3 := by decide
    rw [List.length_append, List.length_cons, hthree, hlen]
  have hturns : ∃ n, (reportBytes generation lines bodies).length = n + 1 := by
    refine ⟨(reportBytes generation lines bodies).length - 1, ?_⟩
    have hpos : 0 < (reportBytes generation lines bodies).length := by
      rw [reportBytes, List.length_append]
      exact Nat.add_pos_left (by decide) _
    omega
  obtain ⟨n, hn⟩ := hturns
  have hend : ascii "gen" ≠ ascii "end" := by decide
  have hheader : ¬ kwinMaxHeaderBytes < 42 := by decide
  rw [kwinParseReport, hmagic, Option.bind_eq_bind, Option.bind_some, hn, parseReportLines, line_append hnewline,
    hoffset]
  simp only [Option.bind_eq_bind, Option.bind_some, htoken, if_neg hend, if_neg hheader, if_true, hword, hgen,
    Option.isSome_none, Bool.false_eq_true, or_false, ne_eq, not_true_eq_false, if_false, Nat.add_sub_cancel]

/-- A report is accepted exactly when it has lines, no more than a report may have, and bodies of
the declared size that fit the bound on a text. -/
theorem kwinParseReport_eq_some (hg : validGeneration generation) (h : ∀ l ∈ lines, l.Readable)
    (hcount : lines.length ≤ kwinMaxDonePerReport) (hne : lines ≠ [])
    (hsum : declaredBytes lines = bodies.length) :
    kwinParseReport (reportBytes generation lines bodies) =
      if maxTextBytes < bodies.length then none
      else some ⟨generation, attachBodies (lines.map ReportLine.done) bodies⟩ := by
  rw [kwinParseReport_reportBytes hg]
  by_cases hlong : maxTextBytes < bodies.length
  · rw [if_pos hlong, Option.eq_none_iff_forall_ne_some]
    intro report hparse
    have hsound := parseReportLines_sound h hparse (Nat.zero_le _)
    omega
  · rw [if_neg hlong]
    have hlines := length_le_bytes lines
    have hturns : lines.length < (reportBytes generation lines bodies).length - 1 := by
      simp only [reportBytes, List.length_append, List.length_cons]
      omega
    have hsome : [] ++ lines.map ReportLine.done ≠ [] := by
      rw [List.nil_append]
      exact fun hnil => hne (List.map_eq_nil_iff.mp hnil)
    have hnine : lines.length ≤ 9 := hcount
    have hheader : 42 + 40 * lines.length + 4 ≤ kwinMaxHeaderBytes := by
      unfold kwinMaxHeaderBytes
      omega
    rw [parseReportLines_complete h hturns hheader (by rw [List.length_nil]; omega) hsome (by omega)
      (Nat.not_lt.mp hlong), List.nil_append]

end Lines

end KeysharpDesktop
