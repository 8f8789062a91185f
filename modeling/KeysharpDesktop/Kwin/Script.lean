import KeysharpDesktop.Kwin.Dispatch
import KeysharpDesktop.Lib.JsText

/-! The script's end of the envelope: how it reads a poll reply. -/
namespace KeysharpDesktop

open JsText (Text)

/-- A job as the script holds it; `none` is a number it could not read. -/
structure ScriptJob where
  sequence : Text
  opcode : Option ℤ
  budget : Option ℤ
  body : Text
  deriving DecidableEq, Repr

/-- The loop over the lines of a reply; `offset` is where the next body starts. -/
def parseJobLines (text : Text) : ℕ → List Text → Option (List ScriptJob)
  | _, [] => some []
  | offset, line :: lines =>
    if JsText.startsWith (JsText.lit "lane ") line ∨ JsText.startsWith (JsText.lit "idle ") line then
      parseJobLines text offset lines
    else if !JsText.startsWith (JsText.lit "job ") line then none
    else
      match JsText.split 32 (line.drop 4) with
      | [sequence, opcode, budget, length] =>
        match JsText.parseInt length 10 with
        | none => none
        | some n =>
          if n < 0 then none
          else
            (parseJobLines text (offset + n.toNat) lines).map fun jobs =>
              ⟨sequence, JsText.parseInt opcode 16, JsText.parseInt budget 10,
                JsText.substr text offset n.toNat⟩ :: jobs
      | _ => none

/-- `none` is a reply the script does not understand; `generation` is the script's own. -/
def parsePollReply (generation text : Text) : Option (List ScriptJob) :=
  match JsText.indexOf (JsText.lit "\nend\n") text with
  | none => none
  | some terminator =>
    if !JsText.startsWith (JsText.lit "KSK1\n") text then none
    else
      match JsText.split 10 (JsText.slice text 5 terminator) with
      | [] => none
      | first :: lines =>
        if !JsText.startsWith (JsText.lit "gen ") first then none
        else if first.drop 4 ≠ generation then none
        else parseJobLines text (terminator + 5) lines

/-- What the script should make of a job it is handed. -/
def scriptJob (job : KwinDispatch) : ScriptJob :=
  ⟨JsText.ofBytes job.sequence, some job.opcode.toNat, some job.budgetMs.toNat, JsText.ofBytes job.body⟩

section Lines

variable {generation : Bytes} {lane : KwinLane} {idleMs : BitVec 32} {jobs : List KwinDispatch}
  {job : KwinDispatch}

theorem ofBytes_append (xs ys : Bytes) :
    JsText.ofBytes (xs ++ ys) = JsText.ofBytes xs ++ JsText.ofBytes ys := List.map_append

theorem toUInt16_injective {a b : UInt8} (h : a.toUInt16 = b.toUInt16) : a = b := by
  have hnat := congrArg UInt16.toNat h
  rw [UInt8.toNat_toUInt16, UInt8.toNat_toUInt16] at hnat
  exact UInt8.toNat_inj.mp hnat

theorem not_mem_ofBytes {b : UInt8} {bs : Bytes} (h : b ∉ bs) : b.toUInt16 ∉ JsText.ofBytes bs := by
  intro hmem
  obtain ⟨a, ha, heq⟩ := List.mem_map.mp hmem
  rw [toUInt16_injective heq] at ha
  exact h ha

/-- A job's line without the newline that ends it. -/
def jobWords (job : KwinDispatch) : Bytes :=
  job.sequence ++ (ascii " " ++ (hexText job.opcode.toNat 4 ++ (ascii " " ++
    (decimalText job.budgetMs.toNat ++ (ascii " " ++ decimalText (BitVec.ofNat 32 job.body.length).toNat)))))

/-- The lines between the magic word and the terminator. -/
def replyLines (generation : Bytes) (lane : KwinLane) (idleMs : BitVec 32) (jobs : List KwinDispatch) :
    List Bytes :=
  (ascii "gen " ++ generation) :: (ascii "lane " ++ laneName lane) ::
    (ascii "idle " ++ decimalText idleMs.toNat) :: jobs.map fun job => ascii "job " ++ jobWords job

theorem flatMap_jobLine (jobs : List KwinDispatch) :
    ascii "\n" ++ jobs.flatMap jobLine =
      (jobs.map fun job => ascii "job " ++ jobWords job).flatMap (10 :: ·) ++ ascii "\n" := by
  induction jobs with
  | nil => rfl
  | cons job jobs ih =>
    rw [List.flatMap_cons, List.map_cons, List.flatMap_cons, List.append_assoc, ← ih]
    simp [jobLine, jobWords, ascii]

/-- A reply by its lines. -/
theorem pollReplyText_eq (generation : Bytes) (lane : KwinLane) (idleMs : BitVec 32)
    (jobs : List KwinDispatch) :
    pollReplyText generation lane idleMs jobs = ascii "KSK1" ++
      ((replyLines generation lane idleMs jobs).flatMap (10 :: ·) ++
        (ascii "\nend\n" ++ jobs.flatMap KwinDispatch.body)) := by
  have hjobs := flatMap_jobLine jobs
  have hlines : (replyLines generation lane idleMs jobs).flatMap (10 :: ·) =
      ascii "\ngen " ++ (generation ++ (ascii "\nlane " ++ (laneName lane ++ (ascii "\nidle " ++
        (decimalText idleMs.toNat ++
          (jobs.map fun job => ascii "job " ++ jobWords job).flatMap (10 :: ·)))))) := by
    simp [replyLines, ascii]
  have hend : ascii "\nend\n" = ascii "\n" ++ ascii "end\n" := rfl
  calc pollReplyText generation lane idleMs jobs
      = ascii "KSK1\ngen " ++ (generation ++ (ascii "\nlane " ++ (laneName lane ++ (ascii "\nidle " ++
        (decimalText idleMs.toNat ++ ((ascii "\n" ++ jobs.flatMap jobLine) ++ (ascii "end\n" ++
          jobs.flatMap KwinDispatch.body))))))) := by simp [pollReplyText, replyHead, ascii]
    _ = _ := by
      rw [hjobs, hlines, hend]
      simp [ascii]

theorem isHexDigit_ne_newline {b : UInt8} (h : isHexDigit b) : b ≠ 10 ∧ b ≠ 32 := by
  constructor
  · rintro rfl
    revert h
    decide
  · rintro rfl
    revert h
    decide

theorem isDigit_ne_newline {b : UInt8} (h : isDigit b) : b ≠ 10 ∧ b ≠ 32 := by
  constructor
  · rintro rfl
    revert h
    decide
  · rintro rfl
    revert h
    decide

/-- A word of hex digits holds neither a newline nor a space. -/
theorem hexDigits_not_mem {bs : Bytes} (h : ∀ b ∈ bs, isHexDigit b) : (10 : UInt8) ∉ bs ∧ (32 : UInt8) ∉ bs :=
  ⟨fun hmem => (isHexDigit_ne_newline (h _ hmem)).1 rfl, fun hmem => (isHexDigit_ne_newline (h _ hmem)).2 rfl⟩

theorem decimalText_not_mem (value : ℕ) : (10 : UInt8) ∉ decimalText value ∧ (32 : UInt8) ∉ decimalText value :=
  ⟨fun hmem => (isDigit_ne_newline (decimalText_all value _ hmem)).1 rfl,
    fun hmem => (isDigit_ne_newline (decimalText_all value _ hmem)).2 rfl⟩

theorem hexText_not_mem (value digits : ℕ) :
    (10 : UInt8) ∉ hexText value digits ∧ (32 : UInt8) ∉ hexText value digits :=
  hexDigits_not_mem (List.all_eq_true.mp (hexText_all value digits))

theorem jobWords_not_mem (h : validSequence job.sequence) : (10 : UInt8) ∉ jobWords job := by
  have hseq := (hexDigits_not_mem (validSequence_iff.mp h).2).1
  have hop := (hexText_not_mem job.opcode.toNat 4).1
  have hbudget := (decimalText_not_mem job.budgetMs.toNat).1
  have hlength := (decimalText_not_mem (BitVec.ofNat 32 job.body.length).toNat).1
  have hspace : (10 : UInt8) ∉ ascii " " := by decide
  simp only [jobWords, List.mem_append, not_or]
  exact ⟨hseq, hspace, hop, hspace, hbudget, hspace, hlength⟩

/-- No line of a reply holds a newline or starts like the terminator. -/
theorem replyLines_spec (hg : validGeneration generation) (hseq : ∀ job ∈ jobs, validSequence job.sequence) :
    ∀ line ∈ replyLines generation lane idleMs jobs,
      (10 : UInt8) ∉ line ∧ ∃ first rest, line = first :: rest ∧ first ≠ 101 := by
  have hgen := (hexDigits_not_mem (validGeneration_iff.mp hg).2).1
  have hname : (10 : UInt8) ∉ laneName lane := by cases lane <;> decide
  intro line hline
  simp only [replyLines, List.mem_cons, List.mem_map] at hline
  rcases hline with rfl | rfl | rfl | ⟨job, hjob, rfl⟩
  · refine ⟨?_, 103, _, rfl, by decide⟩
    simp only [List.mem_append, not_or]
    exact ⟨by decide, hgen⟩
  · refine ⟨?_, 108, _, rfl, by decide⟩
    simp only [List.mem_append, not_or]
    exact ⟨by decide, hname⟩
  · refine ⟨?_, 105, _, rfl, by decide⟩
    simp only [List.mem_append, not_or]
    exact ⟨by decide, (decimalText_not_mem _).1⟩
  · refine ⟨?_, 106, _, rfl, by decide⟩
    simp only [List.mem_append, not_or]
    exact ⟨by decide, jobWords_not_mem (hseq job hjob)⟩

end Lines

section Numbers

theorem digitValue_isDigit {b : UInt8} (h : isDigit b) :
    JsText.digitValue b.toUInt16 = some (b.toNat - 48) ∧ b.toNat - 48 < 10 := by
  revert h
  refine forall_byte (p := fun b => isDigit b → JsText.digitValue b.toUInt16 = some (b.toNat - 48) ∧
    b.toNat - 48 < 10) ?_ b
  decide +kernel

theorem value_map (f : UInt8 → ℕ) (radix : ℕ) (bs : Bytes) :
    JsText.value radix (bs.map f) = bs.foldl (fun v b => v * radix + f b) 0 := by
  rw [JsText.value, List.foldl_map]

/-- The script reads a decimal of the daemon as its value. -/
theorem parseInt_decimalText (value : ℕ) :
    JsText.parseInt (JsText.ofBytes (decimalText value)) 10 = some (value : ℤ) := by
  have hall : JsText.AllDigits 10 (JsText.ofBytes (decimalText value)) := by
    intro c hc
    obtain ⟨b, hb, rfl⟩ := List.mem_map.mp hc
    obtain ⟨hvalue, hlt⟩ := digitValue_isDigit (decimalText_all value b hb)
    exact ⟨_, hlt, hvalue⟩
  have hne : JsText.ofBytes (decimalText value) ≠ [] := by
    intro hnil
    exact decimalText_ne_nil value (List.map_eq_nil_iff.mp hnil)
  have hdigits : (JsText.ofBytes (decimalText value)).filterMap JsText.digitValue =
      (decimalText value).map fun b => b.toNat - 48 := by
    rw [JsText.ofBytes, List.filterMap_map, ← List.filterMap_eq_map]
    refine List.filterMap_congr ?_
    intro b hb
    exact (digitValue_isDigit (decimalText_all value b hb)).1
  rw [JsText.parseInt_digits hall hne (by omega), hdigits, value_map]
  have hvalue := digitsValue_decimalText value
  rw [digitsValue] at hvalue
  rw [hvalue]

theorem digitValue_isHexDigit {b : UInt8} (h : isHexDigit b) :
    ∃ d < 16, JsText.digitValue b.toUInt16 = some d := by
  revert h
  refine forall_byte (p := fun b => isHexDigit b → ∃ d < 16, JsText.digitValue b.toUInt16 = some d) ?_ b
  decide +kernel

theorem digitValue_hexDigit : ∀ n < 16, JsText.digitValue (hexDigit n).toUInt16 = some n := by
  decide

theorem value_hexText (value digits start : ℕ) :
    ((JsText.ofBytes (hexText value digits)).filterMap JsText.digitValue).foldl (fun v d => v * 16 + d) start =
      start * 16 ^ digits + value % 16 ^ digits := by
  induction digits generalizing start with
  | zero => simp [hexText, JsText.ofBytes, Nat.mod_one]
  | succ digits ih =>
    have hdigit := digitValue_hexDigit _ (Nat.mod_lt (value / 16 ^ digits) (by omega : 16 > 0))
    simp only [hexText, JsText.ofBytes, List.map_cons, List.filterMap_cons, hdigit, List.foldl_cons] at ih ⊢
    rw [ih, Nat.mod_pow_succ, Nat.pow_succ]
    ring

/-- The script reads the opcode the daemon wrote. -/
theorem parseInt_hexText (value : BitVec 16) :
    JsText.parseInt (JsText.ofBytes (hexText value.toNat 4)) 16 = some (value.toNat : ℤ) := by
  have hall : JsText.AllDigits 16 (JsText.ofBytes (hexText value.toNat 4)) := by
    intro c hc
    obtain ⟨b, hb, rfl⟩ := List.mem_map.mp hc
    exact digitValue_isHexDigit (List.all_eq_true.mp (hexText_all value.toNat 4) b hb)
  have hne : JsText.ofBytes (hexText value.toNat 4) ≠ [] := by
    simp [hexText, JsText.ofBytes]
  have hlt : value.toNat < 16 ^ 4 := value.isLt
  rw [JsText.parseInt_digits hall hne (by omega), JsText.value, value_hexText, Nat.mod_eq_of_lt hlt]
  simp

end Numbers

section RoundTrip

variable {generation : Bytes} {lane : KwinLane} {idleMs : BitVec 32} {jobs : List KwinDispatch}
  {job : KwinDispatch}

theorem split_jobWords (h : validSequence job.sequence) :
    JsText.split 32 (JsText.ofBytes (jobWords job)) =
      [JsText.ofBytes job.sequence, JsText.ofBytes (hexText job.opcode.toNat 4),
        JsText.ofBytes (decimalText job.budgetMs.toNat),
        JsText.ofBytes (decimalText (BitVec.ofNat 32 job.body.length).toNat)] := by
  have hseq : (32 : UInt16) ∉ JsText.ofBytes job.sequence :=
    not_mem_ofBytes (hexDigits_not_mem (validSequence_iff.mp h).2).2
  have hop : (32 : UInt16) ∉ JsText.ofBytes (hexText job.opcode.toNat 4) :=
    not_mem_ofBytes (hexText_not_mem job.opcode.toNat 4).2
  have hbudget : (32 : UInt16) ∉ JsText.ofBytes (decimalText job.budgetMs.toNat) :=
    not_mem_ofBytes (decimalText_not_mem job.budgetMs.toNat).2
  have hlength : (32 : UInt16) ∉ JsText.ofBytes (decimalText (BitVec.ofNat 32 job.body.length).toNat) :=
    not_mem_ofBytes (decimalText_not_mem _).2
  have hspace : JsText.ofBytes (ascii " ") = [32] := rfl
  simp only [jobWords, ofBytes_append, hspace, List.singleton_append]
  rw [JsText.split_append_cons hseq, JsText.split_append_cons hop, JsText.split_append_cons hbudget,
    JsText.split_of_not_mem hlength]

/-- A job's line is taken for nothing else. -/
theorem startsWith_jobLine (words : Text) :
    JsText.startsWith (JsText.lit "lane ") (JsText.lit "job " ++ words) = false ∧
      JsText.startsWith (JsText.lit "idle ") (JsText.lit "job " ++ words) = false ∧
      JsText.startsWith (JsText.lit "job ") (JsText.lit "job " ++ words) = true := by
  refine ⟨?_, ?_, JsText.startsWith_append _ _⟩
  · rw [Bool.eq_false_iff]
    intro hlane
    have hhead := List.cons_prefix_cons.mp (JsText.startsWith_iff.mp hlane)
    exact absurd hhead.1 (by decide)
  · rw [Bool.eq_false_iff]
    intro hidle
    have hhead := List.cons_prefix_cons.mp (JsText.startsWith_iff.mp hidle)
    exact absurd hhead.1 (by decide)

/-- The script reads the jobs it was handed, each with its own body. -/
theorem parseJobLines_jobs (hfit : ∀ job ∈ jobs, job.Fit) {before text : Text}
    (htext : text = before ++ JsText.ofBytes (jobs.flatMap KwinDispatch.body)) :
    parseJobLines text before.length (jobs.map fun job => JsText.ofBytes (ascii "job " ++ jobWords job)) =
      some (jobs.map scriptJob) := by
  induction jobs generalizing before with
  | nil => rfl
  | cons job jobs ih =>
    have hjob := hfit job List.mem_cons_self
    have hlength : (BitVec.ofNat 32 job.body.length).toNat = job.body.length := by
      have hshort := hjob.body.short
      unfold requestCapacity at hshort
      rw [BitVec.toNat_ofNat]
      omega
    have hline : JsText.ofBytes (ascii "job " ++ jobWords job) =
        JsText.lit "job " ++ JsText.ofBytes (jobWords job) := by
      rw [ofBytes_append]
      rfl
    have hdrop : (JsText.lit "job " ++ JsText.ofBytes (jobWords job)).drop 4 = JsText.ofBytes (jobWords job) := rfl
    obtain ⟨hlane, hidle, hword⟩ := startsWith_jobLine (JsText.ofBytes (jobWords job))
    have hbodies : text = before ++ JsText.ofBytes job.body ++ JsText.ofBytes (jobs.flatMap KwinDispatch.body) := by
      rw [htext, List.flatMap_cons, ofBytes_append, List.append_assoc]
    have hrest := ih (fun j hj => hfit j (List.mem_cons_of_mem job hj)) hbodies
    have hbody : JsText.substr text before.length job.body.length = JsText.ofBytes job.body := by
      have hlen : job.body.length = (JsText.ofBytes job.body).length := (List.length_map _).symm
      rw [JsText.substr, hbodies, List.append_assoc, List.drop_left, hlen, List.take_left]
    rw [List.length_append] at hrest
    have hlen : (JsText.ofBytes job.body).length = job.body.length := List.length_map _
    rw [hlen] at hrest
    rw [List.map_cons, hline, parseJobLines]
    simp only [hlane, hidle, hword, hdrop, split_jobWords hjob.sequence, parseInt_decimalText, hlength,
      Bool.false_eq_true, or_self, if_false, Bool.not_true, Int.toNat_natCast, hbody, hrest, parseInt_hexText,
      Int.not_lt_of_ge (Int.natCast_nonneg _), Option.map_some, List.map_cons, scriptJob]

theorem kwinFormatPollReply_eq_some {maximum : ℕ} {reply : Buffer}
    (h : kwinFormatPollReply generation lane idleMs jobs (bufferInit maximum) = some reply) :
    validGeneration generation ∧ (∀ job ∈ jobs, validSequence job.sequence) ∧
      reply.data = pollReplyText generation lane idleMs jobs := by
  have hcases := h
  unfold kwinFormatPollReply at hcases
  split_ifs at hcases with hgen hlane hcount hseq
  rw [Bool.not_eq_true, Bool.not_eq_false'] at hgen hseq
  have hvalid := List.all_eq_true.mp hseq
  refine ⟨hgen, hvalid, ?_⟩
  have hwrites : Writes (kwinFormatPollReply generation lane idleMs jobs)
      (pollReplyText generation lane idleMs jobs) :=
    kwinFormatPollReply_writes hgen hlane (Nat.not_lt.mp hcount) hvalid
  exact (hwrites.bufferInit_eq_some h).1

/-- The script's string for a reply whose bytes are these. -/
theorem text_eq_ofBytes (hg : validGeneration generation) (hfit : ∀ job ∈ jobs, job.Fit) {text : Text}
    (htext : JsText.toUtf8 text = pollReplyText generation lane idleMs jobs) :
    text = JsText.ofBytes (pollReplyText generation lane idleMs jobs) := by
  refine JsText.eq_ofBytes_of_toUtf8 ?_ htext
  intro b hb
  have hplain := pollReplyText_plain hg hfit b hb
  simp only [isPlain, Bool.and_eq_true, decide_eq_true_eq] at hplain
  have hlt := UInt8.lt_iff_toNat_lt.mp hplain.2
  exact hlt

theorem flatMap_ofBytes (lines : List Bytes) :
    JsText.ofBytes (lines.flatMap (10 :: ·)) = (lines.map JsText.ofBytes).flatMap (10 :: ·) := by
  induction lines with
  | nil => rfl
  | cons line lines ih =>
    rw [List.flatMap_cons, ofBytes_append, ih]
    rfl

/-- The lines of a reply as the script meets them. -/
def scriptLines (lane : KwinLane) (idleMs : BitVec 32) (jobs : List KwinDispatch) : List Text :=
  (JsText.lit "lane " ++ JsText.ofBytes (laneName lane)) ::
    (JsText.lit "idle " ++ JsText.ofBytes (decimalText idleMs.toNat)) ::
      jobs.map fun job => JsText.ofBytes (ascii "job " ++ jobWords job)

theorem replyLines_map (generation : Bytes) (lane : KwinLane) (idleMs : BitVec 32) (jobs : List KwinDispatch) :
    (replyLines generation lane idleMs jobs).map JsText.ofBytes =
      (JsText.lit "gen " ++ JsText.ofBytes generation) :: scriptLines lane idleMs jobs := by
  simp only [replyLines, scriptLines, List.map_cons, List.map_map, ofBytes_append]
  rfl

/-- The head of the reply, as the lines behind the magic word. -/
theorem ofBytes_pollReplyText (generation : Bytes) (lane : KwinLane) (idleMs : BitVec 32)
    (jobs : List KwinDispatch) :
    JsText.ofBytes (pollReplyText generation lane idleMs jobs) = JsText.lit "KSK1" ++
      (((JsText.lit "gen " ++ JsText.ofBytes generation) :: scriptLines lane idleMs jobs).flatMap
        (10 :: ·) ++ (JsText.lit "\nend\n" ++ JsText.ofBytes (jobs.flatMap KwinDispatch.body))) := by
  rw [pollReplyText_eq, ofBytes_append, ofBytes_append, ofBytes_append, flatMap_ofBytes, replyLines_map]
  rfl

theorem parseJobLines_scriptLines (hfit : ∀ job ∈ jobs, job.Fit) {before text : Text}
    (htext : text = before ++ JsText.ofBytes (jobs.flatMap KwinDispatch.body)) :
    parseJobLines text before.length (scriptLines lane idleMs jobs) =
      some (jobs.map scriptJob) := by
  have hlane := JsText.startsWith_append (JsText.lit "lane ") (JsText.ofBytes (laneName lane))
  have hidle := JsText.startsWith_append (JsText.lit "idle ") (JsText.ofBytes (decimalText idleMs.toNat))
  rw [scriptLines, parseJobLines, if_pos (.inl hlane), parseJobLines, if_pos (.inr hidle)]
  exact parseJobLines_jobs hfit htext

/-- What the script makes of an envelope: once its head is read and its generation is the script's
own, the rest is up to the lines. -/
theorem parsePollReply_lines {gen text bodies : Text} {lines : List Text} (own : Text)
    (hspec : ∀ line ∈ (JsText.lit "gen " ++ gen) :: lines,
      (10 : UInt16) ∉ line ∧ ∃ first rest, line = first :: rest ∧ first ≠ 101)
    (htext : text = JsText.lit "KSK1" ++ (((JsText.lit "gen " ++ gen) :: lines).flatMap (10 :: ·) ++
      (JsText.lit "\nend\n" ++ bodies))) :
    parsePollReply own text = if gen = own then
      parseJobLines text (4 + (((JsText.lit "gen " ++ gen) :: lines).flatMap (10 :: ·)).length + 5) lines
    else none := by
  generalize hgenLine : JsText.lit "gen " ++ gen = genLine at hspec htext
  have hend : JsText.lit "\nend\n" = 10 :: 101 :: JsText.lit "nd\n" := by decide
  have hmagic : (10 : UInt16) ∉ JsText.lit "KSK1" := by decide
  have hterminator : JsText.indexOf (JsText.lit "\nend\n") text =
      some (4 + ((genLine :: lines).flatMap (10 :: ·)).length) := by
    have hfind : JsText.indexOf (10 :: 101 :: JsText.lit "nd\n")
        ((genLine :: lines).flatMap (10 :: ·) ++ (10 :: 101 :: JsText.lit "nd\n" ++ bodies)) =
        some ((genLine :: lines).flatMap (10 :: ·)).length := JsText.indexOf_flatMap hspec
    rw [htext, hend, JsText.indexOf_append_of_not_mem hmagic, hfind]
    rfl
  have hstart : JsText.startsWith (JsText.lit "KSK1\n") text = true := by
    rw [htext]
    exact JsText.startsWith_append (JsText.lit "KSK1\n") _
  have hslice : JsText.slice text 5 (4 + ((genLine :: lines).flatMap (10 :: ·)).length) =
      genLine ++ lines.flatMap (10 :: ·) := by
    have htake : (JsText.lit "KSK1" ++ (genLine :: lines).flatMap (10 :: ·)).length =
        4 + ((genLine :: lines).flatMap (10 :: ·)).length := List.length_append
    rw [JsText.slice, htext, ← List.append_assoc, List.take_left' htake]
    rfl
  have hsplit : JsText.split 10 (genLine ++ lines.flatMap (10 :: ·)) = genLine :: lines :=
    JsText.split_flatMap (hspec genLine List.mem_cons_self).1
      fun line hline => (hspec line (List.mem_cons_of_mem _ hline)).1
  have hgen : JsText.startsWith (JsText.lit "gen ") genLine = true := by
    rw [← hgenLine]
    exact JsText.startsWith_append _ _
  have hdrop : genLine.drop 4 = gen := by
    rw [← hgenLine]
    rfl
  rw [parsePollReply, hterminator]
  simp only [hstart, hslice, hsplit, hgen, hdrop, Bool.not_true, Bool.false_eq_true, if_false, ite_not]

/-- Where the bodies of an envelope start. -/
theorem length_envelopeHead (lines : List Text) :
    (JsText.lit "KSK1" ++ (lines.flatMap (10 :: ·) ++ JsText.lit "\nend\n")).length =
      4 + (lines.flatMap (10 :: ·)).length + 5 := by
  have hfour : (JsText.lit "KSK1").length = 4 := by decide
  have hfive : (JsText.lit "\nend\n").length = 5 := by decide
  rw [List.length_append, List.length_append, hfour, hfive]
  omega

/-- What the script makes of a reply, whatever generation it is waiting for. -/
theorem parsePollReply_pollReplyText (hg : validGeneration generation) (hfit : ∀ job ∈ jobs, job.Fit)
    (own : Text) :
    parsePollReply own (JsText.ofBytes (pollReplyText generation lane idleMs jobs)) =
      if JsText.ofBytes generation = own then some (jobs.map scriptJob) else none := by
  have hspec : ∀ line ∈ (JsText.lit "gen " ++ JsText.ofBytes generation) ::
      scriptLines lane idleMs jobs,
      (10 : UInt16) ∉ line ∧ ∃ first rest, line = first :: rest ∧ first ≠ 101 := by
    intro line hline
    rw [← replyLines_map] at hline
    obtain ⟨bytes, hbytes, rfl⟩ := List.mem_map.mp hline
    obtain ⟨hnewline, first, rest, rfl, hfirst⟩ :=
      replyLines_spec hg (fun job hjob => (hfit job hjob).sequence) bytes hbytes
    refine ⟨not_mem_ofBytes hnewline, first.toUInt16, JsText.ofBytes rest, rfl, ?_⟩
    intro heq
    exact hfirst (toUInt16_injective heq)
  have htext := ofBytes_pollReplyText generation lane idleMs jobs
  have hjobs : parseJobLines (JsText.ofBytes (pollReplyText generation lane idleMs jobs))
      (4 + (((JsText.lit "gen " ++ JsText.ofBytes generation) :: scriptLines lane idleMs jobs).flatMap
        (10 :: ·)).length + 5) (scriptLines lane idleMs jobs) = some (jobs.map scriptJob) := by
    rw [← length_envelopeHead]
    refine parseJobLines_scriptLines hfit ?_
    rw [htext]
    simp only [List.append_assoc]
  rw [parsePollReply_lines own hspec htext, hjobs]

/-- The script reads back exactly the jobs the daemon wrote, and nothing from another generation. -/
theorem parsePollReply_kwinFormatPollReply (generation : Bytes) (lane : KwinLane) (idleMs : BitVec 32)
    (jobs : List KwinDispatch) (hg : validGeneration generation) (hlane : lane ≠ .none) (hcount : jobs.length ≤ laneCapacity lane)
    (hseq : ∀ job ∈ jobs, validSequence job.sequence)
    (hbodies : ∀ job ∈ jobs, ∃ opcode payload,
      kwinRequestText opcode payload requestCapacity = some job.body) :
    (∃ reply, kwinFormatPollReply generation lane idleMs jobs (bufferInit replyCapacity) = some reply) ∧
    ∀ maximum reply, kwinFormatPollReply generation lane idleMs jobs (bufferInit maximum) = some reply →
      ∀ text, JsText.toUtf8 text = cString reply.data →
        parsePollReply (JsText.ofBytes generation) text = some (jobs.map scriptJob) ∧
          ∀ own, own ≠ JsText.ofBytes generation → parsePollReply own text = none := by
  have hfit : ∀ job ∈ jobs, job.Fit := by
    intro job hjob
    obtain ⟨opcode, payload, hbody⟩ := hbodies job hjob
    exact ⟨hseq job hjob, kwinRequestText_body hbody⟩
  constructor
  · have hsome : ∃ reply, kwinFormatPollReply generation lane idleMs jobs (bufferInit replyCapacity) = some reply ∧
        cString reply.data = pollReplyText generation lane idleMs jobs :=
      kwinFormatPollReply_isText hg hlane hcount hfit
    obtain ⟨reply, hreply, -⟩ := hsome
    exact ⟨reply, hreply⟩
  · intro maximum reply hformat text htext
    obtain ⟨-, -, hdata⟩ := kwinFormatPollReply_eq_some hformat
    rw [hdata, cString_eq_self (pollReplyText_plain hg hfit)] at htext
    have hparse : ∀ own, parsePollReply own (JsText.ofBytes (pollReplyText generation lane idleMs jobs)) =
        if JsText.ofBytes generation = own then some (jobs.map scriptJob) else none :=
      parsePollReply_pollReplyText hg hfit
    rw [text_eq_ofBytes hg hfit htext]
    constructor
    · rw [hparse, if_pos rfl]
    · intro own hown
      rw [hparse, if_neg hown.symm]

/-- A job without a body and one with a body. -/
def twoDispatches : List KwinDispatch :=
  [⟨sequenceOf 1, Op.windowActive, 1999, []⟩, ⟨sequenceOf 2, Op.windowClose, 0, ascii "7"⟩]

theorem twoDispatches_read :
    ∃ reply text, kwinFormatPollReply newQueue.generation .fast 0 twoDispatches (bufferInit replyCapacity) =
        some reply ∧ JsText.toUtf8 text = cString reply.data ∧
      parsePollReply (JsText.ofBytes newQueue.generation) text = some (twoDispatches.map scriptJob) ∧
      parsePollReply (JsText.ofBytes (List.replicate 32 49)) text = none := by
  have hbodies : ∀ job ∈ twoDispatches, ∃ opcode payload,
      kwinRequestText opcode payload requestCapacity = some job.body := by
    intro job hjob
    simp only [twoDispatches, List.mem_cons, List.not_mem_nil, or_false] at hjob
    rcases hjob with rfl | rfl
    · exact ⟨Op.windowActive, [], rfl⟩
    · exact ⟨Op.windowClose, encodeU64 7, by decide +kernel⟩
  obtain ⟨⟨reply, hreply⟩, hread⟩ := parsePollReply_kwinFormatPollReply newQueue.generation .fast 0
    twoDispatches (by decide) (by decide) (by decide) (by decide) hbodies
  obtain ⟨-, -, hdata⟩ := kwinFormatPollReply_eq_some hreply
  have htext : JsText.toUtf8 (JsText.ofBytes (cString reply.data)) = cString reply.data := by
    rw [hdata]
    decide +kernel
  obtain ⟨hown, hother⟩ := hread replyCapacity reply hreply _ htext
  exact ⟨reply, _, hreply, htext, hown, hother _ (by decide)⟩

end RoundTrip

end KeysharpDesktop
