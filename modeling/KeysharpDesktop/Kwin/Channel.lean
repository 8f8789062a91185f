import Mathlib.Data.Multiset.Basic
import Mathlib.Data.Multiset.UnionInter
import Mathlib.Algebra.Order.Group.Multiset
import KeysharpDesktop.Kwin.Handing
import KeysharpDesktop.Kwin.RoundTrip

/-! The script and the daemon together: the calls that the script makes over the bus, the replies that come
back, and what its callbacks do with them. -/
namespace KeysharpDesktop.KwinScript

open JsText (Text)
open scoped List

section Model

inductive ScriptLane
  | fast | slow
  deriving DecidableEq, Repr

def ScriptLane.kwin : ScriptLane → KwinLane
  | .fast => .fast
  | .slow => .slow

def ScriptLane.name (l : ScriptLane) : Text := JsText.ofBytes (laneText l.kwin)

/-- What the script makes calls for. -/
inductive ScriptCaller
  | greeting
  | lane (l : ScriptLane)
  deriving DecidableEq, Repr

/-- How far a call of `callDBus` is: on its way, with the daemon, or answered with its callback still to run. A
call that is answered with an error drops its callback. -/
inductive BusPhase
  | off
  | sent (method : BusMethod) (generation envelope : Text)
  | held (method : BusMethod) (invocation : Invocation)
  | back (method : BusMethod) (text : Bytes)
  | dropped
  deriving DecidableEq, Repr

/-- The script's own variables, and its calls. -/
structure Script where
  generation : Text
  running : Bool
  handles : Handles
  phase : ScriptCaller → BusPhase

/-- The daemon and the script. The rest is no part of either: all that the daemon has put out, the lines that
have completed jobs, every job's turn with the script, and the results of each lane's last batch. -/
structure Channel where
  bus : KwinBus
  script : Script
  outputs : List BusOutput
  lines : List KwinDone
  executions : List Execution
  batch : ScriptLane → List Execution

/-- What answers a call: a text, or an error. -/
def answerTo (i : Invocation) : BusOutput → Option (Option Bytes)
  | .returned j text => if j = i then some (some text) else none
  | .error j _ => if j = i then some none else none
  | _ => none

def BusPhase.hear (outputs : List BusOutput) : BusPhase → BusPhase
  | .held method i =>
    match outputs.findSome? (answerTo i) with
    | some (some text) => .back method text
    | some none => .dropped
    | none => .held method i
  | phase => phase

namespace Script

def set (script : Script) (caller : ScriptCaller) (phase : BusPhase) : Script :=
  { script with phase := Function.update script.phase caller phase }

def hear (script : Script) (outputs : List BusOutput) : Script :=
  { script with phase := fun caller => (script.phase caller).hear outputs }

def pollLane (script : Script) (l : ScriptLane) (lost : ℕ) : Script :=
  if !script.running then script.set (.lane l) .off
  else script.set (.lane l) (.sent .poll script.generation (buildPoll script.generation l.name 0 lost))

/-- The callback of the greeting. -/
def greeted (script : Script) (text : Text) : Script :=
  let script := script.set .greeting .off
  match JsText.indexOf (JsText.lit "gen ") text with
  | none => script
  | some line =>
    let script := { script with generation := JsText.slice text (line + 4) (line + 4 + 32) }
    if script.generation.length ≠ 32 then script
    else ({ script with running := true }.pollLane .fast 0).pollLane .slow 0

/-- A script that has just started. -/
def start : Script where
  generation := []
  running := false
  handles := {}
  phase
    | .greeting => .sent .hello [] (JsText.lit "KSK1\nend\n")
    | .lane _ => .off

end Script

variable {σ : Type}

/-- The turns of a batch, each with the desktop as its job meets it. -/
def turnsOf (states : ℕ → σ) (jobs : List ScriptJob) : List (Turn σ) :=
  jobs.zipIdx.map fun entry => ⟨entry.1, states entry.2⟩

namespace Channel

/-- The daemon dispatches, and whatever it answers goes back to the script. -/
def dispatch (s : Channel) (call : BusCall) : Channel :=
  { s with
    bus := busStep s.bus call
    script := s.script.hear (busOutputs s.bus call)
    outputs := s.outputs ++ busOutputs s.bus call
    lines := s.lines ++ busLines s.bus call }

/-- The daemon is handed a call of the script. Texts go over the bus as UTF-8, up to their first zero. -/
def receive (s : Channel) (caller : ScriptCaller) (nowMs : ℕ) (written : ℕ → Bool) : Channel :=
  match s.script.phase caller with
  | .sent method generation envelope =>
    { s with script := s.script.set caller (.held method s.bus.invocations) }.dispatch
      (.method s.bus.peer (cString (JsText.toUtf8 generation)) method (cString (JsText.toUtf8 envelope)) nowMs written)
  | _ => s

/-- The callback of a poll. -/
def polled (c : Compositor σ) (s : Channel) (l : ScriptLane) (text : Text) (states : ℕ → σ) : Channel :=
  if !s.script.running then { s with script := s.script.set (.lane l) .off }
  else
    match parsePollReply s.script.generation text with
    | none => { s with script := { s.script with running := false }.set (.lane l) .off }
    | some jobs =>
      let (results, handles) := executeAll c s.script.handles (turnsOf states jobs)
      let script := { s.script with handles }
      { s with
        script :=
          if results = [] then script.pollLane l 0
          else script.set (.lane l) (.sent .report script.generation (buildReport script.generation results))
        executions := s.executions ++ results
        batch := Function.update s.batch l results }

/-- A callback runs, if its reply is there. -/
def callback (c : Compositor σ) (s : Channel) (caller : ScriptCaller) (states : ℕ → σ) : Channel :=
  match caller, s.script.phase caller with
  | .greeting, .back _ text => { s with script := s.script.greeted (JsText.ofBytes text) }
  | .lane l, .back .poll text => s.polled c l (JsText.ofBytes text) states
  | .lane l, .back _ _ => { s with script := s.script.pollLane l 0 }
  | _, _ => s

def start (queue : KwinQueue) (peer : Bytes) : Channel :=
  ⟨kwinBusStart queue peer, .start, [], [], [], fun _ => []⟩

end Channel

/-- What happens next: something on the relay socket, an idle timer, a call of the script that reaches the
daemon or of somebody else, or a callback. -/
inductive ChannelStep (σ : Type)
  | relay (input : RelayInput) (nowMs : ℕ) (written : Bool)
  | idleFast (nowMs : ℕ)
  | idleSlow (nowMs : ℕ)
  | receive (caller : ScriptCaller) (nowMs : ℕ) (written : ℕ → Bool)
  | stranger (sender generation : Bytes) (method : BusMethod) (envelope : Bytes) (nowMs : ℕ) (written : ℕ → Bool)
  | callback (caller : ScriptCaller) (states : ℕ → σ)

def Channel.step (c : Compositor σ) (s : Channel) : ChannelStep σ → Channel
  | .relay input nowMs written => s.dispatch (.relay input nowMs written)
  | .idleFast nowMs => s.dispatch (.idleFast nowMs)
  | .idleSlow nowMs => s.dispatch (.idleSlow nowMs)
  | .receive caller nowMs written => s.receive caller nowMs written
  | .stranger sender generation method envelope nowMs written =>
    if sender = s.bus.peer then s else s.dispatch (.method sender generation method envelope nowMs written)
  | .callback caller states => s.callback c caller states

end Model

section Hearing

variable {out : List BusOutput} {i j : Invocation} {text generation : Bytes} {p : BusPhase} {method : BusMethod}

theorem answerTo_some {o : BusOutput} {answer : Option Bytes} (h : answerTo i o = some answer) :
    (∃ text, answer = some text ∧ o = .returned i text) ∨ answer = none ∧ ∃ text, o = .error i text := by
  cases o with
  | returned j text =>
    simp only [answerTo] at h
    split_ifs at h with hji
    cases h
    exact .inl ⟨text, rfl, by rw [hji]⟩
  | error j text =>
    simp only [answerTo] at h
    split_ifs at h with hji
    cases h
    exact .inr ⟨rfl, text, by rw [hji]⟩
  | _ => cases h

/-- A call goes on as it was, or its answer was among what the daemon put out. -/
theorem hear_cases (p : BusPhase) (out : List BusOutput) :
    p.hear out = p ∨ ∃ method i, p = .held method i ∧
      ((∃ text, p.hear out = .back method text ∧ .returned i text ∈ out) ∨ p.hear out = .dropped) := by
  cases p with
  | held method i =>
    cases hfind : out.findSome? (answerTo i) with
    | none =>
      left
      simp only [BusPhase.hear, hfind]
    | some answer =>
      right
      obtain ⟨o, ho, hanswer⟩ := List.exists_of_findSome?_eq_some hfind
      refine ⟨method, i, rfl, ?_⟩
      rcases answerTo_some hanswer with ⟨text, rfl, rfl⟩ | ⟨rfl, -⟩
      · exact .inl ⟨text, by simp only [BusPhase.hear, hfind], ho⟩
      · exact .inr (by simp only [BusPhase.hear, hfind])
  | _ => exact .inl rfl

/-- A call that the daemon has answered is no longer held. -/
theorem hear_answered (h : ∃ o ∈ out, answerTo i o ≠ none) :
    (∃ text, (BusPhase.held method i).hear out = .back method text ∧ .returned i text ∈ out) ∨
      (BusPhase.held method i).hear out = .dropped := by
  rcases hear_cases (.held method i) out with hsame | ⟨method', i', hheld, hout⟩
  · obtain ⟨o, ho, hne⟩ := h
    cases hfind : out.findSome? (answerTo i) with
    | none => exact absurd (List.findSome?_eq_none_iff.mp hfind o ho) hne
    | some answer =>
      simp only [BusPhase.hear, hfind] at hsame
      cases answer with
      | none => cases hsame
      | some text => cases hsame
  · cases hheld
    exact hout

/-- The jobs that one call is told of. -/
def toldTo (generation : Bytes) (i : Invocation) (out : List BusOutput) : List ScriptJob :=
  match out.findSome? (answerTo i) with
  | some (some text) => (parsePollReply (JsText.ofBytes generation) (JsText.ofBytes text)).getD []
  | _ => []

theorem toldTo_cons (generation : Bytes) (i : Invocation) (o : BusOutput) (out : List BusOutput) :
    toldTo generation i (o :: out) = toldTo generation i out ∧ answerTo i o = none ∨
      toldTo generation i (o :: out) = toldBy generation o ∧ ∃ answer, answerTo i o = some answer := by
  cases hanswer : answerTo i o with
  | none => exact .inl ⟨by simp only [toldTo, List.findSome?_cons, hanswer], rfl⟩
  | some answer =>
    refine .inr ⟨?_, answer, rfl⟩
    simp only [toldTo, List.findSome?_cons, hanswer]
    rcases answerTo_some hanswer with ⟨text, rfl, rfl⟩ | ⟨rfl, text, rfl⟩
    · rfl
    · rfl

theorem toldOf_cons (generation : Bytes) (o : BusOutput) (out : List BusOutput) :
    (toldOf generation (o :: out) : Multiset ScriptJob) = toldBy generation o + toldOf generation out := by
  rw [toldOf, List.flatMap_cons, ← Multiset.coe_add]
  rfl

theorem toldTo_le (generation : Bytes) (i : Invocation) (out : List BusOutput) :
    (toldTo generation i out : Multiset ScriptJob) ≤ toldOf generation out := by
  induction out with
  | nil => exact le_rfl
  | cons o out ih =>
    rw [toldOf_cons]
    rcases toldTo_cons generation i o out with ⟨hsame, -⟩ | ⟨htold, -⟩
    · rw [hsame]
      exact ih.trans (Multiset.le_add_left _ _)
    · rw [htold]
      exact Multiset.le_add_right _ _

/-- No job is told to two calls. -/
theorem toldTo_add_le (generation : Bytes) (hne : i ≠ j) (out : List BusOutput) :
    (toldTo generation i out : Multiset ScriptJob) + toldTo generation j out ≤ toldOf generation out := by
  induction out with
  | nil => exact le_rfl
  | cons o out ih =>
    rw [toldOf_cons]
    rcases toldTo_cons generation i o out with ⟨hi, -⟩ | ⟨hi, a, ha⟩
    · rcases toldTo_cons generation j o out with ⟨hj, -⟩ | ⟨hj, -⟩
      · rw [hi, hj]
        exact ih.trans (Multiset.le_add_left _ _)
      · rw [hi, hj, add_comm]
        exact add_le_add le_rfl (toldTo_le generation i out)
    · rcases toldTo_cons generation j o out with ⟨hj, -⟩ | ⟨-, b, hb⟩
      · rw [hi, hj]
        exact add_le_add le_rfl (toldTo_le generation j out)
      · exfalso
        rcases answerTo_some ha with ⟨_, -, rfl⟩ | ⟨-, _, rfl⟩
        · simp only [answerTo, if_neg hne] at hb
          cases hb
        · simp only [answerTo, if_neg hne] at hb
          cases hb

end Hearing

section Reports

variable {generation bodies : Bytes} {lines : List ReportLine} {executions : List Execution} {report : KwinReport}

theorem cString_append {xs : Bytes} (h : (0 : UInt8) ∉ xs) (ys : Bytes) : cString (xs ++ ys) = xs ++ cString ys := by
  unfold cString
  rw [List.takeWhile_append_of_pos]
  intro b hb
  rw [bne_iff_ne]
  rintro rfl
  exact h hb

theorem notMem_zero_of_ascii {xs ys : Bytes} (hx : (0 : UInt8) ∉ xs) (hy : (0 : UInt8) ∉ ys) :
    (0 : UInt8) ∉ xs ++ ys := by
  rw [List.mem_append, not_or]
  exact ⟨hx, hy⟩

theorem decimalText_nonzero (value : ℕ) : (0 : UInt8) ∉ decimalText value :=
  fun h => absurd (decimalText_all value 0 h) (by decide)

theorem hexDigits_nonzero {bs : Bytes} (h : ∀ b ∈ bs, isHexDigit b) : (0 : UInt8) ∉ bs :=
  fun hmem => absurd (h 0 hmem) (by decide)

theorem bytes_nonzero {l : ReportLine} (h : l.Readable) : (0 : UInt8) ∉ l.bytes := by
  have hsequence := hexDigits_nonzero (validSequence_iff.mp h.sequence).2
  have hword : (0 : UInt8) ∉ ascii "done" := by decide
  simp only [ReportLine.bytes, ReportLine.words, List.mem_append, List.mem_cons, List.not_mem_nil, or_false, not_or]
  exact ⟨⟨hword, by decide, hsequence, by decide, decimalText_nonzero _, by decide, decimalText_nonzero _⟩, by decide⟩

/-- What comes over the bus of a report: all of its head, and its bodies up to their first zero. -/
theorem cString_reportBytes (hg : validGeneration generation) (h : ∀ l ∈ lines, l.Readable) :
    cString (reportBytes generation lines bodies) = reportBytes generation lines (cString bodies) := by
  have hgen := hexDigits_nonzero (validGeneration_iff.mp hg).2
  have hlines : (0 : UInt8) ∉ lines.flatMap ReportLine.bytes := by
    rw [List.mem_flatMap]
    rintro ⟨l, hl, hzero⟩
    exact bytes_nonzero (h l hl) hzero
  have hmagic : (0 : UInt8) ∉ ascii "KSK1" ++ 10 :: (ascii "gen" ++ [32]) := by decide
  have hend : (0 : UInt8) ∉ ascii "end" ++ [10] := by decide
  have hsplit : ∀ bodies, reportBytes generation lines bodies = ((ascii "KSK1" ++ 10 :: (ascii "gen" ++ [32])) ++
      (generation ++ ([10] ++ (lines.flatMap ReportLine.bytes ++ (ascii "end" ++ [10]))))) ++ bodies := by
    intro bodies
    simp only [reportBytes, List.append_assoc, List.cons_append, List.nil_append]
  have hnewline : (0 : UInt8) ∉ [(10 : UInt8)] := by decide
  rw [hsplit, hsplit, cString_append]
  refine notMem_zero_of_ascii hmagic (notMem_zero_of_ascii hgen (notMem_zero_of_ascii hnewline ?_))
  exact notMem_zero_of_ascii hlines hend

/-- What of a done line does not depend on where the bodies are cut. -/
def headOf (d : KwinDone) : Bytes × BitVec 32 := (d.sequence, d.status)

theorem attachBodies_heads (ds : List DoneLine) (bodies : Bytes) :
    (attachBodies ds bodies).map headOf = ds.map fun d => (d.sequence, d.status) := by
  induction ds generalizing bodies with
  | nil => rfl
  | cons d ds ih =>
    rw [attachBodies, List.map_cons, ih, List.map_cons]
    rfl

/-- The sequence and the status that a result is reported with. -/
def Execution.head (e : Execution) : Bytes × BitVec 32 := (JsText.toUtf8 e.job.sequence, BitVec.ofNat 32 e.status)

/-- However the bodies come out, the daemon reads each result under its own sequence, with its own status. -/
theorem parse_sent_report (hg : validGeneration generation) (hspelled : ∀ e ∈ executions, e.Spelled)
    (hparse : kwinParseReport (cString (JsText.toUtf8 (buildReport (JsText.ofBytes generation) executions))) =
      some report) :
    report.done.map headOf = executions.map Execution.head := by
  have hlines : ∀ l ∈ executions.map Execution.line, l.Readable := by
    intro l hl
    obtain ⟨e, he, rfl⟩ := List.mem_map.mp hl
    exact (hspelled e he).readable
  rw [toUtf8_buildReport hg hspelled, cString_reportBytes hg hlines, kwinParseReport_reportBytes hg] at hparse
  obtain ⟨rfl, -, -⟩ := parseReportLines_sound hlines hparse (Nat.zero_le _)
  rw [List.nil_append, attachBodies_heads, List.map_map, List.map_map]
  rfl

theorem completedLines_sublist (q : KwinQueue) (ds : List KwinDone) : completedLines q ds <+ ds := by
  induction ds generalizing q with
  | nil => exact List.Sublist.refl _
  | cons d ds ih =>
    unfold completedLines
    split
    · exact List.nil_sublist _
    · exact (ih _).cons_cons d

theorem reportedLines_sublist {q : KwinQueue} {envelope : Bytes} :
    reportedLines q envelope = [] ∨ ∃ report, kwinParseReport envelope = some report ∧
      (reportedLines q envelope).map Prod.snd <+ report.done := by
  rcases kwinQueueReport_jobs q envelope (bufferInit 0) with ⟨-, hnone⟩ | ⟨report, hparse, -, -, hlines⟩
  · exact .inl hnone
  · refine .inr ⟨report, hparse, ?_⟩
    rw [hlines, List.map_map]
    have hid : (Prod.snd ∘ fun d : KwinDone => (q.generation, d)) = id := rfl
    rw [hid, List.map_id]
    exact completedLines_sublist q report.done

/-- The lines of a report that complete jobs are some of the results it was built from. -/
theorem reportedLines_heads {q : KwinQueue} (hg : validGeneration generation) (hspelled : ∀ e ∈ executions, e.Spelled) :
    ((reportedLines q (cString (JsText.toUtf8 (buildReport (JsText.ofBytes generation) executions)))).map
      Prod.snd).map headOf <+ executions.map Execution.head := by
  rcases @reportedLines_sublist q (cString (JsText.toUtf8 (buildReport (JsText.ofBytes generation) executions))) with
    hnone | ⟨report, hparse, hsub⟩
  · rw [hnone]
    exact List.nil_sublist _
  · rw [← parse_sent_report hg hspelled hparse]
    exact hsub.map headOf

theorem Execution.Spelled.ofBytes_head {e : Execution} (h : e.Spelled) : JsText.ofBytes e.head.1 = e.job.sequence := by
  obtain ⟨s, hs, hseq⟩ := h.sequence
  show JsText.ofBytes (JsText.toUtf8 e.job.sequence) = _
  rw [hseq, JsText.toUtf8_ofBytes (isAscii_of_hex (validSequence_iff.mp hs).2)]

end Reports

end KeysharpDesktop.KwinScript
