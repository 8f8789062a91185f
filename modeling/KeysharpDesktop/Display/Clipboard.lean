import KeysharpDesktop.Lib.Transition
import KeysharpDesktop.Wire.Result

/-! Reading the clipboard of an X11 display: the owner of the selection puts its value into a property of a window of
ours, at once or piece by piece, and the reader takes what it finds there. -/
namespace KeysharpDesktop.Clipboard

open Transition

abbrev Atom := BitVec 32
abbrev WindowId := BitVec 32

section Server

structure Property where
  type : Atom
  data : Bytes
  deriving DecidableEq, Repr

/-- The properties of our window. -/
abbrev Properties := Atom → Option Property

inductive XEvent
  | selectionNotify (requestor : WindowId) (selection property : Atom)
  | propertyNotify (window : WindowId) (atom : Atom) (newValue : Bool)
  | other
  deriving DecidableEq, Repr

structure PropertyReply where
  type : Atom
  value : Bytes
  bytesAfter : ℕ

/-- GetProperty from the start of a property, of any type: at most the words that are asked for, and the property
goes only when nothing of it remains. -/
def getProperty (delete : Bool) (property : Atom) (words : ℕ) (properties : Properties) : PropertyReply × Properties :=
  match properties property with
  | none => (⟨0, [], 0⟩, properties)
  | some stored =>
    let value := stored.data.take (4 * words)
    let bytesAfter := stored.data.length - value.length
    (⟨stored.type, value, bytesAfter⟩,
      if delete && bytesAfter == 0 then Function.update properties property none else properties)

end Server

section Reader

def propertyWords : ℕ := 256 * 1024

/-- The atoms of the clipboard, once `load_atoms` has them all. -/
structure Atoms where
  clipboard : Atom
  incr : Atom
  utf8String : Atom
  property : Atom
  loaded : property ≠ 0

/-- How far `selection_read` is. -/
inductive Phase
  | converting
  | collecting (delivered : Atom)
  | finished (status : Status)
  deriving DecidableEq, Repr

structure Reader where
  phase : Phase
  type : Atom
  out : Buffer
  deriving DecidableEq, Repr

def appendProperty (property : Atom) (delete : Bool) (properties : Properties) (out : Buffer) :
    Atom × Option Buffer × Properties :=
  let (reply, properties) := getProperty delete property propertyWords properties
  (reply.type, bufferBytes out reply.value, properties)

/-- `selection_read` with the next event. -/
def selectionRead (window : WindowId) (atoms : Atoms) (r : Reader) (properties : Properties) (event : XEvent) :
    Reader × Properties :=
  match r.phase, event with
  | .converting, .selectionNotify requestor selection delivered =>
    if requestor != window || selection != atoms.clipboard then (r, properties)
    else if delivered == 0 then ({ r with phase := .finished Status.unsupported }, properties)
    else
      match appendProperty delivered true properties r.out with
      | (type, none, properties) => ({ r with phase := .finished Status.internal, type }, properties)
      | (type, some out, properties) =>
        if type != atoms.incr then (⟨.finished Status.ok, type, out⟩, properties)
        else (⟨.collecting delivered, type, { out with data := [] }⟩, properties)
  | .collecting delivered, .propertyNotify changed atom newValue =>
    if changed != window || atom != delivered || !newValue then (r, properties)
    else
      match appendProperty delivered true properties r.out with
      | (_, none, properties) => ({ r with phase := .finished Status.internal }, properties)
      | (_, some out, properties) =>
        if out.data.length == r.out.data.length then ({ r with phase := .finished Status.ok, out }, properties)
        else if maxTextBytes < out.data.length then
          ({ r with phase := .finished Status.resourceExhausted, out }, properties)
        else ({ r with out }, properties)
  | _, _ => (r, properties)

def latin1ToUtf8 (latin1 : Bytes) (out : Buffer) : Option Buffer :=
  latin1.foldlM (fun out byte =>
    bufferBytes out (if byte < 0x80 then [byte]
      else [(0xc0 : UInt8) ||| (byte >>> 6), (0x80 : UInt8) ||| (byte &&& 0x3f)])) out

def atomString : Atom := 31

/-- `ksd_x11_clipboard_text`, by what its reads come to. -/
def clipboardText (atoms : Atoms) (read : Atom → Status × Buffer) : OperationResult :=
  let (status, value) := read atoms.utf8String
  let (status, value) :=
    if status == Status.unsupported then
      let (status, latin1) := read atomString
      if status == Status.ok then
        match latin1ToUtf8 latin1.data value with
        | none => (Status.resourceExhausted, value)
        | some value => (Status.ok, value)
      else (status, value)
    else (status, value)
  let (status, value) :=
    if status == Status.unsupported then (Status.ok, { value with data := [] }) else (status, value)
  if status != Status.ok then
    resultError status 0 (ascii (if status == Status.timeout then "the clipboard owner did not answer"
      else "could not read the clipboard"))
  else if !utf8Valid false value.data then
    resultError Status.resourceExhausted 0 (ascii "the clipboard holds text this service cannot represent")
  else resultTakeFramedText value Status.internal (ascii "out of memory")

/-- A text that is read is answered with its length in front of it. -/
theorem clipboardText_ok {atoms : Atoms} {read : Atom → Status × Buffer} {value : Buffer}
    (hread : read atoms.utf8String = (Status.ok, value)) (hvalid : utf8Valid false value.data)
    (hsmall : value.data.length ≤ maxTextBytes) :
    clipboardText atoms read = resultTake (encodeU32 (BitVec.ofNat 32 value.data.length) ++ value.data) := by
  have hok : (Status.ok == Status.unsupported) = false := rfl
  simp only [clipboardText, hread, hok, hvalid, Bool.false_eq_true, if_false, bne_self_eq_false, Bool.not_true]
  exact resultTakeFramedText_eq hsmall Status.internal _

end Reader

section Exchange

/-- How an owner delivers its value. -/
inductive Delivery
  | single (type : Atom) (value : Bytes)
  | incremental (estimate : Bytes) (type : Atom) (pieces : List Bytes)
  deriving DecidableEq, Repr

namespace Delivery

def value : Delivery → Bytes
  | .single _ value => value
  | .incremental _ _ pieces => pieces.flatten

/-- The property that the owner sets when it is asked. -/
def first (atoms : Atoms) : Delivery → Property
  | .single type value => ⟨type, value⟩
  | .incremental estimate _ _ => ⟨atoms.incr, estimate⟩

/-- What it writes later, each when the last one is gone; an empty piece says that this was all. -/
def later : Delivery → List Bytes
  | .single _ _ => []
  | .incremental _ _ pieces => pieces ++ [[]]

def pieceType : Delivery → Atom
  | .single type _ => type
  | .incremental _ type _ => type

/-- The rules for an owner: its value is not said to be incremental, and no piece but the last is empty. -/
def WellFormed (atoms : Atoms) : Delivery → Prop
  | .single type _ => type ≠ atoms.incr
  | .incremental _ _ pieces => ∀ piece ∈ pieces, piece ≠ []

/-- A value in one property that one request does not return. -/
def Oversized : Delivery → Prop
  | .single _ value => 4 * propertyWords < value.length
  | .incremental _ _ _ => False

/-- A value that the reader has room for, in properties that one request returns. -/
structure Fits (d : Delivery) : Prop where
  value : d.value.length ≤ maxTextBytes
  first : ∀ atoms, (d.first atoms).data.length ≤ 4 * propertyWords
  later : ∀ piece ∈ d.later, piece.length ≤ 4 * propertyWords

end Delivery

/-- The owner, the server and the reader. -/
structure Exchange where
  properties : Properties
  events : List XEvent
  /-- The owner has answered. -/
  answered : Bool
  /-- What the owner has yet to write. -/
  left : List Bytes
  reader : Reader

inductive Act
  | answer
  | write
  | foreign (event : XEvent)
  | handle
  | expire
  deriving DecidableEq, Repr

/-- An event that is not about the transfer. -/
def XEvent.foreign (window : WindowId) (atoms : Atoms) : XEvent → Bool
  | .selectionNotify requestor selection _ => requestor != window || selection != atoms.clipboard
  | .propertyNotify changed atom newValue => changed != window || atom != atoms.property || !newValue
  | .other => true

namespace Exchange

variable (window : WindowId) (atoms : Atoms) (d : Delivery)

def setProperty (x : Exchange) (property : Property) (more : List XEvent) : Exchange :=
  { x with
    properties := Function.update x.properties atoms.property (some property)
    events := x.events ++ .propertyNotify window atoms.property true :: more }

def answer (x : Exchange) : Exchange :=
  if x.answered then x
  else
    { x.setProperty window atoms (d.first atoms) [.selectionNotify window atoms.clipboard atoms.property] with
      answered := true, left := d.later }

/-- The owner writes the next piece once the one before it is gone. -/
def write (x : Exchange) : Exchange :=
  match x.left with
  | [] => x
  | piece :: left =>
    if x.answered && (x.properties atoms.property).isNone then
      { x.setProperty window atoms ⟨d.pieceType, piece⟩ [] with left }
    else x

def handle (x : Exchange) : Exchange :=
  match x.events with
  | [] => x
  | event :: events =>
    let (reader, properties) := selectionRead window atoms x.reader x.properties event
    let gone := (x.properties atoms.property).isSome && (properties atoms.property).isNone
    { x with
      reader, properties
      events := events ++ if gone then [.propertyNotify window atoms.property false] else [] }

/-- The deadline passes. -/
def expire (x : Exchange) : Exchange :=
  match x.reader.phase with
  | .finished _ => x
  | _ => { x with reader := { x.reader with phase := .finished Status.timeout } }

def act (x : Exchange) : Act → Exchange
  | .answer => x.answer window atoms d
  | .write => x.write window atoms d
  | .foreign event => if event.foreign window atoms then { x with events := x.events ++ [event] } else x
  | .handle => x.handle window atoms
  | .expire => x.expire

/-- The reader has asked for the selection. -/
def start : Exchange := ⟨fun _ => none, [], false, [], ⟨.converting, 0, bufferInit maxTextBytes⟩⟩

/-- Nothing is left to do for the owner or the reader. -/
structure Quiet (x : Exchange) : Prop where
  events : x.events = []
  answered : x.answered = true
  written : x.left = [] ∨ (x.properties atoms.property).isSome = true

end Exchange

end Exchange

section Stages

variable {window : WindowId} {atoms : Atoms} {d : Delivery} {x : Exchange} {e : XEvent}

def Foreign (window : WindowId) (atoms : Atoms) (events : List XEvent) : Prop :=
  ∀ e ∈ events, e.foreign window atoms = true

/-- What a read that succeeds returns. -/
def Delivery.read : Delivery → Bytes
  | .single _ value => value.take (4 * propertyWords)
  | .incremental _ _ pieces => pieces.flatten

/-- How far a transfer is, and what the reader has of the value then. -/
inductive Stage (window : WindowId) (atoms : Atoms) (d : Delivery) (x : Exchange) : Prop
  | asked (answered : x.answered = false) (phase : x.reader.phase = .converting) (out : x.reader.out.data = [])
      (property : x.properties atoms.property = none) (events : Foreign window atoms x.events)
  | offered (answered : x.answered = true) (phase : x.reader.phase = .converting) (out : x.reader.out.data = [])
      (property : x.properties atoms.property = some (d.first atoms)) (left : x.left = d.later)
      (events : ∃ before after, x.events =
          before ++ .selectionNotify window atoms.clipboard atoms.property :: after ∧
        (∀ e ∈ before, e.foreign window atoms = true ∨ ∃ atom, e = .propertyNotify window atom true) ∧
        Foreign window atoms after)
  | waiting (pieces : List Bytes) (answered : x.answered = true)
      (phase : x.reader.phase = .collecting atoms.property) (property : x.properties atoms.property = none)
      (left : x.left = pieces ++ [[]]) (full : ∀ piece ∈ pieces, piece ≠ [])
      (out : x.reader.out.data ++ pieces.flatten = d.read) (small : x.reader.out.data.length ≤ maxTextBytes)
      (events : Foreign window atoms x.events)
  | written (piece : Bytes) (pieces : List Bytes) (answered : x.answered = true)
      (phase : x.reader.phase = .collecting atoms.property)
      (property : x.properties atoms.property = some ⟨d.pieceType, piece⟩)
      (member : piece ∈ d.later) (left : piece :: x.left = pieces ++ [[]]) (full : ∀ piece ∈ pieces, piece ≠ [])
      (out : x.reader.out.data ++ pieces.flatten = d.read) (small : x.reader.out.data.length ≤ maxTextBytes)
      (events : ∃ before after, x.events = before ++ .propertyNotify window atoms.property true :: after ∧
        Foreign window atoms before ∧ Foreign window atoms after)
  | stuck (answered : x.answered = true) (phase : x.reader.phase = .collecting atoms.property)
      (property : (x.properties atoms.property).isSome = true) (large : ¬d.Fits)
      (events : Foreign window atoms x.events)
  | finished (status : Status) (phase : x.reader.phase = .finished status)
      (whole : status = Status.ok → x.reader.out.data = d.read)
      (succeeds : d.Fits → status = Status.ok ∨ status = Status.timeout)

/-- The room of the reader never changes. -/
structure Staged (window : WindowId) (atoms : Atoms) (d : Delivery) (x : Exchange) : Prop where
  stage : Stage window atoms d x
  maximum : x.reader.out.maximum = maxTextBytes
  later : ∀ piece ∈ x.left, piece ∈ d.later

theorem start_staged : Staged window atoms d Exchange.start :=
  ⟨.asked rfl rfl rfl rfl nofun, rfl, nofun⟩

theorem Foreign.append {events : List XEvent} (h : Foreign window atoms events) (he : e.foreign window atoms = true) :
    Foreign window atoms (events ++ [e]) := by
  intro later hlater
  rcases List.mem_append.mp hlater with hlater | hlater
  · exact h later hlater
  · rw [List.mem_singleton.mp hlater]
    exact he

/-- Other events may come at any time. -/
theorem foreign_staged (h : Staged window atoms d x) (he : e.foreign window atoms = true) :
    Staged window atoms d { x with events := x.events ++ [e] } := by
  refine ⟨?_, h.maximum, h.later⟩
  cases h.stage with
  | asked hanswered hphase hout hproperty hevents =>
    exact .asked hanswered hphase hout hproperty (hevents.append he)
  | offered hanswered hphase hout hproperty hleft hevents =>
    obtain ⟨before, after, hsplit, hbefore, hafter⟩ := hevents
    refine .offered hanswered hphase hout hproperty hleft ⟨before, after ++ [e], ?_, hbefore, hafter.append he⟩
    rw [hsplit, List.append_assoc, List.cons_append]
  | waiting pieces hanswered hphase hproperty hleft hfull hout hsmall hevents =>
    exact .waiting pieces hanswered hphase hproperty hleft hfull hout hsmall (hevents.append he)
  | written piece pieces hanswered hphase hproperty hmember hleft hfull hout hsmall hevents =>
    obtain ⟨before, after, hsplit, hbefore, hafter⟩ := hevents
    refine .written piece pieces hanswered hphase hproperty hmember hleft hfull hout hsmall
      ⟨before, after ++ [e], ?_, hbefore, hafter.append he⟩
    rw [hsplit, List.append_assoc, List.cons_append]
  | stuck hanswered hphase hproperty hlarge hevents =>
    exact .stuck hanswered hphase hproperty hlarge (hevents.append he)
  | finished status hphase hwhole hsucceeds => exact .finished status hphase hwhole hsucceeds

theorem expire_staged (h : Staged window atoms d x) : Staged window atoms d x.expire := by
  unfold Exchange.expire
  split
  · exact h
  · exact ⟨.finished Status.timeout rfl nofun fun _ => Or.inr rfl, h.maximum, h.later⟩

theorem answer_staged (h : Staged window atoms d x) : Staged window atoms d (x.answer window atoms d) := by
  unfold Exchange.answer
  split_ifs with hanswered
  · exact h
  · have hlater : ∀ piece ∈ d.later, piece ∈ d.later := fun piece hpiece => hpiece
    have hnot : ¬x.answered = true := hanswered
    cases h.stage with
    | asked _ hphase hout hproperty hevents =>
      refine ⟨.offered rfl hphase hout (Function.update_self ..) rfl
        ⟨x.events ++ [.propertyNotify window atoms.property true], [], ?_, ?_, nofun⟩, h.maximum, hlater⟩
      · simp [Exchange.setProperty]
      · intro e he
        rcases List.mem_append.mp he with he | he
        · exact Or.inl (hevents e he)
        · exact Or.inr ⟨_, List.mem_singleton.mp he⟩
    | offered h' => exact absurd h' hnot
    | waiting _ h' => exact absurd h' hnot
    | written _ _ h' => exact absurd h' hnot
    | stuck h' => exact absurd h' hnot
    | finished status hphase hwhole hsucceeds =>
      exact ⟨.finished status hphase hwhole hsucceeds, h.maximum, hlater⟩

theorem write_staged (h : Staged window atoms d x) : Staged window atoms d (x.write window atoms d) := by
  unfold Exchange.write
  split
  · exact h
  · next piece left hleft =>
    split_ifs with hgo
    · obtain ⟨hanswered, hnone⟩ := Bool.and_eq_true_iff.mp hgo
      have hlater : ∀ later ∈ left, later ∈ d.later := fun later hlater =>
        h.later later (by rw [hleft]; exact List.mem_cons_of_mem _ hlater)
      have hgone : x.properties atoms.property = none := Option.isNone_iff_eq_none.mp hnone
      cases h.stage with
      | asked h' =>
        rw [hanswered] at h'
        cases h'
      | offered _ _ _ hproperty =>
        rw [hgone] at hproperty
        cases hproperty
      | waiting pieces _ hphase _ hleft' hfull hout hsmall hevents =>
        have hmember : piece ∈ d.later := h.later piece (by rw [hleft]; exact List.mem_cons_self)
        exact ⟨.written piece pieces hanswered hphase (Function.update_self ..) hmember (hleft.symm.trans hleft') hfull
          hout hsmall ⟨x.events, [], rfl, hevents, nofun⟩, h.maximum, hlater⟩
      | written _ _ _ _ hproperty =>
        rw [hgone] at hproperty
        cases hproperty
      | stuck _ _ hproperty =>
        rw [hgone] at hproperty
        cases hproperty
      | finished status hphase hwhole hsucceeds =>
        exact ⟨.finished status hphase hwhole hsucceeds, h.maximum, hlater⟩
    · exact h

theorem getProperty_small {property : Atom} {words : ℕ} {properties : Properties} {stored : Property}
    (h : properties property = some stored) (hsmall : stored.data.length ≤ 4 * words) :
    getProperty true property words properties =
      (⟨stored.type, stored.data, 0⟩, Function.update properties property none) := by
  have htake : stored.data.take (4 * words) = stored.data := List.take_of_length_le hsmall
  simp only [getProperty, h, htake, Nat.sub_self]
  rfl

theorem getProperty_large {property : Atom} {words : ℕ} {properties : Properties} {stored : Property}
    (h : properties property = some stored) (hlarge : 4 * words < stored.data.length) :
    ∃ after, getProperty true property words properties =
      (⟨stored.type, stored.data.take (4 * words), after⟩, properties) := by
  have hlength : (stored.data.take (4 * words)).length = 4 * words := by
    rw [List.length_take]
    omega
  have hrest : (stored.data.length - 4 * words == 0) = false := by
    rw [beq_eq_false_iff_ne]
    omega
  refine ⟨stored.data.length - 4 * words, ?_⟩
  simp only [getProperty, h, hlength, hrest]
  rfl

/-- Events about something else leave the reader as it is. -/
theorem selectionRead_foreign {r : Reader} (properties : Properties) (he : e.foreign window atoms = true)
    (hphase : ∀ delivered, r.phase = .collecting delivered → delivered = atoms.property) :
    selectionRead window atoms r properties e = (r, properties) := by
  unfold selectionRead
  cases hr : r.phase with
  | converting =>
    cases e with
    | selectionNotify requestor selection delivered =>
      exact if_pos (show (requestor != window || selection != atoms.clipboard) = true from he)
    | propertyNotify | other => rfl
  | collecting delivered =>
    obtain rfl := hphase delivered hr
    cases e with
    | propertyNotify changed atom newValue =>
      exact if_pos (show (changed != window || atom != atoms.property || !newValue) = true from he)
    | selectionNotify | other => rfl
  | finished status => rfl

theorem selectionRead_converting {r : Reader} (properties : Properties) (hphase : r.phase = .converting) (atom : Atom) :
    selectionRead window atoms r properties (.propertyNotify window atom true) = (r, properties) := by
  unfold selectionRead
  rw [hphase]

theorem handle_cons {events : List XEvent} (h : x.events = e :: events) :
    x.handle window atoms =
      let (reader, properties) := selectionRead window atoms x.reader x.properties e
      let gone := (x.properties atoms.property).isSome && (properties atoms.property).isNone
      { x with
        reader, properties
        events := events ++ if gone then [.propertyNotify window atoms.property false] else [] } := by
  unfold Exchange.handle
  split
  · next hnil => cases h.symm.trans hnil
  · next hcons =>
    cases h.symm.trans hcons
    rfl

/-- An event that changes nothing is only taken from the queue. -/
theorem handle_skip {events : List XEvent} (h : x.events = e :: events)
    (hsame : selectionRead window atoms x.reader x.properties e = (x.reader, x.properties)) :
    x.handle window atoms = { x with events } := by
  have hgone : ((x.properties atoms.property).isSome && (x.properties atoms.property).isNone) = false := by
    cases x.properties atoms.property <;> rfl
  rw [handle_cons h, hsame]
  simp only [hgone, Bool.false_eq_true, if_false, List.append_nil]

theorem gone_foreign : (XEvent.propertyNotify window atoms.property false).foreign window atoms = true := by
  simp [XEvent.foreign]

theorem Foreign.gone {events : List XEvent} (h : Foreign window atoms events) (gone : Bool) :
    Foreign window atoms (events ++ if gone then [.propertyNotify window atoms.property false] else []) := by
  cases gone with
  | true => exact h.append gone_foreign
  | false => simpa using h

/-- What one request returns of a property is appended, and the property goes if that is all of it. -/
theorem appendProperty_some {property : Atom} {properties : Properties} {stored : Property}
    (h : properties property = some stored) (out : Buffer) :
    ∃ properties', appendProperty property true properties out =
        (stored.type, bufferBytes out (stored.data.take (4 * propertyWords)), properties') ∧
      (stored.data.length ≤ 4 * propertyWords ∧ properties' property = none ∨
        4 * propertyWords < stored.data.length ∧ properties' = properties) := by
  by_cases hsmall : stored.data.length ≤ 4 * propertyWords
  · refine ⟨_, ?_, Or.inl ⟨hsmall, Function.update_self property none properties⟩⟩
    rw [appendProperty, getProperty_small h hsmall, List.take_of_length_le hsmall]
  · obtain ⟨after, hget⟩ := getProperty_large h (Nat.not_le.mp hsmall)
    refine ⟨properties, ?_, Or.inr ⟨Nat.not_le.mp hsmall, rfl⟩⟩
    rw [appendProperty, hget]

theorem propertyWords_le : 4 * propertyWords ≤ maxTextBytes := by decide

theorem Delivery.Fits.read_le (h : d.Fits) : d.read.length ≤ maxTextBytes := by
  cases d with
  | single type value =>
    have hle := propertyWords_le
    rw [Delivery.read, List.length_take]
    omega
  | incremental estimate type pieces => exact h.value

/-- The answer of the owner is read as far as one request goes. -/
theorem selectionRead_answer (window : WindowId) (atoms : Atoms) {r : Reader} {properties : Properties}
    {stored : Property} (hphase : r.phase = .converting) (hout : r.out.data = [])
    (hmaximum : r.out.maximum = maxTextBytes)
    (hproperty : properties atoms.property = some stored) :
    ∃ out properties', selectionRead window atoms r properties
          (.selectionNotify window atoms.clipboard atoms.property) =
        (if stored.type != atoms.incr then (⟨.finished Status.ok, stored.type, out⟩, properties')
        else (⟨.collecting atoms.property, stored.type, { out with data := [] }⟩, properties')) ∧
      out.data = stored.data.take (4 * propertyWords) ∧ out.maximum = maxTextBytes ∧
      (stored.data.length ≤ 4 * propertyWords ∧ properties' atoms.property = none ∨
        4 * propertyWords < stored.data.length ∧ properties' = properties) := by
  have hours : ¬(window != window || atoms.clipboard != atoms.clipboard) = true := by simp
  have hloaded : ¬(atoms.property == 0) = true := by simpa using atoms.loaded
  obtain ⟨properties', happend, hgone⟩ := appendProperty_some hproperty r.out
  have hlength : (stored.data.take (4 * propertyWords)).length ≤ 4 * propertyWords := List.length_take_le ..
  have hwords := propertyWords_le
  obtain ⟨out, hbytes, hdata, hmax⟩ := (bufferBytes_writes (stored.data.take
    (4 * propertyWords))).exists_of_fits (b := r.out) (by rw [hout, hmaximum, List.length_nil]; omega)
  rw [hbytes] at happend
  rw [hout, List.nil_append] at hdata
  refine ⟨out, properties', ?_, hdata, hmax.trans hmaximum, hgone⟩
  unfold selectionRead
  rw [hphase]
  dsimp only
  rw [if_neg hours, if_neg hloaded, happend]

/-- What comes of the answer: the whole of a small value, or the announcement of pieces. -/
theorem handle_answer (h : Staged window atoms d x) (hwell : d.WellFormed atoms) {after : List XEvent}
    (hanswered : x.answered = true) (hphase : x.reader.phase = .converting) (hout : x.reader.out.data = [])
    (hproperty : x.properties atoms.property = some (d.first atoms)) (hleft : x.left = d.later)
    (hevents : x.events = .selectionNotify window atoms.clipboard atoms.property :: after)
    (hafter : Foreign window atoms after) : Staged window atoms d (x.handle window atoms) := by
  obtain ⟨out, properties', hread, hdata, hmaximum, hgone⟩ :=
    selectionRead_answer window atoms hphase hout h.maximum hproperty
  rw [handle_cons hevents, hread]
  cases d with
  | single type value =>
    have hplain : ((Delivery.first atoms (.single type value)).type != atoms.incr) = true := bne_iff_ne.mpr hwell
    rw [if_pos hplain]
    exact ⟨.finished Status.ok rfl (fun _ => hdata) fun _ => Or.inl rfl, hmaximum, h.later⟩
  | incremental estimate type pieces =>
    have hincr : ¬((Delivery.first atoms (.incremental estimate type pieces)).type != atoms.incr) = true := by
      simp [Delivery.first]
    rw [if_neg hincr]
    rcases hgone with ⟨hsmall, hnone⟩ | ⟨hlarge, rfl⟩
    · exact ⟨.waiting pieces hanswered rfl hnone hleft hwell rfl (Nat.zero_le _) (hafter.gone _), hmaximum, h.later⟩
    · have hnot : ¬(Delivery.incremental estimate type pieces).Fits := fun hfits =>
        absurd (hfits.first atoms) (Nat.not_le.mpr hlarge)
      exact ⟨.stuck hanswered rfl (by rw [hproperty]; rfl) hnot (hafter.gone _), hmaximum, h.later⟩

/-- A piece is read: the last one ends the transfer, and any other adds to what the reader has. -/
theorem handle_piece (h : Staged window atoms d x) {after : List XEvent} {piece : Bytes} {pieces : List Bytes}
    (hanswered : x.answered = true) (hphase : x.reader.phase = .collecting atoms.property)
    (hproperty : x.properties atoms.property = some ⟨d.pieceType, piece⟩) (hmember : piece ∈ d.later)
    (hleft : piece :: x.left = pieces ++ [[]]) (hfull : ∀ piece ∈ pieces, piece ≠ [])
    (hout : x.reader.out.data ++ pieces.flatten = d.read) (hsmall : x.reader.out.data.length ≤ maxTextBytes)
    (hevents : x.events = .propertyNotify window atoms.property true :: after) (hafter : Foreign window atoms after) :
    Staged window atoms d (x.handle window atoms) := by
  have hours : ¬(window != window || atoms.property != atoms.property || !true) = true := by simp
  obtain ⟨properties', happend, hgone⟩ := appendProperty_some hproperty x.reader.out
  -- A piece with something in it is the first of those that are left; the empty one is the last.
  have hcase : piece = [] ∧ pieces = [] ∨ ∃ rest, pieces = piece :: rest ∧ x.left = rest ++ [[]] := by
    cases pieces with
    | nil => exact Or.inl ⟨(List.cons.inj hleft).1, rfl⟩
    | cons first rest =>
      obtain ⟨rfl, hrest⟩ := List.cons.inj hleft
      exact Or.inr ⟨rest, rfl, hrest⟩
  have hfits : d.Fits → x.reader.out.data.length + piece.length ≤ maxTextBytes ∧ piece.length ≤ 4 * propertyWords := by
    intro hfits
    have htotal := congrArg List.length hout
    have hle := hfits.read_le
    rw [List.length_append] at htotal
    rcases hcase with ⟨rfl, -⟩ | ⟨rest, rfl, -⟩
    · exact ⟨hsmall, Nat.zero_le _⟩
    · rw [List.flatten_cons, List.length_append] at htotal
      exact ⟨by omega, hfits.later piece hmember⟩
  have hread : selectionRead window atoms x.reader x.properties (.propertyNotify window atoms.property true) =
      match bufferBytes x.reader.out (piece.take (4 * propertyWords)) with
      | none => ({ x.reader with phase := .finished Status.internal }, properties')
      | some out =>
        if out.data.length == x.reader.out.data.length then
          ({ x.reader with phase := .finished Status.ok, out }, properties')
        else if maxTextBytes < out.data.length then
          ({ x.reader with phase := .finished Status.resourceExhausted, out }, properties')
        else (⟨.collecting atoms.property, x.reader.type, out⟩, properties') := by
    unfold selectionRead
    rw [hphase]
    dsimp only
    rw [if_neg hours, happend]
    cases bufferBytes x.reader.out (piece.take (4 * propertyWords)) <;> rfl
  have htake : (piece.take (4 * propertyWords)).length ≤ piece.length := List.length_take_le' ..
  rw [handle_cons hevents, hread]
  cases hbytes : bufferBytes x.reader.out (piece.take (4 * propertyWords)) with
  | none =>
    refine ⟨.finished Status.internal rfl nofun fun hyes => ?_, h.maximum, h.later⟩
    obtain ⟨hroom, -⟩ := hfits hyes
    obtain ⟨out, hsome, -⟩ := (bufferBytes_writes (piece.take (4 * propertyWords))).exists_of_fits
      (b := x.reader.out) (by rw [h.maximum]; omega)
    rw [hbytes] at hsome
    cases hsome
  | some out =>
    have hdata := (bufferBytes_writes _).data hbytes
    have hmaximum : out.maximum = maxTextBytes := ((bufferBytes_writes _).maximum hbytes).trans h.maximum
    have hlength : out.data.length = x.reader.out.data.length + (piece.take (4 * propertyWords)).length := by
      rw [hdata, List.length_append]
    dsimp only
    by_cases hsame : (out.data.length == x.reader.out.data.length) = true
    · rw [if_pos hsame]
      have hempty : (piece.take (4 * propertyWords)).length = 0 := by
        have hequal := beq_iff_eq.mp hsame
        omega
      refine ⟨.finished Status.ok rfl (fun _ => ?_) fun _ => Or.inl rfl, hmaximum, h.later⟩
      rcases hcase with ⟨rfl, rfl⟩ | ⟨rest, rfl, -⟩
      · rw [← hout, hdata]
        rfl
      · have hne := hfull piece List.mem_cons_self
        rw [List.length_take] at hempty
        have hpos := List.length_pos_iff.mpr hne
        have hwords : 0 < 4 * propertyWords := by decide
        omega
    rw [if_neg hsame]
    by_cases hlong : maxTextBytes < out.data.length
    · rw [if_pos hlong]
      refine ⟨.finished Status.resourceExhausted rfl nofun fun hyes => ?_, hmaximum, h.later⟩
      have hroom := (hfits hyes).1
      omega
    · rw [if_neg hlong]
      rcases hcase with ⟨rfl, rfl⟩ | ⟨rest, rfl, hrest⟩
      · refine absurd (beq_iff_eq.mpr ?_) hsame
        rw [hlength]
        rfl
      · rcases hgone with ⟨hwhole, hnone⟩ | ⟨hlarge, rfl⟩
        · rw [List.take_of_length_le hwhole] at hdata
          refine ⟨.waiting rest hanswered rfl hnone hrest
            (fun piece hpiece => hfull piece (List.mem_cons_of_mem _ hpiece)) ?_ (Nat.not_lt.mp hlong)
            (hafter.gone _), hmaximum, h.later⟩
          rw [← hout, hdata, List.flatten_cons, List.append_assoc]
        · have hnot : ¬d.Fits := fun hyes => absurd (hfits hyes).2 (Nat.not_le.mpr hlarge)
          exact ⟨.stuck hanswered rfl (by rw [hproperty]; rfl) hnot (hafter.gone _), hmaximum, h.later⟩

theorem handle_staged (h : Staged window atoms d x) (hwell : d.WellFormed atoms) :
    Staged window atoms d (x.handle window atoms) := by
  cases hevents : x.events with
  | nil =>
    have hsame : x.handle window atoms = x := by rw [Exchange.handle, hevents]
    rw [hsame]
    exact h
  | cons e events =>
    have hskip : (∀ delivered, x.reader.phase = .collecting delivered → delivered = atoms.property) →
        e.foreign window atoms = true → x.handle window atoms = { x with events } :=
      fun hphase he => handle_skip hevents (selectionRead_foreign x.properties he hphase)
    cases h.stage with
    | asked hanswered hphase hout hproperty hforeign =>
      rw [hevents] at hforeign
      rw [hskip (by simp [hphase]) (hforeign e List.mem_cons_self)]
      exact ⟨.asked hanswered hphase hout hproperty fun later hlater => hforeign later (List.mem_cons_of_mem _ hlater),
        h.maximum, h.later⟩
    | offered hanswered hphase hout hproperty hleft hsplit =>
      obtain ⟨before, after, hsplit, hbefore, hafter⟩ := hsplit
      cases before with
      | nil => exact handle_answer h hwell hanswered hphase hout hproperty hleft hsplit hafter
      | cons first before =>
        obtain ⟨rfl, hrest⟩ := List.cons.inj (hevents.symm.trans hsplit)
        have hsame : selectionRead window atoms x.reader x.properties e = (x.reader, x.properties) := by
          rcases hbefore e List.mem_cons_self with he | ⟨atom, rfl⟩
          · exact selectionRead_foreign x.properties he (by simp [hphase])
          · exact selectionRead_converting x.properties hphase atom
        rw [handle_skip hevents hsame]
        exact ⟨.offered hanswered hphase hout hproperty hleft
          ⟨before, after, hrest, fun later hlater => hbefore later (List.mem_cons_of_mem _ hlater), hafter⟩,
          h.maximum, h.later⟩
    | waiting pieces hanswered hphase hproperty hleft hfull hout hsmall hforeign =>
      rw [hevents] at hforeign
      rw [hskip (by simp [hphase]) (hforeign e List.mem_cons_self)]
      exact ⟨.waiting pieces hanswered hphase hproperty hleft hfull hout hsmall
        fun later hlater => hforeign later (List.mem_cons_of_mem _ hlater), h.maximum, h.later⟩
    | written piece pieces hanswered hphase hproperty hmember hleft hfull hout hsmall hsplit =>
      obtain ⟨before, after, hsplit, hbefore, hafter⟩ := hsplit
      cases before with
      | nil =>
        exact handle_piece h hanswered hphase hproperty hmember hleft hfull hout hsmall hsplit hafter
      | cons first before =>
        obtain ⟨rfl, hrest⟩ := List.cons.inj (hevents.symm.trans hsplit)
        rw [hskip (by simp [hphase]) (hbefore e List.mem_cons_self)]
        exact ⟨.written piece pieces hanswered hphase hproperty hmember hleft hfull hout hsmall
          ⟨before, after, hrest, fun later hlater => hbefore later (List.mem_cons_of_mem _ hlater), hafter⟩,
          h.maximum, h.later⟩
    | stuck hanswered hphase hproperty hlarge hforeign =>
      rw [hevents] at hforeign
      rw [hskip (by simp [hphase]) (hforeign e List.mem_cons_self)]
      exact ⟨.stuck hanswered hphase hproperty hlarge fun later hlater => hforeign later (List.mem_cons_of_mem _ hlater),
        h.maximum, h.later⟩
    | finished status hphase hwhole hsucceeds =>
      have hsame : selectionRead window atoms x.reader x.properties e = (x.reader, x.properties) := by
        unfold selectionRead
        rw [hphase]
      rw [handle_skip hevents hsame]
      exact ⟨.finished status hphase hwhole hsucceeds, h.maximum, h.later⟩

theorem act_staged (h : Staged window atoms d x) (hwell : d.WellFormed atoms) (a : Act) :
    Staged window atoms d (x.act window atoms d a) := by
  cases a with
  | answer => exact answer_staged h
  | write => exact write_staged h
  | foreign event =>
    unfold Exchange.act
    dsimp only
    split_ifs with he
    · exact foreign_staged h he
    · exact h
  | handle => exact handle_staged h hwell
  | expire => exact expire_staged h

end Stages

section Reading

variable {window : WindowId} {atoms : Atoms} {d : Delivery} {x : Exchange}

def Exchange.run (window : WindowId) (atoms : Atoms) (d : Delivery) (acts : List Act) : Exchange :=
  acts.foldl (Exchange.act window atoms d) Exchange.start

theorem run_staged (hwell : d.WellFormed atoms) (acts : List Act) :
    Staged window atoms d (Exchange.run window atoms d acts) := by
  apply Run.invariant (I := Staged window atoms d) _ (Run.foldl (Exchange.act window atoms d) Exchange.start acts)
    start_staged
  rintro x a y hx rfl
  exact act_staged hx hwell a

theorem Staged.whole (h : Staged window atoms d x) (hok : x.reader.phase = .finished Status.ok) :
    x.reader.out.data = d.read := by
  cases h.stage with
  | asked _ hphase => rw [hphase] at hok; cases hok
  | offered _ hphase => rw [hphase] at hok; cases hok
  | waiting _ _ hphase => rw [hphase] at hok; cases hok
  | written _ _ _ hphase => rw [hphase] at hok; cases hok
  | stuck _ hphase => rw [hphase] at hok; cases hok
  | finished status hphase hwhole =>
    cases hphase.symm.trans hok
    exact hwhole rfl

/-- Once nothing is left to do, a value that fits has been read, unless the deadline has passed. -/
theorem Staged.quiet (h : Staged window atoms d x) (hfits : d.Fits) (hquiet : x.Quiet atoms) :
    x.reader.phase = .finished Status.ok ∨ x.reader.phase = .finished Status.timeout := by
  have hevents := hquiet.events
  cases h.stage with
  | asked hanswered =>
    rw [hquiet.answered] at hanswered
    cases hanswered
  | offered _ _ _ _ _ hsplit =>
    obtain ⟨before, after, hsplit, -⟩ := hsplit
    rw [hevents] at hsplit
    simp at hsplit
  | waiting pieces _ _ hproperty hleft =>
    rcases hquiet.written with hnone | hsome
    · rw [hleft] at hnone
      simp at hnone
    · rw [hproperty] at hsome
      cases hsome
  | written _ _ _ _ _ _ _ _ _ _ hsplit =>
    obtain ⟨before, after, hsplit, -⟩ := hsplit
    rw [hevents] at hsplit
    simp at hsplit
  | stuck _ _ _ hlarge => exact absurd hfits hlarge
  | finished status hphase _ hsucceeds =>
    rcases hsucceeds hfits with rfl | rfl
    · exact Or.inl hphase
    · exact Or.inr hphase

theorem Delivery.read_eq_value (h : ¬d.Oversized) : d.read = d.value := by
  cases d with
  | single type value => exact List.take_of_length_le (Nat.not_lt.mp h)
  | incremental estimate type pieces => rfl

/-- A value in one property is read as far as one request goes, and the read succeeds. -/
theorem single_read (window : WindowId) (atoms : Atoms) {type : Atom} (htype : type ≠ atoms.incr) (value : Bytes) :
    let x := Exchange.run window atoms (.single type value) [.answer, .handle, .handle]
    x.reader.phase = .finished Status.ok ∧ x.reader.out.data = value.take (4 * propertyWords) := by
  let asked := Exchange.answer window atoms (.single type value) Exchange.start
  have hproperty : asked.properties atoms.property = some ⟨type, value⟩ := Function.update_self ..
  have hskip : asked.handle window atoms =
      { asked with events := [.selectionNotify window atoms.clipboard atoms.property] } :=
    handle_skip rfl (selectionRead_converting _ rfl _)
  obtain ⟨out, properties', hread, hdata, -, -⟩ := selectionRead_answer window atoms (r := asked.reader) rfl rfl
    rfl hproperty
  have hplain : (type != atoms.incr) = true := bne_iff_ne.mpr htype
  rw [if_pos hplain] at hread
  have hhandle : ((asked.handle window atoms).handle window atoms).reader = ⟨.finished Status.ok, type, out⟩ := by
    rw [hskip, handle_cons rfl]
    dsimp only
    rw [hread]
  have hrun : (Exchange.run window atoms (.single type value) [.answer, .handle, .handle]).reader =
      ⟨.finished Status.ok, type, out⟩ := hhandle
  dsimp only
  rw [hrun]
  exact ⟨rfl, hdata⟩

/-- A read that succeeds returns the value of the owner exactly when that is not one property of more than one
request returns; and a value that fits is read, however the transfer goes, unless the deadline passes. -/
theorem selectionRead_lossless_iff (window : WindowId) (atoms : Atoms) (d : Delivery) (hwell : d.WellFormed atoms) :
    ((∀ acts, (Exchange.run window atoms d acts).reader.phase = .finished Status.ok →
        (Exchange.run window atoms d acts).reader.out.data = d.value) ↔ ¬d.Oversized) ∧
      (d.Fits → ∀ acts, (Exchange.run window atoms d acts).Quiet atoms →
        (Exchange.run window atoms d acts).reader.phase = .finished Status.ok ∨
          (Exchange.run window atoms d acts).reader.phase = .finished Status.timeout) := by
  refine ⟨⟨fun hexact hover => ?_, fun hnot acts hok => ?_⟩, fun hfits acts hquiet => ?_⟩
  · cases d with
    | single type value =>
      obtain ⟨hok, hdata⟩ := single_read window atoms hwell value
      have hwhole := hexact _ hok
      rw [hdata] at hwhole
      have hlength := congrArg List.length hwhole
      rw [List.length_take] at hlength
      have hlarge : 4 * propertyWords < value.length := hover
      have hvalue : (Delivery.single type value).value = value := rfl
      rw [hvalue] at hlength
      omega
    | incremental estimate type pieces => exact hover
  · rw [(run_staged hwell acts).whole hok, Delivery.read_eq_value hnot]
  · exact (run_staged hwell acts).quiet hfits hquiet

def plainAtoms : Atoms := ⟨300, 301, 302, 303, by decide⟩

/-- The owner and the reader take turns until the empty piece. -/
def turns : List Act :=
  [.answer, .handle, .handle, .write, .handle, .handle, .write, .handle, .handle, .write, .handle, .handle]

/-- A short text that comes in two pieces is read whole. -/
theorem pieces_lossless :
    (Exchange.run 7 plainAtoms (.incremental [2, 0, 0, 0] 302 [[104], [105]]) turns).reader.phase =
        .finished Status.ok ∧
      (Exchange.run 7 plainAtoms (.incremental [2, 0, 0, 0] 302 [[104], [105]]) turns).reader.out.data = [104, 105] := by
  have hok : (Exchange.run 7 plainAtoms (.incremental [2, 0, 0, 0] 302 [[104], [105]]) turns).reader.phase =
      .finished Status.ok := by decide +kernel
  have hwell : (Delivery.incremental [2, 0, 0, 0] 302 [[104], [105]]).WellFormed plainAtoms := by
    simp [Delivery.WellFormed]
  exact ⟨hok, (selectionRead_lossless_iff 7 plainAtoms _ hwell).1.mpr (fun hover => hover) turns hok⟩

/-- A text one byte longer than a request returns loses that byte, and the read succeeds. -/
theorem longText_cut :
    let value : Bytes := List.replicate (4 * propertyWords + 1) 97
    value.length ≤ maxTextBytes ∧ ∃ acts,
      (Exchange.run 7 plainAtoms (.single 302 value) acts).reader.phase = .finished Status.ok ∧
        (Exchange.run 7 plainAtoms (.single 302 value) acts).reader.out.data ≠ value := by
  intro value
  have hlength : value.length = 4 * propertyWords + 1 := List.length_replicate ..
  have hroom : 4 * propertyWords + 1 ≤ maxTextBytes := by decide
  obtain ⟨hok, hdata⟩ := single_read 7 plainAtoms (show (302 : Atom) ≠ plainAtoms.incr by decide) value
  refine ⟨by rw [hlength]; exact hroom, [.answer, .handle, .handle], hok, ?_⟩
  rw [hdata]
  intro hwhole
  have hcut := congrArg List.length hwhole
  rw [List.length_take] at hcut
  omega

end Reading

end KeysharpDesktop.Clipboard
