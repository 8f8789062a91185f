import Mathlib.Data.List.Basic

/-! Sockets that carry descriptors beside their bytes. What the kernel has to hand over is a list of
segments, and descriptors come with the first byte of the segment they were sent with. -/
namespace Ancillary

variable {α φ : Type*}

/-- One control message: descriptors, or something that no reader asked for. -/
inductive Control (φ : Type*)
  | rights (files : List φ)
  | other
  deriving DecidableEq, Repr

structure Segment (α φ : Type*) where
  bytes : List α
  control : List (Control φ)
  deriving DecidableEq, Repr

/-- Whether a socket keeps the bounds of what was sent. -/
inductive Kind
  | stream | packets
  deriving DecidableEq, Repr

/-- What one receive gives. An empty one is the end of what will come. -/
structure Received (α φ : Type*) where
  bytes : List α
  control : List (Control φ)
  truncated : Bool
  deriving DecidableEq, Repr

/-- The descriptors of some control messages, in order. -/
def descriptors (control : List (Control φ)) : List φ :=
  control.flatMap fun
    | .rights files => files
    | .other => []

def Control.isOther : Control φ → Bool
  | .rights _ => false
  | .other => true

/-- One receive of at most `amount` bytes, with room for `room` descriptors. A packet is cut to
what fits and the rest of it is gone; of a stream the rest is still there. -/
def recvmsg (kind : Kind) (room amount : ℕ) : List (Segment α φ) → Received α φ × List (Segment α φ)
  | [] => (⟨[], [], false⟩, [])
  | segment :: rest =>
    let crowded : Bool := room < (descriptors segment.control).length
    if segment.bytes.length ≤ amount then (⟨segment.bytes, segment.control, crowded⟩, rest)
    else
      match kind with
      | .stream =>
        (⟨segment.bytes.take amount, segment.control, crowded⟩, ⟨segment.bytes.drop amount, []⟩ :: rest)
      | .packets => (⟨segment.bytes.take amount, segment.control, true⟩, rest)

/-- A receive on a stream that waits for `amount` bytes. With `stops` it goes no further than a
segment that brought descriptors. -/
def gather (stops : Bool) (amount : ℕ) : List (Segment α φ) → Segment α φ × List (Segment α φ)
  | [] => (⟨[], []⟩, [])
  | segment :: rest =>
    if amount < segment.bytes.length then
      (⟨segment.bytes.take amount, segment.control⟩, ⟨segment.bytes.drop amount, []⟩ :: rest)
    else if segment.bytes.length = amount || stops && !segment.control.isEmpty then (segment, rest)
    else
      let (later, rest) := gather stops (amount - segment.bytes.length) rest
      (⟨segment.bytes ++ later.bytes, segment.control ++ later.control⟩, rest)

/-- Packets come whole, so waiting is for streams. -/
def recvmsgWaiting (kind : Kind) (stops : Bool) (room amount : ℕ) (s : List (Segment α φ)) :
    Received α φ × List (Segment α φ) :=
  match kind with
  | .packets => recvmsg .packets room amount s
  | .stream =>
    let (segment, rest) := gather stops amount s
    (⟨segment.bytes, segment.control, room < (descriptors segment.control).length⟩, rest)

/-- Plain reads, one segment at a time, until all of `length` is there. -/
def readWhole (length : ℕ) : List (List α) → Option (List α × List (List α))
  | [] => if length = 0 then some ([], []) else none
  | segment :: rest =>
    if length = 0 then some ([], segment :: rest)
    else if segment.length ≤ length then
      (readWhole (length - segment.length) rest).map fun (bytes, left) => (segment ++ bytes, left)
    else some (segment.take length, segment.drop length :: rest)

/-- A message as it may come: whole, as packets do, or on a stream in a first part that the
descriptors come with, which holds nothing behind the message, and in any parts after it. -/
inductive Arrives (message : List α) (control : List (Control φ)) :
    Kind → List (Segment α φ) → List α → Prop
  | packet (later : List (Segment α φ)) :
      Arrives message control .packets (⟨message, control⟩ :: later) (later.flatMap Segment.bytes)
  | parts (first tail later : List α) (segments : List (Segment α φ)) (nonempty : first ≠ [])
      (whole : message = first ++ tail) (bytes : segments.flatMap Segment.bytes = tail ++ later)
      (plain : ∀ segment ∈ segments, segment.control = []) :
      Arrives message control .stream (⟨first, control⟩ :: segments) later

section Reads

variable {s : List (List α)} {got rest : List α}

theorem readWhole_append (h : s.flatten = got ++ rest) :
    ∃ t, readWhole got.length s = some (got, t) ∧ t.flatten = rest := by
  induction s generalizing got with
  | nil =>
    obtain ⟨rfl, rfl⟩ : got = [] ∧ rest = [] := by simpa using h
    exact ⟨[], rfl, rfl⟩
  | cons segment s ih =>
    unfold readWhole
    rcases got.eq_nil_or_concat with rfl | hgot
    · refine ⟨segment :: s, by simp, ?_⟩
      simpa using h
    have hpos : got.length ≠ 0 := by
      obtain ⟨front, last, rfl⟩ := hgot
      simp
    rw [if_neg hpos]
    rw [List.flatten_cons] at h
    split_ifs with hle
    · obtain ⟨tail, rfl⟩ : segment <+: got := List.prefix_of_prefix_length_le ⟨s.flatten, h⟩ ⟨rest, rfl⟩ hle
      rw [List.append_assoc, List.append_cancel_left_eq] at h
      obtain ⟨t, hread, hrest⟩ := ih h
      refine ⟨t, ?_, hrest⟩
      rw [List.length_append, Nat.add_sub_cancel_left, hread]
      rfl
    · obtain ⟨tail, rfl⟩ : got <+: segment := List.prefix_of_prefix_length_le ⟨rest, rfl⟩ ⟨s.flatten, h⟩ (by omega)
      rw [List.append_assoc, List.append_cancel_left_eq] at h
      refine ⟨tail :: s, by simp, ?_⟩
      simpa using h

end Reads

section Waiting

variable {stops : Bool} {s : List (Segment α φ)} {got rest : List α} {control : List (Control φ)}

/-- Without descriptors a waiting receive gets what it asks for, however it comes. -/
theorem gather_plain (stops : Bool) (hplain : ∀ segment ∈ s, segment.control = []) (hgot : got ≠ [])
    (h : s.flatMap Segment.bytes = got ++ rest) :
    ∃ t, gather stops got.length s = (⟨got, []⟩, t) ∧ t.flatMap Segment.bytes = rest := by
  induction s generalizing got with
  | nil => simp_all
  | cons segment s ih =>
    have hcontrol : segment.control = [] := hplain segment (by simp)
    rw [List.flatMap_cons] at h
    unfold gather
    rw [hcontrol]
    split_ifs with hlong hlast
    · obtain ⟨tail, htail⟩ : got <+: segment.bytes :=
        List.prefix_of_prefix_length_le ⟨rest, rfl⟩ ⟨_, h⟩ (by omega)
      rw [← htail, List.append_assoc, List.append_cancel_left_eq] at h
      refine ⟨⟨tail, []⟩ :: s, by simp [← htail], ?_⟩
      simpa using h
    · have hlength : segment.bytes.length = got.length := by simpa using hlast
      have hsame : segment.bytes = got := (List.append_inj h hlength).1
      refine ⟨s, ?_, ?_⟩
      · cases segment
        simp_all
      · rw [hsame, List.append_cancel_left_eq] at h
        exact h
    · obtain ⟨tail, htail⟩ : segment.bytes <+: got :=
        List.prefix_of_prefix_length_le ⟨_, h⟩ ⟨rest, rfl⟩ (by omega)
      have hne : tail ≠ [] := by
        rintro rfl
        simp [← htail] at hlast
      rw [← htail, List.append_assoc, List.append_cancel_left_eq] at h
      obtain ⟨t, hgather, hrest⟩ := ih (fun other hother => hplain other (by simp [hother])) hne h
      refine ⟨t, ?_, hrest⟩
      have hleft : got.length - segment.bytes.length = tail.length := by
        rw [← htail, List.length_append, Nat.add_sub_cancel_left]
      rw [hleft, hgather]
      simp [htail]

/-- A waiting receive of the length of a message gives the message and what came with it. Where
the kernel stops behind descriptors, they must have come with all of it. -/
theorem Arrives.waiting {kind : Kind} {message later : List α} {room : ℕ}
    (h : Arrives message control kind s later) (hne : message ≠ [])
    (hroom : (descriptors control).length ≤ room)
    (hwhole : stops = true → control ≠ [] → ∀ segment ∈ s.head?, segment.bytes = message) :
    ∃ t, recvmsgWaiting kind stops room message.length s = (⟨message, control, false⟩, t) ∧
      t.flatMap Segment.bytes = later := by
  cases h with
  | packet next =>
    refine ⟨next, ?_, rfl⟩
    simp [recvmsgWaiting, recvmsg, hroom]
  | parts first tail later segments hfirst hmessage hbytes hplain =>
    subst hmessage
    have hshort : ¬(first ++ tail).length < first.length := by simp
    unfold recvmsgWaiting gather
    dsimp only
    rw [if_neg hshort]
    split_ifs with hlast
    · have htail : tail = [] := by
        rw [Bool.or_eq_true, Bool.and_eq_true, Bool.not_eq_true', List.isEmpty_eq_false_iff] at hlast
        rcases hlast with hlength | ⟨hstops, hcontrol⟩
        · simpa using hlength
        · have hsame := hwhole hstops hcontrol ⟨first, control⟩ rfl
          simpa using hsame
      subst htail
      refine ⟨segments, by simp [hroom], hbytes⟩
    · have htail : tail ≠ [] := by
        rintro rfl
        simp at hlast
      obtain ⟨t, hgather, hrest⟩ := gather_plain stops hplain htail hbytes
      refine ⟨t, ?_, hrest⟩
      have hleft : (first ++ tail).length - first.length = tail.length := by simp
      simp only [hleft, hgather, List.append_nil, Prod.mk.injEq, Received.mk.injEq, decide_eq_false_iff_not,
        and_true, true_and]
      omega

/-- A receive that does not wait gives the first part of a message, and plain reads give the rest. -/
theorem Arrives.first {kind : Kind} {message later : List α} {room amount : ℕ}
    (h : Arrives message control kind s later) (hne : message ≠ [])
    (hroom : (descriptors control).length ≤ room) (hamount : message.length ≤ amount) :
    ∃ first tail t, message = first ++ tail ∧ first ≠ [] ∧ (kind = .packets → tail = []) ∧
      recvmsg kind room amount s = (⟨first, control, false⟩, t) ∧ t.flatMap Segment.bytes = tail ++ later := by
  cases h with
  | packet next =>
    refine ⟨message, [], next, by simp, hne, fun _ => rfl, ?_, rfl⟩
    simp [recvmsg, hamount, hroom]
  | parts first tail later segments hfirst hmessage hbytes hplain =>
    refine ⟨first, tail, segments, hmessage, hfirst, by simp, ?_, hbytes⟩
    have hfits : first.length ≤ amount := by
      rw [hmessage, List.length_append] at hamount
      omega
    simp [recvmsg, hfits, hroom]

end Waiting

end Ancillary
