import Mathlib.Data.List.Basic

/-! A stream as it arrives: segments of any lengths, from which a reader takes as much as it asks
for and no more than one segment at a time. -/
namespace Stream

variable {α : Type*}

/-- What one receive gives. -/
inductive Receipt (α : Type*)
  | data (items : List α)
  | again
  | closed
  deriving DecidableEq, Repr

/-- An empty segment is a call that finds nothing yet; no segment is the end of the stream. -/
def recv (amount : ℕ) : List (List α) → Receipt α × List (List α)
  | [] => (.closed, [])
  | segment :: rest =>
    if segment.isEmpty then (.again, rest)
    else if segment.length ≤ amount then (.data segment, rest)
    else (.data (segment.take amount), segment.drop amount :: rest)

/-- A receive that waits until it has all it asks for, or the stream ends. -/
def recvAll (amount : ℕ) : List (List α) → List α × List (List α)
  | [] => ([], [])
  | segment :: rest =>
    if amount < segment.length then (segment.take amount, segment.drop amount :: rest)
    else
      let (items, rest) := recvAll (amount - segment.length) rest
      (segment ++ items, rest)

/-- A bound on the receives that a stream can answer before it ends. -/
def size (s : List (List α)) : ℕ := s.length + s.flatten.length

variable {s t : List (List α)} {n : ℕ} {items : List α}

theorem recv_data (hn : 0 < n) (h : recv n s = (.data items, t)) :
    items ≠ [] ∧ items.length ≤ n ∧ s.flatten = items ++ t.flatten ∧ size t < size s := by
  cases s with
  | nil => cases h
  | cons segment rest =>
    simp only [recv] at h
    split_ifs at h with hempty hle
    · cases h
    · cases h
      have hne : items ≠ [] := by simpa using hempty
      have hpos := List.length_pos_of_ne_nil hne
      refine ⟨hne, hle, rfl, ?_⟩
      simp only [size, List.length_cons, List.flatten_cons, List.length_append]
      omega
    · cases h
      have hlength : (segment.take n).length = n := List.length_take_of_le (by omega)
      refine ⟨List.ne_nil_of_length_pos (by omega), by omega, ?_, ?_⟩
      · rw [List.flatten_cons, List.flatten_cons, ← List.append_assoc, List.take_append_drop]
      · simp only [size, List.length_cons, List.flatten_cons, List.length_append, List.length_drop]
        omega

theorem recv_again (h : recv n s = (.again, t)) : s = [] :: t := by
  cases s with
  | nil => cases h
  | cons segment rest =>
    simp only [recv] at h
    split_ifs at h with hempty <;> cases h
    rw [List.isEmpty_iff.mp hempty]

theorem recv_closed (h : recv n s = (.closed, t)) : s = [] ∧ t = [] := by
  cases s with
  | nil =>
    cases h
    exact ⟨rfl, rfl⟩
  | cons segment rest =>
    simp only [recv] at h
    split_ifs at h <;> cases h

theorem size_again (h : recv n s = (.again, t)) : t.flatten = s.flatten ∧ size t < size s := by
  rw [recv_again h]
  simp [size]

theorem recvAll_eq (n : ℕ) (s : List (List α)) :
    (recvAll n s).1 = s.flatten.take n ∧ (recvAll n s).2.flatten = s.flatten.drop n := by
  induction s generalizing n with
  | nil => simp [recvAll]
  | cons segment rest ih =>
    unfold recvAll
    split_ifs with hlt
    · simp only [List.flatten_cons]
      constructor
      · rw [List.take_append_of_le_length (by omega)]
      · rw [List.drop_append_of_le_length (by omega)]
    · have hle : segment.length ≤ n := by omega
      obtain ⟨htake, hdrop⟩ := ih (n - segment.length)
      simp only [List.flatten_cons, htake, hdrop]
      constructor
      · rw [List.take_append, List.take_of_length_le hle]
      · rw [List.drop_append, List.drop_eq_nil_of_le hle, List.nil_append]

/-- What one send does with the rest of a message. -/
inductive Sending
  | sent (count : ℕ)
  | again
  | closed
  deriving DecidableEq, Repr

/-- The peer takes as much as it has room for; room zero is a call that has to be made again. -/
def send (amount : ℕ) : List ℕ → Sending × List ℕ
  | [] => (.closed, [])
  | room :: rest => if room = 0 then (.again, rest) else (.sent (min room amount), rest)

end Stream
