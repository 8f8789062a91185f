import Mathlib.Data.List.Basic

/-! Streams that are cut into lines at a separator, by a reader that keeps a state of the line it is in: the lines are
those of the whole stream, however it arrives. -/
namespace Framer

section Definitions

variable {α σ β : Type*} [DecidableEq α] (sep : α)

/-- The lines of a stream that are ended, and what follows the last separator. -/
def split : List α → List (List α) × List α
  | [] => ([], [])
  | a :: rest =>
    if a = sep then ([] :: (split rest).1, (split rest).2)
    else match (split rest).1 with
      | [] => ([], a :: (split rest).2)
      | line :: lines => ((a :: line) :: lines, (split rest).2)

variable (start : σ) (push : σ → α → σ) (emit : σ → β)

/-- A reader takes a stream: what it reports, and the state it is left in. -/
def feed : σ → List α → List β × σ
  | s, [] => ([], s)
  | s, a :: rest =>
    if a = sep then (emit s :: (feed start rest).1, (feed start rest).2) else feed (push s a) rest

/-- The same for a stream that arrives in pieces. -/
def feedAll : σ → List (List α) → List β × σ
  | s, [] => ([], s)
  | s, piece :: pieces =>
    let first := feed sep start push emit s piece
    let rest := feedAll first.2 pieces
    (first.1 ++ rest.1, rest.2)

end Definitions

section Lines

variable {α σ β : Type*} [DecidableEq α] {sep : α} {start : σ} {push : σ → α → σ} {emit : σ → β}

theorem feed_append (s : σ) (xs ys : List α) :
    feed sep start push emit s (xs ++ ys) =
      ((feed sep start push emit s xs).1 ++ (feed sep start push emit (feed sep start push emit s xs).2 ys).1,
        (feed sep start push emit (feed sep start push emit s xs).2 ys).2) := by
  induction xs generalizing s with
  | nil => rfl
  | cons a xs ih =>
    rw [List.cons_append, feed, feed]
    split_ifs
    · rw [ih start]
      rfl
    · exact ih (push s a)

/-- Where a stream is cut makes no difference. -/
theorem feedAll_eq (s : σ) (pieces : List (List α)) :
    feedAll sep start push emit s pieces = feed sep start push emit s pieces.flatten := by
  induction pieces generalizing s with
  | nil => rfl
  | cons piece pieces ih =>
    rw [List.flatten_cons, feed_append, feedAll, ih]

/-- A reader reports the lines of its stream, the first behind what it has of it already. -/
theorem feed_eq (s : σ) (xs : List α) :
    feed sep start push emit s xs = match (split sep xs).1 with
      | [] => ([], (split sep xs).2.foldl push s)
      | line :: lines =>
        (emit (line.foldl push s) :: lines.map fun line => emit (line.foldl push start),
          (split sep xs).2.foldl push start) := by
  induction xs generalizing s with
  | nil => rfl
  | cons a xs ih =>
    rw [feed, split]
    split_ifs with ha
    · rw [ih start]
      cases (split sep xs).1 with
      | nil => rfl
      | cons line lines => rfl
    · rw [ih (push s a)]
      cases (split sep xs).1 with
      | nil => rfl
      | cons line lines => rfl

/-- From its start, a reader reports the lines of the stream and nothing else. -/
theorem feedAll_start (pieces : List (List α)) :
    feedAll sep start push emit start pieces =
      ((split sep pieces.flatten).1.map fun line => emit (line.foldl push start),
        (split sep pieces.flatten).2.foldl push start) := by
  rw [feedAll_eq, feed_eq]
  cases (split sep pieces.flatten).1 with
  | nil => rfl
  | cons line lines => rfl

theorem split_tail {tail : List α} (h : sep ∉ tail) : split sep tail = ([], tail) := by
  induction tail with
  | nil => rfl
  | cons a tail ih =>
    rw [List.mem_cons, not_or] at h
    rw [split, if_neg (Ne.symm h.1), ih h.2]

theorem split_line {line : List α} (h : sep ∉ line) (rest : List α) :
    split sep (line ++ sep :: rest) = (line :: (split sep rest).1, (split sep rest).2) := by
  induction line with
  | nil => rw [List.nil_append, split, if_pos rfl]
  | cons a line ih =>
    rw [List.mem_cons, not_or] at h
    rw [List.cons_append, split, if_neg (Ne.symm h.1), ih h.2]

/-- The lines of a stream are those that it was put together from. -/
theorem split_flatten {lines : List (List α)} {tail : List α} (hlines : ∀ line ∈ lines, sep ∉ line)
    (htail : sep ∉ tail) : split sep ((lines.map (· ++ [sep])).flatten ++ tail) = (lines, tail) := by
  induction lines with
  | nil => exact split_tail htail
  | cons line lines ih =>
    rw [List.map_cons, List.flatten_cons, List.append_assoc, List.append_assoc, List.singleton_append,
      split_line (hlines line List.mem_cons_self), ih fun other hother => hlines other (List.mem_cons_of_mem _ hother)]

/-- Something is reported exactly when a line is ended. -/
theorem feed_nil_iff (s : σ) (xs : List α) : (feed sep start push emit s xs).1 = [] ↔ sep ∉ xs := by
  induction xs generalizing s with
  | nil => exact iff_of_true rfl List.not_mem_nil
  | cons a xs ih =>
    rw [feed]
    split_ifs with ha
    · constructor
      · intro h
        cases h
      · intro h
        rw [ha] at h
        exact absurd List.mem_cons_self h
    · rw [ih, List.mem_cons, not_or]
      exact ⟨fun h => ⟨Ne.symm ha, h⟩, fun h => h.2⟩

end Lines

end Framer
