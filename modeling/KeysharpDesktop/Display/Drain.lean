import KeysharpDesktop.Wire.Protocol
import KeysharpDesktop.Lib.Stream

/-! What a compositor hands over through a pipe: a buffer that doubles up to the ceiling of a text, filled until the end
of the pipe. -/
namespace KeysharpDesktop.Drain

section Loop

def maxTransfer : ℕ := maxTextBytes

def firstCapacity : ℕ := 4096

/-- What one wait comes to. A wait past the deadline is refused, as one that fails is. -/
inductive Poll
  | ready | interrupted | refused
  deriving DecidableEq, Repr

/-- What the first waits come to, every later one finding the pipe ready; the bytes as the reads give them, an empty
chunk for a read that is interrupted; and whether the end of the pipe follows, or a read that fails. -/
structure Pipe where
  polls : List Poll
  chunks : List Bytes
  ended : Bool
  deriving DecidableEq, Repr

/-- What is returned, `none` for a failure, and the size of the last and largest buffer. -/
structure Drained where
  data : Option Bytes
  capacity : ℕ
  deriving DecidableEq, Repr

/-- The capacity after one step of growth. -/
def grown (capacity : ℕ) : ℕ := if maxTransfer < capacity * 2 then maxTransfer else capacity * 2

/-- What the loop holds between two waits: the rest of the stream, the buffer's size and what is in it. -/
structure Held where
  chunks : List Bytes
  capacity : ℕ
  buffer : Bytes
  deriving DecidableEq, Repr

/-- The size of the buffer that is read into. -/
def Held.size (held : Held) : ℕ := if held.buffer.length == held.capacity then grown held.capacity else held.capacity

/-- The turn after a wait that finds the pipe ready. -/
def readTurn (ended : Bool) (held : Held) : Drained ⊕ Held :=
  -- A full buffer is refused here, before the read that may find nothing more.
  if held.buffer.length == held.capacity && maxTransfer ≤ held.capacity then .inl ⟨none, held.capacity⟩
  else
    match Stream.recv (held.size - held.buffer.length) held.chunks with
    | (.again, chunks) => .inr ⟨chunks, held.size, held.buffer⟩
    | (.closed, _) => .inl ⟨if ended then some held.buffer else none, held.size⟩
    | (.data bytes, chunks) => .inr ⟨chunks, held.size, held.buffer ++ bytes⟩

/-- The loop of `ksd_wayland_drain`, one turn for each wait. The memory that it asks for is there. -/
def drainLoop (ended : Bool) : ℕ → List Poll → Held → Option Drained
  | 0, _, _ => none
  | turns + 1, polls, held =>
    match polls.headD .ready with
    | .refused => some ⟨none, held.capacity⟩
    | .interrupted => drainLoop ended turns polls.tail held
    | .ready =>
      match readTurn ended held with
      | .inl drained => some drained
      | .inr held => drainLoop ended turns polls.tail held

/-- Every turn uses up a wait or something of the stream, so these are enough. -/
def drain (pipe : Pipe) : Option Drained :=
  drainLoop pipe.ended (pipe.polls.length + Stream.size pipe.chunks + 1) pipe.polls ⟨pipe.chunks, firstCapacity, []⟩

end Loop

section Invariant

variable {ended : Bool} {turns : ℕ} {polls : List Poll} {held next : Held} {drained : Drained} {pipe : Pipe}

def Pipe.bytes (pipe : Pipe) : Bytes := pipe.chunks.flatten

/-- No wait is refused, and the end of the pipe comes. -/
def Pipe.Timely (pipe : Pipe) : Prop := Poll.refused ∉ pipe.polls ∧ pipe.ended = true

/-- The bytes that are read already and those that are not. -/
def Held.bytes (held : Held) : Bytes := held.buffer ++ held.chunks.flatten

/-- The buffer never holds more than its capacity, nor the capacity more than the ceiling. -/
structure Held.Fits (held : Held) : Prop where
  positive : 0 < held.capacity
  ceiling : held.capacity ≤ maxTransfer
  fits : held.buffer.length ≤ held.capacity

/-- What a loop comes to from what it holds. -/
structure Outcome (timely : Prop) (held : Held) (drained : Drained) : Prop where
  grows : held.capacity ≤ drained.capacity
  ceiling : drained.capacity ≤ maxTransfer
  exact : ∀ data, drained.data = some data → data = held.bytes ∧ data.length < maxTransfer
  succeeds : timely → held.bytes.length < maxTransfer → drained.data.isSome

theorem grown_bounds {capacity : ℕ} (hpositive : 0 < capacity) (hceiling : capacity < maxTransfer) :
    capacity < grown capacity ∧ grown capacity ≤ maxTransfer := by
  unfold grown
  split_ifs <;> omega

/-- A buffer that may be read into has room for a byte at least. -/
theorem Held.Fits.room (h : held.Fits)
    (hfull : ¬(held.buffer.length == held.capacity && maxTransfer ≤ held.capacity) = true) :
    held.buffer.length < held.size ∧ held.capacity ≤ held.size ∧ held.size ≤ maxTransfer := by
  obtain ⟨hpositive, hceiling, hfits⟩ := h
  simp only [Bool.and_eq_true, beq_iff_eq, decide_eq_true_eq, not_and, not_le] at hfull
  unfold Held.size
  split_ifs with hequal
  · have hgrown := grown_bounds hpositive (hfull (beq_iff_eq.mp hequal))
    have heq := beq_iff_eq.mp hequal
    omega
  · have hne : held.buffer.length ≠ held.capacity := fun heq => hequal (beq_iff_eq.mpr heq)
    omega

theorem readTurn_done (h : held.Fits) (hturn : readTurn ended held = .inl drained) :
    Outcome (ended = true) held drained := by
  unfold readTurn at hturn
  split at hturn
  · rename_i hfull
    cases hturn
    simp only [Bool.and_eq_true, beq_iff_eq, decide_eq_true_eq] at hfull
    refine ⟨Nat.le_refl _, h.ceiling, ?_, ?_⟩
    · intro data hdata
      cases hdata
    · intro _ hlength
      rw [Held.bytes, List.length_append] at hlength
      omega
  · rename_i hfull
    obtain ⟨hroom, hgrows, hceiling⟩ := h.room hfull
    split at hturn
    · cases hturn
    · rename_i hrecv
      cases hturn
      have hbytes : held.bytes = held.buffer := by
        rw [Held.bytes, (Stream.recv_closed hrecv).1, List.flatten_nil, List.append_nil]
      refine ⟨hgrows, hceiling, ?_, ?_⟩
      · intro data hdata
        dsimp only at hdata
        split_ifs at hdata
        cases hdata
        exact ⟨hbytes.symm, by omega⟩
      · intro hended _
        dsimp only
        rw [if_pos hended]
        rfl
    · cases hturn

theorem readTurn_next (h : held.Fits) (hturn : readTurn ended held = .inr next) :
    next.Fits ∧ held.capacity ≤ next.capacity ∧ next.bytes = held.bytes ∧
      Stream.size next.chunks < Stream.size held.chunks := by
  unfold readTurn at hturn
  split at hturn
  · cases hturn
  · rename_i hfull
    obtain ⟨hroom, hgrows, hceiling⟩ := h.room hfull
    split at hturn
    · rename_i chunks hrecv
      cases hturn
      obtain ⟨hflatten, hsize⟩ := Stream.size_again hrecv
      refine ⟨⟨Nat.zero_lt_of_lt hroom, hceiling, Nat.le_of_lt hroom⟩, hgrows, ?_, hsize⟩
      simp only [Held.bytes, hflatten]
    · cases hturn
    · rename_i bytes chunks hrecv
      cases hturn
      obtain ⟨-, hlength, hflatten, hsize⟩ := Stream.recv_data (by omega) hrecv
      refine ⟨⟨Nat.zero_lt_of_lt hroom, hceiling, ?_⟩, hgrows, ?_, hsize⟩
      · rw [List.length_append]
        dsimp only
        omega
      · simp only [Held.bytes, hflatten, List.append_assoc]

theorem Outcome.mono {timely timely' : Prop} (h : Outcome timely' next drained) (htimely : timely → timely')
    (hgrows : held.capacity ≤ next.capacity) (hbytes : next.bytes = held.bytes) : Outcome timely held drained where
  grows := Nat.le_trans hgrows h.grows
  ceiling := h.ceiling
  exact := hbytes ▸ h.exact
  succeeds ht hlength := h.succeeds (htimely ht) (hbytes ▸ hlength)

theorem drainLoop_outcome {polls : List Poll} {held : Held} (hturns : polls.length + Stream.size held.chunks < turns)
    (h : held.Fits) :
    ∃ drained, drainLoop ended turns polls held = some drained ∧
      Outcome (Poll.refused ∉ polls ∧ ended = true) held drained := by
  induction turns generalizing polls held with
  | zero => omega
  | succ turns ih =>
    have htimely : Poll.refused ∉ polls ∧ ended = true → Poll.refused ∉ polls.tail ∧ ended = true := fun ht =>
      ⟨fun hmem => ht.1 (List.mem_of_mem_tail hmem), ht.2⟩
    have htail : polls.tail.length ≤ polls.length := by
      rw [List.length_tail]
      omega
    unfold drainLoop
    split
    · rename_i hpoll
      refine ⟨_, rfl, Nat.le_refl _, h.ceiling, ?_, ?_⟩
      · intro data hdata
        cases hdata
      · rintro ⟨hpolls, -⟩ _
        cases polls with
        | nil => cases hpoll
        | cons poll polls =>
          cases hpoll
          exact absurd List.mem_cons_self hpolls
    · rename_i hpoll
      have hshorter : polls.tail.length < polls.length := by
        cases polls with
        | nil => cases hpoll
        | cons poll polls => exact Nat.lt_succ_self _
      have hfewer : polls.tail.length + Stream.size held.chunks < turns := by omega
      obtain ⟨drained, hdrained, houtcome⟩ := ih hfewer h
      exact ⟨drained, hdrained, houtcome.mono htimely (Nat.le_refl _) rfl⟩
    · cases hturn : readTurn ended held with
      | inl drained =>
        exact ⟨drained, rfl, (readTurn_done h hturn).mono And.right (Nat.le_refl _) rfl⟩
      | inr next =>
        obtain ⟨hfits, hgrows, hbytes, hsize⟩ := readTurn_next h hturn
        have hsmaller : polls.tail.length + Stream.size next.chunks < turns := by omega
        obtain ⟨drained, hdrained, houtcome⟩ := ih hsmaller hfits
        exact ⟨drained, hdrained, houtcome.mono htimely hgrows hbytes⟩

/-- Whatever the waits and the reads come to, a drain ends, with no buffer above the ceiling, and what it returns is
all that was in the pipe. -/
theorem drain_outcome (pipe : Pipe) :
    ∃ drained, drain pipe = some drained ∧ Outcome pipe.Timely ⟨pipe.chunks, firstCapacity, []⟩ drained :=
  drainLoop_outcome (Nat.lt_succ_self _)
    ⟨Nat.zero_lt_succ 4095, by simp only [maxTransfer, maxTextBytes, firstCapacity]; omega, Nat.zero_le _⟩

end Invariant

section Exactness

variable {pipe : Pipe}

/-- A drain returns all of a pipe that holds no more than a text, and fails for a pipe that holds more. -/
def DrainsExactly (pipe : Pipe) : Prop :=
  ∃ drained, drain pipe = some drained ∧
    (pipe.bytes.length ≤ maxTextBytes → drained.data = some pipe.bytes) ∧
    (maxTextBytes < pipe.bytes.length → drained.data = none) ∧ drained.capacity ≤ maxTextBytes

/-- A pipe that fills the largest buffer is refused, though a text of that length is not too long. -/
theorem not_drainsExactly_of_length (hlength : pipe.bytes.length = maxTextBytes) : ¬DrainsExactly pipe := by
  rintro ⟨drained, hdrained, hexact, -, -⟩
  obtain ⟨drained', hdrained', houtcome⟩ := drain_outcome pipe
  cases hdrained.symm.trans hdrained'
  have hshort := (houtcome.exact _ (hexact (Nat.le_of_eq hlength))).2
  rw [hlength] at hshort
  exact absurd hshort (Nat.lt_irrefl _)

/-- A pipe that ends in time is drained exactly unless it holds just as much as the largest text. -/
theorem drainsExactly_iff (htimely : pipe.Timely) : DrainsExactly pipe ↔ pipe.bytes.length ≠ maxTextBytes := by
  constructor
  · intro h hlength
    exact not_drainsExactly_of_length hlength h
  · intro hlength
    obtain ⟨drained, hdrained, houtcome⟩ := drain_outcome pipe
    refine ⟨drained, hdrained, ?_, ?_, houtcome.ceiling⟩
    · intro hshort
      have hroom : pipe.bytes.length < maxTransfer := Nat.lt_of_le_of_ne hshort hlength
      obtain ⟨data, hdata⟩ := Option.isSome_iff_exists.mp (houtcome.succeeds htimely hroom)
      rw [hdata, (houtcome.exact data hdata).1]
      rfl
    · intro hlong
      rw [Option.eq_none_iff_forall_ne_some]
      intro data hdata
      obtain ⟨rfl, hshort⟩ := houtcome.exact data hdata
      exact absurd hshort (Nat.not_lt.mpr (Nat.le_of_lt hlong))

/-- A pipe that comes in two pieces, with a wait and a read that are interrupted. -/
theorem drainsExactly_pieces :
    let pipe : Pipe := ⟨[.interrupted, .ready], [[1, 2], [], [3]], true⟩
    DrainsExactly pipe ↔ pipe.bytes.length ≠ maxTextBytes :=
  drainsExactly_iff ⟨by decide, rfl⟩

/-- The largest text in one piece. -/
def fullPipe : Pipe := ⟨[], [List.replicate maxTextBytes 0], true⟩

theorem fullPipe_not_drained : fullPipe.Timely ∧ fullPipe.bytes.length ≤ maxTextBytes ∧ ¬DrainsExactly fullPipe := by
  have hlength : fullPipe.bytes.length = maxTextBytes := by
    rw [Pipe.bytes, fullPipe, List.flatten_singleton, List.length_replicate]
  exact ⟨⟨List.not_mem_nil, rfl⟩, Nat.le_of_eq hlength, not_drainsExactly_of_length hlength⟩

end Exactness

end KeysharpDesktop.Drain
