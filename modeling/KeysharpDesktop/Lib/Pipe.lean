import Mathlib.Data.List.Nodup
import Mathlib.Logic.Function.Basic

/-! A pipe that writers share, one at a time. Each puts a message of its own in, a piece at a time, and the reader
takes whole messages off the front. -/
namespace Pipe

variable {ι α : Type*}

/-- What the pipe holds of some messages, given how much of each was put in. -/
def content (text : ι → List α) (written : ι → ℕ) (order : List ι) : List α :=
  order.flatMap fun i => (text i).take (written i)

/-- The messages in the order in which they were begun; the reader has the first `taken`. Only the last of all can
be in pieces, and nothing was put in of one that was not begun. -/
structure Ledger (text : ι → List α) (written : ι → ℕ) (order : List ι) (taken : ℕ) : Prop where
  nodup : order.Nodup
  within : ∀ i ∈ order, written i ≤ (text i).length
  whole : ∀ i ∈ order.dropLast, written i = (text i).length
  read : ∀ i ∈ order.take taken, written i = (text i).length
  unbegun : ∀ i, i ∉ order → written i = 0
  count : taken ≤ order.length

variable {text text' : ι → List α} {written written' : ι → ℕ} {order rest : List ι} {taken : ℕ} {i : ι}

theorem content_congr (h : ∀ i ∈ order, (text' i).take (written' i) = (text i).take (written i)) :
    content text' written' order = content text written order := by
  unfold content
  rw [List.flatMap_congr h]

theorem content_cons : content text written (i :: order) =
    (text i).take (written i) ++ content text written order := List.flatMap_cons

theorem content_concat : content text written (order ++ [i]) =
    content text written order ++ (text i).take (written i) := by
  rw [content, content, List.flatMap_append, List.flatMap_singleton]

/-- Only the messages that were begun matter. -/
theorem Ledger.congr (h : Ledger text written order taken) (htext : ∀ i ∈ order, text' i = text i) :
    Ledger text' written order taken := by
  refine ⟨h.nodup, ?_, ?_, ?_, h.unbegun, h.count⟩
  · intro i hi
    rw [htext i hi]
    exact h.within i hi
  · intro i hi
    rw [htext i (List.dropLast_subset order hi)]
    exact h.whole i hi
  · intro i hi
    rw [htext i (List.mem_of_mem_take hi)]
    exact h.read i hi

theorem ledger_empty (text : ι → List α) : Ledger text (fun _ => 0) [] 0 :=
  ⟨List.nodup_nil, nofun, nofun, nofun, fun _ _ => rfl, Nat.le_refl 0⟩

/-- All messages but the last are whole, so all are once the last one is. -/
theorem Ledger.whole_of_last (h : Ledger text written order taken)
    (hlast : ∀ i, order.getLast? = some i → written i = (text i).length) :
    ∀ i ∈ order, written i = (text i).length := by
  intro i hi
  obtain ⟨front, last, rfl⟩ : ∃ front last, order = front ++ [last] := by
    refine ⟨order.dropLast, order.getLast (List.ne_nil_of_mem hi), ?_⟩
    exact (List.dropLast_append_getLast _).symm
  rcases List.mem_append.mp hi with hfront | hself
  · apply h.whole
    rwa [List.dropLast_concat]
  · rw [List.mem_singleton.mp hself]
    exact hlast last List.getLast?_concat

/-- A message is begun behind whole ones. -/
theorem Ledger.begin (h : Ledger text written order taken) (hnew : i ∉ order)
    (hwhole : ∀ i ∈ order, written i = (text i).length) : Ledger text written (order ++ [i]) taken := by
  refine ⟨?_, ?_, ?_, ?_, ?_, ?_⟩
  · rw [List.nodup_append]
    refine ⟨h.nodup, List.nodup_singleton i, ?_⟩
    rintro a ha b hb rfl
    rw [List.mem_singleton.mp hb] at ha
    exact hnew ha
  · intro j hj
    rcases List.mem_append.mp hj with hj | hj
    · exact h.within j hj
    · rw [List.mem_singleton.mp hj, h.unbegun i hnew]
      exact Nat.zero_le _
  · intro j hj
    rw [List.dropLast_concat] at hj
    exact hwhole j hj
  · intro j hj
    rw [List.take_append_of_le_length h.count] at hj
    exact h.read j hj
  · intro j hj
    exact h.unbegun j fun hmem => hj (List.mem_append_left _ hmem)
  · rw [List.length_append]
    exact Nat.le_add_right_of_le h.count

/-- A message that has just been begun adds nothing. -/
theorem Ledger.content_begin (h : Ledger text written order taken) (hnew : i ∉ order) :
    content text written ((order ++ [i]).drop taken) = content text written (order.drop taken) := by
  rw [List.drop_append_of_le_length h.count, content_concat, h.unbegun i hnew, List.take_zero, List.append_nil]

/-- More of the last message is put in. -/
theorem Ledger.write [DecidableEq ι] (h : Ledger text written order taken) (hlast : order.getLast? = some i) {n : ℕ}
    (hmore : written i ≤ n) (hfits : n ≤ (text i).length) :
    Ledger text (Function.update written i n) order taken ∧
      content text (Function.update written i n) (order.drop taken) =
        content text written (order.drop taken) ++ ((text i).take n).drop (written i) := by
  obtain ⟨front, rfl⟩ : ∃ front, order = front ++ [i] := by
    obtain ⟨hne, hget⟩ := List.getLast?_eq_some_iff.mp hlast
    exact ⟨hne, hget⟩
  have hout : i ∉ front := by
    intro hmem
    have hnodup := h.nodup
    rw [List.nodup_append] at hnodup
    exact hnodup.2.2 i hmem i (List.mem_singleton_self i) rfl
  have hfront : ∀ j ∈ front, Function.update written i n j = written j := by
    intro j hj
    exact Function.update_of_ne (by rintro rfl; exact hout hj) _ _
  refine ⟨⟨h.nodup, ?_, ?_, ?_, ?_, h.count⟩, ?_⟩
  · intro j hj
    rcases List.mem_append.mp hj with hj | hj
    · rw [hfront j hj]
      exact h.within j (List.mem_append_left _ hj)
    · rw [List.mem_singleton.mp hj, Function.update_self]
      exact hfits
  · intro j hj
    rw [List.dropLast_concat] at hj
    rw [hfront j hj]
    exact h.whole j (by rwa [List.dropLast_concat])
  · intro j hj
    have hread := h.read j hj
    by_cases hji : j = i
    · rw [hji, Function.update_self]
      rw [hji] at hread
      omega
    · rw [Function.update_of_ne hji]
      exact hread
  · intro j hj
    have hji : j ≠ i := by
      rintro rfl
      exact hj (List.mem_append_right _ (List.mem_singleton_self j))
    rw [Function.update_of_ne hji]
    exact h.unbegun j hj
  · rcases Nat.lt_or_ge taken (front ++ [i]).length with hlt | hge
    swap
    · -- The reader has everything, so there was nothing to add.
      have hread := h.read i (by rw [List.take_of_length_le hge]; exact List.mem_append_right _ (List.mem_singleton_self i))
      have hsame : n = written i := by omega
      rw [List.drop_eq_nil_of_le hge, hsame, List.drop_eq_nil_of_le (List.length_take_le _ _)]
      rfl
    have hle : taken ≤ front.length := by
      rw [List.length_append, List.length_singleton] at hlt
      omega
    have hkept : content text (Function.update written i n) (front.drop taken) =
        content text written (front.drop taken) := by
      refine content_congr fun j hj => ?_
      rw [hfront j (List.mem_of_mem_drop hj)]
    rw [List.drop_append_of_le_length hle, content_concat, content_concat, hkept, Function.update_self,
      List.append_assoc, List.append_cancel_left_eq]
    have htake : ((text i).take n).take (written i) = (text i).take (written i) := by
      rw [List.take_take, Nat.min_eq_left hmore]
    rw [← htake, List.take_append_drop]

/-- The reader meets a whole message, or the pieces of the last one. -/
theorem Ledger.front (h : Ledger text written order taken) (hnext : order.drop taken = i :: rest) :
    written i = (text i).length ∧
        content text written (order.drop taken) = text i ++ content text written rest ∧
        Ledger text written order (taken + 1) ∧ order.drop (taken + 1) = rest ∨
      written i < (text i).length ∧ order.getLast? = some i ∧
        content text written (order.drop taken) = (text i).take (written i) := by
  have hmem : i ∈ order := List.mem_of_mem_drop (hnext ▸ List.mem_cons_self)
  have hsplit : order = order.take taken ++ i :: rest := by rw [← hnext, List.take_append_drop]
  have hlt : taken < order.length := by
    have hlength := congrArg List.length hnext
    rw [List.length_drop, List.length_cons] at hlength
    omega
  rcases Nat.eq_or_lt_of_le (h.within i hmem) with hwhole | hpart
  · left
    have hrest : order.drop (taken + 1) = rest := by
      rw [← List.drop_drop, hnext, List.drop_one, List.tail_cons]
    refine ⟨hwhole, ?_, ⟨h.nodup, h.within, h.whole, ?_, h.unbegun, hlt⟩, hrest⟩
    · rw [hnext, content_cons, hwhole, List.take_length]
    · intro j hj
      have htake : order.take (taken + 1) = order.take taken ++ [i] := by
        have hget : order[taken]? = some i := by
          rw [← List.head?_drop, hnext, List.head?_cons]
        rw [List.take_add_one, hget, Option.toList_some]
      rw [htake] at hj
      rcases List.mem_append.mp hj with hj | hj
      · exact h.read j hj
      · rw [List.mem_singleton.mp hj]
        exact hwhole
  · right
    have hlast : rest = [] := by
      by_contra hne
      have hfront : i ∈ order.dropLast := by
        rw [hsplit, List.dropLast_append_of_ne_nil (List.cons_ne_nil i rest), List.dropLast_cons_of_ne_nil hne]
        exact List.mem_append_right _ List.mem_cons_self
      exact absurd (h.whole i hfront) (Nat.ne_of_lt hpart)
    subst hlast
    refine ⟨hpart, ?_, ?_⟩
    · rw [hsplit, List.getLast?_concat]
    · rw [hnext, content_cons, content, List.flatMap_nil, List.append_nil]

end Pipe
