import Mathlib.Data.List.Basic

/-! Reference-counted objects. Each is made with one reference, which is its owner's to retire; other references are
acquired and released. Where the counts are the references there are, nobody touches an object that was freed. -/
namespace Refcount

/-- `broken` tells users to stop; `retires` counts how often the owner's reference was retired. -/
structure Object where
  refs : ℕ
  broken : Bool
  freed : Bool
  retires : ℕ
  deriving DecidableEq

/-- Every object ever made, in the order of creation, and whether a freed one was ever touched. -/
structure Heap where
  objects : List Object
  fault : Bool
  deriving DecidableEq

namespace Heap

def create (heap : Heap) : Heap := { heap with objects := heap.objects ++ [⟨1, false, false, 0⟩] }

/-- The name of the next object. -/
def next (heap : Heap) : ℕ := heap.objects.length

def touch (heap : Heap) (r : ℕ) (f : Object → Object) : Heap :=
  match heap.objects[r]? with
  | none => { heap with fault := true }
  | some o => if o.freed then { heap with fault := true } else { heap with objects := heap.objects.set r (f o) }

def acquire (heap : Heap) (r : ℕ) : Heap := heap.touch r fun o => { o with refs := o.refs + 1 }

/-- The last reference frees the object. -/
def release (heap : Heap) (r : ℕ) : Heap :=
  heap.touch r fun o => { o with refs := o.refs - 1, freed := o.refs - 1 = 0 }

def use (heap : Heap) (r : ℕ) (breaks : Bool) : Heap := heap.touch r fun o => { o with broken := o.broken || breaks }

/-- The first half of retiring: users are told to stop. The second is a release. -/
def markRetired (heap : Heap) (r : ℕ) : Heap :=
  heap.touch r fun o => { o with broken := true, retires := o.retires + 1 }

end Heap

variable {heap : Heap} {refs refs' owners owners' : ℕ → ℕ} {r : ℕ}

/-- What an object keeps to, with the references there are to it and the owners it has. -/
structure Object.Sound (o : Object) (refs owners : ℕ) : Prop where
  counted : o.refs = refs
  freed : o.freed = true ↔ refs = 0
  owned : owners + o.retires = 1

structure Heap.Counts (heap : Heap) (refs owners : ℕ → ℕ) : Prop where
  safe : heap.fault = false
  sound : ∀ (r : ℕ) (o : Object), heap.objects[r]? = some o → o.Sound (refs r) (owners r)
  named : ∀ r, heap.next ≤ r → refs r = 0 ∧ owners r = 0

namespace Heap.Counts

theorem congr (h : heap.Counts refs owners) (hrefs : ∀ x, refs' x = refs x) (howners : ∀ x, owners' x = owners x) :
    heap.Counts refs' owners' := by
  rw [funext hrefs, funext howners]
  exact h

theorem create (h : heap.Counts refs owners) (hrefs : ∀ x, refs' x = refs x + if x = heap.next then 1 else 0)
    (howners : ∀ x, owners' x = owners x + if x = heap.next then 1 else 0) : heap.create.Counts refs' owners' := by
  refine ⟨h.safe, ?_, ?_⟩
  · intro r o ho
    rw [hrefs, howners]
    rcases Nat.lt_trichotomy r heap.next with hlt | rfl | hlt
    · have hne : r ≠ heap.next := by omega
      rw [Heap.create, List.getElem?_append_left hlt] at ho
      rw [if_neg hne, Nat.add_zero, Nat.add_zero]
      exact h.sound r o ho
    · obtain ⟨hnone, hnowner⟩ := h.named heap.next (Nat.le_refl _)
      have hnew : heap.create.objects[heap.next]? = some ⟨1, false, false, 0⟩ := by
        simp [Heap.create, Heap.next]
      rw [hnew, Option.some.injEq] at ho
      rw [← ho, hnone, hnowner, if_pos rfl]
      exact ⟨rfl, by simp, rfl⟩
    · rw [Heap.create, List.getElem?_eq_none (by simp [Heap.next] at hlt ⊢; omega)] at ho
      cases ho
  · intro r hr
    have hlength : heap.create.next = heap.next + 1 := by simp [Heap.create, Heap.next]
    obtain ⟨hnone, hnowner⟩ := h.named r (by omega)
    have hne : r ≠ heap.next := by omega
    rw [hrefs, howners, hnone, hnowner, if_neg hne]
    exact ⟨rfl, rfl⟩

/-- An object that someone has a reference to may be changed by what keeps it sound. -/
theorem touch (h : heap.Counts refs owners) {f : Object → Object} (hpos : 0 < refs r)
    (hrefs : ∀ x, x ≠ r → refs' x = refs x) (howners : ∀ x, x ≠ r → owners' x = owners x)
    (hf : ∀ o : Object, o.Sound (refs r) (owners r) → (f o).Sound (refs' r) (owners' r)) :
    (heap.touch r f).Counts refs' owners' := by
  have hlt : r < heap.objects.length := by
    by_contra hge
    have := (h.named r (Nat.le_of_not_lt hge)).1
    omega
  have hfound := List.getElem?_eq_getElem hlt
  have hsound := h.sound r _ hfound
  have hlive : heap.objects[r].freed = false := by
    rw [Bool.eq_false_iff]
    intro hfreed
    have := hsound.freed.mp hfreed
    omega
  unfold Heap.touch
  rw [hfound]
  simp only [hlive, Bool.false_eq_true, if_false]
  refine ⟨h.safe, ?_, ?_⟩
  · intro x o ho
    by_cases hx : x = r
    · subst hx
      rw [List.getElem?_set_self hlt] at ho
      cases ho
      exact hf _ hsound
    · rw [List.getElem?_set_ne (Ne.symm hx)] at ho
      rw [hrefs x hx, howners x hx]
      exact h.sound x o ho
  · intro x hx
    have hx : heap.next ≤ x := by simpa [Heap.next] using hx
    have hne : x ≠ r := by
      simp only [Heap.next] at hx
      omega
    rw [hrefs x hne, howners x hne]
    exact h.named x hx

theorem acquire (h : heap.Counts refs owners) (hpos : 0 < refs r)
    (hrefs : ∀ x, refs' x = refs x + if x = r then 1 else 0) (howners : ∀ x, owners' x = owners x) :
    (heap.acquire r).Counts refs' owners' := by
  have hat := hrefs r
  rw [if_pos rfl] at hat
  refine h.touch hpos ?_ (fun x _ => howners x) ?_
  · intro x hx
    rw [hrefs, if_neg hx, Nat.add_zero]
  · intro o ho
    rw [howners]
    refine ⟨?_, ?_, ho.owned⟩
    · rw [hat, ho.counted]
    · have := ho.freed
      simp only [this]
      omega

theorem release (h : heap.Counts refs owners) (hrefs : ∀ x, refs' x + (if x = r then 1 else 0) = refs x)
    (howners : ∀ x, owners' x = owners x) : (heap.release r).Counts refs' owners' := by
  have hat := hrefs r
  rw [if_pos rfl] at hat
  refine h.touch (by omega) ?_ (fun x _ => howners x) ?_
  · intro x hx
    rw [← hrefs x, if_neg hx, Nat.add_zero]
  · intro o ho
    have hrefs : o.refs - 1 = refs' r := by
      have := ho.counted
      omega
    rw [howners]
    refine ⟨hrefs, ?_, ho.owned⟩
    rw [decide_eq_true_iff, hrefs]

theorem use (h : heap.Counts refs owners) (hpos : 0 < refs r) (breaks : Bool) :
    (heap.use r breaks).Counts refs owners :=
  h.touch hpos (fun _ _ => rfl) (fun _ _ => rfl) fun _ ho => ⟨ho.counted, ho.freed, ho.owned⟩

theorem markRetired (h : heap.Counts refs owners) (hpos : 0 < refs r) (hrefs : ∀ x, refs' x = refs x)
    (howners : ∀ x, owners' x + (if x = r then 1 else 0) = owners x) : (heap.markRetired r).Counts refs' owners' := by
  have hat := howners r
  rw [if_pos rfl] at hat
  refine h.touch hpos (fun x _ => hrefs x) ?_ ?_
  · intro x hx
    rw [← howners x, if_neg hx, Nat.add_zero]
  · intro o ho
    rw [hrefs]
    refine ⟨ho.counted, ho.freed, ?_⟩
    have := ho.owned
    simp only
    omega

end Heap.Counts

end Refcount
