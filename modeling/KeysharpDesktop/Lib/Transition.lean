import Mathlib.Data.List.Basic

/-! Labelled transition relations: finite runs, the restriction of a relation to
the steps that meet a side condition, and the invariant rule for runs. -/
namespace Transition

variable {σ ι ω : Type*}

/-- A finite run, with the labels of its steps in order. -/
inductive Run (step : σ → ι → σ → Prop) : σ → List ι → σ → Prop
  | nil (s : σ) : Run step s [] s
  | cons {s t u : σ} {l : ι} {ls : List ι} :
      step s l t → Run step t ls u → Run step s (l :: ls) u

/-- The steps whose label is admissible in the state it is taken from. -/
def Restrict (step : σ → ι → σ → Prop) (admissible : σ → ι → Prop) : σ → ι → σ → Prop :=
  fun s l t => step s l t ∧ admissible s l

/-- Every label of a list is admissible where the step function meets it. -/
def Admitted (f : σ → ι → σ) (admissible : σ → ι → Prop) : σ → List ι → Prop
  | _, [] => True
  | s, l :: ls => admissible s l ∧ Admitted f admissible (f s l) ls

instance Admitted.decidable (f : σ → ι → σ) (admissible : σ → ι → Prop)
    [∀ s l, Decidable (admissible s l)] : ∀ s ls, Decidable (Admitted f admissible s ls)
  | _, [] => isTrue trivial
  | s, l :: ls =>
    have := Admitted.decidable f admissible (f s l) ls
    inferInstanceAs (Decidable (_ ∧ _))

/-- What a step function emits along a list of labels. -/
def trace (f : σ → ι → σ) (out : σ → ι → List ω) : σ → List ι → List ω
  | _, [] => []
  | s, l :: ls => out s l ++ trace f out (f s l) ls

/-- What every step keeps of a state and of all that was emitted before it, a fold keeps. -/
theorem trace_invariant {f : σ → ι → σ} {out : σ → ι → List ω} {I : σ → List ω → Prop}
    (hstep : ∀ s w l, I s w → I (f s l) (w ++ out s l)) {s : σ} {w : List ω} (hs : I s w)
    (ls : List ι) : I (ls.foldl f s) (w ++ trace f out s ls) := by
  induction ls generalizing s w with
  | nil => simpa [trace] using hs
  | cons l ls ih =>
    have := ih (hstep s w l hs)
    rwa [List.append_assoc] at this

/-- An entry of a log was emitted by one of the labels, in the state the labels before it
lead to. -/
theorem mem_trace_singleton {f : σ → ι → σ} {out : σ → ι → ω} {s : σ} {ls : List ι} {e : ω}
    (h : e ∈ trace f (fun s l => [out s l]) s ls) :
    ∃ before l after, ls = before ++ l :: after ∧ e = out (before.foldl f s) l := by
  induction ls generalizing s with
  | nil => simp [trace] at h
  | cons l ls ih =>
    rcases List.mem_append.mp h with h | h
    · exact ⟨[], l, ls, rfl, List.mem_singleton.mp h⟩
    · obtain ⟨before, m, after, hls, he⟩ := ih h
      exact ⟨l :: before, m, after, by rw [hls, List.cons_append], he⟩

/-- Where a step from a state with a property keeps the property exactly when the step is admissible, every state of
a run has it exactly when every step is admissible. -/
theorem admitted_iff_take {f : σ → ι → σ} {admissible : σ → ι → Prop} {I P : σ → Prop} (hI : ∀ s l, I s → I (f s l))
    (hP : ∀ s l, I s → P s → (P (f s l) ↔ admissible s l)) {s : σ} (hs : I s) (hp : P s) (ls : List ι) :
    (∀ n, P ((ls.take n).foldl f s)) ↔ Admitted f admissible s ls := by
  induction ls generalizing s with
  | nil =>
    constructor
    · exact fun _ => trivial
    · intro _ n
      rw [List.take_nil]
      exact hp
  | cons l ls ih =>
    constructor
    · intro h
      have hnext : P (f s l) := h 1
      exact ⟨(hP s l hs hp).mp hnext, (ih (hI s l hs) hnext).mp fun n => h (n + 1)⟩
    · rintro ⟨hadm, hrest⟩ n
      have hnext := (hP s l hs hp).mpr hadm
      cases n with
      | zero => exact hp
      | succ n => exact (ih (hI s l hs) hnext).mpr hrest n

namespace Run

variable {step : σ → ι → σ → Prop} {s t u : σ} {ls ms : List ι}

/-- What every step preserves, every run preserves. -/
theorem invariant {I : σ → Prop} (hstep : ∀ s l t, I s → step s l t → I t)
    (hrun : Run step s ls t) (hs : I s) : I t := by
  induction hrun with
  | nil => exact hs
  | cons h _ ih => exact ih (hstep _ _ _ hs h)

/-- What holds of every step from a state of an invariant holds all along a run. -/
theorem strengthen {I : σ → Prop} {Q : σ → ι → σ → Prop} (hI : ∀ s l t, I s → step s l t → I t)
    (hQ : ∀ s l t, I s → step s l t → Q s l t) (hrun : Run step s ls t) (hs : I s) :
    Run (fun s l t => step s l t ∧ Q s l t) s ls t := by
  induction hrun with
  | nil s => exact .nil s
  | cons h _ ih => exact .cons ⟨h, hQ _ _ _ hs h⟩ (ih (hI _ _ _ hs h))

theorem append (hs : Run step s ls t) (ht : Run step t ms u) : Run step s (ls ++ ms) u := by
  induction hs with
  | nil => exact ht
  | cons h _ ih => exact .cons h (ih ht)

theorem single {l : ι} (h : step s l t) : Run step s [l] t :=
  .cons h (.nil t)

/-- A quantity that no step lowers is not lowered by a run. -/
theorem monotone {m : σ → ℕ} (hstep : ∀ s l t, step s l t → m s ≤ m t)
    (hrun : Run step s ls t) : m s ≤ m t := by
  induction hrun with
  | nil => exact Nat.le_refl _
  | cons h _ ih => exact Nat.le_trans (hstep _ _ _ h) ih

/-- Folding a step function is a run of its graph. -/
theorem foldl (f : σ → ι → σ) (s : σ) (ls : List ι) :
    Run (fun s l t => f s l = t) s ls (ls.foldl f s) := by
  induction ls generalizing s with
  | nil => exact .nil s
  | cons l ls ih => exact .cons rfl (ih (f s l))

theorem of_admitted {f : σ → ι → σ} {admissible : σ → ι → Prop} (h : Admitted f admissible s ls) :
    Run (Restrict (fun s l t => f s l = t) admissible) s ls (ls.foldl f s) := by
  induction ls generalizing s with
  | nil => exact .nil s
  | cons l ls ih => exact .cons ⟨rfl, h.1⟩ (ih h.2)

/-- Where a property survives a step exactly when the step is admissible, it holds at the
end of a run exactly when it held at the start and every step was admissible. -/
theorem holds_iff_restrict {I P : σ → Prop} {admissible : σ → ι → Prop}
    (hdet : ∀ s l t u, step s l t → step s l u → t = u)
    (hI : ∀ s l t, I s → step s l t → I t)
    (hP : ∀ s l t, I s → step s l t → (P t ↔ P s ∧ admissible s l))
    (hrun : Run step s ls t) (hs : I s) :
    P t ↔ P s ∧ Run (Restrict step admissible) s ls t := by
  induction hrun with
  | nil s => exact ⟨fun h => ⟨h, .nil s⟩, fun h => h.1⟩
  | cons h _ ih =>
    rw [ih (hI _ _ _ hs h), hP _ _ _ hs h]
    constructor
    · rintro ⟨⟨hp, ha⟩, hr⟩
      exact ⟨hp, .cons ⟨h, ha⟩ hr⟩
    · rintro ⟨hp, hr⟩
      cases hr with
      | cons h' hr =>
        rw [hdet _ _ _ _ h h'.1]
        exact ⟨⟨hp, h'.2⟩, hr⟩

/-- Where a step does what it should exactly when it is admissible, a run does so throughout
exactly when all of its steps are admissible. -/
theorem and_iff_restrict {I : σ → Prop} {Q : σ → ι → σ → Prop} {admissible : σ → ι → Prop}
    (hQ : ∀ s l t, I s → step s l t → (Q s l t ↔ admissible s l))
    (hI : ∀ s l t, I s → step s l t → admissible s l → I t) (hs : I s) :
    Run (fun s l t => step s l t ∧ Q s l t) s ls t ↔ Run (Restrict step admissible) s ls t := by
  induction ls generalizing s with
  | nil =>
    constructor
    · intro h
      cases h
      exact .nil _
    · intro h
      cases h
      exact .nil _
  | cons l ls ih =>
    constructor
    · intro h
      cases h with
      | cons hstep hrest =>
        have hadm := (hQ _ _ _ hs hstep.1).mp hstep.2
        exact .cons ⟨hstep.1, hadm⟩ ((ih (hI _ _ _ hs hstep.1 hadm)).mp hrest)
    · intro h
      cases h with
      | cons hstep hrest =>
        exact .cons ⟨hstep.1, (hQ _ _ _ hs hstep.1).mpr hstep.2⟩
          ((ih (hI _ _ _ hs hstep.1 hstep.2)).mpr hrest)

end Run

end Transition
