import Mathlib.Data.Option.Basic
import Mathlib.Logic.Function.Basic
import KeysharpDesktop.Lib.Keyed

/-! The difference of two tables with keys: what is new, what has changed and what is gone, and that a replay of it
turns the one table into the other. -/
namespace Diff

open Keyed

inductive Kind
  | create | change | close
  deriving DecidableEq, Repr

section Definitions

variable {α κ : Type*} [DecidableEq κ] (key : α → κ) (same : α → α → Bool)

/-- What there is to say of a key, by what the two tables have at it. -/
def between : Option α → Option α → Option Kind
  | none, none => none
  | none, some _ => some .create
  | some _, none => some .close
  | some was, some now => if same was now then none else some .change

/-- What there is to say of the next table's records, and then of the previous one's that are gone. -/
def diff (previous next : List α) : List (Kind × κ) :=
  (next.filterMap fun now => (between same (find key (key now) previous) (some now)).map fun kind => (kind, key now)) ++
    previous.filterMap fun was => if (find key (key was) next).isNone then some (.close, key was) else none

/-- A replay sets each key to what the next table has at it. -/
def replay (next : κ → Option α) (table : κ → Option α) (keys : List κ) : κ → Option α :=
  keys.foldl (fun table k => Function.update table k (next k)) table

end Definitions

section Members

variable {α κ : Type*} [DecidableEq κ] {key : α → κ} {same : α → α → Bool} {previous next : List α} {kind : Kind} {k : κ}

theorem mem_diff (hprevious : Distinct key previous) (hnext : Distinct key next) :
    (kind, k) ∈ diff key same previous next ↔ between same (find key k previous) (find key k next) = some kind := by
  simp only [diff, List.mem_append, List.mem_filterMap, Option.map_eq_some_iff, Prod.mk.injEq,
    Option.ite_none_right_eq_some, Option.some.injEq, Option.isNone_iff_eq_none]
  constructor
  · rintro (⟨now, hnow, kind, hkind, rfl, rfl⟩ | ⟨was, hwas, hgone, rfl, rfl⟩)
    · rw [find_of_mem hnext hnow]
      exact hkind
    · rw [find_of_mem hprevious hwas, hgone]
      rfl
  · intro h
    cases hnow : find key k next with
    | some now =>
      obtain ⟨hmem, rfl⟩ := (find_eq_some hnext).mp hnow
      rw [hnow] at h
      exact Or.inl ⟨now, hmem, kind, h, rfl, rfl⟩
    | none =>
      cases hwas : find key k previous with
      | some was =>
        obtain ⟨hmem, rfl⟩ := (find_eq_some hprevious).mp hwas
        rw [hnow, hwas] at h
        exact Or.inr ⟨was, hmem, hnow, Option.some.inj h, rfl⟩
      | none =>
        rw [hnow, hwas] at h
        cases h

/-- A key is said to be gone exactly when the next table has nothing at it. -/
theorem close_iff {was now : Option α} (h : between same was now = some kind) : kind = .close ↔ now = none := by
  cases was with
  | none =>
    cases now with
    | none => cases h
    | some now =>
      cases h
      exact iff_of_false (by simp) (Option.some_ne_none now)
  | some was =>
    cases now with
    | none =>
      cases h
      exact iff_of_true rfl rfl
    | some now =>
      rw [between, Option.ite_none_left_eq_some, Option.some.injEq] at h
      rw [← h.2]
      exact iff_of_false (by simp) (Option.some_ne_none now)

omit [DecidableEq κ] in
theorem map_filterMap_sublist {f : α → Option (Kind × κ)} (h : ∀ x p, f x = some p → p.2 = key x) (l : List α) :
    ((l.filterMap f).map Prod.snd).Sublist (l.map key) := by
  induction l with
  | nil => exact List.Sublist.slnil
  | cons x l ih =>
    cases hx : f x with
    | none =>
      rw [List.filterMap_cons_none hx]
      exact ih.cons (key x)
    | some p =>
      rw [List.filterMap_cons_some hx, List.map_cons, List.map_cons, h x p hx]
      exact ih.cons_cons (key x)

/-- No key is spoken of twice. -/
theorem diff_keys_nodup (hprevious : Distinct key previous) (hnext : Distinct key next) :
    ((diff key same previous next).map Prod.snd).Nodup := by
  rw [diff, List.map_append, List.nodup_append]
  refine ⟨?_, ?_, ?_⟩
  · apply hnext.sublist (map_filterMap_sublist ?_ next)
    intro now p hp
    obtain ⟨kind, -, rfl⟩ := Option.map_eq_some_iff.mp hp
    rfl
  · apply hprevious.sublist (map_filterMap_sublist ?_ previous)
    intro was p hp
    rw [Option.ite_none_right_eq_some, Option.some.injEq] at hp
    rw [← hp.2]
  · -- A key of the first part is in the next table, and one of the second part is not.
    intro k hk l hl heq
    subst heq
    simp only [List.mem_map, List.mem_filterMap, Option.map_eq_some_iff, Option.ite_none_right_eq_some,
      Option.isNone_iff_eq_none, Option.some.injEq] at hk hl
    obtain ⟨-, ⟨now, hnow, kind, -, rfl⟩, rfl⟩ := hk
    obtain ⟨-, ⟨was, -, hgone, rfl⟩, heq⟩ := hl
    dsimp only at heq
    rw [heq, find_of_mem hnext hnow] at hgone
    cases hgone

theorem between_eq_none_iff {was now : Option α} :
    between same was now = none ↔ Option.Rel (fun a b => same a b = true) was now := by
  constructor
  · intro h
    cases was with
    | none =>
      cases now with
      | none => exact Option.Rel.none
      | some now => cases h
    | some was =>
      cases now with
      | none => cases h
      | some now =>
        apply Option.Rel.some
        simpa [between] using h
  · intro h
    cases h with
    | none => rfl
    | some h => exact if_pos h

/-- Nothing is said exactly of tables that have the same at every key. -/
theorem diff_eq_nil_iff (hprevious : Distinct key previous) (hnext : Distinct key next) :
    diff key same previous next = [] ↔
      ∀ k, Option.Rel (fun was now => same was now = true) (find key k previous) (find key k next) := by
  simp only [List.eq_nil_iff_forall_not_mem, Prod.forall, mem_diff hprevious hnext, ← between_eq_none_iff,
    Option.eq_none_iff_forall_ne_some]
  exact forall_comm

end Members

section Replay

variable {α κ : Type*} [DecidableEq κ] {key : α → κ} {same : α → α → Bool} {previous next : List α}

theorem replay_apply (value table : κ → Option α) (keys : List κ) (k : κ) :
    replay value table keys k = if k ∈ keys then value k else table k := by
  unfold replay
  induction keys generalizing table with
  | nil => rfl
  | cons l keys ih =>
    rw [List.foldl_cons, ih]
    by_cases hmem : k ∈ keys
    · rw [if_pos hmem, if_pos (List.mem_cons_of_mem l hmem)]
    · rw [if_neg hmem]
      by_cases hkl : k = l
      · subst hkl
        rw [Function.update_self, if_pos List.mem_cons_self]
      · rw [Function.update_of_ne hkl, if_neg]
        rw [List.mem_cons, not_or]
        exact ⟨hkl, hmem⟩

/-- Where records that count as the same are equal, a replay of the difference gives the next table. -/
theorem replay_diff (hprevious : Distinct key previous) (hnext : Distinct key next)
    (hsame : ∀ was now, same was now = true → was = now) :
    replay (find key · next) (find key · previous) ((diff key same previous next).map Prod.snd) =
      (find key · next) := by
  funext k
  rw [replay_apply]
  split_ifs with hmem
  · rfl
  · have hsilent : between same (find key k previous) (find key k next) = none := by
      rw [Option.eq_none_iff_forall_ne_some]
      intro kind hkind
      exact hmem (List.mem_map.mpr ⟨(kind, k), (mem_diff hprevious hnext).mpr hkind, rfl⟩)
    rw [between_eq_none_iff] at hsilent
    generalize find key k previous = was at hsilent ⊢
    generalize find key k next = now at hsilent ⊢
    cases hsilent with
    | none => rfl
    | some h => rw [hsame _ _ h]

end Replay

end Diff
