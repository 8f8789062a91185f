import KeysharpDesktop.Authority.Lease

/-! The permission store of one user, as far as the authority relies on it: every change takes it
to a later generation, a check answers with the generation it read, and a grant can be made
conditional on a generation. -/
namespace KeysharpDesktop

/-- What the store answers for a program and the scopes it asks for. -/
abbrev Grants := List UInt8 → Scopes → Scopes

/-- The store, with what it has answered at each of its generations so far. -/
structure Store where
  generation : ℕ
  history : ℕ → Grants

inductive GrantReply
  | added | changed | failed
  deriving DecidableEq, Repr

namespace Store

def grants (store : Store) : Grants := store.history store.generation

/-- A grant or a revocation by anyone; `skip` is how far it jumps over the next generation. -/
def change (store : Store) (skip : ℕ) (grants : Grants) : Store :=
  ⟨store.generation + 1 + skip, Function.update store.history (store.generation + 1 + skip) grants⟩

/-- `ksp_store_generation`; a call that fails leaves its own value in the output. -/
def generationReply (store : Store) : Option ℕ → GenerationReply
  | none => ⟨true, store.generation⟩
  | some output => ⟨false, output⟩

/-- `ksp_store_check_at_generation`, which reads the mask and the generation together. -/
def checkReply (store : Store) (hash : List UInt8) (requested : Scopes) : Option (Scopes × ℕ) → CheckReply
  | none => ⟨true, store.grants hash requested, store.generation⟩
  | some (granted, generation) => ⟨false, granted, generation⟩

/-- `ksp_store_grant_if_generation`, which compares and grants in one go. -/
def grantIfGeneration (store : Store) (hash : List UInt8) (scopes : Scopes) (generation : ℕ) (works : Bool)
    (skip : ℕ) : GrantReply × Store :=
  if !works then (.failed, store)
  else if store.generation = generation then
    (.added, store.change skip fun h requested =>
      if h = hash then store.grants h requested ||| (scopes &&& requested) else store.grants h requested)
  else (.changed, store)

/-- A mask that the store has answered for, or none at all. -/
structure Backs (store : Store) (hash : List UInt8) (requested granted : Scopes) (generation : ℕ) : Prop where
  unasked : requested = 0 → granted = 0
  answered : granted ≠ 0 →
    generation ≤ store.generation ∧ granted &&& store.history generation hash requested = granted

variable {store : Store} {hash : List UInt8} {requested granted : Scopes} {generation : ℕ}

theorem backs_zero (store : Store) (hash : List UInt8) (requested : Scopes) (generation : ℕ) :
    store.Backs hash requested 0 generation :=
  ⟨fun _ => rfl, fun h => absurd rfl h⟩

@[simp] theorem generation_change (store : Store) (skip : ℕ) (grants : Grants) :
    (store.change skip grants).generation = store.generation + 1 + skip := rfl

theorem history_change (store : Store) (skip : ℕ) (grants : Grants) {generation : ℕ}
    (h : generation ≤ store.generation) : (store.change skip grants).history generation = store.history generation := by
  have hne : generation ≠ store.generation + 1 + skip := by omega
  exact Function.update_of_ne hne _ _

/-- What was answered once stays on record. -/
theorem Backs.change (h : store.Backs hash requested granted generation) (skip : ℕ) (grants : Grants) :
    (store.change skip grants).Backs hash requested granted generation := by
  refine ⟨h.unasked, ?_⟩
  intro hgranted
  obtain ⟨hle, hanswer⟩ := h.answered hgranted
  rw [history_change _ _ _ hle]
  exact ⟨by rw [generation_change]; omega, hanswer⟩

/-- The grant is added exactly where the generation is still the expected one. -/
theorem grantIfGeneration_cases (store : Store) (hash : List UInt8) (scopes : Scopes) (generation : ℕ)
    (works : Bool) (skip : ℕ) :
    (store.generation = generation ∧ ∃ grants,
      store.grantIfGeneration hash scopes generation works skip = (.added, store.change skip grants)) ∨
    ((store.grantIfGeneration hash scopes generation works skip).1 ≠ .added ∧
      (store.grantIfGeneration hash scopes generation works skip).2 = store) := by
  unfold grantIfGeneration
  split_ifs with hworks hgeneration
  · exact .inr ⟨by simp, rfl⟩
  · exact .inl ⟨hgeneration, _, rfl⟩
  · exact .inr ⟨by simp, rfl⟩

theorem Backs.grant (h : store.Backs hash requested granted generation) (program : List UInt8) (scopes : Scopes)
    (expected : ℕ) (works : Bool) (skip : ℕ) :
    (store.grantIfGeneration program scopes expected works skip).2.Backs hash requested granted generation := by
  rcases store.grantIfGeneration_cases program scopes expected works skip with ⟨-, grants, hgrant⟩ | ⟨-, hsame⟩
  · rw [hgrant]
    exact h.change skip grants
  · rwa [hsame]

/-- A check that succeeds is answered for. -/
theorem backs_checkReply (hrequested : requested ≠ 0) {failure : Option (Scopes × ℕ)}
    (hok : (store.checkReply hash requested failure).ok) :
    store.Backs hash requested (store.checkReply hash requested failure).granted
      (store.checkReply hash requested failure).generation := by
  cases failure with
  | some output => cases hok
  | none =>
    refine ⟨fun h => absurd h hrequested, fun _ => ⟨Nat.le_refl _, ?_⟩⟩
    exact BitVec.and_self

end Store

end KeysharpDesktop
