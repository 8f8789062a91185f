import KeysharpDesktop.Kwin.Sizes
import KeysharpDesktop.Lib.Allocation

/-! The handles that the script gives to windows: each window has one, and no two windows share one. -/
namespace KeysharpDesktop.KwinScript

open JsText (Text)

section Numbers

theorem number_injective {m n : ℕ} (h : number (m : ℤ) = number (n : ℤ)) : m = n := by
  rw [number_natCast, number_natCast] at h
  have hparsed := congrArg (JsText.parseInt · 10) h
  simp only [parseInt_decimalText, Option.some.injEq] at hparsed
  exact_mod_cast hparsed

theorem hashStart_range (nativeId : Text) : 1 ≤ hashStart nativeId ∧ hashStart nativeId < 2 ^ 32 := by
  have hfold : ∀ (text : Text) (start : ℕ), start < 2 ^ 32 →
      text.foldl (fun hash c => (hash * 33 % 2 ^ 32) ^^^ c.toNat) start < 2 ^ 32 := by
    intro text
    induction text with
    | nil => exact fun _ hstart => hstart
    | cons c text ih =>
      intro start _
      apply ih
      have hc : c.toNat < 2 ^ 32 := lt_trans c.toNat_lt (by norm_num)
      exact Nat.xor_lt_two_pow (Nat.mod_lt _ (by norm_num)) hc
  have hlt := hfold nativeId 5381 (by norm_num)
  simp only [hashStart]
  split_ifs <;> omega

theorem hashNext_eq {hash : ℕ} (hlow : 1 ≤ hash) (hhigh : hash < 2 ^ 32) :
    hashNext hash = hash % (2 ^ 32 - 1) + 1 := by
  simp only [hashNext]
  split_ifs <;> omega

/-- The search goes around the numbers from 1 to `2 ^ 32 - 1`. -/
theorem hashNext_iterate {hash : ℕ} (hlow : 1 ≤ hash) (hhigh : hash < 2 ^ 32) (j : ℕ) :
    hashNext^[j] hash = (hash - 1 + j) % (2 ^ 32 - 1) + 1 := by
  induction j with
  | zero => simp only [Function.iterate_zero, id_eq]; omega
  | succ j ih =>
    rw [Function.iterate_succ_apply', ih, hashNext_eq (by omega) (by omega)]
    omega

end Numbers

section Search

variable {taken : List (Text × Text)}

/-- The condition of the loop up. -/
def hashTaken (taken : List (Text × Text)) (nativeId : Text) (hash : ℕ) : Prop :=
  (taken.lookup (number hash)).any (· ≠ nativeId)

/-- The condition of the loop down. -/
def fallbackTaken (taken : List (Text × Text)) (n : ℕ) : Prop := (taken.lookup (number n)).isSome ∧ 1 < n

instance (nativeId : Text) : DecidablePred (hashTaken taken nativeId) := fun hash =>
  inferInstanceAs (Decidable ((taken.lookup (number hash)).any (· ≠ nativeId) = true))

theorem hashFrom_eq_probe (nativeId : Text) (turns hash : ℕ) :
    hashFrom taken nativeId turns hash = Allocation.probe (hashTaken taken nativeId) hashNext turns hash := by
  induction turns generalizing hash with
  | zero => rfl
  | succ turns ih =>
    rw [hashFrom, Allocation.probe, ih]
    rfl

/-- Where not every number is taken, one is free within a turn more than there are entries. -/
theorem exists_free_number (hroom : taken.length < 2 ^ 32 - 1) {hash : ℕ} (hlow : 1 ≤ hash) (hhigh : hash < 2 ^ 32) :
    ∃ j < taken.length + 1, taken.lookup (number (hashNext^[j] hash)) = none := by
  have hentries : ∀ n : ℕ, ¬taken.lookup (number n) = none → number n ∈ (taken.map Prod.fst).toFinset := by
    intro n hn
    obtain ⟨mark, hmark⟩ := Option.ne_none_iff_exists'.mp hn
    exact List.mem_toFinset.mpr (List.mem_map_of_mem (mem_of_lookup hmark))
  have hdistinct : ∀ i < taken.length + 1, ∀ j < taken.length + 1,
      number (hashNext^[i] hash : ℕ) = number (hashNext^[j] hash : ℕ) → i = j := by
    intro i hi j hj heq
    have hsame := number_injective heq
    rw [hashNext_iterate hlow hhigh, hashNext_iterate hlow hhigh] at hsame
    omega
  have hcard : (taken.map Prod.fst).toFinset.card < taken.length + 1 := by
    have := List.toFinset_card_le (taken.map Prod.fst)
    rw [List.length_map] at this
    omega
  obtain ⟨j, hj, hfree⟩ := Allocation.exists_free (fun n : ℕ => number n) _ hentries hdistinct hcard
  exact ⟨j, hj, not_not.mp hfree⟩

theorem hashFrom_stops (hroom : taken.length < 2 ^ 32 - 1) (nativeId : Text) :
    Allocation.Stops (hashTaken taken nativeId) hashNext (hashStart nativeId)
      (hashFrom taken nativeId (taken.length + 1) (hashStart nativeId)) := by
  obtain ⟨hlow, hhigh⟩ := hashStart_range nativeId
  obtain ⟨j, hj, hfree⟩ := exists_free_number hroom hlow hhigh
  rw [hashFrom_eq_probe]
  apply Allocation.probe_stops
  refine ⟨j, hj, ?_⟩
  rw [hashTaken, hfree]
  exact Bool.false_ne_true

theorem hashFrom_range (hroom : taken.length < 2 ^ 32 - 1) (nativeId : Text) :
    1 ≤ hashFrom taken nativeId (taken.length + 1) (hashStart nativeId) ∧
      hashFrom taken nativeId (taken.length + 1) (hashStart nativeId) < 2 ^ 32 := by
  obtain ⟨hlow, hhigh⟩ := hashStart_range nativeId
  obtain ⟨k, hk, -, -⟩ := hashFrom_stops hroom nativeId
  rw [← hk, hashNext_iterate hlow hhigh]
  omega

/-- What the loop down passes is taken, and it ends at a free number or at 1. -/
theorem fallbackFrom_spec (taken : List (Text × Text)) {n : ℕ} (hn : 1 ≤ n) :
    1 ≤ fallbackFrom taken n ∧ fallbackFrom taken n ≤ n ∧
      (∀ m : ℕ, fallbackFrom taken n < m → m ≤ n → (taken.lookup (number m)).isSome) ∧
      ((taken.lookup (number (fallbackFrom taken n))).isSome → fallbackFrom taken n = 1) := by
  induction n with
  | zero => omega
  | succ n ih =>
    rw [fallbackFrom]
    split_ifs with htaken
    · obtain ⟨hlow, hle, hpassed, hend⟩ := ih (by omega)
      refine ⟨hlow, by omega, ?_, hend⟩
      intro m hm hmn
      obtain rfl | hmn := Nat.eq_or_lt_of_le hmn
      · exact htaken.1
      · exact hpassed m hm (by omega)
    · refine ⟨hn, le_rfl, fun m hm hmn => absurd hm (by omega), ?_⟩
      intro hsome
      have hnot : ¬1 < n + 1 := fun hlt => htaken ⟨hsome, hlt⟩
      omega

theorem fallbackFrom_stops {n : ℕ} (hn : 1 ≤ n) :
    Allocation.Stops (fallbackTaken taken) (· - 1) n (fallbackFrom taken n) := by
  induction n with
  | zero => omega
  | succ n ih =>
    rw [fallbackFrom]
    split_ifs with htaken
    · exact Allocation.Stops.further htaken (ih (by omega))
    · exact Allocation.Stops.here htaken

end Search

section Windows

/-- What tells one window from another: its identifier, or the object where it has none. -/
abbrev WindowKey := Text ⊕ ℕ

def Window.key (window : Window) : WindowKey :=
  let nativeId := window.internalId.getD []
  if nativeId = [] then .inr window.object else .inl nativeId

def isHyphenPlace (place : ℕ) : Bool := place == 8 || place == 13 || place == 18 || place == 23

/-- The identifiers of KWin, with their braces or without them. -/
def uuidShaped (nativeId : Text) : Bool :=
  let bare := if nativeId.head? == some 123 && nativeId.getLast? == some 125 then nativeId.tail.dropLast else nativeId
  bare.length == 36 && bare.zipIdx.all fun (c, place) =>
    if isHyphenPlace place then c == 45 else (JsText.digitValue c).any (· < 16)

/-- A window with an identifier of KWin or with none. -/
def Window.Named (window : Window) : Prop := ∀ nativeId ∈ window.internalId, uuidShaped nativeId

instance : DecidablePred Window.Named := fun window =>
  inferInstanceAs (Decidable (∀ nativeId ∈ window.internalId, uuidShaped nativeId = true))

def fallbackMark : Text := JsText.lit "fallback"

theorem uuidShaped_length {nativeId : Text} (h : uuidShaped nativeId) : 36 ≤ nativeId.length := by
  simp only [uuidShaped, Bool.and_eq_true, beq_iff_eq] at h
  obtain ⟨hlength, -⟩ := h
  split_ifs at hlength
  · rw [List.length_dropLast, List.length_tail] at hlength
    omega
  · omega

theorem uuidShaped_ne {nativeId : Text} (h : uuidShaped nativeId) : nativeId ≠ fallbackMark := by
  have hlength := uuidShaped_length h
  have hmark : fallbackMark.length = 8 := by decide
  rintro rfl
  omega

end Windows

section Tables

/-- The handle that a window has, if it has one. -/
def Handles.assignment (t : Handles) : WindowKey → Option Text
  | .inl nativeId => t.handleByNativeId.lookup nativeId
  | .inr object => t.fallbackHandles.lookup object

/-- The tables record the handles of the windows given: a handle is taken exactly when a window has it. -/
structure Handles.Recorded (t : Handles) (given : Finset WindowKey) : Prop where
  given_iff : ∀ key, (t.assignment key).isSome ↔ key ∈ given
  taken_iff : ∀ handle, (t.nativeIdByHandle.lookup handle).isSome ↔ ∃ key, t.assignment key = some handle
  owner : ∀ handle nativeId, t.nativeIdByHandle.lookup handle = some nativeId → nativeId ≠ fallbackMark →
    t.assignment (.inl nativeId) = some handle
  count : t.nativeIdByHandle.length = given.card
  range : ∀ key handle, t.assignment key = some handle → ∃ n : ℕ, 1 ≤ n ∧ n < 2 ^ 32 ∧ handle = number n
  next : 1 ≤ t.nextFallbackHandle ∧ t.nextFallbackHandle < 2 ^ 32
  above : ∀ n : ℕ, t.nextFallbackHandle < n → n < 2 ^ 32 → (t.nativeIdByHandle.lookup (number n)).isSome

theorem recorded_empty : ({} : Handles).Recorded ∅ where
  given_iff key := by cases key <;> simp [Handles.assignment]
  taken_iff handle := by
    constructor
    · intro hsome
      cases hsome
    · rintro ⟨key, hkey⟩
      cases key <;> cases hkey
  owner _ _ h := by cases h
  count := rfl
  range key _ h := by cases key <;> cases h
  next := by decide
  above n hn hlt := by
    have hstart : ({} : Handles).nextFallbackHandle = 4294967295 := rfl
    omega

namespace Handles.Recorded

variable {t t' : Handles} {given : Finset WindowKey} {key : WindowKey} {handle mark : Text}

/-- A handle goes to a window that had none. -/
theorem add (h : t.Recorded given) (hkey : key ∉ given)
    (hassigned : t'.assignment = Function.update t.assignment key (some handle))
    (htaken : t'.nativeIdByHandle = (handle, mark) :: t.nativeIdByHandle)
    (hmark : mark ≠ fallbackMark → key = .inl mark) (hrange : ∃ n : ℕ, 1 ≤ n ∧ n < 2 ^ 32 ∧ handle = number n)
    (hnext : 1 ≤ t'.nextFallbackHandle ∧ t'.nextFallbackHandle < 2 ^ 32)
    (habove : ∀ n : ℕ, t'.nextFallbackHandle < n → n < 2 ^ 32 → (t'.nativeIdByHandle.lookup (number n)).isSome) :
    t'.Recorded (insert key given) := by
  have hself : t'.assignment key = some handle := by rw [hassigned, Function.update_self]
  have hother : ∀ k, k ≠ key → t'.assignment k = t.assignment k := by
    intro k hk
    rw [hassigned, Function.update_of_ne hk]
  have hlookup : ∀ k, t'.nativeIdByHandle.lookup k =
      if k = handle then some mark else t.nativeIdByHandle.lookup k := by
    intro k
    rw [htaken, List.lookup_cons]
    by_cases hk : k = handle
    · rw [if_pos hk, hk, beq_self_eq_true]
    · rw [if_neg hk, beq_false_of_ne hk]
  constructor
  · intro k
    by_cases hk : k = key
    · subst hk
      simp [hself]
    · rw [hother k hk, h.given_iff, Finset.mem_insert]
      simp [hk]
  · intro k
    rw [hlookup]
    split_ifs with hk
    · subst hk
      simp only [Option.isSome_some, true_iff]
      exact ⟨key, hself⟩
    · rw [h.taken_iff]
      constructor
      · rintro ⟨j, hj⟩
        refine ⟨j, ?_⟩
        rw [hother]
        · exact hj
        · rintro rfl
          exact hkey ((h.given_iff _).mp (by rw [hj]; rfl))
      · rintro ⟨j, hj⟩
        by_cases hjk : j = key
        · rw [hjk, hself, Option.some.injEq] at hj
          exact absurd hj.symm hk
        · exact ⟨j, by rwa [hother j hjk] at hj⟩
  · intro k nativeId hk hnative
    rw [hlookup] at hk
    split_ifs at hk with heq
    · rw [Option.some.injEq] at hk
      subst hk
      rw [← hmark hnative, heq, hself]
    · have hold := h.owner k nativeId hk hnative
      rw [hother]
      · exact hold
      · rintro rfl
        exact hkey ((h.given_iff _).mp (by rw [hold]; rfl))
  · rw [htaken, List.length_cons, Finset.card_insert_of_notMem hkey, h.count]
  · intro k k' hk
    by_cases heq : k = key
    · rw [heq, hself, Option.some.injEq] at hk
      exact hk ▸ hrange
    · rw [hother k heq] at hk
      exact h.range k k' hk
  · exact hnext
  · exact habove

theorem room (h : t.Recorded given) (hroom : given.card < 2 ^ 32 - 1) : t.nativeIdByHandle.length < 2 ^ 32 - 1 :=
  h.count ▸ hroom

theorem free (h : t.Recorded given) (hfree : t.nativeIdByHandle.lookup handle = none) :
    ∀ key, t.assignment key ≠ some handle := by
  intro key hkey
  have hsome := (h.taken_iff handle).mpr ⟨key, hkey⟩
  rw [hfree] at hsome
  cases hsome

/-- The loop up ends at a number that no window has. -/
theorem hash_free (h : t.Recorded given) (hroom : given.card < 2 ^ 32 - 1) {nativeId : Text}
    (hshaped : uuidShaped nativeId) (hnew : t.assignment (.inl nativeId) = none) :
    t.nativeIdByHandle.lookup (number (hashFrom t.nativeIdByHandle nativeId (t.nativeIdByHandle.length + 1)
      (hashStart nativeId))) = none := by
  have hstop := (hashFrom_stops (h.room hroom) nativeId).free
  rw [Option.eq_none_iff_forall_ne_some]
  intro mark hmark
  rw [hashTaken, hmark] at hstop
  have hown : mark = nativeId := by simpa using hstop
  have hassigned := h.owner _ _ hmark (hown ▸ uuidShaped_ne hshaped)
  rw [hown, hnew] at hassigned
  cases hassigned

/-- The loop down ends at a number that no window has, as every number above its start is taken. -/
theorem fallback_free (h : t.Recorded given) (hroom : given.card < 2 ^ 32 - 1) :
    t.nativeIdByHandle.lookup (number (fallbackFrom t.nativeIdByHandle t.nextFallbackHandle)) = none := by
  obtain ⟨hlow, hle, hpassed, hend⟩ := fallbackFrom_spec t.nativeIdByHandle h.next.1
  by_contra htaken
  have hone := hend (Option.isSome_iff_ne_none.mpr htaken)
  have hall : ∀ n : ℕ, 1 ≤ n → n < 2 ^ 32 → (t.nativeIdByHandle.lookup (number n)).isSome := by
    intro n hn hlt
    obtain rfl | hgt := Nat.eq_or_lt_of_le hn
    · rw [← hone]
      exact Option.isSome_iff_ne_none.mpr htaken
    · by_cases habove : t.nextFallbackHandle < n
      · exact h.above n habove hlt
      · exact hpassed n (by omega) (by omega)
  obtain ⟨j, -, hfree⟩ := exists_free_number (h.room hroom) (le_refl 1) (by norm_num)
  have hiterate := hashNext_iterate (le_refl 1) (by norm_num) j
  have hsome := hall (hashNext^[j] 1) (by omega) (by omega)
  rw [hfree] at hsome
  cases hsome

end Handles.Recorded

end Tables

section Calls

variable {t : Handles} {given : Finset WindowKey} {window : Window}

/-- A call gives the window its handle, and the tables record it. -/
def Handles.Named (t : Handles) (given : Finset WindowKey) (key : WindowKey) (call : Text × Handles) : Prop :=
  Allocation.Gives t.assignment (key, call.1) call.2.assignment ∧ call.2.Recorded (insert key given)

theorem Handles.Recorded.known (h : t.Recorded given) {key : WindowKey} {handle : Text}
    (hkey : t.assignment key = some handle) : t.Named given key (handle, t) := by
  have hmem : key ∈ given := (h.given_iff key).mp (by rw [hkey]; rfl)
  constructor
  · exact Allocation.Gives.known hkey
  · rwa [Finset.insert_eq_of_mem hmem]

theorem Handles.Recorded.not_mem (h : t.Recorded given) {key : WindowKey} (hkey : t.assignment key = none) :
    key ∉ given := by
  rw [← h.given_iff, hkey]
  exact Bool.false_ne_true

theorem fallbackWindowHandle_named (h : t.Recorded given)
    (hroom : .inr window.object ∉ given → given.card < 2 ^ 32 - 1) :
    t.Named given (.inr window.object) (fallbackWindowHandle t window) := by
  unfold fallbackWindowHandle
  split
  · next handle hlookup => exact h.known hlookup
  · next hlookup =>
    have hnew : .inr window.object ∉ given := h.not_mem hlookup
    have hfree := h.fallback_free (hroom hnew)
    obtain ⟨hlow, hle, hpassed, -⟩ := fallbackFrom_spec t.nativeIdByHandle h.next.1
    generalize fallbackFrom t.nativeIdByHandle t.nextFallbackHandle = n at *
    have hnext := h.next
    have hassigned : Handles.assignment { t with
        nativeIdByHandle := (number n, JsText.lit "fallback") :: t.nativeIdByHandle
        fallbackHandles := t.fallbackHandles ++ [(window.object, number n)]
        nextFallbackHandle := if 1 < n then n - 1 else n } =
          Function.update t.assignment (.inr window.object) (some (number n)) := by
      funext key
      by_cases hkey : key = .inr window.object
      · rw [hkey, Function.update_self]
        simp [Handles.assignment, List.lookup_append, hlookup]
      · rw [Function.update_of_ne hkey]
        cases key with
        | inl nativeId => rfl
        | inr object =>
          have hne : object ≠ window.object := fun heq => hkey (by rw [heq])
          have hlast : [(window.object, number n)].lookup object = none := by
            rw [List.lookup_cons, beq_false_of_ne hne]
            rfl
          simp only [Handles.assignment, List.lookup_append, hlast, Option.or_none]
    constructor
    · rw [hassigned]
      exact Allocation.Gives.fresh hlookup (h.free hfree)
    · refine h.add hnew hassigned rfl (fun hmark => absurd rfl hmark) ⟨n, hlow, by omega, rfl⟩ ?_ ?_
      · dsimp only
        split_ifs <;> omega
      · intro m hm hlt
        dsimp only at hm ⊢
        rw [List.lookup_cons]
        by_cases heq : m = n
        · rw [heq, beq_self_eq_true]
          rfl
        · have hne : number (m : ℤ) ≠ number (n : ℤ) := fun hsame => heq (number_injective hsame)
          rw [beq_false_of_ne hne]
          by_cases habove : t.nextFallbackHandle < m
          · exact h.above m habove hlt
          · exact hpassed m (by split_ifs at hm <;> omega) (by omega)

theorem windowHandle_named (h : t.Recorded given) (hnamed : window.Named)
    (hroom : window.key ∉ given → given.card < 2 ^ 32 - 1) : t.Named given window.key (windowHandle t window) := by
  unfold windowHandle
  unfold Window.key at hroom ⊢
  dsimp only at hroom ⊢
  by_cases hempty : window.internalId.getD [] = []
  · rw [if_pos hempty] at hroom
    rw [if_pos hempty, if_pos hempty]
    exact fallbackWindowHandle_named h hroom
  · rw [if_neg hempty] at hroom
    rw [if_neg hempty, if_neg hempty]
    have hshaped : uuidShaped (window.internalId.getD []) := by
      cases hid : window.internalId with
      | none => simp [hid] at hempty
      | some nativeId => exact hnamed nativeId (by rw [hid]; rfl)
    generalize window.internalId.getD [] = nativeId at *
    split
    · next handle hlookup => exact h.known hlookup
    · next hlookup =>
      have hnew : .inl nativeId ∉ given := h.not_mem hlookup
      have hfree := h.hash_free (hroom hnew) hshaped hlookup
      obtain ⟨hlow, hhigh⟩ := hashFrom_range (h.room (hroom hnew)) nativeId
      generalize hashFrom t.nativeIdByHandle nativeId (t.nativeIdByHandle.length + 1) (hashStart nativeId) = hash at *
      have hassigned : Handles.assignment { t with
          handleByNativeId := (nativeId, number hash) :: t.handleByNativeId
          nativeIdByHandle := (number hash, nativeId) :: t.nativeIdByHandle } =
            Function.update t.assignment (.inl nativeId) (some (number hash)) := by
        funext key
        by_cases hkey : key = .inl nativeId
        · rw [hkey, Function.update_self]
          exact List.lookup_cons_self
        · rw [Function.update_of_ne hkey]
          cases key with
          | inr object => rfl
          | inl other =>
            have hne : other ≠ nativeId := fun heq => hkey (by rw [heq])
            simp only [Handles.assignment, List.lookup_cons, beq_false_of_ne hne]
      constructor
      · rw [hassigned]
        exact Allocation.Gives.fresh hlookup (h.free hfree)
      · refine h.add hnew hassigned rfl (fun _ => rfl) ⟨hash, hlow, hhigh, rfl⟩ h.next ?_
        intro m hm hlt
        rw [List.lookup_cons]
        split
        · rfl
        · exact h.above m hm hlt

/-- The windows of a list of calls. -/
def keysOf (calls : List Window) : Finset WindowKey := (calls.map Window.key).toFinset

/-- What a call came to, under the window's key. -/
def keyed (call : Window × Text) : WindowKey × Text := (call.1.key, call.2)

theorem nameWindows_calls (t : Handles) (calls : List Window) : (nameWindows t calls).1.map Prod.fst = calls := by
  induction calls generalizing t with
  | nil => rfl
  | cons window calls ih =>
    rw [nameWindows, List.map_cons, ih]

/-- The calls give each window its handle, as long as there are numbers for all of them. -/
theorem nameWindows_run {calls : List Window} (h : t.Recorded given) (hnamed : ∀ window ∈ calls, window.Named)
    (hroom : (given ∪ keysOf calls).card ≤ 2 ^ 32 - 1) :
    Transition.Run Allocation.Gives t.assignment ((nameWindows t calls).1.map keyed) (nameWindows t calls).2.assignment ∧
      (nameWindows t calls).2.Recorded (given ∪ keysOf calls) := by
  induction calls generalizing t given with
  | nil =>
    constructor
    · exact .nil _
    · simpa [keysOf, nameWindows] using h
  | cons window calls ih =>
    have hkeys : given ∪ keysOf (window :: calls) = insert window.key given ∪ keysOf calls := by
      rw [keysOf, List.map_cons, List.toFinset_cons, Finset.union_insert, Finset.insert_union]
      rfl
    rw [hkeys] at hroom ⊢
    have hfirst : window.key ∉ given → given.card < 2 ^ 32 - 1 := by
      intro hnew
      have hgrown := Finset.card_insert_of_notMem hnew
      have hwithin : (insert window.key given).card ≤ (insert window.key given ∪ keysOf calls).card :=
        Finset.card_le_card Finset.subset_union_left
      omega
    obtain ⟨hgives, hrecorded⟩ := windowHandle_named h (hnamed window List.mem_cons_self) hfirst
    obtain ⟨hrun, hafter⟩ := ih hrecorded (fun w hw => hnamed w (List.mem_cons_of_mem _ hw)) hroom
    constructor
    · exact .cons hgives hrun
    · exact hafter

/-- The loops of a call come to an end, at the number behind the handle that the call returns. -/
def SearchEnds (t : Handles) (window : Window) : Prop :=
  let nativeId := window.internalId.getD []
  (nativeId = [] → t.fallbackHandles.lookup window.object = none →
    ∃ n : ℕ, Allocation.Stops (fallbackTaken t.nativeIdByHandle) (· - 1) t.nextFallbackHandle n ∧
      (windowHandle t window).1 = number n) ∧
  (nativeId ≠ [] → t.handleByNativeId.lookup nativeId = none →
    ∃ n : ℕ, Allocation.Stops (hashTaken t.nativeIdByHandle nativeId) hashNext (hashStart nativeId) n ∧
      (windowHandle t window).1 = number n)

theorem searchEnds (h : t.Recorded given) (hroom : window.key ∉ given → given.card < 2 ^ 32 - 1) :
    SearchEnds t window := by
  constructor
  · intro hempty hlookup
    refine ⟨fallbackFrom t.nativeIdByHandle t.nextFallbackHandle, fallbackFrom_stops h.next.1, ?_⟩
    rw [windowHandle, if_pos hempty, fallbackWindowHandle, hlookup]
  · intro hne hlookup
    have hnew : window.key ∉ given := by
      rw [Window.key, if_neg hne]
      exact h.not_mem hlookup
    refine ⟨_, hashFrom_stops (h.room (hroom hnew)) _, ?_⟩
    rw [windowHandle, if_neg hne, hlookup]

theorem keysOf_append (before after : List Window) : keysOf (before ++ after) = keysOf before ∪ keysOf after := by
  rw [keysOf, List.map_append, List.toFinset_append]
  rfl

/-- Calls for no more windows than there are numbers, so that each new window finds fewer than `2 ^ 32 - 1` handles
given out: every search ends, every handle is a number, and handles agree exactly where the windows do. -/
theorem windowHandle_distinct (calls : List Window) (hnamed : ∀ window ∈ calls, window.Named)
    (hroom : (keysOf calls).card ≤ 2 ^ 32 - 1) :
    (nameWindows {} calls).1.map Prod.fst = calls ∧
    (∀ before window after, calls = before ++ window :: after → SearchEnds (nameWindows {} before).2 window) ∧
    (∀ call ∈ (nameWindows {} calls).1, ∃ n : ℕ, 1 ≤ n ∧ n < 2 ^ 32 ∧ call.2 = JsText.ofBytes (decimalText n)) ∧
    ∀ one ∈ (nameWindows {} calls).1, ∀ other ∈ (nameWindows {} calls).1,
      one.2 = other.2 ↔ one.1.key = other.1.key := by
  have hall : (∅ ∪ keysOf calls).card ≤ 2 ^ 32 - 1 := by rwa [Finset.empty_union]
  obtain ⟨hrun, hrecorded⟩ := nameWindows_run recorded_empty hnamed hall
  constructor
  · exact nameWindows_calls _ _
  constructor
  · rintro before window after rfl
    have hwithin : (keysOf before ∪ {window.key}).card ≤ 2 ^ 32 - 1 := by
      apply le_trans (Finset.card_le_card _) hroom
      rw [keysOf_append]
      apply Finset.union_subset_union_right
      simp [keysOf]
    have hbefore : (∅ ∪ keysOf before).card ≤ 2 ^ 32 - 1 := by
      rw [Finset.empty_union]
      exact le_trans (Finset.card_le_card Finset.subset_union_left) hwithin
    obtain ⟨-, hsofar⟩ := nameWindows_run recorded_empty
      (fun w hw => hnamed w (List.mem_append_left _ hw)) hbefore
    apply searchEnds hsofar
    intro hnew
    rw [Finset.empty_union] at hnew ⊢
    rw [Finset.union_comm, ← Finset.insert_eq, Finset.card_insert_of_notMem hnew] at hwithin
    omega
  constructor
  · intro call hcall
    have hgiven := Allocation.run_given hrun (List.mem_map_of_mem (f := keyed) hcall)
    obtain ⟨n, hlow, hhigh, hn⟩ := hrecorded.range _ _ hgiven
    exact ⟨n, hlow, hhigh, by rw [← number_natCast]; exact hn⟩
  · intro one hone other hother
    have hinjective : Allocation.Injective ({} : Handles).assignment := by
      intro j _ _ hj
      cases j <;> cases hj
    exact Allocation.run_same_iff hrun hinjective (List.mem_map_of_mem (f := keyed) hone)
      (List.mem_map_of_mem (f := keyed) hother)

theorem windowHandle_distinct_reopened :
    let uuid := JsText.lit "\x7b0b8e6c52-27a4-4d0f-9d1c-6a4f3f0c2e11\x7d"
    let calls : List Window := [{ object := 1, internalId := some uuid }, { object := 2 },
      { object := 3, internalId := some uuid }, { object := 4 }]
    (keysOf calls).card ≤ 2 ^ 32 - 1 ∧
      ∀ one ∈ (nameWindows {} calls).1, ∀ other ∈ (nameWindows {} calls).1,
        one.2 = other.2 ↔ one.1.key = other.1.key :=
  ⟨by decide, (windowHandle_distinct _ (by decide) (by decide)).2.2.2⟩

end Calls

end KeysharpDesktop.KwinScript
