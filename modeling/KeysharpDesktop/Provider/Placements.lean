import KeysharpDesktop.Lib.JsNumber
import KeysharpDesktop.Lib.Table
import KeysharpDesktop.Lib.Transition
import Mathlib.Algebra.Order.Ring.Rat

/-! Window reservations of the shell provider: the pending placements of `_reserveWindow`, the results that
`_placeOnMap` records when a window consumes one, and the lookups of `_getReservedWindow`. -/
namespace KeysharpDesktop.Shell

def placementTtlMs : ℤ := 2000
def maxPlacementsTotal : ℕ := 256
def maxPlacementsPerPid : ℕ := 16
def maxPlacedTotal : ℕ := 256

/-- `GLib.get_monotonic_time() / 1000`: a count of microseconds as a number, and what dividing it gives. -/
def clockMs (microseconds : BitVec 64) : ℚ := JsNumber.double (JsNumber.double microseconds.toInt / 1000)

/-- The expiry of a reservation, a sum of two numbers. -/
def expiryMs (now : BitVec 64) (ttlMs : BitVec 32) : ℚ :=
  JsNumber.double (clockMs now + (if 0 < ttlMs.toInt then ttlMs.toInt else placementTtlMs : ℤ))

/-- A process id and a cookie, the property name `pid + ':' + cookie`. -/
abbrev ReservationKey := ℤ × ℕ

/-- A reservation no window has consumed yet; `expires` is in milliseconds of the monotonic clock. -/
structure Placement where
  pid : ℤ
  cookie : ℕ
  x : ℤ
  y : ℤ
  expires : ℚ

def Placement.key (p : Placement) : ReservationKey := (p.pid, p.cookie)

/-- The window that consumed a reservation, by its stable sequence. -/
structure Placed where
  id : ℕ
  expires : ℚ

structure Placements where
  placements : List Placement
  placed : Table ReservationKey Placed

namespace Placements

variable (s : Placements)

def sweepPlacements (now : BitVec 64) : Placements where
  placements := s.placements.filter fun p => clockMs now < p.expires
  placed := s.placed.keep fun hit => clockMs now < hit.expires

/-- A reservation of the same process and cookie is replaced; a new one is bounded in total and per process. -/
def HasRoom (key : ReservationKey) : Prop :=
  (∃ p ∈ s.placements, p.key = key) ∨
    s.placements.length < maxPlacementsTotal ∧
      (s.placements.filter fun p => p.pid = key.1).length < maxPlacementsPerPid

instance (key : ReservationKey) : Decidable (s.HasRoom key) :=
  inferInstanceAs (Decidable (_ ∨ _))

/-- The clock is read once for the sweep and once for the expiry of the new reservation. -/
def reserveWindow (swept now : BitVec 64) (pid : ℤ) (cookie : ℕ) (x y : ℤ) (ttlMs : BitVec 32) : Placements × Bool :=
  if pid ≤ 0 then
    (s, false)
  else
    let s := s.sweepPlacements swept
    if s.HasRoom (pid, cookie) then
      ({ s with placements := (s.placements.eraseP fun p => p.key = (pid, cookie)) ++
          [{ pid, cookie, x, y, expires := expiryMs now ttlMs }] }, true)
    else
      (s, false)

/-- No answer stands for the empty string. -/
def getReservedWindow (now : BitVec 64) (pid : ℤ) (cookie : ℕ) : Placements × Option ℕ :=
  match s.placed.lookup (pid, cookie) with
  | none => (s, none)
  | some hit =>
    ({ s with placed := s.placed.erase (pid, cookie) }, if clockMs now < hit.expires then some hit.id else none)

/-- What the results become when a window consumes a placement. A window whose sequence the compositor does not give
throws after the placement was taken out. -/
def record (p : Placement) (sequence : Option ℕ) : Table ReservationKey Placed :=
  match sequence with
  | none => s.placed
  | some id =>
    if p.cookie ≠ 0 ∧ (p.key ∈ s.placed ∨ s.placed.keys.length < maxPlacedTotal) then
      s.placed.insert p.key { id, expires := p.expires }
    else
      s.placed

/-- A window was created; also returns the placement it consumed. -/
def placeOnMap (now : BitVec 64) (pid : ℤ) (sequence : Option ℕ) : Placements × Option Placement :=
  let s := s.sweepPlacements now
  if pid ≤ 0 then
    (s, none)
  else
    match s.placements.find? fun p => p.pid = pid with
    | none => (s, none)
    | some p => ({ placements := s.placements.eraseP fun p => p.pid = pid, placed := s.record p sequence }, some p)

end Placements

inductive PlacementCall
  | reserve (swept now : BitVec 64) (pid : ℤ) (cookie : ℕ) (x y : ℤ) (ttlMs : BitVec 32)
  | created (now : BitVec 64) (pid : ℤ) (sequence : Option ℕ)
  | sweep (now : BitVec 64)
  | lookup (now : BitVec 64) (pid : ℤ) (cookie : ℕ)

/-- What a client can tell of a reservation from outside. -/
inductive PlacementEvent
  | reserved (key : ReservationKey)
  | consumed (key : ReservationKey) (sequence : Option ℕ)
  | answered (key : ReservationKey) (id : ℕ)

def PlacementEvent.key : PlacementEvent → ReservationKey
  | .reserved key | .consumed key _ | .answered key _ => key

/-- The window a lookup may name after the event: a new reservation has none yet, and an answer is given once. -/
def PlacementEvent.due : PlacementEvent → Option ℕ
  | .consumed _ sequence => sequence
  | .reserved _ | .answered _ _ => none

/-- The window a lookup may name, from the history with its newest event first: the one that consumed the newest
reservation of the key, until a lookup has answered it. -/
def due (key : ReservationKey) (history : List PlacementEvent) : Option ℕ :=
  (history.find? fun event => event.key = key).bind PlacementEvent.due

/-- The provider with the history of its reservations. -/
structure PlacementRun where
  provider : Placements
  history : List PlacementEvent

def PlacementRun.start : PlacementRun := ⟨⟨[], ∅⟩, []⟩

def PlacementRun.call (r : PlacementRun) : PlacementCall → PlacementRun
  | .reserve swept now pid cookie x y ttlMs =>
    let reserved := r.provider.reserveWindow swept now pid cookie x y ttlMs
    ⟨reserved.1, if reserved.2 then .reserved (pid, cookie) :: r.history else r.history⟩
  | .created now pid sequence =>
    let mapped := r.provider.placeOnMap now pid sequence
    ⟨mapped.1, (mapped.2.map fun p => .consumed p.key sequence).toList ++ r.history⟩
  | .sweep now => ⟨r.provider.sweepPlacements now, r.history⟩
  | .lookup now pid cookie =>
    let window := r.provider.getReservedWindow now pid cookie
    ⟨window.1, (window.2.map fun id => .answered (pid, cookie) id).toList ++ r.history⟩

/-- Every lookup, at whatever reading of the clock, names the window that is due or none. -/
def PlacementRun.Named (r : PlacementRun) : Prop :=
  ∀ (now : BitVec 64) (key : ReservationKey) (id : ℕ),
    (r.provider.getReservedWindow now key.1 key.2).2 = some id → due key r.history = some id

/-- A call that takes a reservation does not find the unexpired window of an earlier one with its process and
cookie. -/
def PlacementRun.Unclaimed (r : PlacementRun) : PlacementCall → Prop
  | .reserve swept _ pid cookie _ _ _ =>
    0 < pid → (r.provider.sweepPlacements swept).HasRoom (pid, cookie) →
      ∀ hit, r.provider.placed.lookup (pid, cookie) = some hit → hit.expires ≤ clockMs swept
  | _ => True

variable {r : PlacementRun} {now : BitVec 64} {key other : ReservationKey} {hit : Placed}
  {history : List PlacementEvent}

theorem lookup_swept : (r.provider.sweepPlacements now).placed.lookup key = some hit ↔
    r.provider.placed.lookup key = some hit ∧ clockMs now < hit.expires := by
  rw [Placements.sweepPlacements, Table.lookup_keep, decide_eq_true_iff]

theorem record_cases (s : Placements) (p : Placement) (sequence : Option ℕ) :
    s.record p sequence = s.placed ∨
      ∃ id, sequence = some id ∧ s.record p sequence = s.placed.insert p.key ⟨id, p.expires⟩ := by
  unfold Placements.record
  cases sequence with
  | none => exact .inl rfl
  | some id =>
    dsimp only
    split_ifs with hstored
    · exact .inr ⟨id, rfl, rfl⟩
    · exact .inl rfl

theorem named_iff :
    r.Named ↔ ∀ key hit now, r.provider.placed.lookup key = some hit → clockMs now < hit.expires →
      due key r.history = some hit.id := by
  constructor
  · intro h key hit now hfound hahead
    apply h now key
    simp [Placements.getReservedWindow, hfound, hahead]
  · intro h now key id hid
    unfold Placements.getReservedWindow at hid
    cases hfound : r.provider.placed.lookup key with
    | none => simp [hfound] at hid
    | some hit =>
      simp only [hfound, Option.ite_none_right_eq_some, Option.some.injEq] at hid
      rw [h key hit now hfound hid.1, hid.2]

/-- The pending placements have different keys, and none of their reservations has a window that is due. -/
structure PlacementRun.Pending (r : PlacementRun) : Prop where
  distinct : (r.provider.placements.map Placement.key).Nodup
  notDue : ∀ p ∈ r.provider.placements, due p.key r.history = none

theorem due_cons_self (event : PlacementEvent) (hkey : event.key = key) : due key (event :: history) = event.due := by
  simp [due, hkey]

theorem due_cons_of_ne (event : PlacementEvent) (hne : event.key ≠ key) :
    due key (event :: history) = due key history := by
  simp [due, hne]

/-- Taking out the first placement of a process leaves the placements with other keys. -/
theorem eraseP_of_find {l : List Placement} {q : Placement → Bool} {p : Placement}
    (hnodup : (l.map Placement.key).Nodup) (hfind : l.find? q = some p) :
    ∀ other ∈ l.eraseP q, other ∈ l ∧ other.key ≠ p.key := by
  obtain ⟨hq, before, after, rfl, hbefore⟩ := List.find?_eq_some_iff_append.mp hfind
  have herase : (before ++ p :: after).eraseP q = before ++ after := by
    rw [List.eraseP_append_right _ (fun b hb => by simpa using hbefore b hb), List.eraseP_cons_of_pos hq]
  rw [herase]
  intro other hother
  rw [List.map_append, List.map_cons, List.nodup_middle, List.nodup_cons] at hnodup
  constructor
  · rcases List.mem_append.mp hother with h | h
    · exact List.mem_append_left _ h
    · exact List.mem_append_right _ (List.mem_cons_of_mem _ h)
  · intro heq
    apply hnodup.1
    rw [← heq, ← List.map_append]
    exact List.mem_map_of_mem hother

theorem eraseP_key (key : ReservationKey) {l : List Placement} (hnodup : (l.map Placement.key).Nodup) :
    ∀ other ∈ l.eraseP fun p => p.key = key, other ∈ l ∧ other.key ≠ key := by
  cases hfind : l.find? fun p => p.key = key with
  | none =>
    intro other hother
    have hmem := List.mem_of_mem_eraseP hother
    exact ⟨hmem, by simpa using List.find?_eq_none.mp hfind other hmem⟩
  | some p =>
    have hkey : p.key = key := by simpa using List.find?_some hfind
    rw [← hkey]
    exact eraseP_of_find hnodup (by rwa [hkey])

theorem pending_start : PlacementRun.start.Pending where
  distinct := List.nodup_nil
  notDue := by
    intro p hp
    cases hp

/-- The run after a sweep alone. -/
def PlacementRun.swept (r : PlacementRun) (now : BitVec 64) : PlacementRun :=
  ⟨r.provider.sweepPlacements now, r.history⟩

theorem call_reserve_refused (r : PlacementRun) {swept : BitVec 64} (now : BitVec 64) {pid : ℤ} {cookie : ℕ} (x y : ℤ)
    (ttlMs : BitVec 32)
    (h : ¬(0 < pid ∧ (r.provider.sweepPlacements swept).HasRoom (pid, cookie))) :
    r.call (.reserve swept now pid cookie x y ttlMs) = r ∨
      r.call (.reserve swept now pid cookie x y ttlMs) = r.swept swept := by
  by_cases hpid : pid ≤ 0
  · left
    simp [PlacementRun.call, Placements.reserveWindow, hpid]
  · right
    have hroom : ¬(r.provider.sweepPlacements swept).HasRoom (pid, cookie) := fun hroom => h ⟨by omega, hroom⟩
    simp [PlacementRun.call, Placements.reserveWindow, hpid, hroom, PlacementRun.swept]

theorem call_reserve (r : PlacementRun) {swept : BitVec 64} (now : BitVec 64) {pid : ℤ} {cookie : ℕ} (x y : ℤ)
    (ttlMs : BitVec 32)
    (hpid : 0 < pid) (hroom : (r.provider.sweepPlacements swept).HasRoom (pid, cookie)) :
    ∃ p : Placement, p.key = (pid, cookie) ∧ r.call (.reserve swept now pid cookie x y ttlMs) =
      ⟨⟨((r.swept swept).provider.placements.eraseP fun p => p.key = (pid, cookie)) ++ [p],
        (r.swept swept).provider.placed⟩, .reserved (pid, cookie) :: r.history⟩ := by
  have hle : ¬pid ≤ 0 := by omega
  refine ⟨⟨pid, cookie, x, y, expiryMs now ttlMs⟩, rfl, ?_⟩
  simp [PlacementRun.call, Placements.reserveWindow, hle, hroom, PlacementRun.swept]

theorem call_created (r : PlacementRun) (now : BitVec 64) (pid : ℤ) (sequence : Option ℕ) :
    r.call (.created now pid sequence) = r.swept now ∨
      ∃ p, (r.swept now).provider.placements.find? (fun p => p.pid = pid) = some p ∧
        r.call (.created now pid sequence) =
          ⟨⟨(r.swept now).provider.placements.eraseP fun p => p.pid = pid,
            (r.swept now).provider.record p sequence⟩, .consumed p.key sequence :: r.history⟩ := by
  by_cases hpid : pid ≤ 0
  · left
    simp [PlacementRun.call, Placements.placeOnMap, hpid, PlacementRun.swept]
  · cases hfind : (r.swept now).provider.placements.find? fun p => p.pid = pid with
    | none =>
      left
      unfold PlacementRun.swept at hfind
      simp only [PlacementRun.call, Placements.placeOnMap, hpid, hfind, PlacementRun.swept]
      simp
    | some p =>
      right
      refine ⟨p, rfl, ?_⟩
      unfold PlacementRun.swept at hfind
      simp only [PlacementRun.call, Placements.placeOnMap, hpid, hfind, PlacementRun.swept]
      simp

theorem call_lookup (r : PlacementRun) (now : BitVec 64) (pid : ℤ) (cookie : ℕ) :
    r.call (.lookup now pid cookie) = r ∨
      ∃ history, (history = r.history ∨ ∃ id, history = .answered (pid, cookie) id :: r.history) ∧
        r.call (.lookup now pid cookie) =
          ⟨⟨r.provider.placements, r.provider.placed.erase (pid, cookie)⟩, history⟩ := by
  cases hfound : r.provider.placed.lookup (pid, cookie) with
  | none =>
    left
    simp [PlacementRun.call, Placements.getReservedWindow, hfound]
  | some hit =>
    right
    by_cases hahead : clockMs now < hit.expires
    · refine ⟨_, .inr ⟨hit.id, rfl⟩, ?_⟩
      simp [PlacementRun.call, Placements.getReservedWindow, hfound, hahead]
    · refine ⟨_, .inl rfl, ?_⟩
      simp [PlacementRun.call, Placements.getReservedWindow, hfound, hahead]

/-- The placements that survive a sweep stay pending. -/
theorem PlacementRun.Pending.swept (h : r.Pending) (now : BitVec 64) : (r.swept now).Pending where
  distinct := h.distinct.sublist (List.filter_sublist.map _)
  notDue := fun p hp => h.notDue p (List.mem_of_mem_filter hp)

/-- Only unexpired results are left to be named. -/
theorem PlacementRun.Named.swept (h : r.Named) (now : BitVec 64) : (r.swept now).Named := by
  rw [named_iff] at h ⊢
  intro key hit later hfound
  exact h key hit later (lookup_swept.mp hfound).1

theorem PlacementRun.Pending.call (h : r.Pending) (call : PlacementCall) : (r.call call).Pending := by
  cases call with
  | sweep now => exact h.swept now
  | reserve swept now pid cookie x y ttlMs =>
    by_cases hgranted : 0 < pid ∧ (r.provider.sweepPlacements swept).HasRoom (pid, cookie)
    · obtain ⟨p, hkey, heq⟩ := call_reserve r now x y ttlMs hgranted.1 hgranted.2
      rw [heq]
      have hswept := h.swept swept
      have herased := eraseP_key (pid, cookie) hswept.distinct
      constructor
      · simp only [List.map_append, List.map_cons, List.map_nil, hkey]
        refine List.nodup_append.mpr ⟨hswept.distinct.sublist (List.eraseP_sublist.map _), by simp, ?_⟩
        intro other hother last hlast heq
        obtain ⟨q, hq, rfl⟩ := List.mem_map.mp hother
        exact (herased q hq).2 (heq.trans (List.mem_singleton.mp hlast))
      · intro q hq
        rcases List.mem_append.mp hq with hq | hq
        · obtain ⟨hmem, hne⟩ := herased q hq
          rw [due_cons_of_ne (.reserved (pid, cookie)) (Ne.symm hne)]
          exact hswept.notDue q hmem
        · rw [List.mem_singleton.mp hq, hkey]
          exact due_cons_self (.reserved (pid, cookie)) rfl
    · rcases call_reserve_refused r now x y ttlMs hgranted with heq | heq
      · rw [heq]
        exact h
      · rw [heq]
        exact h.swept swept
  | created now pid sequence =>
    rcases call_created r now pid sequence with heq | ⟨p, hfind, heq⟩
    · rw [heq]
      exact h.swept now
    · have hswept := h.swept now
      rw [heq]
      constructor
      · exact hswept.distinct.sublist (List.eraseP_sublist.map _)
      · intro other hother
        obtain ⟨hmem, hne⟩ := eraseP_of_find hswept.distinct hfind other hother
        rw [due_cons_of_ne (.consumed p.key sequence) (Ne.symm hne)]
        exact hswept.notDue other hmem
  | lookup now pid cookie =>
    rcases call_lookup r now pid cookie with heq | ⟨history, hhistory, heq⟩
    · rw [heq]
      exact h
    · rw [heq]
      refine ⟨h.distinct, ?_⟩
      intro p hp
      have := h.notDue p hp
      rcases hhistory with rfl | ⟨id, rfl⟩
      · exact this
      · by_cases hkey : (pid, cookie) = p.key
        · exact due_cons_self (.answered (pid, cookie) id) hkey
        · rwa [due_cons_of_ne (.answered (pid, cookie) id) hkey]

/-- A reservation keeps every lookup right exactly where it leaves no unexpired window at its key. -/
theorem PlacementRun.Named.reserved_iff (h : r.Named) (swept : BitVec 64) (placements : List Placement)
    (key : ReservationKey) :
    (⟨⟨placements, (r.swept swept).provider.placed⟩, .reserved key :: r.history⟩ : PlacementRun).Named ↔
      ∀ hit, r.provider.placed.lookup key = some hit → hit.expires ≤ clockMs swept := by
  rw [named_iff]
  constructor
  · intro hnamed hit hfound
    by_contra hlate
    -- The clock of the sweep would still answer the window that the sweep has left.
    have hahead := not_le.mp hlate
    have := hnamed key hit swept (lookup_swept.mpr ⟨hfound, hahead⟩) hahead
    exact absurd ((due_cons_self (.reserved key) rfl).symm.trans this) (Option.some_ne_none _).symm
  · intro hexpired other hit now hfound hunexpired
    obtain ⟨hbefore, hahead⟩ := lookup_swept.mp hfound
    by_cases hkey : key = other
    · rw [← hkey] at hbefore
      exact absurd hahead (not_lt.mpr (hexpired hit hbefore))
    · rw [due_cons_of_ne (.reserved key) hkey]
      exact named_iff.mp h other hit now hbefore hunexpired

/-- A window that consumes a placement leaves every lookup right: its key had no result, for none was due. -/
theorem PlacementRun.Named.created (h : r.Named) (hpending : r.Pending) (pid : ℤ) (sequence : Option ℕ) :
    (r.call (.created now pid sequence)).Named := by
  have hswept := h.swept now
  rcases call_created r now pid sequence with heq | ⟨p, hfind, heq⟩
  · rw [heq]
    exact hswept
  · rw [heq, named_iff]
    intro key hit later hfound hahead
    have hplaced := named_iff.mp hswept key
    by_cases hkey : p.key = key
    · have hnone := (hpending.swept now).notDue p (List.mem_of_find?_eq_some hfind)
      rw [hkey] at hnone
      rcases record_cases (r.swept now).provider p sequence with hrecord | ⟨id, rfl, hrecord⟩
      · rw [hrecord] at hfound
        have := hplaced hit later hfound hahead
        rw [hnone] at this
        cases this
      · rw [hrecord, hkey, AList.lookup_insert] at hfound
        cases hfound
        exact due_cons_self (.consumed p.key (some id)) hkey
    · rw [due_cons_of_ne (.consumed p.key sequence) hkey]
      refine hplaced hit later ?_ hahead
      rcases record_cases (r.swept now).provider p sequence with hrecord | ⟨id, -, hrecord⟩
      · rwa [hrecord] at hfound
      · rwa [hrecord, AList.lookup_insert_ne (Ne.symm hkey)] at hfound

/-- A lookup takes the result it answers out of the table. -/
theorem PlacementRun.Named.lookup (h : r.Named) (pid : ℤ) (cookie : ℕ) :
    (r.call (.lookup now pid cookie)).Named := by
  rcases call_lookup r now pid cookie with heq | ⟨history, hhistory, heq⟩
  · rw [heq]
    exact h
  · rw [heq, named_iff]
    rw [named_iff] at h
    intro key hit later hfound hahead
    obtain ⟨hne, hbefore⟩ := Table.lookup_erase.mp hfound
    rcases hhistory with rfl | ⟨id, rfl⟩
    · exact h key hit later hbefore hahead
    · rw [due_cons_of_ne (.answered (pid, cookie) id) (Ne.symm hne)]
      exact h key hit later hbefore hahead

theorem named_call_iff (hpending : r.Pending) (h : r.Named) (call : PlacementCall) :
    (r.call call).Named ↔ r.Unclaimed call := by
  cases call with
  | sweep now => exact iff_of_true (h.swept now) trivial
  | created now pid sequence => exact iff_of_true (h.created hpending pid sequence) trivial
  | lookup now pid cookie => exact iff_of_true (h.lookup pid cookie) trivial
  | reserve swept now pid cookie x y ttlMs =>
    by_cases hgranted : 0 < pid ∧ (r.provider.sweepPlacements swept).HasRoom (pid, cookie)
    · obtain ⟨p, -, heq⟩ := call_reserve r now x y ttlMs hgranted.1 hgranted.2
      rw [heq]
      refine (h.reserved_iff swept _ (pid, cookie)).trans ?_
      constructor
      · exact fun hexpired _ _ => hexpired
      · exact fun hunclaimed => hunclaimed hgranted.1 hgranted.2
    · refine iff_of_true ?_ fun hpid hroom => absurd ⟨hpid, hroom⟩ hgranted
      rcases call_reserve_refused r now x y ttlMs hgranted with heq | heq
      · rw [heq]
        exact h
      · rw [heq]
        exact h.swept swept

/-- Over whole runs, every lookup names the window that consumed the newest reservation of its process and cookie, and
each such window at most once, exactly where no reservation was taken over an unexpired window of an earlier one. -/
theorem reservedWindow_named_iff (calls : List PlacementCall) :
    (∀ n, ((calls.take n).foldl PlacementRun.call .start).Named) ↔
      Transition.Admitted PlacementRun.call PlacementRun.Unclaimed .start calls := by
  refine Transition.admitted_iff_take (I := PlacementRun.Pending) (fun r call h => h.call call)
    (fun r call hpending h => named_call_iff hpending h call) pending_start ?_ calls
  intro now key id hid
  simp [PlacementRun.start, Placements.getReservedWindow] at hid

/-- A dialog's reservation is consumed by window 71 and never looked up, and its cookie reserves again. -/
def staleCalls : List PlacementCall :=
  [.reserve 0 0 123 1 0 0 2000, .created 10000 123 (some 71), .reserve 20000 20000 123 1 0 0 2000]

theorem staleCalls_misnamed :
    ((staleCalls.foldl PlacementRun.call .start).provider.getReservedWindow 30000 123 1).2 = some 71 ∧
      due (123, 1) (staleCalls.foldl PlacementRun.call .start).history = none := by
  constructor
  · decide +kernel
  · decide +kernel

end KeysharpDesktop.Shell
