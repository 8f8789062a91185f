import KeysharpDesktop.Authority.Lease
import KeysharpDesktop.Lib.Keyed

/-! The window table of a lease: how one window event changes it and what is emitted for it,
and a reader that rebuilds the table from the emitted events. -/
namespace KeysharpDesktop

namespace WindowTable

def slot (windows : WindowTable) (handle : BitVec 64) : Option WindowRecord :=
  Keyed.find WindowRecord.handle handle windows

def put (windows : WindowTable) (handle : BitVec 64) (w : WindowRecord) : WindowTable :=
  Keyed.put WindowRecord.handle handle w windows

def remove (windows : WindowTable) (handle : BitVec 64) : WindowTable :=
  Keyed.remove WindowRecord.handle handle windows

/-- Every entry has its own handle. -/
def Distinct (windows : WindowTable) : Prop := Keyed.Distinct WindowRecord.handle windows

end WindowTable

section Apply

/-- The place above every window that is at or above the given one. -/
def topOrder (windows : WindowTable) (order : BitVec 64) : BitVec 64 :=
  windows.foldl (fun order item => if order ≤ item.stackingOrder then item.stackingOrder + 1 else order) order

/-- A missing stacking order is taken from the entry, or is the top of the table. -/
def fillOrder (windows : WindowTable) (old : Option WindowRecord) (w : WindowRecord) : WindowRecord :=
  if w.validFields &&& Field.stackingOrder == 0 then
    { w with
      validFields := w.validFields ||| Field.stackingOrder
      stackingOrder := match old with
        | some old => old.stackingOrder
        | none => topOrder windows w.stackingOrder }
  else w

/-- The kind of a change to an entry, by the first thing that differs. -/
def changeKind (old w : WindowRecord) : StateKind :=
  let changed := old.flags ^^^ w.flags
  if changed &&& Flag.visible != 0 then
    if w.flags &&& Flag.visible != 0 then .shown else .hidden
  else if changed &&& Flag.active != 0 then .active
  else if (old.frame, old.client, old.surface) ≠ (w.frame, w.client, w.surface) then .geometry
  else if old.title ≠ w.title then .title
  else .changed

/-- A window that is not in the table yet is created in it. -/
def upsertKind (old : Option WindowRecord) (w : WindowRecord) : StateKind :=
  match old with
  | some old => changeKind old w
  | none => .create

/-- A failed copy leaves the entry cleared, with handle zero. -/
def stateWindowStore (windows : WindowTable) (w : WindowRecord) : WindowTable × Bool :=
  match stateWindowCopy w with
  | some copy => (windows.put w.handle copy, true)
  | none => (windows.put w.handle windowRecordInit, false)

/-- The part of `state_window_apply` for an event that adds or changes an entry. -/
def applyUpsert (lease : Lease) (event : StateEvent) (sent : Bool) : Lease × Bool :=
  let old := lease.windows.slot event.window.handle
  let w := fillOrder lease.windows old event.window
  if old.any (stateWindowEqual · w) then (lease, true)
  else
    let (windows, stored) := stateWindowStore lease.windows w
    let lease := { lease with windows }
    if !stored then (lease, false)
    else leaseEmit (lease.bump .windows) { event with kind := upsertKind old w, window := w } sent

def applyItem (lease : Lease) (event : StateEvent) (sent : Bool) : Lease × Bool :=
  let old := lease.snapshotWindows.slot event.window.handle
  let w := fillOrder lease.windows old event.window
  let (snapshotWindows, stored) := stateWindowStore lease.snapshotWindows w
  let lease := { lease with snapshotWindows }
  if !stored then (lease, false) else leaseEmit lease { event with window := w } sent

def stateWindowApply (lease : Lease) (event : StateEvent) (sent : Bool) : Lease × Bool :=
  match event.kind with
  | .snapshotBegin =>
    leaseEmit { lease.bump .windows with snapshotPending := true, snapshotWindows := [] } event sent
  | .snapshotEnd =>
    if !lease.snapshotPending then (lease, false)
    else leaseEmit { lease with
      windows := lease.snapshotWindows, snapshotWindows := [], snapshotPending := false } event sent
  | .snapshotItem => if !lease.snapshotPending then (lease, false) else applyItem lease event sent
  | .destroy =>
    match lease.windows.slot event.window.handle with
    | none => (lease, true)
    | some _ => leaseEmit ({ lease with
        windows := lease.windows.remove event.window.handle }.bump .windows) event sent
  | _ => applyUpsert lease event sent

end Apply

section Reader

/-- What a client keeps: the table, and the snapshot it is receiving. -/
structure Reader where
  table : WindowTable
  staging : WindowTable

def Reader.upsert (windows : WindowTable) (w : WindowRecord) : WindowTable := windows.put w.handle w

/-- A reset leaves the table as it was; events of other domains are not about windows. -/
def Reader.apply (r : Reader) (event : StateEvent) : Reader :=
  if event.domain ≠ .windows then r
  else match event.kind with
    | .snapshotBegin => { r with staging := [] }
    | .snapshotItem => { r with staging := Reader.upsert r.staging event.window }
    | .snapshotEnd => ⟨r.staging, []⟩
    | .destroy => { r with table := r.table.remove event.window.handle }
    | .reset => r
    | _ => { r with table := Reader.upsert r.table event.window }

def Reader.replay (r : Reader) (events : List StateEvent) : Reader := events.foldl Reader.apply r

theorem Reader.replay_append (r : Reader) (xs ys : List StateEvent) :
    r.replay (xs ++ ys) = (r.replay xs).replay ys := List.foldl_append ..

/-- Events of other domains leave a reader as it was. -/
theorem Reader.replay_of_other (r : Reader) {events : List StateEvent}
    (h : ∀ e ∈ events, e.domain ≠ .windows) : r.replay events = r := by
  induction events with
  | nil => rfl
  | cons e events ih =>
    have hskip : r.apply e = r := if_pos (h e List.mem_cons_self)
    rw [Reader.replay, List.foldl_cons, hskip]
    exact ih fun e' he' => h e' (List.mem_cons_of_mem _ he')

/-- The reader that holds what the lease holds. -/
def Lease.reader (lease : Lease) : Reader := ⟨lease.windows, lease.snapshotWindows⟩

/-- What a visit that is not about windows leaves alone. -/
structure SameWindows (before after : Lease) : Prop where
  reader : after.reader = before.reader
  pending : after.snapshotPending = before.snapshotPending
  sequence : after.sequences .windows = before.sequences .windows
  emitted : ∃ news, after.emitted = before.emitted ++ news ∧ ∀ e ∈ news, e.domain ≠ .windows
  active : after.active → before.active

theorem SameTables.sameWindows {a b : Lease} (h : SameTables a b) : SameWindows a b := by
  obtain ⟨news, hemitted, hgrants⟩ := h.emitted
  refine ⟨?_, h.snapshotPending, h.sequences .windows (by decide), ⟨news, hemitted, ?_⟩, h.active⟩
  · rw [Lease.reader, Lease.reader, h.windows, h.snapshotWindows]
  · intro e he
    rw [hgrants e he]
    decide

theorem SameWindows.leaseEmit (a : Lease) (event : StateEvent) (sent : Bool) (h : event.domain ≠ .windows) :
    SameWindows a (leaseEmit a event sent).1 := by
  rcases leaseEmit_cases a event sent with ⟨-, -, hlease⟩ | ⟨-, hactive, hlease⟩
  · rw [hlease]
    refine ⟨rfl, rfl, rfl, ⟨[a.stamp event], rfl, ?_⟩, id⟩
    intro e he
    rw [List.mem_singleton.mp he]
    exact h
  · refine ⟨?_, ?_, ?_, ⟨[], ?_, by simp⟩, fun h => by rw [hactive] at h; cases h⟩ <;>
      rcases hlease with hlease | hlease <;> rw [hlease] <;> simp [Lease.reader, Lease.close]

theorem SameWindows.trans {a b c : Lease} (hab : SameWindows a b) (hbc : SameWindows b c) :
    SameWindows a c := by
  obtain ⟨xs, hxs, hx⟩ := hab.emitted
  obtain ⟨ys, hys, hy⟩ := hbc.emitted
  refine ⟨hbc.reader.trans hab.reader, hbc.pending.trans hab.pending, hbc.sequence.trans hab.sequence,
    ⟨xs ++ ys, ?_, ?_⟩, hab.active ∘ hbc.active⟩
  · rw [hys, hxs, List.append_assoc]
  · intro e he
    rcases List.mem_append.mp he with h | h
    · exact hx e h
    · exact hy e h

end Reader

section Outcome

/-- The copy of a record has room for it. -/
def Copyable (w : WindowRecord) : Prop := 152 + textLength w ≤ maxTextBytes

instance (w : WindowRecord) : Decidable (Copyable w) := inferInstanceAs (Decidable (_ ≤ _))

/-- The kinds whose record a reader keeps. -/
def StateKind.carriesRecord (kind : StateKind) : Bool :=
  kind ∉ [snapshotBegin, snapshotEnd, destroy, reset]

/-- The kinds of a source's events whose record is stored in a table of the lease. -/
def StateKind.stores (kind : StateKind) : Bool := kind ∉ [snapshotBegin, snapshotEnd, destroy]

/-- No handle occurs twice in either table. -/
structure Reader.Distinct (r : Reader) : Prop where
  table : r.table.Distinct
  staging : r.staging.Distinct

theorem Reader.Distinct.apply {r : Reader} (h : r.Distinct) (e : StateEvent) : (r.apply e).Distinct := by
  unfold Reader.apply
  split_ifs
  · exact h
  · cases e.kind with
    | snapshotBegin => exact ⟨h.table, List.nodup_nil⟩
    | snapshotItem => exact ⟨h.table, h.staging.put rfl⟩
    | snapshotEnd => exact ⟨h.staging, List.nodup_nil⟩
    | destroy => exact ⟨h.table.remove, h.staging⟩
    | reset => exact h
    | create | shown | hidden | geometry | title | active | changed | grantChanged =>
      exact ⟨h.table.put rfl, h.staging⟩

theorem Reader.Distinct.replay {r : Reader} (h : r.Distinct) (events : List StateEvent) :
    (r.replay events).Distinct := by
  induction events generalizing r with
  | nil => exact h
  | cons e events ih => exact ih (h.apply e)

/-- Every entry of either table was stored through a copy. -/
structure Reader.Copied (r : Reader) : Prop where
  table : ∀ w ∈ r.table, Copyable w
  staging : ∀ w ∈ r.staging, Copyable w

private theorem copyable_put {windows : WindowTable} {w : WindowRecord} (h : ∀ v ∈ windows, Copyable v)
    (hw : Copyable w) : ∀ v ∈ Reader.upsert windows w, Copyable v := by
  intro v hv
  rcases Keyed.mem_put hv with rfl | hv
  · exact hw
  · exact h v hv

theorem Reader.Copied.apply {r : Reader} (h : r.Copied) {e : StateEvent}
    (hstored : e.kind.carriesRecord → Copyable e.window) : (r.apply e).Copied := by
  unfold Reader.apply
  split_ifs
  · exact h
  · cases hkind : e.kind with
    | snapshotBegin => exact ⟨h.table, by simp⟩
    | snapshotItem => exact ⟨h.table, copyable_put h.staging (hstored (by rw [hkind]; decide))⟩
    | snapshotEnd => exact ⟨h.staging, by simp⟩
    | destroy => exact ⟨fun w hw => h.table w (List.mem_of_mem_eraseP hw), h.staging⟩
    | reset => exact h
    | create | shown | hidden | geometry | title | active | changed | grantChanged =>
      exact ⟨copyable_put h.table (hstored (by rw [hkind]; decide)), h.staging⟩

/-- What holds of the authority of a lease and of nothing else. -/
def Lease.authority (lease : Lease) : Identity × Scopes × Scopes × Domains × ℕ :=
  (lease.identity, lease.requestedScopes, lease.grantedScopes, lease.domains, lease.generation)

/-- An event of the window domain was written, and a reader that applies it holds the new tables. -/
structure Emits (lease : Lease) (kind : StateKind) (lease' : Lease) (e : StateEvent) : Prop where
  active : lease.active ∧ lease'.active
  authority : lease'.authority = lease.authority
  sequences : ∀ domain ≠ .windows, lease'.sequences domain = lease.sequences domain
  emitted : lease'.emitted = lease.emitted ++ [e]
  domain : e.domain = .windows
  reader : lease'.reader = lease.reader.apply e
  sequence : e.sequence = lease'.sequences .windows
  number : lease'.sequences .windows = if e.kind = .snapshotItem ∨ e.kind = .snapshotEnd then
    lease.sequences .windows else lease.sequences .windows + 1
  pending : lease'.snapshotPending ↔
    e.kind = .snapshotBegin ∨ e.kind ≠ .snapshotEnd ∧ lease.snapshotPending
  kind : if kind.isSnapshot then e.kind = kind else ¬e.kind.isSnapshot ∧ lease'.windows ≠ lease.windows
  stored : e.kind.carriesRecord → Copyable e.window

/-- Everything that `state_window_apply` can do with an event of the window domain. -/
inductive Outcome (lease : Lease) (event : StateEvent) : Lease → Bool → Prop
  | unchanged : ¬event.kind.isSnapshot → Outcome lease event lease true
  | emits {lease' : Lease} (e : StateEvent) : Emits lease event.kind lease' e →
      Outcome lease event lease' true
  | refused : Outcome lease event lease false
  | closed {lease' : Lease} : lease'.active = false → Outcome lease event lease' false
  | torn (windows snapshotWindows : WindowTable) : event.kind.stores → ¬Copyable event.window →
      Outcome lease event { lease with windows, snapshotWindows } false

private theorem outcome_emit {lease updated : Lease} {event e : StateEvent} (sent : Bool)
    (h : updated.active → Emits lease event.kind
      { updated with emitted := updated.emitted ++ [updated.stamp e] } (updated.stamp e)) :
    Outcome lease event (leaseEmit updated e sent).1 (leaseEmit updated e sent).2 := by
  rcases leaseEmit_cases updated e sent with ⟨hok, hactive, hlease⟩ | ⟨hok, hactive, -⟩
  · rw [hok, hlease]
    exact .emits _ (h hactive)
  · rw [hok]
    exact .closed hactive

theorem textLength_fillOrder (windows : WindowTable) (old : Option WindowRecord) (w : WindowRecord) :
    textLength (fillOrder windows old w) = textLength w := by
  unfold fillOrder
  split_ifs <;> rfl

@[simp] theorem handle_fillOrder (windows : WindowTable) (old : Option WindowRecord) (w : WindowRecord) :
    (fillOrder windows old w).handle = w.handle := by
  unfold fillOrder
  split_ifs <;> rfl

theorem stateWindowStore_eq (windows : WindowTable) (w : WindowRecord) :
    stateWindowStore windows w = if Copyable w then (windows.put w.handle w, true)
      else (windows.put w.handle windowRecordInit, false) := by
  unfold stateWindowStore
  rw [stateWindowCopy_eq]
  change _ = if 152 + textLength w ≤ maxTextBytes then _ else _
  split_ifs <;> rfl

/-- The kinds that carry a new record of their window. -/
def StateKind.isUpsert (kind : StateKind) : Bool :=
  kind ∈ [create, shown, hidden, active, geometry, title, changed]

theorem upsertKind_isUpsert (old : Option WindowRecord) (w : WindowRecord) : (upsertKind old w).isUpsert := by
  cases old with
  | none => rfl
  | some old =>
    unfold upsertKind changeKind
    simp only
    split_ifs <;> rfl

theorem Reader.apply_of_isUpsert (r : Reader) {e : StateEvent} (hdomain : e.domain = .windows)
    (hkind : e.kind.isUpsert) : r.apply e = { r with table := Reader.upsert r.table e.window } := by
  unfold Reader.apply
  rw [if_neg (by simpa using hdomain)]
  revert hkind
  cases e.kind <;> simp [StateKind.isUpsert]

/-- The record that an event would put into a table. -/
def Lease.incoming (lease : Lease) (table : WindowTable) (event : StateEvent) : WindowRecord :=
  fillOrder lease.windows (table.slot event.window.handle) event.window

theorem copyable_incoming (lease : Lease) (table : WindowTable) (event : StateEvent) :
    Copyable (lease.incoming table event) ↔ Copyable event.window := by
  unfold Copyable Lease.incoming
  rw [textLength_fillOrder]

theorem applyUpsert_eq (lease : Lease) (event : StateEvent) (sent : Bool) :
    applyUpsert lease event sent =
      let old := lease.windows.slot event.window.handle
      let w := lease.incoming lease.windows event
      if old = some w then (lease, true)
      else if Copyable w then
        leaseEmit ({ lease with windows := lease.windows.put w.handle w }.bump .windows)
          { event with kind := upsertKind old w, window := w } sent
      else ({ lease with windows := lease.windows.put w.handle windowRecordInit }, false) := by
  unfold applyUpsert Lease.incoming
  simp only [stateWindowStore_eq]
  generalize lease.windows.slot event.window.handle = old
  generalize fillOrder lease.windows old event.window = w
  have hany : old.any (stateWindowEqual · w) = true ↔ old = some w := by
    cases old <;> simp
  simp only [hany]
  by_cases hcopy : Copyable w <;> simp [hcopy]

theorem applyItem_eq (lease : Lease) (event : StateEvent) (sent : Bool) :
    applyItem lease event sent =
      let w := lease.incoming lease.snapshotWindows event
      if Copyable w then
        leaseEmit { lease with snapshotWindows := lease.snapshotWindows.put w.handle w }
          { event with window := w } sent
      else ({ lease with snapshotWindows := lease.snapshotWindows.put w.handle windowRecordInit },
        false) := by
  unfold applyItem Lease.incoming
  simp only [stateWindowStore_eq]
  generalize fillOrder lease.windows _ event.window = w
  by_cases hcopy : Copyable w <;> simp [hcopy]

private theorem sequence_stamp (lease : Lease) {e : StateEvent} (h : e.domain = .windows) :
    (lease.stamp e).sequence = lease.sequences .windows := by
  rw [Lease.stamp, h]

/-- Outside a snapshot every written event takes the next number. -/
private theorem outcome_delta {lease : Lease} {event e : StateEvent} {windows : WindowTable} (sent : Bool)
    (hkind : ¬event.kind.isSnapshot) (hdomain : e.domain = .windows) (he : ¬e.kind.isSnapshot)
    (hreader : lease.reader.apply e = ⟨windows, lease.snapshotWindows⟩) (hne : windows ≠ lease.windows)
    (hstored : e.kind.carriesRecord → Copyable e.window) :
    Outcome lease event (leaseEmit ({ lease with windows }.bump .windows) e sent).1
      (leaseEmit ({ lease with windows }.bump .windows) e sent).2 := by
  have hplain : e.kind ≠ .snapshotBegin ∧ e.kind ≠ .snapshotItem ∧ e.kind ≠ .snapshotEnd := by
    refine ⟨?_, ?_, ?_⟩ <;>
      · intro h
        exact he (by rw [h]; decide)
  apply outcome_emit
  intro hactive
  refine ⟨⟨hactive, hactive⟩, rfl, ?_, rfl, hdomain, hreader.symm, sequence_stamp _ hdomain, ?_, ?_, ?_,
    hstored⟩
  · intro domain hne
    exact Lease.bump_sequences_of_ne _ hne
  · simp [Lease.stamp, hplain]
  · simp [Lease.stamp, hplain, Lease.bump]
  · rw [if_neg hkind]
    exact ⟨he, hne⟩

theorem applyUpsert_outcome {lease : Lease} {event : StateEvent} (sent : Bool)
    (hdomain : event.domain = .windows) (hkind : ¬event.kind.isSnapshot) (hstores : event.kind.stores) :
    Outcome lease event (applyUpsert lease event sent).1 (applyUpsert lease event sent).2 := by
  have hhandle : (lease.incoming lease.windows event).handle = event.window.handle := handle_fillOrder _ _ _
  have htext : Copyable (lease.incoming lease.windows event) ↔ Copyable event.window := copyable_incoming ..
  rw [applyUpsert_eq]
  generalize lease.incoming lease.windows event = w at hhandle htext
  simp only
  split_ifs with hsame hcopy
  · exact .unchanged hkind
  · have hupsert := upsertKind_isUpsert (lease.windows.slot event.window.handle) w
    refine outcome_delta (e := { event with
      kind := upsertKind (lease.windows.slot event.window.handle) w, window := w }) sent hkind hdomain ?_ ?_ ?_
      (fun _ => hcopy)
    · revert hupsert
      simp only
      cases upsertKind (lease.windows.slot event.window.handle) w <;> decide
    · exact Reader.apply_of_isUpsert _ hdomain hupsert
    · intro hput
      apply hsame
      rw [← hhandle]
      exact Keyed.put_eq_self_iff.mp hput
  · exact .torn _ _ hstores (mt htext.mpr hcopy)

theorem applyItem_outcome {lease : Lease} {event : StateEvent} (sent : Bool)
    (hdomain : event.domain = .windows) (hkind : event.kind = .snapshotItem) :
    Outcome lease event (applyItem lease event sent).1 (applyItem lease event sent).2 := by
  have htext : Copyable (lease.incoming lease.snapshotWindows event) ↔ Copyable event.window :=
    copyable_incoming ..
  rw [applyItem_eq]
  generalize lease.incoming lease.snapshotWindows event = w at htext
  simp only
  split_ifs with hcopy
  · apply outcome_emit
    intro hactive
    refine ⟨⟨hactive, hactive⟩, rfl, fun _ _ => rfl, rfl, hdomain, ?_, sequence_stamp _ hdomain, ?_, ?_, ?_, ?_⟩
    · simp [Lease.reader, Reader.apply, Reader.upsert, Lease.stamp, hkind, hdomain]
    · simp [Lease.stamp, hkind]
    · simp [Lease.stamp, hkind]
    · simp [Lease.stamp, hkind, StateKind.isSnapshot]
    · exact fun _ => hcopy
  · exact .torn _ _ (by rw [hkind]; decide) (mt htext.mpr hcopy)

/-- The table of outcomes covers every event of the window domain. -/
theorem stateWindowApply_outcome (lease : Lease) {event : StateEvent} (sent : Bool)
    (hdomain : event.domain = .windows) :
    Outcome lease event (stateWindowApply lease event sent).1 (stateWindowApply lease event sent).2 := by
  unfold stateWindowApply
  cases hkind : event.kind with
  | snapshotBegin =>
    apply outcome_emit
    intro hactive
    refine ⟨⟨hactive, hactive⟩, rfl, ?_, rfl, hdomain, ?_, sequence_stamp _ hdomain, ?_, ?_, ?_, ?_⟩
    · intro domain hne
      exact Lease.bump_sequences_of_ne _ hne
    · simp [Lease.reader, Reader.apply, Lease.stamp, Lease.bump, hkind, hdomain]
    · simp [Lease.stamp, hkind]
    · simp [Lease.stamp, hkind]
    · simp [Lease.stamp, hkind, StateKind.isSnapshot]
    · simp [Lease.stamp, hkind, StateKind.carriesRecord]
  | snapshotEnd =>
    simp only
    split_ifs with hpending
    · exact .refused
    · apply outcome_emit
      intro hactive
      refine ⟨⟨hactive, hactive⟩, rfl, fun _ _ => rfl, rfl, hdomain, ?_, sequence_stamp _ hdomain, ?_, ?_, ?_, ?_⟩
      · simp [Lease.reader, Reader.apply, Lease.stamp, hkind, hdomain]
      · simp [Lease.stamp, hkind]
      · simp [Lease.stamp, hkind]
      · simp [Lease.stamp, hkind, StateKind.isSnapshot]
      · simp [Lease.stamp, hkind, StateKind.carriesRecord]
  | snapshotItem =>
    simp only
    split_ifs with hpending
    · exact .refused
    · exact applyItem_outcome sent hdomain hkind
  | destroy =>
    have hdelta : ¬event.kind.isSnapshot := by rw [hkind]; decide
    cases hslot : lease.windows.slot event.window.handle with
    | none => exact .unchanged hdelta
    | some old =>
      apply outcome_delta sent hdelta hdomain hdelta
      · simp [Lease.reader, Reader.apply, hkind, hdomain]
      · intro hremove
        have hnone := Keyed.remove_eq_self_iff.mp hremove
        rw [WindowTable.slot, hnone] at hslot
        cases hslot
      · simp [hkind, StateKind.carriesRecord]
  | create | shown | hidden | geometry | title | active | changed | grantChanged | reset =>
    exact applyUpsert_outcome sent hdomain (by rw [hkind]; decide) (by rw [hkind]; decide)

end Outcome

end KeysharpDesktop
