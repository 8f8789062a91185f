import KeysharpDesktop.X11.Watch

/-! The table of the X watch stays searchable over every run of events, and what leaves it is said to be gone. -/
namespace KeysharpDesktop.X11

section Advance

def Tracked (watch : WindowWatch) (id : WindowId) : Prop := ∃ window ∈ watch.windows, window.id = id

def Searchable (watch : WindowWatch) : Prop := SearchTable.Ordered idKey watch.windows

/-- The frame that says that a window is gone. -/
def closeFrame (id : WindowId) : Frame :=
  requestFrame Op.windowEvent flagEvent 0
    (encodeU16 Kind.close ++ (encodeU16 0 ++ (encodeU32 (BitVec.ofNat 32 (closedJson id).length) ++ closedJson id)))

/-- The table stays searchable, and what comes to its end has said of each entry that left it that it is gone. -/
def Advances (watch : WindowWatch) (outcome : Outcome) : Prop :=
  Searchable watch → Searchable outcome.1 ∧ ∃ frames, outcome.1.written = watch.written ++ frames ∧
    (outcome.2 → ∀ id, Tracked watch id → ¬Tracked outcome.1 id → closeFrame id ∈ frames)

variable {r : Replies} {watch after : WindowWatch} {outcome : Outcome}

/-- Where the identifiers stay as they are, nothing leaves the table. -/
theorem Advances.of_ids (hids : outcome.1.windows.map WatchedWindow.id = watch.windows.map WatchedWindow.id)
    (hwritten : ∃ frames, outcome.1.written = watch.written ++ frames) : Advances watch outcome := by
  have htracked : ∀ w : WindowWatch, ∀ id, Tracked w id ↔ id ∈ w.windows.map WatchedWindow.id := by
    intro w id
    rw [List.mem_map]
    rfl
  have hordered : ∀ w : WindowWatch, Searchable w ↔
      (w.windows.map WatchedWindow.id).Pairwise fun a b => a.toNat < b.toNat := by
    intro w
    rw [List.pairwise_map]
    rfl
  obtain ⟨frames, hframes⟩ := hwritten
  intro h
  constructor
  · rw [hordered, hids, ← hordered]
    exact h
  · refine ⟨frames, hframes, ?_⟩
    intro _ id hbefore hafter
    rw [htracked, hids, ← htracked] at hafter
    exact absurd hbefore hafter

theorem Advances.refl (ok : Bool) : Advances watch (watch, ok) := Advances.of_ids rfl ⟨[], (List.append_nil _).symm⟩

theorem Advances.trans (h : Advances watch (after, true)) (hnext : Advances after outcome) :
    Advances watch outcome := by
  intro hs
  obtain ⟨hbetween, frames, hframes, hclosed⟩ := h hs
  obtain ⟨hend, more, hmore, hclosed'⟩ := hnext hbetween
  refine ⟨hend, frames ++ more, by rw [hmore, hframes, List.append_assoc], ?_⟩
  intro hok id hbefore hafter
  by_cases htracked : Tracked after id
  · exact List.mem_append_right _ (hclosed' hok id htracked hafter)
  · exact List.mem_append_left _ (hclosed rfl id hbefore htracked)

theorem Advances.fail {ok : Bool} (h : Advances watch (after, ok)) : Advances watch (after, false) := by
  intro hs
  obtain ⟨hbetween, frames, hframes, -⟩ := h hs
  exact ⟨hbetween, frames, hframes, fun hok => absurd hok Bool.false_ne_true⟩

theorem Advances.andThen (h : Advances watch outcome) {next : WindowWatch → Outcome}
    (hnext : ∀ after, Advances after (next after)) : Advances watch (outcome.andThen next) := by
  obtain ⟨after, ok⟩ := outcome
  cases ok with
  | false => exact h
  | true => exact h.trans (hnext after)

/-- A step that only writes. -/
structure Emits (watch : WindowWatch) (outcome : Outcome) : Prop where
  windows : outcome.1.windows = watch.windows
  atoms : outcome.1.atoms = watch.atoms
  written : ∃ frames, outcome.1.written = watch.written ++ frames

theorem Emits.advances (h : Emits watch outcome) : Advances watch outcome :=
  Advances.of_ids (by rw [h.windows]) h.written

theorem Emits.refl (ok : Bool) : Emits watch (watch, ok) := ⟨rfl, rfl, [], (List.append_nil _).symm⟩

theorem Emits.ite {p : Prop} [Decidable p] {a b : Outcome} (ha : Emits watch a) (hb : Emits watch b) :
    Emits watch (if p then a else b) := by
  split_ifs
  · exact ha
  · exact hb

theorem Advances.ite {p : Prop} [Decidable p] {a b : Outcome} (ha : Advances watch a) (hb : Advances watch b) :
    Advances watch (if p then a else b) := by
  split_ifs
  · exact ha
  · exact hb

end Advance

section Writers

variable (r : Replies) (watch : WindowWatch)

theorem writeFrame_emits (opcode : Opcode) (flags : BitVec 16) (requestId : BitVec 64) (payload : Bytes) :
    Emits watch (writeFrame r watch opcode flags requestId payload) :=
  Emits.ite ⟨rfl, rfl, _, rfl⟩ (Emits.refl false)

theorem sendWindow_emits (kind : BitVec 16) (json : Bytes) : Emits watch (sendWindow r watch kind json) := by
  unfold sendWindow
  cases eventPayload kind json with
  | none => exact Emits.refl false
  | some payload => exact writeFrame_emits r watch _ _ _ _

theorem emitWindow_emits (id : WindowId) (kind : BitVec 16) : Emits watch (emitWindow r watch id kind) := by
  unfold emitWindow
  apply Emits.ite (sendWindow_emits r watch _ _)
  apply Emits.ite (Emits.refl _)
  cases answeredJson (r.query id) with
  | none => exact Emits.refl false
  | some json => exact sendWindow_emits r watch kind json

theorem emitState_emits (kind : StateKind) (domain : StateDomain) (window : Option WindowRecord) (data : Bytes) :
    Emits watch (emitState r watch kind domain window data) := by
  unfold emitState
  split
  · exact Emits.refl false
  · exact writeFrame_emits r watch _ _ _ _

theorem emitQueryState_advances (domain : StateDomain) (initial : Bool) :
    Advances watch (emitQueryState r watch domain initial) := by
  unfold emitQueryState
  apply Advances.ite (Advances.refl true)
  apply Advances.ite
  · apply Advances.andThen
    · apply Advances.andThen (emitState_emits r watch _ _ _ _).advances
      exact fun after => (emitState_emits r after _ _ _ _).advances
    · exact fun after => (emitState_emits r after _ _ _ _).advances
  · exact (emitState_emits r watch _ _ _ _).advances

theorem eventPayload_data {kind : BitVec 16} {json : Bytes} {payload : Buffer}
    (h : eventPayload kind json = some payload) :
    payload.data = encodeU16 kind ++ (encodeU16 0 ++ (encodeU32 (BitVec.ofNat 32 json.length) ++ json)) := by
  have hwrites := (bufferU16_writes kind).bind ((bufferU16_writes 0).bind
    ((bufferU32_writes (BitVec.ofNat 32 json.length)).bind (bufferBytes_writes json)))
  exact (hwrites.bufferInit_eq_some h).1

/-- A close that goes well has sent its frame. -/
theorem emitWindow_close (id : WindowId) (h : (emitWindow r watch id Kind.close).2) :
    (emitWindow r watch id Kind.close).1.written = watch.written ++ [closeFrame id] := by
  unfold emitWindow at h ⊢
  rw [if_pos rfl] at h ⊢
  unfold sendWindow at h ⊢
  cases hpayload : eventPayload Kind.close (closedJson id) with
  | none =>
    rw [hpayload] at h
    cases h
  | some payload =>
    simp only [hpayload, writeFrame, eventPayload_data hpayload] at h ⊢
    split_ifs at h ⊢
    rfl

end Writers

section Enumeration

variable (r : Replies)

theorem addHandle_nonzero {windows windows' : List WindowId} {window : WindowId} (h : (0 : WindowId) ∉ windows)
    (hadd : addHandle windows window = some windows') : (0 : WindowId) ∉ windows' := by
  unfold addHandle at hadd
  split_ifs at hadd with hzero hmem
  · cases hadd
    exact h
  · cases hadd
    exact h
  · cases hadd
    rw [List.mem_append, List.mem_singleton]
    exact not_or.mpr ⟨h, Ne.symm hzero⟩

theorem addHandles_nonzero {ids windows windows' : List WindowId} (h : (0 : WindowId) ∉ windows)
    (hadd : ids.foldlM addHandle windows = some windows') : (0 : WindowId) ∉ windows' := by
  induction ids generalizing windows with
  | nil =>
    cases hadd
    exact h
  | cons id ids ih =>
    obtain ⟨between, hbetween, hrest⟩ := Option.bind_eq_some_iff.mp hadd
    exact ih (addHandle_nonzero h hbetween) hrest

theorem addChildren_nonzero {wmState : BitVec 32} {children windows windows' : List WindowId} {budget : ℕ}
    (h : (0 : WindowId) ∉ windows) (hadd : addChildren r wmState children windows budget = some windows') :
    (0 : WindowId) ∉ windows' := by
  induction children generalizing windows budget with
  | nil =>
    cases hadd
    exact h
  | cons child children ih =>
    unfold addChildren at hadd
    by_cases hmem : child ∈ windows
    · rw [if_pos hmem] at hadd
      exact ih h hadd
    · rw [if_neg hmem] at hadd
      generalize managedChild r wmState 64 child budget = managed at hadd
      dsimp only at hadd
      by_cases hspent : managed.1 = 0 ∧ managed.2 = 0
      · rw [if_pos hspent] at hadd
        cases hadd
      · rw [if_neg hspent] at hadd
        obtain ⟨between, hbetween, hrest⟩ := Option.bind_eq_some_iff.mp hadd
        exact ih (addHandle_nonzero h hbetween) hrest

/-- No list of windows has the number that stands for none. -/
theorem enumerateWindows_nonzero {atoms : Atoms} {ids : List WindowId} (h : enumerateWindows r atoms = some ids) :
    (0 : WindowId) ∉ ids := by
  unfold enumerateWindows at h
  obtain ⟨listed, hlisted, h⟩ := Option.bind_eq_some_iff.mp h
  obtain ⟨children, -, h⟩ := Option.bind_eq_some_iff.mp h
  obtain ⟨windows, hwindows, h⟩ := Option.bind_eq_some_iff.mp h
  have hnone : (0 : WindowId) ∉ listed := by
    unfold listedWindows at hlisted
    split at hlisted
    · cases hlisted
      exact List.not_mem_nil
    · split_ifs at hlisted
      · exact addHandles_nonzero List.not_mem_nil (Option.filter_eq_some_iff.mp hlisted).1
      · cases hlisted
        exact List.not_mem_nil
  split_ifs at h
  cases h
  exact addChildren_nonzero r hnone hwindows

end Enumeration

section Refreshing

theorem Emits.trans {watch : WindowWatch} {a b : Outcome} (ha : Emits watch a) (hb : Emits a.1 b) : Emits watch b := by
  obtain ⟨frames, hframes⟩ := ha.written
  obtain ⟨more, hmore⟩ := hb.written
  exact ⟨hb.windows.trans ha.windows, hb.atoms.trans ha.atoms, frames ++ more,
    by rw [hmore, hframes, List.append_assoc]⟩

theorem emitUnless_emits (r : Replies) (initial : Bool) (watch : WindowWatch) (id : WindowId) (kind : BitVec 16) :
    Emits watch (if initial then (watch, true) else emitWindow r watch id kind) :=
  Emits.ite (Emits.refl true) (emitWindow_emits r watch id kind)

/-- The entries of a client list behind an identifier: one for each of them, in their order. -/
structure Listed (previous : Option WindowId) (ids : List WindowId) (added : List WatchedWindow) (ok : Bool) :
    Prop where
  ordered : SearchTable.Ordered idKey added
  member : ∀ window ∈ added, window.id ∈ ids
  above : ∀ p ∈ previous, ∀ window ∈ added, p.toNat < idKey window
  complete : ok → ∀ id ∈ ids, previous ≠ some id → ∃ window ∈ added, window.id = id

section Listed

variable {previous : Option WindowId} {id : WindowId} {ids : List WindowId} {window : WatchedWindow}
  {added : List WatchedWindow} {ok : Bool}

theorem Listed.skip (h : Listed (some id) ids added ok) (hprevious : previous = some id) :
    Listed previous (id :: ids) added ok := by
  subst hprevious
  constructor
  · exact h.ordered
  · exact fun w hw => List.mem_cons_of_mem _ (h.member w hw)
  · exact h.above
  · intro hok k hk hne
    obtain rfl | hk := List.mem_cons.mp hk
    · exact absurd rfl hne
    · exact h.complete hok k hk hne

theorem Listed.cons (h : Listed (some id) ids added ok) (hwindow : window.id = id)
    (hprevious : ∀ p ∈ previous, p.toNat < id.toNat) : Listed previous (id :: ids) (window :: added) ok := by
  have hkey : idKey window = id.toNat := congrArg BitVec.toNat hwindow
  constructor
  · apply List.pairwise_cons.mpr
    constructor
    · intro w hw
      rw [hkey]
      exact h.above id rfl w hw
    · exact h.ordered
  · intro w hw
    obtain rfl | hw := List.mem_cons.mp hw
    · exact hwindow ▸ List.mem_cons_self
    · exact List.mem_cons_of_mem _ (h.member w hw)
  · intro p hp w hw
    obtain rfl | hw := List.mem_cons.mp hw
    · rw [hkey]
      exact hprevious p hp
    · exact lt_trans (hprevious p hp) (h.above id rfl w hw)
  · intro hok k hk _
    by_cases hki : k = id
    · exact ⟨window, List.mem_cons_self, hwindow.trans hki.symm⟩
    · have hmem := (List.mem_cons.mp hk).resolve_left hki
      obtain ⟨w, hw, hwk⟩ := h.complete hok k hmem (fun heq => hki (Option.some.inj heq).symm)
      exact ⟨w, List.mem_cons_of_mem _ hw, hwk⟩

theorem Listed.fail : Listed previous ids [] false where
  ordered := List.Pairwise.nil
  member _ hw := absurd hw List.not_mem_nil
  above _ _ _ hw := absurd hw List.not_mem_nil
  complete h := absurd h Bool.false_ne_true

theorem findWindow_id {watch : WindowWatch} (h : findWindow watch id = some window) : window.id = id :=
  BitVec.eq_of_toNat_eq (SearchTable.find_position h).2

theorem refreshListed_adds (r : Replies) (initial : Bool) (hsorted : ids.Pairwise fun a b => a.toNat ≤ b.toNat)
    (hzero : (0 : WindowId) ∉ ids) (hprevious : ∀ p ∈ previous, ∀ id ∈ ids, p.toNat ≤ id.toNat)
    (watch : WindowWatch) (next : List WatchedWindow) :
    ∃ added, (refreshListed r initial previous ids watch next).1 = next ++ added ∧
      Emits watch (refreshListed r initial previous ids watch next).2 ∧
      Listed previous ids added (refreshListed r initial previous ids watch next).2.2 := by
  induction ids generalizing previous watch next with
  | nil =>
    refine ⟨[], (List.append_nil _).symm, Emits.refl true, List.Pairwise.nil, ?_, ?_, ?_⟩
    · exact fun w hw => absurd hw List.not_mem_nil
    · exact fun _ _ w hw => absurd hw List.not_mem_nil
    · exact fun _ k hk => absurd hk List.not_mem_nil
  | cons id ids ih =>
    obtain ⟨hbefore, hsorted⟩ := List.pairwise_cons.mp hsorted
    have hnext : ∀ p ∈ some id, ∀ k ∈ ids, p.toNat ≤ k.toNat := by
      rintro p ⟨⟩ k hk
      exact hbefore k hk
    have hrest := ih hsorted (fun hmem => hzero (List.mem_cons_of_mem _ hmem)) hnext
    have hnonzero : id ≠ 0 := fun heq => hzero (heq ▸ List.mem_cons_self)
    unfold refreshListed
    by_cases hskip : id = 0 ∨ previous = some id
    · rw [if_pos hskip]
      obtain ⟨added, hadded, hemits, hlisted⟩ := hrest watch next
      exact ⟨added, hadded, hemits, hlisted.skip (hskip.resolve_left hnonzero)⟩
    · rw [if_neg hskip]
      have hbelow : ∀ p ∈ previous, p.toNat < id.toNat := by
        intro p hp
        have hle := hprevious p hp id List.mem_cons_self
        have hne : p.toNat ≠ id.toNat := by
          intro heq
          rw [BitVec.eq_of_toNat_eq heq] at hp
          exact hskip (Or.inr hp)
        omega
      cases hfind : findWindow watch id with
      | some old =>
        obtain ⟨added, hadded, hemits, hlisted⟩ := hrest watch (next ++ [old])
        refine ⟨old :: added, ?_, hemits, hlisted.cons (findWindow_id hfind) hbelow⟩
        rw [hadded, List.append_assoc]
        rfl
      | none =>
        have hsent := emitUnless_emits r initial watch id Kind.create
        generalize (if initial then (watch, true) else emitWindow r watch id Kind.create) = sent at hsent
        dsimp only
        by_cases hok : sent.2 = true
        · obtain ⟨added, hadded, hemits, hlisted⟩ := hrest sent.1 (next ++ [newWindow r watch id])
          rw [if_pos hok]
          refine ⟨newWindow r watch id :: added, ?_, hsent.trans hemits, hlisted.cons rfl hbelow⟩
          rw [hadded, List.append_assoc]
          rfl
        · rw [if_neg hok]
          exact ⟨[newWindow r watch id], rfl, ⟨hsent.windows, hsent.atoms, hsent.written⟩,
            Listed.fail.cons rfl hbelow⟩

end Listed

section Survivors

variable {ids : List WindowId} {window : WatchedWindow} {old kept : List WatchedWindow} {frames more : List Frame}
  {told : Prop}

/-- What the loop over an old table keeps of it, and the frames that it writes of the rest. -/
structure Survived (ids : List WindowId) (old kept : List WatchedWindow) (frames : List Frame) (told : Prop) :
    Prop where
  sublist : kept.Sublist old
  unlisted : ∀ window ∈ kept, window.id ∉ ids
  complete : told → ∀ window ∈ old, window.id ∉ ids → window ∈ kept ∨ closeFrame window.id ∈ frames

theorem Survived.listed (h : Survived ids old kept frames told) (hmem : window.id ∈ ids) :
    Survived ids (window :: old) kept frames told := by
  refine ⟨h.sublist.cons _, h.unlisted, ?_⟩
  intro htold w hw hnot
  obtain rfl | hw := List.mem_cons.mp hw
  · exact absurd hmem hnot
  · exact h.complete htold w hw hnot

theorem Survived.keep (h : Survived ids old kept frames told) (hnot : window.id ∉ ids) :
    Survived ids (window :: old) (window :: kept) (more ++ frames) told := by
  refine ⟨h.sublist.cons_cons _, List.forall_mem_cons.mpr ⟨hnot, h.unlisted⟩, ?_⟩
  intro htold w hw hunlisted
  obtain rfl | hw := List.mem_cons.mp hw
  · exact Or.inl List.mem_cons_self
  · exact (h.complete htold w hw hunlisted).imp (List.mem_cons_of_mem _) (List.mem_append_right _)

theorem Survived.close (h : Survived ids old kept frames told) (hclosed : told → closeFrame window.id ∈ more) :
    Survived ids (window :: old) kept (more ++ frames) told := by
  refine ⟨h.sublist.cons _, h.unlisted, ?_⟩
  intro htold w hw hunlisted
  obtain rfl | hw := List.mem_cons.mp hw
  · exact Or.inr (List.mem_append_left _ (hclosed htold))
  · exact (h.complete htold w hw hunlisted).imp_right (List.mem_append_right _)

theorem Survived.fail (h : ¬told) : Survived ids old [] frames told :=
  ⟨List.nil_sublist _, fun _ hw => absurd hw List.not_mem_nil, fun htold => absurd htold h⟩

theorem refreshSurvivors_keeps (r : Replies) (initial : Bool) (ids : List WindowId) (old : List WatchedWindow)
    (watch : WindowWatch) (next : List WatchedWindow) :
    ∃ kept frames, (refreshSurvivors r initial ids old watch next).1 = next ++ kept ∧
      (refreshSurvivors r initial ids old watch next).2.1.written = watch.written ++ frames ∧
      Survived ids old kept frames ((refreshSurvivors r initial ids old watch next).2.2 ∧ initial = false) := by
  induction old generalizing watch next with
  | nil =>
    refine ⟨[], [], (List.append_nil _).symm, (List.append_nil _).symm, List.Sublist.refl _, ?_, ?_⟩
    · exact fun w hw => absurd hw List.not_mem_nil
    · exact fun _ w hw => absurd hw List.not_mem_nil
  | cons window old ih =>
    unfold refreshSurvivors
    by_cases hlisted : ids.contains window.id
    · rw [if_pos hlisted]
      obtain ⟨kept, frames, hkept, hwritten, hsurvived⟩ := ih watch next
      exact ⟨kept, frames, hkept, hwritten, hsurvived.listed (List.contains_iff_mem.mp hlisted)⟩
    · rw [if_neg hlisted]
      have hnot : window.id ∉ ids := fun hmem => hlisted (List.contains_iff_mem.mpr hmem)
      cases r.attributes window.id with
      | failed =>
        refine ⟨[], [], (List.append_nil _).symm, (List.append_nil _).symm, Survived.fail ?_⟩
        exact fun h => absurd h.1 Bool.false_ne_true
      | present =>
        have hsent := emitUnless_emits r initial watch window.id Kind.hideWindow
        generalize (if initial then (watch, true) else emitWindow r watch window.id Kind.hideWindow) = sent at hsent
        obtain ⟨more, hmore⟩ := hsent.written
        dsimp only
        by_cases hok : sent.2 = true
        · rw [if_pos hok]
          obtain ⟨kept, frames, hkept, hwritten, hsurvived⟩ := ih sent.1 (next ++ [window])
          refine ⟨window :: kept, more ++ frames, ?_, ?_, hsurvived.keep hnot⟩
          · rw [hkept, List.append_assoc]
            rfl
          · rw [hwritten, hmore, List.append_assoc]
        · rw [if_neg hok]
          have hfail : ¬(false = true ∧ initial = false) := fun h => absurd h.1 Bool.false_ne_true
          refine ⟨[window], more, rfl, hmore, ?_⟩
          have hfailed : Survived ids old [] [] (false = true ∧ initial = false) := Survived.fail hfail
          have hkeep : Survived ids (window :: old) [window] (more ++ []) _ := hfailed.keep hnot
          rwa [List.append_nil] at hkeep
      | badWindow =>
        have hsent := emitUnless_emits r initial watch window.id Kind.close
        have hclose : ∀ more, (if initial then (watch, true) else emitWindow r watch window.id Kind.close).1.written =
            watch.written ++ more → (if initial then (watch, true) else emitWindow r watch window.id Kind.close).2 →
            initial = false → closeFrame window.id ∈ more := by
          rintro more hwritten hok rfl
          have hframe := emitWindow_close r watch window.id hok
          rw [List.append_cancel_left (hwritten.symm.trans hframe)]
          exact List.mem_singleton_self _
        generalize (if initial then (watch, true) else emitWindow r watch window.id Kind.close) = sent at hsent hclose
        obtain ⟨more, hmore⟩ := hsent.written
        dsimp only
        by_cases hok : sent.2 = true
        · rw [if_pos hok]
          obtain ⟨kept, frames, hkept, hwritten, hsurvived⟩ := ih sent.1 next
          refine ⟨kept, more ++ frames, hkept, ?_, hsurvived.close fun htold => hclose more hmore hok htold.2⟩
          rw [hwritten, hmore, List.append_assoc]
        · rw [if_neg hok]
          refine ⟨[], more, (List.append_nil _).symm, hmore, Survived.fail ?_⟩
          exact fun h => absurd h.1 Bool.false_ne_true

end Survivors

/-- A refresh makes a searchable table of whatever the server lists, and tells of what left the old one. -/
theorem refreshClients_spec (r : Replies) (initial : Bool) (watch : WindowWatch) (hsearchable : Searchable watch) :
    Searchable (refreshClients r watch initial).1 ∧
      ∃ frames, (refreshClients r watch initial).1.written = watch.written ++ frames ∧
        ((refreshClients r watch initial).2 → initial = false → ∀ id, Tracked watch id →
          ¬Tracked (refreshClients r watch initial).1 id → closeFrame id ∈ frames) := by
  have hsame : Searchable watch ∧ ∃ frames, watch.written = watch.written ++ frames ∧
      (false = true → initial = false → ∀ id, Tracked watch id → ¬Tracked watch id → closeFrame id ∈ frames) :=
    ⟨hsearchable, [], (List.append_nil _).symm, fun h => absurd h Bool.false_ne_true⟩
  unfold refreshClients
  cases hids : enumerateWindows r watch.atoms with
  | none => exact hsame
  | some ids =>
    dsimp only
    by_cases hallocates : r.allocates = false
    · rw [if_pos (by rw [hallocates]; rfl)]
      exact hsame
    · rw [if_neg (by simpa using hallocates)]
      have hzero : (0 : WindowId) ∉ SearchTable.sort BitVec.toNat ids := by
        rw [SearchTable.mem_sort]
        exact enumerateWindows_nonzero r hids
      have hsorted := SearchTable.sort_pairwise (BitVec.toNat (w := 32)) ids
      generalize SearchTable.sort BitVec.toNat ids = sorted at hzero hsorted
      obtain ⟨added, hadded, hemits, hlisted⟩ := refreshListed_adds r initial hsorted hzero
        (fun p hp => absurd hp (Option.not_mem_none p)) watch []
      rw [List.nil_append] at hadded
      generalize refreshListed r initial none sorted watch [] = first at hadded hemits hlisted
      obtain ⟨begun, hbegun⟩ := hemits.written
      have hnodup := hlisted.ordered.nodup_keys
      by_cases hok : first.2.2 = true
      · rw [if_pos hok]
        obtain ⟨kept, frames, hkept, hwritten, hsurvived⟩ := refreshSurvivors_keeps r initial sorted
          watch.windows first.2.1 first.1
        generalize refreshSurvivors r initial sorted watch.windows first.2.1 first.1 = second
          at hkept hwritten hsurvived
        have hall : (second.1.map idKey).Nodup := by
          rw [hkept, hadded, List.map_append]
          apply List.Nodup.append hnodup (hsearchable.nodup_keys.sublist (hsurvived.sublist.map idKey))
          intro k hk hk'
          obtain ⟨a, ha, rfl⟩ := List.mem_map.mp hk
          obtain ⟨b, hb, hsame⟩ := List.mem_map.mp hk'
          have hid : b.id = a.id := BitVec.eq_of_toNat_eq hsame
          exact hsurvived.unlisted b hb (hid ▸ hlisted.member a ha)
        constructor
        · exact SearchTable.sort_ordered hall
        · refine ⟨begun ++ frames, by rw [← List.append_assoc, ← hbegun]; exact hwritten, ?_⟩
          intro hend hinitial id hbefore hafter
          obtain ⟨w, hw, rfl⟩ := hbefore
          have hsecond : second.2.2 = true := (Bool.and_eq_true_iff.mp hend).1
          have hgone : ∀ v ∈ added ++ kept, v.id ≠ w.id := by
            intro v hv hid
            refine hafter ⟨v, SearchTable.mem_sort.mpr ?_, hid⟩
            rw [hkept, hadded]
            exact hv
          have hunlisted : w.id ∉ sorted := by
            intro hmem
            obtain ⟨a, ha, hid⟩ := hlisted.complete hok w.id hmem (by simp)
            exact hgone a (List.mem_append_left _ ha) hid
          obtain hmem | hmem := hsurvived.complete ⟨hsecond, hinitial⟩ w hw hunlisted
          · exact absurd rfl (hgone w (List.mem_append_right _ hmem))
          · exact List.mem_append_right _ hmem
      · rw [if_neg hok]
        constructor
        · apply SearchTable.sort_ordered
          rw [hadded]
          exact hnodup
        · exact ⟨begun, hbegun, fun h => absurd h Bool.false_ne_true⟩

theorem refreshClients_advances (r : Replies) (watch : WindowWatch) :
    Advances watch (refreshClients r watch false) := by
  intro hs
  obtain ⟨hsearchable, frames, hframes, hclosed⟩ := refreshClients_spec r false watch hs
  exact ⟨hsearchable, frames, hframes, fun hok => hclosed hok rfl⟩

end Refreshing

section Handling

variable (r : Replies) (watch : WindowWatch)

theorem windowsLoop_advances {callback : WindowRecord → WindowWatch → Outcome}
    (hcallback : ∀ window watch, Advances watch (callback window watch)) (turns order : ℕ) (windows : Bytes)
    (watch : WindowWatch) : Advances watch (windowsLoop callback turns order windows watch) := by
  induction turns generalizing order windows watch with
  | zero => exact Advances.refl false
  | succ turns ih =>
    unfold windowsLoop
    apply Advances.ite (Advances.refl _)
    split
    · exact Advances.refl false
    · next value rest _ =>
      split
      · exact Advances.refl false
      · next window _ =>
        have hcalled := hcallback { window with
          stackingOrder := BitVec.ofNat 64 order
          validFields := window.validFields ||| Field.stackingOrder } watch
        generalize callback _ watch = called at hcalled
        obtain ⟨after, ok⟩ := called
        cases ok with
        | false => exact hcalled
        | true =>
          simp only [Bool.not_true, Bool.false_eq_true, if_false]
          split
          · exact hcalled.fail
          · next b rest _ =>
            apply Advances.ite hcalled
            apply Advances.ite hcalled.fail
            exact hcalled.trans (ih _ _ _)

theorem stateWindowsJson_advances {callback : WindowRecord → WindowWatch → Outcome}
    (hcallback : ∀ window watch, Advances watch (callback window watch)) (data : Bytes) :
    Advances watch (stateWindowsJson data callback watch) := by
  unfold stateWindowsJson
  split
  · exact Advances.refl false
  · exact Advances.ite (Advances.refl false) (windowsLoop_advances hcallback _ _ _ _)

/-- An entry that the search has not found can be put into the table. -/
theorem insertWindow_advances (entry : WatchedWindow) (hnew : findWindow watch entry.id = none) (ok : Bool) :
    Advances watch ({ watch with windows := SearchTable.sort idKey (watch.windows ++ [entry]) }, ok) := by
  intro hs
  constructor
  · apply SearchTable.sort_ordered
    rw [List.map_append, List.map_singleton]
    apply List.Nodup.append hs.nodup_keys (List.nodup_singleton _)
    intro k hk hk'
    obtain ⟨w, hw, rfl⟩ := List.mem_map.mp hk
    exact (SearchTable.find_eq_none hs).mp hnew w hw (List.mem_singleton.mp hk')
  · refine ⟨[], (List.append_nil _).symm, ?_⟩
    rintro _ id ⟨w, hw, hid⟩ hafter
    exact absurd ⟨w, SearchTable.mem_sort.mpr (List.mem_append_left _ hw), hid⟩ hafter

theorem initialWindow_advances (window : WindowRecord) : Advances watch (initialWindow r window watch) := by
  unfold initialWindow
  dsimp only
  split
  · exact (emitState_emits r watch _ _ _ _).advances
  · next hnew =>
    apply Advances.ite (Advances.refl false)
    exact (insertWindow_advances watch _ hnew true).trans (emitState_emits r _ _ _ _ _).advances

theorem initialSnapshot_advances : Advances watch (initialSnapshot r watch) := by
  unfold initialSnapshot
  apply Advances.ite (Advances.refl false)
  apply Advances.andThen
  · apply Advances.andThen (emitState_emits r watch _ _ _ _).advances
    exact fun after => stateWindowsJson_advances after (fun window watch => initialWindow_advances r watch window) _
  · exact fun after => (emitState_emits r after _ _ _ _).advances

theorem activeChanged_advances : Advances watch (activeChanged r watch) := by
  unfold activeChanged
  apply Advances.ite (Advances.refl true)
  have hactive : Advances watch ({ watch with active := r.activeWindow.getD 0 }, true) :=
    Advances.of_ids rfl ⟨[], (List.append_nil _).symm⟩
  apply hactive.trans
  apply Advances.andThen
  · exact Advances.ite (Advances.refl true) (emitWindow_emits r _ _ _).advances
  · exact fun after => Advances.ite (Advances.refl true) (emitWindow_emits r after _ _).advances

theorem rootProperty_advances (atom : BitVec 32) : Advances watch (rootProperty r watch atom) := by
  unfold rootProperty
  apply Advances.ite (refreshClients_advances r watch)
  apply Advances.ite (initialSnapshot_advances r watch)
  apply Advances.ite (emitQueryState_advances r watch _ _)
  exact Advances.ite (activeChanged_advances r watch) (Advances.refl true)

theorem changeWindow_ids (id : WindowId) {change : WatchedWindow → WatchedWindow}
    (hchange : ∀ window, (change window).id = window.id) :
    (changeWindow watch id change).windows.map WatchedWindow.id = watch.windows.map WatchedWindow.id := by
  apply List.ext_getElem?
  intro i
  simp only [changeWindow, List.getElem?_map, List.getElem?_modify]
  cases watch.windows[i]? with
  | none => rfl
  | some window =>
    split_ifs
    · exact congrArg some (hchange window)
    · rfl

theorem changeWindow_advances (id : WindowId) {change : WatchedWindow → WatchedWindow}
    (hchange : ∀ window, (change window).id = window.id) (ok : Bool) :
    Advances watch (changeWindow watch id change, ok) :=
  Advances.of_ids (changeWindow_ids watch id hchange) ⟨[], (List.append_nil _).symm⟩

theorem windowProperty_advances (id : WindowId) (atom : BitVec 32) :
    Advances watch (windowProperty r watch id atom) := by
  unfold windowProperty
  split
  · exact Advances.refl true
  · apply Advances.ite (emitWindow_emits r watch _ _).advances
    apply Advances.ite (emitWindow_emits r watch _ _).advances
    apply Advances.ite
    · have hchange : ∀ window : WatchedWindow,
          ({ window with minimized := minimized r watch.atoms id } : WatchedWindow).id = window.id := fun _ => rfl
      exact (changeWindow_advances watch id hchange true).trans (emitWindow_emits r _ _ _).advances
    · exact (emitWindow_emits r watch _ _).advances

theorem destroyed_advances (id : WindowId) : Advances watch (destroyed r watch id) := by
  unfold destroyed
  cases hfind : findWindow watch id with
  | none => exact Advances.refl true
  | some window =>
    intro hs
    obtain ⟨frames, hframes⟩ := (emitWindow_emits r watch id Kind.close).written
    constructor
    · exact SearchTable.Ordered.eraseIdx hs _
    · refine ⟨frames, hframes, ?_⟩
      rintro hok k ⟨w, hw, rfl⟩ hafter
      have hid : w.id = id := by
        by_contra hne
        refine hafter ⟨w, (SearchTable.mem_eraseIdx hs hfind).mpr ⟨hw, ?_⟩, rfl⟩
        exact fun hkey => hne (BitVec.eq_of_toNat_eq hkey)
      have hframe := emitWindow_close r watch id hok
      rw [hid, List.append_cancel_left (hframes.symm.trans hframe)]
      exact List.mem_singleton_self _

theorem configureLoop_ids (id sibling : WindowId) (windows : List WatchedWindow) (watch : WindowWatch) :
    (configureLoop r id sibling windows watch).1.map WatchedWindow.id = windows.map WatchedWindow.id ∧
      Emits watch (configureLoop r id sibling windows watch).2.2 := by
  induction windows generalizing watch with
  | nil => exact ⟨rfl, Emits.refl true⟩
  | cons window windows ih =>
    unfold configureLoop
    by_cases hother : window.id ≠ id ∧ window.frame ≠ id
    · rw [if_pos hother]
      obtain ⟨hids, hemits⟩ := ih watch
      exact ⟨congrArg (window.id :: ·) hids, hemits⟩
    · rw [if_neg hother]
      have hsent := emitWindow_emits r watch window.id Kind.move
      generalize emitWindow r watch window.id Kind.move = sent at hsent
      obtain ⟨after, ok⟩ := sent
      cases ok with
      | false => exact ⟨rfl, hsent⟩
      | true =>
        obtain ⟨hids, hemits⟩ := ih after
        exact ⟨congrArg (window.id :: ·) hids, hsent.trans hemits⟩

theorem configured_advances (id sibling : WindowId) : Advances watch (configured r watch id sibling) := by
  obtain ⟨hids, hemits⟩ := configureLoop_ids r id sibling watch.windows watch
  unfold configured
  generalize configureLoop r id sibling watch.windows watch = looped at hids hemits
  obtain ⟨windows, restacked, after, ok⟩ := looped
  have hmoved : ∀ ok, Advances watch ({ after with windows }, ok) := fun ok => Advances.of_ids hids hemits.written
  apply Advances.ite (hmoved false)
  exact Advances.ite ((hmoved true).trans (initialSnapshot_advances r _)) (hmoved true)

/-- What one event leaves of the table and tells of it. -/
theorem handleEvent_advances (event : Event) : Advances watch (handleEvent r watch event) := by
  unfold handleEvent
  apply Advances.ite (emitQueryState_advances r watch _ _)
  apply Advances.ite (emitQueryState_advances r watch _ _)
  apply Advances.ite (refreshClients_advances r watch)
  apply Advances.ite
  · exact Advances.ite (rootProperty_advances r watch _) (windowProperty_advances r watch _ _)
  apply Advances.ite
  · apply Advances.ite (emitWindow_emits r watch _ _).advances
    exact Advances.ite (refreshClients_advances r watch) (Advances.refl true)
  apply Advances.ite (destroyed_advances r watch _)
  apply Advances.ite (configured_advances r watch _ _)
  apply Advances.ite
  · split
    · exact Advances.refl true
    · have hchange : ∀ window : WatchedWindow,
          ({ window with frame := frameFor r event.window } : WatchedWindow).id = window.id := fun _ => rfl
      exact changeWindow_advances watch event.window hchange true
  · exact Advances.refl true

end Handling

section Runs

/-- An event that is handled successfully, with the replies that it finds. -/
def Handled (watch : WindowWatch) (step : Replies × Event) (after : WindowWatch) : Prop :=
  handleEvent step.1 watch step.2 = (after, true)

theorem Handled.searchable {watch after : WindowWatch} {step : Replies × Event} (h : Handled watch step after)
    (hs : Searchable watch) : Searchable after := by
  have hafter := (handleEvent_advances step.1 watch step.2 hs).1
  rwa [h] at hafter

theorem watchStart_searchable (refresh snapshot states : Replies) (requestId : BitVec 64) (watch : WindowWatch) :
    Searchable (watchStart refresh snapshot states requestId watch).1 := by
  have hempty : Searchable { watch with windows := [], written := [] } := List.Pairwise.nil
  have hrefreshed := (refreshClients_spec refresh true _ hempty).1
  unfold watchStart
  generalize refreshClients refresh { watch with windows := [], written := [] } true = refreshed at hrefreshed
  obtain ⟨first, ok⟩ := refreshed
  have hfirst : Searchable { first with active := refresh.activeWindow.getD first.active } := hrefreshed
  dsimp only
  generalize ({ first with active := refresh.activeWindow.getD first.active } : WindowWatch) = second at hfirst
  have hsent := (writeFrame_emits refresh second 0 0 requestId
    (encodeU32 (if ok then Status.ok else Status.unavailable) ++ encodeU32 0)).advances hfirst
  generalize writeFrame refresh second 0 0 requestId _ = sent at hsent
  have hrest : Advances sent.1 (((Outcome.andThen (sent.1, sent.2 && ok) (initialSnapshot snapshot)).andThen
      fun watch => emitQueryState states watch .keyboard true).andThen
        fun watch => emitQueryState states watch .displays true) := by
    apply Advances.andThen
    · apply Advances.andThen
      · exact (Advances.refl _).andThen fun after => initialSnapshot_advances snapshot after
      · exact fun after => emitQueryState_advances states after _ _
    · exact fun after => emitQueryState_advances states after _ _
  exact (hrest hsent.1).1

/-- After every event that is handled successfully the table can be searched: it is strictly increasing, the search
finds the entry of an identifier exactly when there is one, and what the next such event takes out of the table it
says to be gone. -/
theorem watch_searchable (refresh snapshot states : Replies) (requestId : BitVec 64) {start watch after : WindowWatch}
    {steps : List (Replies × Event)} (hstart : watchStart refresh snapshot states requestId start = (watch, true))
    (hrun : Transition.Run Handled watch steps after) :
    after.windows.Pairwise (fun a b => a.id.toNat < b.id.toNat) ∧ (after.windows.map WatchedWindow.id).Nodup ∧
    (∀ id window, findWindow after id = some window ↔ window ∈ after.windows ∧ window.id = id) ∧
    (∀ id, findWindow after id = none ↔ ∀ window ∈ after.windows, window.id ≠ id) ∧
    ∀ replies event later, handleEvent replies after event = (later, true) →
      ∃ frames, later.written = after.written ++ frames ∧
        ∀ id, Tracked after id → ¬Tracked later id → closeFrame id ∈ frames := by
  have hbegin : Searchable watch := by
    have hsearchable := watchStart_searchable refresh snapshot states requestId start
    rwa [hstart] at hsearchable
  have hafter : Searchable after := hrun.invariant (fun _ _ _ hs hstep => Handled.searchable hstep hs) hbegin
  have hsame : ∀ (window : WatchedWindow) (id : WindowId), idKey window = id.toNat ↔ window.id = id :=
    fun window id => ⟨fun h => BitVec.eq_of_toNat_eq h, fun h => congrArg BitVec.toNat h⟩
  constructor
  · exact hafter
  constructor
  · rw [List.Nodup, List.pairwise_map]
    exact hafter.imp fun hlt heq => absurd (congrArg BitVec.toNat heq) (ne_of_lt hlt)
  constructor
  · intro id window
    rw [findWindow, SearchTable.find_eq_some hafter, hsame]
  constructor
  · intro id
    rw [findWindow, SearchTable.find_eq_none hafter]
    simp only [ne_eq, hsame]
  · intro replies event later hlater
    obtain ⟨-, frames, hframes, hclosed⟩ := handleEvent_advances replies after event hafter
    rw [hlater] at hframes hclosed
    exact ⟨frames, hframes, hclosed rfl⟩

/-- A server with the windows of a list, and an empty snapshot. -/
def listing (ids : List WindowId) : Replies where
  listing := some ⟨32, ids, 0⟩
  rootChildren := some []
  query _ := resultError Status.notFound 0 []
  windowList :=
    let text := ascii "\x7b\"windows\":[]\x7d"
    resultTake (encodeU32 (BitVec.ofNat 32 text.length) ++ text)
  keyboard := resultError Status.unavailable 0 []
  displays := resultError Status.unavailable 0 []

def listedStart : Outcome :=
  watchStart (listing [7, 3, 7, 5]) (listing []) (listing []) 1
    { root := 1, atoms := ⟨0, 0, 0, 0, 0, 0, 0, 0, 0, 0⟩ }

def listedDestroy : Outcome :=
  handleEvent (listing []) listedStart.1 { responseType := EventType.destroyNotify, window := 5 }

theorem watch_searchable_destroyed :
    listedDestroy.1.windows.map WatchedWindow.id = [3, 7] ∧
      (listedDestroy.1.windows.map WatchedWindow.id).Nodup := by
  have hends : ∀ outcome : Outcome, outcome.2 = true → outcome = (outcome.1, true) := by
    rintro ⟨after, ok⟩ rfl
    rfl
  have hstart : listedStart = (listedStart.1, true) := hends _ (by decide +kernel)
  have hdestroy : listedDestroy = (listedDestroy.1, true) := hends _ (by decide +kernel)
  have hstep : Handled listedStart.1 (listing [], ⟨EventType.destroyNotify, 5, 0, 0, 0⟩) listedDestroy.1 := hdestroy
  unfold listedStart at hstart
  constructor
  · decide +kernel
  · exact (watch_searchable _ _ _ _ hstart (.single hstep)).2.1

end Runs

end KeysharpDesktop.X11
