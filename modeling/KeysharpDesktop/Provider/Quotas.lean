import KeysharpDesktop.Lib.Transition
import KeysharpDesktop.Provider.Images

/-! The quotas of the shell provider's overlays: what one call can do to the tables, and the bounds on overlays and
bytes that every run keeps, with a cleanup timer wherever an overlay is left. -/
namespace KeysharpDesktop.Shell

/-- What an overlay counts for, by its owner and, for an image, its bytes. -/
structure Weight where
  overlay : Owner → ℕ
  image : Owner → ℕ → ℕ

def Overlays.load (w : Weight) (t : Overlays) : ℕ :=
  t.highlights.total (fun o => w.overlay o.owner) + t.imageOverlays.total (fun o => w.image o.owner o.frameBytes) +
    t.tooltips.total (fun o => w.overlay o.owner)

def eachOne : Weight := ⟨fun _ => 1, fun _ _ => 1⟩

def eachOf (owner : Owner) : Weight :=
  ⟨fun o => if o = owner then 1 else 0, fun o _ => if o = owner then 1 else 0⟩

def eachByte : Weight := ⟨fun _ => 0, fun _ bytes => bytes⟩

def eachByteOf (owner : Owner) : Weight := ⟨fun _ => 0, fun o bytes => if o = owner then bytes else 0⟩

variable {t u v : Overlays} {owner : Owner} {key : String}

theorem size_eq_load : t.size = t.load eachOne := by
  simp [Overlays.size, Overlays.load, eachOne, Table.size_eq_total]

theorem ownerCount_eq_load : t.ownerCount owner = t.load (eachOf owner) := by
  simp [Overlays.ownerCount, Overlays.load, eachOf, Table.size_eq_total, Table.total_keep]

theorem overlayBytes_eq_load : t.overlayBytes = t.load eachByte := by
  simp [Overlays.overlayBytes, Overlays.load, eachByte, Table.total]

theorem ownerBytes_eq_load : t.ownerBytes owner = t.load (eachByteOf owner) := by
  simp [Overlays.ownerBytes, Overlays.load, eachByteOf, Table.total_keep]
  simp [Table.total]

/-- `u` has no overlay that `t` does not have, bus names apart. -/
structure Overlays.Within (u t : Overlays) : Prop where
  load_le : ∀ w, u.load w ≤ t.load w
  highlight : ∀ key o, u.highlights.lookup key = some o → ∃ o', t.highlights.lookup key = some o' ∧ o'.owner = o.owner
  image : ∀ key o, u.imageOverlays.lookup key = some o → ∃ o', t.imageOverlays.lookup key = some o' ∧
    o'.owner = o.owner ∧ o'.frameBytes = o.frameBytes ∧ o'.shared = o.shared ∧ o'.actor = o.actor
  tooltip : ∀ key o, u.tooltips.lookup key = some o → ∃ o', t.tooltips.lookup key = some o' ∧ o'.owner = o.owner

/-- The cleanup timer runs wherever there is an overlay, and `_overlayCleanupId` tells whether it runs. -/
structure Overlays.Timed (t : Overlays) : Prop where
  source : t.cleanupId = t.cleanupSource
  armed : t.size ≠ 0 → t.cleanupSource

/-- A change that adds no overlay and leaves no overlay without the timer. -/
structure Overlays.Reduces (u t : Overlays) : Prop where
  within : u.Within t
  timed : t.Timed → u.Timed

theorem within_of_sublist (hhighlights : u.highlights.entries.Sublist t.highlights.entries)
    (himages : u.imageOverlays.entries.Sublist t.imageOverlays.entries)
    (htooltips : u.tooltips.entries.Sublist t.tooltips.entries) : u.Within t where
  load_le w := by
    have hhighlight := Table.total_le_of_sublist (f := fun o => w.overlay o.owner) hhighlights
    have himage := Table.total_le_of_sublist (f := fun o => w.image o.owner o.frameBytes) himages
    have htooltip := Table.total_le_of_sublist (f := fun o => w.overlay o.owner) htooltips
    unfold Overlays.load
    omega
  highlight key o h := ⟨o, Table.lookup_of_sublist hhighlights h, rfl⟩
  image key o h := ⟨o, Table.lookup_of_sublist himages h, rfl, rfl, rfl, rfl⟩
  tooltip key o h := ⟨o, Table.lookup_of_sublist htooltips h, rfl⟩

theorem Overlays.Within.refl (t : Overlays) : t.Within t :=
  within_of_sublist (.refl _) (.refl _) (.refl _)

theorem Overlays.Within.trans (hvu : v.Within u) (hut : u.Within t) : v.Within t where
  load_le w := (hvu.load_le w).trans (hut.load_le w)
  highlight key o h := by
    obtain ⟨o', h', ho'⟩ := hvu.highlight key o h
    obtain ⟨o'', h'', ho''⟩ := hut.highlight key o' h'
    exact ⟨o'', h'', ho''.trans ho'⟩
  image key o h := by
    obtain ⟨o', h', howner, hbytes, hshared, hactor⟩ := hvu.image key o h
    obtain ⟨o'', h'', howner', hbytes', hshared', hactor'⟩ := hut.image key o' h'
    exact ⟨o'', h'', howner'.trans howner, hbytes'.trans hbytes, hshared'.trans hshared, hactor'.trans hactor⟩
  tooltip key o h := by
    obtain ⟨o', h', ho'⟩ := hvu.tooltip key o h
    obtain ⟨o'', h'', ho''⟩ := hut.tooltip key o' h'
    exact ⟨o'', h'', ho''.trans ho'⟩

/-- Where the timer is as it was, fewer overlays are still covered by it. -/
theorem Overlays.Within.reduces (h : u.Within t) (hid : u.cleanupId = t.cleanupId)
    (hsource : u.cleanupSource = t.cleanupSource) : u.Reduces t where
  within := h
  timed ht := by
    constructor
    · rw [hid, hsource]
      exact ht.source
    · intro hsize
      rw [hsource]
      apply ht.armed
      have := h.load_le eachOne
      rw [← size_eq_load, ← size_eq_load] at this
      omega

theorem reduces_of_sublist (hhighlights : u.highlights.entries.Sublist t.highlights.entries)
    (himages : u.imageOverlays.entries.Sublist t.imageOverlays.entries)
    (htooltips : u.tooltips.entries.Sublist t.tooltips.entries) (hid : u.cleanupId = t.cleanupId)
    (hsource : u.cleanupSource = t.cleanupSource) : u.Reduces t :=
  (within_of_sublist hhighlights himages htooltips).reduces hid hsource

theorem Overlays.Reduces.refl (t : Overlays) : t.Reduces t :=
  (Overlays.Within.refl t).reduces rfl rfl

theorem Overlays.Reduces.trans (hvu : v.Reduces u) (hut : u.Reduces t) : v.Reduces t where
  within := hvu.within.trans hut.within
  timed ht := hvu.timed (hut.timed ht)

theorem reduces_foldl {α : Type*} {f : Overlays → α → Overlays} (hf : ∀ t a, (f t a).Reduces t) (l : List α)
    (t : Overlays) : (l.foldl f t).Reduces t := by
  induction l generalizing t with
  | nil => exact .refl t
  | cons a l ih => exact (ih (f t a)).trans (hf t a)

theorem hasAnyOverlays_iff : t.hasAnyOverlays = true ↔ t.size ≠ 0 := by
  simp only [Overlays.hasAnyOverlays, Overlays.size, Bool.or_eq_true, bne_iff_ne]
  omega

theorem stopOverlayCleanupTimer_reduces (h : t.size = 0) : t.stopOverlayCleanupTimer.Reduces t := by
  unfold Overlays.stopOverlayCleanupTimer
  split_ifs
  · constructor
    · exact within_of_sublist (.refl _) (.refl _) (.refl _)
    · exact fun _ => ⟨rfl, fun hsize => absurd h hsize⟩
  · exact .refl t

theorem stopUnused_reduces (t : Overlays) : t.stopUnused.Reduces t := by
  unfold Overlays.stopUnused
  split_ifs with hany
  · exact .refl t
  · apply stopOverlayCleanupTimer_reduces
    rw [hasAnyOverlays_iff] at hany
    omega

theorem ensureOverlayCleanupTimer_within (t : Overlays) : t.ensureOverlayCleanupTimer.Within t := by
  unfold Overlays.ensureOverlayCleanupTimer
  split_ifs
  · exact .refl t
  · exact within_of_sublist (.refl _) (.refl _) (.refl _)

theorem ensureOverlayCleanupTimer_timed (h : t.cleanupId = t.cleanupSource) : t.ensureOverlayCleanupTimer.Timed := by
  unfold Overlays.ensureOverlayCleanupTimer
  split_ifs with hid
  · exact ⟨h, fun _ => h ▸ hid⟩
  · exact ⟨rfl, fun _ => rfl⟩

theorem cancelOverlayReconnectTimer_reduces (t : Overlays) (owner : Owner) :
    (t.cancelOverlayReconnectTimer owner).Reduces t :=
  reduces_of_sublist (.refl _) (.refl _) (.refl _) rfl rfl

section Removal

theorem removeHighlightByKey_reduces (t : Overlays) (key : String) : (t.removeHighlightByKey key).Reduces t :=
  reduces_of_sublist (List.kerase_sublist _ _) (.refl _) (.refl _) rfl rfl

theorem removeImageOverlayByKey_reduces (t : Overlays) (key : String) : (t.removeImageOverlayByKey key).Reduces t :=
  reduces_of_sublist (.refl _) (List.kerase_sublist _ _) (.refl _) rfl rfl

theorem removeTooltipByKey_reduces (t : Overlays) (key : String) : (t.removeTooltipByKey key).Reduces t :=
  reduces_of_sublist (.refl _) (.refl _) (List.kerase_sublist _ _) rfl rfl

theorem removeOwnerOverlays_reduces (t : Overlays) (owner : Owner) : (t.removeOwnerOverlays owner).Reduces t :=
  (stopUnused_reduces _).trans <| (cancelOverlayReconnectTimer_reduces _ owner).trans <|
    reduces_of_sublist List.filter_sublist List.filter_sublist List.filter_sublist rfl rfl

theorem afterHide_reduces (t : Overlays) (owner : Owner) : (t.afterHide owner).Reduces t := by
  refine (stopUnused_reduces _).trans ?_
  split_ifs
  · exact .refl t
  · exact cancelOverlayReconnectTimer_reduces t owner

theorem hideHighlight_reduces (t : Overlays) (id : ℤ) (owner : Owner) : (t.hideHighlight id owner).Reduces t :=
  (afterHide_reduces _ owner).trans (removeHighlightByKey_reduces t _)

theorem hideImageOverlay_reduces (t : Overlays) (id : ℤ) (owner : Owner) : (t.hideImageOverlay id owner).Reduces t :=
  (afterHide_reduces _ owner).trans (removeImageOverlayByKey_reduces t _)

theorem clearImageOverlay_reduces (t : Overlays) (key : String) : (t.clearImageOverlay key).Reduces t :=
  (stopUnused_reduces _).trans (removeImageOverlayByKey_reduces t key)

theorem hideTooltip_reduces (t : Overlays) (supportsTooltip : Bool) (slot : ℤ) (owner : Owner) :
    (t.hideTooltip supportsTooltip slot owner).Reduces t := by
  unfold Overlays.hideTooltip
  split_ifs
  · exact (afterHide_reduces _ owner).trans (removeTooltipByKey_reduces t _)
  · exact .refl t

end Removal

section Owners

variable (alive : Owner → Bool)

theorem cleanupDeadOverlays_reduces (t : Overlays) : (t.cleanupDeadOverlays alive).Reduces t :=
  reduces_foldl removeOwnerOverlays_reduces _ t

/-- A registration changes bus names only. -/
theorem stamped_within (t : Overlays) (owner : Owner) (bus : String) : Overlays.Within
    { t with
      highlights := t.highlights.alter (Overlay.stamp owner bus)
      imageOverlays := t.imageOverlays.alter (ImageOverlay.stamp owner bus)
      tooltips := t.tooltips.alter (Overlay.stamp owner bus) } t := by
  have hoverlay : ∀ o : Overlay, (o.stamp owner bus).owner = o.owner := by
    intro o
    unfold Overlay.stamp
    split_ifs <;> rfl
  have himage : ∀ o : ImageOverlay, (o.stamp owner bus).owner = o.owner ∧
      (o.stamp owner bus).frameBytes = o.frameBytes ∧ (o.stamp owner bus).shared = o.shared ∧
        (o.stamp owner bus).actor = o.actor := by
    intro o
    unfold ImageOverlay.stamp
    split_ifs <;> exact ⟨rfl, rfl, rfl, rfl⟩
  constructor
  · intro w
    apply Nat.le_of_eq
    unfold Overlays.load
    rw [Table.total_alter, Table.total_alter, Table.total_alter]
    · intro o
      rw [hoverlay]
    · intro o
      rw [(himage o).1, (himage o).2.1]
    · intro o
      rw [hoverlay]
  · intro key o h
    obtain ⟨o', h', rfl⟩ := Table.lookup_alter.mp h
    exact ⟨o', h', (hoverlay o').symm⟩
  · intro key o h
    obtain ⟨o', h', rfl⟩ := Table.lookup_alter.mp h
    obtain ⟨howner, hbytes, hshared, hactor⟩ := himage o'
    exact ⟨o', h', howner.symm, hbytes.symm, hshared.symm, hactor.symm⟩
  · intro key o h
    obtain ⟨o', h', rfl⟩ := Table.lookup_alter.mp h
    exact ⟨o', h', (hoverlay o').symm⟩

theorem registerHighlightOwner_reduces (t : Overlays) (owner : Owner) (bus : String) :
    (t.registerHighlightOwner owner bus alive).Reduces t := by
  refine Overlays.Reduces.trans ?_
    ((cancelOverlayReconnectTimer_reduces _ owner).trans (cleanupDeadOverlays_reduces alive t))
  exact (stamped_within _ owner bus).reduces rfl rfl

theorem handleOverlayConnectionLost_reduces (t : Overlays) (lostBusName : String) (owner : Owner) :
    (t.handleOverlayConnectionLost alive lostBusName owner).Reduces t := by
  unfold Overlays.handleOverlayConnectionLost
  split_ifs
  · exact reduces_of_sublist (.refl _) (.refl _) (.refl _) rfl rfl
  · exact removeOwnerOverlays_reduces t owner

theorem handleNameOwnerChanged_reduces (t : Overlays) (name oldOwner newOwner : String) :
    (t.handleNameOwnerChanged name oldOwner newOwner alive).Reduces t := by
  unfold Overlays.handleNameOwnerChanged
  split_ifs
  · exact .refl t
  · exact reduces_foldl (fun t owner => handleOverlayConnectionLost_reduces alive t name owner) _ t

theorem reconnectFires_reduces (t : Overlays) (owner : Owner) : (t.reconnectFires owner alive).Reduces t := by
  unfold Overlays.reconnectFires
  cases t.reconnectTimers.lookup owner with
  | none => exact .refl t
  | some lostBusName =>
    have hcancel := cancelOverlayReconnectTimer_reduces t owner
    dsimp only
    split_ifs
    · exact (removeOwnerOverlays_reduces _ owner).trans hcancel
    · exact hcancel

theorem cleanupFires_reduces (t : Overlays) : (t.cleanupFires alive).Reduces t := by
  have hdead := cleanupDeadOverlays_reduces alive t
  unfold Overlays.cleanupFires
  dsimp only
  split_ifs with hsource hany
  · exact hdead
  · refine Overlays.Reduces.trans (u := t.cleanupDeadOverlays alive)
      ⟨within_of_sublist (.refl _) (.refl _) (.refl _), ?_⟩ hdead
    intro _
    refine ⟨rfl, fun hsize => absurd ?_ hany⟩
    rw [hasAnyOverlays_iff]
    exact hsize
  · exact .refl t

end Owners

section Keys

/-- Two texts with a colon in them, each the first, are equal part by part. -/
theorem split_at_colon {l m : List Char} (hl : ':' ∉ l) (hm : ':' ∉ m) {l' m' : List Char}
    (h : l ++ ':' :: l' = m ++ ':' :: m') : l = m ∧ l' = m' := by
  induction l generalizing m with
  | nil =>
    cases m with
    | nil => exact ⟨rfl, (List.cons.inj h).2⟩
    | cons c m =>
      have hc := (List.cons.inj h).1
      exact absurd (hc ▸ List.mem_cons_self) hm
  | cons c l ih =>
    cases m with
    | nil =>
      have hc := (List.cons.inj h).1
      exact absurd (hc ▸ List.mem_cons_self) hl
    | cons d m =>
      obtain ⟨rfl, hrest⟩ := List.cons.inj h
      have hc : ':' ∉ l ∧ ':' ∉ m :=
        ⟨fun hc => hl (List.mem_cons_of_mem _ hc), fun hc => hm (List.mem_cons_of_mem _ hc)⟩
      obtain ⟨rfl, rfl⟩ := ih hc.1 hc.2 hrest
      exact ⟨rfl, rfl⟩

theorem colon_notMem_repr (n : ℕ) : ':' ∉ (Nat.repr n).toList := by
  rw [Nat.toList_repr]
  intro h
  have := Nat.isDigit_of_mem_toDigits (by omega) (by omega) h
  simp at this

theorem repr_toList_injective {m n : ℕ} (h : (Nat.repr m).toList = (Nat.repr n).toList) : m = n := by
  rw [Nat.toList_repr, Nat.toList_repr] at h
  have := congrArg (fun digits => Nat.ofDigitChars 10 digits 0) h
  simpa using this

/-- The key of an overlay tells its owner. -/
theorem overlayKey_owner {id id' : ℤ} {owner owner' : Owner} (h : overlayKey id owner = overlayKey id' owner') :
    owner = owner' := by
  have htext := congrArg String.toList h
  simp only [overlayKey, Owner.key, String.toList_append, List.append_assoc] at htext
  obtain ⟨hpid, hrest⟩ := split_at_colon (colon_notMem_repr _) (colon_notMem_repr _) htext
  obtain ⟨hstart, -⟩ := split_at_colon owner.plain owner'.plain hrest
  have hpid := repr_toList_injective hpid
  have hstart := String.toList_injective hstart
  cases owner
  cases owner'
  cases hpid
  cases hstart
  rfl

end Keys

/-- Every overlay stands at a key of its owner. -/
structure Overlays.Keyed (t : Overlays) : Prop where
  highlight : ∀ key o, t.highlights.lookup key = some o → ∃ id, key = overlayKey id o.owner
  image : ∀ key o, t.imageOverlays.lookup key = some o → ∃ id, key = overlayKey id o.owner
  tooltip : ∀ key o, t.tooltips.lookup key = some o → ∃ id, key = overlayKey id o.owner

structure Overlays.Bounded (t : Overlays) : Prop where
  size : t.size ≤ maxOverlaysTotal
  owner : ∀ owner, t.ownerCount owner ≤ maxOverlaysPerOwner
  bytes : t.overlayBytes ≤ maxOverlayBytesTotal
  ownerBytes : ∀ owner, t.ownerBytes owner ≤ maxOverlayBytesPerOwner

/-- What every call keeps. -/
structure Overlays.Kept (t : Overlays) : Prop where
  keyed : t.Keyed
  bounded : t.Bounded
  timed : t.Timed

section Invariant

theorem Overlays.Keyed.within (h : t.Keyed) (hut : u.Within t) : u.Keyed where
  highlight key o ho := by
    obtain ⟨o', ho', howner⟩ := hut.highlight key o ho
    exact howner ▸ h.highlight key o' ho'
  image key o ho := by
    obtain ⟨o', ho', howner, -⟩ := hut.image key o ho
    exact howner ▸ h.image key o' ho'
  tooltip key o ho := by
    obtain ⟨o', ho', howner⟩ := hut.tooltip key o ho
    exact howner ▸ h.tooltip key o' ho'

theorem bounded_iff : t.Bounded ↔ t.load eachOne ≤ maxOverlaysTotal ∧
    (∀ owner, t.load (eachOf owner) ≤ maxOverlaysPerOwner) ∧ t.load eachByte ≤ maxOverlayBytesTotal ∧
      ∀ owner, t.load (eachByteOf owner) ≤ maxOverlayBytesPerOwner := by
  simp only [← size_eq_load, ← ownerCount_eq_load, ← overlayBytes_eq_load, ← ownerBytes_eq_load]
  constructor
  · exact fun h => ⟨h.size, h.owner, h.bytes, h.ownerBytes⟩
  · exact fun h => ⟨h.1, h.2.1, h.2.2.1, h.2.2.2⟩

theorem Overlays.Bounded.of_load_le (h : t.Bounded) (hload : ∀ w, u.load w ≤ t.load w) : u.Bounded := by
  rw [bounded_iff] at h ⊢
  obtain ⟨hsize, howner, hbytes, hownerBytes⟩ := h
  exact ⟨(hload _).trans hsize, fun owner => (hload _).trans (howner owner), (hload _).trans hbytes,
    fun owner => (hload _).trans (hownerBytes owner)⟩

theorem Overlays.Kept.reduces (h : t.Kept) (hut : u.Reduces t) : u.Kept where
  keyed := h.keyed.within hut.within
  bounded := h.bounded.of_load_le hut.within.load_le
  timed := hut.timed h.timed

/-- With the timer ensured, nothing is asked of it before. -/
theorem kept_ensure (hkeyed : u.Keyed) (hbounded : u.Bounded) (hsource : u.cleanupId = u.cleanupSource) :
    u.ensureOverlayCleanupTimer.Kept where
  keyed := hkeyed.within (ensureOverlayCleanupTimer_within u)
  bounded := hbounded.of_load_le (ensureOverlayCleanupTimer_within u).load_le
  timed := ensureOverlayCleanupTimer_timed hsource

theorem overlayQuotaAvailable_iff {existing : Bool} : t.overlayQuotaAvailable owner existing = true ↔
    existing = true ∨ t.load eachOne < maxOverlaysTotal ∧ t.load (eachOf owner) < maxOverlaysPerOwner := by
  rw [← size_eq_load, ← ownerCount_eq_load]
  simp [Overlays.overlayQuotaAvailable]

/-- One more highlight or tooltip of an owner, or one in the place of another, where the quota allows it. -/
theorem Overlays.Bounded.add_overlay (h : t.Bounded) {existing : Bool}
    (hquota : t.overlayQuotaAvailable owner existing = true)
    (hload : ∀ w : Weight, u.load w + (if existing then w.overlay owner else 0) = t.load w + w.overlay owner) :
    u.Bounded := by
  rcases overlayQuotaAvailable_iff.mp hquota with rfl | ⟨hsize, howner⟩
  · apply h.of_load_le
    intro w
    have := hload w
    rw [if_pos rfl] at this
    omega
  · rw [bounded_iff] at h ⊢
    obtain ⟨-, howners, hbytes, hownerBytes⟩ := h
    refine ⟨?_, ?_, ?_, ?_⟩
    · have := hload eachOne
      simp only [eachOne] at this hsize ⊢
      omega
    · intro other
      have := hload (eachOf other)
      have hother := howners other
      by_cases heq : owner = other
      · subst heq
        simp only [eachOf, if_true] at this howner ⊢
        omega
      · simp only [eachOf, heq, if_false] at this hother ⊢
        omega
    · have := hload eachByte
      simp only [eachByte] at this hbytes ⊢
      omega
    · intro other
      have := hload (eachByteOf other)
      have hother := hownerBytes other
      simp only [eachByteOf] at this hother ⊢
      omega

/-- One more image of an owner, or one in the place of another, where both quotas allow it. -/
theorem Overlays.Bounded.add_image (h : t.Bounded) {existing : Option ImageOverlay} {bytes : ℕ}
    (hquota : t.overlayQuotaAvailable owner existing.isSome = true)
    (hbytes : t.overlayBytesAvailable owner bytes existing = true)
    (hload : ∀ w : Weight, u.load w + existing.elim 0 (fun o => w.image owner o.frameBytes) =
      t.load w + w.image owner bytes) : u.Bounded := by
  unfold Overlays.overlayBytesAvailable at hbytes
  rw [Bool.and_eq_true, decide_eq_true_iff, decide_eq_true_iff, overlayBytes_eq_load, ownerBytes_eq_load] at hbytes
  rw [overlayQuotaAvailable_iff] at hquota
  rw [bounded_iff] at h ⊢
  obtain ⟨hsize, howners, hallBytes, hownerBytes⟩ := h
  have hone := hload eachOne
  have hall := hload eachByte
  cases existing with
  | none =>
    simp only [Option.isSome_none, Bool.false_eq_true, false_or] at hquota
    simp only [Option.elim_none, Option.map_none, Option.getD_none] at hone hall hbytes
    refine ⟨?_, ?_, ?_, ?_⟩
    · simp only [eachOne] at hone hquota ⊢
      omega
    · intro other
      have := hload (eachOf other)
      have hother := howners other
      by_cases heq : owner = other
      · subst heq
        simp only [eachOf, if_true, Option.elim_none] at this hquota ⊢
        omega
      · simp only [eachOf, heq, if_false, Option.elim_none] at this hother ⊢
        omega
    · simp only [eachByte] at hall hbytes ⊢
      omega
    · intro other
      have := hload (eachByteOf other)
      have hother := hownerBytes other
      by_cases heq : owner = other
      · subst heq
        simp only [eachByteOf, if_true, Option.elim_none] at this hbytes ⊢
        omega
      · simp only [eachByteOf, heq, if_false, Option.elim_none] at this hother ⊢
        omega
  | some o =>
    simp only [Option.elim_some, Option.map_some, Option.getD_some] at hone hall hbytes
    refine ⟨?_, ?_, ?_, ?_⟩
    · simp only [eachOne] at hone hsize ⊢
      omega
    · intro other
      have := hload (eachOf other)
      have hother := howners other
      simp only [eachOf, Option.elim_some] at this hother ⊢
      omega
    · simp only [eachByte] at hall hbytes ⊢
      omega
    · intro other
      have := hload (eachByteOf other)
      have hother := hownerBytes other
      by_cases heq : owner = other
      · subst heq
        simp only [eachByteOf, if_true, Option.elim_some] at this hbytes ⊢
        omega
      · simp only [eachByteOf, heq, if_false, Option.elim_some] at this hother ⊢
        omega

theorem load_insertHighlight (w : Weight) (t : Overlays) (key : String) (o : Overlay) :
    Overlays.load w { t with highlights := t.highlights.insert key o } +
        (t.highlights.lookup key).elim 0 (fun o => w.overlay o.owner) = t.load w + w.overlay o.owner := by
  have := Table.total_insert_add (t := t.highlights) (k := key) (b := o) (f := fun o => w.overlay o.owner)
  simp only [Overlays.load]
  omega

theorem load_insertTooltip (w : Weight) (t : Overlays) (key : String) (o : Overlay) :
    Overlays.load w { t with tooltips := t.tooltips.insert key o } +
        (t.tooltips.lookup key).elim 0 (fun o => w.overlay o.owner) = t.load w + w.overlay o.owner := by
  have := Table.total_insert_add (t := t.tooltips) (k := key) (b := o) (f := fun o => w.overlay o.owner)
  simp only [Overlays.load]
  omega

theorem load_insertImage (w : Weight) (t : Overlays) (key : String) (o : ImageOverlay) :
    Overlays.load w { t with imageOverlays := t.imageOverlays.insert key o } +
        (t.imageOverlays.lookup key).elim 0 (fun o => w.image o.owner o.frameBytes) =
      t.load w + w.image o.owner o.frameBytes := by
  have := Table.total_insert_add (t := t.imageOverlays) (k := key) (b := o) (f := fun o => w.image o.owner o.frameBytes)
  simp only [Overlays.load]
  omega

end Invariant

section Show

theorem Overlays.Kept.insertHighlight (h : t.Kept) (id : ℤ) (o : Overlay)
    (hquota : t.overlayQuotaAvailable o.owner (t.highlights.lookup (overlayKey id o.owner)).isSome = true) :
    (Overlays.ensureOverlayCleanupTimer
      { t with highlights := t.highlights.insert (overlayKey id o.owner) o }).Kept := by
  refine kept_ensure ?_ ?_ h.timed.source
  · refine ⟨?_, h.keyed.image, h.keyed.tooltip⟩
    intro key o' ho'
    rcases Table.lookup_insert.mp ho' with ⟨rfl, rfl⟩ | ⟨-, ho'⟩
    · exact ⟨id, rfl⟩
    · exact h.keyed.highlight key o' ho'
  · apply h.bounded.add_overlay hquota
    intro w
    rw [← load_insertHighlight w t (overlayKey id o.owner) o]
    cases hfound : t.highlights.lookup (overlayKey id o.owner) with
    | none => simp
    | some o' =>
      obtain ⟨id', hkey⟩ := h.keyed.highlight _ o' hfound
      simp [overlayKey_owner hkey]

theorem Overlays.Kept.insertTooltip (h : t.Kept) (slot : ℤ) (o : Overlay)
    (hquota : t.overlayQuotaAvailable o.owner (t.tooltips.lookup (overlayKey slot o.owner)).isSome = true) :
    (Overlays.ensureOverlayCleanupTimer
      { t with tooltips := t.tooltips.insert (overlayKey slot o.owner) o }).Kept := by
  refine kept_ensure ?_ ?_ h.timed.source
  · refine ⟨h.keyed.highlight, h.keyed.image, ?_⟩
    intro key o' ho'
    rcases Table.lookup_insert.mp ho' with ⟨rfl, rfl⟩ | ⟨-, ho'⟩
    · exact ⟨slot, rfl⟩
    · exact h.keyed.tooltip key o' ho'
  · apply h.bounded.add_overlay hquota
    intro w
    rw [← load_insertTooltip w t (overlayKey slot o.owner) o]
    cases hfound : t.tooltips.lookup (overlayKey slot o.owner) with
    | none => simp
    | some o' =>
      obtain ⟨id', hkey⟩ := h.keyed.tooltip _ o' hfound
      simp [overlayKey_owner hkey]

theorem Overlays.Kept.insertImage (h : t.Kept) (id : ℤ) (o : ImageOverlay)
    (hquota : t.overlayQuotaAvailable o.owner (t.imageOverlays.lookup (overlayKey id o.owner)).isSome = true)
    (hbytes : t.overlayBytesAvailable o.owner o.frameBytes (t.imageOverlays.lookup (overlayKey id o.owner)) = true) :
    (Overlays.ensureOverlayCleanupTimer
      { t with imageOverlays := t.imageOverlays.insert (overlayKey id o.owner) o }).Kept := by
  refine kept_ensure ?_ ?_ h.timed.source
  · refine ⟨h.keyed.highlight, ?_, h.keyed.tooltip⟩
    intro key o' ho'
    rcases Table.lookup_insert.mp ho' with ⟨rfl, rfl⟩ | ⟨-, ho'⟩
    · exact ⟨id, rfl⟩
    · exact h.keyed.image key o' ho'
  · apply h.bounded.add_image hquota hbytes
    intro w
    rw [← load_insertImage w t (overlayKey id o.owner) o]
    cases hfound : t.imageOverlays.lookup (overlayKey id o.owner) with
    | none => simp
    | some o' =>
      obtain ⟨id', hkey⟩ := h.keyed.image _ o' hfound
      simp [overlayKey_owner hkey]

theorem showHighlight_kept (h : t.Kept) (id : ℤ) (owner : Owner) (busName : String) (width height : ℤ)
    (throws : Bool) :
    (showHighlight t id owner busName width height throws).1.Kept := by
  have hreduces :=
    (removeHighlightByKey_reduces _ (overlayKey id owner)).trans (cancelOverlayReconnectTimer_reduces t owner)
  unfold showHighlight
  dsimp only
  split_ifs with hrefused hcleared hthrows
  · exact h
  · exact h.reduces ((stopUnused_reduces _).trans hreduces)
  · exact h.reduces hreduces
  · have hquota : t.overlayQuotaAvailable owner (t.highlights.lookup (overlayKey id owner)).isSome = true := by
      by_contra hquota
      simp [hquota] at hrefused
      omega
    have := (h.reduces (cancelOverlayReconnectTimer_reduces t owner)).insertHighlight id ⟨owner, busName⟩ hquota
    rwa [← Table.insert_erase] at this

theorem showTooltip_kept (h : t.Kept) (supportsTooltip : Bool) (slot : ℤ) (owner : Owner) (busName : String)
    (textLength : ℕ) (throws : Bool) :
    (showTooltip t supportsTooltip slot owner busName textLength throws).1.Kept := by
  have hreduces :=
    (removeTooltipByKey_reduces _ (overlayKey slot owner)).trans (cancelOverlayReconnectTimer_reduces t owner)
  unfold showTooltip
  dsimp only
  split_ifs with _ hrefused hcleared hthrows
  · exact h
  · exact h.reduces ((stopUnused_reduces _).trans hreduces)
  · exact h.reduces hreduces
  · have hquota : t.overlayQuotaAvailable owner (t.tooltips.lookup (overlayKey slot owner)).isSome = true := by
      by_contra hquota
      exact hrefused (.inr ⟨hcleared, hquota⟩)
    have := (h.reduces (cancelOverlayReconnectTimer_reduces t owner)).insertTooltip slot ⟨owner, busName⟩ hquota
    rwa [← Table.insert_erase] at this
  · exact h

variable {c : ImageCall} {shared : SharedFrame} {area : Area}

theorem lookup_setShared (t : Overlays) (key : String) (shared : SharedFrame) :
    (t.setShared key shared).imageOverlays.lookup key =
      (t.imageOverlays.lookup key).map fun entry => { entry with shared } := by
  unfold Overlays.setShared
  cases hfound : t.imageOverlays.lookup key with
  | none => simp [hfound]
  | some entry => simp

/-- A new mapping counts for nothing in the quotas. -/
theorem load_setShared (w : Weight) (t : Overlays) (key : String) (shared : SharedFrame) :
    (t.setShared key shared).load w = t.load w := by
  unfold Overlays.setShared
  cases hfound : t.imageOverlays.lookup key with
  | none => rfl
  | some entry =>
    have := load_insertImage w t key { entry with shared }
    rw [hfound] at this
    simp only [Option.elim_some] at this
    exact Nat.add_right_cancel this

theorem Overlays.Kept.setShared (h : t.Kept) (key : String) (shared : SharedFrame) :
    (t.setShared key shared).Kept where
  keyed := by
    unfold Overlays.setShared
    cases hfound : t.imageOverlays.lookup key with
    | none => exact h.keyed
    | some entry =>
      refine ⟨h.keyed.highlight, ?_, h.keyed.tooltip⟩
      intro other o ho
      rcases Table.lookup_insert.mp ho with ⟨rfl, rfl⟩ | ⟨-, ho⟩
      · exact h.keyed.image other entry hfound
      · exact h.keyed.image other o ho
  bounded := h.bounded.of_load_le fun w => (load_setShared w t key shared).le
  timed := by
    have hsize : (t.setShared key shared).size = t.size := by
      rw [size_eq_load, size_eq_load, load_setShared]
    have htimer : (t.setShared key shared).cleanupId = t.cleanupId ∧
        (t.setShared key shared).cleanupSource = t.cleanupSource := by
      unfold Overlays.setShared
      cases t.imageOverlays.lookup key <;> exact ⟨rfl, rfl⟩
    refine ⟨?_, ?_⟩
    · rw [htimer.1, htimer.2]
      exact h.timed.source
    · rw [hsize, htimer.2]
      exact h.timed.armed

/-- A new actor is made for the overlay as it is, or in the place of one that was removed. -/
theorem createImageOverlay_kept (h : t.Kept) (hu : u = t ∨ u = t.removeImageOverlayByKey c.key)
    (hquota : t.overlayQuotaAvailable c.owner (t.imageOverlays.lookup c.key).isSome = true)
    (hbytes : t.overlayBytesAvailable c.owner shared.bytes (t.imageOverlays.lookup c.key) = true) :
    (createImageOverlay u c shared area).1.Kept := by
  unfold createImageOverlay
  cases updateImageActor newActor shared area c.create with
  | none =>
    rcases hu with rfl | rfl
    · exact h
    · exact h.reduces (removeImageOverlayByKey_reduces t c.key)
  | some result =>
    have := h.insertImage c.id ⟨⟨c.owner, c.busName⟩, shared.bytes, shared, result.1⟩ hquota hbytes
    rcases hu with rfl | rfl
    · exact this
    · rwa [← Table.insert_erase] at this

theorem presentImageOverlay_kept (h : t.Kept) (file : Option MappedFile)
    (hquota : t.overlayQuotaAvailable c.owner (t.imageOverlays.lookup c.key).isSome = true) :
    (presentImageOverlay t c file).1.Kept := by
  unfold presentImageOverlay
  cases hmap : mapFrame ((t.imageOverlays.lookup c.key).map ImageOverlay.shared) file c with
  | none => exact h
  | some result =>
    obtain ⟨shared, area⟩ := result
    have hshared := h.setShared c.key shared
    have hquota : (t.setShared c.key shared).overlayQuotaAvailable c.owner
        ((t.setShared c.key shared).imageOverlays.lookup c.key).isSome = true := by
      rw [overlayQuotaAvailable_iff] at hquota ⊢
      rwa [load_setShared, load_setShared, lookup_setShared, Option.isSome_map]
    dsimp only
    split_ifs with hbytes
    · cases hfound : (t.setShared c.key shared).imageOverlays.lookup c.key with
      | none => exact createImageOverlay_kept hshared (.inl rfl) hquota hbytes
      | some entry =>
        dsimp only
        cases updateImageActor entry.actor shared area c.update with
        | none => exact createImageOverlay_kept hshared (.inr rfl) hquota hbytes
        | some result =>
          obtain ⟨actor, drawn⟩ := result
          exact hshared.insertImage c.id
            { entry with owner := c.owner, busName := c.busName, frameBytes := shared.bytes, actor } hquota hbytes
    · exact hshared

theorem showImageOverlay_kept (h : t.Kept) (c : ImageCall) : (showImageOverlay t c).1.Kept := by
  have hcancel := h.reduces (cancelOverlayReconnectTimer_reduces t c.owner)
  unfold showImageOverlay
  dsimp only
  split_ifs with hvalid
  · cases c.frame with
    | none => exact hcancel
    | some file =>
      apply presentImageOverlay_kept hcancel file
      rw [Bool.and_eq_true] at hvalid
      exact hvalid.2
  · exact hcancel

end Show

theorem overlayCall_kept (h : t.Kept) (call : OverlayCall) : (overlayCall t call).Kept := by
  cases call with
  | registerOwner owner bus alive => exact h.reduces (registerHighlightOwner_reduces alive t owner bus)
  | showHighlight id owner busName width height throws =>
    exact showHighlight_kept h id owner busName width height throws
  | hideHighlight id owner => exact h.reduces (hideHighlight_reduces t id owner)
  | showImage call => exact showImageOverlay_kept h call
  | moveImage id owner width height => exact h
  | clearImage key => exact h.reduces (clearImageOverlay_reduces t key)
  | hideImage id owner => exact h.reduces (hideImageOverlay_reduces t id owner)
  | showTooltip supportsTooltip slot owner busName textLength throws =>
    exact showTooltip_kept h supportsTooltip slot owner busName textLength throws
  | hideTooltip supportsTooltip slot owner => exact h.reduces (hideTooltip_reduces t supportsTooltip slot owner)
  | nameOwnerChanged name oldOwner newOwner alive =>
    exact h.reduces (handleNameOwnerChanged_reduces alive t name oldOwner newOwner)
  | reconnectFires owner alive => exact h.reduces (reconnectFires_reduces alive t owner)
  | cleanupFires alive => exact h.reduces (cleanupFires_reduces alive t)

theorem start_kept : Overlays.start.Kept where
  keyed := by
    constructor <;> · intro key o ho; simp [Overlays.start] at ho
  bounded := by
    constructor
    · exact Nat.zero_le _
    · intro owner
      exact Nat.zero_le _
    · exact Nat.zero_le _
    · intro owner
      exact Nat.zero_le _
  timed := ⟨rfl, fun hsize => absurd rfl hsize⟩

/-- At every point of every run the overlays and their bytes are within the quotas, in all and for each owner, and the
cleanup timer runs while there is an overlay. -/
theorem overlays_bounded (calls : List OverlayCall) :
    let t := calls.foldl overlayCall .start
    t.size ≤ maxOverlaysTotal ∧ (∀ owner, t.ownerCount owner ≤ maxOverlaysPerOwner) ∧
      t.overlayBytes ≤ maxOverlayBytesTotal ∧ (∀ owner, t.ownerBytes owner ≤ maxOverlayBytesPerOwner) ∧
        (t.hasAnyOverlays = true → t.cleanupId = true ∧ t.cleanupSource = true) := by
  have hrun := Transition.Run.foldl overlayCall .start calls
  obtain ⟨-, hbounded, htimed⟩ : (calls.foldl overlayCall .start).Kept := by
    refine hrun.invariant ?_ start_kept
    intro t call u h hstep
    rw [← hstep]
    exact overlayCall_kept h call
  refine ⟨hbounded.size, hbounded.owner, hbounded.bytes, hbounded.ownerBytes, ?_⟩
  intro hany
  have hsource := htimed.armed (hasAnyOverlays_iff.mp hany)
  exact ⟨htimed.source.trans hsource, hsource⟩

end KeysharpDesktop.Shell
