import KeysharpDesktop.Provider.Quotas

/-! Refused image frames: a frame the byte quota refuses leaves its mapping in the overlay. Where no frame is refused
so, the mapping of an overlay is what its actor was last drawn from; and where no file is longer than its frame, the
mapping is as long as the bytes that are counted for it. -/
namespace KeysharpDesktop.Shell

variable {t u : Overlays} {c : ImageCall} {file : Option MappedFile} {shared : SharedFrame} {area : Area}
  {entry : ImageOverlay}

/-- The frame is mapped anew for an overlay, and the byte quota has no room for it. -/
def ImageCall.Overruns (c : ImageCall) (t : Overlays) : Prop :=
  ∃ entry mapped, t.imageOverlays.lookup c.key = some entry ∧ c.valid = true ∧ c.frame = some (some mapped) ∧
    ¬entry.shared.Fits c ∧ c.stride * c.pixelHeight ≤ mapped.length ∧
      t.overlayBytesAvailable c.owner (c.stride * c.pixelHeight).toNat (some entry) = false

/-- The compositor lets the call draw: on the overlay's own actor, or on a new one. -/
def ImageCall.Draws (c : ImageCall) (t : Overlays) : Prop :=
  c.create ≠ .throws ∨ (t.imageOverlays.lookup c.key).isSome ∧ c.update ≠ .throws

/-- The frame is mapped anew from a file that is longer than the frame, the quotas have room for it, and it is drawn. -/
def ImageCall.Enlarges (c : ImageCall) (t : Overlays) : Prop :=
  ∃ mapped, c.valid = true ∧ t.overlayQuotaAvailable c.owner (t.imageOverlays.lookup c.key).isSome = true ∧
    c.frame = some (some mapped) ∧ (∀ entry, t.imageOverlays.lookup c.key = some entry → ¬entry.shared.Fits c) ∧
      c.stride * c.pixelHeight < mapped.length ∧
        t.overlayBytesAvailable c.owner (c.stride * c.pixelHeight).toNat (t.imageOverlays.lookup c.key) = true ∧
          c.Draws t

theorem fits_bytes (h : shared.Fits c) : shared.bytes = (c.stride * c.pixelHeight).toNat := by
  obtain ⟨-, -, hheight, hstride⟩ := h
  rw [SharedFrame.bytes, hheight, hstride]

/-- A mapping is either the overlay's own, for the marked area, or a new one, for the whole frame. -/
theorem mapFrame_cases {existing : Option SharedFrame} (h : mapFrame existing file c = some (shared, area)) :
    shared.Fits c ∧ ((existing = some shared ∧ area = frameArea c.damage c.pixelWidth c.pixelHeight) ∨
      (∀ old, existing = some old → ¬old.Fits c) ∧ area = shared.whole ∧
        file = some shared.mapped ∧ c.stride * c.pixelHeight ≤ shared.mapped.length) := by
  unfold mapFrame at h
  cases hfilter : existing.filter fun shared => shared.Fits c with
  | some old =>
    rw [hfilter] at h
    cases h
    obtain ⟨hexisting, hfits⟩ := Option.filter_eq_some_iff.mp hfilter
    exact ⟨of_decide_eq_true hfits, .inl ⟨hexisting, rfl⟩⟩
  | none =>
    rw [hfilter] at h
    cases file with
    | none => cases h
    | some mapped =>
      dsimp only at h
      split_ifs at h with hshort
      cases h
      refine ⟨⟨rfl, rfl, rfl, rfl⟩, .inr ⟨?_, rfl, rfl, Int.not_lt.mp hshort⟩⟩
      intro old hold hfits
      rw [hold, Option.filter_some, if_pos (decide_eq_true hfits)] at hfilter
      cases hfilter

/-- A file that is long enough is mapped where the overlay has no mapping of the buffer. -/
theorem mapFrame_new {existing : Option SharedFrame} {mapped : MappedFile}
    (hnone : ∀ old, existing = some old → ¬old.Fits c) (hlength : c.stride * c.pixelHeight ≤ mapped.length) :
    let shared : SharedFrame := ⟨c.frameSerial, mapped, c.pixelWidth, c.pixelHeight, c.stride⟩
    mapFrame existing (some mapped) c = some (shared, shared.whole) := by
  have hfilter : existing.filter (fun shared => shared.Fits c) = none := by
    cases existing with
    | none => rfl
    | some old => simp [Option.filter, hnone old rfl]
  have hlong : ¬(mapped.length : ℤ) < c.stride * c.pixelHeight := Int.not_lt.mpr hlength
  simp only [mapFrame, hfilter, if_neg hlong]

/-- The answer of the byte quota is the same before and after the overlay has its new mapping. -/
theorem bytesAvailable_setShared (t : Overlays) (key : String) (shared : SharedFrame) (owner : Owner) (bytes : ℕ) :
    (t.setShared key shared).overlayBytesAvailable owner bytes ((t.setShared key shared).imageOverlays.lookup key) =
      t.overlayBytesAvailable owner bytes (t.imageOverlays.lookup key) := by
  have hprevious : ((t.imageOverlays.lookup key).map fun entry => { entry with shared }).map ImageOverlay.frameBytes =
      (t.imageOverlays.lookup key).map ImageOverlay.frameBytes := by
    rw [Option.map_map]
    rfl
  unfold Overlays.overlayBytesAvailable
  rw [overlayBytes_eq_load, ownerBytes_eq_load, load_setShared, load_setShared, lookup_setShared, hprevious,
    ← overlayBytes_eq_load, ← ownerBytes_eq_load]

theorem showImageOverlay_admitted (hvalid : c.valid = true)
    (hquota : t.overlayQuotaAvailable c.owner (t.imageOverlays.lookup c.key).isSome = true)
    (hframe : c.frame = some file) :
    showImageOverlay t c = presentImageOverlay (t.cancelOverlayReconnectTimer c.owner) c file := by
  have hadmitted : (c.valid && (t.cancelOverlayReconnectTimer c.owner).overlayQuotaAvailable c.owner
      ((t.cancelOverlayReconnectTimer c.owner).imageOverlays.lookup c.key).isSome) = true := by
    rw [hvalid]
    exact hquota
  simp only [showImageOverlay, hadmitted, not_true_eq_false, if_false, hframe]

theorem presentImageOverlay_refused
    (hmap : mapFrame ((t.imageOverlays.lookup c.key).map ImageOverlay.shared) file c = some (shared, area))
    (hbytes : t.overlayBytesAvailable c.owner shared.bytes (t.imageOverlays.lookup c.key) = false) :
    presentImageOverlay t c file = (t.setShared c.key shared, .refused) := by
  simp only [presentImageOverlay, hmap, bytesAvailable_setShared, hbytes, Bool.false_eq_true, not_false_eq_true,
    if_true]

/-- A frame the quota refuses is mapped into the overlay all the same. -/
theorem overruns_refused (h : c.Overruns t) : ∃ entry shared, t.imageOverlays.lookup c.key = some entry ∧
    shared ≠ entry.shared ∧ (showImageOverlay t c).2 = .refused ∧
      (showImageOverlay t c).1.imageOverlays.lookup c.key = some { entry with shared } := by
  obtain ⟨entry, mapped, hfound, hvalid, hframe, hfits, hlength, hbytes⟩ := h
  let shared : SharedFrame := ⟨c.frameSerial, mapped, c.pixelWidth, c.pixelHeight, c.stride⟩
  refine ⟨entry, shared, hfound, ?_, ?_⟩
  · rintro hsame
    rw [← hsame] at hfits
    exact hfits ⟨rfl, rfl, rfl, rfl⟩
  · have hcancel : (t.cancelOverlayReconnectTimer c.owner).imageOverlays.lookup c.key = some entry := hfound
    have hmap : mapFrame (((t.cancelOverlayReconnectTimer c.owner).imageOverlays.lookup c.key).map ImageOverlay.shared)
        (some mapped) c = some (shared, shared.whole) := by
      rw [hcancel]
      apply mapFrame_new _ hlength
      intro old hold
      cases hold
      exact hfits
    have hfull : (t.cancelOverlayReconnectTimer c.owner).overlayBytesAvailable c.owner shared.bytes
        ((t.cancelOverlayReconnectTimer c.owner).imageOverlays.lookup c.key) = false := by
      rw [hcancel]
      exact hbytes
    have hquota : t.overlayQuotaAvailable c.owner (t.imageOverlays.lookup c.key).isSome = true := by
      rw [hfound]
      rfl
    have hrefused : showImageOverlay t c =
        ((t.cancelOverlayReconnectTimer c.owner).setShared c.key shared, .refused) := by
      rw [showImageOverlay_admitted hvalid hquota hframe, presentImageOverlay_refused hmap hfull]
    rw [hrefused, lookup_setShared, hcancel]
    exact ⟨rfl, rfl⟩

/-- Where the mapping of a frame comes from: it is the overlay's own, or that of the call's file, to be drawn whole. -/
inductive ImageCall.Source (c : ImageCall) (t : Overlays) (shared : SharedFrame) (area : Area) : Prop
  | kept (entry : ImageOverlay) (found : t.imageOverlays.lookup c.key = some entry) (same : shared = entry.shared)
  | mapped (fresh : ∀ entry, t.imageOverlays.lookup c.key = some entry → ¬entry.shared.Fits c)
      (whole : area = shared.whole) (frame : c.frame = some (some shared.mapped))
      (length : c.stride * c.pixelHeight ≤ shared.mapped.length)

/-- An accepted frame, the overlay it leaves at its key, and how the actor was drawn: an existing actor, or a new
one. -/
structure ImageCall.Shows (c : ImageCall) (t u : Overlays) (o : ImageOverlay) (drawn : Option Area) : Prop where
  valid : c.valid = true
  fits : o.shared.Fits c
  bytes : o.frameBytes = o.shared.bytes
  available : t.overlayBytesAvailable c.owner o.shared.bytes (t.imageOverlays.lookup c.key) = true
  here : u.imageOverlays.lookup c.key = some o
  others : ∀ key, key ≠ c.key → u.imageOverlays.lookup key = t.imageOverlays.lookup key
  draws : ∃ old area answer, updateImageActor old o.shared area answer = some (o.actor, drawn) ∧
    (old = newActor ∧ answer = c.create ∨
      ∃ entry, t.imageOverlays.lookup c.key = some entry ∧ old = entry.actor ∧ answer = c.update) ∧
    c.Source t o.shared area

/-- What a call does to the image overlays, by its answer. -/
inductive ImageCall.Outcome (c : ImageCall) (t u : Overlays) : ImageAnswer → Prop
  | kept (same : u.imageOverlays = t.imageOverlays) : Outcome c t u .refused
  | remapped (shared : SharedFrame)
      (here : u.imageOverlays.lookup c.key = (t.imageOverlays.lookup c.key).map fun entry => { entry with shared })
      (others : ∀ key, key ≠ c.key → u.imageOverlays.lookup key = t.imageOverlays.lookup key)
      (overran : ∀ entry, t.imageOverlays.lookup c.key = some entry → shared = entry.shared ∨ c.Overruns t) :
      Outcome c t u .refused
  | threw (fewer : u.imageOverlays.entries.Sublist t.imageOverlays.entries) : Outcome c t u .threw
  | shown (o : ImageOverlay) (drawn : Option Area) (shows : c.Shows t u o drawn) : Outcome c t u (.shown drawn)

theorem ensureOverlayCleanupTimer_imageOverlays (t : Overlays) :
    t.ensureOverlayCleanupTimer.imageOverlays = t.imageOverlays := by
  unfold Overlays.ensureOverlayCleanupTimer
  split_ifs <;> rfl

theorem imageOverlays_setShared_none (h : t.imageOverlays.lookup c.key = none) : t.setShared c.key shared = t := by
  unfold Overlays.setShared
  rw [h]

/-- An entry other than the one at the key is where it was. -/
theorem lookup_setShared_ne {key other : String} (hne : other ≠ key) (shared : SharedFrame) :
    (t.setShared key shared).imageOverlays.lookup other = t.imageOverlays.lookup other := by
  unfold Overlays.setShared
  cases t.imageOverlays.lookup key with
  | none => rfl
  | some entry => exact AList.lookup_insert_ne hne

/-- The frame of a mapping that the quota refuses is the overlay's own, or the call overruns. -/
theorem remapped_over (hvalid : c.valid = true) (hframe : c.frame = some file)
    (hmap : mapFrame ((t.imageOverlays.lookup c.key).map ImageOverlay.shared) file c = some (shared, area))
    (hbytes : t.overlayBytesAvailable c.owner shared.bytes (t.imageOverlays.lookup c.key) = false) :
    ∀ entry, t.imageOverlays.lookup c.key = some entry → shared = entry.shared ∨ c.Overruns t := by
  intro entry hfound
  rw [hfound] at hmap hbytes
  obtain ⟨hfits, ⟨hown, -⟩ | ⟨hold, -, rfl, hlength⟩⟩ := mapFrame_cases hmap
  · left
    exact (Option.some.inj hown).symm
  · right
    rw [fits_bytes hfits] at hbytes
    exact ⟨entry, shared.mapped, hfound, hvalid, hframe, hold entry.shared rfl, hlength, hbytes⟩

/-- A new actor is drawn whole, for an overlay whose place was empty or is taken over. -/
theorem createImageOverlay_outcome (hvalid : c.valid = true) (hfits : shared.Fits c)
    (hbytes : t.overlayBytesAvailable c.owner shared.bytes (t.imageOverlays.lookup c.key) = true)
    (hu : u.imageOverlays = t.imageOverlays.erase c.key) (hsource : c.Source t shared area) :
    c.Outcome t (createImageOverlay u c shared area).1 (createImageOverlay u c shared area).2 := by
  unfold createImageOverlay
  cases hupdate : updateImageActor newActor shared area c.create with
  | none =>
    apply ImageCall.Outcome.threw
    rw [hu]
    exact List.kerase_sublist _ _
  | some result =>
    obtain ⟨actor, drawn⟩ := result
    apply ImageCall.Outcome.shown ⟨⟨c.owner, c.busName⟩, shared.bytes, shared, actor⟩
    refine ⟨hvalid, hfits, rfl, hbytes, ?_, ?_, newActor, area, c.create, hupdate, .inl ⟨rfl, rfl⟩, hsource⟩
    · rw [ensureOverlayCleanupTimer_imageOverlays]
      exact AList.lookup_insert _
    · intro key hkey
      rw [ensureOverlayCleanupTimer_imageOverlays, AList.lookup_insert_ne hkey, hu, AList.lookup_erase_ne hkey]

theorem presentImageOverlay_outcome (t : Overlays) (hvalid : c.valid = true) (hframe : c.frame = some file) :
    c.Outcome t (presentImageOverlay t c file).1 (presentImageOverlay t c file).2 := by
  cases hmap : mapFrame ((t.imageOverlays.lookup c.key).map ImageOverlay.shared) file c with
  | none =>
    simp only [presentImageOverlay, hmap]
    exact .kept rfl
  | some result =>
    obtain ⟨shared, area⟩ := result
    cases hbytes : t.overlayBytesAvailable c.owner shared.bytes (t.imageOverlays.lookup c.key) with
    | false =>
      rw [presentImageOverlay_refused hmap hbytes]
      exact .remapped shared (lookup_setShared t c.key shared) (fun key hne => lookup_setShared_ne hne shared)
        (remapped_over hvalid hframe hmap hbytes)
    | true =>
      obtain ⟨hfits, hmapped⟩ := mapFrame_cases hmap
      have hsource : c.Source t shared area := by
        rcases hmapped with ⟨hown, -⟩ | ⟨hold, hwhole, rfl, hlength⟩
        · obtain ⟨entry, hfound, hshared⟩ := Option.map_eq_some_iff.mp hown
          exact .kept entry hfound hshared.symm
        · refine .mapped ?_ hwhole hframe hlength
          intro entry hfound
          exact hold entry.shared (by rw [hfound, Option.map_some])
      have hroom : (t.setShared c.key shared).overlayBytesAvailable c.owner shared.bytes
          ((t.setShared c.key shared).imageOverlays.lookup c.key) = true := by
        rw [bytesAvailable_setShared, hbytes]
      simp only [presentImageOverlay, hmap, hroom, not_true_eq_false, if_false]
      rw [lookup_setShared]
      cases hfound : t.imageOverlays.lookup c.key with
      | none =>
        rw [imageOverlays_setShared_none hfound]
        exact createImageOverlay_outcome hvalid hfits hbytes (Table.erase_of_lookup hfound).symm hsource
      | some entry =>
        dsimp only [Option.map_some]
        have hremapped : (t.setShared c.key shared).imageOverlays =
            t.imageOverlays.insert c.key { entry with shared } := by
          unfold Overlays.setShared
          rw [hfound]
        cases hupdate : updateImageActor entry.actor shared area c.update with
        | none =>
          refine createImageOverlay_outcome hvalid hfits hbytes ?_ hsource
          change (t.setShared c.key shared).imageOverlays.erase c.key = _
          rw [hremapped, Table.erase_insert]
        | some result =>
          obtain ⟨actor, drawn⟩ := result
          apply ImageCall.Outcome.shown ⟨⟨c.owner, c.busName⟩, shared.bytes, shared, actor⟩
          refine ⟨hvalid, hfits, rfl, hbytes, ?_, ?_, entry.actor, area, c.update, hupdate,
            .inr ⟨entry, hfound, rfl, rfl⟩, hsource⟩
          · rw [ensureOverlayCleanupTimer_imageOverlays]
            exact AList.lookup_insert _
          · intro key hkey
            rw [ensureOverlayCleanupTimer_imageOverlays, AList.lookup_insert_ne hkey, lookup_setShared_ne hkey]

/-- The reconnect timers have no part in what a call does to the image overlays. -/
theorem ImageCall.Outcome.of_cancel {answer : ImageAnswer}
    (h : c.Outcome (t.cancelOverlayReconnectTimer c.owner) u answer) : c.Outcome t u answer := by
  cases h with
  | kept same => exact .kept same
  | remapped shared here others overran => exact .remapped shared here others overran
  | threw fewer => exact .threw fewer
  | shown o drawn shows =>
    obtain ⟨hvalid, hfits, hbytes, havailable, hhere, hothers, old, area, answer, hupdate, hold, hsource⟩ := shows
    refine .shown o drawn ⟨hvalid, hfits, hbytes, havailable, hhere, hothers, old, area, answer, hupdate, hold, ?_⟩
    cases hsource with
    | kept entry found same => exact .kept entry found same
    | mapped fresh whole frame length => exact .mapped fresh whole frame length

theorem showImageOverlay_outcome (t : Overlays) (c : ImageCall) :
    c.Outcome t (showImageOverlay t c).1 (showImageOverlay t c).2 := by
  by_cases hadmitted : (c.valid && (t.cancelOverlayReconnectTimer c.owner).overlayQuotaAvailable c.owner
      ((t.cancelOverlayReconnectTimer c.owner).imageOverlays.lookup c.key).isSome) = true
  · obtain ⟨hvalid, hquota⟩ := Bool.and_eq_true _ _ ▸ hadmitted
    cases hframe : c.frame with
    | none =>
      simp only [showImageOverlay, hadmitted, not_true_eq_false, if_false, hframe]
      exact .kept rfl
    | some file =>
      rw [showImageOverlay_admitted (t := t) hvalid hquota hframe]
      exact (presentImageOverlay_outcome _ hvalid hframe).of_cancel
  · simp only [showImageOverlay, hadmitted]
    exact .kept rfl

section Refused

theorem frames_unchanged_iff (t : Overlays) (c : ImageCall) :
    ((showImageOverlay t c).2 = .refused →
      (showImageOverlay t c).1.imageOverlays.lookup c.key = t.imageOverlays.lookup c.key) ↔ ¬c.Overruns t := by
  constructor
  · intro hunchanged hover
    obtain ⟨entry, shared, hfound, hne, hrefused, hchanged⟩ := overruns_refused hover
    rw [hunchanged hrefused, hfound] at hchanged
    exact hne (congrArg ImageOverlay.shared (Option.some.inj hchanged)).symm
  · intro hover hrefused
    have houtcome := showImageOverlay_outcome t c
    rw [hrefused] at houtcome
    cases houtcome with
    | kept same => rw [same]
    | remapped shared here others overran =>
      rw [here]
      cases hfound : t.imageOverlays.lookup c.key with
      | none => rfl
      | some entry =>
        rcases overran entry hfound with rfl | h
        · rfl
        · exact absurd h hover

end Refused

section Retained

/-- The mapping of every overlay is what its actor was last drawn from, and its frame is what its bytes count. -/
def Overlays.Drawn (t : Overlays) : Prop :=
  ∀ key entry, t.imageOverlays.lookup key = some entry →
    entry.frameBytes = entry.shared.bytes ∧ entry.actor.content = some entry.shared

/-- And every mapping is as long as the bytes that are counted for it. -/
def Overlays.Retained (t : Overlays) : Prop :=
  t.Drawn ∧ ∀ key entry, t.imageOverlays.lookup key = some entry → entry.shared.mapped.length = entry.frameBytes

/-- A call keeps every mapping drawn unless it leaves a refused frame mapped. -/
def Overlays.Accepting (t : Overlays) : OverlayCall → Prop
  | .showImage c => ¬c.Overruns t
  | _ => True

/-- It keeps every mapping as long as what is counted unless it draws from a file that is longer. -/
def Overlays.Undisturbed (t : Overlays) : OverlayCall → Prop
  | .showImage c => ¬c.Overruns t ∧ ¬c.Enlarges t
  | _ => True

/-- How a content is drawn: whole, or in the marked area of what is there, or not at all for an empty area. -/
theorem makeImageContent_cases (content : Option SharedFrame) (shared : SharedFrame) (area : Area)
    (sameSize regional : Bool) :
    makeImageContent content shared area sameSize regional = (some shared, some shared.whole) ∨
      content.isSome = true ∧ area ≠ shared.whole ∧
        makeImageContent content shared area sameSize regional = (some shared, some area) ∨
      content.isSome = true ∧ (area.width ≤ 0 ∨ area.height ≤ 0) ∧
        makeImageContent content shared area sameSize regional = (content, none) := by
  unfold makeImageContent
  cases sameSize with
  | false =>
    left
    simp
  | true =>
    simp only [reduceIte]
    split_ifs with hempty hpart
    · exact .inr (.inr ⟨hempty.1, hempty.2, rfl⟩)
    · exact .inr (.inl ⟨hpart.1, hpart.2.1, rfl⟩)
    · exact .inl rfl

theorem whole_nonempty (hvalid : c.valid = true) (hfits : shared.Fits c) :
    0 < shared.whole.width ∧ 0 < shared.whole.height := by
  obtain ⟨-, hwidth, hheight, -⟩ := hfits
  simp only [ImageCall.valid, validOverlayGeometry, Bool.and_eq_true, decide_eq_true_eq] at hvalid
  simp only [SharedFrame.whole, hwidth, hheight]
  omega

/-- A valid call's stride and height are positive, so the bytes of its frame are their product. -/
theorem bytes_of_valid (hvalid : c.valid = true) (hfits : shared.Fits c) :
    (shared.bytes : ℤ) = c.stride * c.pixelHeight := by
  simp only [ImageCall.valid, validOverlayGeometry, Bool.and_eq_true, decide_eq_true_eq] at hvalid
  have hstride : 0 ≤ c.stride := by omega
  have hheight : 0 ≤ c.pixelHeight := by omega
  rw [fits_bytes hfits, Int.toNat_of_nonneg (Int.mul_nonneg hstride hheight)]

/-- After an accepted frame the actor is drawn from the overlay's mapping: whole, unless the actor had been drawn from
that mapping before. -/
theorem ImageCall.Shows.drawn {o : ImageOverlay} {drawn : Option Area} (h : c.Shows t u o drawn)
    (hdrawn : t.Drawn) :
    o.actor.content = some o.shared ∧ (drawn = some o.shared.whole ∨
      ∃ entry, t.imageOverlays.lookup c.key = some entry ∧ entry.actor.content = some o.shared) := by
  obtain ⟨old, area, answer, hupdate, hold, hsource⟩ := h.draws
  -- An area short of the whole frame comes with the overlay's own mapping, and only the overlay's actor has content.
  have hown : old.content.isSome = true → area ≠ o.shared.whole →
      ∃ entry, t.imageOverlays.lookup c.key = some entry ∧ entry.actor.content = some o.shared ∧
        old.content = some o.shared := by
    intro hcontent harea
    cases hsource with
    | mapped fresh whole frame length => exact absurd whole harea
    | kept entry hfound hshared =>
      rcases hold with ⟨rfl, -⟩ | ⟨entry', hfound', rfl, -⟩
      · cases hcontent
      · rw [hfound] at hfound'
        cases hfound'
        have := (hdrawn c.key entry hfound).2
        rw [← hshared] at this
        exact ⟨entry, hfound, this, this⟩
  cases answer with
  | throws => cases hupdate
  | draws regional =>
    simp only [updateImageActor, Option.some.injEq, Prod.mk.injEq] at hupdate
    obtain ⟨hactor, hdrawn⟩ := hupdate
    rw [← hactor, ← hdrawn]
    rcases makeImageContent_cases old.content o.shared area (decide (old.size = some (o.shared.width, o.shared.height)))
      regional with hmade | ⟨hcontent, harea, hmade⟩ | ⟨hcontent, hempty, hmade⟩
    · rw [hmade]
      exact ⟨rfl, .inl rfl⟩
    · obtain ⟨entry, hfound, hentry, -⟩ := hown hcontent harea
      rw [hmade]
      exact ⟨rfl, .inr ⟨entry, hfound, hentry⟩⟩
    · have harea : area ≠ o.shared.whole := by
        rintro rfl
        have := whole_nonempty h.valid h.fits
        omega
      obtain ⟨entry, hfound, hentry, hcontent⟩ := hown hcontent harea
      rw [hmade]
      exact ⟨hcontent, .inr ⟨entry, hfound, hentry⟩⟩

theorem showImageOverlay_drawn_iff (h : t.Drawn) (c : ImageCall) :
    (showImageOverlay t c).1.Drawn ↔ ¬c.Overruns t := by
  constructor
  · intro hdrawn hover
    obtain ⟨entry, shared, hfound, hne, -, hchanged⟩ := overruns_refused hover
    have hnew := (hdrawn c.key _ hchanged).2
    rw [(h c.key entry hfound).2] at hnew
    exact hne (Option.some.inj hnew).symm
  · intro hover key entry hfound
    have houtcome := showImageOverlay_outcome t c
    generalize (showImageOverlay t c).2 = answer at houtcome
    cases houtcome with
    | kept same =>
      rw [same] at hfound
      exact h key entry hfound
    | remapped shared here others overran =>
      by_cases hkey : key = c.key
      · subst hkey
        rw [here] at hfound
        obtain ⟨old, hold, rfl⟩ := Option.map_eq_some_iff.mp hfound
        rcases overran old hold with rfl | hover'
        · exact h c.key old hold
        · exact absurd hover' hover
      · rw [others key hkey] at hfound
        exact h key entry hfound
    | threw fewer => exact h key entry (Table.lookup_of_sublist fewer hfound)
    | shown o drawn shows =>
      by_cases hkey : key = c.key
      · rw [hkey, shows.here] at hfound
        cases hfound
        exact ⟨shows.bytes, (shows.drawn h).1⟩
      · rw [shows.others key hkey] at hfound
        exact h key entry hfound

/-- A frame with room in the byte quota is shown wherever the compositor draws it. -/
theorem presentImageOverlay_draws
    (hmap : mapFrame ((t.imageOverlays.lookup c.key).map ImageOverlay.shared) file c = some (shared, area))
    (hbytes : t.overlayBytesAvailable c.owner shared.bytes (t.imageOverlays.lookup c.key) = true) (hdraws : c.Draws t) :
    ∃ drawn, (presentImageOverlay t c file).2 = .shown drawn := by
  have hcreate : c.create ≠ .throws → ∀ t' : Overlays, ∃ drawn, (createImageOverlay t' c shared area).2 = .shown drawn := by
    intro hanswer t'
    unfold createImageOverlay
    cases hupdate : c.create with
    | throws => exact absurd hupdate hanswer
    | draws regional => exact ⟨_, rfl⟩
  have hroom : (t.setShared c.key shared).overlayBytesAvailable c.owner shared.bytes
      ((t.setShared c.key shared).imageOverlays.lookup c.key) = true := by
    rw [bytesAvailable_setShared, hbytes]
  simp only [presentImageOverlay, hmap, hroom, not_true_eq_false, if_false]
  rw [lookup_setShared]
  cases hfound : t.imageOverlays.lookup c.key with
  | none =>
    rcases hdraws with hanswer | ⟨hsome, -⟩
    · exact hcreate hanswer _
    · rw [hfound] at hsome
      cases hsome
  | some entry =>
    dsimp only [Option.map_some]
    cases hupdate : c.update with
    | throws =>
      rcases hdraws with hanswer | ⟨-, hanswer⟩
      · exact hcreate hanswer _
      · exact absurd hupdate hanswer
    | draws regional => exact ⟨_, rfl⟩

/-- An overlay that is drawn from a longer file keeps all of that file mapped. -/
theorem enlarges_mapped (h : c.Enlarges t) : ∃ o, (showImageOverlay t c).1.imageOverlays.lookup c.key = some o ∧
    o.frameBytes < o.shared.mapped.length := by
  obtain ⟨mapped, hvalid, hquota, hframe, hfresh, hlonger, hbytes, hdraws⟩ := h
  let shared : SharedFrame := ⟨c.frameSerial, mapped, c.pixelWidth, c.pixelHeight, c.stride⟩
  have hmap : mapFrame ((t.imageOverlays.lookup c.key).map ImageOverlay.shared) (some mapped) c =
      some (shared, shared.whole) := by
    refine mapFrame_new ?_ hlonger.le
    intro old hold
    obtain ⟨entry, hfound, rfl⟩ := Option.map_eq_some_iff.mp hold
    exact hfresh entry hfound
  have hshown : ∃ drawn, (showImageOverlay t c).2 = .shown drawn := by
    rw [showImageOverlay_admitted hvalid hquota hframe]
    exact @presentImageOverlay_draws (t.cancelOverlayReconnectTimer c.owner) c (some mapped) shared shared.whole hmap
      hbytes hdraws
  obtain ⟨drawn, hdrawn⟩ := hshown
  have houtcome := showImageOverlay_outcome t c
  rw [hdrawn] at houtcome
  cases houtcome with
  | shown o _ shows =>
    refine ⟨o, shows.here, ?_⟩
    obtain ⟨old, area, answer, hupdate, hold, hsource⟩ := shows.draws
    cases hsource with
    | kept entry found same =>
      have hfits := shows.fits
      rw [same] at hfits
      exact absurd hfits (hfresh entry found)
    | mapped fresh whole frame length =>
      rw [hframe, Option.some.injEq, Option.some.injEq] at frame
      have hbytes := bytes_of_valid hvalid shows.fits
      rw [shows.bytes, ← frame]
      omega

/-- What is shown had room in both quotas, and was drawn. -/
theorem ImageCall.Shows.enlarges {o : ImageOverlay} {drawn : Option Area} (h : c.Shows t u o drawn)
    (hquota : t.overlayQuotaAvailable c.owner (t.imageOverlays.lookup c.key).isSome = true)
    (hlonger : c.stride * c.pixelHeight < o.shared.mapped.length)
    (hfresh : ∀ entry, t.imageOverlays.lookup c.key = some entry → ¬entry.shared.Fits c)
    (hframe : c.frame = some (some o.shared.mapped)) : c.Enlarges t := by
  have havailable := h.available
  rw [fits_bytes h.fits] at havailable
  refine ⟨o.shared.mapped, h.valid, hquota, hframe, hfresh, hlonger, havailable, ?_⟩
  obtain ⟨old, area, answer, hupdate, hold, -⟩ := h.draws
  have hanswer : answer ≠ .throws := by
    rintro rfl
    cases hupdate
  rcases hold with ⟨-, rfl⟩ | ⟨entry, hfound, -, rfl⟩
  · exact .inl hanswer
  · exact .inr ⟨by rw [hfound]; rfl, hanswer⟩

theorem showImageOverlay_quota {drawn : Option Area} (h : (showImageOverlay t c).2 = .shown drawn) :
    t.overlayQuotaAvailable c.owner (t.imageOverlays.lookup c.key).isSome = true := by
  by_contra hquota
  have hrefused : (c.valid && (t.cancelOverlayReconnectTimer c.owner).overlayQuotaAvailable c.owner
      ((t.cancelOverlayReconnectTimer c.owner).imageOverlays.lookup c.key).isSome) = false := by
    rw [Bool.and_eq_false_iff]
    exact .inr (Bool.eq_false_iff.mpr hquota)
  simp only [showImageOverlay, hrefused] at h
  cases h

theorem showImageOverlay_retained_iff (h : t.Retained) (c : ImageCall) :
    (showImageOverlay t c).1.Retained ↔ ¬c.Overruns t ∧ ¬c.Enlarges t := by
  constructor
  · rintro ⟨hdrawn, hlengths⟩
    refine ⟨(showImageOverlay_drawn_iff h.1 c).mp hdrawn, ?_⟩
    intro henlarges
    obtain ⟨o, hfound, hlonger⟩ := enlarges_mapped henlarges
    have := hlengths c.key o hfound
    omega
  · rintro ⟨hover, henlarges⟩
    refine ⟨(showImageOverlay_drawn_iff h.1 c).mpr hover, ?_⟩
    intro key entry hfound
    have houtcome := showImageOverlay_outcome t c
    have hquota := fun drawn => @showImageOverlay_quota t c drawn
    generalize (showImageOverlay t c).2 = answer at houtcome hquota
    cases houtcome with
    | kept same =>
      rw [same] at hfound
      exact h.2 key entry hfound
    | remapped shared here others overran =>
      by_cases hkey : key = c.key
      · subst hkey
        rw [here] at hfound
        obtain ⟨old, hold, rfl⟩ := Option.map_eq_some_iff.mp hfound
        rcases overran old hold with rfl | hover'
        · exact h.2 c.key old hold
        · exact absurd hover' hover
      · rw [others key hkey] at hfound
        exact h.2 key entry hfound
    | threw fewer => exact h.2 key entry (Table.lookup_of_sublist fewer hfound)
    | shown o drawn shows =>
      by_cases hkey : key = c.key
      · rw [hkey, shows.here, Option.some.injEq] at hfound
        subst hfound
        obtain ⟨old, area, answer, hupdate, hold, hsource⟩ := shows.draws
        cases hsource with
        | kept old found same =>
          rw [shows.bytes, same, h.2 c.key old found]
          exact (h.1 c.key old found).1
        | mapped fresh whole frame length =>
          have hshort : ¬c.stride * c.pixelHeight < o.shared.mapped.length :=
            fun hlonger => henlarges (shows.enlarges (hquota drawn rfl) hlonger fresh frame)
          have hbytes := bytes_of_valid shows.valid shows.fits
          rw [shows.bytes]
          omega
      · rw [shows.others key hkey] at hfound
        exact h.2 key entry hfound

theorem stopUnused_imageOverlays (t : Overlays) : t.stopUnused.imageOverlays = t.imageOverlays := by
  unfold Overlays.stopUnused Overlays.stopOverlayCleanupTimer
  split_ifs <;> rfl

theorem showHighlight_imageOverlays (t : Overlays) (id : ℤ) (owner : Owner) (busName : String) (width height : ℤ)
    (throws : Bool) : (showHighlight t id owner busName width height throws).1.imageOverlays = t.imageOverlays := by
  unfold showHighlight
  dsimp only
  split_ifs
  · rfl
  · exact stopUnused_imageOverlays _
  · rfl
  · exact ensureOverlayCleanupTimer_imageOverlays _

theorem showTooltip_imageOverlays (t : Overlays) (supportsTooltip : Bool) (slot : ℤ) (owner : Owner) (busName : String)
    (textLength : ℕ) (throws : Bool) :
    (showTooltip t supportsTooltip slot owner busName textLength throws).1.imageOverlays = t.imageOverlays := by
  unfold showTooltip
  dsimp only
  split_ifs
  · rfl
  · exact stopUnused_imageOverlays _
  · rfl
  · exact ensureOverlayCleanupTimer_imageOverlays _
  · rfl

/-- Every image of `u` is one of `t`, as far as its mapping, its bytes and its actor go. -/
def Overlays.ImagesOf (u t : Overlays) : Prop :=
  ∀ key o, u.imageOverlays.lookup key = some o → ∃ o', t.imageOverlays.lookup key = some o' ∧
    o'.frameBytes = o.frameBytes ∧ o'.shared = o.shared ∧ o'.actor = o.actor

theorem Overlays.Within.imagesOf (h : u.Within t) : u.ImagesOf t := by
  intro key o hfound
  obtain ⟨o', hfound', -, hrest⟩ := h.image key o hfound
  exact ⟨o', hfound', hrest⟩

theorem imagesOf_of_eq (himages : u.imageOverlays = t.imageOverlays) : u.ImagesOf t := by
  intro key o hfound
  rw [himages] at hfound
  exact ⟨o, hfound, rfl, rfl, rfl⟩

/-- Every other call leaves the images that it leaves as they were. -/
theorem overlayCall_images (t : Overlays) (call : OverlayCall) (hcall : ∀ c, call ≠ .showImage c) :
    (overlayCall t call).ImagesOf t := by
  cases call with
  | showImage c => exact absurd rfl (hcall c)
  | registerOwner owner bus alive => exact (registerHighlightOwner_reduces alive t owner bus).within.imagesOf
  | showHighlight id owner busName width height throws =>
    exact imagesOf_of_eq (showHighlight_imageOverlays t id owner busName width height throws)
  | hideHighlight id owner => exact (hideHighlight_reduces t id owner).within.imagesOf
  | moveImage id owner width height => exact imagesOf_of_eq rfl
  | clearImage key => exact (clearImageOverlay_reduces t key).within.imagesOf
  | hideImage id owner => exact (hideImageOverlay_reduces t id owner).within.imagesOf
  | showTooltip supportsTooltip slot owner busName textLength throws =>
    exact imagesOf_of_eq (showTooltip_imageOverlays t supportsTooltip slot owner busName textLength throws)
  | hideTooltip supportsTooltip slot owner => exact (hideTooltip_reduces t supportsTooltip slot owner).within.imagesOf
  | nameOwnerChanged name oldOwner newOwner alive =>
    exact (handleNameOwnerChanged_reduces alive t name oldOwner newOwner).within.imagesOf
  | reconnectFires owner alive => exact (reconnectFires_reduces alive t owner).within.imagesOf
  | cleanupFires alive => exact (cleanupFires_reduces alive t).within.imagesOf

theorem Overlays.Drawn.of_images (h : t.Drawn) (himages : u.ImagesOf t) : u.Drawn := by
  intro key o hfound
  obtain ⟨o', hfound', hbytes, hshared, hactor⟩ := himages key o hfound
  have hbefore := h key o' hfound'
  rwa [hbytes, hshared, hactor] at hbefore

theorem Overlays.Retained.of_images (h : t.Retained) (himages : u.ImagesOf t) : u.Retained := by
  refine ⟨h.1.of_images himages, ?_⟩
  intro key o hfound
  obtain ⟨o', hfound', hbytes, hshared, -⟩ := himages key o hfound
  have hbefore := h.2 key o' hfound'
  rwa [hbytes, hshared] at hbefore

theorem overlayCall_drawn_iff (h : t.Drawn) (call : OverlayCall) : (overlayCall t call).Drawn ↔ t.Accepting call := by
  by_cases hcall : ∃ c, call = .showImage c
  · obtain ⟨c, rfl⟩ := hcall
    exact showImageOverlay_drawn_iff h c
  · have hother : ∀ c, call ≠ .showImage c := fun c hc => hcall ⟨c, hc⟩
    refine iff_of_true (h.of_images (overlayCall_images t call hother)) ?_
    cases call with
    | showImage c => exact absurd rfl (hother c)
    | _ => trivial

theorem overlayCall_retained_iff (h : t.Retained) (call : OverlayCall) :
    (overlayCall t call).Retained ↔ t.Undisturbed call := by
  by_cases hcall : ∃ c, call = .showImage c
  · obtain ⟨c, rfl⟩ := hcall
    exact showImageOverlay_retained_iff h c
  · have hother : ∀ c, call ≠ .showImage c := fun c hc => hcall ⟨c, hc⟩
    refine iff_of_true (h.of_images (overlayCall_images t call hother)) ?_
    cases call with
    | showImage c => exact absurd rfl (hother c)
    | _ => trivial

end Retained

theorem start_retained : Overlays.start.Retained := by
  refine ⟨?_, ?_⟩
  · intro key entry hfound
    simp [Overlays.start] at hfound
  · intro key entry hfound
    simp [Overlays.start] at hfound

/-- A refused frame leaves its overlay as it was exactly where the call does not overrun. In exactly the runs without
such a call every actor was last drawn from the mapping of its overlay; and in exactly those of them in which no file
that is drawn from is longer than its frame, every mapping is as long as the bytes that are counted for it. Where the
actors were last drawn from their mappings, an accepted frame is drawn whole unless the actor has been drawn from that
buffer. -/
theorem refusedFrame_unchanged_iff (t : Overlays) (c : ImageCall) (calls : List OverlayCall) (drawn : Option Area) :
    (((showImageOverlay t c).2 = .refused →
      (showImageOverlay t c).1.imageOverlays.lookup c.key = t.imageOverlays.lookup c.key) ↔ ¬c.Overruns t) ∧
    ((∀ n, ((calls.take n).foldl overlayCall .start).Drawn) ↔
      Transition.Admitted overlayCall Overlays.Accepting .start calls) ∧
    ((∀ n, ((calls.take n).foldl overlayCall .start).Retained) ↔
      Transition.Admitted overlayCall Overlays.Undisturbed .start calls) ∧
    (t.Drawn → (showImageOverlay t c).2 = .shown drawn →
      drawn = some ⟨0, 0, c.pixelWidth, c.pixelHeight⟩ ∨
        ∃ entry shared, t.imageOverlays.lookup c.key = some entry ∧ entry.actor.content = some shared ∧
          shared.Fits c) := by
  refine ⟨frames_unchanged_iff t c, ?_, ?_, ?_⟩
  · exact Transition.admitted_iff_take (I := fun _ => True) (P := Overlays.Drawn) (fun _ _ _ => trivial)
      (fun t call _ h => overlayCall_drawn_iff h call) trivial start_retained.1 calls
  · exact Transition.admitted_iff_take (I := fun _ => True) (P := Overlays.Retained) (fun _ _ _ => trivial)
      (fun t call _ h => overlayCall_retained_iff h call) trivial start_retained calls
  · intro hdrawn hshown
    have houtcome := showImageOverlay_outcome t c
    rw [hshown] at houtcome
    cases houtcome with
    | shown o _ shows =>
      obtain ⟨-, rfl | ⟨entry, hfound, hcontent⟩⟩ := shows.drawn hdrawn
      · left
        obtain ⟨-, hwidth, hheight, -⟩ := shows.fits
        rw [SharedFrame.whole, hwidth, hheight]
      · exact .inr ⟨entry, o.shared, hfound, hcontent, shows.fits⟩

section Overrun

def overrunOwner : Owner := ⟨123, "77", by decide⟩

def overrunCall (id : ℤ) (serial : ℕ) (width height : ℤ) : ImageCall where
  id := id
  owner := overrunOwner
  busName := ":1.5"
  width := 64
  height := 64
  fds := some [.file ⟨serial, 2 ^ 26⟩]
  frameIndex := 0
  frameSerial := serial
  pixelWidth := width
  pixelHeight := height
  stride := 4 * width
  damage := some ⟨0, 0, 1, 1⟩
  update := .draws true
  create := .draws true

/-- Two overlays take up all the bytes of their owner. -/
def fullOverlays : Overlays :=
  [OverlayCall.showImage (overrunCall 1 1 4096 4095), .showImage (overrunCall 2 2 64 64)].foldl overlayCall .start

/-- The second overlay's next frame is one row too high, and is refused; its buffer stays mapped. -/
theorem fullOverlays_remapped :
    (showImageOverlay fullOverlays (overrunCall 2 3 64 65)).2 = .refused ∧
      (fullOverlays.imageOverlays.lookup (overrunCall 2 3 64 65).key).map (fun o => o.shared.serial) = some 2 ∧
        ((showImageOverlay fullOverlays (overrunCall 2 3 64 65)).1.imageOverlays.lookup
          (overrunCall 2 3 64 65).key).map (fun o => o.shared.serial) = some 3 := by
  refine ⟨?_, ?_, ?_⟩
  · decide +kernel
  · decide +kernel
  · decide +kernel

end Overrun

end KeysharpDesktop.Shell
