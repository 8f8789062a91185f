import KeysharpDesktop.Authority.Permissions
import KeysharpDesktop.Lib.Slots
import KeysharpDesktop.Lib.Transition
import Mathlib.Logic.Function.Basic

/-! Display workers of a backend registration: who may reuse which worker, under any
interleaving of callers that start, reuse and forget workers while registrations come and go. -/
namespace KeysharpDesktop

/-- Queries and captures are served by separate workers. -/
inductive DisplayLane
  | query | capture
  deriving DecidableEq, Repr

/-- What a worker process dropped to when it was spawned. -/
structure Credentials where
  uid : ℕ
  gid : ℕ
  deriving DecidableEq, Repr

def maxBackendRegistrations : ℕ := 128

/-- A registration slot. Relays are named by the order of their creation; an unused slot is
all zeros. -/
structure Backend where
  active : Bool := false
  uid : ℕ := 0
  descriptor : Option ℕ := none
  backend : ℕ := 0
  advertised : ℕ := 0
  providerFd : Option ℕ := none
  displayRelay : DisplayLane → Option ℕ := fun _ => none
  displayUid : DisplayLane → ℕ := fun _ => 0
  displayGid : DisplayLane → ℕ := fun _ => 0
  identity : Identity := ⟨0, 0, 0, []⟩
  providerIdentity : Identity := ⟨0, 0, 0, []⟩

/-- The arguments of one call of `display_relay_for`. -/
structure DisplayCaller where
  identity : Identity
  gid : ℕ
  sessionPid : ℕ
  backend : ℕ
  lane : DisplayLane
  deriving DecidableEq, Repr

/-- A call that has dropped the lock: before its worker is started, and after. -/
inductive DisplayCall
  | starting (caller : DisplayCaller) (slot : ℕ) (registration : Identity)
  | started (caller : DisplayCaller) (slot : ℕ) (registration : Identity) (relay : ℕ)
  deriving DecidableEq, Repr

/-- The slots, the credentials behind every relay ever created, the calls under way, and
what calls have returned and retired so far. -/
structure Displays where
  backends : List Backend
  workers : List Credentials
  calls : ℕ → Option DisplayCall
  returned : List (DisplayCaller × ℕ)
  retired : List ℕ

def displaysInit : Displays :=
  ⟨List.replicate maxBackendRegistrations {}, [], fun _ => none, [], []⟩

namespace Displays

def backend (s : Displays) (i : ℕ) : Backend := s.backends.getD i {}

def setBackend (s : Displays) (i : ℕ) (b : Backend) : Displays :=
  { s with backends := s.backends.set i b }

def setCall (s : Displays) (thread : ℕ) (call : Option DisplayCall) : Displays :=
  { s with calls := Function.update s.calls thread call }

def addWorker (s : Displays) (c : Credentials) : Displays :=
  { s with workers := s.workers ++ [c] }

def give (s : Displays) (caller : DisplayCaller) (relay : ℕ) : Displays :=
  { s with returned := s.returned ++ [(caller, relay)] }

def retire (s : Displays) (relays : List ℕ) : Displays :=
  { s with retired := s.retired ++ relays }

end Displays

/-- Whether a slot is the registration a caller asks for. -/
def registrationFor (caller : DisplayCaller) (b : Backend) : Bool :=
  b.active && b.uid == caller.identity.uid && b.backend == caller.backend &&
    b.identity.pid == caller.sessionPid

/-- The first examination. A worker with other credentials gives the caller nothing. -/
def examineSlot (s : Displays) (thread : ℕ) (caller : DisplayCaller) : Displays :=
  match s.backends.findIdx? (registrationFor caller) with
  | none => s
  | some slot =>
    let b := s.backend slot
    match b.displayRelay caller.lane with
    | some relay =>
      if b.displayUid caller.lane = caller.identity.uid ∧ b.displayGid caller.lane = caller.gid then
        s.give caller relay
      else s
    | none => s.setCall thread (some (.starting caller slot b.identity))

/-- Outside the lock: a worker is spawned with the caller's credentials, or not at all. -/
def captureWorkerSpawn (s : Displays) (thread : ℕ) (ok : Bool) : Displays :=
  match s.calls thread with
  | some (.starting caller slot registration) =>
    if ok then
      (s.addWorker ⟨caller.identity.uid, caller.gid⟩).setCall thread
        (some (.started caller slot registration s.workers.length))
    else s.setCall thread none
  | _ => s

/-- The second examination: the registration may be gone, or another caller's worker may
have taken the lane meanwhile. -/
def installWorker (s : Displays) (thread : ℕ) : Displays :=
  match s.calls thread with
  | some (.started caller slot registration relay) =>
    let b := s.backend slot
    let s := s.setCall thread none
    if !b.active || b.uid != caller.identity.uid || !sameIdentity b.identity registration then
      s.retire [relay]
    else match b.displayRelay caller.lane with
      | some winner => (s.give caller winner).retire [relay]
      | none =>
        (s.setBackend slot { b with
          displayRelay := Function.update b.displayRelay caller.lane (some relay)
          displayUid := Function.update b.displayUid caller.lane caller.identity.uid
          displayGid := Function.update b.displayGid caller.lane caller.gid }).give caller relay
  | _ => s

/-- Only a slot that still holds the relay gives it up, and only then is it retired. -/
def forgetDisplayRelay (s : Displays) (identity : Identity) (relay : ℕ) : Displays :=
  let holds (b : Backend) : Bool := b.active && b.uid == identity.uid &&
    (b.displayRelay .query == some relay || b.displayRelay .capture == some relay)
  match s.backends.findIdx? holds with
  | none => s
  | some slot =>
    let b := s.backend slot
    (s.setBackend slot { b with
      displayRelay := fun lane => if b.displayRelay lane = some relay then none
        else b.displayRelay lane }).retire [relay]

/-- What a daemon presents when it registers. -/
structure Registration where
  uid : ℕ
  descriptor : ℕ
  backend : ℕ
  advertised : ℕ
  providerFd : Option ℕ
  identity : Identity
  providerIdentity : Option Identity
  deriving DecidableEq, Repr

def registerBackend (s : Displays) (r : Registration) : Displays :=
  if s.backends.any fun b => b.active && b.uid == r.uid then s
  else match s.backends.findIdx? fun b => !b.active with
    | none => s
    | some slot =>
      let b := s.backend slot
      s.setBackend slot { b with
        active := true, uid := r.uid, descriptor := some r.descriptor, backend := r.backend
        advertised := r.advertised, providerFd := r.providerFd, identity := r.identity
        providerIdentity := r.providerIdentity.getD b.providerIdentity }

def unregisterBackend (s : Displays) (uid descriptor : ℕ) : Displays :=
  match s.backends.findIdx? fun b => b.active && b.uid == uid && b.descriptor == some descriptor with
  | none => s
  | some slot =>
    let b := s.backend slot
    (s.setBackend slot {}).retire
      ((b.displayRelay .query).toList ++ (b.displayRelay .capture).toList)

/-- One turn of the state mutex, or one spawn outside it. -/
inductive DisplayStep
  | examine (thread : ℕ) (caller : DisplayCaller)
  | spawn (thread : ℕ) (ok : Bool)
  | install (thread : ℕ)
  | forget (identity : Identity) (relay : ℕ)
  | register (r : Registration)
  | unregister (uid descriptor : ℕ)
  deriving DecidableEq, Repr

def displayStep (s : Displays) : DisplayStep → Displays
  | .examine thread caller => if (s.calls thread).isSome then s else examineSlot s thread caller
  | .spawn thread ok => captureWorkerSpawn s thread ok
  | .install thread => installWorker s thread
  | .forget identity relay => forgetDisplayRelay s identity relay
  | .register r => registerBackend s r
  | .unregister uid descriptor => unregisterBackend s uid descriptor

abbrev DisplayRun := Transition.Run fun s label t => displayStep s label = t

/-- Every relay handed out belongs to a worker with its caller's credentials. -/
def Isolated (s : Displays) : Prop :=
  ∀ caller relay, (caller, relay) ∈ s.returned →
    s.workers[relay]? = some ⟨caller.identity.uid, caller.gid⟩

/-- The lane a call finds taken when it comes back with its own worker. -/
def lostTo (s : Displays) (thread : ℕ) : Option (DisplayCaller × Backend) :=
  match s.calls thread with
  | some (.started caller slot registration _) =>
    let b := s.backend slot
    if b.active && b.uid == caller.identity.uid && sameIdentity b.identity registration &&
      (b.displayRelay caller.lane).isSome then some (caller, b) else none
  | _ => none

/-- A call that loses the race loses it to a worker of its own group. -/
def LosesToOwnGroup (s : Displays) : DisplayStep → Prop
  | .install thread => ∀ caller b, lostTo s thread = some (caller, b) →
      b.displayGid caller.lane = caller.gid
  | _ => True

/-- What every reachable state keeps: a lane's worker has the credentials recorded beside it,
which are the slot's own user, and a started worker has its caller's. -/
structure Displays.Sound (s : Displays) : Prop where
  lane : ∀ i l relay, (s.backend i).displayRelay l = some relay →
    s.workers[relay]? = some ⟨(s.backend i).displayUid l, (s.backend i).displayGid l⟩ ∧
      (s.backend i).displayUid l = (s.backend i).uid
  unused : ∀ i, (s.backend i).active = false → ∀ l, (s.backend i).displayRelay l = none
  started : ∀ thread caller slot registration relay,
    s.calls thread = some (.started caller slot registration relay) →
      s.workers[relay]? = some ⟨caller.identity.uid, caller.gid⟩
  returned : ∀ caller relay, (caller, relay) ∈ s.returned → relay < s.workers.length

namespace Displays

variable {s : Displays} {thread i relay : ℕ} {caller : DisplayCaller} {b : Backend}

theorem backend_setBackend (s : Displays) (b : Backend) (i j : ℕ) :
    (s.setBackend i b).backend j = if j = i ∧ i < s.backends.length then b else s.backend j :=
  Slots.getD_set _ _ _ _ _

@[simp] theorem setCall_calls (s : Displays) (thread : ℕ) (call : Option DisplayCall) :
    (s.setCall thread call).calls = Function.update s.calls thread call := rfl

theorem Sound.retire (h : s.Sound) (relays : List ℕ) : (s.retire relays).Sound :=
  ⟨h.lane, h.unused, h.started, h.returned⟩

theorem Sound.give (h : s.Sound) (caller : DisplayCaller) (hr : relay < s.workers.length) :
    (s.give caller relay).Sound := by
  refine ⟨h.lane, h.unused, h.started, ?_⟩
  intro c r hmem
  rw [Displays.give, List.mem_append, List.mem_singleton] at hmem
  rcases hmem with hmem | hmem
  · exact h.returned c r hmem
  · cases hmem
    exact hr

theorem Sound.setCall (h : s.Sound) (call : Option DisplayCall)
    (hcall : ∀ caller slot registration relay, call = some (.started caller slot registration relay) →
      s.workers[relay]? = some ⟨caller.identity.uid, caller.gid⟩) :
    (s.setCall thread call).Sound := by
  refine ⟨h.lane, h.unused, ?_, h.returned⟩
  intro t c slot registration r ht
  by_cases htt : t = thread
  · subst htt
    rw [setCall_calls, Function.update_self] at ht
    exact hcall c slot registration r ht
  · rw [setCall_calls, Function.update_of_ne htt] at ht
    exact h.started t c slot registration r ht

theorem getElem?_addWorker {w c : Credentials} (h : s.workers[relay]? = some w) :
    (s.addWorker c).workers[relay]? = some w := by
  have hlt := (List.getElem?_eq_some_iff.mp h).1
  rw [Displays.addWorker, List.getElem?_append_left hlt, h]

theorem Sound.addWorker (h : s.Sound) (c : Credentials) : (s.addWorker c).Sound := by
  refine ⟨?_, h.unused, ?_, ?_⟩
  · intro j l r hr
    obtain ⟨hw, hu⟩ := h.lane j l r hr
    exact ⟨getElem?_addWorker hw, hu⟩
  · intro t caller slot registration r ht
    exact getElem?_addWorker (h.started t caller slot registration r ht)
  · intro caller r hmem
    have := h.returned caller r hmem
    simp only [Displays.addWorker, List.length_append, List.length_singleton]
    omega

theorem Sound.setBackend (h : s.Sound)
    (hlane : ∀ l relay, b.displayRelay l = some relay →
      s.workers[relay]? = some ⟨b.displayUid l, b.displayGid l⟩ ∧ b.displayUid l = b.uid)
    (hunused : b.active = false → ∀ l, b.displayRelay l = none) : (s.setBackend i b).Sound := by
  refine ⟨?_, ?_, h.started, h.returned⟩
  · intro j l r hr
    rw [backend_setBackend] at hr ⊢
    split_ifs at hr ⊢ with hj
    · exact hlane l r hr
    · exact h.lane j l r hr
  · intro j hj l
    rw [backend_setBackend] at hj ⊢
    split_ifs at hj ⊢ with hji
    · exact hunused hj l
    · exact h.unused j hj l

theorem Sound.lane_lt (h : s.Sound) {l : DisplayLane} (hr : (s.backend i).displayRelay l = some relay) :
    relay < s.workers.length :=
  (List.getElem?_eq_some_iff.mp (h.lane i l relay hr).1).1

end Displays

section Steps

variable {s : Displays}

theorem examineSlot_sound (h : s.Sound) (thread : ℕ) (caller : DisplayCaller) :
    (examineSlot s thread caller).Sound := by
  unfold examineSlot
  split
  · exact h
  · dsimp only
    split
    · next relay hrelay =>
      split_ifs
      · exact h.give caller (h.lane_lt hrelay)
      · exact h
    · exact h.setCall _ (by simp)

theorem captureWorkerSpawn_sound (h : s.Sound) (thread : ℕ) (ok : Bool) :
    (captureWorkerSpawn s thread ok).Sound := by
  unfold captureWorkerSpawn
  split
  · next caller slot registration hcall =>
    split_ifs
    · refine (h.addWorker _).setCall _ ?_
      intro c slot' registration' relay heq
      cases heq
      simp [Displays.addWorker]
    · exact h.setCall _ (by simp)
  · exact h

/-- The lane a worker is installed in takes its credentials from the caller. -/
theorem installWorker_sound (h : s.Sound) (thread : ℕ) : (installWorker s thread).Sound := by
  unfold installWorker
  split
  · next caller slot registration relay hcall =>
    have hnone : (s.setCall thread none).Sound := h.setCall _ (by simp)
    have hworker := h.started thread caller slot registration relay hcall
    dsimp only
    split_ifs with hgone
    · exact hnone.retire _
    · simp only [Bool.or_eq_true, Bool.not_eq_true', bne_iff_ne, ne_eq, not_or, not_not,
        Bool.not_eq_false] at hgone
      obtain ⟨⟨hactive, huid⟩, -⟩ := hgone
      split
      · next winner hwinner => exact (hnone.give caller (h.lane_lt hwinner)).retire _
      · next hempty =>
        refine (hnone.setBackend ?_ ?_).give caller (List.getElem?_eq_some_iff.mp hworker).1
        · intro l r hr
          by_cases hl : l = caller.lane
          · subst hl
            simp only [Function.update_self, Option.some.injEq] at hr ⊢
            subst hr
            exact ⟨hworker, huid.symm⟩
          · simp only [Function.update_of_ne hl] at hr ⊢
            exact h.lane slot l r hr
        · intro hinactive
          rw [hactive] at hinactive
          cases hinactive
  · exact h

theorem forgetDisplayRelay_sound (h : s.Sound) (identity : Identity) (relay : ℕ) :
    (forgetDisplayRelay s identity relay).Sound := by
  unfold forgetDisplayRelay
  dsimp only
  split
  · exact h
  · next slot hslot =>
    refine Displays.Sound.retire (h.setBackend ?_ ?_) _
    · intro l r hr
      simp only at hr
      split_ifs at hr
      exact h.lane slot l r hr
    · intro hinactive l
      simp [h.unused slot hinactive l]

theorem registerBackend_sound (h : s.Sound) (r : Registration) : (registerBackend s r).Sound := by
  unfold registerBackend
  split_ifs
  · exact h
  · split
    · exact h
    · next slot hslot =>
      have hfree : (s.backend slot).active = false := by
        have := (Slots.findIdx?_some (d := {}) hslot).2
        exact Bool.not_eq_true' _ ▸ this
      refine h.setBackend ?_ ?_
      · intro l relay hrelay
        simp [h.unused slot hfree l] at hrelay
      · intro hinactive
        cases hinactive

theorem unregisterBackend_sound (h : s.Sound) (uid descriptor : ℕ) :
    (unregisterBackend s uid descriptor).Sound := by
  unfold unregisterBackend
  split
  · exact h
  · refine Displays.Sound.retire (h.setBackend ?_ ?_) _
    · intro l relay hrelay
      cases hrelay
    · intro _ l
      rfl

theorem displayStep_sound (h : s.Sound) (label : DisplayStep) : (displayStep s label).Sound := by
  cases label with
  | examine thread caller =>
    simp only [displayStep]
    split_ifs
    · exact h
    · exact examineSlot_sound h thread caller
  | spawn thread ok => exact captureWorkerSpawn_sound h thread ok
  | install thread => exact installWorker_sound h thread
  | forget identity relay => exact forgetDisplayRelay_sound h identity relay
  | register r => exact registerBackend_sound h r
  | unregister uid descriptor => exact unregisterBackend_sound h uid descriptor

theorem displaysInit_sound : displaysInit.Sound := by
  have hbackend : ∀ i, displaysInit.backend i = {} := fun i => Slots.getD_replicate _ _
  refine ⟨?_, ?_, ?_, ?_⟩
  · intro i l relay hrelay
    simp [hbackend] at hrelay
  · intro i _ l
    rw [hbackend]
  · intro thread caller slot registration relay hcall
    cases hcall
  · intro caller relay hmem
    cases hmem

end Steps

section Isolation

variable {s t : Displays}

theorem isolated_give (caller : DisplayCaller) (relay : ℕ) :
    Isolated (s.give caller relay) ↔
      Isolated s ∧ s.workers[relay]? = some ⟨caller.identity.uid, caller.gid⟩ := by
  unfold Isolated
  simp only [Displays.give, List.mem_append, List.mem_singleton]
  constructor
  · intro h
    exact ⟨fun c r hmem => h c r (.inl hmem), h caller relay (.inr rfl)⟩
  · rintro ⟨h, hlast⟩ c r (hmem | hmem)
    · exact h c r hmem
    · cases hmem
      exact hlast

theorem isolated_addWorker (h : s.Sound) (c : Credentials) : Isolated (s.addWorker c) ↔ Isolated s := by
  have hget : ∀ caller relay, (caller, relay) ∈ s.returned →
      (s.addWorker c).workers[relay]? = s.workers[relay]? := fun caller relay hmem =>
    List.getElem?_append_left (h.returned caller relay hmem)
  constructor
  · intro hi caller relay hmem
    rw [← hget caller relay hmem]
    exact hi caller relay hmem
  · intro hi caller relay hmem
    rw [hget caller relay hmem]
    exact hi caller relay hmem

/-- The first examination hands out only what matches. -/
theorem examineSlot_isolated (h : s.Sound) (thread : ℕ) (caller : DisplayCaller) :
    Isolated (examineSlot s thread caller) ↔ Isolated s := by
  unfold examineSlot
  split
  · rfl
  · next slot hslot =>
    dsimp only
    split
    · next relay hrelay =>
      split_ifs with hsame
      · have hworker := (h.lane slot caller.lane relay hrelay).1
        rw [hsame.1, hsame.2] at hworker
        rw [isolated_give]
        exact and_iff_left hworker
      · rfl
    · rfl

theorem captureWorkerSpawn_isolated (h : s.Sound) (thread : ℕ) (ok : Bool) :
    Isolated (captureWorkerSpawn s thread ok) ↔ Isolated s := by
  unfold captureWorkerSpawn
  split
  · split_ifs
    · exact isolated_addWorker h _
    · rfl
  · rfl

/-- The second examination hands out a winner's worker unseen, so its group decides. -/
theorem installWorker_isolated (h : s.Sound) (thread : ℕ) :
    Isolated (installWorker s thread) ↔
      Isolated s ∧ LosesToOwnGroup s (.install thread) := by
  unfold installWorker LosesToOwnGroup
  split
  · next caller slot registration relay hcall =>
    have hworker := h.started thread caller slot registration relay hcall
    simp only [lostTo, hcall]
    by_cases hgone : !(s.backend slot).active || (s.backend slot).uid != caller.identity.uid ||
        !sameIdentity (s.backend slot).identity registration
    · have hlost : ((s.backend slot).active && (s.backend slot).uid == caller.identity.uid &&
          sameIdentity (s.backend slot).identity registration &&
          ((s.backend slot).displayRelay caller.lane).isSome) = false := by
        simp only [Bool.or_eq_true, Bool.not_eq_true', bne_iff_ne, ne_eq] at hgone
        rcases hgone with (hgone | hgone) | hgone <;> simp [hgone]
      simp only [hgone, hlost, if_true, Bool.false_eq_true, if_false, reduceCtorEq, IsEmpty.forall_iff,
        implies_true, and_true]
      rfl
    · rw [if_neg hgone]
      simp only [Bool.or_eq_true, Bool.not_eq_true', bne_iff_ne, ne_eq, not_or, not_not,
        Bool.not_eq_false] at hgone
      obtain ⟨⟨hactive, huid⟩, hidentity⟩ := hgone
      split
      · next winner hwinner =>
        obtain ⟨hlane, hslot⟩ := h.lane slot caller.lane winner hwinner
        change Isolated ((s.setCall thread none).give caller winner) ↔ _
        rw [isolated_give]
        change Isolated s ∧ s.workers[winner]? = _ ↔ _
        simp [hlane, hslot, huid, hactive, hidentity, hwinner]
      · next hempty =>
        change Isolated (Displays.give _ caller relay) ↔ _
        rw [isolated_give]
        change Isolated s ∧ s.workers[relay]? = _ ↔ _
        simp [hworker, hempty]
  · next hcall =>
    have hnone : lostTo s thread = none := by
      unfold lostTo
      split
      · next caller slot registration relay heq => exact absurd heq (hcall caller slot registration relay)
      · rfl
    simp [hnone]

theorem displayStep_isolated (h : s.Sound) (label : DisplayStep) :
    Isolated (displayStep s label) ↔ Isolated s ∧ LosesToOwnGroup s label := by
  cases label with
  | examine thread caller =>
    simp only [displayStep, LosesToOwnGroup, and_true]
    split_ifs
    · rfl
    · exact examineSlot_isolated h thread caller
  | spawn thread ok =>
    rw [displayStep, captureWorkerSpawn_isolated h]
    simp [LosesToOwnGroup]
  | install thread => exact installWorker_isolated h thread
  | forget identity relay =>
    simp only [displayStep, forgetDisplayRelay, LosesToOwnGroup, and_true]
    split <;> rfl
  | register r =>
    simp only [displayStep, registerBackend, LosesToOwnGroup, and_true]
    split_ifs
    · rfl
    · split <;> rfl
  | unregister uid descriptor =>
    simp only [displayStep, unregisterBackend, LosesToOwnGroup, and_true]
    split <;> rfl

/-- The relays handed out along a run match their callers' credentials exactly when every
call that lost a race lost it to a worker of its own group. -/
theorem displayRelayFor_isolated_iff {labels : List DisplayStep}
    (hrun : DisplayRun displaysInit labels t) :
    Isolated t ↔ Transition.Run
      (Transition.Restrict (fun s label t => displayStep s label = t) LosesToOwnGroup)
      displaysInit labels t := by
  have hinit : Isolated displaysInit := by
    intro caller relay hmem
    cases hmem
  rw [hrun.holds_iff_restrict (I := Displays.Sound) (P := Isolated) ?_ ?_ ?_ displaysInit_sound]
  · exact and_iff_right hinit
  · rintro s label t u rfl rfl
    rfl
  · rintro s label t hs rfl
    exact displayStep_sound hs label
  · rintro s label t hs rfl
    exact displayStep_isolated hs label

end Isolation

section Race

/-- A caller of user 1000 in the given group. -/
def queryCaller (gid : ℕ) : DisplayCaller := ⟨⟨1000, 7, 1, []⟩, gid, 5, 2, .query⟩

def sessionRegistration : Registration := ⟨1000, 3, 2, 0, none, ⟨1000, 5, 1, []⟩, none⟩

/-- Two callers in different groups find the lane empty and both start a worker. -/
def groupRace : List DisplayStep :=
  [.register sessionRegistration, .examine 0 (queryCaller 100), .examine 1 (queryCaller 200),
    .spawn 0 true, .spawn 1 true, .install 0, .install 1]

theorem groupRace_not_isolated :
    DisplayRun displaysInit groupRace (groupRace.foldl displayStep displaysInit) ∧
      ¬ Isolated (groupRace.foldl displayStep displaysInit) := by
  refine ⟨.foldl displayStep displaysInit groupRace, ?_⟩
  intro h
  have hmem : (queryCaller 200, 0) ∈ (groupRace.foldl displayStep displaysInit).returned := by
    decide +kernel
  have hworker := h _ _ hmem
  revert hworker
  decide +kernel

/-- One caller starts a worker and the next, of the same group, reuses it. -/
def reuse : List DisplayStep :=
  [.register sessionRegistration, .examine 0 (queryCaller 100), .spawn 0 true, .install 0,
    .examine 1 (queryCaller 100)]

theorem reuse_isolated : Isolated (reuse.foldl displayStep displaysInit) := by
  refine (displayRelayFor_isolated_iff (.foldl displayStep displaysInit reuse)).mpr ?_
  have hlost : (lostTo ((reuse.take 3).foldl displayStep displaysInit) 0).isNone := by decide +kernel
  refine .cons ⟨rfl, trivial⟩ (.cons ⟨rfl, trivial⟩ (.cons ⟨rfl, trivial⟩ (.cons ⟨rfl, ?_⟩
    (.cons ⟨rfl, trivial⟩ (.nil _)))))
  intro caller b hsome
  change lostTo ((reuse.take 3).foldl displayStep displaysInit) 0 = some (caller, b) at hsome
  rw [hsome] at hlost
  cases hlost

end Race

end KeysharpDesktop
