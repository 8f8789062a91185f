import KeysharpDesktop.Authority.Display
import KeysharpDesktop.Lib.Refcount

/-! Backend registrations and the relays they keep: who holds a reference to which relay, and who retires it, under any
interleaving of registrations, snapshots, display workers that start, and workers that are found broken. -/
namespace KeysharpDesktop

open Refcount (Heap)

/-- A registration slot with the relay to the daemon's script. -/
structure BackendSlot extends Backend where
  relay : Option ℕ := none

/-- The relays a slot keeps, each with the reference it was made with. -/
def BackendSlot.relays (b : BackendSlot) : List ℕ :=
  b.relay.toList ++ (b.displayRelay .query).toList ++ (b.displayRelay .capture).toList

/-- Where a thread stands with the relays. A thread that took relays out of their slot, or started a worker that is not
needed, retires them one by one: each is marked broken, and then its reference is released. -/
inductive RelayThread
  | idle
  | holding (relay : ℕ)
  | starting (caller : DisplayCaller) (slot : ℕ) (registration : Identity)
  | started (caller : DisplayCaller) (slot : ℕ) (registration : Identity) (relay : ℕ)
  | retiring (held : Option ℕ) (relays : List ℕ)
  | dropping (held : Option ℕ) (relay : ℕ) (relays : List ℕ)

/-- The relays a thread has a reference to, once for each reference. -/
def RelayThread.references : RelayThread → List ℕ
  | .idle | .starting .. => []
  | .holding relay | .started _ _ _ relay => [relay]
  | .retiring held relays => held.toList ++ relays
  | .dropping held relay relays => held.toList ++ relay :: relays

/-- The relays that are a thread's to retire. -/
def RelayThread.owned : RelayThread → List ℕ
  | .idle | .starting .. | .holding _ => []
  | .started _ _ _ relay => [relay]
  | .retiring _ relays | .dropping _ _ relays => relays

structure Relays where
  slots : List BackendSlot
  heap : Heap
  threads : List RelayThread

def relaysInit (threads : ℕ) : Relays :=
  ⟨List.replicate maxBackendRegistrations {}, ⟨[], false⟩, List.replicate threads .idle⟩

namespace Relays

variable (s : Relays)

def slot (i : ℕ) : BackendSlot := s.slots.getD i {}

def registerBackend (r : Registration) (created : Bool) : Relays :=
  if s.slots.any fun b => b.active && b.uid == r.uid then s
  else match s.slots.findIdx? fun b => !b.active with
    | none => s
    | some i =>
      let b := s.slot i
      let creates := r.providerFd.isSome && created
      { s with
        heap := if creates then s.heap.create else s.heap
        slots := s.slots.set i { b with
          active := true, uid := r.uid, descriptor := some r.descriptor, backend := r.backend
          advertised := r.advertised, providerFd := r.providerFd, identity := r.identity
          providerIdentity := r.providerIdentity.getD b.providerIdentity
          relay := if creates then some s.heap.next else none } }

/-- The slot's relays are the thread's to retire. The source retires them before it clears the slot, under the state
mutex; here they may be retired later as well. -/
def unregisterBackend (thread : ℕ) (uid descriptor : ℕ) : Relays :=
  match s.slots.findIdx? fun b => b.active && b.uid == uid && b.descriptor == some descriptor with
  | none => s
  | some i =>
    { s with slots := s.slots.set i {}, threads := s.threads.set thread (.retiring none (s.slot i).relays) }

/-- A snapshot without a relay holds nothing. -/
def takeBackendSnapshot (thread : ℕ) (uid : ℕ) : Relays :=
  match s.slots.find? fun b => b.active && b.uid == uid with
  | none => s
  | some b =>
    match b.relay with
    | none => s
    | some relay => { s with heap := s.heap.acquire relay, threads := s.threads.set thread (.holding relay) }

/-- The first examination of `display_relay_for`. -/
def examineSlot (thread : ℕ) (caller : DisplayCaller) : Relays :=
  match s.slots.findIdx? fun b => registrationFor caller b.toBackend with
  | none => s
  | some i =>
    let b := s.slot i
    match b.displayRelay caller.lane with
    | some relay =>
      if b.displayUid caller.lane = caller.identity.uid ∧ b.displayGid caller.lane = caller.gid then
        { s with heap := s.heap.acquire relay, threads := s.threads.set thread (.holding relay) }
      else s
    | none => { s with threads := s.threads.set thread (.starting caller i b.identity) }

/-- Outside the lock: the worker and its relay are made, or one of them fails. -/
def startWorker (thread : ℕ) (caller : DisplayCaller) (i : ℕ) (registration : Identity) (ok : Bool) : Relays :=
  if ok then
    { s with
      heap := s.heap.create
      threads := s.threads.set thread (.started caller i registration s.heap.next) }
  else { s with threads := s.threads.set thread .idle }

/-- The second examination. A worker that is not needed is its starter's to retire. -/
def installWorker (thread : ℕ) (caller : DisplayCaller) (i : ℕ) (registration : Identity) (relay : ℕ) : Relays :=
  let b := s.slot i
  if !b.active || b.uid != caller.identity.uid || !sameIdentity b.identity registration then
    { s with threads := s.threads.set thread (.retiring none [relay]) }
  else match b.displayRelay caller.lane with
    | some winner =>
      { s with heap := s.heap.acquire winner, threads := s.threads.set thread (.retiring (some winner) [relay]) }
    | none =>
      { s with
        heap := s.heap.acquire relay
        slots := s.slots.set i { b with
          displayRelay := Function.update b.displayRelay caller.lane (some relay)
          displayUid := Function.update b.displayUid caller.lane caller.identity.uid
          displayGid := Function.update b.displayGid caller.lane caller.gid }
        threads := s.threads.set thread (.holding relay) }

/-- Only the thread that takes the relay out of the slot retires it; it keeps its own reference. -/
def forgetDisplayRelay (thread : ℕ) (relay : ℕ) (identity : Identity) : Relays :=
  match s.slots.findIdx? fun b => b.active && b.uid == identity.uid &&
      (b.displayRelay .query == some relay || b.displayRelay .capture == some relay) with
  | none => s
  | some i =>
    let b := s.slot i
    { s with
      slots := s.slots.set i { b with
        displayRelay := fun lane => if b.displayRelay lane = some relay then none else b.displayRelay lane }
      threads := s.threads.set thread (.retiring (some relay) [relay]) }

/-- The first half of `ksd_kwin_relay_retire`, for the next relay a thread has to retire; where none is left the thread
goes on with the relay it holds. -/
def retireNext (thread : ℕ) (held : Option ℕ) : List ℕ → Relays
  | [] => { s with threads := s.threads.set thread (held.elim .idle .holding) }
  | relay :: relays =>
    { s with heap := s.heap.markRetired relay, threads := s.threads.set thread (.dropping held relay relays) }

end Relays

/-- One turn of the state mutex or of a relay's mutex, or one worker started outside them. -/
inductive RelayTurn
  | register (r : Registration) (created : Bool)
  | unregister (uid descriptor : ℕ)
  | take (uid : ℕ)
  | release
  | use (breaks : Bool)
  | examine (caller : DisplayCaller)
  | start (ok : Bool)
  | install
  | forget (identity : Identity)
  | retire

/-- A step of a thread that stands where the step is taken from; elsewhere the step is not there to be taken. -/
def Relays.act (s : Relays) (thread : ℕ) : RelayThread → RelayTurn → Relays
  | .idle, .register r created => s.registerBackend r created
  | .idle, .unregister uid descriptor => s.unregisterBackend thread uid descriptor
  | .idle, .take uid => s.takeBackendSnapshot thread uid
  | .idle, .examine caller => s.examineSlot thread caller
  | .holding relay, .release => { s with heap := s.heap.release relay, threads := s.threads.set thread .idle }
  | .holding relay, .use breaks => { s with heap := s.heap.use relay breaks }
  | .holding relay, .forget identity => s.forgetDisplayRelay thread relay identity
  | .starting caller i registration, .start ok => s.startWorker thread caller i registration ok
  | .started caller i registration relay, .install => s.installWorker thread caller i registration relay
  | .retiring held relays, .retire => s.retireNext thread held relays
  | .dropping held relay relays, .retire =>
    { s with heap := s.heap.release relay, threads := s.threads.set thread (.retiring held relays) }
  | _, _ => s

def Relays.step (s : Relays) (step : ℕ × RelayTurn) : Relays :=
  match s.threads[step.1]? with
  | none => s
  | some t => s.act step.1 t step.2

/-- The references there are to a relay: those of the slots and those of the threads. -/
def Relays.references (s : Relays) (relay : ℕ) : ℕ :=
  (s.slots.flatMap BackendSlot.relays).count relay + (s.threads.flatMap RelayThread.references).count relay

/-- The slots that keep a relay and the threads that are to retire it. -/
def Relays.owners (s : Relays) (relay : ℕ) : ℕ :=
  (s.slots.flatMap BackendSlot.relays).count relay + (s.threads.flatMap RelayThread.owned).count relay

structure Relays.Sound (s : Relays) : Prop where
  heap : s.heap.Counts s.references s.owners
  unique : ∀ i j, (s.slot i).active = true → (s.slot j).active = true → (s.slot i).uid = (s.slot j).uid → i = j
  unused : ∀ i, (s.slot i).active = false → (s.slot i).relays = []

namespace Relays

variable {s : Relays} {thread i relay : ℕ} {t t' : RelayThread} {b : BackendSlot} {heap : Heap}

theorem slot_set (s : Relays) (i j : ℕ) (b : BackendSlot) :
    (s.slots.set i b).getD j {} = if j = i ∧ i < s.slots.length then b else s.slot j :=
  Slots.getD_set _ _ _ _ _

theorem getElem?_slot (hi : i < s.slots.length) : s.slots[i]? = some (s.slot i) := by
  rw [List.getElem?_eq_getElem hi, slot, Slots.getD_of_lt hi]

/-- A slot and a thread change, and the heap as it must: the counts move by what they named and come to name. -/
theorem Sound.change (h : s.Sound) (ht : s.threads[thread]? = some t) (hi : i < s.slots.length)
    (hunique : b.active = true → ∀ j, j ≠ i → (s.slot j).active = true → (s.slot j).uid ≠ b.uid)
    (hunused : b.active = false → b.relays = [])
    (hheap : ∀ refs owners : ℕ → ℕ,
      (∀ x, refs x + ((s.slot i).relays.count x + t.references.count x) =
        s.references x + (b.relays.count x + t'.references.count x)) →
      (∀ x, owners x + ((s.slot i).relays.count x + t.owned.count x) =
        s.owners x + (b.relays.count x + t'.owned.count x)) → heap.Counts refs owners) :
    (⟨s.slots.set i b, heap, s.threads.set thread t'⟩ : Relays).Sound where
  heap := by
    apply hheap
    · intro x
      have hslots := Slots.count_flatMap_set (f := BackendSlot.relays) (getElem?_slot hi) b x
      have hthreads := Slots.count_flatMap_set (f := RelayThread.references) ht t' x
      simp only [references]
      omega
    · intro x
      have hslots := Slots.count_flatMap_set (f := BackendSlot.relays) (getElem?_slot hi) b x
      have hthreads := Slots.count_flatMap_set (f := RelayThread.owned) ht t' x
      simp only [owners]
      omega
  unique := by
    intro j k hj hk huid
    simp only [slot, slot_set] at hj hk huid
    by_cases hji : j = i <;> by_cases hki : k = i
    · rw [hji, hki]
    · rw [if_pos ⟨hji, hi⟩] at hj huid
      rw [if_neg (fun hand => hki hand.1)] at hk huid
      exact absurd huid.symm (hunique hj k hki hk)
    · rw [if_neg (fun hand => hji hand.1)] at hj huid
      rw [if_pos ⟨hki, hi⟩] at hk huid
      exact absurd huid (hunique hk j hji hj)
    · rw [if_neg (fun hand => hji hand.1)] at hj huid
      rw [if_neg (fun hand => hki hand.1)] at hk huid
      exact h.unique j k hj hk huid
  unused := by
    intro j hj
    simp only [slot, slot_set] at hj ⊢
    by_cases hji : j = i
    · rw [if_pos ⟨hji, hi⟩] at hj ⊢
      exact hunused hj
    · rw [if_neg (fun hand => hji hand.1)] at hj ⊢
      exact h.unused j hj

/-- A thread alone changes. -/
theorem Sound.turn (h : s.Sound) (ht : s.threads[thread]? = some t)
    (hheap : ∀ refs owners : ℕ → ℕ, (∀ x, refs x + t.references.count x = s.references x + t'.references.count x) →
      (∀ x, owners x + t.owned.count x = s.owners x + t'.owned.count x) → heap.Counts refs owners) :
    ({ s with heap := heap, threads := s.threads.set thread t' } : Relays).Sound where
  heap := by
    apply hheap
    · intro x
      have hthreads := Slots.count_flatMap_set (f := RelayThread.references) ht t' x
      simp only [references]
      omega
    · intro x
      have hthreads := Slots.count_flatMap_set (f := RelayThread.owned) ht t' x
      simp only [owners]
      omega
  unique := h.unique
  unused := h.unused

theorem count_one (x relay : ℕ) : [relay].count x = if x = relay then 1 else 0 := by
  by_cases hx : x = relay
  · rw [hx, if_pos rfl, List.count_singleton_self]
  · rw [if_neg hx, List.count_eq_zero]
    simpa using hx

/-- A relay that a slot keeps has a reference. -/
theorem references_pos (hi : i < s.slots.length) (hmem : relay ∈ (s.slot i).relays) : 0 < s.references relay := by
  have hcount := Slots.count_flatMap_set (f := BackendSlot.relays) (getElem?_slot hi) {} relay
  have := List.count_pos_iff.mpr hmem
  simp only [references]
  have hempty : ({} : BackendSlot).relays.count relay = 0 := rfl
  omega

theorem references_pos_of_thread (ht : s.threads[thread]? = some t) (hmem : relay ∈ t.references) :
    0 < s.references relay := by
  have hcount := Slots.count_flatMap_set (f := RelayThread.references) ht .idle relay
  have := List.count_pos_iff.mpr hmem
  simp only [references]
  have hidle : RelayThread.idle.references.count relay = 0 := rfl
  omega

section Steps

theorem Sound.unregisterBackend (h : s.Sound) (ht : s.threads[thread]? = some .idle) (uid descriptor : ℕ) :
    (s.unregisterBackend thread uid descriptor).Sound := by
  unfold Relays.unregisterBackend
  split
  · exact h
  · next i hfind =>
    obtain ⟨hi, -⟩ := Slots.findIdx?_some (d := {}) hfind
    refine h.change ht hi (fun hactive => by cases hactive) (fun _ => rfl) ?_
    intro refs owners hrefs howners
    -- The references of the slot become the thread's, and so do the relays to retire.
    apply h.heap.congr
    · intro x
      have := hrefs x
      simp only [RelayThread.references, Option.toList_none, List.nil_append, List.count_nil] at this
      have hempty : ({} : BackendSlot).relays.count x = 0 := rfl
      omega
    · intro x
      have := howners x
      simp only [RelayThread.owned, List.count_nil] at this
      have hempty : ({} : BackendSlot).relays.count x = 0 := rfl
      omega

theorem Sound.hold (h : s.Sound) (ht : s.threads[thread]? = some .idle) (hpos : 0 < s.references relay) :
    ({ s with heap := s.heap.acquire relay, threads := s.threads.set thread (.holding relay) } : Relays).Sound := by
  refine h.turn ht ?_
  intro refs owners hrefs howners
  apply h.heap.acquire hpos
  · intro x
    rw [← count_one]
    exact hrefs x
  · exact howners

theorem mem_relays_lane {l : DisplayLane} (hrelay : b.displayRelay l = some relay) : relay ∈ b.relays := by
  cases l with
  | query => simp [BackendSlot.relays, hrelay]
  | capture => simp [BackendSlot.relays, hrelay]

theorem Sound.takeBackendSnapshot (h : s.Sound) (ht : s.threads[thread]? = some .idle) (uid : ℕ) :
    (s.takeBackendSnapshot thread uid).Sound := by
  unfold Relays.takeBackendSnapshot
  split
  · exact h
  · next b hfind =>
    split
    · exact h
    · next relay hrelay =>
      apply h.hold ht
      obtain ⟨i, hi, hb⟩ := List.getElem_of_mem (List.mem_of_find?_eq_some hfind)
      have hslot : s.slot i = b := by rw [slot, Slots.getD_of_lt hi, hb]
      apply references_pos hi
      rw [hslot]
      simp [BackendSlot.relays, hrelay]

theorem Sound.examineSlot (h : s.Sound) (ht : s.threads[thread]? = some .idle) (caller : DisplayCaller) :
    (s.examineSlot thread caller).Sound := by
  unfold Relays.examineSlot
  split
  · exact h
  · next i hfind =>
    obtain ⟨hi, -⟩ := Slots.findIdx?_some (d := {}) hfind
    dsimp only
    split
    · next relay hrelay =>
      split_ifs
      · exact h.hold ht (references_pos hi (mem_relays_lane hrelay))
      · exact h
    · exact h.turn ht fun refs owners hrefs howners => h.heap.congr hrefs howners

theorem Sound.startWorker (h : s.Sound) {caller : DisplayCaller} {registration : Identity}
    (ht : s.threads[thread]? = some (.starting caller i registration)) (ok : Bool) :
    (s.startWorker thread caller i registration ok).Sound := by
  unfold Relays.startWorker
  split_ifs
  · refine h.turn ht ?_
    intro refs owners hrefs howners
    apply h.heap.create
    · intro x
      rw [← count_one]
      exact hrefs x
    · intro x
      rw [← count_one]
      exact howners x
  · exact h.turn ht fun refs owners hrefs howners => h.heap.congr hrefs howners

theorem lt_of_active (hactive : (s.slot i).active = true) : i < s.slots.length := by
  by_contra hge
  rw [slot, Slots.getD_of_ge (Nat.not_lt.mp hge)] at hactive
  cases hactive

/-- A slot that is active stays the only one of its user when it stays of that user. -/
theorem Sound.alone (h : s.Sound) (hactive : (s.slot i).active = true) (hb : b.uid = (s.slot i).uid) :
    b.active = true → ∀ j, j ≠ i → (s.slot j).active = true → (s.slot j).uid ≠ b.uid := by
  intro _ j hne hj heq
  exact hne (h.unique j i hj hactive (heq.trans hb))

theorem relays_install {l : DisplayLane} (hnone : b.displayRelay l = none) (uid gid : DisplayLane → ℕ) (x : ℕ) :
    ({ b with
      displayRelay := Function.update b.displayRelay l (some relay)
      displayUid := uid
      displayGid := gid } : BackendSlot).relays.count x = b.relays.count x + [relay].count x := by
  cases l with
  | query =>
    simp only [BackendSlot.relays, hnone, List.count_append, Function.update_self, Option.toList_some,
      Option.toList_none, List.count_nil, Function.update_of_ne (show DisplayLane.capture ≠ .query by decide)]
    omega
  | capture =>
    simp only [BackendSlot.relays, hnone, List.count_append, Function.update_self, Option.toList_some,
      Option.toList_none, List.count_nil, Function.update_of_ne (show DisplayLane.query ≠ .capture by decide)]
    omega

theorem Sound.installWorker (h : s.Sound) {caller : DisplayCaller} {registration : Identity}
    (ht : s.threads[thread]? = some (.started caller i registration relay)) :
    (s.installWorker thread caller i registration relay).Sound := by
  have hmade : 0 < s.references relay := references_pos_of_thread ht List.mem_cons_self
  unfold Relays.installWorker
  dsimp only
  split_ifs with hgone
  · exact h.turn ht fun refs owners hrefs howners =>
      h.heap.congr (fun x => Nat.add_right_cancel (hrefs x)) (fun x => Nat.add_right_cancel (howners x))
  · have hactive : (s.slot i).active = true := by
      by_contra hinactive
      simp [hinactive] at hgone
    have hi := lt_of_active hactive
    split
    · next winner hwinner =>
      refine h.turn ht ?_
      intro refs owners hrefs howners
      apply h.heap.acquire (references_pos hi (mem_relays_lane hwinner))
      · intro x
        have := hrefs x
        rw [← count_one]
        simp only [RelayThread.references, Option.toList_some, List.count_append] at this
        omega
      · exact fun x => Nat.add_right_cancel (howners x)
    · next hnone =>
      refine h.change ht hi (h.alone hactive rfl) (fun hinactive => by simp [hactive] at hinactive) ?_
      intro refs owners hrefs howners
      apply h.heap.acquire hmade
      · intro x
        have := hrefs x
        rw [relays_install hnone] at this
        rw [← count_one]
        simp only [RelayThread.references] at this
        omega
      · intro x
        have := howners x
        rw [relays_install hnone] at this
        simp only [RelayThread.owned, List.count_nil] at this
        omega

theorem Sound.owners_le_one (h : s.Sound) (relay : ℕ) : s.owners relay ≤ 1 := by
  by_cases hlt : relay < s.heap.objects.length
  · have := (h.heap.sound relay _ (List.getElem?_eq_getElem hlt)).owned
    omega
  · have := (h.heap.named relay (Nat.le_of_not_lt hlt)).2
    omega

/-- A slot keeps a relay once at most. -/
theorem Sound.count_le_one (h : s.Sound) (hi : i < s.slots.length) (relay : ℕ) :
    (s.slot i).relays.count relay ≤ 1 := by
  have hcount := Slots.count_flatMap_set (f := BackendSlot.relays) (getElem?_slot hi) {} relay
  have hempty : ({} : BackendSlot).relays.count relay = 0 := rfl
  have howners := h.owners_le_one relay
  simp only [owners] at howners
  omega

/-- A relay that one lane of a slot keeps, and nothing else of it, leaves the slot alone. -/
theorem relays_forget (hone : b.relays.count relay ≤ 1) {l : DisplayLane} (hrelay : b.displayRelay l = some relay)
    (x : ℕ) : ({ b with
      displayRelay := fun lane => if b.displayRelay lane = some relay then none else b.displayRelay lane } :
        BackendSlot).relays.count x + [relay].count x = b.relays.count x := by
  have hcount : b.relays.count relay = b.relay.toList.count relay + (b.displayRelay .query).toList.count relay +
      (b.displayRelay .capture).toList.count relay := by
    simp only [BackendSlot.relays, List.count_append]
  have hself : (some relay).toList.count relay = 1 := List.count_singleton_self
  cases l with
  | query =>
    have hother : b.displayRelay .capture ≠ some relay := by
      intro hcapture
      rw [hrelay, hcapture, hself] at hcount
      omega
    simp only [BackendSlot.relays, hrelay, hother, if_true, if_false, List.count_append, Option.toList_none,
      Option.toList_some, List.count_nil]
    omega
  | capture =>
    have hother : b.displayRelay .query ≠ some relay := by
      intro hquery
      rw [hrelay, hquery, hself] at hcount
      omega
    simp only [BackendSlot.relays, hrelay, hother, if_true, if_false, List.count_append, Option.toList_none,
      Option.toList_some, List.count_nil]
    omega

theorem Sound.forgetDisplayRelay (h : s.Sound) (ht : s.threads[thread]? = some (.holding relay))
    (identity : Identity) :
    (s.forgetDisplayRelay thread relay identity).Sound := by
  unfold Relays.forgetDisplayRelay
  split
  · exact h
  · next i hfind =>
    obtain ⟨hi, hp⟩ := Slots.findIdx?_some (d := {}) hfind
    have hslot : (s.slot i).active = true ∧ ∃ l, (s.slot i).displayRelay l = some relay := by
      simp only [Bool.and_eq_true, Bool.or_eq_true, beq_iff_eq] at hp
      rcases hp.2 with hquery | hcapture
      · exact ⟨hp.1.1, .query, hquery⟩
      · exact ⟨hp.1.1, .capture, hcapture⟩
    obtain ⟨hactive, l, hrelay⟩ := hslot
    have hforget := relays_forget (h.count_le_one hi relay) hrelay
    refine h.change ht hi (h.alone hactive rfl) (fun hinactive => by simp [hactive] at hinactive) ?_
    intro refs owners hrefs howners
    -- The slot's reference becomes the thread's to drop.
    apply h.heap.congr
    · intro x
      have := hrefs x
      have := hforget x
      simp only [RelayThread.references, Option.toList_some, List.count_append] at *
      omega
    · intro x
      have := howners x
      have := hforget x
      simp only [RelayThread.owned, List.count_nil] at *
      omega

theorem Sound.registerBackend (h : s.Sound) (ht : s.threads[thread]? = some .idle) (r : Registration)
    (created : Bool) :
    (s.registerBackend r created).Sound := by
  unfold Relays.registerBackend
  split_ifs with hany
  · exact h
  · split
    · exact h
    · next i hfind =>
      obtain ⟨hi, hp⟩ := Slots.findIdx?_some (d := {}) hfind
      have hinactive : (s.slot i).active = false := by rwa [Bool.not_eq_true'] at hp
      have hempty := h.unused i hinactive
      have hthreads : s.threads.set thread .idle = s.threads := by
        obtain ⟨hlt, heq⟩ := List.getElem?_eq_some_iff.mp ht
        rw [← heq, List.set_getElem_self]
      have hlanes : (s.slot i).relay = none ∧ ∀ l, (s.slot i).displayRelay l = none := by
        simp only [BackendSlot.relays, List.append_eq_nil_iff, Option.toList_eq_nil_iff] at hempty
        refine ⟨hempty.1.1, fun l => ?_⟩
        cases l with
        | query => exact hempty.1.2
        | capture => exact hempty.2
      have hempty : (s.slot i).relays = [] := h.unused i hinactive
      have hnew : ∀ j, (s.slot j).active = true → (s.slot j).uid ≠ r.uid := by
        intro j hactive huid
        apply hany
        have hj := lt_of_active hactive
        refine List.any_eq_true.mpr ⟨s.slot j, ?_, ?_⟩
        · exact List.mem_of_getElem? (getElem?_slot hj)
        · rw [hactive, huid]
          simp
      rw [← hthreads]
      refine h.change ht hi (fun _ j _ hactive => hnew j hactive) (fun hactive => by cases hactive) ?_
      intro refs owners hrefs howners
      rw [hempty] at hrefs howners
      simp only [BackendSlot.relays, hlanes.2, Option.toList_none, List.append_nil, List.count_nil] at hrefs howners
      split_ifs at hrefs howners ⊢ with hcreates
      · apply h.heap.create
        · intro x
          have := hrefs x
          rw [← count_one]
          simp only [Option.toList_some] at this
          omega
        · intro x
          have := howners x
          rw [← count_one]
          simp only [Option.toList_some] at this
          omega
      · apply h.heap.congr
        · intro x
          have := hrefs x
          simp only [Option.toList_none, List.count_nil] at this
          omega
        · intro x
          have := howners x
          simp only [Option.toList_none, List.count_nil] at this
          omega

/-- Marking a relay broken is the retirement; its reference goes with the release that follows. -/
theorem Sound.retire (h : s.Sound) (ht : s.threads[thread]? = some t) (step : RelayTurn)
    (hstep : step = .retire) : (s.act thread t step).Sound := by
  subst hstep
  cases t with
  | idle => exact h
  | holding relay => exact h
  | starting caller i registration => exact h
  | started caller i registration relay => exact h
  | retiring held relays =>
    cases relays with
    | nil =>
      refine h.turn ht fun refs owners hrefs howners => h.heap.congr ?_ ?_
      · intro x
        have := hrefs x
        cases held with
        | none => exact Nat.add_right_cancel this
        | some relay => exact Nat.add_right_cancel this
      · intro x
        have := howners x
        cases held with
        | none => exact Nat.add_right_cancel this
        | some relay => exact Nat.add_right_cancel this
    | cons relay relays =>
      refine h.turn ht ?_
      intro refs owners hrefs howners
      refine h.heap.markRetired (references_pos_of_thread ht ?_) ?_ ?_
      · simp [RelayThread.references]
      · exact fun x => Nat.add_right_cancel (hrefs x)
      · intro x
        have := howners x
        rw [← count_one]
        simp only [RelayThread.owned, List.count_cons] at this ⊢
        simp only [List.count_nil] at *
        omega
  | dropping held relay relays =>
    refine h.turn ht ?_
    intro refs owners hrefs howners
    apply h.heap.release
    · intro x
      have := hrefs x
      rw [← count_one]
      simp only [RelayThread.references, List.count_append, List.count_cons, List.count_nil] at this ⊢
      omega
    · exact fun x => Nat.add_right_cancel (howners x)

theorem Sound.act (h : s.Sound) (ht : s.threads[thread]? = some t) (step : RelayTurn) :
    (s.act thread t step).Sound := by
  cases step with
  | retire => exact h.retire ht .retire rfl
  | register r created =>
    cases t with
    | idle => exact h.registerBackend ht r created
    | _ => exact h
  | unregister uid descriptor =>
    cases t with
    | idle => exact h.unregisterBackend ht uid descriptor
    | _ => exact h
  | take uid =>
    cases t with
    | idle => exact h.takeBackendSnapshot ht uid
    | _ => exact h
  | examine caller =>
    cases t with
    | idle => exact h.examineSlot ht caller
    | _ => exact h
  | start ok =>
    cases t with
    | starting caller i registration => exact h.startWorker ht ok
    | _ => exact h
  | install =>
    cases t with
    | started caller i registration relay => exact h.installWorker ht
    | _ => exact h
  | forget identity =>
    cases t with
    | holding relay => exact h.forgetDisplayRelay ht identity
    | _ => exact h
  | use breaks =>
    cases t with
    | holding relay => exact ⟨h.heap.use (references_pos_of_thread ht List.mem_cons_self) breaks, h.unique, h.unused⟩
    | _ => exact h
  | release =>
    cases t with
    | holding relay =>
      refine h.turn ht ?_
      intro refs owners hrefs howners
      apply h.heap.release
      · intro x
        rw [← count_one]
        exact hrefs x
      · exact howners
    | _ => exact h

theorem Sound.step (h : s.Sound) (step : ℕ × RelayTurn) : (s.step step).Sound := by
  unfold Relays.step
  cases ht : s.threads[step.1]? with
  | none => exact h
  | some t => exact h.act ht step.2

theorem init_sound (threads : ℕ) : (relaysInit threads).Sound where
  heap := by
    have hslots : (List.replicate maxBackendRegistrations ({} : BackendSlot)).flatMap BackendSlot.relays = [] := by
      simp [BackendSlot.relays]
    have hreferences : (List.replicate threads RelayThread.idle).flatMap RelayThread.references = [] := by
      simp [RelayThread.references]
    have howned : (List.replicate threads RelayThread.idle).flatMap RelayThread.owned = [] := by
      simp [RelayThread.owned]
    refine ⟨rfl, ?_, ?_⟩
    · intro r o ho
      simp [relaysInit] at ho
    · intro r _
      simp only [references, owners, relaysInit, hslots, hreferences, howned, List.count_nil, and_self]
  unique := by
    intro i j hi
    simp only [slot, relaysInit, Slots.getD_replicate] at hi
    cases hi
  unused := by
    intro i _
    simp only [slot, relaysInit, Slots.getD_replicate]
    rfl

end Steps

/-- At every point between turns of the mutexes: one registration for a user, as many references on a relay as slots and
threads have, one keeper of each relay until it is retired, once, and nobody touched a relay that was freed. -/
theorem relays_referenced (threads : ℕ) (steps : List (ℕ × RelayTurn)) :
    let s := steps.foldl Relays.step (relaysInit threads)
    (∀ i j, (s.slot i).active = true → (s.slot j).active = true → (s.slot i).uid = (s.slot j).uid → i = j) ∧
      (∀ (relay : ℕ) (o : Refcount.Object), s.heap.objects[relay]? = some o →
        o.refs = s.references relay ∧ (o.freed = true ↔ s.references relay = 0) ∧
          s.owners relay + o.retires = 1) ∧
        s.heap.fault = false := by
  have hrun := Transition.Run.foldl Relays.step (relaysInit threads) steps
  have hsound : (steps.foldl Relays.step (relaysInit threads)).Sound := by
    refine hrun.invariant ?_ (init_sound threads)
    intro s step t h heq
    rw [← heq]
    exact h.step step
  refine ⟨hsound.unique, ?_, hsound.heap.safe⟩
  intro relay o ho
  have := hsound.heap.sound relay o ho
  exact ⟨this.counted, this.freed, this.owned⟩

end Relays

end KeysharpDesktop
