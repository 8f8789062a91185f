import KeysharpDesktop.Lib.Slots
import KeysharpDesktop.Lib.Transition
import KeysharpDesktop.Wire.Protocol

/-! How long a lease lives: who holds it, when it is freed, and whose descriptor it writes to. -/
namespace KeysharpDesktop

/-- A lease in memory. `creator` and `freed` are no fields of the source: which connection made it, and how
often its memory was given back. -/
structure LeaseCell where
  id : BitVec 64
  references : ℕ
  active : Bool
  uid : ℕ
  pid : ℕ
  clientFd : ℕ
  creator : ℕ
  freed : ℕ
  deriving DecidableEq, Repr

/-- How far the thread of a connection is, with its handshake and with its end. -/
inductive LeasePhase
  | hello
  | replying
  | serving
  | ending
  | leaving
  | freeing (lease : ℕ)
  | closing
  | closed
  deriving DecidableEq, Repr

/-- A connection: its descriptor, its peer, and the lease that its session holds. -/
structure LeaseConnection where
  fd : ℕ
  uid : ℕ
  pid : ℕ
  role : Role
  phase : LeasePhase
  lease : Option ℕ
  deriving DecidableEq, Repr

/-- Leases by address, the addresses in the authority's list, and the connections. -/
structure LeaseTable where
  cells : List LeaseCell
  leases : List ℕ
  connections : List LeaseConnection
  deriving DecidableEq, Repr

def LeaseConnection.isOpen (c : LeaseConnection) : Bool := c.phase ≠ .closed

namespace LeaseTable

def put (s : LeaseTable) (i : ℕ) (c : LeaseConnection) : LeaseTable :=
  { s with connections := s.connections.set i c }

def leaseCreate (s : LeaseTable) (i : ℕ) (c : LeaseConnection) (id : BitVec 64) : LeaseTable where
  cells := s.cells ++ [⟨id, 1, true, c.uid, c.pid, c.fd, i, 0⟩]
  leases := s.cells.length :: s.leases
  connections := s.connections.set i
    { c with role := .authorizationLease, phase := .replying, lease := some s.cells.length }

/-- Whether a lease of the list is the one that a peer asks for. -/
def bindable (s : LeaseTable) (id : BitVec 64) (uid pid lease : ℕ) : Bool :=
  (s.cells[lease]?).any fun cell => cell.id == id && cell.active && cell.uid == uid && cell.pid == pid

/-- The search of `lease_bind`. -/
def findLease (s : LeaseTable) (id : BitVec 64) (uid pid : ℕ) : Option ℕ := s.leases.find? (s.bindable id uid pid)

def leaseBind (s : LeaseTable) (i : ℕ) (c : LeaseConnection) (id : BitVec 64) : LeaseTable :=
  match s.findLease id c.uid c.pid with
  | none => s.put i { c with role := .rpc, phase := .leaving }
  | some lease =>
    { s with
      cells := s.cells.modify lease fun cell => { cell with references := cell.references + 1 }
      connections := s.connections.set i { c with role := .rpc, phase := .replying, lease := some lease } }

/-- `lease_release` as far as the mutex is held; the last one goes on to free the lease. -/
def leaseRelease (s : LeaseTable) (i : ℕ) (c : LeaseConnection) : LeaseTable :=
  match c.lease with
  | none => s.put i { c with phase := .closing }
  | some lease =>
    let cells := s.cells.modify lease fun cell => { cell with references := cell.references - 1 }
    if (cells[lease]?).any fun cell => cell.references == 0 then
      { cells, leases := s.leases.erase lease
        connections := s.connections.set i { c with phase := .freeing lease, lease := none } }
    else { s with cells, connections := s.connections.set i { c with phase := .closing, lease := none } }

def leaseFree (s : LeaseTable) (i : ℕ) (c : LeaseConnection) (lease : ℕ) : LeaseTable :=
  { s with
    cells := s.cells.modify lease fun cell => { cell with freed := cell.freed + 1 }
    connections := s.connections.set i { c with phase := .closing } }

/-- A session finds its lease's socket broken, or the lease's own connection ends. -/
def deactivate (s : LeaseTable) (lease : ℕ) : LeaseTable :=
  { s with cells := s.cells.modify lease fun cell => { cell with active := false } }

/-- The end of a session, or of a handshake that failed: the lease of its own connection is over. -/
def retire (s : LeaseTable) (i : ℕ) (c : LeaseConnection) : LeaseTable :=
  let s := if c.role = .authorizationLease then (c.lease.elim s s.deactivate) else s
  s.put i { c with phase := .leaving }

end LeaseTable

/-- What the threads do, one at a time. -/
inductive LeaseStep
  | accept (fd uid pid : ℕ)
  | create (i : ℕ) (id : BitVec 64)
  | bind (i : ℕ) (id : BitVec 64)
  | deny (i : ℕ)
  | replied (i : ℕ) (ok : Bool)
  | emitFailed (i : ℕ)
  | finish (i : ℕ)
  | retire (i : ℕ)
  | release (i : ℕ)
  | free (i : ℕ)
  | close (i : ℕ)
  deriving DecidableEq, Repr

namespace LeaseTable

/-- What a connection's thread does next, where it is at the point for it. -/
def act (s : LeaseTable) (i : ℕ) (c : LeaseConnection) : LeaseStep → LeaseTable
  | .create _ id =>
    if c.phase = .hello then
      -- An identifier of zero is thrown away, and the handshake fails.
      if id = 0 then s.put i { c with role := .authorizationLease, phase := .leaving } else s.leaseCreate i c id
    else s
  | .bind _ id => if c.phase = .hello then s.leaseBind i c id else s
  | .deny _ => if c.phase = .hello then s.put i { c with phase := .leaving } else s
  | .replied _ ok =>
    if c.phase = .replying then s.put i { c with phase := if ok then .serving else .ending } else s
  | .emitFailed _ => c.lease.elim s s.deactivate
  | .finish _ => if c.phase = .serving then s.put i { c with phase := .ending } else s
  | .retire _ => if c.phase = .ending then s.retire i c else s
  | .release _ => if c.phase = .leaving then s.leaseRelease i c else s
  | .free _ =>
    match c.phase with
    | .freeing lease => s.leaseFree i c lease
    | _ => s
  | .close _ => if c.phase = .closing then s.put i { c with phase := .closed } else s
  | .accept .. => s

/-- The system gives a connection a descriptor that no open one has. -/
def accept (s : LeaseTable) (fd uid pid : ℕ) : LeaseTable :=
  if s.connections.any fun c => c.isOpen && c.fd == fd then s
  else { s with connections := s.connections ++ [⟨fd, uid, pid, .rpc, .hello, none⟩] }

def step (s : LeaseTable) (step : LeaseStep) : LeaseTable :=
  match step with
  | .accept fd uid pid => s.accept fd uid pid
  | .create i _ | .bind i _ | .deny i | .replied i _ | .emitFailed i | .finish i | .retire i | .release i | .free i
  | .close i => (s.connections[i]?).elim s fun c => s.act i c step

def init : LeaseTable := ⟨[], [], []⟩

/-- How many sessions hold a lease. -/
def holders (s : LeaseTable) (lease : ℕ) : ℕ := s.connections.countP fun c => c.lease = some lease

/-- How many threads are about to give its memory back. -/
def freeing (s : LeaseTable) (lease : ℕ) : ℕ := s.connections.countP fun c => c.phase = .freeing lease

end LeaseTable

section Counting

variable {s : LeaseTable} {c d : LeaseConnection} {cell : LeaseCell} {i a lease : ℕ}

/-- What an address keeps to: its references are its holders, it is listed while it has some, and it is freed
once, by the thread whose release was the last. -/
structure CellSound (cell : LeaseCell) (holders freeing : ℕ) (listed : Prop) : Prop where
  counted : cell.references = holders
  listed : listed ↔ 0 < cell.references
  freed : cell.freed + freeing = if cell.references = 0 then 1 else 0

/-- The connection that made a lease, while it may be active. -/
structure LeaseConnection.Owns (c : LeaseConnection) (lease fd : ℕ) : Prop where
  holds : c.lease = some lease
  fd : c.fd = fd
  role : c.role = .authorizationLease
  phase : c.phase = .replying ∨ c.phase = .serving ∨ c.phase = .ending

/-- A session that has no lease yet, or none any more. -/
def LeasePhase.bare : LeasePhase → Bool
  | .hello => true
  | .freeing _ => true
  | .closing => true
  | .closed => true
  | _ => false

structure LeaseConnection.Proper (c : LeaseConnection) (size : ℕ) : Prop where
  held : ∀ lease, c.lease = some lease → lease < size
  freeing : ∀ lease, c.phase = .freeing lease → lease < size
  bare : c.phase.bare → c.lease = none

structure LeaseTable.Sound (s : LeaseTable) : Prop where
  cells : ∀ (a : ℕ) (cell : LeaseCell), s.cells[a]? = some cell → CellSound cell (s.holders a) (s.freeing a) (a ∈ s.leases)
  listed : ∀ a ∈ s.leases, a < s.cells.length
  once : s.leases.Nodup
  proper : ∀ c ∈ s.connections, c.Proper s.cells.length
  owner : ∀ (a : ℕ) (cell : LeaseCell), s.cells[a]? = some cell → cell.active →
    ∃ c : LeaseConnection, s.connections[cell.creator]? = some c ∧ c.Owns a cell.clientFd
  apart : ∀ (i j : ℕ) (c d : LeaseConnection), s.connections[i]? = some c → s.connections[j]? = some d → c.isOpen → d.isOpen →
    c.fd = d.fd → i = j

theorem holders_set (s : LeaseTable) (hi : s.connections[i]? = some c) (d : LeaseConnection) (a : ℕ) :
    ((s.connections.set i d).countP fun c => c.lease = some a) + (if c.lease = some a then 1 else 0) =
      s.holders a + (if d.lease = some a then 1 else 0) := by
  have hcount := Slots.countP_set (p := fun c : LeaseConnection => decide (c.lease = some a)) hi d
  simpa [LeaseTable.holders] using hcount

theorem freeing_set (s : LeaseTable) (hi : s.connections[i]? = some c) (d : LeaseConnection) (a : ℕ) :
    ((s.connections.set i d).countP fun c => c.phase = .freeing a) + (if c.phase = .freeing a then 1 else 0) =
      s.freeing a + (if d.phase = .freeing a then 1 else 0) := by
  have hcount := Slots.countP_set (p := fun c : LeaseConnection => decide (c.phase = .freeing a)) hi d
  simpa [LeaseTable.freeing] using hcount

theorem mem_set {l : List LeaseConnection} {p : LeaseConnection → Prop} (h : ∀ c ∈ l, p c) (hd : p d) :
    ∀ c ∈ l.set i d, p c := by
  intro c hc
  rcases List.mem_or_eq_of_mem_set hc with hold | hnew
  · exact h c hold
  · rw [hnew]
    exact hd

/-- Descriptors stay apart where a connection keeps its own. -/
theorem LeaseTable.Sound.apart_set (h : s.Sound) (hi : s.connections[i]? = some c) (hfd : d.fd = c.fd)
    (hopen : d.isOpen → c.isOpen) : ∀ (j k : ℕ) (e f : LeaseConnection), (s.connections.set i d)[j]? = some e →
      (s.connections.set i d)[k]? = some f → e.isOpen → f.isOpen → e.fd = f.fd → j = k := by
  have hback : ∀ (j : ℕ) (e : LeaseConnection), (s.connections.set i d)[j]? = some e → e.isOpen →
      ∃ e' : LeaseConnection, s.connections[j]? = some e' ∧ e'.isOpen ∧ e'.fd = e.fd := by
    intro j e hj he
    rw [List.getElem?_set] at hj
    split_ifs at hj with hij hlt
    · cases hj
      exact ⟨c, hij ▸ hi, hopen he, hfd.symm⟩
    · exact ⟨e, hj, he, rfl⟩
  intro j k e f hj hk he hf hsame
  obtain ⟨e', hj', he', hefd⟩ := hback j e hj he
  obtain ⟨f', hk', hf', hffd⟩ := hback k f hk hf
  exact h.apart j k e' f' hj' hk' he' hf' (by rw [hefd, hffd, hsame])

/-- The owner of an active lease is found after one connection has changed, where it was not the owner or
still is. -/
theorem owner_set {j fd : ℕ} (hi : s.connections[i]? = some c) (howns : c.Owns a fd → d.Owns a fd)
    (h : ∃ e : LeaseConnection, s.connections[j]? = some e ∧ e.Owns a fd) :
    ∃ e : LeaseConnection, (s.connections.set i d)[j]? = some e ∧ e.Owns a fd := by
  obtain ⟨e, hj, he⟩ := h
  by_cases hij : i = j
  · subst hij
    rw [hi] at hj
    cases hj
    have hlt := (List.getElem?_eq_some_iff.mp hi).1
    exact ⟨d, by simp [hlt], howns he⟩
  · exact ⟨e, by rw [List.getElem?_set_ne hij]; exact hj, he⟩

end Counting

section Steps

variable {s : LeaseTable} {c d : LeaseConnection} {cell : LeaseCell} {i a lease : ℕ}

theorem CellSound.congr {holders holders' freeing freeing' : ℕ} {listed listed' : Prop}
    (h : CellSound cell holders freeing listed) (hholders : holders' = holders) (hfreeing : freeing' = freeing)
    (hlisted : listed' ↔ listed) : CellSound cell holders' freeing' listed' :=
  ⟨h.counted.trans hholders.symm, hlisted.trans h.listed, hfreeing ▸ h.freed⟩

/-- A connection that keeps its lease and its descriptor, and goes on. -/
theorem LeaseTable.Sound.put (h : s.Sound) (hi : s.connections[i]? = some c) (hlease : d.lease = c.lease)
    (hfd : d.fd = c.fd) (hopen : d.isOpen → c.isOpen) (hc : ∀ a, c.phase ≠ .freeing a)
    (hd : ∀ a, d.phase ≠ .freeing a) (hbare : d.phase.bare → d.lease = none)
    (howns : ∀ a cell, s.cells[a]? = some cell → cell.active → c.Owns a cell.clientFd → d.Owns a cell.clientFd) :
    (s.put i d).Sound := by
  have hproper := h.proper c (List.mem_of_getElem? hi)
  refine ⟨fun a cell hcell => ?_, h.listed, h.once, ?_, fun a cell hcell hactive => ?_, h.apart_set hi hfd hopen⟩
  · refine (h.cells a cell hcell).congr ?_ ?_ Iff.rfl
    · have hcount := holders_set s hi d a
      rw [hlease] at hcount
      exact Nat.add_right_cancel hcount
    · have hcount := freeing_set s hi d a
      rw [if_neg (hc a), if_neg (hd a)] at hcount
      exact hcount
  · refine mem_set h.proper ⟨fun lease hheld => hproper.held lease (hlease ▸ hheld), ?_, hbare⟩
    intro lease hphase
    exact absurd hphase (hd lease)
  · exact owner_set hi (howns a cell hcell hactive) (h.owner a cell hcell hactive)

/-- A cell of a list with one cell rewritten. -/
theorem modify_cell {f : LeaseCell → LeaseCell} (h : (s.cells.modify lease f)[a]? = some cell) :
    ∃ old, s.cells[a]? = some old ∧ cell = if lease = a then f old else old := by
  rw [List.getElem?_modify, Option.map_eq_map, Option.map_eq_some_iff] at h
  obtain ⟨old, hold, hcell⟩ := h
  exact ⟨old, hold, hcell.symm⟩

theorem LeaseTable.Sound.deactivate (h : s.Sound) (lease : ℕ) : (s.deactivate lease).Sound := by
  have hlength : (s.deactivate lease).cells.length = s.cells.length := by simp [LeaseTable.deactivate]
  refine ⟨fun a cell hcell => ?_, hlength ▸ h.listed, h.once, hlength ▸ h.proper, ?_, h.apart⟩
  · obtain ⟨old, hold, rfl⟩ := modify_cell hcell
    have hsound := h.cells a old hold
    split_ifs
    · exact ⟨hsound.counted, hsound.listed, hsound.freed⟩
    · exact hsound
  · intro a cell hcell hactive
    obtain ⟨old, hold, rfl⟩ := modify_cell hcell
    split_ifs at hactive ⊢
    exact h.owner a old hold hactive

theorem deactivate_inactive (hcell : (s.deactivate lease).cells[lease]? = some cell) : cell.active = false := by
  obtain ⟨old, -, rfl⟩ := modify_cell hcell
  rw [if_pos rfl]

/-- A lease, if there is one, is over. -/
theorem LeaseTable.Sound.over (h : s.Sound) (held : Option ℕ) :
    (held.elim s s.deactivate).Sound ∧ (held.elim s s.deactivate).connections = s.connections ∧
      ∀ a cell, (held.elim s s.deactivate).cells[a]? = some cell → cell.active → held ≠ some a := by
  cases held with
  | none => exact ⟨h, rfl, fun a cell _ _ => nofun⟩
  | some lease =>
    refine ⟨h.deactivate lease, rfl, fun a cell hcell hactive hsame => ?_⟩
    cases hsame
    rw [deactivate_inactive hcell] at hactive
    cases hactive

/-- The lease of a connection that retires is over before its session leaves it. -/
theorem LeaseTable.Sound.retire (h : s.Sound) (hi : s.connections[i]? = some c) (hphase : c.phase = .ending) :
    (s.retire i c).Sound := by
  have hleave : ∀ {t : LeaseTable}, t.Sound → t.connections = s.connections →
      (∀ a cell, t.cells[a]? = some cell → cell.active → ¬c.Owns a cell.clientFd) →
      (t.put i { c with phase := .leaving }).Sound := by
    intro t ht hsame hover
    rw [← hsame] at hi
    refine ht.put hi rfl rfl ?_ ?_ nofun nofun ?_
    · intro _
      simp [LeaseConnection.isOpen, hphase]
    · intro a hfreeing
      rw [hphase] at hfreeing
      cases hfreeing
    · intro a cell hcell hactive howns
      exact absurd howns (hover a cell hcell hactive)
  unfold LeaseTable.retire
  by_cases hrole : c.role = .authorizationLease
  · rw [if_pos hrole]
    obtain ⟨hsound, hsame, hover⟩ := h.over c.lease
    exact hleave hsound hsame fun a cell hcell hactive howns => hover a cell hcell hactive howns.holds
  · rw [if_neg hrole]
    exact hleave h rfl fun a cell _ _ howns => hrole howns.role

theorem append_cell {new : LeaseCell} (h : (s.cells ++ [new])[a]? = some cell) :
    s.cells[a]? = some cell ∧ a < s.cells.length ∨ a = s.cells.length ∧ cell = new := by
  rcases Nat.lt_or_ge a s.cells.length with hlt | hge
  · rw [List.getElem?_append_left hlt] at h
    exact .inl ⟨h, hlt⟩
  · rw [List.getElem?_append_right hge] at h
    have hzero : a - s.cells.length = 0 := by
      have hlt := (List.getElem?_eq_some_iff.mp h).1
      rw [List.length_singleton] at hlt
      omega
    rw [hzero] at h
    cases h
    exact .inr ⟨by omega, rfl⟩

theorem LeaseConnection.Proper.mono {m n : ℕ} (h : c.Proper m) (hle : m ≤ n) : c.Proper n :=
  ⟨fun lease hheld => Nat.lt_of_lt_of_le (h.held lease hheld) hle,
    fun lease hfree => Nat.lt_of_lt_of_le (h.freeing lease hfree) hle, h.bare⟩

theorem LeaseTable.Sound.leaseCreate (h : s.Sound) (hi : s.connections[i]? = some c) (hphase : c.phase = .hello)
    (id : BitVec 64) : (s.leaseCreate i c id).Sound := by
  have hproper := h.proper c (List.mem_of_getElem? hi)
  have hnone : c.lease = none := hproper.bare (by rw [hphase]; rfl)
  have hopen : c.isOpen := by simp [LeaseConnection.isOpen, hphase]
  have hlt := (List.getElem?_eq_some_iff.mp hi).1
  obtain ⟨d, hd⟩ : ∃ d : LeaseConnection, d =
      { c with role := .authorizationLease, phase := .replying, lease := some s.cells.length } := ⟨_, rfl⟩
  have hdlease : d.lease = some s.cells.length := by rw [hd]
  have hdphase : d.phase = .replying := by rw [hd]
  have hholders : ∀ a, ((s.connections.set i d).countP fun c => c.lease = some a) =
      s.holders a + if s.cells.length = a then 1 else 0 := by
    intro a
    have hcount := holders_set s hi d a
    simpa [hnone, hdlease] using hcount
  have hfreeing : ∀ a, ((s.connections.set i d).countP fun c => c.phase = .freeing a) = s.freeing a := by
    intro a
    have hcount := freeing_set s hi d a
    simpa [hphase, hdphase] using hcount
  have hunused : s.holders s.cells.length = 0 ∧ s.freeing s.cells.length = 0 := by
    constructor
    · rw [LeaseTable.holders, List.countP_eq_zero]
      intro e he hheld
      exact Nat.lt_irrefl _ ((h.proper e he).held _ (of_decide_eq_true hheld))
    · rw [LeaseTable.freeing, List.countP_eq_zero]
      intro e he hheld
      exact Nat.lt_irrefl _ ((h.proper e he).freeing _ (of_decide_eq_true hheld))
  unfold LeaseTable.leaseCreate
  rw [← hd]
  refine ⟨fun a cell hcell => ?_, ?_, ?_, ?_, fun a cell hcell hactive => ?_, h.apart_set hi (by rw [hd]) (fun _ => hopen)⟩
  · show CellSound cell ((s.connections.set i d).countP fun c => c.lease = some a)
      ((s.connections.set i d).countP fun c => c.phase = .freeing a) (a ∈ s.cells.length :: s.leases)
    rw [hholders, hfreeing]
    rcases append_cell hcell with ⟨hold, hbelow⟩ | ⟨rfl, rfl⟩
    · refine (h.cells a cell hold).congr ?_ rfl ?_
      · rw [if_neg (by omega), Nat.add_zero]
      · rw [List.mem_cons]
        exact or_iff_right (by omega)
    · rw [if_pos rfl, hunused.1, hunused.2]
      exact ⟨rfl, iff_of_true List.mem_cons_self Nat.one_pos, rfl⟩
  · intro a ha
    rw [List.length_append, List.length_singleton]
    rcases List.mem_cons.mp ha with rfl | ha
    · omega
    · have hbelow := h.listed a ha
      omega
  · refine List.nodup_cons.mpr ⟨fun hmem => ?_, h.once⟩
    exact Nat.lt_irrefl _ (h.listed _ hmem)
  · rw [List.length_append, List.length_singleton]
    refine mem_set (fun e he => (h.proper e he).mono (Nat.le_succ _)) ⟨?_, ?_, ?_⟩
    · intro lease hheld
      rw [hdlease] at hheld
      cases hheld
      omega
    · intro lease hfree
      rw [hdphase] at hfree
      cases hfree
    · rw [hdphase]
      exact nofun
  · rcases append_cell hcell with ⟨hold, -⟩ | ⟨rfl, rfl⟩
    · refine owner_set hi (fun howns => ?_) (h.owner a cell hold hactive)
      have hholds := howns.holds
      rw [hnone] at hholds
      cases hholds
    · refine ⟨d, by simp [hlt], hdlease, ?_, ?_, .inl hdphase⟩
      · rw [hd]
      · rw [hd]

theorem LeaseConnection.not_owns {fd : ℕ} (hreplying : c.phase ≠ .replying) (hserving : c.phase ≠ .serving)
    (hending : c.phase ≠ .ending) : ¬c.Owns a fd := by
  intro howns
  rcases howns.phase with hphase | hphase | hphase
  · exact hreplying hphase
  · exact hserving hphase
  · exact hending hphase

/-- A step of a connection that owns no active lease, which rewrites one cell and leaves its owner alone. -/
theorem LeaseTable.Sound.rewrite {f : LeaseCell → LeaseCell} {leases : List ℕ} (h : s.Sound)
    (hi : s.connections[i]? = some c) (hf : ∀ cell, (f cell).active = cell.active ∧ (f cell).creator = cell.creator ∧
      (f cell).clientFd = cell.clientFd) (hsub : ∀ a ∈ leases, a ∈ s.leases) (honce : leases.Nodup)
    (hfd : d.fd = c.fd) (hopen : c.isOpen) (hproper : d.Proper s.cells.length) (howns : ∀ a fd, ¬c.Owns a fd)
    (hcells : ∀ (a : ℕ) (old : LeaseCell), s.cells[a]? = some old → CellSound (if lease = a then f old else old)
      ((s.connections.set i d).countP fun c => c.lease = some a)
      ((s.connections.set i d).countP fun c => c.phase = .freeing a) (a ∈ leases)) :
    (⟨s.cells.modify lease f, leases, s.connections.set i d⟩ : LeaseTable).Sound := by
  refine ⟨fun a cell hcell => ?_, fun a ha => ?_, honce, ?_, fun a cell hcell hactive => ?_,
    h.apart_set hi hfd fun _ => hopen⟩
  · obtain ⟨old, hold, rfl⟩ := modify_cell hcell
    exact hcells a old hold
  · rw [List.length_modify]
    exact h.listed a (hsub a ha)
  · rw [List.length_modify]
    exact mem_set h.proper hproper
  · obtain ⟨old, hold, rfl⟩ := modify_cell hcell
    obtain ⟨hkept, hcreator, hclient⟩ := hf old
    have hsame : (if lease = a then f old else old).active = old.active ∧
        (if lease = a then f old else old).creator = old.creator ∧
        (if lease = a then f old else old).clientFd = old.clientFd := by
      split_ifs
      · exact ⟨hkept, hcreator, hclient⟩
      · exact ⟨rfl, rfl, rfl⟩
    rw [hsame.1] at hactive
    rw [hsame.2.1, hsame.2.2]
    exact owner_set hi (fun howner => absurd howner (howns a _)) (h.owner a old hold hactive)

theorem findLease_some {id : BitVec 64} {uid pid : ℕ} (h : s.findLease id uid pid = some a) :
    a ∈ s.leases ∧ ∃ cell : LeaseCell, s.cells[a]? = some cell ∧ cell.id = id ∧ cell.active = true ∧ cell.uid = uid ∧
      cell.pid = pid := by
  refine ⟨List.mem_of_find?_eq_some h, ?_⟩
  have hbindable := List.find?_some h
  rw [LeaseTable.bindable, Option.any_eq_true] at hbindable
  obtain ⟨cell, hcell, hmatch⟩ := hbindable
  simp only [Bool.and_eq_true, beq_iff_eq] at hmatch
  obtain ⟨⟨⟨hid, hactive⟩, huid⟩, hpid⟩ := hmatch
  exact ⟨cell, hcell, hid, hactive, huid, hpid⟩

theorem LeaseTable.Sound.leaseBind (h : s.Sound) (hi : s.connections[i]? = some c) (hphase : c.phase = .hello)
    (id : BitVec 64) : (s.leaseBind i c id).Sound := by
  have hnone : c.lease = none := (h.proper c (List.mem_of_getElem? hi)).bare (by rw [hphase]; rfl)
  have hopen : c.isOpen := by simp [LeaseConnection.isOpen, hphase]
  have howns : ∀ a fd, ¬c.Owns a fd := fun a fd => LeaseConnection.not_owns (by simp [hphase]) (by simp [hphase])
    (by simp [hphase])
  unfold LeaseTable.leaseBind
  split
  · refine h.put hi rfl rfl (fun _ => hopen) (by simp [hphase]) nofun nofun ?_
    intro a cell _ _ howner
    exact absurd howner (howns a _)
  · next lease hfound =>
    obtain ⟨hmem, -⟩ := findLease_some hfound
    refine h.rewrite hi (fun _ => ⟨rfl, rfl, rfl⟩) (fun _ ha => ha) h.once rfl hopen ⟨?_, nofun, nofun⟩ howns ?_
    · intro a hheld
      cases hheld
      exact h.listed _ hmem
    · intro a old hold
      have hsound := h.cells a old hold
      have hholders := holders_set s hi { c with role := .rpc, phase := .replying, lease := some lease } a
      have hfreeing := freeing_set s hi { c with role := .rpc, phase := .replying, lease := some lease } a
      simp only [hnone, hphase, reduceCtorEq, if_false, Nat.add_zero, Option.some.injEq] at hholders hfreeing
      rw [hholders, hfreeing]
      by_cases hsame : lease = a
      · subst hsame
        have hpos := hsound.listed.mp hmem
        have hfreed := hsound.freed
        rw [if_neg (by omega)] at hfreed
        rw [if_pos rfl, if_pos rfl]
        refine ⟨congrArg (· + 1) hsound.counted, iff_of_true hmem (Nat.succ_pos _), ?_⟩
        rw [if_neg (Nat.succ_ne_zero _)]
        exact hfreed
      · rw [if_neg hsame, if_neg hsame]
        exact hsound

/-- A session that leaves a lease drops a reference; the last one takes the lease off the list and is the one
that will free it. -/
theorem LeaseTable.Sound.leaseRelease (h : s.Sound) (hi : s.connections[i]? = some c) (hphase : c.phase = .leaving) :
    (s.leaseRelease i c).Sound := by
  have hproper := h.proper c (List.mem_of_getElem? hi)
  have hopen : c.isOpen := by simp [LeaseConnection.isOpen, hphase]
  have howns : ∀ a fd, ¬c.Owns a fd := fun a fd => LeaseConnection.not_owns (by simp [hphase]) (by simp [hphase])
    (by simp [hphase])
  unfold LeaseTable.leaseRelease
  split
  · next hnone =>
    refine h.put hi rfl rfl (fun _ => hopen) (by simp [hphase]) nofun (fun _ => hnone) ?_
    intro a cell _ _ howner
    exact absurd howner (howns a _)
  · next lease hheld =>
    have hlt := hproper.held lease hheld
    obtain ⟨old, hold⟩ : ∃ old, s.cells[lease]? = some old := ⟨_, List.getElem?_eq_getElem hlt⟩
    have hsound := h.cells lease old hold
    have hpos : 0 < old.references := by
      rw [hsound.counted, LeaseTable.holders, List.countP_pos_iff]
      exact ⟨c, List.mem_of_getElem? hi, by simpa using hheld⟩
    have hmem := hsound.listed.mpr hpos
    have hfreed := hsound.freed
    rw [if_neg (by omega)] at hfreed
    have hlast : ((s.cells.modify lease fun cell => { cell with references := cell.references - 1 })[lease]?).any
        (fun cell => cell.references == 0) = decide (old.references = 1) := by
      rw [List.getElem?_modify, hold]
      simp only [Option.map_eq_map, Option.map_some, Option.any_some, if_true]
      rw [Bool.eq_iff_iff, beq_iff_eq, decide_eq_true_iff]
      omega
    simp only [hlast, decide_eq_true_eq]
    by_cases hone : old.references = 1
    · rw [if_pos hone]
      refine h.rewrite hi (fun _ => ⟨rfl, rfl, rfl⟩) (fun a ha => List.mem_of_mem_erase ha) (h.once.erase lease) rfl
        hopen ⟨nofun, ?_, fun _ => rfl⟩ howns ?_
      · intro a hfreeing
        cases hfreeing
        exact hlt
      · intro a cell hcell
        have hholders := holders_set s hi { c with phase := .freeing lease, lease := none } a
        have hfreeing := freeing_set s hi { c with phase := .freeing lease, lease := none } a
        simp only [hheld, hphase, reduceCtorEq, if_false, Nat.add_zero, Option.some.injEq, LeasePhase.freeing.injEq]
          at hholders hfreeing
        rw [hfreeing, h.once.mem_erase_iff]
        by_cases hsame : lease = a
        · subst hsame
          rw [hold] at hcell
          cases hcell
          rw [if_pos rfl] at hholders
          rw [if_pos rfl, if_pos rfl]
          have hcounted := hsound.counted
          refine ⟨?_, ?_, ?_⟩
          · show old.references - 1 = _
            omega
          · show lease ≠ lease ∧ lease ∈ s.leases ↔ 0 < old.references - 1
            rw [hone]
            simp
          · show old.freed + (s.freeing lease + 1) = if old.references - 1 = 0 then 1 else 0
            rw [hone, if_pos rfl]
            omega
        · rw [if_neg hsame, Nat.add_zero] at hholders
          rw [if_neg hsame, if_neg hsame, Nat.add_zero, hholders]
          exact (h.cells a cell hcell).congr rfl rfl (and_iff_right (Ne.symm hsame))
    · rw [if_neg hone]
      refine h.rewrite hi (fun _ => ⟨rfl, rfl, rfl⟩) (fun _ ha => ha) h.once rfl hopen ⟨nofun, nofun, fun _ => rfl⟩
        howns ?_
      intro a cell hcell
      have hholders := holders_set s hi { c with phase := .closing, lease := none } a
      have hfreeing := freeing_set s hi { c with phase := .closing, lease := none } a
      simp only [hheld, hphase, reduceCtorEq, if_false, Nat.add_zero, Option.some.injEq] at hholders hfreeing
      rw [hfreeing]
      by_cases hsame : lease = a
      · subst hsame
        rw [hold] at hcell
        cases hcell
        rw [if_pos rfl] at hholders
        rw [if_pos rfl]
        have hcounted := hsound.counted
        refine ⟨?_, ?_, ?_⟩
        · show old.references - 1 = _
          omega
        · exact iff_of_true hmem (show 0 < old.references - 1 by omega)
        · show old.freed + s.freeing lease = if old.references - 1 = 0 then 1 else 0
          rw [if_neg (by omega)]
          exact hfreed
      · rw [if_neg hsame, Nat.add_zero] at hholders
        rw [if_neg hsame, hholders]
        exact h.cells a cell hcell

theorem LeaseTable.Sound.leaseFree (h : s.Sound) (hi : s.connections[i]? = some c) (hphase : c.phase = .freeing lease) :
    (s.leaseFree i c lease).Sound := by
  have hproper := h.proper c (List.mem_of_getElem? hi)
  have hnone : c.lease = none := hproper.bare (by rw [hphase]; rfl)
  have hopen : c.isOpen := by simp [LeaseConnection.isOpen, hphase]
  have howns : ∀ a fd, ¬c.Owns a fd := fun a fd => LeaseConnection.not_owns (by simp [hphase]) (by simp [hphase])
    (by simp [hphase])
  refine h.rewrite hi (fun _ => ⟨rfl, rfl, rfl⟩) (fun _ ha => ha) h.once rfl hopen ⟨?_, nofun, fun _ => hnone⟩ howns ?_
  · intro a hheld
    exact hproper.held a hheld
  · intro a old hold
    have hsound := h.cells a old hold
    have hholders := holders_set s hi { c with phase := .closing } a
    have hfreeing := freeing_set s hi { c with phase := .closing } a
    simp only [hphase, reduceCtorEq, if_false, Nat.add_zero, LeasePhase.freeing.injEq] at hfreeing
    rw [Nat.add_right_cancel hholders]
    by_cases hsame : lease = a
    · subst hsame
      rw [if_pos rfl] at hfreeing
      rw [if_pos rfl]
      refine ⟨hsound.counted, hsound.listed, ?_⟩
      have hfreed := hsound.freed
      show old.freed + 1 + _ = if old.references = 0 then 1 else 0
      omega
    · rw [if_neg hsame, Nat.add_zero] at hfreeing
      rw [if_neg hsame, hfreeing]
      exact hsound

theorem LeaseTable.Sound.accept (h : s.Sound) (fd uid pid : ℕ) : (s.accept fd uid pid).Sound := by
  unfold LeaseTable.accept
  split_ifs with hused
  · exact h
  · have hfree : ∀ c ∈ s.connections, c.isOpen → c.fd ≠ fd := by
      intro c hc hopen hfd
      exact hused (List.any_eq_true.mpr ⟨c, hc, by simp [hopen, hfd]⟩)
    refine ⟨fun a cell hcell => ?_, h.listed, h.once, ?_, fun a cell hcell hactive => ?_, ?_⟩
    · refine (h.cells a cell hcell).congr ?_ ?_ Iff.rfl
      · simp [LeaseTable.holders]
      · simp [LeaseTable.freeing]
    · intro c hc
      rcases List.mem_append.mp hc with hold | hnew
      · exact h.proper c hold
      · rw [List.mem_singleton.mp hnew]
        exact ⟨nofun, nofun, fun _ => rfl⟩
    · obtain ⟨c, hc, howns⟩ := h.owner a cell hcell hactive
      have hlt := (List.getElem?_eq_some_iff.mp hc).1
      exact ⟨c, by rw [List.getElem?_append_left hlt]; exact hc, howns⟩
    · -- A connection is an old one, or the new one at the end.
      have hplace : ∀ (j : ℕ) (c : LeaseConnection),
          (s.connections ++ [⟨fd, uid, pid, .rpc, .hello, none⟩])[j]? = some c →
          s.connections[j]? = some c ∨ j = s.connections.length ∧ c.fd = fd := by
        intro j c hj
        rcases Nat.lt_trichotomy j s.connections.length with hlt | heq | hgt
        · rw [List.getElem?_append_left hlt] at hj
          exact .inl hj
        · rw [heq, List.getElem?_concat_length] at hj
          cases hj
          exact .inr ⟨heq, rfl⟩
        · rw [List.getElem?_eq_none (by simp; omega)] at hj
          cases hj
      intro j k c d hj hk hc hd hsame
      rcases hplace j c hj with hj | ⟨hj, hcfd⟩
      · rcases hplace k d hk with hk | ⟨hk, hdfd⟩
        · exact h.apart j k c d hj hk hc hd hsame
        · exact absurd (hsame.trans hdfd) (hfree c (List.mem_of_getElem? hj) hc)
      · rcases hplace k d hk with hk | ⟨hk, hdfd⟩
        · exact absurd (hsame.symm.trans hcfd) (hfree d (List.mem_of_getElem? hk) hd)
        · exact hj.trans hk.symm

/-- A handshake that ends before it holds a lease. -/
theorem LeaseTable.Sound.leave (h : s.Sound) (hi : s.connections[i]? = some c) (hphase : c.phase = .hello) (role : Role) :
    (s.put i { c with role, phase := .leaving }).Sound := by
  refine h.put hi rfl rfl ?_ ?_ nofun nofun ?_
  · intro _
    simp [LeaseConnection.isOpen, hphase]
  · simp [hphase]
  · intro a cell _ _ howns
    exact absurd howns (LeaseConnection.not_owns (by simp [hphase]) (by simp [hphase]) (by simp [hphase]))

/-- A session that goes on, or comes to its end, with the lease that it holds. -/
theorem LeaseTable.Sound.proceed {phase : LeasePhase} (h : s.Sound) (hi : s.connections[i]? = some c)
    (hphase : c.phase = .replying ∨ c.phase = .serving) (hnext : phase = .serving ∨ phase = .ending) :
    (s.put i { c with phase }).Sound := by
  refine h.put hi rfl rfl ?_ ?_ ?_ ?_ ?_
  · intro _
    rcases hphase with hphase | hphase <;> simp [LeaseConnection.isOpen, hphase]
  · rcases hphase with hphase | hphase <;> simp [hphase]
  · rcases hnext with rfl | rfl <;> simp
  · rcases hnext with rfl | rfl <;> exact nofun
  · intro a cell _ _ howns
    exact ⟨howns.holds, howns.fd, howns.role, .inr hnext⟩

theorem LeaseTable.Sound.close (h : s.Sound) (hi : s.connections[i]? = some c) (hphase : c.phase = .closing) :
    (s.put i { c with phase := .closed }).Sound := by
  have hnone : c.lease = none := (h.proper c (List.mem_of_getElem? hi)).bare (by rw [hphase]; rfl)
  refine h.put hi rfl rfl nofun ?_ nofun (fun _ => hnone) ?_
  · simp [hphase]
  · intro a cell _ _ howns
    exact absurd howns (LeaseConnection.not_owns (by simp [hphase]) (by simp [hphase]) (by simp [hphase]))

theorem LeaseTable.Sound.act (h : s.Sound) (hi : s.connections[i]? = some c) (step : LeaseStep) :
    (s.act i c step).Sound := by
  unfold LeaseTable.act
  split
  case h_1 id =>
    split_ifs with hphase hzero
    · exact h.leave hi hphase _
    · exact h.leaseCreate hi hphase id
    · exact h
  case h_2 id =>
    split_ifs with hphase
    · exact h.leaseBind hi hphase id
    · exact h
  case h_3 =>
    split_ifs with hphase
    · exact h.leave hi hphase _
    · exact h
  case h_4 ok =>
    split
    · next hphase =>
      cases ok with
      | false => exact h.proceed hi (.inl hphase) (.inr rfl)
      | true => exact h.proceed hi (.inl hphase) (.inl rfl)
    · exact h
  case h_5 => exact (h.over c.lease).1
  case h_6 =>
    split_ifs with hphase
    · exact h.proceed hi (.inr hphase) (.inr rfl)
    · exact h
  case h_7 =>
    split_ifs with hphase
    · exact h.retire hi hphase
    · exact h
  case h_8 =>
    split_ifs with hphase
    · exact h.leaseRelease hi hphase
    · exact h
  case h_9 =>
    split
    · next lease hphase => exact h.leaseFree hi hphase
    · exact h
  case h_10 =>
    split_ifs with hphase
    · exact h.close hi hphase
    · exact h
  case h_11 => exact h

theorem LeaseTable.Sound.step (h : s.Sound) (step : LeaseStep) : (s.step step).Sound := by
  have hact : ∀ i, ((s.connections[i]?).elim s fun c => s.act i c step).Sound := by
    intro i
    cases hi : s.connections[i]? with
    | none => exact h
    | some c => exact h.act hi step
  unfold LeaseTable.step
  split
  · exact h.accept _ _ _
  all_goals exact hact _

theorem init_lease_sound : LeaseTable.init.Sound := by
  refine ⟨?_, ?_, List.nodup_nil, ?_, ?_, ?_⟩
  · intro a cell hcell
    cases hcell
  · intro a ha
    cases ha
  · intro c hc
    cases hc
  · intro a cell hcell
    cases hcell
  · intro i j c d hi
    cases hi

end Steps

section Lives

variable {s : LeaseTable}

/-- How leases live and die. -/
structure LeaseTable.Lifetime (s : LeaseTable) : Prop where
  counted : ∀ (a : ℕ) (cell : LeaseCell), s.cells[a]? = some cell → cell.references = s.holders a
  listed : ∀ a, a ∈ s.leases ↔ ∃ cell : LeaseCell, s.cells[a]? = some cell ∧ 0 < cell.references
  once : s.leases.Nodup
  /-- It is in memory while a session holds it, and given back once: by the thread whose release was the last. -/
  freed : ∀ (a : ℕ) (cell : LeaseCell), s.cells[a]? = some cell →
    cell.freed + s.freeing a = if cell.references = 0 then 1 else 0
  held : ∀ c ∈ s.connections, ∀ a, c.lease = some a → ∃ cell : LeaseCell, s.cells[a]? = some cell ∧ cell.freed = 0
  bound : ∀ (id : BitVec 64) (uid pid a : ℕ), s.findLease id uid pid = some a → ∃ cell : LeaseCell,
    s.cells[a]? = some cell ∧ cell.freed = 0 ∧ cell.id = id ∧ cell.active = true ∧ cell.uid = uid ∧ cell.pid = pid
  descriptor : ∀ (a : ℕ) (cell : LeaseCell), s.cells[a]? = some cell → cell.active → ∃ c : LeaseConnection,
    s.connections[cell.creator]? = some c ∧ c.isOpen ∧ c.fd = cell.clientFd ∧ c.lease = some a ∧
      ∀ (j : ℕ) (d : LeaseConnection), s.connections[j]? = some d → d.isOpen → d.fd = cell.clientFd → j = cell.creator

theorem LeaseTable.Sound.not_freed {a : ℕ} {cell : LeaseCell} (h : s.Sound) (hcell : s.cells[a]? = some cell)
    (hpos : 0 < cell.references) : cell.freed = 0 := by
  have hfreed := (h.cells a cell hcell).freed
  rw [if_neg (by omega)] at hfreed
  omega

theorem LeaseTable.Sound.lifetime (h : s.Sound) : s.Lifetime := by
  have hcell : ∀ a, a < s.cells.length → ∃ cell, s.cells[a]? = some cell :=
    fun a hlt => ⟨_, List.getElem?_eq_getElem hlt⟩
  refine ⟨fun a cell hcell => (h.cells a cell hcell).counted, fun a => ⟨fun ha => ?_, fun hpos => ?_⟩, h.once,
    fun a cell hcell => (h.cells a cell hcell).freed, fun c hc a hheld => ?_, fun id uid pid a hfound => ?_,
    fun a cell hcell hactive => ?_⟩
  · obtain ⟨cell, hcell⟩ := hcell a (h.listed a ha)
    exact ⟨cell, hcell, (h.cells a cell hcell).listed.mp ha⟩
  · obtain ⟨cell, hcell, hpos⟩ := hpos
    exact (h.cells a cell hcell).listed.mpr hpos
  · obtain ⟨cell, hcell⟩ := hcell a ((h.proper c hc).held a hheld)
    refine ⟨cell, hcell, h.not_freed hcell ?_⟩
    rw [(h.cells a cell hcell).counted, LeaseTable.holders, List.countP_pos_iff]
    exact ⟨c, hc, by simpa using hheld⟩
  · obtain ⟨hmem, cell, hcell, hmatch⟩ := findLease_some hfound
    exact ⟨cell, hcell, h.not_freed hcell ((h.cells a cell hcell).listed.mp hmem), hmatch⟩
  · obtain ⟨c, hc, howns⟩ := h.owner a cell hcell hactive
    have hopen : c.isOpen := by
      rcases howns.phase with hphase | hphase | hphase <;> simp [LeaseConnection.isOpen, hphase]
    refine ⟨c, hc, hopen, howns.fd, howns.holds, fun j d hj hd hfd => ?_⟩
    exact h.apart j cell.creator d c hj hc hd hopen (hfd.trans howns.fd.symm)

/-- Whatever the threads of any number of connections do, in whatever order. -/
theorem lease_lifetime (steps : List LeaseStep) : (steps.foldl LeaseTable.step LeaseTable.init).Lifetime := by
  have h : (steps.foldl LeaseTable.step LeaseTable.init).Sound := by
    refine (Transition.Run.foldl LeaseTable.step LeaseTable.init steps).invariant ?_ init_lease_sound
    intro s step t hs hstep
    rw [← hstep]
    exact hs.step step
  exact h.lifetime

end Lives

end KeysharpDesktop
