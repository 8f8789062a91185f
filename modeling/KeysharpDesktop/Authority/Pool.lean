import KeysharpDesktop.Authority.Admission
import KeysharpDesktop.Lib.Transition

/-! The authority's pool: the connections that are open, what their threads have reserved, and what the
counters say of both. -/
namespace KeysharpDesktop

section Threads

/-- How far a connection's thread is with its kind. One that may not keep its slot of the reserve is
dismissed. -/
inductive WorkerStage
  | arrived
  | serving (registration : Bool)
  | dismissed
  deriving DecidableEq, Repr

/-- A connection with its thread, and what the thread has reserved. -/
structure Worker where
  uid : ℕ
  pid : ℕ
  fromReserve : Bool
  stage : WorkerStage
  capture : Bool
  kwin : Bool
  assembly : Bool
  deriving DecidableEq, Repr

/-- The authority's counters and the connections that are open. -/
structure Pool where
  budgets : Budgets
  workers : List Worker
  deriving DecidableEq, Repr

inductive Resource
  | capture | kwin | assembly
  deriving DecidableEq, Repr

def Worker.holds (w : Worker) : Resource → Bool
  | .capture => w.capture
  | .kwin => w.kwin
  | .assembly => w.assembly

def Worker.mark (w : Worker) (held : Bool) : Resource → Worker
  | .capture => { w with capture := held }
  | .kwin => { w with kwin := held }
  | .assembly => { w with assembly := held }

def Worker.idle (w : Worker) : Bool := !w.capture && !w.kwin && !w.assembly

def reserveFor (b : Budgets) (w : Worker) : Resource → Bool × Budgets
  | .capture => reserveCaptureMemory b w.uid w.pid
  | .kwin => reserveKwinSlot b w.pid
  | .assembly => reserveAssemblyMemory b w.uid

def releaseFor (b : Budgets) (w : Worker) : Resource → Budgets
  | .capture => releaseCaptureMemory b w.uid w.pid
  | .kwin => releaseKwinSlot b w.pid
  | .assembly => releaseAssemblyMemory b w.uid

/-- One turn of the authority's mutex, by the accepting thread or by a connection's. -/
inductive PoolStep
  | arrive (uid pid : ℕ)
  | classify (i : ℕ) (registration : Bool)
  | reserve (i : ℕ) (resource : Resource)
  | release (i : ℕ) (resource : Resource)
  | close (i : ℕ)
  deriving DecidableEq, Repr

def arriving (uid pid : ℕ) (fromReserve : Bool) : Worker := ⟨uid, pid, fromReserve, .arrived, false, false, false⟩

def Pool.arrive (s : Pool) (uid pid : ℕ) : Pool :=
  if uid = 0 then s
  else
    match reserveWorker s.budgets uid with
    | (none, _) => s
    | (some fromReserve, budgets) => ⟨budgets, s.workers ++ [arriving uid pid fromReserve]⟩

def Pool.classify (s : Pool) (i : ℕ) (w : Worker) (registration : Bool) : Pool :=
  if w.stage = .arrived then
    { s with workers := s.workers.set i { w with
        stage := if authorityWorkerKeepsSlot w.fromReserve registration then .serving registration else .dismissed } }
  else s

/-- A thread that serves an application reserves what it does not hold. -/
def Pool.reserve (s : Pool) (i : ℕ) (w : Worker) (resource : Resource) : Pool :=
  if w.stage = .serving false ∧ w.holds resource = false then
    match reserveFor s.budgets w resource with
    | (false, budgets) => { s with budgets }
    | (true, budgets) => ⟨budgets, s.workers.set i (w.mark true resource)⟩
  else s

def Pool.release (s : Pool) (i : ℕ) (w : Worker) (resource : Resource) : Pool :=
  if w.holds resource then
    ⟨releaseFor s.budgets w resource, s.workers.set i (w.mark false resource)⟩
  else s

/-- A thread ends once it has released what it reserved. -/
def Pool.close (s : Pool) (i : ℕ) (w : Worker) : Pool :=
  if w.idle then ⟨releaseWorker s.budgets w.uid, s.workers.eraseIdx i⟩ else s

def poolStep (s : Pool) : PoolStep → Pool
  | .arrive uid pid => s.arrive uid pid
  | .classify i registration => (s.workers[i]?).elim s fun w => s.classify i w registration
  | .reserve i resource => (s.workers[i]?).elim s fun w => s.reserve i w resource
  | .release i resource => (s.workers[i]?).elim s fun w => s.release i w resource
  | .close i => (s.workers[i]?).elim s fun w => s.close i w

def poolInit : Pool := ⟨budgetsInit, []⟩

/-- Runs of the authority under any arrivals and any interleaving of its threads. -/
abbrev PoolRun := Transition.Run fun s step t => poolStep s step = t

end Threads

section Exact

variable {s t : Pool} {i : ℕ} {w : Worker}

/-- What the counters say of the connections. -/
structure Pool.Exact (s : Pool) : Prop where
  room : s.workers.length ≤ maxAuthorityWorkers
  workers : s.budgets.workers = s.workers.length
  size : s.budgets.workerUsage.length = maxAuthorityWorkers
  uids : Tally.Counts s.budgets.workerUsage s.workers (fun _ => true) Worker.uid
  captures : Metered maxCapturesPerUid maxCaptureBytes s.budgets.captureUsage s.budgets.inflightBytes s.workers
    Worker.capture Worker.uid
  capturePids : Tally.Limited maxAuthorityWorkers maxCapturesPerPid s.budgets.capturePidUsage s.workers
    Worker.capture Worker.pid
  captureTotal : s.budgets.inflightBytes ≤ maxCaptureBytes * maxConcurrentCaptures
  kwin : Tally.Limited maxAuthorityWorkers maxKwinInflightPerPid s.budgets.kwinInflight s.workers
    Worker.kwin Worker.pid
  assemblies : Metered maxAssembliesPerUid maxRequestTotalPayload s.budgets.assemblyUsage s.budgets.assemblyBytes
    s.workers Worker.assembly Worker.uid

theorem poolInit_exact : poolInit.Exact := by
  have hempty : ∀ slot ∈ List.replicate maxAuthorityWorkers (⟨0, 0⟩ : UsageSlot), slot.count = 0 := by
    intro slot hslot
    rw [List.eq_of_mem_replicate hslot]
  have hlimited : ∀ (cap : ℕ) (p : Worker → Bool) (key : Worker → ℕ),
      Tally.Limited maxAuthorityWorkers cap (List.replicate maxAuthorityWorkers ⟨0, 0⟩) [] p key :=
    fun cap p key => ⟨List.length_replicate, Tally.exact_nil hempty, fun k => Nat.zero_le _⟩
  exact ⟨Nat.zero_le _, rfl, List.length_replicate, Tally.exact_nil hempty, ⟨hlimited _ _ _, rfl⟩, hlimited _ _ _,
    Nat.zero_le _, hlimited _ _ _, ⟨hlimited _ _ _, rfl⟩⟩

/-- A connection may come to be served, or be dismissed, and nothing else changes. -/
theorem Pool.Exact.stage (h : s.Exact) (hi : s.workers[i]? = some w) (stage : WorkerStage) :
    Pool.Exact { s with workers := s.workers.set i { w with stage } } := by
  have hlength : (s.workers.set i { w with stage }).length = s.workers.length := List.length_set
  exact ⟨hlength ▸ h.room, hlength ▸ h.workers, h.size, h.uids.keep hi rfl rfl, h.captures.keep hi rfl rfl,
    h.capturePids.keep hi rfl rfl, h.captureTotal, h.kwin.keep hi rfl rfl, h.assemblies.keep hi rfl rfl⟩

theorem Pool.Exact.arrive (h : s.Exact) (uid pid : ℕ) : (s.arrive uid pid).Exact := by
  unfold Pool.arrive
  by_cases huid : uid = 0
  · rw [if_pos huid]
    exact h
  rw [if_neg huid]
  obtain ⟨hrefused, -⟩ | ⟨slot, fromReserve, hfind, htaken, hreserved⟩ := reserveWorker_cases s.budgets uid
  · rw [hrefused]
    exact h
  · rw [hreserved]
    have hroom : s.budgets.workers < maxAuthorityWorkers := by
      unfold authorityAdmitWorker at htaken
      split_ifs at htaken with hfull <;> exact Nat.not_le.mp hfull
    have hworkers := h.workers
    have huids := h.uids.join (b := arriving uid pid fromReserve) rfl hfind
    refine ⟨?_, ?_, ?_, huids, h.captures.join_idle rfl, h.capturePids.join_idle rfl, h.captureTotal,
      h.kwin.join_idle rfl, h.assemblies.join_idle rfl⟩
    · simp only [List.length_append, List.length_singleton]
      omega
    · simp only [List.length_append, List.length_singleton]
      omega
    · exact (Tally.length_add _ _ _).trans h.size

theorem Pool.Exact.close (h : s.Exact) (hi : s.workers[i]? = some w) : (s.close i w).Exact := by
  unfold Pool.close
  by_cases hidle : w.idle
  · rw [if_pos hidle]
    simp only [Worker.idle, Bool.and_eq_true, Bool.not_eq_true'] at hidle
    obtain ⟨⟨hcapture, hkwin⟩, hassembly⟩ := hidle
    have hlength := (Tally.eraseIdx_perm hi).length_eq
    rw [List.length_cons] at hlength
    have hworkers := h.workers
    have hroom := h.room
    refine ⟨?_, ?_, (Tally.length_release _ _).trans h.size, h.uids.leave hi rfl, h.captures.leave_idle hi hcapture,
      h.capturePids.leave_idle hi hcapture, h.captureTotal, h.kwin.leave_idle hi hkwin,
      h.assemblies.leave_idle hi hassembly⟩
    · show (s.workers.eraseIdx i).length ≤ maxAuthorityWorkers
      omega
    · show s.budgets.workers - 1 = (s.workers.eraseIdx i).length
      omega
  · rw [if_neg hidle]
    exact h

theorem Pool.Exact.reserveCapture (h : s.Exact) (hi : s.workers[i]? = some w) (hidle : w.capture = false)
    {budgets : Budgets} (hreserved : reserveCaptureMemory s.budgets w.uid w.pid = (true, budgets)) :
    Pool.Exact ⟨budgets, s.workers.set i { w with capture := true }⟩ := by
  have hlength : (s.workers.set i { w with capture := true }).length = s.workers.length := List.length_set
  obtain hrefused | ⟨uidSlot, pidSlot, huid, hpid, hbytes, huidCap, hpidCap, hdone⟩ :=
    reserveCaptureMemory_cases s.budgets w.uid w.pid
  · rw [hrefused] at hreserved
    cases hreserved
  · rw [hdone] at hreserved
    cases hreserved
    have hmeter := h.captures.take (b := { w with capture := true }) hi hidle rfl rfl huid huidCap
    have hroom : maxAuthorityInflightBytes - maxCaptureBytes < maxCaptureBytes * maxConcurrentCaptures := by decide
    refine ⟨hlength ▸ h.room, hlength ▸ h.workers, h.size, h.uids.keep hi rfl rfl, hmeter,
      h.capturePids.take hi hidle rfl rfl hpid hpidCap, ?_, h.kwin.keep hi rfl rfl, h.assemblies.keep hi rfl rfl⟩
    -- the counter is a multiple of one capture, and the budget has no room for a fifth
    have hcount : s.budgets.inflightBytes = maxCaptureBytes * (s.workers.filter Worker.capture).length :=
      h.captures.bytes
    have hfew : (s.workers.filter Worker.capture).length < maxConcurrentCaptures := by
      apply Nat.lt_of_mul_lt_mul_left (a := maxCaptureBytes)
      omega
    show s.budgets.inflightBytes + maxCaptureBytes ≤ _
    rw [hcount, ← Nat.mul_succ]
    exact Nat.mul_le_mul_left _ hfew

theorem Pool.Exact.reserveKwin (h : s.Exact) (hi : s.workers[i]? = some w) (hidle : w.kwin = false)
    {budgets : Budgets} (hreserved : reserveKwinSlot s.budgets w.pid = (true, budgets)) :
    Pool.Exact ⟨budgets, s.workers.set i { w with kwin := true }⟩ := by
  have hlength : (s.workers.set i { w with kwin := true }).length = s.workers.length := List.length_set
  obtain hrefused | ⟨slot, hfind, hcap, hdone⟩ := reserveKwinSlot_cases s.budgets w.pid
  · rw [hrefused] at hreserved
    cases hreserved
  · rw [hdone] at hreserved
    cases hreserved
    exact ⟨hlength ▸ h.room, hlength ▸ h.workers, h.size, h.uids.keep hi rfl rfl, h.captures.keep hi rfl rfl,
      h.capturePids.keep hi rfl rfl, h.captureTotal, h.kwin.take hi hidle rfl rfl hfind hcap,
      h.assemblies.keep hi rfl rfl⟩

theorem Pool.Exact.reserveAssembly (h : s.Exact) (hi : s.workers[i]? = some w) (hidle : w.assembly = false)
    {budgets : Budgets} (hreserved : reserveAssemblyMemory s.budgets w.uid = (true, budgets)) :
    Pool.Exact ⟨budgets, s.workers.set i { w with assembly := true }⟩ := by
  have hlength : (s.workers.set i { w with assembly := true }).length = s.workers.length := List.length_set
  obtain hrefused | ⟨slot, hfind, -, hcap, hdone⟩ := reserveAssemblyMemory_cases s.budgets w.uid
  · rw [hrefused] at hreserved
    cases hreserved
  · rw [hdone] at hreserved
    cases hreserved
    have hmeter := h.assemblies.take (b := { w with assembly := true }) hi hidle rfl rfl hfind hcap
    exact ⟨hlength ▸ h.room, hlength ▸ h.workers, h.size, h.uids.keep hi rfl rfl, h.captures.keep hi rfl rfl,
      h.capturePids.keep hi rfl rfl, h.captureTotal, h.kwin.keep hi rfl rfl, hmeter⟩

/-- A refused reservation changes nothing. -/
theorem reserve_refused {b budgets : Budgets} {resource : Resource} (h : reserveFor b w resource = (false, budgets)) :
    budgets = b := by
  cases resource with
  | capture =>
    obtain hrefused | ⟨uidSlot, pidSlot, -, -, -, -, -, hdone⟩ := reserveCaptureMemory_cases b w.uid w.pid
    · rw [reserveFor, hrefused] at h
      cases h
      rfl
    · rw [reserveFor, hdone] at h
      cases h
  | kwin =>
    obtain hrefused | ⟨slot, -, -, hdone⟩ := reserveKwinSlot_cases b w.pid
    · rw [reserveFor, hrefused] at h
      cases h
      rfl
    · rw [reserveFor, hdone] at h
      cases h
  | assembly =>
    obtain hrefused | ⟨slot, -, -, -, hdone⟩ := reserveAssemblyMemory_cases b w.uid
    · rw [reserveFor, hrefused] at h
      cases h
      rfl
    · rw [reserveFor, hdone] at h
      cases h

theorem Pool.Exact.reserve (h : s.Exact) (hi : s.workers[i]? = some w) (resource : Resource) :
    (s.reserve i w resource).Exact := by
  unfold Pool.reserve
  by_cases hmay : w.stage = .serving false ∧ w.holds resource = false
  · rw [if_pos hmay]
    rcases hreserved : reserveFor s.budgets w resource with ⟨_ | _, budgets⟩
    · rw [reserve_refused hreserved]
      exact h
    · cases resource with
      | capture => exact h.reserveCapture hi hmay.2 hreserved
      | kwin => exact h.reserveKwin hi hmay.2 hreserved
      | assembly => exact h.reserveAssembly hi hmay.2 hreserved
  · rw [if_neg hmay]
    exact h

theorem Pool.Exact.release (h : s.Exact) (hi : s.workers[i]? = some w) (resource : Resource) :
    (s.release i w resource).Exact := by
  unfold Pool.release
  by_cases hholds : w.holds resource
  · rw [if_pos hholds]
    have hlength : ∀ w', (s.workers.set i w').length = s.workers.length := fun w' => List.length_set
    cases resource with
    | capture =>
      obtain ⟨hunit, hmeter⟩ := h.captures.give (b := { w with capture := false }) hi hholds rfl
      have hbytes : (releaseCaptureMemory s.budgets w.uid w.pid).inflightBytes =
          s.budgets.inflightBytes - maxCaptureBytes := if_pos hunit
      have htotal := h.captureTotal
      refine ⟨hlength _ ▸ h.room, hlength _ ▸ h.workers, h.size, h.uids.keep hi rfl rfl, ?_,
        h.capturePids.give hi hholds rfl, ?_, h.kwin.keep hi rfl rfl, h.assemblies.keep hi rfl rfl⟩
      · show Metered _ _ _ (releaseCaptureMemory s.budgets w.uid w.pid).inflightBytes _ _ _
        rw [hbytes]
        exact hmeter
      · show (releaseCaptureMemory s.budgets w.uid w.pid).inflightBytes ≤ _
        omega
    | kwin =>
      exact ⟨hlength _ ▸ h.room, hlength _ ▸ h.workers, h.size, h.uids.keep hi rfl rfl, h.captures.keep hi rfl rfl,
        h.capturePids.keep hi rfl rfl, h.captureTotal, h.kwin.give hi hholds rfl, h.assemblies.keep hi rfl rfl⟩
    | assembly =>
      obtain ⟨hunit, hmeter⟩ := h.assemblies.give (b := { w with assembly := false }) hi hholds rfl
      have hbytes : (releaseAssemblyMemory s.budgets w.uid).assemblyBytes =
          s.budgets.assemblyBytes - maxRequestTotalPayload := if_pos hunit
      refine ⟨hlength _ ▸ h.room, hlength _ ▸ h.workers, h.size, h.uids.keep hi rfl rfl, h.captures.keep hi rfl rfl,
        h.capturePids.keep hi rfl rfl, h.captureTotal, h.kwin.keep hi rfl rfl, ?_⟩
      show Metered _ _ _ (releaseAssemblyMemory s.budgets w.uid).assemblyBytes _ _ _
      rw [hbytes]
      exact hmeter
  · rw [if_neg hholds]
    exact h

theorem Pool.Exact.step (h : s.Exact) (step : PoolStep) : (poolStep s step).Exact := by
  have hat : ∀ (i : ℕ) (f : Worker → Pool), (∀ w, s.workers[i]? = some w → (f w).Exact) →
      ((s.workers[i]?).elim s f).Exact := by
    intro i f hf
    cases hi : s.workers[i]? with
    | none => exact h
    | some w => exact hf w hi
  cases step with
  | arrive uid pid => exact h.arrive uid pid
  | classify i registration =>
    refine hat i _ fun w hi => ?_
    unfold Pool.classify
    split_ifs
    · exact h.stage hi _
    · exact h.stage hi _
    · exact h
  | reserve i resource => exact hat i _ fun w hi => h.reserve hi resource
  | release i resource => exact hat i _ fun w hi => h.release hi resource
  | close i => exact hat i _ fun w hi => h.close hi

theorem PoolRun.exact {steps : List PoolStep} (h : PoolRun poolInit steps s) : s.Exact := by
  refine h.invariant ?_ poolInit_exact
  intro s step t hs hstep
  rw [← hstep]
  exact hs.step step

end Exact

section Accounts

variable {s : Pool}

/-- The usage tables. -/
inductive Table
  | worker | assembly | capture | capturePid | kwin
  deriving DecidableEq, Repr

def Budgets.table (b : Budgets) : Table → List UsageSlot
  | .worker => b.workerUsage
  | .assembly => b.assemblyUsage
  | .capture => b.captureUsage
  | .capturePid => b.capturePidUsage
  | .kwin => b.kwinInflight

/-- Whether a connection has a reservation that a table counts, and under which key. -/
def Worker.holdsIn (w : Worker) : Table → Bool
  | .worker => true
  | .assembly => w.assembly
  | .capture => w.capture
  | .capturePid => w.capture
  | .kwin => w.kwin

def Worker.key (w : Worker) : Table → ℕ
  | .worker => w.uid
  | .assembly => w.uid
  | .capture => w.uid
  | .capturePid => w.pid
  | .kwin => w.pid

/-- The keys of the reservations that a table counts. -/
def Pool.outstanding (s : Pool) (table : Table) : List ℕ :=
  (s.workers.filter (·.holdsIn table)).map (·.key table)

/-- The counters say exactly what is reserved, a thread's search for a slot never fails, no cap is passed, and
a refusal leaves everything as it was. -/
structure Pool.Accounted (s : Pool) : Prop where
  tables (table : Table) : Tally.Exact (s.budgets.table table) (s.outstanding table)
  threads : s.workers.length ≤ maxAuthorityWorkers
  found (w : Worker) : w ∈ s.workers → ∀ table, (findUsageSlot (s.budgets.table table) (w.key table)).isSome
  accepting (uid : ℕ) : findUsageSlot s.budgets.workerUsage uid = none → s.workers.length = maxAuthorityWorkers
  workers : s.budgets.workers = s.workers.length
  bytes : s.budgets.inflightBytes = maxCaptureBytes * (s.outstanding .capture).length
  assemblyBytes : s.budgets.assemblyBytes = maxRequestTotalPayload * (s.outstanding .assembly).length
  capturesPerPid (pid : ℕ) : (s.outstanding .capturePid).count pid ≤ maxCapturesPerPid
  capturesPerUid (uid : ℕ) : (s.outstanding .capture).count uid ≤ maxCapturesPerUid
  captures : (s.outstanding .capture).length ≤ maxConcurrentCaptures
  kwinPerPid (pid : ℕ) : (s.outstanding .kwin).count pid ≤ maxKwinInflightPerPid
  refusedWorker (uid : ℕ) : (reserveWorker s.budgets uid).1 = none → (reserveWorker s.budgets uid).2 = s.budgets
  refused (w : Worker) (resource : Resource) :
    (reserveFor s.budgets w resource).1 = false → (reserveFor s.budgets w resource).2 = s.budgets

theorem Pool.Exact.counts (h : s.Exact) (table : Table) :
    (s.budgets.table table).length = maxAuthorityWorkers ∧
      Tally.Counts (s.budgets.table table) s.workers (·.holdsIn table) (·.key table) := by
  cases table with
  | worker => exact ⟨h.size, h.uids⟩
  | assembly => exact ⟨h.assemblies.limited.size, h.assemblies.limited.counts⟩
  | capture => exact ⟨h.captures.limited.size, h.captures.limited.counts⟩
  | capturePid => exact ⟨h.capturePids.size, h.capturePids.counts⟩
  | kwin => exact ⟨h.kwin.size, h.kwin.counts⟩

theorem Pool.Exact.found (h : s.Exact) {w : Worker} (hw : w ∈ s.workers) (table : Table) :
    (findUsageSlot (s.budgets.table table) (w.key table)).isSome := by
  obtain ⟨hsize, hcounts⟩ := h.counts table
  rw [Option.isSome_iff_exists]
  by_cases hholds : w.holdsIn table
  · exact hcounts.find_of_held hw hholds
  · exact hcounts.find_of_idle (hsize ▸ h.room) hw (Bool.eq_false_iff.mpr hholds) _

theorem Pool.Exact.accepting (h : s.Exact) {uid : ℕ} (hnone : findUsageSlot s.budgets.workerUsage uid = none) :
    s.workers.length = maxAuthorityWorkers := by
  have hle := Tally.Exact.length_le h.uids hnone
  rw [List.length_map, List.filter_true, h.size] at hle
  exact Nat.le_antisymm h.room hle

/-- Whatever connections arrive, and however their threads reserve and release, the tables stay exact. -/
theorem admission_accounted (steps : List PoolStep) : (steps.foldl poolStep poolInit).Accounted := by
  have h := PoolRun.exact (Transition.Run.foldl poolStep poolInit steps)
  generalize steps.foldl poolStep poolInit = s at h
  have hcapturePositive : 0 < maxCaptureBytes := by decide
  refine ⟨fun table => (h.counts table).2, h.room, fun w hw table => h.found hw table, fun uid => h.accepting,
    h.workers, ?_, ?_, h.capturePids.below, h.captures.limited.below, ?_, h.kwin.below, ?_, ?_⟩
  · rw [Pool.outstanding, List.length_map]
    exact h.captures.bytes
  · rw [Pool.outstanding, List.length_map]
    exact h.assemblies.bytes
  · rw [Pool.outstanding, List.length_map]
    exact h.captures.length_le hcapturePositive h.captureTotal
  · intro uid hnone
    obtain ⟨hrefused, -⟩ | ⟨slot, fromReserve, -, -, hdone⟩ := reserveWorker_cases s.budgets uid
    · rw [hrefused]
    · rw [hdone] at hnone
      cases hnone
  · intro w resource hrefused
    have hpair : reserveFor s.budgets w resource = (false, (reserveFor s.budgets w resource).2) := by
      rw [← hrefused]
    exact reserve_refused hpair

end Accounts

section Reserve

variable {s t : Pool} {i : ℕ} {w w' : Worker}

/-- The open connections that came in on a slot of the reserve. -/
def Pool.reserved (s : Pool) : ℕ := (s.workers.filter Worker.fromReserve).length

def Worker.general (w : Worker) : Bool := !w.fromReserve

/-- The open connections that came in without it, and those of one user. -/
def Pool.general (s : Pool) : ℕ := (s.workers.filter Worker.general).length

def Pool.generalOf (s : Pool) (uid : ℕ) : ℕ := ((s.workers.filter Worker.general).map Worker.uid).count uid

def Pool.ofUid (s : Pool) (uid : ℕ) : ℕ := (s.workers.map Worker.uid).count uid

/-- The reserve and the general pool are within their bounds, and no user passes its cap by more than the
reserve. -/
structure Pool.Bounded (s : Pool) : Prop where
  reserved : s.reserved ≤ authorityRegistrationReserve
  general : s.general ≤ generalWorkers
  perUid (uid : ℕ) : s.generalOf uid ≤ maxAuthorityWorkersPerUid
  ofUid (uid : ℕ) : s.ofUid uid ≤ maxAuthorityWorkersPerUid + authorityRegistrationReserve

/-- An arrival that the general pool has no room for, or whose user is at its cap, finds a slot of the reserve
that is free. -/
def ReserveLeft (s : Pool) : PoolStep → Prop
  | .arrive uid _ => uid ≠ 0 → s.workers.length < maxAuthorityWorkers →
      generalWorkers ≤ s.workers.length ∨ maxAuthorityWorkersPerUid ≤ s.ofUid uid →
      s.reserved < authorityRegistrationReserve
  | _ => True

/-- What the connections that need no reserve keep to, whatever happens. -/
structure Pool.GeneralBounded (s : Pool) : Prop where
  general : s.general ≤ generalWorkers
  perUid (uid : ℕ) : s.generalOf uid ≤ maxAuthorityWorkersPerUid

/-- What the bounds read of the connections, in any order. -/
def Pool.entries (s : Pool) : List (ℕ × Bool) := s.workers.map fun w => (w.uid, w.fromReserve)

theorem reserved_eq (s : Pool) : s.reserved = (s.entries.filter Prod.snd).length := by
  simp only [Pool.reserved, Pool.entries, List.filter_map, List.length_map]
  rfl

theorem general_eq (s : Pool) : s.general = (s.entries.filter fun e => !e.2).length := by
  simp only [Pool.general, Pool.entries, List.filter_map, List.length_map]
  rfl

theorem generalOf_eq (s : Pool) (uid : ℕ) :
    s.generalOf uid = ((s.entries.filter fun e => !e.2).map Prod.fst).count uid := by
  simp only [Pool.generalOf, Pool.entries, List.filter_map, List.map_map]
  rfl

theorem ofUid_eq (s : Pool) (uid : ℕ) : s.ofUid uid = (s.entries.map Prod.fst).count uid := by
  simp only [Pool.ofUid, Pool.entries, List.map_map]
  rfl

/-- Everything a step does to the connections as the bounds read them. -/
inductive EntryChange (s : Pool) : PoolStep → List (ℕ × Bool) → Prop
  | keep (step : PoolStep) (entries : List (ℕ × Bool)) (sublist : entries.Sublist s.entries)
      (refused : ∀ uid pid, step = .arrive uid pid → uid = 0 ∨ maxAuthorityWorkers ≤ s.workers.length) :
      EntryChange s step entries
  | join (uid pid : ℕ) (fromReserve : Bool) (user : uid ≠ 0)
      (admitted : authorityAdmitWorker s.workers.length (s.ofUid uid) = some fromReserve) :
      EntryChange s (.arrive uid pid) (s.entries ++ [(uid, fromReserve)])

theorem entries_set (hi : s.workers[i]? = some w) (huid : w'.uid = w.uid) (hreserve : w'.fromReserve = w.fromReserve)
    (budgets : Budgets) : Pool.entries ⟨budgets, s.workers.set i w'⟩ = s.entries :=
  Slots.map_set_of_eq hi (by rw [huid, hreserve])

theorem Pool.Exact.arrive_entries (h : s.Exact) (uid pid : ℕ) :
    EntryChange s (.arrive uid pid) (s.arrive uid pid).entries := by
  have hsame : ∀ huid : uid = 0 ∨ maxAuthorityWorkers ≤ s.workers.length, EntryChange s (.arrive uid pid) s.entries := by
    intro hwhy
    refine .keep _ _ (List.Sublist.refl _) fun uid' pid' hstep => ?_
    cases hstep
    exact hwhy
  unfold Pool.arrive
  by_cases huid : uid = 0
  · rw [if_pos huid]
    exact hsame (.inl huid)
  rw [if_neg huid]
  obtain ⟨hrefused, hwhy⟩ | ⟨slot, fromReserve, hfind, htaken, hreserved⟩ := reserveWorker_cases s.budgets uid
  · rw [hrefused]
    apply hsame
    right
    rcases hwhy with hnone | hfull
    · exact (h.accepting hnone).ge
    · rwa [← h.workers]
  · rw [hreserved]
    have hcount : usageCount s.budgets.workerUsage slot = s.ofUid uid := by
      have hfound := h.uids.count_find hfind
      rw [List.filter_true] at hfound
      exact hfound
    rw [h.workers, hcount] at htaken
    have hentries : Pool.entries ⟨{ s.budgets with
        workers := s.budgets.workers + 1, workerUsage := addUsage s.budgets.workerUsage slot uid },
        s.workers ++ [arriving uid pid fromReserve]⟩ = s.entries ++ [(uid, fromReserve)] := by
      simp [Pool.entries, arriving]
    show EntryChange s _ (Pool.entries ⟨_, s.workers ++ [arriving uid pid fromReserve]⟩)
    rw [hentries]
    exact .join uid pid fromReserve huid htaken

theorem Pool.Exact.step_entries (h : s.Exact) (step : PoolStep) : EntryChange s step (poolStep s step).entries := by
  have hsame : ∀ step entries, (∀ uid pid, step ≠ .arrive uid pid) → entries = s.entries →
      EntryChange s step entries := by
    intro step entries hother heq
    rw [heq]
    exact .keep _ _ (List.Sublist.refl _) fun uid pid hstep => absurd hstep (hother uid pid)
  cases step with
  | arrive uid pid => exact h.arrive_entries uid pid
  | classify i registration =>
    refine hsame _ _ (fun _ _ => nofun) ?_
    cases hi : s.workers[i]? with
    | none => simp [poolStep, hi]
    | some w =>
      simp only [poolStep, hi, Option.elim_some, Pool.classify]
      split_ifs
      · exact Slots.map_set_of_eq hi rfl
      · exact Slots.map_set_of_eq hi rfl
      · rfl
  | reserve i resource =>
    refine hsame _ _ (fun _ _ => nofun) ?_
    cases hi : s.workers[i]? with
    | none => simp [poolStep, hi]
    | some w =>
      simp only [poolStep, hi, Option.elim_some, Pool.reserve]
      split_ifs
      · split
        · rfl
        · exact entries_set hi (by cases resource <;> rfl) (by cases resource <;> rfl) _
      · rfl
  | release i resource =>
    refine hsame _ _ (fun _ _ => nofun) ?_
    cases hi : s.workers[i]? with
    | none => simp [poolStep, hi]
    | some w =>
      simp only [poolStep, hi, Option.elim_some, Pool.release]
      split_ifs
      · exact entries_set hi (by cases resource <;> rfl) (by cases resource <;> rfl) _
      · rfl
  | close i =>
    refine .keep _ _ ?_ fun uid pid => nofun
    cases hi : s.workers[i]? with
    | none =>
      simp only [poolStep, hi, Option.elim_none]
      exact List.Sublist.refl _
    | some w =>
      simp only [poolStep, hi, Option.elim_some, Pool.close]
      split_ifs
      · exact (List.eraseIdx_sublist _ _).map _
      · exact List.Sublist.refl _

theorem admitted_general {workers uidWorkers : ℕ} (h : authorityAdmitWorker workers uidWorkers = some false) :
    workers < generalWorkers ∧ uidWorkers < maxAuthorityWorkersPerUid := by
  unfold authorityAdmitWorker at h
  split_ifs at h with hfull hroom
  · simpa using hroom
  · cases h

theorem admitted_reserve {workers uidWorkers : ℕ} (h : authorityAdmitWorker workers uidWorkers = some true) :
    workers < maxAuthorityWorkers ∧ (generalWorkers ≤ workers ∨ maxAuthorityWorkersPerUid ≤ uidWorkers) := by
  unfold authorityAdmitWorker at h
  split_ifs at h with hfull hroom
  · cases h
  · refine ⟨Nat.not_le.mp hfull, ?_⟩
    simp only [Bool.and_eq_true, decide_eq_true_eq, not_and_or, Nat.not_lt] at hroom
    exact hroom

theorem general_le (s : Pool) : s.general ≤ s.workers.length := List.length_filter_le _ _

theorem generalOf_le (s : Pool) (uid : ℕ) : s.generalOf uid ≤ s.ofUid uid :=
  ((List.filter_sublist).map _).count_le uid

/-- A user's connections are its general ones and at most the whole of the reserve. -/
theorem ofUid_le (s : Pool) (uid : ℕ) : s.ofUid uid ≤ s.generalOf uid + s.reserved := by
  have hsplit : s.ofUid uid = ((s.workers.filter Worker.general).map Worker.uid).count uid +
      ((s.workers.filter fun w => !w.general).map Worker.uid).count uid := by
    rw [← List.count_append, ← List.map_append]
    exact (((List.filter_append_perm Worker.general s.workers).map Worker.uid).count_eq uid).symm
  have hreserve : (fun w : Worker => !w.general) = Worker.fromReserve := by
    funext w
    simp [Worker.general]
  have hle := List.count_le_length (a := uid) (l := (s.workers.filter Worker.fromReserve).map Worker.uid)
  rw [List.length_map] at hle
  rw [hsplit, hreserve]
  exact Nat.add_le_add_left hle _

theorem EntryChange.generalBounded {step : PoolStep} (h : EntryChange s step t.entries) (hs : s.GeneralBounded) :
    t.GeneralBounded := by
  have hgeneral := hs.general
  have hperUid := hs.perUid
  have hle := general_le s
  rw [general_eq] at hgeneral hle
  generalize hentries : t.entries = entries at h
  refine ⟨?_, fun uid => ?_⟩
  · rw [general_eq, hentries]
    cases h with
    | keep _ _ hsub => exact Nat.le_trans (hsub.filter _).length_le hgeneral
    | join uid pid fromReserve huser hadmitted =>
      rw [List.filter_append, List.length_append]
      cases fromReserve with
      | true => simpa using hgeneral
      | false =>
        have hroom := (admitted_general hadmitted).1
        have hone : ([(uid, false)].filter fun e => !e.2).length = 1 := rfl
        omega
  · have huid := hperUid uid
    rw [generalOf_eq] at huid ⊢
    rw [hentries]
    cases h with
    | keep _ _ hsub => exact Nat.le_trans (((hsub.filter _).map _).count_le uid) huid
    | join uid' pid fromReserve huser hadmitted =>
      rw [List.filter_append, List.map_append, List.count_append]
      cases fromReserve with
      | true => simpa using huid
      | false =>
        have hone : (([(uid', false)].filter fun e => !e.2).map Prod.fst).count uid = if uid' = uid then 1 else 0 := by
          simp [List.count_singleton]
        rw [hone]
        split_ifs with hsame
        · subst hsame
          have hcap := (admitted_general hadmitted).2
          have hgeneralOf := generalOf_le s uid'
          rw [generalOf_eq] at hgeneralOf
          omega
        · exact huid

/-- The reserve stays within its size exactly where each arrival that draws on it finds a slot free. -/
theorem EntryChange.reserved_iff {step : PoolStep} (h : EntryChange s step t.entries)
    (hs : s.reserved ≤ authorityRegistrationReserve) :
    t.reserved ≤ authorityRegistrationReserve ↔ ReserveLeft s step := by
  rw [reserved_eq t]
  have hreserved := reserved_eq s
  generalize t.entries = entries at h
  cases h with
  | keep _ _ hsub hrefused =>
    have hle := (hsub.filter Prod.snd).length_le
    refine iff_of_true (by omega) ?_
    cases step with
    | arrive uid pid =>
      intro huser hroom
      rcases hrefused uid pid rfl with hzero | hfull
      · exact absurd hzero huser
      · omega
    | _ => trivial
  | join uid pid fromReserve huser hadmitted =>
    rw [List.filter_append, List.length_append]
    cases fromReserve with
    | true =>
      obtain ⟨hroom, hneeds⟩ := admitted_reserve hadmitted
      have hone : ([(uid, true)].filter Prod.snd).length = 1 := rfl
      rw [hone, ← hreserved]
      constructor
      · intro hle _ _ _
        exact hle
      · intro hleft
        exact hleft huser hroom hneeds
    | false =>
      obtain ⟨hgeneral, hcap⟩ := admitted_general hadmitted
      have hnone : ([(uid, false)].filter Prod.snd).length = 0 := rfl
      rw [hnone, ← hreserved]
      refine iff_of_true hs ?_
      intro _ _ hneeds
      omega

theorem Pool.bounded_iff (h : s.GeneralBounded) : s.Bounded ↔ s.reserved ≤ authorityRegistrationReserve := by
  constructor
  · exact fun hbounded => hbounded.reserved
  · intro hreserved
    refine ⟨hreserved, h.general, h.perUid, fun uid => ?_⟩
    have hle := ofUid_le s uid
    have hgeneral := h.perUid uid
    omega

/-- What a run keeps while the reserve has never been overdrawn. -/
structure Pool.Orderly (s : Pool) : Prop where
  exact : s.Exact
  bounded : s.Bounded

theorem poolInit_orderly : poolInit.Orderly :=
  ⟨poolInit_exact, Nat.zero_le _, Nat.zero_le _, fun _ => Nat.zero_le _, fun _ => Nat.zero_le _⟩

theorem Pool.Orderly.bounded_iff (h : s.Orderly) (step : PoolStep) :
    (poolStep s step).Bounded ↔ ReserveLeft s step := by
  have hchange := h.exact.step_entries step
  have hgeneral := hchange.generalBounded ⟨h.bounded.general, h.bounded.perUid⟩
  rw [Pool.bounded_iff hgeneral]
  exact hchange.reserved_iff h.bounded.reserved

/-- Every state of a run is within its bounds exactly where no arrival draws on a reserve that is used up. -/
theorem registrationReserve_bounded_iff (steps : List PoolStep) (s : Pool) :
    Transition.Run (fun s step t => poolStep s step = t ∧ t.Bounded) poolInit steps s ↔
      Transition.Run (Transition.Restrict (fun s step t => poolStep s step = t) ReserveLeft) poolInit steps s := by
  refine Transition.Run.and_iff_restrict (I := Pool.Orderly) ?_ ?_ poolInit_orderly
  · intro s step t hs hstep
    rw [← hstep]
    exact hs.bounded_iff step
  · intro s step t hs hstep hleft
    rw [← hstep]
    exact ⟨hs.exact.step step, (hs.bounded_iff step).mpr hleft⟩

/-- Nine connections past its cap bring one user to nine slots of a reserve that has eight. -/
theorem capped_user_overdraws :
    ∃ s, PoolRun poolInit (List.replicate (maxAuthorityWorkersPerUid + 9) (.arrive 1000 42)) s ∧
      authorityRegistrationReserve < s.reserved ∧
      maxAuthorityWorkersPerUid + authorityRegistrationReserve < s.ofUid 1000 := by
  refine ⟨_, Transition.Run.foldl poolStep poolInit _, ?_⟩
  decide +kernel

end Reserve

end KeysharpDesktop
