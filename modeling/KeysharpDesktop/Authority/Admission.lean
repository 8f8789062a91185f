import KeysharpDesktop.Lib.Tally
import KeysharpDesktop.Wire.Request

/-! What the authority admits: connections to its pool of workers, and requests to its budgets. -/
namespace KeysharpDesktop

def maxAuthorityWorkers : ℕ := 128
def maxAuthorityWorkersPerUid : ℕ := 32
def authorityRegistrationReserve : ℕ := 8
def maxKwinInflightPerPid : ℕ := 4
def maxConcurrentCaptures : ℕ := 4
def maxCapturesPerUid : ℕ := 2
def maxCapturesPerPid : ℕ := 1
def maxAuthorityInflightBytes : ℕ := maxConcurrentCaptures * maxCaptureBytes + 16 * 1024 * 1024
def maxAuthorityAssemblyBytes : ℕ := 64 * 1024 * 1024
def maxAssembliesPerUid : ℕ := 4

section Pool

def generalWorkers : ℕ := maxAuthorityWorkers - authorityRegistrationReserve

/-- Whether a connection is admitted, and then whether on a slot of the reserve. -/
def authorityAdmitWorker (workers uidWorkers : ℕ) : Option Bool :=
  if maxAuthorityWorkers ≤ workers then none
  else if workers < generalWorkers && uidWorkers < maxAuthorityWorkersPerUid then some false
  else some true

def authorityAdmitKwin (pidInflight : ℕ) : Bool := pidInflight < maxKwinInflightPerPid

def authorityWorkerKeepsSlot (fromReserve isRegistration : Bool) : Bool := !fromReserve || isRegistration

end Pool

section Budgets

abbrev UsageSlot := Tally.Slot ℕ

def findUsageSlot (slots : List UsageSlot) (key : ℕ) : Option ℕ := Tally.find slots key
def addUsage (slots : List UsageSlot) (slot key : ℕ) : List UsageSlot := Tally.add slots slot key
def releaseUsage (slots : List UsageSlot) (key : ℕ) : List UsageSlot := Tally.release slots key

def usageCount (slots : List UsageSlot) (slot : ℕ) : ℕ := (slots[slot]?.map Tally.Slot.count).getD 0

/-- The counters of `authority_state`. -/
structure Budgets where
  workers : ℕ
  inflightBytes : ℕ
  assemblyBytes : ℕ
  workerUsage : List UsageSlot
  assemblyUsage : List UsageSlot
  captureUsage : List UsageSlot
  capturePidUsage : List UsageSlot
  kwinInflight : List UsageSlot
  deriving DecidableEq, Repr

def budgetsInit : Budgets :=
  let slots := List.replicate maxAuthorityWorkers ⟨0, 0⟩
  ⟨0, 0, 0, slots, slots, slots, slots, slots⟩

/-- With the state that it leaves comes whether the connection is on a slot of the reserve, if it is
admitted at all. -/
def reserveWorker (b : Budgets) (uid : ℕ) : Option Bool × Budgets :=
  match findUsageSlot b.workerUsage uid with
  | none => (none, b)
  | some slot =>
    match authorityAdmitWorker b.workers (usageCount b.workerUsage slot) with
    | none => (none, b)
    | some fromReserve =>
      (some fromReserve, { b with
        workers := b.workers + 1, workerUsage := addUsage b.workerUsage slot uid })

/-- The end of `connection_worker`. -/
def releaseWorker (b : Budgets) (uid : ℕ) : Budgets :=
  { b with workers := b.workers - 1, workerUsage := releaseUsage b.workerUsage uid }

def reserveKwinSlot (b : Budgets) (pid : ℕ) : Bool × Budgets :=
  match findUsageSlot b.kwinInflight pid with
  | none => (false, b)
  | some slot =>
    if authorityAdmitKwin (usageCount b.kwinInflight slot) then
      (true, { b with kwinInflight := addUsage b.kwinInflight slot pid })
    else (false, b)

def releaseKwinSlot (b : Budgets) (pid : ℕ) : Budgets :=
  { b with kwinInflight := releaseUsage b.kwinInflight pid }

def reserveCaptureMemory (b : Budgets) (uid pid : ℕ) : Bool × Budgets :=
  match findUsageSlot b.captureUsage uid, findUsageSlot b.capturePidUsage pid with
  | some uidSlot, some pidSlot =>
    if b.inflightBytes ≤ maxAuthorityInflightBytes - maxCaptureBytes &&
        usageCount b.captureUsage uidSlot < maxCapturesPerUid &&
        usageCount b.capturePidUsage pidSlot < maxCapturesPerPid then
      (true, { b with
        inflightBytes := b.inflightBytes + maxCaptureBytes
        captureUsage := addUsage b.captureUsage uidSlot uid
        capturePidUsage := addUsage b.capturePidUsage pidSlot pid })
    else (false, b)
  | _, _ => (false, b)

def releaseCaptureMemory (b : Budgets) (uid pid : ℕ) : Budgets :=
  { b with
    inflightBytes := if maxCaptureBytes ≤ b.inflightBytes then b.inflightBytes - maxCaptureBytes else b.inflightBytes
    captureUsage := releaseUsage b.captureUsage uid
    capturePidUsage := releaseUsage b.capturePidUsage pid }

def reserveAssemblyMemory (b : Budgets) (uid : ℕ) : Bool × Budgets :=
  match findUsageSlot b.assemblyUsage uid with
  | none => (false, b)
  | some slot =>
    if b.assemblyBytes ≤ maxAuthorityAssemblyBytes - maxRequestTotalPayload &&
        usageCount b.assemblyUsage slot < maxAssembliesPerUid then
      (true, { b with
        assemblyBytes := b.assemblyBytes + maxRequestTotalPayload
        assemblyUsage := addUsage b.assemblyUsage slot uid })
    else (false, b)

def releaseAssemblyMemory (b : Budgets) (uid : ℕ) : Budgets :=
  { b with
    assemblyBytes :=
      if maxRequestTotalPayload ≤ b.assemblyBytes then b.assemblyBytes - maxRequestTotalPayload else b.assemblyBytes
    assemblyUsage := releaseUsage b.assemblyUsage uid }

/-- A byte counter and a table that together count the holders of one kind of memory. -/
structure Metered {α : Type*} (cap unit : ℕ) (usage : List UsageSlot) (bytes : ℕ) (l : List α) (p : α → Bool)
    (key : α → ℕ) : Prop where
  limited : Tally.Limited maxAuthorityWorkers cap usage l p key
  bytes : bytes = unit * (l.filter p).length

section Metered

variable {α : Type*} {cap unit slot bytes i : ℕ} {usage : List UsageSlot} {l : List α} {p : α → Bool} {key : α → ℕ}
  {a b : α}

theorem Metered.take (h : Metered cap unit usage bytes l p key) (hi : l[i]? = some a) (ha : p a = false) (hb : p b)
    (hkey : key b = key a) (hfind : findUsageSlot usage (key a) = some slot) (hcap : usageCount usage slot < cap) :
    Metered cap unit (addUsage usage slot (key a)) (bytes + unit) (l.set i b) p key := by
  refine ⟨h.limited.take hi ha hb hkey hfind hcap, ?_⟩
  rw [(Slots.filter_set_perm hi ha hb).length_eq, List.length_cons, Nat.mul_succ, ← h.bytes]

theorem Metered.give (h : Metered cap unit usage bytes l p key) (hi : l[i]? = some a) (ha : p a) (hb : p b = false) :
    unit ≤ bytes ∧ Metered cap unit (releaseUsage usage (key a)) (bytes - unit) (l.set i b) p key := by
  have hlength := (Slots.filter_perm_set hi ha hb).length_eq
  have hbytes := h.bytes
  rw [hlength, List.length_cons, Nat.mul_succ] at hbytes
  refine ⟨by omega, h.limited.give hi ha hb, by omega⟩

theorem Metered.keep (h : Metered cap unit usage bytes l p key) (hi : l[i]? = some a) (hp : p b = p a)
    (hkey : key b = key a) : Metered cap unit usage bytes (l.set i b) p key := by
  refine ⟨h.limited.keep hi hp hkey, ?_⟩
  have hlength := congrArg List.length (Tally.map_filter_set hi hp hkey)
  rw [List.length_map, List.length_map] at hlength
  rw [hlength, h.bytes]

theorem Metered.join_idle (h : Metered cap unit usage bytes l p key) (hb : p b = false) :
    Metered cap unit usage bytes (l ++ [b]) p key := by
  refine ⟨h.limited.join_idle hb, ?_⟩
  rw [h.bytes]
  simp [hb]

theorem Metered.leave_idle (h : Metered cap unit usage bytes l p key) (hi : l[i]? = some a) (ha : p a = false) :
    Metered cap unit usage bytes (l.eraseIdx i) p key := by
  refine ⟨h.limited.leave_idle hi ha, ?_⟩
  have hidle : ¬p a = true := by simp [ha]
  have hlength := ((Tally.eraseIdx_perm hi).filter p).length_eq
  rw [List.filter_cons_of_neg hidle] at hlength
  rw [← hlength, h.bytes]

/-- As many hold a unit of a budget as it admits, and no more. -/
theorem Metered.length_le (h : Metered cap unit usage bytes l p key) (hunit : 0 < unit) {n : ℕ}
    (hbytes : bytes ≤ unit * n) : (l.filter p).length ≤ n := by
  rw [h.bytes] at hbytes
  exact Nat.le_of_mul_le_mul_left hbytes hunit

end Metered

section Inversion

variable {b : Budgets} {uid pid : ℕ}

theorem reserveWorker_cases (b : Budgets) (uid : ℕ) :
    reserveWorker b uid = (none, b) ∧ (findUsageSlot b.workerUsage uid = none ∨ maxAuthorityWorkers ≤ b.workers) ∨
      ∃ slot fromReserve, findUsageSlot b.workerUsage uid = some slot ∧
        authorityAdmitWorker b.workers (usageCount b.workerUsage slot) = some fromReserve ∧
        reserveWorker b uid = (some fromReserve, { b with
          workers := b.workers + 1, workerUsage := addUsage b.workerUsage slot uid }) := by
  unfold reserveWorker
  cases hfind : findUsageSlot b.workerUsage uid with
  | none => exact .inl ⟨rfl, .inl rfl⟩
  | some slot =>
    cases htaken : authorityAdmitWorker b.workers (usageCount b.workerUsage slot) with
    | none =>
      refine .inl ⟨by simp only [htaken], .inr ?_⟩
      unfold authorityAdmitWorker at htaken
      split_ifs at htaken with hfull
      exact hfull
    | some fromReserve => exact .inr ⟨slot, fromReserve, rfl, htaken, by simp only [htaken]⟩

theorem reserveKwinSlot_cases (b : Budgets) (pid : ℕ) :
    reserveKwinSlot b pid = (false, b) ∨
      ∃ slot, findUsageSlot b.kwinInflight pid = some slot ∧ usageCount b.kwinInflight slot < maxKwinInflightPerPid ∧
        reserveKwinSlot b pid = (true, { b with kwinInflight := addUsage b.kwinInflight slot pid }) := by
  unfold reserveKwinSlot
  cases hfind : findUsageSlot b.kwinInflight pid with
  | none => exact .inl rfl
  | some slot =>
    by_cases hroom : usageCount b.kwinInflight slot < maxKwinInflightPerPid
    · exact .inr ⟨slot, rfl, hroom, by simp [authorityAdmitKwin, hroom]⟩
    · exact .inl (by simp [authorityAdmitKwin, hroom])

theorem reserveCaptureMemory_cases (b : Budgets) (uid pid : ℕ) :
    reserveCaptureMemory b uid pid = (false, b) ∨
      ∃ uidSlot pidSlot, findUsageSlot b.captureUsage uid = some uidSlot ∧
        findUsageSlot b.capturePidUsage pid = some pidSlot ∧
        b.inflightBytes ≤ maxAuthorityInflightBytes - maxCaptureBytes ∧
        usageCount b.captureUsage uidSlot < maxCapturesPerUid ∧
        usageCount b.capturePidUsage pidSlot < maxCapturesPerPid ∧
        reserveCaptureMemory b uid pid = (true, { b with
          inflightBytes := b.inflightBytes + maxCaptureBytes
          captureUsage := addUsage b.captureUsage uidSlot uid
          capturePidUsage := addUsage b.capturePidUsage pidSlot pid }) := by
  unfold reserveCaptureMemory
  cases huid : findUsageSlot b.captureUsage uid with
  | none => exact .inl rfl
  | some uidSlot =>
    cases hpid : findUsageSlot b.capturePidUsage pid with
    | none => exact .inl rfl
    | some pidSlot =>
      by_cases hroom : b.inflightBytes ≤ maxAuthorityInflightBytes - maxCaptureBytes ∧
          usageCount b.captureUsage uidSlot < maxCapturesPerUid ∧
          usageCount b.capturePidUsage pidSlot < maxCapturesPerPid
      · exact .inr ⟨uidSlot, pidSlot, rfl, rfl, hroom.1, hroom.2.1, hroom.2.2, by simp [hroom]⟩
      · refine .inl (if_neg ?_)
        simpa [and_assoc] using hroom

theorem reserveAssemblyMemory_cases (b : Budgets) (uid : ℕ) :
    reserveAssemblyMemory b uid = (false, b) ∨
      ∃ slot, findUsageSlot b.assemblyUsage uid = some slot ∧
        b.assemblyBytes ≤ maxAuthorityAssemblyBytes - maxRequestTotalPayload ∧
        usageCount b.assemblyUsage slot < maxAssembliesPerUid ∧
        reserveAssemblyMemory b uid = (true, { b with
          assemblyBytes := b.assemblyBytes + maxRequestTotalPayload
          assemblyUsage := addUsage b.assemblyUsage slot uid }) := by
  unfold reserveAssemblyMemory
  cases hfind : findUsageSlot b.assemblyUsage uid with
  | none => exact .inl rfl
  | some slot =>
    by_cases hroom : b.assemblyBytes ≤ maxAuthorityAssemblyBytes - maxRequestTotalPayload ∧
        usageCount b.assemblyUsage slot < maxAssembliesPerUid
    · exact .inr ⟨slot, rfl, hroom.1, hroom.2, by simp [hroom]⟩
    · refine .inl (if_neg ?_)
      simpa using hroom

end Inversion

end Budgets

end KeysharpDesktop
