import KeysharpDesktop.Hypr.Stack
import KeysharpDesktop.Lib.Keyed

/-! The table of toplevels as the announcements of the compositor make it: entries that are announced, named, changed
and closed, the sweep between calls, and the order that Hyprland gives. Windows that a view shows never share a
handle. -/
namespace KeysharpDesktop.Wayland

section Entries

/-- Entries may share a handle when one of them is closed, unless both are of the wlroots list. -/
def Toplevel.Apart (a b : Toplevel) : Prop :=
  a.id = b.id → (a.closed = true ∨ b.closed = true) ∧ (a.wlrHandle = false ∨ b.wlrHandle = false)

/-- An entry is of one of the two lists. -/
def Toplevel.Sorted (item : Toplevel) : Prop := item.handle = false ∨ item.wlrHandle = false

structure ToplevelTable where
  items : List Toplevel
  apart : items.Pairwise Toplevel.Apart
  sorted : ∀ item ∈ items, item.Sorted

def ToplevelTable.empty : ToplevelTable := ⟨[], List.Pairwise.nil, fun _ h => (List.not_mem_nil h).elim⟩

variable {a b item : Toplevel}

theorem Toplevel.Apart.symm (h : a.Apart b) : b.Apart a := fun heq => (h heq.symm).imp Or.symm Or.symm

theorem Toplevel.apart_of_ne (h : a.id ≠ b.id) : a.Apart b := fun heq => absurd heq h

/-- Closing an entry, or changing what is said of it, keeps it apart from the others. -/
theorem Toplevel.Apart.changed (h : a.Apart b) (hid : item.id = a.id) (hclosed : a.closed = true → item.closed = true)
    (hwlr : item.wlrHandle = a.wlrHandle) : item.Apart b := by
  intro heq
  obtain ⟨hend, hlist⟩ := h (hid.symm.trans heq)
  rw [hwlr]
  exact ⟨hend.imp_left hclosed, hlist⟩

theorem Toplevel.Sorted.changed (h : a.Sorted) (hhandle : item.handle = a.handle)
    (hwlr : item.wlrHandle = a.wlrHandle) : item.Sorted := by
  unfold Toplevel.Sorted
  rw [hhandle, hwlr]
  exact h

theorem Toplevel.Sorted.wlrHandle (h : a.Sorted) (hlisted : a.handle = true) : a.wlrHandle = false := by
  rcases h with hhandle | hwlr
  · rw [hlisted] at hhandle
    cases hhandle
  · exact hwlr

/-- A view never shows both of two entries that share a handle. -/
theorem Toplevel.Apart.usable {view : View} (h : a.Apart b) (ha : view.usable a = true) (hb : view.usable b = true) :
    a.id ≠ b.id := by
  intro heq
  obtain ⟨hend, hlist⟩ := h heq
  cases view with
  | wlr =>
    simp only [View.usable, Bool.and_eq_true] at ha hb
    rw [ha.1, hb.1] at hlist
    simp at hlist
  | generic | cosmic | hypr =>
    simp only [View.usable, Bool.and_eq_true, Bool.not_eq_true'] at ha hb
    simp_all

/-- The windows of a view have handles of their own. -/
theorem ToplevelTable.usable_distinct (table : ToplevelTable) (view : View) :
    Keyed.Distinct Toplevel.id (table.items.filter view.usable) := by
  unfold Keyed.Distinct List.Nodup
  rw [List.pairwise_map, List.pairwise_filter]
  exact table.apart.imp fun h ha hb => h.usable ha hb

end Entries

section Updates

variable {a b : Hypr.Entry}

theorem update_same (clients : List Hypr.Client) (entry : Hypr.Entry) :
    (entry.update clients).toplevel.id = entry.toplevel.id ∧
      (entry.update clients).toplevel.closed = entry.toplevel.closed ∧
      (entry.update clients).toplevel.handle = entry.toplevel.handle ∧
      (entry.update clients).toplevel.wlrHandle = entry.toplevel.wlrHandle := by
  unfold Hypr.Entry.update
  dsimp only
  cases entry.toplevel.identifier with
  | none => exact ⟨rfl, rfl, rfl, rfl⟩
  | some identifier =>
    dsimp only
    split_ifs
    · exact ⟨rfl, rfl, rfl, rfl⟩
    · cases clients.find? fun client => client.stableId == identifier.bytes with
      | none => exact ⟨rfl, rfl, rfl, rfl⟩
      | some client => exact ⟨rfl, rfl, rfl, rfl⟩

theorem update_apart (clients : List Hypr.Client) (h : a.toplevel.Apart b.toplevel) :
    (a.update clients).toplevel.Apart (b.update clients).toplevel := by
  obtain ⟨hida, hcloseda, -, hwlra⟩ := update_same clients a
  obtain ⟨hidb, hclosedb, -, hwlrb⟩ := update_same clients b
  have hone : (a.update clients).toplevel.Apart b.toplevel := h.changed hida hcloseda.trans hwlra
  exact (hone.symm.changed hidb hclosedb.trans hwlrb).symm

end Updates

section Handles

def maxToplevels : ℕ := 4096
def wlrMaxToplevels : ℕ := 4096
def handleAttempts : ℕ := 16
def int64Max : BitVec 64 := 0x7fffffffffffffff

/-- `ksd_wayland_new_handle`, with what each call of `getrandom` brings, if it succeeds. Zero is no handle. -/
def newHandle (items : List Toplevel) : List (Option (BitVec 64)) → BitVec 64
  | [] => 0
  | none :: _ => 0
  | some value :: draws =>
    let value := value &&& int64Max
    if value = 0 ∨ items.any (fun item => item.id == value) then newHandle items draws else value

/-- `ksd_wayland_handle_for_identifier`, with the first eight bytes of the salted checksum of the identifier; there are
none where the compositor could not be told apart from another. -/
def handleForIdentifier (items : List Toplevel) (digest : Option (BitVec 64)) : BitVec 64 :=
  match digest with
  | none => 0
  | some value =>
    let value := value &&& int64Max
    if items.any (fun item => item.id == value && !item.closed) then 0 else value

variable {items : List Toplevel} {draws : List (Option (BitVec 64))} {digest : Option (BitVec 64)}

theorem newHandle_fresh (h : newHandle items draws ≠ 0) : ∀ item ∈ items, item.id ≠ newHandle items draws := by
  induction draws with
  | nil => exact absurd rfl h
  | cons draw draws ih =>
    cases draw with
    | none => exact absurd rfl h
    | some value =>
      unfold newHandle at h ⊢
      dsimp only at h ⊢
      split_ifs at h ⊢ with htaken
      · exact ih h
      · intro item hitem heq
        refine htaken (Or.inr (List.any_eq_true.mpr ⟨item, hitem, ?_⟩))
        rw [heq]
        exact beq_self_eq_true _

/-- The handle of an identifier is that of no other entry, unless that one is closed. -/
theorem handleForIdentifier_fresh (h : handleForIdentifier items digest ≠ 0) :
    ∀ item ∈ items, item.id = handleForIdentifier items digest → item.closed = true := by
  intro item hitem heq
  cases digest with
  | none => exact absurd rfl h
  | some value =>
    unfold handleForIdentifier at h heq
    dsimp only at h heq
    split_ifs at h heq with htaken
    · exact absurd rfl h
    · by_contra hopen
      refine htaken (List.any_eq_true.mpr ⟨item, hitem, ?_⟩)
      rw [heq, beq_self_eq_true, Bool.true_and, Bool.not_eq_true']
      exact Bool.eq_false_iff.mpr hopen

end Handles

section Announcements

/-- An entry as it is made. -/
def toplevelInit (id : BitVec 64) (named : id ≠ 0) : Toplevel :=
  { id, named, handle := false, wlrHandle := false, cosmicHandle := false, closed := false, ready := false
    title := none, appId := none, identifier := none, state := 0, geometries := [], hyprKnown := false
    hypr := ⟨0, ⟨0, 0, 0, 0⟩, false, false, false, false, false, 0, []⟩, hyprOpacity := 0 }

namespace ToplevelTable

variable (table : ToplevelTable)

/-- An entry goes behind those that are there. -/
def append (item : Toplevel) (hfresh : ∀ other ∈ table.items, other.id ≠ item.id) (hsorted : item.Sorted) :
    ToplevelTable where
  items := table.items ++ [item]
  apart := by
    rw [List.pairwise_append]
    refine ⟨table.apart, List.pairwise_singleton _ _, ?_⟩
    intro other hother new hnew
    rw [List.mem_singleton.mp hnew]
    exact Toplevel.apart_of_ne (hfresh other hother)
  sorted := by
    intro other hother
    obtain hold | hnew := List.mem_append.mp hother
    · exact table.sorted other hold
    · rw [List.mem_singleton.mp hnew]
      exact hsorted

/-- `list_toplevel`. An entry has a COSMIC handle too where the compositor gives one. -/
def listToplevel (draws : List (Option (BitVec 64))) (cosmicHandle : Bool) : ToplevelTable :=
  if maxToplevels ≤ table.items.length then table
  else if h : newHandle table.items (draws.take handleAttempts) = 0 then table
  else table.append { toplevelInit _ h with handle := true, cosmicHandle } (newHandle_fresh h) (Or.inr rfl)

/-- `manager_toplevel`. -/
def managerToplevel (draws : List (Option (BitVec 64))) : ToplevelTable :=
  if wlrMaxToplevels ≤ table.items.length then table
  else if h : newHandle table.items (draws.take handleAttempts) = 0 then table
  else table.append { toplevelInit _ h with wlrHandle := true } (newHandle_fresh h) (Or.inl rfl)

/-- An entry is put in the place of another. -/
def set (i : Fin table.items.length) (item : Toplevel)
    (hapart : ∀ j : Fin table.items.length, j ≠ i → item.Apart table.items[j]) (hsorted : item.Sorted) :
    ToplevelTable where
  items := table.items.set i item
  apart := by
    have hold := List.pairwise_iff_getElem.mp table.apart
    rw [List.pairwise_iff_getElem]
    intro j k hj hk hlt
    rw [List.length_set] at hj hk
    rw [List.getElem_set, List.getElem_set]
    split_ifs with hij hik hik
    · omega
    · exact hapart ⟨k, hk⟩ fun heq => hik (congrArg Fin.val heq).symm
    · exact (hapart ⟨j, hj⟩ fun heq => hij (congrArg Fin.val heq).symm).symm
    · exact hold j k hj hk hlt
  sorted := by
    intro other hother
    obtain hold | rfl := List.mem_or_eq_of_mem_set hother
    · exact table.sorted other hold
    · exact hsorted

theorem apart_getElem {i j : Fin table.items.length} (h : j ≠ i) : table.items[i].Apart table.items[j] := by
  have hold := List.pairwise_iff_getElem.mp table.apart
  rcases lt_or_gt_of_ne h with hlt | hlt
  · exact (hold j i j.isLt i.isLt hlt).symm
  · exact hold i j i.isLt j.isLt hlt

/-- An event that leaves an entry its handle and its list, as those of its texts and of its state do. -/
def changed (i : Fin table.items.length) (item : Toplevel) (hid : item.id = table.items[i].id)
    (hclosed : table.items[i].closed = true → item.closed = true) (hhandle : item.handle = table.items[i].handle)
    (hwlr : item.wlrHandle = table.items[i].wlrHandle) : ToplevelTable :=
  table.set i item (fun _ h => (table.apart_getElem h).changed hid hclosed hwlr)
    ((table.sorted _ (List.getElem_mem _)).changed hhandle hwlr)

def toplevelClosed (i : Fin table.items.length) : ToplevelTable :=
  table.changed i { table.items[i] with closed := true } rfl (fun _ => rfl) rfl rfl

/-- `toplevel_identifier`, which only an entry of the first list hears. -/
def toplevelIdentifier (i : Fin table.items.length) (hlisted : table.items[i].handle = true) (identifier : ClientText)
    (digest : Option (BitVec 64)) : ToplevelTable :=
  let derived := handleForIdentifier table.items digest
  if h : derived = 0 then
    table.changed i { table.items[i] with identifier := some identifier } rfl id rfl rfl
  else
    have hwlr : table.items[i].wlrHandle = false := (table.sorted _ (List.getElem_mem i.isLt)).wlrHandle hlisted
    table.set i { table.items[i] with identifier := some identifier, id := derived, named := h }
      (fun j _ heq => ⟨Or.inr (handleForIdentifier_fresh h _ (List.getElem_mem j.isLt) heq.symm), Or.inl hwlr⟩)
      (Or.inr hwlr)

/-- `sweep_closed`. -/
def sweepClosed : ToplevelTable where
  items := Wayland.sweepClosed table.items
  apart := table.apart.filter _
  sorted := fun item hitem => table.sorted item (List.mem_of_mem_filter hitem)

/-- `ksd_wayland_hypr_windows_update`, of the entries with all that Hyprland says of them. -/
def hyprWindowsUpdate (entries : List Hypr.Entry) (hentries : entries.map Hypr.Entry.toplevel = table.items)
    (clients : List Hypr.Client) : ToplevelTable where
  items := (Hypr.windowsUpdate clients entries).map Hypr.Entry.toplevel
  apart := by
    have hold : entries.Pairwise fun a b => a.toplevel.Apart b.toplevel := by
      rw [← List.pairwise_map, hentries]
      exact table.apart
    have hperm := (Hypr.sortByStack_perm (entries.map (Hypr.Entry.update clients))).map Hypr.Entry.toplevel
    refine (hperm.pairwise_iff Toplevel.Apart.symm).mpr ?_
    rw [List.pairwise_map, List.pairwise_map]
    exact hold.imp fun h => update_apart clients h
  sorted := by
    intro item hitem
    obtain ⟨sorted, hsorted, rfl⟩ := List.mem_map.mp hitem
    obtain ⟨entry, hentry, rfl⟩ := List.mem_map.mp ((Hypr.sortByStack_perm _).mem_iff.mp hsorted)
    obtain ⟨-, -, hhandle, hwlr⟩ := update_same clients entry
    have hold : entry.toplevel ∈ table.items := by
      rw [← hentries]
      exact List.mem_map_of_mem hentry
    exact (table.sorted _ hold).changed hhandle hwlr

end ToplevelTable

end Announcements

end KeysharpDesktop.Wayland
