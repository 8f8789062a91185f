import KeysharpDesktop.Display.Readable
import KeysharpDesktop.Hypr.Reader
import KeysharpDesktop.Lib.StableSort

/-! The order in which Hyprland stacks its windows, as the table is sorted by it, and the window that lies on top at a
point. -/
namespace KeysharpDesktop.Hypr

open Wayland

section Table

/-- An entry of the table with all that Hyprland says of it. -/
structure Entry where
  toplevel : Toplevel
  client : Client
  workspaceFullscreen : Bool
  described : toplevel.hypr = client.toHyprClient
  deriving DecidableEq

namespace Entry

def known (item : Entry) : Bool := item.toplevel.hyprKnown

def shown (item : Entry) : Bool := Wayland.shown item.toplevel

def usable (item : Entry) : Bool := View.hypr.usable item.toplevel

end Entry

end Table

section Order

def specialWorkspace : Bytes := ascii "special:"

def workspaceLayer (item : Entry) : ℕ := if item.client.workspaceName.take 8 == specialWorkspace then 8 else 0

/-- The pass of the renderer that an entry is drawn in. -/
def stackLayer (item : Entry) : ℕ :=
  if item.client.pinned && item.client.floating then 16
  else if item.client.fullscreen != 0 then workspaceLayer item + 4
  else if item.client.floating then
    workspaceLayer item + if item.workspaceFullscreen && item.client.overFullscreen then 6 else 2
  else workspaceLayer item + if item.client.active then 1 else 0

def stackCompare (a b : Entry) : ℤ :=
  if a.known != b.known then if a.known then 1 else -1
  else if !a.known then 0
  else if a.shown != b.shown then if a.shown then 1 else -1
  else if stackLayer a != stackLayer b then if stackLayer b < stackLayer a then 1 else -1
  else (if b.client.stackingOrder < a.client.stackingOrder then 1 else 0) -
    (if a.client.stackingOrder < b.client.stackingOrder then 1 else 0)

def NotAbove (a b : Entry) : Prop := stackCompare a b ≤ 0

instance : DecidableRel NotAbove := fun a b => inferInstanceAs (Decidable (stackCompare a b ≤ 0))

def sortByStack (table : List Entry) : List Entry := StableSort.sort NotAbove table

/-- The place of an entry in the order, as one number. -/
def stackRank (item : Entry) : ℤ :=
  if item.known then
    1 + ((if item.shown then 32 else 0) + stackLayer item) * 2 ^ 32 + item.client.stackingOrder.toNat
  else 0

variable {a b c : Entry}

theorem stackLayer_le (item : Entry) : stackLayer item ≤ 16 := by
  unfold stackLayer workspaceLayer
  split_ifs <;> omega

theorem sign_eq (d : ℤ) : d.sign = if 0 < d then 1 else if d < 0 then -1 else 0 := by
  split_ifs with hpos hneg
  · exact Int.sign_eq_one_of_pos hpos
  · exact Int.sign_eq_neg_one_of_neg hneg
  · rw [show d = 0 by omega, Int.sign_zero]

/-- The comparison goes by the ranks: each attribute only decides where those before it agree. -/
theorem stackCompare_eq (a b : Entry) : stackCompare a b = (stackRank a - stackRank b).sign := by
  have ha := stackLayer_le a
  have hb := stackLayer_le b
  have hatop := a.client.stackingOrder.isLt
  have hbtop := b.client.stackingOrder.isLt
  rw [sign_eq]
  unfold stackCompare stackRank
  simp only [BitVec.lt_def, bne_iff_ne, ne_eq]
  generalize stackLayer a = la at *
  generalize stackLayer b = lb at *
  generalize a.client.stackingOrder.toNat = oa at *
  generalize b.client.stackingOrder.toNat = ob at *
  cases a.known <;> cases b.known <;> cases a.shown <;> cases b.shown <;>
    simp only [Bool.not_true, Bool.not_false, if_true, if_false, Bool.false_eq_true, not_true, not_false_eq_true,
      Bool.true_eq_false]
  all_goals split_ifs
  all_goals omega

theorem notAbove_iff : NotAbove a b ↔ stackRank a ≤ stackRank b := by
  rw [NotAbove, stackCompare_eq, sign_eq]
  split_ifs <;> omega

theorem stackCompare_swap (a b : Entry) : stackCompare b a = -stackCompare a b := by
  rw [stackCompare_eq, stackCompare_eq, ← Int.sign_neg, neg_sub]

theorem stackCompare_eq_zero : stackCompare a b = 0 ↔ stackRank a = stackRank b := by
  rw [stackCompare_eq, Int.sign_eq_zero_iff_zero]
  omega

instance : Std.Total NotAbove where
  total a b := by
    simp only [notAbove_iff]
    omega

instance : IsTrans Entry NotAbove where
  trans a b c hab hbc := by
    rw [notAbove_iff] at hab hbc ⊢
    omega

theorem sortByStack_perm (table : List Entry) : (sortByStack table).Perm table := StableSort.sort_perm NotAbove table

theorem sortByStack_pairwise (table : List Entry) : (sortByStack table).Pairwise NotAbove :=
  StableSort.sort_pairwise table

theorem sortByStack_filter (table : List Entry) (item : Entry) :
    (sortByStack table).filter (fun other => stackCompare item other = 0) =
      table.filter fun other => stackCompare item other = 0 := by
  apply StableSort.sort_filter
  intro x y hx hy
  simp only [decide_eq_true_eq, stackCompare_eq_zero] at hx hy
  rw [notAbove_iff]
  omega

end Order

section Update

/-- Some window of the workspace is on its whole screen. -/
def workspaceCovered (clients : List Client) (workspaceId : BitVec 64) : Bool :=
  clients.any fun other =>
    other.workspaceId == workspaceId && other.mapped && !other.hidden && other.fullscreen != 0

/-- What a fresh list of clients says of an entry. -/
def Entry.update (clients : List Client) (item : Entry) : Entry :=
  let cleared : Entry :=
    { item with toplevel := { item.toplevel with hyprKnown := false }, workspaceFullscreen := false }
  match item.toplevel.identifier with
  | none => cleared
  | some identifier =>
    if !item.toplevel.handle then cleared
    else
      match clients.find? fun client => client.stableId == identifier.bytes with
      | none => cleared
      | some client =>
        { toplevel := { item.toplevel with hyprKnown := true, hypr := client.toHyprClient }
          client := client
          workspaceFullscreen := workspaceCovered clients client.workspaceId
          described := rfl }

def windowsUpdate (clients : List Client) (table : List Entry) : List Entry :=
  sortByStack (table.map (Entry.update clients))

def hyprWindowsRefresh (clients : Option (List Client)) (table : List Entry) :
    Except OperationResult (List Entry) :=
  match clients with
  | none => .error (resultError Status.unavailable 0 (ascii "Hyprland did not answer the window query"))
  | some clients => .ok (windowsUpdate clients table)

/-- The refresh of the window list, with the table after its round trip and the clients that Hyprland lists. -/
def windowsRefresh (roundtrip : Option (List Entry)) (clients : Option (List Client)) :
    Except OperationResult (List Entry) :=
  match roundtrip with
  | none => .error (resultError Status.timeout 0 (ascii "the compositor did not answer"))
  | some table => hyprWindowsRefresh clients (table.filter fun item => !item.toplevel.closed)

variable {roundtrip : Option (List Entry)} {clients : Option (List Client)} {table : List Entry}

/-- The refresh is the one that every view goes through. -/
theorem windowsRefresh_toplevels (settled : Option (List Toplevel))
    {hypr : List Toplevel → Except OperationResult (List Toplevel)}
    (hhypr : ∀ swept, hypr (swept.map Entry.toplevel) =
      (hyprWindowsRefresh clients swept).map (List.map Entry.toplevel)) :
    Wayland.windowsRefresh ⟨roundtrip.map (List.map Entry.toplevel), settled, hypr⟩ (some .hypr) =
      (windowsRefresh roundtrip clients).map (List.map Entry.toplevel) := by
  cases roundtrip with
  | none => rfl
  | some table =>
    have hswept : sweepClosed (table.map Entry.toplevel) =
        (table.filter fun item => !item.toplevel.closed).map Entry.toplevel := by
      rw [sweepClosed, List.filter_map]
      rfl
    have hclosed : Wayland.windowsRefresh ⟨some (table.map Entry.toplevel), settled, hypr⟩ (some .hypr) =
        hypr (sweepClosed (table.map Entry.toplevel)) := rfl
    rw [Option.map_some, hclosed, hswept, hhypr]
    rfl

theorem windowsRefresh_ok (h : windowsRefresh roundtrip clients = .ok table) :
    ∃ before listed, roundtrip = some before ∧ clients = some listed ∧
      table = windowsUpdate listed (before.filter fun item => !item.toplevel.closed) := by
  cases roundtrip with
  | none => cases h
  | some before =>
    cases clients with
    | none => cases h
    | some listed => exact ⟨before, listed, rfl, rfl, (Except.ok.inj h).symm⟩

end Update

section AtPoint

def wide (v : BitVec 32) : BitVec 64 := v.signExtend 64

/-- The test of the hit loop, in the 64-bit arithmetic of the source. -/
def Entry.contains (x y : BitVec 32) (item : Entry) : Bool :=
  let client := item.client
  (wide client.frame.x).sle (wide x) && (wide client.frame.y).sle (wide y) &&
    (wide x).slt (wide client.frame.x + wide client.frame.width) &&
    (wide y).slt (wide client.frame.y + wide client.frame.height)

def Entry.hit (x y : BitVec 32) (item : Entry) : Bool := item.usable && item.shown && item.contains x y

/-- The entry that the loop over the sorted table ends with. -/
def found (x y : BitVec 32) (table : List Entry) : Option Entry := StableSort.lastHit (Entry.hit x y) table

/-- An entry with the opacity that the batched request read of it. -/
def Entry.withOpacity (opacity : Toplevel → BitVec 32) (item : Entry) : Toplevel :=
  { item.toplevel with hyprOpacity := opacity item.toplevel }

def windowAtPoint (outputs : List Output) (opacity : Toplevel → BitVec 32)
    (refreshed : Except OperationResult (List Entry)) (x y : BitVec 32) : OperationResult :=
  match refreshed with
  | .error result => result
  | .ok table =>
    textAnswer (windowOf .hypr outputs ((found x y table).map (Entry.withOpacity opacity)))
      "the window result is too large"

variable {x y : BitVec 32} {item : Entry} {table : List Entry}

theorem toInt_wide (v : BitVec 32) : (wide v).toInt = v.toInt := BitVec.toInt_signExtend_of_le (by decide)

theorem wide_add_fits (v w : BitVec 32) : (wide v).saddOverflow (wide w) = false := by
  have hvlow := BitVec.le_toInt v
  have hvhigh := BitVec.toInt_lt (x := v)
  have hwlow := BitVec.le_toInt w
  have hwhigh := BitVec.toInt_lt (x := w)
  simp only [BitVec.saddOverflow, toInt_wide, Bool.or_eq_false_iff, decide_eq_false_iff_not]
  omega

theorem toInt_wide_add (v w : BitVec 32) : (wide v + wide w).toInt = v.toInt + w.toInt := by
  have hfits : ¬(wide v).saddOverflow (wide w) = true := by
    rw [wide_add_fits]
    decide
  rw [BitVec.toInt_add_of_not_saddOverflow hfits, toInt_wide, toInt_wide]

/-- The test is the one of whole numbers. -/
theorem contains_eq (x y : BitVec 32) (item : Entry) :
    item.contains x y = Rect.holds item.client.frame x.toInt y.toInt := by
  simp only [Entry.contains, Rect.holds, BitVec.sle, BitVec.slt, toInt_wide, toInt_wide_add]

/-- A window that can be shown at a point. -/
def Entry.At (x y : BitVec 32) (item : Entry) : Prop :=
  item.usable ∧ item.shown ∧ Rect.holds item.client.frame x.toInt y.toInt

theorem hit_iff : item.hit x y ↔ item.At x y := by
  rw [Entry.hit, contains_eq, Entry.At, Bool.and_eq_true, Bool.and_eq_true, and_assoc]

theorem found_eq_none : found x y table = none ↔ ∀ item ∈ table, ¬item.At x y := by
  rw [found, StableSort.lastHit_eq_none]
  simp only [hit_iff]

theorem found_some (h : found x y table = some item) : item ∈ table ∧ item.At x y := by
  obtain ⟨hmem, hhit⟩ := StableSort.lastHit_some h
  exact ⟨hmem, hit_iff.mp hhit⟩

theorem found_top (htable : table.Pairwise NotAbove) (h : found x y table = some item) :
    ∀ other ∈ table, other.At x y → NotAbove other item := by
  intro other hother hat
  exact StableSort.lastHit_top htable h other hother (hit_iff.mpr hat)

/-- The answer is the one that the table of the opacities just read gives. -/
theorem windowAtPoint_eq (outputs : List Output) (opacity : Toplevel → BitVec 32) (table : List Entry) :
    windowAtPoint outputs opacity (.ok table) x y =
      hyprWindowAtPoint outputs (table.map (Entry.withOpacity opacity)) x.toInt y.toInt := by
  have htest : Entry.hit x y = (fun item : Toplevel =>
      View.hypr.usable item && Wayland.shown item && Rect.holds item.hypr.frame x.toInt y.toInt) ∘
        Entry.withOpacity opacity := by
    funext item
    have hframe : item.client.frame = item.toplevel.hypr.frame := by rw [item.described]
    rw [Entry.hit, contains_eq, hframe]
    rfl
  simp only [windowAtPoint, hyprWindowAtPoint, found, StableSort.lastHit_eq_find, htest, ← List.map_reverse,
    List.find?_map]

theorem windowAtPoint_answer (outputs : List Output) (opacity : Toplevel → BitVec 32) (table : List Entry) :
    windowAtPoint outputs opacity (.ok table) x y =
      let text := windowOfText .hypr outputs ((found x y table).map (Entry.withOpacity opacity))
      if text.length ≤ maxTextBytes then resultTake (encodeU32 (BitVec.ofNat 32 text.length) ++ text)
      else resultError Status.resourceExhausted 0 (ascii "the window result is too large") :=
  textAnswer_eq (windowOf_writes .hypr outputs _) _

/-- The comparison is a total preorder, the table is sorted by it stably, and the window that the answer tells of lies
on top of every window at the point. -/
theorem windowAtPoint_topmost (outputs : List Output) (opacity : Toplevel → BitVec 32) (x y : BitVec 32) :
    (∀ a b c, (NotAbove a b ∨ NotAbove b a) ∧ stackCompare b a = -stackCompare a b ∧
      (NotAbove a b → NotAbove b c → NotAbove a c)) ∧
    (∀ table, (sortByStack table).Perm table ∧ (sortByStack table).Pairwise NotAbove ∧
      ∀ item, (sortByStack table).filter (fun other => stackCompare item other = 0) =
        table.filter fun other => stackCompare item other = 0) ∧
    (∀ v w, (wide v).saddOverflow (wide w) = false) ∧
    ∀ roundtrip clients, match windowsRefresh roundtrip clients with
      | .error result => windowAtPoint outputs opacity (windowsRefresh roundtrip clients) x y = result
      | .ok table => ∃ top : Option Entry,
          windowAtPoint outputs opacity (windowsRefresh roundtrip clients) x y =
            (let text := windowOfText .hypr outputs (top.map (Entry.withOpacity opacity))
             if text.length ≤ maxTextBytes then resultTake (encodeU32 (BitVec.ofNat 32 text.length) ++ text)
             else resultError Status.resourceExhausted 0 (ascii "the window result is too large")) ∧
          (top = none ↔ ∀ item ∈ table, ¬item.At x y) ∧
          ∀ item ∈ top, item ∈ table ∧ item.At x y ∧
            ∀ other ∈ table, other.At x y → ¬0 < stackCompare other item := by
  constructor
  · intro a b c
    exact ⟨Std.Total.total a b, stackCompare_swap a b, IsTrans.trans a b c⟩
  constructor
  · exact fun table => ⟨sortByStack_perm table, sortByStack_pairwise table, sortByStack_filter table⟩
  constructor
  · exact wide_add_fits
  · intro roundtrip clients
    cases hrefresh : windowsRefresh roundtrip clients with
    | error result => rfl
    | ok table =>
      obtain ⟨before, listed, -, -, htable⟩ := windowsRefresh_ok hrefresh
      have hsorted : table.Pairwise NotAbove := htable ▸ sortByStack_pairwise _
      refine ⟨found x y table, windowAtPoint_answer outputs opacity table, found_eq_none, ?_⟩
      intro item hitem
      obtain ⟨hmem, hat⟩ := found_some hitem
      refine ⟨hmem, hat, ?_⟩
      intro other hother hotherAt
      exact not_lt.mpr (found_top hsorted hitem other hother hotherAt)

end AtPoint

end KeysharpDesktop.Hypr
