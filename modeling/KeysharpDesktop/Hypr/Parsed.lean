import KeysharpDesktop.Hypr.Values
import Mathlib.Data.Fintype.Basic

/-! The client that a value describes, read off from what its members say under their names, and that the reader
finds in a list of values exactly these clients. -/
namespace KeysharpDesktop.Hypr

open JsonTree

section Described

variable {n : ℕ}

/-- The names that the reader knows in a client. -/
inductive Name where
  | address
  | stableId
  | mapped
  | hidden
  | visible
  | floating
  | pinned
  | overFullscreen
  | place
  | size
  | workspace
  | pid
  | fullscreen
  deriving DecidableEq

namespace Name

def all : List Name :=
  [address, stableId, mapped, hidden, visible, floating, pinned, overFullscreen, place, size, workspace, pid,
    fullscreen]

theorem mem_all (name : Name) : name ∈ all := by cases name <;> decide

instance : Fintype Name := ⟨⟨all, by decide⟩, mem_all⟩

def text : Name → Bytes
  | address => ascii "address"
  | stableId => ascii "stableId"
  | mapped => ascii "mapped"
  | hidden => ascii "hidden"
  | visible => ascii "visible"
  | floating => ascii "floating"
  | pinned => ascii "pinned"
  | overFullscreen => ascii "overFullscreen"
  | place => ascii "at"
  | size => ascii "size"
  | workspace => ascii "workspace"
  | pid => ascii "pid"
  | fullscreen => ascii "fullscreen"

end Name

def Content : Name → Type
  | .address | .stableId => Bytes
  | .mapped | .hidden | .visible | .floating | .pinned | .overFullscreen => Bool
  | .place | .size => BitVec 32 × BitVec 32
  | .workspace => BitVec 64 × Bytes
  | .pid => BitVec 64
  | .fullscreen => BitVec 32

abbrev Fields : Type := ∀ name, Content name

def initialFields : Fields
  | .address | .stableId => ([] : Bytes)
  | .mapped | .visible => true
  | .hidden | .floating | .pinned | .overFullscreen => false
  | .place | .size => ((0, 0) : BitVec 32 × BitVec 32)
  | .workspace => ((0, []) : BitVec 64 × Bytes)
  | .pid => (0 : BitVec 64)
  | .fullscreen => (0 : BitVec 32)

def clientWith (fields : Fields) : Client where
  pid := fields .pid
  frame := ⟨(fields .place).1, (fields .place).2, (fields .size).1, (fields .size).2⟩
  mapped := fields .mapped
  hidden := fields .hidden
  visible := fields .visible
  floating := fields .floating
  active := false
  fullscreen := fields .fullscreen
  workspaceName := (fields .workspace).2
  stableId := fields .stableId
  address := fields .address
  workspaceId := (fields .workspace).1
  stackingOrder := 0
  pinned := fields .pinned
  overFullscreen := fields .overFullscreen

/-- A workspace's name that does not fit counts as none. -/
def workspaceName? (t : Value n) : Option Bytes :=
  (string? t).map fun name => if name.length < workspaceCapacity then name else []

def word64? (t : Value n) : Option (BitVec 64) := (integer? t).map (BitVec.ofInt 64)

/-- The number and the name of a workspace, as an object changes them. -/
def workspaceOf (start : BitVec 64 × Bytes) (t : Value n) : Option (BitVec 64 × Bytes) := do
  let members ← t.node.members?
  let id ← foldUnder (ascii "id") (fun _ => word64?) start.1 members
  let name ← foldUnder (ascii "name") (fun _ => workspaceName?) start.2 members
  some (id, name)

/-- What a value says of a field. But for a workspace it does not matter what was said before. -/
def fieldOf (identifier : Value n → Option Bytes) : (name : Name) → Content name → Value n → Option (Content name)
  | .address, _, t | .stableId, _, t => identifier t
  | .mapped, _, t | .hidden, _, t | .visible, _, t => t.node.flag?
  | .floating, _, t | .pinned, _, t | .overFullscreen, _, t => t.node.flag?
  | .place, _, t | .size, _, t => pair? t
  | .workspace, start, t => workspaceOf start t
  | .pid, _, t => word64? t
  | .fullscreen, _, t => fullscreen? t

/-- The fields of a client, all under each name being of its kind. -/
def fieldsOf (identifier : Value n → Option Bytes) (members : List (Member (Value n))) : Option Fields :=
  collect fun name => foldUnder name.text (fieldOf identifier name) (initialFields name) members

/-- No identifier is too long for its buffer. -/
def identifiersFit (members : List (Member (Value n))) : Bool :=
  (valuesOf Name.address.text members ++ valuesOf Name.stableId.text members).all fun t =>
    (string? t).all fun value => value.length < idCapacity

/-- The client that a value describes, if it describes one that can be addressed. -/
def clientOf (t : Value n) : Option Client := do
  let members ← t.node.members?
  let fields ← fieldsOf string? members
  let client := clientWith fields
  if identifiersFit members && client.stableId != [] && addressValid client.address then some client else none

end Described

section Workspaces

variable {n : ℕ}

def workspaceStep (client : Client) (member : Member (Value n)) : Option Client :=
  if member.key.text = ascii "id" then
    (word64? member.item.value).map fun id => { client with workspaceId := id }
  else if member.key.text = ascii "name" then
    (workspaceName? member.item.value).map fun name => { client with workspaceName := name }
  else some client

/-- A text that fits is copied as it is. -/
theorem copied_fits {t : Value n} {value : Bytes} (h : string? t = some value) {capacity : ℕ}
    (hfits : value.length < capacity) : copied capacity value = value := by
  obtain ⟨s, -, rfl⟩ := Option.map_eq_some_iff.mp h
  rw [copied_plainText]
  apply List.take_of_length_le
  omega

theorem workspaceMember_step (hdepth : n ≤ jsonDepth) (client : Client) (member : Member (Value n)) {rest : Bytes}
    (hrest : Ended rest) :
    workspaceMember client (memberText member rest) = (workspaceStep client member).map (·, rest) := by
  have hid := copied_eq_iff (ascii "id") 16 (by decide) (by decide) member.key
  have hname := copied_eq_iff (ascii "name") 16 (by decide) (by decide) member.key
  unfold workspaceMember workspaceStep
  rw [jsonKey_memberText]
  simp only [Option.bind_eq_bind, Option.bind_some, hid, hname, jsonInteger_space, jsonString_space, jsonSkip_space,
    jsonInteger_value _ hrest, jsonString_value, jsonSkip_value _ hdepth hrest]
  split_ifs with h1 h2
  · unfold word64?
    cases integer? member.item.value <;> rfl
  · unfold workspaceName?
    cases hvalue : string? member.item.value with
    | none => rfl
    | some value =>
      by_cases hfits : value.length < workspaceCapacity
      · simp [truncated, hfits, Nat.not_le.mpr hfits, copied_fits hvalue hfits]
      · simp [truncated, hfits, Nat.not_lt.mp hfits]
  · rfl

theorem foldlM_workspaceStep (members : List (Member (Value n))) (client : Client) :
    members.foldlM workspaceStep client =
      (foldUnder (ascii "id") (fun _ => word64?) client.workspaceId members).bind fun id =>
        (foldUnder (ascii "name") (fun _ => workspaceName?) client.workspaceName members).map fun name =>
          { client with workspaceId := id, workspaceName := name } := by
  induction members generalizing client with
  | nil => rfl
  | cons member members ih =>
    rw [List.foldlM_cons]
    simp only [foldUnder_cons, workspaceStep]
    split_ifs with h1 h2 h3
    · exact absurd (h1.symm.trans h2) (by decide)
    · cases word64? member.item.value <;> simp [ih]
    · cases workspaceName? member.item.value <;> simp [ih]
    · simp [ih]

/-- What an object under "workspace" makes of a client. -/
theorem jsonWorkspace_value (t : Value n) (hdepth : n - 1 ≤ jsonDepth) (client : Client) (rest : Bytes) :
    jsonWorkspace client (t.text ++ rest) =
      (workspaceOf (client.workspaceId, client.workspaceName) t).map fun w =>
        ({ client with workspaceId := w.1, workspaceName := w.2 }, rest) := by
  obtain ⟨b, more, htext, hb⟩ := value_head t
  unfold jsonWorkspace workspaceOf
  cases hmembers : t.node.members? with
  | none =>
    rw [htext, List.cons_append, jsonTake_cons _ hb.space, if_neg (hb.object hmembers)]
    rfl
  | some members =>
    obtain ⟨empty, hobject⟩ := text_of_members t hmembers
    have hopen : isSpace 123 = false := by decide
    rw [hobject, List.cons_append, List.append_assoc, List.singleton_append, jsonTake_cons _ hopen, if_pos rfl]
    simp only [Option.bind_eq_bind, Option.bind_some]
    rw [jsonTake_members]
    by_cases hnone : members = []
    · rw [if_pos hnone, hnone]
      rfl
    · rw [if_neg hnone]
      dsimp only
      have hloop := jsonLoop_members id empty rest hnone
        (fun member _ client rest hrest => workspaceMember_step hdepth client member hrest) client
      rw [id_eq] at hloop
      rw [hloop, foldlM_workspaceStep]
      cases foldUnder (ascii "id") (fun _ => word64?) client.workspaceId members with
      | none => rfl
      | some id => cases foldUnder (ascii "name") (fun _ => workspaceName?) client.workspaceName members <;> rfl

end Workspaces

section Members

variable {n : ℕ}

def identifier? (t : Value n) : Option Bytes := (string? t).map (copied idCapacity)

theorem Name.text_injective : Function.Injective Name.text := by decide

theorem copied_eq_name (name : Name) (key : Spelling) :
    copied 32 (plainText key) = name.text ↔ key.text = name.text := by
  apply copied_eq_iff <;> revert name <;> decide

theorem identifiersFit_cons (member : Member (Value n)) (members : List (Member (Value n))) :
    identifiersFit (member :: members) = (identifiersFit [member] && identifiersFit members) := by
  unfold identifiersFit
  simp only [valuesOf_cons, List.all_append]
  split_ifs <;> simp [valuesOf, Bool.and_assoc, Bool.and_left_comm]

theorem identifiersFit_other {member : Member (Value n)} (haddress : member.key.text ≠ Name.address.text)
    (hstable : member.key.text ≠ Name.stableId.text) : identifiersFit [member] = true := by
  simp [identifiersFit, valuesOf, haddress, hstable]

theorem clientMember_text (draft : Draft) (member : Member (Value n)) (rest : Bytes) :
    clientMember draft (memberText member rest) =
      clientField draft (copied 32 (plainText member.key))
        (member.item.before.val ++ (member.item.value.text ++ rest)) := by
  rw [clientMember, jsonKey_memberText]
  rfl

/-- A reader that ends behind a value, and what is made of its result. -/
theorem bind_read {β γ : Type} {reading : Option (β × Bytes)} {value : Option β} {rest : Bytes}
    (hread : reading = value.map (·, rest)) (make : β → γ) :
    (reading.bind fun p => some (make p.1, p.2)) = value.map fun x => (make x, rest) := by
  rw [hread]
  cases value <;> rfl

def draftWith (fields : Fields) (idsTruncated : Bool) : Draft := ⟨clientWith fields, idsTruncated⟩

theorem clientField_other (hdepth : n ≤ jsonDepth) (fields : Fields) (idsTruncated : Bool) (name : Name)
    (haddress : name ≠ .address) (hstable : name ≠ .stableId) (before : Space) (t : Value n) {rest : Bytes}
    (hrest : Ended rest) :
    clientField (draftWith fields idsTruncated) name.text (before.val ++ (t.text ++ rest)) =
      (fieldOf identifier? name (fields name) t).map fun x =>
        (draftWith (Function.update fields name x) idsTruncated, rest) := by
  have hflag : jsonBoolean (before.val ++ (t.text ++ rest)) = t.node.flag?.map (·, rest) := by
    rw [jsonBoolean_space, jsonBoolean_value]
  have hpair : jsonPair (before.val ++ (t.text ++ rest)) = (pair? t).map (·, rest) := by
    rw [jsonPair_space, jsonPair_value]
  have hinteger : jsonInteger (before.val ++ (t.text ++ rest)) = (integer? t).map (·, rest) := by
    rw [jsonInteger_space, jsonInteger_value t hrest]
  have hfullscreen : jsonFullscreen (before.val ++ (t.text ++ rest)) = (fullscreen? t).map (·, rest) := by
    rw [jsonFullscreen_space, jsonFullscreen_value t hrest]
  cases name with
  | address => exact absurd rfl haddress
  | stableId => exact absurd rfl hstable
  | mapped => exact bind_read hflag fun x => draftWith (Function.update fields .mapped x) idsTruncated
  | hidden => exact bind_read hflag fun x => draftWith (Function.update fields .hidden x) idsTruncated
  | visible => exact bind_read hflag fun x => draftWith (Function.update fields .visible x) idsTruncated
  | floating => exact bind_read hflag fun x => draftWith (Function.update fields .floating x) idsTruncated
  | pinned => exact bind_read hflag fun x => draftWith (Function.update fields .pinned x) idsTruncated
  | overFullscreen =>
    exact bind_read hflag fun x => draftWith (Function.update fields .overFullscreen x) idsTruncated
  | place => exact bind_read hpair fun x => draftWith (Function.update fields .place x) idsTruncated
  | size => exact bind_read hpair fun x => draftWith (Function.update fields .size x) idsTruncated
  | workspace =>
    have hworkspace : jsonWorkspace (clientWith fields) (before.val ++ (t.text ++ rest)) =
        ((workspaceOf (fields .workspace) t).map fun w => clientWith (Function.update fields .workspace w)).map
          (·, rest) := by
      rw [jsonWorkspace_space, jsonWorkspace_value t (by omega)]
      exact (Option.map_map (·, rest) (fun w => clientWith (Function.update fields .workspace w))
        (workspaceOf (fields .workspace) t)).symm
    have hread := bind_read hworkspace fun client => (⟨client, idsTruncated⟩ : Draft)
    have hmake := Option.map_map (fun client => ((⟨client, idsTruncated⟩ : Draft), rest))
      (fun w => clientWith (Function.update fields .workspace w)) (workspaceOf (fields .workspace) t)
    exact hread.trans hmake
  | pid =>
    have hread := bind_read hinteger fun v =>
      draftWith (Function.update fields .pid (BitVec.ofInt 64 v)) idsTruncated
    have hword := Option.map_map (fun x => (draftWith (Function.update fields .pid x) idsTruncated, rest))
      (BitVec.ofInt 64) (integer? t)
    exact hread.trans hword.symm
  | fullscreen => exact bind_read hfullscreen fun x => draftWith (Function.update fields .fullscreen x) idsTruncated

/-- The value of an identifier that does not fit. -/
def overlong (t : Value n) : Bool := (string? t).any (truncated idCapacity)

theorem clientField_identifier (fields : Fields) (idsTruncated : Bool) (name : Name)
    (hname : name = .address ∨ name = .stableId) (before : Space) (t : Value n) (rest : Bytes) :
    clientField (draftWith fields idsTruncated) name.text (before.val ++ (t.text ++ rest)) =
      (fieldOf identifier? name (fields name) t).map fun x =>
        (draftWith (Function.update fields name x) (idsTruncated || overlong t), rest) := by
  have hstring : jsonString (before.val ++ (t.text ++ rest)) = (string? t).map (·, rest) := by
    rw [jsonString_space, jsonString_value]
  rcases hname with rfl | rfl
  · have hread := bind_read hstring fun v =>
      draftWith (Function.update fields .address (copied idCapacity v)) (idsTruncated || truncated idCapacity v)
    apply hread.trans
    change _ = (identifier? t).map _
    unfold identifier? overlong
    cases string? t <;> rfl
  · have hread := bind_read hstring fun v =>
      draftWith (Function.update fields .stableId (copied idCapacity v)) (idsTruncated || truncated idCapacity v)
    apply hread.trans
    change _ = (identifier? t).map _
    unfold identifier? overlong
    cases string? t <;> rfl

theorem clientField_unknown (hdepth : n ≤ jsonDepth) (draft : Draft) {key : Bytes}
    (hkey : ∀ name : Name, key ≠ name.text) (before : Space) (t : Value n) {rest : Bytes} (hrest : Ended rest) :
    clientField draft key (before.val ++ (t.text ++ rest)) = some (draft, rest) := by
  have hskip : jsonSkip jsonDepth (before.val ++ (t.text ++ rest)) = some rest := by
    rw [jsonSkip_space, jsonSkip_value t hdepth hrest]
  unfold clientField
  dsimp only
  apply (if_neg (hkey .address)).trans
  apply (if_neg (hkey .stableId)).trans
  apply (if_neg (hkey .mapped)).trans
  apply (if_neg (hkey .hidden)).trans
  apply (if_neg (hkey .visible)).trans
  apply (if_neg (hkey .floating)).trans
  apply (if_neg (hkey .pinned)).trans
  apply (if_neg (hkey .overFullscreen)).trans
  apply (if_neg (hkey .place)).trans
  apply (if_neg (hkey .size)).trans
  apply (if_neg (hkey .workspace)).trans
  apply (if_neg (hkey .pid)).trans
  apply (if_neg (hkey .fullscreen)).trans
  rw [hskip]
  rfl

end Members

section Clients

variable {n : ℕ}

def nameOf (key : Bytes) : Option Name := Name.all.find? (·.text = key)

theorem nameOf_text (name : Name) : nameOf name.text = some name := by cases name <;> decide

theorem nameOf_eq_none {key : Bytes} : nameOf key = none ↔ ∀ name : Name, key ≠ name.text := by
  rw [nameOf, List.find?_eq_none]
  constructor
  · intro h name hname
    exact h name name.mem_all (decide_eq_true hname.symm)
  · intro h name _ hname
    exact h name (of_decide_eq_true hname).symm

def fieldStep (identifier : Value n → Option Bytes) (fields : Fields) (member : Member (Value n)) : Option Fields :=
  match nameOf member.key.text with
  | none => some fields
  | some name => (fieldOf identifier name (fields name) member.item.value).map (Function.update fields name)

theorem foldlM_fieldStep (identifier : Value n → Option Bytes) (members : List (Member (Value n))) :
    members.foldlM (fieldStep identifier) initialFields = fieldsOf identifier members := by
  apply foldlM_fields Name.text_injective
  · intro fields member name hname
    rw [fieldStep, hname, nameOf_text]
  · intro fields member hother
    rw [fieldStep, nameOf_eq_none.mpr hother]

/-- A member of a client, as both the fields and the flag of the draft see it. -/
def draftStep (state : Fields × Bool) (member : Member (Value n)) : Option (Fields × Bool) :=
  (fieldStep identifier? state.1 member).map fun fields => (fields, state.2 || !identifiersFit [member])

theorem identifiersFit_overlong {member : Member (Value n)} {name : Name} (hkey : member.key.text = name.text)
    (hname : name = .address ∨ name = .stableId) : identifiersFit [member] = !overlong member.item.value := by
  have hfit : (string? member.item.value).all (fun value => value.length < idCapacity) =
      !overlong member.item.value := by
    unfold overlong truncated
    cases string? member.item.value with
    | none => rfl
    | some value => simp only [Option.all_some, Option.any_some, ← decide_not, Nat.not_le]
  have hne : Name.address.text ≠ Name.stableId.text := by decide
  rw [← hfit]
  rcases hname with rfl | rfl
  · simp [identifiersFit, valuesOf, hkey, hne]
  · simp [identifiersFit, valuesOf, hkey, hne.symm]

theorem clientMember_step (hdepth : n ≤ jsonDepth) (state : Fields × Bool) (member : Member (Value n)) {rest : Bytes}
    (hrest : Ended rest) :
    clientMember (draftWith state.1 state.2) (memberText member rest) =
      (draftStep state member).map fun next => (draftWith next.1 next.2, rest) := by
  rw [clientMember_text, draftStep, fieldStep, Option.map_map]
  cases hname : nameOf member.key.text with
  | none =>
    have hother := nameOf_eq_none.mp hname
    have hfit : identifiersFit [member] = true := identifiersFit_other (hother .address) (hother .stableId)
    have hkey : ∀ name : Name, copied 32 (plainText member.key) ≠ name.text := fun name h =>
      hother name ((copied_eq_name name member.key).mp h)
    rw [clientField_unknown hdepth _ hkey _ _ hrest, hfit]
    simp
  | some name =>
    have htext : member.key.text = name.text := by
      have hfound := List.find?_some hname
      exact (of_decide_eq_true hfound).symm
    rw [(copied_eq_name name member.key).mpr htext]
    by_cases hidentifier : name = .address ∨ name = .stableId
    · rw [clientField_identifier _ _ _ hidentifier, identifiersFit_overlong htext hidentifier, Option.map_map,
        Bool.not_not]
      rfl
    · obtain ⟨haddress, hstable⟩ := not_or.mp hidentifier
      have hfit : identifiersFit [member] = true := by
        apply identifiersFit_other
        · exact fun h => haddress (Name.text_injective (htext.symm.trans h))
        · exact fun h => hstable (Name.text_injective (htext.symm.trans h))
      rw [clientField_other hdepth _ _ _ haddress hstable _ _ hrest, hfit, Option.map_map, Bool.not_true, Bool.or_false]
      rfl

theorem foldlM_draftStep (members : List (Member (Value n))) (state : Fields × Bool) :
    members.foldlM draftStep state =
      (members.foldlM (fieldStep identifier?) state.1).map fun fields =>
        (fields, state.2 || !identifiersFit members) := by
  induction members generalizing state with
  | nil => simp [identifiersFit, valuesOf]
  | cons member members ih =>
    rw [List.foldlM_cons, List.foldlM_cons, draftStep, identifiersFit_cons member members]
    cases fieldStep identifier? state.1 member with
    | none => rfl
    | some fields =>
      simp [ih, Bool.or_assoc]

/-- An identifier that fits is kept whole. -/
theorem fieldsOf_identifier {members : List (Member (Value n))} (hfit : identifiersFit members = true) :
    fieldsOf identifier? members = fieldsOf string? members := by
  have hwhole : ∀ name : Name, name = .address ∨ name = .stableId →
      ∀ t ∈ valuesOf name.text members, identifier? t = string? t := by
    intro name hname t ht
    have hall := List.all_eq_true.mp hfit t (by rcases hname with rfl | rfl <;> simp [ht])
    unfold identifier?
    cases hstring : string? t with
    | none => rfl
    | some value =>
      rw [hstring, Option.all_some] at hall
      rw [Option.map_some, copied_fits hstring (of_decide_eq_true hall)]
  unfold fieldsOf
  apply congrArg collect
  funext name
  cases name with
  | address => exact foldUnder_congr (fun t ht _ => hwhole .address (.inl rfl) t ht) _
  | stableId => exact foldUnder_congr (fun t ht _ => hwhole .stableId (.inr rfl) t ht) _
  | _ => rfl

/-- The reader finds in a value the client that the value describes, or none. -/
theorem jsonClient_value (t : Value n) (hdepth : n - 1 ≤ jsonDepth) (rest : Bytes) :
    jsonClient (t.text ++ rest) = (clientOf t).map (·, rest) := by
  obtain ⟨b, more, htext, hb⟩ := value_head t
  unfold jsonClient clientOf
  cases hmembers : t.node.members? with
  | none =>
    rw [htext, List.cons_append, jsonTake_cons _ hb.space, if_neg (hb.object hmembers)]
    rfl
  | some members =>
    obtain ⟨empty, hobject⟩ := text_of_members t hmembers
    have hopen : isSpace 123 = false := by decide
    rw [hobject, List.cons_append, List.append_assoc, List.singleton_append, jsonTake_cons _ hopen, if_pos rfl]
    simp only [Option.bind_eq_bind, Option.bind_some]
    rw [jsonTake_members]
    by_cases hnone : members = []
    · have hfields : fieldsOf (n := n - 1) string? [] = some initialFields := collect_some initialFields
      rw [if_pos hnone, hnone, hfields]
      rfl
    · rw [if_neg hnone]
      dsimp only
      have hloop := jsonLoop_members (fun state : Fields × Bool => draftWith state.1 state.2) empty rest hnone
        (fun member _ state rest hrest => clientMember_step hdepth state member hrest) (initialFields, false)
      rw [foldlM_draftStep, foldlM_fieldStep] at hloop
      change jsonLoop clientMember 125 ⟨emptyClient, false⟩ _ = _ at hloop
      rw [hloop]
      cases hfit : identifiersFit members with
      | true =>
        rw [fieldsOf_identifier hfit]
        cases fieldsOf string? members with
        | none => rfl
        | some fields =>
          simp only [Option.map_some, Option.bind_some, draftWith, Bool.not_true, Bool.or_self, Bool.not_false]
          split_ifs <;> rfl
      | false =>
        cases fieldsOf identifier? members <;> cases fieldsOf string? members <;> rfl

end Clients

section Documents

/-- The clients that are kept, numbered from below in the order of the list. -/
def numbered (clients : List Client) : List Client :=
  (clients.take maxClients).mapIdx fun i client => { client with stackingOrder := BitVec.ofNat 32 i }

/-- An array of values, each within the depth that the reader steps over. -/
structure Document where
  before : Space
  empty : Space
  items : List (Item (Value jsonDepth))
  after : Space

namespace Document

def text (d : Document) : Bytes :=
  d.before.val ++ 91 :: (commaText d.empty (Item.text Value.text) d.items ++ 93 :: d.after.val)

def clients (d : Document) : List Client := numbered (d.items.filterMap fun item => clientOf item.value)

end Document

def keep (items : List Client) : Option Client → List Client
  | none => items
  | some client =>
    if items.length = maxClients then items
    else items ++ [{ client with stackingOrder := BitVec.ofNat 32 items.length }]

theorem jsonElement_value (items : List Client) (t : Value jsonDepth) {rest : Bytes} (hrest : Ended rest) :
    jsonElement items (t.text ++ rest) = some (keep items (clientOf t), rest) := by
  unfold jsonElement
  rw [jsonClient_value t (Nat.sub_le _ _)]
  cases clientOf t with
  | none =>
    rw [Option.map_none, jsonSkip_value t le_rfl hrest]
    rfl
  | some client =>
    rw [Option.map_some, keep]
    split_ifs <;> simp

theorem numbered_concat (clients : List Client) (client : Client) :
    numbered (clients ++ [client]) = keep (numbered clients) (some client) := by
  have hlength : (numbered clients).length = min maxClients clients.length := by
    rw [numbered, List.length_mapIdx, List.length_take]
  rw [keep, hlength]
  unfold numbered
  by_cases hfull : maxClients ≤ clients.length
  · rw [if_pos (Nat.min_eq_left hfull), List.take_append_of_le_length hfull]
  · have hroom : clients.length < maxClients := Nat.lt_of_not_le hfull
    rw [if_neg (by omega), List.take_of_length_le (by rw [List.length_append, List.length_singleton]; omega),
      List.take_of_length_le (by omega), List.mapIdx_append, Nat.min_eq_right hroom.le,
      List.mapIdx_singleton, Nat.zero_add]

theorem foldl_keep (values : List (Value jsonDepth)) :
    values.foldl (fun items t => keep items (clientOf t)) [] = numbered (values.filterMap clientOf) := by
  induction values using List.reverseRecOn with
  | nil => rfl
  | append_singleton values t ih =>
    rw [List.foldl_append, List.foldl_cons, List.foldl_nil, ih, List.filterMap_append]
    cases ht : clientOf t with
    | none => simp [keep, ht]
    | some client => simp [ht, numbered_concat]

theorem foldlM_some {α σ : Type} (f : σ → α → σ) (l : List α) (state : σ) :
    l.foldlM (fun state x => some (f state x)) state = some (l.foldl f state) := by
  induction l generalizing state with
  | nil => rfl
  | cons x l ih => exact ih (f state x)

theorem parseClients_text (d : Document) : parseClients d.text = some d.clients := by
  have hopen : isSpace 91 = false := by decide
  have hafter : jsonSpace d.after.val = [] := by
    have hskip := jsonSpace_space d.after []
    rwa [List.append_nil] at hskip
  unfold parseClients jsonClients Document.text
  rw [jsonTake_space, jsonTake_cons _ hopen, if_pos rfl]
  simp only [Option.bind_eq_bind, Option.bind_some]
  rw [jsonTake_items]
  by_cases hnone : d.items = []
  · rw [if_pos hnone, Option.bind_some, hafter, if_pos rfl, Document.clients, hnone]
    rfl
  · have hloop := jsonLoop_items (f := fun items t => some (keep items (clientOf t))) id d.empty d.after.val hnone
      (fun items space s => jsonElement_space space s items)
      (fun item _ items rest hrest => jsonElement_value items item.value hrest) []
    rw [foldlM_some, foldl_keep, List.filterMap_map] at hloop
    change jsonLoop jsonElement 93 [] _ = some (d.clients, d.after.val) at hloop
    rw [if_neg hnone]
    dsimp only
    rw [hloop, Option.bind_some, hafter, if_pos rfl]

end Documents

end KeysharpDesktop.Hypr
