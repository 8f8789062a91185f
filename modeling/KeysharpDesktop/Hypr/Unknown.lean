import KeysharpDesktop.Hypr.Parsed

/-! Which values describe a client, and that what the reader does not know changes nothing of what it finds. -/
namespace KeysharpDesktop.Hypr

open JsonTree

section Exactly

variable {n : ℕ}

/-- The kind of value that belongs under a name. -/
def WellTyped (t : Value n) : Name → Prop
  | .address | .stableId => (string? t).isSome
  | .mapped | .hidden | .visible | .floating | .pinned | .overFullscreen => t.node.flag?.isSome
  | .place | .size => (pair? t).isSome
  | .workspace => ∃ members, t.node.members? = some members ∧
      (∀ v ∈ valuesOf (ascii "id") members, (integer? v).isSome) ∧
        ∀ v ∈ valuesOf (ascii "name") members, (string? v).isSome
  | .pid => (integer? t).isSome
  | .fullscreen => (fullscreen? t).isSome

def lastText (name : Name) (members : List (Member (Value n))) : Bytes :=
  ((valuesOf name.text members).getLast?.bind string?).getD []

/-- An object with a well-formed address and an identifier, neither cut off, all of whose members that the reader
knows are of their kind. -/
def Describes (t : Value n) : Prop :=
  ∃ members, t.node.members? = some members ∧
    (∀ name : Name, ∀ v ∈ valuesOf name.text members, WellTyped v name) ∧
    identifiersFit members ∧ lastText .stableId members ≠ [] ∧ addressValid (lastText .address members)

theorem workspaceOf_isSome (start : BitVec 64 × Bytes) (t : Value n) :
    (workspaceOf start t).isSome ↔ WellTyped t .workspace := by
  unfold workspaceOf WellTyped
  cases t.node.members? with
  | none => simp
  | some members =>
    have hid : (foldUnder (ascii "id") (fun _ => word64?) start.1 members).isSome ↔
        ∀ v ∈ valuesOf (ascii "id") members, (integer? v).isSome :=
      foldUnder_isSome (fun _ v => by rw [word64?, Option.isSome_map]) start.1
    have hname : (foldUnder (ascii "name") (fun _ => workspaceName?) start.2 members).isSome ↔
        ∀ v ∈ valuesOf (ascii "name") members, (string? v).isSome :=
      foldUnder_isSome (fun _ v => by rw [workspaceName?, Option.isSome_map]) start.2
    simp only [Option.bind_eq_bind, Option.bind_some, Option.some.injEq, exists_eq_left', ← hid, ← hname]
    cases foldUnder (ascii "id") (fun _ => word64?) start.1 members with
    | none => simp
    | some id => cases foldUnder (ascii "name") (fun _ => workspaceName?) start.2 members <;> simp

theorem fieldOf_isSome (name : Name) (start : Content name) (t : Value n) :
    (fieldOf string? name start t).isSome ↔ WellTyped t name := by
  cases name
  case workspace => exact workspaceOf_isSome start t
  case pid =>
    have hword : (word64? t).isSome ↔ (integer? t).isSome := by rw [word64?, Option.isSome_map]
    exact hword
  all_goals rfl

theorem fieldsOf_isSome (members : List (Member (Value n))) :
    (fieldsOf string? members).isSome ↔ ∀ name : Name, ∀ v ∈ valuesOf name.text members, WellTyped v name := by
  unfold fieldsOf
  rw [collect_isSome]
  apply forall_congr'
  intro name
  exact foldUnder_isSome (fun start v => fieldOf_isSome name start v) _

theorem fieldsOf_address {members : List (Member (Value n))} {fields : Fields}
    (h : fieldsOf string? members = some fields) : fields .address = lastText .address members :=
  (foldUnder_last (collect_eq_some h .address)).symm

theorem fieldsOf_stableId {members : List (Member (Value n))} {fields : Fields}
    (h : fieldsOf string? members = some fields) : fields .stableId = lastText .stableId members :=
  (foldUnder_last (collect_eq_some h .stableId)).symm

theorem clientOf_isSome (t : Value n) : (clientOf t).isSome ↔ Describes t := by
  unfold clientOf Describes
  cases t.node.members? with
  | none => simp
  | some members =>
    simp only [Option.bind_eq_bind, Option.bind_some, Option.some.injEq, exists_eq_left', ← fieldsOf_isSome]
    cases hfields : fieldsOf string? members with
    | none => simp
    | some fields =>
      have haddress := fieldsOf_address hfields
      have hstable := fieldsOf_stableId hfields
      simp only [Option.bind_some, Option.isSome_some, true_and, ← haddress, ← hstable]
      change (if _ then some (clientWith fields) else none).isSome ↔ _
      rw [Option.isSome_ite, Bool.and_eq_true, Bool.and_eq_true, bne_iff_ne, and_assoc]
      rfl

end Exactly

section Invariance

variable {n : ℕ}

/-- Only what is said under the names that the reader knows counts. -/
theorem clientOf_congr (space : Space) {members others : List (Member (Value n))}
    (h : ∀ name : Name, valuesOf name.text members = valuesOf name.text others) :
    clientOf (Tree.object space members) = clientOf (Tree.object space others) := by
  have hfields : fieldsOf string? members = fieldsOf string? others := by
    unfold fieldsOf foldUnder
    simp only [h]
  have hfit : identifiersFit members = identifiersFit others := by
    unfold identifiersFit
    rw [h, h]
  change (fieldsOf string? members).bind _ = (fieldsOf string? others).bind _
  rw [hfields, hfit]

/-- A document with a place for an object among its values. -/
structure Place where
  document : Document
  front : List (Item (Value jsonDepth))
  before : Space
  space : Space
  after : Space
  back : List (Item (Value jsonDepth))

/-- The document with an object of some members in that place. -/
def Place.fill (p : Place) (members : List (Member (Value (jsonDepth - 1)))) : Document :=
  { p.document with items := p.front ++ ⟨p.before, Tree.object p.space members, p.after⟩ :: p.back }

theorem parseClients_fill (p : Place) {members others : List (Member (Value (jsonDepth - 1)))}
    (h : ∀ name : Name, valuesOf name.text members = valuesOf name.text others) :
    parseClients (p.fill members).text = parseClients (p.fill others).text := by
  have hclient : clientOf (Tree.object p.space members) = clientOf (Tree.object p.space others) :=
    clientOf_congr p.space h
  rw [parseClients_text, parseClients_text]
  unfold Document.clients Place.fill
  simp only [List.filterMap_append, List.filterMap_cons]
  rw [hclient]

/-- A word spelled without escapes. -/
def spelled (word : Bytes) (h : ∀ b ∈ word, 32 ≤ b ∧ b ≠ 34 ∧ b ≠ 92) : Spelling :=
  word.attach.map fun b => .plain b.val (h b.val b.property)

def noSpace : Space := ⟨[], by simp⟩

def saying (key : Spelling) (value : Value 15) : Member (Value 15) := ⟨noSpace, key, noSpace, ⟨noSpace, value, noSpace⟩⟩

def sayingAddress : Member (Value 15) :=
  saying (spelled (ascii "address") (by decide)) (Node.string (spelled (ascii "0xa1") (by decide)))

def sayingStableId : Member (Value 15) :=
  saying (spelled (ascii "stableId") (by decide)) (Node.string (spelled (ascii "7f") (by decide)))

/-- A member that the reader does not know, with a list in its value. -/
def sayingTags : Member (Value 15) :=
  saying (spelled (ascii "tags") (by decide)) (Node.array noSpace [⟨noSpace, Node.null, noSpace⟩])

def alone : Place := ⟨⟨noSpace, noSpace, [], noSpace⟩, [], noSpace, noSpace, noSpace, []⟩

end Invariance

end KeysharpDesktop.Hypr
