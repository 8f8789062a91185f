import KeysharpDesktop.Hypr.Words

/-! What the readers of whole values make of a valid text, and that the skipper steps over every value that nests no
deeper than it may go. -/
namespace KeysharpDesktop.Hypr

open JsonTree

/-- A value that nests at most `n` deep, counted as the skipper counts. -/
abbrev Value (n : ℕ) : Type := Tree Numeral n

def Value.text {n : ℕ} (t : Value n) : Bytes := Tree.text Numeral.text t

theorem Value.text_fold {n : ℕ} : (Tree.text Numeral.text : Value n → Bytes) = Value.text := rfl

section Heads

variable {α : Type} {n : ℕ}

/-- What the first byte of a text tells of the value. -/
structure Heads (v : Node Numeral α) (b : UInt8) : Prop where
  space : isSpace b = false
  flag : v.flag? = none → b ≠ 116 ∧ b ≠ 102
  number : v.number? = none → isNumeral b = false
  string : v.string? = none → b ≠ 34
  array : v.items? = none → b ≠ 91
  object : v.members? = none → b ≠ 123
  closing : b ≠ 93 ∧ b ≠ 125

theorem numeral_kind : ∀ b, isNumeral b →
    (b ≠ 116 ∧ b ≠ 102) ∧ b ≠ 34 ∧ b ≠ 91 ∧ b ≠ 123 ∧ (b ≠ 93 ∧ b ≠ 125) ∧ b ≠ 110 :=
  forall_byte (by decide +kernel)

theorem node_head (inner : α → Bytes) (v : Node Numeral α) :
    ∃ b more, v.text Numeral.text inner = b :: more ∧ Heads v b := by
  cases v with
  | null =>
    use 110, [117, 108, 108], rfl
    constructor <;> first | decide | exact fun _ => by decide
  | flag value =>
    cases value with
    | true =>
      use 116, [114, 117, 101], rfl
      constructor <;> first | decide | exact fun _ => by decide | nofun
    | false =>
      use 102, [97, 108, 115, 101], rfl
      constructor <;> first | decide | exact fun _ => by decide | nofun
  | number value =>
    obtain ⟨b, more, htext, hnumeral, hspace⟩ := integer_head value.val
    obtain ⟨hflag, hstring, harray, hobject, hclosing, -⟩ := numeral_kind b hnumeral
    use b, more, htext
    constructor
    · exact hspace
    · exact fun _ => hflag
    · nofun
    · exact fun _ => hstring
    · exact fun _ => harray
    · exact fun _ => hobject
    · exact hclosing
  | string value =>
    use 34, value.text ++ [34], rfl
    constructor <;> first | decide | exact fun _ => by decide | nofun
  | array space items =>
    use 91, commaText space (Item.text inner) items ++ [93], rfl
    constructor <;> first | decide | exact fun _ => by decide | nofun
  | object space members =>
    use 123, commaText space (Member.text inner) members ++ [125], rfl
    constructor <;> first | decide | exact fun _ => by decide | nofun

theorem value_head (t : Value n) : ∃ b more, t.text = b :: more ∧ Heads t.node b := by
  rw [Value.text, Tree.text_eq]
  exact node_head _ t.node

end Heads

section Typed

variable {n : ℕ} (t : Value n)

def integer? : Option ℤ := t.node.number?.map (·.val.value)

def string? : Option Bytes := t.node.string?.map plainText

/-- Two integers of 32 bits. -/
def pair? : Option (BitVec 32 × BitVec 32) :=
  match t.node.items? with
  | some [a, b] =>
    match integer? a, integer? b with
    | some a, some b => if isInt32 a && isInt32 b then some (BitVec.ofInt 32 a, BitVec.ofInt 32 b) else none
    | _, _ => none
  | _ => none

def fullscreen? : Option (BitVec 32) :=
  match t.node.flag? with
  | some flag => some (if flag then 1 else 0)
  | none => (integer? t).map fun number => if 0 < number then 1 else 0

theorem text_of_flag {value : Bool} (h : t.node.flag? = some value) : t.text = word value := by
  rw [Value.text, Tree.text_eq, Node.eq_flag h]
  rfl

theorem text_of_number {value : Numeral} (h : t.node.number? = some value) : t.text = value.text := by
  rw [Value.text, Tree.text_eq, Node.eq_number h]
  rfl

theorem text_of_string {value : Spelling} (h : t.node.string? = some value) : t.text = value.quoted := by
  rw [Value.text, Tree.text_eq, Node.eq_string h]
  rfl

theorem text_of_items {values : List (Value (n - 1))} (h : t.node.items? = some values) :
    ∃ space items, items.map (·.value) = values ∧
      t.text = 91 :: (commaText space (Item.text Value.text) items ++ [93]) := by
  obtain ⟨space, items, hnode, hvalues⟩ := Node.eq_array h
  use space, items, hvalues
  rw [Value.text, Tree.text_eq, hnode]
  rfl

theorem text_of_members {members : List (Member (Value (n - 1)))} (h : t.node.members? = some members) :
    ∃ space, t.text = 123 :: (commaText space (Member.text Value.text) members ++ [125]) := by
  obtain ⟨space, hnode⟩ := Node.eq_object h
  use space
  rw [Value.text, Tree.text_eq, hnode]
  rfl

theorem jsonLiteral_ne {b w : UInt8} (hspace : isSpace b = false) (h : b ≠ w) (word rest : Bytes) :
    jsonLiteral (w :: word) (b :: rest) = none := by
  have hne : (w == b) = false := beq_false_of_ne h.symm
  simp [jsonLiteral, jsonSpace_cons _ hspace, scanLiteral, List.isPrefixOf, hne]

theorem jsonBoolean_value (rest : Bytes) : jsonBoolean (t.text ++ rest) = t.node.flag?.map (·, rest) := by
  obtain ⟨b, more, htext, hb⟩ := value_head t
  cases hflag : t.node.flag? with
  | none =>
    obtain ⟨htrue, hfalse⟩ := hb.flag hflag
    rw [htext, jsonBoolean]
    have h1 : jsonLiteral (ascii "true") (b :: more ++ rest) = none := jsonLiteral_ne hb.space htrue _ _
    have h2 : jsonLiteral (ascii "false") (b :: more ++ rest) = none := jsonLiteral_ne hb.space hfalse _ _
    rw [h1, h2]
    rfl
  | some value =>
    rw [text_of_flag t hflag]
    cases value <;> rfl

theorem jsonString_value (rest : Bytes) : jsonString (t.text ++ rest) = (string? t).map (·, rest) := by
  obtain ⟨b, more, htext, hb⟩ := value_head t
  unfold string?
  cases hstring : t.node.string? with
  | none =>
    have hquote := hb.string hstring
    rw [htext, jsonString, List.cons_append, jsonTake_cons _ hb.space, if_neg hquote]
    rfl
  | some value =>
    rw [text_of_string t hstring, jsonString_quoted]
    rfl

theorem jsonInteger_ne {b : UInt8} (hspace : isSpace b = false) (h : isNumeral b = false) (rest : Bytes) :
    jsonInteger (b :: rest) = none := by
  have hdigits : ((b :: rest).take 31).takeWhile isNumeral = [] := by
    rw [List.take_succ_cons, List.takeWhile_cons_of_neg (by simp [h])]
  unfold jsonInteger
  simp only [jsonSpace_cons _ hspace, hdigits]
  rfl

theorem jsonInteger_value {rest : Bytes} (hrest : Ended rest) :
    jsonInteger (t.text ++ rest) = (integer? t).map (·, rest) := by
  obtain ⟨b, more, htext, hb⟩ := value_head t
  unfold integer?
  cases hnumber : t.node.number? with
  | none =>
    rw [htext, List.cons_append, jsonInteger_ne hb.space (hb.number hnumber)]
    rfl
  | some value =>
    rw [text_of_number t hnumber, jsonInteger_text value hrest]
    rfl

theorem jsonPeek_value (c : UInt8) (rest : Bytes) :
    jsonPeek c (t.text ++ rest) = decide (t.text.head? = some c) := by
  obtain ⟨b, more, htext, hb⟩ := value_head t
  simp [jsonPeek, htext, jsonSpace_cons _ hb.space]

theorem jsonFullscreen_value {rest : Bytes} (hrest : Ended rest) :
    jsonFullscreen (t.text ++ rest) = (fullscreen? t).map (·, rest) := by
  obtain ⟨b, more, htext, hb⟩ := value_head t
  unfold jsonFullscreen fullscreen?
  rw [jsonPeek_value, jsonPeek_value, jsonBoolean_value, jsonInteger_value t hrest]
  cases hflag : t.node.flag? with
  | none =>
    obtain ⟨htrue, hfalse⟩ := hb.flag hflag
    cases integer? t <;> simp [htext, htrue, hfalse]
  | some value =>
    rw [text_of_flag t hflag]
    cases value <;> rfl

theorem jsonPair_value (rest : Bytes) : jsonPair (t.text ++ rest) = (pair? t).map (·, rest) := by
  obtain ⟨b, more, htext, hb⟩ := value_head t
  have hopen : isSpace 91 = false := by decide
  have hcomma : isSpace 44 = false := by decide
  have hclose : isSpace 93 = false := by decide
  have hcommaEnds : isNumeral 44 = false := by decide
  have hcloseEnds : isNumeral 93 = false := by decide
  unfold pair?
  cases hitems : t.node.items? with
  | none =>
    rw [htext, jsonPair, List.cons_append, jsonTake_cons _ hb.space, if_neg (hb.array hitems)]
    rfl
  | some values =>
    obtain ⟨space, items, rfl, hlist⟩ := text_of_items t hitems
    rw [hlist, jsonPair]
    simp only [List.cons_append, jsonTake_cons _ hopen, if_true, Option.bind_eq_bind, Option.bind_some]
    obtain _ | ⟨a, _ | ⟨c, _ | ⟨d, more⟩⟩⟩ := items
    · simp [commaText, jsonInteger_ne hclose hcloseEnds]
    · have ha := jsonInteger_value a.value (Ended.space a.after hcloseEnds rest)
      cases hvalue : integer? a.value <;>
        simp [commaText, Item.text, ha, hvalue, jsonTake_cons _ hclose]
    · have ha := jsonInteger_value a.value
        (Ended.space a.after hcommaEnds (c.before.val ++ (c.value.text ++ (c.after.val ++ 93 :: rest))))
      have hc := jsonInteger_value c.value (Ended.space c.after hcloseEnds rest)
      cases havalue : integer? a.value <;> cases hcvalue : integer? c.value <;>
        simp [commaText, Item.text, ha, hc, havalue, hcvalue, jsonTake_cons _ hcomma, jsonTake_cons _ hclose]
    · have ha (s : Bytes) := jsonInteger_value a.value (Ended.space a.after hcommaEnds s)
      have hc (s : Bytes) := jsonInteger_value c.value (Ended.space c.after hcommaEnds s)
      cases havalue : integer? a.value <;> cases hcvalue : integer? c.value <;>
        simp [commaText, Item.text, ha, hc, havalue, hcvalue, jsonTake_cons _ hcomma]

end Typed

section Loops

variable {σ τ α : Type} {part : σ → Bytes → Option (σ × Bytes)} {f : τ → α → Option τ} {close : UInt8} (view : τ → σ)

/-- A loop over the parts of a list makes the steps of the list, as its state shows them, and ends behind the bracket.
The blanks after a part are left to the look at the next byte. -/
theorem jsonParts_commaText (hspace : isSpace close = false) (hnumeral : isNumeral close = false) (hcomma : close ≠ 44)
    (empty : Space) (lead : α → Bytes) (trail : α → Space) {text : α → Bytes} {l : List α} (hne : l ≠ [])
    (htext : ∀ x ∈ l, text x = lead x ++ (trail x).val)
    (hpart : ∀ x ∈ l, ∀ state rest, Ended rest →
      part (view state) (lead x ++ rest) = (f state x).map fun next => (view next, rest))
    {turns : ℕ} (hturns : l.length ≤ turns) (state : τ) (rest : Bytes) :
    jsonParts part close turns (view state) (commaText empty text l ++ close :: rest) =
      (l.foldlM f state).map fun next => (view next, rest) := by
  have hcommaSpace : isSpace 44 = false := by decide
  induction l generalizing turns state with
  | nil => exact absurd rfl hne
  | cons x l ih =>
    obtain ⟨turns, rfl⟩ : ∃ t, turns = t + 1 := Nat.exists_eq_add_one.mpr (by simp at hturns; omega)
    have hx := hpart x List.mem_cons_self state
    cases l with
    | nil =>
      have hread := hx _ (Ended.space (trail x) hnumeral rest)
      rw [commaText, htext x List.mem_cons_self, List.append_assoc, jsonParts, hread]
      cases hstep : f state x with
      | none => simp [hstep]
      | some next => simp [hstep, jsonTake_cons _ hspace, hcomma]
    | cons y l =>
      have hread := hx _ (Ended.space (trail x) (by decide : isNumeral 44 = false)
        (commaText empty text (y :: l) ++ close :: rest))
      have hrest := fun next => ih (by simp) (fun z hz => htext z (List.mem_cons_of_mem x hz))
        (fun z hz => hpart z (List.mem_cons_of_mem x hz)) (Nat.le_of_succ_le_succ hturns) next
      rw [commaText, htext x List.mem_cons_self, List.append_assoc, List.append_assoc, List.cons_append, jsonParts,
        hread]
      cases hstep : f state x with
      | none => simp [hstep]
      | some next => simp [hstep, jsonTake_cons _ hcommaSpace, hrest]

variable {n : ℕ} (empty : Space) (rest : Bytes)

theorem jsonTake_items (items : List (Item (Value n))) :
    jsonTake 93 (commaText empty (Item.text Value.text) items ++ 93 :: rest) =
      if items = [] then some rest else none := by
  match items with
  | [] => simp [commaText, jsonTake_cons rest (by decide : isSpace 93 = false)]
  | [x] =>
    obtain ⟨b, more, htext, hb⟩ := value_head x.value
    simp [commaText, Item.text, htext, jsonTake_cons _ hb.space, hb.closing.1]
  | x :: y :: items =>
    obtain ⟨b, more, htext, hb⟩ := value_head x.value
    simp [commaText, Item.text, htext, jsonTake_cons _ hb.space, hb.closing.1]

theorem jsonTake_members (members : List (Member (Value n))) :
    jsonTake 125 (commaText empty (Member.text Value.text) members ++ 125 :: rest) =
      if members = [] then some rest else none := by
  have hquote : isSpace 34 = false := by decide
  match members with
  | [] => simp [commaText, jsonTake_cons rest (by decide : isSpace 125 = false)]
  | [x] => simp [commaText, Member.text, Spelling.quoted, jsonTake_cons _ hquote]
  | x :: y :: members => simp [commaText, Member.text, Spelling.quoted, jsonTake_cons _ hquote]

theorem jsonLoop_items {f : τ → Value n → Option τ} {items : List (Item (Value n))} (hne : items ≠ [])
    (hspace : ∀ state (space : Space) s, part state (space.val ++ s) = part state s)
    (hpart : ∀ item ∈ items, ∀ state rest, Ended rest →
      part (view state) (item.value.text ++ rest) = (f state item.value).map fun next => (view next, rest))
    (state : τ) :
    jsonLoop part 93 (view state) (commaText empty (Item.text Value.text) items ++ 93 :: rest) =
      ((items.map (·.value)).foldlM f state).map fun next => (view next, rest) := by
  have hturns := length_le_commaText empty (Item.text Value.text) items
  rw [List.foldlM_map]
  apply jsonParts_commaText view (by decide) (by decide) (by decide) empty
    (fun item => item.before.val ++ item.value.text) (fun item => item.after) hne
  · intro item hitem
    rw [Item.text, List.append_assoc]
  · intro item hitem state rest hrest
    rw [List.append_assoc, hspace]
    exact hpart item hitem state rest hrest
  · rw [List.length_append]
    omega

/-- A member up to the end of its value, and what follows it. -/
def memberText (member : Member (Value n)) (rest : Bytes) : Bytes :=
  member.before.val ++ (member.key.quoted ++ (member.between.val ++
    58 :: (member.item.before.val ++ (member.item.value.text ++ rest))))

theorem jsonKey_memberText (member : Member (Value n)) :
    jsonKey (memberText member rest) =
      some (plainText member.key, member.item.before.val ++ (member.item.value.text ++ rest)) :=
  jsonKey_member _ _ _ _

theorem jsonLoop_members {f : τ → Member (Value n) → Option τ} {members : List (Member (Value n))} (hne : members ≠ [])
    (hpart : ∀ member ∈ members, ∀ state rest, Ended rest →
      part (view state) (memberText member rest) = (f state member).map fun next => (view next, rest))
    (state : τ) :
    jsonLoop part 125 (view state) (commaText empty (Member.text Value.text) members ++ 125 :: rest) =
      (members.foldlM f state).map fun next => (view next, rest) := by
  have hturns := length_le_commaText empty (Member.text Value.text) members
  apply jsonParts_commaText view (by decide) (by decide) (by decide) empty
    (fun member => memberText member []) (fun member => member.item.after) hne
  · intro member hmember
    simp only [memberText, Member.text, Item.text, List.append_assoc, List.cons_append, List.nil_append]
  · intro member hmember state rest hrest
    rw [← hpart member hmember state rest hrest]
    simp only [memberText, List.append_assoc, List.cons_append, List.nil_append]
  · rw [List.length_append]
    omega

end Loops

section Skipping

theorem foldlM_unit {α : Type} (l : List α) : l.foldlM (fun _ _ => some ()) () = some () := by
  induction l with
  | nil => rfl
  | cons x l ih => exact ih

/-- The skipper ends where the value ends. -/
theorem jsonSkip_value {left n : ℕ} (t : Value n) (hdepth : n ≤ left) {rest : Bytes} (hrest : Ended rest) :
    jsonSkip left (t.text ++ rest) = some rest := by
  induction left generalizing n rest with
  | zero => exact absurd t.pos (by omega)
  | succ left ih =>
    have hinner : n - 1 ≤ left := by omega
    rw [Value.text, Tree.text_eq]
    cases t.node with
    | null => rfl
    | flag value => cases value <;> rfl
    | number value =>
      obtain ⟨b, more, htext, hnumeral, hspace⟩ := integer_head value.val
      obtain ⟨⟨htrue, hfalse⟩, hstring, harray, hobject, -, hnull⟩ := numeral_kind b hnumeral
      have hread := jsonInteger_text value hrest
      have hstart : value.text = b :: more := htext
      rw [Node.text, hstart, List.cons_append]
      rw [hstart, List.cons_append] at hread
      simp only [jsonSkip, jsonSpace_cons _ hspace, htrue, hfalse, hstring, harray, hobject, hnull, if_false, hread,
        Option.map_some]
    | string value =>
      have hquote : isSpace 34 = false := by decide
      have hread := jsonString_quoted value rest
      rw [Node.text, Spelling.quoted, List.cons_append]
      rw [Spelling.quoted, List.cons_append] at hread
      simp only [jsonSkip, jsonSpace_cons _ hquote, if_true, hread, Option.map_some]
    | array empty items =>
      have hopen : isSpace 91 = false := by decide
      simp only [Node.text, List.cons_append, List.append_assoc, List.nil_append, jsonSkip, jsonSpace_cons _ hopen,
        if_true]
      rw [if_neg (by decide), if_neg (by decide), Value.text_fold, jsonTake_items]
      by_cases hnone : items = []
      · rw [if_pos hnone]
      · rw [if_neg hnone]
        dsimp only
        rw [jsonLoop_items (f := fun _ _ => some ()) id empty rest hnone, foldlM_unit]
        · rfl
        · intro _ space s
          rw [jsonSkip_space]
        · intro item hitem _ rest hrest
          rw [ih item.value hinner hrest]
          rfl
    | object empty members =>
      have hopen : isSpace 123 = false := by decide
      simp only [Node.text, List.cons_append, List.append_assoc, List.nil_append, jsonSkip, jsonSpace_cons _ hopen,
        if_true]
      rw [if_neg (by decide), Value.text_fold, jsonTake_members]
      by_cases hnone : members = []
      · rw [if_pos hnone]
      · rw [if_neg hnone]
        dsimp only
        rw [jsonLoop_members (f := fun _ _ => some ()) id empty rest hnone, foldlM_unit]
        · rfl
        · intro member hmember _ rest hrest
          rw [jsonKey_memberText]
          simp only [Option.bind_eq_bind, Option.bind_some, jsonSkip_space]
          rw [ih member.item.value hinner hrest]
          rfl

end Skipping

end KeysharpDesktop.Hypr
