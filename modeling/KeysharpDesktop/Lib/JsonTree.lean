import Mathlib.Data.Fintype.Defs
import Mathlib.Data.Int.Notation
import Mathlib.Data.List.Nodup
import Mathlib.Data.List.Perm.Basic
import Mathlib.Logic.Function.Basic

/-! JSON texts as trees: every byte of the text is in the tree, how deep it nests is in its type, and what an object
says under a name is a list. -/
namespace JsonTree

section Words

def blank (b : UInt8) : Bool := b == 32 || b == 9 || b == 10 || b == 13

def digit (b : UInt8) : Bool := 48 ≤ b && b ≤ 57

def hexDigit (b : UInt8) : Bool := digit b || (65 ≤ b && b ≤ 70) || (97 ≤ b && b ≤ 102)

/-- Blanks between two words. -/
abbrev Space : Type := { s : List UInt8 // ∀ b ∈ s, blank b }

/-- A character of a string as it is spelled. -/
inductive Glyph where
  | plain (b : UInt8) (allowed : 32 ≤ b ∧ b ≠ 34 ∧ b ≠ 92)
  | escape (b : UInt8) (known : b ∈ [34, 47, 92, 98, 102, 110, 114, 116])
  | unicode (digits : List UInt8) (four : digits.length = 4) (hex : ∀ d ∈ digits, hexDigit d)

def Glyph.text : Glyph → List UInt8
  | plain b _ => [b]
  | escape b _ => [92, b]
  | unicode digits _ _ => 92 :: 117 :: digits

/-- What stands between the quotes of a string. -/
abbrev Spelling : Type := List Glyph

def Spelling.text (s : Spelling) : List UInt8 := List.flatMap Glyph.text s

def Spelling.quoted (s : Spelling) : List UInt8 := 34 :: (s.text ++ [34])

/-- A number without fraction and exponent. -/
structure Integer where
  negative : Bool
  digits : List UInt8
  nonempty : digits ≠ []
  decimal : ∀ b ∈ digits, digit b
  canonical : digits.head? = some 48 → digits.length = 1

namespace Integer

def text (n : Integer) : List UInt8 := if n.negative then 45 :: n.digits else n.digits

def natural (digits : List UInt8) : ℕ := digits.foldl (fun v d => v * 10 + (d.toNat - 48)) 0

def value (n : Integer) : ℤ := if n.negative then -(natural n.digits : ℤ) else natural n.digits

end Integer

inductive Sign where
  | none
  | plus
  | minus

def Sign.text : Sign → List UInt8
  | .none => []
  | .plus => [43]
  | .minus => [45]

abbrev Digits : Type := { ds : List UInt8 // ds ≠ [] ∧ ∀ b ∈ ds, digit b }

structure Exponent where
  upper : Bool
  sign : Sign
  digits : Digits

def Exponent.text (e : Exponent) : List UInt8 := (if e.upper then 69 else 101) :: (e.sign.text ++ e.digits.val)

/-- Any number that a text may have. -/
structure Decimal where
  integer : Integer
  fraction : Option Digits
  exponent : Option Exponent

namespace Decimal

def text (d : Decimal) : List UInt8 :=
  d.integer.text ++ ((d.fraction.elim [] fun ds => 46 :: ds.val) ++ d.exponent.elim [] Exponent.text)

def letter (b : UInt8) : Bool := digit b || b == 43 || b == 45 || b == 46 || b == 69 || b == 101

theorem letter_of_digit {b : UInt8} (h : digit b) : letter b := by
  simp only [letter, h, Bool.true_or]

theorem letter_text (d : Decimal) : ∀ b ∈ d.text, letter b := by
  have hinteger : ∀ b ∈ d.integer.text, letter b := by
    intro b hb
    unfold Integer.text at hb
    split_ifs at hb
    · obtain rfl | hb := List.mem_cons.mp hb
      · rfl
      · exact letter_of_digit (d.integer.decimal b hb)
    · exact letter_of_digit (d.integer.decimal b hb)
  have hfraction : ∀ b ∈ d.fraction.elim [] fun ds => 46 :: ds.val, letter b := by
    intro b hb
    cases hd : d.fraction with
    | none => simp [hd] at hb
    | some ds =>
      rw [hd] at hb
      obtain rfl | hb := List.mem_cons.mp hb
      · rfl
      · exact letter_of_digit (ds.property.2 b hb)
  have hexponent : ∀ b ∈ d.exponent.elim [] Exponent.text, letter b := by
    intro b hb
    cases hd : d.exponent with
    | none => simp [hd] at hb
    | some e =>
      rw [hd] at hb
      obtain rfl | hb := List.mem_cons.mp hb
      · cases e.upper <;> rfl
      · obtain hb | hb := List.mem_append.mp hb
        · cases hsign : e.sign <;> simp [hsign, Sign.text] at hb <;> rw [hb] <;> rfl
        · exact letter_of_digit (e.digits.property.2 b hb)
  intro b hb
  obtain hb | hb := List.mem_append.mp hb
  · exact hinteger b hb
  · obtain hb | hb := List.mem_append.mp hb
    · exact hfraction b hb
    · exact hexponent b hb

theorem text_ne_nil (d : Decimal) : d.text ≠ [] := by
  have hdigits := d.integer.nonempty
  intro hnil
  rw [text, List.append_eq_nil_iff, Integer.text] at hnil
  split_ifs at hnil
  · exact hnil.1
  · exact hdigits hnil.1

end Decimal

end Words

section Trees

structure Item (α : Type) where
  before : Space
  value : α
  after : Space

structure Member (α : Type) where
  before : Space
  key : Spelling
  between : Space
  item : Item α

/-- A value over the values inside it. -/
inductive Node (ν α : Type) where
  | null
  | flag (value : Bool)
  | number (value : ν)
  | string (value : Spelling)
  | array (space : Space) (items : List (Item α))
  | object (space : Space) (members : List (Member α))

/-- The values that nest at most `n` deep, where a value without parts is one deep. -/
def Tree (ν : Type) : ℕ → Type
  | 0 => Empty
  | n + 1 => Node ν (Tree ν n)

variable {ν α β : Type} {n : ℕ}

/-- What stands between two brackets: the parts with commas between them, or blanks. -/
def commaText (space : Space) (text : α → List UInt8) : List α → List UInt8
  | [] => space.val
  | [x] => text x
  | x :: y :: l => text x ++ 44 :: commaText space text (y :: l)

def Item.text (inner : α → List UInt8) (item : Item α) : List UInt8 :=
  item.before.val ++ (inner item.value ++ item.after.val)

def Member.text (inner : α → List UInt8) (member : Member α) : List UInt8 :=
  member.before.val ++ (member.key.quoted ++ (member.between.val ++ 58 :: member.item.text inner))

def word : Bool → List UInt8
  | true => [116, 114, 117, 101]
  | false => [102, 97, 108, 115, 101]

def Node.text (numeral : ν → List UInt8) (inner : α → List UInt8) : Node ν α → List UInt8
  | null => [110, 117, 108, 108]
  | flag value => word value
  | number value => numeral value
  | string value => value.quoted
  | array space items => 91 :: (commaText space (Item.text inner) items ++ [93])
  | object space members => 123 :: (commaText space (Member.text inner) members ++ [125])

/-- How many brackets stand around the deepest value. -/
def Node.levels (inner : α → ℕ) : Node ν α → ℕ
  | array _ items => items.foldr (fun item levels => max (inner item.value + 1) levels) 0
  | object _ members => members.foldr (fun member levels => max (inner member.item.value + 1) levels) 0
  | _ => 0

theorem foldr_max_le (f : β → ℕ) (l : List β) (bound : ℕ) :
    l.foldr (fun x levels => max (f x) levels) 0 ≤ bound ↔ ∀ x ∈ l, f x ≤ bound := by
  induction l with
  | nil => simp
  | cons x l ih => rw [List.foldr_cons, Nat.max_le, ih, List.forall_mem_cons]

namespace Tree

def node : {n : ℕ} → Tree ν n → Node ν (Tree ν (n - 1))
  | 0, t => Empty.elim t
  | _ + 1, t => t

def text (numeral : ν → List UInt8) : {n : ℕ} → Tree ν n → List UInt8
  | 0, t => Empty.elim t
  | _ + 1, t => Node.text numeral (text numeral) t

def levels : {n : ℕ} → Tree ν n → ℕ
  | 0, t => Empty.elim t
  | _ + 1, t => Node.levels levels t

theorem text_eq (numeral : ν → List UInt8) (t : Tree ν n) : t.text numeral = t.node.text numeral (text numeral) := by
  cases n with
  | zero => exact Empty.elim t
  | succ n => rfl

theorem pos (t : Tree ν n) : 0 < n := by
  cases n with
  | zero => exact Empty.elim t
  | succ n => exact n.succ_pos

def object (space : Space) (members : List (Member (Tree ν n))) : Tree ν (n + 1) := Node.object space members

end Tree

/-- Each part but the last brings its comma. -/
theorem length_le_commaText (space : Space) (text : α → List UInt8) (l : List α) :
    l.length ≤ (commaText space text l).length + 1 := by
  fun_induction commaText space text l with
  | case1 => exact Nat.zero_le _
  | case2 x => exact Nat.le_add_left _ _
  | case3 x y l ih =>
    simp only [List.length_cons, List.length_append] at ih ⊢
    omega

end Trees

section Access

variable {ν α β : Type}

namespace Node

def flag? : Node ν α → Option Bool
  | flag value => some value
  | _ => none

def number? : Node ν α → Option ν
  | number value => some value
  | _ => none

def string? : Node ν α → Option Spelling
  | string value => some value
  | _ => none

def items? : Node ν α → Option (List α)
  | array _ items => some (items.map (·.value))
  | _ => none

def members? : Node ν α → Option (List (Member α))
  | object _ members => some members
  | _ => none

variable {v : Node ν α}

theorem eq_flag {value : Bool} (h : v.flag? = some value) : v = flag value := by
  cases v <;> cases h
  rfl

theorem eq_number {value : ν} (h : v.number? = some value) : v = number value := by
  cases v <;> cases h
  rfl

theorem eq_string {value : Spelling} (h : v.string? = some value) : v = string value := by
  cases v <;> cases h
  rfl

theorem eq_array {values : List α} (h : v.items? = some values) :
    ∃ space items, v = array space items ∧ items.map (·.value) = values := by
  cases v <;> cases h
  exact ⟨_, _, rfl, rfl⟩

theorem eq_object {members : List (Member α)} (h : v.members? = some members) : ∃ space, v = object space members := by
  cases v <;> cases h
  exact ⟨_, rfl⟩

end Node

/-- All that is said under a name, in order. -/
def valuesOf (name : List UInt8) (members : List (Member α)) : List α :=
  (members.filter (·.key.text = name)).map (·.item.value)

/-- Reads all that is said under a name, in order, each value on top of those before it. -/
def foldUnder (name : List UInt8) (kind : β → α → Option β) (start : β) (members : List (Member α)) : Option β :=
  (valuesOf name members).foldlM kind start

variable {name : List UInt8} {members reordered : List (Member α)} {member : Member α}

theorem valuesOf_cons :
    valuesOf name (member :: members) =
      if member.key.text = name then member.item.value :: valuesOf name members else valuesOf name members := by
  by_cases h : member.key.text = name
  · simp [valuesOf, h]
  · simp [valuesOf, h]

/-- A member under another name says nothing. -/
theorem valuesOf_insert (before after : List (Member α)) (h : member.key.text ≠ name) :
    valuesOf name (before ++ member :: after) = valuesOf name (before ++ after) := by
  simp [valuesOf, h]

/-- One member at most is under a name where the keys are distinct, so there is no order among them. -/
theorem valuesOf_perm (hperm : members.Perm reordered) (hkeys : (members.map (·.key.text)).Nodup) :
    valuesOf name members = valuesOf name reordered := by
  have hfilter := hperm.filter (·.key.text = name)
  have hone : (members.filter (·.key.text = name)).length ≤ 1 := by
    have hcount := List.nodup_iff_count_le_one.mp hkeys name
    rw [List.count_eq_countP, List.countP_map, List.countP_eq_length_filter] at hcount
    simpa only [Function.comp_def, beq_eq_decide] using hcount
  unfold valuesOf
  congr 1
  cases hshort : members.filter (·.key.text = name) with
  | nil =>
    rw [hshort] at hfilter
    exact hfilter.nil_eq
  | cons first more =>
    have hmore : more = [] := by
      rw [hshort, List.length_cons] at hone
      exact List.eq_nil_of_length_eq_zero (by omega)
    rw [hshort, hmore] at hfilter
    rw [hmore]
    exact (List.singleton_perm.mp hfilter)

/-- Two members next to each other may change places where their keys are distinct. -/
theorem valuesOf_swap (before after : List (Member α)) {other : Member α} (h : member.key.text ≠ other.key.text) :
    valuesOf name (before ++ member :: other :: after) = valuesOf name (before ++ other :: member :: after) := by
  by_cases hname : member.key.text = name
  · have hother : other.key.text ≠ name := fun heq => h (hname.trans heq.symm)
    simp [valuesOf, hname, hother]
  · simp [valuesOf, List.filter_cons, hname]

theorem foldUnder_cons (kind : β → α → Option β) (start : β) :
    foldUnder name kind start (member :: members) =
      if member.key.text = name then (kind start member.item.value).bind fun next => foldUnder name kind next members
      else foldUnder name kind start members := by
  unfold foldUnder
  rw [valuesOf_cons]
  split_ifs with h
  · rw [List.foldlM_cons]
    rfl
  · rfl

theorem foldUnder_congr {kind other : β → α → Option β}
    (h : ∀ v ∈ valuesOf name members, ∀ start, kind start v = other start v) (start : β) :
    foldUnder name kind start members = foldUnder name other start members := by
  unfold foldUnder
  generalize valuesOf name members = values at h ⊢
  induction values generalizing start with
  | nil => rfl
  | cons value values ih =>
    rw [List.foldlM_cons, List.foldlM_cons, h value List.mem_cons_self]
    congr 1
    funext next
    exact ih next fun v hv => h v (List.mem_cons_of_mem value hv)

theorem foldUnder_isSome {kind : β → α → Option β} {good : α → Prop} (h : ∀ start v, (kind start v).isSome ↔ good v)
    (start : β) : (foldUnder name kind start members).isSome ↔ ∀ v ∈ valuesOf name members, good v := by
  unfold foldUnder
  generalize valuesOf name members = values
  induction values generalizing start with
  | nil => simp
  | cons value values ih =>
    rw [List.foldlM_cons, List.forall_mem_cons, ← h start value]
    cases kind start value with
    | none => simp
    | some next => simpa using ih next

/-- Where nothing depends on what was said before, the last value counts. -/
theorem foldUnder_last {kind : α → Option β} {start x : β}
    (h : foldUnder name (fun _ => kind) start members = some x) :
    ((valuesOf name members).getLast?.bind kind).getD start = x := by
  unfold foldUnder at h
  rcases List.eq_nil_or_concat (valuesOf name members) with hnil | ⟨values, value, hvalues⟩
  · rw [hnil] at h ⊢
    exact Option.some.inj h
  · rw [hvalues, List.concat_eq_append, List.foldlM_append] at h
    have hvalue : kind value = some x := by
      cases hbefore : values.foldlM (fun _ => kind) start with
      | none => simp [hbefore] at h
      | some before => simpa [hbefore] using h
    rw [hvalues, List.concat_eq_append, List.getLast?_concat, Option.bind_some, hvalue, Option.getD_some]

end Access

section Fields

variable {α ι : Type} {C : ι → Type} [Fintype ι]

/-- All the fields, where there is each of them. -/
def collect (readings : ∀ i, Option (C i)) : Option (∀ i, C i) :=
  if h : ∀ i, (readings i).isSome then some fun i => (readings i).get (h i) else none

theorem collect_some (fields : ∀ i, C i) : (collect fun i => some (fields i)) = some fields := by
  simp [collect]

theorem collect_none (readings : ∀ i, Option (C i)) {i : ι} (h : readings i = none) : collect readings = none := by
  apply dif_neg
  intro hall
  have hi := hall i
  rw [h] at hi
  cases hi

theorem collect_isSome {readings : ∀ i, Option (C i)} : (collect readings).isSome ↔ ∀ i, (readings i).isSome := by
  unfold collect
  split_ifs with h
  · simp only [Option.isSome_some, true_iff]
    exact h
  · simp [h]

theorem collect_eq_some {readings : ∀ i, Option (C i)} {fields : ∀ i, C i} (h : collect readings = some fields)
    (i : ι) : readings i = some (fields i) := by
  unfold collect at h
  split_ifs at h with hall
  rw [← Option.some.inj h, Option.some_get]

variable [DecidableEq ι] {f : (∀ i, C i) → Member α → Option (∀ i, C i)} {name : ι → List UInt8}
  {kind : ∀ i, C i → α → Option (C i)}

/-- Where each member changes the field of its name and no other, a run over the members reads the fields one by
one. -/
theorem foldlM_fields (hinj : Function.Injective name)
    (hfield : ∀ fields member i, member.key.text = name i →
      f fields member = (kind i (fields i) member.item.value).map (Function.update fields i))
    (hother : ∀ fields member, (∀ i, member.key.text ≠ name i) → f fields member = some fields)
    (members : List (Member α)) (fields : ∀ i, C i) :
    members.foldlM f fields = collect fun i => foldUnder (name i) (kind i) (fields i) members := by
  induction members generalizing fields with
  | nil => exact (collect_some fields).symm
  | cons member members ih =>
    rw [List.foldlM_cons]
    by_cases hname : ∃ i, member.key.text = name i
    · obtain ⟨i, hi⟩ := hname
      rw [hfield fields member i hi]
      cases hread : kind i (fields i) member.item.value with
      | none =>
        have hnone : foldUnder (name i) (kind i) (fields i) (member :: members) = none := by
          rw [foldUnder_cons, if_pos hi, hread, Option.bind_none]
        exact (collect_none (fun j => foldUnder (name j) (kind j) (fields j) (member :: members)) hnone).symm
      | some next =>
        rw [Option.map_some, Option.bind_eq_bind, Option.bind_some, ih]
        apply congrArg collect
        funext j
        rw [foldUnder_cons]
        by_cases hj : j = i
        · obtain rfl := hj
          rw [if_pos hi, hread, Option.bind_some, Function.update_self]
        · have hne : member.key.text ≠ name j := fun h => hj (hinj (h.symm.trans hi))
          rw [if_neg hne, Function.update_of_ne hj]
    · have hne : ∀ i, member.key.text ≠ name i := fun i hi => hname ⟨i, hi⟩
      rw [hother fields member hne, Option.bind_eq_bind, Option.bind_some, ih]
      apply congrArg collect
      funext j
      rw [foldUnder_cons, if_neg (hne j)]

end Fields

end JsonTree
