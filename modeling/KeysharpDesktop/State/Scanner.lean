import Mathlib.Data.List.DropRight
import KeysharpDesktop.Lib.JsonTree
import KeysharpDesktop.State.Objects

/-! The JSON scanner on any bytes, and on well-formed texts. Every step of it leaves less than it was given. -/
namespace KeysharpDesktop

namespace Json

section Total

/-- What is left of a text when something has been read. -/
abbrev Left (s : Bytes) : Type := { rest : Bytes // rest.length < s.length }

def Left.of {s t : Bytes} (h : t.length ≤ s.length) (left : Left t) : Left s :=
  ⟨left.val, lt_of_lt_of_le left.property h⟩

theorem Left.colon {s : Bytes} (left : Left s) : (skipSpace left.val).tail.length < s.length := by
  have hskip := length_skipSpace left.val
  have hleft := left.property
  rw [List.length_tail]
  omega

def stringLeft (s : Bytes) : Option (Left s) :=
  match h : stringEnd s with
  | none => none
  | some rest => some ⟨rest, stringEnd_length h⟩

/-- What follows one byte of a text, if it is that byte. -/
def tailLeft (b : UInt8) (s : Bytes) : Option (Left s) :=
  match s with
  | [] => none
  | c :: rest => if c = b then some ⟨rest, Nat.lt_succ_self _⟩ else none

mutual

/-- What follows one value. There is no fuel here: the text, or the part of it that is left, gets shorter. -/
def scan (depth : ℕ) (s : Bytes) : Option (Left s) :=
  if 64 < depth then none
  else
    match h : skipSpace s with
    | [] => none
    | b :: rest =>
      have hrest : rest.length < s.length := by
        have hskip := length_skipSpace s
        rw [h, List.length_cons] at hskip
        omega
      if b = 34 then (stringLeft rest).map (Left.of hrest.le)
      else if b = 123 ∨ b = 91 then
        (scanParts depth (b = 123) (skipSpace rest)).map (Left.of ((length_skipSpace rest).trans hrest.le))
      else if hword : ((b :: rest).dropWhile fun b => !endsScalar b).length < (b :: rest).length then
        some ⟨(b :: rest).dropWhile fun b => !endsScalar b, lt_of_lt_of_le hword (h ▸ length_skipSpace s)⟩
      else none
  termination_by (s.length, 0)
  decreasing_by
    have hspace := length_skipSpace rest
    exact Prod.Lex.left _ _ (lt_of_le_of_lt hspace hrest)

/-- What follows one element of an array, or one member of an object. -/
def scanPart (depth : ℕ) (object : Bool) (s : Bytes) : Option (Left s) :=
  match scan depth s with
  | none => none
  | some part =>
    if !object then some part
    else if (spanTo (skipSpace s) part.val).head? ≠ some 34 ∨ (skipSpace part.val).head? ≠ some 58 then none
    else (scan depth (skipSpace part.val).tail).map (Left.of part.colon.le)
  termination_by (s.length, 1)
  decreasing_by
    · exact Prod.Lex.right _ Nat.zero_lt_one
    · exact Prod.Lex.left _ _ part.colon

/-- What follows an object or an array whose opening has been read. -/
def scanParts (depth : ℕ) (object : Bool) (s : Bytes) : Option (Left s) :=
  match tailLeft (closing object) s with
  | some left => some left
  | none =>
    match scanPart (depth + 1) object s with
    | none => none
    | some part =>
      match tailLeft (closing object) (skipSpace part.val) with
      | some left => some (left.of ((length_skipSpace part.val).trans part.property.le))
      | none =>
        if (skipSpace part.val).head? ≠ some 44 then none
        else
          have hnext : (skipSpace (skipSpace part.val).tail).length < s.length :=
            lt_of_le_of_lt (length_skipSpace _) part.colon
          if skipSpace (skipSpace part.val).tail = [] ∨
              (skipSpace (skipSpace part.val).tail).head? = some (closing object) then none
          else (scanParts depth object (skipSpace (skipSpace part.val).tail)).map (Left.of hnext.le)
  termination_by (s.length, 2)
  decreasing_by
    · exact Prod.Lex.right _ Nat.one_lt_two
    · exact Prod.Lex.left _ _ hnext

end

/-- One value and what follows it. -/
def scanned (depth : ℕ) (s : Bytes) : Option (Bytes × Bytes) :=
  (scan depth s).map fun left => (spanTo (skipSpace s) left.val, left.val)

theorem stringLeft_val (s : Bytes) : (stringLeft s).map Subtype.val = stringEnd s := by
  unfold stringLeft
  split
  · next h => exact h.symm
  · next h => exact h.symm

theorem tailLeft_eq_some {b : UInt8} {s : Bytes} {left : Left s} (h : tailLeft b s = some left) :
    s.head? = some b ∧ left.val = s.tail := by
  unfold tailLeft at h
  split at h
  · cases h
  · next hbyte =>
    split_ifs at h with heq
    cases h
    exact ⟨congrArg some heq, rfl⟩

theorem tailLeft_eq_none {b : UInt8} {s : Bytes} (h : tailLeft b s = none) : s.head? ≠ some b := by
  unfold tailLeft at h
  split at h
  · exact fun hhead => nomatch hhead
  · split_ifs at h with hne
    exact fun hhead => hne (Option.some.inj hhead)

/-- What follows a container. -/
def ended (depth : ℕ) (object : Bool) (s : Bytes) : Option Bytes := (scanParts depth object s).map Subtype.val

theorem scanPart_val (depth : ℕ) (object : Bool) (s : Bytes) :
    (scanPart depth object s).map Subtype.val = partEnd (scanned depth) object s := by
  rw [partEnd, scanPart, scanned]
  cases scan depth s with
  | none => rfl
  | some part =>
    simp only [Option.map_some, Option.bind_eq_bind, Option.bind_some]
    split_ifs with harray hmember
    · rfl
    · rfl
    · rw [scanned, Option.map_map, Option.map_map]
      rfl

theorem ended_eq (depth : ℕ) (object : Bool) (s : Bytes) :
    ended depth object s =
      if s.head? = some (closing object) then some s.tail
      else (partEnd (scanned (depth + 1)) object s).bind fun after =>
        if (skipSpace after).head? = some (closing object) then some (skipSpace after).tail
        else if (skipSpace after).head? ≠ some 44 then none
        else if skipSpace (skipSpace after).tail = [] ∨
            (skipSpace (skipSpace after).tail).head? = some (closing object) then none
        else ended depth object (skipSpace (skipSpace after).tail) := by
  rw [ended, scanParts, ← scanPart_val]
  cases hclose : tailLeft (closing object) s with
  | some left =>
    obtain ⟨hhead, htail⟩ := tailLeft_eq_some hclose
    rw [if_pos hhead]
    exact congrArg some htail
  | none =>
    rw [if_neg (tailLeft_eq_none hclose)]
    cases scanPart (depth + 1) object s with
    | none => rfl
    | some part =>
      simp only [Option.map_some, Option.bind_some]
      cases hend : tailLeft (closing object) (skipSpace part.val) with
      | some left =>
        obtain ⟨hhead, htail⟩ := tailLeft_eq_some hend
        rw [if_pos hhead]
        exact congrArg some htail
      | none =>
        rw [if_neg (tailLeft_eq_none hend)]
        dsimp only
        split_ifs with hcomma hempty
        · rfl
        · rfl
        · rw [ended, Option.map_map]
          rfl

/-- The scanner of values with some fuel takes what the one without takes. -/
def ValueTotal (fuel : ℕ) : Prop :=
  ∀ depth s, 2 * s.length + 1 ≤ fuel → valueSpan fuel depth s = scanned depth s

def ContainerTotal (fuel : ℕ) : Prop :=
  ∀ depth object s, 2 * s.length + 2 ≤ fuel → containerEnd fuel depth object s = ended depth object s

theorem ContainerTotal.value {fuel : ℕ} (h : ContainerTotal fuel) : ValueTotal (fuel + 1) := by
  intro depth s hfuel
  have hskip := length_skipSpace s
  rw [valueSpan, scanned, scan]
  by_cases hdepth : 64 < depth
  · rw [if_pos hdepth, if_pos hdepth]
    rfl
  rw [if_neg hdepth, if_neg hdepth]
  split
  · next hs => simp only [hs, Option.map_none]
  · next b rest hs =>
    rw [hs, List.length_cons] at hskip
    simp only [hs]
    by_cases hquote : b = 34
    · rw [if_pos hquote, if_pos hquote, ← stringLeft_val, Option.map_map]
      cases stringLeft rest <;> rfl
    rw [if_neg hquote, if_neg hquote]
    by_cases hopen : b = 123 ∨ b = 91
    · have hspace := length_skipSpace rest
      rw [if_pos hopen, if_pos hopen, h _ _ _ (by omega), ended, Option.map_map]
      cases scanParts depth (b = 123) (skipSpace rest) <;> rfl
    · rw [if_neg hopen, if_neg hopen]
      have hle := (List.dropWhile_sublist (fun b => !endsScalar b) (l := b :: rest)).length_le
      by_cases hword : ((b :: rest).dropWhile fun b => !endsScalar b).length = (b :: rest).length
      · rw [if_pos hword, dif_neg hword.not_lt]
        rfl
      · rw [if_neg hword, dif_pos (lt_of_le_of_ne hle hword)]
        rfl

theorem scanned_length {depth : ℕ} {s v rest : Bytes} (h : scanned depth s = some (v, rest)) :
    rest.length < s.length := by
  obtain ⟨left, -, heq⟩ := Option.map_eq_some_iff.mp h
  cases heq
  exact left.property

theorem ValueTotal.part {fuel : ℕ} (h : ValueTotal fuel) (depth : ℕ) (object : Bool) (s : Bytes)
    (hfuel : 2 * s.length + 1 ≤ fuel) : partEnd (valueSpan fuel depth) object s = partEnd (scanned depth) object s := by
  rw [partEnd, partEnd, h _ _ hfuel]
  cases hpart : scanned depth s with
  | none => rfl
  | some part =>
    have hshort := scanned_length hpart
    have hskip := length_skipSpace part.2
    have htail := List.length_tail (l := skipSpace part.2)
    simp only [Option.bind_eq_bind, Option.bind_some]
    rw [h _ _ (by omega)]

theorem ContainerTotal.succ {fuel : ℕ} (hvalue : ValueTotal fuel) (h : ContainerTotal fuel) :
    ContainerTotal (fuel + 1) := by
  intro depth object s hfuel
  rw [containerEnd, ended_eq, hvalue.part _ _ _ (by omega)]
  split_ifs with hclose
  · rfl
  cases hpart : partEnd (scanned (depth + 1)) object s with
  | none => rfl
  | some after =>
    have hshort := partEnd_length (fun s v rest hv => scanned_length hv) hpart
    have hskip := length_skipSpace after
    have hnext := length_skipSpace (skipSpace after).tail
    have htail := List.length_tail (l := skipSpace after)
    simp only [Option.bind_eq_bind, Option.bind_some]
    rw [h _ _ _ (by omega)]

theorem scanners_total (fuel : ℕ) : ValueTotal fuel ∧ ContainerTotal fuel := by
  induction fuel with
  | zero => exact ⟨fun _ _ h => by omega, fun _ _ _ h => by omega⟩
  | succ fuel ih => exact ⟨ih.2.value, ih.2.succ ih.1⟩

/-- Two units of fuel for each byte are enough. -/
theorem valueSpan_scanned {fuel : ℕ} {s : Bytes} (h : 2 * s.length + 1 ≤ fuel) (depth : ℕ) :
    valueSpan fuel depth s = scanned depth s :=
  (scanners_total fuel).1 depth s h

theorem value_scanned (s : Bytes) : value s = scanned 0 s := valueSpan_scanned (Nat.le_succ _) 0

end Total

section Grammar

def opening (object : Bool) : UInt8 := if object then 123 else 91

def Blank (s : Bytes) : Prop := ∀ b ∈ s, isSpace b

/-- What may stand between quotes: any byte that is no control character, and any byte at all behind a backslash. -/
inductive Body : Bytes → Prop
  | nil : Body []
  | plain {b : UInt8} {body : Bytes} (allowed : b ≠ 34 ∧ ¬b < 0x20 ∧ b ≠ 92) (rest : Body body) : Body (b :: body)
  | escaped (b : UInt8) {body : Bytes} (rest : Body body) : Body (92 :: b :: body)

/-- A run of bytes that ends no scalar, whatever it spells. -/
structure Word (v : Bytes) : Prop where
  whole : ∀ b ∈ v, endsScalar b = false
  starts : ∃ b ∈ v.head?, b ≠ 34 ∧ b ≠ 123 ∧ b ≠ 91

mutual

/-- A value with at most some levels of values in it: a string, a word, or brackets around parts. -/
inductive Value : ℕ → Bytes → Prop
  | string {levels : ℕ} {body : Bytes} (h : Body body) : Value levels (34 :: (body ++ [34]))
  | word {levels : ℕ} {v : Bytes} (h : Word v) : Value levels v
  | empty {levels : ℕ} {object : Bool} {space : Bytes} (h : Blank space) :
      Value levels (opening object :: (space ++ [closing object]))
  | container {levels : ℕ} {object : Bool} {space parts : Bytes} (hspace : Blank space)
      (h : CommaParts levels object parts) :
      Value (levels + 1) (opening object :: (space ++ (parts ++ [closing object])))

/-- Parts with a comma after each but the last. -/
inductive CommaParts : ℕ → Bool → Bytes → Prop
  | last {levels : ℕ} {object : Bool} {part space : Bytes} (h : Part levels object part) (hspace : Blank space) :
      CommaParts levels object (part ++ space)
  | more {levels : ℕ} {object : Bool} {part space before parts : Bytes} (h : Part levels object part)
      (hspace : Blank space) (hbefore : Blank before) (rest : CommaParts levels object parts) :
      CommaParts levels object (part ++ (space ++ 44 :: (before ++ parts)))

/-- A value, or a string, a colon and a value. -/
inductive Part : ℕ → Bool → Bytes → Prop
  | item {levels : ℕ} {v : Bytes} (h : Value levels v) : Part levels false v
  | member {levels : ℕ} {key before between v : Bytes} (hkey : Body key) (hbefore : Blank before)
      (hbetween : Blank between) (h : Value levels v) :
      Part levels true (34 :: (key ++ 34 :: (before ++ 58 :: (between ++ v))))

end

theorem blank_skipSpace (s : Bytes) : ∃ space, Blank space ∧ s = space ++ skipSpace s := by
  use s.takeWhile isSpace
  exact ⟨fun b hb => List.mem_takeWhile_imp hb, List.takeWhile_append_dropWhile.symm⟩

theorem body_stringEnd {s rest : Bytes} (h : stringEnd s = some rest) : ∃ body, Body body ∧ s = body ++ 34 :: rest := by
  fun_induction stringEnd s with
  | case1 => cases h
  | case2 s =>
    cases h
    exact ⟨[], .nil, rfl⟩
  | case3 => cases h
  | case4 => cases h
  | case5 b s _ _ ih =>
    obtain ⟨body, hbody, rfl⟩ := ih h
    exact ⟨92 :: b :: body, .escaped b hbody, rfl⟩
  | case6 b s hquote hcontrol hslash ih =>
    obtain ⟨body, hbody, rfl⟩ := ih h
    exact ⟨b :: body, .plain ⟨hquote, hcontrol, hslash⟩ hbody, rfl⟩

theorem spanTo_eq {s v rest : Bytes} (h : s = v ++ rest) : spanTo s rest = v := by
  rw [h, spanTo_append]

theorem Value.string_of_quote {levels : ℕ} {v : Bytes} (h : Value levels v) (hquote : v.head? = some 34) :
    ∃ body, Body body ∧ v = 34 :: (body ++ [34]) := by
  cases h with
  | string hbody => exact ⟨_, hbody, rfl⟩
  | word hword =>
    obtain ⟨b, hb, hne, -⟩ := hword.starts
    rw [hquote] at hb
    cases hb
    exact absurd rfl hne
  | @empty _ object _ _ => cases object <;> simp [opening] at hquote
  | @container _ object _ _ _ _ => cases object <;> simp [opening] at hquote

theorem Value.ne_nil {levels : ℕ} {v : Bytes} (h : Value levels v) : v ≠ [] := by
  cases h with
  | word hword =>
    obtain ⟨b, hb, -⟩ := hword.starts
    intro hnil
    rw [hnil] at hb
    cases hb
  | string => exact List.cons_ne_nil _ _
  | empty => exact List.cons_ne_nil _ _
  | container => exact List.cons_ne_nil _ _

/-- What the scanner takes for a value after the blanks. -/
structure Takes (depth : ℕ) (s v rest : Bytes) : Prop where
  deep : depth ≤ 64
  text : skipSpace s = v ++ rest
  value : Value (64 - depth) v
  whole : Word v → Stops rest

def ValueSound (fuel : ℕ) : Prop :=
  ∀ depth s v rest, valueSpan fuel depth s = some (v, rest) → Takes depth s v rest

def ContainerSound (fuel : ℕ) : Prop :=
  ∀ depth object s rest, containerEnd fuel depth object s = some rest → skipSpace s = s →
    s = closing object :: rest ∨
    depth < 64 ∧ ∃ parts, CommaParts (64 - (depth + 1)) object parts ∧ s = parts ++ closing object :: rest

theorem eq_cons_of_head? {s : Bytes} {b : UInt8} (h : s.head? = some b) : s = b :: s.tail := by
  cases s with
  | nil => cases h
  | cons c s =>
    cases h
    rfl

theorem ValueSound.part {fuel depth : ℕ} (h : ValueSound fuel) {object : Bool} {s rest : Bytes}
    (hend : partEnd (valueSpan fuel depth) object s = some rest) (hspace : skipSpace s = s) :
    depth ≤ 64 ∧ ∃ part, Part (64 - depth) object part ∧ s = part ++ rest := by
  obtain ⟨⟨part, after⟩, hpart, hend⟩ := Option.bind_eq_some_iff.mp hend
  have htakes := h _ _ _ _ hpart
  have htext := htakes.text
  rw [hspace] at htext
  dsimp only at hend
  split_ifs at hend with harray hmember
  · cases hend
    obtain rfl : object = false := by simpa using harray
    exact ⟨htakes.deep, part, .item htakes.value, htext⟩
  · obtain ⟨⟨v, r⟩, hvalue, rfl⟩ := Option.map_eq_some_iff.mp hend
    obtain rfl : object = true := by simpa using harray
    rw [not_or, not_not, not_not] at hmember
    obtain ⟨body, hbody, rfl⟩ := htakes.value.string_of_quote hmember.1
    obtain ⟨before, hbefore, hafter⟩ := blank_skipSpace after
    rw [eq_cons_of_head? hmember.2] at hafter
    obtain ⟨between, hbetween, htail⟩ := blank_skipSpace (skipSpace after).tail
    have hinner := h _ _ _ _ hvalue
    rw [hinner.text] at htail
    refine ⟨htakes.deep, _, .member hbody hbefore hbetween hinner.value, ?_⟩
    rw [htext, hafter, htail]
    simp only [List.cons_append, List.append_assoc, List.nil_append]

theorem ContainerSound.value {fuel : ℕ} (h : ContainerSound fuel) : ValueSound (fuel + 1) := by
  intro depth s v rest hspan
  rw [valueSpan] at hspan
  split_ifs at hspan with hdeep
  rw [Nat.not_lt] at hdeep
  have htext : ∀ taken, skipSpace s = taken ++ rest → v = spanTo (skipSpace s) rest → v = taken :=
    fun taken hs hv => hv.trans (spanTo_eq hs)
  dsimp only at hspan
  cases hs : skipSpace s with
  | nil => simp [hs] at hspan
  | cons b bs =>
    rw [hs] at hspan htext
    dsimp only at hspan
    split_ifs at hspan with hquote hopen hword
    · obtain ⟨r, hr, hspan⟩ := Option.bind_eq_some_iff.mp hspan
      cases hspan
      obtain ⟨body, hbody, rfl⟩ := body_stringEnd hr
      have hsame : b :: (body ++ 34 :: rest) = 34 :: (body ++ [34]) ++ rest := by
        rw [hquote]
        simp only [List.cons_append, List.append_assoc, List.nil_append]
      rw [htext _ hsame rfl]
      refine ⟨hdeep, hs.trans hsame, .string hbody, fun hw => ?_⟩
      obtain ⟨c, hc, hne, -⟩ := hw.starts
      cases hc
      exact absurd rfl hne
    · obtain ⟨r, hr, hspan⟩ := Option.bind_eq_some_iff.mp hspan
      cases hspan
      obtain ⟨space, hspace, hbs⟩ := blank_skipSpace bs
      have hopening : b = opening (b = 123) := by
        obtain rfl | rfl := hopen <;> rfl
      have hnoword : ∀ inner, ¬Word (opening (b = 123) :: inner) := by
        intro inner hw
        obtain ⟨c, hc, -, hobject, harray⟩ := hw.starts
        cases hc
        obtain rfl | rfl := hopen
        · exact hobject rfl
        · exact harray rfl
      obtain hclose | ⟨hdepth, parts, hparts, hinner⟩ := h _ _ _ _ hr (List.dropWhile_idempotent _ _)
      · have hsame : b :: bs = opening (b = 123) :: (space ++ [closing (b = 123)]) ++ rest := by
          rw [hclose] at hbs
          rw [← hopening, hbs]
          simp only [List.cons_append, List.append_assoc, List.nil_append]
        rw [htext _ hsame rfl]
        exact ⟨hdeep, hs.trans hsame, .empty hspace, fun hw => absurd hw (hnoword _)⟩
      · have hsame : b :: bs = opening (b = 123) :: (space ++ (parts ++ [closing (b = 123)])) ++ rest := by
          rw [hinner] at hbs
          rw [← hopening, hbs]
          simp only [List.cons_append, List.append_assoc, List.nil_append]
        have hlevels : 64 - depth = 64 - (depth + 1) + 1 := by omega
        rw [htext _ hsame rfl]
        refine ⟨hdeep, hs.trans hsame, ?_, fun hw => absurd hw (hnoword _)⟩
        rw [hlevels]
        exact .container hspace hparts
    · cases hspan
      rw [not_or] at hopen
      have hsame : b :: bs = (b :: bs).takeWhile (fun b => !endsScalar b) ++
          (b :: bs).dropWhile fun b => !endsScalar b := List.takeWhile_append_dropWhile.symm
      rw [htext _ hsame rfl]
      have hwhole : ∀ c ∈ (b :: bs).takeWhile fun b => !endsScalar b, endsScalar c = false := by
        intro c hc
        simpa using List.mem_takeWhile_imp hc
      have hstart : endsScalar b = false := by
        by_contra hends
        rw [Bool.not_eq_false] at hends
        exact hword (by rw [List.dropWhile_cons_of_neg (by simp [hends])])
      refine ⟨hdeep, hs.trans hsame, .word ⟨hwhole, b, ?_, hquote, hopen.1, hopen.2⟩, fun _ c hc => ?_⟩
      · rw [List.takeWhile_cons_of_pos (by simp [hstart])]
        rfl
      · have hdrop := List.head?_dropWhile_not (fun b => !endsScalar b) (b :: bs)
        rw [Option.mem_def.mp hc] at hdrop
        simpa using hdrop

theorem ContainerSound.succ {fuel : ℕ} (hvalue : ValueSound fuel) (h : ContainerSound fuel) :
    ContainerSound (fuel + 1) := by
  intro depth object s rest hend hspace
  rw [containerEnd] at hend
  split_ifs at hend with hclose
  · cases hend
    exact Or.inl (eq_cons_of_head? hclose)
  · obtain ⟨after, hpart, hend⟩ := Option.bind_eq_some_iff.mp hend
    obtain ⟨hdeep, part, hpart, hs⟩ := hvalue.part hpart hspace
    obtain ⟨space, hblank, hafter⟩ := blank_skipSpace after
    right
    refine ⟨hdeep, ?_⟩
    split_ifs at hend with hlast hcomma
    · rw [eq_cons_of_head? hlast, Option.some.inj hend] at hafter
      refine ⟨part ++ space, .last hpart hblank, ?_⟩
      rw [hs, hafter, List.append_assoc]
    · dsimp only at hend
      rw [not_not] at hcomma
      split_ifs at hend with hempty
      rw [not_or] at hempty
      obtain ⟨before, hbefore, hnext⟩ := blank_skipSpace (skipSpace after).tail
      obtain hnone | ⟨-, parts, hparts, hrest⟩ := h _ _ _ _ hend (List.dropWhile_idempotent _ _)
      · rw [hnone] at hempty
        exact absurd rfl hempty.2
      · refine ⟨part ++ (space ++ 44 :: (before ++ parts)), .more hpart hblank hbefore hparts, ?_⟩
        rw [hrest] at hnext
        rw [eq_cons_of_head? hcomma, hnext] at hafter
        rw [hs, hafter]
        simp only [List.append_assoc, List.cons_append]

theorem scanners_sound (fuel : ℕ) : ValueSound fuel ∧ ContainerSound fuel := by
  induction fuel with
  | zero =>
    constructor
    · intro depth s v rest h
      cases h
    · intro depth object s rest h
      cases h
  | succ fuel ih => exact ⟨ih.2.value, ih.2.succ ih.1⟩

end Grammar

section Texts

open JsonTree

variable {depth : ℕ} {object : Bool} {s v rest : Bytes}

theorem scanned_none (h : 64 < depth) (s : Bytes) : scanned depth s = none := by
  rw [scanned, scan, if_pos h]
  rfl

theorem scanned_blank {space : Bytes} (h : Blank space) (depth : ℕ) (s : Bytes) :
    scanned depth (space ++ s) = scanned depth s := by
  have hskip : skipSpace (space ++ s) = skipSpace s := List.dropWhile_append_of_pos h
  have hlong := Nat.le_refl (2 * (space ++ s).length + 1)
  have hshort : 2 * s.length + 1 ≤ 2 * (space ++ s).length + 1 := by
    rw [List.length_append]
    omega
  rw [← valueSpan_scanned hlong, ← valueSpan_scanned hshort, valueSpan, valueSpan]
  dsimp only
  rw [hskip]

theorem scanned_opening (hdepth : depth ≤ 64) (object : Bool) (s : Bytes) :
    scanned depth (opening object :: s) =
      (ended depth object (skipSpace s)).map fun rest => (spanTo (opening object :: s) rest, rest) := by
  have hspace := length_skipSpace s
  have hfuel : 2 * (opening object :: s).length + 1 ≤ 2 * s.length + 2 + 1 := by
    rw [List.length_cons]
    omega
  have hskip : skipSpace (opening object :: s) = opening object :: s := by
    apply List.dropWhile_cons_of_neg
    cases object <;> decide
  have hcontainer := (scanners_total (2 * s.length + 2)).2 depth object (skipSpace s) (by omega)
  rw [← valueSpan_scanned hfuel, valueSpan, if_neg (Nat.not_lt.mpr hdepth), ← hcontainer]
  dsimp only
  rw [hskip]
  cases object <;> simp [opening, Option.map_eq_bind]

/-- The scanner on a value and what follows it, whatever the depth. -/
structure Exact (levels : ℕ) (v : Bytes) : Prop where
  starts : ∃ b ∈ v.head?, endsScalar b = false
  span (depth : ℕ) (rest : Bytes) : Stops rest →
    scanned depth (v ++ rest) = if depth + levels ≤ 64 then some (v, rest) else none

theorem Spans.exact (h : Spans 0 v) (hstarts : ∃ b ∈ v.head?, endsScalar b = false) : Exact 0 v := by
  refine ⟨hstarts, ?_⟩
  intro depth rest hrest
  by_cases hdepth : 64 < depth
  · rw [scanned_none hdepth, if_neg (by omega)]
  · have hfuel : v.length ≤ 2 * (v ++ rest).length + 1 := by
      rw [List.length_append]
      omega
    rw [← valueSpan_scanned (Nat.le_refl _), h.span _ depth rest hfuel (by omega) hrest, if_pos (by omega)]

theorem stringEnd_spelling (text : Spelling) (rest : Bytes) : stringEnd (text.text ++ 34 :: rest) = some rest := by
  have hescape : ∀ (b : UInt8) (s : Bytes), stringEnd (92 :: b :: s) = stringEnd s := by
    intro b s
    rw [stringEnd.eq_def]
    rfl
  have hdigit : ∀ b, JsonTree.hexDigit b → b ≠ 34 ∧ ¬b < 0x20 ∧ b ≠ 92 := forall_byte (by decide +kernel)
  have hdigits : ∀ (digits s : Bytes), (∀ d ∈ digits, JsonTree.hexDigit d) → stringEnd (digits ++ s) = stringEnd s := by
    intro digits s hall
    induction digits with
    | nil => rfl
    | cons d digits ih =>
      rw [List.cons_append, stringEnd_plain (hdigit d (hall d List.mem_cons_self))]
      exact ih fun c hc => hall c (List.mem_cons_of_mem d hc)
  induction text with
  | nil =>
    rw [stringEnd.eq_def]
    rfl
  | cons glyph text ih =>
    have hcons : Spelling.text (glyph :: text) = glyph.text ++ Spelling.text text := List.flatMap_cons
    rw [hcons, List.append_assoc]
    cases glyph with
    | plain b allowed =>
      have hplain : b ≠ 34 ∧ ¬b < 0x20 ∧ b ≠ 92 := ⟨allowed.2.1, UInt8.not_lt.mpr allowed.1, allowed.2.2⟩
      exact (stringEnd_plain hplain _).trans ih
    | escape b known => exact (hescape b _).trans ih
    | unicode digits four hex => exact (hescape 117 _).trans ((hdigits digits _ hex).trans ih)

theorem scanned_quoted (text : Spelling) (depth : ℕ) (rest : Bytes) :
    scanned depth (text.quoted ++ rest) = if depth ≤ 64 then some (text.quoted, rest) else none := by
  by_cases hdepth : 64 < depth
  · rw [scanned_none hdepth, if_neg (Nat.not_le.mpr hdepth)]
  · have hcons : text.quoted ++ rest = 34 :: (text.text ++ 34 :: rest) := by
      rw [Spelling.quoted, List.cons_append, List.append_assoc]
      rfl
    have hskip : skipSpace (text.quoted ++ rest) = text.quoted ++ rest := skipSpace_starts ⟨34, rfl, rfl⟩ rest
    rw [← valueSpan_scanned (Nat.le_refl _), valueSpan, if_neg hdepth, if_pos (Nat.not_lt.mp hdepth)]
    dsimp only
    rw [hskip, hcons]
    simp only [if_true, stringEnd_spelling, Option.bind_eq_bind, Option.bind_some]
    rw [← hcons, spanTo_append]

theorem exact_quoted (text : Spelling) : Exact 0 text.quoted where
  starts := ⟨34, rfl, rfl⟩
  span depth rest _ := scanned_quoted text depth rest

theorem exact_decimal (d : Decimal) : Exact 0 d.text := by
  have hletter : ∀ b, Decimal.letter b → endsScalar b = false ∧ b ≠ 34 ∧ b ≠ 123 ∧ b ≠ 91 :=
    forall_byte (by decide +kernel)
  cases hd : d.text with
  | nil => exact absurd hd d.text_ne_nil
  | cons b text =>
    have hall : ∀ c ∈ b :: text, Decimal.letter c := hd ▸ d.letter_text
    have hb := hletter b (hall b List.mem_cons_self)
    apply Spans.exact
    · exact spans_word (fun c hc => (hletter c (hall c hc)).1) ⟨b, rfl, hb.2⟩
    · exact ⟨b, rfl, hb.1⟩

theorem exact_word {v : Bytes} (hends : v.all fun b => !endsScalar b)
    (hstart : ∃ b ∈ v.head?, b ≠ 34 ∧ b ≠ 123 ∧ b ≠ 91) : Exact 0 v := by
  have hall : ∀ b ∈ v, endsScalar b = false := by simpa using hends
  apply (spans_word hall hstart).exact
  obtain ⟨b, hb, -⟩ := hstart
  exact ⟨b, hb, hall b (List.mem_of_mem_head? hb)⟩

theorem blank_space (space : Space) : Blank space.val := by
  intro b hb
  have hblank := space.property b hb
  simp only [JsonTree.blank, Bool.or_eq_true, beq_iff_eq] at hblank
  simp only [isSpace, Bool.or_eq_true, beq_iff_eq]
  tauto

theorem skipSpace_blank {space : Bytes} (h : Blank space) (s : Bytes) : skipSpace (space ++ s) = skipSpace s :=
  List.dropWhile_append_of_pos h

theorem isSpace_of_not_endsScalar {b : UInt8} (h : endsScalar b = false) : isSpace b = false := by
  simp only [endsScalar, Bool.or_eq_false_iff] at h
  exact h.2

theorem Exact.skip {levels : ℕ} (h : Exact levels v) (rest : Bytes) : skipSpace (v ++ rest) = v ++ rest := by
  obtain ⟨b, hb, hends⟩ := h.starts
  exact skipSpace_starts ⟨b, hb, isSpace_of_not_endsScalar hends⟩ rest

/-- What may follow a part. -/
def Follows (object : Bool) (rest : Bytes) : Prop := ∃ b ∈ rest.head?, b = 44 ∨ b = closing object

theorem Follows.skip (h : Follows object rest) : skipSpace rest = rest := by
  obtain ⟨b, hb, hkind⟩ := h
  have hspace : isSpace b = false := by
    obtain rfl | rfl := hkind
    · rfl
    · cases object <;> rfl
  simpa only [List.append_nil] using skipSpace_starts ⟨b, hb, hspace⟩ []

/-- The scanner passes a part of a container, or it fails where the part nests too deep. -/
structure Passes (depth : ℕ) (object : Bool) (text : Bytes) (fits : Bool) : Prop where
  starts (rest : Bytes) : ∃ b ∈ (skipSpace (text ++ rest)).head?, endsScalar b = false
  part {rest : Bytes} : Follows object rest → ∃ left, skipSpace left = rest ∧
    partEnd (scanned depth) object (skipSpace (text ++ rest)) = if fits then some left else none

theorem commaText_follows {α : Type} (space : Space) (text : α → Bytes) (object : Bool) (x : α) (l : List α)
    (rest : Bytes) : ∃ more, Follows object more ∧
      commaText space text (x :: l) ++ closing object :: rest = text x ++ more ∧
      more = if l = [] then closing object :: rest else 44 :: (commaText space text l ++ closing object :: rest) := by
  cases l with
  | nil => exact ⟨_, ⟨closing object, rfl, Or.inr rfl⟩, rfl, rfl⟩
  | cons y l =>
    use 44 :: (commaText space text (y :: l) ++ closing object :: rest), ⟨44, rfl, Or.inl rfl⟩
    refine ⟨?_, (if_neg (List.cons_ne_nil y l)).symm⟩
    rw [commaText, List.append_assoc, List.cons_append]

theorem ended_commaText {α : Type} {text : α → Bytes} {fits : α → Bool} (space : Space) {l : List α}
    (h : ∀ x ∈ l, Passes (depth + 1) object (text x) (fits x)) (rest : Bytes) :
    ended depth object (skipSpace (commaText space text l ++ closing object :: rest)) =
      if l.all fits then some rest else none := by
  have hcomma : (44 : UInt8) ≠ closing object := by cases object <;> decide
  have hends : endsScalar (closing object) = true := by cases object <;> rfl
  have hopen : ∀ {s : Bytes}, (∃ b ∈ s.head?, endsScalar b = false) → s.head? ≠ some (closing object) := by
    rintro s ⟨b, hb, hnot⟩ hhead
    rw [hhead] at hb
    cases hb
    rw [hends] at hnot
    cases hnot
  induction l with
  | nil =>
    have hfollows : Follows object (closing object :: rest) := ⟨closing object, rfl, Or.inr rfl⟩
    rw [commaText, skipSpace_blank (blank_space space), hfollows.skip, ended_eq, List.head?_cons, if_pos rfl]
    rfl
  | cons x l ih =>
    have hx := h x List.mem_cons_self
    obtain ⟨more, hfollows, htext, hmore⟩ := commaText_follows space text object x l rest
    obtain ⟨left, hleft, hpart⟩ := hx.part hfollows
    rw [htext, ended_eq, if_neg (hopen (hx.starts more)), hpart, List.all_cons]
    cases fits x with
    | false => rfl
    | true =>
      simp only [if_true, Option.bind_some, Bool.true_and, hleft]
      cases l with
      | nil =>
        rw [if_pos rfl] at hmore
        rw [hmore, List.head?_cons, if_pos rfl]
        rfl
      | cons y l =>
        rw [if_neg (List.cons_ne_nil y l)] at hmore
        have hrest := ih fun z hz => h z (List.mem_cons_of_mem x hz)
        obtain ⟨next, -, hnext, -⟩ := commaText_follows space text object y l rest
        have hstarts := (h y (List.mem_cons_of_mem x List.mem_cons_self)).starts next
        rw [← hnext] at hstarts
        have hne : skipSpace (commaText space text (y :: l) ++ closing object :: rest) ≠ [] := by
          intro hnil
          obtain ⟨b, hb, -⟩ := hstarts
          rw [hnil] at hb
          cases hb
        rw [hmore, List.head?_cons, List.tail_cons, if_neg (by simpa using hcomma), if_neg (by simp),
          if_neg (not_or.mpr ⟨hne, hopen hstarts⟩), hrest]

section Nodes

variable {α : Type} {inner : α → Bytes} {levels : α → ℕ}

theorem Follows.stops (h : Follows object rest) (space : Space) : Stops (space.val ++ rest) := by
  intro b hb
  cases hspace : space.val with
  | nil =>
    rw [hspace, List.nil_append] at hb
    obtain ⟨c, hc, rfl | rfl⟩ := h
    · rw [hc] at hb
      cases hb
      rfl
    · rw [hc] at hb
      cases hb
      cases object <;> rfl
  | cons c blanks =>
    rw [hspace] at hb
    cases hb
    have hblank := blank_space space b (hspace ▸ List.mem_cons_self)
    simp only [endsScalar, hblank, Bool.or_true]

theorem passes_item (h : ∀ x, Exact (levels x) (inner x)) (depth : ℕ) (item : Item α) :
    Passes depth false (item.text inner) (depth + levels item.value ≤ 64) := by
  have hskip : ∀ rest, skipSpace (item.text inner ++ rest) = inner item.value ++ (item.after.val ++ rest) := by
    intro rest
    rw [Item.text, List.append_assoc, List.append_assoc, skipSpace_blank (blank_space item.before), (h _).skip]
  constructor
  · intro rest
    obtain ⟨b, hb, hends⟩ := (h item.value).starts
    rw [hskip]
    exact ⟨b, List.mem_head?_append_of_mem_head? hb, hends⟩
  · intro rest hfollows
    refine ⟨item.after.val ++ rest, (skipSpace_blank (blank_space item.after) rest).trans hfollows.skip, ?_⟩
    rw [partEnd, hskip, (h item.value).span depth _ (hfollows.stops item.after)]
    by_cases hfits : depth + levels item.value ≤ 64
    · simp [hfits]
    · simp [hfits]

theorem passes_member (h : ∀ x, Exact (levels x) (inner x)) (depth : ℕ) (member : JsonTree.Member α) :
    Passes depth true (member.text inner) (depth + levels member.item.value ≤ 64) := by
  have hskip : ∀ rest, skipSpace (member.text inner ++ rest) =
      member.key.quoted ++ (member.between.val ++ 58 :: (member.item.text inner ++ rest)) := by
    intro rest
    rw [Member.text, List.append_assoc, List.append_assoc, List.append_assoc, List.cons_append,
      skipSpace_blank (blank_space member.before)]
    exact (exact_quoted member.key).skip _
  constructor
  · intro rest
    rw [hskip]
    exact ⟨34, rfl, rfl⟩
  · intro rest hfollows
    have hcolon : ∀ s : Bytes, skipSpace (58 :: s) = 58 :: s := fun s => List.dropWhile_cons_of_neg (by decide)
    refine ⟨member.item.after.val ++ rest, (skipSpace_blank (blank_space _) rest).trans hfollows.skip, ?_⟩
    rw [partEnd, hskip, scanned_quoted]
    by_cases hdepth : depth ≤ 64
    · have hquote : (member.key.quoted).head? = some 34 := rfl
      have hitem : member.item.text inner ++ rest =
          member.item.before.val ++ (inner member.item.value ++ (member.item.after.val ++ rest)) := by
        rw [Item.text, List.append_assoc, List.append_assoc]
      simp only [if_pos hdepth, Option.bind_eq_bind, Option.bind_some, skipSpace_blank (blank_space member.between),
        hcolon, hquote, List.head?_cons, List.tail_cons, hitem, scanned_blank (blank_space member.item.before)]
      rw [(h _).span depth _ (hfollows.stops member.item.after)]
      by_cases hfits : depth + levels member.item.value ≤ 64
      · simp [hfits]
      · simp [hfits]
    · have hfits : ¬depth + levels member.item.value ≤ 64 := by omega
      simp [hdepth, hfits]

/-- Brackets around parts, each of which the scanner passes or fails at. -/
theorem exact_commaText {β : Type} {text : β → Bytes} {deep : β → ℕ} (object : Bool) (space : Space) {l : List β}
    (h : ∀ x ∈ l, ∀ depth, Passes depth object (text x) (depth + deep x ≤ 64)) :
    Exact (l.foldr (fun x levels => max (deep x + 1) levels) 0)
      (opening object :: (commaText space text l ++ [closing object])) := by
  have hstarts : endsScalar (opening object) = false := by cases object <;> rfl
  refine ⟨⟨opening object, rfl, hstarts⟩, ?_⟩
  intro depth rest _
  by_cases hdepth : 64 < depth
  · rw [scanned_none hdepth, if_neg (by omega)]
  have hcons : opening object :: (commaText space text l ++ [closing object]) ++ rest =
      opening object :: (commaText space text l ++ closing object :: rest) := by
    rw [List.cons_append, List.append_assoc]
    rfl
  have hfits : l.all (fun x => decide (depth + 1 + deep x ≤ 64)) ↔
      depth + l.foldr (fun x levels => max (deep x + 1) levels) 0 ≤ 64 := by
    have hmax := foldr_max_le (fun x => deep x + 1) l (64 - depth)
    rw [List.all_eq_true]
    simp only [decide_eq_true_eq]
    constructor
    · intro hall
      have hle := hmax.mpr fun x hx => by
        have hx := hall x hx
        omega
      omega
    · intro hle x hx
      have hx := hmax.mp (by omega) x hx
      omega
  rw [hcons, scanned_opening (Nat.not_lt.mp hdepth), ended_commaText space fun x hx => h x hx (depth + 1)]
  by_cases hle : depth + l.foldr (fun x levels => max (deep x + 1) levels) 0 ≤ 64
  · rw [if_pos hle, if_pos (hfits.mpr hle), Option.map_some, ← hcons, spanTo_append]
  · rw [if_neg hle, if_neg fun hall => hle (hfits.mp hall), Option.map_none]

theorem exact_node (h : ∀ x, Exact (levels x) (inner x)) (v : Node Decimal α) :
    Exact (v.levels levels) (v.text Decimal.text inner) := by
  cases v with
  | null => exact exact_word (v := [110, 117, 108, 108]) (by decide) ⟨110, rfl, by decide⟩
  | flag value =>
    cases value with
    | true => exact exact_word (v := word true) (by decide) ⟨116, rfl, by decide⟩
    | false => exact exact_word (v := word false) (by decide) ⟨102, rfl, by decide⟩
  | number value => exact exact_decimal value
  | string value => exact exact_quoted value
  | array space items =>
    have hparts : ∀ item ∈ items, ∀ depth, Passes depth false (Item.text inner item)
        (depth + (fun item : Item α => levels item.value) item ≤ 64) := fun item _ depth => passes_item h depth item
    exact exact_commaText false space hparts
  | object space members =>
    have hparts : ∀ member ∈ members, ∀ depth, Passes depth true (Member.text inner member)
        (depth + (fun member : JsonTree.Member α => levels member.item.value) member ≤ 64) :=
      fun member _ depth => passes_member h depth member
    exact exact_commaText true space hparts

end Nodes

/-- A well-formed JSON text, nested as deep as it likes. -/
abbrev Text (n : ℕ) : Type := Tree Decimal n

def Text.text {n : ℕ} (t : Text n) : Bytes := Tree.text Decimal.text t

theorem exact_text {n : ℕ} (t : Text n) : Exact t.levels t.text := by
  induction n with
  | zero => exact Empty.elim t
  | succ n ih => exact exact_node ih t

end Texts

section Fields

open JsonTree

variable {n : ℕ}

/-- A member of an object, with every text in it. -/
abbrev Entry (n : ℕ) : Type := JsonTree.Member (Text n)

/-- The value of the first member with a name, as long as nothing up to it nests too deep. -/
def firstNamed (name : Bytes) : List (Entry n) → Option Bytes
  | [] => none
  | entry :: entries =>
    if 64 < entry.item.value.levels then none
    else if entry.key.text = name then some entry.item.value.text
    else firstNamed name entries

theorem value_blank {space : Bytes} (h : Blank space) (s : Bytes) : value (space ++ s) = value s := by
  rw [value_scanned, value_scanned, scanned_blank h]

theorem value_text (t : Text n) {rest : Bytes} (hrest : Stops rest) :
    value (t.text ++ rest) = if t.levels ≤ 64 then some (t.text, rest) else none := by
  rw [value_scanned, (exact_text t).span 0 rest hrest, Nat.zero_add]

theorem value_quoted (text : Spelling) (rest : Bytes) : value (text.quoted ++ rest) = some (text.quoted, rest) := by
  rw [value_scanned, scanned_quoted, if_pos (Nat.zero_le _)]

theorem member_entry (entry : Entry n) {rest : Bytes} (hfollows : Follows true rest) :
    member (Member.text Text.text entry ++ rest) =
      if entry.item.value.levels ≤ 64 then
        some (entry.key.quoted, entry.item.value.text, entry.item.after.val ++ rest)
      else none := by
  have hsplit : Member.text Text.text entry ++ rest = entry.before.val ++ (entry.key.quoted ++ (entry.between.val ++
      58 :: (entry.item.before.val ++ (entry.item.value.text ++ (entry.item.after.val ++ rest))))) := by
    rw [Member.text, Item.text]
    simp only [List.append_assoc, List.cons_append]
  have hcolon : ∀ s : Bytes, skipSpace (58 :: s) = 58 :: s := fun s => List.dropWhile_cons_of_neg (by decide)
  rw [hsplit, member, value_blank (blank_space entry.before), value_quoted]
  simp only [Option.bind_eq_bind, Option.bind_some, skipSpace_blank (blank_space entry.between), hcolon,
    List.head?_cons, List.tail_cons, value_blank (blank_space entry.item.before),
    value_text entry.item.value (hfollows.stops entry.item.after)]
  by_cases hfits : entry.item.value.levels ≤ 64
  · simp [hfits]
  · simp [hfits]

theorem keyIs_spelling (name : Bytes) (key : Spelling) : keyIs name key.quoted = decide (key.text = name) :=
  keyIs_quoted name key.text

theorem fieldLoop_commaText (name : Bytes) (space : Space) (entries : List (Entry n)) (rest : Bytes) (turns : ℕ)
    (hturns : entries.length ≤ turns) :
    fieldLoop name turns (commaText space (Member.text Text.text) entries ++ 125 :: rest) =
      firstNamed name entries := by
  induction entries generalizing turns with
  | nil =>
    have hfollows : Follows true (125 :: rest) := ⟨125, rfl, Or.inr rfl⟩
    have hnone : value (125 :: rest) = none := by
      have hdrop : (125 :: rest).dropWhile (fun b => !endsScalar b) = 125 :: rest :=
        List.dropWhile_cons_of_neg (by decide)
      rw [value, valueSpan, if_neg (Nat.not_lt_zero _)]
      dsimp only
      rw [hfollows.skip]
      simp [hdrop]
    cases turns with
    | zero => rfl
    | succ turns =>
      rw [fieldLoop, member, commaText, value_blank (blank_space space), hnone]
      rfl
  | cons entry entries ih =>
    obtain ⟨turns, rfl⟩ := Nat.exists_eq_add_of_le' (Nat.le_trans (Nat.le_add_left 1 _) hturns)
    obtain ⟨more, hfollows, htext, hmore⟩ := commaText_follows space (Member.text Text.text) true entry entries rest
    have hclosing : closing true = 125 := rfl
    rw [hclosing] at htext hmore
    rw [htext, fieldLoop, member_entry entry hfollows, firstNamed]
    by_cases hfits : entry.item.value.levels ≤ 64
    · have hskip : skipSpace (entry.item.after.val ++ more) = more :=
        (skipSpace_blank (blank_space entry.item.after) more).trans hfollows.skip
      rw [if_pos hfits, if_neg (Nat.not_lt.mpr hfits)]
      simp only [Option.bind_eq_bind, Option.bind_some, keyIs_spelling, decide_eq_true_eq, hskip]
      by_cases hname : entry.key.text = name
      · rw [if_pos hname, if_pos hname]
      · rw [if_neg hname, if_neg hname]
        cases entries with
        | nil =>
          rw [hmore, if_pos rfl]
          rfl
        | cons next entries =>
          rw [hmore, if_neg (List.cons_ne_nil next entries), List.head?_cons, if_neg (by simp), List.tail_cons]
          exact ih turns (by simpa using hturns)
    · rw [if_neg hfits, if_pos (Nat.not_le.mp hfits)]
      rfl

/-- An object between blanks, or before other text. -/
theorem field_text {space : Bytes} (hspace : Blank space) (inner : Space) (entries : List (Entry n)) (rest : Bytes)
    (name : String) :
    field (space ++ (Text.text (Tree.object inner entries) ++ rest)) name = firstNamed (ascii name) entries := by
  have hobject : Text.text (Tree.object inner entries) ++ rest =
      123 :: (commaText inner (Member.text Text.text) entries ++ 125 :: rest) := by
    show 123 :: (commaText inner (Member.text Text.text) entries ++ [125]) ++ rest = _
    rw [List.cons_append, List.append_assoc]
    rfl
  have hskip : skipSpace (space ++ (Text.text (Tree.object inner entries) ++ rest)) =
      123 :: (commaText inner (Member.text Text.text) entries ++ 125 :: rest) := by
    rw [skipSpace_blank hspace, hobject]
    exact List.dropWhile_cons_of_neg (by decide)
  have hcount := length_le_commaText inner (Member.text Text.text) entries
  unfold field
  dsimp only
  have hopens : ¬((123 :: (commaText inner (Member.text Text.text) entries ++ 125 :: rest)).length < 2 ∨
      (123 :: (commaText inner (Member.text Text.text) entries ++ 125 :: rest)).head? ≠ some 123) := by
    rw [not_or, not_lt, not_not]
    constructor
    · simp only [List.length_cons, List.length_append]
      omega
    · rfl
  rw [hskip, if_neg hopens, List.tail_cons]
  apply fieldLoop_commaText
  simp only [List.length_cons, List.length_append]
  omega

theorem firstNamed_found {name : Bytes} {before after : List (Entry n)} {entry : Entry n}
    (hbefore : ∀ e ∈ before, e.key.text ≠ name) (hname : entry.key.text = name) :
    firstNamed name (before ++ entry :: after) =
      if ∀ e ∈ before ++ [entry], e.item.value.levels ≤ 64 then some entry.item.value.text else none := by
  induction before with
  | nil =>
    rw [List.nil_append, List.nil_append, firstNamed, if_pos hname]
    by_cases hfits : entry.item.value.levels ≤ 64
    · rw [if_neg (Nat.not_lt.mpr hfits), if_pos (by simpa using hfits)]
    · rw [if_pos (Nat.not_le.mp hfits), if_neg (by simpa using hfits)]
  | cons e before ih =>
    have hne := hbefore e List.mem_cons_self
    have hrest := ih fun e he => hbefore e (List.mem_cons_of_mem _ he)
    rw [List.cons_append, List.cons_append, firstNamed, if_neg hne, hrest]
    simp only [List.forall_mem_cons]
    by_cases hfits : e.item.value.levels ≤ 64
    · rw [if_neg (Nat.not_lt.mpr hfits)]
      simp only [hfits, true_and]
    · rw [if_pos (Nat.not_le.mp hfits), if_neg fun hall => hfits hall.1]

theorem firstNamed_none {name : Bytes} {entries : List (Entry n)} (h : ∀ e ∈ entries, e.key.text ≠ name) :
    firstNamed name entries = none := by
  induction entries with
  | nil => rfl
  | cons e entries ih =>
    rw [firstNamed, if_neg (h e List.mem_cons_self), ih fun e he => h e (List.mem_cons_of_mem _ he), ite_self]

/-- The scanner on any text ends with what its recursion gives; what it takes is blanks and one value; a well-formed
text is taken whole where it nests no deeper than the limit; and the first member with a name is found where nothing up
to it nests deeper. -/
theorem scanner_extent :
    (∀ fuel depth s, 2 * s.length + 1 ≤ fuel → valueSpan fuel depth s = scanned depth s) ∧
    (∀ depth s v rest, scanned depth s = some (v, rest) →
      (∃ space, Blank space ∧ s = space ++ (v ++ rest)) ∧ v ≠ [] ∧ Value (64 - depth) v ∧ (Word v → Stops rest)) ∧
    (∀ (n depth : ℕ) (t : Text n) (space rest : Bytes), Blank space → Stops rest →
      scanned depth (space ++ (t.text ++ rest)) = if depth + t.levels ≤ 64 then some (t.text, rest) else none) ∧
    ∀ (n : ℕ) (inner : Space) (entries : List (Entry n)) (space rest : Bytes) (name : String), Blank space →
      (∀ before entry after, entries = before ++ entry :: after → (∀ e ∈ before, e.key.text ≠ ascii name) →
        entry.key.text = ascii name →
        field (space ++ (Text.text (Tree.object inner entries) ++ rest)) name =
          if ∀ e ∈ before ++ [entry], e.item.value.levels ≤ 64 then some entry.item.value.text else none) ∧
      ((∀ e ∈ entries, e.key.text ≠ ascii name) →
        field (space ++ (Text.text (Tree.object inner entries) ++ rest)) name = none) := by
  refine ⟨fun fuel depth s h => valueSpan_scanned h depth, ?_, ?_, ?_⟩
  · intro depth s v rest h
    rw [← valueSpan_scanned (Nat.le_refl _)] at h
    have htakes := (scanners_sound _).1 _ _ _ _ h
    obtain ⟨space, hspace, hs⟩ := blank_skipSpace s
    rw [htakes.text] at hs
    exact ⟨⟨space, hspace, hs⟩, htakes.value.ne_nil, htakes.value, htakes.whole⟩
  · intro n depth t space rest hspace hrest
    rw [scanned_blank hspace]
    exact (exact_text t).span depth rest hrest
  · intro n inner entries space rest name hspace
    rw [field_text hspace]
    constructor
    · rintro before entry after rfl hbefore hname
      exact firstNamed_found hbefore hname
    · exact firstNamed_none

theorem blank_of_mem_nil (b : UInt8) (h : b ∈ ([] : List UInt8)) : JsonTree.blank b :=
  absurd h List.not_mem_nil

def noSpace : Space := ⟨[], blank_of_mem_nil⟩

def letterKey (b : UInt8) (h : 32 ≤ b ∧ b ≠ 34 ∧ b ≠ 92) : Spelling := [.plain b h]

def entryOf (key : Spelling) (t : Text n) : Entry n := ⟨noSpace, key, noSpace, ⟨noSpace, t, noSpace⟩⟩

/-- An empty array in as many others. -/
def nested : (levels : ℕ) → Text (levels + 1)
  | 0 => Node.array noSpace []
  | levels + 1 => Node.array noSpace [⟨noSpace, nested levels, noSpace⟩]

theorem levels_nested (levels : ℕ) : (nested levels).levels = levels := by
  induction levels with
  | zero => rfl
  | succ levels ih =>
    show max ((nested levels).levels + 1) 0 = levels + 1
    rw [ih, Nat.max_zero]

def deepFirst : List (Entry 66) :=
  [entryOf (letterKey 97 (by decide)) (nested 65), entryOf (letterKey 98 (by decide)) (Node.flag true)]

/-- A member that nests too deep hides those after it. -/
theorem field_deepFirst :
    ¬∀ (n : ℕ) (entries : List (Entry n)) (name : String),
      field (Text.text (Tree.object noSpace entries)) name =
        (entries.find? fun e => decide (e.key.text = ascii name)).map fun e => e.item.value.text := by
  intro hall
  have hfield := hall 66 deepFirst "b"
  have hlevels := levels_nested 65
  have hnone : firstNamed (ascii "b") deepFirst = none := by
    show (if 64 < (nested 65).levels then none else _) = none
    rw [hlevels]
    rfl
  have hblank : Blank [] := fun _ h => absurd h List.not_mem_nil
  have htext := field_text hblank noSpace deepFirst [] "b"
  rw [List.nil_append, List.append_nil] at htext
  rw [htext, hnone] at hfield
  exact absurd hfield (by decide)

theorem blank_one : Blank [32] := by
  intro b hb
  rw [List.mem_singleton.mp hb]
  rfl

/-- A value that reads like the end of its object and a member with the name that is looked for. -/
def trickyText : Spelling :=
  [.plain 125 (by decide), .plain 44 (by decide), .escape 34 (by decide), .plain 98 (by decide), .escape 34 (by decide),
    .plain 58 (by decide), .plain 91 (by decide)]

/-- The name is in a text and in a nested object before it is a member's. -/
def trickyEntries : List (Entry 3) :=
  [entryOf (letterKey 97 (by decide)) (Node.string trickyText),
    entryOf (letterKey 99 (by decide)) (Node.object noSpace
      [entryOf (letterKey 98 (by decide)) (Node.array noSpace [⟨noSpace, (Node.flag false : Text 1), noSpace⟩] : Text 2)]),
    entryOf (letterKey 98 (by decide)) (Node.array noSpace
      [⟨noSpace, Node.flag true, noSpace⟩, ⟨noSpace, (Node.string [.plain 93 (by decide)] : Text 2), noSpace⟩])]

theorem scanner_extent_found :
    field (ascii " \x7b\"a\":\"\x7d,\\\"b\\\":[\",\"c\":\x7b\"b\":[false]\x7d,\"b\":[true,\"]\"]\x7d") "b" =
      some (ascii "[true,\"]\"]") := by
  have hbefore : ∀ e ∈ trickyEntries.take 2, e.key.text ≠ ascii "b" := by decide
  have hlevels : ∀ e ∈ trickyEntries.take 2 ++ [trickyEntries[2]], e.item.value.levels ≤ 64 := by decide
  have hfield := (scanner_extent.2.2.2 3 noSpace trickyEntries [32] [] "b" blank_one).1 (trickyEntries.take 2)
    trickyEntries[2] [] rfl hbefore (by decide)
  rw [if_pos hlevels] at hfield
  exact hfield

end Fields

end Json

end KeysharpDesktop
