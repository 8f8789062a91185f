import Mathlib.Algebra.GroupWithZero.Nat
import Mathlib.Data.Bool.AllAny
import Mathlib.Data.Int.Basic
import Mathlib.Data.List.Basic

/-! Strings of a script: sequences of 16-bit code units, with the search, the slicing and the
number parsing of the language, and the bytes they become on the bus. -/
namespace JsText

abbrev Text := List UInt16

/-- A fact about every unit of a text is decided along the text, not over all units. -/
instance (priority := 2000) decidableForallUnits (p : UInt16 → Prop) [DecidablePred p] (text : Text) :
    Decidable (∀ c ∈ text, p c) :=
  List.decidableBAll p text

/-- A literal of the script; all of them are ASCII. -/
def lit (s : String) : Text := s.toList.map fun c => UInt16.ofNat c.toNat

/-- ASCII bytes as a string. -/
def ofBytes (bs : List UInt8) : Text := bs.map UInt8.toUInt16

section Search

/-- The first place a pattern stands at. -/
def indexOf (pattern : Text) : Text → Option ℕ
  | [] => if pattern = [] then some 0 else none
  | c :: rest =>
    if pattern.isPrefixOf (c :: rest) then some 0 else (indexOf pattern rest).map (· + 1)

def startsWith (pattern text : Text) : Bool := indexOf pattern text == some 0

def slice (text : Text) (first last : ℕ) : Text := (text.take last).drop first

def substr (text : Text) (start length : ℕ) : Text := (text.drop start).take length

def split (separator : UInt16) : Text → List Text
  | [] => [[]]
  | c :: rest =>
    if c = separator then [] :: split separator rest
    else
      match split separator rest with
      | [] => [[c]]
      | word :: words => (c :: word) :: words

variable {separator c : UInt16} {l r p : Text}

theorem indexOf_append_self (p r : Text) : indexOf p (p ++ r) = some 0 := by
  cases p with
  | nil => cases r <;> simp [indexOf]
  | cons c p =>
    have hprefix : (c :: p).isPrefixOf (c :: (p ++ r)) = true := by
      rw [ List.isPrefixOf_iff_prefix]
      exact List.prefix_append (c :: p) r
    rw [List.cons_append, indexOf, if_pos hprefix]

theorem indexOf_cons_of_ne (h : ¬ p <+: c :: l) :
    indexOf p (c :: l) = (indexOf p l).map (· + 1) := by
  rw [indexOf, if_neg]
  rwa [ List.isPrefixOf_iff_prefix]

/-- A search passes over text that the first unit of the pattern is not in. -/
theorem indexOf_append_of_not_mem (h : c ∉ l) :
    indexOf (c :: p) (l ++ r) = (indexOf (c :: p) r).map (l.length + ·) := by
  induction l with
  | nil => simp
  | cons d l ih =>
    have hd : c ≠ d := fun heq => h (heq ▸ List.mem_cons_self)
    have hl : c ∉ l := fun hmem => h (List.mem_cons_of_mem d hmem)
    have hprefix : ¬ (c :: p) <+: d :: (l ++ r) := by
      intro hp
      exact hd (List.cons_prefix_cons.mp hp).1
    rw [List.cons_append, indexOf_cons_of_ne hprefix, ih hl, Option.map_map]
    congr 1
    funext n
    simp only [Function.comp, List.length_cons]
    omega

theorem startsWith_append (p r : Text) : startsWith p (p ++ r) = true := by
  rw [startsWith, indexOf_append_self]
  rfl

theorem startsWith_iff : startsWith p l ↔ p <+: l := by
  constructor
  · intro h
    have hzero : indexOf p l = some 0 := by simpa [startsWith] using h
    cases l with
    | nil =>
      unfold indexOf at hzero
      split_ifs at hzero with hp
      subst hp
      exact List.nil_prefix
    | cons c l =>
      by_contra hp
      rw [indexOf_cons_of_ne hp] at hzero
      simp at hzero
  · rintro ⟨r, rfl⟩
    exact startsWith_append p r

theorem split_of_not_mem (h : separator ∉ l) : split separator l = [l] := by
  induction l with
  | nil => rfl
  | cons c l ih =>
    have hc : c ≠ separator := fun heq => h (heq ▸ List.mem_cons_self)
    have hl : separator ∉ l := fun hmem => h (List.mem_cons_of_mem c hmem)
    rw [split, if_neg hc, ih hl]

theorem split_append_cons (h : separator ∉ l) (r : Text) :
    split separator (l ++ separator :: r) = l :: split separator r := by
  induction l with
  | nil => simp [split]
  | cons c l ih =>
    have hc : c ≠ separator := fun heq => h (heq ▸ List.mem_cons_self)
    have hl : separator ∉ l := fun hmem => h (List.mem_cons_of_mem c hmem)
    rw [List.cons_append, split, if_neg hc, ih hl]

/-- Words after the first, each behind a separator, are split apart again. -/
theorem split_flatMap (hfirst : separator ∉ l) {words : List Text} (h : ∀ word ∈ words, separator ∉ word) :
    split separator (l ++ words.flatMap (separator :: ·)) = l :: words := by
  induction words generalizing l with
  | nil => simpa using split_of_not_mem hfirst
  | cons word words ih =>
    have hword := h word List.mem_cons_self
    have hwords := ih hword fun w hw => h w (List.mem_cons_of_mem word hw)
    rw [List.flatMap_cons, List.cons_append, split_append_cons hfirst, hwords]

/-- The first line that is the pattern's is found behind lines that do not start like it. -/
theorem indexOf_flatMap {d : UInt16} {lines : List Text} {rest : Text}
    (hlines : ∀ line ∈ lines, c ∉ line ∧ ∃ e tail, line = e :: tail ∧ e ≠ d) :
    indexOf (c :: d :: p) (lines.flatMap (c :: ·) ++ (c :: d :: p ++ rest)) =
      some (lines.flatMap (c :: ·)).length := by
  induction lines with
  | nil =>
    rw [List.flatMap_nil, List.nil_append, indexOf_append_self]
    rfl
  | cons line lines ih =>
    obtain ⟨hc, e, tail, hline, he⟩ := hlines line List.mem_cons_self
    have hrest := ih fun l hl => hlines l (List.mem_cons_of_mem line hl)
    rw [List.flatMap_cons, List.append_assoc, List.cons_append]
    have hprefix : ¬ (c :: d :: p) <+:
        c :: (line ++ (lines.flatMap (c :: ·) ++ (c :: d :: p ++ rest))) := by
      rw [hline]
      intro hp
      have hp := (List.cons_prefix_cons.mp hp).2
      exact he (List.cons_prefix_cons.mp hp).1.symm
    rw [indexOf_cons_of_ne hprefix, indexOf_append_of_not_mem hc, hrest]
    simp only [Option.map_some, List.length_append, List.length_cons]
    congr 1
    omega

end Search

section Numbers

/-- White space that `parseInt` skips. -/
def isSpace (c : UInt16) : Bool :=
  (9 ≤ c && c ≤ 13) || c == 32 || c == 0xa0 || c == 0x1680 || (0x2000 ≤ c && c ≤ 0x200a) ||
    c == 0x2028 || c == 0x2029 || c == 0x202f || c == 0x205f || c == 0x3000 || c == 0xfeff

/-- The value of a digit of some radix up to 36. -/
def digitValue (c : UInt16) : Option ℕ :=
  if 48 ≤ c ∧ c ≤ 57 then some (c.toNat - 48)
  else if 97 ≤ c ∧ c ≤ 122 then some (c.toNat - 87)
  else if 65 ≤ c ∧ c ≤ 90 then some (c.toNat - 55)
  else none

/-- The digits at the front of a text. -/
def digits (radix : ℕ) : Text → List ℕ
  | [] => []
  | c :: rest =>
    match digitValue c with
    | none => []
    | some d => if d < radix then d :: digits radix rest else []

def value (radix : ℕ) (ds : List ℕ) : ℕ := ds.foldl (fun v d => v * radix + d) 0

/-- `parseInt`; `none` is not a number. Values are exact, as the script's numbers are below 2^53. -/
def parseInt (text : Text) (radix : ℕ) : Option ℤ :=
  let text := text.dropWhile isSpace
  let negative := text.head? = some 45
  let text := if text.head? = some 45 ∨ text.head? = some 43 then text.tail else text
  let text := if radix = 16 ∧ (lit "0x" <+: text ∨ lit "0X" <+: text) then text.drop 2 else text
  let ds := digits radix text
  if ds = [] then none else some (if negative then -(value radix ds : ℤ) else value radix ds)

variable {radix : ℕ} {text : Text}

/-- Text of digits only. -/
def AllDigits (radix : ℕ) (text : Text) : Prop := ∀ c ∈ text, ∃ d < radix, digitValue c = some d

theorem digits_eq (h : AllDigits radix text) : digits radix text = text.filterMap digitValue := by
  induction text with
  | nil => rfl
  | cons c text ih =>
    obtain ⟨d, hd, hc⟩ := h c List.mem_cons_self
    have htext := ih fun c' hc' => h c' (List.mem_cons_of_mem c hc')
    simp only [digits, hc, if_pos hd, htext, List.filterMap_cons]

theorem digitValue_ne {c : UInt16} {d : ℕ} (h : digitValue c = some d) :
    isSpace c = false ∧ c ≠ 45 ∧ c ≠ 43 := by
  have hrange : (48 ≤ c ∧ c ≤ 57) ∨ (97 ≤ c ∧ c ≤ 122) ∨ (65 ≤ c ∧ c ≤ 90) := by
    unfold digitValue at h
    split_ifs at h with h1 h2 h3
    · exact .inl h1
    · exact .inr (.inl h2)
    · exact .inr (.inr h3)
  have hnat : ∀ n : UInt16, n ≤ c ↔ n.toNat ≤ c.toNat := fun n => UInt16.le_iff_toNat_le
  have hnat' : ∀ n : UInt16, c ≤ n ↔ c.toNat ≤ n.toNat := fun n => UInt16.le_iff_toNat_le
  simp only [hnat, hnat', UInt16.reduceToNat] at hrange
  refine ⟨?_, ?_, ?_⟩
  · have hne : ∀ n : UInt16, (c == n) = decide (c.toNat = n.toNat) := by
      intro n
      rw [Bool.eq_iff_iff]
      simp [UInt16.toNat_inj]
    simp only [isSpace, hne, hnat, hnat', UInt16.reduceToNat, Bool.or_eq_false_iff, Bool.and_eq_false_iff,
      decide_eq_false_iff_not]
    omega
  · rintro rfl
    simp at hrange
  · rintro rfl
    simp at hrange

/-- Digits with nothing around them are read as their value. -/
theorem parseInt_digits (h : AllDigits radix text) (hne : text ≠ []) (hradix : radix ≤ 16) :
    parseInt text radix = some (value radix (text.filterMap digitValue) : ℤ) := by
  obtain ⟨c, rest, rfl⟩ := List.exists_cons_of_ne_nil hne
  obtain ⟨d, hd, hc⟩ := h c List.mem_cons_self
  obtain ⟨hspace, hminus, hplus⟩ := digitValue_ne hc
  have hx : ∀ e : UInt16, digitValue e = some 33 → e ∉ c :: rest := by
    intro e he hmem
    obtain ⟨d', hd', he'⟩ := h e hmem
    rw [he] at he'
    cases he'
    omega
  have hlower : ¬ lit "0x" <+: c :: rest := by
    rintro ⟨tail, htail⟩
    refine hx 120 (by decide) ?_
    rw [← htail]
    exact List.mem_append_left _ (by decide)
  have hupper : ¬ lit "0X" <+: c :: rest := by
    rintro ⟨tail, htail⟩
    refine hx 88 (by decide) ?_
    rw [← htail]
    exact List.mem_append_left _ (by decide)
  have hdigits := digits_eq h
  have hnonempty : (c :: rest).filterMap digitValue ≠ [] := by
    rw [List.filterMap_cons, hc]
    simp
  simp only [parseInt, List.dropWhile_cons, hspace, Bool.false_eq_true, if_false, List.head?_cons,
    Option.some.injEq, hminus, hplus, or_self, hlower, hupper, and_false, hdigits, hnonempty]

end Numbers

section Utf8

def isHigh (c : UInt16) : Bool := 0xd800 ≤ c && c ≤ 0xdbff

def isLow (c : UInt16) : Bool := 0xdc00 ≤ c && c ≤ 0xdfff

/-- The bytes of one scalar value. -/
def encodeScalar (n : ℕ) : List UInt8 :=
  if n < 0x80 then [UInt8.ofNat n]
  else if n < 0x800 then [UInt8.ofNat (0xc0 + n / 64), UInt8.ofNat (0x80 + n % 64)]
  else if n < 0x10000 then
    [UInt8.ofNat (0xe0 + n / 4096), UInt8.ofNat (0x80 + n / 64 % 64), UInt8.ofNat (0x80 + n % 64)]
  else
    [UInt8.ofNat (0xf0 + n / 262144), UInt8.ofNat (0x80 + n / 4096 % 64),
      UInt8.ofNat (0x80 + n / 64 % 64), UInt8.ofNat (0x80 + n % 64)]

/-- What stands for half of a pair that has lost the other half. -/
def replacement : List UInt8 := [0xef, 0xbf, 0xbd]

/-- A string as it goes over the bus. -/
def toUtf8 : Text → List UInt8
  | [] => []
  | c :: rest =>
    if isHigh c then
      match rest with
      | [] => replacement
      | d :: rest' =>
        if isLow d then
          encodeScalar (0x10000 + (c.toNat - 0xd800) * 1024 + (d.toNat - 0xdc00)) ++ toUtf8 rest'
        else replacement ++ toUtf8 (d :: rest')
    else if isLow c then replacement ++ toUtf8 rest
    else encodeScalar c.toNat ++ toUtf8 rest

def IsAscii (bs : List UInt8) : Prop := ∀ b ∈ bs, b.toNat < 0x80

variable {bs : List UInt8} {text : Text}

theorem not_isHigh_of_lt {c : UInt16} (h : c.toNat < 0xd800) : isHigh c = false ∧ isLow c = false := by
  have hnat : ∀ n : UInt16, n ≤ c ↔ n.toNat ≤ c.toNat := fun n => UInt16.le_iff_toNat_le
  constructor
  · simp only [isHigh, hnat, UInt16.reduceToNat, Bool.and_eq_false_iff, decide_eq_false_iff_not]
    omega
  · simp only [isLow, hnat, UInt16.reduceToNat, Bool.and_eq_false_iff, decide_eq_false_iff_not]
    omega

/-- ASCII goes over the bus unit by unit. -/
theorem toUtf8_ofBytes (h : IsAscii bs) : toUtf8 (ofBytes bs) = bs := by
  induction bs with
  | nil => rfl
  | cons b bs ih =>
    have hb := h b List.mem_cons_self
    have hbs := ih fun b' hb' => h b' (List.mem_cons_of_mem b hb')
    have hnat : b.toUInt16.toNat = b.toNat := UInt8.toNat_toUInt16 b
    obtain ⟨hhigh, hlow⟩ := not_isHigh_of_lt (show b.toUInt16.toNat < 0xd800 by omega)
    simp only [ofBytes, List.map_cons] at hbs ⊢
    have hunit : toUtf8 (b.toUInt16 :: bs.map UInt8.toUInt16) =
        encodeScalar b.toUInt16.toNat ++ toUtf8 (bs.map UInt8.toUInt16) := by
      rw [toUtf8.eq_def]
      simp only [hhigh, hlow, Bool.false_eq_true, if_false]
    rw [hunit, hbs, hnat, encodeScalar, if_pos hb]
    simp

theorem encodeScalar_head {n : ℕ} (hn : 0x80 ≤ n) (hmax : n < 0x110000) :
    ∃ b bs, encodeScalar n = b :: bs ∧ 0x80 ≤ b.toNat := by
  unfold encodeScalar
  split_ifs with h1 h2 h3
  · omega
  · refine ⟨_, _, rfl, ?_⟩
    rw [UInt8.toNat_ofNat']
    omega
  · refine ⟨_, _, rfl, ?_⟩
    rw [UInt8.toNat_ofNat']
    omega
  · refine ⟨_, _, rfl, ?_⟩
    rw [UInt8.toNat_ofNat']
    omega

theorem isHigh_bounds {c : UInt16} (h : isHigh c) : 0xd800 ≤ c.toNat ∧ c.toNat ≤ 0xdbff := by
  simp only [isHigh, UInt16.le_iff_toNat_le, UInt16.reduceToNat, Bool.and_eq_true, decide_eq_true_eq] at h
  exact h

theorem isLow_bounds {c : UInt16} (h : isLow c) : 0xdc00 ≤ c.toNat ∧ c.toNat ≤ 0xdfff := by
  simp only [isLow, UInt16.le_iff_toNat_le, UInt16.reduceToNat, Bool.and_eq_true, decide_eq_true_eq] at h
  exact h

/-- What one character of a string adds to the bytes of the rest. -/
theorem toUtf8_cons (c : UInt16) (rest : Text) :
    ∃ head tail, toUtf8 (c :: rest) = head ++ toUtf8 tail ∧
      (c.toNat < 0x80 ∧ head = [UInt8.ofNat c.toNat] ∧ tail = rest ∨
        ∃ b bs, head = b :: bs ∧ 0x80 ≤ b.toNat) := by
  have hreplacement : ∃ b bs, replacement = b :: bs ∧ 0x80 ≤ b.toNat := ⟨0xef, [0xbf, 0xbd], rfl, by decide⟩
  rw [toUtf8.eq_def]
  by_cases hhigh : isHigh c
  · simp only [hhigh, if_true]
    cases rest with
    | nil => exact ⟨replacement, [], by simp [toUtf8], .inr hreplacement⟩
    | cons d rest =>
      dsimp only
      split_ifs with hlow
      · refine ⟨_, rest, rfl, .inr (encodeScalar_head (by omega) ?_)⟩
        have hc := isHigh_bounds hhigh
        have hd := isLow_bounds hlow
        omega
      · exact ⟨replacement, d :: rest, rfl, .inr hreplacement⟩
  · simp only [hhigh, Bool.false_eq_true, if_false]
    split_ifs with hlow
    · exact ⟨replacement, rest, rfl, .inr hreplacement⟩
    · refine ⟨_, rest, rfl, ?_⟩
      by_cases hc : c.toNat < 0x80
      · exact .inl ⟨hc, by rw [encodeScalar, if_pos hc], rfl⟩
      · have hmax := c.toNat_lt
        exact .inr (encodeScalar_head (by omega) (by omega))

/-- Only ASCII becomes ASCII. -/
theorem eq_ofBytes_of_toUtf8 (h : IsAscii bs) (htext : toUtf8 text = bs) : text = ofBytes bs := by
  induction text generalizing bs with
  | nil =>
    rw [← htext]
    rfl
  | cons c rest ih =>
    obtain ⟨head, tail, hcons, hcases⟩ := toUtf8_cons c rest
    rw [htext] at hcons
    rcases hcases with ⟨hc, hhead, htail⟩ | ⟨b, head', hhead, hb⟩
    · rw [hhead, htail] at hcons
      have hrest : IsAscii (toUtf8 rest) := by
        intro b hb
        exact h b (by rw [hcons]; exact List.mem_append_right _ hb)
      have hunit : (UInt8.ofNat c.toNat).toUInt16 = c := by
        apply UInt16.toNat_inj.mp
        rw [UInt8.toNat_toUInt16, UInt8.toNat_ofNat']
        omega
      have htexts : rest = ofBytes (toUtf8 rest) := ih hrest rfl
      rw [hcons]
      simp only [ofBytes, List.singleton_append, List.map_cons, hunit] at htexts ⊢
      rw [← htexts]
    · have hlt := h b (by rw [hcons, hhead]; exact List.mem_append_left _ List.mem_cons_self)
      omega

end Utf8

section Sizes

/-- Text in which no half of a pair stands alone. -/
inductive WellFormed : Text → Prop
  | nil : WellFormed []
  | unit {c : UInt16} {rest : Text} (high : isHigh c = false) (low : isLow c = false)
      (tail : WellFormed rest) : WellFormed (c :: rest)
  | pair {c d : UInt16} {rest : Text} (high : isHigh c) (low : isLow d) (tail : WellFormed rest) :
      WellFormed (c :: d :: rest)

/-- The bytes that a unit of well-formed text takes; each half of a pair takes two. -/
def unitBytes (c : UInt16) : ℕ :=
  if c.toNat < 0x80 then 1
  else if c.toNat < 0x800 then 2
  else if isHigh c || isLow c then 2
  else 3

def byteSize (text : Text) : ℕ := (text.map unitBytes).sum

/-- What can be written to the bus as it is: well formed, and without the end of a C string. -/
structure Clean (text : Text) : Prop where
  wellFormed : WellFormed text
  nonzero : (0 : UInt16) ∉ text

variable {a b text : Text}

theorem WellFormed.append (ha : WellFormed a) (hb : WellFormed b) : WellFormed (a ++ b) := by
  induction ha with
  | nil => exact hb
  | unit high low _ ih => exact .unit high low ih
  | pair high low _ ih => exact .pair high low ih

theorem wellFormed_of_lt (h : ∀ c ∈ text, c.toNat < 0xd800) : WellFormed text := by
  induction text with
  | nil => exact .nil
  | cons c text ih =>
    obtain ⟨hhigh, hlow⟩ := not_isHigh_of_lt (h c List.mem_cons_self)
    exact .unit hhigh hlow (ih fun d hd => h d (List.mem_cons_of_mem c hd))

theorem toUtf8_unit {c : UInt16} (hhigh : isHigh c = false) (hlow : isLow c = false) (rest : Text) :
    toUtf8 (c :: rest) = encodeScalar c.toNat ++ toUtf8 rest := by
  rw [toUtf8.eq_def]
  simp only [hhigh, hlow, Bool.false_eq_true, if_false]

theorem toUtf8_pair {c d : UInt16} (hhigh : isHigh c) (hlow : isLow d) (rest : Text) :
    toUtf8 (c :: d :: rest) =
      encodeScalar (0x10000 + (c.toNat - 0xd800) * 1024 + (d.toNat - 0xdc00)) ++ toUtf8 rest := by
  rw [toUtf8.eq_def]
  simp only [hhigh, hlow, if_true]

/-- Behind well-formed text the encoding starts afresh. -/
theorem toUtf8_append (h : WellFormed a) (b : Text) : toUtf8 (a ++ b) = toUtf8 a ++ toUtf8 b := by
  induction h with
  | nil => rfl
  | unit high low _ ih =>
    rw [List.cons_append, toUtf8_unit high low, toUtf8_unit high low, ih, List.append_assoc]
  | pair high low _ ih =>
    rw [List.cons_append, List.cons_append, toUtf8_pair high low, toUtf8_pair high low, ih,
      List.append_assoc]

theorem length_encodeScalar (n : ℕ) : (encodeScalar n).length =
    if n < 0x80 then 1 else if n < 0x800 then 2 else if n < 0x10000 then 3 else 4 := by
  unfold encodeScalar
  split_ifs <;> rfl

theorem unitBytes_high {c : UInt16} (h : isHigh c) : unitBytes c = 2 := by
  have hbounds := isHigh_bounds h
  rw [unitBytes, if_neg (by omega), if_neg (by omega), h, Bool.true_or, if_pos rfl]

theorem unitBytes_low {c : UInt16} (h : isLow c) : unitBytes c = 2 := by
  have hbounds := isLow_bounds h
  rw [unitBytes, if_neg (by omega), if_neg (by omega), h, Bool.or_true, if_pos rfl]

theorem unitBytes_scalar {c : UInt16} (hhigh : isHigh c = false) (hlow : isLow c = false) :
    unitBytes c = (encodeScalar c.toNat).length := by
  have hmax := c.toNat_lt
  rw [unitBytes, length_encodeScalar, hhigh, hlow, Bool.or_self, if_neg Bool.false_ne_true]
  split_ifs
  · rfl
  · rfl
  · rfl

/-- The units say how long the bytes are. -/
theorem length_toUtf8 (h : WellFormed text) : (toUtf8 text).length = byteSize text := by
  induction h with
  | nil => rfl
  | unit high low _ ih =>
    rw [toUtf8_unit high low, List.length_append, ih, ← unitBytes_scalar high low]
    rfl
  | @pair c d rest high low _ ih =>
    have hsize : byteSize (c :: d :: rest) = 4 + byteSize rest := by
      simp only [byteSize, List.map_cons, List.sum_cons, unitBytes_high high, unitBytes_low low]
      omega
    have hc := isHigh_bounds high
    rw [toUtf8_pair high low, List.length_append, ih, hsize, length_encodeScalar, if_neg (by omega),
      if_neg (by omega), if_neg (by omega)]

theorem encodeScalar_nonzero {n : ℕ} (hn : n ≠ 0) (hmax : n < 0x110000) : (0 : UInt8) ∉ encodeScalar n := by
  have hne : ∀ m : ℕ, m % 256 ≠ 0 → (0 : UInt8) ≠ UInt8.ofNat m := by
    intro m hm heq
    have hnat := congrArg UInt8.toNat heq
    rw [UInt8.toNat_ofNat'] at hnat
    exact hm hnat.symm
  unfold encodeScalar
  split_ifs with h1 h2 h3
  · simp only [List.mem_singleton]
    exact hne n (by omega)
  · simp only [List.mem_cons, List.not_mem_nil, or_false, not_or]
    exact ⟨hne _ (by omega), hne _ (by omega)⟩
  · simp only [List.mem_cons, List.not_mem_nil, or_false, not_or]
    exact ⟨hne _ (by omega), hne _ (by omega), hne _ (by omega)⟩
  · simp only [List.mem_cons, List.not_mem_nil, or_false, not_or]
    exact ⟨hne _ (by omega), hne _ (by omega), hne _ (by omega), hne _ (by omega)⟩

theorem Clean.toUtf8_nonzero (h : Clean text) : (0 : UInt8) ∉ toUtf8 text := by
  obtain ⟨hwell, hzero⟩ := h
  induction hwell with
  | nil => exact List.not_mem_nil
  | @unit c rest high low _ ih =>
    have hc : c.toNat ≠ 0 := by
      intro hnat
      have hcz : c = 0 := UInt16.toNat_inj.mp hnat
      rw [hcz] at hzero
      exact hzero List.mem_cons_self
    have hmax := c.toNat_lt
    rw [toUtf8_unit high low, List.mem_append, not_or]
    exact ⟨encodeScalar_nonzero hc (by omega), ih fun hmem => hzero (List.mem_cons_of_mem c hmem)⟩
  | @pair c d rest high low _ ih =>
    have hc := isHigh_bounds high
    have hd := isLow_bounds low
    rw [toUtf8_pair high low, List.mem_append, not_or]
    refine ⟨encodeScalar_nonzero (by omega) (by omega), ih fun hmem => hzero ?_⟩
    exact List.mem_cons_of_mem c (List.mem_cons_of_mem d hmem)

theorem clean_nil : Clean [] := ⟨.nil, List.not_mem_nil⟩

theorem Clean.append (ha : Clean a) (hb : Clean b) : Clean (a ++ b) := by
  refine ⟨ha.wellFormed.append hb.wellFormed, ?_⟩
  rw [List.mem_append, not_or]
  exact ⟨ha.nonzero, hb.nonzero⟩

theorem Clean.flatten {pieces : List Text} (h : ∀ piece ∈ pieces, Clean piece) : Clean pieces.flatten := by
  induction pieces with
  | nil => exact clean_nil
  | cons piece pieces ih =>
    rw [List.flatten_cons]
    exact (h piece List.mem_cons_self).append (ih fun p hp => h p (List.mem_cons_of_mem piece hp))

theorem clean_of_plain (h : ∀ c ∈ text, 0 < c.toNat ∧ c.toNat < 0xd800) : Clean text := by
  refine ⟨wellFormed_of_lt fun c hc => (h c hc).2, ?_⟩
  intro hmem
  exact absurd (h 0 hmem).1 (by decide)

theorem clean_ofBytes {bs : List UInt8} (h : (0 : UInt8) ∉ bs) : Clean (ofBytes bs) := by
  apply clean_of_plain
  intro c hc
  obtain ⟨b, hb, rfl⟩ := List.mem_map.mp hc
  have hmax := b.toNat_lt
  have hb' : b.toNat ≠ 0 := by
    intro hnat
    rw [UInt8.toNat_inj.mp (hnat.trans (by rfl : 0 = (0 : UInt8).toNat))] at hb
    exact h hb
  rw [UInt8.toNat_toUInt16]
  omega

@[simp] theorem byteSize_nil : byteSize [] = 0 := rfl

@[simp] theorem byteSize_append (a b : Text) : byteSize (a ++ b) = byteSize a + byteSize b := by
  rw [byteSize, List.map_append, List.sum_append]
  rfl

theorem byteSize_flatten (pieces : List Text) : byteSize pieces.flatten = (pieces.map byteSize).sum := by
  induction pieces with
  | nil => rfl
  | cons piece pieces ih => rw [List.flatten_cons, byteSize_append, ih, List.map_cons, List.sum_cons]

/-- ASCII takes a byte a unit. -/
theorem byteSize_ofBytes {bs : List UInt8} (h : IsAscii bs) : byteSize (ofBytes bs) = bs.length := by
  induction bs with
  | nil => rfl
  | cons b bs ih =>
    have hb := h b List.mem_cons_self
    have hunit : unitBytes b.toUInt16 = 1 := by
      rw [unitBytes, UInt8.toNat_toUInt16, if_pos hb]
    have hrest := ih fun c hc => h c (List.mem_cons_of_mem b hc)
    simp only [byteSize, ofBytes, List.map_cons, List.sum_cons, List.length_cons, hunit] at hrest ⊢
    omega

end Sizes

section Json

variable {text : Text}

/-- A unit of a string as `JSON.stringify` writes it. -/
def quoteUnit (c : UInt16) : Text :=
  if c = 34 then lit "\\\""
  else if c = 92 then lit "\\\\"
  else if c = 8 then lit "\\b"
  else if c = 12 then lit "\\f"
  else if c = 10 then lit "\\n"
  else if c = 13 then lit "\\r"
  else if c = 9 then lit "\\t"
  else if c < 32 then
    lit "\\u00" ++ [if c < 16 then 48 else 49, if c % 16 < 10 then 48 + c % 16 else 87 + c % 16]
  else [c]

/-- `JSON.stringify` of well-formed text. -/
def quote (text : Text) : Text := 34 :: text.flatMap quoteUnit ++ [34]

/-- The bytes of a unit inside quotes. -/
def quotedUnitBytes (c : UInt16) : ℕ :=
  if c = 34 ∨ c = 92 ∨ c = 8 ∨ c = 12 ∨ c = 10 ∨ c = 13 ∨ c = 9 then 2
  else if c < 32 then 6
  else unitBytes c

/-- The bytes of a text with its quotes. -/
def quotedSize (text : Text) : ℕ := 2 + (text.map quotedUnitBytes).sum

theorem quoteUnit_ascii : ∀ n < 128, byteSize (quoteUnit (UInt16.ofNat n)) = quotedUnitBytes (UInt16.ofNat n) ∧
    ∀ c ∈ quoteUnit (UInt16.ofNat n), 0 < c.toNat ∧ c.toNat < 0x80 := by
  have hall : ∀ n < 128, byteSize (quoteUnit (UInt16.ofNat n)) = quotedUnitBytes (UInt16.ofNat n) ∧
      (quoteUnit (UInt16.ofNat n)).all fun c => 0 < c.toNat ∧ c.toNat < 0x80 := by
    decide +kernel
  intro n hn
  exact ⟨(hall n hn).1, List.all_iff_forall_prop.mp (hall n hn).2⟩

theorem quoteUnit_of_ge {c : UInt16} (h : 128 ≤ c.toNat) : quoteUnit c = [c] ∧ quotedUnitBytes c = unitBytes c := by
  have hne : ∀ n : UInt16, n.toNat < 128 → c ≠ n := by
    rintro n hn rfl
    omega
  have hlt : ¬ c < 32 := by
    rw [UInt16.lt_iff_toNat_lt]
    show ¬ c.toNat < 32
    omega
  simp [quoteUnit, quotedUnitBytes, hne 34 (by decide), hne 92 (by decide), hne 8 (by decide), hne 12 (by decide),
    hne 10 (by decide), hne 13 (by decide), hne 9 (by decide), hlt]

theorem byteSize_quoteUnit (c : UInt16) : byteSize (quoteUnit c) = quotedUnitBytes c := by
  by_cases hc : c.toNat < 128
  · have hunit := (quoteUnit_ascii c.toNat hc).1
    rwa [UInt16.ofNat_toNat] at hunit
  · obtain ⟨hquote, hsize⟩ := quoteUnit_of_ge (Nat.not_lt.mp hc)
    rw [hquote, hsize]
    rfl

theorem byteSize_quote (text : Text) : byteSize (quote text) = quotedSize text := by
  have hflat : byteSize (text.flatMap quoteUnit) = (text.map quotedUnitBytes).sum := by
    induction text with
    | nil => rfl
    | cons c text ih =>
      rw [List.flatMap_cons, byteSize_append, ih, byteSize_quoteUnit, List.map_cons, List.sum_cons]
  have hquote : quote text = [34] ++ (text.flatMap quoteUnit ++ [34]) := rfl
  have hone : byteSize [34] = 1 := by decide
  rw [hquote, byteSize_append, byteSize_append, hflat, hone, quotedSize]
  omega

/-- Quotes leave nothing that the bus would cut at. -/
theorem clean_quote (h : WellFormed text) : Clean (quote text) := by
  have hflat : Clean (text.flatMap quoteUnit) := by
    induction h with
    | nil => exact clean_nil
    | @unit c rest high low _ ih =>
      rw [List.flatMap_cons]
      refine .append ?_ ih
      by_cases hc : c.toNat < 128
      · have hunit := (quoteUnit_ascii c.toNat hc).2
        rw [UInt16.ofNat_toNat] at hunit
        exact clean_of_plain fun d hd => ⟨(hunit d hd).1, by have := (hunit d hd).2; omega⟩
      · rw [(quoteUnit_of_ge (Nat.not_lt.mp hc)).1]
        refine ⟨.unit high low .nil, ?_⟩
        rw [List.mem_singleton]
        rintro rfl
        exact hc (by decide)
    | @pair c d rest high low _ ih =>
      have hc := isHigh_bounds high
      have hd := isLow_bounds low
      rw [List.flatMap_cons, List.flatMap_cons, (quoteUnit_of_ge (by omega)).1, (quoteUnit_of_ge (by omega)).1,
        ← List.append_assoc]
      refine .append ⟨.pair high low .nil, ?_⟩ ih
      simp only [List.singleton_append, List.mem_cons, List.not_mem_nil, or_false, not_or]
      constructor
      · rintro rfl
        exact absurd hc.1 (by decide)
      · rintro rfl
        exact absurd hd.1 (by decide)
  have hmark : Clean [34] := clean_of_plain (List.all_iff_forall_prop.mp (by decide))
  exact (hmark.append hflat).append hmark

end Json

end JsText
