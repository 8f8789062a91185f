import KeysharpDesktop.Kwin.Text
import KeysharpDesktop.State.Json

/-! The JSON reader on objects that are written member by member: it finds every member where it was written, and
gives back every string that is valid. -/
namespace KeysharpDesktop

namespace Json

/-- Parts with a comma between them. -/
def joined : List Bytes → Bytes
  | [] => []
  | part :: parts => part ++ parts.flatMap fun part => 44 :: part

def quoted (name : Bytes) : Bytes := 34 :: (name ++ [34])

def memberText (m : Bytes × Bytes) : Bytes := quoted m.1 ++ 58 :: m.2

/-- An object, or an array, of the given parts. -/
def containerText (object : Bool) (parts : List Bytes) : Bytes :=
  (if object then 123 else 91) :: (joined parts ++ [closing object])

def objectText (ms : List (Bytes × Bytes)) : Bytes := containerText true (ms.map memberText)

/-- A name that stands in a string as it is. -/
def Plain (name : Bytes) : Prop := ∀ b ∈ name, jsonEscape false b = [b]

instance (name : Bytes) : Decidable (Plain name) := List.decidableBAll _ _

/-- Where a scalar ends. -/
def Stops (rest : Bytes) : Prop := ∀ b ∈ rest.head?, endsScalar b

/-- The scanner takes exactly `v` from what begins with it, at any depth that leaves `k` levels. -/
structure Spans (k : ℕ) (v : Bytes) : Prop where
  starts : ∃ b ∈ v.head?, isSpace b = false
  span (fuel depth : ℕ) (rest : Bytes) : v.length ≤ fuel → depth + k ≤ 64 → Stops rest →
    valueSpan fuel depth (v ++ rest) = some (v, rest)

section Strings

theorem quoted_eq {name : Bytes} (h : Plain name) : quoted name = jsonString false name := by
  have hname : name.flatMap (jsonEscape false) = name := by
    induction name with
    | nil => rfl
    | cons b bs ih =>
      rw [List.flatMap_cons, h b (by simp), ih fun c hc => h c (by simp [hc])]
      rfl
  rw [jsonString, hname]
  rfl

/-- A byte stands for itself, behind a backslash, or as its four hexadecimal digits. -/
theorem jsonEscape_cases (byte : UInt8) :
    (jsonEscape false byte = [92, byte] ∧ (byte = 34 ∨ byte = 92)) ∨
    (∃ high low, jsonEscape false byte = [92, 117, 48, 48, high, low] ∧ byte < 0x80 ∧
      (high ≠ 34 ∧ ¬high < 0x20 ∧ high ≠ 92) ∧ (low ≠ 34 ∧ ¬low < 0x20 ∧ low ≠ 92) ∧
      hexDigit high = some (byte.toNat / 16) ∧ hexDigit low = some (byte.toNat % 16)) ∨
    (jsonEscape false byte = [byte] ∧ byte ≠ 34 ∧ ¬byte < 0x20 ∧ byte ≠ 92) := by
  have hdigit : ∀ d < 16, hexadecimal (UInt8.ofNat d) ≠ 34 ∧ ¬hexadecimal (UInt8.ofNat d) < 0x20 ∧
      hexadecimal (UInt8.ofNat d) ≠ 92 ∧ hexDigit (hexadecimal (UInt8.ofNat d)) = some d := by decide +kernel
  have hhigh : byte >>> 4 = UInt8.ofNat (byte.toNat / 16) := by
    refine forall_byte (p := fun byte => byte >>> 4 = UInt8.ofNat (byte.toNat / 16)) ?_ byte
    decide +kernel
  have hlow : byte &&& 0x0f = UInt8.ofNat (byte.toNat % 16) := by
    refine forall_byte (p := fun byte => byte &&& 0x0f = UInt8.ofNat (byte.toNat % 16)) ?_ byte
    decide +kernel
  by_cases hquote : byte = 34 ∨ byte = 92
  · left
    refine ⟨?_, hquote⟩
    obtain rfl | rfl := hquote <;> rfl
  by_cases hcontrol : byte < 0x20 ∨ byte = 0x7f
  · right; left
    have hascii : byte < 0x80 := by
      obtain hcontrol | rfl := hcontrol
      · exact UInt8.lt_trans hcontrol (by decide)
      · decide
    have hbyte := byte.toNat_lt
    obtain ⟨h1, h2, h3, h4⟩ := hdigit (byte.toNat / 16) (by omega)
    obtain ⟨l1, l2, l3, l4⟩ := hdigit (byte.toNat % 16) (by omega)
    refine ⟨_, _, ?_, hascii, ⟨h1, h2, h3⟩, ⟨l1, l2, l3⟩, h4, l4⟩
    simp only [not_or] at hquote
    simp [jsonEscape, hquote, hcontrol, hhigh, hlow, ascii]
  · right; right
    simp only [not_or] at hquote hcontrol
    refine ⟨?_, hquote.1, hcontrol.1, hquote.2⟩
    simp [jsonEscape, hquote, hcontrol]

theorem stringEnd_plain {byte : UInt8} (h : byte ≠ 34 ∧ ¬byte < 0x20 ∧ byte ≠ 92) (rest : Bytes) :
    stringEnd (byte :: rest) = stringEnd rest := by
  obtain ⟨hquote, hcontrol, hslash⟩ := h
  rw [stringEnd.eq_def]
  simp only [hquote, hcontrol, hslash, if_false]

theorem stringEnd_jsonEscape (byte : UInt8) (rest : Bytes) :
    stringEnd (jsonEscape false byte ++ rest) = stringEnd rest := by
  have hpair : ∀ next : UInt8, stringEnd (92 :: next :: rest) = stringEnd rest := fun next => by
    rw [stringEnd.eq_def]
    rfl
  obtain ⟨heq, -⟩ | ⟨high, low, heq, -, hhigh, hlow, -⟩ | ⟨heq, hplain⟩ := jsonEscape_cases byte
  · rw [heq]
    exact hpair byte
  · have hstart : stringEnd (92 :: 117 :: 48 :: 48 :: high :: low :: rest) =
        stringEnd (48 :: 48 :: high :: low :: rest) := by
      rw [stringEnd.eq_def]
      rfl
    rw [heq]
    show stringEnd (92 :: 117 :: 48 :: 48 :: high :: low :: rest) = _
    rw [hstart, stringEnd_plain (by decide), stringEnd_plain (by decide), stringEnd_plain hhigh, stringEnd_plain hlow]
  · rw [heq]
    exact stringEnd_plain hplain rest

theorem stringEnd_body (bs rest : Bytes) : stringEnd (bs.flatMap (jsonEscape false) ++ 34 :: rest) = some rest := by
  induction bs with
  | nil =>
    rw [List.flatMap_nil, List.nil_append, stringEnd.eq_def]
    rfl
  | cons b bs ih => rw [List.flatMap_cons, List.append_assoc, stringEnd_jsonEscape, ih]

/-- One turn of the reader takes one escape. -/
theorem unescape_jsonEscape (byte : UInt8) (turns : ℕ) (rest : Bytes) :
    unescape (turns + 1) (jsonEscape false byte ++ rest) = (unescape turns rest).map (byte :: ·) := by
  have hutf8 : ∀ byte : UInt8, byte < 0x80 → utf8Encode byte.toNat = [byte] := by
    refine forall_byte ?_
    decide +kernel
  obtain ⟨heq, hquote⟩ | ⟨high, low, heq, hascii, -, -, hh, hl⟩ | ⟨heq, -, -, hplain⟩ := jsonEscape_cases byte
  · rw [heq]
    obtain rfl | rfl := hquote <;> cases h : unescape turns rest <;> simp [unescape, simpleEscape, h]
  · have hbyte := byte.toNat_lt
    have hlt : byte.toNat < 0x80 := hascii
    have hcode : ((0 * 16 + 0) * 16 + byte.toNat / 16) * 16 + byte.toNat % 16 = byte.toNat := by omega
    have hzero : hexDigit 48 = some 0 := by decide
    have hscalar : escapedScalar (48 :: 48 :: high :: low :: rest) = some (byte.toNat, rest) := by
      have hunicode : unicode (48 :: 48 :: high :: low :: rest) = some (byte.toNat, rest) := by
        simp only [unicode, hzero, hh, hl, Option.bind_eq_bind, Option.bind_some, hcode]
      have hpair : ¬(0xd800 ≤ byte.toNat ∧ byte.toNat ≤ 0xdbff) := by omega
      have halone : ¬(0xdc00 ≤ byte.toNat ∧ byte.toNat ≤ 0xdfff) := by omega
      simp only [escapedScalar, hunicode, Option.bind_eq_bind, Option.bind_some, if_neg hpair, if_neg halone]
    rw [heq]
    cases h : unescape turns rest <;> simp [unescape, hscalar, hutf8 byte hascii, h]
  · rw [heq]
    cases h : unescape turns rest <;> simp [unescape, hplain, h]

theorem unescape_body (bs : Bytes) (turns : ℕ) (h : bs.length ≤ turns) :
    unescape turns (bs.flatMap (jsonEscape false)) = some bs := by
  induction bs generalizing turns with
  | nil => cases turns <;> rfl
  | cons b bs ih =>
    obtain ⟨turns, rfl⟩ := Nat.exists_eq_add_of_le' (Nat.le_trans (Nat.succ_le_succ (Nat.zero_le _)) h)
    rw [List.flatMap_cons, unescape_jsonEscape, ih turns (by simpa using h)]
    rfl

theorem length_le_body (bs : Bytes) : bs.length ≤ (bs.flatMap (jsonEscape false)).length := by
  induction bs with
  | nil => rfl
  | cons b bs ih =>
    have hone : 1 ≤ (jsonEscape false b).length := by
      obtain ⟨heq, -⟩ | ⟨high, low, heq, -⟩ | ⟨heq, -⟩ := jsonEscape_cases b <;> rw [heq] <;> simp
    rw [List.flatMap_cons, List.length_append, List.length_cons]
    omega

theorem length_jsonString (bs : Bytes) : bs.length + 2 ≤ (jsonString false bs).length := by
  have hbody := length_le_body bs
  have hquote : (ascii "\"").length = 1 := rfl
  rw [jsonString, List.length_append, List.length_append, hquote]
  omega

/-- A string reads back as what was written, where that is a text at all. -/
theorem jsonText_eq (bs : Bytes) :
    jsonText (jsonString false bs) =
      if h : utf8Valid false bs ∧ bs.length + 1 ≤ maxTextBytes then some ⟨bs, h.1, Nat.le_of_succ_le h.2⟩ else none := by
  have hlength := length_jsonString bs
  have hopen : (jsonString false bs).head? = some 34 := rfl
  have hclose : (jsonString false bs).getLast? = some 34 := by
    rw [jsonString, ← List.append_assoc]
    exact List.getLast?_concat
  have hbody : ((jsonString false bs).drop 1).dropLast = bs.flatMap (jsonEscape false) := by
    show (bs.flatMap (jsonEscape false) ++ [34]).dropLast = _
    rw [List.dropLast_concat]
  have hread := unescape_body bs (jsonString false bs).length (by omega)
  unfold jsonText
  rw [if_neg (by rw [hopen, hclose]; simp; omega), hbody, hread]
  rfl

theorem jsonText_jsonString (bs : Bytes) :
    (jsonText (jsonString false bs)).isSome ↔ utf8Valid false bs ∧ bs.length + 1 ≤ maxTextBytes := by
  rw [jsonText_eq]
  split_ifs with h
  · exact iff_of_true rfl h
  · exact iff_of_false (by simp) h

theorem utf8Valid_ascii_append {x : Bytes} (h : ∀ b ∈ x, b < 0x80 ∧ b ≠ 0) (y : Bytes) :
    utf8Valid false (x ++ y) = utf8Valid false y := by
  induction x with
  | nil => rfl
  | cons b x ih =>
    obtain ⟨hlow, hzero⟩ := h b (by simp)
    rw [List.cons_append, utf8Valid_turn]
    simp [hlow, hzero, ih fun c hc => h c (by simp [hc])]

theorem jsonEscape_ascii {byte : UInt8} (hlow : byte < 0x80) (hzero : byte ≠ 0) :
    ∀ b ∈ jsonEscape false byte, b < 0x80 ∧ b ≠ 0 := by
  have hall : byte < 0x80 → byte ≠ 0 → (jsonEscape false byte).all fun b => b < 0x80 ∧ b ≠ 0 := by
    refine forall_byte (p := fun byte => byte < 0x80 → byte ≠ 0 →
      (jsonEscape false byte).all fun b => b < 0x80 ∧ b ≠ 0) ?_ byte
    decide +kernel
  exact List.all_iff_forall_prop.mp (hall hlow hzero)

/-- What is copied unchanged is every character that is not ASCII, valid or not. -/
theorem utf8Valid_body {bs : Bytes} (hzero : 0 ∉ bs) (before : Bytes) :
    utf8Valid false (before ++ bs.flatMap (jsonEscape false)) = utf8Valid false (before ++ bs) := by
  induction bs generalizing before with
  | nil => rfl
  | cons b bs ih =>
    simp only [List.mem_cons, not_or] at hzero
    by_cases hlow : b < 0x80
    · have hone := jsonEscape_ascii hlow (Ne.symm hzero.1)
      have hhead : ∀ c ∈ (jsonEscape false b ++ bs.flatMap (jsonEscape false)).head?, c < 0x80 := by
        intro c hc
        obtain ⟨heq, -⟩ | ⟨high, low, heq, -⟩ | ⟨heq, -⟩ := jsonEscape_cases b <;> rw [heq] at hone hc <;>
          cases hc <;> exact (hone _ (by simp)).1
      have hself : ∀ c ∈ [b], c < 0x80 ∧ c ≠ 0 := by
        simpa using ⟨hlow, Ne.symm hzero.1⟩
      rw [List.flatMap_cons, utf8Valid_append hhead, utf8Valid_ascii_append hone, utf8Valid_append (by simpa using hlow),
        ← List.singleton_append, utf8Valid_ascii_append hself]
      have hrest := ih hzero.2 []
      rw [List.nil_append, List.nil_append] at hrest
      rw [hrest]
    · have hsame : jsonEscape false b = [b] := by
        revert hlow
        refine forall_byte (p := fun b => ¬b < 0x80 → jsonEscape false b = [b]) ?_ b
        decide +kernel
      have hrest := ih hzero.2 (before ++ [b])
      rw [List.append_assoc, List.append_assoc] at hrest
      rwa [List.flatMap_cons, hsame]

theorem utf8Valid_jsonString {bs : Bytes} (hzero : 0 ∉ bs) :
    utf8Valid false (jsonString false bs) = utf8Valid false bs := by
  have hquote : ∀ b ∈ ascii "\"", b < 0x80 ∧ b ≠ 0 := List.all_iff_forall_prop.mp (by decide)
  have hclose : utf8Valid false (ascii "\"") = true := by decide
  have hbody := utf8Valid_body hzero []
  rw [List.nil_append, List.nil_append] at hbody
  have hlast : ∀ b ∈ (ascii "\"").head?, b < 0x80 := by simp [ascii]
  rw [jsonString, utf8Valid_ascii_append hquote, utf8Valid_append hlast, hclose, Bool.and_true, hbody]

end Strings

section Values

variable {k : ℕ} {v rest : Bytes} {object : Bool}

theorem skipSpace_starts (h : ∃ b ∈ v.head?, isSpace b = false) (rest : Bytes) : skipSpace (v ++ rest) = v ++ rest := by
  obtain ⟨b, hb, hspace⟩ := h
  cases v with
  | nil => cases hb
  | cons c v =>
    cases hb
    rw [List.cons_append, skipSpace, List.dropWhile_cons_of_neg (by simp [hspace])]

theorem spanTo_append (v rest : Bytes) : spanTo (v ++ rest) rest = v := by
  rw [spanTo, List.length_append, Nat.add_sub_cancel, List.take_left']
  rfl

theorem span_string (bs rest : Bytes) (fuel depth : ℕ) (hfuel : 0 < fuel) (hdepth : depth ≤ 64) :
    valueSpan fuel depth (jsonString false bs ++ rest) = some (jsonString false bs, rest) := by
  obtain ⟨fuel, rfl⟩ := Nat.exists_eq_succ_of_ne_zero (Nat.pos_iff_ne_zero.mp hfuel)
  have hcons : jsonString false bs ++ rest = 34 :: (bs.flatMap (jsonEscape false) ++ 34 :: rest) := by
    rw [jsonString, List.append_assoc, List.append_assoc]
    rfl
  have hskip : skipSpace (jsonString false bs ++ rest) = jsonString false bs ++ rest :=
    skipSpace_starts ⟨34, rfl, rfl⟩ rest
  rw [valueSpan, if_neg (Nat.not_lt.mpr hdepth)]
  dsimp only
  rw [hskip, hcons]
  simp only [if_true, stringEnd_body, Option.bind_eq_bind, Option.bind_some]
  rw [← hcons, spanTo_append]

theorem spans_string (bs : Bytes) : Spans 0 (jsonString false bs) where
  starts := ⟨34, rfl, rfl⟩
  span fuel depth rest hfuel hdepth _ := by
    have hlength := length_jsonString bs
    exact span_string bs rest fuel depth (by omega) hdepth

/-- A number or a keyword. -/
theorem spans_word (hends : ∀ b ∈ v, endsScalar b = false) (hstart : ∃ b ∈ v.head?, b ≠ 34 ∧ b ≠ 123 ∧ b ≠ 91) :
    Spans 0 v := by
  obtain ⟨b, hb, hquote, hobject, harray⟩ := hstart
  cases v with
  | nil => cases hb
  | cons c v =>
    cases hb
    have hspace : isSpace b = false := by
      have hb := hends b (by simp)
      simp only [endsScalar, Bool.or_eq_false_iff] at hb
      exact hb.2
    refine ⟨⟨b, rfl, hspace⟩, ?_⟩
    intro fuel depth rest hfuel hdepth hrest
    rw [List.length_cons] at hfuel
    obtain ⟨fuel, rfl⟩ := Nat.exists_eq_add_of_le' (Nat.le_trans (Nat.le_add_left 1 _) hfuel)
    have hskip : skipSpace (b :: v ++ rest) = b :: v ++ rest := skipSpace_starts ⟨b, rfl, hspace⟩ rest
    have hdrop : (b :: v ++ rest).dropWhile (fun b => !endsScalar b) = rest := by
      rw [List.dropWhile_append_of_pos (by simpa using hends)]
      cases rest with
      | nil => rfl
      | cons c rest => rw [List.dropWhile_cons_of_neg (by simp [hrest c rfl])]
    rw [valueSpan, if_neg (Nat.not_lt.mpr (by omega))]
    dsimp only
    rw [hskip]
    simp only [List.cons_append] at hdrop ⊢
    simp only [hquote, hobject, harray, or_self, if_false, hdrop]
    rw [if_neg (by simp; omega), ← List.cons_append, spanTo_append]

/-- A part of a container, which the scanner passes. -/
structure Parts (k : ℕ) (object : Bool) (part : Bytes) : Prop where
  starts : ∃ b ∈ part.head?, isSpace b = false ∧ b ≠ closing object
  passes (fuel depth : ℕ) (rest : Bytes) : part.length ≤ fuel → depth + k ≤ 64 → Stops rest →
    partEnd (valueSpan fuel depth) object (part ++ rest) = some rest

theorem parts_string (bs : Bytes) : Parts 0 false (jsonString false bs) where
  starts := ⟨34, rfl, rfl, by decide⟩
  passes fuel depth rest hfuel hdepth hrest := by
    unfold partEnd
    rw [(spans_string bs).span fuel depth rest hfuel hdepth hrest]
    rfl

theorem length_memberText (m : Bytes × Bytes) : (memberText m).length = m.1.length + m.2.length + 3 := by
  simp only [memberText, quoted, List.length_append, List.length_cons, List.length_nil]
  omega

theorem parts_member {name : Bytes} (hname : Plain name) (h : Spans k v) : Parts k true (memberText (name, v)) where
  starts := ⟨34, rfl, rfl, by decide⟩
  passes fuel depth rest hfuel hdepth hrest := by
    rw [length_memberText] at hfuel
    dsimp only at hfuel
    have hkey := span_string name (58 :: (v ++ rest)) fuel depth (by omega) (by omega)
    have hvalue := h.span fuel depth rest (by omega) hdepth hrest
    rw [← quoted_eq hname] at hkey
    have hcolon : skipSpace (58 :: (v ++ rest)) = 58 :: (v ++ rest) := List.dropWhile_cons_of_neg (by decide)
    unfold partEnd
    rw [memberText, List.append_assoc, List.cons_append, hkey]
    simp only [Option.bind_eq_bind, Option.bind_some, hcolon, Bool.not_true, Bool.false_eq_true, if_false]
    rw [if_neg (by simp [quoted]), List.tail_cons, hvalue]
    rfl

theorem containerEnd_joined {parts : List Bytes} (h : ∀ part ∈ parts, Parts k object part) (fuel depth : ℕ)
    (rest : Bytes) (hfuel : (joined parts).length + 1 ≤ fuel) (hdepth : depth + 1 + k ≤ 64) :
    containerEnd fuel depth object (joined parts ++ closing object :: rest) = some rest := by
  have hends : endsScalar (closing object) = true := by cases object <;> rfl
  have hcomma : (44 : UInt8) ≠ closing object := by cases object <;> decide
  have hspace : isSpace (closing object) = false := by cases object <;> rfl
  induction parts generalizing fuel with
  | nil =>
    obtain ⟨fuel, rfl⟩ := Nat.exists_eq_add_of_le' (Nat.le_trans (Nat.le_add_left 1 _) hfuel)
    simp [joined, containerEnd]
  | cons part parts ih =>
    obtain ⟨fuel, rfl⟩ := Nat.exists_eq_add_of_le' (Nat.le_trans (Nat.le_add_left 1 _) hfuel)
    have hpart := h part (by simp)
    obtain ⟨b, hb, hstart, hopen⟩ := hpart.starts
    rw [joined, List.length_append] at hfuel
    have hhead : (joined (part :: parts) ++ closing object :: rest).head? = some b := by
      cases part with
      | nil => cases hb
      | cons c part => exact hb
    have hstops : Stops ((parts.flatMap fun part => 44 :: part) ++ closing object :: rest) := by
      intro c hc
      cases parts with
      | nil =>
        cases hc
        exact hends
      | cons q parts =>
        cases hc
        rfl
    have hpass := hpart.passes fuel (depth + 1) _ (by omega) (by omega) hstops
    rw [containerEnd, hhead, if_neg (by simpa using hopen), joined, List.append_assoc, hpass]
    simp only [Option.bind_eq_bind, Option.bind_some]
    cases parts with
    | nil =>
      have hskip : skipSpace (closing object :: rest) = closing object :: rest :=
        List.dropWhile_cons_of_neg (by simp [hspace])
      rw [List.flatMap_nil, List.nil_append, hskip]
      simp
    | cons q parts =>
      have hq := h q (by simp)
      obtain ⟨c, hc, hqstart, hqopen⟩ := hq.starts
      have hrest : ((q :: parts).flatMap fun part => 44 :: part) ++ closing object :: rest =
          44 :: (joined (q :: parts) ++ closing object :: rest) := by
        simp only [joined, List.flatMap_cons, List.cons_append, List.append_assoc]
      have hskip : skipSpace (44 :: (joined (q :: parts) ++ closing object :: rest)) =
          44 :: (joined (q :: parts) ++ closing object :: rest) := List.dropWhile_cons_of_neg (by decide)
      have hnext : skipSpace (joined (q :: parts) ++ closing object :: rest) =
          joined (q :: parts) ++ closing object :: rest := by
        rw [joined, List.append_assoc]
        exact skipSpace_starts ⟨c, hc, hqstart⟩ _
      have hnexthead : (joined (q :: parts) ++ closing object :: rest).head? = some c := by
        cases q with
        | nil => cases hc
        | cons d q => exact hc
      have hlong : (joined (q :: parts)).length + 1 ≤ fuel := by
        have hone : 1 ≤ part.length := by
          cases part with
          | nil => cases hb
          | cons d part => simp
        simp only [List.flatMap_cons, List.length_append, List.length_cons] at hfuel
        rw [joined, List.length_append]
        omega
      have hgoes : ¬(joined (q :: parts) ++ closing object :: rest = [] ∨ some c = some (closing object)) := by
        simp [hqopen]
      rw [hrest]
      simp only [hskip, List.head?_cons, Option.some.injEq, hcomma, if_false, ne_eq, not_true_eq_false, List.tail_cons,
        hnext, hnexthead]
      rw [Option.some.injEq] at hgoes
      rw [if_neg hgoes]
      exact ih (fun part hmem => h part (by simp [hmem])) fuel hlong

theorem spans_container {parts : List Bytes} (h : ∀ part ∈ parts, Parts k object part) :
    Spans (k + 1) (containerText object parts) := by
  have hopening : ∃ b ∈ (containerText object parts).head?, isSpace b = false := by
    cases object <;> exact ⟨_, rfl, rfl⟩
  refine ⟨hopening, ?_⟩
  intro fuel depth rest hfuel hdepth hrest
  have hlength : (containerText object parts).length = (joined parts).length + 2 := by
    simp [containerText]
  obtain ⟨fuel, rfl⟩ := Nat.exists_eq_add_of_le' (Nat.le_trans (show 1 ≤ _ by omega) hfuel)
  have hinner : skipSpace (joined parts ++ closing object :: rest) = joined parts ++ closing object :: rest := by
    cases parts with
    | nil => cases object <;> exact List.dropWhile_cons_of_neg (by decide)
    | cons part parts =>
      obtain ⟨b, hb, hstart, -⟩ := (h part (by simp)).starts
      rw [joined, List.append_assoc]
      exact skipSpace_starts ⟨b, hb, hstart⟩ _
  have hend := containerEnd_joined h fuel depth rest (by omega) (by omega)
  have hspan := spanTo_append (containerText object parts) rest
  rw [valueSpan, if_neg (Nat.not_lt.mpr (by omega))]
  dsimp only
  rw [skipSpace_starts hopening]
  cases object with
  | false =>
    have hcons : containerText false parts ++ rest = 91 :: (joined parts ++ closing false :: rest) := by
      simp [containerText]
    rw [hcons] at hspan ⊢
    simp [hinner, hend, hspan]
  | true =>
    have hcons : containerText true parts ++ rest = 123 :: (joined parts ++ closing true :: rest) := by
      simp [containerText]
    rw [hcons] at hspan ⊢
    simp [hinner, hend, hspan]

/-- Members with plain names and with values that the scanner takes whole. -/
def Members (ms : List (Bytes × Bytes)) : Prop := ∀ m ∈ ms, Plain m.1 ∧ ∃ k ≤ 64, Spans k m.2

theorem member_memberText {m : Bytes × Bytes} (hname : Plain m.1) (hk : k ≤ 64) (h : Spans k m.2) (hrest : Stops rest) :
    member (memberText m ++ rest) = some (quoted m.1, m.2, rest) := by
  have hlength : (memberText m ++ rest).length = m.1.length + m.2.length + 3 + rest.length := by
    rw [List.length_append, length_memberText]
  have hkey := span_string m.1 (58 :: (m.2 ++ rest)) (2 * (memberText m ++ rest).length + 2) 0 (by omega) (by omega)
  have hvalue := h.span (2 * (m.2 ++ rest).length + 2) 0 rest (by rw [List.length_append]; omega) (by omega) hrest
  have hcolon : skipSpace (58 :: (m.2 ++ rest)) = 58 :: (m.2 ++ rest) := List.dropWhile_cons_of_neg (by decide)
  rw [← quoted_eq hname] at hkey
  have hcons : memberText m ++ rest = quoted m.1 ++ 58 :: (m.2 ++ rest) := by
    rw [memberText, List.append_assoc, List.cons_append]
  unfold member value
  rw [hcons] at hkey ⊢
  rw [hkey]
  simp only [Option.bind_eq_bind, Option.bind_some, hcolon, List.head?_cons, ne_eq, not_true_eq_false, if_false,
    List.tail_cons, hvalue]

theorem members_joined {ms : List (Bytes × Bytes)} (h : Members ms) (turns : ℕ) (hturns : ms.length ≤ turns) :
    members turns (joined (ms.map memberText) ++ [125]) = ms.map fun m => (quoted m.1, m.2) := by
  induction ms generalizing turns with
  | nil =>
    have hnone : member [125] = none := by decide
    cases turns with
    | zero => rfl
    | succ turns =>
      rw [List.map_nil, joined, List.nil_append, members, hnone]
      rfl
  | cons m ms ih =>
    obtain ⟨turns, rfl⟩ := Nat.exists_eq_add_of_le' (Nat.le_trans (Nat.le_add_left 1 _) hturns)
    obtain ⟨hname, k, hk, hspans⟩ := h m (by simp)
    have hstops : Stops (((ms.map memberText).flatMap fun part => 44 :: part) ++ [125]) := by
      intro c hc
      cases ms with
      | nil =>
        cases hc
        rfl
      | cons q ms =>
        cases hc
        rfl
    have hmember := member_memberText hname hk hspans hstops
    rw [List.map_cons, joined, List.append_assoc, members, hmember]
    dsimp only
    rw [List.map_cons]
    congr 1
    cases ms with
    | nil => rfl
    | cons q ms =>
      have hrest : (((q :: ms).map memberText).flatMap fun part => 44 :: part) ++ [125] =
          44 :: (joined ((q :: ms).map memberText) ++ [125]) := by
        simp only [joined, List.map_cons, List.flatMap_cons, List.cons_append, List.append_assoc]
      have hskip : skipSpace (44 :: (joined ((q :: ms).map memberText) ++ [125])) =
          44 :: (joined ((q :: ms).map memberText) ++ [125]) := List.dropWhile_cons_of_neg (by decide)
      rw [hrest, hskip, if_neg (by simp), List.tail_cons]
      exact ih (fun m hm => h m (by simp [hm])) turns (by simpa using hturns)

theorem keyIs_quoted (name key : Bytes) : keyIs name (quoted key) = decide (key = name) := by
  by_cases heq : key = name
  · simp [keyIs, quoted, heq]
  · rw [decide_eq_false heq, Bool.eq_false_iff]
    intro hkey
    simp only [keyIs, quoted, Bool.and_eq_true, beq_iff_eq, List.length_cons, List.length_append, List.length_nil,
      List.drop_succ_cons, List.drop_zero] at hkey
    obtain ⟨⟨hlength, -⟩, htake⟩ := hkey
    rw [List.take_left' (by omega)] at htake
    exact heq htake

theorem length_joined (parts : List Bytes) (h : ∀ part ∈ parts, part ≠ []) : parts.length ≤ (joined parts).length := by
  have hflat : ∀ parts : List Bytes, parts.length ≤ (parts.flatMap fun part => (44 : UInt8) :: part).length := by
    intro parts
    induction parts with
    | nil => rfl
    | cons part parts ih =>
      rw [List.flatMap_cons, List.length_append, List.length_cons, List.length_cons]
      omega
  cases parts with
  | nil => rfl
  | cons part parts =>
    have hone : 1 ≤ part.length := List.length_pos_iff.mpr (h part (by simp))
    have hrest := hflat parts
    rw [joined, List.length_append, List.length_cons]
    omega

/-- The reader finds the first member of a name. -/
theorem field_objectText {ms : List (Bytes × Bytes)} (h : Members ms) (name : String) :
    field (objectText ms) name = (ms.find? fun m => decide (m.1 = ascii name)).map Prod.snd := by
  have hskip : skipSpace (objectText ms) = objectText ms := List.dropWhile_cons_of_neg (by decide)
  have hlength : (objectText ms).length = (joined (ms.map memberText)).length + 2 := by
    simp [objectText, containerText]
  have hcount := length_joined (ms.map memberText) (by
    intro part hpart
    obtain ⟨m, -, rfl⟩ := List.mem_map.mp hpart
    exact List.cons_ne_nil _ _)
  rw [List.length_map] at hcount
  have hmembers := members_joined h (objectText ms).length (by omega)
  have htail : (objectText ms).tail = joined (ms.map memberText) ++ [125] := rfl
  have hfind : ∀ ms : List (Bytes × Bytes),
      ((ms.map fun m => (quoted m.1, m.2)).find? fun m => keyIs (ascii name) m.1).map Prod.snd =
        (ms.find? fun m => decide (m.1 = ascii name)).map Prod.snd := by
    intro ms
    simp only [List.find?_map, Function.comp_def, keyIs_quoted, Option.map_map]
  unfold field
  dsimp only
  rw [hskip, if_neg (by rw [hlength]; simp [objectText, containerText]), fieldLoop_eq, htail, hmembers, hfind]

theorem numberDigits_eq {ds : Bytes} (hdigits : ∀ d ∈ ds, isDigit d) (parsed : ℕ)
    (h : ds.foldl (fun v d => v * 10 + (d.toNat - 48)) parsed < 2 ^ 64) :
    numberDigits parsed ds = some (ds.foldl (fun v d => v * 10 + (d.toNat - 48)) parsed) := by
  have hgrows : ∀ (ds : Bytes) (v : ℕ), v ≤ ds.foldl (fun v d => v * 10 + (d.toNat - 48)) v := by
    intro ds
    induction ds with
    | nil => exact fun v => Nat.le_refl v
    | cons d ds ih =>
      intro v
      have hrest := ih (v * 10 + (d.toNat - 48))
      rw [List.foldl_cons]
      omega
  induction ds generalizing parsed with
  | nil => rfl
  | cons d ds ih =>
    have hd := hdigits d (by simp)
    simp only [isDigit, Bool.and_eq_true, decide_eq_true_eq] at hd
    have hrange : ¬(d < 48 ∨ 57 < d) := by
      rw [not_or, UInt8.not_lt, UInt8.not_lt]
      exact hd
    have hnext := hgrows ds (parsed * 10 + (d.toNat - 48))
    rw [List.foldl_cons] at h ⊢
    rw [numberDigits, if_neg hrange, if_neg (by omega)]
    exact ih (fun c hc => hdigits c (by simp [hc])) _ h

theorem plain_decimalText (n : ℕ) : Plain (decimalText n) := by
  intro b hb
  exact forall_digit (p := fun b => jsonEscape false b = [b]) (by decide) b (decimalText_all n b hb)

/-- A number in quotes reads back where it fits. -/
theorem number_quoted {n : ℕ} (h : n < 2 ^ 64) : number (jsonString false (decimalText n)) = some n := by
  have hne := decimalText_ne_nil n
  have hpositive : 0 < (decimalText n).length := List.length_pos_iff.mpr hne
  have hshort : (decimalText n).length ≤ 20 := length_decimalText (by omega) (by omega)
  have hvalue := digitsValue_decimalText n
  have hdigits := numberDigits_eq (decimalText_all n) 0 (by rw [← digitsValue, hvalue]; exact h)
  rw [← digitsValue, hvalue] at hdigits
  have hbody : ((quoted (decimalText n)).drop 1).dropLast = decimalText n := by
    show (decimalText n ++ [34]).dropLast = _
    rw [List.dropLast_concat]
  rw [← quoted_eq (plain_decimalText n)]
  unfold number
  have hquoted : 2 ≤ (quoted (decimalText n)).length ∧ (quoted (decimalText n)).head? = some 34 :=
    ⟨by simp [quoted], rfl⟩
  simp only [if_pos hquoted, hbody]
  rw [if_neg (by omega), hdigits]

end Values

end Json

end KeysharpDesktop
