import KeysharpDesktop.Hypr.Reader
import KeysharpDesktop.Lib.JsonTree

/-! What the readers of single words make of a valid text: where it is of the kind that they want, its value and all
that comes after it. -/
namespace KeysharpDesktop.Hypr

open JsonTree

section Blanks

variable {b c : UInt8} (space : Space) (s : Bytes)

theorem isSpace_of_blank (h : blank b) : isSpace b := by
  simp only [blank, Bool.or_eq_true, beq_iff_eq] at h
  rcases h with ((rfl | rfl) | rfl) | rfl <;> decide

@[simp] theorem jsonSpace_space : jsonSpace (space.val ++ s) = jsonSpace s :=
  List.dropWhile_append_of_pos fun b hb => isSpace_of_blank (space.property b hb)

theorem jsonSpace_cons (h : isSpace b = false) : jsonSpace (b :: s) = b :: s :=
  List.dropWhile_cons_of_neg (by simp [h])

@[simp] theorem jsonTake_space : jsonTake c (space.val ++ s) = jsonTake c s := by simp only [jsonTake, jsonSpace_space]

theorem jsonTake_cons (h : isSpace b = false) : jsonTake c (b :: s) = if b = c then some s else none := by
  simp only [jsonTake, jsonSpace_cons s h]

@[simp] theorem jsonString_space : jsonString (space.val ++ s) = jsonString s := by
  simp only [jsonString, jsonTake_space]

@[simp] theorem jsonInteger_space : jsonInteger (space.val ++ s) = jsonInteger s := by
  simp only [jsonInteger, jsonSpace_space]

@[simp] theorem jsonLiteral_space (word : Bytes) : jsonLiteral word (space.val ++ s) = jsonLiteral word s := by
  simp only [jsonLiteral, jsonSpace_space]

@[simp] theorem jsonBoolean_space : jsonBoolean (space.val ++ s) = jsonBoolean s := by
  simp only [jsonBoolean, jsonLiteral_space]

@[simp] theorem jsonPeek_space : jsonPeek c (space.val ++ s) = jsonPeek c s := by simp only [jsonPeek, jsonSpace_space]

@[simp] theorem jsonFullscreen_space : jsonFullscreen (space.val ++ s) = jsonFullscreen s := by
  simp only [jsonFullscreen, jsonPeek_space, jsonBoolean_space, jsonInteger_space]

@[simp] theorem jsonPair_space : jsonPair (space.val ++ s) = jsonPair s := by simp only [jsonPair, jsonTake_space]

@[simp] theorem jsonWorkspace_space (client : Client) :
    jsonWorkspace client (space.val ++ s) = jsonWorkspace client s := by simp only [jsonWorkspace, jsonTake_space]

@[simp] theorem jsonSkip_space (left : ℕ) : jsonSkip left (space.val ++ s) = jsonSkip left s := by
  cases left with
  | zero => rfl
  | succ left => simp only [jsonSkip, jsonSpace_space]

@[simp] theorem jsonClient_space : jsonClient (space.val ++ s) = jsonClient s := by
  simp only [jsonClient, jsonTake_space]

@[simp] theorem jsonElement_space (items : List Client) :
    jsonElement items (space.val ++ s) = jsonElement items s := by
  simp only [jsonElement, jsonClient_space, jsonSkip_space]

end Blanks

section Strings

/-- The one byte that the reader keeps of a character. -/
def glyphByte : Glyph → UInt8
  | .plain b _ => b
  | .escape b _ => escaped b
  | .unicode _ _ _ => 63

def plainText (s : Spelling) : Bytes := List.map glyphByte s

theorem jsonCharacters_quote (rest : Bytes) : jsonCharacters (34 :: rest) = some ([], 34 :: rest) := by
  rw [jsonCharacters.eq_def]
  simp only [if_true]

theorem jsonCharacters_plain {b : UInt8} (hquote : b ≠ 34) (hescape : b ≠ 92) (rest : Bytes) :
    jsonCharacters (b :: rest) = (jsonCharacters rest).map fun (value, rest) => (b :: value, rest) := by
  rw [jsonCharacters.eq_def]
  simp only [hquote, hescape, if_false]

theorem jsonCharacters_escape {b : UInt8} (h : b ≠ 117) (rest : Bytes) :
    jsonCharacters (92 :: b :: rest) = (jsonCharacters rest).map fun (value, rest) => (escaped b :: value, rest) := by
  rw [jsonCharacters.eq_def]
  simp [h]

theorem jsonCharacters_unicode (a b c d : UInt8) (rest : Bytes) :
    jsonCharacters (92 :: 117 :: a :: b :: c :: d :: rest) =
      (jsonCharacters rest).map fun (value, rest) => (63 :: value, rest) := by
  rw [jsonCharacters.eq_def]
  simp

theorem jsonCharacters_spelling (s : Spelling) (rest : Bytes) :
    jsonCharacters (s.text ++ 34 :: rest) = some (plainText s, 34 :: rest) := by
  induction s with
  | nil => exact jsonCharacters_quote rest
  | cons glyph s ih =>
    unfold Spelling.text plainText at ih ⊢
    rw [List.flatMap_cons, List.append_assoc, List.map_cons]
    cases glyph with
    | plain b allowed =>
      obtain ⟨-, hquote, hescape⟩ := allowed
      rw [Glyph.text, List.singleton_append, jsonCharacters_plain hquote hescape, ih]
      rfl
    | escape b known =>
      have hunicode : b ≠ 117 := by
        rintro rfl
        revert known
        decide
      rw [Glyph.text, List.cons_append, List.singleton_append, jsonCharacters_escape hunicode, ih]
      rfl
    | unicode digits four hex =>
      obtain ⟨a, b, c, d, rfl⟩ := List.length_eq_four.mp four
      simp only [Glyph.text, List.cons_append, List.nil_append]
      rw [jsonCharacters_unicode, ih]
      rfl

theorem jsonString_quoted (s : Spelling) (rest : Bytes) : jsonString (s.quoted ++ rest) = some (plainText s, rest) := by
  have hquote : isSpace 34 = false := by decide
  simp only [jsonString, Spelling.quoted, List.cons_append, List.append_assoc, List.nil_append,
    jsonTake_cons _ hquote, if_true, Option.bind_eq_bind, Option.bind_some, jsonCharacters_spelling]

theorem glyphByte_ne_zero (glyph : Glyph) : glyphByte glyph ≠ 0 := by
  cases glyph with
  | plain b allowed =>
    rintro rfl
    exact absurd allowed.1 (by decide)
  | escape b known =>
    have hescaped : ∀ b ∈ [34, 47, 92, 98, 102, 110, 114, 116], escaped b ≠ 0 := by decide
    exact hescaped b known
  | unicode digits four hex =>
    rw [glyphByte]
    decide

theorem copied_plainText (capacity : ℕ) (s : Spelling) :
    copied capacity (plainText s) = (plainText s).take (capacity - 1) := by
  apply Client.cString_of_notMem
  intro h
  obtain ⟨glyph, -, hglyph⟩ := List.mem_map.mp (List.mem_of_mem_take h)
  exact glyphByte_ne_zero glyph hglyph

def isLetter (b : UInt8) : Bool := (65 ≤ b && b ≤ 90) || (97 ≤ b && b ≤ 122)

/-- A spelling reads as a word of letters only where it is that word: no escape is read as a letter. -/
theorem plainText_eq_iff {name : Bytes} (hletters : name.all isLetter) (s : Spelling) :
    plainText s = name ↔ s.text = name := by
  induction s generalizing name with
  | nil => exact Iff.rfl
  | cons glyph s ih =>
    unfold Spelling.text plainText at ih ⊢
    cases name with
    | nil => cases glyph <;> simp [Glyph.text]
    | cons b name =>
      rw [List.all_cons, Bool.and_eq_true] at hletters
      obtain ⟨hb, hname⟩ := hletters
      cases glyph with
      | plain c allowed => simp [Glyph.text, glyphByte, ih hname]
      | escape c known =>
        have hread : escaped c ≠ b := by
          rintro rfl
          simp only [List.mem_cons, List.not_mem_nil, or_false] at known
          rcases known with rfl | rfl | rfl | rfl | rfl | rfl | rfl | rfl <;> revert hb <;> decide
        have hspelled : 92 ≠ b := by
          rintro rfl
          revert hb
          decide
        simp [Glyph.text, glyphByte, hread, hspelled]
      | unicode digits four hex =>
        have hread : 63 ≠ b := by
          rintro rfl
          revert hb
          decide
        have hspelled : 92 ≠ b := by
          rintro rfl
          revert hb
          decide
        simp [Glyph.text, glyphByte, hread, hspelled]

/-- A name shorter than the buffer is found there only where it is the whole key. -/
theorem copied_eq_iff (name : Bytes) (capacity : ℕ) (hletters : name.all isLetter) (hshort : name.length + 1 < capacity)
    (s : Spelling) : copied capacity (plainText s) = name ↔ s.text = name := by
  rw [copied_plainText, ← plainText_eq_iff hletters]
  constructor
  · intro h
    have hlength : (plainText s).length ≤ capacity - 1 := by
      have htake := congrArg List.length h
      rw [List.length_take] at htake
      omega
    rwa [List.take_of_length_le hlength] at h
  · rintro rfl
    apply List.take_of_length_le
    omega

theorem jsonKey_member (before between : Space) (key : Spelling) (rest : Bytes) :
    jsonKey (before.val ++ (key.quoted ++ (between.val ++ 58 :: rest))) = some (plainText key, rest) := by
  have hcolon : isSpace 58 = false := by decide
  simp [jsonKey, jsonString_quoted, jsonTake_cons _ hcolon]

end Strings

section Integers

/-- The numbers that the reader is promised: 31 characters at most, and a value of 64 bits. -/
abbrev Numeral : Type := { n : Integer // n.text.length ≤ 31 ∧ isInt64 n.value }

def Numeral.text (n : Numeral) : Bytes := n.val.text

/-- A text that does not go on with a number. -/
def Ended (rest : Bytes) : Prop := ∀ b, rest.head? = some b → isNumeral b = false

theorem Ended.cons {b : UInt8} (h : isNumeral b = false) (rest : Bytes) : Ended (b :: rest) := by
  intro c hc
  obtain rfl := Option.some.inj hc
  exact h

theorem Ended.space {b : UInt8} (space : Space) (h : isNumeral b = false) (rest : Bytes) :
    Ended (space.val ++ b :: rest) := by
  obtain ⟨_ | ⟨c, more⟩, hblank⟩ := space
  · exact .cons h rest
  · apply Ended.cons
    have hc := hblank c List.mem_cons_self
    simp only [blank, Bool.or_eq_true, beq_iff_eq] at hc
    rcases hc with ((rfl | rfl) | rfl) | rfl <;> decide

theorem digit_kind : ∀ b, digit b → isDigit b ∧ isNumeral b ∧ isSpace b = false ∧ b ≠ 45 ∧ b ≠ 43 :=
  forall_byte (by decide +kernel)

theorem integer_head (n : Integer) : ∃ b more, n.text = b :: more ∧ isNumeral b ∧ isSpace b = false := by
  obtain ⟨d, ds, hdigits⟩ := List.exists_cons_of_ne_nil n.nonempty
  unfold Integer.text
  cases n.negative with
  | true => exact ⟨45, n.digits, rfl, by decide, by decide⟩
  | false =>
    obtain ⟨-, hnumeral, hspace, -⟩ := digit_kind d (n.decimal d (by simp [hdigits]))
    exact ⟨d, ds, hdigits, hnumeral, hspace⟩

theorem integer_numeral (n : Integer) : ∀ b ∈ n.text, isNumeral b := by
  have hdigits : ∀ b ∈ n.digits, isNumeral b := fun b hb => (digit_kind b (n.decimal b hb)).2.1
  unfold Integer.text
  cases n.negative with
  | true =>
    intro b hb
    rcases List.mem_cons.mp hb with rfl | hb
    · decide
    · exact hdigits b hb
  | false => exact hdigits

theorem scanNumber_text (n : Integer) : scanNumber n.text = some (n.value, []) := by
  obtain ⟨b, more, htext, -, hspace⟩ := integer_head n
  have hskip : n.text.dropWhile isSpace = n.text := by
    rw [htext, List.dropWhile_cons_of_neg (by simp [hspace])]
  have hdecimal : ∀ b ∈ n.digits, isDigit b := fun b hb => (digit_kind b (n.decimal b hb)).1
  have htake : n.digits.takeWhile isDigit = n.digits := List.takeWhile_eq_self_iff.mpr hdecimal
  have hdrop : n.digits.dropWhile isDigit = [] := List.dropWhile_eq_nil_iff.mpr hdecimal
  unfold scanNumber
  simp only [hskip]
  unfold Integer.text Integer.value
  cases n.negative with
  | true => simp [htake, hdrop, n.nonempty, digitsValue, Integer.natural]
  | false =>
    obtain ⟨d, ds, hdigits⟩ := List.exists_cons_of_ne_nil n.nonempty
    obtain ⟨-, -, -, hminus, hplus⟩ := digit_kind d (n.decimal d (by simp [hdigits]))
    have hhead : n.digits.head? = some d := by rw [hdigits, List.head?_cons]
    simp [htake, hdrop, n.nonempty, hhead, hminus, hplus, digitsValue, Integer.natural]

theorem jsonInteger_text (n : Numeral) {rest : Bytes} (hrest : Ended rest) :
    jsonInteger (n.text ++ rest) = some (n.val.value, rest) := by
  obtain ⟨b, more, htext, -, hspace⟩ := integer_head n.val
  have hstart : jsonSpace (n.text ++ rest) = n.text ++ rest := by
    rw [Numeral.text, htext, List.cons_append, jsonSpace_cons _ hspace]
  have hafter : (rest.take (31 - n.text.length)).takeWhile isNumeral = [] := by
    cases hfirst : rest.take (31 - n.text.length) with
    | nil => rfl
    | cons c more =>
      have hc : rest.head? = some c := by
        have hhead := congrArg List.head? hfirst
        rw [List.head?_take] at hhead
        split at hhead
        · cases hhead
        · exact hhead
      rw [List.takeWhile_cons_of_neg (by simp [hrest c hc])]
  have hshort : n.text.length ≤ 31 := n.property.1
  have hnumeral : ∀ b ∈ n.text, isNumeral b := integer_numeral n.val
  have hdigits : ((n.text ++ rest).take 31).takeWhile isNumeral = n.text := by
    rw [List.take_append, List.take_of_length_le hshort, List.takeWhile_append_of_pos hnumeral, hafter,
      List.append_nil]
  unfold jsonInteger
  simp only [hstart, hdigits]
  rw [Numeral.text, scanNumber_text]
  simp [n.property.2]

end Integers

end KeysharpDesktop.Hypr
