import Mathlib.Data.List.TakeWhile
import KeysharpDesktop.Lib.StringLiteral
import KeysharpDesktop.Wire.Buffer
import KeysharpDesktop.Wire.Utf8

/-! Text properties of X11 windows as JSON strings. A title is in Latin-1 or in UTF-8, and one in UTF-8 may have been
cut within a character. -/
namespace KeysharpDesktop.X11

def maxText : ℕ := 4096

abbrev Atom := BitVec 32

def atomString : Atom := 31

/-- A property as the server sent it. The length it states is that of bytes it has. -/
structure PropertyReply where
  type : Atom
  format : UInt8
  valueLength : ℤ
  value : Bytes
  complete : valueLength ≤ value.length

namespace PropertyReply

def latin1 (reply : PropertyReply) : Bool := reply.type = atomString ∧ reply.format = 8

/-- The bytes up to the first NUL or the limit. -/
def kept (reply : PropertyReply) : Bytes :=
  (reply.value.take (min reply.valueLength.toNat maxText)).takeWhile (· ≠ 0)

end PropertyReply

/-- The loop that takes bytes from the end, at most so many. -/
def shorten : ℕ → Bytes → Bytes
  | 0, text => text
  | turns + 1, text => if text ≠ [] ∧ ¬utf8Valid false text then shorten turns text.dropLast else text

def repaired (text : Bytes) : Bytes := if utf8Valid false (shorten 3 text) then shorten 3 text else []

def appendTextReply (out : Buffer) : Option PropertyReply → Option Buffer
  | none => bufferJsonString out [] false
  | some reply => bufferJsonString out (if reply.latin1 then reply.kept else repaired reply.kept) reply.latin1

section Repair

variable {cs : List Char} {part text : Bytes}

/-- The loop stops at the longest text, where that is near enough. -/
theorem shorten_whole {turns : ℕ} (hwhole : Utf8.Whole (Utf8.text cs ++ part) cs)
    (hvalid : utf8Valid false (Utf8.text cs)) (hpart : part.length ≤ turns) :
    shorten turns (Utf8.text cs ++ part) = Utf8.text cs := by
  induction turns generalizing part with
  | zero =>
    obtain rfl := List.eq_nil_of_length_eq_zero (Nat.le_zero.mp hpart)
    rw [shorten, List.append_nil]
  | succ turns ih =>
    obtain rfl | ⟨front, b, rfl⟩ := List.eq_nil_or_concat' part
    · rw [List.append_nil, shorten, if_neg fun h => h.2 hvalid]
    · have hinvalid : ¬utf8Valid false (Utf8.text cs ++ (front ++ [b])) := by
        intro h
        obtain ⟨ds, hds, -⟩ := (utf8Valid_iff false _).mp h
        have hprefix : ds <+: cs := hwhole.longest (hds ▸ List.prefix_rfl)
        have hlength := (Utf8.text_prefix_iff.mpr hprefix).length_le
        rw [hds, List.length_append, List.length_append, List.length_singleton] at hlength
        omega
      have hne : Utf8.text cs ++ (front ++ [b]) ≠ [] := by simp
      have hdrop : (Utf8.text cs ++ (front ++ [b])).dropLast = Utf8.text cs ++ front := by
        rw [← List.append_assoc, List.dropLast_concat]
      rw [shorten, if_pos ⟨hne, hinvalid⟩, hdrop]
      apply ih
      · refine ⟨List.prefix_append _ _, fun hds => hwhole.longest ?_⟩
        rw [← List.append_assoc]
        exact hds.trans (List.prefix_append _ _)
      · rw [List.length_append, List.length_singleton] at hpart
        exact Nat.le_of_succ_le_succ hpart

theorem repaired_valid (text : Bytes) : utf8Valid false (repaired text) := by
  unfold repaired
  split_ifs with h
  · exact h
  · rfl

/-- A text cut at any byte keeps its whole characters. -/
theorem repaired_prefix {ds : List Char} (hzero : 0 ∉ text) (h : text <+: Utf8.text ds) :
    ∃ cs, repaired text = Utf8.text cs ∧ Utf8.Whole text cs := by
  obtain ⟨cs, part, rfl, hpart, hwhole⟩ := Utf8.exists_whole h
  have hvalid : utf8Valid false (Utf8.text cs) := by
    rw [utf8Valid_iff]
    refine ⟨cs, rfl, ?_⟩
    intro ch hch hnul
    have hbytes : String.utf8EncodeChar ch = [0] := by
      rw [Utf8.encode_eq_scalarBytes, hnul]
      rfl
    have hmem : (0 : UInt8) ∈ Utf8.text cs := List.mem_flatMap.mpr ⟨ch, hch, hbytes ▸ List.mem_singleton_self 0⟩
    exact absurd (List.mem_append_left part hmem) hzero
  have hshort := shorten_whole hwhole hvalid hpart
  refine ⟨cs, ?_, hwhole⟩
  rw [repaired, hshort, if_pos hvalid]

theorem PropertyReply.zero_not_mem_kept (reply : PropertyReply) : 0 ∉ reply.kept := by
  intro hmem
  have hne := List.mem_takeWhile_imp hmem
  simp at hne

end Repair

section Literal

variable {cs : List Char} {latin1 : Bool}

def charOf (b : UInt8) : Char := Char.ofNat b.toNat

/-- The characters that stand for a byte in a literal. -/
def glyph (latin1 : Bool) (b : UInt8) : List Char := (jsonEscape latin1 b).map charOf

theorem text_charOf {bs : Bytes} (h : ∀ b ∈ bs, b < 0x80) : Utf8.text (bs.map charOf) = bs := by
  have hone : ∀ b : UInt8, b < 0x80 → String.utf8EncodeChar (charOf b) = [b] := forall_byte (by decide +kernel)
  induction bs with
  | nil => rfl
  | cons b bs ih =>
    rw [List.map_cons, Utf8.text_cons, hone b (h b List.mem_cons_self), ih fun c hc => h c (List.mem_cons_of_mem b hc)]
    rfl

/-- A byte is written in ASCII, unless it is copied as it is. -/
theorem glyph_text {b : UInt8} (h : latin1 ∨ b < 0x80) : Utf8.text (glyph latin1 b) = jsonEscape latin1 b := by
  have hlatin1 : ∀ b : UInt8, (jsonEscape true b).all (· < 0x80) := forall_byte (by decide +kernel)
  have hplain : ∀ b : UInt8, b < 0x80 → (jsonEscape false b).all (· < 0x80) := forall_byte (by decide +kernel)
  apply text_charOf
  intro c hc
  cases latin1 with
  | true => simpa using List.all_eq_true.mp (hlatin1 b) c hc
  | false => simpa using List.all_eq_true.mp (hplain b (h.resolve_left Bool.false_ne_true)) c hc

/-- The reader takes one character for each byte. -/
theorem body_glyph {b : UInt8} (h : latin1 ∨ b < 0x80) (rest : List Char) :
    StringLiteral.body (glyph latin1 b ++ rest) = (StringLiteral.body rest).map (charOf b :: ·) := by
  have hhex : ∀ b : UInt8, StringLiteral.codeUnit '0' '0' (charOf (hexadecimal (b >>> 4)))
      (charOf (hexadecimal (b &&& 0x0f))) = some b.toNat := forall_byte (by decide +kernel)
  have hcopied : ∀ b : UInt8, b ≠ 0x22 ∧ b ≠ 0x5c ∧ ¬b < 0x20 ∧ b < 0x80 →
      charOf b ≠ '\\' ∧ charOf b ≠ '"' ∧ 0x20 ≤ (charOf b).toNat := forall_byte (by decide +kernel)
  by_cases hquote : b = 0x22 ∨ b = 0x5c
  · obtain rfl | rfl := hquote
    · exact StringLiteral.body_simple (e := '"') (by decide) rfl
    · exact StringLiteral.body_simple (e := '\\') (by decide) rfl
  rw [not_or] at hquote
  by_cases hescaped : b < 0x20 ∨ b = 0x7f ∨ latin1 ∧ 0x80 ≤ b
  · have hglyph : glyph latin1 b = ['\\', 'u', '0', '0', charOf (hexadecimal (b >>> 4)),
        charOf (hexadecimal (b &&& 0x0f))] := by
      have hsome : (b < 0x20 ∨ b = 0x7f) ∨ latin1 = true ∧ 0x80 ≤ b := or_assoc.mpr hescaped
      simp only [glyph, jsonEscape, Bool.or_eq_true, beq_iff_eq, hquote, or_self, if_false, decide_eq_true_eq,
        Bool.and_eq_true, ge_iff_le, hsome, if_true]
      rfl
    rw [hglyph]
    exact StringLiteral.body_unit (hhex b) (lt_trans b.toNat_lt (by decide))
  · rw [not_or, not_or, not_and] at hescaped
    have hlow : b < 0x80 := by
      obtain hl | hl := h
      · exact UInt8.not_le.mp (hescaped.2.2 hl)
      · exact hl
    have hglyph : glyph latin1 b = [charOf b] := by
      have hnone : ¬((b < 0x20 ∨ b = 0x7f) ∨ latin1 = true ∧ 0x80 ≤ b) := by
        rintro ((hcontrol | hdelete) | hhigh)
        · exact hescaped.1 hcontrol
        · exact hescaped.2.1 hdelete
        · exact hescaped.2.2 hhigh.1 hhigh.2
      simp only [glyph, jsonEscape, Bool.or_eq_true, beq_iff_eq, hquote, or_self, if_false, decide_eq_true_eq,
        Bool.and_eq_true, ge_iff_le, hnone]
      rfl
    obtain ⟨hslash, hquoted, hcontrol⟩ := hcopied b ⟨hquote.1, hquote.2, hescaped.1, hlow⟩
    rw [hglyph, List.singleton_append, StringLiteral.body_plain hslash hquoted hcontrol]

theorem glyph_nonzero (latin1 : Bool) (b : UInt8) : ∀ ch ∈ glyph latin1 b, ch.toNat ≠ 0 := by
  have hlatin1 : ∀ b : UInt8, (glyph true b).all fun ch => ch.toNat ≠ 0 := forall_byte (by decide +kernel)
  have hplain : ∀ b : UInt8, (glyph false b).all fun ch => ch.toNat ≠ 0 := forall_byte (by decide +kernel)
  intro ch hch
  cases latin1 with
  | true => simpa using List.all_eq_true.mp (hlatin1 b) ch hch
  | false => simpa using List.all_eq_true.mp (hplain b) ch hch

/-- A literal between quotes, in UTF-8. -/
structure Literal (bytes : Bytes) (value literal : List Char) : Prop where
  text : Utf8.text literal = bytes
  value : StringLiteral.value literal = some value
  valid : utf8Valid false (Utf8.text literal)

theorem quoted_valid {inner : List Char} (h : ∀ ch ∈ inner, ch.toNat ≠ 0) :
    utf8Valid false (Utf8.text ('"' :: (inner ++ ['"']))) := by
  rw [utf8Valid_iff]
  refine ⟨_, rfl, ?_⟩
  intro ch hch hzero
  obtain rfl | hch := List.mem_cons.mp hch
  · exact absurd hzero (by decide)
  · obtain hch | hch := List.mem_append.mp hch
    · exact absurd hzero (h ch hch)
    · rw [List.mem_singleton.mp hch] at hzero
      exact absurd hzero (by decide)

/-- What the literal of a string in Latin-1 stands for. -/
theorem latin1_literal (bs : Bytes) : ∃ literal, Literal (jsonString true bs) (bs.map charOf) literal := by
  use '"' :: (bs.flatMap (glyph true) ++ ['"'])
  constructor
  · have hbody : Utf8.text (bs.flatMap (glyph true)) = bs.flatMap (jsonEscape true) := by
      rw [Utf8.text, List.flatMap_assoc]
      exact List.flatMap_congr fun b _ => glyph_text (Or.inl rfl)
    rw [Utf8.text_cons, Utf8.text_append, hbody]
    rfl
  · rw [StringLiteral.value_quoted]
    induction bs with
    | nil => rfl
    | cons b bs ih => rw [List.flatMap_cons, body_glyph (Or.inl rfl), ih, Option.map_some, List.map_cons]
  · apply quoted_valid
    intro ch hch
    obtain ⟨b, -, hch⟩ := List.mem_flatMap.mp hch
    exact glyph_nonzero true b ch hch

/-- The characters that stand for a character in a literal that is in UTF-8. -/
def spelled (ch : Char) : List Char := if ch.toNat < 0x80 then glyph false (UInt8.ofNat ch.toNat) else [ch]

theorem encode_of_ascii {ch : Char} (h : ch.toNat < 0x80) : String.utf8EncodeChar ch = [UInt8.ofNat ch.toNat] := by
  rw [Utf8.encode_eq_scalarBytes, Utf8.scalarBytes, if_pos (Nat.le_of_lt_succ h)]

theorem copied_of_not_ascii {ch : Char} (h : ¬ch.toNat < 0x80) :
    (String.utf8EncodeChar ch).flatMap (jsonEscape false) = String.utf8EncodeChar ch := by
  have hcopied : ∀ b : UInt8, 0x80 ≤ b.toNat → jsonEscape false b = [b] := forall_byte (by decide +kernel)
  have hhigh : ∀ b ∈ String.utf8EncodeChar ch, 0x80 ≤ b.toNat := by
    have hscalar : ch.toNat < 0x110000 := by
      have hvalid := ch.valid
      show ch.val.toNat < 0x110000
      simp only [UInt32.isValidChar, Nat.isValidChar] at hvalid
      omega
    intro b hb
    rw [Utf8.encode_eq_scalarBytes] at hb
    generalize ch.toNat = v at h hb hscalar
    unfold Utf8.scalarBytes at hb
    split_ifs at hb <;> simp only [List.mem_cons, List.not_mem_nil, or_false] at hb
    · omega
    · obtain rfl | rfl := hb <;> simp only [UInt8.toNat_ofNat'] <;> omega
    · obtain rfl | rfl | rfl := hb <;> simp only [UInt8.toNat_ofNat'] <;> omega
    · obtain rfl | rfl | rfl | rfl := hb <;> simp only [UInt8.toNat_ofNat'] <;> omega
  generalize String.utf8EncodeChar ch = bs at hhigh
  induction bs with
  | nil => rfl
  | cons b bs ih =>
    rw [List.flatMap_cons, hcopied b (hhigh b List.mem_cons_self), ih fun c hc => hhigh c (List.mem_cons_of_mem b hc)]
    rfl

theorem spelled_text (ch : Char) :
    Utf8.text (spelled ch) = (String.utf8EncodeChar ch).flatMap (jsonEscape false) := by
  unfold spelled
  split_ifs with hascii
  · have hlow : UInt8.ofNat ch.toNat < 0x80 := by
      rw [UInt8.lt_iff_toNat_lt, UInt8.toNat_ofNat_of_lt' (lt_trans hascii (by decide))]
      exact hascii
    rw [glyph_text (Or.inr hlow), encode_of_ascii hascii, List.flatMap_singleton]
  · rw [copied_of_not_ascii hascii, Utf8.text_cons, Utf8.text_nil, List.append_nil]

theorem body_spelled (ch : Char) (rest : List Char) :
    StringLiteral.body (spelled ch ++ rest) = (StringLiteral.body rest).map (ch :: ·) := by
  unfold spelled
  split_ifs with hascii
  · have hbyte : (UInt8.ofNat ch.toNat).toNat = ch.toNat := UInt8.toNat_ofNat_of_lt' (lt_trans hascii (by decide))
    have hlow : UInt8.ofNat ch.toNat < 0x80 := by
      rw [UInt8.lt_iff_toNat_lt, hbyte]
      exact hascii
    rw [body_glyph (Or.inr hlow), charOf, hbyte, Char.ofNat_toNat]
  · have hslash : ch ≠ '\\' := by
      rintro rfl
      exact hascii (by decide)
    have hquote : ch ≠ '"' := by
      rintro rfl
      exact hascii (by decide)
    rw [List.singleton_append, StringLiteral.body_plain hslash hquote (by omega)]

theorem utf8_literal (cs : List Char) : ∃ literal, Literal (jsonString false (Utf8.text cs)) cs literal := by
  use '"' :: (cs.flatMap spelled ++ ['"'])
  constructor
  · have hbody : Utf8.text (cs.flatMap spelled) = (Utf8.text cs).flatMap (jsonEscape false) := by
      rw [Utf8.text, Utf8.text, List.flatMap_assoc, List.flatMap_assoc]
      exact List.flatMap_congr fun ch _ => spelled_text ch
    rw [Utf8.text_cons, Utf8.text_append, hbody]
    rfl
  · rw [StringLiteral.value_quoted]
    induction cs with
    | nil => rfl
    | cons ch cs ih => rw [List.flatMap_cons, body_spelled, ih, Option.map_some]
  · apply quoted_valid
    intro ch hch
    obtain ⟨c, -, hch⟩ := List.mem_flatMap.mp hch
    unfold spelled at hch
    split_ifs at hch with hascii
    · exact glyph_nonzero false _ ch hch
    · rw [List.mem_singleton.mp hch]
      omega

end Literal

/-- A property becomes a literal in valid UTF-8; that of a string in Latin-1 stands for its characters, and that of a
text cut anywhere for its whole characters. -/
theorem appendTextReply_literal (reply : Option PropertyReply) :
    ∃ literal value, Writes (appendTextReply · reply) (Utf8.text literal) ∧
      utf8Valid false (Utf8.text literal) ∧ StringLiteral.value literal = some value ∧
      ∀ property, reply = some property →
        (property.latin1 → value = property.kept.map fun b => Char.ofNat b.toNat) ∧
        (¬property.latin1 → ∀ cs, property.kept <+: Utf8.text cs → Utf8.Whole property.kept value) := by
  cases reply with
  | none =>
    obtain ⟨literal, hliteral⟩ := utf8_literal []
    refine ⟨literal, [], ?_, hliteral.valid, hliteral.value, fun _ h => by cases h⟩
    rw [hliteral.text]
    exact bufferJsonString_writes [] false
  | some reply =>
    cases hkind : reply.latin1 with
    | true =>
      obtain ⟨literal, hliteral⟩ := latin1_literal reply.kept
      refine ⟨literal, _, ?_, hliteral.valid, hliteral.value, ?_⟩
      · rw [hliteral.text]
        simp only [appendTextReply, hkind, if_true]
        exact bufferJsonString_writes reply.kept true
      · rintro property ⟨⟩
        exact ⟨fun _ => rfl, fun h => absurd hkind h⟩
    | false =>
      obtain ⟨cs, hcs⟩ := exists_text (repaired_valid reply.kept)
      obtain ⟨literal, hliteral⟩ := utf8_literal cs
      refine ⟨literal, cs, ?_, hliteral.valid, hliteral.value, ?_⟩
      · rw [hliteral.text, hcs]
        simp only [appendTextReply, hkind, Bool.false_eq_true, if_false]
        exact bufferJsonString_writes (repaired reply.kept) false
      · rintro property ⟨⟩
        refine ⟨fun h => absurd (h.symm.trans hkind) (by decide), fun _ ds hds => ?_⟩
        obtain ⟨es, hes, hwhole⟩ := repaired_prefix reply.zero_not_mem_kept hds
        rw [Utf8.text_injective (hcs.trans hes)]
        exact hwhole

/-- A title that ends within a character loses no more than that. -/
example : repaired [0x61, 0xe2, 0x82] = [0x61] := by decide

end KeysharpDesktop.X11
