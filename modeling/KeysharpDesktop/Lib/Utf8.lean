import Mathlib.Data.List.Basic
import Mathlib.Data.List.Infix
import Mathlib.Logic.Function.Basic

/-! UTF-8: the bytes of a text of characters. No character's bytes are the start of another's, so that the bytes
determine the text, and of the texts that stand at the front of a sequence of bytes one is the longest. -/
namespace Utf8

variable {c d : Char} {cs ds : List Char} {bs x y : List UInt8}

/-- The shortest form of a scalar value. -/
def scalarBytes (v : ℕ) : List UInt8 :=
  if v ≤ 0x7f then [UInt8.ofNat v]
  else if v ≤ 0x7ff then [UInt8.ofNat (v / 64 % 0x20 + 0xc0), UInt8.ofNat (v % 0x40 + 0x80)]
  else if v ≤ 0xffff then
    [UInt8.ofNat (v / 4096 % 0x10 + 0xe0), UInt8.ofNat (v / 64 % 0x40 + 0x80), UInt8.ofNat (v % 0x40 + 0x80)]
  else
    [UInt8.ofNat (v / 262144 % 0x08 + 0xf0), UInt8.ofNat (v / 4096 % 0x40 + 0x80),
      UInt8.ofNat (v / 64 % 0x40 + 0x80), UInt8.ofNat (v % 0x40 + 0x80)]

theorem encode_eq_scalarBytes (c : Char) : String.utf8EncodeChar c = scalarBytes c.toNat := rfl

/-- The bytes of a text, each character in its shortest form. -/
def text (cs : List Char) : List UInt8 := cs.flatMap String.utf8EncodeChar

@[simp] theorem text_nil : text [] = [] := rfl

@[simp] theorem text_cons : text (c :: cs) = String.utf8EncodeChar c ++ text cs := rfl

@[simp] theorem text_append : text (cs ++ ds) = text cs ++ text ds := List.flatMap_append

section Injective

theorem encode_append_inj (h : String.utf8EncodeChar c ++ x = String.utf8EncodeChar d ++ y) : c = d ∧ x = y := by
  have hbytes := congrArg List.toByteArray h
  rw [List.toByteArray_append, List.toByteArray_append] at hbytes
  have hdecoded := congrArg (ByteArray.utf8DecodeChar? · 0) hbytes
  simp only [ByteArray.utf8DecodeChar?_utf8EncodeChar_append, Option.some.injEq] at hdecoded
  subst hdecoded
  exact ⟨rfl, List.append_cancel_left h⟩

theorem encode_length_le (c : Char) : (String.utf8EncodeChar c).length ≤ 4 := by
  rw [String.length_utf8EncodeChar]
  exact Char.utf8Size_le_four c

theorem text_prefix_iff : text cs <+: text ds ↔ cs <+: ds := by
  constructor
  · intro h
    induction cs generalizing ds with
    | nil => exact List.nil_prefix
    | cons c cs ih =>
      obtain ⟨rest, hrest⟩ := h
      cases ds with
      | nil =>
        rw [text_cons, List.append_assoc, text_nil, List.append_eq_nil_iff] at hrest
        exact absurd hrest.1 String.utf8EncodeChar_ne_nil
      | cons d ds =>
        rw [text_cons, List.append_assoc, text_cons] at hrest
        obtain ⟨rfl, htail⟩ := encode_append_inj hrest
        exact List.cons_prefix_cons.mpr ⟨rfl, ih ⟨rest, htail⟩⟩
  · rintro ⟨rest, rfl⟩
    rw [text_append]
    exact List.prefix_append _ _

theorem text_injective : Function.Injective text := by
  intro cs ds h
  have hle : cs <+: ds := text_prefix_iff.mp (h ▸ List.prefix_rfl)
  have hge : ds <+: cs := text_prefix_iff.mp (h ▸ List.prefix_rfl)
  exact hle.eq_of_length_le hge.length_le

end Injective

section Whole

/-- The longest text that stands at the front of the bytes. -/
structure Whole (bs : List UInt8) (cs : List Char) : Prop where
  fits : text cs <+: bs
  longest {ds : List Char} : text ds <+: bs → ds <+: cs

theorem Whole.unique (h : Whole bs cs) (h' : Whole bs ds) : cs = ds :=
  (h'.longest h.fits).eq_of_length_le (h.longest h'.fits).length_le

theorem whole_text (cs : List Char) : Whole (text cs) cs := ⟨List.prefix_rfl, text_prefix_iff.mp⟩

/-- A text that is cut at any byte is a whole text and at most three bytes of one more character. -/
theorem exists_whole (h : bs <+: text ds) : ∃ cs part, bs = text cs ++ part ∧ part.length ≤ 3 ∧ Whole bs cs := by
  induction ds generalizing bs with
  | nil =>
    rw [text_nil, List.prefix_nil] at h
    subst h
    exact ⟨[], [], rfl, by simp, whole_text []⟩
  | cons d ds ih =>
    rw [text_cons] at h
    obtain ⟨more, hmore⟩ | ⟨rest, rfl⟩ := List.prefix_or_prefix_of_prefix h (List.prefix_append _ _)
    · cases more with
      | nil =>
        rw [List.append_nil] at hmore
        subst hmore
        refine ⟨[d], [], by simp, by simp, ?_⟩
        have hwhole := whole_text [d]
        rwa [text_cons, text_nil, List.append_nil] at hwhole
      | cons b more =>
        -- The bytes end inside the first character.
        have hlength := congrArg List.length hmore
        rw [List.length_append, List.length_cons] at hlength
        have hle := encode_length_le d
        refine ⟨[], bs, rfl, by omega, List.nil_prefix, ?_⟩
        intro cs hcs
        cases cs with
        | nil => exact List.prefix_rfl
        | cons c cs =>
          obtain ⟨rest, hrest⟩ := hcs
          rw [← hrest, text_cons, List.append_assoc, List.append_assoc] at hmore
          have hsame := encode_append_inj (hmore.trans (List.append_nil _).symm)
          simp at hsame
    · obtain ⟨cs, part, rfl, hpart, hwhole⟩ := ih ((List.prefix_append_right_inj _).mp h)
      refine ⟨d :: cs, part, by simp, hpart, by simp, ?_⟩
      intro es hes
      cases es with
      | nil => exact List.nil_prefix
      | cons e es =>
        obtain ⟨rest, hrest⟩ := hes
        rw [text_cons, List.append_assoc] at hrest
        obtain ⟨rfl, htail⟩ := encode_append_inj hrest
        exact List.cons_prefix_cons.mpr ⟨rfl, hwhole.longest ⟨rest, htail⟩⟩

end Whole

end Utf8
