import KeysharpDesktop.Lib.Utf8
import KeysharpDesktop.Wire.Protocol

/-! UTF-8 validation as the wire layer does it: by scalar value, with NUL optional. -/
namespace KeysharpDesktop

def isContinuation (b : UInt8) : Bool := b &&& 0xc0 == 0x80

/-- The scalar value after one more continuation byte. -/
def shiftIn (value : ℕ) (next : UInt8) : ℕ := value * 64 + (next &&& 0x3f).toNat

def scalarOk (minimum value : ℕ) : Bool :=
  minimum ≤ value && value ≤ 0x10ffff && !(0xd800 ≤ value && value ≤ 0xdfff)

/-- One turn of the loop per character; the first byte fixes how many follow. -/
def utf8Valid (allowNul : Bool) : Bytes → Bool
  | [] => true
  | first :: rest =>
    if first < 0x80 then (allowNul || first != 0) && utf8Valid allowNul rest
    else if 0xc2 ≤ first ∧ first ≤ 0xdf then
      match rest with
      | a :: rest =>
        isContinuation a && scalarOk 0x80 (shiftIn (first &&& 0x1f).toNat a) && utf8Valid allowNul rest
      | [] => false
    else if 0xe0 ≤ first ∧ first ≤ 0xef then
      match rest with
      | a :: b :: rest =>
        isContinuation a && isContinuation b &&
          scalarOk 0x800 (shiftIn (shiftIn (first &&& 0x0f).toNat a) b) && utf8Valid allowNul rest
      | _ => false
    else if 0xf0 ≤ first ∧ first ≤ 0xf4 then
      match rest with
      | a :: b :: c :: rest =>
        isContinuation a && isContinuation b && isContinuation c &&
          scalarOk 0x10000 (shiftIn (shiftIn (shiftIn (first &&& 0x07).toNat a) b) c) &&
          utf8Valid allowNul rest
      | _ => false
    else false

theorem isContinuation_iff (b : UInt8) : isContinuation b ↔ 0x80 ≤ b.toNat ∧ b.toNat < 0xc0 := by
  refine forall_byte (p := fun b => isContinuation b ↔ 0x80 ≤ b.toNat ∧ b.toNat < 0xc0) ?_ b
  decide +kernel

theorem isContinuation_ne_zero {b : UInt8} (h : isContinuation b) : b ≠ 0 := by
  rintro rfl
  revert h
  decide

/-- A turn of the loop takes the first byte and those that it says follow. -/
theorem utf8Valid_turn (allowNul : Bool) (first : UInt8) (rest : Bytes) :
    utf8Valid allowNul (first :: rest) =
      if first < 0x80 then (allowNul || first != 0) && utf8Valid allowNul rest
      else if 0xc2 ≤ first ∧ first ≤ 0xdf then
        match rest with
        | a :: rest =>
          isContinuation a && scalarOk 0x80 (shiftIn (first &&& 0x1f).toNat a) && utf8Valid allowNul rest
        | [] => false
      else if 0xe0 ≤ first ∧ first ≤ 0xef then
        match rest with
        | a :: b :: rest =>
          isContinuation a && isContinuation b &&
            scalarOk 0x800 (shiftIn (shiftIn (first &&& 0x0f).toNat a) b) && utf8Valid allowNul rest
        | _ => false
      else if 0xf0 ≤ first ∧ first ≤ 0xf4 then
        match rest with
        | a :: b :: c :: rest =>
          isContinuation a && isContinuation b && isContinuation c &&
            scalarOk 0x10000 (shiftIn (shiftIn (shiftIn (first &&& 0x07).toNat a) b) c) &&
            utf8Valid allowNul rest
        | _ => false
      else false := by
  rw [utf8Valid.eq_def]
  rfl

/-- A text without leave to hold NUL holds none. -/
theorem utf8Valid_not_mem_zero {bs : Bytes} (h : utf8Valid false bs) : (0 : UInt8) ∉ bs := by
  fun_induction utf8Valid false bs with
  | case1 => simp
  | case2 first rest hfirst ih =>
    simp only [Bool.false_or, Bool.and_eq_true, bne_iff_ne] at h
    simp only [List.mem_cons, not_or]
    exact ⟨Ne.symm h.1, ih h.2⟩
  | case3 first hlow hfirst a rest ih =>
    simp only [Bool.and_eq_true] at h
    have ha := isContinuation_ne_zero h.1.1
    have hf : first ≠ 0 := by rintro rfl; exact hlow (by decide)
    simp only [List.mem_cons, not_or]
    exact ⟨Ne.symm hf, Ne.symm ha, ih h.2⟩
  | case4 => simp at h
  | case5 first hlow _ hfirst a b rest ih =>
    simp only [Bool.and_eq_true] at h
    have ha := isContinuation_ne_zero h.1.1.1
    have hb := isContinuation_ne_zero h.1.1.2
    have hf : first ≠ 0 := by rintro rfl; exact hlow (by decide)
    simp only [List.mem_cons, not_or]
    exact ⟨Ne.symm hf, Ne.symm ha, Ne.symm hb, ih h.2⟩
  | case6 => simp at h
  | case7 first hlow _ _ hfirst a b c rest ih =>
    simp only [Bool.and_eq_true] at h
    have ha := isContinuation_ne_zero h.1.1.1.1
    have hb := isContinuation_ne_zero h.1.1.1.2
    have hc := isContinuation_ne_zero h.1.1.2
    have hf : first ≠ 0 := by rintro rfl; exact hlow (by decide)
    simp only [List.mem_cons, not_or]
    exact ⟨Ne.symm hf, Ne.symm ha, Ne.symm hb, Ne.symm hc, ih h.2⟩
  | case8 => simp at h
  | case9 => simp at h

/-- ASCII text without NUL is valid. -/
theorem utf8Valid_of_ascii {bs : Bytes} (h : ∀ b ∈ bs, b < 0x80 ∧ b ≠ 0) (allowNul : Bool) :
    utf8Valid allowNul bs := by
  induction bs with
  | nil => rfl
  | cons b bs ih =>
    obtain ⟨hb, hn⟩ := h b (by simp)
    have hbs := ih (fun c hc => h c (by simp [hc]))
    rw [utf8Valid_turn, if_pos hb, hbs]
    simp [hn]

/-- Before an ASCII character, a text ends with its own last character. -/
theorem utf8Valid_append {x y : Bytes} (hy : ∀ b ∈ y.head?, b < 0x80) (allowNul : Bool) :
    utf8Valid allowNul (x ++ y) = (utf8Valid allowNul x && utf8Valid allowNul y) := by
  have hnot : ∀ b ∈ y.head?, isContinuation b = false := by
    intro b hb
    have hlow : b.toNat < 0x80 := hy b hb
    rw [← Bool.not_eq_true, isContinuation_iff]
    omega
  fun_induction utf8Valid allowNul x with
  | case1 => simp
  | case2 first rest hfirst ih =>
    rw [List.cons_append, utf8Valid_turn]
    simp only [hfirst, if_true, ih, Bool.and_assoc]
  | case3 first hlow hfirst a rest ih =>
    rw [List.cons_append, List.cons_append, utf8Valid_turn]
    simp only [hlow, hfirst, if_false, ih, Bool.and_assoc, and_self, if_true]
  | case4 first hlow hfirst =>
    rw [List.cons_append, List.nil_append, utf8Valid_turn]
    simp only [hlow, hfirst, if_false, and_self, if_true]
    cases y with
    | nil => rfl
    | cons a y => simp [hnot a rfl]
  | case5 first hlow htwo hfirst a b rest ih =>
    rw [List.cons_append, List.cons_append, List.cons_append, utf8Valid_turn]
    simp only [hlow, htwo, hfirst, if_false, ih, Bool.and_assoc, and_self, if_true]
  | case6 first rest hlow htwo hfirst hshort =>
    rw [List.cons_append, utf8Valid_turn]
    simp only [hlow, htwo, hfirst, if_false, and_self, if_true]
    -- A character that `x` breaks off continues with the head of `y`, which is no continuation.
    match rest, y with
    | [], [] => rfl
    | [], [a] => rfl
    | [], a :: b :: y => simp [hnot a rfl]
    | [a], [] => rfl
    | [a], b :: y => simp [hnot b rfl]
    | a :: b :: rest, y => exact absurd rfl (hshort a b rest)
  | case7 first hlow htwo hthree hfirst a b c rest ih =>
    rw [List.cons_append, List.cons_append, List.cons_append, List.cons_append, utf8Valid_turn]
    simp only [hlow, htwo, hthree, hfirst, if_false, ih, Bool.and_assoc, and_self, if_true]
  | case8 first rest hlow htwo hthree hfirst hshort =>
    rw [List.cons_append, utf8Valid_turn]
    simp only [hlow, htwo, hthree, hfirst, if_false, and_self, if_true]
    match rest, y with
    | [], [] => rfl
    | [], [a] => rfl
    | [], [a, b] => rfl
    | [], a :: b :: c :: y => simp [hnot a rfl]
    | [a], [] => rfl
    | [a], [b] => rfl
    | [a], b :: c :: y => simp [hnot b rfl]
    | [a, b], [] => rfl
    | [a, b], c :: y => simp [hnot c rfl]
    | a :: b :: c :: rest, y => exact absurd rfl (hshort a b c rest)
  | case9 first rest hlow htwo hthree hfour =>
    rw [List.cons_append, utf8Valid_turn]
    simp only [hlow, htwo, hthree, hfour, if_false, Bool.false_and]

section Exact

theorem toNat_and_0x1f (b : UInt8) : (b &&& 0x1f).toNat = b.toNat % 32 := Nat.and_two_pow_sub_one_eq_mod b.toNat 5

theorem toNat_and_0x0f (b : UInt8) : (b &&& 0x0f).toNat = b.toNat % 16 := Nat.and_two_pow_sub_one_eq_mod b.toNat 4

theorem toNat_and_0x07 (b : UInt8) : (b &&& 0x07).toNat = b.toNat % 8 := Nat.and_two_pow_sub_one_eq_mod b.toNat 3

theorem shiftIn_eq (value : ℕ) (next : UInt8) : shiftIn value next = value * 64 + next.toNat % 64 := by
  rw [shiftIn, UInt8.toNat_and]
  exact congrArg _ (Nat.and_two_pow_sub_one_eq_mod next.toNat 6)

theorem scalarOk_iff {minimum value : ℕ} :
    scalarOk minimum value ↔ minimum ≤ value ∧ (value < 0xd800 ∨ 0xdfff < value ∧ value < 0x110000) := by
  simp only [scalarOk, Bool.and_eq_true, decide_eq_true_eq, Bool.not_eq_true', Bool.and_eq_false_iff,
    decide_eq_false_iff_not]
  omega

variable {allowNul : Bool} {first a b c : UInt8} {rest : Bytes}

theorem utf8Valid_one (hfirst : first.toNat < 0x80) :
    utf8Valid allowNul (first :: rest) ↔ (first.toNat = 0 → allowNul) ∧ utf8Valid allowNul rest := by
  have hzero : first = 0 ↔ first.toNat = 0 := UInt8.toNat_inj.symm
  have hlow : first < 0x80 := hfirst
  rw [utf8Valid_turn]
  simp only [hlow, if_true]
  rw [Bool.and_eq_true, Bool.or_eq_true, bne_iff_ne, ne_eq, hzero]
  tauto

theorem utf8Valid_two (hlow : 0xc2 ≤ first.toNat) (hhigh : first.toNat ≤ 0xdf) :
    utf8Valid allowNul (first :: a :: rest) ↔
      isContinuation a ∧ scalarOk 0x80 (first.toNat % 32 * 64 + a.toNat % 64) ∧ utf8Valid allowNul rest := by
  have htwo : (0xc2 : UInt8) ≤ first ∧ first ≤ 0xdf := ⟨hlow, hhigh⟩
  have hmany : ¬first < 0x80 := by
    rw [UInt8.lt_iff_toNat_lt]
    exact Nat.not_lt.mpr (le_trans (by decide) hlow)
  rw [utf8Valid_turn]
  simp only [hmany, htwo, and_self, if_true, if_false, shiftIn_eq, toNat_and_0x1f, Bool.and_eq_true, and_assoc]

theorem utf8Valid_three (hlow : 0xe0 ≤ first.toNat) (hhigh : first.toNat ≤ 0xef) :
    utf8Valid allowNul (first :: a :: b :: rest) ↔
      isContinuation a ∧ isContinuation b ∧
        scalarOk 0x800 ((first.toNat % 16 * 64 + a.toNat % 64) * 64 + b.toNat % 64) ∧ utf8Valid allowNul rest := by
  have hthree : (0xe0 : UInt8) ≤ first ∧ first ≤ 0xef := ⟨hlow, hhigh⟩
  have hmany : ¬first < 0x80 := by
    rw [UInt8.lt_iff_toNat_lt]
    exact Nat.not_lt.mpr (le_trans (by decide) hlow)
  have htwo : ¬((0xc2 : UInt8) ≤ first ∧ first ≤ 0xdf) := by
    rw [not_and, UInt8.le_iff_toNat_le, UInt8.le_iff_toNat_le]
    exact fun _ => Nat.not_le.mpr (lt_of_lt_of_le (by decide) hlow)
  rw [utf8Valid_turn]
  simp only [hmany, htwo, hthree, and_self, if_true, if_false, shiftIn_eq, toNat_and_0x0f, Bool.and_eq_true, and_assoc]

theorem utf8Valid_four (hlow : 0xf0 ≤ first.toNat) (hhigh : first.toNat ≤ 0xf4) :
    utf8Valid allowNul (first :: a :: b :: c :: rest) ↔
      isContinuation a ∧ isContinuation b ∧ isContinuation c ∧
        scalarOk 0x10000 (((first.toNat % 8 * 64 + a.toNat % 64) * 64 + b.toNat % 64) * 64 + c.toNat % 64) ∧
          utf8Valid allowNul rest := by
  have hfour : (0xf0 : UInt8) ≤ first ∧ first ≤ 0xf4 := ⟨hlow, hhigh⟩
  have hmany : ¬first < 0x80 := by
    rw [UInt8.lt_iff_toNat_lt]
    exact Nat.not_lt.mpr (le_trans (by decide) hlow)
  have htwo : ¬((0xc2 : UInt8) ≤ first ∧ first ≤ 0xdf) := by
    rw [not_and, UInt8.le_iff_toNat_le, UInt8.le_iff_toNat_le]
    exact fun _ => Nat.not_le.mpr (lt_of_lt_of_le (by decide) hlow)
  have hthree : ¬((0xe0 : UInt8) ≤ first ∧ first ≤ 0xef) := by
    rw [not_and, UInt8.le_iff_toNat_le, UInt8.le_iff_toNat_le]
    exact fun _ => Nat.not_le.mpr (lt_of_lt_of_le (by decide) hlow)
  rw [utf8Valid_turn]
  simp only [hmany, htwo, hthree, hfour, and_self, if_true, if_false, shiftIn_eq, toNat_and_0x07, Bool.and_eq_true, and_assoc]

theorem low_bits (n : ℕ) : (n % 64 + 0x80) % 64 = n % 64 := by omega

theorem value_four {v : ℕ} (h : v < 0x110000) :
    (((v / 262144 % 8 + 0xf0) % 8 * 64 + v / 4096 % 64) * 64 + v / 64 % 64) * 64 + v % 64 = v := by
  have htop : (v / 262144 % 8 + 0xf0) % 8 = v / 262144 := by omega
  have hthree : v / 262144 * 64 + v / 4096 % 64 = v / 4096 := by omega
  have htwo : v / 4096 * 64 + v / 64 % 64 = v / 64 := by omega
  rw [htop, hthree, htwo]
  omega

/-- One turn of the loop takes one character. -/
theorem utf8Valid_encode (ch : Char) :
    utf8Valid allowNul (String.utf8EncodeChar ch ++ rest) ↔ (ch.toNat = 0 → allowNul) ∧ utf8Valid allowNul rest := by
  have hscalar : ch.toNat < 0xd800 ∨ 0xdfff < ch.toNat ∧ ch.toNat < 0x110000 := ch.valid
  have hbyte : ∀ n < 256, (UInt8.ofNat n).toNat = n := fun n hn => UInt8.toNat_ofNat_of_lt' hn
  rw [Utf8.encode_eq_scalarBytes]
  generalize ch.toNat = v at hscalar ⊢
  have hnot : 0x80 ≤ v → ((v = 0 → allowNul) ∧ utf8Valid allowNul rest ↔ utf8Valid allowNul rest) := fun hv =>
    and_iff_right fun hzero => absurd hzero (by omega)
  unfold Utf8.scalarBytes
  split_ifs with hone htwo hthree
  · have hfirst := hbyte v (by omega)
    rw [List.singleton_append, utf8Valid_one (by omega), hfirst]
  · have hfirst := hbyte (v / 64 % 0x20 + 0xc0) (by omega)
    have ha := hbyte (v % 0x40 + 0x80) (by omega)
    rw [hnot (by omega), List.cons_append, List.singleton_append, utf8Valid_two (by omega) (by omega),
      isContinuation_iff, scalarOk_iff, hfirst, ha, low_bits]
    exact ⟨fun h => h.2.2, fun h => ⟨by omega, by omega, h⟩⟩
  · have hfirst := hbyte (v / 4096 % 0x10 + 0xe0) (by omega)
    have ha := hbyte (v / 64 % 0x40 + 0x80) (by omega)
    have hb := hbyte (v % 0x40 + 0x80) (by omega)
    rw [hnot (by omega), List.cons_append, List.cons_append, List.singleton_append,
      utf8Valid_three (by omega) (by omega), isContinuation_iff, isContinuation_iff, scalarOk_iff, hfirst, ha, hb,
      low_bits, low_bits]
    exact ⟨fun h => h.2.2.2, fun h => ⟨by omega, by omega, by omega, h⟩⟩
  · have hfirst := hbyte (v / 262144 % 0x08 + 0xf0) (by omega)
    have ha := hbyte (v / 4096 % 0x40 + 0x80) (by omega)
    have hb := hbyte (v / 64 % 0x40 + 0x80) (by omega)
    have hc := hbyte (v % 0x40 + 0x80) (by omega)
    rw [hnot (by omega), List.cons_append, List.cons_append, List.cons_append, List.singleton_append,
      utf8Valid_four (by omega) (by omega), isContinuation_iff, isContinuation_iff, isContinuation_iff, scalarOk_iff,
      hfirst, ha, hb, hc, low_bits, low_bits, low_bits, value_four (by omega)]
    exact ⟨fun h => h.2.2.2.2, fun h => ⟨by omega, by omega, by omega, by omega, h⟩⟩

theorem utf8Valid_text (allowNul : Bool) (cs : List Char) (rest : Bytes) :
    utf8Valid allowNul (Utf8.text cs ++ rest) ↔ (∀ ch ∈ cs, ch.toNat = 0 → allowNul) ∧ utf8Valid allowNul rest := by
  induction cs with
  | nil => simp
  | cons ch cs ih => rw [Utf8.text_cons, List.append_assoc, utf8Valid_encode, ih, List.forall_mem_cons, and_assoc]

/-- The scalar that a turn computes is a character whose bytes the turn has read. -/
theorem exists_encode {v : ℕ} (hscalar : v < 0xd800 ∨ 0xdfff < v ∧ v < 0x110000) {bs : Bytes}
    (hbs : bs.map UInt8.toNat = if v ≤ 0x7f then [v] else if v ≤ 0x7ff then [v / 64 + 0xc0, v % 64 + 0x80]
      else if v ≤ 0xffff then [v / 4096 + 0xe0, v / 64 % 64 + 0x80, v % 64 + 0x80]
      else [v / 262144 + 0xf0, v / 4096 % 64 + 0x80, v / 64 % 64 + 0x80, v % 64 + 0x80]) :
    ∃ ch : Char, ch.toNat = v ∧ String.utf8EncodeChar ch = bs := by
  have hvalid : (UInt32.ofNat v).isValidChar := by
    rw [UInt32.isValidChar, UInt32.toNat_ofNat_of_lt' (by rw [UInt32.size]; omega)]
    exact hscalar
  have hv : (⟨UInt32.ofNat v, hvalid⟩ : Char).toNat = v := UInt32.toNat_ofNat_of_lt' (by rw [UInt32.size]; omega)
  refine ⟨⟨UInt32.ofNat v, hvalid⟩, hv, ?_⟩
  apply List.map_injective_iff.mpr (fun _ _ => UInt8.toNat_inj.mp)
  rw [hbs, Utf8.encode_eq_scalarBytes, hv, Utf8.scalarBytes]
  split_ifs with hone htwo hthree
  all_goals simp only [List.map_cons, List.map_nil, UInt8.toNat_ofNat', List.cons.injEq, and_true]
  all_goals omega

theorem exists_text {bs : Bytes} (h : utf8Valid allowNul bs) : ∃ cs, Utf8.text cs = bs := by
  have hcons : ∀ (v : ℕ) (_ : v < 0xd800 ∨ 0xdfff < v ∧ v < 0x110000) (front : Bytes) {rest : Bytes} {cs : List Char}
      (_ : Utf8.text cs = rest) (_ : front.map UInt8.toNat = if v ≤ 0x7f then [v]
        else if v ≤ 0x7ff then [v / 64 + 0xc0, v % 64 + 0x80]
        else if v ≤ 0xffff then [v / 4096 + 0xe0, v / 64 % 64 + 0x80, v % 64 + 0x80]
        else [v / 262144 + 0xf0, v / 4096 % 64 + 0x80, v / 64 % 64 + 0x80, v % 64 + 0x80]),
      ∃ cs, Utf8.text cs = front ++ rest := by
    intro v hscalar front rest cs htext hfront
    obtain ⟨ch, -, hch⟩ := exists_encode hscalar hfront
    exact ⟨ch :: cs, by rw [Utf8.text_cons, hch, htext]⟩
  fun_induction utf8Valid allowNul bs with
  | case1 => exact ⟨[], rfl⟩
  | case2 first rest hfirst ih =>
    have hlow : first.toNat < 0x80 := hfirst
    obtain ⟨cs, htext⟩ := ih (Bool.and_eq_true_iff.mp h).2
    apply hcons first.toNat (by omega) [first] htext
    rw [if_pos (by omega)]
    rfl
  | case3 first _ hfirst a rest ih =>
    have hlow : 0xc2 ≤ first.toNat := hfirst.1
    have hhigh : first.toNat ≤ 0xdf := hfirst.2
    simp only [Bool.and_eq_true, shiftIn_eq, toNat_and_0x1f, isContinuation_iff, scalarOk_iff] at h
    obtain ⟨cs, htext⟩ := ih h.2
    apply hcons _ h.1.2.2 [first, a] htext
    rw [if_neg (by omega), if_pos (by omega), List.map_cons, List.map_singleton, List.cons.injEq, List.singleton_inj]
    omega
  | case4 => cases h
  | case5 first _ _ hfirst a b rest ih =>
    have hlow : 0xe0 ≤ first.toNat := hfirst.1
    have hhigh : first.toNat ≤ 0xef := hfirst.2
    simp only [Bool.and_eq_true, shiftIn_eq, toNat_and_0x0f, isContinuation_iff, scalarOk_iff] at h
    obtain ⟨cs, htext⟩ := ih h.2
    apply hcons _ h.1.2.2 [first, a, b] htext
    rw [if_neg (by omega), if_neg (by omega), if_pos (by omega)]
    simp only [List.map_cons, List.map_nil, List.cons.injEq, and_true]
    omega
  | case6 => cases h
  | case7 first _ _ _ hfirst a b c rest ih =>
    have hlow : 0xf0 ≤ first.toNat := hfirst.1
    have hhigh : first.toNat ≤ 0xf4 := hfirst.2
    simp only [Bool.and_eq_true, shiftIn_eq, toNat_and_0x07, isContinuation_iff, scalarOk_iff] at h
    obtain ⟨cs, htext⟩ := ih h.2
    apply hcons _ h.1.2.2 [first, a, b, c] htext
    rw [if_neg (by omega), if_neg (by omega), if_neg (by omega)]
    simp only [List.map_cons, List.map_nil, List.cons.injEq, and_true]
    omega
  | case8 => cases h
  | case9 => cases h

theorem utf8Valid_iff (allowNul : Bool) (bs : Bytes) :
    utf8Valid allowNul bs ↔ ∃ cs : List Char, Utf8.text cs = bs ∧ ∀ ch ∈ cs, ch.toNat = 0 → allowNul := by
  have htext : ∀ cs : List Char, utf8Valid allowNul (Utf8.text cs) ↔ ∀ ch ∈ cs, ch.toNat = 0 → allowNul := by
    intro cs
    have hvalid := utf8Valid_text allowNul cs []
    rw [List.append_nil] at hvalid
    rw [hvalid]
    exact and_iff_left rfl
  constructor
  · intro h
    obtain ⟨cs, rfl⟩ := exists_text h
    exact ⟨cs, rfl, (htext cs).mp h⟩
  · rintro ⟨cs, rfl, hnul⟩
    exact (htext cs).mpr hnul

/-- The loop accepts exactly the encodings of texts, with U+0000 only by leave; and two texts make a text. -/
theorem utf8Valid_exact (allowNul : Bool) (bs bs' : Bytes) :
    (utf8Valid allowNul bs ↔ ∃ cs : List Char, Utf8.text cs = bs ∧ ∀ ch ∈ cs, ch.toNat = 0 → allowNul) ∧
    (utf8Valid allowNul bs → utf8Valid allowNul bs' → utf8Valid allowNul (bs ++ bs')) := by
  refine ⟨utf8Valid_iff allowNul bs, ?_⟩
  intro h h'
  obtain ⟨cs, rfl, hnul⟩ := (utf8Valid_iff allowNul bs).mp h
  exact (utf8Valid_text _ cs _).mpr ⟨hnul, h'⟩

end Exact
end KeysharpDesktop
