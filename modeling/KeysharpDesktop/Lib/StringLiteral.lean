import Mathlib.Data.Nat.Notation

/-! What a JSON string literal stands for, character by character. -/
namespace StringLiteral

def hexValue (c : Char) : Option ℕ :=
  if '0' ≤ c ∧ c ≤ '9' then some (c.toNat - 48)
  else if 'a' ≤ c ∧ c ≤ 'f' then some (c.toNat - 87)
  else if 'A' ≤ c ∧ c ≤ 'F' then some (c.toNat - 55)
  else none

/-- The number that four digits spell. -/
def codeUnit (p q r s : Char) : Option ℕ := do
  let p ← hexValue p
  let q ← hexValue q
  let r ← hexValue r
  let s ← hexValue s
  some (((p * 16 + q) * 16 + r) * 16 + s)

def simpleEscape (c : Char) : Option Char :=
  if c = '"' ∨ c = '\\' ∨ c = '/' then some c
  else if c = 'b' then some (Char.ofNat 8)
  else if c = 'f' then some (Char.ofNat 12)
  else if c = 'n' then some '\n'
  else if c = 'r' then some '\r'
  else if c = 't' then some '\t'
  else none

/-- The text between the quotes. Half of a surrogate pair stands for nothing alone. -/
def body : List Char → Option (List Char)
  | [] => some []
  | c :: rest =>
    if c = '\\' then
      match rest with
      | [] => none
      | e :: rest =>
        if e = 'u' then
          match rest with
          | p :: q :: r :: s :: rest =>
            match codeUnit p q r s with
            | none => none
            | some high =>
              if 0xd800 ≤ high ∧ high < 0xdc00 then
                match rest with
                | '\\' :: 'u' :: p :: q :: r :: s :: rest =>
                  match codeUnit p q r s with
                  | none => none
                  | some low =>
                    if 0xdc00 ≤ low ∧ low < 0xe000 then
                      (body rest).map (Char.ofNat (0x10000 + (high - 0xd800) * 1024 + (low - 0xdc00)) :: ·)
                    else none
                | _ => none
              else if 0xdc00 ≤ high ∧ high < 0xe000 then none
              else (body rest).map (Char.ofNat high :: ·)
          | _ => none
        else
          match simpleEscape e with
          | none => none
          | some c => (body rest).map (c :: ·)
    else if c.toNat < 0x20 ∨ c = '"' then none
    else (body rest).map (c :: ·)

def value : List Char → Option (List Char)
  | [] => none
  | c :: rest => if c = '"' ∧ rest.getLast? = some '"' then body rest.dropLast else none

variable {c e p q r s : Char} {n : ℕ} {text rest : List Char}

theorem body_plain (hslash : c ≠ '\\') (hquote : c ≠ '"') (hcontrol : 0x20 ≤ c.toNat) :
    body (c :: rest) = (body rest).map (c :: ·) := by
  have hallowed : ¬(c.toNat < 0x20 ∨ c = '"') := not_or.mpr ⟨Nat.not_lt.mpr hcontrol, hquote⟩
  rw [body.eq_def]
  simp only [if_neg hslash, if_neg hallowed]

theorem body_simple (he : e ≠ 'u') (h : simpleEscape e = some c) :
    body ('\\' :: e :: rest) = (body rest).map (c :: ·) := by
  rw [body.eq_def]
  simp only [if_true, if_neg he, h]

theorem body_unit (h : codeUnit p q r s = some n) (hn : n < 0xd800) :
    body ('\\' :: 'u' :: p :: q :: r :: s :: rest) = (body rest).map (Char.ofNat n :: ·) := by
  have hhigh : ¬(0xd800 ≤ n ∧ n < 0xdc00) := by omega
  have hlow : ¬(0xdc00 ≤ n ∧ n < 0xe000) := by omega
  rw [body.eq_def]
  simp only [if_true, h, if_neg hhigh, if_neg hlow]

theorem value_quoted (text : List Char) : value ('"' :: (text ++ ['"'])) = body text := by
  have hlast : (text ++ ['"']).getLast? = some '"' := List.getLast?_concat
  rw [value, if_pos ⟨rfl, hlast⟩, List.dropLast_concat]

end StringLiteral
