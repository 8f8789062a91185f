import KeysharpDesktop.State.Codec

/-! The JSON reader for window records. It scans spans and never builds a tree; a span is
the bytes it covers. -/
namespace KeysharpDesktop

namespace Json

def isSpace (b : UInt8) : Bool := b == 32 || b == 10 || b == 13 || b == 9

def skipSpace (s : Bytes) : Bytes := s.dropWhile isSpace

/-- What follows a string whose opening quote has been read. -/
def stringEnd : Bytes → Option Bytes
  | [] => none
  | b :: rest =>
    if b = 34 then some rest
    else if b < 0x20 then none
    else if b = 92 then
      match rest with
      | [] => none
      | _ :: rest => stringEnd rest
    else stringEnd rest

def endsScalar (b : UInt8) : Bool := b == 44 || b == 125 || b == 93 || isSpace b

/-- The bytes of `s` before `rest`. -/
def spanTo (s rest : Bytes) : Bytes := s.take (s.length - rest.length)

def closing (object : Bool) : UInt8 := if object then 125 else 93

/-- What follows one element of an array, or one member of an object. -/
def partEnd (value : Bytes → Option (Bytes × Bytes)) (object : Bool) (s : Bytes) : Option Bytes := do
  let (part, s) ← value s
  if !object then some s
  else if part.head? ≠ some 34 ∨ (skipSpace s).head? ≠ some 58 then none
  else (value (skipSpace s).tail).map Prod.snd

mutual

/-- One value and what follows it. Two units of fuel for each byte are more than the
recursion can use. -/
def valueSpan : ℕ → ℕ → Bytes → Option (Bytes × Bytes)
  | 0, _, _ => none
  | fuel + 1, depth, s =>
    if 64 < depth then none
    else
      let s := skipSpace s
      match s with
      | [] => none
      | b :: rest =>
        if b = 34 then do
          let rest ← stringEnd rest
          some (spanTo s rest, rest)
        else if b = 123 ∨ b = 91 then do
          let rest ← containerEnd fuel depth (b = 123) (skipSpace rest)
          some (spanTo s rest, rest)
        else
          let rest := s.dropWhile fun b => !endsScalar b
          if rest.length = s.length then none else some (spanTo s rest, rest)

/-- What follows an object or an array whose opening has been read. -/
def containerEnd : ℕ → ℕ → Bool → Bytes → Option Bytes
  | 0, _, _, _ => none
  | fuel + 1, depth, object, s =>
    if s.head? = some (closing object) then some s.tail
    else do
      let s ← partEnd (valueSpan fuel (depth + 1)) object s
      if (skipSpace s).head? = some (closing object) then some (skipSpace s).tail
      else if (skipSpace s).head? ≠ some 44 then none
      else
        let s := skipSpace (skipSpace s).tail
        if s = [] ∨ s.head? = some (closing object) then none else containerEnd fuel depth object s

end

def value (s : Bytes) : Option (Bytes × Bytes) := valueSpan (2 * s.length + 2) 0 s

/-- Whether a key's span is the quoted name. -/
def keyIs (name key : Bytes) : Bool :=
  key.length == name.length + 2 && key.head? == some 34 && (key.drop 1).take name.length == name

/-- The member at the front of an object's body and what follows it. -/
def member (s : Bytes) : Option (Bytes × Bytes × Bytes) := do
  let (key, s) ← value s
  if (skipSpace s).head? ≠ some 58 then none
  else do
    let (value, s) ← value (skipSpace s).tail
    some (key, value, s)

def fieldLoop (name : Bytes) : ℕ → Bytes → Option Bytes
  | 0, _ => none
  | turns + 1, s => do
    let (key, value, s) ← member s
    if keyIs name key then some value
    else if (skipSpace s).head? ≠ some 44 then none
    else fieldLoop name turns (skipSpace s).tail

/-- The first member of an object with the given name. -/
def field (object : Bytes) (name : String) : Option Bytes :=
  let s := skipSpace object
  if s.length < 2 ∨ s.head? ≠ some 123 then none else fieldLoop (ascii name) s.length s.tail

def numberDigits : ℕ → Bytes → Option ℕ
  | parsed, [] => some parsed
  | parsed, b :: bs =>
    if b < 48 ∨ 57 < b then none
    else if (2 ^ 64 - 1 - (b.toNat - 48)) / 10 < parsed then none
    else numberDigits (parsed * 10 + (b.toNat - 48)) bs

/-- A number of at most twenty digits, quoted or not. -/
def number (s : Bytes) : Option ℕ :=
  let s := if 2 ≤ s.length ∧ s.head? = some 34 then (s.drop 1).dropLast else s
  if s.length = 0 ∨ 20 < s.length then none else numberDigits 0 s

def integer (object : Bytes) (name : String) : ℕ :=
  ((field object name).bind number).getD 0

def coordinate (object : Bytes) (name : String) : BitVec 32 :=
  match field object name with
  | none => 0
  | some value =>
    let negative := value.head? = some 45
    match number (if negative then value.tail else value) with
    | none => 0
    | some n =>
      if (if negative then 2 ^ 31 else 2 ^ 31 - 1) < n then 0
      else if negative then -(BitVec.ofNat 32 n) else BitVec.ofNat 32 n

def truth (object : Bytes) (name : String) : Bool := field object name == some (ascii "true")

def hexDigit (b : UInt8) : Option ℕ :=
  if 48 ≤ b ∧ b ≤ 57 then some (b.toNat - 48)
  else if 97 ≤ b ∧ b ≤ 102 then some (b.toNat - 87)
  else if 65 ≤ b ∧ b ≤ 70 then some (b.toNat - 55)
  else none

def unicode : Bytes → Option (ℕ × Bytes)
  | a :: b :: c :: d :: rest => do
    let a ← hexDigit a
    let b ← hexDigit b
    let c ← hexDigit c
    let d ← hexDigit d
    some (((a * 16 + b) * 16 + c) * 16 + d, rest)
  | _ => none

def utf8Encode (code : ℕ) : Bytes :=
  if code < 0x80 then [UInt8.ofNat code]
  else if code < 0x800 then [UInt8.ofNat (0xc0 + code / 64), UInt8.ofNat (0x80 + code % 64)]
  else if code < 0x10000 then
    [UInt8.ofNat (0xe0 + code / 4096), UInt8.ofNat (0x80 + code / 64 % 64),
      UInt8.ofNat (0x80 + code % 64)]
  else
    [UInt8.ofNat (0xf0 + code / 262144), UInt8.ofNat (0x80 + code / 4096 % 64),
      UInt8.ofNat (0x80 + code / 64 % 64), UInt8.ofNat (0x80 + code % 64)]

/-- What stands for a one-letter escape. -/
def simpleEscape (b : UInt8) : Option UInt8 :=
  if b = 110 then some 10
  else if b = 114 then some 13
  else if b = 116 then some 9
  else if b = 98 then some 8
  else if b = 102 then some 12
  else if b = 34 ∨ b = 92 ∨ b = 47 then some b
  else none

/-- The scalar of a `\u` escape, which a surrogate spreads over two. -/
def escapedScalar (rest : Bytes) : Option (ℕ × Bytes) := do
  let (code, rest) ← unicode rest
  if 0xd800 ≤ code ∧ code ≤ 0xdbff then
    if rest.length < 6 ∨ rest.take 2 ≠ [92, 117] then none
    else do
      let (low, rest) ← unicode (rest.drop 2)
      if low < 0xdc00 ∨ 0xdfff < low then none
      else some (0x10000 + (code - 0xd800) * 1024 + (low - 0xdc00), rest)
  else if 0xdc00 ≤ code ∧ code ≤ 0xdfff then none
  else some (code, rest)

/-- The contents of a string. Every turn consumes a byte. -/
def unescape : ℕ → Bytes → Option Bytes
  | _, [] => some []
  | 0, _ => none
  | turns + 1, b :: rest =>
    if b ≠ 92 then do
      let out ← unescape turns rest
      some (b :: out)
    else match rest with
      | [] => none
      | e :: rest =>
        if e = 117 then do
          let (code, rest) ← escapedScalar rest
          let out ← unescape turns rest
          some (utf8Encode code ++ out)
        else do
          let c ← simpleEscape e
          let out ← unescape turns rest
          some (c :: out)

/-- The text buffer has room for a terminator besides the text. -/
def jsonText (value : Bytes) : Option StateText :=
  if value.length < 2 ∨ value.head? ≠ some 34 ∨ value.getLast? ≠ some 34 then none
  else do
    let out ← unescape value.length (value.drop 1).dropLast
    if h : utf8Valid false out ∧ out.length + 1 ≤ maxTextBytes then
      some ⟨out, h.1, Nat.le_of_succ_le h.2⟩
    else none

/-- A string member may be absent, but not malformed. -/
def jsonTextField (object : Bytes) (name : String) : Option StateText :=
  match field object name with
  | none => some StateText.empty
  | some value => jsonText value

def listNames (name : Bytes) : ℕ → Bytes → Bool
  | 0, _ => false
  | turns + 1, s =>
    match value s with
    | none => false
    | some (v, s) =>
      (v.length == name.length + 2 && (v.drop 1).take name.length == name) ||
        ((skipSpace s).head? == some 44 && listNames name turns (skipSpace s).tail)

end Json

open Json

/-- The members that a bit of the valid fields stands for, from bit one on. -/
def fieldNames : List String :=
  ["title", "appId", "pid", "frame", "client", "visible", "active", "minimized", "maximized",
    "alwaysOnTop", "decorated", "transparency", "onCurrentWorkspace", "captureId", "parent", "surface",
    "buffer", "compositorId"]

def flagNames : List String :=
  ["visible", "active", "minimized", "maximized", "alwaysOnTop", "decorated", "onCurrentWorkspace",
    "topLevel"]

/-- A member counts where it is present and, if the object lists its fields, listed. -/
def fieldValid (object : Bytes) (name : String) : Bool :=
  (field object name).isSome &&
    match field object "validFields" with
    | none => true
    | some fields => 2 ≤ fields.length && listNames (ascii name) fields.length fields.tail

def jsonValidFields (object : Bytes) : BitVec 64 :=
  fieldNames.zipIdx.foldl (fun fields (name, i) =>
    if fieldValid object name then fields ||| 1 <<< (i + 1) else fields) Field.id

def jsonFlags (object : Bytes) : BitVec 32 :=
  flagNames.zipIdx.foldl (fun flags (name, i) =>
    if truth object name then flags ||| 1 <<< i else flags) 0

def jsonRectOf (value : Bytes) : Rect :=
  ⟨coordinate value "x", coordinate value "y", BitVec.ofNat 32 (integer value "width"),
    BitVec.ofNat 32 (integer value "height")⟩

def jsonRect (object : Bytes) (name : String) : Rect :=
  ((field object name).map jsonRectOf).getD ⟨0, 0, 0, 0⟩

/-- A record may be wrapped in a member of its own. -/
def windowObject (data : Bytes) : Bytes :=
  match field data "id", field data "window" with
  | none, some object => object
  | _, _ => data

def stateWindowJson (data : Bytes) : Option WindowRecord := do
  let object := windowObject data
  let handle ← field object "id" >>= number
  if handle = 0 then none
  else do
    let title ← jsonTextField object "title"
    let appId ← jsonTextField object "appId"
    let captureId ← jsonTextField object "captureId"
    let compositorId ← jsonTextField object "compositorId"
    let validFields := jsonValidFields object
    let buffer := field object "buffer"
    let borrowed := validFields &&& Field.buffer ≠ 0 ∧ field object "surface" = none ∧ buffer.isSome
    some {
      handle := BitVec.ofNat 64 handle
      validFields := if borrowed then validFields ||| Field.surface else validFields
      title, appId, captureId, compositorId
      pid := BitVec.ofNat 32 (integer object "pid")
      parent := BitVec.ofNat 64 (integer object "parent")
      transparency := BitVec.ofNat 32 (integer object "transparency")
      frame := jsonRect object "frame"
      client := jsonRect object "client"
      surface := if borrowed then jsonRect object "buffer" else jsonRect object "surface"
      bufferWidth := BitVec.ofNat 32 ((buffer.map (integer · "width")).getD 0)
      bufferHeight := BitVec.ofNat 32 ((buffer.map (integer · "height")).getD 0)
      flags := jsonFlags object
      stackingOrder := 0 }

namespace Json

section Lengths

theorem length_skipSpace (s : Bytes) : (skipSpace s).length ≤ s.length :=
  (List.dropWhile_sublist _).length_le

theorem stringEnd_length {s rest : Bytes} (h : stringEnd s = some rest) : rest.length < s.length := by
  fun_induction stringEnd s with
  | case1 => simp at h
  | case2 s => cases h; simp
  | case3 => simp at h
  | case4 => simp at h
  | case5 _ _ _ _ ih =>
    have := ih h
    simp only [List.length_cons]
    omega
  | case6 _ _ _ _ _ ih =>
    have := ih h
    simp only [List.length_cons]
    omega

theorem length_tail_skipSpace {s : Bytes} {b : UInt8} (h : (skipSpace s).head? = some b) :
    (skipSpace s).tail.length < s.length := by
  have hle := length_skipSpace s
  cases hs : skipSpace s with
  | nil => simp [hs] at h
  | cons c cs =>
    rw [hs] at hle
    simp only [List.length_cons, List.tail_cons] at hle ⊢
    omega

theorem spanTo_length {s rest : Bytes} (h : rest.length ≤ s.length) :
    (spanTo s rest).length + rest.length = s.length := by
  rw [spanTo, List.length_take]
  omega

theorem partEnd_length {value : Bytes → Option (Bytes × Bytes)}
    (hv : ∀ s v rest, value s = some (v, rest) → rest.length < s.length) {object : Bool}
    {s rest : Bytes} (h : partEnd value object s = some rest) : rest.length < s.length := by
  obtain ⟨⟨part, s'⟩, hpart, h⟩ := Option.bind_eq_some_iff.mp h
  have hlt := hv s part s' hpart
  dsimp only at h
  split_ifs at h with harray hmember
  · cases h
    exact hlt
  · obtain ⟨⟨v, r⟩, hval, rfl⟩ := Option.map_eq_some_iff.mp h
    have hval' := hv _ v r hval
    have htail := length_tail_skipSpace (not_not.mp (not_or.mp hmember).2)
    dsimp only
    omega

/-- Both scanners leave less than they were given, and a value is what is in between. -/
theorem scanners_length (fuel : ℕ) :
    (∀ depth s v rest, valueSpan fuel depth s = some (v, rest) →
      rest.length < s.length ∧ v.length + rest.length ≤ s.length) ∧
    ∀ depth object s rest, containerEnd fuel depth object s = some rest → rest.length < s.length := by
  induction fuel with
  | zero => exact ⟨by simp [valueSpan], by simp [containerEnd]⟩
  | succ fuel ih =>
    refine ⟨?_, ?_⟩
    · intro depth s v rest h
      have hskip := length_skipSpace s
      have hspan : ∀ r, r.length < (skipSpace s).length → v = spanTo (skipSpace s) r → rest = r →
          rest.length < s.length ∧ v.length + rest.length ≤ s.length := by
        rintro r hr rfl rfl
        have := spanTo_length (Nat.le_of_lt hr)
        omega
      rw [valueSpan] at h
      split_ifs at h
      dsimp only at h
      cases hs : skipSpace s with
      | nil => simp [hs] at h
      | cons b bs =>
        rw [hs] at h hspan
        dsimp only at h
        split_ifs at h with hquote hopen hsame
        · obtain ⟨r, hr, h⟩ := Option.bind_eq_some_iff.mp h
          cases h
          exact hspan rest (Nat.lt_succ_of_lt (stringEnd_length hr)) rfl rfl
        · obtain ⟨r, hr, h⟩ := Option.bind_eq_some_iff.mp h
          cases h
          have hlt := ih.2 _ _ _ _ hr
          have hle := length_skipSpace bs
          refine hspan rest ?_ rfl rfl
          rw [List.length_cons]
          omega
        · cases h
          refine hspan _ ?_ rfl rfl
          have := (List.dropWhile_sublist (fun b => !endsScalar b) (l := b :: bs)).length_le
          omega
    · intro depth object s rest h
      rw [containerEnd] at h
      split_ifs at h with hclose
      · cases h
        cases s with
        | nil => simp at hclose
        | cons b bs => simp
      · obtain ⟨s', hs', h⟩ := Option.bind_eq_some_iff.mp h
        have hpart := partEnd_length (fun s v rest hv => (ih.1 _ s v rest hv).1) hs'
        split_ifs at h with hend hcomma
        · cases h
          have := length_tail_skipSpace hend
          omega
        · dsimp only at h
          split_ifs at h
          have hlt := length_tail_skipSpace (not_not.mp hcomma)
          have hle := length_skipSpace (skipSpace s').tail
          have := ih.2 _ _ _ _ h
          omega

theorem value_length {s v rest : Bytes} (h : value s = some (v, rest)) :
    rest.length < s.length ∧ v.length + rest.length ≤ s.length :=
  (scanners_length _).1 0 s v rest h

theorem member_length {s key v rest : Bytes} (h : member s = some (key, v, rest)) :
    v.length + rest.length ≤ s.length := by
  obtain ⟨⟨k, s'⟩, hkey, h⟩ := Option.bind_eq_some_iff.mp h
  dsimp only at h
  split_ifs at h with hcolon
  obtain ⟨⟨w, s''⟩, hval, h⟩ := Option.bind_eq_some_iff.mp h
  cases h
  have h1 := (value_length hkey).1
  have h2 := (value_length hval).2
  have h3 := length_tail_skipSpace (not_not.mp hcolon)
  dsimp only
  omega

theorem hexDigit_lt {b : UInt8} {n : ℕ} (h : hexDigit b = some n) : n < 16 := by
  unfold hexDigit at h
  simp only [UInt8.le_iff_toNat_le] at h
  split_ifs at h with h1 h2 h3
  · cases h
    have : b.toNat ≤ 57 := h1.2
    omega
  · cases h
    have : b.toNat ≤ 102 := h2.2
    omega
  · cases h
    have : b.toNat ≤ 70 := h3.2
    omega

theorem unicode_length {s rest : Bytes} {code : ℕ} (h : unicode s = some (code, rest)) :
    rest.length + 4 = s.length ∧ code < 0x10000 := by
  unfold unicode at h
  split at h
  · next a b c d tail =>
    simp only [Option.bind_eq_bind, Option.bind_eq_some_iff, Option.some.injEq, Prod.mk.injEq] at h
    obtain ⟨i, hi, j, hj, k, hk, l, hl, hcode, rfl⟩ := h
    have := hexDigit_lt hi
    have := hexDigit_lt hj
    have := hexDigit_lt hk
    have := hexDigit_lt hl
    refine ⟨by simp, ?_⟩
    omega
  · cases h

theorem length_utf8Encode (code : ℕ) : (utf8Encode code).length ≤ 4 := by
  unfold utf8Encode
  split_ifs <;> simp

theorem length_utf8Encode_basic {code : ℕ} (h : code < 0x10000) : (utf8Encode code).length ≤ 3 := by
  unfold utf8Encode
  split_ifs <;> simp

theorem escapedScalar_length {s rest : Bytes} {code : ℕ} (h : escapedScalar s = some (code, rest)) :
    (utf8Encode code).length + rest.length ≤ s.length := by
  obtain ⟨⟨c, s'⟩, hcode, h⟩ := Option.bind_eq_some_iff.mp h
  obtain ⟨hlen, hbasic⟩ := unicode_length hcode
  dsimp only at h
  split_ifs at h with hhigh hpair
  · obtain ⟨⟨low, s''⟩, hlow, h⟩ := Option.bind_eq_some_iff.mp h
    have hlen' := (unicode_length hlow).1
    dsimp only at h
    split_ifs at h
    simp only [Option.some.injEq, Prod.mk.injEq] at h
    have := length_utf8Encode code
    rw [List.length_drop] at hlen'
    rw [← h.2]
    omega
  · simp only [Option.some.injEq, Prod.mk.injEq] at h
    rw [← h.1, ← h.2]
    have := length_utf8Encode_basic hbasic
    omega

/-- Escapes never lengthen a text. -/
theorem unescape_length {turns : ℕ} {s out : Bytes} (h : unescape turns s = some out) :
    out.length ≤ s.length := by
  fun_induction unescape turns s generalizing out with
  | case1 => cases h; simp
  | case2 => cases h
  | case3 turns b rest hb ih =>
    obtain ⟨o, ho, h⟩ := Option.bind_eq_some_iff.mp h
    cases h
    have := ih ho
    simpa using this
  | case4 => cases h
  | case5 turns b hb rest ih =>
    obtain ⟨⟨code, rest'⟩, hcode, h⟩ := Option.bind_eq_some_iff.mp h
    obtain ⟨o, ho, h⟩ := Option.bind_eq_some_iff.mp h
    cases h
    have h1 := escapedScalar_length hcode
    have h2 := ih rest' ho
    simp only [List.length_append, List.length_cons]
    omega
  | case6 turns b hb e rest he ih =>
    obtain ⟨c, hc, h⟩ := Option.bind_eq_some_iff.mp h
    obtain ⟨o, ho, h⟩ := Option.bind_eq_some_iff.mp h
    cases h
    have := ih ho
    simp only [List.length_cons]
    omega

theorem jsonText_length {v : Bytes} {t : StateText} (h : jsonText v = some t) :
    t.bytes.length ≤ v.length := by
  unfold jsonText at h
  split_ifs at h
  obtain ⟨out, hout, h⟩ := Option.bind_eq_some_iff.mp h
  split_ifs at h
  cases h
  have hle := unescape_length hout
  rw [List.length_dropLast, List.length_drop] at hle
  dsimp only
  omega

/-- The members of an object's body, as far as the scan gets. -/
def members : ℕ → Bytes → List (Bytes × Bytes)
  | 0, _ => []
  | turns + 1, s =>
    match member s with
    | none => []
    | some (key, value, s) =>
      (key, value) :: if (skipSpace s).head? ≠ some 44 then [] else members turns (skipSpace s).tail

theorem fieldLoop_eq (name : Bytes) (turns : ℕ) (s : Bytes) :
    fieldLoop name turns s = ((members turns s).find? fun m => keyIs name m.1).map Prod.snd := by
  induction turns generalizing s with
  | zero => rfl
  | succ turns ih =>
    rw [fieldLoop, members]
    cases hm : member s with
    | none => rfl
    | some m =>
      obtain ⟨key, value, rest⟩ := m
      by_cases hk : keyIs name key
      · simp [hk]
      · simp only [Option.bind_eq_bind, Option.bind_some, hk, Bool.false_eq_true, if_false,
          List.find?_cons]
        split_ifs
        · rfl
        · exact ih _

theorem sum_members_le (turns : ℕ) (s : Bytes) :
    ((members turns s).map fun m => m.2.length).sum ≤ s.length := by
  induction turns generalizing s with
  | zero => exact Nat.zero_le _
  | succ turns ih =>
    rw [members]
    cases hm : member s with
    | none => exact Nat.zero_le _
    | some m =>
      obtain ⟨key, value, rest⟩ := m
      have hlen := member_length hm
      dsimp only
      split_ifs with hcomma
      · simp only [List.map_cons, List.map_nil, List.sum_cons, List.sum_nil]
        omega
      · have hrest := ih (skipSpace rest).tail
        have hlt := length_tail_skipSpace (not_not.mp hcomma)
        simp only [List.map_cons, List.sum_cons]
        omega

theorem keyIs_injective {a b key : Bytes} (ha : keyIs a key) (hb : keyIs b key) : a = b := by
  simp only [keyIs, Bool.and_eq_true, beq_iff_eq] at ha hb
  have hlen : a.length = b.length := by omega
  rw [← ha.2, ← hb.2, hlen]

/-- A sum in which one value replaces at most one term. -/
private theorem sum_ite_le {ι : Type*} {p : ι → Bool} (g : ι → ℕ) (n : ℕ) {is : List ι} (h : is.Nodup)
    (hp : ∀ i ∈ is, ∀ j ∈ is, p i → p j → i = j) :
    (is.map fun i => if p i then n else g i).sum ≤ n + (is.map g).sum := by
  induction is with
  | nil => exact Nat.zero_le _
  | cons i is ih =>
    obtain ⟨hi, his⟩ := List.nodup_cons.mp h
    simp only [List.map_cons, List.sum_cons]
    by_cases hpi : p i
    · have hrest : (is.map fun i => if p i then n else g i) = is.map g := by
        refine List.map_congr_left fun j hj => if_neg ?_
        intro hpj
        rw [hp i (by simp) j (by simp [hj]) hpi hpj] at hi
        exact hi hj
      rw [hrest, if_pos hpi]
      omega
    · have := ih his fun a ha b hb => hp a (by simp [ha]) b (by simp [hb])
      rw [if_neg hpi]
      omega

/-- Members found under different names are different members. -/
theorem sum_found_le (ms : List (Bytes × Bytes)) {names : List Bytes} (h : names.Nodup) :
    (names.map fun name => ((ms.find? fun m => keyIs name m.1).map fun m => m.2.length).getD 0).sum ≤
      (ms.map fun m => m.2.length).sum := by
  induction ms with
  | nil => simp
  | cons m ms ih =>
    let g := fun name : Bytes => ((ms.find? fun m => keyIs name m.1).map fun m => m.2.length).getD 0
    have hcons : (fun name : Bytes =>
        (((m :: ms).find? fun m => keyIs name m.1).map fun m => m.2.length).getD 0) =
        fun name => if keyIs name m.1 then m.2.length else g name := by
      funext name
      by_cases hk : keyIs name m.1 <;> simp [hk, g]
    have hsum := sum_ite_le (p := fun name => keyIs name m.1) g m.2.length h
      fun a _ b _ ha hb => keyIs_injective ha hb
    have hrest : (names.map g).sum ≤ (ms.map fun m => m.2.length).sum := ih
    rw [hcons, List.map_cons, List.sum_cons]
    omega

/-- The values of an object's members with different names fit in the object together. -/
theorem sum_field_le (object : Bytes) (names : List String) (h : (names.map ascii).Nodup) :
    (names.map fun name => ((field object name).map List.length).getD 0).sum ≤ object.length := by
  have hskip := length_skipSpace object
  by_cases hobject : (skipSpace object).length < 2 ∨ (skipSpace object).head? ≠ some 123
  · have hnone : ∀ name, field object name = none := fun name => if_pos hobject
    simp [hnone]
  · let body := members (skipSpace object).length (skipSpace object).tail
    have hfield : ∀ name, ((field object name).map List.length).getD 0 =
        ((body.find? fun m => keyIs (ascii name) m.1).map fun m => m.2.length).getD 0 := by
      intro name
      simp only [field, hobject, if_false, fieldLoop_eq, Option.map_map, body]
      rfl
    have hfound := sum_found_le body h
    have hall := sum_members_le (skipSpace object).length (skipSpace object).tail
    have htail : (skipSpace object).tail.length ≤ (skipSpace object).length := by
      rw [List.length_tail]
      omega
    rw [List.map_map] at hfound
    simp only [hfield]
    exact hfound.trans (hall.trans (htail.trans hskip))

end Lengths

end Json

theorem windowObject_length (data : Bytes) : (windowObject data).length ≤ data.length := by
  unfold windowObject
  split
  · next object _ hobject =>
    have := Json.sum_field_le data ["window"] (by simp)
    simpa [hobject] using this
  · exact le_rfl

theorem jsonTextField_length {object : Bytes} {name : String} {t : StateText}
    (h : jsonTextField object name = some t) :
    t.bytes.length ≤ ((Json.field object name).map List.length).getD 0 := by
  unfold jsonTextField at h
  split at h
  · cases h
    simp [StateText.empty]
  · next v hv =>
    rw [hv]
    exact Json.jsonText_length h

/-- A record's strings take no more than the text they were read from. -/
theorem stateWindowJson_textLength {data : Bytes} {w : WindowRecord}
    (h : stateWindowJson data = some w) : textLength w ≤ data.length := by
  obtain ⟨handle, -, h⟩ := Option.bind_eq_some_iff.mp h
  by_cases hzero : handle = 0
  · rw [if_pos hzero] at h
    cases h
  rw [if_neg hzero] at h
  obtain ⟨title, htitle, h⟩ := Option.bind_eq_some_iff.mp h
  obtain ⟨appId, happId, h⟩ := Option.bind_eq_some_iff.mp h
  obtain ⟨captureId, hcapture, h⟩ := Option.bind_eq_some_iff.mp h
  obtain ⟨compositorId, hcompositor, h⟩ := Option.bind_eq_some_iff.mp h
  cases h
  have hsum := Json.sum_field_le (windowObject data)
    ["title", "appId", "captureId", "compositorId"] (by decide +kernel)
  have hobject := windowObject_length data
  have h1 := jsonTextField_length htitle
  have h2 := jsonTextField_length happId
  have h3 := jsonTextField_length hcapture
  have h4 := jsonTextField_length hcompositor
  simp only [List.map_cons, List.map_nil, List.sum_cons, List.sum_nil] at hsum
  simp only [textLength]
  omega

end KeysharpDesktop
