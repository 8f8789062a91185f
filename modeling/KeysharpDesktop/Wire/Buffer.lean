import KeysharpDesktop.Wire.Protocol

/-! The growable output buffer and the input cursor of the wire layer. Allocation is
taken to succeed; a buffer refuses only what its maximum does not admit. -/
namespace KeysharpDesktop

/-- Contents, allocated capacity and the ceiling no content may pass. -/
structure Buffer where
  data : Bytes
  capacity : ℕ
  maximum : ℕ
  deriving DecidableEq, Repr

def bufferInit (maximum : ℕ) : Buffer := ⟨[], 0, maximum⟩

/-- The doubling loop of `buffer_reserve`. Every turn raises a positive capacity, so
`needed` turns are more than the loop can take. -/
def growCapacity (maximum needed : ℕ) : ℕ → ℕ → ℕ
  | 0, capacity => capacity
  | turns + 1, capacity =>
    if capacity < needed then
      if maximum / 2 < capacity then maximum else growCapacity maximum needed turns (2 * capacity)
    else capacity

def bufferReserve (b : Buffer) (extra : ℕ) : Option Buffer :=
  if b.maximum < extra ∨ b.maximum - extra < b.data.length then none
  else
    let needed := b.data.length + extra
    if needed ≤ b.capacity then some b
    else
      let start := if b.capacity = 0 then 64 else b.capacity
      some { b with capacity := growCapacity b.maximum needed needed start }

def bufferBytes (b : Buffer) (bs : Bytes) : Option Buffer := do
  let b ← bufferReserve b bs.length
  some { b with data := b.data ++ bs }

def bufferU16 (b : Buffer) (v : BitVec 16) : Option Buffer := bufferBytes b (encodeU16 v)
def bufferU32 (b : Buffer) (v : BitVec 32) : Option Buffer := bufferBytes b (encodeU32 v)
def bufferU64 (b : Buffer) (v : BitVec 64) : Option Buffer := bufferBytes b (encodeU64 v)

theorem bufferReserve_some {b b' : Buffer} {extra : ℕ} (h : bufferReserve b extra = some b') :
    b'.data = b.data ∧ b'.maximum = b.maximum := by
  unfold bufferReserve at h
  dsimp only at h
  split_ifs at h <;> cases h <;> exact ⟨rfl, rfl⟩

theorem bufferReserve_isSome (b : Buffer) (extra : ℕ) :
    (bufferReserve b extra).isSome ↔ b.data.length + extra ≤ b.maximum := by
  unfold bufferReserve
  dsimp only
  by_cases hroom : b.maximum < extra ∨ b.maximum - extra < b.data.length
  · simp only [hroom, if_true, Option.isSome_none, Bool.false_eq_true, false_iff]
    omega
  · have hsome : ∀ c : Buffer, (some c).isSome ↔ b.data.length + extra ≤ b.maximum := by
      intro c
      simp only [Option.isSome_some, true_iff]
      omega
    rw [if_neg hroom]
    split_ifs <;> exact hsome _

/-- A buffer within its ceiling, as every buffer is from `bufferInit` on. -/
def Buffer.Fits (b : Buffer) : Prop := b.data.length ≤ b.maximum

theorem bufferInit_fits (maximum : ℕ) : (bufferInit maximum).Fits := Nat.zero_le _

/-- `f` appends exactly `out`, and fails only for want of room. -/
structure Writes (f : Buffer → Option Buffer) (out : Bytes) : Prop where
  isSome {b : Buffer} : b.Fits → ((f b).isSome ↔ b.data.length + out.length ≤ b.maximum)
  data {b b' : Buffer} : f b = some b' → b'.data = b.data ++ out
  maximum {b b' : Buffer} : f b = some b' → b'.maximum = b.maximum

theorem bufferBytes_writes (bs : Bytes) : Writes (bufferBytes · bs) bs where
  isSome {b} _ := by
    rw [← bufferReserve_isSome, bufferBytes]
    cases bufferReserve b bs.length <;> simp
  data {b b'} h := by
    simp only [bufferBytes, Option.bind_eq_bind, Option.bind_eq_some_iff, Option.some.injEq] at h
    obtain ⟨c, hc, rfl⟩ := h
    simp [(bufferReserve_some hc).1]
  maximum {b b'} h := by
    simp only [bufferBytes, Option.bind_eq_bind, Option.bind_eq_some_iff, Option.some.injEq] at h
    obtain ⟨c, hc, rfl⟩ := h
    simp [(bufferReserve_some hc).2]

theorem bufferU16_writes (v : BitVec 16) : Writes (bufferU16 · v) (encodeU16 v) := bufferBytes_writes _
theorem bufferU32_writes (v : BitVec 32) : Writes (bufferU32 · v) (encodeU32 v) := bufferBytes_writes _
theorem bufferU64_writes (v : BitVec 64) : Writes (bufferU64 · v) (encodeU64 v) := bufferBytes_writes _

namespace Writes

variable {f g : Buffer → Option Buffer} {x y : Bytes}

theorem skip : Writes some [] where
  isSome {b} hb := by simpa [Buffer.Fits] using hb
  data h := by cases h; simp
  maximum h := by cases h; rfl

theorem of_eq (hf : Writes f x) (h : x = y) : Writes f y := h ▸ hf

/-- A write that succeeds stays below the ceiling. -/
theorem fits (hf : Writes f x) {b b' : Buffer} (hb : b.Fits) (h : f b = some b') : b'.Fits := by
  have hroom := (hf.isSome hb).mp (by rw [h]; rfl)
  rw [Buffer.Fits, hf.data h, hf.maximum h, List.length_append]
  exact hroom

/-- Writing twice writes the concatenation. -/
theorem bind (hf : Writes f x) (hg : Writes g y) : Writes (fun b => f b >>= g) (x ++ y) where
  isSome {b} hb := by
    cases hfb : f b with
    | none =>
      have hx := hf.isSome hb
      simp only [hfb, Option.isSome_none, Bool.false_eq_true, false_iff] at hx
      simp only [Option.bind_eq_bind, Option.bind_none, Option.isSome_none, Bool.false_eq_true,
        List.length_append, false_iff]
      omega
    | some c =>
      have hc := hg.isSome (hf.fits hb hfb)
      rw [hf.data hfb, hf.maximum hfb] at hc
      simpa [Nat.add_assoc] using hc
  data {b b'} h := by
    obtain ⟨c, hc, hb⟩ := Option.bind_eq_some_iff.mp h
    rw [hg.data hb, hf.data hc, List.append_assoc]
  maximum {b b'} h := by
    obtain ⟨c, hc, hb⟩ := Option.bind_eq_some_iff.mp h
    rw [hg.maximum hb, hf.maximum hc]

/-- A loop of writes writes one output after another. -/
theorem foldlM {ι : Type*} {write : Buffer → ι → Option Buffer} {out : ι → Bytes}
    (h : ∀ i, Writes (write · i) (out i)) (is : List ι) :
    Writes (fun b => is.foldlM write b) (is.flatMap out) := by
  induction is with
  | nil => exact skip
  | cons i is ih =>
    rw [List.flatMap_cons]
    exact (h i).bind ih

/-- The result of a write that fits. -/
theorem exists_of_fits (hf : Writes f x) {b : Buffer} (hb : b.data.length + x.length ≤ b.maximum) :
    ∃ b', f b = some b' ∧ b'.data = b.data ++ x ∧ b'.maximum = b.maximum := by
  have hfits : b.Fits := Nat.le_of_add_right_le hb
  obtain ⟨b', hb'⟩ := Option.isSome_iff_exists.mp ((hf.isSome hfits).mpr hb)
  exact ⟨b', hb', hf.data hb', hf.maximum hb'⟩

/-- What a write to a new buffer gives. -/
theorem bufferInit_eq_some (hf : Writes f x) {n : ℕ} {b : Buffer} (h : f (bufferInit n) = some b) :
    b.data = x ∧ x.length ≤ n := by
  have hdata := hf.data h
  have hfits := hf.fits (bufferInit_fits n) h
  rw [Buffer.Fits, hdata, hf.maximum h] at hfits
  exact ⟨hdata, hfits⟩

theorem bufferInit_eq_none (hf : Writes f x) {n : ℕ} : f (bufferInit n) = none ↔ n < x.length := by
  rw [← Option.not_isSome_iff_eq_none, hf.isSome (bufferInit_fits n)]
  simp [bufferInit]

end Writes

section JsonText

def hexadecimal (digit : UInt8) : UInt8 := if digit < 10 then 0x30 + digit else 0x57 + digit

def jsonEscape (latin1 : Bool) (byte : UInt8) : Bytes :=
  if byte == 0x22 || byte == 0x5c then [0x5c, byte]
  else if byte < 0x20 || byte == 0x7f || (latin1 && byte ≥ 0x80) then
    ascii "\\u00" ++ [hexadecimal (byte >>> 4), hexadecimal (byte &&& 0x0f)]
  else [byte]

def bufferJsonString (b : Buffer) (value : Bytes) (latin1 : Bool) : Option Buffer := do
  let b ← bufferBytes b (ascii "\"")
  let b ← value.foldlM (fun b byte => bufferBytes b (jsonEscape latin1 byte)) b
  bufferBytes b (ascii "\"")

/-- A string as it stands in a JSON text. -/
def jsonString (latin1 : Bool) (value : Bytes) : Bytes :=
  ascii "\"" ++ (value.flatMap (jsonEscape latin1) ++ ascii "\"")

theorem bufferJsonString_writes (value : Bytes) (latin1 : Bool) :
    Writes (bufferJsonString · value latin1) (jsonString latin1 value) :=
  (bufferBytes_writes _).bind <| (Writes.foldlM (fun _ => bufferBytes_writes _) value).bind
    (bufferBytes_writes _)

end JsonText

/-- What is left to read. The source keeps a base, a length and an offset; every accessor
depends only on the bytes from the offset on. -/
abbrev Cursor := Bytes

def cursorBytes (c : Cursor) (length : ℕ) : Option (Bytes × Cursor) :=
  if length ≤ c.length then some (c.take length, c.drop length) else none

def cursorU16 (c : Cursor) : Option (BitVec 16 × Cursor) := do
  let (data, c) ← cursorBytes c 2
  some (decodeU16 data, c)

def cursorU32 (c : Cursor) : Option (BitVec 32 × Cursor) := do
  let (data, c) ← cursorBytes c 4
  some (decodeU32 data, c)

def cursorU64 (c : Cursor) : Option (BitVec 64 × Cursor) := do
  let (data, c) ← cursorBytes c 8
  some (decodeU64 data, c)

def cursorFinished (c : Cursor) : Bool := c.isEmpty

@[simp] theorem cursorBytes_append (bs rest : Bytes) :
    cursorBytes (bs ++ rest) bs.length = some (bs, rest) := by
  simp [cursorBytes]

@[simp] theorem cursorU16_encodeU16 (v : BitVec 16) (rest : Bytes) :
    cursorU16 (encodeU16 v ++ rest) = some (v, rest) := by
  have h := cursorBytes_append (encodeU16 v) rest
  rw [length_encodeU16] at h
  have hv := decodeU16_encodeU16 v []
  rw [List.append_nil] at hv
  simp [cursorU16, h, hv]

@[simp] theorem cursorU32_encodeU32 (v : BitVec 32) (rest : Bytes) :
    cursorU32 (encodeU32 v ++ rest) = some (v, rest) := by
  have h := cursorBytes_append (encodeU32 v) rest
  rw [length_encodeU32] at h
  have hv := decodeU32_encodeU32 v []
  rw [List.append_nil] at hv
  simp [cursorU32, h, hv]

@[simp] theorem cursorU64_encodeU64 (v : BitVec 64) (rest : Bytes) :
    cursorU64 (encodeU64 v ++ rest) = some (v, rest) := by
  have h := cursorBytes_append (encodeU64 v) rest
  rw [length_encodeU64] at h
  have hv := decodeU64_encodeU64 v []
  rw [List.append_nil] at hv
  simp [cursorU64, h, hv]

theorem cursorBytes_eq_some {c rest bs : Bytes} {length : ℕ} (h : cursorBytes c length = some (bs, rest)) :
    c = bs ++ rest ∧ bs.length = length := by
  unfold cursorBytes at h
  split_ifs at h with hle
  cases h
  refine ⟨(List.take_append_drop length c).symm, ?_⟩
  rw [List.length_take]
  omega

/-- A word that is read is the one that is written there. -/
theorem cursorU16_eq_some {c rest : Bytes} {v : BitVec 16} (h : cursorU16 c = some (v, rest)) :
    c = encodeU16 v ++ rest := by
  obtain ⟨⟨bs, c'⟩, hbytes, hv⟩ := Option.bind_eq_some_iff.mp h
  cases hv
  obtain ⟨hsplit, hlength⟩ := cursorBytes_eq_some hbytes
  rw [encodeU16_decodeU16 hlength]
  exact hsplit

theorem cursorU32_eq_some {c rest : Bytes} {v : BitVec 32} (h : cursorU32 c = some (v, rest)) :
    c = encodeU32 v ++ rest := by
  obtain ⟨⟨bs, c'⟩, hbytes, hv⟩ := Option.bind_eq_some_iff.mp h
  cases hv
  obtain ⟨hsplit, hlength⟩ := cursorBytes_eq_some hbytes
  rw [encodeU32_decodeU32 hlength]
  exact hsplit

theorem cursorU64_eq_some {c rest : Bytes} {v : BitVec 64} (h : cursorU64 c = some (v, rest)) :
    c = encodeU64 v ++ rest := by
  obtain ⟨⟨bs, c'⟩, hbytes, hv⟩ := Option.bind_eq_some_iff.mp h
  cases hv
  obtain ⟨hsplit, hlength⟩ := cursorBytes_eq_some hbytes
  rw [encodeU64_decodeU64 hlength]
  exact hsplit

end KeysharpDesktop
