import KeysharpDesktop.Lib.Memory
import KeysharpDesktop.Lib.Transition
import KeysharpDesktop.Wire.Buffer

/-! The growable buffer as it stands in memory: its sizes are machine words, every block it holds may move when it
grows, and an allocation may fail. -/
namespace KeysharpDesktop

abbrev Size := BitVec 64

/-- What `realloc` answers for a size: nothing, or what the block holds beyond the old one. -/
abbrev Allocator := Size → Option (ℕ → UInt8)

/-- Only the first `capacity` bytes of `data` belong to the buffer. -/
structure Storage where
  data : ℕ → UInt8
  length : Size
  capacity : Size
  maximum : Size

/-- What a caller points to: nothing with a length, or a block. -/
inductive Source
  | null (length : Size)
  | block (bytes : Bytes) (sized : bytes.length < 2 ^ 64)

def Source.bytes : Source → Bytes
  | null _ => []
  | block bytes _ => bytes

def Source.length : Source → Size
  | null length => length
  | block bytes _ => BitVec.ofNat 64 bytes.length

/-- A pointer that may be read to the length that comes with it. -/
def Source.Readable : Source → Prop
  | null length => length = 0
  | block _ _ => True

instance : DecidablePred Source.Readable := fun source => match source with
  | .null length => inferInstanceAs (Decidable (length = 0))
  | .block _ _ => isTrue trivial

theorem Source.Readable.length_eq {source : Source} (h : source.Readable) :
    source.length.toNat = source.bytes.length := by
  cases source with
  | null length =>
    obtain rfl : length = 0 := h
    rfl
  | block bytes sized => rw [Source.length, Source.bytes, BitVec.toNat_ofNat, Nat.mod_eq_of_lt sized]

section Growth

/-- The capacity that the doubling starts from. -/
def startCapacity (capacity : Size) : {c : Size // c ≠ 0} :=
  if h : capacity = 0 then ⟨64, by decide⟩ else ⟨capacity, h⟩

theorem toNat_pos (capacity : {c : Size // c ≠ 0}) : 0 < capacity.val.toNat := by
  rw [Nat.pos_iff_ne_zero]
  exact fun hzero => capacity.property (BitVec.eq_of_toNat_eq hzero)

theorem double_toNat {maximum : Size} {capacity : Size} (h : ¬maximum / 2 < capacity) :
    (capacity * 2).toNat = 2 * capacity.toNat ∧ 2 * capacity.toNat ≤ maximum.toNat := by
  rw [BitVec.lt_def, BitVec.toNat_udiv, not_lt] at h
  have hmaximum := maximum.isLt
  have htwo : (2 : Size).toNat = 2 := rfl
  rw [htwo] at h
  rw [BitVec.toNat_mul, htwo, Nat.mod_eq_of_lt (by omega)]
  omega

/-- The doubling loop of `buffer_reserve`. It ends because the capacity is never zero and no doubling wraps. -/
def doubleCapacity (maximum needed : Size) (capacity : {c : Size // c ≠ 0}) : Size :=
  if capacity.val < needed then
    if h : maximum / 2 < capacity.val then maximum
    else doubleCapacity maximum needed ⟨capacity.val * 2, by
      intro hzero
      have htwice := (double_toNat h).1
      rw [hzero] at htwice
      exact absurd htwice.symm (Nat.mul_ne_zero two_ne_zero (toNat_pos capacity).ne')⟩
  else capacity.val
  termination_by maximum.toNat - capacity.val.toNat
  decreasing_by
    have hpos := toNat_pos capacity
    have htwice := double_toNat h
    omega

theorem startCapacity_toNat (capacity : Size) :
    (startCapacity capacity).val.toNat = if capacity.toNat = 0 then 64 else capacity.toNat := by
  unfold startCapacity
  split_ifs with hzero hnat hnat
  · rfl
  · rw [hzero] at hnat
    exact absurd rfl hnat
  · exact absurd (BitVec.eq_of_toNat_eq hnat) hzero
  · rfl

variable {maximum needed : Size} {capacity : {c : Size // c ≠ 0}}

theorem le_doubleCapacity (h : needed ≤ maximum) : needed ≤ doubleCapacity maximum needed capacity := by
  fun_induction doubleCapacity maximum needed capacity with
  | case1 capacity hlow hhigh => exact h
  | case2 capacity hlow hhigh ih => exact ih
  | case3 capacity hlow => exact BitVec.not_lt.mp hlow

/-- The loop doubles fewer times than a size has bits, and stops at the maximum at the latest. -/
theorem doubleCapacity_eq (maximum needed : Size) (capacity : {c : Size // c ≠ 0}) :
    ∃ n < 64, doubleCapacity maximum needed capacity = maximum ∨
      (doubleCapacity maximum needed capacity).toNat = 2 ^ n * capacity.val.toNat := by
  have hturns : doubleCapacity maximum needed capacity = maximum ∨
      ∃ n, (doubleCapacity maximum needed capacity).toNat = 2 ^ n * capacity.val.toNat := by
    fun_induction doubleCapacity maximum needed capacity with
    | case1 capacity hlow hhigh => exact Or.inl rfl
    | case2 capacity hlow hhigh ih =>
      obtain hmaximum | ⟨n, hn⟩ := ih
      · exact Or.inl hmaximum
      · right
        refine ⟨n + 1, ?_⟩
        rw [hn, (double_toNat hhigh).1, pow_succ, mul_assoc]
    | case3 capacity hlow => exact Or.inr ⟨0, by rw [pow_zero, one_mul]⟩
  obtain hmaximum | ⟨n, hn⟩ := hturns
  · exact ⟨0, by decide, Or.inl hmaximum⟩
  · refine ⟨n, ?_, Or.inr hn⟩
    have hpos := toNat_pos capacity
    have hbound := (doubleCapacity maximum needed capacity).isLt
    rw [hn] at hbound
    exact (Nat.pow_lt_pow_iff_right (by decide)).mp (lt_of_le_of_lt (Nat.le_mul_of_pos_right _ hpos) hbound)

/-- The loop over machine words is the loop over numbers. -/
theorem doubleCapacity_toNat {turns : ℕ} (h : needed.toNat ≤ turns + capacity.val.toNat) :
    (doubleCapacity maximum needed capacity).toNat =
      growCapacity maximum.toNat needed.toNat turns capacity.val.toNat := by
  fun_induction doubleCapacity maximum needed capacity generalizing turns with
  | case1 capacity hlow hhigh =>
    have hhalf : maximum.toNat / 2 < capacity.val.toNat := hhigh
    rw [BitVec.lt_def] at hlow
    cases turns with
    | zero => omega
    | succ turns => rw [growCapacity, if_pos hlow, if_pos hhalf]
  | case2 capacity hlow hhigh ih =>
    have htwice := (double_toNat hhigh).1
    have hpos := toNat_pos capacity
    have hhalf : ¬maximum.toNat / 2 < capacity.val.toNat := hhigh
    rw [BitVec.lt_def] at hlow
    cases turns with
    | zero => omega
    | succ turns =>
      have hnext := @ih turns (by rw [htwice]; omega)
      rw [hnext, htwice, growCapacity, if_pos hlow, if_neg hhalf]
  | case3 capacity hlow =>
    rw [BitVec.lt_def] at hlow
    cases turns with
    | zero => rfl
    | succ turns => rw [growCapacity, if_neg hlow]

end Growth

namespace Storage

/-- The bytes that have been written. -/
def contents (b : Storage) : Bytes := Memory.read b.data 0 b.length.toNat

def bufferInit (maximum : Size) : Storage := ⟨fun _ => 0, 0, 0, maximum⟩

def bufferClear (_ : Storage) : Storage := ⟨fun _ => 0, 0, 0, 0⟩

def bufferReserve (alloc : Allocator) (b : Storage) (extra : Size) : Bool × Storage :=
  if b.maximum < extra ∨ b.maximum - extra < b.length then (false, b)
  else
    let needed := b.length + extra
    if needed ≤ b.capacity then (true, b)
    else
      let capacity := doubleCapacity b.maximum needed (startCapacity b.capacity)
      match alloc capacity with
      | none => (false, b)
      | some fresh =>
        (true, { b with data := fun i => if i < b.capacity.toNat then b.data i else fresh i, capacity })

def bufferBytes (alloc : Allocator) (b : Storage) (source : Source) : Bool × Storage :=
  if ¬source.Readable then (false, b)
  else
    match bufferReserve alloc b source.length with
    | (false, b) => (false, b)
    | (true, b) =>
      (true, { b with
        data := Memory.write b.data b.length.toNat source.bytes
        length := b.length + source.length })

/-- A block of the caller's own stack. -/
def encoded (bytes : Bytes) (h : bytes.length ≤ 8) : Source := .block bytes (by omega)

def bufferU16 (alloc : Allocator) (b : Storage) (v : BitVec 16) : Bool × Storage :=
  bufferBytes alloc b (encoded (encodeU16 v) (by rw [length_encodeU16]; decide))

def bufferU32 (alloc : Allocator) (b : Storage) (v : BitVec 32) : Bool × Storage :=
  bufferBytes alloc b (encoded (encodeU32 v) (by rw [length_encodeU32]; decide))

def bufferU64 (alloc : Allocator) (b : Storage) (v : BitVec 64) : Bool × Storage :=
  bufferBytes alloc b (encoded (encodeU64 v) (by rw [length_encodeU64]))

theorem length_jsonEscape_le (latin1 : Bool) (byte : UInt8) : (jsonEscape latin1 byte).length ≤ 8 := by
  unfold jsonEscape
  split_ifs <;> simp [ascii]

/-- The bytes of a string one after another, up to the first that does not fit. -/
def bufferEscaped (alloc : Allocator) (latin1 : Bool) (b : Storage) : Bytes → Bool × Storage
  | [] => (true, b)
  | byte :: rest =>
    match bufferBytes alloc b (encoded (jsonEscape latin1 byte) (length_jsonEscape_le latin1 byte)) with
    | (false, b) => (false, b)
    | (true, b) => bufferEscaped alloc latin1 b rest

def quote : Source := encoded (ascii "\"") (by decide)

def bufferJsonString (alloc : Allocator) (b : Storage) (source : Source) (latin1 : Bool) : Bool × Storage :=
  if ¬source.Readable then (false, b)
  else
    match bufferBytes alloc b quote with
    | (false, b) => (false, b)
    | (true, b) =>
      match bufferEscaped alloc latin1 b source.bytes with
      | (false, b) => (false, b)
      | (true, b) => bufferBytes alloc b quote

def bufferFrameText (alloc : Allocator) (b : Storage) (maximumPayload : Size) : Bool × Storage :=
  if maximumPayload < b.length ∨ 0xffffffff < b.length ∨ 0xffffffffffffffff - 4 < maximumPayload then (false, b)
  else
    let length := b.length
    match bufferReserve alloc { b with maximum := maximumPayload + 4 } 4 with
    | (false, b) => (false, b)
    | (true, b) =>
      let moved := Memory.move b.data 4 0 length.toNat
      (true, { b with
        data := Memory.write moved 0 (encodeU32 (length.setWidth 32))
        length := length + 4 })

section Operations

variable {alloc : Allocator} {b b' : Storage} {source : Source} {extra : Size}

/-- What has been written stays within the block and within the ceiling. -/
structure Within (b : Storage) : Prop where
  capacity : b.length ≤ b.capacity
  maximum : b.length ≤ b.maximum

@[simp] theorem length_contents : b.contents.length = b.length.toNat := Memory.length_read

/-- What `buffer_reserve` does: it refuses a size above the ceiling, or the allocation fails, or the block has room and
holds every byte that it held. -/
inductive Reserves (alloc : Allocator) (b : Storage) (extra : Size) : Bool × Storage → Prop
  | tooLarge (large : b.maximum.toNat < b.length.toNat + extra.toNat) : Reserves alloc b extra (false, b)
  | unallocated (fits : b.length.toNat + extra.toNat ≤ b.maximum.toNat) (size : Size) (failed : alloc size = none) :
      Reserves alloc b extra (false, b)
  | room (data : ℕ → UInt8) (capacity : Size) (fits : b.length.toNat + extra.toNat ≤ b.maximum.toNat)
      (room : b.length.toNat + extra.toNat ≤ capacity.toNat)
      (kept : ∀ i < b.capacity.toNat, data i = b.data i)
      (grown : capacity.toNat = if b.length.toNat + extra.toNat ≤ b.capacity.toNat then b.capacity.toNat
        else growCapacity b.maximum.toNat (b.length.toNat + extra.toNat) (b.length.toNat + extra.toNat)
          (if b.capacity.toNat = 0 then 64 else b.capacity.toNat)) :
      Reserves alloc b extra (true, { b with data, capacity })

theorem bufferReserve_reserves (alloc : Allocator) (b : Storage) (extra : Size) :
    Reserves alloc b extra (bufferReserve alloc b extra) := by
  have hmaximum := b.maximum.isLt
  have hrefuses : (b.maximum < extra ∨ b.maximum - extra < b.length) ↔
      b.maximum.toNat < b.length.toNat + extra.toNat := by
    rw [BitVec.lt_def, BitVec.lt_def]
    by_cases hextra : b.maximum.toNat < extra.toNat
    · exact iff_of_true (Or.inl hextra) (by omega)
    · rw [BitVec.toNat_sub_of_le (BitVec.le_def.mpr (by omega))]
      omega
  unfold bufferReserve
  by_cases hlarge : b.maximum < extra ∨ b.maximum - extra < b.length
  · rw [if_pos hlarge]
    exact .tooLarge (hrefuses.mp hlarge)
  · rw [if_neg hlarge]
    rw [hrefuses, not_lt] at hlarge
    have hneeded : (b.length + extra).toNat = b.length.toNat + extra.toNat := by
      rw [BitVec.toNat_add, Nat.mod_eq_of_lt (by omega)]
    dsimp only
    by_cases hroom : b.length + extra ≤ b.capacity
    · rw [if_pos hroom]
      rw [BitVec.le_def, hneeded] at hroom
      exact .room b.data b.capacity hlarge hroom (fun _ _ => rfl) (if_pos hroom).symm
    · rw [if_neg hroom]
      have hgrown := @le_doubleCapacity b.maximum (b.length + extra) (startCapacity b.capacity)
        (by rw [BitVec.le_def, hneeded]; exact hlarge)
      rw [BitVec.le_def, hneeded] at hgrown
      cases halloc : alloc (doubleCapacity b.maximum (b.length + extra) (startCapacity b.capacity)) with
      | none => exact .unallocated hlarge _ halloc
      | some fresh =>
        have hturns := @doubleCapacity_toNat b.maximum (b.length + extra) (startCapacity b.capacity) _
          (Nat.le_add_right _ _)
        rw [BitVec.le_def, hneeded] at hroom
        rw [hneeded, startCapacity_toNat] at hturns
        exact .room _ _ hlarge hgrown (fun i hi => if_pos hi) (hturns.trans (if_neg hroom).symm)

/-- What an append does: it refuses and leaves the buffer as it was, or the bytes follow what was there. -/
inductive Appends (alloc : Allocator) (b : Storage) (source : Source) : Bool × Storage → Prop
  | unreadable (missing : ¬source.Readable) : Appends alloc b source (false, b)
  | tooLarge (large : b.maximum.toNat < b.length.toNat + source.length.toNat) : Appends alloc b source (false, b)
  | unallocated (fits : b.length.toNat + source.length.toNat ≤ b.maximum.toNat) (size : Size)
      (failed : alloc size = none) : Appends alloc b source (false, b)
  | done {b' : Storage} (fits : b.length.toNat + source.length.toNat ≤ b.maximum.toNat)
      (written : b'.contents = b.contents ++ source.bytes) (within : b'.Within) (maximum : b'.maximum = b.maximum) :
      Appends alloc b source (true, b')

theorem bufferBytes_appends (h : b.Within) (alloc : Allocator) (source : Source) :
    Appends alloc b source (bufferBytes alloc b source) := by
  unfold bufferBytes
  by_cases hreadable : source.Readable
  swap
  · rw [if_pos hreadable]
    exact .unreadable hreadable
  rw [if_neg (not_not.mpr hreadable)]
  have hreserves := bufferReserve_reserves alloc b source.length
  generalize bufferReserve alloc b source.length = reserved at hreserves
  cases hreserves with
  | tooLarge large => exact .tooLarge large
  | unallocated fits size failed => exact .unallocated fits size failed
  | room data capacity fits room kept _ =>
    have hmaximum := b.maximum.isLt
    have hcapacity : b.length.toNat ≤ b.capacity.toNat := h.capacity
    have hlength : (b.length + source.length).toNat = b.length.toNat + source.bytes.length := by
      rw [BitVec.toNat_add, Nat.mod_eq_of_lt (by omega), hreadable.length_eq]
    rw [hreadable.length_eq] at fits room
    refine .done (by rwa [hreadable.length_eq]) ?_ ⟨?_, ?_⟩ rfl
    · rw [contents, hlength, Memory.read_add, Nat.zero_add, Memory.read_write_self,
        Memory.read_write_of_disjoint (Or.inl (Nat.zero_add _).le)]
      congr 1
      exact Memory.read_congr fun i _ hi => kept i (lt_of_lt_of_le (by rwa [Nat.zero_add] at hi) hcapacity)
    · rw [BitVec.le_def, hlength]
      exact room
    · rw [BitVec.le_def, hlength]
      exact fits

theorem Appends.within {r : Bool × Storage} (h : Appends alloc b source r) (hb : b.Within) : r.2.Within := by
  cases h with
  | unreadable _ => exact hb
  | tooLarge _ => exact hb
  | unallocated _ _ _ => exact hb
  | done _ _ within _ => exact within

theorem Appends.written {r : Bool × Storage} (h : Appends alloc b source r) (hdone : r.1 = true) :
    r.2.contents = b.contents ++ source.bytes := by
  cases h with
  | unreadable _ => cases hdone
  | tooLarge _ => cases hdone
  | unallocated _ _ _ => cases hdone
  | done _ written _ _ => exact written

theorem Appends.unchanged {r : Bool × Storage} (h : Appends alloc b source r) (hfailed : r.1 = false) : r.2 = b := by
  cases h with
  | unreadable _ => rfl
  | tooLarge _ => rfl
  | unallocated _ _ _ => rfl
  | done _ _ _ _ => cases hfailed

/-- Where the pointer may be read and every allocation succeeds, only the size decides. -/
theorem Appends.failed_iff {r : Bool × Storage} (h : Appends alloc b source r) (hreadable : source.Readable)
    (halloc : ∀ size, (alloc size).isSome) :
    r.1 = false ↔ b.maximum.toNat < b.length.toNat + source.length.toNat := by
  cases h with
  | unreadable missing => exact absurd hreadable missing
  | tooLarge large => exact iff_of_true rfl large
  | unallocated _ size failed =>
    have hsome := halloc size
    rw [failed] at hsome
    cases hsome
  | done fits _ _ _ => exact iff_of_false Bool.noConfusion (Nat.not_lt.mpr fits)

theorem bufferEscaped_written (hb : b.Within) (alloc : Allocator) (latin1 : Bool) (bytes : Bytes) :
    (bufferEscaped alloc latin1 b bytes).2.Within ∧ ((bufferEscaped alloc latin1 b bytes).1 = true →
      (bufferEscaped alloc latin1 b bytes).2.contents = b.contents ++ bytes.flatMap (jsonEscape latin1)) := by
  induction bytes generalizing b with
  | nil => exact ⟨hb, fun _ => (List.append_nil _).symm⟩
  | cons byte rest ih =>
    have happends := bufferBytes_appends hb alloc
      (encoded (jsonEscape latin1 byte) (length_jsonEscape_le latin1 byte))
    have hwithin := happends.within hb
    have hwritten := happends.written
    unfold bufferEscaped
    generalize bufferBytes alloc b (encoded (jsonEscape latin1 byte) (length_jsonEscape_le latin1 byte)) = r at *
    obtain ⟨_ | _, c⟩ := r
    · exact ⟨hwithin, fun hdone => by cases hdone⟩
    · obtain ⟨hrest, hescaped⟩ := ih hwithin
      refine ⟨hrest, ?_⟩
      intro hdone
      rw [hescaped hdone, hwritten rfl, List.append_assoc, List.flatMap_cons]
      rfl

theorem bufferJsonString_written (hb : b.Within) (alloc : Allocator) (source : Source) (latin1 : Bool) :
    (bufferJsonString alloc b source latin1).2.Within ∧ ((bufferJsonString alloc b source latin1).1 = true →
      (bufferJsonString alloc b source latin1).2.contents = b.contents ++ jsonString latin1 source.bytes) := by
  unfold bufferJsonString
  by_cases hmissing : ¬source.Readable
  · rw [if_pos hmissing]
    exact ⟨hb, fun hdone => by cases hdone⟩
  rw [if_neg hmissing]
  have hopen := bufferBytes_appends hb alloc quote
  have hopened := hopen.within hb
  have hquote := hopen.written
  generalize bufferBytes alloc b quote = r at *
  obtain ⟨_ | _, c⟩ := r
  · exact ⟨hopened, fun hdone => by cases hdone⟩
  obtain ⟨hrest, hescaped⟩ := bufferEscaped_written hopened alloc latin1 source.bytes
  dsimp only
  generalize bufferEscaped alloc latin1 c source.bytes = r at *
  obtain ⟨_ | _, d⟩ := r
  · exact ⟨hrest, fun hdone => by cases hdone⟩
  have hclose := bufferBytes_appends hrest alloc quote
  refine ⟨hclose.within hrest, ?_⟩
  intro hdone
  rw [hclose.written hdone, hescaped rfl, hquote rfl, jsonString, List.append_assoc, List.append_assoc]
  rfl

/-- What framing does: the text moves up by four bytes and its length stands before it, or no byte of it changes. -/
inductive Frames (b : Storage) : Bool × Storage → Prop
  | failed {b' : Storage} (same : b'.contents = b.contents) (within : b'.Within) : Frames b (false, b')
  | done {b' : Storage} (short : b.contents.length < 2 ^ 32)
      (written : b'.contents = encodeU32 (BitVec.ofNat 32 b.contents.length) ++ b.contents) (within : b'.Within) :
      Frames b (true, b')

theorem bufferFrameText_frames (hb : b.Within) (alloc : Allocator) (maximumPayload : Size) :
    Frames b (bufferFrameText alloc b maximumPayload) := by
  unfold bufferFrameText
  split_ifs with hrefused
  · exact .failed rfl hb
  simp only [not_or, BitVec.not_lt] at hrefused
  obtain ⟨hpayload, hword, hmaximum⟩ := hrefused
  have hlimit : (maximumPayload + 4).toNat = maximumPayload.toNat + 4 := by
    rw [BitVec.toNat_add, Nat.mod_eq_of_lt]
    · rfl
    · have hle : maximumPayload.toNat ≤ 2 ^ 64 - 1 - 4 := hmaximum
      show maximumPayload.toNat + 4 < 2 ^ 64
      omega
  have hlow : b.length.toNat ≤ maximumPayload.toNat := hpayload
  have hsmall : b.length.toNat ≤ 2 ^ 32 - 1 := hword
  have hcapacity : b.length.toNat ≤ b.capacity.toNat := hb.capacity
  have hraised : Within { b with maximum := maximumPayload + 4 } :=
    ⟨hb.capacity, by rw [BitVec.le_def, hlimit]; exact Nat.le_add_right_of_le hlow⟩
  have hreserves := bufferReserve_reserves alloc { b with maximum := maximumPayload + 4 } 4
  dsimp only
  generalize bufferReserve alloc { b with maximum := maximumPayload + 4 } 4 = reserved at hreserves
  cases hreserves with
  | tooLarge large => exact .failed rfl hraised
  | unallocated fits size failed => exact .failed rfl hraised
  | room data capacity fits room kept _ =>
    have hfour : (4 : Size).toNat = 4 := rfl
    rw [hfour] at fits room
    have hlength : (b.length + 4).toNat = 4 + b.length.toNat := by
      rw [BitVec.toNat_add, Nat.mod_eq_of_lt (by omega), hfour, Nat.add_comm]
    have hheader : (encodeU32 (b.length.setWidth 32)).length = 4 := length_encodeU32 _
    refine .done (by rw [length_contents]; omega) ?_ ⟨?_, ?_⟩
    · have hkept : Memory.read data 0 b.length.toNat = b.contents :=
        Memory.read_congr fun i _ hi => kept i (lt_of_lt_of_le (by rwa [Nat.zero_add] at hi) hcapacity)
      have hlow32 : b.length.setWidth 32 = BitVec.ofNat 32 b.length.toNat :=
        BitVec.eq_of_toNat_eq (by rw [BitVec.toNat_setWidth, BitVec.toNat_ofNat])
      have hsize : (Memory.read data 0 b.length.toNat).length = b.length.toNat := Memory.length_read
      have hself := @Memory.read_write_self _ data (Memory.read data 0 b.length.toNat) 4
      rw [hsize] at hself
      have hfront := @Memory.read_write_self _ (Memory.move data 4 0 b.length.toNat)
        (encodeU32 (b.length.setWidth 32)) 0
      rw [hheader] at hfront
      rw [contents, hlength, Memory.read_add, hfront, Memory.read_write_of_disjoint (Or.inr (by rw [hheader])),
        Memory.move, Nat.zero_add, hself, hkept, hlow32, length_contents]
    · rw [BitVec.le_def, hlength, Nat.add_comm]
      exact room
    · rw [BitVec.le_def, hlength, Nat.add_comm]
      exact fits

end Operations

section Runs

variable {alloc : Allocator} {b : Storage} {source : Source}

inductive Call
  | init (maximum : Size)
  | clear
  | bytes (source : Source)
  | u16 (v : BitVec 16)
  | u32 (v : BitVec 32)
  | u64 (v : BitVec 64)
  | jsonString (source : Source) (latin1 : Bool)
  | frameText (maximumPayload : Size)

def call (alloc : Allocator) (b : Storage) : Call → Bool × Storage
  | .init maximum => (true, bufferInit maximum)
  | .clear => (true, bufferClear b)
  | .bytes source => bufferBytes alloc b source
  | .u16 v => bufferU16 alloc b v
  | .u32 v => bufferU32 alloc b v
  | .u64 v => bufferU64 alloc b v
  | .jsonString source latin1 => bufferJsonString alloc b source latin1
  | .frameText maximumPayload => bufferFrameText alloc b maximumPayload

/-- The bytes that a call appends, if it is an append. -/
def Call.output : Call → Option Bytes
  | .bytes source => some source.bytes
  | .u16 v => some (encodeU16 v)
  | .u32 v => some (encodeU32 v)
  | .u64 v => some (encodeU64 v)
  | .jsonString source latin1 => some (KeysharpDesktop.jsonString latin1 source.bytes)
  | .init _ | .clear | .frameText _ => none

theorem call_within (hb : b.Within) (alloc : Allocator) (c : Call) : (call alloc b c).2.Within := by
  cases c with
  | init maximum => exact ⟨Nat.zero_le _, Nat.zero_le _⟩
  | clear => exact ⟨Nat.zero_le _, Nat.zero_le _⟩
  | bytes source => exact (bufferBytes_appends hb alloc source).within hb
  | u16 v => exact (bufferBytes_appends hb alloc _).within hb
  | u32 v => exact (bufferBytes_appends hb alloc _).within hb
  | u64 v => exact (bufferBytes_appends hb alloc _).within hb
  | jsonString source latin1 => exact (bufferJsonString_written hb alloc source latin1).1
  | frameText maximumPayload =>
    have hframes := bufferFrameText_frames hb alloc maximumPayload
    show (bufferFrameText alloc b maximumPayload).2.Within
    generalize bufferFrameText alloc b maximumPayload = r at hframes
    cases hframes with
    | failed _ within => exact within
    | done _ _ within => exact within

/-- A call that succeeds adds its bytes after the old contents and nothing else. -/
theorem call_written (hb : b.Within) (alloc : Allocator) {c : Call} {out : Bytes} (hout : c.output = some out)
    (hdone : (call alloc b c).1 = true) : (call alloc b c).2.contents = b.contents ++ out := by
  cases c with
  | init maximum => cases hout
  | clear => cases hout
  | bytes source =>
    cases hout
    exact (bufferBytes_appends hb alloc source).written hdone
  | u16 v =>
    cases hout
    exact (bufferBytes_appends hb alloc _).written hdone
  | u32 v =>
    cases hout
    exact (bufferBytes_appends hb alloc _).written hdone
  | u64 v =>
    cases hout
    exact (bufferBytes_appends hb alloc _).written hdone
  | jsonString source latin1 =>
    cases hout
    exact (bufferJsonString_written hb alloc source latin1).2 hdone
  | frameText maximumPayload => cases hout

/-- A buffer after a sequence of calls, each with its own allocations. -/
def run (maximum : Size) (calls : List (Call × Allocator)) : Storage :=
  calls.foldl (fun b c => (call c.2 b c.1).2) (bufferInit maximum)

theorem run_within (maximum : Size) (calls : List (Call × Allocator)) : (run maximum calls).Within := by
  apply Transition.Run.invariant (I := Within) _ (Transition.Run.foldl _ _ calls)
  · exact ⟨Nat.zero_le _, Nat.zero_le _⟩
  · rintro b c b' hb rfl
    exact call_within hb c.2 c.1

/-- After any calls the contents stay within the block and the ceiling; the doubling ends and does not wrap; an append
adds its bytes or, where it fails, leaves the buffer alone; only a size above the ceiling is refused for its size; and
framing puts the length before the text or changes no byte of it. -/
theorem run_appends (maximum : Size) (calls : List (Call × Allocator)) (alloc : Allocator) (c : Call)
    (source : Source) (needed maximumPayload : Size) :
    ((run maximum calls).length ≤ (run maximum calls).capacity ∧
      (run maximum calls).length ≤ (run maximum calls).maximum) ∧
    (∃ n < 64, doubleCapacity (run maximum calls).maximum needed (startCapacity (run maximum calls).capacity) =
        (run maximum calls).maximum ∨
      (doubleCapacity (run maximum calls).maximum needed (startCapacity (run maximum calls).capacity)).toNat =
        2 ^ n * (startCapacity (run maximum calls).capacity).val.toNat) ∧
    (∀ out, c.output = some out → (call alloc (run maximum calls) c).1 = true →
      (call alloc (run maximum calls) c).2.contents = (run maximum calls).contents ++ out) ∧
    ((bufferBytes alloc (run maximum calls) source).1 = false →
      (bufferBytes alloc (run maximum calls) source).2 = run maximum calls) ∧
    (source.Readable → (∀ size, (alloc size).isSome) →
      ((bufferBytes alloc (run maximum calls) source).1 = false ↔
        (run maximum calls).maximum.toNat < (run maximum calls).length.toNat + source.length.toNat)) ∧
    ((bufferFrameText alloc (run maximum calls) maximumPayload).1 = true →
      (run maximum calls).contents.length < 2 ^ 32 ∧
      (bufferFrameText alloc (run maximum calls) maximumPayload).2.contents =
        encodeU32 (BitVec.ofNat 32 (run maximum calls).contents.length) ++ (run maximum calls).contents) ∧
    ((bufferFrameText alloc (run maximum calls) maximumPayload).1 = false →
      (bufferFrameText alloc (run maximum calls) maximumPayload).2.contents = (run maximum calls).contents) := by
  have hwithin := run_within maximum calls
  have happends := bufferBytes_appends hwithin alloc source
  have hframes := bufferFrameText_frames hwithin alloc maximumPayload
  refine ⟨⟨hwithin.capacity, hwithin.maximum⟩, doubleCapacity_eq _ _ _,
    fun out hout hdone => call_written hwithin alloc hout hdone, happends.unchanged, happends.failed_iff, ?_, ?_⟩
  · intro hdone
    generalize bufferFrameText alloc (run maximum calls) maximumPayload = r at hframes hdone
    cases hframes with
    | failed _ _ => cases hdone
    | done short written _ => exact ⟨short, written⟩
  · intro hfailed
    generalize bufferFrameText alloc (run maximum calls) maximumPayload = r at hframes hfailed
    cases hframes with
    | failed same _ => exact same
    | done _ _ _ => cases hfailed

end Runs

section Model

variable {alloc : Allocator} {b : Storage} {source : Source}

/-- The buffer without its memory. -/
def model (b : Storage) : Buffer := ⟨b.contents, b.capacity.toNat, b.maximum.toNat⟩

@[simp] theorem model_data : b.model.data = b.contents := rfl

@[simp] theorem model_capacity : b.model.capacity = b.capacity.toNat := rfl

@[simp] theorem model_maximum : b.model.maximum = b.maximum.toNat := rfl

/-- Where every allocation succeeds, an append in memory is an append to the buffer without its memory. -/
theorem bufferBytes_model (hb : b.Within) (hreadable : source.Readable) (halloc : ∀ size, (alloc size).isSome) :
    KeysharpDesktop.bufferBytes b.model source.bytes =
      if (bufferBytes alloc b source).1 then some (bufferBytes alloc b source).2.model else none := by
  have happends := bufferBytes_appends hb alloc source
  have hroom := bufferReserve_isSome b.model source.bytes.length
  have hreserves := bufferReserve_reserves alloc b source.length
  have hlength := hreadable.length_eq
  unfold bufferBytes at happends ⊢
  rw [if_neg (not_not.mpr hreadable)] at happends ⊢
  generalize bufferReserve alloc b source.length = reserved at hreserves happends ⊢
  cases hreserves with
  | tooLarge large =>
    have hnone : KeysharpDesktop.bufferReserve b.model source.bytes.length = none := by
      rw [← Option.not_isSome_iff_eq_none, hroom, model_data, model_maximum, length_contents]
      omega
    rw [KeysharpDesktop.bufferBytes, hnone]
    rfl
  | unallocated _ size failed =>
    have hsome := halloc size
    rw [failed] at hsome
    cases hsome
  | room data capacity fits room kept grown =>
    have hwritten := happends.written rfl
    dsimp only at hwritten ⊢
    rw [hlength] at fits grown
    have hfits : ¬(b.maximum.toNat < source.bytes.length ∨ b.maximum.toNat - source.bytes.length < b.length.toNat) := by
      omega
    have hreserved : KeysharpDesktop.bufferReserve b.model source.bytes.length =
        some { b.model with capacity := capacity.toNat } := by
      simp only [KeysharpDesktop.bufferReserve, model_data, model_capacity, model_maximum, length_contents, if_neg hfits]
      rw [grown]
      by_cases hheld : b.length.toNat + source.bytes.length ≤ b.capacity.toNat
      · rw [if_pos hheld, if_pos hheld]
        rfl
      · rw [if_neg hheld, if_neg hheld]
        rfl
    rw [KeysharpDesktop.bufferBytes, hreserved, if_pos rfl]
    exact congrArg (fun text => some (Buffer.mk text capacity.toNat b.maximum.toNat)) hwritten.symm

end Model

end Storage

end KeysharpDesktop
