import KeysharpDesktop.Lib.LittleEndian

/-! Constants of the client protocol and the integer encodings every frame uses. -/
namespace KeysharpDesktop

abbrev Bytes := List UInt8
abbrev Opcode := BitVec 16
abbrev Status := BitVec 32
abbrev Scopes := BitVec 32
abbrev Domains := BitVec 32

/-- A fact about every byte of a text is decided along the text, not over all bytes. -/
instance (priority := 2000) decidableForallBytes (p : UInt8 → Prop) [DecidablePred p] (bs : Bytes) :
    Decidable (∀ b ∈ bs, p b) :=
  List.decidableBAll p bs

/-- The bytes of an ASCII text. -/
def ascii (text : String) : Bytes := text.toList.map fun c => UInt8.ofNat c.toNat

/-- The characters of a literal, so that no proof encodes it and decodes it again. -/
theorem ascii_ofList (l : List Char) : ascii (String.ofList l) = l.map fun c => UInt8.ofNat c.toNat := by
  rw [ascii, String.toList_ofList]

theorem ascii_append (a b : String) : ascii (a ++ b) = ascii a ++ ascii b := by
  simp only [ascii, String.toList_append, List.map_append]

def maxTextBytes : ℕ := 4 * 1024 * 1024
def maxCaptureBytes : ℕ := 256 * 1024 * 1024
def maxCaptureTail : ℕ := maxCaptureBytes + 20
def maxMimetypeBytes : ℕ := 1024
def maxMimetypes : ℕ := 4096
def diagnosticCapacity : ℕ := 1024
def frameHeaderSize : ℕ := 24

def protocolMajor : BitVec 16 := 3
def protocolMinor : BitVec 16 := 0

def flagResponse : BitVec 16 := 0x0001
def flagEvent : BitVec 16 := 0x0002
def flagMore : BitVec 16 := 0x0004

/-- What a connection is for, as its hello says. -/
inductive Role
  | rpc | eventStream | authorizationLease
  deriving DecidableEq, Repr

instance (priority := 2000) decidableMemOpcodes (opcode : Opcode) (opcodes : List Opcode) :
    Decidable (opcode ∈ opcodes) :=
  inferInstance

namespace Op

def stateEvent : Opcode := 0x0008
def captureArea : Opcode := 0x2000
def captureWindow : Opcode := 0x2001
def captureDesktop : Opcode := 0x2002
def windowList : Opcode := 0x2010
def windowActive : Opcode := 0x2011
def windowWatch : Opcode := 0x2012
def windowHandles : Opcode := 0x2013
def windowQuery : Opcode := 0x2014
def windowChildren : Opcode := 0x2015
def windowAtPoint : Opcode := 0x2016
def windowFocus : Opcode := 0x2020
def windowRaise : Opcode := 0x2021
def windowLower : Opcode := 0x2022
def windowClose : Opcode := 0x2023
def windowKill : Opcode := 0x2024
def windowMoveResize : Opcode := 0x2025
def windowMoveResizeXid : Opcode := 0x2026
def windowSetState : Opcode := 0x2027
def windowSetOpacity : Opcode := 0x2028
def windowSetAbove : Opcode := 0x2029
def windowSetDecorated : Opcode := 0x202a
def windowReserve : Opcode := 0x202b
def windowGetReserved : Opcode := 0x202c
def windowSetSkipTaskbar : Opcode := 0x202d
def clipboardMimetypes : Opcode := 0x2030
def clipboardContent : Opcode := 0x2031
def clipboardText : Opcode := 0x2032
def clipboardWatch : Opcode := 0x2033
def mouseMoveAbsolute : Opcode := 0x2040
def mouseMoveRelative : Opcode := 0x2041
def mouseButton : Opcode := 0x2042
def mouseScroll : Opcode := 0x2043
def cursorPosition : Opcode := 0x2050
def workArea : Opcode := 0x2051
def displayList : Opcode := 0x2052
def keyboardState : Opcode := 0x2053
def clipboardSetContent : Opcode := 0x2060
def windowSetTitle : Opcode := 0x2070
def windowSetVisible : Opcode := 0x2071
def windowRedraw : Opcode := 0x2072
def windowClick : Opcode := 0x2073
def windowButton : Opcode := 0x2074
def windowFocusChild : Opcode := 0x2075
def windowEvent : Opcode := 0x2110
def clipboardEvent : Opcode := 0x2130

end Op

namespace Scope

def inputControl : Scopes := 0x02
def windowMonitoring : Scopes := 0x04
def windowControl : Scopes := 0x08
def screenCapture : Scopes := 0x10
def audioCapture : Scopes := 0x20
def cameraCapture : Scopes := 0x40
def clipboardMonitoring : Scopes := 0x80

end Scope

/-- A fact about every byte, by running through them. -/
theorem forall_byte {p : UInt8 → Prop} (h : ∀ n < 256, p (UInt8.ofNat n)) (b : UInt8) : p b := by
  have hb := h b.toNat b.toNat_lt
  rwa [UInt8.ofNat_toNat] at hb

def encodeU16 (v : BitVec 16) : Bytes := LittleEndian.bytes 2 v.toNat
def encodeU32 (v : BitVec 32) : Bytes := LittleEndian.bytes 4 v.toNat
def encodeU64 (v : BitVec 64) : Bytes := LittleEndian.bytes 8 v.toNat

/-- Decoders read from the start of a region, as the source does from a pointer. -/
def decodeU16 (bs : Bytes) : BitVec 16 := BitVec.ofNat 16 (LittleEndian.value (bs.take 2))
def decodeU32 (bs : Bytes) : BitVec 32 := BitVec.ofNat 32 (LittleEndian.value (bs.take 4))
def decodeU64 (bs : Bytes) : BitVec 64 := BitVec.ofNat 64 (LittleEndian.value (bs.take 8))

@[simp] theorem length_encodeU16 (v : BitVec 16) : (encodeU16 v).length = 2 :=
  LittleEndian.length_bytes _ _

@[simp] theorem length_encodeU32 (v : BitVec 32) : (encodeU32 v).length = 4 :=
  LittleEndian.length_bytes _ _

@[simp] theorem length_encodeU64 (v : BitVec 64) : (encodeU64 v).length = 8 :=
  LittleEndian.length_bytes _ _

private theorem word_roundtrip {n w : ℕ} (v : BitVec w) (hw : 256 ^ n = 2 ^ w) (rest : Bytes) :
    BitVec.ofNat w (LittleEndian.value ((LittleEndian.bytes n v.toNat ++ rest).take n)) = v := by
  rw [List.take_left' (LittleEndian.length_bytes n v.toNat), LittleEndian.value_bytes, hw]
  apply BitVec.eq_of_toNat_eq
  simp [Nat.mod_eq_of_lt v.isLt]

@[simp] theorem decodeU16_encodeU16 (v : BitVec 16) (rest : Bytes) :
    decodeU16 (encodeU16 v ++ rest) = v := word_roundtrip v (by norm_num) rest

@[simp] theorem decodeU32_encodeU32 (v : BitVec 32) (rest : Bytes) :
    decodeU32 (encodeU32 v ++ rest) = v := word_roundtrip v (by norm_num) rest

@[simp] theorem decodeU64_encodeU64 (v : BitVec 64) (rest : Bytes) :
    decodeU64 (encodeU64 v ++ rest) = v := word_roundtrip v (by norm_num) rest

private theorem bytes_roundtrip {n w : ℕ} {bs : Bytes} (hw : 256 ^ n = 2 ^ w) (h : bs.length = n) :
    LittleEndian.bytes n (BitVec.ofNat w (LittleEndian.value (bs.take n))).toNat = bs := by
  have hlt := LittleEndian.value_lt bs
  rw [h, hw] at hlt
  rw [List.take_of_length_le (Nat.le_of_eq h), BitVec.toNat_ofNat, Nat.mod_eq_of_lt hlt, ← h]
  exact LittleEndian.bytes_value bs

theorem encodeU16_decodeU16 {bs : Bytes} (h : bs.length = 2) : encodeU16 (decodeU16 bs) = bs :=
  bytes_roundtrip (by norm_num) h

theorem encodeU32_decodeU32 {bs : Bytes} (h : bs.length = 4) : encodeU32 (decodeU32 bs) = bs :=
  bytes_roundtrip (by norm_num) h

theorem encodeU64_decodeU64 {bs : Bytes} (h : bs.length = 8) : encodeU64 (decodeU64 bs) = bs :=
  bytes_roundtrip (by norm_num) h

end KeysharpDesktop
