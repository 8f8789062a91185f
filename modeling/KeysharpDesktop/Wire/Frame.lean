import KeysharpDesktop.Wire.Buffer

/-! Frames: a header of 24 bytes and a payload. -/
namespace KeysharpDesktop

structure Frame where
  magic : Bytes
  major : BitVec 16
  minor : BitVec 16
  opcode : Opcode
  flags : BitVec 16
  requestId : BitVec 64
  payload : Bytes
  deriving DecidableEq, Repr

def frameMagic : Bytes := ascii "KSDP"

/-- The length field is what `(uint32_t)` keeps of the payload's length. -/
def Frame.payloadLength (frame : Frame) : BitVec 32 := BitVec.ofNat 32 frame.payload.length

def encodeFrameHeader (frame : Frame) : Bytes :=
  frame.magic ++ (encodeU16 frame.major ++ (encodeU16 frame.minor ++ (encodeU16 frame.opcode ++
    (encodeU16 frame.flags ++ (encodeU32 frame.payloadLength ++ encodeU64 frame.requestId)))))

def framePack (frame : Frame) (b : Buffer) : Option Buffer := do
  let b ← bufferBytes b (encodeFrameHeader frame)
  bufferBytes b frame.payload

/-- The fields of a header, each read at its offset. -/
structure Header where
  magic : Bytes
  major : BitVec 16
  minor : BitVec 16
  opcode : Opcode
  flags : BitVec 16
  payloadLength : BitVec 32
  requestId : BitVec 64
  deriving DecidableEq, Repr

def decodeFrameHeader (header : Bytes) : Header where
  magic := header.take 4
  major := decodeU16 (header.drop 4)
  minor := decodeU16 (header.drop 6)
  opcode := decodeU16 (header.drop 8)
  flags := decodeU16 (header.drop 10)
  payloadLength := decodeU32 (header.drop 12)
  requestId := decodeU64 (header.drop 16)

def Frame.header (frame : Frame) : Header :=
  ⟨frame.magic, frame.major, frame.minor, frame.opcode, frame.flags, frame.payloadLength, frame.requestId⟩

/-- A frame as one run of bytes. -/
def Frame.bytes (frame : Frame) : Bytes := encodeFrameHeader frame ++ frame.payload

theorem length_encodeFrameHeader {frame : Frame} (h : frame.magic.length = 4) :
    (encodeFrameHeader frame).length = frameHeaderSize := by
  simp [encodeFrameHeader, frameHeaderSize, h]

theorem framePack_writes (frame : Frame) :
    Writes (framePack frame) frame.bytes :=
  (bufferBytes_writes _).bind (bufferBytes_writes _)

theorem drop_field {field rest : Bytes} {n k : ℕ} (h : field.length = n) (hk : n ≤ k) :
    (field ++ rest).drop k = rest.drop (k - n) := by
  subst h
  rw [List.drop_append, List.drop_eq_nil_of_le hk, List.nil_append]

/-- A packed header reads back as the fields it was packed from. -/
theorem decodeFrameHeader_encodeFrameHeader {frame : Frame} (h : frame.magic.length = 4) :
    decodeFrameHeader (encodeFrameHeader frame) = frame.header := by
  have hid : decodeU64 (encodeU64 frame.requestId) = frame.requestId := by
    have := decodeU64_encodeU64 frame.requestId []
    rwa [List.append_nil] at this
  simp [decodeFrameHeader, encodeFrameHeader, Frame.header, h, drop_field (length_encodeU16 _),
    drop_field (length_encodeU32 _), drop_field h, hid]

end KeysharpDesktop
