import KeysharpDesktop.Client.Connection
import KeysharpDesktop.Display.Capture
import KeysharpDesktop.Lib.Ancillary

/-! The two messages between the authority and a capture worker: the bootstrap that tells the worker
who it serves and what for, and the response with a sealed file beside it. Calls that are
interrupted are made again and leave no trace. -/
namespace KeysharpDesktop.CaptureWorker

open Ancillary Capture

def workerMagic : Bytes := ascii "KSCW"
def workerVersion : BitVec 16 := 4
def headerSize : ℕ := 32
def maxGroups : ℕ := 256
def responseSize : ℕ := 24 + diagnosticCapacity
def bootstrapMax : ℕ := headerSize + maxGroups * 4 + frameHeaderSize + maxRequestPayload

/-- What every file holds, by its inode. -/
abbrev Disk := ℕ → Bytes

section Response

/-- What the calls about the file of a response come to. -/
structure MemfdCalls where
  inode : ℕ
  created : Bool
  wrote : Bool
  sealed : Bool

/-- A message as it is handed to the kernel, with the files as they are then. -/
structure Sent where
  message : Bytes
  payloadFd : Option File
  disk : Disk

def validStatus (status : Status) : Bool := status ≤ Status.revoked || status == Status.internal

def sealedCaptureFile (file : File) (length : ℕ) : Bool :=
  20 ≤ length && length ≤ maxCaptureTail && file.sealedOf length

def responseMessage (status : Status) (detail tailLength : BitVec 32) (diagnostic : Bytes) : Bytes :=
  workerMagic ++ (encodeU16 workerVersion ++ (encodeU16 0 ++ (encodeU32 status ++ (encodeU32 detail ++
    (encodeU32 tailLength ++ (encodeU32 (BitVec.ofNat 32 diagnostic.length) ++
      (diagnostic ++ List.replicate (diagnosticCapacity - diagnostic.length) 0)))))))

/-- An empty tail stands for no tail. -/
def sendWorkerResponse (calls : MemfdCalls) (disk : Disk) (result : OperationResult) : Option Sent :=
  let diagnosticLength :=
    if result.status == Status.ok then 0 else min (cString result.diagnostic).length diagnosticCapacity
  if !validStatus result.status || diagnosticCapacity ≤ diagnosticLength then none
  else
    let message := responseMessage result.status result.detail
      (if result.status == Status.ok then BitVec.ofNat 32 result.tailLength else 0)
      (result.diagnostic.take diagnosticLength)
    if result.status != Status.ok || result.tailLength == 0 then
      if result.status == Status.ok && !result.tail.isEmpty then none else some ⟨message, none, disk⟩
    else if maxCaptureTail < result.tailLength then none
    else
      match result.payloadFd with
      | some file =>
        if result.tail.isEmpty && sealedCaptureFile file result.tailLength then some ⟨message, some file, disk⟩
        else none
      | none =>
        if !result.tail.isEmpty && calls.created && calls.wrote && calls.sealed then
          some ⟨message, some ⟨calls.inode, result.tailLength, true, some requiredSeals⟩,
            Function.update disk calls.inode (result.tail.take result.tailLength)⟩
        else none

/-- The control buffer has room for this many descriptors. -/
def optionalFdRoom : ℕ := 16

def receiveOptionalFd {φ : Type} (kind : Kind) (stops : Bool) (length : ℕ) (s : List (Segment UInt8 φ)) :
    Option (Bytes × Option φ) :=
  let (received, _) := recvmsgWaiting kind stops optionalFdRoom length s
  let files := descriptors received.control
  if received.bytes.length != length || received.truncated || received.control.any Control.isOther ||
      1 < files.length then none
  else some (received.bytes, files.head?)

def failedText : Bytes := ascii "capture worker failed"

/-- What a response whose head is valid comes to. Mapping the file is taken to succeed. -/
def responseResult (disk : Disk) (status : Status) (detail : BitVec 32) (tailLength : ℕ) (diagnostic : Bytes)
    (payloadFd : Option File) : Option OperationResult :=
  if status == Status.ok && tailLength == 0 then
    if diagnostic.length != 0 || payloadFd.isSome then none else some (resultTake [])
  else if status == Status.ok then
    match payloadFd with
    | none => none
    | some file =>
      if diagnostic.length != 0 || !sealedCaptureFile file tailLength then none
      else if !captureTailValid (disk file.inode) tailLength then none
      else resultTakeFd file tailLength
  else if payloadFd.isSome || tailLength != 0 then none
  else some (resultError status detail (if diagnostic.length = 0 then failedText else diagnostic))

def receiveWorkerResponse (kind : Kind) (stops : Bool) (disk : Disk) (s : List (Segment UInt8 File)) :
    Option OperationResult := do
  let (message, payloadFd) ← receiveOptionalFd kind stops responseSize s
  let status := decodeU32 (message.drop 8)
  let diagnosticLength := (decodeU32 (message.drop 20)).toNat
  let diagnostic := (message.drop 24).take diagnosticLength
  let valid := message.take 4 == workerMagic && decodeU16 (message.drop 4) == workerVersion &&
    decodeU16 (message.drop 6) == 0 && validStatus status && diagnosticLength < diagnosticCapacity &&
    utf8Valid false diagnostic
  if !valid then none
  else
    responseResult disk status (decodeU32 (message.drop 12)) (decodeU32 (message.drop 16)).toNat diagnostic payloadFd

end Response

section Bootstrap

/-- One end of a pipe, as `fstat` and `F_GETFL` show it. -/
structure PipeEnd where
  fifo : Bool
  device : ℕ
  inode : ℕ
  owner : BitVec 32
  group : BitVec 32
  mode : BitVec 32
  readable : Bool
  writable : Bool
  nonblocking : Bool
  deriving DecidableEq, Repr

/-- Who the installation belongs to. -/
structure Installation where
  ownerTrusted : BitVec 32 → Bool
  group : BitVec 32

/-- Two descriptors that the kernel has handed over are open and have different numbers. -/
def capturePipeValid (install : Installation) (reader writer : PipeEnd) : Bool :=
  reader.fifo && writer.fifo && reader.device == writer.device && reader.inode == writer.inode &&
    install.ownerTrusted reader.owner && install.ownerTrusted writer.owner &&
    reader.group == install.group && writer.group == install.group &&
    reader.mode &&& 0x1ff == 0 && writer.mode &&& 0x1ff == 0 &&
    (reader.readable && !reader.writable) && (writer.writable && !writer.readable) && reader.nonblocking

/-- One worker is started for one request, and one that stays for none. -/
def packRequest (request : Option Frame) (persistent : Bool) : Option Buffer :=
  match persistent, request with
  | true, none => some (bufferInit (frameHeaderSize + maxRequestPayload))
  | false, some request =>
    if maxRequestPayload < request.payload.length then none
    else framePack request (bufferInit (frameHeaderSize + maxRequestPayload))
  | _, _ => none

def writeBootstrap (uid gid : BitVec 32) (groups : List (BitVec 32)) (frame : Bytes)
    (sessionPid backend : BitVec 32) (persistent : Bool) (b : Buffer) : Option Buffer := do
  let b ← bufferBytes b workerMagic
  let b ← bufferU16 b workerVersion
  let b ← bufferU16 b (backend.setWidth 16)
  let b ← bufferU32 b uid
  let b ← bufferU32 b gid
  let b ← bufferU32 b (BitVec.ofNat 32 groups.length)
  let b ← bufferU32 b (BitVec.ofNat 32 frame.length)
  let b ← bufferU32 b sessionPid
  let b ← bufferU32 b (if persistent then 1 else 0)
  let b ← groups.foldlM bufferU32 b
  bufferBytes b frame

/-- The message that goes out beside the two ends of the capture pipe. -/
def sendBootstrap (uid gid : BitVec 32) (groups : List (BitVec 32)) (request : Option Frame)
    (sessionPid backend : BitVec 32) (persistent : Bool) : Option Bytes :=
  if maxGroups < groups.length then none
  else do
    let frame ← packRequest request persistent
    let b ← writeBootstrap uid gid groups frame.data sessionPid backend persistent (bufferInit bootstrapMax)
    some b.data

/-- The control buffer of the worker has room for this many descriptors. -/
def bootstrapRoom : ℕ := 4

/-- What is read behind a header, which says how long the whole is. -/
def readExpected (capacity : ℕ) (bytes : Bytes) (s : List Bytes) : Option Bytes :=
  let expected := headerSize + (decodeU32 (bytes.drop 16)).toNat * 4 + (decodeU32 (bytes.drop 20)).toNat
  if capacity < expected || expected < bytes.length then none
  else if bytes.length < expected then
    (readWhole (expected - bytes.length) s).map fun (missing, _) => bytes ++ missing
  else some bytes

/-- What is read behind the first part of a bootstrap on a stream. -/
def readBootstrap (capacity : ℕ) (bytes : Bytes) (s : List Bytes) : Option Bytes :=
  if bytes.length < headerSize then
    (readWhole (headerSize - bytes.length) s).bind fun (missing, s) => readExpected capacity (bytes ++ missing) s
  else readExpected capacity bytes s

def receiveBootstrap (install : Installation) (kind : Kind) (capacity : ℕ) (s : List (Segment UInt8 PipeEnd)) :
    Option (Bytes × PipeEnd × PipeEnd) := do
  let (received, s) := recvmsg kind bootstrapRoom capacity s
  let whole ←
    match kind with
    | .stream =>
      if received.bytes.isEmpty || received.control.any Control.isOther then none
      else readBootstrap capacity received.bytes (s.map Segment.bytes)
    | .packets => some received.bytes
  if received.bytes.isEmpty || received.truncated || received.control.any Control.isOther then none
  else
    match descriptors received.control with
    | [reader, writer] => if capturePipeValid install reader writer then some (whole, reader, writer) else none
    | _ => none

structure WorkerBootstrap where
  uid : BitVec 32
  gid : BitVec 32
  groupCount : BitVec 32
  frameLength : BitVec 32
  sessionPid : BitVec 32
  backend : BitVec 32
  persistent : Bool
  deriving DecidableEq, Repr

def backendX11 : BitVec 16 := 5

def parseBootstrapHeader (bootstrap : Bytes) : Option WorkerBootstrap :=
  if bootstrap.length < headerSize || bootstrap.take 4 != workerMagic ||
      decodeU16 (bootstrap.drop 4) != workerVersion || backendX11 < decodeU16 (bootstrap.drop 6) ||
      1 < decodeU32 (bootstrap.drop 28) then none
  else
    let parsed : WorkerBootstrap :=
      { uid := decodeU32 (bootstrap.drop 8)
        gid := decodeU32 (bootstrap.drop 12)
        groupCount := decodeU32 (bootstrap.drop 16)
        frameLength := decodeU32 (bootstrap.drop 20)
        sessionPid := decodeU32 (bootstrap.drop 24)
        backend := (decodeU16 (bootstrap.drop 6)).setWidth 32
        persistent := decodeU32 (bootstrap.drop 28) != 0 }
    if 0 < parsed.sessionPid.toInt && parsed.groupCount.toNat ≤ maxGroups &&
        (if parsed.persistent then parsed.frameLength == 0 else frameHeaderSize ≤ parsed.frameLength.toNat) &&
        parsed.frameLength.toNat ≤ frameHeaderSize + maxRequestPayload &&
        headerSize + parsed.groupCount.toNat * 4 + parsed.frameLength.toNat == bootstrap.length then some parsed
    else none

/-- The groups that the worker takes on. -/
def bootstrapGroups (bootstrap : Bytes) (header : WorkerBootstrap) : List (BitVec 32) :=
  (List.range header.groupCount.toNat).map fun index => decodeU32 (bootstrap.drop (headerSize + index * 4))

/-- The frame that the worker unpacks. -/
def bootstrapFrame (bootstrap : Bytes) (header : WorkerBootstrap) : Bytes :=
  (bootstrap.drop (headerSize + header.groupCount.toNat * 4)).take header.frameLength.toNat

end Bootstrap

section Layout

variable {field rest : Bytes}

/-- A field in front of the offset is passed over. -/
theorem drop_magic {k : ℕ} (hk : 4 ≤ k) : (workerMagic ++ rest).drop k = rest.drop (k - 4) :=
  drop_field rfl hk

theorem take_magic : (workerMagic ++ rest).take 4 = workerMagic := List.take_left' rfl

theorem length_responseMessage {diagnostic : Bytes} (h : diagnostic.length < diagnosticCapacity) (status : Status)
    (detail tailLength : BitVec 32) :
    (responseMessage status detail tailLength diagnostic).length = responseSize := by
  have hmagic : workerMagic.length = 4 := rfl
  simp only [responseMessage, responseSize, List.length_append, hmagic, length_encodeU16, length_encodeU32,
    List.length_replicate]
  omega

theorem responseMessage_fields (status : Status) (detail tailLength : BitVec 32) {diagnostic : Bytes}
    (h : diagnostic.length < diagnosticCapacity) :
    let message := responseMessage status detail tailLength diagnostic
    message.take 4 = workerMagic ∧ decodeU16 (message.drop 4) = workerVersion ∧ decodeU16 (message.drop 6) = 0 ∧
      decodeU32 (message.drop 8) = status ∧ decodeU32 (message.drop 12) = detail ∧
      decodeU32 (message.drop 16) = tailLength ∧ (decodeU32 (message.drop 20)).toNat = diagnostic.length ∧
      (message.drop 24).take diagnostic.length = diagnostic := by
  have hlength : diagnostic.length % 4294967296 = diagnostic.length := by
    unfold diagnosticCapacity at h
    omega
  simp [responseMessage, take_magic, drop_magic, drop_field (length_encodeU16 _), drop_field (length_encodeU32 _),
    hlength]

end Layout

section Responses

variable {calls : MemfdCalls} {disk : Disk} {result received : OperationResult} {kind : Kind} {stops : Bool}
  {s : List (Segment UInt8 File)} {message later : Bytes} {φ : Type} {file : Option φ}

/-- The control messages that bring a descriptor, or none. -/
def attached (file : Option φ) : List (Control φ) := (file.map fun file => .rights [file]).toList

theorem descriptors_attached (file : Option φ) : descriptors (attached file) = file.toList := by
  cases file <;> rfl

theorem receiveOptionalFd_arrives {s : List (Segment UInt8 φ)} (h : Arrives message (attached file) kind s later)
    (hne : message ≠ [])
    (hwhole : stops = true → attached file ≠ [] → ∀ segment ∈ s.head?, segment.bytes = message) :
    receiveOptionalFd kind stops message.length s = some (message, file) := by
  have hroom : (descriptors (attached file)).length ≤ optionalFdRoom := by
    rw [descriptors_attached]
    cases file <;> simp [optionalFdRoom]
  obtain ⟨t, hwaiting, -⟩ := h.waiting hne hroom hwhole
  unfold receiveOptionalFd
  rw [hwaiting]
  cases file <;> simp [attached, descriptors, Control.isOther]

/-- What a capture produces: a tail or a sealed file that the validator takes, nothing to carry,
or an error. -/
inductive Produced (disk : Disk) : OperationResult → Prop
  | tail (bytes : Bytes) (valid : captureTailValid bytes bytes.length) : Produced disk (resultTake bytes)
  | file (file : File) (length : ℕ) (sealed : file.sealedOf length)
      (valid : captureTailValid (disk file.inode) length) :
      Produced disk ⟨Status.ok, 0, [], [], length, some file⟩
  | nothing : Produced disk (resultTake [])
  | error (status : Status) (detail : BitVec 32) (diagnostic : Bytes) (failed : status ≠ Status.ok)
      (known : Client.validStatus status) (text : DiagnosticOk diagnostic) :
      Produced disk ⟨status, detail, diagnostic, [], 0, none⟩

/-- The bytes that a result carries. -/
def payload (disk : Disk) (result : OperationResult) : Bytes :=
  match result.payloadFd with
  | some file => disk file.inode
  | none => result.tail

/-- What is the same on both sides of a response. -/
structure SameResult (disk disk' : Disk) (result received : OperationResult) : Prop where
  status : received.status = result.status
  detail : received.detail = result.detail
  payload : payload disk' received = payload disk result
  diagnostic : result.diagnostic ≠ [] → received.diagnostic = result.diagnostic

theorem captureTailValid_bounds {tail : Bytes} {tailLength : ℕ} (h : captureTailValid tail tailLength) :
    20 ≤ tailLength ∧ tailLength ≤ maxCaptureTail := by
  unfold captureTailValid at h
  split_ifs at h with hshort
  dsimp only at h
  split_ifs at h with hrefused
  all_goals
    simp only [Bool.or_eq_true, decide_eq_true_eq, bne_iff_ne, not_or, not_not, beq_iff_eq, not_lt] at hrefused
    have hlength := hrefused.2
    have hbytes := hrefused.1.2
    have hmax : 20 + maxCaptureBytes < 2 ^ 32 := by decide
    unfold maxCaptureTail
    omega

theorem receiveWorkerResponse_message (disk : Disk) {status : Status} {detail tailLength : BitVec 32}
    {diagnostic : Bytes} {file : Option File} (hstatus : validStatus status) (htext : DiagnosticOk diagnostic)
    (h : Arrives (responseMessage status detail tailLength diagnostic) (attached file) kind s later)
    (hwhole : stops = true → attached file ≠ [] →
      ∀ segment ∈ s.head?, segment.bytes = responseMessage status detail tailLength diagnostic) :
    receiveWorkerResponse kind stops disk s =
      responseResult disk status detail tailLength.toNat diagnostic file := by
  have hlength := length_responseMessage htext.2 status detail tailLength
  have hne : responseMessage status detail tailLength diagnostic ≠ [] := by
    intro hnil
    rw [hnil] at hlength
    cases hlength
  have hreceive := receiveOptionalFd_arrives h hne hwhole
  obtain ⟨hmagic, hversion, hreserved, hstatus', hdetail, htail, hcount, htext'⟩ :=
    responseMessage_fields status detail tailLength htext.2
  rw [hlength] at hreceive
  unfold receiveWorkerResponse
  simp only [hreceive, Option.bind_eq_bind, Option.bind_some, hmagic, hversion, hreserved, hstatus', hdetail, htail,
    hcount, htext', hstatus, htext.1, htext.2, BEq.rfl, decide_true, Bool.and_self, Bool.not_true,
    Bool.false_eq_true, if_false]

/-- No call about the file of a response fails. -/
def MemfdCalls.succeed (calls : MemfdCalls) : Bool := calls.created && calls.wrote && calls.sealed

/-- The head of a response that carries nothing but its status. -/
theorem sendWorkerResponse_error {status : Status} {detail : BitVec 32} {diagnostic : Bytes}
    (hfailed : status ≠ Status.ok) (hknown : validStatus status) (htext : DiagnosticOk diagnostic) :
    sendWorkerResponse calls disk ⟨status, detail, diagnostic, [], 0, none⟩ =
      some ⟨responseMessage status detail 0 diagnostic, none, disk⟩ := by
  have hstring : cString diagnostic = diagnostic := cString_of_valid htext.1
  have hmin : min diagnostic.length diagnosticCapacity = diagnostic.length := Nat.min_eq_left htext.2.le
  have hroom : ¬diagnosticCapacity ≤ diagnostic.length := Nat.not_le_of_lt htext.2
  simp [sendWorkerResponse, hfailed, hknown, hstring, hmin, hroom]

theorem sendWorkerResponse_nothing :
    sendWorkerResponse calls disk (resultTake []) =
      some ⟨responseMessage Status.ok 0 0 [], none, disk⟩ := rfl

/-- A payload goes with a sealed file: the file of the result, or one made for its tail. -/
theorem sendWorkerResponse_file {file : File} {tailLength : ℕ} (hfile : sealedCaptureFile file tailLength) :
    sendWorkerResponse calls disk ⟨Status.ok, 0, [], [], tailLength, some file⟩ =
      some ⟨responseMessage Status.ok 0 (BitVec.ofNat 32 tailLength) [], some file, disk⟩ := by
  have hbounds : 20 ≤ tailLength ∧ tailLength ≤ maxCaptureTail := by
    simp only [sealedCaptureFile, Bool.and_eq_true, decide_eq_true_eq] at hfile
    exact hfile.1
  have hzero : tailLength ≠ 0 := by omega
  have hfits : ¬maxCaptureTail < tailLength := by omega
  have hvalid : validStatus Status.ok = true := rfl
  simp [sendWorkerResponse, hvalid, diagnosticCapacity, hzero, hfits, hfile]

theorem sendWorkerResponse_tail {tail : Bytes} (hbounds : 20 ≤ tail.length ∧ tail.length ≤ maxCaptureTail) :
    sendWorkerResponse calls disk (resultTake tail) =
      if calls.succeed then
        some ⟨responseMessage Status.ok 0 (BitVec.ofNat 32 tail.length) [],
          some ⟨calls.inode, tail.length, true, some requiredSeals⟩, Function.update disk calls.inode tail⟩
      else none := by
  have hne : tail ≠ [] := by
    rintro rfl
    simp at hbounds
  have hfits : ¬maxCaptureTail < tail.length := by omega
  have hvalid : validStatus Status.ok = true := rfl
  simp [sendWorkerResponse, resultTake, hvalid, diagnosticCapacity, hne, hfits, MemfdCalls.succeed, and_assoc]

theorem sealedCaptureFile_memfd {tailLength : ℕ} (hbounds : 20 ≤ tailLength ∧ tailLength ≤ maxCaptureTail)
    (inode : ℕ) : sealedCaptureFile ⟨inode, tailLength, true, some requiredSeals⟩ tailLength := by
  simp [sealedCaptureFile, File.sealedOf, hbounds]

theorem responseResult_file {file : File} {tailLength : ℕ} (hfile : sealedCaptureFile file tailLength)
    (hvalid : captureTailValid (disk file.inode) tailLength) :
    responseResult disk Status.ok 0 (BitVec.ofNat 32 tailLength).toNat [] (some file) =
      some ⟨Status.ok, 0, [], [], tailLength, some file⟩ := by
  obtain ⟨hlow, hhigh⟩ := captureTailValid_bounds hvalid
  have hmax : maxCaptureTail < 2 ^ 32 := by decide
  have hlength : (BitVec.ofNat 32 tailLength).toNat = tailLength := by
    rw [BitVec.toNat_ofNat, Nat.mod_eq_of_lt (by omega)]
  have hzero : tailLength ≠ 0 := by omega
  rw [hlength]
  simp [responseResult, hzero, hfile, hvalid, resultTakeFd]

/-- Whatever a capture produces is sent, unless making its file fails. -/
theorem Produced.sent (h : Produced disk result) (hcalls : calls.succeed) :
    (sendWorkerResponse calls disk result).isSome := by
  cases h with
  | tail bytes hvalid =>
    rw [sendWorkerResponse_tail (captureTailValid_bounds hvalid), if_pos hcalls]
    rfl
  | file file length hsealed hvalid =>
    obtain ⟨hlow, hhigh⟩ := captureTailValid_bounds hvalid
    rw [sendWorkerResponse_file (by simp [sealedCaptureFile, hlow, hhigh, hsealed])]
    rfl
  | nothing => rfl
  | error status detail diagnostic hfailed hknown htext =>
    rw [sendWorkerResponse_error hfailed hknown htext]
    rfl

/-- What is sent is received as the same result, however it comes. -/
theorem Produced.reaches (h : Produced disk result) {sent : Sent}
    (hsent : sendWorkerResponse calls disk result = some sent)
    (harrives : Arrives sent.message (attached sent.payloadFd) kind s later)
    (hwhole : stops = true → attached sent.payloadFd ≠ [] → ∀ segment ∈ s.head?, segment.bytes = sent.message) :
    ∃ received, receiveWorkerResponse kind stops sent.disk s = some received ∧
      SameResult disk sent.disk result received := by
  have hok : validStatus Status.ok = true := rfl
  have hempty : DiagnosticOk [] := by decide
  cases h with
  | tail bytes hvalid =>
    have hbounds := captureTailValid_bounds hvalid
    rw [sendWorkerResponse_tail hbounds] at hsent
    split_ifs at hsent
    cases hsent
    have hdisk : Function.update disk calls.inode bytes calls.inode = bytes := Function.update_self ..
    have hheld : captureTailValid (Function.update disk calls.inode bytes calls.inode) bytes.length := by
      rwa [hdisk]
    refine ⟨_, (receiveWorkerResponse_message _ hok hempty harrives hwhole).trans
      (responseResult_file (sealedCaptureFile_memfd hbounds calls.inode) hheld), rfl, rfl, hdisk, ?_⟩
    exact fun hne => absurd rfl hne
  | file file length hsealed hvalid =>
    obtain ⟨hlow, hhigh⟩ := captureTailValid_bounds hvalid
    have hfile : sealedCaptureFile file length := by simp [sealedCaptureFile, hlow, hhigh, hsealed]
    rw [sendWorkerResponse_file hfile] at hsent
    cases hsent
    refine ⟨_, (receiveWorkerResponse_message _ hok hempty harrives hwhole).trans
      (responseResult_file hfile hvalid), rfl, rfl, rfl, ?_⟩
    exact fun hne => absurd rfl hne
  | nothing =>
    rw [sendWorkerResponse_nothing] at hsent
    cases hsent
    refine ⟨_, receiveWorkerResponse_message _ hok hempty harrives hwhole, rfl, rfl, rfl, ?_⟩
    exact fun hne => absurd rfl hne
  | error status detail diagnostic hfailed hknown htext =>
    rw [sendWorkerResponse_error hfailed hknown htext] at hsent
    cases hsent
    have hreceive := receiveWorkerResponse_message disk hknown htext harrives hwhole
    have hresult : responseResult disk status detail (0 : BitVec 32).toNat diagnostic none =
        some (resultError status detail (if diagnostic.length = 0 then failedText else diagnostic)) := by
      simp [responseResult, hfailed]
    refine ⟨_, hreceive.trans hresult, rfl, rfl, rfl, ?_⟩
    intro hne
    rw [if_neg (by simpa using hne), resultError_diagnostic htext]

/-- A descriptor is kept with a payload and with nothing else. -/
theorem responseResult_payloadFd {status : Status} {detail : BitVec 32} {tailLength : ℕ} {diagnostic : Bytes}
    {payloadFd : Option File}
    (h : responseResult disk status detail tailLength diagnostic payloadFd = some received) :
    received.payloadFd = payloadFd ∧
      (payloadFd.isSome ↔ received.status = Status.ok ∧ received.tailLength ≠ 0) := by
  unfold responseResult at h
  generalize (if diagnostic.length = 0 then failedText else diagnostic) = text at h
  split_ifs at h with hnothing hrefused hok hattached
  · cases h
    have hnone : payloadFd = none := by
      simp only [Bool.or_eq_true, not_or, Bool.not_eq_true, Option.isSome_eq_false_iff, Option.isNone_iff_eq_none]
        at hrefused
      exact hrefused.2
    rw [hnone]
    simp [resultTake]
  · cases hfile : payloadFd with
    | none => simp [hfile] at h
    | some file =>
      simp only [hfile] at h
      split_ifs at h
      unfold resultTakeFd at h
      split_ifs at h with hzero
      cases h
      simp [hzero]
  · cases h
    have hstatus : status ≠ Status.ok := by simpa using hok
    have hnone : payloadFd = none := by
      simp only [Bool.or_eq_true, not_or, Bool.not_eq_true, Option.isSome_eq_false_iff, Option.isNone_iff_eq_none]
        at hattached
      exact hattached.1
    rw [hnone]
    simp [resultError, hstatus]

theorem receiveOptionalFd_descriptors {length : ℕ} {s : List (Segment UInt8 φ)} {message : Bytes}
    (h : receiveOptionalFd kind stops length s = some (message, file)) :
    descriptors (recvmsgWaiting kind stops optionalFdRoom length s).1.control = file.toList := by
  unfold receiveOptionalFd at h
  generalize recvmsgWaiting kind stops optionalFdRoom length s = result at h
  obtain ⟨received, rest⟩ := result
  dsimp only at h ⊢
  split_ifs at h with hrefused
  cases h
  simp only [Bool.or_eq_true, decide_eq_true_eq, not_or, not_lt] at hrefused
  have hfew := hrefused.2
  generalize descriptors received.control = files at hfew
  match files, hfew with
  | [], _ => rfl
  | [_], _ => rfl

/-- Every descriptor that came with an accepted response is in its result, and a result has one
exactly when it is a success with a payload. -/
theorem receiveWorkerResponse_descriptors (h : receiveWorkerResponse kind stops disk s = some received) :
    descriptors (recvmsgWaiting kind stops optionalFdRoom responseSize s).1.control = received.payloadFd.toList ∧
      (received.payloadFd.isSome ↔ received.status = Status.ok ∧ received.tailLength ≠ 0) := by
  unfold receiveWorkerResponse at h
  simp only [Option.bind_eq_bind, Option.bind_eq_some_iff] at h
  obtain ⟨⟨message, payloadFd⟩, hreceive, h⟩ := h
  dsimp only at h
  split_ifs at h
  obtain ⟨hsame, hiff⟩ := responseResult_payloadFd h
  rw [hsame]
  exact ⟨receiveOptionalFd_descriptors hreceive, hiff⟩

end Responses

section Bootstraps

variable {uid gid sessionPid backend : BitVec 32} {groups : List (BitVec 32)} {request : Option Frame}
  {persistent : Bool} {frame message tail later : Bytes}

/-- The bytes of the request that a bootstrap carries. -/
def requestBytes (request : Option Frame) : Bytes := (request.map Frame.bytes).getD []

def bootstrapMessage (uid gid : BitVec 32) (groups : List (BitVec 32)) (frame : Bytes)
    (sessionPid backend : BitVec 32) (persistent : Bool) : Bytes :=
  workerMagic ++ (encodeU16 workerVersion ++ (encodeU16 (backend.setWidth 16) ++ (encodeU32 uid ++ (encodeU32 gid ++
    (encodeU32 (BitVec.ofNat 32 groups.length) ++ (encodeU32 (BitVec.ofNat 32 frame.length) ++
      (encodeU32 sessionPid ++ (encodeU32 (if persistent then 1 else 0) ++
        (groups.flatMap encodeU32 ++ frame)))))))))

theorem length_flatMap_encodeU32 (groups : List (BitVec 32)) :
    (groups.flatMap encodeU32).length = groups.length * 4 := by
  simp [List.length_flatMap]

theorem length_bootstrapMessage (uid gid : BitVec 32) (groups : List (BitVec 32)) (frame : Bytes)
    (sessionPid backend : BitVec 32) (persistent : Bool) :
    (bootstrapMessage uid gid groups frame sessionPid backend persistent).length =
      headerSize + groups.length * 4 + frame.length := by
  have hmagic : workerMagic.length = 4 := rfl
  simp only [bootstrapMessage, List.length_append, hmagic, length_encodeU16, length_encodeU32,
    length_flatMap_encodeU32, headerSize]
  omega

/-- A request that a worker can be started with: none for one that stays, one that fits for one
that does not. -/
structure Startable (request : Option Frame) (persistent : Bool) : Prop where
  alone : persistent = request.isNone
  fits : ∀ frame ∈ request, frame.magic.length = 4 ∧ frame.payload.length ≤ maxRequestPayload

theorem Startable.length_requestBytes (h : Startable request persistent) :
    (requestBytes request).length ≤ frameHeaderSize + maxRequestPayload ∧
      (if persistent then (requestBytes request).length = 0 else frameHeaderSize ≤ (requestBytes request).length) := by
  obtain ⟨halone, hfits⟩ := h
  subst halone
  cases request with
  | none => simp [requestBytes]
  | some frame =>
    obtain ⟨hmagic, hpayload⟩ := hfits frame rfl
    have hlength : frame.bytes.length = frameHeaderSize + frame.payload.length := by
      rw [Frame.bytes, List.length_append, length_encodeFrameHeader hmagic]
    simp only [requestBytes, Option.map_some, Option.getD_some, Option.isNone_some, Bool.false_eq_true, if_false,
      hlength]
    omega

theorem writeBootstrap_writes (uid gid : BitVec 32) (groups : List (BitVec 32)) (frame : Bytes)
    (sessionPid backend : BitVec 32) (persistent : Bool) :
    Writes (writeBootstrap uid gid groups frame sessionPid backend persistent)
      (bootstrapMessage uid gid groups frame sessionPid backend persistent) :=
  (bufferBytes_writes _).bind <| (bufferU16_writes _).bind <| (bufferU16_writes _).bind <|
    (bufferU32_writes _).bind <| (bufferU32_writes _).bind <| (bufferU32_writes _).bind <|
    (bufferU32_writes _).bind <| (bufferU32_writes _).bind <| (bufferU32_writes _).bind <|
    (Writes.foldlM bufferU32_writes groups).bind (bufferBytes_writes _)

theorem Startable.packRequest (h : Startable request persistent) :
    ∃ b, CaptureWorker.packRequest request persistent = some b ∧ b.data = requestBytes request := by
  obtain ⟨hlength, -⟩ := h.length_requestBytes
  obtain ⟨halone, hfits⟩ := h
  subst halone
  cases request with
  | none => exact ⟨_, rfl, rfl⟩
  | some frame =>
    have hroom : (bufferInit (frameHeaderSize + maxRequestPayload)).data.length + frame.bytes.length ≤
        (bufferInit (frameHeaderSize + maxRequestPayload)).maximum := by
      simpa [bufferInit, requestBytes] using hlength
    obtain ⟨b, hpacked, hdata, -⟩ := (framePack_writes frame).exists_of_fits hroom
    refine ⟨b, ?_, by simpa [bufferInit, requestBytes] using hdata⟩
    exact (if_neg (Nat.not_lt_of_le (hfits frame rfl).2)).trans hpacked

theorem sendBootstrap_eq (h : Startable request persistent) (hgroups : groups.length ≤ maxGroups) :
    sendBootstrap uid gid groups request sessionPid backend persistent =
      some (bootstrapMessage uid gid groups (requestBytes request) sessionPid backend persistent) := by
  obtain ⟨hframe, -⟩ := h.length_requestBytes
  obtain ⟨b, hpacked, hdata⟩ := h.packRequest
  have hwrites := writeBootstrap_writes uid gid groups (requestBytes request) sessionPid backend persistent
  have hroom : (bufferInit bootstrapMax).data.length +
      (bootstrapMessage uid gid groups (requestBytes request) sessionPid backend persistent).length ≤
        (bufferInit bootstrapMax).maximum := by
    simp only [bufferInit, List.length_nil, length_bootstrapMessage, bootstrapMax]
    omega
  obtain ⟨c, hwritten, hc, -⟩ := hwrites.exists_of_fits hroom
  rw [sendBootstrap, if_neg (Nat.not_lt_of_le hgroups), hpacked]
  simp only [Option.bind_eq_bind, Option.bind_some, hdata, hwritten, hc]
  rfl

theorem toNat_count (h : groups.length ≤ maxGroups) : (BitVec.ofNat 32 groups.length).toNat = groups.length := by
  unfold maxGroups at h
  rw [BitVec.toNat_ofNat]
  omega

theorem toNat_frameLength (h : frame.length ≤ frameHeaderSize + maxRequestPayload) :
    (BitVec.ofNat 32 frame.length).toNat = frame.length := by
  unfold frameHeaderSize maxRequestPayload at h
  rw [BitVec.toNat_ofNat]
  omega

theorem bootstrapMessage_fields (uid gid : BitVec 32) (groups : List (BitVec 32)) (frame : Bytes)
    (sessionPid backend : BitVec 32) (persistent : Bool) :
    let message := bootstrapMessage uid gid groups frame sessionPid backend persistent
    message.take 4 = workerMagic ∧ decodeU16 (message.drop 4) = workerVersion ∧
      decodeU16 (message.drop 6) = backend.setWidth 16 ∧ decodeU32 (message.drop 8) = uid ∧
      decodeU32 (message.drop 12) = gid ∧ decodeU32 (message.drop 16) = BitVec.ofNat 32 groups.length ∧
      decodeU32 (message.drop 20) = BitVec.ofNat 32 frame.length ∧ decodeU32 (message.drop 24) = sessionPid ∧
      decodeU32 (message.drop 28) = (if persistent then 1 else 0) ∧
      message.drop headerSize = groups.flatMap encodeU32 ++ frame := by
  simp [bootstrapMessage, take_magic, drop_magic, drop_field (length_encodeU16 _), drop_field (length_encodeU32 _),
    headerSize]

/-- Words in a row are read back one by one. -/
theorem decodeWords_flatMap (words : List (BitVec 32)) (rest : Bytes) :
    (List.range words.length).map (fun index => decodeU32 ((words.flatMap encodeU32 ++ rest).drop (index * 4))) =
      words := by
  induction words with
  | nil => rfl
  | cons word words ih =>
    rw [List.length_cons, List.range_succ_eq_map, List.map_cons, List.map_map, List.flatMap_cons, List.append_assoc]
    congr 1
    · exact decodeU32_encodeU32 word _
    · refine Eq.trans (List.map_congr_left ?_) ih
      intro index _
      have hskip : (index + 1) * 4 - 4 = index * 4 := by omega
      rw [Function.comp_apply, drop_field (length_encodeU32 word) (by omega), hskip]

/-- The header that a bootstrap is parsed to. -/
def sentHeader (uid gid : BitVec 32) (groups : List (BitVec 32)) (frame : Bytes) (sessionPid backend : BitVec 32)
    (persistent : Bool) : WorkerBootstrap :=
  ⟨uid, gid, BitVec.ofNat 32 groups.length, BitVec.ofNat 32 frame.length, sessionPid, backend, persistent⟩

theorem parseBootstrapHeader_message (hgroups : groups.length ≤ maxGroups)
    (hframe : frame.length ≤ frameHeaderSize + maxRequestPayload)
    (halone : if persistent then frame.length = 0 else frameHeaderSize ≤ frame.length)
    (hpid : 0 < sessionPid.toInt) (hbackend : backend ≤ 5) :
    parseBootstrapHeader (bootstrapMessage uid gid groups frame sessionPid backend persistent) =
      some (sentHeader uid gid groups frame sessionPid backend persistent) := by
  obtain ⟨hmagic, hversion, hback, huid, hgid, hcount, hlength, hsession, hflag, -⟩ :=
    bootstrapMessage_fields uid gid groups frame sessionPid backend persistent
  have hwhole := length_bootstrapMessage uid gid groups frame sessionPid backend persistent
  have hfive : backend.toNat ≤ 5 := hbackend
  have hword : (backend.setWidth 16).setWidth 32 = backend := by
    apply BitVec.eq_of_toNat_eq
    simp only [BitVec.toNat_setWidth]
    omega
  have hknown : ¬backendX11 < backend.setWidth 16 := by
    have hlast : backendX11.toNat = 5 := rfl
    rw [BitVec.lt_def, BitVec.toNat_setWidth]
    omega
  have hshort : ¬headerSize + groups.length * 4 + frame.length < headerSize := by omega
  have hbit : (if persistent then 1#32 else 0#32) ≤ 1#32 := by
    cases persistent <;> decide
  have hpersistent : ((if persistent then 1 else 0 : BitVec 32) != 0) = persistent := by
    cases persistent <;> decide
  have hkind : if persistent then BitVec.ofNat 32 frame.length = 0#32 else frameHeaderSize ≤ frame.length := by
    cases persistent with
    | true =>
      have hnone : frame.length = 0 := by simpa using halone
      simp [hnone]
    | false => simpa using halone
  unfold parseBootstrapHeader
  simp only [hmagic, hversion, hback, huid, hgid, hcount, hlength, hsession, hflag, hwhole, hword, hpersistent,
    toNat_count hgroups, toNat_frameLength hframe, hgroups, hframe, hpid]
  simpa [hshort, hknown, sentHeader] using And.intro hbit hkind

theorem bootstrapGroups_message (hgroups : groups.length ≤ maxGroups) :
    bootstrapGroups (bootstrapMessage uid gid groups frame sessionPid backend persistent)
      (sentHeader uid gid groups frame sessionPid backend persistent) = groups := by
  obtain ⟨-, -, -, -, -, -, -, -, -, hbody⟩ :=
    bootstrapMessage_fields uid gid groups frame sessionPid backend persistent
  unfold bootstrapGroups
  simp only [sentHeader, toNat_count hgroups, ← List.drop_drop, hbody]
  exact decodeWords_flatMap groups frame

theorem bootstrapFrame_message (hgroups : groups.length ≤ maxGroups)
    (hframe : frame.length ≤ frameHeaderSize + maxRequestPayload) :
    bootstrapFrame (bootstrapMessage uid gid groups frame sessionPid backend persistent)
      (sentHeader uid gid groups frame sessionPid backend persistent) = frame := by
  obtain ⟨-, -, -, -, -, -, -, -, -, hbody⟩ :=
    bootstrapMessage_fields uid gid groups frame sessionPid backend persistent
  unfold bootstrapFrame
  simp only [sentHeader, toNat_count hgroups, toNat_frameLength hframe, ← List.drop_drop, hbody]
  rw [List.drop_left' (length_flatMap_encodeU32 groups), List.take_length]

/-- A word that lies in front of the end of some bytes is the same whatever follows them. -/
theorem decodeU32_drop_append {bytes : Bytes} {offset : ℕ} (h : offset + 4 ≤ bytes.length) (rest : Bytes) :
    decodeU32 ((bytes ++ rest).drop offset) = decodeU32 (bytes.drop offset) := by
  have hlong : 4 ≤ (bytes.drop offset).length := by
    rw [List.length_drop]
    omega
  rw [List.drop_append_of_le_length (by omega), decodeU32, decodeU32, List.take_append_of_le_length hlong]

theorem readExpected_append {bytes : Bytes} {capacity : ℕ} {s : List Bytes} (hs : s.flatten = tail ++ later)
    (hheader : headerSize ≤ bytes.length)
    (hexpected : headerSize + (decodeU32 ((bytes ++ tail).drop 16)).toNat * 4 +
      (decodeU32 ((bytes ++ tail).drop 20)).toNat = (bytes ++ tail).length)
    (hcapacity : (bytes ++ tail).length ≤ capacity) :
    readExpected capacity bytes s = some (bytes ++ tail) := by
  unfold headerSize at hheader
  rw [decodeU32_drop_append (by omega), decodeU32_drop_append (by omega)] at hexpected
  have hfits : ¬(capacity < (bytes ++ tail).length || (bytes ++ tail).length < bytes.length) := by
    simp only [Bool.or_eq_true, decide_eq_true_eq, List.length_append] at hcapacity ⊢
    omega
  unfold readExpected
  simp only [hexpected]
  rw [if_neg hfits]
  split_ifs with hmore
  · obtain ⟨t, hread, -⟩ := readWhole_append hs
    have hleft : (bytes ++ tail).length - bytes.length = tail.length := by simp
    rw [hleft, hread]
    rfl
  · have htail : tail = [] := by simpa using hmore
    rw [htail, List.append_nil]

/-- From its first part on, a message that says its own length is read to its end and no further. -/
theorem readBootstrap_append {first : Bytes} {capacity : ℕ} {s : List Bytes} (hs : s.flatten = tail ++ later)
    (hheader : headerSize ≤ (first ++ tail).length)
    (hexpected : headerSize + (decodeU32 ((first ++ tail).drop 16)).toNat * 4 +
      (decodeU32 ((first ++ tail).drop 20)).toNat = (first ++ tail).length)
    (hcapacity : (first ++ tail).length ≤ capacity) :
    readBootstrap capacity first s = some (first ++ tail) := by
  unfold readBootstrap
  split_ifs with hshort
  · rw [List.length_append] at hheader
    obtain ⟨missing, more, rfl, hmissing⟩ : ∃ missing more, tail = missing ++ more ∧
        missing.length = headerSize - first.length := by
      refine ⟨tail.take (headerSize - first.length), tail.drop (headerSize - first.length), ?_, ?_⟩
      · exact (List.take_append_drop _ _).symm
      · rw [List.length_take]
        omega
    rw [List.append_assoc] at hs
    obtain ⟨t, hread, ht⟩ := readWhole_append hs
    rw [← List.append_assoc] at hexpected hcapacity ⊢
    have hfull : headerSize ≤ (first ++ missing).length := by
      rw [List.length_append]
      omega
    rw [← hmissing, hread]
    exact readExpected_append ht hfull hexpected hcapacity
  · exact readExpected_append hs (Nat.le_of_not_lt hshort) hexpected hcapacity

/-- A bootstrap is received whole from any socket that carries it, with the two ends of its pipe. -/
theorem receiveBootstrap_message {install : Installation} {kind : Kind} {reader writer : PipeEnd}
    {s : List (Segment UInt8 PipeEnd)} (hgroups : groups.length ≤ maxGroups)
    (hframe : frame.length ≤ frameHeaderSize + maxRequestPayload)
    (hpipe : capturePipeValid install reader writer)
    (harrives : Arrives (bootstrapMessage uid gid groups frame sessionPid backend persistent)
      [.rights [reader, writer]] kind s later) :
    receiveBootstrap install kind bootstrapMax s =
      some (bootstrapMessage uid gid groups frame sessionPid backend persistent, reader, writer) := by
  obtain ⟨-, -, -, -, -, hcount, hlength, -, -, -⟩ :=
    bootstrapMessage_fields uid gid groups frame sessionPid backend persistent
  have hwhole := length_bootstrapMessage uid gid groups frame sessionPid backend persistent
  generalize bootstrapMessage uid gid groups frame sessionPid backend persistent = message at *
  have hne : message ≠ [] := by
    rintro rfl
    rw [List.length_nil, headerSize] at hwhole
    omega
  have hcapacity : message.length ≤ bootstrapMax := by
    unfold bootstrapMax
    omega
  obtain ⟨first, tail, t, rfl, hfirst, hpackets, hreceive, ht⟩ :=
    harrives.first hne (Nat.le_of_ble_eq_true rfl : 2 ≤ bootstrapRoom) hcapacity
  have hflat : (t.map Segment.bytes).flatten = tail ++ later := by rwa [← List.flatMap_def]
  have hread : readBootstrap bootstrapMax first (t.map Segment.bytes) = some (first ++ tail) := by
    apply readBootstrap_append hflat
    · omega
    · rw [hcount, hlength, hwhole, toNat_count hgroups, toNat_frameLength hframe]
    · exact hcapacity
  unfold receiveBootstrap
  rw [hreceive]
  cases kind with
  | stream => simp [hfirst, Control.isOther, hread, descriptors, hpipe]
  | packets => simp [hfirst, Control.isOther, descriptors, hpipe, hpackets rfl]

end Bootstraps

/-- What goes between the authority and a capture worker arrives as it was meant. Every result that
a capture produces is sent, unless making a file for it fails, and is received as the same result;
a response that is received keeps no descriptor beside an error or beside a success without a
payload; and a worker reads in its bootstrap just what the authority wrote there. A kernel that
stops a waiting receive behind descriptors takes the message that carries them whole. -/
theorem codecs_agree :
    (∀ calls disk result, Produced disk result →
      (calls.succeed → (sendWorkerResponse calls disk result).isSome) ∧
      ∀ sent, sendWorkerResponse calls disk result = some sent →
        ∀ kind stops s later, Arrives sent.message (attached sent.payloadFd) kind s later →
          (stops = true → attached sent.payloadFd ≠ [] → ∀ segment ∈ s.head?, segment.bytes = sent.message) →
          ∃ received, receiveWorkerResponse kind stops sent.disk s = some received ∧
            SameResult disk sent.disk result received) ∧
    (∀ kind stops disk s received, receiveWorkerResponse kind stops disk s = some received →
      received.status ≠ Status.ok ∨ received.tailLength = 0 →
      descriptors (recvmsgWaiting kind stops optionalFdRoom responseSize s).1.control = []) ∧
    ∀ install uid gid groups request sessionPid backend persistent reader writer,
      groups.length ≤ maxGroups → Startable request persistent → 0 < sessionPid.toInt → backend ≤ 5 →
      capturePipeValid install reader writer →
      ∃ message, sendBootstrap uid gid groups request sessionPid backend persistent = some message ∧
        ∀ kind s later, Arrives message [.rights [reader, writer]] kind s later →
          receiveBootstrap install kind bootstrapMax s = some (message, reader, writer) ∧
          ∃ header, parseBootstrapHeader message = some header ∧
            header.uid = uid ∧ header.gid = gid ∧ header.sessionPid = sessionPid ∧ header.backend = backend ∧
            header.persistent = persistent ∧ header.groupCount.toNat = groups.length ∧
            bootstrapGroups message header = groups ∧ bootstrapFrame message header = requestBytes request := by
  refine ⟨fun calls disk result hproduced => ?_, fun kind stops disk s received hreceived hbare => ?_, ?_⟩
  · refine ⟨hproduced.sent, fun sent hsent kind stops s later harrives hwhole => ?_⟩
    exact hproduced.reaches hsent harrives hwhole
  · obtain ⟨hdescriptors, hiff⟩ := receiveWorkerResponse_descriptors hreceived
    have hnone : received.payloadFd = none := by
      rw [← Option.not_isSome_iff_eq_none, hiff]
      tauto
    rw [hdescriptors, hnone]
    rfl
  · intro install uid gid groups request sessionPid backend persistent reader writer hgroups hrequest hpid hbackend
      hpipe
    obtain ⟨hframe, halone⟩ := hrequest.length_requestBytes
    refine ⟨_, sendBootstrap_eq hrequest hgroups, fun kind s later harrives => ⟨?_, ?_⟩⟩
    · exact receiveBootstrap_message hgroups hframe hpipe harrives
    · refine ⟨_, parseBootstrapHeader_message hgroups hframe halone hpid hbackend, rfl, rfl, rfl, rfl, rfl, ?_, ?_, ?_⟩
      · exact toNat_count hgroups
      · exact bootstrapGroups_message hgroups
      · exact bootstrapFrame_message hgroups hframe

/-- A picture of one pixel, and the file calls that send it. -/
def pixelTail : Bytes := Capture.captureHeader 1 1 4 4 ++ [1, 2, 3, 255]

def memfdCalls : MemfdCalls := ⟨9, true, true, true⟩

/-- The two ends of a pipe of an installation that belongs to root. -/
def rootInstallation : Installation := ⟨fun owner => owner == 0, 50⟩

def readEnd : PipeEnd := ⟨true, 1, 2, 0, 50, 0, true, false, true⟩

def writeEnd : PipeEnd := ⟨true, 1, 2, 0, 50, 0, false, true, true⟩

def desktopRequest : Frame := ⟨frameMagic, protocolMajor, protocolMinor, Op.captureDesktop, 0, 3, [1, 2]⟩

def emptyDisk : Disk := fun _ => []

/-- A picture is sent in one packet, and a bootstrap comes in two parts. -/
theorem codecs_agree_parts :
    (∃ sent received, sendWorkerResponse memfdCalls emptyDisk (resultTake pixelTail) = some sent ∧
      receiveWorkerResponse .packets true sent.disk [⟨sent.message, attached sent.payloadFd⟩] = some received ∧
        SameResult emptyDisk sent.disk (resultTake pixelTail) received) ∧
      ∃ message, sendBootstrap 1000 100 [4, 27] (some desktopRequest) 77 1 false = some message ∧
        ∀ cut, 0 < cut →
          receiveBootstrap rootInstallation .stream bootstrapMax
              [⟨message.take cut, [.rights [readEnd, writeEnd]]⟩, ⟨message.drop cut, []⟩] =
            some (message, readEnd, writeEnd) ∧
          ∃ header, parseBootstrapHeader message = some header ∧ bootstrapGroups message header = [4, 27] ∧
            bootstrapFrame message header = desktopRequest.bytes := by
  obtain ⟨hresponses, -, hbootstraps⟩ := codecs_agree
  constructor
  · obtain ⟨hsends, hreaches⟩ := hresponses memfdCalls emptyDisk (resultTake pixelTail) (.tail pixelTail (by decide))
    obtain ⟨sent, hsent⟩ := Option.isSome_iff_exists.mp (hsends rfl)
    obtain ⟨received, hreceived, hsame⟩ := hreaches sent hsent .packets true _ _ (.packet [])
      (fun _ _ segment hsegment => by rw [← Option.some.inj hsegment])
    exact ⟨sent, received, hsent, hreceived, hsame⟩
  · obtain ⟨message, hmessage, hreads⟩ := hbootstraps rootInstallation 1000 100 [4, 27] (some desktopRequest) 77 1
      false readEnd writeEnd (by decide) ⟨rfl, by decide⟩ (by decide) (by decide) (by decide)
    refine ⟨message, hmessage, fun cut hcut => ?_⟩
    have hne : message ≠ [] := by
      rintro rfl
      obtain ⟨-, header, hheader, -⟩ := hreads .packets _ _ (.packet [])
      have hnone : parseBootstrapHeader [] = none := rfl
      rw [hnone] at hheader
      cases hheader
    have hfirst : message.take cut ≠ [] := by
      rw [Ne, List.take_eq_nil_iff, not_or]
      exact ⟨Nat.pos_iff_ne_zero.mp hcut, hne⟩
    obtain ⟨hreceived, header, hheader, -, -, -, -, -, -, hgroups, hframe⟩ := hreads .stream _ _
      (.parts (message.take cut) (message.drop cut) [] [⟨message.drop cut, []⟩] hfirst
        (List.take_append_drop cut message).symm (by simp) (by simp))
    exact ⟨hreceived, header, hheader, hgroups, hframe⟩

end KeysharpDesktop.CaptureWorker
