import KeysharpDesktop.Wire.Frame

/-! Requests on the wire: the client's splitting of a payload into frames, and the authority's
reassembly of the frames into one request. -/
namespace KeysharpDesktop

def maxRequestPayload : ℕ := 4 * 1024
def maxRequestTotalPayload : ℕ := 4 * 1024 * 1024

def flagAll : BitVec 16 := flagResponse ||| flagEvent ||| flagMore

def Op.ping : Opcode := 0x0003

def requestFrame (opcode : Opcode) (flags : BitVec 16) (requestId : BitVec 64) (payload : Bytes) : Frame :=
  ⟨frameMagic, protocolMajor, protocolMinor, opcode, flags, requestId, payload⟩

section Writer

/-- The loop of `write_request`. A turn that is not the last moves the offset, so a turn for
each byte and one more are enough. -/
def writeRequestLoop (opcode : Opcode) (requestId : BitVec 64) (payload : Bytes) : ℕ → ℕ → List Frame
  | 0, _ => []
  | turns + 1, offset =>
    let remaining := payload.length - offset
    let more := maxRequestPayload < remaining
    let length := if more then maxRequestPayload else remaining
    let frame := requestFrame opcode (if more then flagMore else 0) requestId
      ((payload.drop offset).take length)
    if offset + length < payload.length then
      frame :: writeRequestLoop opcode requestId payload turns (offset + length)
    else [frame]

/-- The frames of a request; `none` is a payload over the limit. -/
def writeRequest (opcode : Opcode) (requestId : BitVec 64) (payload : Bytes) : Option (List Frame) :=
  if maxRequestTotalPayload < payload.length then none
  else some (writeRequestLoop opcode requestId payload (payload.length + 1) 0)

end Writer

section Reader

def frameIsRequest (frame : Frame) : Bool := frame.flags &&& (flagResponse ||| flagEvent) == 0

def validPublicHeader (frame : Frame) : Bool :=
  let response := frame.flags &&& flagResponse != 0
  let event := frame.flags &&& flagEvent != 0
  let more := frame.flags &&& flagMore != 0
  if frame.flags &&& ~~~flagAll != 0 || (response && event) || (more && event) then false
  else if event then frame.requestId == 0
  else if response then frame.requestId != 0
  else frame.requestId != 0 || (frame.opcode == Op.ping && frame.flags == 0)

/-- What `ksd_frame_read` checks of a frame under the public rules. -/
def frameReadable (frame : Frame) : Bool :=
  frame.magic == frameMagic && frame.major == protocolMajor && frame.minor == protocolMinor &&
    frame.payload.length ≤ maxRequestPayload && validPublicHeader frame

structure RequestAssembly where
  opcode : Opcode
  requestId : BitVec 64
  payload : Buffer
  active : Bool
  complete : Bool
  deriving DecidableEq, Repr

def requestAssemblyInit : RequestAssembly := ⟨0, 0, bufferInit maxRequestTotalPayload, false, false⟩

inductive AssemblyResult
  | invalid | pending | complete
  deriving DecidableEq, Repr

def requestAssemblyAccept (assembly : RequestAssembly) (frame : Frame) : AssemblyResult × RequestAssembly :=
  let more := frame.flags &&& flagMore != 0
  if !frameIsRequest frame || frame.requestId == 0 || frame.payload.isEmpty ||
      maxRequestPayload < frame.payload.length then (.invalid, assembly)
  else if frame.flags != (if more then flagMore else 0) ||
      (more && frame.payload.length != maxRequestPayload) then (.invalid, assembly)
  else if !assembly.active then
    if !more then (.invalid, assembly)
    else
      match bufferBytes assembly.payload frame.payload with
      | none => (.invalid, assembly)
      | some payload => (.pending, ⟨frame.opcode, frame.requestId, payload, true, false⟩)
  else if frame.opcode != assembly.opcode || frame.requestId != assembly.requestId then (.invalid, assembly)
  else
    match bufferBytes assembly.payload frame.payload with
    | none => (.invalid, assembly)
    | some payload =>
      (if more then .pending else .complete, { assembly with payload, complete := !more })

/-- The assembled request; the assembly is cleared behind it. -/
def requestAssemblyTake (assembly : RequestAssembly) : Option Frame :=
  if !assembly.active || !assembly.complete || assembly.payload.data.isEmpty ||
      maxRequestTotalPayload < assembly.payload.data.length then none
  else some (requestFrame assembly.opcode 0 assembly.requestId assembly.payload.data)

def operationChunkable (opcode : Opcode) : Bool := opcode == Op.clipboardSetContent

def requestChunkAdmissible (frame : Frame) : Bool :=
  frame.requestId != 0 && frame.flags &&& (flagResponse ||| flagEvent) == 0 && operationChunkable frame.opcode

structure AuthoritySession where
  role : Role
  assembly : RequestAssembly
  deriving DecidableEq, Repr

/-- What the clock, the socket and the memory budget say while a frame is handled. -/
structure AssemblyEnvironment where
  timely : Bool
  budget : Bool

/-- The connection ends, the session waits for more frames, or a request is dispatched. -/
inductive FrameOutcome
  | closed
  | waiting (session : AuthoritySession)
  | dispatched (request : Frame) (session : AuthoritySession)

/-- The first checks of `handle_public_request`; a request that passes them is dispatched. -/
def handlePublicRequest (session : AuthoritySession) (request : Frame) : FrameOutcome :=
  if !frameIsRequest request then .closed
  else if request.opcode != Op.ping && request.requestId == 0 then .closed
  else .dispatched request session

def mayBeginAssembly (env : AssemblyEnvironment) (session : AuthoritySession) (frame : Frame) : Bool :=
  session.role == Role.rpc && env.timely && requestChunkAdmissible frame

def handlePublicFrame (env : AssemblyEnvironment) (session : AuthoritySession) (frame : Frame) : FrameOutcome :=
  let starting := !session.assembly.active
  if starting && frame.flags &&& flagMore == 0 then handlePublicRequest session frame
  else if starting && !mayBeginAssembly env session frame then .closed
  else if !env.timely then .closed
  else
    match requestAssemblyAccept session.assembly frame with
    | (.invalid, _) => .closed
    | (accepted, assembly) =>
      if starting && !env.budget then .closed
      else if accepted = .pending then .waiting { session with assembly }
      else
        match requestAssemblyTake assembly with
        | none => .closed
        | some request => handlePublicRequest { session with assembly := requestAssemblyInit } request

/-- The receiving half of a turn of `handle_public_connection`. -/
def receiveFrame (env : AssemblyEnvironment) (session : AuthoritySession) (frame : Frame) : FrameOutcome :=
  if frameReadable frame then handlePublicFrame env session frame else .closed

/-- The requests that a run of frames dispatches, and the session after it unless it was closed. -/
def receiveFrames (env : AssemblyEnvironment) : AuthoritySession → List Frame →
    List Frame × Option AuthoritySession
  | session, [] => ([], some session)
  | session, frame :: frames =>
    match receiveFrame env session frame with
    | .closed => ([], none)
    | .waiting session => receiveFrames env session frames
    | .dispatched request session =>
      let (requests, session) := receiveFrames env session frames
      (request :: requests, session)

end Reader

section Chunks

variable {opcode : Opcode} {requestId : BitVec 64}

def moreFrame (opcode : Opcode) (requestId : BitVec 64) (chunk : Bytes) : Frame :=
  requestFrame opcode flagMore requestId chunk

def lastFrame (opcode : Opcode) (requestId : BitVec 64) (chunk : Bytes) : Frame :=
  requestFrame opcode 0 requestId chunk

/-- A payload cut into full chunks and the rest; the rest is empty only when there is nothing else. -/
structure Cut (payload : Bytes) (chunks : List Bytes) (last : Bytes) : Prop where
  whole : payload = chunks.flatten ++ last
  full : ∀ chunk ∈ chunks, chunk.length = maxRequestPayload
  short : last.length ≤ maxRequestPayload
  ends : chunks = [] ∨ last ≠ []

theorem length_flatten_full {chunks : List Bytes} (h : ∀ chunk ∈ chunks, chunk.length = maxRequestPayload) :
    chunks.flatten.length = chunks.length * maxRequestPayload := by
  induction chunks with
  | nil => simp
  | cons chunk chunks ih =>
    have hchunk := h chunk List.mem_cons_self
    have hchunks := ih fun c hc => h c (List.mem_cons_of_mem chunk hc)
    rw [List.flatten_cons, List.length_append, hchunk, hchunks, List.length_cons, Nat.add_mul, Nat.one_mul]
    omega

/-- Every payload can be cut. -/
theorem exists_cut (payload : Bytes) : ∃ chunks last, Cut payload chunks last := by
  induction hn : payload.length using Nat.strong_induction_on generalizing payload with
  | _ n ih =>
    by_cases hshort : payload.length ≤ maxRequestPayload
    · exact ⟨[], payload, by simp, by simp, hshort, .inl rfl⟩
    · have hpos : 0 < maxRequestPayload := by decide
      have hdrop : (payload.drop maxRequestPayload).length = n - maxRequestPayload := by
        rw [List.length_drop, hn]
      obtain ⟨chunks, last, hcut⟩ := ih (n - maxRequestPayload) (by omega) _ hdrop
      refine ⟨payload.take maxRequestPayload :: chunks, last, ?_, ?_, hcut.short, ?_⟩
      · rw [List.flatten_cons, List.append_assoc, ← hcut.whole, List.take_append_drop]
      · intro chunk hchunk
        rcases List.mem_cons.mp hchunk with rfl | hchunk
        · rw [List.length_take]
          omega
        · exact hcut.full chunk hchunk
      · right
        rcases hcut.ends with hnil | hlast
        · have hwhole := hcut.whole
          rw [hnil, List.flatten_nil, List.nil_append] at hwhole
          intro hempty
          rw [hempty] at hwhole
          rw [hwhole, List.length_nil] at hdrop
          omega
        · exact hlast

/-- The writer's loop puts out the chunks that are left, from any offset between two of them. -/
theorem writeRequestLoop_eq {payload : Bytes} {chunks : List Bytes} {last : Bytes} {turns offset : ℕ}
    (hcut : Cut (payload.drop offset) chunks last) (hturns : payload.length - offset < turns)
    (hoffset : offset ≤ payload.length) :
    writeRequestLoop opcode requestId payload turns offset =
      chunks.map (moreFrame opcode requestId) ++ [lastFrame opcode requestId last] := by
  induction turns generalizing offset chunks with
  | zero => omega
  | succ turns ih =>
    have hlength : (payload.drop offset).length = payload.length - offset := List.length_drop
    have hwhole := congrArg List.length hcut.whole
    rw [hlength, List.length_append, length_flatten_full hcut.full] at hwhole
    have hpos : 0 < maxRequestPayload := by decide
    have hshort := hcut.short
    cases chunks with
    | nil =>
      rw [List.length_nil, Nat.zero_mul, Nat.zero_add] at hwhole
      have hmore : ¬ maxRequestPayload < payload.length - offset := by omega
      have hend : ¬ offset + (payload.length - offset) < payload.length := by omega
      have hlast : payload.drop offset = last := by
        have := hcut.whole
        rwa [List.flatten_nil, List.nil_append] at this
      have htake : last.take (payload.length - offset) = last := by
        rw [hwhole, List.take_length]
      simp only [writeRequestLoop, hmore, if_false, hend, hlast, htake]
      rfl
    | cons chunk chunks =>
      have hchunk := hcut.full chunk List.mem_cons_self
      have hlast : 0 < last.length := by
        rcases hcut.ends with hnil | hlast
        · cases hnil
        · exact List.length_pos_iff.mpr hlast
      rw [List.length_cons, Nat.add_mul, Nat.one_mul] at hwhole
      have hmore : maxRequestPayload < payload.length - offset := by omega
      have hnext : offset + maxRequestPayload < payload.length := by omega
      have hsplit : payload.drop offset = chunk ++ (chunks.flatten ++ last) := by
        rw [hcut.whole, List.flatten_cons, List.append_assoc]
      have htake : (payload.drop offset).take maxRequestPayload = chunk := by
        rw [hsplit, List.take_left' hchunk]
      have hrest : payload.drop (offset + maxRequestPayload) = chunks.flatten ++ last := by
        rw [← List.drop_drop, hsplit, List.drop_left' hchunk]
      have hcut' : Cut (payload.drop (offset + maxRequestPayload)) chunks last := by
        refine ⟨hrest, fun c hc => hcut.full c (List.mem_cons_of_mem chunk hc), hshort, .inr ?_⟩
        exact List.length_pos_iff.mp hlast
      have hih := ih hcut' (by omega) (by omega)
      simp only [writeRequestLoop, hmore, if_true, hnext, htake, hih]
      rfl

/-- The frames of a request are its full chunks under the flag, and then the rest. -/
theorem writeRequest_eq {payload : Bytes} {chunks : List Bytes} {last : Bytes} (hcut : Cut payload chunks last)
    (htotal : payload.length ≤ maxRequestTotalPayload) :
    writeRequest opcode requestId payload =
      some (chunks.map (moreFrame opcode requestId) ++ [lastFrame opcode requestId last]) := by
  rw [writeRequest, if_neg (Nat.not_lt.mpr htotal)]
  congr 1
  refine writeRequestLoop_eq ?_ (by omega) (Nat.zero_le _)
  rwa [List.drop_zero]

end Chunks

section Assembly

variable {opcode : Opcode} {requestId : BitVec 64} {payload chunk : Bytes} {assembly : RequestAssembly}
  {frame : Frame}

/-- An assembly that has begun: what it has of the request so far. -/
structure RequestAssembly.Holds (assembly : RequestAssembly) (opcode : Opcode) (requestId : BitVec 64)
    (payload : Bytes) : Prop where
  active : assembly.active = true
  ownOpcode : assembly.opcode = opcode
  ownId : assembly.requestId = requestId
  data : assembly.payload.data = payload
  maximum : assembly.payload.maximum = maxRequestTotalPayload
  fits : payload.length ≤ maxRequestTotalPayload
  named : requestId ≠ 0

/-- A full chunk of the request, with its flag. -/
def IsMore (opcode : Opcode) (requestId : BitVec 64) (room : ℕ) (frame : Frame) : Prop :=
  frame = moreFrame opcode requestId frame.payload ∧ frame.payload.length = maxRequestPayload ∧
    frame.payload.length ≤ room

/-- The frame that ends the request: not empty, and no longer than a chunk. -/
def IsLast (opcode : Opcode) (requestId : BitVec 64) (room : ℕ) (frame : Frame) : Prop :=
  frame = lastFrame opcode requestId frame.payload ∧ 0 < frame.payload.length ∧
    frame.payload.length ≤ maxRequestPayload ∧ frame.payload.length ≤ room

theorem flags_eq_zero {flags : BitVec 16} (hall : flags &&& ~~~flagAll = 0)
    (hrequest : flags &&& (flagResponse ||| flagEvent) = 0) (hmore : flags &&& flagMore = 0) : flags = 0 := by
  have hones : (~~~flagAll ||| (flagResponse ||| flagEvent)) ||| flagMore = BitVec.allOnes 16 := by decide
  have hand : flags &&& BitVec.allOnes 16 = flags := BitVec.and_allOnes
  rw [← hones, BitVec.and_or_distrib_left, BitVec.and_or_distrib_left, hall, hrequest, hmore] at hand
  rw [← hand]
  decide

theorem bufferBytes_eq_none {b : Buffer} (hb : b.Fits) {bs : Bytes} :
    bufferBytes b bs = none ↔ b.maximum < b.data.length + bs.length := by
  rw [← Option.not_isSome_iff_eq_none, (bufferBytes_writes bs).isSome hb]
  omega

theorem bufferBytes_eq_some {b : Buffer} {bs : Bytes} (h : b.data.length + bs.length ≤ b.maximum) :
    ∃ b', bufferBytes b bs = some b' ∧ b'.data = b.data ++ bs ∧ b'.maximum = b.maximum :=
  (bufferBytes_writes bs).exists_of_fits h

/-- What the assembly asks of every frame, whatever it holds. -/
structure Frame.Chunk (frame : Frame) : Prop where
  named : frame.requestId ≠ 0#64
  some : 0 < frame.payload.length
  short : frame.payload.length ≤ maxRequestPayload
  flags : frame.flags = flagMore ∧ frame.payload.length = maxRequestPayload ∨ frame.flags = 0#16

theorem accept_of_not_chunk (h : ¬ frame.Chunk) : requestAssemblyAccept assembly frame = (.invalid, assembly) := by
  unfold requestAssemblyAccept
  dsimp only
  by_cases hfirst : (!frameIsRequest frame || frame.requestId == 0 || frame.payload.isEmpty ||
      decide (maxRequestPayload < frame.payload.length)) = true
  · rw [if_pos hfirst]
  by_cases hsecond : (frame.flags != (if (frame.flags &&& flagMore != 0) = true then flagMore else 0) ||
      (frame.flags &&& flagMore != 0 && frame.payload.length != maxRequestPayload)) = true
  · rw [if_neg hfirst, if_pos hsecond]
  exfalso
  simp only [Bool.or_eq_true, Bool.not_eq_true', beq_iff_eq, List.isEmpty_iff, decide_eq_true_eq, not_or,
    Nat.not_lt] at hfirst
  simp only [Bool.or_eq_true, bne_iff_ne, Bool.and_eq_true, not_or, not_and, not_not, ne_eq] at hsecond
  obtain ⟨⟨⟨-, hid⟩, hne⟩, hlen⟩ := hfirst
  refine h ⟨hid, List.length_pos_iff.mpr hne, hlen, ?_⟩
  by_cases hmore : frame.flags &&& flagMore = 0#16
  · right
    simpa [hmore] using hsecond.1
  · left
    refine ⟨?_, hsecond.2 hmore⟩
    simpa [hmore] using hsecond.1

theorem accept_chunk (h : frame.Chunk) (hactive : assembly.active = true) :
    requestAssemblyAccept assembly frame =
      if frame.opcode ≠ assembly.opcode ∨ frame.requestId ≠ assembly.requestId then (.invalid, assembly)
      else
        match bufferBytes assembly.payload frame.payload with
        | none => (.invalid, assembly)
        | some payload =>
          if frame.flags = 0#16 then (.complete, { assembly with payload, complete := true })
          else (.pending, { assembly with payload, complete := false }) := by
  have hne : frame.payload ≠ [] := List.length_pos_iff.mp h.some
  have hlen : ¬ maxRequestPayload < frame.payload.length := Nat.not_lt.mpr h.short
  have hbits : flagMore &&& (flagResponse ||| flagEvent) = 0 ∧ flagMore ≠ 0#16 ∧
      (flagMore != 0#16) = true := by decide
  obtain ⟨hmreq, hm0, hmore⟩ := hbits
  rcases h.flags with ⟨hflags, hfull⟩ | hflags
  · have hrequest : frameIsRequest frame = true := by
      rw [frameIsRequest, hflags, hmreq]
      rfl
    unfold requestAssemblyAccept
    simp [hrequest, hflags, h.named, hne, hfull, hm0, hmore, hactive]
  · have hrequest : frameIsRequest frame = true := by
      rw [frameIsRequest, hflags]
      rfl
    unfold requestAssemblyAccept
    simp [hrequest, hflags, hactive, h.named, hne, hlen]

/-- An assembly that has not begun begins with a full chunk, and with nothing else. -/
theorem accept_start (frame : Frame) :
    (∃ next, requestAssemblyAccept requestAssemblyInit frame = (.pending, next) ∧ frame.flags = flagMore ∧
      frame.payload.length = maxRequestPayload ∧
      next.Holds frame.opcode frame.requestId frame.payload) ∨
    requestAssemblyAccept requestAssemblyInit frame = (.invalid, requestAssemblyInit) ∧
      ¬ (frame.flags = flagMore ∧ frame.payload.length = maxRequestPayload ∧ frame.requestId ≠ 0#64) := by
  by_cases hchunk : frame.Chunk
  · have hne : frame.payload ≠ [] := List.length_pos_iff.mp hchunk.some
    have hbits : flagMore &&& (flagResponse ||| flagEvent) = 0 ∧ flagMore ≠ 0#16 ∧
        (flagMore != 0#16) = true := by decide
    obtain ⟨hmreq, hm0, hmore⟩ := hbits
    rcases hchunk.flags with ⟨hflags, hfull⟩ | hflags
    · left
      have hroom : requestAssemblyInit.payload.data.length + frame.payload.length ≤
          requestAssemblyInit.payload.maximum := by
        rw [hfull]
        decide
      obtain ⟨buffer, hbuffer, hdata, hmaximum⟩ := bufferBytes_eq_some hroom
      have hrequest : frameIsRequest frame = true := by
        rw [frameIsRequest, hflags, hmreq]
        rfl
      refine ⟨⟨frame.opcode, frame.requestId, buffer, true, false⟩, ?_, hflags, hfull, ?_⟩
      · have hactive : requestAssemblyInit.active = false := rfl
        unfold requestAssemblyAccept
        simp [hrequest, hflags, hchunk.named, hne, hfull, hm0, hactive, hbuffer]
      · refine ⟨rfl, rfl, rfl, hdata, hmaximum, ?_, hchunk.named⟩
        rw [hfull]
        decide
    · right
      refine ⟨?_, fun hstart => hm0 (hstart.1.symm.trans hflags)⟩
      have hrequest : frameIsRequest frame = true := by
        rw [frameIsRequest, hflags]
        rfl
      have hactive : requestAssemblyInit.active = false := rfl
      unfold requestAssemblyAccept
      simp [hrequest, hflags, hactive]
  · right
    refine ⟨accept_of_not_chunk hchunk, ?_⟩
    rintro ⟨hflags, hfull, hnamed⟩
    refine hchunk ⟨hnamed, ?_, hfull.le, .inl ⟨hflags, hfull⟩⟩
    rw [hfull]
    decide

/-- Everything that can happen to a request that has begun. -/
theorem accept_holds (h : assembly.Holds opcode requestId payload) (frame : Frame) :
    (∃ next, requestAssemblyAccept assembly frame = (.pending, next) ∧ frame.opcode = opcode ∧
      frame.requestId = requestId ∧ frame.flags = flagMore ∧ frame.payload.length = maxRequestPayload ∧
      payload.length + frame.payload.length ≤ maxRequestTotalPayload ∧
      next.Holds opcode requestId (payload ++ frame.payload)) ∨
    (∃ next, requestAssemblyAccept assembly frame = (.complete, next) ∧ frame.opcode = opcode ∧
      frame.requestId = requestId ∧ frame.flags = 0#16 ∧ 0 < frame.payload.length ∧
      frame.payload.length ≤ maxRequestPayload ∧
      payload.length + frame.payload.length ≤ maxRequestTotalPayload ∧
      requestAssemblyTake next = some (lastFrame opcode requestId (payload ++ frame.payload))) ∨
    requestAssemblyAccept assembly frame = (.invalid, assembly) ∧
      ¬ (frame.Chunk ∧ frame.opcode = opcode ∧ frame.requestId = requestId ∧
        payload.length + frame.payload.length ≤ maxRequestTotalPayload) := by
  by_cases hchunk : frame.Chunk
  swap
  · exact .inr (.inr ⟨accept_of_not_chunk hchunk, fun hall => hchunk hall.1⟩)
  have haccept := accept_chunk hchunk h.active
  rw [h.ownOpcode, h.ownId] at haccept
  by_cases hown : frame.opcode ≠ opcode ∨ frame.requestId ≠ requestId
  · rw [if_pos hown] at haccept
    refine .inr (.inr ⟨haccept, ?_⟩)
    rintro ⟨-, hopcode, hid, -⟩
    exact hown.elim (fun hne => hne hopcode) fun hne => hne hid
  rw [if_neg hown] at haccept
  rw [not_or, not_not, not_not] at hown
  have hfits : assembly.payload.Fits := by
    rw [Buffer.Fits, h.data, h.maximum]
    exact h.fits
  by_cases hroom : payload.length + frame.payload.length ≤ maxRequestTotalPayload
  swap
  · have hnone : bufferBytes assembly.payload frame.payload = none := by
      rw [bufferBytes_eq_none hfits, h.data, h.maximum]
      omega
    rw [hnone] at haccept
    exact .inr (.inr ⟨haccept, fun hall => hroom hall.2.2.2⟩)
  have hroom' : assembly.payload.data.length + frame.payload.length ≤ assembly.payload.maximum := by
    rw [h.data, h.maximum]
    exact hroom
  obtain ⟨buffer, hbuffer, hdata, hmaximum⟩ := bufferBytes_eq_some hroom'
  rw [hbuffer] at haccept
  rw [h.data] at hdata
  have hlength : (payload ++ frame.payload).length ≤ maxRequestTotalPayload := by
    rw [List.length_append]
    exact hroom
  rcases hchunk.flags with ⟨hflags, hfull⟩ | hflags
  · left
    have hm0 : frame.flags ≠ 0#16 := by
      rw [hflags]
      decide
    dsimp only at haccept
    rw [if_neg hm0] at haccept
    exact ⟨_, haccept, hown.1, hown.2, hflags, hfull, hroom,
      ⟨h.active, rfl, rfl, hdata, hmaximum.trans h.maximum, hlength, h.named⟩⟩
  · right
    left
    dsimp only at haccept
    rw [if_pos hflags] at haccept
    refine ⟨_, haccept, hown.1, hown.2, hflags, hchunk.some, hchunk.short, hroom, ?_⟩
    have hne : payload ++ frame.payload ≠ [] := by
      intro hnil
      have hpos := hchunk.some
      rw [(List.append_eq_nil_iff.mp hnil).2] at hpos
      exact Nat.lt_irrefl 0 hpos
    have hempty : (payload ++ frame.payload).isEmpty = false := by
      rw [Bool.eq_false_iff, ne_eq, List.isEmpty_iff]
      exact hne
    have hover : decide (maxRequestTotalPayload < (payload ++ frame.payload).length) = false := by
      rw [decide_eq_false_iff_not]
      omega
    simp only [requestAssemblyTake, h.active, hdata, hempty, hover, lastFrame]
    rfl

end Assembly

section Sessions

variable {session : AuthoritySession} {opcode : Opcode} {requestId : BitVec 64} {payload chunk : Bytes}
  {frame : Frame} {role : Role}

/-- Deadlines are met and the assembly budget is available. -/
def readyEnvironment : AssemblyEnvironment := ⟨true, true⟩

/-- A session with no request begun. -/
def freshSession (role : Role) : AuthoritySession := ⟨role, requestAssemblyInit⟩

theorem frameReadable_iff : frameReadable frame ↔ frame.magic = frameMagic ∧ frame.major = protocolMajor ∧
    frame.minor = protocolMinor ∧ frame.payload.length ≤ maxRequestPayload ∧ validPublicHeader frame := by
  simp [frameReadable, and_assoc]

/-- Both kinds of frame the writer sends pass the reader's header check. -/
theorem requestFrame_readable {flags : BitVec 16} (hflags : flags = flagMore ∨ flags = 0#16)
    (hnamed : requestId ≠ 0#64) (hshort : payload.length ≤ maxRequestPayload) :
    frameReadable (requestFrame opcode flags requestId payload) = true := by
  rw [frameReadable_iff]
  refine ⟨rfl, rfl, rfl, hshort, ?_⟩
  have hid : (requestId != 0) = true := by
    rw [bne_iff_ne]
    exact hnamed
  have hbits : (flagMore &&& flagResponse != 0) = false ∧ (flagMore &&& flagEvent != 0) = false ∧
      (flagMore &&& ~~~flagAll != 0) = false ∧ ((0#16) &&& flagResponse != 0) = false ∧
      ((0#16) &&& flagEvent != 0) = false ∧ ((0#16) &&& ~~~flagAll != 0) = false := by decide
  obtain ⟨h1, h2, h3, h4, h5, h6⟩ := hbits
  rcases hflags with rfl | rfl
  · simp only [validPublicHeader, requestFrame, h1, h2, h3, hid]
    rfl
  · simp only [validPublicHeader, requestFrame, h4, h5, h6, hid]
    rfl

/-- A frame that was read is what its fields make it. -/
theorem eq_requestFrame (h : frameReadable frame) :
    frame = requestFrame frame.opcode frame.flags frame.requestId frame.payload := by
  obtain ⟨hmagic, hmajor, hminor, -, -⟩ := frameReadable_iff.mp h
  cases frame
  simp only at hmagic hmajor hminor
  subst hmagic hmajor hminor
  rfl

theorem handlePublicRequest_last (hnamed : requestId ≠ 0#64) (session : AuthoritySession) (payload : Bytes) :
    handlePublicRequest session (lastFrame opcode requestId payload) =
      .dispatched (lastFrame opcode requestId payload) session := by
  have hrequest : frameIsRequest (lastFrame opcode requestId payload) = true := by
    show ((0 : BitVec 16) &&& (flagResponse ||| flagEvent) == 0) = true
    decide
  have hid : (requestId == 0) = false := by
    rw [Bool.eq_false_iff, ne_eq, beq_iff_eq]
    exact hnamed
  have hframe : ((lastFrame opcode requestId payload).requestId == 0) = false := hid
  rw [handlePublicRequest, hrequest, hframe, Bool.and_false]
  rfl

theorem flagMore_ne_zero : flagMore ≠ 0#16 := by decide

/-- Everything a frame can do to a session whose request has begun. -/
theorem receiveFrame_holds (h : session.assembly.Holds opcode requestId payload) (frame : Frame) :
    (∃ next, receiveFrame readyEnvironment session frame = .waiting next ∧ next.role = session.role ∧
      IsMore opcode requestId (maxRequestTotalPayload - payload.length) frame ∧
      next.assembly.Holds opcode requestId (payload ++ frame.payload)) ∨
    (receiveFrame readyEnvironment session frame =
        .dispatched (lastFrame opcode requestId (payload ++ frame.payload)) (freshSession session.role) ∧
      IsLast opcode requestId (maxRequestTotalPayload - payload.length) frame) ∨
    receiveFrame readyEnvironment session frame = .closed ∧
      ¬ IsMore opcode requestId (maxRequestTotalPayload - payload.length) frame ∧
      ¬ IsLast opcode requestId (maxRequestTotalPayload - payload.length) frame := by
  have hstarting : (!session.assembly.active) = false := by
    rw [h.active]
    rfl
  have hfits := h.fits
  have hopen : frameReadable frame → receiveFrame readyEnvironment session frame =
      match requestAssemblyAccept session.assembly frame with
      | (.invalid, _) => .closed
      | (accepted, assembly) =>
        if accepted = .pending then .waiting { session with assembly }
        else
          match requestAssemblyTake assembly with
          | none => .closed
          | some request => handlePublicRequest (freshSession session.role) request := by
    intro hread
    rw [receiveFrame, if_pos hread, handlePublicFrame, hstarting]
    rfl
  rcases accept_holds h frame with
    ⟨next, haccept, hopcode, hid, hflags, hfull, hroom, hnext⟩ |
    ⟨next, haccept, hopcode, hid, hflags, hpos, hshort, hroom, htake⟩ | ⟨haccept, hnot⟩
  · by_cases hread : frameReadable frame
    · left
      refine ⟨⟨session.role, next⟩, ?_, rfl, ⟨?_, hfull, by omega⟩, hnext⟩
      · rw [hopen hread, haccept]
        rfl
      · have hframe := eq_requestFrame hread
        rwa [hopcode, hid, hflags] at hframe
    · right
      right
      refine ⟨by rw [receiveFrame, if_neg hread], ?_, ?_⟩
      · rintro ⟨hframe, hlen, -⟩
        rw [hframe] at hread
        exact hread (requestFrame_readable (.inl rfl) h.named hlen.le)
      · rintro ⟨hframe, -⟩
        rw [hframe] at hflags
        exact flagMore_ne_zero hflags.symm
  · by_cases hread : frameReadable frame
    · right
      left
      refine ⟨?_, ?_, hpos, hshort, by omega⟩
      · rw [hopen hread, haccept]
        simp only [reduceCtorEq, if_false, htake]
        exact handlePublicRequest_last h.named _ _
      · have hframe := eq_requestFrame hread
        rwa [hopcode, hid, hflags] at hframe
    · right
      right
      refine ⟨by rw [receiveFrame, if_neg hread], ?_, ?_⟩
      · rintro ⟨hframe, -⟩
        rw [hframe] at hflags
        exact flagMore_ne_zero hflags
      · rintro ⟨hframe, -⟩
        rw [hframe] at hread
        exact hread (requestFrame_readable (.inr rfl) h.named hshort)
  · right
    right
    refine ⟨?_, ?_, ?_⟩
    · by_cases hread : frameReadable frame
      · rw [hopen hread, haccept]
      · rw [receiveFrame, if_neg hread]
    · rintro ⟨hframe, hfull, hroom⟩
      have hpos : 0 < frame.payload.length := by
        rw [hfull]
        decide
      have hopcode : frame.opcode = opcode := by rw [hframe]; rfl
      have hid : frame.requestId = requestId := by rw [hframe]; rfl
      have hflags : frame.flags = flagMore := by rw [hframe]; rfl
      exact hnot ⟨⟨hid ▸ h.named, hpos, hfull.le, .inl ⟨hflags, hfull⟩⟩, hopcode, hid, by omega⟩
    · rintro ⟨hframe, hpos, hshort, hroom⟩
      have hopcode : frame.opcode = opcode := by rw [hframe]; rfl
      have hid : frame.requestId = requestId := by rw [hframe]; rfl
      have hflags : frame.flags = 0#16 := by rw [hframe]; rfl
      exact hnot ⟨⟨hid ▸ h.named, hpos, hshort, .inr hflags⟩, hopcode, hid, by omega⟩

/-- A frame without the flag is a whole request. -/
theorem receiveFrame_single (hread : frameReadable frame) (hmore : frame.flags &&& flagMore = 0) :
    receiveFrame readyEnvironment (freshSession role) frame = handlePublicRequest (freshSession role) frame := by
  have hflag : (frame.flags &&& flagMore == 0) = true := by rw [hmore]; rfl
  rw [receiveFrame, if_pos hread, handlePublicFrame, hflag]
  rfl

/-- A frame with the flag is given to the assembly, if the session may begin one. -/
theorem receiveFrame_flagged (hread : frameReadable frame) (hmore : frame.flags &&& flagMore ≠ 0) :
    receiveFrame readyEnvironment (freshSession role) frame =
      if !mayBeginAssembly readyEnvironment (freshSession role) frame then .closed
      else
        match requestAssemblyAccept requestAssemblyInit frame with
        | (.invalid, _) => .closed
        | (accepted, assembly) =>
          if accepted = .pending then .waiting ⟨role, assembly⟩
          else
            match requestAssemblyTake assembly with
            | none => .closed
            | some request => handlePublicRequest (freshSession role) request := by
  have hflag : (frame.flags &&& flagMore == 0) = false := by
    rw [Bool.eq_false_iff, ne_eq, beq_iff_eq]
    exact hmore
  rw [receiveFrame, if_pos hread, handlePublicFrame, hflag]
  rfl

/-- Everything a frame can do to a session with no request begun. -/
theorem receiveFrame_fresh (role : Role) (frame : Frame) :
    (∃ next, receiveFrame readyEnvironment (freshSession role) frame = .waiting next ∧ next.role = role ∧
      frame = moreFrame frame.opcode frame.requestId frame.payload ∧
      frame.payload.length = maxRequestPayload ∧
      next.assembly.Holds frame.opcode frame.requestId frame.payload) ∨
    (receiveFrame readyEnvironment (freshSession role) frame = .dispatched frame (freshSession role) ∧
      frame = lastFrame frame.opcode frame.requestId frame.payload ∧
      frame.payload.length ≤ maxRequestPayload) ∨
    receiveFrame readyEnvironment (freshSession role) frame = .closed := by
  by_cases hread : frameReadable frame
  swap
  · right
    right
    rw [receiveFrame, if_neg hread]
  have hframe := eq_requestFrame hread
  obtain ⟨-, -, -, hshort, hheader⟩ := frameReadable_iff.mp hread
  by_cases hmore : frame.flags &&& flagMore = 0
  · rw [receiveFrame_single hread hmore, handlePublicRequest]
    split_ifs with hrequest hid
    · exact .inr (.inr rfl)
    · exact .inr (.inr rfl)
    · right
      left
      refine ⟨rfl, ?_, hshort⟩
      have hbits : frame.flags &&& (flagResponse ||| flagEvent) = 0 := by
        simpa [frameIsRequest] using hrequest
      have hall : frame.flags &&& ~~~flagAll = 0 := by
        by_contra hne
        have hbad : (frame.flags &&& ~~~flagAll != 0) = true := bne_iff_ne.mpr hne
        rw [validPublicHeader, hbad, Bool.true_or, Bool.true_or, if_pos rfl] at hheader
        cases hheader
      have hzero := flags_eq_zero hall hbits hmore
      rwa [hzero] at hframe
  · rw [receiveFrame_flagged hread hmore]
    split_ifs with hbegin
    · exact .inr (.inr rfl)
    · rcases accept_start frame with ⟨next, haccept, hflags, hfull, hholds⟩ | ⟨haccept, -⟩
      · left
        rw [haccept]
        rw [hflags] at hframe
        exact ⟨_, rfl, rfl, hframe, hfull, hholds⟩
      · right
        right
        rw [haccept]

/-- The first frame of a long request opens its assembly. -/
theorem receiveFrame_begin (hchunkable : operationChunkable opcode) (hnamed : requestId ≠ 0#64)
    (hfull : chunk.length = maxRequestPayload) :
    ∃ next, receiveFrame readyEnvironment (freshSession Role.rpc) (moreFrame opcode requestId chunk) =
        .waiting next ∧ next.role = Role.rpc ∧ next.assembly.Holds opcode requestId chunk := by
  have hread : frameReadable (moreFrame opcode requestId chunk) = true :=
    requestFrame_readable (.inl rfl) hnamed hfull.le
  have hid : (requestId != 0) = true := by
    rw [bne_iff_ne]
    exact hnamed
  have hbegin : mayBeginAssembly readyEnvironment (freshSession Role.rpc)
      (moreFrame opcode requestId chunk) = true := by
    have hrole : ((freshSession Role.rpc).role == Role.rpc) = true := by decide
    have hbits : (flagMore &&& (flagResponse ||| flagEvent) == 0) = true := by decide
    simp only [mayBeginAssembly, requestChunkAdmissible, moreFrame, requestFrame, hrole, hid, hbits, hchunkable]
    rfl
  rcases accept_start (moreFrame opcode requestId chunk) with ⟨next, haccept, -, -, hholds⟩ | ⟨-, hnot⟩
  · refine ⟨⟨Role.rpc, next⟩, ?_, rfl, hholds⟩
    have hmore : (moreFrame opcode requestId chunk).flags &&& flagMore ≠ 0 := by
      show flagMore &&& flagMore ≠ 0
      decide
    rw [receiveFrame_flagged hread hmore, hbegin, haccept]
    rfl
  · exact absurd ⟨rfl, hfull, hnamed⟩ hnot

theorem receiveFrame_whole (hnamed : requestId ≠ 0#64) (hshort : payload.length ≤ maxRequestPayload) :
    receiveFrame readyEnvironment (freshSession role) (lastFrame opcode requestId payload) =
      .dispatched (lastFrame opcode requestId payload) (freshSession role) := by
  have hread : frameReadable (lastFrame opcode requestId payload) = true :=
    requestFrame_readable (.inr rfl) hnamed hshort
  rw [receiveFrame_single hread (by show (0#16) &&& flagMore = 0; decide), handlePublicRequest_last hnamed]

end Sessions

section Runs

variable {session next : AuthoritySession} {opcode : Opcode} {requestId : BitVec 64} {payload : Bytes}
  {frame : Frame} {frames : List Frame} {role : Role}

theorem receiveFrames_append_of_waiting (h : receiveFrames readyEnvironment session frames = ([], some next))
    (rest : List Frame) :
    receiveFrames readyEnvironment session (frames ++ rest) = receiveFrames readyEnvironment next rest := by
  induction frames generalizing session with
  | nil =>
    cases h
    rfl
  | cons frame frames ih =>
    simp only [List.cons_append, receiveFrames] at h ⊢
    cases hframe : receiveFrame readyEnvironment session frame with
    | closed =>
      rw [hframe] at h
      cases h
    | waiting waiting =>
      rw [hframe] at h
      exact ih h
    | dispatched request fresh =>
      rw [hframe] at h
      cases h

theorem receiveFrames_singleton_dispatched {request : Frame}
    (h : receiveFrame readyEnvironment session frame = .dispatched request next) :
    receiveFrames readyEnvironment session [frame] = ([request], some next) := by
  simp only [receiveFrames, h]

/-- Full chunks of a request that has begun are kept, as long as there is room for them. -/
theorem receiveFrames_chunks (h : session.assembly.Holds opcode requestId payload) {chunks : List Bytes}
    (hfull : ∀ chunk ∈ chunks, chunk.length = maxRequestPayload)
    (hroom : payload.length + chunks.flatten.length ≤ maxRequestTotalPayload) :
    ∃ next, receiveFrames readyEnvironment session (chunks.map (moreFrame opcode requestId)) =
        ([], some next) ∧ next.role = session.role ∧
      next.assembly.Holds opcode requestId (payload ++ chunks.flatten) := by
  induction chunks generalizing session payload with
  | nil => exact ⟨session, rfl, rfl, by simpa using h⟩
  | cons chunk chunks ih =>
    have hchunk := hfull chunk List.mem_cons_self
    rw [List.flatten_cons, List.length_append] at hroom
    have hmore : IsMore opcode requestId (maxRequestTotalPayload - payload.length)
        (moreFrame opcode requestId chunk) := by
      refine ⟨rfl, hchunk, ?_⟩
      show chunk.length ≤ _
      omega
    rcases receiveFrame_holds h (moreFrame opcode requestId chunk) with
      ⟨waiting, hreceive, hrole, -, hholds⟩ | ⟨-, hlast⟩ | ⟨-, hnot, -⟩
    · have hroom' : (payload ++ chunk).length + chunks.flatten.length ≤ maxRequestTotalPayload := by
        rw [List.length_append]
        omega
      obtain ⟨next, hrest, hrole', hholds'⟩ :=
        ih hholds (fun c hc => hfull c (List.mem_cons_of_mem chunk hc)) hroom'
      refine ⟨next, ?_, hrole'.trans hrole, ?_⟩
      · rw [List.map_cons, receiveFrames, hreceive]
        exact hrest
      · rw [List.flatten_cons, ← List.append_assoc]
        exact hholds'
    · have hflags := congrArg Frame.flags hlast.1
      exact absurd hflags flagMore_ne_zero
    · exact absurd hmore hnot

/-- A request that has begun and only waits has been given full chunks and nothing else. -/
theorem chunks_of_waiting (h : session.assembly.Holds opcode requestId payload)
    (hrun : receiveFrames readyEnvironment session frames = ([], some next)) :
    ∃ chunks : List Bytes, frames = chunks.map (moreFrame opcode requestId) ∧
      (∀ chunk ∈ chunks, chunk.length = maxRequestPayload) ∧ next.role = session.role ∧
      next.assembly.Holds opcode requestId (payload ++ chunks.flatten) := by
  induction frames generalizing session payload with
  | nil =>
    cases hrun
    exact ⟨[], rfl, by simp, rfl, by simpa using h⟩
  | cons frame frames ih =>
    rw [receiveFrames] at hrun
    rcases receiveFrame_holds h frame with
      ⟨waiting, hreceive, hrole, hmore, hholds⟩ | ⟨hreceive, -⟩ | ⟨hreceive, -⟩
    · rw [hreceive] at hrun
      obtain ⟨chunks, hframes, hfull, hrole', hholds'⟩ := ih hholds hrun
      refine ⟨frame.payload :: chunks, ?_, ?_, hrole'.trans hrole, ?_⟩
      · rw [List.map_cons, ← hframes, ← hmore.1]
      · intro chunk hchunk
        rcases List.mem_cons.mp hchunk with rfl | hchunk
        · exact hmore.2.1
        · exact hfull chunk hchunk
      · rw [List.flatten_cons, ← List.append_assoc]
        exact hholds'
    · rw [hreceive] at hrun
      cases hrun
    · rw [hreceive] at hrun
      cases hrun

/-- What a session that waits has been given: nothing, or full chunks of one request. -/
theorem chunks_of_waiting_fresh
    (hrun : receiveFrames readyEnvironment (freshSession role) frames = ([], some next)) :
    frames = [] ∧ next = freshSession role ∨
      ∃ (opcode : Opcode) (requestId : BitVec 64) (chunk : Bytes) (chunks : List Bytes),
        frames = (chunk :: chunks).map (moreFrame opcode requestId) ∧
        (∀ c ∈ chunk :: chunks, c.length = maxRequestPayload) ∧ next.role = role ∧
        next.assembly.Holds opcode requestId (chunk :: chunks).flatten := by
  cases frames with
  | nil =>
    cases hrun
    exact .inl ⟨rfl, rfl⟩
  | cons first frames =>
    right
    rw [receiveFrames] at hrun
    rcases receiveFrame_fresh role first with
      ⟨waiting, hreceive, hrole, hframe, hfull, hholds⟩ | ⟨hreceive, -⟩ | hreceive
    · rw [hreceive] at hrun
      obtain ⟨chunks, hframes, hchunks, hrole', hholds'⟩ := chunks_of_waiting hholds hrun
      refine ⟨first.opcode, first.requestId, first.payload, chunks, ?_, ?_, hrole'.trans hrole, ?_⟩
      · rw [List.map_cons, ← hframes, ← hframe]
      · intro chunk hchunk
        rcases List.mem_cons.mp hchunk with rfl | hchunk
        · exact hfull
        · exact hchunks chunk hchunk
      · rw [List.flatten_cons]
        exact hholds'
    · rw [hreceive] at hrun
      cases hrun
    · rw [hreceive] at hrun
      cases hrun

/-- Where a run dispatches its one request: frames that only wait, the frame that completes the
request, and frames that dispatch nothing more. -/
theorem exists_dispatching {request : Frame} {after : Option AuthoritySession}
    (hrun : receiveFrames readyEnvironment session frames = ([request], after)) :
    ∃ before last rest waiting fresh, frames = before ++ last :: rest ∧
      receiveFrames readyEnvironment session before = ([], some waiting) ∧
      receiveFrame readyEnvironment waiting last = .dispatched request fresh ∧
      receiveFrames readyEnvironment fresh rest = ([], after) := by
  induction frames generalizing session with
  | nil => cases hrun
  | cons frame frames ih =>
    rw [receiveFrames] at hrun
    cases hframe : receiveFrame readyEnvironment session frame with
    | closed =>
      rw [hframe] at hrun
      cases hrun
    | waiting next =>
      rw [hframe] at hrun
      obtain ⟨before, last, rest, waiting, fresh, hsplit, hbefore, hlast, hrest⟩ := ih hrun
      refine ⟨frame :: before, last, rest, waiting, fresh, ?_, ?_, hlast, hrest⟩
      · rw [hsplit, List.cons_append]
      · rw [receiveFrames, hframe]
        exact hbefore
    | dispatched found fresh =>
      rw [hframe] at hrun
      have hfound : found = request := by
        have hrequests := congrArg Prod.fst hrun
        exact (List.cons.inj hrequests).1
      have hrest : receiveFrames readyEnvironment fresh frames = ([], after) := by
        have hrequests := congrArg Prod.fst hrun
        have hafter := congrArg Prod.snd hrun
        exact Prod.ext (List.cons.inj hrequests).2 hafter
      rw [hfound] at hframe
      exact ⟨[], frame, frames, session, fresh, rfl, rfl, hframe, hrest⟩

/-- The frame that completes a request leaves a fresh session, and its request is written as the
frames that were read. -/
theorem writeRequest_of_dispatched {last request : Frame} {waiting : AuthoritySession}
    (hbefore : receiveFrames readyEnvironment (freshSession role) frames = ([], some waiting))
    (hlast : receiveFrame readyEnvironment waiting last = .dispatched request next) :
    writeRequest request.opcode request.requestId request.payload = some (frames ++ [last]) ∧
      request = lastFrame request.opcode request.requestId request.payload ∧ next = freshSession role := by
  rcases chunks_of_waiting_fresh hbefore with
    ⟨rfl, rfl⟩ | ⟨opcode, requestId, chunk, chunks, rfl, hfull, hrole, hholds⟩
  · rcases receiveFrame_fresh role last with
      ⟨other, hreceive, -⟩ | ⟨hreceive, hframe, hshort⟩ | hreceive
    · rw [hreceive] at hlast
      cases hlast
    · rw [hreceive] at hlast
      cases hlast
      have hcut : Cut last.payload [] last.payload := ⟨by simp, by simp, hshort, .inl rfl⟩
      have htotal : last.payload.length ≤ maxRequestTotalPayload := hshort.trans (by decide)
      refine ⟨?_, hframe, rfl⟩
      rw [writeRequest_eq hcut htotal, ← hframe]
      rfl
    · rw [hreceive] at hlast
      cases hlast
  · rcases receiveFrame_holds hholds last with ⟨other, hreceive, -⟩ | ⟨hreceive, hend⟩ | ⟨hreceive, -⟩
    · rw [hreceive] at hlast
      cases hlast
    · rw [hreceive, hrole] at hlast
      cases hlast
      obtain ⟨hframe, hpos, hshort, hroom⟩ := hend
      have hcut : Cut ((chunk :: chunks).flatten ++ last.payload) (chunk :: chunks) last.payload :=
        ⟨rfl, hfull, hshort, .inr (List.length_pos_iff.mp hpos)⟩
      have htotal : ((chunk :: chunks).flatten ++ last.payload).length ≤ maxRequestTotalPayload := by
        have hfits := hholds.fits
        rw [List.length_append]
        omega
      refine ⟨?_, rfl, rfl⟩
      have hwrite : writeRequest opcode requestId ((chunk :: chunks).flatten ++ last.payload) =
          some ((chunk :: chunks).map (moreFrame opcode requestId) ++ [last]) := by
        rw [writeRequest_eq hcut htotal, ← hframe]
      exact hwrite
    · rw [hreceive] at hlast
      cases hlast

/-- The frames of a request of any length come out as that request. -/
theorem receiveFrames_writeRequest (hchunkable : operationChunkable opcode) (hnamed : requestId ≠ 0#64)
    (htotal : payload.length ≤ maxRequestTotalPayload) :
    ∃ frames last waiting, writeRequest opcode requestId payload = some (frames ++ [last]) ∧
      receiveFrames readyEnvironment (freshSession Role.rpc) frames = ([], some waiting) ∧
      receiveFrame readyEnvironment waiting last =
        .dispatched (lastFrame opcode requestId payload) (freshSession Role.rpc) := by
  obtain ⟨chunks, last, hcut⟩ := exists_cut payload
  have hwrite : writeRequest opcode requestId payload =
      some (chunks.map (moreFrame opcode requestId) ++ [lastFrame opcode requestId last]) :=
    writeRequest_eq hcut htotal
  cases chunks with
  | nil =>
    have hpayload : payload = last := by
      have hwhole := hcut.whole
      rwa [List.flatten_nil, List.nil_append] at hwhole
    refine ⟨[], lastFrame opcode requestId last, freshSession Role.rpc, hwrite, rfl, ?_⟩
    rw [hpayload]
    exact receiveFrame_whole hnamed hcut.short
  | cons chunk chunks =>
    have hwhole := hcut.whole
    have hlength := congrArg List.length hwhole
    rw [List.flatten_cons, List.length_append, List.length_append] at hlength
    have hlast : 0 < last.length := by
      rcases hcut.ends with hnil | hlast
      · cases hnil
      · exact List.length_pos_iff.mpr hlast
    obtain ⟨begun, hbegin, hrole, hholds⟩ :=
      receiveFrame_begin hchunkable hnamed (hcut.full chunk List.mem_cons_self)
    obtain ⟨waiting, hwait, hrole', hholds'⟩ :=
      receiveFrames_chunks hholds (fun c hc => hcut.full c (List.mem_cons_of_mem chunk hc)) (by omega)
    refine ⟨(chunk :: chunks).map (moreFrame opcode requestId), lastFrame opcode requestId last, waiting,
      hwrite, ?_, ?_⟩
    · rw [List.map_cons, receiveFrames, hbegin]
      exact hwait
    · have hend : IsLast opcode requestId (maxRequestTotalPayload - (chunk ++ chunks.flatten).length)
          (lastFrame opcode requestId last) := by
        refine ⟨rfl, hlast, hcut.short, ?_⟩
        show last.length ≤ _
        rw [List.length_append]
        omega
      rcases receiveFrame_holds hholds' (lastFrame opcode requestId last) with
        ⟨-, -, -, hmore, -⟩ | ⟨hreceive, -⟩ | ⟨-, -, hnot⟩
      · have hflags := congrArg Frame.flags hmore.1
        exact absurd hflags.symm flagMore_ne_zero
      · rw [hreceive, hrole', hrole]
        rw [List.flatten_cons] at hwhole
        rw [hwhole]
        rfl
      · exact absurd hend hnot

end Runs

section Encoding

variable {frame : Frame} {role : Role}

/-- The frame that begins a long request: a full chunk, from a session and for an operation that may. -/
def IsFirst (role : Role) (frame : Frame) : Prop :=
  role = Role.rpc ∧ operationChunkable frame.opcode ∧ frame.requestId ≠ 0#64 ∧
    IsMore frame.opcode frame.requestId maxRequestTotalPayload frame

theorem receiveFrame_flagged_closed (hmore : frame.flags &&& flagMore ≠ 0) :
    receiveFrame readyEnvironment (freshSession role) frame = .closed ↔ ¬ IsFirst role frame := by
  constructor
  · rintro hclosed ⟨rfl, hchunkable, hnamed, hframe, hfull, -⟩
    obtain ⟨next, hbegin, -⟩ := receiveFrame_begin hchunkable hnamed hfull
    rw [← hframe, hclosed] at hbegin
    cases hbegin
  · intro hnot
    rcases receiveFrame_fresh role frame with
      ⟨next, hreceive, -, hframe, hfull, hholds⟩ | ⟨-, hframe, -⟩ | hreceive
    · exfalso
      have hread : frameReadable frame := by
        by_contra hread
        rw [receiveFrame, if_neg hread] at hreceive
        cases hreceive
      rw [receiveFrame_flagged hread hmore] at hreceive
      by_cases hbegin : mayBeginAssembly readyEnvironment (freshSession role) frame = true
      · have hparts : (role = Role.rpc ∧ frame.requestId ≠ 0#64) ∧ operationChunkable frame.opcode := by
          simp only [mayBeginAssembly, requestChunkAdmissible, readyEnvironment, freshSession,
            Bool.and_eq_true, beq_iff_eq, bne_iff_ne] at hbegin
          exact ⟨⟨hbegin.1.1, hbegin.2.1.1⟩, hbegin.2.2⟩
        refine hnot ⟨hparts.1.1, hparts.2, hparts.1.2, hframe, hfull, ?_⟩
        rw [hfull]
        decide
      · rw [Bool.not_eq_true] at hbegin
        rw [hbegin] at hreceive
        cases hreceive
    · exfalso
      rw [hframe] at hmore
      exact hmore (by show (0#16) &&& flagMore = 0; decide)
    · exact hreceive

/-- Requests between a client and the authority: what the client writes comes out as the one
request it was, no sooner than its last frame; what comes out as one request was written so; and a
frame that is not the beginning, the next chunk or the end of a request is refused. -/
structure ChunkedRequests (env : AssemblyEnvironment) : Prop where
  roundTrip : ∀ (opcode : Opcode) (requestId : BitVec 64) (payload : Bytes),
    operationChunkable opcode → requestId ≠ 0 → payload.length ≤ maxRequestTotalPayload →
    ∃ frames last waiting, writeRequest opcode requestId payload = some (frames ++ [last]) ∧
      receiveFrames env (freshSession Role.rpc) frames = ([], some waiting) ∧
      receiveFrames env (freshSession Role.rpc) (frames ++ [last]) =
        ([requestFrame opcode 0 requestId payload], some (freshSession Role.rpc))
  unique : ∀ (role : Role) (frames : List Frame) (request : Frame),
    receiveFrames env (freshSession role) frames = ([request], some (freshSession role)) →
    writeRequest request.opcode request.requestId request.payload = some frames ∧ request.flags = 0
  begun : ∀ (role : Role) (frame : Frame), frame.flags &&& flagMore ≠ 0 →
    (receiveFrames env (freshSession role) [frame] = ([], none) ↔ ¬ IsFirst role frame)
  refused : ∀ (role : Role) (first : Frame) (frames : List Frame) (waiting : AuthoritySession)
    (frame : Frame), receiveFrames env (freshSession role) (first :: frames) = ([], some waiting) →
    let room := maxRequestTotalPayload - ((first :: frames).map fun frame => frame.payload.length).sum
    (receiveFrames env (freshSession role) (first :: frames ++ [frame]) = ([], none) ↔
      ¬ (IsMore first.opcode first.requestId room frame ∨ IsLast first.opcode first.requestId room frame))

theorem receiveFrames_singleton_closed_iff {session : AuthoritySession} :
    receiveFrames readyEnvironment session [frame] = ([], none) ↔
      receiveFrame readyEnvironment session frame = .closed := by
  cases hframe : receiveFrame readyEnvironment session frame with
  | closed => simp [receiveFrames, hframe]
  | waiting next => simp [receiveFrames, hframe]
  | dispatched request next => simp [receiveFrames, hframe]

theorem receiveFrame_closed_iff {session : AuthoritySession} {opcode : Opcode} {requestId : BitVec 64}
    {payload : Bytes} (h : session.assembly.Holds opcode requestId payload) :
    receiveFrame readyEnvironment session frame = .closed ↔
      ¬ (IsMore opcode requestId (maxRequestTotalPayload - payload.length) frame ∨
        IsLast opcode requestId (maxRequestTotalPayload - payload.length) frame) := by
  rcases receiveFrame_holds h frame with
    ⟨next, hreceive, -, hmore, -⟩ | ⟨hreceive, hlast⟩ | ⟨hreceive, hmore, hlast⟩
  · rw [hreceive]
    exact iff_of_false (by simp) fun hnot => hnot (.inl hmore)
  · rw [hreceive]
    exact iff_of_false (by simp) fun hnot => hnot (.inr hlast)
  · exact iff_of_true hreceive fun hframe => hframe.elim hmore hlast

theorem sum_length_moreFrame (opcode : Opcode) (requestId : BitVec 64) (chunks : List Bytes) :
    ((chunks.map (moreFrame opcode requestId)).map fun frame => frame.payload.length).sum =
      chunks.flatten.length := by
  rw [List.map_map, List.length_flatten]
  rfl

/-- Every request has one encoding on the wire. -/
theorem chunkedRequests {env : AssemblyEnvironment} (htimely : env.timely = true)
    (hbudget : env.budget = true) : ChunkedRequests env := by
  have henv : env = readyEnvironment := by
    cases env
    cases htimely
    cases hbudget
    rfl
  subst henv
  constructor
  · intro opcode requestId payload hchunkable hnamed htotal
    obtain ⟨frames, last, waiting, hwrite, hwait, hlast⟩ :=
      receiveFrames_writeRequest hchunkable hnamed htotal
    refine ⟨frames, last, waiting, hwrite, hwait, ?_⟩
    rw [receiveFrames_append_of_waiting hwait]
    exact receiveFrames_singleton_dispatched hlast
  · intro role frames request hrun
    obtain ⟨before, last, rest, waiting, fresh, rfl, hbefore, hlast, hrest⟩ := exists_dispatching hrun
    obtain ⟨hwrite, hrequest, rfl⟩ := writeRequest_of_dispatched hbefore hlast
    have hnil : rest = [] := by
      rcases chunks_of_waiting_fresh hrest with ⟨hnil, -⟩ | ⟨_, _, _, _, -, -, -, hholds⟩
      · exact hnil
      · cases hholds.active
    rw [hnil]
    refine ⟨hwrite, ?_⟩
    rw [hrequest]
    rfl
  · intro role frame hmore
    rw [receiveFrames_singleton_closed_iff]
    exact receiveFrame_flagged_closed hmore
  · intro role first frames waiting frame hwait
    rw [receiveFrames_append_of_waiting hwait, receiveFrames_singleton_closed_iff]
    rcases chunks_of_waiting_fresh hwait with ⟨hnil, -⟩ | ⟨opcode, requestId, chunk, chunks, hframes, -, -, hholds⟩
    · cases hnil
    · have hfirst : first = moreFrame opcode requestId chunk := (List.cons.inj hframes).1
      rw [hframes, sum_length_moreFrame, hfirst]
      exact receiveFrame_closed_iff hholds

/-- A payload of two chunks, the second of them short. -/
theorem longClipboard_roundTrip :
    ∃ frames last waiting,
      writeRequest Op.clipboardSetContent 7 (List.replicate 5000 0x61) = some (frames ++ [last]) ∧
      receiveFrames readyEnvironment (freshSession Role.rpc) frames = ([], some waiting) ∧
      receiveFrames readyEnvironment (freshSession Role.rpc) (frames ++ [last]) =
        ([requestFrame Op.clipboardSetContent 0 7 (List.replicate 5000 0x61)], some (freshSession Role.rpc)) := by
  refine (chunkedRequests rfl rfl).roundTrip _ _ _ rfl (by decide) ?_
  rw [List.length_replicate]
  decide

end Encoding

end KeysharpDesktop
