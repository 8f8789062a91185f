import KeysharpDesktop.Authority.Admission
import KeysharpDesktop.Authority.Operation
import KeysharpDesktop.Kwin.Conversation
import KeysharpDesktop.Kwin.Inflight
import KeysharpDesktop.Kwin.Turns
import KeysharpDesktop.Lib.Pipe

/-! From the request of a client to the script and back: the operations of the authority, the callers of the relay,
the socket between the authority and the daemon, the daemon and the script. -/
namespace KeysharpDesktop

open KwinScript (Channel ChannelStep Compositor)

section Model

/-- Whether an operation of KWin reaches the script. -/
def kwinScript (request : Frame) : Bool := !isCapture request.opcode && request.opcode != Op.keyboardState

theorem length_take_magic {bs : Bytes} (h : frameHeaderSize ≤ bs.length) :
    (decodeFrameHeader (bs.take frameHeaderSize)).magic.length = 4 := by
  unfold frameHeaderSize at h
  simp only [decodeFrameHeader, frameHeaderSize, List.length_take]
  omega

/-- An answer of the daemon, as the relay's readers meet it. -/
def PeerAnswer.ofFrame (frame : RelayFrame) : Option PeerAnswer :=
  let h := decodeFrameHeader (frame.bytes.take frameHeaderSize)
  let payload := frame.bytes.drop frameHeaderSize
  if hsize : frameHeaderSize ≤ frame.bytes.length ∧ payload.length < 2 ^ 32 then
    some ⟨⟨h.magic, h.major, h.minor, h.opcode, h.flags, h.requestId, payload⟩, frame.fd,
      length_take_magic hsize.1, hsize.2⟩
  else none

/-- What of a dispatch's answers leaves the daemon: those before the first that fails, which shuts the socket. -/
def goingOut (out : List BusOutput) : List PeerAnswer :=
  (out.takeWhile (· ≠ .relayFailed)).filterMap fun
    | .answered _ frame => PeerAnswer.ofFrame frame
    | _ => none

/-- The operations of KWin, each by a number of its own under which it also calls the relay, with the socket and
what is behind it. `holding` says which of them have a slot of their process, `wire` is what the daemon has not read,
and `closed` is whether it has shut the socket down. The rest is no part of the code: which operations found no slot,
in what order calls began to write, and how many requests were read. -/
structure KwinChain where
  budgets : Budgets
  holding : ℕ → Bool
  operating : ℕ → Operating
  relay : RelaySystem
  wire : Bytes
  closed : Bool
  channel : Channel
  crowded : ℕ → Bool
  order : List ℕ
  taken : ℕ

namespace KwinChain

def setOperating (s : KwinChain) (i : ℕ) (state : Operating) : KwinChain :=
  { s with operating := Function.update s.operating i state }

/-- The result of an operation for the script where the backend has no relay. -/
def noScriptChannel : OperationResult :=
  resultError Status.unavailable 0 (ascii "this compositor has no script channel")

/-- `execute_operation` up to the call of the relay: an operation that is admitted otherwise asks for a slot, unless
it does not reach the script. With its slot it calls the relay, if the backend has one. -/
def executeOperation (pid : ℕ) (s : KwinChain) (i : ℕ) (session : Session) (request : Frame) (before : ℕ)
    (available : Option (BitVec 64)) (relay memoryFree : Bool) : KwinChain :=
  let decided (slotFree : Bool) :=
    admission session request before (available.map fun bits => (.kwin, bits)) slotFree memoryFree
  match decided true with
  | .running request kind before =>
    if kwinScript request then
      match reserveKwinSlot s.budgets pid with
      | (true, budgets) =>
        let s := { s with budgets, holding := Function.update s.holding i true }
        if relay then { s with relay := relayAct s.relay (.start i request) }.setOperating i (.running request kind before)
        else s.setOperating i (.second request before noScriptChannel)
      | (false, _) => { s with crowded := Function.update s.crowded i true }.setOperating i (decided false)
    else s.setOperating i (.running request kind before)
  | refused => s.setOperating i refused

/-- The end of `execute_operation`, once the reply is on its way. -/
def release (pid : ℕ) (s : KwinChain) (i : ℕ) : KwinChain :=
  if s.holding i then
    { s with budgets := releaseKwinSlot s.budgets pid, holding := Function.update s.holding i false }
  else s

/-- An operation's own next step, where the snapshot of the backend has a relay or not. One that reaches the script
ends with what its call of the relay returns. -/
def operate (pid : ℕ → ℕ) (s : KwinChain) (i : ℕ) (session : Session) (lease : Lease) (relay : Bool)
    (step : OperateStep) : KwinChain :=
  match s.operating i, step with
  | _, .request _ => s
  | .admitting request before, .admission backend _ memoryFree =>
    s.executeOperation (pid i) i session request before (backend.map Prod.snd) relay memoryFree
  | .running request _ before, .finish result =>
    if kwinScript request then
      match (s.relay.callers i).result? with
      | some result => s.setOperating i (.second request before result)
      | none => s
    else s.setOperating i (.second request before result)
  | .answered .., .next => s.release (pid i) i
  | state, step => s.setOperating i (KeysharpDesktop.operate session lease state step)

/-- A turn of the relay's threads. Calls are started by operations, and answers come from the daemon. -/
def relayTurn (s : KwinChain) (action : RelayAction) : KwinChain :=
  let relay := relayAct s.relay action
  match action with
  | .start .. | .answer _ => s
  | .claim i _ =>
    { s with
      relay
      order := if (relay.callers i).writes && !(s.relay.callers i).writes then s.order ++ [i] else s.order }
  | .transfer i _ =>
    if s.closed then s
    else { s with relay, wire := s.wire ++ ((s.relay.text i).take (relay.written i)).drop (s.relay.written i) }
  | _ => { s with relay }

variable {σ : Type}

/-- Something happens at the daemon or the script, and what the daemon answers goes to the relay. -/
def channelStep (c : Compositor σ) (s : KwinChain) (step : ChannelStep σ) : KwinChain :=
  let channel := s.channel.step c step
  let out := channel.outputs.drop s.channel.outputs.length
  { s with
    channel
    relay := if s.closed then s.relay else (goingOut out).foldl (fun relay a => relayAct relay (.answer a)) s.relay
    closed := s.closed || out.contains .relayFailed }

/-- The daemon reads a request off the front of the socket. -/
def read (c : Compositor σ) (s : KwinChain) (nowMs : ℕ) (written : Bool) : KwinChain :=
  if s.closed || s.wire.isEmpty then s
  else
    let input := RelayInput.bytes s.wire
    { s.channelStep c (.relay input nowMs written) with
      wire := ((readRequest input).map Prod.snd).getD []
      taken := if (readRequest input).isSome then s.taken + 1 else s.taken }

/-- Nobody has asked for anything. -/
def start (queue : KwinQueue) (peer : Bytes) : KwinChain where
  budgets := budgetsInit
  holding := fun _ => false
  operating := fun _ => .idle
  relay := relaySystemCreate
  wire := []
  closed := false
  channel := .start queue peer
  crowded := fun _ => false
  order := []
  taken := 0

end KwinChain

/-- What happens next, anywhere on the way. -/
inductive KwinChainStep (σ : Type)
  | request (i : ℕ) (session : Session) (request : Frame) (sized : request.Sized)
  | refresh (i : ℕ) (r : Refreshed)
  | operate (i : ℕ) (session : Session) (lease : Lease) (relay : Bool) (step : OperateStep)
  | relay (action : RelayAction)
  | read (nowMs : ℕ) (written : Bool)
  | hangUp (nowMs : ℕ) (written : Bool)
  | daemon (step : ChannelStep σ)

variable {σ : Type}

def KwinChain.step (c : Compositor σ) (pid : ℕ → ℕ) (s : KwinChain) : KwinChainStep σ → KwinChain
  | .request i session request _ =>
    match s.operating i with
    | .idle => s.setOperating i (receive session request)
    | _ => s
  | .refresh i r => s.setOperating i ((s.operating i).refreshed r)
  | .operate i session lease relay step => s.operate pid i session lease relay step
  | .relay action => s.relayTurn action
  | .read nowMs written => s.read c nowMs written
  | .hangUp nowMs written => s.channelStep c (.relay .hangUp nowMs written)
  | .daemon (.relay ..) => s
  | .daemon step => s.channelStep c step

end Model

section Wire

variable {frame : Frame}

theorem readRequest_bytes (h : frame.Sized) (rest : Bytes) :
    readRequest (.bytes (frame.bytes ++ rest)) = if maxTextBytes < frame.payload.length then none
      else some (⟨frame.requestId, frame.opcode, frame.payload⟩, rest) := by
  have hhead : cursorBytes (frame.bytes ++ rest) frameHeaderSize =
      some (encodeFrameHeader frame, frame.payload ++ rest) := by
    rw [Frame.bytes, List.append_assoc, ← length_encodeFrameHeader h.magic]
    exact cursorBytes_append _ _
  have hlength : frame.header.payloadLength.toNat = frame.payload.length := h.payloadLength
  have hbody := cursorBytes_append frame.payload rest
  rw [← hlength] at hbody
  simp only [readRequest, hhead, Option.bind_eq_bind, Option.bind_some, decodeFrameHeader_encodeFrameHeader h.magic,
    hlength]
  rw [hlength] at hbody
  rw [hbody]
  rfl

/-- The pieces of a request are no request. -/
theorem readRequest_part (h : frame.Sized) {n : ℕ} (hn : n < frame.bytes.length) :
    readRequest (.bytes (frame.bytes.take n)) = none := by
  rw [h.length_bytes] at hn
  by_cases hhead : frameHeaderSize ≤ n
  · have hsplit : frame.bytes.take n = encodeFrameHeader frame ++ frame.payload.take (n - frameHeaderSize) := by
      rw [Frame.bytes, List.take_append, length_encodeFrameHeader h.magic, List.take_of_length_le]
      rw [length_encodeFrameHeader h.magic]
      exact hhead
    have hfirst := cursorBytes_append (encodeFrameHeader frame) (frame.payload.take (n - frameHeaderSize))
    rw [length_encodeFrameHeader h.magic] at hfirst
    have hlength : frame.header.payloadLength.toNat = frame.payload.length := h.payloadLength
    have hbody : cursorBytes (frame.payload.take (n - frameHeaderSize)) frame.payload.length = none := by
      rw [cursorBytes, if_neg]
      rw [List.length_take]
      omega
    simp only [readRequest, hsplit, hfirst, Option.bind_eq_bind, Option.bind_some,
      decodeFrameHeader_encodeFrameHeader h.magic, hlength, hbody, Option.bind_none, ite_self]
  · have hnone : cursorBytes (frame.bytes.take n) frameHeaderSize = none := by
      rw [cursorBytes, if_neg]
      rw [List.length_take]
      omega
    simp only [readRequest, hnone, Option.bind_eq_bind, Option.bind_none]

end Wire

section Wired

/-- Requests are whole on the socket, one behind the other, but for the last, which its caller is still writing or
has left when the channel broke. -/
structure KwinChain.Wired (s : KwinChain) : Prop where
  named : s.relay.Named
  roles : s.relay.Roles
  sized : ∀ i call, (s.relay.callers i).call? = some call → call.request.Sized
  begun : ∀ i, i ∈ s.order ↔ ∃ call, (s.relay.callers i).call? = some call ∧ call.attempted = true
  ledger : Pipe.Ledger s.relay.text s.relay.written s.order s.taken
  wire : s.closed = false → s.wire = Pipe.content s.relay.text s.relay.written (s.order.drop s.taken)
  writer : ∀ i, (s.relay.callers i).writes = true → s.order.getLast? = some i
  last : ∀ i, s.order.getLast? = some i → s.relay.written i = (s.relay.text i).length ∨
    (s.relay.callers i).writes = true ∨ s.relay.relay.broken = true

variable {s t : KwinChain} {action : RelayAction} {i : ℕ}

theorem RelayAdvance.text_kept {r r' : RelaySystem} (h : RelayAdvance r action r') (hnamed : r.Named)
    {call : RelayCall} (hcall : (r.callers i).call? = some call) (hattempted : call.attempted = true) :
    r'.text i = r.text i := by
  obtain ⟨call', hcall', hkeeps⟩ := h.call_kept hnamed hcall
  rw [text_of_call hcall', text_of_call hcall, hkeeps.packed hattempted]

theorem KwinChain.Wired.text_advance (h : s.Wired) (action : RelayAction) (hi : i ∈ s.order) :
    (relayAct s.relay action).text i = s.relay.text i := by
  obtain ⟨call, hcall, hattempted⟩ := (h.begun i).mp hi
  exact (relayAct_advance s.relay action).text_kept h.named hcall hattempted

theorem KwinChain.Wired.sized_advance (h : s.Wired) (hstart : ∀ i request, action = .start i request → request.Sized)
    {call : RelayCall} (hcall : ((relayAct s.relay action).callers i).call? = some call) : call.request.Sized := by
  rcases (relayAct_advance s.relay action).call_cases h.named hcall with ⟨⟨own, hown, hkeeps⟩, -⟩ | ⟨htaken, -⟩
  · rw [hkeeps.request]
    exact h.sized i own hown
  · exact hstart i _ htaken

/-- A turn in which nobody begins to write, and nobody writes. -/
theorem KwinChain.Wired.advance (h : s.Wired) (hrelay : t.relay = relayAct s.relay action)
    (hids : t.relay.relay.nextRequestId < 2 ^ 64)
    (hstart : ∀ i request, action = .start i request → request.Sized)
    (hnew : ∀ i, (t.relay.callers i).writes = true → (s.relay.callers i).writes = true)
    (hwritten : t.relay.written = s.relay.written) (horder : t.order = s.order) (htaken : t.taken = s.taken)
    (hwire : t.wire = s.wire) (hclosed : t.closed = s.closed) : t.Wired := by
  have hadvance := relayAct_advance s.relay action
  have htext : ∀ i ∈ s.order, t.relay.text i = s.relay.text i := by
    intro i hi
    rw [hrelay]
    exact h.text_advance action hi
  rw [← hrelay] at hadvance
  refine ⟨hadvance.named h.named (Nat.le_of_lt hids), ?_, ?_, ?_, ?_, ?_, ?_, ?_⟩
  · rw [hrelay]
    exact relayAct_roles h.roles action
  · intro i call hcall
    rw [hrelay] at hcall
    exact h.sized_advance hstart hcall
  · intro i
    rw [horder, h.begun]
    constructor
    · rintro ⟨call, hcall, hattempted⟩
      obtain ⟨call', hcall', hkeeps⟩ := hadvance.call_kept h.named hcall
      exact ⟨call', hcall', hkeeps.attempted hattempted⟩
    · rintro ⟨call', hcall', hattempted⟩
      rcases hadvance.attempted_cases hcall' hattempted with hold | ⟨-, -, -, hnot, hwrites⟩
      · exact hold
      · rw [hnew i hwrites] at hnot
        cases hnot
  · rw [hwritten, horder, htaken]
    exact h.ledger.congr htext
  · intro hopen
    rw [hwire, horder, htaken, h.wire (hclosed ▸ hopen), hwritten]
    refine (Pipe.content_congr fun i hi => ?_).symm
    rw [htext i (List.mem_of_mem_drop hi)]
  · intro i hwrites
    rw [horder]
    exact h.writer i (hnew i hwrites)
  · intro i hlast
    rw [horder] at hlast
    rw [hwritten, htext i (List.mem_of_getLast? hlast)]
    rcases h.last i hlast with hwhole | hwrites | hbroken
    · exact .inl hwhole
    · rcases relayAct_ended hwrites action with hstill | hbroken | hwhole
      · exact .inr (.inl (hrelay ▸ hstill))
      · exact .inr (.inr (hrelay ▸ hbroken))
      · exact .inl hwhole
    · exact .inr (.inr (hadvance.broken hbroken))

/-- The socket is not written to while nobody writes and the channel holds. -/
theorem KwinChain.Wired.whole (h : s.Wired) (hfree : s.relay.writing = false) (hopen : s.relay.relay.broken = false) :
    ∀ i ∈ s.order, s.relay.written i = (s.relay.text i).length := by
  apply h.ledger.whole_of_last
  intro i hlast
  rcases h.last i hlast with hwhole | hwrites | hbroken
  · exact hwhole
  · have hflag := h.roles.writer.flagged i hwrites
    rw [hfree] at hflag
    cases hflag
  · rw [hopen] at hbroken
    cases hbroken

/-- A call begins to write, behind whole requests. -/
theorem KwinChain.Wired.claimed {timely : Bool} (h : s.Wired) (hrelay : t.relay = relayAct s.relay (.claim i timely))
    (hids : t.relay.relay.nextRequestId < 2 ^ 64) (hnot : (s.relay.callers i).writes = false)
    (hwrites : (t.relay.callers i).writes = true) (horder : t.order = s.order ++ [i]) (htaken : t.taken = s.taken)
    (hwire : t.wire = s.wire) (hclosed : t.closed = s.closed) : t.Wired := by
  have hadvance := relayAct_advance s.relay (.claim i timely)
  have htext : ∀ j ∈ s.order, t.relay.text j = s.relay.text j := by
    intro j hj
    rw [hrelay]
    exact h.text_advance _ hj
  rw [← hrelay] at hadvance
  obtain ⟨call, hcall, hphase, hfree, hopen, hafter⟩ := hadvance.claimed_of hnot hwrites
  have hown : (s.relay.callers i).call? = some call := by rw [hcall]; rfl
  have hown' : (t.relay.callers i).call? = some { call with attempted := true, sent := true, phase := .writing } := by
    rw [hafter]
    rfl
  have hout : i ∉ s.order := by
    rw [h.begun]
    rintro ⟨other, hother, hattempted⟩
    rw [hown, Option.some.injEq] at hother
    rw [← hother, (h.named.staged i call hown).early (.inr hphase)] at hattempted
    cases hattempted
  have hwritten : t.relay.written = s.relay.written := by
    rcases hadvance.written with hsame | ⟨j, n, other, htransfer, -⟩
    · exact hsame
    · cases htransfer
  have hledger := h.ledger.congr htext
  refine ⟨hadvance.named h.named (Nat.le_of_lt hids), ?_, ?_, ?_, ?_, ?_, ?_, ?_⟩
  · rw [hrelay]
    exact relayAct_roles h.roles _
  · intro j other hother
    rw [hrelay] at hother
    refine h.sized_advance ?_ hother
    intro j request hstart
    cases hstart
  · intro j
    rw [horder, List.mem_append, List.mem_singleton, h.begun]
    constructor
    · rintro (⟨other, hother, hattempted⟩ | rfl)
      · obtain ⟨other', hother', hkeeps⟩ := hadvance.call_kept h.named hother
        exact ⟨other', hother', hkeeps.attempted hattempted⟩
      · exact ⟨_, hown', rfl⟩
    · rintro ⟨other, hother, hattempted⟩
      rcases hadvance.attempted_cases hother hattempted with hold | ⟨⟨_, htaken⟩, -⟩
      · exact .inl hold
      · cases htaken
        exact .inr rfl
  · rw [hwritten, horder, htaken]
    apply hledger.begin hout
    intro j hj
    rw [htext j hj]
    exact h.whole hfree hopen j hj
  · intro hstill
    rw [hwire, horder, htaken, hwritten, hledger.content_begin hout, h.wire (hclosed ▸ hstill)]
    refine (Pipe.content_congr fun j hj => ?_).symm
    rw [htext j (List.mem_of_mem_drop hj)]
  · intro j hj
    rw [horder, List.getLast?_concat, Option.some.injEq]
    have hroles : t.relay.Roles := by
      rw [hrelay]
      exact relayAct_roles h.roles _
    exact hroles.writer.one i j hwrites hj
  · intro j hlast
    rw [horder, List.getLast?_concat, Option.some.injEq] at hlast
    rw [← hlast]
    exact .inr (.inl hwrites)

theorem KwinChain.Wired.claim (h : s.Wired) {timely : Bool}
    (hids : (s.relayTurn (.claim i timely)).relay.relay.nextRequestId < 2 ^ 64) :
    (s.relayTurn (.claim i timely)).Wired := by
  by_cases hnew : ((relayAct s.relay (.claim i timely)).callers i).writes = true ∧ (s.relay.callers i).writes = false
  · refine h.claimed rfl hids hnew.2 hnew.1 ?_ rfl rfl rfl
    simp only [KwinChain.relayTurn, hnew, Bool.not_false, Bool.and_self, if_true]
  · have hrelay : (s.relayTurn (.claim i timely)).relay = relayAct s.relay (.claim i timely) := rfl
    refine h.advance hrelay hids ?_ ?_ ?_ ?_ rfl rfl rfl
    · intro j request hstart
      cases hstart
    · intro j hwrites
      rcases (relayAct_advance s.relay (.claim i timely)).writes_cases hwrites with hold | ⟨_, htaken⟩
      · exact hold
      · cases htaken
        by_contra hnot
        rw [Bool.not_eq_true] at hnot
        exact hnew ⟨hwrites, hnot⟩
    · rcases (relayAct_advance s.relay (.claim i timely)).written with hsame | ⟨j, n, other, htransfer, -⟩
      · exact hsame
      · cases htransfer
    · simp only [KwinChain.relayTurn]
      rw [if_neg]
      simpa using hnew

theorem transfer_same (r : RelaySystem) (i n : ℕ) :
    (relayAct r (.transfer i n)).callers = r.callers ∧ (relayAct r (.transfer i n)).relay = r.relay := by
  simp only [relayAct, RelaySystem.goOn]
  split
  · exact ⟨rfl, rfl⟩
  · exact ⟨rfl, rfl⟩

/-- A call that writes puts more of its request on the socket. -/
theorem KwinChain.Wired.transfer (h : s.Wired) {n : ℕ}
    (hids : (s.relayTurn (.transfer i n)).relay.relay.nextRequestId < 2 ^ 64) :
    (s.relayTurn (.transfer i n)).Wired := by
  simp only [KwinChain.relayTurn] at hids ⊢
  split_ifs at hids ⊢ with hclosed
  · exact h
  obtain ⟨hcallers, hrelay⟩ := transfer_same s.relay i n
  have hadvance := relayAct_advance s.relay (.transfer i n)
  have hroles := relayAct_roles h.roles (.transfer i n)
  generalize relayAct s.relay (.transfer i n) = r at hcallers hrelay hadvance hroles hids ⊢
  have htext : r.text = s.relay.text := by
    funext j
    rw [RelaySystem.text, hcallers]
    rfl
  -- What the socket takes is what the call has written more of.
  obtain ⟨hledger, hcontent, hlast⟩ : Pipe.Ledger s.relay.text r.written s.order s.taken ∧
      Pipe.content s.relay.text r.written (s.order.drop s.taken) =
        Pipe.content s.relay.text s.relay.written (s.order.drop s.taken) ++
          ((s.relay.text i).take (r.written i)).drop (s.relay.written i) ∧
      ∀ j, s.order.getLast? = some j → r.written j = s.relay.written j ∨ (s.relay.callers j).writes = true := by
    rcases hadvance.written with hsame | ⟨j, m, call, htransfer, hcall, hphase, hwritten⟩
    · rw [hsame]
      refine ⟨h.ledger, ?_, fun _ _ => .inl rfl⟩
      rw [List.drop_eq_nil_of_le (List.length_take_le _ _), List.append_nil]
    · cases htransfer
      have hwrites : (s.relay.callers i).writes = true := by
        rw [hcall, writes_calling hphase]
        rfl
      have hat := h.writer i hwrites
      have hown : s.relay.text i = call.packed := text_of_call (by rw [hcall]; rfl)
      have hwithin := h.ledger.within i (List.mem_of_getLast? hat)
      rw [hown] at hwithin
      obtain ⟨hledger, hcontent⟩ := h.ledger.write hat (n := min (s.relay.written i + n) call.packed.length)
        (by omega) (by rw [hown]; exact Nat.min_le_right _ _)
      rw [hwritten, Function.update_self]
      refine ⟨hledger, hcontent, ?_⟩
      intro j hj
      rw [hat, Option.some.injEq] at hj
      rw [← hj]
      exact .inr hwrites
  refine ⟨hadvance.named h.named (Nat.le_of_lt hids), hroles, ?_, ?_, ?_, ?_, ?_, ?_⟩
  · intro j call hcall
    rw [hcallers] at hcall
    exact h.sized j call hcall
  · intro j
    rw [hcallers]
    exact h.begun j
  · rw [htext]
    exact hledger
  · intro hopen
    rw [htext, hcontent, h.wire hopen]
  · intro j hwrites
    rw [hcallers] at hwrites
    exact h.writer j hwrites
  · intro j hj
    rw [htext, hcallers, hrelay]
    rcases hlast j hj with hsame | hwrites
    · rw [hsame]
      exact h.last j hj
    · exact .inr (.inl hwrites)

/-- Any turn of the relay's threads. -/
theorem KwinChain.Wired.relayTurn (h : s.Wired) (hids : (s.relayTurn action).relay.relay.nextRequestId < 2 ^ 64) :
    (s.relayTurn action).Wired := by
  have hquiet : ∀ (hstart : ∀ i request, action ≠ .start i request) (hclaim : ∀ i timely, action ≠ .claim i timely)
      (htransfer : ∀ i n, action ≠ .transfer i n), s.relayTurn action = { s with relay := relayAct s.relay action } →
      (s.relayTurn action).Wired := by
    intro hstart hclaim htransfer hsame
    rw [hsame] at hids ⊢
    refine h.advance rfl hids ?_ ?_ ?_ rfl rfl rfl rfl
    · intro i request htaken
      exact absurd htaken (hstart i request)
    · intro i hwrites
      rcases (relayAct_advance s.relay action).writes_cases hwrites with hold | ⟨timely, htaken⟩
      · exact hold
      · exact absurd htaken (hclaim i timely)
    · rcases (relayAct_advance s.relay action).written with hsame | ⟨i, n, call, htaken, -⟩
      · exact hsame
      · exact absurd htaken (htransfer i n)
  cases action with
  | start i request | answer a => exact h
  | claim i timely => exact h.claim hids
  | transfer i n => exact h.transfer hids
  | _ =>
    refine hquiet ?_ ?_ ?_ rfl
    all_goals
      intro i x htaken
      cases htaken

theorem answers_foldl (r : RelaySystem) (as : List PeerAnswer) :
    as.foldl (fun r a => relayAct r (.answer a)) r = { r with inbox := r.inbox ++ as } := by
  induction as generalizing r with
  | nil => rw [List.foldl_nil, List.append_nil]
  | cons a as ih =>
    rw [List.foldl_cons, ih]
    simp [relayAct]

/-- Answers arrive, and the daemon may have shut the socket down. -/
theorem KwinChain.Wired.heard (h : s.Wired) {inbox : List PeerAnswer} (hrelay : t.relay = { s.relay with inbox })
    (horder : t.order = s.order) (hledger : Pipe.Ledger s.relay.text s.relay.written s.order t.taken)
    (hwire : t.closed = false → t.wire = Pipe.content s.relay.text s.relay.written (s.order.drop t.taken)) :
    t.Wired := by
  have hcallers : t.relay.callers = s.relay.callers := by rw [hrelay]
  have hwritten : t.relay.written = s.relay.written := by rw [hrelay]
  have hstate : t.relay.relay = s.relay.relay := by rw [hrelay]
  have htext : t.relay.text = s.relay.text := by
    funext i
    rw [RelaySystem.text, hcallers]
    rfl
  refine ⟨⟨?_, ?_, ?_⟩, ?_, ?_, ?_, ?_, ?_, ?_, ?_⟩
  · rw [hcallers]
    exact h.named.staged
  · rw [hcallers, hstate]
    exact h.named.below
  · rw [hcallers]
    exact h.named.apart
  · rw [hrelay]
    exact ⟨h.roles.writer, h.roles.reader⟩
  · rw [hcallers]
    exact h.sized
  · rw [hcallers, horder]
    exact h.begun
  · rw [htext, hwritten, horder]
    exact hledger
  · rw [htext, hwritten, horder]
    exact hwire
  · rw [hcallers, horder]
    exact h.writer
  · rw [hcallers, horder, htext, hwritten, hstate]
    exact h.last

/-- What is at the front of the socket: a request that was written whole, which the daemon reads as it is unless it
is too long, or the pieces of the last one, which it does not take for a request. -/
theorem KwinChain.Wired.front (h : s.Wired) (hopen : s.closed = false) (hwire : s.wire ≠ []) :
    ∃ i call rest, s.order.drop s.taken = i :: rest ∧ (s.relay.callers i).call? = some call ∧
      (readRequest (.bytes s.wire) = none ∨
        readRequest (.bytes s.wire) = some (⟨call.requestId, call.request.opcode, call.request.payload⟩,
          Pipe.content s.relay.text s.relay.written rest) ∧
        s.relay.written i = (s.relay.text i).length ∧
        Pipe.Ledger s.relay.text s.relay.written s.order (s.taken + 1) ∧ s.order.drop (s.taken + 1) = rest) := by
  have hcontent := h.wire hopen
  cases hnext : s.order.drop s.taken with
  | nil =>
    rw [hnext] at hcontent
    exact absurd hcontent hwire
  | cons i rest =>
    have hmem : i ∈ s.order := List.mem_of_mem_drop (hnext ▸ List.mem_cons_self)
    obtain ⟨call, hcall, hattempted⟩ := (h.begun i).mp hmem
    have hsized : (outgoing call.request call.requestId).Sized :=
      ⟨(h.sized i call hcall).magic, (h.sized i call hcall).payload⟩
    have htext : s.relay.text i = (outgoing call.request call.requestId).bytes := by
      rw [text_of_call hcall]
      exact (h.named.staged i call hcall).framed (.inl hattempted)
    refine ⟨i, call, rest, rfl, hcall, ?_⟩
    rcases h.ledger.front hnext with ⟨hwhole, hfront, hledger, hdrop⟩ | ⟨hpart, -, hfront⟩
    · rw [hcontent, hfront, htext, readRequest_bytes hsized]
      split_ifs
      · exact .inl rfl
      · exact .inr ⟨rfl, htext ▸ hwhole, hledger, hdrop⟩
    · left
      rw [hcontent, hfront, htext]
      exact readRequest_part hsized (htext ▸ hpart)

end Wired

section Channels

variable {σ : Type} {c : Compositor σ}

/-- A step of the daemon and the script is a call that the daemon handles, or one that it has no part in. -/
theorem channelStep_cases (s : Channel) (step : ChannelStep σ) :
    (s.step c step).bus = s.bus ∧ (s.step c step).outputs = s.outputs ∧ (s.step c step).lines = s.lines ∨
      ∃ call, (s.step c step).bus = busStep s.bus call ∧
        (s.step c step).outputs = s.outputs ++ busOutputs s.bus call ∧
        (s.step c step).lines = s.lines ++ busLines s.bus call ∧
        ∀ input nowMs written, call = .relay input nowMs written → step = .relay input nowMs written := by
  cases step with
  | relay input nowMs written => exact .inr ⟨.relay input nowMs written, rfl, rfl, rfl, fun _ _ _ h => by cases h; rfl⟩
  | idleFast nowMs => exact .inr ⟨.idleFast nowMs, rfl, rfl, rfl, fun _ _ _ h => by cases h⟩
  | idleSlow nowMs => exact .inr ⟨.idleSlow nowMs, rfl, rfl, rfl, fun _ _ _ h => by cases h⟩
  | receive caller nowMs written =>
    simp only [Channel.step, Channel.receive]
    split
    · exact .inr ⟨_, rfl, rfl, rfl, fun _ _ _ h => by cases h⟩
    · exact .inl ⟨rfl, rfl, rfl⟩
  | stranger sender generation method envelope nowMs written =>
    simp only [Channel.step]
    split_ifs
    · exact .inl ⟨rfl, rfl, rfl⟩
    · exact .inr ⟨_, rfl, rfl, rfl, fun _ _ _ h => by cases h⟩
  | callback caller states =>
    left
    simp only [Channel.step, Channel.callback, Channel.polled]
    split
    · exact ⟨rfl, rfl, rfl⟩
    · split_ifs
      · exact ⟨rfl, rfl, rfl⟩
      · split
        · exact ⟨rfl, rfl, rfl⟩
        · exact ⟨rfl, rfl, rfl⟩
    · exact ⟨rfl, rfl, rfl⟩
    · exact ⟨rfl, rfl, rfl⟩

/-- What a step of the channel puts out. -/
def newOutputs (c : Compositor σ) (s : Channel) (step : ChannelStep σ) : List BusOutput :=
  (s.step c step).outputs.drop s.outputs.length

theorem outputs_append (s : Channel) (step : ChannelStep σ) :
    (s.step c step).outputs = s.outputs ++ newOutputs c s step := by
  unfold newOutputs
  rcases channelStep_cases (c := c) s step with ⟨-, hsame, -⟩ | ⟨call, -, hmore, -⟩
  · rw [hsame, List.drop_length, List.append_nil]
  · rw [hmore, List.drop_left]

theorem newOutputs_relay (s : Channel) (input : RelayInput) (nowMs : ℕ) (written : Bool) :
    newOutputs c s (.relay input nowMs written) = (relayReadable s.bus input nowMs written).2 :=
  List.drop_left

variable {s t : KwinChain}

theorem channelStep_relay (s : KwinChain) (step : ChannelStep σ) :
    ∃ inbox, (s.channelStep c step).relay = { s.relay with inbox } := by
  simp only [KwinChain.channelStep, answers_foldl]
  split_ifs
  · exact ⟨s.relay.inbox, rfl⟩
  · exact ⟨_, rfl⟩

theorem channelStep_closed (s : KwinChain) (step : ChannelStep σ) :
    (s.channelStep c step).closed = false ↔ s.closed = false ∧ .relayFailed ∉ newOutputs c s.channel step := by
  simp [KwinChain.channelStep, newOutputs]

theorem KwinChain.Wired.channelStep (h : s.Wired) (step : ChannelStep σ) : (s.channelStep c step).Wired := by
  obtain ⟨inbox, hrelay⟩ := channelStep_relay (c := c) s step
  refine h.heard hrelay rfl h.ledger ?_
  intro hopen
  exact h.wire ((channelStep_closed s step).mp hopen).1

theorem KwinChain.Wired.read (h : s.Wired) (nowMs : ℕ) (written : Bool) : (s.read c nowMs written).Wired := by
  unfold KwinChain.read
  split_ifs with hguard
  · exact h
  rw [Bool.or_eq_true, not_or, Bool.not_eq_true, List.isEmpty_iff] at hguard
  obtain ⟨i, call, rest, -, -, hfront⟩ := h.front hguard.1 hguard.2
  obtain ⟨inbox, hrelay⟩ := channelStep_relay (c := c) s (.relay (.bytes s.wire) nowMs written)
  rcases hfront with hnone | ⟨hread, -, hledger, hrest⟩
  · refine h.heard (s := s) hrelay rfl ?_ ?_
    · simp only [hnone, Option.isSome_none, Bool.false_eq_true, if_false]
      exact h.ledger
    · -- A request that cannot be read shuts the socket.
      intro hopen
      have hout := ((channelStep_closed s (.relay (.bytes s.wire) nowMs written)).mp hopen).2
      rw [newOutputs_relay, relayReadable, hnone] at hout
      exact absurd (List.mem_singleton_self _) hout
  · refine h.heard (s := s) hrelay rfl ?_ ?_
    · simp only [hread, Option.isSome_some, if_true]
      exact hledger
    · intro _
      simp only [hread, Option.isSome_some, if_true, Option.map_some, Option.getD_some, hrest]

end Channels

section Operations

namespace Operating

/-- The result of an operation for the script is that of its call of the relay, unless there was no relay to call. -/
def ResultOf (caller : Caller) (result : OperationResult) : Prop :=
  caller.result? = some result ∨ caller = .idle ∧ result = KwinChain.noScriptChannel

/-- How an operation stands with its call of the relay: none before it is admitted, and later a result that is the
call's. One that was told that the compositor is busy had no slot, or was told so by the relay. -/
def Fits (caller : Caller) (crowded : Bool) : Operating → Prop
  | .idle | .first _ | .admitting .. | .ended => caller = .idle ∧ crowded = false
  | .running .. | .lapsed _ => crowded = false
  | .second request _ result | .judged request _ result | .syncing request result _ =>
    crowded = false ∧ (kwinScript request → ResultOf caller result)
  | .answered request reply =>
    (crowded = true → caller = .idle) ∧ (kwinScript request → reply.status = Status.busy →
      crowded = true ∨ ∃ result, caller.result? = some result ∧ result.status = Status.busy)

end Operating

variable {state : Operating} {caller : Caller} {crowded : Bool} {request request' : Frame}
  {result : OperationResult}

theorem forwardResult_status (request : Frame) (result : OperationResult) (effectiveSequence : ℕ) :
    (forwardResult request result effectiveSequence).status = result.status := by
  unfold forwardResult
  cases result.payloadFd with
  | some file => rfl
  | none => rfl

/-- A refusal with any other status. -/
theorem fits_refused {status : Status} {diagnostic : String} (hbusy : status ≠ Status.busy)
    (hcrowded : crowded = true → caller = .idle) :
    (Operating.answered request (refuse status diagnostic)).Fits caller crowded :=
  ⟨hcrowded, fun _ h => absurd h hbusy⟩

theorem fits_forwarded {n : ℕ} (hcrowded : crowded = false)
    (hresult : kwinScript request → Operating.ResultOf caller result) :
    (Operating.answered request (forwardResult request result n)).Fits caller crowded := by
  constructor
  · intro h
    rw [hcrowded] at h
    cases h
  · intro hscript hbusy
    rw [forwardResult_status] at hbusy
    rcases hresult hscript with hcall | ⟨-, rfl⟩
    · exact .inr ⟨result, hcall, hbusy⟩
    · exact absurd hbusy (by decide)

theorem fits_withdrawn (hcrowded : crowded = false) : (withdraw request).Fits caller crowded := by
  have hnot : crowded = true → caller = .idle := by
    rw [hcrowded]
    exact nofun
  unfold withdraw
  split_ifs
  · exact fits_refused (by decide) hnot
  · exact fits_refused (by decide) hnot

theorem receive_fits (session : Session) (h : caller = .idle ∧ crowded = false) :
    (receive session request).Fits caller crowded := by
  unfold receive
  split_ifs
  · exact fits_refused (by decide) fun _ => h.1
  · exact fits_refused (by decide) fun _ => h.1
  · exact fits_refused (by decide) fun _ => h.1
  · exact h

theorem refreshed_fits (r : Refreshed) (h : state.Fits caller crowded) : (state.refreshed r).Fits caller crowded := by
  cases state with
  | idle =>
    simp only [Operating.refreshed]
    split_ifs
    · exact h
    · exact h
  | first request =>
    simp only [Operating.refreshed, firstCheck]
    split_ifs
    · exact h
    · exact fits_refused (by decide) fun _ => h.1
    · exact h
  | second request before result => exact h
  | _ => exact h

/-- The steps of an operation other than those that the chain takes for it. -/
theorem operate_fits (session : Session) (lease : Lease) {step : OperateStep} (h : state.Fits caller crowded)
    (hrequest : ∀ request, step ≠ .request request)
    (hdoor : ∀ request before, state = .admitting request before → ∀ backend slotFree memoryFree,
      step ≠ .admission backend slotFree memoryFree)
    (hfinish : ∀ request kind before, state = .running request kind before → ∀ result, step ≠ .finish result)
    (hnext : ∀ request reply, state = .answered request reply → step ≠ .next) :
    (operate session lease state step).Fits caller crowded := by
  unfold operate
  split
  · next request => exact absurd rfl (hrequest request)
  · next request before backend slotFree memoryFree => exact absurd rfl (hdoor request before rfl backend slotFree memoryFree)
  · next request kind before result => exact absurd rfl (hfinish request kind before rfl result)
  · next request valid result current target =>
    obtain ⟨hcrowded, hresult⟩ := h
    unfold judge
    split_ifs
    · exact fits_withdrawn hcrowded
    · cases target with
      | table backend prior => exact ⟨hcrowded, hresult⟩
      | child observed =>
        cases observed with
        | true => exact fits_forwarded hcrowded hresult
        | false => exact hcrowded
    · exact fits_forwarded hcrowded hresult
  · next request result wait outcome late =>
    obtain ⟨hcrowded, hresult⟩ := h
    unfold look
    split
    · exact ⟨hcrowded, hresult⟩
    · split_ifs
      · exact fits_forwarded hcrowded hresult
      · exact hcrowded
  · next request =>
    unfold recheck
    dsimp only
    split_ifs
    · refine ⟨fun hcrowded => ?_, fun _ hbusy => ?_⟩
      · rw [show crowded = false from h] at hcrowded
        cases hcrowded
      · rw [forwardResult_status] at hbusy
        exact absurd hbusy (by decide)
    · exact fits_withdrawn h
  · next request reply => exact absurd rfl (hnext request reply rfl)
  · exact h

theorem receive_request (session : Session) (h : (receive session request).request? = some request') :
    request = request' := by
  unfold receive at h
  split_ifs at h
  all_goals exact Option.some.inj h

theorem refreshed_request (r : Refreshed) (h : (state.refreshed r).request? = some request) :
    state.request? = some request := by
  cases state with
  | idle =>
    simp only [Operating.refreshed] at h
    split_ifs at h
    all_goals cases h
  | first own =>
    simp only [Operating.refreshed, firstCheck] at h
    split_ifs at h
    · cases h
    · exact h
    · exact h
  | _ => exact h

theorem withdraw_request (request : Frame) : (withdraw request).request? = some request := by
  unfold withdraw
  split_ifs
  · rfl
  · rfl

theorem operate_request (session : Session) (lease : Lease) {step : OperateStep}
    (hrequest : ∀ request, step ≠ .request request)
    (hdoor : ∀ request before, state = .admitting request before → ∀ backend slotFree memoryFree,
      step ≠ .admission backend slotFree memoryFree)
    (h : (operate session lease state step).request? = some request) : state.request? = some request := by
  unfold operate at h
  split at h
  · next own => exact absurd rfl (hrequest own)
  · next own before backend slotFree memoryFree => exact absurd rfl (hdoor own before rfl backend slotFree memoryFree)
  · exact h
  · next own valid result current target =>
    unfold judge at h
    split_ifs at h
    · rwa [withdraw_request] at h
    · cases target with
      | table backend prior => exact h
      | child observed =>
        cases observed with
        | true => exact h
        | false => exact h
    · exact h
  · next own result wait outcome late =>
    unfold look at h
    split at h
    · exact h
    · split_ifs at h
      · exact h
      · exact h
  · next own =>
    unfold recheck at h
    dsimp only at h
    split_ifs at h
    · exact h
    · rwa [withdraw_request] at h
  · cases h
  · exact h

/-- What comes of an operation of KWin at the door. It is refused as busy for want of a slot only. -/
theorem admission_kwin (session : Session) (request : Frame) (before : ℕ) (available : Option (BitVec 64))
    (slotFree memoryFree : Bool) :
    (admission session request before (available.map fun bits => (.kwin, bits)) slotFree memoryFree =
        .running request .kwin before ∧ (kwinScript request → slotFree = true)) ∨
      ∃ status diagnostic,
        admission session request before (available.map fun bits => (.kwin, bits)) slotFree memoryFree =
          .answered request (refuse status diagnostic) ∧ (status = Status.busy → slotFree = false) := by
  unfold admission
  cases available with
  | none => exact .inr ⟨_, _, rfl, fun h => absurd h (by decide)⟩
  | some bits =>
    dsimp only [Option.map_some]
    split_ifs with h₁ h₂ h₃ h₄ h₅
    · exact .inr ⟨_, _, rfl, fun h => absurd h (by decide)⟩
    · exact .inr ⟨_, _, rfl, fun h => absurd h (by decide)⟩
    · exact .inr ⟨_, _, rfl, fun h => absurd h (by decide)⟩
    · refine .inr ⟨_, _, rfl, fun _ => ?_⟩
      simp only [Bool.and_eq_true, Bool.not_eq_true'] at h₄
      exact h₄.2
    · exact .inr ⟨_, _, rfl, fun h => absurd h (by decide)⟩
    · refine .inl ⟨rfl, fun hscript => ?_⟩
      unfold kwinScript at hscript
      have hkind : (BackendKind.kwin == BackendKind.kwin) = true := by decide
      rwa [hkind, Bool.true_and, hscript, Bool.true_and, Bool.not_eq_true', Bool.not_eq_false] at h₄

end Operations

section Kept

/-- What every step of the chain keeps, as long as the ids of the relay have not come round. -/
structure KwinChain.Kept (s : KwinChain) : Prop where
  wired : s.Wired
  fits : ∀ i, (s.operating i).Fits (s.relay.callers i) (s.crowded i)
  asked : ∀ i request, (s.operating i).request? = some request → request.Sized

variable {s t : KwinChain} {i : ℕ} {state : Operating} {action : RelayAction}

@[simp] theorem setOperating_operating : (s.setOperating i state).operating = Function.update s.operating i state := rfl

theorem KwinChain.Wired.setOperating (h : s.Wired) : (s.setOperating i state).Wired :=
  ⟨h.named, h.roles, h.sized, h.begun, h.ledger, h.wire, h.writer, h.last⟩

/-- One operation goes on, and what the others have of the relay stays. -/
theorem KwinChain.Kept.move (h : s.Kept) (hwired : t.Wired) (hoperating : t.operating = Function.update s.operating i state)
    (hself : state.Fits (t.relay.callers i) (t.crowded i)) (hasked : ∀ request, state.request? = some request → request.Sized)
    (hothers : ∀ j, j ≠ i → t.relay.callers j = s.relay.callers j ∧ t.crowded j = s.crowded j) : t.Kept := by
  refine ⟨hwired, ?_, ?_⟩
  · intro j
    rw [hoperating]
    by_cases hj : j = i
    · rw [hj, Function.update_self]
      exact hself
    · rw [Function.update_of_ne hj, (hothers j hj).1, (hothers j hj).2]
      exact h.fits j
  · intro j request hrequest
    rw [hoperating] at hrequest
    by_cases hj : j = i
    · rw [hj, Function.update_self] at hrequest
      exact hasked request hrequest
    · rw [Function.update_of_ne hj] at hrequest
      exact h.asked j request hrequest

theorem KwinChain.Kept.setOperating (h : s.Kept) (hself : state.Fits (s.relay.callers i) (s.crowded i))
    (hasked : ∀ request, state.request? = some request → request.Sized) : (s.setOperating i state).Kept :=
  h.move h.wired.setOperating rfl hself hasked fun _ _ => ⟨rfl, rfl⟩

/-- A turn of the relay in which no call is started takes nothing from an operation. -/
theorem fits_advance {r r' : RelaySystem} {crowded : Bool} (hadvance : RelayAdvance r action r')
    (hstart : ∀ request, action ≠ .start i request) (h : state.Fits (r.callers i) crowded) :
    state.Fits (r'.callers i) crowded := by
  have hidle : r.callers i = .idle → r'.callers i = .idle := fun hidle => hadvance.idle_kept hidle hstart
  have hresult : ∀ result, (r.callers i).result? = some result → (r'.callers i).result? = some result := by
    intro result hresult
    rw [hadvance.result_kept hresult, hresult]
  cases state with
  | idle | first request | admitting request before | ended => exact ⟨hidle h.1, h.2⟩
  | running request kind before | lapsed request => exact h
  | second request before result | judged request valid result | syncing request result wait =>
    refine ⟨h.1, fun hscript => ?_⟩
    exact (h.2 hscript).imp (hresult result) fun hnone => ⟨hidle hnone.1, hnone.2⟩
  | answered request reply =>
    refine ⟨fun hcrowded => hidle (h.1 hcrowded), fun hscript hbusy => ?_⟩
    rcases h.2 hscript hbusy with hcrowded | ⟨result, hown, hstatus⟩
    · exact .inl hcrowded
    · exact .inr ⟨result, hresult result hown, hstatus⟩

theorem KwinChain.Kept.advance (h : s.Kept) (hwired : t.Wired) (hadvance : RelayAdvance s.relay action t.relay)
    (hstart : ∀ i request, action ≠ .start i request) (hoperating : t.operating = s.operating)
    (hcrowded : t.crowded = s.crowded) : t.Kept := by
  refine ⟨hwired, ?_, ?_⟩
  · intro i
    rw [hoperating, hcrowded]
    exact fits_advance hadvance (hstart i) (h.fits i)
  · rw [hoperating]
    exact h.asked

theorem KwinChain.Kept.relayTurn (h : s.Kept) (hids : (s.relayTurn action).relay.relay.nextRequestId < 2 ^ 64) :
    (s.relayTurn action).Kept := by
  have hwired := h.wired.relayTurn hids
  have hadvance := relayAct_advance s.relay action
  cases action with
  | start i request | answer a => exact h
  | transfer i n =>
    simp only [KwinChain.relayTurn] at hwired ⊢
    split_ifs at hwired ⊢ with hclosed
    · exact h
    · refine h.advance hwired hadvance ?_ rfl rfl
      intro j request htaken
      cases htaken
  | _ =>
    refine h.advance hwired hadvance ?_ rfl rfl
    intro j request htaken
    cases htaken

theorem KwinChain.Kept.heard (h : s.Kept) (hwired : t.Wired) (hrelay : ∃ inbox, t.relay = { s.relay with inbox })
    (hoperating : t.operating = s.operating) (hcrowded : t.crowded = s.crowded) : t.Kept := by
  obtain ⟨inbox, hrelay⟩ := hrelay
  refine ⟨hwired, ?_, ?_⟩
  · rw [hoperating, hcrowded, hrelay]
    exact h.fits
  · rw [hoperating]
    exact h.asked

theorem start_others (r : RelaySystem) (request : Frame) {j : ℕ} (hj : j ≠ i) :
    (relayAct r (.start i request)).callers j = r.callers j := by
  simp only [relayAct, RelaySystem.start]
  split
  · split
    · exact Function.update_of_ne hj ..
    · exact Function.update_of_ne hj ..
  · rfl

/-- An operation at the door. -/
theorem KwinChain.Kept.executeOperation {pid : ℕ} {session : Session} {request : Frame} {before : ℕ}
    {available : Option (BitVec 64)} {relay memoryFree : Bool} (h : s.Kept)
    (hat : s.operating i = .admitting request before)
    (hids : (s.executeOperation pid i session request before available relay memoryFree).relay.relay.nextRequestId <
      2 ^ 64) :
    (s.executeOperation pid i session request before available relay memoryFree).Kept := by
  have hfits := h.fits i
  rw [hat] at hfits
  have hsized : request.Sized := h.asked i request (by rw [hat]; rfl)
  have hasked : ∀ own, some request = some own → own.Sized := by
    intro own hown
    rw [← Option.some.inj hown]
    exact hsized
  unfold KwinChain.executeOperation at hids ⊢
  dsimp only at hids ⊢
  rcases admission_kwin session request before available true memoryFree with
    ⟨hrunning, -⟩ | ⟨status, diagnostic, hrefused, hbusy⟩
  · simp only [hrunning] at hids ⊢
    by_cases hscript : kwinScript request = true
    · rw [if_pos hscript] at hids ⊢
      rcases hreserve : reserveKwinSlot s.budgets pid with ⟨reserved, budgets⟩
      rw [hreserve] at hids
      cases reserved with
      | true =>
        cases relay with
        | true =>
          have hadvance := relayAct_advance s.relay (.start i request)
          have hwired : ({ s with
              budgets, relay := relayAct s.relay (.start i request),
              holding := Function.update s.holding i true } : KwinChain).Wired := by
            have hrelay : relayAct s.relay (.start i request) = relayAct s.relay (.start i request) := rfl
            refine h.wired.advance hrelay hids ?_ ?_ ?_ rfl rfl rfl rfl
            · intro j own htaken
              cases htaken
              exact hsized
            · intro j hwrites
              rcases hadvance.writes_cases hwrites with hold | ⟨timely, htaken⟩
              · exact hold
              · cases htaken
            · rcases hadvance.written with hsame | ⟨j, n, call, htaken, -⟩
              · exact hsame
              · cases htaken
          refine h.move hwired.setOperating rfl hfits.2 hasked ?_
          intro j hj
          exact ⟨start_others s.relay request hj, rfl⟩
        | false =>
          have hwired : ({ s with budgets, holding := Function.update s.holding i true } : KwinChain).Wired :=
            ⟨h.wired.named, h.wired.roles, h.wired.sized, h.wired.begun, h.wired.ledger, h.wired.wire,
              h.wired.writer, h.wired.last⟩
          refine h.move hwired.setOperating rfl ?_ hasked fun _ _ => ⟨rfl, rfl⟩
          exact ⟨hfits.2, fun _ => .inr ⟨hfits.1, rfl⟩⟩
      | false =>
        have hwired : ({ s with crowded := Function.update s.crowded i true } : KwinChain).Wired :=
          ⟨h.wired.named, h.wired.roles, h.wired.sized, h.wired.begun, h.wired.ledger, h.wired.wire, h.wired.writer,
            h.wired.last⟩
        have hself : Function.update s.crowded i true i = true := Function.update_self ..
        rcases admission_kwin session request before available false memoryFree with
          ⟨-, hslot⟩ | ⟨status, diagnostic, hrefused, -⟩
        · exact absurd (hslot hscript) (by decide)
        · simp only [hrefused]
          refine h.move hwired.setOperating rfl ?_ hasked ?_
          · exact ⟨fun _ => hfits.1, fun _ _ => .inl hself⟩
          · intro j hj
            exact ⟨rfl, Function.update_of_ne hj ..⟩
    · rw [if_neg hscript]
      exact h.setOperating hfits.2 hasked
  · simp only [hrefused]
    refine h.setOperating (fits_refused ?_ fun _ => hfits.1) hasked
    intro hstatus
    exact absurd (hbusy hstatus) (by decide)

theorem KwinChain.Kept.release (h : s.Kept) (pid : ℕ) : (s.release pid i).Kept := by
  unfold KwinChain.release
  split_ifs
  · have hwired := h.wired
    exact ⟨⟨hwired.named, hwired.roles, hwired.sized, hwired.begun, hwired.ledger, hwired.wire, hwired.writer,
      hwired.last⟩, h.fits, h.asked⟩
  · exact h

theorem KwinChain.Kept.operate (h : s.Kept) (pid : ℕ → ℕ) (session : Session) (lease : Lease) (relay : Bool)
    (step : OperateStep) (hids : (s.operate pid i session lease relay step).relay.relay.nextRequestId < 2 ^ 64) :
    (s.operate pid i session lease relay step).Kept := by
  have hfits := h.fits i
  have hasked := h.asked i
  unfold KwinChain.operate at hids ⊢
  split at hids
  · exact h
  · next request before backend slotFree memoryFree hat => exact h.executeOperation hat hids
  · next request kind before result hat =>
    rw [hat] at hfits hasked
    split_ifs with hscript
    · split
      · next own hresult =>
        exact h.setOperating ⟨hfits, fun _ => .inl hresult⟩ hasked
      · exact h
    · exact h.setOperating ⟨hfits, fun hnot => absurd hnot hscript⟩ hasked
  · exact h.release (pid i)
  · next state step hrequest hdoor hfinish hnext =>
    refine h.setOperating (operate_fits session lease hfits ?_ ?_ ?_ ?_) ?_
    · exact fun request htaken => hrequest request htaken
    · exact fun request before hat backend slotFree memoryFree htaken =>
        hdoor request before backend slotFree memoryFree hat htaken
    · exact fun request kind before hat result htaken => hfinish request kind before result hat htaken
    · exact fun request reply hat htaken => hnext request reply hat htaken
    · intro request hrequest'
      refine hasked request (operate_request session lease ?_ ?_ hrequest')
      · exact fun request htaken => hrequest request htaken
      · exact fun request before hat backend slotFree memoryFree htaken =>
          hdoor request before backend slotFree memoryFree hat htaken

variable {σ : Type} {c : Compositor σ} {pid : ℕ → ℕ}

theorem KwinChain.Kept.channelStep (h : s.Kept) (step : ChannelStep σ) : (s.channelStep c step).Kept :=
  h.heard (h.wired.channelStep step) (channelStep_relay s step) rfl rfl

theorem KwinChain.Kept.read (h : s.Kept) (nowMs : ℕ) (written : Bool) : (s.read c nowMs written).Kept := by
  have hwired := h.wired.read (c := c) nowMs written
  unfold KwinChain.read at hwired ⊢
  split_ifs at hwired ⊢
  · exact h
  · exact h.heard hwired (channelStep_relay s _) rfl rfl

theorem KwinChain.Kept.step (h : s.Kept) (step : KwinChainStep σ)
    (hids : (s.step c pid step).relay.relay.nextRequestId < 2 ^ 64) : (s.step c pid step).Kept := by
  cases step with
  | request i session request sized =>
    have hfits := h.fits i
    simp only [KwinChain.step]
    split
    · next hat =>
      rw [hat] at hfits
      refine h.setOperating (receive_fits session hfits) ?_
      intro own hown
      rw [← receive_request session hown]
      exact sized
    · exact h
  | refresh i r =>
    refine h.setOperating (refreshed_fits r (h.fits i)) ?_
    intro own hown
    exact h.asked i own (refreshed_request r hown)
  | operate i session lease relay step => exact h.operate pid session lease relay step hids
  | relay action => exact h.relayTurn hids
  | read nowMs written => exact h.read nowMs written
  | hangUp nowMs written => exact h.channelStep _
  | daemon step =>
    cases step with
    | relay input nowMs written => exact h
    | _ => exact h.channelStep _

theorem start_kept (queue : KwinQueue) (peer : Bytes) : (KwinChain.start queue peer).Kept := by
  refine ⟨⟨relaySystemCreate_named, ⟨⟨nofun, nofun⟩, ⟨nofun, nofun⟩⟩, nofun, ?_, Pipe.ledger_empty _, fun _ => rfl, nofun,
    nofun⟩, fun _ => ⟨rfl, rfl⟩, nofun⟩
  intro i
  constructor
  · exact nofun
  · rintro ⟨call, hcall, -⟩
    cases hcall

end Kept

end KeysharpDesktop
