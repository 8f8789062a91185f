import KeysharpDesktop.Display.Toplevels

/-! The reader of Hyprland's client list. It keeps the few values that a window needs and steps over all else. -/
namespace KeysharpDesktop.Hypr

open Wayland

/-- A client as Hyprland describes it. -/
structure Client extends HyprClient where
  stableId : Bytes
  address : Bytes
  workspaceId : BitVec 64
  stackingOrder : BitVec 32
  pinned : Bool
  overFullscreen : Bool
  deriving DecidableEq, Repr

def maxClients : ℕ := 4096
abbrev jsonDepth : ℕ := 16
def idCapacity : ℕ := 32
def workspaceCapacity : ℕ := 64

section Words

def jsonSpace (s : Bytes) : Bytes := s.dropWhile isSpace

/-- Where the byte does not follow, the text is kept as it was: the next reader skips the same blanks again. -/
def jsonTake (expected : UInt8) (s : Bytes) : Option Bytes :=
  match jsonSpace s with
  | b :: rest => if b = expected then some rest else none
  | [] => none

def jsonPeek (expected : UInt8) (s : Bytes) : Bool := (jsonSpace s).head? = some expected

def escaped (b : UInt8) : UInt8 := if b ∈ ascii "ntrbf" then 32 else b

/-- The characters up to the closing quote, each escape as one plain character. -/
def jsonCharacters : Bytes → Option (Bytes × Bytes)
  | [] => some ([], [])
  | b :: rest =>
    if b = 34 then some ([], b :: rest)
    else if b = 92 then
      match rest with
      | [] => none
      | c :: rest =>
        if c = 117 then
          match rest with
          | _ :: _ :: _ :: _ :: rest => (jsonCharacters rest).map fun (value, rest) => (63 :: value, rest)
          | _ => none
        else (jsonCharacters rest).map fun (value, rest) => (escaped c :: value, rest)
    else (jsonCharacters rest).map fun (value, rest) => (b :: value, rest)

def jsonString (s : Bytes) : Option (Bytes × Bytes) := do
  let rest ← jsonTake 34 s
  let (value, rest) ← jsonCharacters rest
  let rest ← jsonTake 34 rest
  some (value, rest)

/-- What a buffer of some capacity holds of a string, as C reads it. -/
def copied (capacity : ℕ) (value : Bytes) : Bytes := cString (value.take (capacity - 1))

def truncated (capacity : ℕ) (value : Bytes) : Bool := capacity ≤ value.length

def isNumeral (b : UInt8) : Bool := isDigit b || b == 45 || b == 43 || b == 46 || b == 101 || b == 69

def isInt64 (v : ℤ) : Bool := -2 ^ 63 ≤ v && v < 2 ^ 63

/-- A fraction or an exponent is left out of the value. -/
def jsonInteger (s : Bytes) : Option (ℤ × Bytes) := do
  let digits := ((jsonSpace s).take 31).takeWhile isNumeral
  let (value, _) ← scanNumber digits
  if isInt64 value then some (value, (jsonSpace s).drop digits.length) else none

def jsonLiteral (word s : Bytes) : Option Bytes := scanLiteral word (jsonSpace s)

def jsonBoolean (s : Bytes) : Option (Bool × Bytes) :=
  match jsonLiteral (ascii "true") s with
  | some rest => some (true, rest)
  | none => (jsonLiteral (ascii "false") s).map fun rest => (false, rest)

end Words

section Loops

/-- The loop over parts with commas between them, and the bracket that has to follow. -/
def jsonParts {σ : Type} (part : σ → Bytes → Option (σ × Bytes)) (close : UInt8) :
    ℕ → σ → Bytes → Option (σ × Bytes)
  | 0, _, _ => none
  | turns + 1, state, s =>
    match part state s with
    | none => none
    | some (state, rest) =>
      match jsonTake 44 rest with
      | some rest => jsonParts part close turns state rest
      | none => (jsonTake close rest).map fun rest => (state, rest)

/-- Each turn takes a comma, so there are fewer turns than bytes. -/
def jsonLoop {σ : Type} (part : σ → Bytes → Option (σ × Bytes)) (close : UInt8) (state : σ) (s : Bytes) :
    Option (σ × Bytes) :=
  jsonParts part close (s.length + 1) state s

def jsonKey (s : Bytes) : Option (Bytes × Bytes) := do
  let (key, rest) ← jsonString s
  let rest ← jsonTake 58 rest
  some (key, rest)

/-- Steps over a value that may nest `left` more levels. -/
def jsonSkip : ℕ → Bytes → Option Bytes
  | 0, _ => none
  | left + 1, s =>
    match jsonSpace s with
    | [] => none
    | b :: rest =>
      if b = 34 then (jsonString (b :: rest)).map (·.2)
      else if b = 123 then
        match jsonTake 125 rest with
        | some rest => some rest
        | none =>
          let part : Unit → Bytes → Option (Unit × Bytes) := fun _ s => do
            let (_, rest) ← jsonKey s
            let rest ← jsonSkip left rest
            some ((), rest)
          (jsonLoop part 125 () rest).map (·.2)
      else if b = 91 then
        match jsonTake 93 rest with
        | some rest => some rest
        | none =>
          let part : Unit → Bytes → Option (Unit × Bytes) := fun _ s => (jsonSkip left s).map fun rest => ((), rest)
          (jsonLoop part 93 () rest).map (·.2)
      else if b = 116 then jsonLiteral (ascii "true") (b :: rest)
      else if b = 102 then jsonLiteral (ascii "false") (b :: rest)
      else if b = 110 then jsonLiteral (ascii "null") (b :: rest)
      else (jsonInteger (b :: rest)).map (·.2)

def jsonPair (s : Bytes) : Option ((BitVec 32 × BitVec 32) × Bytes) := do
  let rest ← jsonTake 91 s
  let (a, rest) ← jsonInteger rest
  let rest ← jsonTake 44 rest
  let (b, rest) ← jsonInteger rest
  let rest ← jsonTake 93 rest
  if isInt32 a && isInt32 b then some ((BitVec.ofInt 32 a, BitVec.ofInt 32 b), rest) else none

end Loops

section Clients

def workspaceMember (client : Client) (s : Bytes) : Option (Client × Bytes) := do
  let (key, rest) ← jsonKey s
  let key := copied 16 key
  if key = ascii "id" then
    let (id, rest) ← jsonInteger rest
    some ({ client with workspaceId := BitVec.ofInt 64 id }, rest)
  else if key = ascii "name" then
    let (name, rest) ← jsonString rest
    let name := if truncated workspaceCapacity name then [] else copied workspaceCapacity name
    some ({ client with workspaceName := name }, rest)
  else
    let rest ← jsonSkip jsonDepth rest
    some (client, rest)

def jsonWorkspace (client : Client) (s : Bytes) : Option (Client × Bytes) := do
  let rest ← jsonTake 123 s
  match jsonTake 125 rest with
  | some rest => some (client, rest)
  | none => jsonLoop workspaceMember 125 client rest

def isXDigit (b : UInt8) : Bool := isDigit b || (65 ≤ b && b ≤ 70) || (97 ≤ b && b ≤ 102)

def addressValid : Bytes → Bool
  | a :: x :: d :: more => a == 48 && x == 120 && (d :: more).all isXDigit
  | _ => false

def emptyClient : Client where
  pid := 0
  frame := ⟨0, 0, 0, 0⟩
  mapped := true
  hidden := false
  visible := true
  floating := false
  active := false
  fullscreen := 0
  workspaceName := []
  stableId := []
  address := []
  workspaceId := 0
  stackingOrder := 0
  pinned := false
  overFullscreen := false

/-- A client while its members are read. -/
structure Draft where
  client : Client
  idsTruncated : Bool

/-- An integer mode on current releases, a boolean on old ones. -/
def jsonFullscreen (s : Bytes) : Option (BitVec 32 × Bytes) :=
  if jsonPeek 116 s || jsonPeek 102 s then do
    let (flag, rest) ← jsonBoolean s
    some (if flag then 1 else 0, rest)
  else do
    let (number, rest) ← jsonInteger s
    some (if 0 < number then 1 else 0, rest)

/-- The value under a key. -/
def clientField (draft : Draft) (key rest : Bytes) : Option (Draft × Bytes) := do
  let client := draft.client
  if key = ascii "address" then
    let (value, rest) ← jsonString rest
    some ({ client := { client with address := copied idCapacity value }
            idsTruncated := draft.idsTruncated || truncated idCapacity value }, rest)
  else if key = ascii "stableId" then
    let (value, rest) ← jsonString rest
    some ({ client := { client with stableId := copied idCapacity value }
            idsTruncated := draft.idsTruncated || truncated idCapacity value }, rest)
  else if key = ascii "mapped" then
    let (value, rest) ← jsonBoolean rest
    some ({ draft with client := { client with mapped := value } }, rest)
  else if key = ascii "hidden" then
    let (value, rest) ← jsonBoolean rest
    some ({ draft with client := { client with hidden := value } }, rest)
  else if key = ascii "visible" then
    let (value, rest) ← jsonBoolean rest
    some ({ draft with client := { client with visible := value } }, rest)
  else if key = ascii "floating" then
    let (value, rest) ← jsonBoolean rest
    some ({ draft with client := { client with floating := value } }, rest)
  else if key = ascii "pinned" then
    let (value, rest) ← jsonBoolean rest
    some ({ draft with client := { client with pinned := value } }, rest)
  else if key = ascii "overFullscreen" then
    let (value, rest) ← jsonBoolean rest
    some ({ draft with client := { client with overFullscreen := value } }, rest)
  else if key = ascii "at" then
    let ((x, y), rest) ← jsonPair rest
    some ({ draft with client := { client with frame := { client.frame with x, y } } }, rest)
  else if key = ascii "size" then
    let ((width, height), rest) ← jsonPair rest
    some ({ draft with client := { client with frame := { client.frame with width, height } } }, rest)
  else if key = ascii "workspace" then
    let (client, rest) ← jsonWorkspace client rest
    some ({ draft with client }, rest)
  else if key = ascii "pid" then
    let (value, rest) ← jsonInteger rest
    some ({ draft with client := { client with pid := BitVec.ofInt 64 value } }, rest)
  else if key = ascii "fullscreen" then
    let (value, rest) ← jsonFullscreen rest
    some ({ draft with client := { client with fullscreen := value } }, rest)
  else
    let rest ← jsonSkip jsonDepth rest
    some (draft, rest)

def clientMember (draft : Draft) (s : Bytes) : Option (Draft × Bytes) := do
  let (key, rest) ← jsonKey s
  clientField draft (copied 32 key) rest

def jsonClient (s : Bytes) : Option (Client × Bytes) := do
  let rest ← jsonTake 123 s
  match jsonTake 125 rest with
  | some _ => none
  | none =>
    let (draft, rest) ← jsonLoop clientMember 125 ⟨emptyClient, false⟩ rest
    if !draft.idsTruncated && draft.client.stableId != [] && addressValid draft.client.address then
      some (draft.client, rest)
    else none

/-- An element that describes no client is read again and stepped over. -/
def jsonElement (items : List Client) (s : Bytes) : Option (List Client × Bytes) :=
  match jsonClient s with
  | none => (jsonSkip jsonDepth s).map fun rest => (items, rest)
  | some (client, rest) =>
    if items.length = maxClients then some (items, rest)
    else some (items ++ [{ client with stackingOrder := BitVec.ofNat 32 items.length }], rest)

def jsonClients (s : Bytes) : Option (List Client × Bytes) := do
  let rest ← jsonTake 91 s
  match jsonTake 93 rest with
  | some rest => some ([], rest)
  | none => jsonLoop jsonElement 93 [] rest

def parseClients (json : Bytes) : Option (List Client) := do
  let (clients, rest) ← jsonClients json
  if jsonSpace rest = [] then some clients else none

end Clients

end KeysharpDesktop.Hypr
