import KeysharpDesktop.Wire.Protocol

/-! What the authority asks of the permission library: whether a process is still the one it
was, and what the permission store grants it. -/
namespace KeysharpDesktop

/-- The identity of a process, as far as `same_identity` compares it. -/
structure Identity where
  uid : ℕ
  pid : ℕ
  startTime : ℕ
  hash : List UInt8
  deriving DecidableEq, Repr

def sameIdentity (left right : Identity) : Bool :=
  left.uid == right.uid && left.pid == right.pid && left.startTime == right.startTime &&
    left.hash == right.hash

/-- Whether revalidating an identity succeeded and found the same process. -/
def verifies (identity : Identity) (verified : Option Identity) : Bool :=
  verified.any (sameIdentity identity)

/-- What `ksp_store_generation` returned, and what it left in its output. -/
structure GenerationReply where
  ok : Bool
  generation : ℕ
  deriving DecidableEq, Repr

/-- What `ksp_store_check_at_generation` returned, and what it left in its outputs. A call
that fails promises nothing about them. -/
structure CheckReply where
  ok : Bool
  granted : Scopes
  generation : ℕ
  deriving DecidableEq, Repr

/-- The answers of every call that one visit to a lease may make; a call that is not made has
its answer ignored. -/
structure Answers where
  generation : GenerationReply
  verified : Option Identity
  check : CheckReply
  sent : Bool
  deriving DecidableEq, Repr

end KeysharpDesktop
