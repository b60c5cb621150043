import OptimisticStore.Error

/-! Whether an operation may still go on: always, or as long as nobody has cancelled its flag.
Handles of flags can be cloned; a cancellation through one handle is seen through all of them. -/

namespace OptimisticStore

inductive Liveness (φ : Type) where
  | always
  | flagged (flag : φ)
  deriving DecidableEq

namespace Liveness
variable {φ : Type} [DecidableEq φ]

def isAlive (cancelled : List φ) : Liveness φ → Bool
  | always => true
  | flagged flag => !cancelled.contains flag

def check (cancelled : List φ) (l : Liveness φ) : Except Error Unit :=
  if l.isAlive cancelled then .ok () else .error .cancelled

end Liveness

/-- Handles of cancel flags in the order they were made. Entry `i` is the flag behind handle
`i`, and a flag is named by the first handle on it. -/
structure CancelFlags where
  handles : List Nat := []
  cancelled : List Nat := []

namespace CancelFlags

def create (s : CancelFlags) : CancelFlags :=
  { s with handles := s.handles ++ [s.handles.length] }

def clone (s : CancelFlags) (handle : Nat) : Option CancelFlags :=
  s.handles[handle]?.map fun flag => { s with handles := s.handles ++ [flag] }

def cancel (s : CancelFlags) (handle : Nat) : Option CancelFlags :=
  s.handles[handle]?.map fun flag => { s with cancelled := flag :: s.cancelled }

def isCancelled (s : CancelFlags) (flag : Nat) : Bool := s.cancelled.contains flag

end CancelFlags
end OptimisticStore
