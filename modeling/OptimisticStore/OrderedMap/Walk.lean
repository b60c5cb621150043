import OptimisticStore.KeyRange
import OptimisticStore.OrderedMap.Tree

/-! A walk reads the entries of a tree between two cuts, in either direction. It keeps the
nodes still to be read on a stack, each with the side that comes after it: the start is found
once, by the starting cut, and the walk ends at the first node beyond the other one. A walk
holds on to the tree it was started on. -/

namespace OptimisticStore

structure Walk (κ ν : Type) where
  lower : Cut κ
  upper : Cut κ
  direction : Direction
  /-- The next node first. -/
  stack : List ((κ × ν) × Tree κ ν)

namespace Walk
variable {κ ν : Type}

def descend : Direction → Tree κ ν → List ((κ × ν) × Tree κ ν) → List ((κ × ν) × Tree κ ν)
  | _, .leaf, stack => stack
  | .forward, .node _ k v _ l r, stack => descend .forward l (((k, v), r) :: stack)
  | .backward, .node _ k v _ l r, stack => descend .backward r (((k, v), l) :: stack)

def weight : (stack : List ((κ × ν) × Tree κ ν)) → Nat
  | [] => 0
  | (_, t) :: stack => 1 + t.size + weight stack

@[simp] theorem weight_cons (e : κ × ν) (t : Tree κ ν) (stack : List ((κ × ν) × Tree κ ν)) :
    weight ((e, t) :: stack) = 1 + t.size + weight stack := rfl

theorem weight_descend (d : Direction) (t : Tree κ ν) (stack : List ((κ × ν) × Tree κ ν)) :
    weight (descend d t stack) = t.size + weight stack := by
  induction t generalizing stack with
  | leaf => simp [descend, Tree.size]
  | node s k v h l r hl hr =>
    cases d <;> simp [descend, Tree.size, hl, hr] <;> omega

variable [LT κ] [LE κ] [DecidableLT κ] [DecidableLE κ]

/-- Stacks the nodes inside the starting cut on the path to the first of them. -/
def seek (lower upper : Cut κ) :
    Direction → Tree κ ν → List ((κ × ν) × Tree κ ν) → List ((κ × ν) × Tree κ ν)
  | _, .leaf, stack => stack
  | .forward, .node _ k v _ l r, stack =>
    if lower.Below k then seek lower upper .forward l (((k, v), r) :: stack)
    else seek lower upper .forward r stack
  | .backward, .node _ k v _ l r, stack =>
    if upper.Above k then seek lower upper .backward r (((k, v), l) :: stack)
    else seek lower upper .backward l stack

def start (t : Tree κ ν) (lower upper : Cut κ) (direction : Direction) : Walk κ ν :=
  ⟨lower, upper, direction, seek lower upper direction t []⟩

def within (w : Walk κ ν) (k : κ) : Bool :=
  match w.direction with
  | .forward => w.upper.Above k
  | .backward => w.lower.Below k

def next (w : Walk κ ν) : Option ((κ × ν) × Walk κ ν) :=
  match w.stack with
  | [] => none
  | (entry, side) :: stack =>
    if w.within entry.1 then
      some (entry, { w with stack := descend w.direction side stack })
    else none

theorem weight_next {w rest : Walk κ ν} {entry : κ × ν} (h : w.next = some (entry, rest)) :
    weight rest.stack < weight w.stack := by
  unfold next at h
  split at h
  · cases h
  · rename_i e side stack hs
    split at h
    · cases h
      simp [hs, weight_descend]
    · cases h

def take (w : Walk κ ν) : Nat → List (κ × ν)
  | 0 => []
  | limit + 1 =>
    match w.next with
    | none => []
    | some (entry, rest) => entry :: rest.take limit

def toList (w : Walk κ ν) : List (κ × ν) :=
  match _h : w.next with
  | none => []
  | some (entry, rest) => entry :: rest.toList
termination_by weight w.stack
decreasing_by exact weight_next ‹_›

end Walk
end OptimisticStore
