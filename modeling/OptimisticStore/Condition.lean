import OptimisticStore.Error
import OptimisticStore.KeyRange

/-! Conditions select the keys on one side of a bound, and the side decides the order in which
they are read: upwards from `gt` and `gte`, downwards from `lt` and `lte`. -/

namespace OptimisticStore

inductive Condition where
  | gt (key : Bytes)
  | gte (key : Bytes)
  | lt (key : Bytes)
  | lte (key : Bytes)
  deriving DecidableEq

namespace Condition

def all : Condition := gte []

def direction : Condition → Direction
  | gt _ | gte _ => .forward
  | lt _ | lte _ => .backward

def key : Condition → Bytes
  | gt k | gte k | lt k | lte k => k

def readRange : Condition → KeyRange
  | gt k => ⟨.excluded k, .unbounded⟩
  | gte k => ⟨.included k, .unbounded⟩
  | lt k => ⟨.unbounded, .excluded k⟩
  | lte k => ⟨.unbounded, .included k⟩

/-- The part of the range that a scan has seen when it stops at `last`. -/
def readRangeUntil (c : Condition) (last : Bytes) : KeyRange :=
  match c.direction with
  | .forward => ⟨c.readRange.lower, .included last⟩
  | .backward => ⟨.included last, c.readRange.upper⟩

def contains : Condition → Bytes → Bool
  | gt b, k => b < k
  | gte b, k => b ≤ k
  | lt b, k => k < b
  | lte b, k => k ≤ b

theorem contains_readRange (c : Condition) (k : Bytes) : c.readRange.contains k = c.contains k := by
  cases c <;> simp [readRange, KeyRange.contains, contains, Endpoint.unbounded, Endpoint.included,
    Endpoint.excluded]

def inspect : Condition → String
  | gt k => Inspect.variant "Gt" k.inspect
  | gte k => Inspect.variant "Gte" k.inspect
  | lt k => Inspect.variant "Lt" k.inspect
  | lte k => Inspect.variant "Lte" k.inspect

end Condition

/-- A condition as it is asked for: any of the four bounds may be given. -/
structure ConditionRequest where
  gt : Option Bytes := none
  gte : Option Bytes := none
  lt : Option Bytes := none
  lte : Option Bytes := none
  deriving DecidableEq

namespace ConditionRequest

def given (r : ConditionRequest) : List Condition :=
  (r.gt.map Condition.gt).toList ++ (r.gte.map Condition.gte).toList ++
    (r.lt.map Condition.lt).toList ++ (r.lte.map Condition.lte).toList

def resolve (r : ConditionRequest) : Except Error Condition :=
  match r.given with
  | [] => .error .noBound
  | [c] => .ok c
  | cs => .error (.manyBounds cs.length)

end ConditionRequest
end OptimisticStore
