import OptimisticStore.Bytes
import OptimisticStore.OrderedMap.Range

/-! Raw rows: byte strings to byte strings in key order, without versions. -/

namespace OptimisticStore

abbrev Row := Bytes × Bytes

inductive RawWrite where
  | put (key value : Bytes)
  | delete (key : Bytes)
  deriving DecidableEq

abbrev RawRows := OrderedMap Bytes Bytes

namespace RawRows

def write (rows : RawRows) : RawWrite → RawRows
  | .put key value => rows.insert key value
  | .delete key => rows.erase key

def apply (rows : RawRows) (batch : List RawWrite) : RawRows := batch.foldl write rows

/-- The first rows between the cuts in the given direction, `limit` at most. Crossed cuts have
no rows between them and are not looked up. -/
def scan (rows : RawRows) (lower upper : Cut Bytes) (direction : Direction) (limit : Nat) :
    List Row :=
  if Cut.crossed lower upper then []
  else (OrderedMap.walk rows lower upper direction).take limit

theorem scan_eq_take (rows : RawRows) (lower upper : Cut Bytes) (direction : Direction)
    (limit : Nat) :
    rows.scan lower upper direction limit =
      (direction.arrange (OrderedMap.between rows lower upper)).take limit := by
  unfold scan
  split
  · next crossed =>
    have none : OrderedMap.between rows lower upper = [] := by
      simpa [OrderedMap.between] using fun k v _ => Cut.not_between_of_crossed crossed k
    cases direction <;> simp [none, Direction.arrange]
  · rw [Walk.take_eq_take_toList, OrderedMap.toList_walk]

end RawRows
end OptimisticStore
