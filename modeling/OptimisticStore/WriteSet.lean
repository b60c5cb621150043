import OptimisticStore.Condition
import OptimisticStore.OrderedMap.Basic

/-! Writes that a transaction has staged and nobody else sees. A key is staged with its new
value or, for a deletion, with none; the last write to a key stands. -/

namespace OptimisticStore

structure WriteSet where
  table : OrderedMap Bytes (Option Bytes) := ∅

namespace WriteSet

def put (w : WriteSet) (key value : Bytes) : WriteSet := ⟨w.table.insert key (some value)⟩

def delete (w : WriteSet) (key : Bytes) : WriteSet := ⟨w.table.insert key none⟩

/-- A value is put and none deletes. -/
def stage (w : WriteSet) (write : Bytes × Option Bytes) : WriteSet :=
  match write with
  | (key, some value) => w.put key value
  | (key, none) => w.delete key

def ofList (writes : List (Bytes × Option Bytes)) : WriteSet := writes.foldl stage {}

/-- `none` for a key that is not staged and `some none` for a staged deletion. -/
def get? (w : WriteSet) (key : Bytes) : Option (Option Bytes) := w.table.get? key

def size (w : WriteSet) : Nat := w.table.size

def isEmpty (w : WriteSet) : Bool := w.table.isEmpty

def entries (w : WriteSet) : List (Bytes × Option Bytes) := w.table.toList

def keys (w : WriteSet) : List Bytes := w.entries.map (·.1)

def range (w : WriteSet) (c : Condition) : List (Bytes × Option Bytes) :=
  w.table.range c.readRange.lower.cut c.readRange.upper.cut c.direction

def inspect (w : WriteSet) : String :=
  Inspect.record "WriteSet"
    [("table", Inspect.table (w.entries.map fun (key, value) =>
      (key.inspect, Inspect.optional (value.map Bytes.inspect))))]

end WriteSet
end OptimisticStore
