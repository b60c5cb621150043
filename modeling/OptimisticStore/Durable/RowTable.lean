import OptimisticStore.Durable.Rows

/-! Stores of raw rows behind named handles. A clone of a handle leads to the same store, so what
is written through one of them is read through all. Through a name that is no handle nothing is
done. -/

namespace OptimisticStore

structure RowTable where
  stores : List RawRows := []
  /-- The place of the store that a name leads to. Of several entries the first one counts. -/
  handles : List (String × Nat) := []

namespace RowTable

def place? (t : RowTable) (name : String) : Option Nat := t.handles.lookup name

def rows (t : RowTable) (name : String) : RawRows :=
  ((t.place? name).bind (t.stores[·]?)).getD ∅

def openNew (t : RowTable) (name : String) : RowTable :=
  ⟨t.stores ++ [∅], (name, t.stores.length) :: t.handles⟩

def clone (t : RowTable) (name other : String) : RowTable :=
  match t.place? other with
  | none => t
  | some place => { t with handles := (name, place) :: t.handles }

def write (t : RowTable) (name : String) (batch : List RawWrite) : RowTable :=
  match t.place? name with
  | none => t
  | some place => { t with stores := t.stores.modify place (·.apply batch) }

end RowTable
end OptimisticStore
