import OptimisticStore.Backend
import OptimisticStore.Durable.Device
import OptimisticStore.Durable.Layout

/-! Reading data rows as of one version. A point is looked up by the first row at or behind the
place of the version. A range is fetched page by page, each page from where the last one ended,
and of the rows of a key the newest one that is not too new counts: upwards it is met first,
downwards it is met last and waits until another key or the end shows that it was the last. -/

namespace OptimisticStore.Durable

/-- Fails the access if a raw row cannot be read back. -/
def decoded {α : Type} : Except RowDefect α → Access Device α
  | .ok a => pure a
  | .error defect => Access.fail (.storage (.corrupt defect))

structure Snapshot where
  version : Version
  pageSize : Nat

/-- The newest record of the key that the snapshot sees, a tombstone too. -/
def Snapshot.record? (s : Snapshot) (key : Bytes) : Access Device (Option (Record Bytes)) := do
  let rows ← Device.scan (.included (Layout.seekKey key s.version))
    (.included (Layout.dataKeyEnd key)) .forward 1
  match rows.head? with
  | none => return none
  | some row => return some (← decoded (Layout.readDataRow row)).2

def Snapshot.get (s : Snapshot) (key : Bytes) : Access Device (Option Bytes) := do
  return (← s.record? key).bind Record.value?

def Snapshot.inspect (s : Snapshot) : String :=
  Inspect.record "PersistentSnapshot"
    [("version", s.version.repr), ("page_size", s.pageSize.repr)]

structure Cursor where
  version : Version
  pageSize : Nat
  direction : Direction
  /-- The raw ends around the rows not yet fetched. -/
  lower : Cut Bytes
  upper : Cut Bytes
  exhausted : Bool := false
  /-- Rows to be given before another page is fetched. -/
  ready : List Row := []
  /-- Upwards: the key settled last, whose older rows are passed over. -/
  settled : Option Bytes := none
  /-- Downwards: the newest record met of the key that is being read. -/
  waiting : Option (Bytes × Record Bytes) := none

namespace Cursor

def ofSnapshot (s : Snapshot) (c : Condition) : Cursor :=
  let (lower, upper) := Layout.dataRange c.readRange
  { version := s.version, pageSize := s.pageSize, direction := c.direction, lower, upper }

def rowOf (key : Bytes) (record : Record Bytes) : List Row :=
  (record.value?.map fun value => (key, value)).toList

/-- Takes one record in scan order and gives the row that it settles, if any. -/
def accept (c : Cursor) (key : Bytes) (record : Record Bytes) : List Row × Cursor :=
  if c.version < record.version then ([], c)
  else match c.direction with
    | .forward =>
      if c.settled = some key then ([], c) else (rowOf key record, { c with settled := some key })
    | .backward =>
      let next := { c with waiting := some (key, record) }
      match c.waiting with
      | none => ([], next)
      | some (other, newest) => (if other = key then [] else rowOf other newest, next)

def acceptAll (c : Cursor) : List (Bytes × Record Bytes) → List Row × Cursor
  | [] => ([], c)
  | (key, record) :: rest =>
    let (rows, c) := c.accept key record
    let (others, c) := c.acceptAll rest
    (rows ++ others, c)

/-- At the end of the range nothing newer can follow. -/
def release (c : Cursor) : List Row × Cursor :=
  match c.exhausted, c.waiting with
  | true, some (key, record) => (rowOf key record, { c with waiting := none })
  | _, _ => ([], c)

def advance (c : Cursor) (last : Bytes) : Cursor :=
  match c.direction with
  | .forward => { c with lower := .excluded last }
  | .backward => { c with upper := .excluded last }

/-- Fetches a page. One that is not full is the last. -/
def nextPage (c : Cursor) : Access Device Cursor := do
  let rows ← Device.scan c.lower c.upper c.direction c.pageSize
  let c := if rows.length < c.pageSize then { c with exhausted := true } else c
  let c := rows.getLast?.elim c fun (last, _) => c.advance last
  let records ← decoded (rows.mapM Layout.readDataRow)
  let (settled, c) := c.acceptAll records
  let (released, c) := c.release
  return { c with ready := c.ready ++ settled ++ released }

/-- The gate is asked before each page and each row, and a failure ends the cursor. The fuel
bounds the number of pages. -/
def pull (gate : Option Error) : (fuel : Nat) → Cursor → Device →
    Option Item × Option Cursor × Device
  | 0, _, d => (none, none, d)
  | fuel + 1, c, d =>
    match gate, c.ready with
    | some e, _ => (some (.error e), none, d)
    | none, row :: ready => (some (.ok row), some { c with ready }, d)
    | none, [] =>
      if c.exhausted then (none, none, d)
      else match c.nextPage d with
        | (.error e, d) => (some (.error e), none, d)
        | (.ok c, d) => pull gate fuel c d

/-- A cursor that has ended or failed is gone and gives nothing more. -/
def poll (gate : Option Error) (c : Option Cursor) (d : Device) :
    Option Item × Option Cursor × Device :=
  match c with
  | none => (none, none, d)
  | some c => pull gate (d.rows.size + 2) c d

end Cursor
end OptimisticStore.Durable
