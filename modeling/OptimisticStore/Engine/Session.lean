import OptimisticStore.Config
import OptimisticStore.Liveness
import OptimisticStore.Overlay

/-! Reading and writing inside one attempt. A transaction reads its snapshot with its own staged
writes over it and records every range it has read; a view only reads. Each operation is given
the moment at which it runs: whether the engine is open, whether the attempt's flag is cancelled,
and what the clocks show. -/

namespace OptimisticStore

/-- Two clocks: milliseconds of the calendar, and nanoseconds that never run back. -/
structure Clock where
  wall : Nat
  steady : Nat

structure Moment where
  closed : Option String
  /-- Why the attempt may not go on although the engine is open. -/
  stopped : Option Error
  clock : Clock
  heartbeatInterval : Duration

namespace Moment

/-- A closed engine is refused before anything else. -/
def shut (now : Moment) : Option Error := now.closed.map .closed

def gate (now : Moment) : Option Error := now.shut.or now.stopped

end Moment

def Access.pass {μ : Type} : Option Error → Access μ Unit
  | none => pure ()
  | some e => Access.fail e

/-- One registration of a transaction. Attempts of an engine are numbered, and a stream knows
the attempt it was opened in by its number. -/
structure Attempt (σ : Type) where
  serial : Nat
  registration : Registration
  snapshot : σ
  liveness : Liveness String

namespace Attempt
variable {μ σ κ : Type}

def get (b : Backend μ σ κ) (now : Moment) (a : Attempt σ) (key : Bytes) :
    Access μ (Option Bytes) := do
  Access.pass now.gate
  b.get a.snapshot key

def query (b : Backend μ σ κ) (now : Moment) (a : Attempt σ) (c : Condition) :
    Access μ (Feed κ) := do
  Access.pass now.gate
  return .plain (b.query a.snapshot c)

def scan (b : Backend μ σ κ) (now : Moment) (a : Attempt σ) (c : Condition) (limit : Nat) :
    Access μ (List (Bytes × Bytes)) := do
  (← a.query b now c).take b now.gate limit

end Attempt

structure Transaction (σ : Type) extends Attempt σ where
  /-- Attempts of the same call before this one. -/
  retries : Nat := 0
  writes : WriteSet := {}
  reads : ReadFootprint := {}
  /-- The steady clock at the last heartbeat. -/
  lastHeartbeat : Nat

namespace Transaction
variable {μ σ κ : Type}

def update (f : Transaction σ → Transaction σ) : Access (Transaction σ × μ) Unit :=
  Access.modify fun (t, m) => (f t, m)

def current : Access (Transaction σ × μ) (Transaction σ) := fun (t, m) => (.ok t, (t, m))

def record (range : KeyRange) : Access (Transaction σ × μ) Unit :=
  update fun t => { t with reads := t.reads.record range }

/-- Before a read: the gate is open, and a heartbeat that is due has been sent. -/
def prepare (b : Backend μ σ κ) (now : Moment) : Access (Transaction σ × μ) Unit := do
  Access.pass now.gate
  let t ← current
  if now.heartbeatInterval.nanoseconds ≤ now.clock.steady - t.lastHeartbeat then
    Access.onSecond (b.heartbeat now.clock.wall t.registration)
    update fun t => { t with lastHeartbeat := now.clock.steady }

/-- The read is recorded even if it then fails. -/
def get (b : Backend μ σ κ) (now : Moment) (key : Bytes) :
    Access (Transaction σ × μ) (Option Bytes) := do
  prepare b now
  update fun t => { t with reads := t.reads.recordPoint key }
  let t ← current
  match t.writes.get? key with
  | some staged => return staged
  | none => Access.onSecond (b.get t.snapshot key)

def getMany (b : Backend μ σ κ) (now : Moment) (keys : List Bytes) :
    Access (Transaction σ × μ) (List (Option Bytes)) :=
  keys.mapM (get b now)

def merged (b : Backend μ σ κ) (t : Transaction σ) (c : Condition) : Feed κ :=
  .start c.direction (b.query t.snapshot c) (t.writes.range c)

/-- All of the condition's range is recorded, however much of the stream is used. -/
def query (b : Backend μ σ κ) (now : Moment) (c : Condition) :
    Access (Transaction σ × μ) (Feed κ) := do
  prepare b now
  record c.readRange
  return (← current).merged b c

/-- What a scan has seen: up to the last row if it stopped there, all of the range if not. -/
def scanned (c : Condition) (limit : Nat) (rows : List (Bytes × Bytes)) : KeyRange :=
  match rows.getLast? with
  | some (last, _) => if rows.length = limit then c.readRangeUntil last else c.readRange
  | none => c.readRange

/-- A scan that fails records nothing. -/
def scan (b : Backend μ σ κ) (now : Moment) (c : Condition) (limit : Nat) :
    Access (Transaction σ × μ) (List (Bytes × Bytes)) := do
  prepare b now
  let rows ← Access.onSecond (((← current).merged b c).take b now.gate limit)
  record (scanned c limit rows)
  return rows

/-- Staging asks only whether the engine is open. -/
def stage (now : Moment) (write : Bytes × Option Bytes) : Access (Transaction σ × μ) Unit := do
  Access.pass now.shut
  update fun t => { t with writes := t.writes.stage write }

def inspect (t : Transaction σ) : String :=
  Inspect.record "Transaction"
    [("running", t.registration.inspect), ("writes", t.writes.inspect),
      ("reads", t.reads.inspect)]

end Transaction

def Attempt.inspectView {σ : Type} (a : Attempt σ) : String :=
  Inspect.record "TransactionReadonly" [("running", a.registration.inspect)]

inductive Session (σ : Type) where
  | transaction (t : Transaction σ)
  | view (a : Attempt σ)

def Session.attempt {σ : Type} : Session σ → Attempt σ
  | .transaction t => t.toAttempt
  | .view a => a

/-- A stream lives on its own once it is open, but only as long as its attempt does. -/
structure Stream (κ : Type) where
  serial : Nat
  liveness : Liveness String
  feed : Feed κ

end OptimisticStore
