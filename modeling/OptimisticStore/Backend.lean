import OptimisticStore.Access
import OptimisticStore.ReadFootprint
import OptimisticStore.WriteSet

/-! A backend keeps the committed states of one store on a medium of type `μ`: it registers
transactions, validates and applies their commits, and hands out snapshots (`σ`) and cursors
(`κ`). Each operation runs to its end before the next one. -/

namespace OptimisticStore

structure Stats where
  version : Version := 0
  /-- Committed versions whose log entry is still kept. -/
  logEntries : Nat := 0
  running : Nat := 0
  deriving DecidableEq

/-- What a stream gives at one poll: a row or a failure. -/
abbrev Item := Except Error (Bytes × Bytes)

structure Backend (μ σ κ : Type) where
  /-- Registers a transaction that reads the current version. Like the other operations that
  read a clock, it takes the reading, in milliseconds. -/
  begin : (now : Nat) → Access μ (Registration × σ)
  heartbeat : (now : Nat) → Registration → Access μ Unit
  /-- Validates the reads against every later commit and applies the writes as a new version,
  both or neither. -/
  commit : Registration → ReadFootprint → WriteSet → Access μ Version
  /-- Ends a registration and prunes the log of what no registration left needs. -/
  finish : (now : Nat) → Registration → Access μ Unit
  /-- Gives up a registration at once; a backend may leave it to be reclaimed later. -/
  abandon : Registration → μ → μ
  stats : Access μ Stats
  close : Access μ Unit
  snapshotVersion : σ → Version
  get : σ → Bytes → Access μ (Option Bytes)
  query : σ → Condition → κ
  /-- The next item, `none` at the end. An operation that may not go on passes the reason. -/
  poll : Option Error → κ → μ → Option Item × κ × μ
  /-- No cursor gives more items than this, as long as nobody writes. -/
  itemBound : κ → μ → Nat
  inspect : μ → String
  inspectSnapshot : σ → String

namespace Backend
variable {μ σ κ : Type}

def collect (b : Backend μ σ κ) (gate : Option Error) : Nat → κ → Access μ (List (Bytes × Bytes))
  | 0, _ => pure []
  | fuel + 1, cursor => fun m =>
    match b.poll gate cursor m with
    | (none, _, m) => (.ok [], m)
    | (some (.error e), _, m) => (.error e, m)
    | (some (.ok row), cursor, m) => (do return row :: (← b.collect gate fuel cursor)) m

def rows (b : Backend μ σ κ) (gate : Option Error) (snapshot : σ) (c : Condition) :
    Access μ (List (Bytes × Bytes)) := fun m =>
  let cursor := b.query snapshot c
  b.collect gate (b.itemBound cursor m + 1) cursor m

/-- One transaction without reads. It is ended even if its commit fails, and a failure to end
it is the one that counts. -/
def commitAlone (b : Backend μ σ κ) (now : Nat) (writes : WriteSet) : Access μ Version := do
  let (registration, _) ← b.begin now
  let committed ← (b.commit registration {} writes).outcome
  b.finish now registration
  Access.ofExcept committed

end Backend
end OptimisticStore
