import OptimisticStore.Backend

/-! The store in memory. The committed data is one ordered map, and a snapshot is that map as
it was. The log holds, by ascending version, the keys of each commit above the least version
that is still being read. -/

namespace OptimisticStore

structure Keyspace where
  version : Version := 0
  data : OrderedMap Bytes Bytes := ∅
  log : List (Version × List Bytes) := []
  /-- In order of registration, so the least read version comes first. -/
  running : List Registration := []
  lastTxnId : TxnId := 0

namespace Keyspace

structure Snapshot where
  version : Version
  data : OrderedMap Bytes Bytes

def horizon (s : Keyspace) : Version := (s.running.head?.map (·.readVersion)).getD s.version

/-- Drops the log entries that no running transaction is validated against. -/
def prune (s : Keyspace) : Keyspace :=
  { s with log := s.log.filter fun (version, _) => s.horizon < version }

def begin : Access Keyspace (Registration × Snapshot) := fun s =>
  let registration : Registration := ⟨s.version, s.lastTxnId + 1⟩
  (.ok (registration, ⟨s.version, s.data⟩),
    { s with lastTxnId := s.lastTxnId + 1, running := s.running ++ [registration] })

/-- The keys written by later commits, by version and then by key. -/
def writtenAfter (s : Keyspace) (version : Version) : List (Version × Bytes) :=
  (s.log.filter fun entry => version < entry.1).flatMap fun (version, keys) =>
    keys.map fun key => (version, key)

def writeData (data : OrderedMap Bytes Bytes) : Bytes × Option Bytes → OrderedMap Bytes Bytes
  | (key, some value) => data.insert key value
  | (key, none) => data.erase key

def apply (s : Keyspace) (writes : WriteSet) : Keyspace :=
  { s with
    version := s.version + 1
    data := writes.entries.foldl writeData s.data
    log := s.log ++ [(s.version + 1, writes.keys)] }

def commit (r : Registration) (reads : ReadFootprint) (writes : WriteSet) :
    Access Keyspace Version := fun s =>
  if s.running.contains r then
    match reads.validate r.readVersion (s.writtenAfter r.readVersion) with
    | .ok () => (.ok (s.version + 1), s.apply writes)
    | .error e => (.error e, s)
  else (.error (.notRunning r), s)

def withdraw (s : Keyspace) (r : Registration) : Keyspace :=
  { s with running := s.running.erase r }

def finish (r : Registration) : Access Keyspace Unit := fun s => (.ok (), (s.withdraw r).prune)

def abandon (r : Registration) (s : Keyspace) : Keyspace :=
  if s.running.contains r then (s.withdraw r).prune else s

def stats : Access Keyspace Stats := fun s =>
  (.ok ⟨s.version, s.log.length, s.running.length⟩, s)

def Snapshot.query (snapshot : Snapshot) (c : Condition) : Walk Bytes Bytes :=
  snapshot.data.walk c.readRange.lower.cut c.readRange.upper.cut c.direction

/-- A closed gate takes the place of each row that is left. -/
def poll (gate : Option Error) (w : Walk Bytes Bytes) : Option Item × Walk Bytes Bytes :=
  match w.next with
  | none => (none, w)
  | some (row, rest) => (some (gate.elim (.ok row) .error), rest)

def inspectData (data : OrderedMap Bytes Bytes) : String :=
  Inspect.table (data.toList.map fun (key, value) => (key.inspect, value.inspect))

def Snapshot.inspect (snapshot : Snapshot) : String :=
  Inspect.record "MemorySnapshot"
    [("version", snapshot.version.repr), ("data", inspectData snapshot.data)]

def inspect (s : Keyspace) : String :=
  Inspect.record "MemoryStore" [("state", Inspect.guarded <|
    Inspect.record "VersionState"
      [("version", s.version.repr), ("data", inspectData s.data),
        ("commit_log", Inspect.table (s.log.map fun (version, keys) =>
          (version.repr, Inspect.sequence (keys.map Bytes.inspect)))),
        ("running", Inspect.collection (s.running.map Registration.inspect)),
        ("last_txn_id", s.lastTxnId.repr)])]

def backend : Backend Keyspace Snapshot (Walk Bytes Bytes) where
  begin _ := begin
  heartbeat _ _ := pure ()
  commit := commit
  finish _ := finish
  abandon := abandon
  stats := stats
  close := pure ()
  snapshotVersion := Snapshot.version
  get snapshot key := pure (snapshot.data.get? key)
  query := Snapshot.query
  poll gate w s :=
    let (item, rest) := poll gate w
    (item, rest, s)
  itemBound w _ := Walk.weight w.stack
  inspect := inspect
  inspectSnapshot := Snapshot.inspect

end Keyspace
end OptimisticStore
