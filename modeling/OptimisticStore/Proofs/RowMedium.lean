import OptimisticStore.Proofs.Requests

/-! The durable store over any medium of raw rows. A device is one such medium: its rows change
only when they are written, and it scans them in full. What is told here of a medium is only how it
is asked, so its answers may come from anywhere and may differ from call to call. Over a device the
store is the one that runs, by definition (`backend_deviceMedium`). -/

namespace OptimisticStore

structure RowMedium (μ : Type) where
  get : (key : Bytes) → Access μ (Option Bytes)
  scan : (lower upper : Cut Bytes) → Direction → (limit : Nat) → Access μ (List Row)
  write : (batch : List RawWrite) → Access μ Unit
  close : Access μ Unit
  /-- Bounds the pages of a loop. It need not be the number of rows there are: a loop over a medium
  that never gives a short page goes on until it has used the bound up. -/
  size : μ → Nat

def deviceMedium : RowMedium Device where
  get := Device.get
  scan := Device.scan
  write := Device.write
  close := Device.close
  size d := d.rows.size

namespace RowMedium
open Durable
variable {μ : Type}

def decoded {α : Type} : Except RowDefect α → Access μ α
  | .ok a => pure a
  | .error defect => Access.fail (.storage (.corrupt defect))

def successor (n : Nat) : Access μ Nat :=
  if n + 1 < Layout.wordBound then pure (n + 1) else Access.fail (.storage .counterFull)

variable (raw : RowMedium μ)

def readCounter (key : Bytes) : Access μ Nat := do
  match ← raw.get key with
  | none => return 0
  | some value => decoded (Layout.readCell value)

def readVersion : Access μ Version := raw.readCounter Layout.versionKey

def openStore (config : Config) : Access μ Config := do
  let _ ← raw.readVersion
  return config.withPageSize config.pageSize

def scanPages (pageSize : Nat) (upper : Cut Bytes) :
    (fuel : Nat) → (lower : Cut Bytes) → Access μ (List Row)
  | 0, _ => pure []
  | fuel + 1, lower => do
    let rows ← raw.scan lower upper .forward pageSize
    if rows.length < pageSize then return rows
    let lower := rows.getLast?.elim lower fun (last, _) => .excluded last
    return rows ++ (← scanPages pageSize upper fuel lower)

def scanAll (config : Config) (ends : Cut Bytes × Cut Bytes) : Access μ (List Row) := do
  raw.scanPages config.pageSize ends.2 (raw.size (← Access.medium) + 1) ends.1

def begin (config : Config) (now : Nat) : Access μ (Registration × Snapshot) := do
  let version ← raw.readVersion
  let txnId ← successor (← raw.readCounter Layout.txnIdKey)
  let registration : Registration := ⟨version, txnId⟩
  raw.write [.put Layout.txnIdKey (Layout.cell txnId),
    .put (Layout.ledgerKey registration) (Layout.cell now)]
  return (registration, ⟨version, config.pageSize⟩)

def heartbeat (now : Nat) (r : Registration) : Access μ Unit := do
  if (← raw.get (Layout.ledgerKey r)).isSome then
    raw.write [.put (Layout.ledgerKey r) (Layout.cell now)]

def commit (config : Config) (r : Registration) (reads : ReadFootprint) (writes : WriteSet) :
    Access μ Version := do
  let current ← raw.readVersion
  if (← raw.get (Layout.ledgerKey r)).isNone then
    Access.fail (.conflict r.readVersion current [])
  let rows ← raw.scanAll config (Layout.logRange r.readVersion none)
  let log ← decoded (rows.mapM readLogRow)
  Access.ofExcept (reads.validate r.readVersion log)
  let version ← successor current
  raw.write (commitBatch version writes)
  return version

def prune (config : Config) (now : Nat) (version : Version) : Access μ Unit := do
  let rows ← raw.scanAll config Layout.ledgerRange
  let ledger ← decoded (rows.mapM readLedgerRow)
  let expired := ledger.filter (·.expired config now)
  let kept := ledger.filter (!·.expired config now)
  let horizon := (kept.head?.map (·.registration.readVersion)).getD version
  let obsolete ← if 0 < horizon then raw.scanAll config (Layout.logRange 0 (some horizon))
    else pure []
  let batch := (expired.map (·.raw) ++ obsolete.map (·.1)).map RawWrite.delete
  if !batch.isEmpty then raw.write batch

def finish (config : Config) (now : Nat) (r : Registration) : Access μ Unit := do
  raw.write [.delete (Layout.ledgerKey r)]
  raw.prune config now (← raw.readVersion)

def stats (config : Config) : Access μ Stats := do
  let version ← raw.readVersion
  let log ← raw.scanAll config (Layout.logRange 0 none)
  let versions ← decoded (log.mapM fun row => Layout.readLogVersion row.1)
  let ledger ← raw.scanAll config Layout.ledgerRange
  return ⟨version, versions.eraseReps.length, ledger.length⟩

/-! ### Snapshots and cursors -/

def record? (s : Snapshot) (key : Bytes) : Access μ (Option (Record Bytes)) := do
  let rows ← raw.scan (.included (Layout.seekKey key s.version))
    (.included (Layout.dataKeyEnd key)) .forward 1
  match rows.head? with
  | none => return none
  | some row => return some (← decoded (Layout.readDataRow row)).2

def getAt (s : Snapshot) (key : Bytes) : Access μ (Option Bytes) := do
  return (← raw.record? s key).bind Record.value?

def nextPage (c : Cursor) : Access μ Cursor := do
  let rows ← raw.scan c.lower c.upper c.direction c.pageSize
  let c := if rows.length < c.pageSize then { c with exhausted := true } else c
  let c := rows.getLast?.elim c fun (last, _) => c.advance last
  let records ← decoded (rows.mapM Layout.readDataRow)
  let (settled, c) := c.acceptAll records
  let (released, c) := c.release
  return { c with ready := c.ready ++ settled ++ released }

def pull (gate : Option Error) : (fuel : Nat) → Cursor → μ → Option Item × Option Cursor × μ
  | 0, _, m => (none, none, m)
  | fuel + 1, c, m =>
    match gate, c.ready with
    | some e, _ => (some (.error e), none, m)
    | none, row :: ready => (some (.ok row), some { c with ready }, m)
    | none, [] =>
      if c.exhausted then (none, none, m)
      else match raw.nextPage c m with
        | (.error e, m) => (some (.error e), none, m)
        | (.ok c, m) => pull gate fuel c m

def poll (gate : Option Error) (c : Option Cursor) (m : μ) : Option Item × Option Cursor × μ :=
  match c with
  | none => (none, none, m)
  | some c => raw.pull gate (raw.size m + 2) c m

def backend (config : Config) : Backend μ Snapshot (Option Cursor) where
  begin := raw.begin config
  heartbeat := raw.heartbeat
  commit := raw.commit config
  finish := raw.finish config
  abandon _ m := m
  stats := raw.stats config
  close := raw.close
  snapshotVersion := Snapshot.version
  get := raw.getAt
  query s c := some (.ofSnapshot s c)
  poll := raw.poll
  itemBound c m := c.elim 0 fun c => c.ready.length + raw.size m + 1
  inspect _ := Durable.inspect config
  inspectSnapshot := Snapshot.inspect

/-! ### Over a device -/

theorem openStore_deviceMedium (config : Config) :
    deviceMedium.openStore config = Durable.openStore config := rfl

theorem scanPages_deviceMedium (pageSize : Nat) (upper : Cut Bytes) (fuel : Nat)
    (lower : Cut Bytes) : deviceMedium.scanPages pageSize upper fuel lower =
      Durable.scanPages pageSize upper fuel lower := by
  induction fuel generalizing lower with
  | zero => rfl
  | succ fuel ih =>
    simp only [scanPages, Durable.scanPages, ih]
    rfl

theorem scanAll_deviceMedium (config : Config) (ends : Cut Bytes × Cut Bytes) :
    deviceMedium.scanAll config ends = Durable.scanAll config ends := by
  simp only [scanAll, Durable.scanAll, scanPages_deviceMedium]
  rfl

theorem commit_deviceMedium (config : Config) (r : Registration) (reads : ReadFootprint)
    (writes : WriteSet) :
    deviceMedium.commit config r reads writes = Durable.commit config r reads writes := by
  simp only [commit, Durable.commit, scanAll_deviceMedium]
  rfl

theorem finish_deviceMedium (config : Config) (now : Nat) (r : Registration) :
    deviceMedium.finish config now r = Durable.finish config now r := by
  simp only [finish, Durable.finish, prune, Durable.prune, scanAll_deviceMedium]
  rfl

theorem stats_deviceMedium (config : Config) :
    deviceMedium.stats config = Durable.stats config := by
  simp only [stats, Durable.stats, scanAll_deviceMedium]
  rfl

theorem nextPage_deviceMedium (c : Cursor) : deviceMedium.nextPage c = c.nextPage := rfl

theorem pull_deviceMedium (gate : Option Error) (fuel : Nat) (c : Cursor) (d : Device) :
    deviceMedium.pull gate fuel c d = c.pull gate fuel d := by
  induction fuel generalizing c d with
  | zero => rfl
  | succ fuel ih =>
    unfold pull Cursor.pull
    rw [nextPage_deviceMedium]
    cases gate with
    | some e => rfl
    | none =>
      cases c.ready with
      | cons row ready => rfl
      | nil => rcases c.nextPage d with ⟨_ | _, _⟩ <;> simp only [ih]

theorem poll_deviceMedium (gate : Option Error) (c : Option Cursor) (d : Device) :
    deviceMedium.poll gate c d = Cursor.poll gate c d := by
  cases c with
  | none => rfl
  | some c => exact pull_deviceMedium gate _ c d

theorem backend_deviceMedium (config : Config) :
    deviceMedium.backend config = Durable.backend config := by
  rw [backend, Durable.backend, stats_deviceMedium]
  congr 1
  · funext r reads writes
    exact commit_deviceMedium config r reads writes
  · funext now r
    exact finish_deviceMedium config now r
  · funext gate c d
    exact poll_deviceMedium gate c d

end RowMedium
end OptimisticStore
