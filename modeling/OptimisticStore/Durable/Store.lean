import OptimisticStore.Config
import OptimisticStore.Durable.Cursor

/-! The durable store. All of its state lies in raw rows, so a store that is opened later over
the same device goes on where the last one stopped. A registration has a ledger row with its
last heartbeat; a row that has not been renewed for longer than the time to live is reclaimed
by the next transaction that ends, and its transaction can no longer commit. -/

namespace OptimisticStore.Durable

def readCounter (key : Bytes) : Access Device Nat := do
  match ← Device.get key with
  | none => return 0
  | some value => decoded (Layout.readCell value)

def readVersion : Access Device Version := readCounter Layout.versionKey

/-- The number after the last word has no cell. A store adds one without this check, so what it does
there is left open; see `StorageError.counterFull`. -/
def successor (n : Nat) : Access Device Nat :=
  if n + 1 < Layout.wordBound then pure (n + 1) else Access.fail (.storage .counterFull)

/-- Reads the version once, so a device that cannot tell it is refused. -/
def openStore (config : Config) : Access Device Config := do
  let _ ← readVersion
  return config.withPageSize config.pageSize

/-- All rows between the ends, `pageSize` at a time. The fuel bounds the number of pages. -/
def scanPages (pageSize : Nat) (upper : Cut Bytes) :
    (fuel : Nat) → (lower : Cut Bytes) → Access Device (List Row)
  | 0, _ => pure []
  | fuel + 1, lower => do
    let rows ← Device.scan lower upper .forward pageSize
    if rows.length < pageSize then return rows
    let lower := rows.getLast?.elim lower fun (last, _) => .excluded last
    return rows ++ (← scanPages pageSize upper fuel lower)

def scanAll (config : Config) (ends : Cut Bytes × Cut Bytes) : Access Device (List Row) := do
  scanPages config.pageSize ends.2 ((← Access.medium).rows.size + 1) ends.1

def begin (config : Config) (now : Nat) : Access Device (Registration × Snapshot) := do
  let version ← readVersion
  let txnId ← successor (← readCounter Layout.txnIdKey)
  let registration : Registration := ⟨version, txnId⟩
  Device.write [.put Layout.txnIdKey (Layout.cell txnId),
    .put (Layout.ledgerKey registration) (Layout.cell now)]
  return (registration, ⟨version, config.pageSize⟩)

/-- A reclaimed registration is not brought back. -/
def heartbeat (now : Nat) (r : Registration) : Access Device Unit := do
  if (← Device.get (Layout.ledgerKey r)).isSome then
    Device.write [.put (Layout.ledgerKey r) (Layout.cell now)]

/-- The data row and the log row of one staged write. -/
def writeRows (version : Version) (write : (Bytes × Option Bytes) × Nat) : List RawWrite :=
  let ((key, value), place) := write
  [.put (Layout.dataKey key version value.isNone) (value.getD []),
    .put (Layout.logKey version place) key]

def commitBatch (version : Version) (writes : WriteSet) : List RawWrite :=
  writes.entries.zipIdx.flatMap (writeRows version) ++
    [.put Layout.versionKey (Layout.cell version)]

def readLogRow (row : Row) : Except RowDefect (Version × Bytes) := do
  return (← Layout.readLogVersion row.1, row.2)

/-- Without its ledger row a transaction cannot be validated, as the log may have been pruned
of what it missed; it counts as a conflict on no key. -/
def commit (config : Config) (r : Registration) (reads : ReadFootprint) (writes : WriteSet) :
    Access Device Version := do
  let current ← readVersion
  if (← Device.get (Layout.ledgerKey r)).isNone then
    Access.fail (.conflict r.readVersion current [])
  let rows ← scanAll config (Layout.logRange r.readVersion none)
  let log ← decoded (rows.mapM readLogRow)
  Access.ofExcept (reads.validate r.readVersion log)
  let version ← successor current
  Device.write (commitBatch version writes)
  return version

structure LedgerRow where
  raw : Bytes
  registration : Registration
  heartbeat : Nat

def readLedgerRow (row : Row) : Except RowDefect LedgerRow := do
  let registration ← Layout.readLedgerKey row.1
  let heartbeat ← Layout.readCell row.2
  return ⟨row.1, registration, heartbeat⟩

/-- The milliseconds of the time to live are taken as a word. -/
def LedgerRow.expired (config : Config) (now : Nat) (row : LedgerRow) : Bool :=
  config.runningTxnTtl.milliseconds % Layout.wordBound < now % Layout.wordBound - row.heartbeat

/-- Removes expired ledger rows and the log up to the least version still read. The ledger is
ordered by read version, so the first row that stays has the least. -/
def prune (config : Config) (now : Nat) (version : Version) : Access Device Unit := do
  let rows ← scanAll config Layout.ledgerRange
  let ledger ← decoded (rows.mapM readLedgerRow)
  let expired := ledger.filter (·.expired config now)
  let kept := ledger.filter (!·.expired config now)
  let horizon := (kept.head?.map (·.registration.readVersion)).getD version
  let obsolete ← if 0 < horizon then scanAll config (Layout.logRange 0 (some horizon)) else pure []
  let batch := (expired.map (·.raw) ++ obsolete.map (·.1)).map RawWrite.delete
  if !batch.isEmpty then Device.write batch

def finish (config : Config) (now : Nat) (r : Registration) : Access Device Unit := do
  Device.write [.delete (Layout.ledgerKey r)]
  prune config now (← readVersion)

def stats (config : Config) : Access Device Stats := do
  let version ← readVersion
  let log ← scanAll config (Layout.logRange 0 none)
  let versions ← decoded (log.mapM fun row => Layout.readLogVersion row.1)
  let ledger ← scanAll config Layout.ledgerRange
  return ⟨version, versions.eraseReps.length, ledger.length⟩

def inspect (config : Config) : String :=
  Inspect.record "PersistentStore" [("config", config.inspect)]

/-- An abandoned registration keeps its ledger row until it expires. -/
def backend (config : Config) : Backend Device Snapshot (Option Cursor) where
  begin := begin config
  heartbeat := heartbeat
  commit := commit config
  finish := finish config
  abandon _ d := d
  stats := stats config
  close := Device.close
  snapshotVersion := Snapshot.version
  get := Snapshot.get
  query s c := some (.ofSnapshot s c)
  poll := Cursor.poll
  itemBound c d := c.elim 0 fun c => c.ready.length + d.rows.size + 1
  inspect _ := inspect config
  inspectSnapshot := Snapshot.inspect

end OptimisticStore.Durable
