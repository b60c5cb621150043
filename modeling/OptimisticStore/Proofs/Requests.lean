import OptimisticStore.Durable.Store
import OptimisticStore.Proofs.History

/-! Clients of a store that talk to its backend directly, without an engine. A client serves one
request after the other, each to its end; the snapshots it has been handed out keep their
places, so that a later request can name any of them. Reopening gives the store a new backend
over the same medium, perhaps with another configuration. -/

namespace OptimisticStore

inductive Request where
  | begin (now : Nat)
  | heartbeat (now : Nat) (r : Registration)
  | commit (r : Registration) (reads : ReadFootprint) (writes : WriteSet)
  | finish (now : Nat) (r : Registration)
  | abandon (r : Registration)
  | stats
  | get (snapshot : Nat) (key : Bytes)
  /-- All rows that the condition selects. -/
  | query (snapshot : Nat) (condition : Condition)
  | reopen (config : Config)

inductive Reply where
  | begun (result : Except Error (Registration × Version))
  | committed (result : Except Error Version)
  | stats (result : Except Error (Version × Nat))
  | value (result : Except Error (Option Bytes))
  | rows (result : Except Error (List Row))
  | done (result : Except Error Unit)
  /-- No snapshot has been handed out at that place. -/
  | refused

structure Client (μ σ κ : Type) where
  backend : Backend μ σ κ
  /-- How the store is opened again. -/
  opener : Config → Access μ (Backend μ σ κ)
  medium : μ
  snapshots : List σ := []

/-- What a request wrote, if it was a commit and made a version. -/
def written : Request × Reply → Option WriteSet
  | (.commit _ _ w, .committed (.ok _)) => some w
  | _ => none

def commits (served : List (Request × Reply)) : History := served.filterMap written

theorem commits_cons (one : Request × Reply) (served : List (Request × Reply)) :
    commits (one :: served) = (written one).toList ++ commits served := by
  rw [commits, List.filterMap_cons]
  cases written one <;> rfl

namespace Client
variable {μ σ κ : Type}

def serveBy {α : Type} (c : Client μ σ κ) (reply : Except Error α → Reply) (x : Access μ α) :
    Reply × Client μ σ κ :=
  match x c.medium with
  | (r, m) => (reply r, { c with medium := m })

theorem serveBy_eq {α : Type} {b : Backend μ σ κ} {opener : Config → Access μ (Backend μ σ κ)}
    {m m' : μ} {snapshots : List σ} {x : Access μ α} {r : Except Error α} (ran : x m = (r, m'))
    (reply : Except Error α → Reply) :
    serveBy ⟨b, opener, m, snapshots⟩ reply x = (reply r, ⟨b, opener, m', snapshots⟩) := by
  rw [serveBy, ran]

def serve (c : Client μ σ κ) : Request → Reply × Client μ σ κ
  | .begin now =>
    match c.backend.begin now c.medium with
    | (.ok (r, s), m) =>
      (.begun (.ok (r, c.backend.snapshotVersion s)),
        { c with medium := m, snapshots := c.snapshots ++ [s] })
    | (.error e, m) => (.begun (.error e), { c with medium := m })
  | .heartbeat now r => c.serveBy .done (c.backend.heartbeat now r)
  | .commit r reads w => c.serveBy .committed (c.backend.commit r reads w)
  | .finish now r => c.serveBy .done (c.backend.finish now r)
  | .abandon r => (.done (.ok ()), { c with medium := c.backend.abandon r c.medium })
  | .stats => c.serveBy (fun r => .stats (r.map fun s => (s.version, s.running))) c.backend.stats
  | .get i key =>
    match c.snapshots[i]? with
    | none => (.refused, c)
    | some s => c.serveBy .value (c.backend.get s key)
  | .query i condition =>
    match c.snapshots[i]? with
    | none => (.refused, c)
    | some s => c.serveBy .rows (c.backend.rows none s condition)
  | .reopen config =>
    match c.opener config c.medium with
    | (.ok b, m) => (.done (.ok ()), { c with backend := b, medium := m })
    | (.error e, m) => (.done (.error e), { c with medium := m })

def run (c : Client μ σ κ) : List Request → List (Request × Reply) × Client μ σ κ
  | [] => ([], c)
  | q :: qs =>
    let (reply, c) := c.serve q
    let (served, c) := c.run qs
    ((q, reply) :: served, c)

def after (c : Client μ σ κ) (qs : List Request) : Client μ σ κ := (c.run qs).2

def history (c : Client μ σ κ) (qs : List Request) : History := commits (c.run qs).1

def commit (c : Client μ σ κ) (r : Registration) (reads : ReadFootprint) (w : WriteSet) :
    Except Error Version := (c.backend.commit r reads w c.medium).1

end Client

/-- A store in memory has nothing it could be opened over again: it stays as it is. -/
def Keyspace.client : Client Keyspace Keyspace.Snapshot (Walk Bytes Bytes) where
  backend := Keyspace.backend
  opener _ := pure Keyspace.backend
  medium := {}

def Durable.client (config : Config) : Client Device Durable.Snapshot (Option Durable.Cursor) where
  backend := Durable.backend (config.withPageSize config.pageSize)
  opener config := do return Durable.backend (← Durable.openStore config)
  medium := {}

end OptimisticStore
