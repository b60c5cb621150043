import OptimisticStore.Engine.Session

/-! The engine runs sessions over one backend. A transaction's body works on its own attempt;
only validation and commit touch the shared state. A conflict starts the body again from an
empty attempt at a later version, as often as the configuration allows; every other failure
ends the call. Sessions and streams go by names that the caller chooses. -/

namespace OptimisticStore

structure Engine (μ σ κ : Type) where
  backend : Backend μ σ κ
  config : Config
  medium : μ
  /-- Why the engine was closed; the first reason stays. -/
  closed : Option String := none
  /-- Flags that have been cancelled. -/
  cancelled : List String := []
  sessions : List (String × Session σ) := []
  streams : List (String × Stream κ) := []
  /-- Attempts so far. -/
  attempts : Nat := 0

/-- How a body fails: with an error of the store or with one of its own. -/
inductive BodyError where
  | store (e : Error)
  | user (text : String)

namespace Engine
variable {μ σ κ : Type}

def session? (g : Engine μ σ κ) (name : String) : Option (Session σ) := g.sessions.lookup name

def setSession (g : Engine μ σ κ) (name : String) (s : Session σ) : Engine μ σ κ :=
  { g with sessions := (name, s) :: g.sessions.filter (·.1 != name) }

def dropSession (g : Engine μ σ κ) (name : String) : Engine μ σ κ :=
  { g with sessions := g.sessions.filter (·.1 != name) }

def setStream (g : Engine μ σ κ) (name : String) (s : Stream κ) : Engine μ σ κ :=
  { g with streams := (name, s) :: g.streams.filter (·.1 != name) }

def dropStream (g : Engine μ σ κ) (name : String) : Engine μ σ κ :=
  { g with streams := g.streams.filter (·.1 != name) }

/-- An attempt lasts as long as its session. -/
def isRunning (g : Engine μ σ κ) (serial : Nat) : Bool :=
  g.sessions.any fun (_, s) => s.attempt.serial == serial

def flagError (g : Engine μ σ κ) (l : Liveness String) : Option Error :=
  if l.isAlive g.cancelled then none else some .cancelled

def moment (g : Engine μ σ κ) (clock : Clock) (l : Liveness String) : Moment :=
  { closed := g.closed, stopped := g.flagError l, clock,
    heartbeatInterval := g.config.heartbeatInterval }

/-- A closed engine counts before an ended attempt, and that before a cancelled flag. -/
def streamGate (g : Engine μ σ κ) (s : Stream κ) : Option Error :=
  (g.closed.map Error.closed).or <|
    if g.isRunning s.serial then g.flagError s.liveness else some .attemptEnded

def onMedium {α : Type} (x : Access μ α) : Access (Engine μ σ κ) α := fun g =>
  match x g.medium with
  | (r, m) => (r, { g with medium := m })

def checkAlive (l : Liveness String) : Access (Engine μ σ κ) Unit := fun g =>
  Access.pass ((g.closed.map Error.closed).or (g.flagError l)) g

def beginAttempt (clock : Clock) (l : Liveness String) : Access (Engine μ σ κ) (Attempt σ) := do
  checkAlive l
  let g ← Access.medium
  let (registration, snapshot) ← onMedium (g.backend.begin clock.wall)
  Access.modify fun g => { g with attempts := g.attempts + 1 }
  return ⟨g.attempts, registration, snapshot, l⟩

def beginTransaction (clock : Clock) (l : Liveness String) (retries : Nat) :
    Access (Engine μ σ κ) (Transaction σ) := do
  return { toAttempt := ← beginAttempt clock l, retries, lastHeartbeat := clock.steady }

/-- Ends a registration. Its outcome is decided by now, so a failure only delays pruning. -/
def endAttempt (clock : Clock) (a : Attempt σ) (g : Engine μ σ κ) : Engine μ σ κ :=
  (onMedium (g.backend.finish clock.wall a.registration) g).2

/-- Without writes there is nothing to validate: the attempt stands at the version it read. -/
def commit (t : Transaction σ) : Access (Engine μ σ κ) Version := do
  checkAlive t.liveness
  if t.writes.isEmpty then return t.registration.readVersion
  let g ← Access.medium
  onMedium (g.backend.commit t.registration t.reads t.writes)

def conclude (clock : Clock) (t : Transaction σ) : Access (Engine μ σ κ) Version := fun g =>
  match commit t g with
  | (r, g) => (r, endAttempt clock t.toAttempt g)

def mayRetry (g : Engine μ σ κ) (t : Transaction σ) (e : Error) : Bool :=
  e.isRetryable && t.retries < g.config.maxRetries

/-- The body has succeeded: its result counts, or it has to be run again on a new attempt. -/
def succeed (clock : Clock) (t : Transaction σ) :
    Access (Engine μ σ κ) (Option (Transaction σ)) := fun g =>
  match conclude clock t g with
  | (.ok _, g) => (.ok none, g)
  | (.error e, g) =>
    if g.mayRetry t e then
      (do return some (← beginTransaction clock t.liveness (t.retries + 1))) g
    else (.error e, g)

/-- Runs an operation of a transaction and keeps what it did, whether it fails or not. -/
def within {α : Type} (name : String) (clock : Clock) (t : Transaction σ)
    (x : Backend μ σ κ → Moment → Access (Transaction σ × μ) α) : Access (Engine μ σ κ) α :=
  fun g =>
    match x g.backend (g.moment clock t.liveness) (t, g.medium) with
    | (r, t, m) => (r, { g with medium := m }.setSession name (.transaction t))

def stageAll (now : Moment) (writes : List (Bytes × Option Bytes)) :
    Access (Transaction σ × μ) Unit :=
  writes.forM (Transaction.stage now)

/-- A whole transaction that only stages the given writes. `left` bounds its retries. -/
def transactAlone (clock : Clock) (l : Liveness String) (writes : List (Bytes × Option Bytes)) :
    (left retries : Nat) → Access (Engine μ σ κ) Unit
  | left, retries => do
    let t ← beginTransaction clock l retries
    let g ← Access.medium
    match stageAll (μ := μ) (g.moment clock l) writes (t, g.medium) with
    | (.error e, _) =>
      Access.modify (endAttempt clock t.toAttempt)
      Access.fail e
    | (.ok (), t, _) =>
      match ← (conclude clock t).outcome with
      | .ok _ => return
      | .error e =>
        match left with
        | 0 => Access.fail e
        | left + 1 =>
          if g.mayRetry t e then transactAlone clock l writes left (retries + 1)
          else Access.fail e

/-- A whole view that reads one condition. The outer result tells whether it could begin. -/
def readAlone (clock : Clock) (c : Except Error Condition) :
    Access (Engine μ σ κ) (Except Error (List (Bytes × Bytes))) := do
  let a ← beginAttempt clock .always
  let g ← Access.medium
  let now := g.moment clock a.liveness
  let rows ← (do
    let c ← Access.ofExcept c
    let feed ← onMedium (a.query g.backend now c)
    onMedium (feed.rows g.backend now.gate)).outcome
  Access.modify (endAttempt clock a)
  return rows

/-- Only the first close reaches the backend. -/
def close (reason : String) : Access (Engine μ σ κ) Unit := fun g =>
  match g.closed with
  | some _ => (.ok (), g)
  | none => onMedium g.backend.close { g with closed := some reason }

def stats : Access (Engine μ σ κ) Stats := fun g => onMedium g.backend.stats g

def inspect (g : Engine μ σ κ) : String :=
  Inspect.record "Mvcc"
    [("config", g.config.inspect),
      ("shared", Inspect.record "Shared"
        [("closed", Inspect.guarded (Inspect.optional (g.closed.map Inspect.quoted)))])]

end Engine
end OptimisticStore
