import OptimisticStore.Engine.Basic

/-! The engine as a machine. An event is one call, or one move of a session's body; it runs to
its end and is answered. Events of different sessions and streams may come in any order. -/

namespace OptimisticStore

inductive Event where
  | transact (session : String) (liveness : Liveness String)
  | snapshot (session : String) (liveness : Liveness String)
  | get (session : String) (key : Bytes)
  | getMany (session : String) (keys : List Bytes)
  | stage (session : String) (write : Bytes × Option Bytes)
  | query (session : String) (condition : Condition)
  | scan (session : String) (condition : Condition) (limit : Nat)
  | openStream (session : String) (condition : Condition) (stream : String)
  | poll (stream : String)
  /-- The body returns, and its call commits. -/
  | succeed (session : String)
  | fail (session : String) (cause : BodyError)
  /-- The call is dropped before its body is over. -/
  | drop (session : String)
  | cancel (flag : String)
  | run (liveness : Liveness String) (writes : List (Bytes × Option Bytes))
  | read (condition : Except Error Condition)
  | stats
  | close (reason : String)

inductive Answer where
  /-- The body of a transaction starts, for the first time or again. -/
  | begun (retries : Nat) (registration : Registration)
  | viewing (version : Version)
  /-- The call is over. -/
  | done (result : Except BodyError Unit)
  | value (result : Except Error (Option Bytes))
  | values (result : Except Error (List (Option Bytes)))
  | rows (result : Except Error (List (Bytes × Bytes)))
  /-- How many keys are staged. -/
  | staged (result : Except Error Nat)
  | opened (result : Except Error Unit)
  | item (item : Option Item)
  | dropped (existed : Bool)
  | stats (result : Except Error Stats)
  | closed (result : Except Error Unit)
  | accepted
  /-- No session or stream of this name, or none that could take the event. -/
  | refused

namespace Engine
variable {μ σ κ : Type}

def ended (e : Error) : Answer := .done (.error (.store e))

/-- The name of a session is taken over; a session that had it is given up. -/
def enter (g : Engine μ σ κ) (name : String) (s : Session σ) : Engine μ σ κ :=
  let g := match g.session? name with
    | some old => { g with medium := g.backend.abandon old.attempt.registration g.medium }
    | none => g
  g.setSession name s

def stepTransact (clock : Clock) (name : String) (l : Liveness String) (g : Engine μ σ κ) :
    Answer × Engine μ σ κ :=
  match beginTransaction clock l 0 g with
  | (.ok t, g) => (.begun 0 t.registration, g.enter name (.transaction t))
  | (.error e, g) => (ended e, g)

def stepSnapshot (clock : Clock) (name : String) (l : Liveness String) (g : Engine μ σ κ) :
    Answer × Engine μ σ κ :=
  match beginAttempt clock l g with
  | (.ok a, g) => (.viewing a.registration.readVersion, g.enter name (.view a))
  | (.error e, g) => (ended e, g)

def stepRead {α : Type} (clock : Clock) (name : String) (answer : Except Error α → Answer)
    (inTransaction : Backend μ σ κ → Moment → Access (Transaction σ × μ) α)
    (inView : Backend μ σ κ → Moment → Attempt σ → Access μ α) (g : Engine μ σ κ) :
    Answer × Engine μ σ κ :=
  match g.session? name with
  | none => (.refused, g)
  | some (.transaction t) =>
    match within name clock t inTransaction g with
    | (r, g) => (answer r, g)
  | some (.view a) =>
    match onMedium (inView g.backend (g.moment clock a.liveness) a) g with
    | (r, g) => (answer r, g)

def stepTransaction {α : Type} (clock : Clock) (name : String) (answer : Except Error α → Answer)
    (x : Backend μ σ κ → Moment → Access (Transaction σ × μ) α) (g : Engine μ σ κ) :
    Answer × Engine μ σ κ :=
  match g.session? name with
  | some (.transaction t) =>
    match within name clock t x g with
    | (r, g) => (answer r, g)
  | _ => (.refused, g)

def stepOpen (clock : Clock) (name : String) (c : Condition) (stream : String)
    (g : Engine μ σ κ) : Answer × Engine μ σ κ :=
  match g.session? name with
  | none => (.refused, g)
  | some s =>
    let (r, g) : Except Error (Feed κ) × Engine μ σ κ := match s with
      | .transaction t => within name clock t (fun b now => Transaction.query b now c) g
      | .view a => onMedium (a.query g.backend (g.moment clock a.liveness) c) g
    match r with
    | .ok feed =>
      (.opened (.ok ()), g.setStream stream ⟨s.attempt.serial, s.attempt.liveness, feed⟩)
    | .error e => (.opened (.error e), g)

/-- A stream that gives nothing is at its end and is forgotten. -/
def stepPoll (name : String) (g : Engine μ σ κ) : Answer × Engine μ σ κ :=
  match g.streams.lookup name with
  | none => (.refused, g)
  | some s =>
    let (item, feed, m) := s.feed.poll g.backend (g.streamGate s) g.medium
    let g := { g with medium := m }
    (.item item, if item.isNone then g.dropStream name else g.setStream name { s with feed })

def stepSucceed (clock : Clock) (name : String) (g : Engine μ σ κ) : Answer × Engine μ σ κ :=
  match g.session? name with
  | none => (.refused, g)
  | some (.view a) => (.done (.ok ()), endAttempt clock a (g.dropSession name))
  | some (.transaction t) =>
    match succeed clock t (g.dropSession name) with
    | (.ok none, g) => (.done (.ok ()), g)
    | (.ok (some t), g) => (.begun t.retries t.registration, g.setSession name (.transaction t))
    | (.error e, g) => (ended e, g)

def stepFail (clock : Clock) (name : String) (cause : BodyError) (g : Engine μ σ κ) :
    Answer × Engine μ σ κ :=
  match g.session? name with
  | none => (.refused, g)
  | some s => (.done (.error cause), endAttempt clock s.attempt (g.dropSession name))

def stepDrop (name : String) (g : Engine μ σ κ) : Answer × Engine μ σ κ :=
  match g.session? name with
  | none => (.dropped false, g)
  | some s =>
    (.dropped true,
      { g.dropSession name with
        medium := g.backend.abandon s.attempt.registration g.medium })

def stageAndCount (now : Moment) (write : Bytes × Option Bytes) :
    Access (Transaction σ × μ) Nat := do
  Transaction.stage now write
  return (← Transaction.current).writes.size

def queryRows (b : Backend μ σ κ) (now : Moment) (c : Condition) :
    Access (Transaction σ × μ) (List (Bytes × Bytes)) := do
  let feed ← Transaction.query b now c
  Access.onSecond (feed.rows b now.gate)

def viewRows (b : Backend μ σ κ) (now : Moment) (a : Attempt σ) (c : Condition) :
    Access μ (List (Bytes × Bytes)) := do
  (← a.query b now c).rows b now.gate

def step (clock : Clock) (e : Event) (g : Engine μ σ κ) : Answer × Engine μ σ κ :=
  match e with
  | .transact name l => stepTransact clock name l g
  | .snapshot name l => stepSnapshot clock name l g
  | .get name key =>
    stepRead clock name .value (fun b now => Transaction.get b now key)
      (fun b now a => a.get b now key) g
  | .getMany name keys =>
    stepTransaction clock name .values (fun b now => Transaction.getMany b now keys) g
  | .stage name write =>
    stepTransaction clock name .staged (fun _ now => stageAndCount now write) g
  | .query name c =>
    stepRead clock name .rows (fun b now => queryRows b now c) (fun b now a => viewRows b now a c) g
  | .scan name c limit =>
    stepRead clock name .rows (fun b now => Transaction.scan b now c limit)
      (fun b now a => a.scan b now c limit) g
  | .openStream name c stream => stepOpen clock name c stream g
  | .poll stream => stepPoll stream g
  | .succeed name => stepSucceed clock name g
  | .fail name cause => stepFail clock name cause g
  | .drop name => stepDrop name g
  | .cancel flag => (.accepted, { g with cancelled := flag :: g.cancelled })
  | .run l writes =>
    match transactAlone clock l writes g.config.maxRetries 0 g with
    | (.ok (), g) => (.done (.ok ()), g)
    | (.error e, g) => (ended e, g)
  | .read c =>
    match readAlone clock c g with
    | (.ok rows, g) => (.rows rows, g)
    | (.error e, g) => (ended e, g)
  | .stats =>
    match stats g with
    | (r, g) => (.stats r, g)
  | .close reason =>
    match close reason g with
    | (r, g) => (.closed r, g)

def run (g : Engine μ σ κ) : List (Clock × Event) → List Answer × Engine μ σ κ
  | [] => ([], g)
  | (clock, e) :: events =>
    let (answer, g) := g.step clock e
    let (answers, g) := g.run events
    (answer :: answers, g)

end Engine
end OptimisticStore
