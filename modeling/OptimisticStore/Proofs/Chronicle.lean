import OptimisticStore.Engine.Step
import OptimisticStore.Proofs.Replay

/-! What can be told of a run of the engine from outside, by its events and their answers alone:
which attempts there were, what each was given, and how it ended. Attempts whose writes were
committed stand in the order of their commits. All others read and left nothing behind, whether
they were views, committed without writes, failed, were dropped, or ended in a conflict. -/

namespace OptimisticStore

structure Story where
  /-- The version that its registration told. -/
  readVersion : Nat
  /-- How many attempts had committed writes before it began. -/
  began : Nat
  liveness : Liveness String
  calls : List Call := []

namespace Story

def note (s : Story) (call : Call) : Story := { s with calls := s.calls ++ [call] }

def staged (s : Story) : WriteSet := stagedBy s.calls

/-- Alone on the state it is given the same for each of its calls. -/
def Replays (s : Story) (state : OrderedMap Bytes Bytes) : Prop :=
  (replay state s.calls).isSome = true

end Story

structure Chronicle where
  /-- The attempts that are running, by the names of their sessions. -/
  running : Names Story := fun _ => none
  /-- The session of each stream. -/
  owner : Names String := fun _ => none
  writers : List Story := []
  others : List Story := []
  closed : Bool := false
  cancelled : List String := []

namespace Chronicle

def history (c : Chronicle) : History := c.writers.map Story.staged

def isOpen (c : Chronicle) (l : Liveness String) : Bool := !c.closed && l.isAlive c.cancelled

def setRunning (c : Chronicle) (name : String) (s : Story) : Chronicle :=
  { c with running := c.running.set name s }

def note (c : Chronicle) (name : String) (call : Call) : Chronicle :=
  match c.running name with
  | some s => c.setRunning name (s.note call)
  | none => c

def forget (c : Chronicle) (name : String) : Chronicle :=
  { c with
    running := c.running.set name none
    owner := fun stream => (c.owner stream).filter (· != name) }

def addOther (c : Chronicle) (s : Story) : Chronicle := { c with others := c.others ++ [s] }

def addWriter (c : Chronicle) (s : Story) : Chronicle := { c with writers := c.writers ++ [s] }

def place (c : Chronicle) (s : Story) : Chronicle :=
  if s.staged.isEmpty then c.addOther s else c.addWriter s

def leave (c : Chronicle) (name : String) : Chronicle :=
  match c.running name with
  | some s => (c.forget name).addOther s
  | none => c

theorem writers_leave (c : Chronicle) (name : String) : (c.leave name).writers = c.writers := by
  rw [leave]
  cases c.running name <;> rfl

def conclude (c : Chronicle) (name : String) : Chronicle :=
  match c.running name with
  | some s => (c.forget name).place s
  | none => c

def enter (c : Chronicle) (name : String) (l : Liveness String) (readVersion : Nat) : Chronicle :=
  (c.leave name).setRunning name ⟨readVersion, c.writers.length, l, []⟩

def restart (c : Chronicle) (name : String) (readVersion : Nat) : Chronicle :=
  match c.running name with
  | some s => c.enter name s.liveness readVersion
  | none => c

def own (c : Chronicle) (stream : String) (name : Option String) : Chronicle :=
  { c with owner := c.owner.set stream name }

/-- A stream that gives nothing has ended. If its call may not go on, this tells nothing of the
rows that were left. -/
def polled (c : Chronicle) (stream : String) (item : Option Item) : Chronicle :=
  match c.owner stream with
  | none => c
  | some name =>
    match item with
    | some (.ok row) => c.note name (.poll stream (some row))
    | some (.error _) => c
    | none =>
      let open_call := (c.running name).any fun s => c.isOpen s.liveness
      (if open_call then c.note name (.poll stream none) else c).own stream none

/-- A whole attempt in one event, begun after all commits so far. -/
def alone (c : Chronicle) (l : Liveness String) (calls : List Call) : Story :=
  ⟨c.writers.length, c.writers.length, l, calls⟩

def observe (c : Chronicle) : Event → Answer → Chronicle
  | .transact name l, .begun _ r => c.enter name l r.readVersion
  | .snapshot name l, .viewing v => c.enter name l v
  | .get name key, .value (.ok value) => c.note name (.get key value)
  | .getMany name keys, .values (.ok values) => c.note name (.getMany keys values)
  | .stage name write, .staged (.ok _) => c.note name (.stage write)
  | .query name condition, .rows (.ok rows) => c.note name (.query condition rows)
  | .scan name condition limit, .rows (.ok rows) => c.note name (.scan condition limit rows)
  | .openStream name condition stream, .opened (.ok ()) =>
    (c.note name (.openStream condition stream)).own stream name
  | .poll stream, .item item => c.polled stream item
  | .succeed name, .done (.ok ()) => c.conclude name
  | .succeed name, .begun _ r => c.restart name r.readVersion
  | .succeed name, .done (.error _) | .fail name _, .done _ | .drop name, .dropped _ =>
    c.leave name
  | .cancel flag, .accepted => { c with cancelled := flag :: c.cancelled }
  | .run l writes, .done (.ok ()) => c.place (c.alone l (writes.map .stage))
  | .read (.ok condition), .rows (.ok rows) => c.place (c.alone .always [.query condition rows])
  | .close _, .closed _ => { c with closed := true }
  | _, _ => c

def watch (c : Chronicle) (seen : List ((Clock × Event) × Answer)) : Chronicle :=
  seen.foldl (fun c one => c.observe one.1.2 one.2) c

/-- Every attempt that committed writes replays on the state that the commits before it made, and
it comes after all commits that it began after. -/
def WritersInOrder (c : Chronicle) : Prop :=
  ∀ (n : Nat) (s : Story), c.writers[n]? = some s →
    s.readVersion = s.began ∧ s.began ≤ n ∧ s.Replays (c.history.state n)

/-- The same, as far as the commits between the read version of an attempt and its own are of
this kind. -/
def WritersInOrderIf (c : Chronicle) (fits : WriteSet → Prop) : Prop :=
  ∀ (n : Nat) (s : Story), c.writers[n]? = some s → s.readVersion = s.began ∧ s.began ≤ n ∧
    ((∀ w ∈ (c.history.take n).drop s.readVersion, fits w) → s.Replays (c.history.state n))

theorem WritersInOrderIf.writersInOrder {c : Chronicle} {fits : WriteSet → Prop}
    (inOrder : c.WritersInOrderIf fits) (all : ∀ w ∈ c.history, fits w) : c.WritersInOrder := by
  intro n s place
  obtain ⟨began, bound, replays⟩ := inOrder n s place
  exact ⟨began, bound, replays fun w mem => all w (List.mem_of_mem_take (List.mem_of_mem_drop mem))⟩

/-- The attempt replays at its read version: after the commits that it began after and before
all others. -/
def InOrder (c : Chronicle) (s : Story) : Prop :=
  s.readVersion = s.began ∧ s.began ≤ c.writers.length ∧ s.Replays (c.history.state s.readVersion)

def OthersInOrder (c : Chronicle) : Prop :=
  (∀ s ∈ c.others, c.InOrder s) ∧ ∀ name s, c.running name = some s → c.InOrder s

end Chronicle

namespace Engine
variable {μ σ κ : Type}

def chronicle (g : Engine μ σ κ) (events : List (Clock × Event)) :
    Chronicle :=
  Chronicle.watch {} (events.zip (g.run events).1)

theorem length_run (g : Engine μ σ κ) (events : List (Clock × Event)) :
    (g.run events).1.length = events.length := by
  induction events generalizing g with
  | nil => rfl
  | cons one events ih =>
    obtain ⟨clock, e⟩ := one
    exact congrArg (· + 1) (ih (g.step clock e).2)

theorem run_append (g : Engine μ σ κ) (events more : List (Clock × Event)) :
    g.run (events ++ more) =
      ((g.run events).1 ++ ((g.run events).2.run more).1, ((g.run events).2.run more).2) := by
  induction events generalizing g with
  | nil => rfl
  | cons one events ih =>
    obtain ⟨clock, e⟩ := one
    have rest := ih (g.step clock e).2
    simp only [List.cons_append, run, rest]

theorem chronicle_append (g : Engine μ σ κ) (events more : List (Clock × Event)) :
    g.chronicle (events ++ more) =
      (g.chronicle events).watch (more.zip ((g.run events).2.run more).1) := by
  rw [chronicle, run_append, List.zip_append (g.length_run events).symm, Chronicle.watch,
    List.foldl_append]
  rfl

end Engine

end OptimisticStore
