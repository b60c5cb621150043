import OptimisticStore.Proofs.Streaming

/-! Runs of which some sessions are left out, with every step of theirs. What a step belongs to is
told by the name that it goes to: the session or the stream that has the name at that time. The
sessions that are left out commit no write; they may read, stage, conflict, fail or be dropped. -/

namespace OptimisticStore

/-- A step of a run. Those that are left out are hidden. -/
structure Step where
  hidden : Bool
  clock : Clock
  event : Event

def Step.call (s : Step) : Clock × Event := (s.clock, s.event)

/-- Whose names are whose: the sessions and the streams that are left out. -/
structure Cast where
  sessions : String → Bool := fun _ => false
  streams : String → Bool := fun _ => false

namespace Cast

def withSession (cast : Cast) (name : String) (hidden : Bool) : Cast :=
  { cast with sessions := fun other => if other = name then hidden else cast.sessions other }

def withStream (cast : Cast) (stream : String) (hidden : Bool) : Cast :=
  { cast with streams := fun other => if other = stream then hidden else cast.streams other }

theorem withSession_same {cast : Cast} {name : String} {hidden : Bool}
    (same : cast.sessions name = hidden) : cast.withSession name hidden = cast := by
  have kept : (fun other => if other = name then hidden else cast.sessions other) =
      cast.sessions := by
    funext other
    split
    · next here => rw [here, same]
    · rfl
  rw [withSession, kept]

theorem withStream_same {cast : Cast} {stream : String} {hidden : Bool}
    (same : cast.streams stream = hidden) : cast.withStream stream hidden = cast := by
  have kept : (fun other => if other = stream then hidden else cast.streams other) =
      cast.streams := by
    funext other
    split
    · next here => rw [here, same]
    · rfl
  rw [withStream, kept]

def observe (cast : Cast) (hidden : Bool) : Event → Answer → Cast
  | .transact name _, .begun _ _ | .snapshot name _, .viewing _ => cast.withSession name hidden
  | .openStream _ _ stream, .opened (.ok ()) => cast.withStream stream hidden
  | _, _ => cast

/-- The step is as hidden as the session or the stream that it goes to, and what is hidden takes
no name over from what is not. What is said to all is not hidden. -/
def allows {μ σ κ : Type} (cast : Cast) (g : Engine μ σ κ) (hidden : Bool) : Event → Bool
  | .transact name _ | .snapshot name _ =>
    !hidden || cast.sessions name || (g.session? name).isNone
  | .get name _ | .getMany name _ | .stage name _ | .query name _ | .scan name _ _ | .succeed name
  | .fail name _ | .drop name => cast.sessions name == hidden
  | .openStream name _ stream =>
    cast.sessions name == hidden && (!hidden || cast.streams stream || (g.stream? stream).isNone)
  | .poll stream => cast.streams stream == hidden
  | .run _ _ | .read _ => true
  | .cancel _ | .stats | .close _ => !hidden

end Cast

/-- The answer without the numbers that depend on who else is registered. -/
def Answer.told : Answer → Answer
  | .begun retries r => .begun retries { r with txnId := 0 }
  | .stats (.ok counts) => .stats (.ok { version := counts.version })
  | answer => answer

namespace Engine
variable {μ σ κ : Type}

def commits (g : Engine μ σ κ) : Event → Answer → Bool
  | .succeed name, .done (.ok ()) =>
    match g.session? name with
    | some (.transaction t) => !t.writes.isEmpty
    | _ => false
  | .run _ writes, .done (.ok ()) => !writes.isEmpty
  | _, _ => false

/-- The hidden steps are all steps of some sessions, and none of these sessions commits a write. -/
def erasable (g : Engine μ σ κ) (cast : Cast) : List Step → Bool
  | [] => true
  | s :: steps =>
    let (answer, after) := g.step s.clock s.event
    cast.allows g s.hidden s.event && !(s.hidden && g.commits s.event answer) &&
      after.erasable (cast.observe s.hidden s.event answer) steps

def heard (g : Engine μ σ κ) (steps : List Step) : List Answer :=
  ((steps.zip (g.run (steps.map Step.call)).1).filter (!·.1.hidden)).map (·.2.told)

theorem heard_cons (g : Engine μ σ κ) (s : Step) (steps : List Step) :
    g.heard (s :: steps) =
      (if s.hidden then [] else [(g.step s.clock s.event).1.told]) ++
        (g.step s.clock s.event).2.heard steps := by
  cases hidden : s.hidden <;> simp [heard, run, Step.call, hidden]

end Engine
end OptimisticStore
