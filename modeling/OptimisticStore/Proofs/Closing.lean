import OptimisticStore.Proofs.Unseen

/-! How an engine is closed, over any backend. Of all events only a close changes the reason, and
the first one stays. A closed engine or a cancelled flag stands as a barrier against the events
that need to pass it, and each of them is answered with the error that stands there. -/

namespace OptimisticStore

def Event.closing : Event → Option String
  | .close reason => some reason
  | _ => none

def firstClose (events : List (Clock × Event)) : Option String :=
  events.findSome? (·.2.closing)

namespace Engine
variable {μ σ κ α : Type}

/-! ### The reason -/

section Closed
variable (g : Engine μ σ κ) (clock : Clock)

theorem closed_beginAttempt (l : Liveness String) :
    (beginAttempt clock l g).2.closed = g.closed := by
  rw [beginAttempt_eq]
  split
  · rfl
  · split <;> rfl

theorem closed_enter (name : String) (s : Session σ) : (g.enter name s).closed = g.closed := by
  rw [enter]
  split <;> rfl

theorem closed_conclude (t : Transaction σ) : (conclude clock t g).2.closed = g.closed := by
  have committed : (commit t g).2.closed = g.closed := by
    rw [commit_eq]
    split
    · rfl
    · split <;> rfl
  exact committed

theorem closed_stepTransact (name : String) (l : Liveness String) :
    (g.stepTransact clock name l).2.closed = g.closed := by
  have begun := g.closed_beginAttempt clock l
  rw [stepTransact, beginTransaction_eq]
  rcases ran : beginAttempt clock l g with ⟨e | a, g'⟩ <;> rw [ran] at begun
  · exact begun
  · exact (g'.closed_enter name _).trans begun

theorem closed_stepSnapshot (name : String) (l : Liveness String) :
    (g.stepSnapshot clock name l).2.closed = g.closed := by
  have begun := g.closed_beginAttempt clock l
  rw [stepSnapshot]
  rcases ran : beginAttempt clock l g with ⟨e | a, g'⟩ <;> rw [ran] at begun
  · exact begun
  · exact (g'.closed_enter name _).trans begun

theorem closed_stepRead (name : String) (answer : Except Error α → Answer)
    (inTransaction : Backend μ σ κ → Moment → Access (Transaction σ × μ) α)
    (inView : Backend μ σ κ → Moment → Attempt σ → Access μ α) :
    (g.stepRead clock name answer inTransaction inView).2.closed = g.closed := by
  rw [stepRead]
  split <;> rfl

theorem closed_stepTransaction (name : String) (answer : Except Error α → Answer)
    (x : Backend μ σ κ → Moment → Access (Transaction σ × μ) α) :
    (g.stepTransaction clock name answer x).2.closed = g.closed := by
  rw [stepTransaction]
  split <;> rfl

theorem closed_stepOpen (name : String) (c : Condition) (stream : String) :
    (g.stepOpen clock name c stream).2.closed = g.closed := by
  cases found : g.session? name with
  | none => simp only [stepOpen, found]
  | some s =>
    cases s with
    | transaction t =>
      simp only [stepOpen, found, within_eq]
      split <;> rfl
    | view a =>
      simp only [stepOpen, found, onMedium_eq]
      split <;> rfl

theorem closed_stepPoll (stream : String) : (g.stepPoll stream).2.closed = g.closed := by
  cases found : g.stream? stream with
  | none =>
    have absent : g.streams.lookup stream = none := found
    simp only [stepPoll, absent]
  | some st => exact (polled_stepPoll found rfl).2.2.closed

theorem closed_stepSucceed (name : String) :
    (g.stepSucceed clock name).2.closed = g.closed := by
  cases found : g.session? name with
  | none => simp only [stepSucceed, found]
  | some s =>
    cases s with
    | view a =>
      simp only [stepSucceed, found]
      rfl
    | transaction t =>
      have concluded := (g.dropSession name).closed_conclude clock t
      simp only [stepSucceed, found, succeed]
      rcases ran : conclude clock t (g.dropSession name) with ⟨e | v, g'⟩ <;> rw [ran] at concluded
      · have begun := g'.closed_beginAttempt clock t.liveness
        cases again : g'.mayRetry t e with
        | false =>
          simp only [again, Bool.false_eq_true, if_false]
          exact concluded
        | true =>
          rcases ran : beginAttempt clock t.liveness g' with ⟨e | a, g''⟩ <;> rw [ran] at begun <;>
            simp only [again, if_true, Access.bind_apply, beginTransaction_eq, ran,
              Access.pure_apply]
          · exact begun.trans concluded
          · exact begun.trans concluded
      · exact concluded

theorem closed_stepFail (name : String) (cause : BodyError) :
    (g.stepFail clock name cause).2.closed = g.closed := by
  rw [stepFail]
  split <;> rfl

theorem closed_stepDrop (name : String) : (g.stepDrop name).2.closed = g.closed := by
  rw [stepDrop]
  split <;> rfl

theorem closed_transactAlone {g : Engine μ σ κ} (l : Liveness String)
    (writes : List (Bytes × Option Bytes)) (left retries : Nat) :
    (transactAlone clock l writes left retries g).2.closed = g.closed := by
  induction left using Nat.strongRecOn generalizing g retries with
  | ind left ih =>
    have begun := g.closed_beginAttempt clock l
    unfold transactAlone
    rw [Access.bind_apply, beginTransaction_eq]
    rcases ran : beginAttempt clock l g with ⟨e | a, g₁⟩ <;> rw [ran] at begun
    · exact begun
    · rcases staged : stageAll (g₁.moment clock l) writes
        ({ toAttempt := a, retries, lastHeartbeat := clock.steady }, g₁.medium) with
        ⟨e | _, t, m⟩ <;>
        simp only [Access.bind_apply, Access.medium, staged]
      · exact begun
      · have concluded := g₁.closed_conclude clock t
        simp only [Access.outcome]
        rcases ran : conclude clock t g₁ with ⟨e | v, g₂⟩ <;> rw [ran] at concluded
        · cases left with
          | zero => exact concluded.trans begun
          | succ left =>
            dsimp only
            split
            · exact (ih left (Nat.lt_succ_self left) (retries + 1)).trans (concluded.trans begun)
            · exact concluded.trans begun
        · exact concluded.trans begun

theorem closed_readAlone (c : Except Error Condition) :
    (readAlone clock c g).2.closed = g.closed := by
  have begun := g.closed_beginAttempt clock .always
  rcases ran : beginAttempt clock .always g with ⟨e | a, g'⟩ <;> rw [ran] at begun
  · rw [readAlone, Access.bind_apply, ran]
    exact begun
  · cases c with
    | error e =>
      rw [readAlone, Access.bind_apply, ran]
      exact begun
    | ok c =>
      rw [readAlone_ok ran]
      exact begun

theorem closed_step (e : Event) : (g.step clock e).2.closed = g.closed.or e.closing := by
  have kept {closed : Option String} (same : closed = g.closed) : closed = g.closed.or none :=
    same.trans (Option.or_none).symm
  cases e with
  | transact name l => exact kept (g.closed_stepTransact clock name l)
  | snapshot name l => exact kept (g.closed_stepSnapshot clock name l)
  | get name key => exact kept (g.closed_stepRead clock name _ _ _)
  | getMany name keys => exact kept (g.closed_stepTransaction clock name _ _)
  | stage name write => exact kept (g.closed_stepTransaction clock name _ _)
  | query name c => exact kept (g.closed_stepRead clock name _ _ _)
  | scan name c limit => exact kept (g.closed_stepRead clock name _ _ _)
  | openStream name c stream => exact kept (g.closed_stepOpen clock name c stream)
  | poll stream => exact kept (g.closed_stepPoll stream)
  | succeed name => exact kept (g.closed_stepSucceed clock name)
  | fail name cause => exact kept (g.closed_stepFail clock name cause)
  | drop name => exact kept (g.closed_stepDrop name)
  | cancel flag => exact kept rfl
  | run l writes =>
    have ran := closed_transactAlone (g := g) clock l writes g.config.maxRetries 0
    refine kept ?_
    rw [step]
    split <;> next same => rwa [same] at ran
  | read c =>
    have ran := g.closed_readAlone clock c
    refine kept ?_
    rw [step]
    split <;> next same => rwa [same] at ran
  | stats => exact kept rfl
  | close reason =>
    change (close reason g).2.closed = g.closed.or (some reason)
    rw [close]
    cases closed : g.closed with
    | none => rfl
    | some earlier => exact closed

theorem closed_run (g : Engine μ σ κ) (events : List (Clock × Event)) :
    (g.run events).2.closed = g.closed.or (firstClose events) := by
  induction events generalizing g with
  | nil => exact (Option.or_none).symm
  | cons one events ih =>
    obtain ⟨clock, e⟩ := one
    have split : firstClose ((clock, e) :: events) = e.closing.or (firstClose events) := by
      rw [firstClose, List.findSome?_cons]
      cases e.closing <;> rfl
    rw [split, ← Option.or_assoc, ← g.closed_step clock e]
    exact ih (g.step clock e).2

theorem closed_run_of_open {g : Engine μ σ κ} (isOpen : g.closed = none)
    (events : List (Clock × Event)) : (g.run events).2.closed = firstClose events := by
  rw [closed_run, isOpen, Option.none_or]

end Closed

/-! ### What a barrier refuses -/

/-- What stands against an event that has to pass this flag: a closed engine, or else a flag that
is cancelled. -/
def barrier (g : Engine μ σ κ) (l : Liveness String) : Option Error :=
  (g.closed.map Error.closed).or (g.flagError l)

/-- Every read of the session, and the end of its body if it is a transaction, is answered with
this error. -/
structure Bars (g : Engine μ σ κ) (name : String) (err : Error) : Prop where
  get clock key : (g.step clock (.get name key)).1 = .value (.error err)
  query clock c : (g.step clock (.query name c)).1 = .rows (.error err)
  scan clock c limit : (g.step clock (.scan name c limit)).1 = .rows (.error err)
  openStream clock c stream : (g.step clock (.openStream name c stream)).1 = .opened (.error err)
  getMany clock key keys {t : Transaction σ} : g.session? name = some (.transaction t) →
    (g.step clock (.getMany name (key :: keys))).1 = .values (.error err)
  succeed clock {t : Transaction σ} : g.session? name = some (.transaction t) →
    (g.step clock (.succeed name)).1 = ended err

/-- No call begins, and no session reads, stages or ends with success but views. -/
structure Refuses (g : Engine μ σ κ) (err : Error) : Prop where
  transact clock name l : (g.step clock (.transact name l)).1 = ended err
  snapshot clock name l : (g.step clock (.snapshot name l)).1 = ended err
  run clock l writes : (g.step clock (.run l writes)).1 = ended err
  read clock c : (g.step clock (.read c)).1 = ended err
  session {name : String} {s : Session σ} : g.session? name = some s → g.Bars name err
  stage clock write {name : String} {t : Transaction σ} :
    g.session? name = some (.transaction t) →
      (g.step clock (.stage name write)).1 = .staged (.error err)

section Barred
variable {g : Engine μ σ κ} {name : String} {l : Liveness String} {err : Error}

theorem barrier_final (stands : g.barrier l = some err) : err.isRetryable = false := by
  rw [barrier, flagError] at stands
  cases closed : g.closed with
  | some reason =>
    rw [closed] at stands
    cases stands
    rfl
  | none =>
    rw [closed] at stands
    split at stands
    · cases stands
    · cases stands
      rfl

theorem beginAttempt_barred (stands : g.barrier l = some err) (clock : Clock) :
    beginAttempt clock l g = (.error err, g) := by
  rw [barrier] at stands
  rw [beginAttempt_eq, stands]

theorem beginTransaction_barred (stands : g.barrier l = some err) (clock : Clock)
    (retries : Nat) : beginTransaction clock l retries g = (.error err, g) := by
  rw [beginTransaction_eq, beginAttempt_barred stands]

theorem prepare_barred {b : Backend μ σ κ} {now : Moment} (stands : now.gate = some err)
    (t : Transaction σ) (m : μ) : Transaction.prepare b now (t, m) = (.error err, (t, m)) := by
  rw [Transaction.prepare, Access.bind_apply, stands]
  rfl

theorem conclude_barred {t : Transaction σ} (stands : g.barrier t.liveness = some err)
    (clock : Clock) : (conclude clock t g).1 = .error err := by
  rw [barrier] at stands
  rw [conclude, commit_eq, stands]

theorem stepRead_barred {s : Session σ} (found : g.session? name = some s)
    (stands : g.barrier s.attempt.liveness = some err) (clock : Clock)
    (answer : Except Error α → Answer)
    {inTransaction : Backend μ σ κ → Moment → Access (Transaction σ × μ) α}
    {inView : Backend μ σ κ → Moment → Attempt σ → Access μ α}
    (transaction : ∀ t now, now.gate = some err →
      (inTransaction g.backend now (t, g.medium)).1 = .error err)
    (view : ∀ a now, now.gate = some err → (inView g.backend now a g.medium).1 = .error err) :
    (g.stepRead clock name answer inTransaction inView).1 = answer (.error err) := by
  cases s with
  | transaction t =>
    simp only [stepRead, found, within_eq]
    exact congrArg answer (transaction t (g.moment clock t.liveness) stands)
  | view a =>
    simp only [stepRead, found, onMedium_eq]
    exact congrArg answer (view a (g.moment clock a.liveness) stands)

theorem succeed_barred {t : Transaction σ} (found : g.session? name = some (.transaction t))
    (stands : g.barrier t.liveness = some err) (clock : Clock) :
    (g.stepSucceed clock name).1 = ended err := by
  have stands : (g.dropSession name).barrier t.liveness = some err := stands
  have concluded := conclude_barred stands clock
  simp only [stepSucceed, found, succeed]
  rcases ran : conclude clock t (g.dropSession name) with ⟨r, g'⟩
  rw [ran] at concluded
  cases concluded
  have final : g'.mayRetry t err = false := by
    rw [mayRetry, barrier_final stands, Bool.false_and]
  simp only [final, Bool.false_eq_true, if_false]

theorem bars_of_barrier {s : Session σ} (found : g.session? name = some s)
    (stands : g.barrier s.attempt.liveness = some err) : g.Bars name err := by
  constructor
  · intro clock key
    refine stepRead_barred found stands clock _ (fun t now shut => ?_) fun a now shut => ?_
    · rw [Transaction.get, Access.bind_apply, prepare_barred shut]
    · rw [Attempt.get, Access.bind_apply, shut]
      rfl
  · intro clock c
    refine stepRead_barred found stands clock _ (fun t now shut => ?_) fun a now shut => ?_
    · rw [queryRows, Access.bind_apply, Transaction.query, Access.bind_apply, prepare_barred shut]
    · rw [viewRows, Access.bind_apply, Attempt.query, Access.bind_apply, shut]
      rfl
  · intro clock c limit
    refine stepRead_barred found stands clock _ (fun t now shut => ?_) fun a now shut => ?_
    · rw [Transaction.scan, Access.bind_apply, prepare_barred shut]
    · rw [Attempt.scan, Access.bind_apply, Attempt.query, Access.bind_apply, shut]
      rfl
  · intro clock c stream
    cases s with
    | transaction t =>
      have shut : (g.moment clock t.liveness).gate = some err := stands
      simp only [step, stepOpen, found, within_eq, Transaction.query, Access.bind_apply,
        prepare_barred shut]
    | view a =>
      have shut : (g.moment clock a.liveness).gate = some err := stands
      simp only [step, stepOpen, found, onMedium_eq, Attempt.query, Access.bind_apply, shut,
        Access.pass, Access.fail]
  · intro clock key keys t here
    cases found.symm.trans here
    have shut : (g.moment clock t.liveness).gate = some err := stands
    simp only [step, stepTransaction, found, within_eq, Transaction.getMany, List.mapM_cons,
      Transaction.get, Access.bind_apply, prepare_barred shut]
  · intro clock t here
    cases found.symm.trans here
    exact succeed_barred found stands clock

theorem refuses_of_closed {reason : String} (closed : g.closed = some reason) :
    g.Refuses (.closed reason) := by
  have stands (l : Liveness String) : g.barrier l = some (.closed reason) := by
    rw [barrier, closed]
    rfl
  constructor
  · intro clock name l
    rw [step, stepTransact, beginTransaction_barred (stands l)]
  · intro clock name l
    rw [step, stepSnapshot, beginAttempt_barred (stands l)]
  · intro clock l writes
    rw [step]
    unfold transactAlone
    rw [Access.bind_apply, beginTransaction_barred (stands l)]
  · intro clock c
    rw [step, readAlone, Access.bind_apply, beginAttempt_barred (stands .always)]
  · intro name s found
    exact bars_of_barrier found (stands s.attempt.liveness)
  · intro clock write name t found
    have shut : (g.moment clock t.liveness).shut = some (.closed reason) := congrArg _ closed
    simp only [step, stepTransaction, found, within_eq, stageAndCount, Transaction.stage,
      Access.bind_apply, shut, Access.pass, Access.fail]

end Barred
end Engine
end OptimisticStore
