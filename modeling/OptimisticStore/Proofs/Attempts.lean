import OptimisticStore.Proofs.Following

/-! Attempts that begin and end under the chronicle. One begins on the last version. One that
ends with success stands where its registration stood if it staged nothing, and otherwise behind
all commits so far, if the backend finds that nobody has written behind it. A whole call takes
as many attempts as it needs, of which the last one counts. -/

namespace OptimisticStore

def Transaction.staging {σ : Type} (t : Transaction σ) (writes : List (Bytes × Option Bytes)) :
    Transaction σ := { t with writes := writes.foldl .stage t.writes }

namespace Engine
variable {μ σ κ : Type}

theorem beginAttempt_eq (g : Engine μ σ κ) (clock : Clock) (l : Liveness String) :
    beginAttempt clock l g =
      match (g.closed.map Error.closed).or (g.flagError l) with
      | some e => (.error e, g)
      | none =>
        match g.backend.begin clock.wall g.medium with
        | (.ok (r, s), m) =>
          (.ok ⟨g.attempts, r, s, l⟩, { g with medium := m, attempts := g.attempts + 1 })
        | (.error e, m) => (.error e, { g with medium := m }) := by
  rw [beginAttempt, Access.bind_apply, checkAlive]
  cases (g.closed.map Error.closed).or (g.flagError l) with
  | some e => rfl
  | none =>
    rcases registered : g.backend.begin clock.wall g.medium with ⟨e | ⟨r, s⟩, m⟩ <;>
      simp only [Access.pass, Access.pure_apply, Access.bind_apply, Access.medium, onMedium,
        registered]
    rfl

theorem beginTransaction_eq (g : Engine μ σ κ) (clock : Clock) (l : Liveness String)
    (retries : Nat) :
    beginTransaction clock l retries g =
      match beginAttempt clock l g with
      | (.ok a, g) => (.ok { toAttempt := a, retries, lastHeartbeat := clock.steady }, g)
      | (.error e, g) => (.error e, g) := by
  rw [beginTransaction, Access.bind_apply]
  rcases beginAttempt clock l g with ⟨e | a, g'⟩ <;> rfl

theorem readAlone_ok {g g' : Engine μ σ κ} {clock : Clock} {a : Attempt σ}
    (begun : beginAttempt clock .always g = (.ok a, g')) (c : Condition) :
    readAlone clock (.ok c) g =
      match viewRows g'.backend (g'.moment clock a.liveness) a c g'.medium with
      | (r, m) => (.ok r, endAttempt clock a { g' with medium := m }) := by
  rcases queried : a.query g'.backend (g'.moment clock a.liveness) c g'.medium
    with ⟨e | feed, m⟩ <;>
    simp only [readAlone, viewRows, Access.bind_apply, begun, Access.medium, Access.outcome,
      Access.ofExcept, Access.pure_apply, onMedium, queried]
  · rfl
  · rfl

theorem stageAll_open {now : Moment} (isOpen : now.shut = none)
    (writes : List (Bytes × Option Bytes)) (t : Transaction σ) (m : μ) :
    stageAll now writes (t, m) = (.ok (), t.staging writes, m) := by
  induction writes generalizing t with
  | nil => rfl
  | cons write writes ih =>
    change (Transaction.stage now write >>= fun _ => stageAll now writes) (t, m) = _
    have staged : Transaction.stage now write (t, m) = (.ok (), t.staging [write], m) := by
      rw [Transaction.stage, isOpen]
      rfl
    rw [Access.bind_apply, staged]
    exact ih _

theorem conclude_ok {g : Engine μ σ κ} {clock : Clock} {t : Transaction σ} {v : Version} {m' : μ}
    (isOpen : (g.closed.map Error.closed).or (g.flagError t.liveness) = none)
    (wrote : t.writes.isEmpty = false)
    (committed : g.backend.commit t.registration t.reads t.writes g.medium = (.ok v, m')) :
    conclude clock t g =
      (.ok v, { g with medium := (g.backend.finish clock.wall t.registration m').2 }) := by
  rw [conclude, commit, Access.bind_apply, checkAlive, isOpen]
  simp only [Access.pass, Access.pure_apply, wrote, Bool.false_eq_true, if_false,
    Access.bind_apply, Access.medium, onMedium, committed]
  rfl

theorem transactAlone_ok {g g' g'' : Engine μ σ κ} {clock : Clock} {l : Liveness String}
    {a : Attempt σ} {v : Version} {writes : List (Bytes × Option Bytes)} {left retries : Nat}
    (begun : beginAttempt clock l g = (.ok a, g')) (isOpen : (g'.moment clock l).shut = none)
    (done : conclude clock ⟨a, retries, .ofList writes, {}, clock.steady⟩ g' = (.ok v, g'')) :
    transactAlone clock l writes left retries g = (.ok (), g'') := by
  have done : conclude clock
    (Transaction.staging ⟨a, retries, {}, {}, clock.steady⟩ writes) g' = _ := done
  unfold transactAlone
  rw [Access.bind_apply, beginTransaction_eq, begun]
  simp only [Access.bind_apply, Access.medium, stageAll_open isOpen, Access.outcome, done]
  rfl

theorem sessions_conclude (g : Engine μ σ κ) (clock : Clock) (t : Transaction σ) :
    (conclude clock t g).2.sessions = g.sessions := by
  have committed : (commit t g).2.sessions = g.sessions := by
    rw [commit, Access.bind_apply, checkAlive]
    cases (g.closed.map Error.closed).or (g.flagError t.liveness) with
    | some e => rfl
    | none =>
      simp only [Access.pass, Access.pure_apply]
      split <;> rfl
  exact committed

theorem sessions_beginAttempt (g : Engine μ σ κ) (clock : Clock) (l : Liveness String) :
    (beginAttempt clock l g).2.sessions = g.sessions := by
  rw [beginAttempt_eq]
  split
  · rfl
  · split <;> rfl

end Engine

variable {μ σ κ : Type} {b : Backend μ σ κ} {law : Law b} {c : Chronicle} {g g' : Engine μ σ κ}
  {name : String}

def Ends {α : Type} (law : Law b) (done failed : Chronicle) (x : Access (Engine μ σ κ) α)
    (g : Engine μ σ κ) : Prop :=
  match x g with
  | (.ok _, g) => Follows law done g
  | (.error _, g) => Follows law failed g

namespace Follows

theorem begin_ok (follows : Follows law c g) {clock : Clock} {l : Liveness String} {a : Attempt σ}
    (begun : Engine.beginAttempt clock l g = (.ok a, g')) :
    Follows law c g' ∧ g'.sessions = g.sessions ∧
      law.sees c.history c.history.length a.snapshot ∧
      a.registration.readVersion = c.history.length ∧ a.liveness = l := by
  rw [g.beginAttempt_eq] at begun
  split at begun
  · cases begun
  · split at begun
    · next registered =>
      cases begun
      rw [follows.backend] at registered
      obtain ⟨holds, version, sees⟩ := law.begin_ok follows.holds registered
      exact ⟨follows.medium holds _, rfl, sees, version, rfl⟩
    · cases begun

theorem begin_error (follows : Follows law c g) {clock : Clock} {l : Liveness String} {e : Error}
    (refused : Engine.beginAttempt clock l g = (.error e, g')) :
    Follows law c g' ∧ g'.sessions = g.sessions := by
  rw [g.beginAttempt_eq] at refused
  split at refused
  · cases refused
    exact ⟨follows, rfl⟩
  · split at refused
    · cases refused
    · next failed =>
      cases refused
      rw [follows.backend] at failed
      exact ⟨follows.medium (law.begin_error follows.holds failed) _, rfl⟩

theorem endAttempt (follows : Follows law c g) (clock : Clock) (a : Attempt σ) :
    Follows law c (Engine.endAttempt clock a g) := by
  have finished : law.holds c.history (g.backend.finish clock.wall a.registration g.medium).2 := by
    rw [follows.backend]
    exact law.finish clock.wall a.registration follows.holds
  exact follows.medium finished g.attempts

/-! ### Ending with success -/

/-- What the commit of an attempt does to the chronicle. An attempt that wrote stands behind all
commits so far, because it replays on the last version. -/
theorem conclude (follows : Follows law c g) {story : Story} {t : Transaction σ}
    (staged : story.staged = t.writes) (inOrder : c.InOrder story)
    (last : ((∀ w ∈ c.history.drop t.registration.readVersion, law.fits w) →
        ∀ e ∈ c.history.log, t.registration.readVersion < e.1 → t.reads.covers e.2 = false) →
      (∀ w ∈ c.history.drop story.readVersion, law.fits w) →
        story.Replays (c.history.state c.history.length)) (clock : Clock) :
    Ends law (c.place story) c (Engine.conclude clock t) g := by
  have ended {c : Chronicle} {g : Engine μ σ κ} (follows : Follows law c g) :=
    follows.endAttempt clock t.toAttempt
  rw [Ends, Engine.conclude, Engine.commit, Access.bind_apply, Engine.checkAlive]
  cases (g.closed.map Error.closed).or (g.flagError t.liveness) with
  | some e => exact ended follows
  | none =>
    rw [Chronicle.place, staged]
    cases idle : t.writes.isEmpty with
    | true =>
      simp only [Access.pass, Access.pure_apply, if_true]
      exact ended (follows.addOther inOrder)
    | false =>
      obtain rfl := follows.backend
      rcases ran : g.backend.commit t.registration t.reads t.writes g.medium with ⟨e | v, m⟩ <;>
        simp only [Access.pass, Access.pure_apply, Bool.false_eq_true, if_false,
          Access.bind_apply, Access.medium, Engine.onMedium, ran]
      · exact ended (follows.medium (law.commit_error follows.holds ran) g.attempts)
      · obtain ⟨holds, valid⟩ := law.commit_ok follows.holds ran
        obtain ⟨began, bound, _⟩ := inOrder
        rw [← c.length_history] at bound
        exact ended (follows.addWriter (staged ▸ holds) began bound (last valid))

variable {t : Transaction σ}

theorem concludeSession (follows : Follows law c g)
    (found : g.session? name = some (.transaction t)) (clock : Clock) :
    Ends law (c.conclude name) (c.leave name) (Engine.conclude clock t) (g.dropSession name) := by
  obtain ⟨story, told, tracks⟩ := (follows.sessions name).of_session found
  have inOrder := follows.inOrder told
  have concluded := (follows.forget name).conclude (t := t) tracks.staged inOrder
    (fun valid fits => by
      rw [← tracks.registered] at fits
      exact tracks.replays_last (tracks.registered ▸ valid fits)) clock
  rw [Chronicle.conclude, Chronicle.leave, told]
  rw [Ends] at concluded ⊢
  rcases ran : Engine.conclude clock t (g.dropSession name) with ⟨e | v, g'⟩ <;>
    rw [ran] at concluded
  · exact concluded.addOther inOrder
  · exact concluded

theorem concludeView {a : Attempt σ} (follows : Follows law c g)
    (found : g.session? name = some (.view a)) :
    Follows law (c.conclude name) (g.dropSession name) := by
  obtain ⟨story, told, tracks⟩ := (follows.sessions name).of_session found
  have idle : story.staged.isEmpty = true := by
    rw [tracks.staged]
    rfl
  rw [Chronicle.conclude, told]
  dsimp only
  rw [Chronicle.place, if_pos idle]
  exact (follows.forget name).addOther (follows.inOrder told)

theorem restart (follows : Follows law c g) (found : g.session? name = some (.transaction t))
    (after : Follows law (c.leave name) g') (free : g'.session? name = none) {clock : Clock}
    {a : Attempt σ} {again : Engine μ σ κ}
    (begun : Engine.beginAttempt clock t.liveness g' = (.ok a, again)) (retries steady : Nat) :
    Follows law (c.restart name a.registration.readVersion) (again.setSession name
      (.transaction { toAttempt := a, retries, lastHeartbeat := steady })) := by
  obtain ⟨story, told, tracks⟩ := (follows.sessions name).of_session found
  obtain ⟨entered, sessions, sees, registered, alike⟩ := after.begin_ok begun
  have free : again.session? name = none := by rwa [Engine.session?, sessions]
  have liveness : story.liveness = a.liveness := tracks.liveness.trans alike.symm
  rw [Chronicle.restart, told]
  dsimp only
  rw [liveness, Chronicle.enter, ← c.writers_leave name]
  exact entered.setRunning (s := .transaction { toAttempt := a, retries, lastHeartbeat := steady })
    free sees registered rfl

theorem stepSucceed (follows : Follows law c g) (clock : Clock) (name : String) :
    Follows law (c.observe (.succeed name) (g.stepSucceed clock name).1)
      (g.stepSucceed clock name).2 := by
  cases found : g.session? name with
  | none =>
    simp only [Engine.stepSucceed, found]
    exact follows
  | some s =>
    cases s with
    | view a =>
      simp only [Engine.stepSucceed, found]
      exact (follows.concludeView found).endAttempt clock a
    | transaction t =>
      have concluded := follows.concludeSession found clock
      have kept := (g.dropSession name).sessions_conclude clock t
      simp only [Engine.stepSucceed, found, Engine.succeed]
      rw [Ends] at concluded
      rcases ran : Engine.conclude clock t (g.dropSession name) with ⟨e | v, g'⟩ <;>
        rw [ran] at concluded kept
      · have after : Follows law (c.leave name) g' := concluded
        have free : g'.session? name = none := by
          rw [Engine.session?, kept]
          exact g.session?_dropSession name
        cases again : g'.mayRetry t e with
        | false =>
          simp only [again, Bool.false_eq_true, if_false]
          exact after
        | true =>
          rcases begun : Engine.beginAttempt clock t.liveness g' with ⟨e | a, g''⟩ <;>
            simp only [again, if_true, Access.bind_apply, Engine.beginTransaction_eq, begun,
              Access.pure_apply]
          · exact (after.begin_error begun).1
          · exact follows.restart found after free begun (t.retries + 1) clock.steady
      · exact concluded

/-! ### Entering and leaving -/

theorem stepTransact (follows : Follows law c g) (clock : Clock) (name : String)
    (l : Liveness String) :
    Follows law (c.observe (.transact name l) (g.stepTransact clock name l).1)
      (g.stepTransact clock name l).2 := by
  rcases begun : Engine.beginAttempt clock l g with ⟨e | a, g'⟩ <;>
    simp only [Engine.stepTransact, Engine.beginTransaction_eq, begun]
  · exact (follows.begin_error begun).1
  · obtain ⟨entered, _, sees, registered, rfl⟩ := follows.begin_ok begun
    exact entered.enter (s := .transaction { toAttempt := a, lastHeartbeat := clock.steady }) name
      sees registered rfl

theorem stepSnapshot (follows : Follows law c g) (clock : Clock) (name : String)
    (l : Liveness String) :
    Follows law (c.observe (.snapshot name l) (g.stepSnapshot clock name l).1)
      (g.stepSnapshot clock name l).2 := by
  rcases begun : Engine.beginAttempt clock l g with ⟨e | a, g'⟩ <;>
    simp only [Engine.stepSnapshot, begun]
  · exact (follows.begin_error begun).1
  · obtain ⟨entered, _, sees, registered, rfl⟩ := follows.begin_ok begun
    exact entered.enter (s := .view a) name sees registered rfl

theorem stepFail (follows : Follows law c g) (clock : Clock) (name : String) (cause : BodyError) :
    Follows law (c.observe (.fail name cause) (g.stepFail clock name cause).1)
      (g.stepFail clock name cause).2 := by
  cases found : g.session? name with
  | none =>
    simp only [Engine.stepFail, found]
    exact follows
  | some s =>
    simp only [Engine.stepFail, found]
    exact (follows.leave found).endAttempt clock s.attempt

theorem stepDrop (follows : Follows law c g) (name : String) :
    Follows law (c.observe (.drop name) (g.stepDrop name).1) (g.stepDrop name).2 := by
  cases found : g.session? name with
  | none =>
    simp only [Engine.stepDrop, found]
    have unknown := ((follows.sessions name).of_absent found).1
    change Follows law (c.leave name) g
    rw [Chronicle.leave, unknown]
    exact follows
  | some s =>
    simp only [Engine.stepDrop, found]
    have left := follows.leave found
    refine left.medium (m := g.backend.abandon s.attempt.registration g.medium) ?_ g.attempts
    rw [follows.backend]
    exact law.abandon s.attempt.registration left.holds

/-! ### Whole calls in one event -/

theorem writes_stageAll {now : Moment} {writes : List (Bytes × Option Bytes)}
    {t t' : Transaction σ} {m m' : μ}
    (staged : Engine.stageAll now writes (t, m) = (.ok (), t', m')) :
    t'.writes = writes.foldl .stage t.writes := by
  induction writes generalizing t m with
  | nil =>
    cases staged
    rfl
  | cons write writes ih =>
    have staged : (Transaction.stage now write >>= fun _ => Engine.stageAll now writes) (t, m) =
      (.ok (), t', m') := staged
    rw [Access.bind_apply, Transaction.stage, Access.bind_apply] at staged
    cases shut : now.shut with
    | some e =>
      rw [shut] at staged
      cases staged
    | none =>
      rw [shut] at staged
      exact ih staged

theorem concludeAlone (follows : Follows law c g) (l : Liveness String)
    {writes : List (Bytes × Option Bytes)} (staged : t.writes = .ofList writes) (clock : Clock) :
    Ends law (c.place (c.alone l (writes.map .stage))) c (Engine.conclude clock t) g := by
  have replays (state : OrderedMap Bytes Bytes) :
      (c.alone l (writes.map .stage)).Replays state := by
    have made := Solo.run_stages state {} writes
    rw [Story.Replays, Chronicle.alone, replay, made]
    rfl
  have same : (c.alone l (writes.map .stage)).staged = t.writes :=
    (stagedBy_stages writes).trans staged.symm
  exact follows.conclude same ⟨rfl, Nat.le_refl _, replays _⟩ (fun _ _ => replays _) clock

theorem transactAlone {g : Engine μ σ κ} (follows : Follows law c g) (clock : Clock)
    (l : Liveness String) (writes : List (Bytes × Option Bytes)) (left retries : Nat) :
    Ends law (c.place (c.alone l (writes.map .stage))) c
      (Engine.transactAlone clock l writes left retries) g := by
  unfold Engine.transactAlone
  rw [Ends, Access.bind_apply, Engine.beginTransaction_eq]
  rcases begun : Engine.beginAttempt clock l g with ⟨e | a, g'⟩
  · exact (follows.begin_error begun).1
  · obtain ⟨entered, _⟩ := follows.begin_ok begun
    rcases staged : Engine.stageAll (g'.moment clock l) writes
      ({ toAttempt := a, retries, lastHeartbeat := clock.steady }, g'.medium) with ⟨e | _, t, m⟩ <;>
      simp only [Access.bind_apply, Access.medium, staged]
    · exact entered.endAttempt clock a
    · have concluded := entered.concludeAlone l (writes_stageAll staged) clock
      rw [Ends] at concluded
      rcases ran : Engine.conclude clock t g' with ⟨e | v, g''⟩ <;> rw [ran] at concluded <;>
        simp only [Access.outcome, ran]
      · have failed : Follows law c g'' := concluded
        cases left with
        | zero => exact failed
        | succ left =>
          -- an attempt that failed has left no trace in the chronicle
          have next := transactAlone failed clock l writes left (retries + 1)
          rw [Ends] at next
          cases g'.mayRetry t e with
          | true => exact next
          | false => exact failed
      · exact concluded

theorem readAlone (follows : Follows law c g) (clock : Clock) (condition : Except Error Condition) :
    match Engine.readAlone clock condition g with
    | (.ok rows, g') => Follows law (c.observe (.read condition) (.rows rows)) g'
    | (.error _, g') => Follows law c g' := by
  rcases begun : Engine.beginAttempt clock .always g with ⟨e | a, g'⟩
  · rw [Engine.readAlone, Access.bind_apply, begun]
    exact (follows.begin_error begun).1
  · obtain ⟨entered, _, sees, _⟩ := follows.begin_ok begun
    cases condition with
    | error e =>
      rw [Engine.readAlone, Access.bind_apply, begun]
      exact entered.endAttempt clock a
    | ok condition =>
      obtain rfl := entered.backend
      obtain ⟨holds, given⟩ := Law.gives_viewRows sees (g'.moment clock a.liveness) condition
        g'.medium entered.holds
      rw [Engine.readAlone_ok begun]
      rcases ran : Engine.viewRows g'.backend (g'.moment clock a.liveness) a condition g'.medium
        with ⟨e | rows, m⟩ <;> rw [ran] at holds given
      · exact (entered.medium holds g'.attempts).endAttempt clock a
      · cases given rows rfl
        have idle : (c.alone .always [.query condition
          (condition.select (c.history.state c.history.length))]).staged.isEmpty = true := rfl
        change Follows law (c.place (c.alone .always [.query condition _])) _
        rw [Chronicle.place, if_pos idle]
        refine ((entered.medium holds g'.attempts).endAttempt clock a).addOther
          ⟨rfl, Nat.le_refl _, ?_⟩
        simp [Story.Replays, Chronicle.alone, replay, Solo.run, Solo.call, Solo.view,
          WriteSet.empty_onto, c.length_history]

end Follows
end OptimisticStore
