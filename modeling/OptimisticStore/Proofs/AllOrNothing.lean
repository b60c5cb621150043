import OptimisticStore.Proofs.Accounting

/-! Transactions happen in full or not at all, whatever fails: sessions may be left, calls may be
refused, cancelled or closed, and any raw call of a device may fail. The store has exactly the
writes of the calls that were answered with success, in the order of their versions. What any
other call has staged is in no version, and is read by its own session only. -/

namespace OptimisticStore

variable {μ σ κ α : Type} {b : Backend μ σ κ} {law : Resilience b} {c : Chronicle}
  {g g' : Engine μ σ κ} {name : String} {s : Session σ} {story : Story}

structure Begun (law : Resilience b) (c : Chronicle) (a : Attempt σ) (g : Engine μ σ κ) :
    Prop where
  accounts : Accounts law c g
  given : a.serial < g.attempts
  sessions : ∀ name s, g.session? name = some s → s.attempt.serial ≠ a.serial
  streams : ∀ stream st, g.stream? stream = some st → st.serial ≠ a.serial
  sees : law.sees c.history c.history.length a.snapshot
  version : a.registration.readVersion = c.history.length

namespace Accounts

theorem begin_ok (accounts : Accounts law c g) {clock : Clock} {l : Liveness String}
    {a : Attempt σ} (begun : Engine.beginAttempt clock l g = (.ok a, g')) :
    Begun law c a g' := by
  rw [g.beginAttempt_eq] at begun
  split at begun
  · cases begun
  · split at begun
    · next r snapshot m registered =>
      cases begun
      rw [accounts.backend] at registered
      have holds := law.begin clock.wall accounts.holds
      obtain ⟨version, sees⟩ := law.begin_ok accounts.holds registered
      rw [registered] at holds
      refine ⟨?_, Nat.lt_succ_self _, fun name s found => ?_, fun stream st standing => ?_, sees,
        version⟩
      · exact accounts.aside rfl holds rfl rfl (Nat.le_succ _) rfl rfl (List.append_nil _).symm
      · exact Nat.ne_of_lt (accounts.numbered.sessions name s found)
      · exact Nat.ne_of_lt (accounts.numbered.streams stream st standing)
    · cases begun

theorem begin_error (accounts : Accounts law c g) {clock : Clock} {l : Liveness String}
    {e : Error} (refused : Engine.beginAttempt clock l g = (.error e, g')) :
    Accounts law c g' := by
  rw [g.beginAttempt_eq] at refused
  split at refused
  · cases refused
    exact accounts
  · split at refused
    · cases refused
    · next failed =>
      cases refused
      have holds := law.begin clock.wall accounts.holds
      rw [accounts.backend] at failed
      rw [failed] at holds
      exact accounts.medium holds

end Accounts

namespace Begun

theorem leave {a : Attempt σ} (begun : Begun law c a g) (name : String) :
    Begun law (c.leave name) a (g.dropSession name) where
  accounts := begun.accounts.leave name
  given := begun.given
  sessions other s found := by
    rw [g.session?_dropSession_eq] at found
    split at found
    · cases found
    · exact begun.sessions other s found
  streams := begun.streams
  sees := c.history_leave name ▸ begun.sees
  version := c.history_leave name ▸ begun.version

theorem setRunning (begun : Begun law c s.attempt g) (name : String) (idle : s.writes = {})
    (n : Nat) (l : Liveness String) :
    Accounts law (c.setRunning name ⟨s.attempt.registration.readVersion, n, l, []⟩)
      (g.setSession name s) where
  backend := begun.accounts.backend
  holds := begun.accounts.holds
  numbered := begun.accounts.numbered.setSession begun.given fun other s' _ found =>
    begun.sessions other s' found
  sessions other := by
    have lookup := g.session?_setSession name other s
    by_cases same : other = name
    · rw [if_pos same] at lookup
      rw [AccountsFor, lookup, same]
      refine ⟨_, c.running.set_same name _, ⟨?_, ?_, ?_⟩, fun stream st standing serial => ?_⟩
      · exact begun.version ▸ begun.sees
      · exact Nat.le_of_eq begun.version
      · exact idle.symm
      · exact absurd serial (begun.streams stream st standing)
    · rw [if_neg same] at lookup
      exact (begun.accounts.sessions other).elsewhere (List.append_nil _).symm lookup
        (c.running.set_other same _) fun _ _ _ _ standing _ => ⟨standing, rfl⟩

theorem enter (begun : Begun law c s.attempt g) (name : String) (idle : s.writes = {})
    (l : Liveness String) :
    Accounts law (c.enter name l s.attempt.registration.readVersion) (g.enter name s) := by
  have entered (m : μ) (holds : law.holds c.history m) :
      Accounts law (c.enter name l s.attempt.registration.readVersion)
        ({ g with medium := m }.setSession name s) := by
    have moved : Begun law c s.attempt { g with medium := m } :=
      { begun with accounts := begun.accounts.medium holds }
    rw [← Engine.setSession_dropSession]
    exact (moved.leave name).setRunning name idle _ l
  rw [Engine.enter]
  cases g.session? name with
  | none => exact entered g.medium begun.accounts.holds
  | some old =>
    refine entered _ ?_
    rw [begun.accounts.backend]
    exact law.abandon old.attempt.registration begun.accounts.holds

end Begun

namespace Accounts

theorem conclude (accounts : Accounts law c g) {t : Transaction σ}
    (staged : story.staged = t.writes) (clock : Clock) :
    match Engine.conclude clock t g with
    | (.ok _, g') => Accounts law (c.place story) g'
    | (.error _, g') => Accounts law c g' := by
  have ended {c : Chronicle} {g : Engine μ σ κ} (accounts : Accounts law c g) :=
    accounts.endAttempt clock t.toAttempt
  rw [Engine.conclude, Engine.commit, Access.bind_apply, Engine.checkAlive]
  cases (g.closed.map Error.closed).or (g.flagError t.liveness) with
  | some e => exact ended accounts
  | none =>
    rw [Chronicle.place, staged]
    cases idle : t.writes.isEmpty with
    | true =>
      simp only [Access.pass, Access.pure_apply, if_true]
      exact ended (accounts.addOther story)
    | false =>
      obtain rfl := accounts.backend
      rcases ran : g.backend.commit t.registration t.reads t.writes g.medium with ⟨e | v, m⟩ <;>
        simp only [Access.pass, Access.pure_apply, Bool.false_eq_true, if_false,
          Access.bind_apply, Access.medium, Engine.onMedium, ran]
      · exact ended (accounts.medium (law.commit_error accounts.holds ran))
      · exact ended (accounts.addWriter (staged ▸ law.commit_ok accounts.holds ran))

theorem stepSucceed (accounts : Accounts law c g) (clock : Clock) (name : String) :
    Accounted law c (.succeed name) (g.stepSucceed clock name) := by
  cases found : g.session? name with
  | none =>
    simp only [Engine.stepSucceed, found]
    exact ⟨accounts, trivial⟩
  | some s =>
    obtain ⟨story, told, ⟨_, _, staged⟩, _⟩ := (accounts.sessions name).of_session found
    have forgotten := accounts.forget name
    cases s with
    | view a =>
      simp only [Engine.stepSucceed, found]
      refine ⟨?_, trivial⟩
      have idle : story.staged.isEmpty = true := by
        rw [staged]
        rfl
      change Accounts law (c.conclude name) _
      rw [Chronicle.conclude, told]
      dsimp only
      rw [Chronicle.place, if_pos idle]
      exact (forgotten.addOther story).endAttempt clock a
    | transaction t =>
      have concluded := forgotten.conclude staged clock
      simp only [Engine.stepSucceed, found, Engine.succeed]
      rcases ran : Engine.conclude clock t (g.dropSession name) with ⟨e | v, g'⟩ <;>
        rw [ran] at concluded
      · have after : Accounts law (c.leave name) g' := by
          rw [Chronicle.leave, told]
          exact concluded.addOther story
        cases again : g'.mayRetry t e with
        | false =>
          simp only [again, Bool.false_eq_true, if_false]
          exact ⟨after, trivial⟩
        | true =>
          rcases begun : Engine.beginAttempt clock t.liveness g' with ⟨e | a, g''⟩ <;>
            simp only [again, if_true, Access.bind_apply, Engine.beginTransaction_eq, begun,
              Access.pure_apply]
          · exact ⟨after.begin_error begun, trivial⟩
          · have begun := after.begin_ok begun
            let restarted : Session σ := .transaction
              { toAttempt := a, retries := t.retries + 1, lastHeartbeat := clock.steady }
            have entered := begun.setRunning (s := restarted) name rfl c.writers.length
              story.liveness
            refine ⟨?_, ?_⟩
            · change Accounts law (c.restart name a.registration.readVersion) _
              rw [Chronicle.restart, told]
              dsimp only
              rw [Chronicle.enter]
              exact entered
            · exact begun.version.trans
                ((congrArg List.length (c.history_leave name)).trans c.length_history)
      · refine ⟨?_, trivial⟩
        change Accounts law (c.conclude name) g'
        rw [Chronicle.conclude, told]
        exact concluded

/-! ### Entering and leaving -/

theorem stepTransact (accounts : Accounts law c g) (clock : Clock) (name : String)
    (l : Liveness String) : Accounted law c (.transact name l) (g.stepTransact clock name l) := by
  rcases begun : Engine.beginAttempt clock l g with ⟨e | a, g'⟩ <;>
    simp only [Engine.stepTransact, Engine.beginTransaction_eq, begun]
  · exact ⟨accounts.begin_error begun, trivial⟩
  · have entered := accounts.begin_ok begun
    exact ⟨entered.enter (s := .transaction { toAttempt := a, lastHeartbeat := clock.steady }) name
      rfl l, entered.version.trans c.length_history⟩

theorem stepSnapshot (accounts : Accounts law c g) (clock : Clock) (name : String)
    (l : Liveness String) : Accounted law c (.snapshot name l) (g.stepSnapshot clock name l) := by
  rcases begun : Engine.beginAttempt clock l g with ⟨e | a, g'⟩ <;>
    simp only [Engine.stepSnapshot, begun]
  · exact ⟨accounts.begin_error begun, trivial⟩
  · have entered := accounts.begin_ok begun
    exact ⟨entered.enter (s := .view a) name rfl l, entered.version.trans c.length_history⟩

theorem stepFail (accounts : Accounts law c g) (clock : Clock) (name : String)
    (cause : BodyError) : Accounted law c (.fail name cause) (g.stepFail clock name cause) := by
  cases found : g.session? name with
  | none =>
    simp only [Engine.stepFail, found]
    exact ⟨accounts, trivial⟩
  | some s =>
    simp only [Engine.stepFail, found]
    exact ⟨(accounts.leave name).endAttempt clock s.attempt, trivial⟩

theorem stepDrop (accounts : Accounts law c g) (name : String) :
    Accounted law c (.drop name) (g.stepDrop name) := by
  cases found : g.session? name with
  | none =>
    simp only [Engine.stepDrop, found]
    have unknown := (accounts.sessions name).of_absent found
    refine ⟨?_, trivial⟩
    change Accounts law (c.leave name) g
    rw [Chronicle.leave, unknown]
    exact accounts
  | some s =>
    simp only [Engine.stepDrop, found]
    exact ⟨(accounts.leave name).abandon s.attempt.registration, trivial⟩

/-! ### Whole calls in one event -/

/-- Of all attempts of a call only the one that succeeds has left something. -/
theorem transactAlone {g : Engine μ σ κ} (accounts : Accounts law c g) (clock : Clock)
    (l : Liveness String) (writes : List (Bytes × Option Bytes)) (left retries : Nat) :
    match Engine.transactAlone clock l writes left retries g with
    | (.ok _, g') => Accounts law (c.place (c.alone l (writes.map .stage))) g'
    | (.error _, g') => Accounts law c g' := by
  unfold Engine.transactAlone
  rw [Access.bind_apply, Engine.beginTransaction_eq]
  rcases begun : Engine.beginAttempt clock l g with ⟨e | a, g'⟩
  · exact accounts.begin_error begun
  · have entered := (accounts.begin_ok begun).accounts
    rcases staged : Engine.stageAll (g'.moment clock l) writes
      ({ toAttempt := a, retries, lastHeartbeat := clock.steady }, g'.medium) with ⟨e | _, t, m⟩ <;>
      simp only [Access.bind_apply, Access.medium, staged]
    · exact entered.endAttempt clock a
    · have same : (c.alone l (writes.map .stage)).staged = t.writes :=
        (stagedBy_stages writes).trans (Follows.writes_stageAll staged).symm
      have concluded := entered.conclude same clock
      rcases ran : Engine.conclude clock t g' with ⟨e | v, g''⟩ <;> rw [ran] at concluded <;>
        simp only [Access.outcome, ran]
      · have failed : Accounts law c g'' := concluded
        cases left with
        | zero => exact failed
        | succ left =>
          have next := transactAlone failed clock l writes left (retries + 1)
          cases g'.mayRetry t e with
          | true => exact next
          | false => exact failed
      · exact concluded

theorem readAlone (accounts : Accounts law c g) (clock : Clock)
    (condition : Except Error Condition) :
    match Engine.readAlone clock condition g with
    | (.ok rows, g') => Accounted law c (.read condition) (.rows rows, g')
    | (.error _, g') => Accounts law c g' := by
  rcases begun : Engine.beginAttempt clock .always g with ⟨e | a, g'⟩
  · rw [Engine.readAlone, Access.bind_apply, begun]
    exact accounts.begin_error begun
  · obtain ⟨entered, _, _, _, sees, _⟩ := accounts.begin_ok begun
    cases condition with
    | error e =>
      rw [Engine.readAlone, Access.bind_apply, begun]
      exact ⟨entered.endAttempt clock a, trivial⟩
    | ok condition =>
      obtain rfl := entered.backend
      obtain ⟨holds, given⟩ := Resilience.gives_viewRows (fun _ => id) sees
        (g'.moment clock a.liveness) condition g'.medium entered.holds
      rw [Engine.readAlone_ok begun]
      rcases ran : Engine.viewRows g'.backend (g'.moment clock a.liveness) a condition g'.medium
        with ⟨e | rows, m⟩ <;> rw [ran] at holds given
      · exact ⟨(entered.medium holds).endAttempt clock a, trivial⟩
      · have told := given rows rfl
        rw [c.length_history] at told
        refine ⟨?_, told⟩
        have idle : (c.alone .always [.query condition rows]).staged.isEmpty = true := rfl
        change Accounts law (c.place (c.alone .always [.query condition rows])) _
        rw [Chronicle.place, if_pos idle]
        exact ((entered.medium holds).endAttempt clock a).addOther _

/-! ### Events for all -/

theorem close (accounts : Accounts law c g) (reason : String) :
    Accounts law { c with closed := true } (Engine.close reason g).2 := by
  rw [Engine.close]
  cases closed : g.closed with
  | some earlier => exact accounts.tell rfl rfl rfl
  | none =>
    have holds : law.holds c.history (g.backend.close g.medium).2 := by
      rw [accounts.backend]
      exact law.close accounts.holds
    exact accounts.aside rfl holds rfl rfl (Nat.le_refl _) rfl rfl (List.append_nil _).symm

theorem stats (accounts : Accounts law c g) :
    Accounted law c .stats (.stats (Engine.stats g).1, (Engine.stats g).2) := by
  obtain rfl := accounts.backend
  obtain ⟨holds, right⟩ := law.stats c.history g.medium accounts.holds
  rcases ran : g.backend.stats g.medium with ⟨e | stats, m⟩ <;> rw [ran] at holds right <;>
    simp only [Engine.stats, Engine.onMedium, ran]
  · exact ⟨accounts.medium holds, trivial⟩
  · exact ⟨accounts.medium holds, (right stats rfl).trans c.length_history⟩

theorem step (accounts : Accounts law c g) (clock : Clock) (e : Event) :
    Accounted law c e (g.step clock e) := by
  cases e with
  | transact name l => exact accounts.stepTransact clock name l
  | snapshot name l => exact accounts.stepSnapshot clock name l
  | get name key => exact accounts.get clock name key
  | getMany name keys => exact accounts.getMany clock name keys
  | stage name write => exact accounts.stage clock name write
  | query name condition => exact accounts.query clock name condition
  | scan name condition limit => exact accounts.scan clock name condition limit
  | openStream name condition stream => exact accounts.stepOpen clock name condition stream
  | poll stream => exact accounts.stepPoll stream
  | succeed name => exact accounts.stepSucceed clock name
  | fail name cause => exact accounts.stepFail clock name cause
  | drop name => exact accounts.stepDrop name
  | cancel flag =>
    exact ⟨accounts.aside rfl accounts.holds rfl rfl (Nat.le_refl _) rfl rfl
      (List.append_nil _).symm, trivial⟩
  | run l writes =>
    have ends := accounts.transactAlone clock l writes g.config.maxRetries 0
    rw [Engine.step]
    rcases ran : Engine.transactAlone clock l writes g.config.maxRetries 0 g with ⟨e | _, g'⟩ <;>
      rw [ran] at ends
    · exact ⟨ends, trivial⟩
    · exact ⟨ends, trivial⟩
  | read condition =>
    have ends := accounts.readAlone clock condition
    rw [Engine.step]
    rcases ran : Engine.readAlone clock condition g with ⟨e | rows, g'⟩ <;> rw [ran] at ends
    · cases condition <;> exact ⟨ends, trivial⟩
    · exact ends
  | stats => exact accounts.stats
  | close reason => exact ⟨accounts.close reason, trivial⟩

theorem run (accounts : Accounts law c g) (events : List (Clock × Event)) :
    Accounts law (c.watch (events.zip (g.run events).1)) (g.run events).2 := by
  induction events generalizing c g with
  | nil => exact accounts
  | cons one events ih =>
    obtain ⟨clock, e⟩ := one
    exact ih (accounts.step clock e).1

theorem fresh (law : Resilience b) (config : Config) {m : μ} (holds : law.holds [] m) :
    Accounts law {} { backend := b, config, medium := m } where
  backend := rfl
  holds := holds
  numbered := Engine.numbered_fresh b config m
  sessions _ := rfl

end Accounts

def Durable.engineOn (store config : Config) (d : Device) :
    Engine Device Durable.Snapshot (Option Durable.Cursor) :=
  { Durable.engine store config with medium := { d with rows := ∅ } }

theorem Durable.Stores.committed {h : History} {d : Device} (stores : Durable.Stores h d) :
    (Durable.readVersion d.healed).1 = .ok h.length ∧ ∀ pageSize key,
      (Durable.Snapshot.get ⟨h.length, pageSize⟩ key d.healed).1 =
        .ok ((h.state h.length).get? key) := by
  obtain ⟨a, rfl, holds⟩ := stores
  obtain ⟨d', ran, _⟩ := Durable.does_readVersion holds d.healed d.faultless_healed rfl
  refine ⟨by rw [ran], fun pageSize key => ?_⟩
  obtain ⟨d'', got, _⟩ := Durable.does_get holds ⟨a.history.length, pageSize⟩ (Nat.le_refl _) key
    d.healed d.faultless_healed rfl
  rw [got]

/-- After any run, in memory and on a device that fails by any plan: the version counts the calls
that were answered with success and had staged something, and the data is what their writes make,
one after the other. The next answer, whichever event it is to, shows nothing else that is staged
but its own session's writes. -/
theorem all_or_nothing (store config : Config) (d : Device) (events : List (Clock × Event))
    (clock : Clock) (e : Event) :
    (let g := Keyspace.engine config
      let c := g.chronicle events
      let after := (g.run events).2
      after.medium.version = c.writers.length ∧
        after.medium.data = c.history.state c.writers.length ∧
        c.Explains e (after.step clock e).1) ∧
    (let g := Durable.engineOn store config d
      let c := g.chronicle events
      let after := (g.run events).2
      (Durable.readVersion after.medium.healed).1 = .ok c.writers.length ∧
        (∀ pageSize key, (Durable.Snapshot.get ⟨c.writers.length, pageSize⟩ key
            after.medium.healed).1 = .ok ((c.history.state c.writers.length).get? key)) ∧
        c.Explains e (after.step clock e).1) := by
  constructor
  · have accounts := (Accounts.fresh Keyspace.resilience config (m := {}) ⟨{}, rfl, .empty⟩).run
      events
    obtain ⟨a, same, holds⟩ := accounts.holds
    dsimp only
    rw [← Chronicle.length_history]
    refine ⟨?_, ?_, (accounts.step clock e).2⟩
    · exact holds.version.trans (congrArg List.length same)
    · exact holds.data.trans (same ▸ rfl)
  · have empty : Durable.Stores [] { d with rows := ∅ } := Durable.stores_of_empty rfl
    have accounts := (Accounts.fresh (Durable.resilience (store.withPageSize store.pageSize)
      (Durable.withPageSize_pos store)) config empty).run events
    obtain ⟨version, data⟩ := accounts.holds.committed
    dsimp only
    rw [← Chronicle.length_history]
    exact ⟨version, data, (accounts.step clock e).2⟩

end OptimisticStore
