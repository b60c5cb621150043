import OptimisticStore.Proofs.Closing
import OptimisticStore.Proofs.Numbering

/-! How often the body of a call is run. It can be told from outside: by the answer that starts it
for the first time and by each answer that starts it again. A running transaction keeps count of it
itself, and as a body is only started again while retries are left, the count never gets beyond
them. Nothing here depends on the backend. -/

namespace OptimisticStore

/-- How often the body of the call that goes by this name has been started, if it was `n` times
before this event and its answer. -/
def Event.starts (name : String) (n : Nat) : Event → Answer → Nat
  | .transact called _, .begun .. | .snapshot called _, .viewing _ => if called = name then 1 else n
  | .succeed called, .begun .. => if called = name then n + 1 else n
  | _, _ => n

def starts (name : String) (seen : List ((Clock × Event) × Answer)) : Nat :=
  seen.foldl (fun n one => one.1.2.starts name n one.2) 0

def Session.retries {σ : Type} : Session σ → Nat
  | .transaction t => t.retries
  | .view _ => 0

variable {μ σ κ α β : Type}

/-! ### Moves of a body leave the count alone -/

def Transaction.KeepsCount (x : Access (Transaction σ × μ) α) : Prop :=
  ∀ t m, (x (t, m)).2.1.retries = t.retries

namespace Transaction
variable {b : Backend μ σ κ} {now : Moment}

theorem keepsCount_pure (a : α) : KeepsCount (pure a : Access (Transaction σ × μ) α) :=
  fun _ _ => rfl

theorem KeepsCount.bind {x : Access (Transaction σ × μ) α}
    {f : α → Access (Transaction σ × μ) β} (hx : KeepsCount x) (hf : ∀ a, KeepsCount (f a)) :
    KeepsCount (x >>= f) := by
  intro t m
  have first := hx t m
  rw [Access.bind_apply]
  rcases ran : x (t, m) with ⟨e | a, t', m'⟩ <;> rw [ran] at first
  · exact first
  · exact (hf a t' m').trans first

theorem keepsCount_pass (gate : Option Error) :
    KeepsCount (Access.pass gate : Access (Transaction σ × μ) Unit) := by
  cases gate <;> exact fun _ _ => rfl

theorem keepsCount_update {f : Transaction σ → Transaction σ}
    (same : ∀ t, (f t).retries = t.retries) :
    KeepsCount (update f : Access (Transaction σ × μ) Unit) := fun t _ => same t

theorem keepsCount_current : KeepsCount (current : Access (Transaction σ × μ) _) := fun _ _ => rfl

theorem keepsCount_onSecond (x : Access μ α) :
    KeepsCount (Access.onSecond x : Access (Transaction σ × μ) α) := fun _ _ => rfl

theorem keepsCount_record (range : KeyRange) :
    KeepsCount (record range : Access (Transaction σ × μ) Unit) := keepsCount_update fun _ => rfl

theorem keepsCount_prepare : KeepsCount (prepare b now) := by
  refine (keepsCount_pass _).bind fun _ => keepsCount_current.bind fun t => ?_
  split
  · exact (keepsCount_onSecond _).bind fun _ => keepsCount_update fun _ => rfl
  · exact keepsCount_pure ()

theorem keepsCount_get (key : Bytes) : KeepsCount (Transaction.get b now key) :=
  keepsCount_prepare.bind fun _ => (keepsCount_record _).bind fun _ =>
    keepsCount_current.bind fun t => by
      cases t.writes.get? key with
      | some staged => exact keepsCount_pure staged
      | none => exact keepsCount_onSecond _

theorem keepsCount_getMany (keys : List Bytes) : KeepsCount (getMany b now keys) := by
  rw [getMany]
  induction keys with
  | nil => exact keepsCount_pure []
  | cons key keys ih =>
    rw [List.mapM_cons]
    exact (keepsCount_get key).bind fun _ => ih.bind fun _ => keepsCount_pure _

theorem keepsCount_query (c : Condition) : KeepsCount (Transaction.query b now c) :=
  keepsCount_prepare.bind fun _ => (keepsCount_record _).bind fun _ =>
    keepsCount_current.bind fun _ => keepsCount_pure _

theorem keepsCount_queryRows (c : Condition) : KeepsCount (Engine.queryRows b now c) :=
  (keepsCount_query c).bind fun _ => keepsCount_onSecond _

theorem keepsCount_scan (c : Condition) (limit : Nat) : KeepsCount (scan b now c limit) :=
  keepsCount_prepare.bind fun _ => keepsCount_current.bind fun _ =>
    (keepsCount_onSecond _).bind fun _ => (keepsCount_record _).bind fun _ => keepsCount_pure _

theorem keepsCount_stageAndCount (write : Bytes × Option Bytes) :
    KeepsCount (Engine.stageAndCount now write : Access (Transaction σ × μ) Nat) :=
  .bind ((keepsCount_pass _).bind fun _ => keepsCount_update fun _ => rfl) fun _ =>
    keepsCount_current.bind fun _ => keepsCount_pure _

end Transaction

/-! ### What stays as it is -/

structure Engine.Unmoved (g g' : Engine μ σ κ) : Prop where
  backend : g'.backend = g.backend
  config : g'.config = g.config
  sessions : g'.sessions = g.sessions
  streams : g'.streams = g.streams

namespace Engine
variable {g g' g'' : Engine μ σ κ}

theorem Unmoved.refl (g : Engine μ σ κ) : g.Unmoved g := ⟨rfl, rfl, rfl, rfl⟩

theorem Unmoved.trans (first : g.Unmoved g') (second : g'.Unmoved g'') : g.Unmoved g'' where
  backend := second.backend.trans first.backend
  config := second.config.trans first.config
  sessions := second.sessions.trans first.sessions
  streams := second.streams.trans first.streams

theorem unmoved_onMedium (x : Access μ α) (g : Engine μ σ κ) : g.Unmoved (onMedium x g).2 :=
  ⟨rfl, rfl, rfl, rfl⟩

theorem unmoved_endAttempt (clock : Clock) (a : Attempt σ) (g : Engine μ σ κ) :
    g.Unmoved (endAttempt clock a g) := ⟨rfl, rfl, rfl, rfl⟩

theorem unmoved_beginAttempt (clock : Clock) (l : Liveness String) (g : Engine μ σ κ) :
    g.Unmoved (beginAttempt clock l g).2 := by
  rw [beginAttempt_eq]
  split
  · exact .refl g
  · split <;> exact ⟨rfl, rfl, rfl, rfl⟩

theorem unmoved_commit (t : Transaction σ) (g : Engine μ σ κ) : g.Unmoved (commit t g).2 := by
  rw [commit_eq]
  split
  · exact .refl g
  · split
    · exact .refl g
    · exact unmoved_onMedium _ g

theorem unmoved_conclude (clock : Clock) (t : Transaction σ) (g : Engine μ σ κ) :
    g.Unmoved (conclude clock t g).2 :=
  (unmoved_commit t g).trans (unmoved_endAttempt clock t.toAttempt _)

theorem unmoved_transactAlone (clock : Clock) (l : Liveness String)
    (writes : List (Bytes × Option Bytes)) (left retries : Nat) (g : Engine μ σ κ) :
    g.Unmoved (transactAlone clock l writes left retries g).2 := by
  induction left using Nat.strongRecOn generalizing g retries with
  | ind left ih =>
    have begun := unmoved_beginAttempt clock l g
    unfold transactAlone
    rw [Access.bind_apply, beginTransaction_eq]
    rcases ran : beginAttempt clock l g with ⟨e | a, g₁⟩ <;> rw [ran] at begun
    · exact begun
    · rcases staged : stageAll (g₁.moment clock l) writes
        ({ toAttempt := a, retries, lastHeartbeat := clock.steady }, g₁.medium) with
        ⟨e | _, t, m⟩ <;>
        simp only [Access.bind_apply, Access.medium, staged]
      · exact begun.trans (unmoved_endAttempt clock a g₁)
      · have concluded := begun.trans (unmoved_conclude clock t g₁)
        simp only [Access.outcome]
        rcases ran : conclude clock t g₁ with ⟨e | v, g₂⟩ <;> rw [ran] at concluded
        · cases left with
          | zero => exact concluded
          | succ left =>
            dsimp only
            split
            · exact concluded.trans (ih left (Nat.lt_succ_self left) (retries + 1) g₂)
            · exact concluded
        · exact concluded

theorem unmoved_readAlone (clock : Clock) (c : Except Error Condition) (g : Engine μ σ κ) :
    g.Unmoved (readAlone clock c g).2 := by
  have begun := unmoved_beginAttempt clock .always g
  rcases ran : beginAttempt clock .always g with ⟨e | a, g'⟩ <;> rw [ran] at begun
  · rw [readAlone, Access.bind_apply, ran]
    exact begun
  · cases c with
    | error e =>
      rw [readAlone, Access.bind_apply, ran]
      exact begun.trans (unmoved_endAttempt clock a g')
    | ok c =>
      rw [readAlone_ok ran]
      exact begun.trans ⟨rfl, rfl, rfl, rfl⟩

theorem unmoved_close (reason : String) (g : Engine μ σ κ) : g.Unmoved (close reason g).2 := by
  rw [close]
  split
  · exact .refl g
  · exact ⟨rfl, rfl, rfl, rfl⟩

theorem config_stepPoll (stream : String) (g : Engine μ σ κ) :
    (g.stepPoll stream).2.config = g.config := by
  rw [stepPoll]
  split
  · rfl
  · dsimp only
    split <;> rfl

theorem exists_enter_eq (g : Engine μ σ κ) (name : String) (s : Session σ) :
    ∃ m, g.enter name s = ({ g with medium := m } : Engine μ σ κ).setSession name s := by
  rw [enter]
  cases g.session? name with
  | none => exact ⟨g.medium, rfl⟩
  | some old => exact ⟨g.backend.abandon old.attempt.registration g.medium, rfl⟩

end Engine

/-! ### The count of a session is what can be told from outside -/

/-- With so many retries allowed, no call has run its body too often, and each session knows how
often it has run its own. -/
structure Counted (allowed : Nat) (n : String → Nat) (g : Engine μ σ κ) : Prop where
  config : g.config.maxRetries = allowed
  le : ∀ name, n name ≤ allowed + 1
  sessions : ∀ name s, g.session? name = some s → n name = s.retries + 1

namespace Counted
variable {allowed : Nat} {n k : String → Nat} {g g' : Engine μ σ κ} {name : String}

theorem goOn (counted : Counted allowed n g) (config : g'.config = g.config)
    (kept : ∀ other s', g'.session? other = some s' →
      ∃ s, g.session? other = some s ∧ s'.retries = s.retries) : Counted allowed n g' where
  config := (congrArg Config.maxRetries config).trans counted.config
  le := counted.le
  sessions other s' found := by
    obtain ⟨s, found, same⟩ := kept other s' found
    rw [counted.sessions other s found, same]

theorem last (counted : Counted allowed n g) {t : Transaction σ}
    (found : g.session? name = some (.transaction t)) {e : Error} (retryable : e.isRetryable = true)
    (spent : g.mayRetry t e = false) : n name = allowed + 1 := by
  rw [Engine.mayRetry, retryable, Bool.true_and, decide_eq_false_iff_not, counted.config,
    Nat.not_lt] at spent
  have count := counted.sessions name _ found
  exact Nat.le_antisymm (counted.le name) (count ▸ Nat.succ_le_succ spent)

theorem unmoved (counted : Counted allowed n g) (unmoved : g.Unmoved g') : Counted allowed n g' :=
  counted.goOn unmoved.config fun other s found =>
    ⟨s, by rwa [Engine.session?, ← unmoved.sessions], rfl⟩

theorem dropSession (counted : Counted allowed n g) (name : String) :
    Counted allowed n (g.dropSession name) :=
  counted.goOn rfl fun other s found => by
    rw [Engine.session?_dropSession_eq] at found
    split at found
    · cases found
    · exact ⟨s, found, rfl⟩

theorem setSession (counted : Counted allowed n g) {s s' : Session σ}
    (found : g.session? name = some s) (same : s'.retries = s.retries) :
    Counted allowed n (g.setSession name s') :=
  counted.goOn rfl fun other s'' there => by
    rw [Engine.session?_setSession] at there
    split at there
    · next here =>
      cases there
      exact ⟨s, here ▸ found, same⟩
    · exact ⟨s'', there, rfl⟩

theorem start (counted : Counted allowed n g) {s : Session σ} (room : s.retries ≤ allowed)
    (here : k name = s.retries + 1) (others : ∀ other, other ≠ name → k other = n other) :
    Counted allowed k (g.setSession name s) where
  config := counted.config
  le other := by
    by_cases same : other = name
    · rw [same, here]
      exact Nat.succ_le_succ room
    · rw [others other same]
      exact counted.le other
  sessions other s' there := by
    rw [Engine.session?_setSession] at there
    split at there
    · next same =>
      cases there
      rw [same, here]
    · next apart =>
      rw [others other apart]
      exact counted.sessions other s' there

/-! ### One event -/

abbrev after (n : String → Nat) (e : Event) (answer : Answer) : String → Nat :=
  fun name => e.starts name (n name) answer

section Steps
variable (counted : Counted allowed n g) (clock : Clock)
include counted

theorem enter {s : Session σ} (fresh : s.retries = 0) (here : k name = 1)
    (others : ∀ other, other ≠ name → k other = n other) :
    Counted allowed k (g.enter name s) := by
  obtain ⟨m, entered⟩ := g.exists_enter_eq name s
  rw [entered]
  have moved : Counted allowed n { g with medium := m } := counted.unmoved ⟨rfl, rfl, rfl, rfl⟩
  exact moved.start (fresh ▸ Nat.zero_le allowed) (here.trans (congrArg (· + 1) fresh.symm)) others

theorem stepTransact (l : Liveness String) :
    Counted allowed (after n (.transact name l) (g.stepTransact clock name l).1)
      (g.stepTransact clock name l).2 := by
  have begun := counted.unmoved (Engine.unmoved_beginAttempt clock l g)
  rw [Engine.stepTransact, Engine.beginTransaction_eq]
  rcases ran : Engine.beginAttempt clock l g with ⟨e | a, g'⟩ <;> rw [ran] at begun
  · exact begun
  · exact begun.enter rfl (if_pos rfl) fun other apart => if_neg (Ne.symm apart)

theorem stepSnapshot (l : Liveness String) :
    Counted allowed (after n (.snapshot name l) (g.stepSnapshot clock name l).1)
      (g.stepSnapshot clock name l).2 := by
  have begun := counted.unmoved (Engine.unmoved_beginAttempt clock l g)
  rw [Engine.stepSnapshot]
  rcases ran : Engine.beginAttempt clock l g with ⟨e | a, g'⟩ <;> rw [ran] at begun
  · exact begun
  · exact begun.enter rfl (if_pos rfl) fun other apart => if_neg (Ne.symm apart)

theorem within {t : Transaction σ} (found : g.session? name = some (.transaction t))
    {x : Backend μ σ κ → Moment → Access (Transaction σ × μ) α}
    (keeps : ∀ now, Transaction.KeepsCount (x g.backend now)) :
    Counted allowed n (Engine.within name clock t x g).2 := by
  rw [Engine.within_eq]
  have moved : Counted allowed n
      { g with medium := (x g.backend (g.moment clock t.liveness) (t, g.medium)).2.2 } :=
    counted.unmoved ⟨rfl, rfl, rfl, rfl⟩
  exact moved.setSession found (keeps _ t g.medium)

theorem stepRead (answer : Except Error α → Answer)
    {inTransaction : Backend μ σ κ → Moment → Access (Transaction σ × μ) α}
    {inView : Backend μ σ κ → Moment → Attempt σ → Access μ α}
    (keeps : ∀ now, Transaction.KeepsCount (inTransaction g.backend now)) :
    Counted allowed n (g.stepRead clock name answer inTransaction inView).2 := by
  cases found : g.session? name with
  | none =>
    simp only [Engine.stepRead, found]
    exact counted
  | some s =>
    cases s with
    | transaction t =>
      simp only [Engine.stepRead, found]
      exact counted.within clock found keeps
    | view a =>
      simp only [Engine.stepRead, found]
      exact counted.unmoved (Engine.unmoved_onMedium _ g)

theorem stepTransaction (answer : Except Error α → Answer)
    {x : Backend μ σ κ → Moment → Access (Transaction σ × μ) α}
    (keeps : ∀ now, Transaction.KeepsCount (x g.backend now)) :
    Counted allowed n (g.stepTransaction clock name answer x).2 := by
  cases found : g.session? name with
  | none =>
    simp only [Engine.stepTransaction, found]
    exact counted
  | some s =>
    cases s with
    | transaction t =>
      simp only [Engine.stepTransaction, found]
      exact counted.within clock found keeps
    | view a =>
      simp only [Engine.stepTransaction, found]
      exact counted

omit counted in
theorem opened {s : Session σ} {stream : String} {one : Except Error (Feed κ) × Engine μ σ κ}
    (read : Counted allowed n one.2) : Counted allowed n (Engine.opened s stream one).2 := by
  obtain ⟨e | feed, g'⟩ := one
  · exact read
  · exact read.goOn rfl fun _ s found => ⟨s, found, rfl⟩

theorem stepOpen (c : Condition) (stream : String) :
    Counted allowed n (g.stepOpen clock name c stream).2 := by
  cases found : g.session? name with
  | none =>
    simp only [Engine.stepOpen, found]
    exact counted
  | some s =>
    cases s with
    | transaction t =>
      rw [Engine.stepOpen_transaction clock c stream found]
      exact opened (counted.within clock found fun _ => Transaction.keepsCount_query c)
    | view a =>
      rw [Engine.stepOpen_view clock c stream found]
      exact opened (counted.unmoved (Engine.unmoved_onMedium _ g))

theorem stepPoll (stream : String) : Counted allowed n (g.stepPoll stream).2 := by
  refine counted.goOn (Engine.config_stepPoll stream g) fun other s found => ⟨s, ?_, rfl⟩
  cases here : g.stream? stream with
  | none =>
    have absent : g.streams.lookup stream = none := here
    simp only [Engine.stepPoll, absent] at found
    exact found
  | some st =>
    have same := (Engine.polled_stepPoll here rfl).2.2.sessions
    rwa [Engine.session?, ← same]

theorem stepSucceed :
    Counted allowed (after n (.succeed name) (g.stepSucceed clock name).1)
      (g.stepSucceed clock name).2 := by
  cases found : g.session? name with
  | none =>
    simp only [Engine.stepSucceed, found]
    exact counted
  | some s =>
    have dropped := counted.dropSession name
    cases s with
    | view a =>
      simp only [Engine.stepSucceed, found]
      exact dropped.unmoved (Engine.unmoved_endAttempt clock a _)
    | transaction t =>
      have concluded := dropped.unmoved (Engine.unmoved_conclude clock t (g.dropSession name))
      simp only [Engine.stepSucceed, found, Engine.succeed]
      rcases ran : Engine.conclude clock t (g.dropSession name) with ⟨e | v, g'⟩ <;>
        rw [ran] at concluded
      · cases again : g'.mayRetry t e with
        | false =>
          simp only [again, Bool.false_eq_true, if_false]
          exact concluded
        | true =>
          have begun := concluded.unmoved (Engine.unmoved_beginAttempt clock t.liveness g')
          have left : t.retries + 1 ≤ allowed := by
            rw [Engine.mayRetry, concluded.config, Bool.and_eq_true, decide_eq_true_eq] at again
            exact again.2
          have count := counted.sessions name (.transaction t) found
          rcases ran : Engine.beginAttempt clock t.liveness g' with ⟨e | a, g''⟩ <;>
            rw [ran] at begun <;>
            simp only [again, if_true, Access.bind_apply, Engine.beginTransaction_eq, ran,
              Access.pure_apply]
          · exact begun
          · exact begun.start (k := after n (.succeed name) (.begun (t.retries + 1) _)) left
              ((if_pos rfl).trans (congrArg (· + 1) count))
              fun other apart => if_neg (Ne.symm apart)
      · exact concluded

theorem stepFail (cause : BodyError) : Counted allowed n (g.stepFail clock name cause).2 := by
  rw [Engine.stepFail]
  split
  · exact counted
  · exact (counted.dropSession name).unmoved (Engine.unmoved_endAttempt clock _ _)

theorem stepDrop : Counted allowed n (g.stepDrop name).2 := by
  rw [Engine.stepDrop]
  split
  · exact counted
  · exact (counted.dropSession name).unmoved ⟨rfl, rfl, rfl, rfl⟩

end Steps

theorem step (counted : Counted allowed n g) (clock : Clock) (e : Event) :
    Counted allowed (after n e (g.step clock e).1) (g.step clock e).2 := by
  cases e with
  | transact name l => exact counted.stepTransact clock l
  | snapshot name l => exact counted.stepSnapshot clock l
  | get name key =>
    exact counted.stepRead clock _ fun _ => Transaction.keepsCount_get key
  | getMany name keys =>
    exact counted.stepTransaction clock _ fun _ => Transaction.keepsCount_getMany keys
  | stage name write =>
    exact counted.stepTransaction clock _ fun _ => Transaction.keepsCount_stageAndCount write
  | query name c =>
    exact counted.stepRead clock _ fun _ => Transaction.keepsCount_queryRows c
  | scan name c limit =>
    exact counted.stepRead clock _ fun _ => Transaction.keepsCount_scan c limit
  | openStream name c stream => exact counted.stepOpen clock c stream
  | poll stream => exact counted.stepPoll stream
  | succeed name => exact counted.stepSucceed clock
  | fail name cause => exact counted.stepFail clock cause
  | drop name => exact counted.stepDrop
  | cancel flag => exact counted.unmoved ⟨rfl, rfl, rfl, rfl⟩
  | run l writes =>
    have ran := counted.unmoved
      (Engine.unmoved_transactAlone clock l writes g.config.maxRetries 0 g)
    rw [Engine.step]
    split <;> next same => rwa [same] at ran
  | read c =>
    have ran := counted.unmoved (Engine.unmoved_readAlone clock c g)
    rw [Engine.step]
    split <;> next same => rwa [same] at ran
  | stats => exact counted.unmoved (Engine.unmoved_onMedium _ g)
  | close reason => exact counted.unmoved (Engine.unmoved_close reason g)

theorem run (counted : Counted allowed n g) (events : List (Clock × Event)) :
    Counted allowed (fun name => (events.zip (g.run events).1).foldl
      (fun n one => one.1.2.starts name n one.2) (n name)) (g.run events).2 := by
  induction events generalizing n g with
  | nil => exact counted
  | cons one events ih =>
    obtain ⟨clock, e⟩ := one
    exact ih (counted.step clock e)

theorem fresh (b : Backend μ σ κ) (config : Config) (m : μ) (events : List (Clock × Event)) :
    Counted config.maxRetries
      (fun name => starts name
        (events.zip (Engine.run { backend := b, config, medium := m } events).1))
      (Engine.run { backend := b, config, medium := m } events).2 := by
  have start : Counted config.maxRetries (fun _ => 0)
      ({ backend := b, config, medium := m } : Engine μ σ κ) :=
    ⟨rfl, fun _ => Nat.zero_le _, fun _ _ => nofun⟩
  exact start.run events

end Counted
end OptimisticStore
