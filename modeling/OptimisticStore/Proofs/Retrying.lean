import OptimisticStore.Proofs.Accounting
import OptimisticStore.Proofs.OwnWrites
import OptimisticStore.Proofs.Registering
import OptimisticStore.Proofs.Serializability

/-! Retries are bounded and fresh. A body is run again exactly if the engine's own commit has met a
conflict, retries are left and nothing stands against another attempt; it then starts from nothing,
on a version that has the conflict behind it, and after its last registration is gone. All other
ways out of a call are final, and a conflict that the caller has not handed over is told only by a
call that has no retries left. -/

namespace OptimisticStore

/-! ### The end of a body, move by move -/

section Moves
variable {μ σ κ : Type}

namespace Engine

/-- The engine when a body that has succeeded has committed and its registration has ended, with
others run in between. -/
def ending (g : Engine μ σ κ) (clock : Clock) (name : String) (t : Transaction σ)
    (between : List (Clock × Event)) : Engine μ σ κ :=
  endAttempt clock t.toAttempt ((commit t (g.dropSession name)).2.run between).2

def resolve (clock again : Clock) (name : String) (t : Transaction σ)
    (between before : List (Clock × Event)) : Access (Engine μ σ κ) (Option (Transaction σ)) :=
  fun g =>
    match (commit t g).1 with
    | .ok _ => (.ok none, g.ending clock name t between)
    | .error e =>
      if g.mayRetry t e then
        (do return some (← beginTransaction again t.liveness (t.retries + 1)))
          ((g.ending clock name t between).run before).2
      else (.error e, g.ending clock name t between)

def resolved (name : String) :
    Except Error (Option (Transaction σ)) × Engine μ σ κ → Answer × Engine μ σ κ
  | (.ok none, g) => (.done (.ok ()), g)
  | (.ok (some t), g) =>
    (.begun t.retries t.registration, g.setSession name (.transaction t))
  | (.error e, g) => (ended e, g)

variable {g : Engine μ σ κ} {name : String} {t : Transaction σ}

theorem stepSucceed_eq (found : g.session? name = some (.transaction t)) (clock : Clock) :
    g.stepSucceed clock name = resolved name (resolve clock clock name t [] [] g) := by
  have moved := unmoved_conclude clock t (g.dropSession name)
  have verdict : (conclude clock t (g.dropSession name)).1 = (commit t g).1 :=
    g.commit_dropSession name t
  have left : (conclude clock t (g.dropSession name)).2 = g.ending clock name t [] := rfl
  simp only [stepSucceed, found, succeed, resolve]
  rcases ran : conclude clock t (g.dropSession name) with ⟨r, g'⟩
  rw [ran] at moved verdict left
  obtain rfl : r = (commit t g).1 := verdict
  obtain rfl : g' = g.ending clock name t [] := left
  cases (commit t g).1 with
  | ok v => rfl
  | error e =>
    have same : (g.ending clock name t []).mayRetry t e = g.mayRetry t e := by
      rw [mayRetry, mayRetry, moved.config]
      rfl
    dsimp only
    rw [same]
    cases g.mayRetry t e with
    | false => rfl
    | true =>
      simp only [if_true, run, Access.bind_apply]
      rcases beginTransaction clock t.liveness (t.retries + 1) (g.ending clock name t [])
        with ⟨_ | _, _⟩ <;> rfl

theorem resolve_again {e : Error} (verdict : (commit t g).1 = .error e)
    (allowed : g.mayRetry t e = true) {clock again : Clock}
    {between before : List (Clock × Event)} :
    resolve clock again name t between before g =
      match beginTransaction again t.liveness (t.retries + 1)
        ((g.ending clock name t between).run before).2 with
      | (.ok t', g') => (.ok (some t'), g')
      | (.error e', g') => (.error e', g') := by
  rw [resolve, verdict]
  dsimp only
  rw [if_pos allowed, Access.bind_apply]
  rcases beginTransaction again t.liveness (t.retries + 1)
    ((g.ending clock name t between).run before).2 with ⟨_ | _, _⟩ <;> rfl

theorem exists_begin_iff (clock : Clock) (l : Liveness String) (retries : Nat) :
    (∃ t g', beginTransaction clock l retries g = (.ok t, g')) ↔
      g.barrier l = none ∧ ∃ one, (g.backend.begin clock.wall g.medium).1 = .ok one := by
  rw [beginTransaction_eq, beginAttempt_eq, ← barrier]
  cases g.barrier l with
  | some e => simp
  | none =>
    rcases g.backend.begin clock.wall g.medium with ⟨e | ⟨r, s⟩, m⟩
    · simp
    · simp

theorem begun_open {clock : Clock} {l : Liveness String} {a : Attempt σ} {g' : Engine μ σ κ}
    (begun : beginAttempt clock l g = (.ok a, g')) : g'.closed = none := by
  have closed := g.closed_beginAttempt clock l
  rw [begun] at closed
  rw [beginAttempt_eq] at begun
  split at begun
  · cases begun
  · next isOpen =>
    have none_closed := (Option.or_eq_none_iff.1 isOpen).1
    exact closed.trans (Option.map_eq_none_iff.1 none_closed)

theorem attempts_beginAttempt (clock : Clock) (l : Liveness String) (g : Engine μ σ κ) :
    (beginAttempt clock l g).2.attempts ≤ g.attempts + 1 := by
  rw [beginAttempt_eq]
  split
  · exact Nat.le_succ _
  · split
    · exact Nat.le_refl _
    · exact Nat.le_succ _

theorem attempts_readAlone (clock : Clock) (c : Except Error Condition) (g : Engine μ σ κ) :
    (readAlone clock c g).2.attempts ≤ g.attempts + 1 := by
  have one := attempts_beginAttempt clock .always g
  rcases begun : beginAttempt clock .always g with ⟨e | a, g'⟩ <;> rw [begun] at one
  · rw [readAlone, Access.bind_apply, begun]
    exact one
  · cases c with
    | error e =>
      rw [readAlone, Access.bind_apply, begun]
      exact one
    | ok c =>
      rw [readAlone_ok begun]
      exact one

theorem attempts_conclude (clock : Clock) (t : Transaction σ) (g : Engine μ σ κ) :
    (conclude clock t g).2.attempts = g.attempts := by
  have committed : (commit t g).2.attempts = g.attempts := by
    rw [commit_eq]
    split
    · rfl
    · split <;> rfl
  exact committed

/-- What becomes of a transaction whose body has been run `n` times and succeeds, whatever runs
between its moves. `registered` tells the registrations of a medium; one that is `full` takes no
more. -/
structure Resolves (g : Engine μ σ κ) (registered : Registration → μ → Prop) (full : μ → Prop)
    (allowed n : Nat) (name : String) (t : Transaction σ) : Prop where
  /-- An event makes the moves with nothing in between. -/
  moves clock : g.step clock (.succeed name) =
    resolved name (resolve clock clock name t [] [] g)
  /-- Once a failed attempt has ended its registration is gone. -/
  leaves clock between e : (commit t g).1 = .error e →
    ¬ registered t.registration (g.ending clock name t between).medium
  /-- The body is run again exactly if the commit has met a conflict, retries are left and nothing
  stands against it by then. -/
  again clock again between before :
    let later := ((g.ending clock name t between).run before).2
    (∃ t' g', resolve clock again name t between before g = (.ok (some t'), g')) ↔
      (∃ u v key, (commit t g).1 = .error (.conflict u v key)) ∧ n ≤ allowed ∧
        later.barrier t.liveness = none ∧ ¬ full later.medium
  /-- It then starts with nothing staged and nothing read, behind what it was in conflict with. -/
  afresh clock again between before t' g' :
    resolve clock again name t between before g = (.ok (some t'), g') →
      (t'.retries = n ∧ t'.liveness = t.liveness ∧ t'.writes = {} ∧ t'.reads = {}) ∧
        ∀ u v key, (commit t g).1 = .error (.conflict u v key) → v ≤ t'.registration.readVersion
  /-- A conflict that comes out was met by the last attempt that is allowed. -/
  last clock again between before e g' :
    resolve clock again name t between before g = (.error e, g') → e.isRetryable = true →
      (commit t g).1 = .error e ∧ n = allowed + 1

end Engine
end Moves

section Law
variable {μ σ κ : Type} {b : Backend μ σ κ} {law : Law b} {c : Chronicle} {g g' : Engine μ σ κ}
  {registered : Registration → μ → Prop} {full : μ → Prop} {name : String} {t : Transaction σ}

theorem Chronicle.length_history_watch (c : Chronicle) (seen : List ((Clock × Event) × Answer)) :
    c.history.length ≤ (c.watch seen).history.length := by
  induction seen generalizing c with
  | nil => exact Nat.le_refl _
  | cons one seen ih =>
    refine Nat.le_trans ?_ (ih (c.observe one.1.2 one.2))
    rw [c.history_observe, List.length_append]
    exact Nat.le_add_right _ _

namespace Follows
variable (follows : Follows law c g)
include follows

theorem refused {e : Error} (refused : (Engine.commit t g).1 = .error e) (name : String)
    (between : List (Clock × Event)) :
    ∃ c', Follows law c' ((Engine.commit t (g.dropSession name)).2.run between).2 ∧
      c.history.length ≤ c'.history.length := by
  have dropped := follows.forget name
  have after : Follows law (c.forget name) (Engine.commit t (g.dropSession name)).2 := by
    rw [← g.commit_dropSession name t] at refused
    generalize g.dropSession name = g at dropped refused
    rw [Engine.commit_eq] at refused ⊢
    cases stands : (g.closed.map Error.closed).or (g.flagError t.liveness) with
    | some e => exact dropped
    | none =>
      rw [stands] at refused
      cases idle : t.writes.isEmpty with
      | true => exact dropped
      | false =>
        rw [idle] at refused
        obtain rfl := dropped.backend
        have ran : g.backend.commit t.registration t.reads t.writes g.medium = (.error e, _) :=
          Prod.ext refused rfl
        exact dropped.medium (law.commit_error dropped.holds ran) g.attempts
  exact ⟨_, after.run between, (c.forget name).length_history_watch _⟩

theorem leaves {e : Error} (refused : (Engine.commit t g).1 = .error e) (clock : Clock)
    (name : String) (between : List (Clock × Event))
    (registers : law.Registers registered full) :
    ¬ registered t.registration (g.ending clock name t between).medium := by
  obtain ⟨c', after, _⟩ := follows.refused refused name between
  rw [Engine.ending, Engine.endAttempt_eq, after.backend]
  exact registers.leaves clock.wall t.registration after.holds

theorem before_again {e : Error} (refused : (Engine.commit t g).1 = .error e) (clock : Clock)
    (name : String) (between before : List (Clock × Event)) :
    ∃ c', Follows law c' ((g.ending clock name t between).run before).2 ∧
      c.history.length ≤ c'.history.length := by
  obtain ⟨c', after, longer⟩ := follows.refused refused name between
  exact ⟨_, (after.endAttempt clock t.toAttempt).run before,
    Nat.le_trans longer (c'.length_history_watch _)⟩

theorem reaches {u v : Version} {key : Bytes} (registers : law.Registers registered full)
    (refused : (Engine.commit t g).1 = .error (.conflict u v key)) : v ≤ c.history.length := by
  rw [Engine.commit_eq] at refused
  split at refused
  · next stands =>
    cases refused
    cases Engine.barrier_final (l := t.liveness) stands
  · split at refused
    · cases refused
    · obtain rfl := follows.backend
      exact registers.reaches follows.holds refused

theorem enters (registers : law.Registers registered full) {clock : Clock} {l : Liveness String}
    {a : Attempt σ} (begun : Engine.beginAttempt clock l g = (.ok a, g')) :
    registered a.registration g'.medium := by
  rw [Engine.beginAttempt_eq] at begun
  split at begun
  · cases begun
  · split at begun
    · next ran =>
      cases begun
      rw [follows.backend] at ran
      exact registers.enters follows.holds ran
    · cases begun

section Conflicts
variable {allowed : Nat} {n : String → Nat} (counted : Counted allowed n g)
  (found : g.session? name = some (.transaction t))

omit follows in
include counted found in
theorem mayRetry_iff (e : Error) : g.mayRetry t e = true ↔
    (∃ u v key, e = .conflict u v key) ∧ n name ≤ allowed := by
  rw [Engine.mayRetry, Bool.and_eq_true, e.isRetryable_iff, decide_eq_true_eq, counted.config,
    counted.sessions name _ found]
  rfl

include counted found in
/-- A body begins again exactly if its commit has met a conflict, retries are left and nothing
stands against a new attempt when it is made. -/
theorem begins_again_iff (registers : law.Registers registered full) (clock again : Clock)
    (between before : List (Clock × Event)) :
    let later := ((g.ending clock name t between).run before).2
    (∃ t' g', Engine.resolve clock again name t between before g = (.ok (some t'), g')) ↔
      (∃ u v key, (Engine.commit t g).1 = .error (.conflict u v key)) ∧ n name ≤ allowed ∧
        later.barrier t.liveness = none ∧ ¬ full later.medium := by
  intro later
  cases verdict : (Engine.commit t g).1 with
  | ok v => simp [Engine.resolve, verdict]
  | error e =>
    obtain ⟨c', here, _⟩ := follows.before_again verdict clock name between before
    have begins := Engine.exists_begin_iff (g := later) again t.liveness (t.retries + 1)
    rw [here.backend, registers.begins again.wall here.holds] at begins
    simp only [Except.error.injEq]
    rw [← and_assoc, ← mayRetry_iff counted found, ← begins]
    cases may : g.mayRetry t e with
    | false => simp [Engine.resolve, verdict, may]
    | true =>
      rw [Engine.resolve_again verdict may]
      rcases Engine.beginTransaction again t.liveness (t.retries + 1) later with ⟨_ | _, _⟩ <;>
        simp

variable {clock again : Clock} {between before : List (Clock × Event)}

omit follows in
theorem begun_of_resolve {t' : Transaction σ}
    (resolved : Engine.resolve clock again name t between before g = (.ok (some t'), g')) :
    ∃ e a, (Engine.commit t g).1 = .error e ∧
      Engine.beginAttempt again t.liveness ((g.ending clock name t between).run before).2 =
        (.ok a, g') ∧
      t' = { toAttempt := a, retries := t.retries + 1, lastHeartbeat := again.steady } := by
  cases verdict : (Engine.commit t g).1 with
  | ok v => simp [Engine.resolve, verdict] at resolved
  | error e =>
    cases may : g.mayRetry t e with
    | false => simp [Engine.resolve, verdict, may] at resolved
    | true =>
      rw [Engine.resolve_again verdict may, Engine.beginTransaction_eq] at resolved
      rcases begun : Engine.beginAttempt again t.liveness
        ((g.ending clock name t between).run before).2 with ⟨e' | a, g''⟩ <;>
        rw [begun] at resolved <;> cases resolved
      exact ⟨e, a, rfl, rfl, rfl⟩

include counted found in
/-- What the body has staged and read is forgotten when it begins again, and it sees what it was in
conflict with. -/
theorem begins_afresh (registers : law.Registers registered full) {t' : Transaction σ}
    (resolved : Engine.resolve clock again name t between before g = (.ok (some t'), g')) :
    (t'.retries = n name ∧ t'.liveness = t.liveness ∧ t'.writes = {} ∧ t'.reads = {}) ∧
      ∀ u v key, (Engine.commit t g).1 = .error (.conflict u v key) →
        v ≤ t'.registration.readVersion := by
  obtain ⟨e, a, verdict, begun, rfl⟩ := begun_of_resolve resolved
  obtain ⟨c', here, longer⟩ := follows.before_again verdict clock name between before
  obtain ⟨_, _, _, version, liveness⟩ := here.begin_ok begun
  refine ⟨⟨(counted.sessions name _ found).symm, liveness, rfl, rfl⟩, fun u v key conflict => ?_⟩
  rw [version]
  exact Nat.le_trans (follows.reaches registers conflict) longer

omit follows in
include counted found in
theorem last_of_resolve (clear : g.Clear) {e : Error}
    (resolved : Engine.resolve clock again name t between before g = (.error e, g'))
    (retryable : e.isRetryable = true) :
    (Engine.commit t g).1 = .error e ∧ n name = allowed + 1 := by
  cases verdict : (Engine.commit t g).1 with
  | ok v => simp [Engine.resolve, verdict] at resolved
  | error e =>
    cases may : g.mayRetry t e with
    | false =>
      simp only [Engine.resolve, verdict, may, Bool.false_eq_true, if_false] at resolved
      cases resolved
      exact ⟨rfl, counted.last found retryable may⟩
    | true =>
      have dropped := clear.dropSession name
      have committed := (dropped.unmoved (Engine.unmoved_commit t _)).run between
      have later := (committed.unmoved (Engine.unmoved_endAttempt clock t.toAttempt _)).run before
      have final : Conclusive (Engine.beginAttempt again t.liveness
        ((g.ending clock name t between).run before).2).1 := later.beginAttempt again t.liveness
      rw [Engine.resolve_again verdict may, Engine.beginTransaction_eq] at resolved
      rcases begun : Engine.beginAttempt again t.liveness
        ((g.ending clock name t between).run before).2 with ⟨e' | a, g''⟩ <;>
        rw [begun] at resolved final <;> cases resolved
      cases final.symm.trans retryable

theorem resolves (clear : g.Clear) (registers : law.Registers registered full)
    (counted : Counted allowed n g) (found : g.session? name = some (.transaction t)) :
    g.Resolves registered full allowed (n name) name t where
  moves clock := Engine.stepSucceed_eq found clock
  leaves clock between _ refused := follows.leaves refused clock name between registers
  again := follows.begins_again_iff counted found registers
  afresh _ _ _ _ _ _ := follows.begins_afresh counted found registers
  last _ _ _ _ _ _ := last_of_resolve counted found clear

end Conflicts

theorem commit_unread (registers : law.Registers registered full)
    (there : registered t.registration g.medium) (unread : t.reads = {}) :
    Conclusive (Engine.commit t g).1 := by
  rw [Engine.commit_eq]
  split
  · next stands => exact Engine.barrier_final (l := t.liveness) stands
  · split
    · trivial
    · obtain rfl := follows.backend
      rw [unread]
      exact registers.passes t.writes follows.holds there

/-- A call that only stages runs its body once: it has read nothing that could be in conflict. -/
theorem alone (clear : g.Clear) (registers : law.Registers registered full) (clock : Clock)
    (l : Liveness String) (writes : List (Bytes × Option Bytes)) (left retries : Nat) :
    Conclusive (Engine.transactAlone clock l writes left retries g).1 ∧
      (Engine.transactAlone clock l writes left retries g).2.attempts ≤ g.attempts + 1 := by
  have calm := clear.beginAttempt clock l
  have one := Engine.attempts_beginAttempt clock l g
  unfold Engine.transactAlone
  rw [Access.bind_apply, Engine.beginTransaction_eq]
  rcases begun : Engine.beginAttempt clock l g with ⟨e | a, g₁⟩ <;> rw [begun] at calm one
  · exact ⟨calm, one⟩
  · have entered := (follows.begin_ok begun).1
    have there := follows.enters registers begun
    have isOpen : (g₁.moment clock l).shut = none := by
      rw [Moment.shut, Engine.moment, Engine.begun_open begun]
      rfl
    have staged := Engine.stageAll_open isOpen writes
      { toAttempt := a, retries, lastHeartbeat := clock.steady } g₁.medium
    simp only [Access.bind_apply, Access.medium, staged, Access.outcome]
    generalize made : Transaction.staging { toAttempt := a, retries, lastHeartbeat := clock.steady }
      writes = t
    have registration : t.registration = a.registration := made ▸ rfl
    have verdict : Conclusive (Engine.conclude clock t g₁).1 :=
      entered.commit_unread registers (registration ▸ there) (made ▸ rfl)
    have same := Engine.attempts_conclude clock t g₁
    rcases ran : Engine.conclude clock t g₁ with ⟨e | v, g₂⟩ <;> rw [ran] at verdict same
    · have final : g₁.mayRetry t e = false := by
        have final : e.isRetryable = false := verdict
        rw [Engine.mayRetry, final, Bool.false_and]
      cases left with
      | zero => exact ⟨verdict, same ▸ one⟩
      | succ left =>
        simp only [final, Bool.false_eq_true, if_false]
        exact ⟨verdict, same ▸ one⟩
    · exact ⟨trivial, same ▸ one⟩

end Follows
end Law

/-! ### Calls over either store -/

section Calls
variable {μ σ κ : Type}

/-- What becomes of the calls that run on this engine, of which each has had its body started so
often, with so many retries allowed. -/
structure Engine.Retries (g : Engine μ σ κ) (registered : Registration → μ → Prop)
    (full : μ → Prop) (allowed : Nat) (n : String → Nat) : Prop where
  /-- No body is run more often than once and once for each retry. -/
  bounded name : n name ≤ allowed + 1
  resolves name t : g.session? name = some (.transaction t) →
    g.Resolves registered full allowed (n name) name t
  /-- An error of the body, whichever it is, ends the call. -/
  fails clock name s cause : g.session? name = some s →
    let out := g.step clock (.fail name cause)
    out.1 = .done (.error cause) ∧ out.2.session? name = none ∧ out.2.attempts = g.attempts
  /-- A view is not run again. -/
  views name a : g.session? name = some (.view a) →
    n name = 1 ∧ ∀ clock, (g.step clock (.succeed name)).1 = .done (.ok ())
  /-- Nor is a call of one event. -/
  alone clock e : ((∃ l writes, e = .run l writes) ∨ ∃ c, e = .read c) →
    (g.step clock e).2.attempts ≤ g.attempts + 1
  /-- An answer that tells of a conflict hands back what the caller has handed over, or ends a call
  whose last attempt has met it. -/
  conflicts clock e err : err ∈ (g.step clock e).1.error? → err.isRetryable = true →
    (∃ name, e = .fail name (.store err)) ∨ e = .read (.error err) ∨
      ∃ name t, e = .succeed name ∧ g.session? name = some (.transaction t) ∧
        (commit t g).1 = .error err ∧ n name = allowed + 1

theorem Follows.retries {b : Backend μ σ κ} {law : Law b} {c : Chronicle} {g : Engine μ σ κ}
    {registered : Registration → μ → Prop} {full : μ → Prop} {allowed : Nat} {n : String → Nat}
    (follows : Follows law c g) (clear : g.Clear) (registers : law.Registers registered full)
    (counted : Counted allowed n g) : g.Retries registered full allowed n := by
  constructor
  · exact counted.le
  · intro name t found
    exact follows.resolves clear registers counted found
  · intro clock name s cause found
    simp only [Engine.step, Engine.stepFail, found]
    exact ⟨trivial, g.session?_dropSession name, rfl⟩
  · intro name a found
    refine ⟨counted.sessions name _ found, fun clock => ?_⟩
    simp only [Engine.step, Engine.stepSucceed, found]
  · rintro clock _ (⟨l, writes, rfl⟩ | ⟨c, rfl⟩)
    · have once := (follows.alone clear registers clock l writes g.config.maxRetries 0).2
      rw [Engine.step]
      split <;> next ran => rwa [ran] at once
    · have once := Engine.attempts_readAlone clock c g
      rw [Engine.step]
      split <;> next ran => rwa [ran] at once
  · intro clock e err told retryable
    cases (clear.step clock e).2 err told retryable with
    | handed name => exact .inl ⟨name, rfl⟩
    | asked => exact .inr (.inl rfl)
    | last name t found refused spent =>
      exact .inr (.inr ⟨name, t, rfl, found, refused, counted.last found retryable spent⟩)
    | alone l writes =>
      have final := (follows.alone clear registers clock l writes g.config.maxRetries 0).1
      rw [Engine.step] at told
      rcases ran : Engine.transactAlone clock l writes g.config.maxRetries 0 g with ⟨e | _, g'⟩ <;>
        rw [ran] at final told <;> cases told
      cases final.symm.trans retryable

end Calls

/-- Retries are bounded and fresh, over either store, in every run. -/
theorem retries_bounded (store config : Config) (events : List (Clock × Event)) :
    ((Keyspace.engine config).run events).2.Retries (fun r s => r ∈ s.running) (fun _ => False)
        config.maxRetries
        (fun name => starts name (events.zip ((Keyspace.engine config).run events).1)) ∧
      ((Durable.engine store config).run events).2.Retries
        (fun r d => Durable.InLedger d.rows r) Durable.Full config.maxRetries
        (fun name => starts name (events.zip ((Durable.engine store config).run events).1)) := by
  constructor
  · have follows := Follows.fresh Keyspace.law config (m := {}) ⟨{}, rfl, .empty⟩
    have clear : (Keyspace.engine config).Clear := ⟨Keyspace.concludes, fun _ _ => nofun⟩
    exact (follows.run events).retries (clear.run events) Keyspace.registers
      (Counted.fresh _ config _ events)
  · have pos := Durable.withPageSize_pos store
    have follows := Follows.fresh (Durable.law (store.withPageSize store.pageSize) pos) config
      (m := {}) ⟨{}, rfl, .empty, Device.faultless_new⟩
    have clear : (Durable.engine store config).Clear := ⟨Durable.concludes _, fun _ _ => nofun⟩
    exact (follows.run events).retries (clear.run events) (Durable.registers _ pos)
      (Counted.fresh _ config _ events)

/-- A body that has read a key is overtaken, and is overtaken again when it is run once more. -/
def overtakenTwice : List (Clock × Event) :=
  [.transact "a" .always, .get "a" [107], .stage "a" ([108], some [1]),
    .run .always [([107], some [2])], .succeed "a", .get "a" [107], .stage "a" ([108], some [1]),
    .run .always [([107], some [3])]].map (⟨0, 0⟩, ·)

theorem retries_bounded_sample :
    let config : Config := { maxRetries := 1 }
    let g := Durable.engine {} config
    (((g.run overtakenTwice).2.step ⟨0, 0⟩ (.succeed "a")).1.error?.any (·.isRetryable) = true) ∧
      starts "a" (overtakenTwice.zip (g.run overtakenTwice).1) = 2 := by
  intro config g
  have told : ((g.run overtakenTwice).2.step ⟨0, 0⟩ (.succeed "a")).1.error?.any
      (·.isRetryable) = true := by decide +kernel
  refine ⟨told, ?_⟩
  obtain ⟨err, told, retryable⟩ := (Option.any_eq_true _ _).1 told
  rcases (retries_bounded {} config overtakenTwice).2.conflicts ⟨0, 0⟩ (.succeed "a") err told
    retryable with ⟨name, ⟨⟩⟩ | ⟨⟨⟩⟩ | ⟨name, t, ⟨⟩, found, refused, count⟩
  exact count

end OptimisticStore
