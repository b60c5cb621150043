import OptimisticStore.Proofs.AllOrNothing
import OptimisticStore.Proofs.Closing
import OptimisticStore.Proofs.Narrowing

/-! Streams never outlive their gate. What stands against a stream can be told from outside: the
engine is closed, or the attempt that opened it has ended, or its flag is cancelled. From then on
a poll gives no row, however many rows were pulled or fetched ahead before; if it gives anything,
it is the error of whatever stands there now. And what stands there never goes away. -/

namespace OptimisticStore

namespace Chronicle

/-- What stands against the polls of a stream, if the engine was closed for this reason. A closed
engine counts before an ended attempt, and that before a cancelled flag. -/
def streamGate (c : Chronicle) (reason : Option String) (stream : String) : Option Error :=
  (reason.map Error.closed).or <|
    match (c.owner stream).bind c.running with
    | some story => if story.liveness.isAlive c.cancelled then none else some .cancelled
    | none => some .attemptEnded

theorem shuts_iff {c : Chronicle} {reason : Option String} (closed : c.closed = reason.isSome)
    (stream : String) : c.Shuts stream ↔ (c.streamGate reason stream).isSome = true := by
  rw [streamGate, Shuts]
  cases reason with
  | some reason => simp [Stopped, isOpen, closed]
  | none =>
    rw [Option.map_none, Option.none_or]
    cases owned : c.owner stream with
    | none => simp
    | some name =>
      cases told : c.running name with
      | none => simp [Stopped, told]
      | some story => cases alive : story.liveness.isAlive c.cancelled <;>
          simp [Stopped, told, isOpen, closed, alive]

end Chronicle

/-! ### What a shut stream gives -/

def Backend.Heeds {μ σ κ : Type} (b : Backend μ σ κ) : Prop :=
  ∀ err c m item, (b.poll (some err) c m).1 = some item → item = .error err

theorem Keyspace.heeds : backend.Heeds := by
  intro err w s item given
  have given : (Keyspace.poll (some err) w).1 = some item := given
  rw [Keyspace.poll] at given
  cases found : w.next with
  | none =>
    rw [found] at given
    cases given
  | some row =>
    rw [found] at given
    cases given
    rfl

theorem Durable.heeds (config : Config) : (backend config).Heeds := by
  rintro err (_ | c) d item given
  · cases given
  · have given : (c.pull (some err) (d.rows.size + 2) d).1 = some item := given
    rw [Cursor.pull] at given
    cases given
    rfl

section Gates
variable {μ σ κ : Type} {b : Backend μ σ κ}

theorem Feed.poll_heeds (heeds : b.Heeds) {err : Error} {feed : Feed κ} {m : μ} {item : Item}
    (given : (feed.poll b (some err) m).1 = some item) : item = .error err := by
  have guarded {given : Option Item} (passed : given.map (guard (some err)) = some item) :
      item = .error err := by
    obtain ⟨_, _, same⟩ := Option.map_eq_some_iff.1 passed
    exact same.symm
  cases feed with
  | plain cursor => exact heeds err cursor m item given
  | guarded cursor => exact guarded given
  | overlaid o => exact guarded given

variable {law : Law b} {bare : Resilience b} {c : Chronicle} {g : Engine μ σ κ} {stream : String}

theorem Follows.owned (follows : Follows law c g) {name : String}
    (mine : c.owner stream = some name) : ∃ s story st, g.session? name = some s ∧
      c.running name = some story ∧ story.liveness = s.attempt.liveness ∧
      g.stream? stream = some st ∧ st.serial = s.attempt.serial ∧
      st.liveness = s.attempt.liveness := by
  cases found : g.session? name with
  | none => exact absurd mine (((follows.sessions name).of_absent found).2 stream)
  | some s =>
    obtain ⟨story, told, tracks⟩ := (follows.sessions name).of_session found
    obtain ⟨solo, _, _, streaming⟩ := tracks.solo
    obtain ⟨_, st, _, standing, serial, liveness, _⟩ := streaming stream mine
    exact ⟨s, story, st, rfl, told, tracks.liveness, standing, serial, liveness⟩

theorem Follows.streamGate (follows : Follows law c g) (accounts : Accounts bare c g)
    {st : Stream κ} (standing : g.stream? stream = some st) :
    g.streamGate st = c.streamGate g.closed stream := by
  rw [Engine.streamGate, Chronicle.streamGate]
  congr 1
  cases owned : c.owner stream with
  | some name =>
    obtain ⟨s, story, st', found, told, alike, standing', serial, liveness⟩ := follows.owned owned
    cases standing.symm.trans standing'
    have runs := Engine.isRunning_of_session found
    rw [← serial] at runs
    rw [Option.bind_some, told, if_pos runs, Engine.flagError, liveness, ← alike,
      ← follows.cancelled]
  | none =>
    have ended : g.isRunning st.serial = false := by
      refine Bool.eq_false_iff.2 fun runs => ?_
      obtain ⟨name, s, found, serial⟩ := (Engine.isRunning_iff accounts.numbered _).1 runs
      obtain ⟨_, _, _, streams⟩ := (accounts.sessions name).of_session found
      cases owned.symm.trans (streams stream st standing serial.symm).1
    rw [Option.bind_none, ended]
    rfl

theorem Follows.poll_shut (heeds : b.Heeds) (follows : Follows law c g)
    (accounts : Accounts bare c g) {err : Error}
    (stands : c.streamGate g.closed stream = some err) {clock : Clock} {item : Item}
    (given : (g.step clock (.poll stream)).1 = .item (some item)) : item = .error err := by
  have given : (g.stepPoll stream).1 = .item (some item) := given
  cases standing : g.stream? stream with
  | none =>
    have absent : g.streams.lookup stream = none := standing
    simp only [Engine.stepPoll, absent] at given
    cases given
  | some st =>
    have gate := (follows.streamGate accounts standing).trans stands
    rcases polled : st.feed.poll g.backend (g.streamGate st) g.medium with ⟨given', feed, m⟩
    obtain ⟨answered, _⟩ := Engine.polled_stepPoll standing polled
    cases answered.symm.trans given
    rw [gate, follows.backend] at polled
    exact Feed.poll_heeds heeds (congrArg Prod.fst polled)

/-- Along a run nothing that stands against a stream goes away, unless the stream is opened anew. -/
theorem Follows.shuts (follows : Follows law c g) (shut : c.Shuts stream)
    {events : List (Clock × Event)}
    (kept : ∀ one ∈ events, ¬ one.2.Opens stream) :
    (c.watch (events.zip (g.run events).1)).Shuts stream := by
  induction events generalizing c g with
  | nil => exact shut
  | cons one events ih =>
    obtain ⟨clock, e⟩ := one
    have anchored (mine : String) (owned : c.owner stream = some mine) : c.running mine ≠ none := by
      obtain ⟨_, _, _, _, told, _⟩ := follows.owned owned
      rw [told]
      exact nofun
    obtain ⟨here, later⟩ := List.forall_mem_cons.1 kept
    exact ih (follows.step clock e) (shut.observe anchored here _) later

end Gates

/-- What the polls of a stream give after a run, and for how long. -/
structure Engine.Gates {μ σ κ : Type} (g : Engine μ σ κ) (events : List (Clock × Event))
    (stream : String) : Prop where
  /-- No row, whoever has pulled and staged what before, and no other error than this. -/
  polls : ∀ err, (g.chronicle events).streamGate (firstClose events) stream = some err →
    ∀ clock item, ((g.run events).2.step clock (.poll stream)).1 = .item (some item) →
      item = .error err
  /-- So it goes on, whatever happens, unless a stream of this name is opened again. -/
  stays : ((g.chronicle events).streamGate (firstClose events) stream).isSome = true →
    ∀ more : List (Clock × Event), (∀ one ∈ more, ¬ one.2.Opens stream) →
      ((g.chronicle (events ++ more)).streamGate (firstClose (events ++ more)) stream).isSome =
        true

theorem Engine.gates_of_laws {μ σ κ : Type} {b : Backend μ σ κ} (law : Law b)
    (bare : Resilience b) (heeds : b.Heeds) (config : Config) {m : μ} (holds : law.holds [] m)
    (bears : bare.holds [] m) (events : List (Clock × Event)) (stream : String) :
    Engine.Gates { backend := b, config, medium := m } events stream := by
  have follows (events : List (Clock × Event)) := (Follows.fresh law config holds).run events
  have accounts := (Accounts.fresh bare config bears).run events
  have reason (events : List (Clock × Event)) :
      (Engine.run { backend := b, config, medium := m } events).2.closed = firstClose events :=
    Engine.closed_run_of_open rfl events
  have told (events : List (Clock × Event)) :
      (Engine.chronicle { backend := b, config, medium := m } events).closed =
        (firstClose events).isSome := (follows events).closed.trans (congrArg _ (reason events))
  constructor
  · intro err stands clock item given
    rw [← reason events] at stands
    exact (follows events).poll_shut heeds accounts stands given
  · intro shut more kept
    rw [← Chronicle.shuts_iff (told _)] at shut ⊢
    rw [Engine.chronicle_append]
    exact (follows events).shuts shut kept

/-- Streams never outlive their gate, over either store: once the engine is closed, or the attempt
of a stream has ended, or its flag is cancelled, no poll of it gives a row, and none another error
than the one that stands there. -/
theorem streams_end_at_their_gate (store config : Config) (events : List (Clock × Event))
    (stream : String) :
    (Keyspace.engine config).Gates events stream ∧
      (Durable.engine store config).Gates events stream := by
  constructor
  · exact Engine.gates_of_laws Keyspace.law Keyspace.resilience Keyspace.heeds config
      ⟨{}, rfl, .empty⟩ ⟨{}, rfl, .empty⟩ events stream
  · have pos := Durable.withPageSize_pos store
    exact Engine.gates_of_laws (Durable.law _ pos) (Durable.resilience _ pos) (Durable.heeds _)
      config ⟨{}, rfl, .empty, Device.faultless_new⟩ (Durable.stores_of_empty rfl) events stream

/-- A stream over a committed and a staged row is polled once. Then its flag is cancelled, its
attempt ends, and the engine is closed. -/
theorem streams_end_sample :
    let opened : List (Clock × Event) :=
      [.run .always [([107], some [1])], .transact "a" (.flagged "f"),
        .stage "a" ([108], some [2]), .openStream "a" .all "rows", .poll "rows"].map (⟨0, 0⟩, ·)
    let cancelled : List (Clock × Event) := opened ++ [(⟨0, 0⟩, .cancel "f")]
    let ended : List (Clock × Event) := cancelled ++ [(⟨0, 0⟩, .drop "a")]
    let closed : List (Clock × Event) := ended ++ [(⟨0, 0⟩, .close "over")]
    let g := Durable.engine {} {}
    let gate (events : List (Clock × Event)) :=
      (g.chronicle events).streamGate (firstClose events) "rows"
    gate opened = none ∧ gate cancelled = some .cancelled ∧ gate ended = some .attemptEnded ∧
      gate closed = some (.closed "over") ∧
      (∀ clock item, ((g.run closed).2.step clock (.poll "rows")).1 = .item (some item) →
        item = .error (.closed "over")) := by
  intro opened cancelled ended closed g gate
  have shut : gate closed = some (.closed "over") := by decide +kernel
  exact ⟨by decide +kernel, by decide +kernel, by decide +kernel, shut,
    (streams_end_at_their_gate {} {} closed "rows").2.polls _ shut⟩

end OptimisticStore
