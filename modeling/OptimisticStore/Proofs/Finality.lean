import OptimisticStore.Proofs.AllOrNothing
import OptimisticStore.Proofs.Closing
import OptimisticStore.Proofs.Narrowing

/-! Closing the engine and cancelling the flag of a call are final. After the first close whatever
begins, reads, stages or commits is answered with its reason, and the store stays as it is. After
a flag is cancelled the reads of the session that was begun with it and its commit are refused for
as long as the session is there, and what it has staged is never committed. -/

namespace OptimisticStore

theorem Chronicle.Stopped.watch {c : Chronicle} {name : String} (stopped : c.Stopped name)
    {events : List (Clock × Event)} (stays : ∀ one ∈ events, ¬ one.2.Enters name)
    (answers : List Answer) : (c.watch (events.zip answers)).Stopped name := by
  induction events generalizing c answers with
  | nil => exact stopped
  | cons one events ih =>
    obtain ⟨here, later⟩ := List.forall_mem_cons.1 stays
    cases answers with
    | nil => exact stopped
    | cons answer answers => exact ih (stopped.observe here answer) later answers

namespace Follows
variable {μ σ κ : Type} {b : Backend μ σ κ} {law : Law b} {c : Chronicle} {g : Engine μ σ κ}
  {name : String}

/-! ### Sessions that are stopped -/

theorem barrier (follows : Follows law c g) (stopped : c.Stopped name) {s : Session σ}
    (found : g.session? name = some s) : ∃ err, g.barrier s.attempt.liveness = some err ∧
      (g.closed = none → err = .cancelled) := by
  obtain ⟨story, told, tracks⟩ := (follows.sessions name).of_session found
  have shut := stopped story told
  rw [tracks.liveness, Chronicle.isOpen, follows.closed, follows.cancelled] at shut
  rw [Engine.barrier, Engine.flagError]
  cases closed : g.closed with
  | some reason =>
    refine ⟨.closed reason, rfl, fun isOpen => ?_⟩
    cases isOpen
  | none =>
    rw [closed] at shut
    have gone : s.attempt.liveness.isAlive g.cancelled = false := shut
    rw [gone]
    exact ⟨.cancelled, rfl, fun _ => rfl⟩

theorem wrote_stopped (follows : Follows law c g) (stopped : c.Stopped name) (clock : Clock) :
    c.wrote (.succeed name) (g.step clock (.succeed name)).1 = none := by
  rw [Engine.step]
  cases found : g.session? name with
  | none =>
    simp only [Engine.stepSucceed, found]
    rfl
  | some s =>
    cases s with
    | view a =>
      obtain ⟨story, told, tracks⟩ := (follows.sessions name).of_session found
      have idle : story.staged = {} := tracks.staged
      simp only [Engine.stepSucceed, found, Chronicle.wrote, told, Option.map_some, idle]
      rfl
    | transaction t =>
      obtain ⟨err, stands, _⟩ := follows.barrier stopped found
      rw [Engine.succeed_barred found stands]
      rfl

theorem holds_step (follows : Follows law c g) {clock : Clock} {e : Event}
    (nothing : c.wrote e (g.step clock e).1 = none) :
    law.holds c.history (g.step clock e).2.medium := by
  have after := (follows.step clock e).holds
  rw [c.history_observe, nothing] at after
  rwa [Option.toList_none, List.append_nil] at after

/-! ### After a close -/

theorem stopped_of_closed (follows : Follows law c g) {reason : String}
    (closed : g.closed = some reason) (name : String) : c.Stopped name := by
  intro story _
  rw [Chronicle.isOpen, follows.closed, closed]
  rfl

theorem wrote_closed (follows : Follows law c g) {reason : String}
    (closed : g.closed = some reason) (clock : Clock) (e : Event) :
    c.wrote e (g.step clock e).1 = none := by
  cases e with
  | succeed name => exact follows.wrote_stopped (follows.stopped_of_closed closed name) clock
  | run l writes =>
    rw [(Engine.refuses_of_closed closed).run clock l writes]
    rfl
  | _ => rfl

theorem history_closed (follows : Follows law c g) {reason : String}
    (closed : g.closed = some reason) (events : List (Clock × Event)) :
    (c.watch (events.zip (g.run events).1)).history = c.history := by
  induction events generalizing c g with
  | nil => rfl
  | cons one events ih =>
    obtain ⟨clock, e⟩ := one
    have later : (g.step clock e).2.closed = some reason := by rw [g.closed_step, closed]; rfl
    refine (ih (follows.step clock e) later).trans ?_
    rw [c.history_observe, follows.wrote_closed closed clock e]
    exact List.append_nil _

end Follows

/-! ### For good -/

section Final
variable {μ σ κ β : Type}

/-- The flag of the session is cancelled. For as long as the engine is open every read of the
session and its commit are refused as cancelled; and when its body returns, nothing changes. -/
structure Engine.Discarded (g : Engine μ σ κ) (shown : μ → β) (events : List (Clock × Event))
    (name : String) : Prop where
  bars : firstClose events = none → ((g.run events).2.session? name).isSome = true →
    (g.run events).2.Bars name .cancelled
  withholds : ∀ clock, shown ((g.run events).2.step clock (.succeed name)).2.medium =
    shown (g.run events).2.medium

/-- What a run has decided for good, where `shown` is what anyone sees of a medium. -/
structure Engine.Final (g : Engine μ σ κ) (shown : μ → β) (events : List (Clock × Event)) :
    Prop where
  /-- Whatever needs an open engine is answered with the reason of the first close. -/
  refuses : ∀ reason, firstClose events = some reason →
    (g.run events).2.Refuses (.closed reason)
  settles : (firstClose events).isSome = true → ∀ more : List (Clock × Event),
    (g.chronicle (events ++ more)).history = (g.chronicle events).history ∧
      shown (g.run (events ++ more)).2.medium = shown (g.run events).2.medium
  /-- So it goes for a session whose flag is cancelled, until its name is taken over. -/
  discards : ∀ name story flag, (g.chronicle events).running name = some story →
    story.liveness = .flagged flag → flag ∈ (g.chronicle events).cancelled →
    ∀ more : List (Clock × Event), (∀ one ∈ more, ¬ one.2.Enters name) →
      g.Discarded shown (events ++ more) name

theorem Engine.final_of_law {b : Backend μ σ κ} (law : Law b) (config : Config) {m : μ}
    (holds : law.holds [] m) {shown : μ → β}
    (same : ∀ h m m', law.holds h m → law.holds h m' → shown m' = shown m)
    (events : List (Clock × Event)) :
    Engine.Final { backend := b, config, medium := m } shown events := by
  have follows (events : List (Clock × Event)) := (Follows.fresh law config holds).run events
  have reason (events : List (Clock × Event)) :
      (Engine.run { backend := b, config, medium := m } events).2.closed = firstClose events :=
    Engine.closed_run_of_open rfl events
  constructor
  · intro first closed
    exact Engine.refuses_of_closed ((reason events).trans closed)
  · intro closed more
    obtain ⟨first, closed⟩ := Option.isSome_iff_exists.1 closed
    have settled := (follows events).history_closed ((reason events).trans closed) more
    refine ⟨(congrArg Chronicle.history (Engine.chronicle_append _ events more)).trans settled, ?_⟩
    have after := ((follows events).run more).holds
    rw [settled] at after
    rw [Engine.run_append]
    exact same _ _ _ (follows events).holds after
  · intro name story flag told flagged cancelled more stays
    have stopped :
        (Engine.chronicle { backend := b, config, medium := m } events).Stopped name := by
      intro story' told'
      cases told.symm.trans told'
      simp [Chronicle.isOpen, flagged, Liveness.isAlive, cancelled]
    have later := stopped.watch stays
    constructor
    · intro isOpen present
      obtain ⟨s, found⟩ := Option.isSome_iff_exists.1 present
      have stopped := Engine.chronicle_append _ events more ▸ later _
      obtain ⟨err, stands, cause⟩ := (follows (events ++ more)).barrier stopped found
      rw [cause ((reason _).trans isOpen)] at stands
      exact Engine.bars_of_barrier found stands
    · intro clock
      have stopped := Engine.chronicle_append _ events more ▸ later _
      have nothing := (follows (events ++ more)).wrote_stopped stopped clock
      exact same _ _ _ (follows _).holds ((follows (events ++ more)).holds_step nothing)

end Final

def Keyspace.shown (s : Keyspace) : Version × OrderedMap Bytes Bytes := (s.version, s.data)

/-- What a reader that comes now sees of a device: the version, and under it what is read for each
key, whatever the size of a page. -/
def Durable.shown (d : Device) :
    Except Error Version × (Nat → Bytes → Except Error (Option Bytes)) :=
  ((readVersion d).1, fun pageSize key =>
    ((do Snapshot.get ⟨← readVersion, pageSize⟩ key : Access Device (Option Bytes)) d).1)

theorem Keyspace.shown_of_keeps {h : History} {s : Keyspace} (keeps : Keeps h s) :
    shown s = (h.length, h.state h.length) := by
  obtain ⟨a, rfl, holds⟩ := keeps
  exact Prod.ext holds.version holds.data

theorem Durable.shown_of_keeps {h : History} {d : Device} (keeps : Keeps h d) :
    shown d = (.ok h.length, fun _ key => .ok ((h.state h.length).get? key)) := by
  obtain ⟨a, rfl, holds, faultless⟩ := keeps
  have version := does_readVersion holds
  refine Prod.ext (Keeps.access faultless version holds).1 ?_
  funext pageSize key
  have got := does_get holds ⟨a.history.length, pageSize⟩ (Nat.le_refl _) key
  exact (Keeps.access faultless (version.bind got) holds).1

/-- Closing and cancelling are final, over either store. -/
theorem close_and_cancel_final (store config : Config) (events : List (Clock × Event)) :
    (Keyspace.engine config).Final Keyspace.shown events ∧
      (Durable.engine store config).Final Durable.shown events := by
  constructor
  · refine Engine.final_of_law Keyspace.law config ⟨{}, rfl, .empty⟩ ?_ events
    intro h s s' keeps keeps'
    exact (Keyspace.shown_of_keeps keeps').trans (Keyspace.shown_of_keeps keeps).symm
  · refine Engine.final_of_law (Durable.law _ (Durable.withPageSize_pos store)) config
      ⟨{}, rfl, .empty, Device.faultless_new⟩ ?_ events
    intro h d d' keeps keeps'
    exact (Durable.shown_of_keeps keeps').trans (Durable.shown_of_keeps keeps).symm

/-- A session with something staged looks on while its flag is cancelled. Then the engine is closed
twice. -/
theorem close_and_cancel_final_sample :
    let cancelled : List (Clock × Event) :=
      [.run .always [([107], some [1])], .transact "a" (.flagged "f"),
        .stage "a" ([108], some [2]), .snapshot "v" .always, .cancel "f"].map (⟨0, 0⟩, ·)
    let closed : List (Clock × Event) :=
      cancelled ++ [.close "over", .close "again"].map (⟨0, 0⟩, ·)
    let g := Durable.engine {} {}
    (((g.chronicle cancelled).running "a").map Story.liveness = some (.flagged "f") ∧
      "f" ∈ (g.chronicle cancelled).cancelled ∧ firstClose closed = some "over" ∧
      ((g.run closed).2.session? "v").isSome = true) ∧
    (g.run cancelled).2.Bars "a" .cancelled ∧ (g.run closed).2.Refuses (.closed "over") := by
  intro cancelled closed g
  have flagged : ((g.chronicle cancelled).running "a").map Story.liveness =
      some (.flagged "f") := by decide +kernel
  have gone : "f" ∈ (g.chronicle cancelled).cancelled := by decide +kernel
  have first : firstClose closed = some "over" := by decide +kernel
  obtain ⟨story, told, same⟩ := Option.map_eq_some_iff.1 flagged
  refine ⟨⟨flagged, gone, first, by decide +kernel⟩, ?_, ?_⟩
  · have final := (close_and_cancel_final {} {} cancelled).2
    exact (final.discards "a" story "f" told same gone [] nofun).bars (by decide +kernel)
      (by decide +kernel)
  · exact (close_and_cancel_final {} {} closed).2.refuses "over" first

end OptimisticStore
