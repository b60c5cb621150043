import OptimisticStore.Proofs.Conflicts
import OptimisticStore.Proofs.Lawful
import OptimisticStore.Proofs.Stepping

/-! Every run of the engine is serializable. Whatever sessions there are and however their steps
follow each other, each attempt was given what it would have been given alone: one that committed
writes right after the commits before it, any other at the version that it read. The order keeps
real time, as an attempt comes after everything that had been committed when it began. Over a
device a commit of more keys than its log has places for may lead the writers that it overtakes
out of this order. -/

namespace OptimisticStore

def Chronicle.Serializable (c : Chronicle) : Prop := c.WritersInOrder ∧ c.OthersInOrder

section Fresh
variable {μ σ κ : Type} {b : Backend μ σ κ} (law : Law b)

theorem Follows.fresh (config : Config) {m : μ} (holds : law.holds [] m) :
    Follows law {} { backend := b, config, medium := m } where
  backend := rfl
  holds := holds
  closed := rfl
  cancelled := rfl
  sessions _ := ⟨rfl, nofun⟩
  writers _ _ place := by cases place
  others := nofun

theorem Law.serializable (config : Config) {m : μ} (holds : law.holds [] m)
    (events : List (Clock × Event)) :
    let c := Engine.chronicle { backend := b, config, medium := m } events
    c.OthersInOrder ∧ c.WritersInOrderIf law.fits := by
  have follows := (Follows.fresh law config holds).run events
  exact ⟨follows.othersInOrder, follows.writers⟩

end Fresh

def Keyspace.engine (config : Config) : Engine Keyspace Keyspace.Snapshot (Walk Bytes Bytes) :=
  { backend := backend, config, medium := {} }

def Durable.engine (store config : Config) :
    Engine Device Durable.Snapshot (Option Durable.Cursor) :=
  { backend := backend (store.withPageSize store.pageSize), config, medium := {} }

/-- A place in the log is a word of four bytes: on a device a writer is in order unless one of the
commits that it has been validated against wrote more keys than there are places. -/
theorem strictly_serializable (store config : Config) (events : List (Clock × Event)) :
    ((Keyspace.engine config).chronicle events).Serializable ∧
    let c := (Durable.engine store config).chronicle events
    c.OthersInOrder ∧ c.WritersInOrderIf (·.size ≤ Layout.placeBound) ∧
      ((∀ w ∈ c.history, w.size ≤ Layout.placeBound) → c.Serializable) := by
  have in_memory := Keyspace.law.serializable config (m := {}) ⟨{}, rfl, .empty⟩ events
  have on_device := (Durable.law (store.withPageSize store.pageSize)
    (Durable.withPageSize_pos store)).serializable config (m := {})
    ⟨{}, rfl, .empty, Device.faultless_new⟩ events
  exact ⟨⟨in_memory.2.writersInOrder fun _ _ => trivial, in_memory.1⟩, on_device.1, on_device.2,
    fun fits => ⟨on_device.2.writersInOrder fits, on_device.1⟩⟩

/-- One session writes behind another, which has to start again while a view looks on. -/
def sampleEvents : List (Clock × Event) :=
  [.transact "a" .always, .scan "a" .all 1, .transact "b" .always, .stage "b" ([107], some [1]),
    .succeed "b", .stage "a" ([108], some [2]), .succeed "a", .openStream "a" .all "rows",
    .poll "rows", .snapshot "v" .always, .stage "a" ([107], none), .succeed "a", .query "v" .all,
    .succeed "v"].map (⟨0, 0⟩, ·)

theorem strictly_serializable_sample :
    ((∀ w ∈ ((Durable.engine {} {}).chronicle sampleEvents).history,
        w.size ≤ Layout.placeBound) ∧
      ((Durable.engine {} {}).chronicle sampleEvents).writers.length = 2) ∧
    ((Durable.engine {} {}).chronicle sampleEvents).Serializable := by
  have fits : ∀ w ∈ ((Durable.engine {} {}).chronicle sampleEvents).history,
      w.size ≤ Layout.placeBound := by
    decide +kernel
  have two : ((Durable.engine {} {}).chronicle sampleEvents).writers.length = 2 := by
    decide +kernel
  exact ⟨⟨fits, two⟩, (strictly_serializable {} {} sampleEvents).2.2.2 fits⟩

/-- A transaction reads a key that then gets a value beside it, and commits a write of its own. -/
def misled (writes : List (Bytes × Option Bytes)) (key : Bytes) : List (Clock × Event) :=
  [.transact "a" .always, .get "a" key, .run .always writes, .stage "a" ([1], some [1]),
    .succeed "a"].map (⟨0, 0⟩, ·)

def misledAnswers : List Answer :=
  [.begun 0 ⟨0, 1⟩, .value (.ok none), .done (.ok ()), .staged (.ok 1), .done (.ok ())]

section Misled
variable {μ σ κ : Type} {b : Backend μ σ κ} {m m' m'' m₀ m₁ m₂ m₃ m₄ : μ} {q : Registration}
  {s s' : σ} {u v : Version} {writes : List (Bytes × Option Bytes)} {key x : Bytes} {i : Nat}

theorem Transaction.get_unstaged {t : Transaction σ} {now : Moment} {m m' : μ}
    {value : Except Error (Option Bytes)} (isOpen : now.gate = none)
    (early : now.clock.steady - t.lastHeartbeat < now.heartbeatInterval.nanoseconds)
    (unstaged : t.writes.get? key = none) (got : b.get t.snapshot key m = (value, m')) :
    Transaction.get b now key (t, m) =
      (value, { t with reads := t.reads.recordPoint key }, m') := by
  have prepared : prepare b now (t, m) = (.ok (), t, m) := by
    rw [prepare, Access.bind_apply, isOpen]
    change (if _ then _ else _ : Access (Transaction σ × μ) Unit) (t, m) = _
    rw [if_neg (Nat.not_le.2 early)]
    rfl
  simp only [Transaction.get, Access.bind_apply, prepared, update, Access.modify, current, unstaged,
    Access.onSecond, got]

namespace Engine

def solitary (b : Backend μ σ κ) (m : μ) (attempts : Nat) (t : Transaction σ) : Engine μ σ κ :=
  { backend := b, config := {}, medium := m, sessions := [("a", .transaction t)], attempts }

theorem step_transact_solitary {r : Registration} (begun : b.begin 0 m = (.ok (r, s), m')) :
    step ⟨0, 0⟩ (.transact "a" .always) { backend := b, config := {}, medium := m } =
      (.begun 0 r, solitary b m' 1 ⟨⟨0, r, s, .always⟩, 0, {}, {}, 0⟩) := by
  simp only [step, stepTransact, beginTransaction_eq, beginAttempt_eq, Option.map_none, flagError,
    Liveness.isAlive, begun]
  rfl

variable {t : Transaction σ}

theorem step_get_solitary {value : Option Bytes} (always : t.liveness = .always)
    (fresh : t.lastHeartbeat = 0) (unstaged : t.writes.get? key = none)
    (got : b.get t.snapshot key m = (.ok value, m')) (attempts : Nat) :
    step ⟨0, 0⟩ (.get "a" key) (solitary b m attempts t) =
      (.value (.ok value), solitary b m' attempts { t with reads := t.reads.recordPoint key }) := by
  have isOpen : ((solitary b m attempts t).moment ⟨0, 0⟩ t.liveness).gate = none := by
    rw [always]
    rfl
  have early : 0 - t.lastHeartbeat < ({} : Config).heartbeatInterval.nanoseconds := by
    rw [fresh]
    decide
  have there : (solitary b m attempts t).session? "a" = some (.transaction t) := rfl
  have read : Transaction.get b ((solitary b m attempts t).moment ⟨0, 0⟩ t.liveness) key (t, m) =
      (.ok value, { t with reads := t.reads.recordPoint key }, m') :=
    Transaction.get_unstaged isOpen early unstaged got
  have inside : within "a" ⟨0, 0⟩ t (fun b now => Transaction.get b now key)
      (solitary b m attempts t) =
      (.ok value, solitary b m' attempts { t with reads := t.reads.recordPoint key }) := by
    rw [within]
    exact congrArg (fun ran : Except Error (Option Bytes) × Transaction σ × μ =>
      (ran.1, setSession { solitary b m attempts t with medium := ran.2.2 } "a"
        (.transaction ran.2.1))) read
  simp only [step, stepRead, there, inside]

theorem step_run_solitary {r : Registration} (begun : b.begin 0 m = (.ok (r, s), m'))
    (wrote : (WriteSet.ofList writes).isEmpty = false)
    (committed : b.commit r {} (.ofList writes) m' = (.ok v, m'')) (attempts : Nat) :
    step ⟨0, 0⟩ (.run .always writes) (solitary b m attempts t) =
      (.done (.ok ()), solitary b (b.finish 0 r m'').2 (attempts + 1) t) := by
  have entered : beginAttempt ⟨0, 0⟩ .always (solitary b m attempts t) =
      (.ok ⟨attempts, r, s, .always⟩, solitary b m' (attempts + 1) t) := by
    rw [beginAttempt_eq]
    simp only [solitary, Option.map_none, flagError, Liveness.isAlive, begun]
    rfl
  have done : conclude ⟨0, 0⟩ ⟨⟨attempts, r, s, .always⟩, 0, .ofList writes, {}, 0⟩
      (solitary b m' (attempts + 1) t) =
      (.ok v, solitary b (b.finish 0 r m'').2 (attempts + 1) t) := conclude_ok rfl wrote committed
  have alone : transactAlone ⟨0, 0⟩ .always writes (solitary b m attempts t).config.maxRetries 0
      (solitary b m attempts t) =
      (.ok (), solitary b (b.finish 0 r m'').2 (attempts + 1) t) :=
    transactAlone_ok entered rfl done
  simp only [step, alone]

theorem step_succeed_solitary (always : t.liveness = .always) (wrote : t.writes.isEmpty = false)
    (committed : b.commit t.registration t.reads t.writes m = (.ok v, m')) (attempts : Nat) :
    (step ⟨0, 0⟩ (.succeed "a") (solitary b m attempts t)).1 = .done (.ok ()) := by
  have isOpen : (((solitary b m attempts t).dropSession "a").closed.map Error.closed).or
      (((solitary b m attempts t).dropSession "a").flagError t.liveness) = none := by
    rw [always]
    rfl
  have there : (solitary b m attempts t).session? "a" = some (.transaction t) := rfl
  obtain ⟨g, done⟩ : ∃ g, conclude ⟨0, 0⟩ t ((solitary b m attempts t).dropSession "a") =
      (.ok v, g) := ⟨_, conclude_ok isOpen wrote committed⟩
  simp only [step, stepSucceed, there, succeed, done]

end Engine

/-- These are the answers of any backend that takes all that is asked of it. -/
theorem answers_misled (begun : b.begin 0 m₀ = (.ok (⟨0, 1⟩, s), m₁))
    (got : b.get s key m₁ = (.ok none, m₂)) (begun' : b.begin 0 m₂ = (.ok (q, s'), m₃))
    (wrote : (WriteSet.ofList writes).isEmpty = false)
    (committed : b.commit q {} (.ofList writes) m₃ = (.ok u, m₄))
    (last : b.commit ⟨0, 1⟩ ⟨[.point key]⟩ (.ofList [([1], some [1])]) (b.finish 0 q m₄).2 =
      (.ok v, m')) :
    (Engine.run { backend := b, config := {}, medium := m₀ } (misled writes key)).1 =
      misledAnswers := by
  let fresh : Transaction σ := ⟨⟨0, ⟨0, 1⟩, s, .always⟩, 0, {}, {}, 0⟩
  let reader : Transaction σ := { fresh with reads := ⟨[.point key]⟩ }
  let writer : Transaction σ := { reader with writes := .ofList [([1], some [1])] }
  have one : Engine.step ⟨0, 0⟩ (.transact "a" .always)
      { backend := b, config := {}, medium := m₀ } =
      (.begun 0 ⟨0, 1⟩, .solitary b m₁ 1 fresh) := Engine.step_transact_solitary begun
  have two : Engine.step ⟨0, 0⟩ (.get "a" key) (.solitary b m₁ 1 fresh) =
      (.value (.ok none), .solitary b m₂ 1 reader) :=
    Engine.step_get_solitary rfl rfl rfl got 1
  have three : Engine.step ⟨0, 0⟩ (.run .always writes) (.solitary b m₂ 1 reader) =
      (.done (.ok ()), .solitary b (b.finish 0 q m₄).2 2 reader) :=
    Engine.step_run_solitary begun' wrote committed 1
  have four : Engine.step ⟨0, 0⟩ (.stage "a" ([1], some [1]))
      (.solitary b (b.finish 0 q m₄).2 2 reader) =
      (.staged (.ok 1), .solitary b (b.finish 0 q m₄).2 2 writer) := rfl
  have five := Engine.step_succeed_solitary (t := writer) rfl rfl last 2
  simp only [misled, misledAnswers, List.map, Engine.run, one, two, three, four, five]

namespace Durable

theorem answers_misled_of_round (place : (WriteSet.ofList writes).keys[i]? = some key)
    (round : i + Layout.placeBound < (WriteSet.ofList writes).size) :
    ((engine {} {}).run (misled writes key)).1 = misledAnswers := by
  let config : Config := ({} : Config).withPageSize ({} : Config).pageSize
  have pos : 0 < config.pageSize := withPageSize_pos {}
  obtain ⟨_, does, holds⟩ := does_begin .empty config 0 (by decide)
  obtain ⟨d₁, begun, faultless, rfl⟩ := does {} Device.faultless_new rfl
  obtain ⟨d₂, got, faultless, same⟩ :=
    does_get holds ⟨0, config.pageSize⟩ (Nat.le_refl 0) key _ faultless rfl
  rw [← same] at holds
  obtain ⟨_, does, holds⟩ := does_begin holds config 0 (by decide)
  obtain ⟨d₃, begun', faultless, rfl⟩ := does _ faultless rfl
  have registered : (d₃.rows.get? (Layout.ledgerKey ⟨0, 2⟩)).isSome :=
    (holds.registered_iff _).2 ⟨⟨0, 2⟩, by decide, rfl⟩
  have unread : ({} : ReadFootprint).validate 0 (logSince d₃.rows 0) = .ok () :=
    (ReadFootprint.validate_eq_ok_iff _ _ _).2 fun _ _ _ => rfl
  obtain ⟨_, does, holds⟩ :=
    does_commit_ok (w := .ofList writes) holds pos registered unread (by decide)
  obtain ⟨d₄, committed, faultless, rfl⟩ := does _ faultless rfl
  obtain ⟨_, does, holds⟩ := does_finish holds pos 0 ⟨0, 2⟩
  obtain ⟨d₅, finished, faultless, rfl⟩ := does _ faultless rfl
  have left : (⟨0, 1⟩ : Registration) ∈ [(⟨0, 1⟩ : Registration), ⟨0, 2⟩].filter fun s =>
      Layout.ledgerKey s ≠ Layout.ledgerKey ⟨0, 2⟩ && !lapsed config 0 d₄.rows s := by
    refine List.mem_filter.2 ⟨List.mem_cons_self, ?_⟩
    rw [lapsed_zero]
    decide
  have room : 1 + 1 < Layout.wordBound := by decide
  have last := (commit_noticed holds pos faultless left room ⟨[.point key]⟩
    (.ofList [([1], some [1])])).2 (unnoticed_of_round _ place round)
  have ended : ((backend config).finish 0 ⟨0, 2⟩ d₄).2 = d₅ := congrArg Prod.snd finished
  rw [← ended] at last
  exact answers_misled begun got begun' (WriteSet.isEmpty_of_place place) committed
    (Prod.ext last rfl)

/-- The transaction stands behind a commit that put the key, and yet it has not found it. -/
theorem unserializable_of_round (place : (WriteSet.ofList writes).keys[i]? = some key)
    (round : i + Layout.placeBound < (WriteSet.ofList writes).size)
    (put : (WriteSet.ofList writes).get? key = some (some x)) :
    ¬ ((engine {} {}).chronicle (misled writes key)).Serializable := by
  have told : ((engine {} {}).chronicle (misled writes key)).writers =
      [⟨0, 0, .always, writes.map .stage⟩,
        ⟨0, 0, .always, [.get key none, .stage ([1], some [1])]⟩] := by
    have wrote : (stagedBy (writes.map .stage)).isEmpty = false := by
      rw [stagedBy_stages]
      exact WriteSet.isEmpty_of_place place
    rw [Engine.chronicle, answers_misled_of_round place round]
    let c : Chronicle := (Chronicle.enter {} "a" .always 0).note "a" (.get key none)
    have placed : c.place (c.alone .always (writes.map .stage)) =
        c.addWriter (c.alone .always (writes.map .stage)) := if_neg (Bool.eq_false_iff.1 wrote)
    change (((c.place (c.alone .always (writes.map .stage))).note "a"
      (.stage ([1], some [1]))).conclude "a").writers = _
    rw [placed]
    rfl
  generalize (engine {} {}).chronicle (misled writes key) = c at told
  rintro ⟨inOrder, _⟩
  have second : c.writers[1]? =
      some ⟨0, 0, .always, [.get key none, .stage ([1], some [1])]⟩ := by
    rw [told]
    rfl
  have replays := (inOrder 1 _ second).2.2
  have seen : (Solo.view {} (c.history.state 1)).get? key = some x := by
    rw [Chronicle.history, told]
    change ((stagedBy (writes.map .stage)).onto {}).get? key = some x
    rw [stagedBy_stages, WriteSet.get?_onto, put, Option.getD_some]
  -- alone behind the first writer it would have found the key
  have unlike : ¬ (Solo.view {} (c.history.state 1)).get? key = none := by
    rw [seen]
    exact Option.some_ne_none x
  rw [Story.Replays, replay, Solo.run, Solo.call, if_neg unlike] at replays
  cases replays

end Durable
end Misled

/-- A write of one key more than there are places, beside a transaction that reads its first key. -/
theorem crowded_run_unserializable :
    ¬ ((Durable.engine {} {}).chronicle (misled (crowd Layout.placeBound) [])).Serializable :=
  Durable.unserializable_of_round (first_crowd (Nat.le_refl _)) round_crowd (get?_crowd _)

end OptimisticStore
