import OptimisticStore.Proofs.Reference

/-! A durable snapshot is stable. A stream that is opened at some version takes its turns, one
page or one row at a time, while other requests are served between any two of them: it gives
what its condition selects from the state of that version, in order and nothing else, and it
never fails. Reading a single key at any later moment agrees with the same state. -/

namespace OptimisticStore

namespace Durable

/-- Something that happens while a stream is open: another request, one turn of the stream, or
a whole poll. -/
inductive Move where
  | request (q : Request)
  | turn
  | poll

/-- A client with one stream, and what the stream has given so far. -/
structure Watch where
  client : Client Device Snapshot (Option Cursor)
  cursor : Option Cursor
  given : List Row := []
  failure : Option Error := none

namespace Watch

def opened (client : Client Device Snapshot (Option Cursor)) (s : Snapshot) (c : Condition) :
    Watch := ⟨client, client.backend.query s c, [], none⟩

def move (w : Watch) : Move → Watch
  | .request q => { w with client := (w.client.serve q).2 }
  | .turn =>
    match w.cursor with
    | none => w
    | some c =>
      match c.turn w.client.medium with
      | (.ok (row, next), d) =>
        { w with client := { w.client with medium := d }, cursor := next,
                 given := w.given ++ row.toList }
      | (.error e, d) =>
        { w with client := { w.client with medium := d }, cursor := none, failure := some e }
  | .poll =>
    match w.client.backend.poll none w.cursor w.client.medium with
    | (none, next, d) => { w with client := { w.client with medium := d }, cursor := next }
    | (some (.ok row), next, d) =>
      { w with client := { w.client with medium := d }, cursor := next, given := w.given ++ [row] }
    | (some (.error e), next, d) =>
      { w with client := { w.client with medium := d }, cursor := next, failure := some e }

def moves (w : Watch) (ms : List Move) : Watch := ms.foldl move w

structure Faithful (expected : List Row) (i : Reference) (w : Watch) : Prop where
  client : Matches i w.client
  failure : w.failure = none
  owes : ∃ owed, w.given ++ owed = expected ∧
    match w.cursor with
    | none => owed = []
    | some c => Cursor.Owes i.history owed c

variable {expected : List Row} {i : Reference} {w : Watch}

theorem faithful_opened {client : Client Device Snapshot (Option Cursor)} (same : Matches i client)
    (s : Snapshot) (hv : s.version ≤ i.current) (paged : 0 < s.pageSize) (c : Condition) :
    Faithful (c.select (i.history.state s.version)) i (opened client s c) := by
  refine ⟨same, rfl, _, List.nil_append _, ?_⟩
  obtain @⟨_, _, _, _, _, holds, _, _⟩ := same
  exact Cursor.owes_ofSnapshot holds s hv paged c

theorem Faithful.request (faithful : Faithful expected i w) (q : Request) :
    ∃ i', Faithful expected i' (w.move (.request q)) ∧ ∃ t, i'.history = i.history ++ t := by
  obtain ⟨client, failure, owed, whole, owes⟩ := faithful
  obtain ⟨i', client', history, _⟩ := serve_matches client q
  refine ⟨i', ⟨client', failure, owed, whole, ?_⟩, _, history⟩
  change match w.cursor with | none => _ | some c => _
  cases cursor : w.cursor with
  | none =>
    rw [cursor] at owes
    exact owes
  | some c =>
    rw [cursor] at owes
    rw [history]
    exact owes.append _

def remaining (expected : List Row) (w : Watch) : Nat :=
  w.cursor.elim 0 fun c =>
    (expected.length - w.given.length) + c.left w.client.medium.rows + 1

theorem Faithful.turn (faithful : Faithful expected i w) :
    Faithful expected i (w.move .turn) ∧
      (w.cursor ≠ none → (w.move .turn).remaining expected < w.remaining expected) := by
  obtain ⟨same, failure, owed, whole, owes⟩ := faithful
  obtain ⟨client, cursor, given, _⟩ := w
  simp only at same failure owed whole owes
  subst failure
  cases cursor with
  | none => exact ⟨⟨same, rfl, owed, whole, owes⟩, fun going => absurd rfl going⟩
  | some c =>
    obtain @⟨config, d, snapshots, pos, faultless, holds, handed, taken⟩ := same
    have here (d' : Device) (faultless' : d'.Faultless) (same' : d'.rows = d.rows) :
        Matches i (Durable.opened config d' snapshots) :=
      .intro pos faultless' (same' ▸ holds) handed taken
    rcases Cursor.does_turn holds owes with ⟨row, rest, c', does, rfl, after, left⟩ | ⟨does, rfl⟩ |
      ⟨c', does, after, fewer⟩
    · obtain ⟨d', ran, faultless', same'⟩ := does d faultless rfl
      simp only [move, ran, remaining, Option.elim_some]
      refine ⟨⟨here d' faultless' same', rfl, rest, ?_, after⟩, fun _ => ?_⟩
      · rw [← whole]
        simp
      · rw [← whole, same', left]
        simp only [List.length_append, List.length_cons, Option.toList_some, List.length_nil]
        omega
    · obtain ⟨d', ran, faultless', same'⟩ := does d faultless rfl
      simp only [move, ran, remaining, Option.elim_some, Option.elim_none]
      refine ⟨⟨here d' faultless' same', rfl, [], ?_, rfl⟩, fun _ => Nat.succ_pos _⟩
      rw [← whole]
      simp
    · obtain ⟨d', ran, faultless', same'⟩ := does d faultless rfl
      simp only [move, ran, remaining, Option.elim_some]
      refine ⟨⟨here d' faultless' same', rfl, owed, ?_, after⟩, fun _ => ?_⟩
      · rw [← whole]
        simp
      · rw [same']
        simp only [Option.toList_none, List.append_nil]
        omega

theorem Faithful.poll (faithful : Faithful expected i w) : Faithful expected i (w.move .poll) := by
  obtain ⟨same, failure, owed, whole, owes⟩ := faithful
  obtain ⟨client, cursor, given, _⟩ := w
  simp only at same failure owed whole owes
  subst failure
  obtain @⟨config, d, snapshots, pos, faultless, holds, handed, taken⟩ := same
  cases cursor with
  | none => exact ⟨.intro pos faultless holds handed taken, rfl, owed, whole, owes⟩
  | some c =>
    obtain ⟨next, d', polled, faultless', same', ended, debt⟩ :=
      Cursor.does_poll holds owes faultless rfl
    have polled : (backend config).poll none (some c) d = _ := polled
    have here : Matches i
        ⟨backend config, fun config => do return backend (← openStore config), d', snapshots⟩ :=
      .intro pos faultless' (same' ▸ holds) handed taken
    simp only [move, polled]
    cases owed with
    | nil =>
      obtain rfl := ended rfl
      exact ⟨here, rfl, [], whole, rfl⟩
    | cons row rest =>
      obtain ⟨c', rfl, after⟩ := debt (by simp)
      exact ⟨here, rfl, rest, by rw [← whole]; simp, after⟩

theorem Faithful.moves (faithful : Faithful expected i w) (ms : List Move) :
    ∃ i', Faithful expected i' (w.moves ms) ∧ ∃ t, i'.history = i.history ++ t := by
  induction ms generalizing i w with
  | nil => exact ⟨i, faithful, [], (List.append_nil _).symm⟩
  | cons m ms ih =>
    have step : ∃ i', Faithful expected i' (w.move m) ∧ ∃ t, i'.history = i.history ++ t := by
      cases m with
      | request q => exact faithful.request q
      | turn => exact ⟨i, faithful.turn.1, [], (List.append_nil _).symm⟩
      | poll => exact ⟨i, faithful.poll, [], (List.append_nil _).symm⟩
    obtain ⟨i₁, faithful₁, t₁, grown₁⟩ := step
    obtain ⟨i₂, faithful₂, t₂, grown₂⟩ := ih faithful₁
    exact ⟨i₂, faithful₂, t₁ ++ t₂, by rw [grown₂, grown₁, List.append_assoc]⟩

theorem Faithful.ends (faithful : Faithful expected i w) :
    ∃ n, (w.moves (List.replicate n .turn)).cursor = none := by
  induction measure : w.remaining expected using Nat.strongRecOn generalizing w with
  | ind k ih =>
    cases cursor : w.cursor with
    | none => exact ⟨0, cursor⟩
    | some c =>
      obtain ⟨next, fewer⟩ := faithful.turn
      have fewer := fewer (by simp [cursor])
      obtain ⟨n, ended⟩ := ih _ (measure ▸ fewer) next rfl
      exact ⟨n + 1, ended⟩

end Watch

/-- A stream on any version up to the current one, after any requests and under any others. -/
theorem stream_stable (config : Config) (before : List Request) (s : Snapshot)
    (hv : s.version ≤ ((client config).history before).length) (paged : 0 < s.pageSize)
    (c : Condition) (ms : List Move) :
    let expected := c.select (((client config).history before).state s.version)
    let w := (Watch.opened ((client config).after before) s c).moves ms
    w.failure = none ∧ w.given <+: expected ∧ (w.cursor = none → w.given = expected) ∧
      (w.given.Pairwise fun a b => c.direction.Before a.1 b.1) ∧
      (∃ n, (w.moves (List.replicate n .turn)).cursor = none) ∧
      ∀ key, (s.get key w.client.medium).1 =
        .ok ((((client config).history before).state s.version).get? key) := by
  obtain ⟨i, same, history⟩ := client_matches config before
  rw [← history] at hv ⊢
  obtain ⟨i', faithful, t, grown⟩ := (Watch.faithful_opened same s hv paged c).moves ms
  obtain ⟨same', failure, owed, whole, owes⟩ := faithful
  have faithful : Watch.Faithful _ i' _ := ⟨same', failure, owed, whole, owes⟩
  have sorted := c.pairwise_select (i.history.state s.version)
  have given : _ <+: c.select (i.history.state s.version) := ⟨owed, whole⟩
  refine ⟨failure, given, ?_, sorted.sublist given.sublist, faithful.ends, ?_⟩
  · intro ended
    rw [ended] at owes
    rw [← whole, owes, List.append_nil]
  · intro key
    have old : s.version ≤ i'.standing.history.length := by
      change s.version ≤ i'.history.length
      rw [grown, List.length_append]
      exact Nat.le_add_right_of_le hv
    have data : i'.standing.history.state s.version = i.history.state s.version := by
      change i'.history.state s.version = _
      rw [grown, History.state_append t hv]
    generalize ((Watch.opened ((client config).after before) s c).moves ms).client = now at same'
    obtain @⟨_, d, _, _, faultless, holds, _, _⟩ := same'
    obtain ⟨d', ran, _⟩ := does_get holds s old key d faultless rfl
    rw [← data, ran]

def sampleStore : List Request :=
  [.begin 0, .commit ⟨0, 1⟩ {} (.ofList [([107], some [1]), ([108], some [2])]),
    .commit ⟨0, 1⟩ {} (.ofList [([107], none)])]

def sampleMoves : List Move :=
  [.turn, .turn, .request (.commit ⟨0, 1⟩ {} (.ofList [([108], none), ([109], some [3])])),
    .turn, .request (.finish 0 ⟨0, 1⟩), .poll, .poll]

theorem stream_stable_sample :
    ((1 : Nat) ≤ ((client {}).history sampleStore).length ∧ 0 < 1) ∧
    (let expected := (Condition.gte [107]).select (((client {}).history sampleStore).state 1)
     let w := (Watch.opened ((client {}).after sampleStore) ⟨1, 1⟩ (.gte [107])).moves sampleMoves
     w.failure = none ∧ w.given <+: expected ∧ (w.cursor = none → w.given = expected)) := by
  have current : (⟨1, 1⟩ : Snapshot).version ≤ ((client {}).history sampleStore).length := by
    decide +kernel
  have stable := stream_stable {} sampleStore ⟨1, 1⟩ current Nat.one_pos (.gte [107]) sampleMoves
  exact ⟨⟨current, Nat.one_pos⟩, stable.1, stable.2.1, stable.2.2.1⟩

end Durable
end OptimisticStore
