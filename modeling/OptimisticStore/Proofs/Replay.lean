import OptimisticStore.Engine.Session
import OptimisticStore.Proofs.History

/-! One attempt that runs alone on a committed state: no other attempt, no snapshot, no merging
and no cursor. Its calls read the state with its own writes applied, and a stream gives what its
condition selected when it was opened. What a call is given depends on the keys of its ranges
alone, so an attempt may be moved to any state that agrees on them. -/

namespace OptimisticStore

/-- A call that a body has made, with what it was given for it. Staging and opening a stream
give nothing. -/
inductive Call where
  | get (key : Bytes) (value : Option Bytes)
  | getMany (keys : List Bytes) (values : List (Option Bytes))
  | stage (write : Bytes × Option Bytes)
  | query (c : Condition) (rows : List (Bytes × Bytes))
  | scan (c : Condition) (limit : Nat) (rows : List (Bytes × Bytes))
  | openStream (c : Condition) (stream : String)
  /-- A row of a stream, or its end. -/
  | poll (stream : String) (row : Option (Bytes × Bytes))

abbrev Names (α : Type) := String → Option α

def Names.set {α : Type} (names : Names α) (name : String) (x : Option α) : Names α :=
  fun other => if other = name then x else names other

theorem Names.set_same {α : Type} (names : Names α) (name : String) (x : Option α) :
    names.set name x name = x := if_pos rfl

theorem Names.set_other {α : Type} (names : Names α) {name other : String} (ne : other ≠ name)
    (x : Option α) : names.set name x other = names other := if_neg ne

structure Solo where
  writes : WriteSet := {}
  /-- The rows that are left to each stream. -/
  streams : Names (List (Bytes × Bytes)) := fun _ => none

namespace Solo

def view (s : Solo) (state : OrderedMap Bytes Bytes) : OrderedMap Bytes Bytes :=
  s.writes.onto state

/-- Makes one call on the state, `none` if it is given something else than was noted. -/
def call (state : OrderedMap Bytes Bytes) (s : Solo) : Call → Option Solo
  | .get key value => if (s.view state).get? key = value then some s else none
  | .getMany keys values => if keys.map (s.view state).get? = values then some s else none
  | .stage write => some { s with writes := s.writes.stage write }
  | .query c rows => if c.select (s.view state) = rows then some s else none
  | .scan c limit rows => if (c.select (s.view state)).take limit = rows then some s else none
  | .openStream c stream =>
    some { s with streams := s.streams.set stream (c.select (s.view state)) }
  | .poll stream row => do
    let left ← s.streams stream
    if left.head? = row then some { s with streams := s.streams.set stream left.tail } else none

theorem call_poll (state : OrderedMap Bytes Bytes) {s : Solo} {stream : String}
    {left : List (Bytes × Bytes)} (found : s.streams stream = some left) :
    s.call state (.poll stream left.head?) =
      some { s with streams := s.streams.set stream left.tail } := by
  simp [call, found]

def run (state : OrderedMap Bytes Bytes) (s : Solo) : List Call → Option Solo
  | [] => some s
  | call :: calls => (s.call state call).bind fun s => s.run state calls

theorem run_append (state : OrderedMap Bytes Bytes) (s : Solo) (calls more : List Call) :
    s.run state (calls ++ more) = (s.run state calls).bind fun s => s.run state more := by
  induction calls generalizing s with
  | nil => rfl
  | cons call calls ih =>
    rw [List.cons_append, run, run, Option.bind_assoc]
    congr 1
    funext s
    exact ih s

end Solo

def replay (state : OrderedMap Bytes Bytes) (calls : List Call) : Option Solo :=
  Solo.run state {} calls

theorem replay_snoc {state : OrderedMap Bytes Bytes} {calls : List Call} {s : Solo}
    (replayed : replay state calls = some s) (call : Call) :
    replay state (calls ++ [call]) = s.call state call := by
  have replayed : Solo.run state {} calls = some s := replayed
  rw [replay, Solo.run_append, replayed, Option.bind_some, Solo.run]
  exact Option.bind_fun_some _

/-! ### What an attempt writes -/

def stagedOver (w : WriteSet) (calls : List Call) : WriteSet :=
  calls.foldl (fun w call => match call with | .stage write => w.stage write | _ => w) w

def stagedBy (calls : List Call) : WriteSet := stagedOver {} calls

theorem Solo.writes_call {state : OrderedMap Bytes Bytes} {s s' : Solo} {call : Call}
    (made : s.call state call = some s') : s'.writes = stagedOver s.writes [call] := by
  cases call with
  | stage write =>
    cases made
    rfl
  | openStream c stream =>
    cases made
    rfl
  | poll stream row =>
    rw [Solo.call] at made
    cases found : s.streams stream with
    | none =>
      rw [found] at made
      cases made
    | some left =>
      rw [found, Option.bind_eq_bind, Option.bind_some] at made
      split at made
      · cases made
        rfl
      · cases made
  | _ =>
    rw [Solo.call] at made
    split at made
    · cases made
      rfl
    · cases made

theorem Solo.writes_run {state : OrderedMap Bytes Bytes} {calls : List Call} {s s' : Solo}
    (made : s.run state calls = some s') : s'.writes = stagedOver s.writes calls := by
  induction calls generalizing s with
  | nil =>
    cases made
    rfl
  | cons call calls ih =>
    rw [run, Option.bind_eq_some_iff] at made
    obtain ⟨middle, first, rest⟩ := made
    rw [ih rest, Solo.writes_call first]
    rfl

theorem writes_of_replay {state : OrderedMap Bytes Bytes} {calls : List Call} {s : Solo}
    (replayed : replay state calls = some s) : s.writes = stagedBy calls :=
  Solo.writes_run replayed

theorem Solo.run_stages (state : OrderedMap Bytes Bytes) (s : Solo)
    (writes : List (Bytes × Option Bytes)) :
    s.run state (writes.map .stage) = some { s with writes := writes.foldl .stage s.writes } := by
  induction writes generalizing s with
  | nil => rfl
  | cons write writes ih => exact ih { s with writes := s.writes.stage write }

theorem stagedBy_stages (writes : List (Bytes × Option Bytes)) :
    stagedBy (writes.map .stage) = .ofList writes :=
  (writes_of_replay (Solo.run_stages {} {} writes)).symm

/-! ### What an attempt reads -/

namespace Condition

theorem contains_readRangeUntil (c : Condition) (last k : Bytes) :
    (c.readRangeUntil last).contains k = true ↔
      c.contains k = true ∧ ¬ c.direction.Before last k := by
  cases c <;>
    simp [readRangeUntil, readRange, direction, KeyRange.contains, contains, Direction.Before,
      Endpoint.unbounded, Endpoint.included, Endpoint.excluded, Std.not_lt, and_comm]

variable {c : Condition} {m n : OrderedMap Bytes Bytes}

theorem filter_select_congr {last : Bytes}
    (same : ∀ k, (c.readRangeUntil last).contains k = true → n.get? k = m.get? k) :
    (c.select n).filter (fun e => ¬ c.direction.Before last e.1) =
      (c.select m).filter fun e => ¬ c.direction.Before last e.1 := by
  apply eq_of_mem_iff ((c.pairwise_select n).sublist List.filter_sublist)
    ((c.pairwise_select m).sublist List.filter_sublist)
  intro e
  rw [List.mem_filter, List.mem_filter, mem_select_iff, mem_select_iff, decide_eq_true_eq]
  refine and_congr_left fun upto => and_congr_left fun inside => ?_
  rw [same e.1 ((c.contains_readRangeUntil last e.1).2 ⟨inside, upto⟩)]

/-- What a scan has seen is enough to tell its rows. -/
theorem take_select_congr {limit : Nat}
    (same : ∀ k, (Transaction.scanned c limit ((c.select m).take limit)).contains k = true →
      n.get? k = m.get? k) : (c.select n).take limit = (c.select m).take limit := by
  rw [Transaction.scanned] at same
  split at same
  · next last _ hlast =>
    split at same
    · next full =>
      -- the rows up to the last one are the first of either selection
      have upto := filter_upto_last (fun _ _ => Direction.Before.asymm) (c.pairwise_select m) hlast
      have lost : (c.select n).Pairwise fun a b =>
          decide (¬ c.direction.Before last b.1) = true →
            decide (¬ c.direction.Before last a.1) = true := by
        refine (c.pairwise_select n).imp fun before => ?_
        rw [decide_eq_true_eq, decide_eq_true_eq]
        exact fun within after => within (after.trans before)
      have front := takeWhile_eq_filter lost
      rw [filter_select_congr same, upto] at front
      have whole := List.takeWhile_prefix (l := c.select n)
        fun e => decide (¬ c.direction.Before last e.1)
      rw [front, List.prefix_iff_eq_take, full] at whole
      exact whole.symm
    · simp only [c.contains_readRange] at same
      rw [select_congr same]
  · simp only [c.contains_readRange] at same
    rw [select_congr same]

end Condition

/-- What a call is given depends on the keys of these ranges alone. -/
def Call.ranges : Call → List KeyRange
  | .get key _ => [.point key]
  | .getMany keys _ => keys.map .point
  | .query c _ | .openStream c _ => [c.readRange]
  | .scan c limit rows => [Transaction.scanned c limit rows]
  | .stage _ | .poll _ _ => []

def Call.covers (call : Call) (k : Bytes) : Bool := call.ranges.any (·.contains k)

theorem Solo.get?_view_congr {m n : OrderedMap Bytes Bytes} {k : Bytes}
    (same : n.get? k = m.get? k) (s : Solo) : (s.view n).get? k = (s.view m).get? k := by
  rw [view, view, WriteSet.get?_onto, WriteSet.get?_onto, same]

theorem Solo.call_congr {m n : OrderedMap Bytes Bytes} {s s' : Solo} {call : Call}
    (made : s.call m call = some s') (same : ∀ k, call.covers k = true → n.get? k = m.get? k) :
    s.call n call = some s' := by
  rw [← made]
  cases call with
  | get key value =>
    have alike := s.get?_view_congr (same key (by simp [Call.covers, Call.ranges,
      (KeyRange.contains_point_iff key key).2]))
    rw [Solo.call, Solo.call, alike]
  | getMany keys values =>
    have alike : keys.map (s.view n).get? = keys.map (s.view m).get? := by
      apply List.map_congr_left
      intro key hkey
      refine s.get?_view_congr (same key ?_)
      rw [Call.covers, Call.ranges, List.any_map, List.any_eq_true]
      exact ⟨key, hkey, (KeyRange.contains_point_iff key key).2 rfl⟩
    rw [Solo.call, Solo.call, alike]
  | stage write => rfl
  | query c rows =>
    have alike : c.select (s.view n) = c.select (s.view m) :=
      Condition.select_congr fun k inside => s.get?_view_congr (same k (by
        simpa [Call.covers, Call.ranges, c.contains_readRange] using inside))
    rw [Solo.call, Solo.call, alike]
  | openStream c stream =>
    have alike : c.select (s.view n) = c.select (s.view m) :=
      Condition.select_congr fun k inside => s.get?_view_congr (same k (by
        simpa [Call.covers, Call.ranges, c.contains_readRange] using inside))
    rw [Solo.call, Solo.call, alike]
  | scan c limit rows =>
    rw [Solo.call] at made
    split at made
    · next given =>
      have alike : (c.select (s.view n)).take limit = (c.select (s.view m)).take limit :=
        Condition.take_select_congr fun k inside => s.get?_view_congr (same k (by
          rw [given] at inside
          simpa [Call.covers, Call.ranges] using inside))
      rw [Solo.call, Solo.call, alike]
    · cases made
  | poll stream row => rfl

theorem Solo.run_congr {m n : OrderedMap Bytes Bytes} {calls : List Call} {s s' : Solo}
    (made : s.run m calls = some s')
    (same : ∀ call ∈ calls, ∀ k, call.covers k = true → n.get? k = m.get? k) :
    s.run n calls = some s' := by
  induction calls generalizing s with
  | nil => exact made
  | cons call calls ih =>
    rw [run, Option.bind_eq_some_iff] at made
    obtain ⟨middle, first, rest⟩ := made
    rw [run, call_congr first (same call List.mem_cons_self), Option.bind_some]
    exact ih rest fun other mem => same other (List.mem_cons_of_mem call mem)

/-- An attempt may be moved to a state that agrees on what it has read. -/
theorem replay_congr {m n : OrderedMap Bytes Bytes} {calls : List Call} {s : Solo}
    (replayed : replay m calls = some s)
    (same : ∀ call ∈ calls, ∀ k, call.covers k = true → n.get? k = m.get? k) :
    replay n calls = some s :=
  Solo.run_congr replayed same

end OptimisticStore
