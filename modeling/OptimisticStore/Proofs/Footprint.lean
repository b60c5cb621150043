import OptimisticStore.Proofs.Replay
import OptimisticStore.Proofs.Sight

/-! The range that a read records is enough to tell what it gave: on any data that agree on the
keys of the range, the same read gives the same and records the same. A range holds no key
that the condition does not select, and that of a scan which stopped at its limit ends at the last
row, be it a committed one or a staged one. So a footprint that no later commit has touched
vouches for all reads of an attempt, and it is no wider than what they have seen. -/

namespace OptimisticStore

def KeyRange.Agree (range : KeyRange) (m n : OrderedMap Bytes Bytes) : Prop :=
  ∀ k, range.contains k = true → n.get? k = m.get? k

namespace Condition
variable {c : Condition} {limit : Nat} {rows : List (Bytes × Bytes)}

theorem contains_of_scanned {k : Bytes}
    (inside : (Transaction.scanned c limit rows).contains k = true) : c.contains k = true := by
  rw [Transaction.scanned] at inside
  split at inside
  · split at inside
    · exact ((c.contains_readRangeUntil _ k).1 inside).1
    · rwa [← c.contains_readRange]
  · rwa [← c.contains_readRange]

theorem not_before_of_scanned {last : Bytes × Bytes} (full : rows.length = limit)
    (hlast : rows.getLast? = some last) {k : Bytes}
    (inside : (Transaction.scanned c limit rows).contains k = true) :
    ¬ c.direction.Before last.1 k := by
  rw [Transaction.scanned, hlast] at inside
  simp only [if_pos full] at inside
  exact ((c.contains_readRangeUntil last.1 k).1 inside).2

end Condition

section Two
variable {μ₁ σ₁ κ₁ μ₂ σ₂ κ₂ : Type} {b₁ : Backend μ₁ σ₁ κ₁} {b₂ : Backend μ₂ σ₂ κ₂}
  {m₁ : μ₁} {m₂ : μ₂} {t₁ : Transaction σ₁} {t₂ : Transaction σ₂}
  {data₁ data₂ : OrderedMap Bytes Bytes} {now₁ now₂ : Moment}
  (shows₁ : Shows b₁ m₁ t₁.snapshot data₁) (shows₂ : Shows b₂ m₂ t₂.snapshot data₂)
  (open₁ : now₁.gate = none) (open₂ : now₂.gate = none) (same : t₂.writes = t₁.writes)

include same in
theorem seen_alike {k : Bytes} (agree : data₂.get? k = data₁.get? k) :
    (t₂.writes.onto data₂).get? k = (t₁.writes.onto data₁).get? k := by
  rw [same, WriteSet.get?_onto, WriteSet.get?_onto, agree]

include shows₁ shows₂ open₁ open₂ same

theorem scan_decided (c : Condition) (limit : Nat) : ∃ rows range,
    t₁.Gets m₁ (Transaction.scan b₁ now₁ c limit) rows [range] ∧
    (range.Agree data₁ data₂ → t₂.Gets m₂ (Transaction.scan b₂ now₂ c limit) rows [range]) ∧
    (∀ k, range.contains k = true → c.contains k = true) ∧
    (1 ≤ limit → rows.length = limit → ∃ last, rows.getLast? = some last ∧
      ∀ k, range.contains k = true → ¬ c.direction.Before last.1 k) := by
  obtain ⟨sight₁, kept₁⟩ := shows₁.exists_sight
  obtain ⟨sight₂, kept₂⟩ := shows₂.exists_sight
  let rows := (c.select (t₁.writes.onto data₁)).take limit
  refine ⟨rows, _, (sight₁.gets_scan open₁ c limit).gets kept₁, fun agree => ?_,
    fun k => Condition.contains_of_scanned, fun pos full => ?_⟩
  · have taken : (c.select (t₂.writes.onto data₂)).take limit = rows :=
      Condition.take_select_congr fun k inside => seen_alike same (agree k inside)
    have second := (sight₂.gets_scan open₂ c limit).gets kept₂
    rwa [taken] at second
  · have some_rows : rows ≠ [] := List.ne_nil_of_length_pos (by omega)
    have hlast := List.getLast?_eq_some_getLast some_rows
    exact ⟨_, hlast, fun k => Condition.not_before_of_scanned full hlast⟩

theorem get_decided (key : Bytes) : ∃ value range,
    t₁.Gets m₁ (Transaction.get b₁ now₁ key) value [range] ∧
    (range.Agree data₁ data₂ → t₂.Gets m₂ (Transaction.get b₂ now₂ key) value [range]) ∧
    ∀ k, range.contains k = true → k = key := by
  obtain ⟨sight₁, kept₁⟩ := shows₁.exists_sight
  obtain ⟨sight₂, kept₂⟩ := shows₂.exists_sight
  refine ⟨_, _, (sight₁.gets_get open₁ key).gets kept₁, fun agree => ?_,
    fun k => (KeyRange.contains_point_iff key k).1⟩
  have second := (sight₂.gets_get open₂ key).gets kept₂
  rwa [seen_alike same (agree key ((KeyRange.contains_point_iff key key).2 rfl))] at second

theorem query_decided (c : Condition) : ∃ rows range,
    (t₁.Gets m₁ (Engine.queryRows b₁ now₁ c) rows [range] ∧
      ∀ n, t₁.Gets m₁ (Transaction.pull b₁ now₁ c n) (rows.take n) [range]) ∧
    (range.Agree data₁ data₂ →
      t₂.Gets m₂ (Engine.queryRows b₂ now₂ c) rows [range] ∧
        ∀ n, t₂.Gets m₂ (Transaction.pull b₂ now₂ c n) (rows.take n) [range]) ∧
    ∀ k, range.contains k = true → c.contains k = true := by
  obtain ⟨sight₁, kept₁⟩ := shows₁.exists_sight
  obtain ⟨sight₂, kept₂⟩ := shows₂.exists_sight
  refine ⟨_, _, ⟨(sight₁.gets_queryRows open₁ c).gets kept₁,
      fun n => (sight₁.gets_pull open₁ c n).gets kept₁⟩, fun agree => ?_,
    fun k inside => by rwa [← c.contains_readRange]⟩
  have selected : c.select (t₂.writes.onto data₂) = c.select (t₁.writes.onto data₁) :=
    Condition.select_congr fun k inside =>
      seen_alike same (agree k (by rwa [c.contains_readRange]))
  rw [← selected]
  exact ⟨(sight₂.gets_queryRows open₂ c).gets kept₂,
    fun n => (sight₂.gets_pull open₂ c n).gets kept₂⟩

/-- What was recorded of a read decides it. Take a transaction whose snapshot shows the first data
and one with the same staged writes whose snapshot shows the second. Each read of the first one
gives a result and records one range, and if the data agree on the keys of this range, the same
read of the other one gives the same and records the same. It makes no difference what else the
two have read, which store they are on and when they are asked, as long as nothing stands against
it. The range lies within the condition, and behind the last row of a scan that stopped at its
limit it holds no key. -/
theorem footprint_decides :
    (∀ c limit, ∃ rows range,
      t₁.Gets m₁ (Transaction.scan b₁ now₁ c limit) rows [range] ∧
      (range.Agree data₁ data₂ → t₂.Gets m₂ (Transaction.scan b₂ now₂ c limit) rows [range]) ∧
      (∀ k, range.contains k = true → c.contains k = true) ∧
      (1 ≤ limit → rows.length = limit → ∃ last, rows.getLast? = some last ∧
        ∀ k, range.contains k = true → ¬ c.direction.Before last.1 k)) ∧
    (∀ key, ∃ value range,
      t₁.Gets m₁ (Transaction.get b₁ now₁ key) value [range] ∧
      (range.Agree data₁ data₂ → t₂.Gets m₂ (Transaction.get b₂ now₂ key) value [range]) ∧
      ∀ k, range.contains k = true → k = key) ∧
    ∀ c, ∃ rows range,
      (t₁.Gets m₁ (Engine.queryRows b₁ now₁ c) rows [range] ∧
        ∀ n, t₁.Gets m₁ (Transaction.pull b₁ now₁ c n) (rows.take n) [range]) ∧
      (range.Agree data₁ data₂ →
        t₂.Gets m₂ (Engine.queryRows b₂ now₂ c) rows [range] ∧
          ∀ n, t₂.Gets m₂ (Transaction.pull b₂ now₂ c n) (rows.take n) [range]) ∧
      ∀ k, range.contains k = true → c.contains k = true :=
  ⟨scan_decided shows₁ shows₂ open₁ open₂ same, get_decided shows₁ shows₂ open₁ open₂ same,
    query_decided shows₁ shows₂ open₁ open₂ same⟩

end Two

def widerSnapshot : Keyspace.Snapshot := ⟨0, (sampleHistory.state 1).insert [99] [51]⟩

theorem get?_widerSnapshot {k : Bytes} (other : k ≠ [99]) :
    widerSnapshot.data.get? k = (sampleHistory.state 1).get? k := by
  rw [widerSnapshot, OrderedMap.get?_insert, if_neg other]

def widerReader : Transaction Keyspace.Snapshot :=
  { serial := 0, registration := ⟨0, 1⟩, snapshot := widerSnapshot, liveness := .always,
    writes := Durable.sampleReader.writes, lastHeartbeat := 0 }

theorem shows_widerSnapshot : Shows Keyspace.backend {} widerReader.snapshot widerSnapshot.data :=
  .memory {} widerSnapshot

/-- A scan of two rows stops at the staged one, so the row behind it makes no difference. -/
theorem footprint_decides_sample :
    let range : KeyRange := ⟨.included [], .included [98]⟩
    let rows := [([97], [49]), ([98], [50])]
    widerReader.Gets ({} : Keyspace)
        (Transaction.scan Keyspace.backend Durable.sampleMoment .all 2) rows [range] ∧
      Durable.sampleReader.Gets soundStore
        (Transaction.scan (Durable.backend {}) Durable.sampleMoment .all 2) rows [range] := by
  intro range rows
  have isOpen : Durable.sampleMoment.gate = none := rfl
  have decided := (footprint_decides shows_widerSnapshot shows_soundStore isOpen isOpen rfl).1
  obtain ⟨rows', range', gets, decides, _⟩ := decided .all 2
  have given : (Transaction.scan Keyspace.backend Durable.sampleMoment .all 2
      (widerReader, {})).1.toOption = some rows := by decide +kernel
  have recorded : (Transaction.scan Keyspace.backend Durable.sampleMoment .all 2
      (widerReader, {})).2.1.reads.ranges = [range] := by decide +kernel
  obtain ⟨last, store, ran⟩ := id gets
  rw [ran] at given recorded
  have same_rows : rows' = rows := Option.some.inj given
  have same_range : range' = range := List.singleton_inj.1 recorded
  rw [same_rows, same_range] at gets decides
  refine ⟨gets, decides fun k inside => (get?_widerSnapshot ?_).symm⟩
  rintro rfl
  revert inside
  decide

end OptimisticStore
