import OptimisticStore.Proofs.Device
import OptimisticStore.Proofs.Layout
import OptimisticStore.Proofs.Replay
import OptimisticStore.Proofs.Walks

/-! The forms of a range of keys select alike. A range is recorded as two endpoints, which are held
against the keys that others have written. Read from a map it is a walk between two cuts, and read
from raw rows a scan between two raw ends. Whatever the endpoints are, also if they cross, all of
them admit the same keys, and those of a condition are the keys that it contains. -/

namespace OptimisticStore
open Layout

theorem ReadFootprint.validate_range_iff (r : KeyRange) (readVersion v : Version) (k : Bytes) :
    ReadFootprint.validate ⟨[r]⟩ readVersion [(v, k)] = .ok () ↔
      ¬ (readVersion < v ∧ r.contains k = true) := by
  simp [validate_eq_ok_iff, covers]

theorem RawRows.scan_unlimited {rows : RawRows} {limit : Nat} (unlimited : rows.size ≤ limit)
    (lower upper : Cut Bytes) (d : Direction) :
    rows.scan lower upper d limit = d.arrange (OrderedMap.between rows lower upper) := by
  have whole : (d.arrange (OrderedMap.between rows lower upper)).length ≤ limit := by
    rw [Direction.length_arrange]
    exact Nat.le_trans (OrderedMap.length_between_le rows lower upper) unlimited
  rw [scan_eq_take, List.take_of_length_le whole]

theorem RawRows.mem_scan_iff {rows : RawRows} {limit : Nat} (unlimited : rows.size ≤ limit)
    (lower upper : Cut Bytes) (d : Direction) (e : Row) :
    e ∈ rows.scan lower upper d limit ↔
      rows.get? e.1 = some e.2 ∧ lower.Below e.1 ∧ upper.Above e.1 := by
  rw [scan_unlimited unlimited, Direction.mem_arrange, OrderedMap.mem_between]

/-- For any endpoints and any key: the recorded range contains the key if the key stands between
the cuts, if any data row of it stands between the raw ends, if a later write of it is refused, if
a walk gives its entry, and if a scan gives its rows. The range of a condition contains what the
condition does, and the part up to a key what of it is not met after that key. -/
theorem range_forms_agree (r : KeyRange) (k : Bytes) :
    (r.contains k = true ↔ r.lower.cut.Below k ∧ r.upper.cut.Above k) ∧
    (∀ v deleted, r.contains k = true ↔
      (dataRange r).1.Below (dataKey k v deleted) ∧ (dataRange r).2.Above (dataKey k v deleted)) ∧
    (∀ readVersion v, ReadFootprint.validate ⟨[r]⟩ readVersion [(v, k)] = .ok () ↔
      ¬ (readVersion < v ∧ r.contains k = true)) ∧
    (∀ (m : OrderedMap Bytes Bytes) d value, (k, value) ∈ m.range r.lower.cut r.upper.cut d ↔
      m.get? k = some value ∧ r.contains k = true) ∧
    (∀ (rows : RawRows) v deleted d value,
      (dataKey k v deleted, value) ∈ rows.scan (dataRange r).1 (dataRange r).2 d rows.size ↔
        rows.get? (dataKey k v deleted) = some value ∧ r.contains k = true) ∧
    ∀ c : Condition, c.readRange.contains k = c.contains k ∧
      ∀ last, (c.readRangeUntil last).contains k = true ↔
        c.contains k = true ∧ ¬ c.direction.Before last k := by
  refine ⟨r.contains_iff_cuts k, fun v deleted => (dataRange_iff r k v deleted).symm,
    fun readVersion v => ReadFootprint.validate_range_iff r readVersion v k,
    fun m d value => ?_, fun rows v deleted d value => ?_,
    fun c => ⟨c.contains_readRange k, fun last => c.contains_readRangeUntil last k⟩⟩
  · rw [OrderedMap.mem_range_iff, r.contains_iff_cuts]
  · rw [RawRows.mem_scan_iff (Nat.le_refl _), dataRange_iff]

/-- Endpoints that cross admit nothing, endpoints that meet what both include. -/
example : KeyRange.contains ⟨.included [2], .included [1]⟩ [1] = false ∧
    KeyRange.contains ⟨.included [1], .included [1]⟩ [1] = true ∧
    KeyRange.contains ⟨.excluded [1], .included [1]⟩ [1] = false := by decide

end OptimisticStore
