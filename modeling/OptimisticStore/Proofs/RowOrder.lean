import OptimisticStore.Proofs.Layout

/-! Where a data row stands among all others: keys rise, the versions of a key fall, and of two
rows of one version the deletion comes last. The end of a key stands behind all of its rows and
before the stem of every greater key, whatever bytes the keys are made of. -/

namespace OptimisticStore.Layout

theorem mark_lt_mark_iff (c d : Bool) :
    ([if c then 1 else 0] : Bytes) < [if d then 1 else 0] ↔ c = false ∧ d = true := by
  cases c <;> cases d <;> decide

theorem suffix_lt_suffix_iff {u v : Nat} (hu : u < wordBound) (hv : v < wordBound) (c d : Bool) :
    cell (complement u) ++ [if c then 1 else 0] < cell (complement v) ++ [if d then 1 else 0] ↔
      v < u ∨ u = v ∧ c = false ∧ d = true := by
  have width : (cell (complement u)).length = (cell (complement v)).length := by simp
  rw [Bytes.append_lt_append_iff width, turned_lt_turned_iff hu hv, turned_inj hu hv,
    mark_lt_mark_iff]

theorem dataKey_lt_dataKey_iff (k l : Bytes) {u v : Nat} (hu : u < wordBound)
    (hv : v < wordBound) (c d : Bool) :
    dataKey k u c < dataKey l v d ↔ k < l ∨ k = l ∧ (v < u ∨ u = v ∧ c = false ∧ d = true) := by
  rcases Std.lt_trichotomy k l with lt | rfl | lt
  · exact iff_of_true (dataKey_lt_of_key_lt lt u v c d) (.inl lt)
  · rw [dataKey_eq, dataKey_eq, Bytes.append_lt_append_iff rfl, suffix_lt_suffix_iff hu hv]
    simp [Std.lt_irrefl]
  · have above : ¬ dataKey k u c < dataKey l v d :=
      Std.not_gt_of_lt (dataKey_lt_of_key_lt lt v u d c)
    have notBelow : ¬ k < l := Std.not_gt_of_lt lt
    have other : k ≠ l := (Std.ne_of_lt lt).symm
    refine iff_of_false above ?_
    rintro (below | ⟨same, _⟩)
    · exact notBelow below
    · exact other same

theorem dataKey_lt_end (k : Bytes) (v : Nat) (deleted : Bool) :
    dataKey k v deleted < dataKeyEnd k := by
  refine Std.lt_of_le_of_ne (dataKey_le_end k v deleted) fun same => ?_
  have last : (dataKey k v deleted).getLast? = some (if deleted then 1 else 0) := by
    simp [dataKey]
  have highest : (dataKeyEnd k).getLast? = some 255 := by
    simp [dataKeyEnd, List.replicate]
  rw [same, highest] at last
  cases deleted <;> simp at last

theorem dataKeyEnd_lt_dataStem_iff (k l : Bytes) : dataKeyEnd k < dataStem l ↔ k < l := by
  constructor
  · intro below
    -- The stem of `l` stands before any row of `l`, hence so does the end of `k`.
    have row : dataKeyEnd k < dataKey l 0 false :=
      Std.lt_of_lt_of_le below (dataStem_le_dataKey l 0 false)
    exact (dataKeyEnd_lt_dataKey_iff l k 0 false).1 row
  · intro lt
    exact dataStem_lt_append lt _

/-- Data keys sort as keys upwards, versions downwards and deletions last; all rows of a key
stand from its stem on and before its end, and its end before the stem of the greater keys
only. -/
theorem dataKey_order_exact (k l : Bytes) {u v : Nat} (hu : u < wordBound) (hv : v < wordBound)
    (c d : Bool) :
    (dataKey k u c < dataKey l v d ↔
      k < l ∨ k = l ∧ (u > v ∨ u = v ∧ c = false ∧ d = true)) ∧
    (dataStem k ≤ dataKey k u c ∧ dataKey k u c < dataKeyEnd k) ∧
    (dataKeyEnd k < dataStem l ↔ k < l) :=
  ⟨dataKey_lt_dataKey_iff k l hu hv c d, ⟨dataStem_le_dataKey k u c, dataKey_lt_end k u c⟩,
    dataKeyEnd_lt_dataStem_iff k l⟩

/-- A key and its continuation by bytes that look like an escape and a terminator, at the two
ends of the versions. -/
theorem dataKey_order_exact_sample :
    dataKey [0] (wordBound - 1) true < dataKey [0, 255, 0, 1] 0 false ∧
      ¬ dataKey [0] 0 false < dataKey [0] (wordBound - 1) true ∧
      dataKeyEnd [0] < dataStem [0, 255, 0, 1] := by
  have low : 0 < wordBound := by decide
  have high : wordBound - 1 < wordBound := by decide
  obtain ⟨row, _, next⟩ := dataKey_order_exact [0] [0, 255, 0, 1] high low true false
  obtain ⟨age, _, _⟩ := dataKey_order_exact [0] [0] low high false true
  have lt : ([0] : Bytes) < [0, 255, 0, 1] := by decide
  refine ⟨row.2 (.inl lt), ?_, next.2 lt⟩
  rw [age]
  decide

end OptimisticStore.Layout
