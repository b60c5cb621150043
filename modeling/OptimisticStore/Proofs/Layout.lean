import OptimisticStore.Durable.Layout

/-! The order of raw keys. A data row stands before those of greater keys and, among the rows of
its own key, before the older ones; log rows follow version and place, ledger rows read version
and transaction number. What is written in a region is read back from it, so a raw key tells
the row. -/

namespace OptimisticStore

def Registration.Fits (r : Registration) : Prop :=
  r.readVersion < Layout.wordBound ∧ r.txnId < Layout.wordBound

instance (r : Registration) : Decidable r.Fits := inferInstanceAs (Decidable (_ ∧ _))

namespace Bytes

theorem append_lt_append_iff {a b : Bytes} (same : a.length = b.length) (s t : Bytes) :
    a ++ s < b ++ t ↔ a < b ∨ a = b ∧ s < t := by
  induction a generalizing b with
  | nil =>
    have hb : b = [] := List.length_eq_zero_iff.1 same.symm
    subst hb
    simp
  | cons x a ih =>
    cases b with
    | nil => simp at same
    | cons y b =>
      have same : a.length = b.length := by simpa using same
      simp only [List.cons_append, List.cons_lt_cons_iff, ih same, List.cons.injEq]
      constructor
      · rintro (lt | ⟨eq, lt | ⟨eq', lt⟩⟩)
        · exact .inl (.inl lt)
        · exact .inl (.inr ⟨eq, lt⟩)
        · exact .inr ⟨⟨eq, eq'⟩, lt⟩
      · rintro ((lt | ⟨eq, lt⟩) | ⟨⟨eq, eq'⟩, lt⟩)
        · exact .inl lt
        · exact .inr ⟨eq, .inl lt⟩
        · exact .inr ⟨eq, .inr ⟨eq', lt⟩⟩

theorem append_le_append_iff {a b : Bytes} (same : a.length = b.length) (s t : Bytes) :
    a ++ s ≤ b ++ t ↔ a < b ∨ a = b ∧ s ≤ t := by
  rw [← Std.not_lt, append_lt_append_iff same.symm, ← Std.not_lt]
  rcases Std.lt_trichotomy a b with lt | rfl | lt
  · have asymm := Std.not_gt_of_lt lt
    have ne := Std.ne_of_lt lt
    simp [lt, asymm, ne.symm]
  · simp [Std.lt_irrefl]
  · have asymm := Std.not_gt_of_lt lt
    have ne := Std.ne_of_lt lt
    simp [lt, asymm, ne.symm]

theorem le_replicate {b : Bytes} {n : Nat} (short : b.length ≤ n) : b ≤ List.replicate n 255 := by
  induction b generalizing n with
  | nil => exact List.nil_le _
  | cons x b ih =>
    cases n with
    | zero => simp at short
    | succ n =>
      rw [← Std.not_lt, List.replicate_succ, List.cons_lt_cons_iff]
      rintro (lt | ⟨_, lt⟩)
      · have top := x.toNat_lt
        have lt : (255 : UInt8).toNat < x.toNat := lt
        simp at lt
        omega
      · exact Std.not_le_of_gt lt (ih (by simpa using short))

end Bytes

namespace Layout

theorem cell_lt_cell_iff {m n : Nat} (hm : m < wordBound) (hn : n < wordBound) :
    cell m < cell n ↔ m < n := Bytes.ofNat_lt_ofNat_iff hm hn

theorem toNat_cell {n : Nat} (hn : n < wordBound) : Bytes.toNat (cell n) = n :=
  Bytes.toNat_ofNat_of_lt hn

theorem cell_inj {m n : Nat} (hm : m < wordBound) (hn : n < wordBound) :
    cell m = cell n ↔ m = n := by
  constructor
  · intro same
    rw [← toNat_cell hm, same, toNat_cell hn]
  · exact congrArg cell

theorem cell_toNat {b : Bytes} (width : b.length = 8) : b.toNat < wordBound ∧ b = cell b.toNat :=
  eq_cell_of_readCell (show readCell b = .ok b.toNat by rw [readCell, if_pos width])

theorem complement_lt_complement_iff {u v : Nat} (hu : u < wordBound) (hv : v < wordBound) :
    complement u < complement v ↔ v < u := by
  rw [complement, complement, Nat.mod_eq_of_lt hu, Nat.mod_eq_of_lt hv]
  omega

theorem turned_lt_turned_iff {u v : Nat} (hu : u < wordBound) (hv : v < wordBound) :
    cell (complement u) < cell (complement v) ↔ v < u := by
  rw [cell_lt_cell_iff (complement_lt u) (complement_lt v), complement_lt_complement_iff hu hv]

theorem turned_inj {u v : Nat} (hu : u < wordBound) (hv : v < wordBound) :
    cell (complement u) = cell (complement v) ↔ u = v := by
  rw [cell_inj (complement_lt u) (complement_lt v)]
  constructor
  · intro same
    rw [← complement_complement hu, same, complement_complement hv]
  · exact congrArg complement

/-! ### Data -/

theorem escape_lt_escape {k l : Bytes} (lt : k < l) (s t : Bytes) :
    escape k ++ 0 :: 1 :: s < escape l ++ 0 :: 1 :: t := by
  induction k generalizing l with
  | nil =>
    cases l with
    | nil => simp at lt
    | cons y l =>
      by_cases zero : y = 0
      · simp [escape, zero, List.cons_lt_cons_iff]
      · have pos : 0 < y := UInt8.pos_iff_ne_zero.2 zero
        simp [escape, zero, List.cons_lt_cons_iff, pos]
  | cons x k ih =>
    cases l with
    | nil => simp at lt
    | cons y l =>
      rcases List.cons_lt_cons_iff.1 lt with below | ⟨rfl, rest⟩
      · have zero : y ≠ 0 := UInt8.pos_iff_ne_zero.1 (UInt8.lt_of_le_of_lt (UInt8.zero_le) below)
        by_cases hx : x = 0
        · simp [escape, hx, zero, List.cons_lt_cons_iff, UInt8.pos_iff_ne_zero.2 zero]
        · simp [escape, hx, zero, List.cons_lt_cons_iff, below]
      · by_cases hx : x = 0
        · simpa [escape, hx] using ih rest
        · simpa [escape, hx] using ih rest

theorem dataStem_append_lt {k l : Bytes} (lt : k < l) (s t : Bytes) :
    dataStem k ++ s < dataStem l ++ t := by
  have h := escape_lt_escape lt s t
  simpa [dataStem, List.cons_lt_cons_iff] using h

theorem dataStem_lt_append {k l : Bytes} (lt : k < l) (s : Bytes) :
    dataStem k ++ s < dataStem l := by
  simpa using dataStem_append_lt lt s []

theorem dataKey_eq (k : Bytes) (v : Nat) (deleted : Bool) :
    dataKey k v deleted =
      dataStem k ++ (cell (complement v) ++ [if deleted then 1 else 0]) := by
  rw [dataKey, List.append_assoc]

theorem dataKey_le_end (k : Bytes) (v : Nat) (deleted : Bool) :
    dataKey k v deleted ≤ dataKeyEnd k := by
  rw [dataKey_eq, dataKeyEnd, Bytes.append_le_append_iff rfl]
  exact .inr ⟨rfl, Bytes.le_replicate (by simp)⟩

theorem dataStem_le_dataKey (k : Bytes) (v : Nat) (deleted : Bool) :
    dataStem k ≤ dataKey k v deleted := by
  rw [dataKey_eq]
  exact List.le_append_left

theorem readDataKey_dataKey (k : Bytes) {v : Nat} (hv : v < wordBound) (deleted : Bool) :
    readDataKey (dataKey k v deleted) = .ok (k, v, deleted) := by
  have stem : dataKey k v deleted =
      1 :: (escape k ++ 0 :: 1 :: (cell (complement v) ++ [if deleted then 1 else 0])) := by
    simp [dataKey, dataStem]
  have number : Bytes.toNat (cell (complement v)) = complement v := toNat_cell (complement_lt v)
  have back := complement_complement hv
  rw [stem, readDataKey, unescape_escape]
  cases deleted
  all_goals simp [bind, Except.bind, number, back, pure, Except.pure]

theorem eq_dataKey_of_readDataKey {raw k : Bytes} {v : Nat} {deleted : Bool}
    (read : readDataKey raw = .ok (k, v, deleted)) :
    v < wordBound ∧ raw = dataKey k v deleted := by
  unfold readDataKey at read
  split at read
  · next rest =>
    rcases parts : unescape rest with defect | ⟨key, suffix⟩ <;> rw [parts] at read
    · cases read
    · simp only [bind, Except.bind] at read
      split at read
      · cases read
      · next width =>
        have short : (suffix.take 8).length = 8 := by rw [List.length_take]; omega
        obtain ⟨small, number⟩ := cell_toNat short
        have back := complement_complement small
        have written (mark : UInt8) (last : suffix.drop 8 = [mark]) :
            1 :: rest = dataStem key ++ cell (complement (complement
              (Bytes.toNat (suffix.take 8)))) ++ [mark] := by
          rw [back, ← number, List.append_assoc, ← last, List.take_append_drop,
            eq_of_unescape parts]
          simp [dataStem]
        split at read
        · next last =>
          cases read
          exact ⟨complement_lt _, written 0 last⟩
        · next last =>
          cases read
          exact ⟨complement_lt _, written 1 last⟩
        · cases read
        · cases read
  · cases read

theorem dataKey_inj {k l : Bytes} {u v : Nat} (hu : u < wordBound) (hv : v < wordBound)
    {c d : Bool} (same : dataKey k u c = dataKey l v d) : k = l ∧ u = v ∧ c = d := by
  have read := readDataKey_dataKey k hu c
  rw [same, readDataKey_dataKey l hv d] at read
  cases read
  exact ⟨rfl, rfl, rfl⟩

theorem dataKey_lt_of_newer (k : Bytes) {u v : Nat} (hv : v < wordBound) (newer : u < v)
    (c d : Bool) : dataKey k v c < dataKey k u d := by
  have hu : u < wordBound := Nat.lt_trans newer hv
  have cells := (turned_lt_turned_iff hv hu).2 newer
  rw [dataKey_eq, dataKey_eq, Bytes.append_lt_append_iff rfl]
  exact .inr ⟨rfl, (Bytes.append_lt_append_iff (by simp) _ _).2 (.inl cells)⟩

theorem dataKey_lt_of_key_lt {k l : Bytes} (lt : k < l) (u v : Nat) (c d : Bool) :
    dataKey k u c < dataKey l v d := by
  rw [dataKey_eq, dataKey_eq]
  exact dataStem_append_lt lt _ _

theorem seekKey_le_dataKey_iff (k : Bytes) {u v : Nat} (hu : u < wordBound) (hv : v < wordBound)
    (deleted : Bool) : seekKey k v ≤ dataKey k u deleted ↔ u ≤ v := by
  have order := turned_lt_turned_iff hv hu
  have same := turned_inj hv hu
  rw [dataKey_eq, seekKey, Bytes.append_le_append_iff rfl]
  have tail := Bytes.append_le_append_iff (a := cell (complement v)) (b := cell (complement u))
    (by simp) [] [if deleted then 1 else 0]
  rw [List.append_nil] at tail
  simp only [Std.lt_irrefl, false_or, true_and, tail, order, same, List.nil_le, and_true]
  omega

/-! ### Regions -/

def region (raw : Bytes) : Option UInt8 := raw.head?

@[simp] theorem region_dataKey (k : Bytes) (v : Nat) (deleted : Bool) :
    region (dataKey k v deleted) = some 1 := rfl

@[simp] theorem region_versionKey : region versionKey = some 2 := rfl

@[simp] theorem region_txnIdKey : region txnIdKey = some 2 := rfl

@[simp] theorem region_logKey (v i : Nat) : region (logKey v i) = some 3 := rfl

@[simp] theorem region_ledgerKey (r : Registration) : region (ledgerKey r) = some 4 := rfl

theorem region_of_readDataKey {raw : Bytes} {x : Bytes × Nat × Bool}
    (read : readDataKey raw = .ok x) : region raw = some 1 := by
  rw [(eq_dataKey_of_readDataKey read).2, region_dataKey]

theorem region_eq_iff (raw : Bytes) {b : UInt8} (hb : b.toNat < 255) :
    region raw = some b ↔ [b] ≤ raw ∧ raw < [b + 1] := by
  have step : (b + 1).toNat = b.toNat + 1 := by
    rw [UInt8.toNat_add]
    exact Nat.mod_eq_of_lt (Nat.succ_lt_succ hb)
  cases raw with
  | nil => simp [region]
  | cons x raw =>
    have above : b < x → ¬ x < b + 1 := by
      rw [UInt8.lt_iff_toNat_lt, UInt8.lt_iff_toNat_lt, step]
      omega
    have self : b < b + 1 := by
      rw [UInt8.lt_iff_toNat_lt, step]
      omega
    simp only [region, List.head?_cons, Option.some.injEq, ← Std.not_lt, List.cons_lt_cons_iff,
      List.not_lt_nil, and_false, or_false]
    constructor
    · rintro rfl
      exact ⟨Std.lt_irrefl, self⟩
    · rintro ⟨notBelow, below⟩
      rcases Std.lt_trichotomy x b with lt | eq | lt
      · exact absurd lt notBelow
      · exact eq
      · exact absurd below (above lt)

theorem dataStem_le_dataKey_iff (k l : Bytes) (v : Nat) (deleted : Bool) :
    dataStem l ≤ dataKey k v deleted ↔ l ≤ k := by
  rcases Std.lt_trichotomy l k with lt | rfl | lt
  · have below := dataStem_append_lt lt [] (cell (complement v) ++ [if deleted then 1 else 0])
    rw [List.append_nil, ← dataKey_eq] at below
    exact iff_of_true (Std.le_of_lt below) (Std.le_of_lt lt)
  · exact iff_of_true (dataStem_le_dataKey l v deleted) (Std.le_refl l)
  · have above := dataStem_lt_append lt (cell (complement v) ++ [if deleted then 1 else 0])
    rw [← dataKey_eq] at above
    exact iff_of_false (Std.not_le_of_gt above) (Std.not_le_of_gt lt)

theorem dataKeyEnd_lt_dataKey_iff (k l : Bytes) (v : Nat) (deleted : Bool) :
    dataKeyEnd l < dataKey k v deleted ↔ l < k := by
  rcases Std.lt_trichotomy l k with lt | rfl | lt
  · have below : dataKeyEnd l < dataKey k v deleted := by
      rw [dataKey_eq]
      exact dataStem_append_lt lt _ _
    exact iff_of_true below lt
  · exact iff_of_false (Std.not_lt_of_ge (dataKey_le_end l v deleted)) Std.lt_irrefl
  · have above : dataKey k v deleted < dataKeyEnd l := by
      rw [dataKey_eq]
      exact dataStem_append_lt lt _ _
    exact iff_of_false (Std.not_gt_of_lt above) (Std.not_gt_of_lt lt)

theorem dataRange_lower_iff (r : KeyRange) (k : Bytes) (v : Nat) (deleted : Bool) :
    (dataRange r).1.Below (dataKey k v deleted) ↔ r.lower.cut.Below k := by
  rw [dataRange]
  cases r.lower.cut with
  | unbounded => exact iff_of_true ((region_eq_iff _ (b := 1) (by decide)).1 rfl).1 trivial
  | included l => exact dataStem_le_dataKey_iff k l v deleted
  | excluded l => exact dataKeyEnd_lt_dataKey_iff k l v deleted

theorem dataRange_upper_iff (r : KeyRange) (k : Bytes) (v : Nat) (deleted : Bool) :
    (dataRange r).2.Above (dataKey k v deleted) ↔ r.upper.cut.Above k := by
  rw [dataRange]
  cases r.upper.cut with
  | unbounded => exact iff_of_true ((region_eq_iff _ (b := 1) (by decide)).1 rfl).2 trivial
  | included u =>
    simp only [Cut.Above]
    rw [← Std.not_lt, dataKeyEnd_lt_dataKey_iff, Std.not_lt]
  | excluded u =>
    simp only [Cut.Above]
    rw [← Std.not_le, dataStem_le_dataKey_iff, Std.not_le]

theorem dataRange_iff (r : KeyRange) (k : Bytes) (v : Nat) (deleted : Bool) :
    (dataRange r).1.Below (dataKey k v deleted) ∧ (dataRange r).2.Above (dataKey k v deleted) ↔
      r.contains k = true := by
  rw [dataRange_lower_iff, dataRange_upper_iff, KeyRange.contains_iff_cuts]

/-- Whatever bytes the keys are made of, no row of one lies among those of another. -/
theorem eq_of_between {k l : Bytes} {v : Nat} {deleted : Bool}
    (lower : dataStem k ≤ dataKey l v deleted) (upper : dataKey l v deleted ≤ dataKeyEnd k) :
    l = k := by
  have low : k ≤ l := (dataStem_le_dataKey_iff l k v deleted).1 lower
  have high : ¬ k < l := by
    rw [← dataKeyEnd_lt_dataKey_iff l k v deleted]
    exact Std.not_lt_of_ge upper
  exact Std.le_antisymm (Std.not_lt.1 high) low

/-- Between the place of a version and the end of its key stand the rows of that version and
the older ones. -/
theorem seek_iff (k l : Bytes) {u v : Nat} (hu : u < wordBound) (hv : v < wordBound)
    (deleted : Bool) :
    seekKey k v ≤ dataKey l u deleted ∧ dataKey l u deleted ≤ dataKeyEnd k ↔ l = k ∧ u ≤ v := by
  constructor
  · rintro ⟨lower, upper⟩
    obtain rfl : l = k := eq_of_between (Std.le_trans List.le_append_left lower) upper
    exact ⟨rfl, (seekKey_le_dataKey_iff l hu hv deleted).1 lower⟩
  · rintro ⟨rfl, seen⟩
    exact ⟨(seekKey_le_dataKey_iff l hu hv deleted).2 seen, dataKey_le_end l u deleted⟩

theorem region_of_seek {k raw : Bytes} {v : Nat} (lower : seekKey k v ≤ raw)
    (upper : raw ≤ dataKeyEnd k) : region raw = some 1 := by
  have hb : (1 : UInt8).toNat < 255 := by decide
  rw [region_eq_iff raw hb]
  constructor
  · exact Std.le_trans ((region_eq_iff (seekKey k v) hb).1 rfl).1 lower
  · exact Std.lt_of_le_of_lt upper ((region_eq_iff (dataKeyEnd k) hb).1 rfl).2

theorem region_of_dataRange {r : KeyRange} {raw : Bytes} (lower : (dataRange r).1.Below raw)
    (upper : (dataRange r).2.Above raw) : region raw = some 1 := by
  have hb : (1 : UInt8).toNat < 255 := by decide
  have above (suffix : Bytes) (k : Bytes) : [1] ≤ dataStem k ++ suffix :=
    ((region_eq_iff (dataStem k ++ suffix) hb).1 rfl).1
  have below (suffix : Bytes) (k : Bytes) : dataStem k ++ suffix < [2] :=
    ((region_eq_iff (dataStem k ++ suffix) hb).1 rfl).2
  rw [region_eq_iff raw hb]
  constructor
  · rw [dataRange] at lower
    cases cut : r.lower.cut with
    | unbounded => simpa [cut, Cut.Below] using lower
    | included l =>
      rw [cut] at lower
      exact Std.le_trans (by simpa using above [] l) lower
    | excluded l =>
      rw [cut] at lower
      exact Std.le_of_lt (Std.lt_of_le_of_lt (above _ l) lower)
  · rw [dataRange] at upper
    cases cut : r.upper.cut with
    | unbounded => simpa [cut, Cut.Above] using upper
    | included u =>
      rw [cut] at upper
      exact Std.lt_of_le_of_lt upper (below _ u)
    | excluded u =>
      rw [cut] at upper
      exact Std.lt_trans upper (by simpa using below [] u)

/-! ### Log -/

theorem logKey_lt_logKey_iff {u v i j : Nat} (hu : u < wordBound) (hv : v < wordBound)
    (hi : i < placeBound) (hj : j < placeBound) :
    logKey u i < logKey v j ↔ u < v ∨ u = v ∧ i < j := by
  have places : Bytes.ofNat 4 i < Bytes.ofNat 4 j ↔ i < j := Bytes.ofNat_lt_ofNat_iff hi hj
  have versions := cell_lt_cell_iff hu hv
  have same := cell_inj hu hv
  rw [logKey, logKey, Bytes.append_lt_append_iff (by simp), List.cons_lt_cons_iff, places]
  simp only [cell] at versions same
  simp [versions, same, Std.lt_irrefl]

theorem logKey_inj {u v i j : Nat} (hu : u < wordBound) (hv : v < wordBound)
    (hi : i < placeBound) (hj : j < placeBound) (same : logKey u i = logKey v j) :
    u = v ∧ i = j := by
  have forth := logKey_lt_logKey_iff hu hv hi hj
  have back := logKey_lt_logKey_iff hv hu hj hi
  rw [same] at forth back
  simp only [Std.lt_irrefl, false_iff] at forth back
  omega

theorem mod_placeBound_lt (i : Nat) : i % placeBound < placeBound :=
  Nat.mod_lt i (Bytes.capacity_pos 4)

theorem logKey_mod (v i : Nat) : logKey v (i % placeBound) = logKey v i := by
  have round := Bytes.ofNat_mul_add 4 (i / placeBound) (i % placeBound)
  have whole : i / placeBound * Bytes.capacity 4 + i % placeBound = i :=
    Nat.div_add_mod' i placeBound
  rw [whole] at round
  rw [logKey, logKey, round]

theorem logKey_eq_iff (v : Nat) {i j : Nat} :
    logKey v i = logKey v j ↔ i % placeBound = j % placeBound := by
  constructor
  · intro same
    have cells : Bytes.ofNat 4 i = Bytes.ofNat 4 j := List.append_cancel_left same
    have places := congrArg Bytes.toNat cells
    rwa [Bytes.toNat_ofNat, Bytes.toNat_ofNat] at places
  · intro same
    rw [← logKey_mod v i, same, logKey_mod]

theorem readLogVersion_logKey {v : Nat} (hv : v < wordBound) (i : Nat) :
    readLogVersion (logKey v i) = .ok v := by
  have number : Bytes.toNat (Bytes.ofNat 8 v) = v := toNat_cell hv
  simp [readLogVersion, logKey, number]

theorem eq_logKey_of_readLogVersion {raw : Bytes} {v : Nat} (read : readLogVersion raw = .ok v) :
    v < wordBound ∧ ∃ i < placeBound, raw = logKey v i := by
  unfold readLogVersion at read
  split at read
  · next rest =>
    split at read
    · next width =>
      cases read
      have short : (rest.take 8).length = 8 := by rw [List.length_take]; omega
      have four : (rest.drop 8).length = 4 := by rw [List.length_drop]; omega
      obtain ⟨small, number⟩ := cell_toNat short
      have place := Bytes.ofNat_toNat (rest.drop 8)
      have bound := Bytes.toNat_lt (rest.drop 8)
      rw [four] at place bound
      refine ⟨small, _, bound, ?_⟩
      rw [logKey, place, ← cell, ← number, List.cons_append, List.take_append_drop]
    · cases read
  · cases read

theorem region_of_readLogVersion {raw : Bytes} {v : Nat} (read : readLogVersion raw = .ok v) :
    region raw = some 3 := by
  obtain ⟨_, i, _, rfl⟩ := eq_logKey_of_readLogVersion read
  exact region_logKey v i

theorem logRange_iff {after v i : Nat} (upto : Option Nat) (hv : v < wordBound)
    (hi : i < placeBound) (hupto : ∀ n ∈ upto, n < wordBound) :
    (logRange after upto).1.Below (logKey v i) ∧ (logRange after upto).2.Above (logKey v i) ↔
      min (after + 1) (wordBound - 1) ≤ v ∧ ∀ n ∈ upto, v ≤ n := by
  have first : min (after + 1) (wordBound - 1) < wordBound := by omega
  have lower : (logRange after upto).1.Below (logKey v i) ↔
      min (after + 1) (wordBound - 1) ≤ v := by
    simp only [logRange, Cut.Below]
    rw [← Std.not_lt, logKey_lt_logKey_iff hv first hi (by decide)]
    omega
  rw [lower]
  cases upto with
  | none =>
    have stop := ((region_eq_iff (logKey v i) (b := 3) (by decide)).1 rfl).2
    simp only [logRange, Cut.Above, Option.not_mem_none, false_implies, implies_true, and_true]
    exact and_iff_left stop
  | some n =>
    have hn := hupto n rfl
    have upper : logKey v i ≤ logKey n (placeBound - 1) ↔ v ≤ n := by
      rw [← Std.not_lt, logKey_lt_logKey_iff hn hv (by decide) hi]
      omega
    simp only [logRange, Cut.Above, upper, Option.mem_some_iff, forall_eq']

theorem region_of_logRange {after : Nat} {upto : Option Nat} {raw : Bytes}
    (lower : (logRange after upto).1.Below raw) (upper : (logRange after upto).2.Above raw) :
    region raw = some 3 := by
  have hb : (3 : UInt8).toNat < 255 := by decide
  rw [region_eq_iff raw hb]
  constructor
  · exact Std.le_trans ((region_eq_iff (logKey _ 0) hb).1 rfl).1 lower
  · cases upto with
    | none => exact upper
    | some n => exact Std.lt_of_le_of_lt upper ((region_eq_iff (logKey n _) hb).1 rfl).2

/-! ### Ledger -/

theorem ledgerKey_lt_ledgerKey_iff {r s : Registration} (hr : r.Fits) (hs : s.Fits) :
    ledgerKey r < ledgerKey s ↔
      r.readVersion < s.readVersion ∨ r.readVersion = s.readVersion ∧ r.txnId < s.txnId := by
  have versions := cell_lt_cell_iff hr.1 hs.1
  have same := cell_inj hr.1 hs.1
  have numbers := cell_lt_cell_iff hr.2 hs.2
  rw [ledgerKey, ledgerKey, Bytes.append_lt_append_iff (by simp), List.cons_lt_cons_iff, numbers]
  simp [versions, same, Std.lt_irrefl]

theorem readLedgerKey_ledgerKey {r : Registration} (hr : r.Fits) :
    readLedgerKey (ledgerKey r) = .ok r := by
  have version := toNat_cell hr.1
  have number := toNat_cell hr.2
  simp [readLedgerKey, ledgerKey, version, number]

theorem eq_ledgerKey_of_readLedgerKey {raw : Bytes} {r : Registration}
    (read : readLedgerKey raw = .ok r) : r.Fits ∧ raw = ledgerKey r := by
  unfold readLedgerKey at read
  split at read
  · next rest =>
    split at read
    · next width =>
      cases read
      obtain ⟨version_lt, version⟩ :=
        cell_toNat (b := rest.take 8) (by rw [List.length_take]; omega)
      obtain ⟨number_lt, number⟩ :=
        cell_toNat (b := rest.drop 8) (by rw [List.length_drop]; omega)
      refine ⟨⟨version_lt, number_lt⟩, ?_⟩
      rw [ledgerKey, ← version, ← number, List.cons_append, List.take_append_drop]
    · cases read
  · cases read

theorem region_of_readLedgerKey {raw : Bytes} {r : Registration}
    (read : readLedgerKey raw = .ok r) : region raw = some 4 := by
  rw [(eq_ledgerKey_of_readLedgerKey read).2, region_ledgerKey]

theorem ledgerKey_inj {r s : Registration} (hr : r.Fits) (hs : s.Fits)
    (same : ledgerKey r = ledgerKey s) : r = s := by
  have read := readLedgerKey_ledgerKey hr
  rw [same, readLedgerKey_ledgerKey hs] at read
  cases read
  rfl

theorem ledgerRange_iff (raw : Bytes) :
    ledgerRange.1.Below raw ∧ ledgerRange.2.Above raw ↔ region raw = some 4 :=
  (region_eq_iff raw (by decide)).symm

end Layout
end OptimisticStore
