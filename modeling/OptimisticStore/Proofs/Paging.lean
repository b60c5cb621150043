import OptimisticStore.Proofs.RangeForms
import OptimisticStore.Proofs.RowMedium

/-! Reading a range page by page. The loop goes on behind the last row of each full page and stops
at the first page that is not full. While the rows stay as they are it comes to its end, after one
call for each full page and one more, and what it has collected by then is what a single scan gives
that is not cut short. The bound that the store puts on the number of pages never cuts it off. -/

namespace OptimisticStore

namespace RowMedium
variable {μ : Type}

/-- The loop as it runs without a bound: from `lower` and `m` on it makes `calls` scans, collects
`rows`, and leaves the medium as `m'`. -/
inductive Collects (raw : RowMedium μ) (pageSize : Nat) (upper : Cut Bytes) :
    (lower : Cut Bytes) → (m : μ) → (rows : List Row) → (calls : Nat) → (m' : μ) → Prop
  | last {lower m page m'} (scanned : raw.scan lower upper .forward pageSize m = (.ok page, m'))
      (short : page.length < pageSize) : Collects raw pageSize upper lower m page 1 m'
  | more {lower m page m₁ rest calls m'}
      (scanned : raw.scan lower upper .forward pageSize m = (.ok page, m₁))
      (full : ¬ page.length < pageSize)
      (onward : Collects raw pageSize upper
        (page.getLast?.elim lower fun (last, _) => .excluded last) m₁ rest calls m') :
      Collects raw pageSize upper lower m (page ++ rest) (calls + 1) m'

/-- The medium answers from the same rows as long as `P` holds, and so do all of its answers. -/
structure Serves (raw : RowMedium μ) (P : μ → Prop) (rows : RawRows) : Prop where
  scan lower upper limit m : P m → ∃ m',
    raw.scan lower upper .forward limit m = (.ok (rows.scan lower upper .forward limit), m') ∧ P m'
  size m : P m → rows.size ≤ raw.size m

variable {raw : RowMedium μ} {P : μ → Prop} {rows : RawRows} {pageSize calls : Nat}
  {lower upper : Cut Bytes} {m m' : μ} {collected : List Row}

theorem Collects.scanPages_eq (collects : raw.Collects pageSize upper lower m collected calls m')
    {fuel : Nat} (enough : calls ≤ fuel) :
    raw.scanPages pageSize upper fuel lower m = (.ok collected, m') := by
  induction collects generalizing fuel with
  | last scanned short =>
    obtain ⟨fuel, rfl⟩ := Nat.exists_eq_add_of_le' enough
    rw [scanPages, Access.bind_apply, scanned]
    dsimp only
    rw [if_pos short]
    rfl
  | more scanned full _ ih =>
    obtain ⟨fuel, rfl⟩ := Nat.exists_eq_add_of_le' (Nat.le_trans (Nat.le_add_left 1 _) enough)
    rw [scanPages, Access.bind_apply, scanned]
    dsimp only
    rw [if_neg full, Access.bind_apply, ih (Nat.le_of_succ_le_succ enough)]
    rfl

/-- On the number of rows that are left: each full page takes some of them away. -/
theorem Serves.collects (serves : raw.Serves P rows) (pos : 0 < pageSize)
    (lower upper : Cut Bytes) (holds : P m) :
    ∃ m', P m' ∧ raw.Collects pageSize upper lower m (OrderedMap.between rows lower upper)
      ((OrderedMap.between rows lower upper).length / pageSize + 1) m' := by
  -- a full page takes at least one row, so fewer are left behind it
  generalize left : (OrderedMap.between rows lower upper).length = n
  induction n using Nat.strongRecOn generalizing lower m with
  | ind n ih =>
    obtain ⟨m₁, scanned, holds₁⟩ := serves.scan lower upper pageSize m holds
    rw [RawRows.scan_eq_take, Direction.arrange] at scanned
    by_cases short : n < pageSize
    · rw [List.take_of_length_le (by omega)] at scanned
      rw [Nat.div_eq_of_lt short]
      exact ⟨m₁, holds₁, .last scanned (by omega)⟩
    · have full : pageSize ≤ (OrderedMap.between rows lower upper).length := by omega
      have behind := OrderedMap.between_behind_page pos full
      have fewer := congrArg List.length behind
      rw [List.length_drop, left] at fewer
      obtain ⟨m', holds', onward⟩ := ih _ (by omega) _ holds₁ fewer
      have counted : n / pageSize = (n - pageSize) / pageSize + 1 := by
        rw [Nat.div_eq_sub_div pos (by omega)]
      refine ⟨m', holds', ?_⟩
      rw [counted, ← List.take_append_drop pageSize (OrderedMap.between rows lower upper), ← behind]
      have whole : ¬ ((OrderedMap.between rows lower upper).take pageSize).length < pageSize := by
        rw [List.length_take]
        omega
      exact .more scanned whole onward

theorem Serves.scanAll_eq (serves : raw.Serves P rows) {config : Config}
    (pos : 0 < config.pageSize) (ends : Cut Bytes × Cut Bytes) (holds : P m) :
    ∃ m', P m' ∧ raw.Collects config.pageSize ends.2 ends.1 m
        (OrderedMap.between rows ends.1 ends.2)
        ((OrderedMap.between rows ends.1 ends.2).length / config.pageSize + 1) m' ∧
      raw.scanAll config ends m = (.ok (OrderedMap.between rows ends.1 ends.2), m') := by
  obtain ⟨m', holds', collects⟩ := serves.collects pos ends.1 ends.2 holds
  have pages := Nat.div_le_self (OrderedMap.between rows ends.1 ends.2).length config.pageSize
  have stored := OrderedMap.length_between_le rows ends.1 ends.2
  have counted := serves.size m holds
  exact ⟨m', holds', collects, collects.scanPages_eq (by omega)⟩

theorem Collects.calls_device {d d' : Device}
    (collects : deviceMedium.Collects pageSize upper lower d collected calls d') :
    ∃ made, d'.calls = made ++ d.calls ∧ made.length = calls ∧
      ∀ call ∈ made, ∃ l, call = .scan l upper .forward pageSize := by
  have noted {l : Cut Bytes} {d d₁ : Device} {page : List Row}
      (scanned : Device.scan l upper .forward pageSize d = (.ok page, d₁)) :
      d₁.calls = .scan l upper .forward pageSize :: d.calls := by
    rw [← Device.calls_scan, scanned]
  induction collects with
  | last scanned _ => exact ⟨[_], noted scanned, rfl, by simp⟩
  | @more l _ _ _ _ _ _ scanned _ _ ih =>
    obtain ⟨made, since, length, scans⟩ := ih
    refine ⟨made ++ [.scan l upper .forward pageSize], ?_, by simp [length], ?_⟩
    · rw [since, noted scanned, List.append_assoc]
      rfl
    · simpa [or_imp, forall_and] using scans

theorem serves_deviceMedium (rows : RawRows) :
    deviceMedium.Serves (fun d => d.Faultless ∧ d.rows = rows) rows where
  scan lower upper limit d := by
    rintro ⟨faultless, same⟩
    rw [RawRows.scan_eq_take]
    exact Device.does_scan rows lower upper .forward limit d faultless same
  size d holds := Nat.le_of_eq (congrArg OrderedMap.size holds.2.symm)

end RowMedium

def RawRows.scanOnce (rows : RawRows) (ends : Cut Bytes × Cut Bytes) : List Row :=
  rows.scan ends.1 ends.2 .forward rows.size

theorem RawRows.scanOnce_eq_between (rows : RawRows) (ends : Cut Bytes × Cut Bytes) :
    rows.scanOnce ends = OrderedMap.between rows ends.1 ends.2 :=
  scan_unlimited (Nat.le_refl _) ends.1 ends.2 .forward

/-- For any rows, any ends, and any page size, of which an open store takes at least one: over any
medium that goes on serving these rows the loop comes to its end after as many calls as there are
full pages and one more, with all rows that lie between the ends, once each and in order, as a
single scan gives them. So does the store, also over a device, where these are all of the calls. -/
theorem paging_complete (config : Config) (n : Nat) (ends : Cut Bytes × Cut Bytes)
    (rows : RawRows) :
    (∀ limit, rows.size ≤ limit →
      rows.scan ends.1 ends.2 .forward limit = rows.scanOnce ends) ∧
    (rows.scanOnce ends).Pairwise (fun a b => a.1 < b.1) ∧
    (∀ e, e ∈ rows.scanOnce ends ↔
      rows.get? e.1 = some e.2 ∧ ends.1.Below e.1 ∧ ends.2.Above e.1) ∧
    (∀ (μ : Type) (raw : RowMedium μ) (P : μ → Prop), raw.Serves P rows → ∀ m, P m →
      (∀ limit, rows.size ≤ limit →
        (raw.scan ends.1 ends.2 .forward limit m).1 = .ok (rows.scanOnce ends)) ∧
      ∃ m', P m' ∧ raw.Collects (max n 1) ends.2 ends.1 m (rows.scanOnce ends)
          ((rows.scanOnce ends).length / max n 1 + 1) m' ∧
        raw.scanAll (config.withPageSize n) ends m = (.ok (rows.scanOnce ends), m')) ∧
    ∀ d : Device, d.Faultless → d.rows = rows → ∃ d' made,
      Durable.scanAll (config.withPageSize n) ends d = (.ok (rows.scanOnce ends), d') ∧
      d'.rows = rows ∧ d'.calls = made ++ d.calls ∧
      made.length = (rows.scanOnce ends).length / max n 1 + 1 ∧
      ∀ call ∈ made, ∃ l, call = .scan l ends.2 .forward (max n 1) := by
  have pos : 0 < (config.withPageSize n).pageSize :=
    Nat.lt_of_lt_of_le Nat.one_pos (Nat.le_max_right n 1)
  have once {limit : Nat} (unlimited : rows.size ≤ limit) :
      rows.scan ends.1 ends.2 .forward limit = OrderedMap.between rows ends.1 ends.2 :=
    RawRows.scan_unlimited unlimited ends.1 ends.2 .forward
  rw [RawRows.scanOnce_eq_between]
  refine ⟨fun limit => once, rows.pairwise_between ends.1 ends.2, fun e => OrderedMap.mem_between,
    fun μ raw P serves m holds => ⟨fun limit unlimited => ?_, serves.scanAll_eq pos ends holds⟩,
    fun d faultless same => ?_⟩
  · obtain ⟨m₁, scanned, _⟩ := serves.scan ends.1 ends.2 limit m holds
    rw [scanned, once unlimited]
  obtain ⟨d', ⟨_, after⟩, collects, ran⟩ :=
    (RowMedium.serves_deviceMedium rows).scanAll_eq pos ends ⟨faultless, same⟩
  obtain ⟨made, since, length, scans⟩ := collects.calls_device
  rw [RowMedium.scanAll_deviceMedium] at ran
  exact ⟨d', made, ran, after, since, length, scans⟩

def pagedRows : RawRows :=
  (∅ : RawRows).apply [.put [3] [], .put [1] [], .put [5] [], .put [2] [7], .put [4] []]

def pagedEnds : Cut Bytes × Cut Bytes := (.excluded [1], .included [5])

theorem paging_complete_multiple :
    ∃ d₂ d₀ d₉ : Device,
      Durable.scanAll (Config.withPageSize {} 2) pagedEnds { rows := pagedRows } =
        (.ok [([2], [7]), ([3], []), ([4], []), ([5], [])], d₂) ∧ d₂.calls.length = 3 ∧
      Durable.scanAll (Config.withPageSize {} 0) pagedEnds { rows := pagedRows } =
        (.ok [([2], [7]), ([3], []), ([4], []), ([5], [])], d₀) ∧ d₀.calls.length = 5 ∧
      Durable.scanAll (Config.withPageSize {} 9) pagedEnds { rows := pagedRows } =
        (.ok [([2], [7]), ([3], []), ([4], []), ([5], [])], d₉) ∧ d₉.calls.length = 1 := by
  have faultless : Device.Faultless { rows := pagedRows } :=
    ⟨fun _ => rfl, fun _ => rfl, fun _ => rfl, fun _ => rfl⟩
  have once : pagedRows.scanOnce pagedEnds = [([2], [7]), ([3], []), ([4], []), ([5], [])] := by
    decide +kernel
  have paged (n : Nat) :=
    (paging_complete {} n pagedEnds pagedRows).2.2.2.2 { rows := pagedRows } faultless rfl
  rw [once] at paged
  obtain ⟨d₂, _, two, _, since₂, made₂, _⟩ := paged 2
  obtain ⟨d₀, _, zero, _, since₀, made₀, _⟩ := paged 0
  obtain ⟨d₉, _, nine, _, since₉, made₉, _⟩ := paged 9
  refine ⟨d₂, d₀, d₉, two, ?_, zero, ?_, nine, ?_⟩
  · rw [since₂, List.append_nil, made₂]
    rfl
  · rw [since₀, List.append_nil, made₀]
    rfl
  · rw [since₉, List.append_nil, made₉]
    rfl

end OptimisticStore
