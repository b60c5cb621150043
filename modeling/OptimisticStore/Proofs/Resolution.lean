import OptimisticStore.Proofs.Polling

/-! Data rows of any origin, read as of a version. Nothing is asked of them but that they can be
read back; a key may have a row with and one without a mark of deletion for the same version. Of
the rows of a key that the version sees the first one by raw key counts. A point seeks it, upwards
it is met first of its key and downwards last, so all reads show the same values, in whichever
direction and however the rows are cut into pages. -/

namespace OptimisticStore.Durable
open Device Layout

def sees (v : Version) (k : Bytes) (e : Row) : Bool :=
  (readDataRow e).toOption.any fun entry => entry.1 = k ∧ entry.2.version ≤ v

/-- The row with the smallest raw key among those of the key that the version sees. -/
def visible? (rows : RawRows) (v : Version) (k : Bytes) : Option Row := rows.toList.find? (sees v k)

def shown? (rows : RawRows) (v : Version) (k : Bytes) : Option Bytes :=
  (visible? rows v k).bind fun e => (recordAt e).2.value?

section Rows
variable {rows : RawRows} {v : Version} {k : Bytes} {e f : Row}

theorem sees_iff : sees v k e = true ↔
    readDataRow e = .ok (recordAt e) ∧ (recordAt e).1 = k ∧ (recordAt e).2.version ≤ v := by
  rw [sees, recordAt]
  rcases readDataRow e with defect | entry <;> simp [Except.toOption]

theorem visible?_least (found : visible? rows v k = some e) :
    (e ∈ rows.toList ∧ sees v k e = true) ∧ ∀ f ∈ rows.toList, sees v k f = true → e.1 ≤ f.1 := by
  have sorted := rows.pairwise_toList
  refine ⟨⟨List.mem_of_find?_eq_some found, List.find?_some found⟩, fun f mem seen => ?_⟩
  obtain ⟨_, before, after, split, others⟩ := List.find?_eq_some_iff_append.1 found
  rw [split] at mem sorted
  rcases List.mem_append.1 mem with early | late
  · have other := others f early
    rw [seen] at other
    cases other
  · rcases List.mem_cons.1 late with rfl | late
    · exact Std.le_refl _
    · have order := (List.pairwise_append.1 sorted).2.1
      exact Std.le_of_lt ((List.pairwise_cons.1 order).1 f late)

theorem visible?_eq_some_iff : visible? rows v k = some e ↔
    (e ∈ rows.toList ∧ sees v k e = true) ∧ ∀ f ∈ rows.toList, sees v k f = true → e.1 ≤ f.1 := by
  refine ⟨visible?_least, fun ⟨⟨mem, seen⟩, least⟩ => ?_⟩
  cases found : visible? rows v k with
  | none => exact absurd seen (List.find?_eq_none.1 found e mem)
  | some g =>
    obtain ⟨⟨mem', seen'⟩, least'⟩ := visible?_least found
    have raw : g.1 = e.1 := Std.le_antisymm (least' e mem seen) (least g mem' seen')
    have value := (rows.get?_eq_some_iff g.1 g.2).2 mem'
    rw [raw, (rows.get?_eq_some_iff e.1 e.2).2 mem] at value
    exact congrArg some (Prod.ext raw (Option.some.inj value).symm)

theorem head?_filter_eq_visible? {p : Row → Bool}
    (same : ∀ e ∈ rows.toList, p e = true ↔ sees v k e = true) :
    (rows.toList.filter p).head? = visible? rows v k := by
  rw [visible?, ← List.head?_filter]
  congr 1
  exact List.filter_congr fun e mem => Bool.eq_iff_iff.2 (same e mem)

theorem exists_raw (read : readDataRow e = .ok (recordAt e)) :
    (recordAt e).2.version < wordBound ∧
      ∃ deleted, e.1 = dataKey (recordAt e).1 (recordAt e).2.version deleted := by
  generalize recordAt e = entry at read
  unfold readDataRow at read
  rcases key : readDataKey e.1 with defect | ⟨k, v, deleted⟩ <;> rw [key] at read <;> cases read
  obtain ⟨small, raw⟩ := eq_dataKey_of_readDataKey key
  rw [Record.version_ofParts]
  exact ⟨small, deleted, raw⟩

/-! ### Points -/

theorem seek_iff_sees (readable : DataReadable rows) (small : v < wordBound)
    (mem : e ∈ rows.toList) :
    seekKey k v ≤ e.1 ∧ e.1 ≤ dataKeyEnd k ↔ sees v k e = true := by
  rw [sees_iff]
  constructor
  · rintro ⟨lower, upper⟩
    have read := readable.read mem (region_of_seek lower upper)
    obtain ⟨hu, deleted, raw⟩ := exists_raw read
    rw [raw] at lower upper
    exact ⟨read, (seek_iff _ _ hu small deleted).1 ⟨lower, upper⟩⟩
  · rintro ⟨read, seen⟩
    obtain ⟨hu, deleted, raw⟩ := exists_raw read
    rw [raw]
    exact (seek_iff _ _ hu small deleted).2 seen

theorem does_record?_visible (readable : DataReadable rows) (s : Snapshot)
    (small : s.version < wordBound) (k : Bytes) :
    Does (s.record? k) rows (.ok ((visible? rows s.version k).map fun e => (recordAt e).2))
      rows := by
  have page := does_scan rows (.included (seekKey k s.version)) (.included (dataKeyEnd k))
    .forward 1
  have first : ((OrderedMap.between rows (.included (seekKey k s.version))
      (.included (dataKeyEnd k))).take 1).head? = visible? rows s.version k := by
    rw [List.head?_take, if_neg Nat.one_ne_zero]
    refine head?_filter_eq_visible? fun e mem => ?_
    rw [Bool.and_eq_true, decide_eq_true_eq, decide_eq_true_eq]
    exact seek_iff_sees readable small mem
  refine page.bind ?_
  rw [Direction.arrange, first]
  cases found : visible? rows s.version k with
  | none => exact does_pure none
  | some e =>
    have read := (sees_iff.1 (visible?_eq_some_iff.1 found).1.2).1
    exact (does_decoded read).bind (does_pure _)

theorem does_get_shown (readable : DataReadable rows) (s : Snapshot)
    (small : s.version < wordBound) (k : Bytes) :
    Does (s.get k) rows (.ok (shown? rows s.version k)) rows := by
  refine (does_record?_visible readable s small k).bind ?_
  rw [Option.bind_map]
  exact does_pure _

end Rows

/-! ### Ranges -/

namespace Cursor
variable {rows : RawRows}

theorem inside_iff {c : Condition} {e : Row} (read : readDataRow e = .ok (recordAt e)) :
    (dataRange c.readRange).1.Below e.1 ∧ (dataRange c.readRange).2.Above e.1 ↔
      c.contains (recordAt e).1 = true := by
  obtain ⟨_, deleted, raw⟩ := exists_raw read
  rw [raw, dataRange_iff, Condition.contains_readRange]

theorem read_of_seen (readable : DataReadable rows) {s : Snapshot} {c : Condition} {e : Row}
    (mem : e ∈ (ofSnapshot s c).seen rows) : readDataRow e = .ok (recordAt e) := by
  obtain ⟨found, lower, upper⟩ := OrderedMap.mem_between.1 (List.mem_filter.1 mem).1
  exact readable.read ((rows.get?_eq_some_iff _ _).1 found) (region_of_dataRange lower upper)

theorem ascending_records (readable : DataReadable rows) (s : Snapshot) (c : Condition) :
    (((ofSnapshot s c).seen rows).map recordAt).Pairwise fun x y => x.1 ≤ y.1 := by
  have sorted := (rows.pairwise_between (ofSnapshot s c).lower (ofSnapshot s c).upper).sublist
    (List.filter_sublist (p := fun e => (recordAt e).2.version ≤ s.version))
  rw [List.pairwise_map]
  refine sorted.imp_of_mem fun {e f} he hf lt => Std.not_lt.1 fun above => ?_
  obtain ⟨_, _, raw⟩ := exists_raw (read_of_seen readable he)
  obtain ⟨_, _, raw'⟩ := exists_raw (read_of_seen readable hf)
  rw [raw, raw'] at lt
  exact Std.not_gt_of_lt lt (dataKey_lt_of_key_lt above _ _ _ _)

theorem find?_records (readable : DataReadable rows) (s : Snapshot) {c : Condition} {k : Bytes}
    (inside : c.contains k = true) :
    (((ofSnapshot s c).seen rows).map recordAt).find? (·.1 = k) =
      (visible? rows s.version k).map recordAt := by
  rw [List.find?_map, ← List.head?_filter, Cursor.seen, OrderedMap.between, List.filter_filter,
    List.filter_filter]
  congr 1
  refine head?_filter_eq_visible? fun e mem => ?_
  simp only [Function.comp_apply, Bool.and_eq_true, decide_eq_true_eq]
  rw [sees_iff]
  constructor
  · rintro ⟨⟨key, seen⟩, lower, upper⟩
    exact ⟨readable.read mem (region_of_dataRange lower upper), key, seen⟩
  · rintro ⟨read, rfl, seen⟩
    exact ⟨⟨rfl, seen⟩, (inside_iff read).2 inside⟩

theorem mem_firstRows_iff (readable : DataReadable rows) (s : Snapshot) (c : Condition)
    (k value : Bytes) :
    (k, value) ∈ firstRows rows s c ↔
      c.contains k = true ∧ shown? rows s.version k = some value := by
  have ascending := ascending_records readable s c
  have first (e : Entry) := mem_firsts_iff_find? (s := none) ascending (by simp) e
  rw [firstRows, Direction.mem_arrange, List.mem_flatMap]
  constructor
  · rintro ⟨⟨l, record⟩, mem, given⟩
    obtain ⟨key, valued⟩ := (mem_rowOf_iff _ (k, value)).1 given
    obtain rfl : l = k := key
    have found := ((first _).1 mem).2
    obtain ⟨e, seen, same⟩ := List.mem_map.1 (List.mem_of_find?_eq_some found)
    have inside : c.contains l = true := by
      have ends := (OrderedMap.mem_between.1 (List.mem_filter.1 seen).1).2
      have inside := (inside_iff (read_of_seen readable seen)).1 ends
      rwa [same] at inside
    rw [find?_records readable s inside] at found
    obtain ⟨e, visible, same⟩ := Option.map_eq_some_iff.1 found
    refine ⟨inside, ?_⟩
    rw [shown?, visible, Option.bind_some, same]
    exact valued
  · rintro ⟨inside, shown⟩
    obtain ⟨e, visible, valued⟩ := Option.bind_eq_some_iff.1 shown
    have key := (sees_iff.1 (visible?_least visible).1.2).2.1
    refine ⟨recordAt e, (first _).2 ⟨nofun, ?_⟩, (mem_rowOf_iff _ _).2 ⟨key, valued⟩⟩
    rw [key, find?_records readable s inside, visible]
    rfl

theorem pairwise_firstRows (readable : DataReadable rows) (s : Snapshot) (c : Condition) :
    (firstRows rows s c).Pairwise fun x y => c.direction.Before x.1 y.1 :=
  c.direction.pairwise_arrange (pairwise_rowsOf (ascending_records readable s c))

end Cursor

/-- On any rows that can be read back points and ranges agree, both ways and for every page size.
Each key shows the value in its visible row. A point read gives it. A query gives the keys that its
condition contains and that show a value, each once and with it, in the order of the condition; so
a query downwards turns one upwards round, as far as both go. -/
theorem reads_resolve_alike {rows : RawRows} (readable : DataReadable rows) {v : Version}
    (small : v < wordBound) (config : Config) :
    (∀ pageSize k,
      Does ((backend config).get ⟨v, pageSize⟩ k) rows (.ok (shown? rows v k)) rows) ∧
    ∃ answer : Condition → List Row,
      (∀ c pageSize, 0 < pageSize →
        Does ((backend config).rows none ⟨v, pageSize⟩ c) rows (.ok (answer c)) rows) ∧
      (∀ c k value, (k, value) ∈ answer c ↔
        c.contains k = true ∧ shown? rows v k = some value) ∧
      (∀ c, (answer c).Pairwise fun x y => c.direction.Before x.1 y.1) ∧
      ∀ k l, (answer (.lte k)).filter (l ≤ ·.1) =
        ((answer (.gte l)).filter (·.1 ≤ k)).reverse := by
  have member := Cursor.mem_firstRows_iff readable ⟨v, 1⟩
  have ordered := Cursor.pairwise_firstRows readable ⟨v, 1⟩
  refine ⟨fun pageSize k => does_get_shown readable ⟨v, pageSize⟩ small k,
    Cursor.firstRows rows ⟨v, 1⟩, fun c pageSize paged => ?_, member, ordered, fun k l => ?_⟩
  · -- a cursor takes no more than its version from the snapshot until it fetches a page
    exact does_rows_due readable config (Cursor.due_ofSnapshot rows (s := ⟨v, pageSize⟩) paged c)
  · have down := (ordered (.lte k)).sublist (List.filter_sublist (p := fun e => l ≤ e.1))
    have up := (ordered (.gte l)).sublist (List.filter_sublist (p := fun e => e.1 ≤ k))
    refine Condition.eq_of_mem_iff (c := .lte k) down (List.pairwise_reverse.2 up) ?_
    rintro ⟨key, value⟩
    rw [List.mem_reverse, List.mem_filter, List.mem_filter, member, member]
    simp only [Condition.contains, decide_eq_true_eq]
    constructor
    · rintro ⟨⟨low, shown⟩, high⟩
      exact ⟨⟨high, shown⟩, low⟩
    · rintro ⟨⟨high, shown⟩, low⟩
      exact ⟨⟨low, shown⟩, high⟩

def mixedRows : RawRows :=
  (∅ : RawRows).apply [.put (dataKey [97] 1 false) [1], .put (dataKey [97] 1 true) [],
    .put (dataKey [97] 3 false) [3], .put (dataKey [98] 2 true) [], .put (dataKey [99] 2 false) [9]]

theorem reads_resolve_alike_sample :
    (DataReadable mixedRows ∧ 2 < wordBound) ∧
    ∀ pageSize, 0 < pageSize →
      Does ((backend {}).get ⟨2, pageSize⟩ [97]) mixedRows (.ok (some [1])) mixedRows ∧
      Does ((backend {}).rows none ⟨2, pageSize⟩ (.lte [99])) mixedRows
        (.ok [([99], [9]), ([97], [1])]) mixedRows := by
  have readable : DataReadable mixedRows := by
    unfold DataReadable
    decide +kernel
  have small : 2 < wordBound := by decide +kernel
  have shown : shown? mixedRows 2 [97] = some [1] := by decide +kernel
  obtain ⟨point, answer, range, _⟩ := reads_resolve_alike readable small {}
  have whole : answer (.lte [99]) = [([99], [9]), ([97], [1])] := by
    let d : Device := { rows := mixedRows }
    have faultless : d.Faultless := ⟨fun _ => rfl, fun _ => rfl, fun _ => rfl, fun _ => rfl⟩
    have given : ((backend {}).rows none ⟨2, 1⟩ (.lte [99]) d).1.toOption =
        some [([99], [9]), ([97], [1])] := by decide +kernel
    obtain ⟨_, ran, _⟩ := range (.lte [99]) 1 Nat.one_pos d faultless rfl
    rw [ran] at given
    exact Option.some.inj given
  exact ⟨⟨readable, small⟩, fun pageSize paged =>
    ⟨shown ▸ point pageSize [97], whole ▸ range (.lte [99]) pageSize paged⟩⟩

end OptimisticStore.Durable
