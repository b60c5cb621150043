import OptimisticStore.Proofs.Durable
import OptimisticStore.Proofs.Resolve

/-! What a durable snapshot and its cursors give. A cursor owes the rows that are ready and what
the records still ahead of it settle; ahead are the rows of its version between its raw ends,
and these are told by the history alone. Newer commits only add rows that it passes over, so
what is owed stays owed, whatever happens between two pages. -/

namespace OptimisticStore.Durable
open Device Layout

def SeenRow (h : History) (v : Nat) (e : Row) : Prop :=
  ∃ u k x, u ≤ v ∧ h.Wrote u k x ∧ e = (dataKey k u x.isNone, x.getD [])

def recordOf (u : Nat) (x : Option Bytes) : Record Bytes := .ofParts u x.isNone (x.getD [])

def recordAt (e : Row) : Entry := (readDataRow e).toOption.getD ([], .tombstone 0)

@[simp] theorem version_recordOf (u : Nat) (x : Option Bytes) : (recordOf u x).version = u := by
  simp [recordOf]

@[simp] theorem value?_recordOf (u : Nat) (x : Option Bytes) : (recordOf u x).value? = x := by
  cases x <;> simp [recordOf]

theorem readDataRow_dataKey (k : Bytes) {u : Nat} (hu : u < wordBound) (x : Option Bytes) :
    readDataRow (dataKey k u x.isNone, x.getD []) = .ok (k, recordOf u x) := by
  rw [readDataRow, readDataKey_dataKey k hu]
  rfl

theorem recordAt_dataKey (k : Bytes) {u : Nat} (hu : u < wordBound) (x : Option Bytes) :
    recordAt (dataKey k u x.isNone, x.getD []) = (k, recordOf u x) := by
  rw [recordAt, readDataRow_dataKey k hu]
  rfl

theorem seenRow_append_iff {h : History} {v : Nat} (t : History) (hv : v ≤ h.length) (e : Row) :
    SeenRow (h ++ t) v e ↔ SeenRow h v e := by
  constructor
  · rintro ⟨u, k, x, hu, wrote, row⟩
    exact ⟨u, k, x, hu, (History.wrote_append_iff t (by omega) k x).1 wrote, row⟩
  · rintro ⟨u, k, x, hu, wrote, row⟩
    exact ⟨u, k, x, hu, (History.wrote_append_iff t (by omega) k x).2 wrote, row⟩

section Rows
variable {a : Standing} {rows : RawRows}

theorem DataRow.exists_record {h : History} (short : h.length < wordBound) {e : Row}
    (data : DataRow h e) :
    ∃ u k x, h.Wrote u k x ∧ u < wordBound ∧ e = (dataKey k u x.isNone, x.getD []) ∧
      recordAt e = (k, recordOf u x) := by
  obtain ⟨u, k, x, wrote, rfl⟩ := data
  have hu := Nat.lt_of_le_of_lt wrote.bounds.2 short
  exact ⟨u, k, x, wrote, hu, rfl, recordAt_dataKey k hu x⟩

theorem readDataRow_of_data (holds : Holds a rows) {e : Row} (data : DataRow a.history e) :
    readDataRow e = .ok (recordAt e) := by
  obtain ⟨u, k, x, _, hu, rfl, record⟩ := data.exists_record holds.length_lt
  rw [record, readDataRow_dataKey k hu]

def DataReadable (rows : RawRows) : Prop :=
  ∀ e ∈ rows.toList, region e.1 = some 1 → (readDataRow e).isOk = true

theorem DataReadable.read (readable : DataReadable rows) {e : Row} (mem : e ∈ rows.toList)
    (data : region e.1 = some 1) : readDataRow e = .ok (recordAt e) := by
  have ok := readable e mem data
  rcases read : readDataRow e with defect | entry
  · rw [read] at ok
    cases ok
  · rw [recordAt, read]
    rfl

theorem dataReadable (holds : Holds a rows) : DataReadable rows := by
  intro e mem data
  have found := (rows.get?_eq_some_iff e.1 e.2).2 mem
  rw [readDataRow_of_data holds ((holds.data e data).1 found)]
  rfl

theorem seenRow_iff (holds : Holds a rows) (v : Nat) (e : Row) :
    SeenRow a.history v e ↔ DataRow a.history e ∧ (recordAt e).2.version ≤ v := by
  constructor
  · rintro ⟨u, k, x, hu, wrote, rfl⟩
    have small := Nat.lt_of_le_of_lt wrote.bounds.2 holds.length_lt
    refine ⟨⟨u, k, x, wrote, rfl⟩, ?_⟩
    rw [recordAt_dataKey k small, version_recordOf]
    exact hu
  · rintro ⟨data, seen⟩
    obtain ⟨u, k, x, wrote, _, rfl, record⟩ := data.exists_record holds.length_lt
    rw [record, version_recordOf] at seen
    exact ⟨u, k, x, seen, wrote, rfl⟩

/-! ### Points -/

theorem mem_seek_iff (holds : Holds a rows) {v : Nat} (hv : v ≤ a.history.length) (k : Bytes)
    (e : Row) :
    e ∈ OrderedMap.between rows (.included (seekKey k v)) (.included (dataKeyEnd k)) ↔
      ∃ u x, u ≤ v ∧ a.history.Wrote u k x ∧ e = (dataKey k u x.isNone, x.getD []) := by
  have small : v < wordBound := Nat.lt_of_le_of_lt hv holds.length_lt
  rw [OrderedMap.mem_between]
  constructor
  · rintro ⟨found, lower, upper⟩
    obtain ⟨u, l, x, wrote, rfl⟩ := (holds.data e (region_of_seek lower upper)).1 found
    have hu := Nat.lt_of_le_of_lt wrote.bounds.2 holds.length_lt
    obtain ⟨rfl, seen⟩ := (seek_iff k l hu small x.isNone).1 ⟨lower, upper⟩
    exact ⟨u, x, seen, wrote, rfl⟩
  · rintro ⟨u, x, seen, wrote, rfl⟩
    have hu := Nat.lt_of_le_of_lt wrote.bounds.2 holds.length_lt
    exact ⟨(holds.data (dataKey k u x.isNone, x.getD []) rfl).2 ⟨u, k, x, wrote, rfl⟩,
      (seek_iff k k hu small x.isNone).2 ⟨rfl, seen⟩⟩

theorem does_record? (holds : Holds a rows) (s : Snapshot) (hv : s.version ≤ a.history.length)
    (k : Bytes) :
    ∃ record, Does (s.record? k) rows (.ok record) rows ∧
      record.bind Record.value? = (a.history.state s.version).get? k := by
  have inside := mem_seek_iff holds hv k
  have sorted := rows.pairwise_between (.included (seekKey k s.version)) (.included (dataKeyEnd k))
  have page := does_scan rows (.included (seekKey k s.version))
    (.included (dataKeyEnd k)) .forward 1
  rw [Direction.arrange] at page
  cases found : OrderedMap.between rows (.included (seekKey k s.version))
      (.included (dataKeyEnd k)) with
  | nil =>
    rw [found] at page
    refine ⟨none, page.bind (does_pure none), ?_⟩
    refine (History.get?_state_of_unwritten fun i x hi wrote => ?_).symm
    have mem := (inside _).2 ⟨i, x, hi, wrote, rfl⟩
    rw [found] at mem
    cases mem
  | cons first rest =>
    rw [found] at page sorted
    obtain ⟨u, x, seen, wrote, rfl⟩ := (inside _).1 (found ▸ List.mem_cons_self)
    have hu := Nat.lt_of_le_of_lt wrote.bounds.2 holds.length_lt
    refine ⟨some (recordOf u x), page.bind ?_, ?_⟩
    · exact (does_decoded (readDataRow_dataKey k hu x)).bind (does_pure _)
    · rw [Option.bind_some, value?_recordOf]
      refine (History.get?_state_of_wrote wrote seen fun i y after hi newer => ?_).symm
      have mem := (inside _).2 ⟨i, y, hi, newer, rfl⟩
      have hi := Nat.lt_of_le_of_lt newer.bounds.2 holds.length_lt
      have before := dataKey_lt_of_newer k hi after y.isNone x.isNone
      rw [found] at mem
      rcases List.mem_cons.1 mem with same | mem
      · rw [(Prod.mk.inj same).1] at before
        exact Std.lt_irrefl before
      · exact Std.not_gt_of_lt before ((List.pairwise_cons.1 sorted).1 _ mem)

theorem does_get (holds : Holds a rows) (s : Snapshot) (hv : s.version ≤ a.history.length)
    (k : Bytes) : Does (s.get k) rows (.ok ((a.history.state s.version).get? k)) rows := by
  obtain ⟨record, does, value⟩ := does_record? holds s hv k
  rw [← value]
  exact does.bind (does_pure _)

end Rows

/-! ### Pages -/

namespace Cursor

/-- The rows of the cursor's version that lie ahead of it, by raw key. -/
structure Ahead (h : History) (c : Cursor) (rows : List Row) : Prop where
  ordered : rows.Pairwise fun a b => a.1 < b.1
  mem : ∀ e, e ∈ rows ↔ SeenRow h c.version e ∧ c.lower.Below e.1 ∧ c.upper.Above e.1

structure Owes (h : History) (owed : List Row) (c : Cursor) : Prop where
  version_le : c.version ≤ h.length
  paged : 0 < c.pageSize
  inside : ∀ raw, c.lower.Below raw → c.upper.Above raw → region raw = some 1
  owed : if c.exhausted then owed = c.ready
    else ∃ rows, Ahead h c rows ∧
      owed = c.ready ++ c.settle ((c.direction.arrange rows).map recordAt)

theorem Ahead.append {h : History} {c : Cursor} {rows : List Row} (ahead : Ahead h c rows)
    (hv : c.version ≤ h.length) (t : History) : Ahead (h ++ t) c rows where
  ordered := ahead.ordered
  mem e := by rw [ahead.mem, seenRow_append_iff t hv]

theorem Owes.append {h : History} {owed : List Row} {c : Cursor} (owes : Owes h owed c)
    (t : History) : Owes (h ++ t) owed c where
  version_le := Nat.le_trans owes.version_le (by simp)
  paged := owes.paged
  inside := owes.inside
  owed := by
    have owed := owes.owed
    cases exhausted : c.exhausted with
    | true => simpa [exhausted] using owed
    | false =>
      simp only [exhausted, Bool.false_eq_true, if_false] at owed ⊢
      obtain ⟨rows, ahead, same⟩ := owed
      exact ⟨rows, ahead.append owes.version_le t, same⟩

variable {a : Standing} {rows : RawRows} {c : Cursor}

def seen (c : Cursor) (rows : RawRows) : List Row :=
  (OrderedMap.between rows c.lower c.upper).filter fun e => (recordAt e).2.version ≤ c.version

theorem ahead_seen (holds : Holds a rows)
    (inside : ∀ raw, c.lower.Below raw → c.upper.Above raw → region raw = some 1) :
    Ahead a.history c (c.seen rows) where
  ordered := (rows.pairwise_between _ _).sublist List.filter_sublist
  mem e := by
    rw [seen, List.mem_filter, OrderedMap.mem_between, seenRow_iff holds, decide_eq_true_eq]
    constructor
    · rintro ⟨⟨found, lower, upper⟩, seen⟩
      exact ⟨⟨(holds.data e (inside e.1 lower upper)).1 found, seen⟩, lower, upper⟩
    · rintro ⟨⟨data, seen⟩, lower, upper⟩
      exact ⟨⟨(holds.data e (inside e.1 lower upper)).2 data, lower, upper⟩, seen⟩

theorem Ahead.eq_seen {l : List Row} (ahead : Ahead a.history c l) (holds : Holds a rows)
    (inside : ∀ raw, c.lower.Below raw → c.upper.Above raw → region raw = some 1) :
    l = c.seen rows := by
  have current := ahead_seen holds inside
  apply entries_eq_of_mem_iff ahead.ordered current.ordered
  intro e
  rw [ahead.mem, current.mem]

def page (c : Cursor) (rows : RawRows) : List Row :=
  c.direction.arrange (OrderedMap.between rows c.lower c.upper)

theorem settle_seen (c : Cursor) (rows : RawRows) :
    c.settle ((c.direction.arrange (c.seen rows)).map recordAt) =
      c.settle ((c.page rows).map recordAt) := by
  rw [seen, Direction.arrange_filter, settle, settle, ← c.acceptAll_filter
    ((c.page rows).map recordAt), List.filter_map]
  rfl

/-- What a cursor owes, told by the rows that are there now. -/
theorem settle_page (holds : Holds a rows)
    (inside : ∀ raw, c.lower.Below raw → c.upper.Above raw → region raw = some 1)
    {l : List Row} (ahead : Ahead a.history c l) :
    c.settle ((c.direction.arrange l).map recordAt) = c.settle ((c.page rows).map recordAt) := by
  rw [ahead.eq_seen holds inside, settle_seen]

/-- What a cursor owes as long as the rows stay as they are. -/
structure Due (rows : RawRows) (owed : List Row) (c : Cursor) : Prop where
  paged : 0 < c.pageSize
  inside : ∀ raw, c.lower.Below raw → c.upper.Above raw → region raw = some 1
  owed : owed = if c.exhausted then c.ready
    else c.ready ++ c.settle ((c.page rows).map recordAt)

theorem owes_iff (holds : Holds a rows) (owed : List Row) :
    Owes a.history owed c ↔ c.version ≤ a.history.length ∧ Due rows owed c := by
  constructor
  · rintro ⟨version_le, paged, inside, owed⟩
    refine ⟨version_le, paged, inside, ?_⟩
    split at owed
    · next exhausted => rw [if_pos exhausted, owed]
    · next going =>
      obtain ⟨l, ahead, same⟩ := owed
      rw [if_neg going, same, settle_page holds inside ahead]
  · rintro ⟨version_le, paged, inside, same⟩
    refine ⟨version_le, paged, inside, ?_⟩
    split at same
    · next exhausted => rwa [if_pos exhausted]
    · next going =>
      have ahead := ahead_seen holds inside
      rw [if_neg going]
      exact ⟨_, ahead, by rw [settle_page holds inside ahead, same]⟩

def left (c : Cursor) (rows : RawRows) : Nat :=
  if c.exhausted then 0 else (c.page rows).length + 1

theorem advance_eq (c : Cursor) (last : Bytes) :
    ∃ lower upper, c.advance last = { c with lower, upper } := by
  rw [advance]
  split
  all_goals exact ⟨_, _, rfl⟩

theorem page_advance {last : Row} (hlast : ((c.page rows).take c.pageSize).getLast? = some last) :
    (c.advance last.1).page rows = (c.page rows).drop c.pageSize := by
  rw [page] at hlast
  rw [page, page, advance]
  cases direction : c.direction with
  | forward =>
    rw [direction] at hlast
    exact OrderedMap.between_excluded_last hlast
  | backward =>
    rw [direction] at hlast
    exact OrderedMap.between_excluded_last_reverse hlast

theorem inside_advance {last : Row} (hlast : last ∈ c.page rows)
    (inside : ∀ raw, c.lower.Below raw → c.upper.Above raw → region raw = some 1) (raw : Bytes)
    (lower : (c.advance last.1).lower.Below raw) (upper : (c.advance last.1).upper.Above raw) :
    region raw = some 1 := by
  rw [page, Direction.mem_arrange, OrderedMap.mem_between] at hlast
  obtain ⟨_, low, high⟩ := hlast
  cases direction : c.direction with
  | forward =>
    simp only [advance, direction] at lower upper
    exact inside raw (Cut.below_of_lt low lower) upper
  | backward =>
    simp only [advance, direction] at lower upper
    exact inside raw lower (Cut.above_of_lt high upper)

theorem release_exhausted (exhausted : c.exhausted = true) :
    c.release = (c.final, { c with waiting := none }) := by
  obtain ⟨_, _, _, _, _, _, _, _, waiting⟩ := c
  subst exhausted
  cases waiting <;> rfl

theorem release_going (going : c.exhausted = false) : c.release = ([], c) := by
  rw [release, going]

def past (c : Cursor) (page : List Row) : Cursor :=
  let c := if page.length < c.pageSize then { c with exhausted := true } else c
  page.getLast?.elim c fun e => c.advance e.1

/-- The cursor after it has taken a page that can be read back. -/
def turned (c : Cursor) (page : List Row) : Cursor :=
  let (settled, c) := (c.past page).acceptAll (page.map recordAt)
  let (released, c) := c.release
  { c with ready := c.ready ++ settled ++ released }

theorem past_last (short : (c.page rows).length < c.pageSize)
    (inside : ∀ raw, c.lower.Below raw → c.upper.Above raw → region raw = some 1) :
    ∃ lower upper, (∀ raw, lower.Below raw → upper.Above raw → region raw = some 1) ∧
      c.past (c.page rows) = { c with lower, upper, exhausted := true } := by
  rw [past, if_pos short]
  cases hlast : (c.page rows).getLast? with
  | none => exact ⟨c.lower, c.upper, inside, rfl⟩
  | some last =>
    obtain ⟨lower, upper, moved⟩ := ({ c with exhausted := true } : Cursor).advance_eq last.1
    have within := inside_advance (c := { c with exhausted := true })
      (List.mem_of_getLast? hlast) inside
    rw [moved] at within
    exact ⟨lower, upper, within, moved⟩

theorem past_full (paged : 0 < c.pageSize) (full : ¬ (c.page rows).length < c.pageSize)
    (inside : ∀ raw, c.lower.Below raw → c.upper.Above raw → region raw = some 1) :
    ∃ lower upper, (∀ raw, lower.Below raw → upper.Above raw → region raw = some 1) ∧
      c.past ((c.page rows).take c.pageSize) = { c with lower, upper } ∧
      ({ c with lower, upper } : Cursor).page rows = (c.page rows).drop c.pageSize := by
  have length : ((c.page rows).take c.pageSize).length = c.pageSize := by
    rw [List.length_take]
    omega
  obtain ⟨last, hlast⟩ : ∃ last, ((c.page rows).take c.pageSize).getLast? = some last := by
    refine ⟨_, List.getLast?_eq_some_getLast fun empty => ?_⟩
    rw [empty, List.length_nil] at length
    omega
  have not_short : ¬ ((c.page rows).take c.pageSize).length < c.pageSize := by omega
  have within := inside_advance (List.mem_of_mem_take (List.mem_of_getLast? hlast)) inside
  have behind := page_advance hlast
  obtain ⟨lower, upper, moved⟩ := c.advance_eq last.1
  rw [moved] at within behind
  refine ⟨lower, upper, within, ?_, behind⟩
  rw [past, if_neg not_short, hlast]
  exact moved

theorem turned_last {page : List Row} {lower upper : Cut Bytes}
    (moved : c.past page = { c with lower, upper, exhausted := true }) :
    ∃ s, c.turned page =
      { c with
        lower, upper
        exhausted := true
        settled := s
        waiting := none
        ready := c.ready ++ c.settle (page.map recordAt) } := by
  obtain ⟨s, w, kept⟩ := c.acceptAll_eq (page.map recordAt)
  refine ⟨s, ?_⟩
  rw [turned, moved, c.acceptAll_moved lower upper true c.ready, kept]
  simp only [settle, kept, final]
  rw [release_exhausted rfl, List.append_assoc]
  rfl

theorem turned_full {page : List Row} {lower upper : Cut Bytes} (going : c.exhausted = false)
    (moved : c.past page = { c with lower, upper }) :
    ∃ s w, (c.acceptAll (page.map recordAt)).2 = { c with settled := s, waiting := w } ∧
      c.turned page =
        { c with
          lower, upper
          settled := s
          waiting := w
          ready := c.ready ++ (c.acceptAll (page.map recordAt)).1 } := by
  obtain ⟨s, w, kept⟩ := c.acceptAll_eq (page.map recordAt)
  refine ⟨s, w, kept, ?_⟩
  rw [turned, moved, c.acceptAll_moved lower upper c.exhausted c.ready, kept]
  simp only
  rw [release_going (c := { c with lower, upper, settled := s, waiting := w }) going,
    List.append_nil]

/-- A page moves rows from those ahead to those that are ready and leaves what is due. -/
theorem due_turned {owed : List Row} (due : Due rows owed c) (going : c.exhausted = false) :
    Due rows owed (c.turned ((c.page rows).take c.pageSize)) ∧
      (c.turned ((c.page rows).take c.pageSize)).left rows < c.left rows ∧
      (c.turned ((c.page rows).take c.pageSize)).version = c.version := by
  obtain ⟨paged, inside, same⟩ := due
  rw [if_neg (Bool.eq_false_iff.1 going)] at same
  have before : c.left rows = (c.page rows).length + 1 := by simp [left, going]
  by_cases short : (c.page rows).length < c.pageSize
  · rw [List.take_of_length_le (Nat.le_of_lt short)]
    obtain ⟨lower, upper, within, moved⟩ := past_last short inside
    obtain ⟨s, turned⟩ := turned_last moved
    rw [turned, before]
    exact ⟨⟨paged, within, same⟩, Nat.succ_pos _, rfl⟩
  · obtain ⟨lower, upper, within, moved, behind⟩ := past_full paged short inside
    obtain ⟨s, w, kept, turned⟩ := turned_full going moved
    rw [turned]
    refine ⟨⟨paged, within, ?_⟩, ?_, rfl⟩
    · have rest := ({ c with settled := s, waiting := w } : Cursor).settle_moved lower upper
        c.exhausted (c.ready ++ (c.acceptAll (((c.page rows).take c.pageSize).map recordAt)).1)
        (((c.page rows).drop c.pageSize).map recordAt)
      have parts := List.take_append_drop c.pageSize (c.page rows)
      rw [if_neg (Bool.eq_false_iff.1 going), same]
      conv => lhs; rw [← parts]
      rw [List.map_append, settle_append, kept, ← List.append_assoc, ← rest, ← behind]
      rfl
    · have fewer := congrArg List.length behind
      rw [List.length_drop] at fewer
      rw [before, left, if_neg (by simp [going])]
      change (({ c with lower, upper } : Cursor).page rows).length + 1 < _
      omega

theorem does_nextPage_due (readable : DataReadable rows) {owed : List Row}
    (due : Due rows owed c) :
    Does c.nextPage rows (.ok (c.turned ((c.page rows).take c.pageSize))) rows := by
  have read : ((c.page rows).take c.pageSize).mapM readDataRow =
      .ok (((c.page rows).take c.pageSize).map recordAt) := by
    apply mapM_eq_ok
    intro e he
    have mem := List.mem_of_mem_take he
    rw [page, Direction.mem_arrange, OrderedMap.mem_between] at mem
    exact readable.read ((rows.get?_eq_some_iff e.1 e.2).1 mem.1)
      (due.inside e.1 mem.2.1 mem.2.2)
  have scan := does_scan rows c.lower c.upper c.direction c.pageSize
  exact scan.bind ((does_decoded read).bind (does_pure _))

theorem does_nextPage (holds : Holds a rows) {owed : List Row} (owes : Owes a.history owed c) :
    Does c.nextPage rows (.ok (c.turned ((c.page rows).take c.pageSize))) rows :=
  does_nextPage_due (dataReadable holds) ((owes_iff holds owed).1 owes).2

/-! ### The rows of a fresh cursor -/

theorem newestFirst_of_lt {h : History} (short : h.length < wordBound) {e f : Row}
    (he : DataRow h e) (hf : DataRow h f) (lt : e.1 < f.1) :
    NewestFirst (recordAt e) (recordAt f) := by
  obtain ⟨u, k, x, wrote, hu, rfl, first⟩ := he.exists_record short
  obtain ⟨v, l, y, wrote', hv, rfl, second⟩ := hf.exists_record short
  rw [first, second, NewestFirst, version_recordOf, version_recordOf]
  rcases Std.lt_trichotomy k l with below | rfl | above
  · exact .inl below
  · refine .inr ⟨rfl, ?_⟩
    rcases Nat.lt_trichotomy v u with older | rfl | newer
    · exact older
    · obtain rfl := wrote.unique wrote'
      exact absurd lt Std.lt_irrefl
    · exact absurd lt (Std.not_gt_of_lt (dataKey_lt_of_newer k hv newer y.isNone x.isNone))
  · exact absurd lt (Std.not_gt_of_lt (dataKey_lt_of_key_lt above v u y.isNone x.isNone))

theorem mem_rowOf_iff (e : Entry) (row : Row) :
    row ∈ rowOf e.1 e.2 ↔ e.1 = row.1 ∧ e.2.value? = some row.2 := by
  obtain ⟨k, x⟩ := row
  rw [rowOf]
  cases e.2.value? <;> simp [eq_comm]

theorem pairwise_rowsOf {l : List Entry} (sorted : l.Pairwise fun x y => x.1 ≤ y.1) :
    ((firsts none l).flatMap fun e => rowOf e.1 e.2).Pairwise fun x y => x.1 < y.1 := by
  rw [List.pairwise_flatMap]
  constructor
  · intro e _
    rw [rowOf]
    cases e.2.value? <;> simp
  · refine (pairwise_firsts sorted (by simp)).imp fun lt x hx y hy => ?_
    rw [← ((mem_rowOf_iff _ x).1 hx).1, ← ((mem_rowOf_iff _ y).1 hy).1]
    exact lt

section Fresh
variable {h : History} {r : KeyRange} {l : List Row}

theorem pairwise_records (short : h.length < wordBound) (ahead : Ahead h c l) :
    (l.map recordAt).Pairwise NewestFirst := by
  have data {e : Row} (he : e ∈ l) : DataRow h e := by
    obtain ⟨⟨u, k, x, _, wrote, row⟩, _⟩ := (ahead.mem e).1 he
    exact ⟨u, k, x, wrote, row⟩
  rw [List.pairwise_map]
  exact ahead.ordered.imp_of_mem fun he hf lt => newestFirst_of_lt short (data he) (data hf) lt

theorem mem_records_iff (short : h.length < wordBound) (lower : c.lower = (dataRange r).1)
    (upper : c.upper = (dataRange r).2) (ahead : Ahead h c l) (e : Entry) :
    e ∈ l.map recordAt ↔
      ∃ u x, u ≤ c.version ∧ h.Wrote u e.1 x ∧ r.contains e.1 = true ∧ e.2 = recordOf u x := by
  rw [List.mem_map]
  constructor
  · rintro ⟨row, hrow, rfl⟩
    obtain ⟨⟨u, k, x, hu, wrote, rfl⟩, low, high⟩ := (ahead.mem row).1 hrow
    rw [lower] at low
    rw [upper] at high
    rw [recordAt_dataKey k (Nat.lt_of_le_of_lt wrote.bounds.2 short)]
    exact ⟨u, x, hu, wrote, (dataRange_iff r k u x.isNone).1 ⟨low, high⟩, rfl⟩
  · rintro ⟨u, x, hu, wrote, inside, same⟩
    obtain ⟨low, high⟩ := (dataRange_iff r e.1 u x.isNone).2 inside
    rw [← lower] at low
    rw [← upper] at high
    refine ⟨_, (ahead.mem _).2 ⟨⟨u, e.1, x, hu, wrote, rfl⟩, low, high⟩, ?_⟩
    rw [recordAt_dataKey e.1 (Nat.lt_of_le_of_lt wrote.bounds.2 short), ← same]

/-- The newest records of the keys in a range are the entries of the state there. -/
theorem firsts_ahead (short : h.length < wordBound) (lower : c.lower = (dataRange r).1)
    (upper : c.upper = (dataRange r).2) (ahead : Ahead h c l) :
    (firsts none (l.map recordAt)).flatMap (fun e => rowOf e.1 e.2) =
      (h.state c.version).toList.filter fun e => r.contains e.1 := by
  have sorted := pairwise_records short ahead
  have records := mem_records_iff short lower upper ahead
  apply entries_eq_of_mem_iff
  · exact pairwise_rowsOf (sorted.imp NewestFirst.key_le)
  · exact (h.state c.version).pairwise_toList.sublist List.filter_sublist
  · rintro ⟨k, value⟩
    rw [List.mem_flatMap, List.mem_filter, ← OrderedMap.get?_eq_some_iff,
      History.get?_state_eq_some_iff]
    constructor
    · rintro ⟨e, he, given⟩
      obtain ⟨rfl, valued⟩ := (mem_rowOf_iff e (k, value)).1 given
      obtain ⟨mem, _, newest⟩ := (mem_firsts_iff sorted (by simp) e).1 he
      obtain ⟨u, x, hu, wrote, inside, record⟩ := (records e).1 mem
      rw [record, value?_recordOf] at valued
      subst valued
      refine ⟨⟨u, hu, wrote, fun i y after hi newer => ?_⟩, inside⟩
      have older := newest (e.1, recordOf i y) ((records _).2 ⟨i, y, hi, newer, inside, rfl⟩) rfl
      rw [record, version_recordOf, version_recordOf] at older
      exact Nat.not_lt_of_le older after
    · rintro ⟨⟨u, hu, wrote, newest⟩, inside⟩
      have mem := (records (k, recordOf u (some value))).2
        ⟨u, some value, hu, wrote, inside, rfl⟩
      have valued := value?_recordOf u (some value)
      refine ⟨_, (mem_firsts_iff sorted (by simp) _).2 ⟨mem, by simp, ?_⟩,
        (mem_rowOf_iff _ _).2 ⟨rfl, valued⟩⟩
      intro f hf same
      obtain ⟨i, y, hi, newer, _, record⟩ := (records f).1 hf
      rw [record, version_recordOf, version_recordOf]
      rw [same] at newer
      exact Nat.not_lt.1 fun after => newest i y after hi newer

end Fresh

theorem settle_fresh (idle : c.waiting = none) (unsettled : c.settled = none) {l : List Row}
    (seen : ∀ e ∈ l.map recordAt, e.2.version ≤ c.version) :
    c.settle ((c.direction.arrange l).map recordAt) =
      c.direction.arrange ((firsts none (l.map recordAt)).flatMap fun e => rowOf e.1 e.2) := by
  cases direction : c.direction with
  | forward =>
    rw [Direction.arrange, Direction.arrange, settle_forward direction idle seen, unsettled]
  | backward =>
    have turned : ∀ e ∈ (l.map recordAt).reverse, e.2.version ≤ c.version :=
      fun e he => seen e (List.mem_reverse.1 he)
    have one (e : Entry) : (rowOf e.1 e.2).reverse = rowOf e.1 e.2 := by
      rw [rowOf]
      cases e.2.value? <;> rfl
    rw [Direction.arrange, Direction.arrange, List.map_reverse, settle_backward direction turned,
      idle, lasts_eq_reverse, List.reverse_reverse, List.flatMap_reverse]
    simp only [Function.comp_def, one]

/-- What the first records of the keys say that a fresh cursor sees, in its direction. -/
def firstRows (rows : RawRows) (s : Snapshot) (c : Condition) : List Row :=
  c.direction.arrange ((firsts none (((ofSnapshot s c).seen rows).map recordAt)).flatMap
    fun e => rowOf e.1 e.2)

theorem due_ofSnapshot (rows : RawRows) {s : Snapshot} (paged : 0 < s.pageSize) (c : Condition) :
    Due rows (firstRows rows s c) (ofSnapshot s c) where
  paged := paged
  inside _ lower upper := region_of_dataRange lower upper
  owed := by
    have seen : ∀ e ∈ ((ofSnapshot s c).seen rows).map recordAt,
        e.2.version ≤ (ofSnapshot s c).version := by
      intro e he
      obtain ⟨row, hrow, rfl⟩ := List.mem_map.1 he
      exact of_decide_eq_true (List.mem_filter.1 hrow).2
    change _ = [] ++ (ofSnapshot s c).settle _
    rw [List.nil_append, ← settle_seen, settle_fresh rfl rfl seen]
    rfl

/-- A fresh cursor owes what its condition selects from the state of its version. -/
theorem owes_ofSnapshot (holds : Holds a rows) (s : Snapshot) (hv : s.version ≤ a.history.length)
    (paged : 0 < s.pageSize) (c : Condition) :
    Owes a.history (c.select (a.history.state s.version)) (ofSnapshot s c) := by
  have due := due_ofSnapshot rows paged c
  have ahead := ahead_seen (c := ofSnapshot s c) holds due.inside
  have selected := firsts_ahead (r := c.readRange) holds.length_lt rfl rfl ahead
  simp only [Condition.contains_readRange] at selected
  refine (owes_iff holds _).2 ⟨hv, ?_⟩
  rw [Condition.select]
  exact selected ▸ due

/-! ### Turns -/

def turn (c : Cursor) : Access Device (Option Row × Option Cursor) :=
  match c.ready with
  | row :: ready => pure (some row, some { c with ready })
  | [] => if c.exhausted then pure (none, none) else do return (none, some (← c.nextPage))

theorem pull_succ (fuel : Nat) (c : Cursor) (d : Device) :
    pull none (fuel + 1) c d =
      match c.turn d with
      | (.error e, d) => (some (.error e), none, d)
      | (.ok (some row, next), d) => (some (.ok row), next, d)
      | (.ok (none, none), d) => (none, none, d)
      | (.ok (none, some next), d) => pull none fuel next d := by
  conv => lhs; unfold pull
  unfold turn
  cases c.ready with
  | cons row ready => rfl
  | nil =>
    cases c.exhausted with
    | true => rfl
    | false =>
      simp only [Bool.false_eq_true, if_false]
      rw [Access.bind_apply]
      rcases c.nextPage d with ⟨_ | _, _⟩ <;> rfl

theorem does_turn_due (readable : DataReadable rows) {owed : List Row} (due : Due rows owed c) :
    (∃ row rest c', Does c.turn rows (.ok (some row, some c')) rows ∧ owed = row :: rest ∧
      Due rows rest c' ∧ c'.version = c.version ∧ c'.left rows = c.left rows) ∨
    (Does c.turn rows (.ok (none, none)) rows ∧ owed = []) ∨
    ∃ c', Does c.turn rows (.ok (none, some c')) rows ∧ Due rows owed c' ∧
      c'.version = c.version ∧ c'.left rows < c.left rows := by
  have same := due.owed
  rw [turn]
  cases at_hand : c.ready with
  | cons row ready =>
    rw [at_hand] at same
    have rest : owed = row :: (if c.exhausted then ready
        else ready ++ c.settle ((c.page rows).map recordAt)) := by
      rw [same]
      split <;> rfl
    refine .inl ⟨row, _, { c with ready }, does_pure _, rest,
      ⟨due.paged, due.inside, ?_⟩, rfl, rfl⟩
    have moved := c.settle_moved c.lower c.upper c.exhausted ready ((c.page rows).map recordAt)
    exact congrArg (fun later => if c.exhausted then ready else ready ++ later) moved.symm
  | nil =>
    rw [at_hand] at same
    by_cases exhausted : c.exhausted = true
    · rw [if_pos exhausted] at same
      rw [if_pos exhausted]
      exact .inr (.inl ⟨does_pure _, same⟩)
    · rw [if_neg exhausted]
      obtain ⟨next, fewer, kept⟩ := due_turned due (Bool.eq_false_iff.2 exhausted)
      exact .inr (.inr ⟨_, (does_nextPage_due readable due).bind (does_pure _), next, kept, fewer⟩)

theorem does_turn (holds : Holds a rows) {owed : List Row} (owes : Owes a.history owed c) :
    (∃ row rest c', Does c.turn rows (.ok (some row, some c')) rows ∧ owed = row :: rest ∧
      Owes a.history rest c' ∧ c'.left rows = c.left rows) ∨
    (Does c.turn rows (.ok (none, none)) rows ∧ owed = []) ∨
    ∃ c', Does c.turn rows (.ok (none, some c')) rows ∧ Owes a.history owed c' ∧
      c'.left rows < c.left rows := by
  obtain ⟨version_le, due⟩ := (owes_iff holds owed).1 owes
  have owing {owed : List Row} {c' : Cursor} (due : Due rows owed c')
      (same : c'.version = c.version) : Owes a.history owed c' :=
    (owes_iff holds owed).2 ⟨same ▸ version_le, due⟩
  rcases does_turn_due (dataReadable holds) due with
    ⟨row, rest, c', does, split, next, kept, same⟩ | ended | ⟨c', does, next, kept, fewer⟩
  · exact .inl ⟨row, rest, c', does, split, owing next kept, same⟩
  · exact .inr (.inl ended)
  · exact .inr (.inr ⟨c', does, owing next kept, fewer⟩)

theorem left_le (c : Cursor) (rows : RawRows) : c.left rows ≤ rows.size + 1 := by
  rw [left]
  split
  · omega
  · rw [page, Direction.length_arrange]
    exact Nat.succ_le_succ (OrderedMap.length_between_le ..)

theorem does_pull_due (readable : DataReadable rows) {owed : List Row} (due : Due rows owed c)
    {fuel : Nat} (enough : c.left rows < fuel) {d : Device} (faultless : d.Faultless)
    (same : d.rows = rows) :
    ∃ next d', pull none fuel c d = (owed.head?.map .ok, next, d') ∧ d'.Faultless ∧
      d'.rows = rows ∧ (owed = [] → next = none) ∧
      (owed ≠ [] → ∃ c', next = some c' ∧ Due rows owed.tail c' ∧ c'.version = c.version) := by
  induction fuel generalizing c d with
  | zero => omega
  | succ fuel ih =>
    rw [pull_succ]
    rcases does_turn_due readable due with ⟨row, rest, c', does, rfl, after, kept, _⟩ |
      ⟨does, rfl⟩ | ⟨c', does, after, kept, fewer⟩
    · obtain ⟨d', run, faultless', same'⟩ := does d faultless same
      rw [run]
      exact ⟨some c', d', rfl, faultless', same', by rintro ⟨⟩, fun _ => ⟨c', rfl, after, kept⟩⟩
    · obtain ⟨d', run, faultless', same'⟩ := does d faultless same
      rw [run]
      exact ⟨none, d', rfl, faultless', same', fun _ => rfl, fun some_left => absurd rfl some_left⟩
    · obtain ⟨d', run, faultless', same'⟩ := does d faultless same
      rw [run, ← kept]
      exact ih after (by omega) faultless' same'

theorem does_poll_due (readable : DataReadable rows) {owed : List Row} (due : Due rows owed c)
    {d : Device} (faultless : d.Faultless) (same : d.rows = rows) :
    ∃ next d', poll none (some c) d = (owed.head?.map .ok, next, d') ∧ d'.Faultless ∧
      d'.rows = rows ∧ (owed = [] → next = none) ∧
      (owed ≠ [] → ∃ c', next = some c' ∧ Due rows owed.tail c' ∧ c'.version = c.version) := by
  refine does_pull_due readable due ?_ faultless same
  rw [same]
  exact Nat.lt_succ_of_le (c.left_le rows)

theorem does_poll (holds : Holds a rows) {owed : List Row} (owes : Owes a.history owed c)
    {d : Device} (faultless : d.Faultless) (same : d.rows = rows) :
    ∃ next d', poll none (some c) d = (owed.head?.map .ok, next, d') ∧ d'.Faultless ∧
      d'.rows = rows ∧ (owed = [] → next = none) ∧
      (owed ≠ [] → ∃ c', next = some c' ∧ Owes a.history owed.tail c') := by
  obtain ⟨version_le, due⟩ := (owes_iff holds owed).1 owes
  obtain ⟨next, d', polled, faultless', same', ended, debt⟩ :=
    does_poll_due (dataReadable holds) due faultless same
  refine ⟨next, d', polled, faultless', same', ended, fun some_left => ?_⟩
  obtain ⟨c', given, due', kept⟩ := debt some_left
  exact ⟨c', given, (owes_iff holds owed.tail).2 ⟨kept ▸ version_le, due'⟩⟩

theorem length_due_le {owed : List Row} (due : Due rows owed c) :
    owed.length ≤ c.ready.length + rows.size + c.waiting.toList.length := by
  have same := due.owed
  split at same
  · rw [same]
    omega
  · have settled := c.length_settle_le ((c.page rows).map recordAt)
    have rows_there : (c.page rows).length ≤ rows.size := by
      rw [page, Direction.length_arrange]
      exact OrderedMap.length_between_le ..
    rw [List.length_map] at settled
    rw [same, List.length_append]
    omega

theorem length_owed_le (holds : Holds a rows) {owed : List Row} (owes : Owes a.history owed c) :
    owed.length ≤ c.ready.length + rows.size + c.waiting.toList.length :=
  length_due_le ((owes_iff holds owed).1 owes).2

end Cursor
end OptimisticStore.Durable
