import OptimisticStore.Proofs.Decoding
import OptimisticStore.Proofs.Resolution

/-! Looking up a point in rows of any content. The look-up asks for the first row of a window, from
the place of its version to the end of its key. Whatever bytes stand in it, a row of the window that
can be read is one of the key and not newer than the version, so the first one holds the newest
record if it can be read; and what the look-up takes for granted about the row never fails it. -/

namespace OptimisticStore

theorem Access.run_lift_bind {μ α β : Type} (x : Access μ α) (f : α → OptionT (Access μ) β) :
    (liftM x >>= f).run = x >>= fun a => (f a).run := by
  rw [OptionT.run_bind, Option.elimM]
  change (some <$> x) >>= _ = _
  rw [bind_map_left]
  rfl

namespace Durable
open Device Layout

/-- Between the place of a version and the end of the key, both included. -/
def InWindow (key : Bytes) (v : Version) (raw : Bytes) : Prop :=
  seekKey key v ≤ raw ∧ raw ≤ dataKeyEnd key

structure FirstInWindow (rows : RawRows) (key : Bytes) (v : Version) (e : Row) : Prop where
  stored : rows.get? e.1 = some e.2
  inside : InWindow key v e.1
  least : ∀ f : Row, rows.get? f.1 = some f.2 → InWindow key v f.1 → e.1 ≤ f.1

def Newest (rows : RawRows) (key : Bytes) (v : Version) (record : Record Bytes) : Prop :=
  record.version ≤ v ∧ ∀ (f : Row) other, rows.get? f.1 = some f.2 →
    readDataRow f = .ok (key, other) → other.version ≤ v → other.version ≤ record.version

/-- The look-up with a test of what it takes for granted: it comes to nothing at a row of another
key or of a newer version. -/
def Snapshot.testedRecord? (s : Snapshot) (key : Bytes) :
    OptionT (Access Device) (Option (Record Bytes)) := do
  let rows ← Device.scan (.included (seekKey key s.version)) (.included (dataKeyEnd key)) .forward 1
  match rows.head? with
  | none => return none
  | some row =>
    let (found, record) ← liftM (decoded (readDataRow row))
    guard (found = key)
    guard (record.version ≤ s.version)
    return some record

section Window
variable {rows : RawRows} {key k : Bytes} {v : Version} {e f : Row} {record : Record Bytes}

theorem readDataRow_eq_error_iff (e : Row) (defect : RowDefect) :
    readDataRow e = .error defect ↔ Defective e.1 defect := by
  rw [← readDataKey_eq_error_iff, readDataRow]
  cases readDataKey e.1 <;> simp [bind, Except.bind, pure, Except.pure]

theorem raw_of_read (read : readDataRow e = .ok (k, record)) :
    record.version < wordBound ∧ ∃ deleted, e.1 = dataKey k record.version deleted := by
  have record_eq : recordAt e = (k, record) := by rw [recordAt, read]; rfl
  have raw := exists_raw (read.trans (congrArg Except.ok record_eq.symm))
  rwa [record_eq] at raw

theorem inWindow_iff (small : v < wordBound) (read : readDataRow e = .ok (k, record)) :
    InWindow key v e.1 ↔ k = key ∧ record.version ≤ v := by
  obtain ⟨fits, deleted, raw⟩ := raw_of_read read
  rw [InWindow, raw]
  exact seek_iff key k fits small deleted

theorem head?_window_eq_some_iff :
    (OrderedMap.between rows (.included (seekKey key v)) (.included (dataKeyEnd key))).head? =
      some e ↔ FirstInWindow rows key v e := by
  have sorted := rows.pairwise_between (.included (seekKey key v)) (.included (dataKeyEnd key))
  have member (f : Row) : f ∈ OrderedMap.between rows (.included (seekKey key v))
      (.included (dataKeyEnd key)) ↔ rows.get? f.1 = some f.2 ∧ InWindow key v f.1 :=
    OrderedMap.mem_between
  generalize OrderedMap.between rows _ _ = window at sorted member
  constructor
  · intro first
    obtain ⟨rest, rfl⟩ := List.head?_eq_some_iff.1 first
    obtain ⟨stored, inside⟩ := (member e).1 List.mem_cons_self
    refine ⟨stored, inside, fun f stored inside => ?_⟩
    rcases List.mem_cons.1 ((member f).2 ⟨stored, inside⟩) with rfl | later
    · exact Std.le_refl _
    · exact Std.le_of_lt ((List.pairwise_cons.1 sorted).1 f later)
  · rintro ⟨stored, inside, least⟩
    have mem : e ∈ window := (member e).2 ⟨stored, inside⟩
    cases window with
    | nil => cases mem
    | cons f rest =>
      rcases List.mem_cons.1 mem with rfl | later
      · rfl
      · have lt := (List.pairwise_cons.1 sorted).1 e later
        obtain ⟨stored, inside⟩ := (member f).1 List.mem_cons_self
        exact absurd lt (Std.not_lt_of_ge (least f stored inside))

theorem head?_window_eq_none_iff :
    (OrderedMap.between rows (.included (seekKey key v)) (.included (dataKeyEnd key))).head? =
      none ↔ ∀ raw, InWindow key v raw → rows.get? raw = none := by
  rw [List.head?_eq_none_iff, List.eq_nil_iff_forall_not_mem]
  constructor
  · intro empty raw inside
    refine Option.eq_none_iff_forall_ne_some.2 fun value stored => ?_
    exact empty (raw, value) (OrderedMap.mem_between.2 ⟨stored, inside⟩)
  · intro empty e mem
    obtain ⟨stored, inside⟩ := OrderedMap.mem_between.1 mem
    rw [empty e.1 inside] at stored
    cases stored

/-- The first row, if it can be read, stands before every other one of the key that counts. -/
theorem FirstInWindow.newest (first : FirstInWindow rows key v e) (small : v < wordBound)
    (read : readDataRow e = .ok (key, record)) : Newest rows key v record := by
  refine ⟨((inWindow_iff small read).1 first.inside).2, fun f other stored read' seen => ?_⟩
  have order := first.least f stored ((inWindow_iff small read').2 ⟨rfl, seen⟩)
  obtain ⟨_, deleted, raw⟩ := raw_of_read read
  obtain ⟨fits, deleted', raw'⟩ := raw_of_read read'
  rw [raw, raw'] at order
  refine Nat.le_of_not_lt fun newer => ?_
  exact Std.not_le_of_gt (dataKey_lt_of_newer key fits newer deleted' deleted) order

end Window

inductive LooksUp (rows : RawRows) (key : Bytes) (v : Version) :
    Except Error (Option (Record Bytes)) → Prop
  | nothing (empty : ∀ raw, InWindow key v raw → rows.get? raw = none) :
    LooksUp rows key v (.ok none)
  | spoilt {e : Row} {defect : RowDefect} (first : FirstInWindow rows key v e)
      (defective : Defective e.1 defect) :
    LooksUp rows key v (.error (.storage (.corrupt defect)))
  | found {e : Row} {record : Record Bytes} (first : FirstInWindow rows key v e)
      (read : readDataRow e = .ok (key, record)) :
    LooksUp rows key v (.ok (some record))

section LookUp
variable {rows : RawRows} {key : Bytes} {v : Version} {r : Except Error (Option (Record Bytes))}

theorem exists_looksUp (rows : RawRows) (key : Bytes) (small : v < wordBound) :
    ∃ r, LooksUp rows key v r := by
  rcases head : (OrderedMap.between rows (.included (seekKey key v))
      (.included (dataKeyEnd key))).head? with _ | e
  · exact ⟨_, .nothing (head?_window_eq_none_iff.1 head)⟩
  · have first := head?_window_eq_some_iff.1 head
    rcases read : readDataRow e with defect | ⟨k, record⟩
    · exact ⟨_, .spoilt first ((readDataRow_eq_error_iff e defect).1 read)⟩
    · obtain ⟨rfl, _⟩ := (inWindow_iff small read).1 first.inside
      exact ⟨_, .found first read⟩

theorem LooksUp.does (answer : LooksUp rows key v r) (pageSize : Nat) :
    Does (Snapshot.record? ⟨v, pageSize⟩ key) rows r rows := by
  refine (does_scan rows _ _ .forward 1).bind ?_
  rw [Direction.arrange, List.head?_take, if_neg Nat.one_ne_zero]
  cases answer with
  | nothing empty =>
    rw [head?_window_eq_none_iff.2 empty]
    exact does_pure none
  | spoilt first defective =>
    rw [head?_window_eq_some_iff.2 first]
    dsimp only
    rw [(readDataRow_eq_error_iff _ _).2 defective]
    exact (does_fail _).bind_error
  | found first read =>
    rw [head?_window_eq_some_iff.2 first]
    exact (does_decoded read).bind (does_pure _)

theorem does_record?_iff (small : v < wordBound) (pageSize : Nat) :
    Does (Snapshot.record? ⟨v, pageSize⟩ key) rows r rows ↔ LooksUp rows key v r := by
  constructor
  · intro does
    obtain ⟨r', answer⟩ := exists_looksUp rows key small
    have same : r = r' := does.unique (answer.does pageSize)
    exact same ▸ answer
  · exact fun answer => answer.does pageSize

end LookUp

/-- The tests never fail: on any device, whatever it holds and whichever of its calls fail, the
tested look-up does what the look-up does. -/
theorem run_testedRecord? (s : Snapshot) (small : s.version < wordBound) (key : Bytes) :
    (s.testedRecord? key).run = some <$> s.record? key := by
  funext d
  rw [Snapshot.testedRecord?, Access.run_lift_bind, Snapshot.record?, map_bind, Access.bind_apply,
    Access.bind_apply]
  rcases ran : Device.scan (.included (seekKey key s.version)) (.included (dataKeyEnd key))
    .forward 1 d with ⟨e | page, d'⟩
  · rfl
  · dsimp only
    cases first : page.head? with
    | none => rfl
    | some e =>
      have inside : InWindow key s.version e.1 := inside_of_scan ran (List.mem_of_mem_head? first)
      dsimp only
      rw [Access.run_lift_bind]
      rcases read : readDataRow e with defect | ⟨k, record⟩
      · rfl
      · obtain ⟨same, seen⟩ := (inWindow_iff small read).1 inside
        have passed : (do
            guard (k = key)
            guard (record.version ≤ s.version)
            return some record : OptionT (Access Device) (Option (Record Bytes))) =
              pure (some record) := by
          have key_met : (guard (k = key) : OptionT (Access Device) Unit) = pure () := if_pos same
          have version_met : (guard (record.version ≤ s.version) :
            OptionT (Access Device) Unit) = pure () := if_pos seen
          rw [key_met, version_met]
          rfl
        exact congrFun (congrArg OptionT.run passed) d'

/-- For any rows, any key and any version that is a word: a look-up that the device grants comes to
nothing if no row stands in the window, and fails as corrupt if the first row there is defective, as
what it is. Otherwise it gives the record of the first row, the newest of the key up to the version.
A row of the window that can be read is always one of the key and not newer, so the tests of the
look-up never fail, whatever the device does. -/
theorem point_lookup_safe (rows : RawRows) (key : Bytes) {v : Version} (small : v < wordBound)
    (pageSize : Nat) :
    (∃ r, LooksUp rows key v r) ∧
    (∀ r, Does (Snapshot.record? ⟨v, pageSize⟩ key) rows r rows ↔ LooksUp rows key v r) ∧
    (Does (Snapshot.record? ⟨v, pageSize⟩ key) rows (.ok none) rows ↔
      ∀ raw, InWindow key v raw → rows.get? raw = none) ∧
    (∀ defect, Does (Snapshot.record? ⟨v, pageSize⟩ key) rows
        (.error (.storage (.corrupt defect))) rows ↔
      ∃ e, FirstInWindow rows key v e ∧ Defective e.1 defect) ∧
    (∀ record, Does (Snapshot.record? ⟨v, pageSize⟩ key) rows (.ok (some record)) rows ↔
      Newest rows key v record ∧
        ∃ e, FirstInWindow rows key v e ∧ readDataRow e = .ok (key, record)) ∧
    (∀ e k record, InWindow key v e.1 → readDataRow e = .ok (k, record) →
      k = key ∧ record.version ≤ v) ∧
    (Snapshot.testedRecord? ⟨v, pageSize⟩ key).run =
      some <$> Snapshot.record? ⟨v, pageSize⟩ key := by
  refine ⟨exists_looksUp rows key small, fun r => does_record?_iff small pageSize, ?_,
    fun defect => ?_, fun record => ?_,
    fun e k record inside read => (inWindow_iff small read).1 inside,
    run_testedRecord? ⟨v, pageSize⟩ small key⟩
  · rw [does_record?_iff small]
    constructor
    · intro answer
      cases answer with
      | nothing empty => exact empty
    · exact .nothing
  · rw [does_record?_iff small]
    constructor
    · intro answer
      cases answer with
      | spoilt first defective => exact ⟨_, first, defective⟩
    · rintro ⟨e, first, defective⟩
      exact .spoilt first defective
  · rw [does_record?_iff small]
    constructor
    · intro answer
      cases answer with
      | found first read => exact ⟨first.newest small read, _, first, read⟩
    · rintro ⟨_, e, first, read⟩
      exact .found first read

/-- A key of zero bytes with two records, and in front of them a row with a mark that is none. -/
def spoiltRows : RawRows :=
  (∅ : RawRows).apply [.put (seekKey [0, 0] (wordBound - 1) ++ [7]) [],
    .put (dataKey [0, 0] 3 false) [1], .put (dataKey [0, 0] 0 true) []]

theorem point_lookup_safe_sample :
    (wordBound - 1 < wordBound ∧ Does (Snapshot.record? ⟨wordBound - 1, 1⟩ [0, 0]) spoiltRows
      (.error (.storage (.corrupt (.deletedFlag 7)))) spoiltRows) ∧
    (5 < wordBound ∧ Does (Snapshot.record? ⟨5, 1⟩ [0, 0]) spoiltRows
      (.ok (some (.live 3 [1]))) spoiltRows) ∧
    Does (Snapshot.record? ⟨5, 1⟩ [0]) spoiltRows (.ok none) spoiltRows := by
  have last : wordBound - 1 < wordBound := by decide +kernel
  have small : 5 < wordBound := by decide +kernel
  obtain ⟨_, _, _, spoilt, _⟩ := point_lookup_safe spoiltRows [0, 0] last 1
  obtain ⟨_, _, _, _, found, _⟩ := point_lookup_safe spoiltRows [0, 0] small 1
  obtain ⟨_, _, nothing, _⟩ := point_lookup_safe spoiltRows [0] small 1
  refine ⟨⟨last, (spoilt _).2 ?_⟩, ⟨small, (found _).2 ?_⟩, nothing.2 ?_⟩
  · have first : FirstInWindow spoiltRows [0, 0] (wordBound - 1)
        (seekKey [0, 0] (wordBound - 1) ++ [7], []) :=
      head?_window_eq_some_iff.1 (by decide +kernel)
    exact ⟨_, first, (readDataKey_eq_error_iff _ _).1 rfl⟩
  · have first : FirstInWindow spoiltRows [0, 0] 5 (dataKey [0, 0] 3 false, [1]) :=
      head?_window_eq_some_iff.1 (by decide +kernel)
    have three : 3 < wordBound := Nat.lt_trans (by decide) small
    have read := readDataRow_dataKey [0, 0] three (some [1])
    exact ⟨first.newest small read, _, first, read⟩
  · exact head?_window_eq_none_iff.1 (by decide +kernel)

end Durable
end OptimisticStore
