import OptimisticStore.Proofs.Device
import OptimisticStore.Proofs.Regions

/-! What a prune deletes, whatever the rows are. If the ledger can be read, the rows of it that have
expired are deleted, and the log up to the horizon, the version that the first row reads that has
not; if it cannot be read, nothing is deleted. -/

namespace OptimisticStore

theorem RawRows.toList_apply_delete (rows : RawRows) (dropped : List Bytes) :
    (rows.apply (dropped.map .delete)).toList = rows.toList.filter fun e => e.1 ∉ dropped := by
  apply entries_eq_of_mem_iff
  · exact (rows.apply (dropped.map .delete)).pairwise_toList
  · exact rows.pairwise_toList.sublist List.filter_sublist
  · intro e
    rw [List.mem_filter, ← OrderedMap.get?_eq_some_iff, ← OrderedMap.get?_eq_some_iff,
      get?_apply_delete]
    by_cases gone : e.1 ∈ dropped <;> simp [gone]

theorem mapM_cases {α β ε : Type} (f : α → Except ε β) (l : List α) :
    ((∀ x ∈ l, (f x).isOk = true) ∧ l.mapM f = .ok (l.filterMap fun x => (f x).toOption)) ∨
      (∃ x ∈ l, (f x).isOk = false) ∧ ∃ e, l.mapM f = .error e := by
  induction l with
  | nil => exact .inl ⟨nofun, rfl⟩
  | cons x l ih =>
    rw [List.mapM_cons]
    rcases here : f x with e | y
    · exact .inr ⟨⟨x, List.mem_cons_self, by rw [here]; rfl⟩, e, rfl⟩
    · rcases ih with ⟨each, all⟩ | ⟨⟨z, mem, defect⟩, e, failed⟩
      · refine .inl ⟨List.forall_mem_cons.2 ⟨by rw [here]; rfl, each⟩, ?_⟩
        rw [all, List.filterMap_cons, here]
        rfl
      · refine .inr ⟨⟨z, List.mem_cons_of_mem x mem, defect⟩, e, ?_⟩
        rw [failed]
        rfl

namespace Durable
open Device Layout

/-! ### The ledger -/

def ledgerOf (rows : RawRows) : List LedgerRow :=
  rows.toList.filterMap fun e => (readLedgerRow e).toOption

def LedgerReadable (rows : RawRows) : Prop :=
  ∀ e ∈ rows.toList, region e.1 = some 4 → (readLedgerRow e).isOk = true

theorem eq_of_readLedgerRow {e : Row} {row : LedgerRow} (read : readLedgerRow e = .ok row) :
    row.raw = ledgerKey row.registration ∧ row.registration.Fits ∧
      e = (row.raw, cell row.heartbeat) := by
  unfold readLedgerRow at read
  rcases key : readLedgerKey e.1 with defect | r <;> rw [key] at read
  · cases read
  · rcases value : readCell e.2 with defect | heartbeat <;> rw [value] at read <;> cases read
    obtain ⟨fits, raw⟩ := eq_ledgerKey_of_readLedgerKey key
    exact ⟨raw, fits, Prod.ext rfl (eq_cell_of_readCell value).2⟩

theorem toOption_eq_some_iff {ε α : Type} {x : Except ε α} {a : α} :
    x.toOption = some a ↔ x = .ok a := by
  cases x <;> simp [Except.toOption]

theorem region_of_readLedgerRow {e : Row} {row : LedgerRow} (read : readLedgerRow e = .ok row) :
    region e.1 = some 4 := by
  obtain ⟨raw, _, rfl⟩ := eq_of_readLedgerRow read
  rw [raw]
  rfl

section Ledger
variable {rows : RawRows} {row : LedgerRow}

theorem mem_ledgerOf : row ∈ ledgerOf rows ↔ ∃ e ∈ rows.toList, readLedgerRow e = .ok row := by
  simp only [ledgerOf, List.mem_filterMap, toOption_eq_some_iff]

theorem ledgerRow_of_mem (mem : row ∈ ledgerOf rows) :
    row.raw = ledgerKey row.registration ∧ row.registration.Fits ∧
      rows.get? row.raw = some (cell row.heartbeat) := by
  obtain ⟨e, there, read⟩ := mem_ledgerOf.1 mem
  obtain ⟨raw, fits, rfl⟩ := eq_of_readLedgerRow read
  exact ⟨raw, fits, (rows.get?_eq_some_iff _ _).2 there⟩

theorem mem_ledgerOf_of_get? {q : Registration} {heartbeat : Nat} (fits : q.Fits)
    (small : heartbeat < wordBound) (found : rows.get? (ledgerKey q) = some (cell heartbeat)) :
    ⟨ledgerKey q, q, heartbeat⟩ ∈ ledgerOf rows := by
  refine mem_ledgerOf.2 ⟨_, (rows.get?_eq_some_iff _ _).1 found, ?_⟩
  simp only [readLedgerRow, readLedgerKey_ledgerKey fits, readCell_cell small]
  rfl

theorem ledgerRow_unique {row' : LedgerRow} (mem : row ∈ ledgerOf rows)
    (mem' : row' ∈ ledgerOf rows) (same : row.raw = row'.raw) : row = row' := by
  obtain ⟨e, there, read⟩ := mem_ledgerOf.1 mem
  obtain ⟨e', there', read'⟩ := mem_ledgerOf.1 mem'
  have found := (rows.get?_eq_some_iff _ _).2 there
  have found' := (rows.get?_eq_some_iff _ _).2 there'
  have key : e.1 = e'.1 := by
    rw [(eq_of_readLedgerRow read).2.2, (eq_of_readLedgerRow read').2.2]
    exact same
  rw [key, found'] at found
  rw [Prod.ext key (Option.some.inj found).symm, read'] at read
  cases read
  rfl

theorem ascending_ledgerOf (rows : RawRows) :
    (ledgerOf rows).Pairwise fun x y =>
      x.registration.readVersion ≤ y.registration.readVersion := by
  rw [ledgerOf, List.pairwise_filterMap]
  refine rows.pairwise_toList.imp fun {e f} lt x hx y hy => ?_
  obtain ⟨raw, fits, rfl⟩ := eq_of_readLedgerRow (toOption_eq_some_iff.1 hx)
  obtain ⟨raw', fits', rfl⟩ := eq_of_readLedgerRow (toOption_eq_some_iff.1 hy)
  rw [raw, raw', ledgerKey_lt_ledgerKey_iff fits fits'] at lt
  exact lt.elim Nat.le_of_lt fun tied => Nat.le_of_eq tied.1

theorem ledgerOf_eq (rows : RawRows) :
    ledgerOf rows = (OrderedMap.between rows ledgerRange.1 ledgerRange.2).filterMap
      fun e => (readLedgerRow e).toOption := by
  rw [ledgerOf, OrderedMap.between, List.filterMap_filter]
  congr 1
  funext e
  split
  · rfl
  · next outside =>
    rw [Bool.and_eq_true, decide_eq_true_eq, decide_eq_true_eq, ledgerRange_iff] at outside
    rcases read : readLedgerRow e with defect | row
    · rfl
    · exact absurd (region_of_readLedgerRow read) outside

theorem readLedger_cases (rows : RawRows) :
    (LedgerReadable rows ∧ (OrderedMap.between rows ledgerRange.1 ledgerRange.2).mapM
        readLedgerRow = .ok (ledgerOf rows)) ∨
      ¬ LedgerReadable rows ∧ ∃ defect,
        (OrderedMap.between rows ledgerRange.1 ledgerRange.2).mapM readLedgerRow =
          .error defect := by
  have inside (e : Row) : e ∈ OrderedMap.between rows ledgerRange.1 ledgerRange.2 ↔
      e ∈ rows.toList ∧ region e.1 = some 4 := by
    rw [OrderedMap.mem_between, ledgerRange_iff, OrderedMap.get?_eq_some_iff]
  rw [ledgerOf_eq]
  rcases mapM_cases readLedgerRow (OrderedMap.between rows ledgerRange.1 ledgerRange.2) with
    ⟨each, all⟩ | ⟨⟨e, mem, defect⟩, failed⟩
  · exact .inl ⟨fun e mem ledger => each e ((inside e).2 ⟨mem, ledger⟩), all⟩
  · refine .inr ⟨fun readable => ?_, failed⟩
    obtain ⟨mem, ledger⟩ := (inside e).1 mem
    rw [readable e mem ledger] at defect
    cases defect

end Ledger

/-! ### What is deleted -/

theorem does_delete {rows : RawRows} (dropped : List Bytes) :
    Does (if !(dropped.map RawWrite.delete).isEmpty then Device.write (dropped.map .delete)
      else pure ()) rows (.ok ()) (rows.apply (dropped.map .delete)) := by
  cases dropped with
  | nil => exact does_pure ()
  | cons raw dropped => exact does_write _

section Prune
variable (config : Config) (now : Nat) (version : Version) (rows : RawRows)

/-- What the first one reads who stays. -/
def pruneHorizon : Version :=
  (((ledgerOf rows).filter (!·.expired config now)).head?.map
    (·.registration.readVersion)).getD version

def obsolete : List Row :=
  let horizon := pruneHorizon config now version rows
  if 0 < horizon then
    OrderedMap.between rows (logRange 0 (some horizon)).1 (logRange 0 (some horizon)).2
  else []

def pruned : List Bytes :=
  ((ledgerOf rows).filter (·.expired config now)).map (·.raw) ++
    (obsolete config now version rows).map (·.1)

/-- A prune deletes all that is obsolete or, if it cannot read the ledger, nothing. -/
theorem prune_cases (pos : 0 < config.pageSize) :
    (LedgerReadable rows ∧ Does (prune config now version) rows (.ok ())
        (rows.apply ((pruned config now version rows).map .delete))) ∨
      ¬ LedgerReadable rows ∧ ∃ e, Does (prune config now version) rows (.error e) rows := by
  rcases readLedger_cases rows with ⟨readable, read⟩ | ⟨unreadable, defect, failed⟩
  · refine .inl ⟨readable, (does_scanAll pos rows _).bind ((does_decoded read).bind ?_)⟩
    rw [pruned, obsolete]
    change Does (if 0 < pruneHorizon config now version rows then _ else _) rows _ _
    split
    · exact (does_scanAll pos rows _).bind (does_delete _)
    · exact (does_pure []).bind (does_delete _)
  · refine .inr ⟨unreadable, .storage (.corrupt defect), (does_scanAll pos rows _).bind ?_⟩
    rw [failed]
    exact (does_fail _).bind_error

variable {config now version rows}

theorem pruneHorizon_lt (small : version < wordBound) :
    pruneHorizon config now version rows < wordBound := by
  rw [pruneHorizon]
  cases first : ((ledgerOf rows).filter (!·.expired config now)).head? with
  | none => exact small
  | some row =>
    have mem := (List.mem_filter.1 (List.mem_of_mem_head? first)).1
    exact (ledgerRow_of_mem mem).2.1.1

theorem region_of_pruned {raw : Bytes} (mem : raw ∈ pruned config now version rows) :
    region raw = some 4 ∧ (∃ row ∈ ledgerOf rows, row.raw = raw ∧ row.expired config now = true) ∨
      region raw = some 3 ∧
        (logRange 0 (some (pruneHorizon config now version rows))).1.Below raw ∧
        (logRange 0 (some (pruneHorizon config now version rows))).2.Above raw := by
  rcases List.mem_append.1 mem with late | old
  · obtain ⟨row, lapsed, rfl⟩ := List.mem_map.1 late
    obtain ⟨there, late⟩ := List.mem_filter.1 lapsed
    have raw := (ledgerRow_of_mem there).1
    exact .inl ⟨by rw [raw]; rfl, row, there, rfl, late⟩
  · obtain ⟨e, inside, rfl⟩ := List.mem_map.1 old
    rw [obsolete] at inside
    split at inside
    · obtain ⟨_, lower, upper⟩ := OrderedMap.mem_between.1 inside
      exact .inr ⟨region_of_logRange lower upper, lower, upper⟩
    · cases inside

variable (config now version) in
theorem mem_pruned_of_ledger {row : LedgerRow} (mem : row ∈ ledgerOf rows) :
    row.raw ∈ pruned config now version rows ↔ row.expired config now = true := by
  constructor
  · intro gone
    rcases region_of_pruned gone with ⟨_, other, mem', same, late⟩ | ⟨log, _⟩
    · rwa [ledgerRow_unique mem' mem same] at late
    · rw [(ledgerRow_of_mem mem).1] at log
      cases log
  · exact fun late => List.mem_append_left _ (List.mem_map_of_mem (List.mem_filter.2 ⟨mem, late⟩))

section Log
variable (small : version < wordBound) {raw : Bytes} {v : Version}
  (read : readLogVersion raw = .ok v)
include small read

theorem logRange_pruneHorizon_iff :
    (logRange 0 (some (pruneHorizon config now version rows))).1.Below raw ∧
        (logRange 0 (some (pruneHorizon config now version rows))).2.Above raw ↔
      0 < v ∧ v ≤ pruneHorizon config now version rows := by
  obtain ⟨hv, i, hi, rfl⟩ := eq_logKey_of_readLogVersion read
  have first : min (0 + 1) (wordBound - 1) = 1 := by decide
  rw [logRange_iff _ hv hi (by simpa using pruneHorizon_lt small), first]
  simp [Nat.succ_le_iff]

theorem le_of_mem_pruned (gone : raw ∈ pruned config now version rows) :
    0 < v ∧ v ≤ pruneHorizon config now version rows := by
  rcases region_of_pruned gone with ⟨ledger, _⟩ | ⟨_, ends⟩
  · rw [region_of_readLogVersion read] at ledger
    cases ledger
  · exact (logRange_pruneHorizon_iff small read).1 ends

variable (config now) in
theorem mem_pruned_of_log {value : Bytes} (mem : (raw, value) ∈ rows.toList) :
    raw ∈ pruned config now version rows ↔ 0 < v ∧ v ≤ pruneHorizon config now version rows := by
  refine ⟨le_of_mem_pruned small read, fun old => List.mem_append_right _ ?_⟩
  have ends := (logRange_pruneHorizon_iff small read).2 old
  refine List.mem_map.2 ⟨(raw, value), ?_, rfl⟩
  rw [obsolete, if_pos (Nat.lt_of_lt_of_le old.1 old.2)]
  exact OrderedMap.mem_between.2 ⟨(rows.get?_eq_some_iff _ _).2 mem, ends⟩

end Log

end Prune

end Durable
end OptimisticStore
