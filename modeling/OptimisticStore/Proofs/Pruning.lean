import OptimisticStore.Proofs.FailedCalls
import OptimisticStore.Proofs.Retention

/-! What the end of a registration takes from a durable store. The rows may be any that have a
ledger and a log to be read back; no history stands behind them. A registration goes if its
heartbeat lies back for longer than the time to live, and the log goes up to the least version
that is read by one who stays. All other rows stay, and the size of the pages plays no part. An end
that fails has taken its own registration at most. The time to live is compared as a word of
milliseconds; one that does not fit is cut down to its lower bits. -/

namespace OptimisticStore

namespace Device
variable {α β : Type}

/-- What succeeds, though calls of the device may fail, succeeds alike where none does. -/
def Candid (x : Access Device α) : Prop :=
  ∀ (d d₀ : Device) (a : α), d₀.Faultless → d₀.rows = d.rows → (x d).1 = .ok a →
    (x d₀).1 = .ok a ∧ (x d₀).2.rows = (x d).2.rows ∧ (x d₀).2.Faultless

theorem Atomic.candid {x : Access Device α} (atomic : Atomic x) : Candid x := by
  intro d d₀ a faultless same done
  rcases atomic.cases d d₀ faultless same with ⟨⟨text, failed⟩, _⟩ | ⟨result, rows⟩
  · rw [done] at failed
    cases failed
  · exact ⟨result.symm.trans done, rows.symm, atomic.faultless d₀ faultless⟩

theorem Candid.bind {x : Access Device α} {f : α → Access Device β} (hx : Candid x)
    (hf : ∀ a, Candid (f a)) : Candid (x >>= f) := by
  intro d d₀ b faultless same done
  have first := hx d d₀
  rw [Access.bind_apply] at done ⊢
  rcases ran : x d with ⟨e | a, d'⟩ <;> rw [ran] at done first
  · cases done
  · obtain ⟨result, rows, faultless'⟩ := first a faultless same rfl
    rcases ran₀ : x d₀ with ⟨r, d₀'⟩
    rw [ran₀] at result rows faultless'
    obtain rfl : r = .ok a := result
    rw [Access.bind_apply, ran]
    exact hf a d' d₀' b faultless' rows done

theorem Candid.of_does {x : Access Device α} (candid : Candid x) {d : Device}
    {r : Except Error α} {after : RawRows} (does : Does x d.rows r after) {a : α}
    (done : (x d).1 = .ok a) : r = .ok a ∧ (x d).2.rows = after := by
  obtain ⟨d', ran, _, rows⟩ := does d.healed d.faultless_healed rfl
  obtain ⟨result, same, _⟩ := candid d d.healed a d.faultless_healed rfl done
  rw [ran] at result same
  exact ⟨result, same.symm.trans rows⟩

end Device

namespace Durable
open Device Layout

/-! ### Heartbeats -/

/-- The heartbeat lies back for longer than the time to live, to the nanosecond. One that lies
ahead does not lie back at all. -/
def LedgerRow.Overdue (ttl : Duration) (now : Nat) (row : LedgerRow) : Prop :=
  ttl.nanoseconds < (Duration.ofMilliseconds (now - row.heartbeat)).nanoseconds

instance (ttl : Duration) (now : Nat) (row : LedgerRow) : Decidable (row.Overdue ttl now) :=
  inferInstanceAs (Decidable (_ < _))

section Heartbeats
variable {config : Config} {now : Nat} (clock : now < wordBound)
include clock

theorem LedgerRow.expired_iff (row : LedgerRow) : row.expired config now = true ↔
    config.runningTxnTtl.milliseconds % wordBound < now - row.heartbeat := by
  rw [expired, Nat.mod_eq_of_lt clock, decide_eq_true_eq]

theorem LedgerRow.expired_iff_overdue (short : config.runningTxnTtl.milliseconds < wordBound)
    (row : LedgerRow) :
    row.expired config now = true ↔ row.Overdue config.runningTxnTtl now := by
  rw [row.expired_iff clock, Nat.mod_eq_of_lt short]
  exact Nat.div_lt_iff_lt_mul (by decide)

end Heartbeats

/-! ### The horizon -/

section Horizon
variable {config : Config} {now : Nat} {version : Version} {rows : RawRows}

theorem pruneHorizon_eq_least : pruneHorizon config now version rows =
    Keyspace.least (((ledgerOf rows).filter (!·.expired config now)).map (·.registration))
      version := by
  have ascending := (ascending_ledgerOf rows).sublist
    (List.filter_sublist (p := fun row => !row.expired config now))
  rw [pruneHorizon, Keyspace.least_of_ascending (List.pairwise_map.2 ascending), List.head?_map,
    Option.map_map]
  rfl

theorem pruneHorizon_le {row : LedgerRow} (mem : row ∈ ledgerOf rows)
    (spared : row.expired config now = false) :
    pruneHorizon config now version rows ≤ row.registration.readVersion := by
  rw [pruneHorizon_eq_least]
  refine Keyspace.least_le (List.mem_map_of_mem (List.mem_filter.2 ⟨mem, ?_⟩)) version
  rw [spared]
  rfl

end Horizon

/-! ### The end of a registration -/

section Finish
variable {config : Config} {now : Nat} {r : Registration} {d : Device} {version : Version}

def withdrawn (rows : RawRows) (r : Registration) : RawRows := rows.apply [.delete (ledgerKey r)]

theorem ne_ledgerKey_of_region {raw : Bytes} {b : UInt8} (inside : region raw = some b)
    (other : b ≠ 4) : raw ≠ ledgerKey r := by
  rintro rfl
  exact other (Option.some.inj inside).symm

theorem get?_withdrawn (rows : RawRows) (r : Registration) (raw : Bytes) :
    (withdrawn rows r).get? raw = if raw = ledgerKey r then none else rows.get? raw := by
  rw [withdrawn, RawRows.apply_one, RawRows.get?_write]
  rfl

theorem toList_withdrawn (rows : RawRows) (r : Registration) :
    (withdrawn rows r).toList = rows.toList.filter fun e => e.1 ≠ ledgerKey r := by
  simpa [withdrawn] using rows.toList_apply_delete [ledgerKey r]

theorem counts_withdrawn {rows : RawRows} :
    Counts (withdrawn rows r) versionKey version ↔ Counts rows versionKey version := by
  rw [Counts, Counts, get?_withdrawn,
    if_neg (ne_ledgerKey_of_region region_versionKey (by decide))]

theorem Counts.unique {rows : RawRows} {key : Bytes} {m n : Nat} (hm : Counts rows key m)
    (hn : Counts rows key n) : m = n := by
  obtain ⟨lt, stored | ⟨absent, rfl⟩⟩ := hm <;> obtain ⟨lt', stored' | ⟨absent', rfl⟩⟩ := hn
  · rw [stored'] at stored
    exact ((cell_inj lt' lt).1 (Option.some.inj stored)).symm
  · rw [absent'] at stored
    cases stored
  · rw [stored'] at absent
    cases absent
  · rfl

theorem counter_cases (rows : RawRows) (key : Bytes) :
    (∃ n, Counts rows key n) ∨ ∃ e, Does (readCounter key) rows (.error e) rows := by
  cases found : rows.get? key with
  | none => exact .inl ⟨0, Bytes.capacity_pos 8, .inr ⟨found, rfl⟩⟩
  | some value =>
    rcases read : readCell value with defect | n
    · refine .inr ⟨.storage (.corrupt defect), (Device.does_get key).bind ?_⟩
      rw [found]
      simp only [read]
      exact does_fail _
    · obtain ⟨small, rfl⟩ := eq_cell_of_readCell read
      exact .inl ⟨n, small, .inl found⟩

theorem candid_finish (config : Config) (now : Nat) (r : Registration) :
    Candid (finish config now r) :=
  (atomic_write _).candid.bind fun _ => readsOnly_readVersion.toAtomic.candid.bind fun version =>
    (atomic_prune config now version).candid

theorem does_finish_of_readable (now : Nat) (pos : 0 < config.pageSize)
    (counts : Counts d.rows versionKey version) (readable : LedgerReadable (withdrawn d.rows r)) :
    Does (finish config now r) d.rows (.ok ()) ((withdrawn d.rows r).apply
      ((pruned config now version (withdrawn d.rows r)).map .delete)) := by
  have reads := does_readCounter ((counts_withdrawn (r := r)).2 counts)
  refine (does_write [.delete (ledgerKey r)]).bind (reads.bind ?_)
  rcases prune_cases config now version (withdrawn d.rows r) pos with ⟨_, does⟩ | ⟨unreadable, _⟩
  · exact does
  · exact absurd readable unreadable

theorem finish_succeeds (pos : 0 < config.pageSize) (faultless : d.Faultless)
    (counts : Counts d.rows versionKey version) (readable : LedgerReadable (withdrawn d.rows r)) :
    (finish config now r d).1 = .ok () := by
  obtain ⟨d', ran, _⟩ := does_finish_of_readable now pos counts readable d faultless rfl
  exact congrArg Prod.fst ran

theorem finish_ok (pos : 0 < config.pageSize) (done : (finish config now r d).1 = .ok ()) :
    ∃ version, Counts d.rows versionKey version ∧
      (finish config now r d).2.rows = (withdrawn d.rows r).apply
        ((pruned config now version (withdrawn d.rows r)).map .delete) := by
  have candid := candid_finish config now r
  have write : Does (Device.write [.delete (ledgerKey r)]) d.rows (.ok ()) (withdrawn d.rows r) :=
    does_write _
  rcases counter_cases (withdrawn d.rows r) versionKey with ⟨version, counts⟩ | ⟨e, does⟩
  · have reads := does_readCounter counts
    rcases prune_cases config now version (withdrawn d.rows r) pos with
      ⟨_, does⟩ | ⟨_, e, does⟩
    · exact ⟨version, counts_withdrawn.1 counts,
        (candid.of_does (write.bind (reads.bind does)) done).2⟩
    · cases (candid.of_does (write.bind (reads.bind does)) done).1
  · cases (candid.of_does (write.bind does.bind_error) done).1

end Finish

/-! ### What is left -/

/-- Who is left of the ledger when one registration has ended and those are gone whose heartbeat
is overdue. -/
def survivors (ttl : Duration) (now : Nat) (r : Registration) (rows : RawRows) : List LedgerRow :=
  (ledgerOf rows).filter fun row => row.registration ≠ r ∧ ¬ row.Overdue ttl now

def logRows (rows : RawRows) : List Row := rows.toList.filter fun e => region e.1 = some 3

structure Leaves (ttl : Duration) (now : Nat) (r : Registration) (version : Version)
    (rows after : RawRows) : Prop where
  readable : LedgerReadable after
  ledger : ledgerOf after = survivors ttl now r rows
  /-- Versions count from 1. -/
  log : logRows after = (logRows rows).filter fun e => logVersion e.1 = 0 ∨
    Keyspace.least ((survivors ttl now r rows).map (·.registration)) version < logVersion e.1
  others : ∀ raw, region raw ≠ some 3 → region raw ≠ some 4 → after.get? raw = rows.get? raw

structure WellFormed (rows : RawRows) : Prop where
  ledger : LedgerReadable rows
  log : ∀ e ∈ rows.toList, region e.1 = some 3 → (readLogVersion e.1).isOk = true

theorem ledgerOf_apply_delete (rows : RawRows) (dropped : List Bytes) :
    ledgerOf (rows.apply (dropped.map .delete)) =
      (ledgerOf rows).filter fun row => row.raw ∉ dropped := by
  rw [ledgerOf, RawRows.toList_apply_delete, List.filterMap_filter, ledgerOf,
    List.filter_filterMap]
  congr 1
  funext e
  rcases read : readLedgerRow e with defect | row
  · exact ite_self none
  · have raw : row.raw = e.1 := by rw [(eq_of_readLedgerRow read).2.2]
    by_cases gone : e.1 ∈ dropped <;> simp [Except.toOption, Option.filter_some, raw, gone]

section Left
variable {config : Config} {now : Nat} {r : Registration} {d : Device} {version : Version}
  {rows : RawRows}

theorem LedgerReadable.apply_delete (readable : LedgerReadable rows) (dropped : List Bytes) :
    LedgerReadable (rows.apply (dropped.map .delete)) := by
  intro e mem
  rw [RawRows.toList_apply_delete] at mem
  exact readable e (List.mem_filter.1 mem).1

theorem LedgerReadable.withdrawn (readable : LedgerReadable rows) (r : Registration) :
    LedgerReadable (withdrawn rows r) := readable.apply_delete [ledgerKey r]

theorem ledgerOf_withdrawn (fits : r.Fits) (rows : RawRows) :
    ledgerOf (withdrawn rows r) = (ledgerOf rows).filter fun row => row.registration ≠ r := by
  refine (ledgerOf_apply_delete rows [ledgerKey r]).trans (List.filter_congr fun row mem => ?_)
  obtain ⟨raw, fits', _⟩ := ledgerRow_of_mem mem
  have same : row.raw = ledgerKey r ↔ row.registration = r :=
    ⟨fun same => ledgerKey_inj fits' fits (raw.symm.trans same), fun same => by rw [raw, same]⟩
  simp [same]

theorem survivors_eq (clock : now < wordBound)
    (short : config.runningTxnTtl.milliseconds < wordBound) (fits : r.Fits) (rows : RawRows) :
    (ledgerOf (withdrawn rows r)).filter (!·.expired config now) =
      survivors config.runningTxnTtl now r rows := by
  rw [ledgerOf_withdrawn fits, List.filter_filter, survivors]
  refine List.filter_congr fun row _ => ?_
  have late := row.expired_iff_overdue clock short
  by_cases overdue : row.Overdue config.runningTxnTtl now <;>
    simp [overdue, late.2, Bool.eq_false_iff.2 (mt late.1 _)]

section Success
variable (clock : now < wordBound) (short : config.runningTxnTtl.milliseconds < wordBound)
  (fits : r.Fits)
include clock short fits

theorem pruneHorizon_withdrawn (version : Version) (rows : RawRows) :
    pruneHorizon config now version (withdrawn rows r) = Keyspace.least
      ((survivors config.runningTxnTtl now r rows).map (·.registration)) version := by
  rw [pruneHorizon_eq_least, survivors_eq clock short fits]

theorem ledgerOf_pruned (version : Version) (rows : RawRows) :
    ledgerOf ((withdrawn rows r).apply
        ((pruned config now version (withdrawn rows r)).map .delete)) =
      survivors config.runningTxnTtl now r rows := by
  rw [ledgerOf_apply_delete, ← survivors_eq clock short fits]
  refine List.filter_congr fun row mem => ?_
  have late := mem_pruned_of_ledger config now version mem
  simp [late]

theorem logRows_pruned (log : ∀ e ∈ rows.toList, region e.1 = some 3 →
    (readLogVersion e.1).isOk = true) (small : version < wordBound) :
    logRows ((withdrawn rows r).apply
        ((pruned config now version (withdrawn rows r)).map .delete)) =
      (logRows rows).filter fun e => logVersion e.1 = 0 ∨ Keyspace.least
        ((survivors config.runningTxnTtl now r rows).map (·.registration)) version <
          logVersion e.1 := by
  rw [logRows, RawRows.toList_apply_delete, toList_withdrawn, logRows, List.filter_filter,
    List.filter_filter, List.filter_filter]
  refine List.filter_congr fun e mem => ?_
  by_cases inside : region e.1 = some 3
  · have other : e.1 ≠ ledgerKey r := ne_ledgerKey_of_region inside (by decide)
    have readable := log e mem inside
    rcases read : readLogVersion e.1 with defect | v
    · rw [read] at readable
      cases readable
    · have told : logVersion e.1 = v := by rw [logVersion, read]; rfl
      have still : (e.1, e.2) ∈ (withdrawn rows r).toList := by
        rw [toList_withdrawn]
        exact List.mem_filter.2 ⟨mem, decide_eq_true other⟩
      have gone := mem_pruned_of_log config now small read still
      rw [pruneHorizon_withdrawn clock short fits] at gone
      simp [inside, other, told, gone, Nat.pos_iff_ne_zero]
  · simp [inside]

end Success

theorem get?_pruned_of_region {raw : Bytes} (log : region raw ≠ some 3)
    (ledger : region raw ≠ some 4) :
    ((withdrawn rows r).apply
        ((pruned config now version (withdrawn rows r)).map .delete)).get? raw =
      rows.get? raw := by
  have spared : raw ∉ pruned config now version (withdrawn rows r) := fun gone =>
    (region_of_pruned gone).elim (fun here => ledger here.1) fun here => log here.1
  have other : raw ≠ ledgerKey r := fun same => ledger (by rw [same]; rfl)
  rw [RawRows.get?_apply_delete, if_neg spared, get?_withdrawn, if_neg other]

theorem pruned_congr {config' : Config} (same : config'.runningTxnTtl = config.runningTxnTtl)
    (now : Nat) (version : Version) (rows : RawRows) :
    pruned config' now version rows = pruned config now version rows := by
  have expired : LedgerRow.expired config' = LedgerRow.expired config := by
    funext now row
    rw [LedgerRow.expired, same]
    rfl
  have horizon : pruneHorizon config' now version rows = pruneHorizon config now version rows := by
    rw [pruneHorizon, expired]
    rfl
  rw [pruned, obsolete, horizon, expired]
  rfl

/-- The end of a registration takes exactly what it should. Let the ledger and the log be readable.
On a device that does not fail the end succeeds if the version can be told. Wherever it succeeds,
the ledger has lost this registration and those whose heartbeats are overdue, the log has lost the
versions up to the least one that is still read, or up to the last one if nobody is left, and all
other rows are what they were. No row depends on the size of the pages. -/
theorem finish_exact (config : Config) {now : Nat} {r : Registration} {d : Device}
    (paged : 0 < config.pageSize) (clock : now < wordBound)
    (short : config.runningTxnTtl.milliseconds < wordBound) (fits : r.Fits)
    (wellFormed : WellFormed d.rows) :
    let ended := finish config now r d
    (d.Faultless → ∀ version, Counts d.rows versionKey version → ended.1 = .ok ()) ∧
    (ended.1 = .ok () →
      (∃ version, Counts d.rows versionKey version ∧
        Leaves config.runningTxnTtl now r version d.rows ended.2.rows) ∧
      ∀ (config' : Config) (d' : Device), 0 < config'.pageSize →
        config'.runningTxnTtl = config.runningTxnTtl → d'.rows = d.rows →
        (finish config' now r d').1 = .ok () →
        (finish config' now r d').2.rows = ended.2.rows) := by
  intro ended
  have readable := wellFormed.ledger.withdrawn r
  refine ⟨fun faultless version counts => ?_, fun done => ⟨?_, ?_⟩⟩
  · exact finish_succeeds paged faultless counts readable
  · obtain ⟨version, counts, rows⟩ := finish_ok paged done
    refine ⟨version, counts, ?_, ?_, ?_, fun raw log ledger => ?_⟩ <;> rw [rows]
    · exact readable.apply_delete _
    · exact ledgerOf_pruned clock short fits version d.rows
    · exact logRows_pruned clock short fits wellFormed.log counts.1
    · exact get?_pruned_of_region log ledger
  · intro config' d' paged' same alike done'
    obtain ⟨version, counts, rows⟩ := finish_ok paged done
    obtain ⟨version', counts', rows'⟩ := finish_ok paged' done'
    rw [alike] at counts' rows'
    rw [rows, rows', counts'.unique counts, pruned_congr same]

end Left

def prunedSample : Device :=
  { rows := (∅ : RawRows).apply [.put versionKey (cell 3), .put (dataKey [97] 1 false) [1],
      .put (logKey 1 0) [97], .put (logKey 2 0) [98], .put (logKey 3 0) [99],
      .put (ledgerKey ⟨1, 4⟩) (cell 0), .put (ledgerKey ⟨2, 5⟩) (cell 900),
      .put (ledgerKey ⟨2, 6⟩) (cell 990)] }

theorem finish_exact_sample :
    let config : Config := { runningTxnTtl := .ofMilliseconds 100 }
    let ended := finish config 1000 ⟨2, 6⟩ prunedSample
    (0 < config.pageSize ∧ 1000 < wordBound ∧ config.runningTxnTtl.milliseconds < wordBound ∧
      Registration.Fits ⟨2, 6⟩ ∧ WellFormed prunedSample.rows) ∧
    ended.1 = .ok () ∧
    (ledgerOf ended.2.rows).map (·.registration) = [⟨2, 5⟩] ∧
    logRows ended.2.rows = [(logKey 3 0, [99])] ∧
    ended.2.rows.get? (dataKey [97] 1 false) = some [1] := by
  intro config ended
  have wellFormed : WellFormed prunedSample.rows :=
    ⟨by unfold LedgerReadable; decide +kernel, by decide +kernel⟩
  have fits : Registration.Fits ⟨2, 6⟩ := by decide +kernel
  have paged : 0 < config.pageSize := by decide
  have clock : 1000 < wordBound := by decide +kernel
  have short : config.runningTxnTtl.milliseconds < wordBound := by decide +kernel
  have three : Counts prunedSample.rows versionKey 3 :=
    ⟨by decide +kernel, .inl (by decide +kernel)⟩
  obtain ⟨succeeds, leaves⟩ := finish_exact config paged clock short fits wellFormed
  have done := succeeds prunedSample.faultless_healed 3 three
  obtain ⟨version, counts, left⟩ := (leaves done).1
  obtain rfl : version = 3 := counts.unique three
  refine ⟨⟨paged, clock, short, fits, wellFormed⟩, done, ?_, ?_, ?_⟩
  · rw [left.ledger]
    decide +kernel
  · rw [left.log]
    decide +kernel
  · rw [left.others _ (by decide) (by decide)]
    decide +kernel

section Reclaimed
variable {config : Config} {now : Nat} {r : Registration} {d : Device}

variable (config now r d) in
theorem get?_finish (paged : 0 < config.pageSize) :
    let ended := finish config now r d
    (∃ e, ended.1 = .error e ∧
        ∀ raw, raw ≠ ledgerKey r → ended.2.rows.get? raw = d.rows.get? raw) ∨
      ended.1 = .ok () ∧ ∃ version, Counts d.rows versionKey version ∧
        ∀ raw, raw ≠ ledgerKey r → ended.2.rows.get? raw =
          if raw ∈ pruned config now version (withdrawn d.rows r) then none
          else d.rows.get? raw := by
  intro ended
  have spared (raw : Bytes) (other : raw ≠ ledgerKey r) :
      (withdrawn d.rows r).get? raw = d.rows.get? raw :=
    (get?_withdrawn d.rows r raw).trans (if_neg other)
  cases result : ended.1 with
  | error e =>
    refine .inl ⟨e, rfl, fun raw other => ?_⟩
    rcases finish_failed config result with kept | gone
    · exact congrArg (·.get? raw) kept
    · exact (congrArg (·.get? raw) gone).trans (spared raw other)
  | ok =>
    obtain ⟨version, counts, rows⟩ := finish_ok paged result
    refine .inr ⟨rfl, version, counts, fun raw other => ?_⟩
    rw [← spared raw other]
    exact (congrArg (·.get? raw) rows).trans (RawRows.get?_apply_delete _ _ raw)

variable (config now) in
theorem finish_other (paged : 0 < config.pageSize) (fits : r.Fits) {row : LedgerRow}
    (mem : row ∈ ledgerOf d.rows) (other : row.registration ≠ r) :
    let ended := finish config now r d
    (ended.2.rows.get? row.raw = none ↔ ended.1 = .ok () ∧ row.expired config now = true) ∧
    (ended.2.rows.get? row.raw ≠ none →
      ended.2.rows.get? row.raw = d.rows.get? row.raw ∧
      ∀ raw v, readLogVersion raw = .ok v → row.registration.readVersion < v →
        ended.2.rows.get? raw = d.rows.get? raw) := by
  intro ended
  obtain ⟨place, fits', found⟩ := ledgerRow_of_mem mem
  have apart : row.raw ≠ ledgerKey r := fun same =>
    other (ledgerKey_inj fits' fits (place.symm.trans same))
  have log_apart {raw : Bytes} {v : Version} (read : readLogVersion raw = .ok v) :
      raw ≠ ledgerKey r := ne_ledgerKey_of_region (region_of_readLogVersion read) (by decide)
  rcases get?_finish config now r d paged with
    ⟨e, failed, kept⟩ | ⟨done, version, counts, left⟩
  · have same : ended.2.rows.get? row.raw = d.rows.get? row.raw := kept row.raw apart
    have failed : ended.1 ≠ .ok () := fun done => by cases failed.symm.trans done
    have stays : ended.2.rows.get? row.raw ≠ none := by
      rw [same, found]
      nofun
    exact ⟨iff_of_false stays fun gone => failed gone.1,
      fun _ => ⟨same, fun raw v read _ => kept raw (log_apart read)⟩⟩
  · have still : row ∈ ledgerOf (withdrawn d.rows r) := by
      rw [ledgerOf_withdrawn fits]
      exact List.mem_filter.2 ⟨mem, decide_eq_true other⟩
    have value : ended.2.rows.get? row.raw = if row.raw ∈ pruned config now version
        (withdrawn d.rows r) then none else d.rows.get? row.raw := left row.raw apart
    have gone : ended.2.rows.get? row.raw = none ↔ row.expired config now = true := by
      rw [← mem_pruned_of_ledger config now version still, value, found]
      exact ite_eq_left_iff.trans (by simp)
    refine ⟨gone.trans (and_iff_right done).symm, fun stays => ⟨?_, ?_⟩⟩
    · exact value.trans (if_neg fun late => stays (value.trans (if_pos late)))
    · intro raw v read above
      have spared : row.expired config now = false :=
        Bool.eq_false_iff.2 fun expired => stays (gone.2 expired)
      refine (left raw (log_apart read)).trans (if_neg fun old => ?_)
      have below := (le_of_mem_pruned counts.1 read old).2
      exact Nat.not_lt_of_le (Nat.le_trans below (pruneHorizon_le still spared)) above

/-- The end of a registration reclaims another one if it succeeds and the other one's age exceeds
the time to live, as far as this goes into a word of milliseconds; if it does, this is exact. Who is
not reclaimed keeps the log above what it reads. -/
theorem reclaimed_iff (config : Config) {now : Nat} {r : Registration} {d : Device}
    (paged : 0 < config.pageSize) (clock : now < wordBound) (fits : r.Fits)
    (readable : LedgerReadable d.rows) :
    let ended := finish config now r d
    let ttl := config.runningTxnTtl
    (d.Faultless → ∀ version, Counts d.rows versionKey version → ended.1 = .ok ()) ∧
    ∀ row ∈ ledgerOf d.rows, row.registration ≠ r →
      (ended.2.rows.get? row.raw = none ↔
        ended.1 = .ok () ∧ ttl.milliseconds % wordBound < now - row.heartbeat) ∧
      (ttl.milliseconds < wordBound → (ended.2.rows.get? row.raw = none ↔
        ended.1 = .ok () ∧ row.Overdue ttl now)) ∧
      (ended.2.rows.get? row.raw ≠ none →
        ended.2.rows.get? row.raw = d.rows.get? row.raw ∧
        ∀ raw v, readLogVersion raw = .ok v → row.registration.readVersion < v →
          ended.2.rows.get? raw = d.rows.get? raw) := by
  intro ended ttl
  refine ⟨fun faultless version counts =>
    finish_succeeds paged faultless counts (readable.withdrawn r), fun row mem other => ?_⟩
  obtain ⟨gone, stays⟩ := finish_other config now paged fits mem other
  exact ⟨gone.trans (and_congr_right fun _ => row.expired_iff clock), fun short =>
    gone.trans (and_congr_right fun _ => row.expired_iff_overdue clock short), stays⟩

end Reclaimed

/-- One registration has not been heard of for too long; the other one stays, and the log above
what it reads. -/
theorem reclaimed_iff_sample :
    let config : Config := { runningTxnTtl := .ofMilliseconds 100 }
    let ended := finish config 1000 ⟨2, 6⟩ prunedSample
    (0 < config.pageSize ∧ 1000 < wordBound ∧ Registration.Fits ⟨2, 6⟩ ∧
      LedgerReadable prunedSample.rows) ∧
    ended.2.rows.get? (ledgerKey ⟨1, 4⟩) = none ∧
    ended.2.rows.get? (ledgerKey ⟨2, 5⟩) = some (cell 900) ∧
    ended.2.rows.get? (logKey 3 0) = some [99] := by
  intro config ended
  have readable : LedgerReadable prunedSample.rows := by
    unfold LedgerReadable
    decide +kernel
  have fits : Registration.Fits ⟨2, 6⟩ := by decide +kernel
  have paged : 0 < config.pageSize := by decide
  have clock : 1000 < wordBound := by decide +kernel
  have three : Counts prunedSample.rows versionKey 3 :=
    ⟨by decide +kernel, .inl (by decide +kernel)⟩
  have lost : ⟨ledgerKey ⟨1, 4⟩, ⟨1, 4⟩, 0⟩ ∈ ledgerOf prunedSample.rows :=
    mem_ledgerOf_of_get? (by decide +kernel) (by decide +kernel) (by decide +kernel)
  have heard : ⟨ledgerKey ⟨2, 5⟩, ⟨2, 5⟩, 900⟩ ∈ ledgerOf prunedSample.rows :=
    mem_ledgerOf_of_get? (by decide +kernel) (by decide +kernel) (by decide +kernel)
  obtain ⟨succeeds, told⟩ := reclaimed_iff config paged clock fits readable
  have done := succeeds prunedSample.faultless_healed 3 three
  have gone := (told _ lost (by decide)).1.2 ⟨done, by decide +kernel⟩
  obtain ⟨late, _, stays⟩ := told _ heard (by decide)
  have young : ¬ config.runningTxnTtl.milliseconds % wordBound < 1000 - 900 := by decide +kernel
  obtain ⟨row, log⟩ := stays fun absent => young (late.1 absent).2
  have three_read := readLogVersion_logKey (show 3 < wordBound by decide +kernel) 0
  exact ⟨⟨paged, clock, fits, readable⟩, gone, row.trans (by decide +kernel),
    (log (logKey 3 0) 3 three_read (by decide)).trans (by decide +kernel)⟩

/-- A time to live of more than five hundred million years comes down to less than a second. -/
theorem young_registration_reclaimed :
    let config : Config := { runningTxnTtl := .ofSeconds 18446744073709552 }
    let ended := finish config 1000 ⟨2, 6⟩ prunedSample
    ended.1 = .ok () ∧ ∃ row ∈ ledgerOf prunedSample.rows, row.registration ≠ ⟨2, 6⟩ ∧
      ¬ row.Overdue config.runningTxnTtl 1000 ∧ ended.2.rows.get? row.raw = none := by
  decide +kernel

end Durable
end OptimisticStore
