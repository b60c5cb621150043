import OptimisticStore.Proofs.Obsolete

/-! What the operations of a durable store do on a device whose rows keep a standing. The ledger
is read back as the list of registrations and the log as what was written since a version, so
each operation is one on standings; a registration that has lapsed is let go by the next
`finish`, and only by that. -/

namespace OptimisticStore

theorem mapM_eq_ok {α β ε : Type} {f : α → Except ε β} {g : α → β} {l : List α}
    (each : ∀ x ∈ l, f x = .ok (g x)) : l.mapM f = .ok (l.map g) := by
  induction l with
  | nil => rfl
  | cons x l ih =>
    have rest := ih fun y hy => each y (List.mem_cons_of_mem _ hy)
    rw [List.mapM_cons, each x List.mem_cons_self, rest]
    rfl

namespace Durable
open Device Layout

variable {a : Standing} {rows : RawRows} {config : Config}

theorem does_readCounter {key : Bytes} {n : Nat} (counts : Counts rows key n) :
    Does (readCounter key) rows (.ok n) rows := by
  obtain ⟨bound, stored⟩ := counts
  refine (does_get key).bind ?_
  rcases stored with value | ⟨absent, rfl⟩
  · rw [value]
    exact does_decoded (readCell_cell bound)
  · rw [absent]
    exact does_pure 0

theorem does_readVersion (holds : Holds a rows) :
    Does readVersion rows (.ok a.history.length) rows := does_readCounter holds.version

theorem does_successor {n : Nat} (room : n + 1 < wordBound) :
    Does (successor n) rows (.ok (n + 1)) rows := by
  rw [successor, if_pos room]
  exact does_pure _

theorem does_successor_full {n : Nat} (full : ¬ n + 1 < wordBound) :
    Does (successor n) rows (.error (.storage .counterFull)) rows := by
  rw [successor, if_neg full]
  exact does_fail _

theorem does_openStore (holds : Holds a rows) (config : Config) :
    Does (openStore config) rows (.ok (config.withPageSize config.pageSize)) rows :=
  (does_readVersion holds).bind (does_pure _)

theorem does_begin_put (holds : Holds a rows) (config : Config) (now : Nat)
    (room : a.lastTxnId + 1 < wordBound) :
    Does (begin config now) rows (.ok (a.next, ⟨a.history.length, config.pageSize⟩))
      (rows.apply [.put txnIdKey (cell (a.lastTxnId + 1)),
        .put (ledgerKey a.next) (cell now)]) := by
  refine (does_readVersion holds).bind ?_
  refine (does_readCounter holds.lastTxnId).bind ?_
  refine (does_successor room).bind ?_
  exact (does_write _).bind (does_pure _)

theorem does_begin (holds : Holds a rows) (config : Config) (now : Nat)
    (room : a.lastTxnId + 1 < wordBound) :
    ∃ rows', Does (begin config now) rows
      (.ok (a.next, ⟨a.history.length, config.pageSize⟩)) rows' ∧ Holds a.begun rows' :=
  ⟨_, does_begin_put holds config now room, holds.begun room now⟩

theorem does_begin_full (holds : Holds a rows) (config : Config) (now : Nat)
    (full : ¬ a.lastTxnId + 1 < wordBound) :
    Does (begin config now) rows (.error (.storage .counterFull)) rows := by
  refine (does_readVersion holds).bind ?_
  refine (does_readCounter holds.lastTxnId).bind ?_
  exact (does_successor_full full).bind_error

theorem does_heartbeat_put {r : Registration} (registered : (rows.get? (ledgerKey r)).isSome)
    (now : Nat) :
    Does (heartbeat now r) rows (.ok ()) (rows.apply [.put (ledgerKey r) (cell now)]) := by
  refine (does_get _).bind ?_
  rw [if_pos registered]
  exact does_write _

theorem does_heartbeat_idle {r : Registration} (unregistered : ¬ (rows.get? (ledgerKey r)).isSome)
    (now : Nat) : Does (heartbeat now r) rows (.ok ()) rows := by
  refine (does_get _).bind ?_
  rw [if_neg unregistered]
  exact does_pure ()

theorem does_heartbeat (holds : Holds a rows) (now : Nat) (r : Registration) :
    ∃ rows', Does (heartbeat now r) rows (.ok ()) rows' ∧ Holds a rows' := by
  by_cases registered : (rows.get? (ledgerKey r)).isSome
  · exact ⟨_, does_heartbeat_put registered now, holds.renewed registered now⟩
  · exact ⟨rows, does_heartbeat_idle registered now, holds⟩

/-! ### The log -/

def logVersion (raw : Bytes) : Nat := (readLogVersion raw).toOption.getD 0

def logSince (rows : RawRows) (v : Nat) : List (Nat × Bytes) :=
  (OrderedMap.between rows (logRange v none).1 (logRange v none).2).map fun e =>
    (logVersion e.1, e.2)

theorem logVersion_logKey {v : Nat} (hv : v < wordBound) (i : Nat) :
    logVersion (logKey v i) = v := by
  rw [logVersion, readLogVersion_logKey hv]
  rfl

theorem logRow_of_between (holds : Holds a rows) {after : Nat} {upto : Option Nat} {e : Row}
    (mem : e ∈ OrderedMap.between rows (logRange after upto).1 (logRange after upto).2) :
    ∃ v i, Logged a.history v i e.2 ∧ e.1 = logKey v i ∧ v < wordBound := by
  obtain ⟨found, lower, upper⟩ := OrderedMap.mem_between.1 mem
  obtain ⟨v, i, logged, same⟩ := holds.logged e (region_of_logRange lower upper) found
  exact ⟨v, i, logged, same, Nat.lt_of_le_of_lt logged.bounds.2 holds.length_lt⟩

theorem readLogVersion_of_between (holds : Holds a rows) {after : Nat} {upto : Option Nat}
    {e : Row} (mem : e ∈ OrderedMap.between rows (logRange after upto).1 (logRange after upto).2) :
    readLogVersion e.1 = .ok (logVersion e.1) := by
  obtain ⟨v, i, _, same, bound⟩ := logRow_of_between holds mem
  rw [same, logVersion_logKey bound, readLogVersion_logKey bound]

theorem mem_logSince_iff (holds : Holds a rows) {v u : Nat} {key : Bytes} (hv : a.horizon ≤ v)
    (after : v < u) : (u, key) ∈ logSince rows v ↔ ∃ i, Logged a.history u i key := by
  rw [logSince, List.mem_map]
  constructor
  · rintro ⟨e, mem, same⟩
    obtain ⟨w, i, logged, raw, bound⟩ := logRow_of_between holds mem
    rw [raw, logVersion_logKey bound, Prod.mk.injEq] at same
    obtain ⟨rfl, rfl⟩ := same
    exact ⟨i, logged⟩
  · rintro ⟨i, logged⟩
    have bound := Nat.lt_of_le_of_lt logged.bounds.2 holds.length_lt
    have found := holds.log u i key logged (Nat.lt_of_le_of_lt hv after)
    have inside := (logRange_iff none bound (mod_placeBound_lt i) (by simp)).2
      ⟨Nat.le_trans (Nat.min_le_left (v + 1) _) after, by simp⟩
    rw [logKey_mod] at inside
    exact ⟨(logKey u i, key), OrderedMap.mem_between.2 ⟨found, inside.1, inside.2⟩,
      by rw [logVersion_logKey bound]⟩

theorem pairwise_logSince (holds : Holds a rows) {v : Nat} (fits : a.history.FitsSince v) :
    ((logSince rows v).filter (v < ·.1)).Pairwise History.LogLt := by
  rw [logSince, List.filter_map, List.pairwise_map]
  refine List.Pairwise.imp_of_mem ?_
    ((rows.pairwise_between (logRange v none).1 (logRange v none).2).sublist List.filter_sublist)
  intro e f he hf lt
  obtain ⟨he, later⟩ := List.mem_filter.1 he
  obtain ⟨hf, later'⟩ := List.mem_filter.1 hf
  obtain ⟨u, i, first, raw, hu⟩ := logRow_of_between holds he
  obtain ⟨w, j, second, raw', hw⟩ := logRow_of_between holds hf
  rw [Function.comp_apply, decide_eq_true_eq, raw, logVersion_logKey hu] at later
  rw [Function.comp_apply, decide_eq_true_eq, raw', logVersion_logKey hw] at later'
  have hi := first.place_lt fun _ => fits.size_le later
  have hj := second.place_lt fun _ => fits.size_le later'
  rw [raw, raw', logVersion_logKey hu, logVersion_logKey hw]
  rw [raw, raw', logKey_lt_logKey_iff hu hw hi hj] at lt
  rcases lt with lt | ⟨rfl, lt⟩
  · exact .inl lt
  · obtain ⟨c, hc, hi, _⟩ := first
    obtain ⟨d, hd, hj, _⟩ := second
    obtain rfl : c = d := Option.some.inj (hc.symm.trans hd)
    obtain ⟨ilen, hi⟩ := List.getElem?_eq_some_iff.1 hi
    obtain ⟨jlen, hj⟩ := List.getElem?_eq_some_iff.1 hj
    have keys := List.pairwise_iff_getElem.1 c.pairwise_keys i j ilen jlen lt
    rw [hi, hj] at keys
    exact .inr ⟨rfl, keys⟩

/-- A registration is validated as if the log had never been pruned. -/
theorem validate_logSince (holds : Holds a rows) {r : Registration} (hr : r ∈ a.running)
    (fits : a.history.FitsSince r.readVersion) (reads : ReadFootprint) :
    reads.validate r.readVersion (logSince rows r.readVersion) =
      reads.validate r.readVersion a.history.log := by
  apply ReadFootprint.validate_congr
  apply History.log_eq_of_mem_iff
  · exact pairwise_logSince holds fits
  · exact a.history.pairwise_log.sublist List.filter_sublist
  · rintro ⟨u, key⟩
    rw [List.mem_filter, List.mem_filter]
    refine and_congr_left fun after => ?_
    have after : r.readVersion < u := of_decide_eq_true after
    rw [mem_logSince_iff holds (holds.sound.horizon_le hr) after]
    exact ⟨fun ⟨_, logged⟩ => logged.mem_log,
      fun mem => exists_logged mem fun _ => fits.size_le after⟩

theorem validate_logSince_eq_ok_iff (holds : Holds a rows) {r : Registration} (hr : r ∈ a.running)
    (reads : ReadFootprint) :
    reads.validate r.readVersion (logSince rows r.readVersion) = .ok () ↔
      ∀ v i key, r.readVersion < v → Logged a.history v i key → reads.covers key = false := by
  have behind := holds.sound.horizon_le hr
  rw [reads.validate_eq_ok_iff]
  constructor
  · intro unread v i key later logged
    exact unread (v, key) ((mem_logSince_iff holds behind later).2 ⟨i, logged⟩) later
  · rintro unread ⟨v, key⟩ mem later
    obtain ⟨i, logged⟩ := (mem_logSince_iff holds behind later).1 mem
    exact unread v i key later logged

/-! ### Commit -/

section Commit
variable {r : Registration} {reads : ReadFootprint} {w : WriteSet}

theorem does_commit_unregistered (holds : Holds a rows)
    (unregistered : (rows.get? (ledgerKey r)).isNone) :
    Does (commit config r reads w) rows (.error (.conflict r.readVersion a.history.length []))
      rows := by
  refine (does_readVersion holds).bind ((does_get _).bind ?_)
  rw [if_pos unregistered]
  exact (does_fail _).bind_error

theorem does_commit {outcome : Except Error Nat} {rows' : RawRows} (holds : Holds a rows)
    (pos : 0 < config.pageSize) (registered : (rows.get? (ledgerKey r)).isSome)
    (rest : Does (do
      Access.ofExcept (reads.validate r.readVersion (logSince rows r.readVersion))
      let version ← successor a.history.length
      Device.write (commitBatch version w)
      return version) rows outcome rows') :
    Does (commit config r reads w) rows outcome rows' := by
  have decoded_log := mapM_eq_ok (f := readLogRow) (g := fun e => (logVersion e.1, e.2))
    (l := OrderedMap.between rows (logRange r.readVersion none).1 (logRange r.readVersion none).2)
    fun e he => by rw [readLogRow, readLogVersion_of_between holds he]; rfl
  refine (does_readVersion holds).bind ((does_get _).bind ?_)
  have known : ¬ (rows.get? (ledgerKey r)).isNone := by
    rw [Option.isNone_iff_eq_none]
    intro absent
    simp [absent] at registered
  rw [if_neg known]
  refine (does_scanAll pos rows _).bind ?_
  exact (does_decoded decoded_log).bind rest

theorem does_commit_error {e : Error} (holds : Holds a rows) (pos : 0 < config.pageSize)
    (registered : (rows.get? (ledgerKey r)).isSome)
    (refused : reads.validate r.readVersion (logSince rows r.readVersion) = .error e) :
    Does (commit config r reads w) rows (.error e) rows := by
  refine does_commit holds pos registered ?_
  rw [refused]
  exact (does_fail e).bind_error

theorem does_commit_full (holds : Holds a rows) (pos : 0 < config.pageSize)
    (registered : (rows.get? (ledgerKey r)).isSome)
    (valid : reads.validate r.readVersion (logSince rows r.readVersion) = .ok ())
    (full : ¬ a.history.length + 1 < wordBound) :
    Does (commit config r reads w) rows (.error (.storage .counterFull)) rows := by
  refine does_commit holds pos registered ?_
  rw [valid]
  exact (does_pure ()).bind (does_successor_full full).bind_error

theorem does_commit_put (holds : Holds a rows) (pos : 0 < config.pageSize)
    (registered : (rows.get? (ledgerKey r)).isSome)
    (valid : reads.validate r.readVersion (logSince rows r.readVersion) = .ok ())
    (room : a.history.length + 1 < wordBound) :
    Does (commit config r reads w) rows (.ok (a.history.length + 1))
      (rows.apply (commitBatch (a.history.length + 1) w)) := by
  refine does_commit holds pos registered ?_
  rw [valid]
  exact (does_pure ()).bind ((does_successor room).bind ((does_write _).bind (does_pure _)))

theorem does_commit_ok (holds : Holds a rows) (pos : 0 < config.pageSize)
    (registered : (rows.get? (ledgerKey r)).isSome)
    (valid : reads.validate r.readVersion (logSince rows r.readVersion) = .ok ())
    (room : a.history.length + 1 < wordBound) :
    ∃ rows', Does (commit config r reads w) rows (.ok (a.history.length + 1)) rows' ∧
      Holds (a.committed w) rows' := by
  obtain ⟨s, hs, _⟩ := (holds.registered_iff r).1 registered
  exact ⟨_, does_commit_put holds pos registered valid room, holds.committed hs room w⟩

/-- A commit makes one version or leaves every row as it was. -/
theorem commit_cases (holds : Holds a rows) (pos : 0 < config.pageSize) (r : Registration)
    (reads : ReadFootprint) (w : WriteSet) :
    ((rows.get? (ledgerKey r)).isSome = false ∧
      Does (commit config r reads w) rows
        (.error (.conflict r.readVersion a.history.length [])) rows) ∨
    (∃ e, reads.validate r.readVersion (logSince rows r.readVersion) = .error e ∧
      Does (commit config r reads w) rows (.error e) rows) ∨
    (reads.validate r.readVersion (logSince rows r.readVersion) = .ok () ∧
      ¬ a.history.length + 1 < wordBound ∧
      Does (commit config r reads w) rows (.error (.storage .counterFull)) rows) ∨
    ((rows.get? (ledgerKey r)).isSome = true ∧
      reads.validate r.readVersion (logSince rows r.readVersion) = .ok () ∧
      ∃ rows', Does (commit config r reads w) rows (.ok (a.history.length + 1)) rows' ∧
        Holds (a.committed w) rows') := by
  by_cases registered : (rows.get? (ledgerKey r)).isSome
  · cases valid : reads.validate r.readVersion (logSince rows r.readVersion) with
    | error e => exact .inr (.inl ⟨e, rfl, does_commit_error holds pos registered valid⟩)
    | ok =>
      by_cases room : a.history.length + 1 < wordBound
      · exact .inr (.inr (.inr ⟨registered, rfl, does_commit_ok holds pos registered valid room⟩))
      · exact .inr (.inr (.inl ⟨rfl, room, does_commit_full holds pos registered valid room⟩))
  · have unregistered : (rows.get? (ledgerKey r)).isNone := by simpa using registered
    exact .inl ⟨Bool.eq_false_iff.2 registered, does_commit_unregistered holds unregistered⟩

/-- As long as versions are left, a running attempt is refused by its validation alone. -/
theorem commit_cases_of_mem (holds : Holds a rows) (pos : 0 < config.pageSize)
    (hr : r ∈ a.running) (room : a.history.length + 1 < wordBound) (reads : ReadFootprint)
    (w : WriteSet) :
    (∃ e, reads.validate r.readVersion (logSince rows r.readVersion) = .error e ∧
      Does (commit config r reads w) rows (.error e) rows) ∨
    (reads.validate r.readVersion (logSince rows r.readVersion) = .ok () ∧
      ∃ rows', Does (commit config r reads w) rows (.ok (a.history.length + 1)) rows' ∧
        Holds (a.committed w) rows') := by
  have registered := (holds.registered_iff r).2 ⟨r, hr, rfl⟩
  cases valid : reads.validate r.readVersion (logSince rows r.readVersion) with
  | error e => exact .inl ⟨e, rfl, does_commit_error holds pos registered valid⟩
  | ok => exact .inr ⟨rfl, does_commit_ok holds pos registered valid room⟩

end Commit

/-! ### The ledger -/

def ledgerRow (rows : RawRows) (r : Registration) : LedgerRow :=
  ⟨ledgerKey r, r, Bytes.toNat ((rows.get? (ledgerKey r)).getD [])⟩

def lapsed (config : Config) (now : Nat) (rows : RawRows) (r : Registration) : Bool :=
  (ledgerRow rows r).expired config now

theorem ledger_eq (holds : Holds a rows) :
    OrderedMap.between rows ledgerRange.1 ledgerRange.2 =
      a.running.map fun r => (ledgerKey r, (rows.get? (ledgerKey r)).getD []) := by
  apply entries_eq_of_mem_iff (rows.pairwise_between _ _)
  · rw [List.pairwise_map]
    refine holds.sound.ordered.imp_of_mem ?_
    intro r s hr hs before
    refine (ledgerKey_lt_ledgerKey_iff (holds.fits hr) (holds.fits hs)).2 ?_
    rcases Nat.lt_or_eq_of_le before.1 with lt | eq
    · exact .inl lt
    · exact .inr ⟨eq, before.2⟩
  · intro e
    rw [OrderedMap.mem_between, ledgerRange_iff, List.mem_map]
    constructor
    · rintro ⟨found, at_ledger⟩
      obtain ⟨r, hr, raw⟩ := (holds.ledger e.1 at_ledger).1 (by rw [found]; rfl)
      refine ⟨r, hr, ?_⟩
      rw [← raw, found]
      rfl
    · rintro ⟨r, hr, rfl⟩
      obtain ⟨value, found⟩ := Option.isSome_iff_exists.1
        ((holds.ledger (ledgerKey r) rfl).2 ⟨r, hr, rfl⟩)
      simp [found]

theorem readLedger_eq (holds : Holds a rows) :
    (OrderedMap.between rows ledgerRange.1 ledgerRange.2).mapM readLedgerRow =
      .ok (a.running.map (ledgerRow rows)) := by
  rw [ledger_eq holds, List.mapM_map]
  apply mapM_eq_ok
  intro r hr
  obtain ⟨value, found⟩ := Option.isSome_iff_exists.1
    ((holds.ledger (ledgerKey r) rfl).2 ⟨r, hr, rfl⟩)
  have width := holds.heartbeats (ledgerKey r, value) rfl found
  simp only [Function.comp_apply, readLedgerRow, readLedgerKey_ledgerKey (holds.fits hr), found,
    Option.getD_some, readCell, if_pos width, ledgerRow]
  rfl

theorem ledgerOf_eq_running (holds : Holds a rows) :
    LedgerReadable rows ∧ ledgerOf rows = a.running.map (ledgerRow rows) := by
  rcases readLedger_cases rows with ⟨readable, read⟩ | ⟨_, defect, failed⟩
  · rw [readLedger_eq holds] at read
    exact ⟨readable, (Except.ok.inj read).symm⟩
  · rw [readLedger_eq holds] at failed
    cases failed

theorem pruneHorizon_eq_horizon (holds : Holds a rows) (config : Config) (now : Nat) :
    pruneHorizon config now a.history.length rows =
      (a.restrict fun r => !lapsed config now rows r).horizon := by
  rw [pruneHorizon, (ledgerOf_eq_running holds).2, List.filter_map, List.head?_map,
    Option.map_map]
  rfl

/-- Raw keys that may be deleted once only these registrations are kept: their ledger rows stay,
and so does the log above what they read. The ledger rows of all others are among them. -/
structure Sheds (a : Standing) (keep : Registration → Bool) (dropped : List Bytes) : Prop where
  dispensable : ∀ raw ∈ dropped,
    region raw = some 4 ∧ (∀ s ∈ a.running, keep s = true → raw ≠ ledgerKey s) ∨
    region raw = some 3 ∧ ∀ v i, (a.restrict keep).horizon < v → v < wordBound → i < placeBound →
      raw ≠ logKey v i
  gone : ∀ s ∈ a.running, keep s = false → ledgerKey s ∈ dropped

theorem Holds.sheds {keep : Registration → Bool} {dropped : List Bytes} (holds : Holds a rows)
    (sheds : Sheds a keep dropped) : Holds (a.restrict keep) (rows.apply (dropped.map .delete)) :=
  holds.shed keep dropped sheds.dispensable sheds.gone

def Clears (rows : RawRows) (upto : Nat) (dropped : List Bytes) : Prop :=
  ∀ v i, v ≤ upto → (rows.get? (logKey v i)).isSome = true → logKey v i ∈ dropped

theorem does_prune_delete (holds : Holds a rows) (pos : 0 < config.pageSize) (now : Nat) :
    ∃ dropped, Sheds a (fun r => !lapsed config now rows r) dropped ∧
      Clears rows (a.restrict fun r => !lapsed config now rows r).horizon dropped ∧
      Does (prune config now a.history.length) rows (.ok ())
        (rows.apply (dropped.map .delete)) := by
  have listed {s : Registration} (hs : s ∈ a.running) : ledgerRow rows s ∈ ledgerOf rows := by
    rw [(ledgerOf_eq_running holds).2]
    exact List.mem_map_of_mem hs
  have horizon := pruneHorizon_eq_horizon holds config now
  rcases prune_cases config now a.history.length rows pos with ⟨_, does⟩ | ⟨unreadable, _⟩
  · refine ⟨_, ⟨fun raw mem => ?_, fun s hs late => ?_⟩, fun v i below found => ?_, does⟩
    · rcases region_of_pruned mem with ⟨ledger, row, there, rfl, late⟩ | ⟨log, _⟩
      · refine .inl ⟨ledger, fun s hs stays same => ?_⟩
        rw [lapsed, ← ledgerRow_unique there (listed hs) same, late] at stays
        cases stays
      · refine .inr ⟨log, fun v i above hv _ same => ?_⟩
        rw [same] at mem
        have old := (le_of_mem_pruned holds.length_lt (readLogVersion_logKey hv i) mem).2
        exact Nat.not_le_of_lt above (horizon ▸ old)
    · exact (mem_pruned_of_ledger config now _ (listed hs)).2 (by simpa [lapsed] using late)
    · obtain ⟨key, found⟩ := Option.isSome_iff_exists.1 found
      obtain ⟨u, j, logged, same⟩ := holds.logged (logKey v i, key) rfl found
      have hu : u < wordBound := Nat.lt_of_le_of_lt logged.bounds.2 holds.length_lt
      rw [← horizon] at below
      have hv := Nat.lt_of_le_of_lt below (pruneHorizon_lt holds.length_lt)
      obtain rfl : v = u := Decidable.byContradiction fun ne => logKey_ne_of_ne hv hu ne i j same
      exact (mem_pruned_of_log config now holds.length_lt (readLogVersion_logKey hv i)
        ((rows.get?_eq_some_iff _ _).1 found)).2 ⟨logged.bounds.1, below⟩
  · exact absurd (ledgerOf_eq_running holds).1 unreadable

theorem does_prune (holds : Holds a rows) (pos : 0 < config.pageSize) (now : Nat) :
    ∃ rows', Does (prune config now a.history.length) rows (.ok ()) rows' ∧
      Holds (a.restrict fun r => !lapsed config now rows r) rows' := by
  obtain ⟨dropped, sheds, _, does⟩ := does_prune_delete holds pos now
  exact ⟨_, does, holds.sheds sheds⟩

theorem sheds_ledgerKey (a : Standing) (r : Registration) :
    Sheds a (fun s => ledgerKey s ≠ ledgerKey r) [ledgerKey r] where
  dispensable raw mem := by
    obtain rfl := List.mem_singleton.1 mem
    exact .inl ⟨rfl, fun s _ stays same => by simp [same] at stays⟩
  gone s _ ends := by simpa using ends

theorem Holds.withdrawn (holds : Holds a rows) (r : Registration) :
    Holds (a.restrict fun s => ledgerKey s ≠ ledgerKey r)
      (rows.apply [.delete (ledgerKey r)]) := holds.sheds (sheds_ledgerKey a r)

theorem does_finish_delete (holds : Holds a rows) (pos : 0 < config.pageSize) (now : Nat)
    (r : Registration) :
    ∃ dropped, Sheds (a.restrict fun s => ledgerKey s ≠ ledgerKey r)
        (fun s => !lapsed config now (rows.apply [.delete (ledgerKey r)]) s) dropped ∧
      Clears (rows.apply [.delete (ledgerKey r)])
        ((a.restrict fun s => ledgerKey s ≠ ledgerKey r).restrict
          fun s => !lapsed config now (rows.apply [.delete (ledgerKey r)]) s).horizon dropped ∧
      Does (finish config now r) rows (.ok ())
        ((rows.apply [.delete (ledgerKey r)]).apply (dropped.map .delete)) := by
  have withdrawn := holds.withdrawn r
  obtain ⟨dropped, sheds, clears, does⟩ := does_prune_delete withdrawn pos now
  refine ⟨dropped, sheds, clears, ?_⟩
  exact (does_write [.delete (ledgerKey r)]).bind ((does_readVersion withdrawn).bind does)

theorem does_finish (holds : Holds a rows) (pos : 0 < config.pageSize) (now : Nat)
    (r : Registration) :
    ∃ rows', Does (finish config now r) rows (.ok ()) rows' ∧
      Holds (a.restrict fun s => ledgerKey s ≠ ledgerKey r && !lapsed config now rows s) rows' := by
  obtain ⟨dropped, sheds, _, does⟩ := does_finish_delete holds pos now r
  have after := (holds.withdrawn r).sheds sheds
  refine ⟨_, does, ?_⟩
  have same : (a.restrict fun s => ledgerKey s ≠ ledgerKey r).restrict
      (fun s => !lapsed config now (rows.apply [.delete (ledgerKey r)]) s) =
      a.restrict fun s => ledgerKey s ≠ ledgerKey r && !lapsed config now rows s := by
    simp only [Standing.restrict, List.filter_filter, Standing.mk.injEq, true_and, and_true]
    apply List.filter_congr
    intro s _
    by_cases other : ledgerKey s = ledgerKey r
    · simp [other]
    · have stays : (rows.apply [.delete (ledgerKey r)]).get? (ledgerKey s) =
          rows.get? (ledgerKey s) :=
        (rows.get?_apply_delete [ledgerKey r] (ledgerKey s)).trans (if_neg (by simpa using other))
      simp only [lapsed, ledgerRow, stays]
      simp [other]
  rw [same] at after
  exact after

def loggedVersions (rows : RawRows) : List Nat :=
  (OrderedMap.between rows (logRange 0 none).1 (logRange 0 none).2).map fun e => logVersion e.1

theorem does_stats (holds : Holds a rows) (pos : 0 < config.pageSize) :
    Does (stats config) rows
      (.ok ⟨a.history.length, (loggedVersions rows).eraseReps.length, a.running.length⟩) rows := by
  refine (does_readVersion holds).bind ((does_scanAll pos rows _).bind ?_)
  refine (does_decoded (mapM_eq_ok fun e he => readLogVersion_of_between holds he)).bind ?_
  refine (does_scanAll pos rows _).bind ?_
  rw [ledger_eq holds, List.length_map]
  exact does_pure _

end Durable
end OptimisticStore
