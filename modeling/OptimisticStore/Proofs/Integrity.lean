import OptimisticStore.Proofs.Crowding
import OptimisticStore.Proofs.Faults

/-! What the raw rows of a durable store say of one another, whatever calls of its device fail.
A client serves any requests, reopening included; a failed call changes no row, and all other
calls lead from one standing to another. So the counters bound what the other regions name, data
rows stay for ever, and for a registration in the ledger the log above its read version is whole:
nothing that its commit has to be checked against has been pruned. It lacks nothing else either,
unless a commit wrote more keys than there are places for. -/

namespace OptimisticStore

namespace Durable
open Device Layout

def Stores (h : History) (d : Device) : Prop := ∃ a, a.history = h ∧ Holds a d.rows

theorem stores_of_empty {d : Device} (empty : d.rows = ∅) : Stores [] d :=
  ⟨{}, rfl, empty ▸ .empty⟩

section Stores
variable {config : Config} {h : History} {d : Device} (stores : Stores h d)
include stores

theorem Stores.of_rows {d' : Device} (same : d'.rows = d.rows) : Stores h d' := by
  obtain ⟨a, rfl, holds⟩ := stores
  exact ⟨a, rfl, same ▸ holds⟩

theorem Stores.readsOnly {α : Type} {x : Access Device α} (reads : ReadsOnly x) :
    Stores h (x d).2 := stores.of_rows (reads.unchanged d)

theorem Stores.begin (config : Config) (now : Nat) :
    Stores h (Durable.begin config now d).2 := by
  obtain ⟨a, rfl, holds⟩ := stores
  rcases begin_cases config holds now with ⟨e, _, kept⟩ | ⟨_, after⟩
  · exact ⟨a, rfl, kept ▸ holds⟩
  · exact ⟨a.begun, rfl, after⟩

theorem Stores.heartbeat (now : Nat) (r : Registration) :
    Stores h (Durable.heartbeat now r d).2 := by
  obtain ⟨a, rfl, holds⟩ := stores
  exact ⟨a, rfl, holds.heartbeat_any now r⟩

theorem Stores.finish (pos : 0 < config.pageSize) (now : Nat) (r : Registration) :
    Stores h (Durable.finish config now r d).2 := by
  obtain ⟨a, rfl, holds⟩ := stores
  obtain ⟨keep, after⟩ := finish_any holds pos now r
  exact ⟨a.restrict keep, rfl, after⟩

/-- A commit is in the history from the moment that it is answered with success, and else never. -/
theorem Stores.commit (pos : 0 < config.pageSize) (r : Registration) (reads : ReadFootprint)
    (w : WriteSet) :
    (∃ e, (Durable.commit config r reads w d).1 = .error e ∧
        Stores h (Durable.commit config r reads w d).2) ∨
      (Durable.commit config r reads w d).1 = .ok (h.length + 1) ∧
        Stores (h ++ [w]) (Durable.commit config r reads w d).2 := by
  obtain ⟨a, rfl, holds⟩ := stores
  rcases commit_any holds pos r reads w with ⟨e, failed, kept⟩ | ⟨done, after⟩
  · exact .inl ⟨e, failed, a, rfl, kept ▸ holds⟩
  · exact .inr ⟨done, a.committed w, rfl, after⟩

end Stores

/-- What is so of the commits and their device through whatever a store does. -/
structure Upholds (P : History → Device → Prop) : Prop where
  /-- Nothing but the rows counts, and that a device which never fails goes on so. -/
  rows {h d d'} : P h d → d'.rows = d.rows → (d.Faultless → d'.Faultless) → P h d'
  begin {h d} config now : P h d → P h (Durable.begin config now d).2
  heartbeat {h d} now r : P h d → P h (Durable.heartbeat now r d).2
  finish {config h d} now r : 0 < config.pageSize → P h d → P h (Durable.finish config now r d).2
  commit {config h d} r reads w : 0 < config.pageSize → P h d →
    (∃ e, (Durable.commit config r reads w d).1 = .error e ∧
        P h (Durable.commit config r reads w d).2) ∨
      (∃ v, (Durable.commit config r reads w d).1 = .ok v) ∧
        P (h ++ [w]) (Durable.commit config r reads w d).2

theorem upholds_stores : Upholds Stores where
  rows stores same _ := stores.of_rows same
  begin config now stores := stores.begin config now
  heartbeat now r stores := stores.heartbeat now r
  finish now r pos stores := stores.finish pos now r
  commit r reads w pos stores :=
    (stores.commit pos r reads w).imp_right fun ⟨done, after⟩ => ⟨⟨_, done⟩, after⟩

section Upholds
variable {P : History → Device → Prop} (upholds : Upholds P) {h : History}
include upholds

theorem Upholds.readsOnly {α : Type} {x : Access Device α} {d : Device} (reads : ReadsOnly x)
    (kept : P h d) : P h (x d).2 :=
  upholds.rows kept (reads.unchanged d) (reads.faultless d)

theorem Upholds.collect {config : Config} {d : Device} (gate : Option Error) (fuel : Nat)
    (c : Option Cursor) (kept : P h d) : P h ((backend config).collect gate fuel c d).2 := by
  induction fuel generalizing c d with
  | zero => exact kept
  | succ fuel ih =>
    have kept : P h ((backend config).poll gate c d).2.2 :=
      upholds.rows kept (Cursor.rows_poll gate c d) (Cursor.faultless_poll gate c d)
    rw [Backend.collect]
    rcases polled : (backend config).poll gate c d with ⟨_ | e | row, c', d'⟩ <;>
      rw [polled] at kept <;> simp only [polled]
    · exact kept
    · exact kept
    · have rest := ih c' kept
      rw [Access.bind_apply]
      rcases collected : (backend config).collect gate fuel c' d' with ⟨_ | _, _⟩ <;>
        rw [collected] at rest <;> exact rest

end Upholds

inductive Upheld (P : History → Device → Prop) (h : History) :
    Client Device Snapshot (Option Cursor) → Prop
  | intro {config : Config} {d : Device} {snapshots : List Snapshot} (pos : 0 < config.pageSize)
      (kept : P h d) : Upheld P h
        ⟨backend config, fun config => do return backend (← openStore config), d, snapshots⟩

variable {P : History → Device → Prop} {h : History} {c : Client Device Snapshot (Option Cursor)}

theorem pageSize_pos_of_openStore {config config' : Config} {d d' : Device}
    (ran : openStore config d = (.ok config', d')) : 0 < config'.pageSize := by
  rw [openStore, Access.bind_apply] at ran
  rcases read : readVersion d with ⟨_ | _, d''⟩ <;> rw [read] at ran <;> cases ran
  exact Nat.le_max_right _ _

theorem Upheld.device (upheld : Upheld P h c) : P h c.medium := by
  obtain @⟨_, _, _, _, kept⟩ := upheld
  exact kept

theorem Upheld.silent {one : Request × Reply} (upheld : Upheld P h c)
    (silent : written one = none) : Upheld P (h ++ (written one).toList) c := by
  rw [silent, Option.toList_none, List.append_nil]
  exact upheld

theorem Upheld.serve (upholds : Upholds P) (upheld : Upheld P h c) (q : Request) :
    Upheld P (h ++ (written (q, (c.serve q).1)).toList) (c.serve q).2 := by
  obtain @⟨config, d, snapshots, pos, kept⟩ := upheld
  have by_access {α : Type} {x : Access Device α} (after : P h (x d).2) :
      Upheld P h ⟨backend config, fun config => do return backend (← openStore config), (x d).2,
        snapshots⟩ := .intro pos after
  cases q with
  | begin now =>
    have after := upholds.begin config now kept
    have begun : (backend config).begin now d = begin config now d := rfl
    rcases ran : begin config now d with ⟨e | ⟨r, s⟩, d'⟩ <;> rw [ran] at after begun <;>
      simp only [Client.serve, begun]
    · exact Upheld.silent (.intro pos after) rfl
    · exact Upheld.silent (.intro pos after) rfl
  | heartbeat now r => exact (by_access (upholds.heartbeat now r kept)).silent rfl
  | commit r reads w =>
    have after := upholds.commit r reads w pos kept
    have answered : (backend config).commit r reads w d = commit config r reads w d := rfl
    simp only [Client.serve, Client.serveBy, answered]
    rcases after with ⟨e, failed, after⟩ | ⟨⟨v, done⟩, after⟩
    · rw [failed]
      exact (by_access after).silent rfl
    · rw [done]
      exact .intro pos after
  | finish now r => exact (by_access (upholds.finish now r pos kept)).silent rfl
  | abandon r => exact Upheld.silent (.intro pos kept) rfl
  | stats => exact (by_access (upholds.readsOnly (readsOnly_stats config) kept)).silent rfl
  | get n key =>
    rw [Client.serve]
    dsimp only
    split
    · exact Upheld.silent (.intro pos kept) rfl
    · next s _ =>
      exact (by_access (upholds.readsOnly (readsOnly_snapshotGet s key) kept)).silent rfl
  | query n condition =>
    rw [Client.serve]
    dsimp only
    split
    · exact Upheld.silent (.intro pos kept) rfl
    · next s _ =>
      have after : P h ((backend config).rows none s condition d).2 :=
        upholds.collect none _ _ kept
      exact (by_access after).silent rfl
  | reopen config' =>
    have after := upholds.readsOnly (readsOnly_openStore config') kept
    have opened {r : Except Error Config} {d' : Device} (ran : openStore config' d = (r, d')) :
        ((do return backend (← openStore config') : Access Device _) d) =
          (r.map backend, d') := by
      rw [Access.bind_apply, ran]
      cases r <;> rfl
    rcases ran : openStore config' d with ⟨e | config'', d'⟩ <;> rw [ran] at after <;>
      simp only [Client.serve, opened ran]
    · exact Upheld.silent (.intro pos after) rfl
    · exact Upheld.silent (.intro (pageSize_pos_of_openStore ran) after) rfl

theorem Upheld.run (upholds : Upholds P) (upheld : Upheld P h c) (qs : List Request) :
    Upheld P (h ++ c.history qs) (c.after qs) := by
  induction qs generalizing h c with
  | nil => exact (List.append_nil h).symm ▸ upheld
  | cons q qs ih =>
    have whole : c.history (q :: qs) =
        (written (q, (c.serve q).1)).toList ++ (c.serve q).2.history qs := commits_cons _ _
    rw [whole, ← List.append_assoc]
    exact ih (upheld.serve upholds q)

def Endures (h : History) (c : Client Device Snapshot (Option Cursor)) : Prop :=
  Upheld Stores h c

theorem Endures.run (endures : Endures h c) (qs : List Request) :
    Endures (h ++ c.history qs) (c.after qs) := Upheld.run upholds_stores endures qs

def clientOn (config : Config) (d : Device) : Client Device Snapshot (Option Cursor) :=
  { client config with medium := { d with rows := ∅ } }

theorem endures_clientOn (config : Config) (d : Device) (qs : List Request) :
    Endures ((clientOn config d).history qs) ((clientOn config d).after qs) := by
  have fresh : Endures [] (clientOn config d) :=
    .intro (Nat.le_max_right _ _) (stores_of_empty rfl)
  exact fresh.run qs

/-! ### What the rows say -/

def logOf (rows : RawRows) (v : Nat) : List Row :=
  rows.toList.filter fun e => (readLogVersion e.1).toOption = some v

/-- Rows that fit together and keep these commits, told by reading them back. -/
structure Intact (h : History) (rows : RawRows) : Prop where
  version : Counts rows versionKey h.length
  data_le : ∀ e ∈ rows.toList, ∀ k v mark, readDataKey e.1 = .ok (k, v, mark) → v ≤ h.length
  log_le : ∀ e ∈ rows.toList, ∀ v, readLogVersion e.1 = .ok v → v ≤ h.length
  ledger_le : ∀ e ∈ rows.toList, ∀ r, readLedgerKey e.1 = .ok r → r.readVersion ≤ h.length
  /-- A key has one row for each version that wrote it, with or without a mark of deletion. -/
  data_once : ∀ e ∈ rows.toList, ∀ f ∈ rows.toList, ∀ k v mark mark',
    readDataKey e.1 = .ok (k, v, mark) → readDataKey f.1 = .ok (k, v, mark') → e = f
  lastTxnId : ∃ last, Counts rows txnIdKey last ∧
    ∀ e ∈ rows.toList, ∀ r, readLedgerKey e.1 = .ok r → r.txnId ≤ last
  ledger_once : ∀ e ∈ rows.toList, ∀ f ∈ rows.toList, ∀ r s,
    readLedgerKey e.1 = .ok r → readLedgerKey f.1 = .ok s → r.txnId = s.txnId → e = f
  /-- Above the read version of a registration that is left, the log has the last places of each
  commit: as many as can be told apart. -/
  log_last : ∀ e ∈ rows.toList, ∀ r, readLedgerKey e.1 = .ok r →
    ∀ v w, r.readVersion < v → h.commit? v = some w → ∀ f, f ∈ logOf rows v ↔
      ∃ place key, w.keys[place]? = some key ∧ w.size ≤ place + placeBound ∧
        f = (logKey v place, key)
  /-- These are all places, unless the commit wrote more keys than that. -/
  log_whole : ∀ e ∈ rows.toList, ∀ r, readLedgerKey e.1 = .ok r →
    ∀ v w, r.readVersion < v → h.commit? v = some w → w.keys.Pairwise (· < ·) ∧
      (w.size ≤ placeBound →
        logOf rows v = w.keys.zipIdx.map fun (key, place) => (logKey v place, key))
  /-- What was written has its data row, of whichever version. -/
  data_whole : ∀ v w, h.commit? v = some w →
    ∀ x ∈ w.entries, (dataKey x.1 v x.2.isNone, x.2.getD []) ∈ rows.toList

section Intact
variable {a : Standing} {rows : RawRows} (holds : Holds a rows)
include holds

theorem Holds.data_of_mem {e : Row} (mem : e ∈ rows.toList) {k : Bytes} {v : Nat} {mark : Bool}
    (read : readDataKey e.1 = .ok (k, v, mark)) :
    ∃ x, a.history.Wrote v k x ∧ e = (dataKey k v x.isNone, x.getD []) := by
  have found := (rows.get?_eq_some_iff e.1 e.2).2 mem
  obtain ⟨u, l, x, wrote, rfl⟩ := (holds.data e (region_of_readDataKey read)).1 found
  have small := Nat.lt_of_le_of_lt wrote.bounds.2 holds.length_lt
  rw [readDataKey_dataKey l small] at read
  cases read
  exact ⟨x, wrote, rfl⟩

theorem Holds.log_of_mem {e : Row} (mem : e ∈ rows.toList) {v : Nat}
    (read : readLogVersion e.1 = .ok v) :
    ∃ i, Logged a.history v i e.2 ∧ e.1 = logKey v i := by
  have found := (rows.get?_eq_some_iff e.1 e.2).2 mem
  obtain ⟨u, i, logged, same⟩ := holds.logged e (region_of_readLogVersion read) found
  have small := Nat.lt_of_le_of_lt logged.bounds.2 holds.length_lt
  rw [same, readLogVersion_logKey small] at read
  cases read
  exact ⟨i, logged, same⟩

theorem Holds.ledger_of_mem {e : Row} (mem : e ∈ rows.toList) {r : Registration}
    (read : readLedgerKey e.1 = .ok r) : r ∈ a.running ∧ e.1 = ledgerKey r := by
  have found := (rows.get?_eq_some_iff e.1 e.2).2 mem
  obtain ⟨s, hs, same⟩ :=
    (holds.ledger e.1 (region_of_readLedgerKey read)).1 (found ▸ rfl)
  rw [same, readLedgerKey_ledgerKey (holds.fits hs)] at read
  cases read
  exact ⟨hs, same⟩

theorem Holds.mem_logOf {v : Nat} (above : a.horizon < v) {w : WriteSet}
    (commit : a.history.commit? v = some w) (e : Row) :
    e ∈ logOf rows v ↔ ∃ place key, w.keys[place]? = some key ∧ w.size ≤ place + placeBound ∧
      e = (logKey v place, key) := by
  have small : v < wordBound :=
    Nat.lt_of_le_of_lt (History.le_length_of_commit? commit).2 holds.length_lt
  rw [logOf, List.mem_filter]
  constructor
  · rintro ⟨mem, read⟩
    have read : readLogVersion e.1 = .ok v := by
      cases version : readLogVersion e.1 <;> simp_all [Except.toOption]
    obtain ⟨i, ⟨u, there, place, last⟩, same⟩ := holds.log_of_mem mem read
    cases there.symm.trans commit
    exact ⟨i, e.2, place, last, Prod.ext same rfl⟩
  · rintro ⟨i, key, place, last, rfl⟩
    have found := holds.log v i key ⟨w, commit, place, last⟩ above
    refine ⟨(rows.get?_eq_some_iff _ _).1 found, ?_⟩
    simp [readLogVersion_logKey small, Except.toOption]

theorem Holds.logOf_eq {v : Nat} (above : a.horizon < v) {w : WriteSet}
    (commit : a.history.commit? v = some w) (fits : w.size ≤ placeBound) :
    logOf rows v = w.keys.zipIdx.map fun (key, place) => (logKey v place, key) := by
  have small : v < wordBound :=
    Nat.lt_of_le_of_lt (History.le_length_of_commit? commit).2 holds.length_lt
  apply entries_eq_of_mem_iff
  · exact rows.pairwise_toList.sublist List.filter_sublist
  · rw [List.pairwise_map]
    refine List.pairwise_iff_getElem.2 fun i j hi hj lt => ?_
    have width : w.keys.zipIdx.length ≤ placeBound := by
      rwa [List.length_zipIdx, WriteSet.keys, List.length_map, WriteSet.length_entries]
    simp only [List.getElem_zipIdx, Nat.zero_add]
    exact (logKey_lt_logKey_iff small small (Nat.lt_of_lt_of_le hi width)
      (Nat.lt_of_lt_of_le hj width)).2 (.inr ⟨rfl, lt⟩)
  · intro e
    rw [holds.mem_logOf above commit, List.mem_map]
    constructor
    · rintro ⟨place, key, here, _, rfl⟩
      exact ⟨(key, place), List.mem_zipIdx_iff_getElem?.2 here, rfl⟩
    · rintro ⟨⟨key, place⟩, mem, rfl⟩
      exact ⟨place, key, List.mem_zipIdx_iff_getElem?.1 mem,
        Nat.le_trans fits (Nat.le_add_left _ _), rfl⟩

theorem Holds.intact : Intact a.history rows where
  version := holds.version
  data_le e mem k v mark read := by
    obtain ⟨x, wrote, _⟩ := holds.data_of_mem mem read
    exact wrote.bounds.2
  log_le e mem v read := by
    obtain ⟨i, logged, _⟩ := holds.log_of_mem mem read
    exact logged.bounds.2
  ledger_le e mem r read := (holds.sound.bounded r (holds.ledger_of_mem mem read).1).1
  data_once e he f hf k v mark mark' read read' := by
    obtain ⟨x, wrote, rfl⟩ := holds.data_of_mem he read
    obtain ⟨y, wrote', rfl⟩ := holds.data_of_mem hf read'
    rw [wrote.unique wrote']
  lastTxnId := ⟨a.lastTxnId, holds.lastTxnId, fun e mem r read =>
    (holds.sound.bounded r (holds.ledger_of_mem mem read).1).2⟩
  ledger_once e he f hf r s read read' same := by
    obtain ⟨hr, key⟩ := holds.ledger_of_mem he read
    obtain ⟨hs, key'⟩ := holds.ledger_of_mem hf read'
    obtain rfl : r = s := holds.sound.eq_of_txnId hr hs same
    have found := (rows.get?_eq_some_iff e.1 e.2).2 he
    rw [key, ← key', (rows.get?_eq_some_iff f.1 f.2).2 hf] at found
    exact Prod.ext (key.trans key'.symm) (Option.some.inj found).symm
  log_last e mem r read v w later commit := by
    have below := holds.sound.horizon_le (holds.ledger_of_mem mem read).1
    exact holds.mem_logOf (Nat.lt_of_le_of_lt below later) commit
  log_whole e mem r read v w later commit := by
    have below := holds.sound.horizon_le (holds.ledger_of_mem mem read).1
    exact ⟨w.pairwise_keys, holds.logOf_eq (Nat.lt_of_le_of_lt below later) commit⟩
  data_whole v w commit x hx := by
    have row : DataRow a.history (dataKey x.1 v x.2.isNone, x.2.getD []) :=
      ⟨v, x.1, x.2, ⟨w, commit, hx⟩, rfl⟩
    exact (rows.get?_eq_some_iff _ _).1 ((holds.data _ (region_dataKey _ _ _)).2 row)

theorem Holds.data_kept {a' : Standing} {rows' : RawRows} (holds' : Holds a' rows')
    {t : History} (grown : a'.history = a.history ++ t) {e : Row} (mem : e ∈ rows.toList)
    (data : region e.1 = some 1) : e ∈ rows'.toList := by
  have found := (rows.get?_eq_some_iff e.1 e.2).2 mem
  obtain ⟨v, k, x, wrote, same⟩ := (holds.data e data).1 found
  have still : DataRow a'.history e :=
    ⟨v, k, x, grown ▸ (History.wrote_append_iff t wrote.bounds.2 k x).2 wrote, same⟩
  exact (rows'.get?_eq_some_iff e.1 e.2).1 ((holds'.data e data).2 still)

end Intact

theorem Endures.exists_holds (endures : Endures h c) :
    ∃ a, a.history = h ∧ Holds a c.medium.rows := Upheld.device endures

/-- After any requests, whichever calls of the device have failed, the rows are intact; and no
request that comes later removes a data row or changes it. -/
theorem rows_intact (config : Config) (d : Device) (qs qs' : List Request) :
    let c := clientOn config d
    let rows := (c.after qs).medium.rows
    Intact (c.history qs) rows ∧
      ∀ e ∈ rows.toList, region e.1 = some 1 →
        e ∈ ((c.after qs).after qs').medium.rows.toList := by
  have endures := endures_clientOn config d qs
  obtain ⟨a, same, holds⟩ := endures.exists_holds
  obtain ⟨a', grown, holds'⟩ := (endures.run qs').exists_holds
  dsimp only
  rw [← same] at grown ⊢
  exact ⟨holds.intact, fun e mem data => holds.data_kept holds' grown mem data⟩

section Overtaken
variable {w : WriteSet} {key : Bytes} {i : Nat}

theorem clientOn_new (config : Config) : clientOn config {} = client config := rfl

/-- A key whose place comes again in its commit has no log row, though a registration is left that
reads behind the commit. -/
theorem log_row_overwritten (place : w.keys[i]? = some key) (round : i + placeBound < w.size) :
    let rows := ((clientOn {} {}).after (overtaken w)).medium.rows
    (∃ e ∈ rows.toList, readLedgerKey e.1 = .ok ⟨0, 1⟩) ∧
      History.commit? ((clientOn {} {}).history (overtaken w)) 1 = some w ∧ key ∈ w.keys ∧
      ∀ e ∈ logOf rows 1, e.2 ≠ key := by
  rw [clientOn_new, (history_overtaken w).2]
  have holds := (matches_overtaken w).2.holds
  refine ⟨?_, rfl, List.mem_of_getElem? place, fun e mem same => ?_⟩
  · obtain ⟨value, found⟩ := Option.isSome_iff_exists.1
      ((holds.registered_iff ⟨0, 1⟩).2 ⟨_, List.mem_cons_self, rfl⟩)
    exact ⟨(ledgerKey ⟨0, 1⟩, value), (OrderedMap.get?_eq_some_iff _ _ _).1 found,
      readLedgerKey_ledgerKey ⟨by decide, by decide⟩⟩
  · obtain ⟨j, k, place', last, rfl⟩ := (holds.mem_logOf (v := 1) Nat.one_pos rfl e).1 mem
    obtain rfl : k = key := same
    exact not_logged_of_round (h := [w]) (v := 1) rfl place round ⟨j, w, rfl, place', last⟩

end Overtaken

/-- The log of a commit of one key more than there are places lacks the first key. -/
theorem crowded_log_row_lost :
    let w := WriteSet.ofList (crowd placeBound)
    let rows := ((clientOn {} {}).after (overtaken w)).medium.rows
    (∃ e ∈ rows.toList, readLedgerKey e.1 = .ok ⟨0, 1⟩) ∧
      History.commit? ((clientOn {} {}).history (overtaken w)) 1 = some w ∧ [] ∈ w.keys ∧
      ∀ e ∈ logOf rows 1, e.2 ≠ [] :=
  log_row_overwritten (first_crowd (Nat.le_refl _)) round_crowd

end Durable
end OptimisticStore
