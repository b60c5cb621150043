import OptimisticStore.Durable.Store
import OptimisticStore.Proofs.Layout
import OptimisticStore.Proofs.Standing

/-! The rows of a durable store keep what it has taken on. Each region of the raw keys is tied
to one part of a standing: data rows to every write of the history, however old, log rows to
the writes above the horizon, ledger rows to the registrations. The data never shrinks, and
this is why a snapshot can be read at any later moment. A log row has four bytes for the place
of a write, so of a commit that wrote more keys than there are places the last ones alone have
their rows. -/

namespace OptimisticStore

namespace RawWrite

def key : RawWrite → Bytes
  | put key _ => key
  | delete key => key

def value? : RawWrite → Option Bytes
  | put _ value => some value
  | delete _ => none

end RawWrite

namespace RawRows

theorem get?_put (rows : RawRows) (key value k : Bytes) :
    (rows.write (.put key value)).get? k = if k = key then some value else rows.get? k :=
  OrderedMap.get?_insert rows key k value 0

theorem get?_write (rows : RawRows) (w : RawWrite) (k : Bytes) :
    (rows.write w).get? k = if k = w.key then w.value? else rows.get? k := by
  cases w with
  | put key value => exact rows.get?_put key value k
  | delete key => exact OrderedMap.get?_remove rows key k 0

theorem apply_one (rows : RawRows) (w : RawWrite) : rows.apply [w] = rows.write w := rfl

theorem apply_two (rows : RawRows) (u w : RawWrite) :
    rows.apply [u, w] = (rows.write u).write w := rfl

theorem get?_apply (rows : RawRows) (batch : List RawWrite) (k : Bytes) :
    (∃ w ∈ batch, w.key = k ∧ (rows.apply batch).get? k = w.value?) ∨
      (∀ w ∈ batch, w.key ≠ k) ∧ (rows.apply batch).get? k = rows.get? k := by
  induction batch generalizing rows with
  | nil => exact .inr ⟨by simp, rfl⟩
  | cons w batch ih =>
    have first : rows.apply (w :: batch) = (rows.write w).apply batch := rfl
    rw [first]
    rcases ih (rows.write w) with ⟨u, hu, key, value⟩ | ⟨absent, kept⟩
    · exact .inl ⟨u, List.mem_cons_of_mem w hu, key, value⟩
    · rw [kept, get?_write]
      by_cases same : k = w.key
      · exact .inl ⟨w, List.mem_cons_self, same.symm, if_pos same⟩
      · rw [if_neg same]
        refine .inr ⟨?_, rfl⟩
        intro u hu
        rcases List.mem_cons.1 hu with rfl | hu
        · exact Ne.symm same
        · exact absent u hu

theorem get?_apply_of_absent {rows : RawRows} {batch : List RawWrite} {k : Bytes}
    (absent : ∀ w ∈ batch, w.key ≠ k) : (rows.apply batch).get? k = rows.get? k := by
  rcases rows.get?_apply batch k with ⟨w, hw, key, _⟩ | ⟨_, kept⟩
  · exact absurd key (absent w hw)
  · exact kept

theorem get?_apply_of_all {rows : RawRows} {batch : List RawWrite} {w : RawWrite}
    (mem : w ∈ batch) (all : ∀ u ∈ batch, u.key = w.key → u.value? = w.value?) :
    (rows.apply batch).get? w.key = w.value? := by
  rcases rows.get?_apply batch w.key with ⟨u, hu, key, value⟩ | ⟨absent, _⟩
  · rw [value, all u hu key]
  · exact absurd rfl (absent w mem)

theorem get?_apply_last (rows : RawRows) (before : List RawWrite) {after : List RawWrite}
    {w : RawWrite} (last : ∀ u ∈ after, u.key ≠ w.key) :
    (rows.apply (before ++ w :: after)).get? w.key = w.value? := by
  have inOrder : rows.apply (before ++ w :: after) = ((rows.apply before).write w).apply after :=
    List.foldl_append
  rw [inOrder, get?_apply_of_absent last, get?_write, if_pos rfl]

theorem get?_apply_delete (rows : RawRows) (dropped : List Bytes) (k : Bytes) :
    (rows.apply (dropped.map .delete)).get? k = if k ∈ dropped then none else rows.get? k := by
  rcases rows.get?_apply (dropped.map .delete) k with ⟨w, hw, key, value⟩ | ⟨absent, kept⟩
  · obtain ⟨raw, hraw, rfl⟩ := List.mem_map.1 hw
    obtain rfl : raw = k := key
    rw [value, if_pos hraw]
    rfl
  · have out : k ∉ dropped := fun h => absent (.delete k) (List.mem_map_of_mem h) rfl
    rw [kept, if_neg out]

end RawRows

/-- Every write of the commits after version `v` has a place of its own in the log. -/
def History.FitsSince (h : History) (v : Nat) : Prop := ∀ w ∈ h.drop v, w.size ≤ Layout.placeBound

theorem History.FitsSince.size_le {h : History} {u v : Nat} {w : WriteSet} (fits : h.FitsSince v)
    (later : v < u) (commit : h.commit? u = some w) : w.size ≤ Layout.placeBound := by
  obtain ⟨_, place⟩ := (h.commit?_eq_some_iff u w).1 commit
  refine fits w (List.mem_of_getElem? (i := u - 1 - v) ?_)
  rw [List.getElem?_drop, ← place]
  congr 1
  omega

namespace Durable
open Layout

/-- The row of a counter; one that was never written counts 0. -/
def Counts (rows : RawRows) (key : Bytes) (n : Nat) : Prop :=
  n < wordBound ∧ (rows.get? key = some (cell n) ∨ rows.get? key = none ∧ n = 0)

def DataRow (h : History) (e : Row) : Prop :=
  ∃ v k x, h.Wrote v k x ∧ e = (dataKey k v x.isNone, x.getD [])

/-- The commit of version `v` wrote `key` in place `i`, and no later place of it has the same four
bytes. -/
def Logged (h : History) (v i : Nat) (key : Bytes) : Prop :=
  ∃ w, h.commit? v = some w ∧ w.keys[i]? = some key ∧ w.size ≤ i + placeBound

structure Holds (a : Standing) (rows : RawRows) : Prop where
  sound : a.Sound
  version : Counts rows versionKey a.history.length
  lastTxnId : Counts rows txnIdKey a.lastTxnId
  data : ∀ e : Row, region e.1 = some 1 → (rows.get? e.1 = some e.2 ↔ DataRow a.history e)
  logged : ∀ e : Row, region e.1 = some 3 → rows.get? e.1 = some e.2 →
    ∃ v i, Logged a.history v i e.2 ∧ e.1 = logKey v i
  log : ∀ v i key, Logged a.history v i key → a.horizon < v →
    rows.get? (logKey v i) = some key
  ledger : ∀ raw, region raw = some 4 →
    ((rows.get? raw).isSome ↔ ∃ r ∈ a.running, raw = ledgerKey r)
  heartbeats : ∀ e : Row, region e.1 = some 4 → rows.get? e.1 = some e.2 → e.2.length = 8

theorem Logged.bounds {h : History} {v i : Nat} {key : Bytes} (logged : Logged h v i key) :
    0 < v ∧ v ≤ h.length := by
  obtain ⟨w, hw, _⟩ := logged
  exact History.le_length_of_commit? hw

theorem lt_size_of_keys {w : WriteSet} {i : Nat} {key : Bytes} (place : w.keys[i]? = some key) :
    i < w.size := by
  obtain ⟨lt, _⟩ := List.getElem?_eq_some_iff.1 place
  rwa [WriteSet.keys, List.length_map, WriteSet.length_entries] at lt

theorem Logged.place_lt {h : History} {v i : Nat} {key : Bytes} (logged : Logged h v i key)
    (fits : ∀ w, h.commit? v = some w → w.size ≤ placeBound) : i < placeBound := by
  obtain ⟨w, commit, place, _⟩ := logged
  exact Nat.lt_of_lt_of_le (lt_size_of_keys place) (fits w commit)

theorem Logged.mem_log {h : History} {v i : Nat} {key : Bytes} (logged : Logged h v i key) :
    (v, key) ∈ h.log := by
  obtain ⟨w, commit, place, _⟩ := logged
  obtain ⟨x, wrote⟩ := (w.mem_keys key).1 (List.mem_of_getElem? place)
  exact (h.mem_log v key).2 ⟨x, w, commit, wrote⟩

theorem exists_logged {h : History} {v : Nat} {key : Bytes} (mem : (v, key) ∈ h.log)
    (fits : ∀ w, h.commit? v = some w → w.size ≤ placeBound) : ∃ i, Logged h v i key := by
  obtain ⟨x, w, commit, wrote⟩ := (h.mem_log v key).1 mem
  obtain ⟨i, place⟩ := List.mem_iff_getElem?.1 ((w.mem_keys key).2 ⟨x, wrote⟩)
  exact ⟨i, w, commit, place, Nat.le_trans (fits w commit) (Nat.le_add_left _ _)⟩

theorem Logged.snoc {h : History} {v i : Nat} {key : Bytes} (logged : Logged h v i key)
    (w : WriteSet) : Logged (h ++ [w]) v i key := by
  have bound := logged.bounds.2
  obtain ⟨u, hu, place⟩ := logged
  exact ⟨u, by rw [History.commit?_append [w] bound, hu], place⟩

theorem logged_snoc_iff {h : History} {w : WriteSet} {v i : Nat} {key : Bytes} :
    Logged (h ++ [w]) v i key ↔
      Logged h v i key ∨ v = h.length + 1 ∧ w.keys[i]? = some key ∧ w.size ≤ i + placeBound := by
  constructor
  · rintro ⟨u, hu, place⟩
    by_cases old : v ≤ h.length
    · exact .inl ⟨u, by rw [← History.commit?_append [w] old, hu], place⟩
    · have bound := (History.le_length_of_commit? hu).2
      rw [List.length_append, List.length_singleton] at bound
      obtain rfl : v = h.length + 1 := by omega
      rw [History.commit?_last] at hu
      cases hu
      exact .inr ⟨rfl, place⟩
  · rintro (old | ⟨rfl, place⟩)
    · exact old.snoc w
    · exact ⟨w, History.commit?_last h w, place⟩

/-- Among the places of a commit that have the same four bytes there is a last one. -/
theorem exists_last_place {n j : Nat} (short : j < n) :
    ∃ i, i < n ∧ n ≤ i + placeBound ∧ i % placeBound = j % placeBound := by
  have pos : 0 < placeBound := Bytes.capacity_pos 4
  have round := Nat.div_add_mod (n - 1 - j) placeBound
  have rest := Nat.mod_lt (n - 1 - j) pos
  refine ⟨j + placeBound * ((n - 1 - j) / placeBound), by omega, by omega, ?_⟩
  rw [Nat.add_mul_mod_self_left]

namespace Holds
variable {a : Standing} {rows : RawRows}

theorem empty : Holds {} ∅ where
  sound := Standing.sound_empty
  version := ⟨by decide, .inr ⟨rfl, rfl⟩⟩
  lastTxnId := ⟨by decide, .inr ⟨rfl, rfl⟩⟩
  data e _ := by
    constructor
    · intro found
      cases found
    · rintro ⟨v, k, x, ⟨w, hw, _⟩, _⟩
      cases v <;> cases hw
  logged e _ found := by cases found
  log v i key logged _ := by
    have bounds := logged.bounds
    simp only [List.length_nil] at bounds
    omega
  ledger raw _ := by
    constructor
    · intro found
      cases found
    · rintro ⟨r, hr, _⟩
      cases hr
  heartbeats e _ found := by cases found

theorem length_lt (holds : Holds a rows) : a.history.length < wordBound := holds.version.1

theorem fits (holds : Holds a rows) {r : Registration} (hr : r ∈ a.running) : r.Fits := by
  obtain ⟨version, number⟩ := holds.sound.bounded r hr
  exact ⟨Nat.lt_of_le_of_lt version holds.version.1, Nat.lt_of_le_of_lt number holds.lastTxnId.1⟩

theorem ledgerKey_eq_iff (holds : Holds a rows) {r s : Registration} (hr : r ∈ a.running)
    (hs : s ∈ a.running) : ledgerKey r = ledgerKey s ↔ r = s :=
  ⟨ledgerKey_inj (holds.fits hr) (holds.fits hs), congrArg ledgerKey⟩

theorem registered_iff (holds : Holds a rows) (r : Registration) :
    (rows.get? (ledgerKey r)).isSome ↔ ∃ s ∈ a.running, ledgerKey r = ledgerKey s :=
  holds.ledger _ rfl

theorem reledger (holds : Holds a rows) {a' : Standing} {rows' : RawRows} (sound : a'.Sound)
    (history : a'.history = a.history) (horizon : a'.horizon = a.horizon)
    (untouched : ∀ raw, region raw ≠ some 4 → raw ≠ txnIdKey → rows'.get? raw = rows.get? raw)
    (lastTxnId : Counts rows' txnIdKey a'.lastTxnId)
    (ledger : ∀ raw, region raw = some 4 →
      ((rows'.get? raw).isSome ↔ ∃ r ∈ a'.running, raw = ledgerKey r))
    (heartbeats : ∀ e : Row, region e.1 = some 4 → rows'.get? e.1 = some e.2 → e.2.length = 8) :
    Holds a' rows' where
  sound := sound
  version := by
    rw [Counts, untouched _ (by decide) (by decide), history]
    exact holds.version
  lastTxnId := lastTxnId
  data e data := by
    have other : e.1 ≠ txnIdKey := by
      intro same
      rw [same] at data
      cases data
    rw [untouched e.1 (by simp [data]) other, history]
    exact holds.data e data
  logged e log := by
    have other : e.1 ≠ txnIdKey := by
      intro same
      rw [same] at log
      cases log
    rw [untouched e.1 (by simp [log]) other, history]
    exact holds.logged e log
  log := by
    rw [history, horizon]
    intro v i key logged above
    rw [untouched _ (by simp) (by simp [logKey, txnIdKey])]
    exact holds.log v i key logged above
  ledger := ledger
  heartbeats := heartbeats

theorem begun (holds : Holds a rows) (room : a.lastTxnId + 1 < wordBound) (now : Nat) :
    Holds a.begun (rows.apply [.put txnIdKey (cell (a.lastTxnId + 1)),
      .put (ledgerKey a.next) (cell now)]) := by
  have in_ledger (raw : Bytes) (ledger : region raw = some 4) :
      (rows.apply [.put txnIdKey (cell (a.lastTxnId + 1)),
        .put (ledgerKey a.next) (cell now)]).get? raw =
        if raw = ledgerKey a.next then some (cell now) else rows.get? raw := by
    have other : raw ≠ txnIdKey := by
      rintro rfl
      cases ledger
    rw [RawRows.apply_two, RawRows.get?_put, RawRows.get?_put, if_neg other]
  refine holds.reledger holds.sound.begun rfl (Standing.horizon_begun a) ?_ ?_ ?_ ?_
  · intro raw other txn
    apply RawRows.get?_apply_of_absent
    simp only [List.mem_cons, List.not_mem_nil, or_false, forall_eq_or_imp, forall_eq]
    refine ⟨Ne.symm txn, ?_⟩
    rintro rfl
    exact other rfl
  · have counter : (rows.apply [.put txnIdKey (cell (a.lastTxnId + 1)),
        .put (ledgerKey a.next) (cell now)]).get? txnIdKey = some (cell (a.lastTxnId + 1)) :=
      RawRows.get?_apply_of_all (w := .put txnIdKey (cell (a.lastTxnId + 1))) (by simp)
        (by simp [RawWrite.key, ledgerKey, txnIdKey])
    exact ⟨room, .inl counter⟩
  · intro raw ledger
    have before := holds.ledger raw ledger
    rw [in_ledger raw ledger]
    simp only [Standing.begun, List.mem_append, List.mem_singleton]
    by_cases new : raw = ledgerKey a.next
    · rw [if_pos new]
      exact iff_of_true rfl ⟨a.next, .inr rfl, new⟩
    · rw [if_neg new, before]
      constructor
      · rintro ⟨r, hr, same⟩
        exact ⟨r, .inl hr, same⟩
      · rintro ⟨r, hr | rfl, same⟩
        · exact ⟨r, hr, same⟩
        · exact absurd same new
  · intro e ledger found
    rw [in_ledger e.1 ledger] at found
    split at found
    · rw [← Option.some.inj found]
      exact length_cell now
    · exact holds.heartbeats e ledger found

theorem renewed (holds : Holds a rows) {r : Registration}
    (registered : (rows.get? (ledgerKey r)).isSome) (now : Nat) :
    Holds a (rows.apply [.put (ledgerKey r) (cell now)]) := by
  have value (raw : Bytes) : (rows.apply [.put (ledgerKey r) (cell now)]).get? raw =
      if raw = ledgerKey r then some (cell now) else rows.get? raw := by
    rw [RawRows.apply_one, RawRows.get?_put]
  have untouched (raw : Bytes) (other : region raw ≠ some 4) :
      (rows.apply [.put (ledgerKey r) (cell now)]).get? raw = rows.get? raw := by
    rw [value, if_neg]
    rintro rfl
    exact other rfl
  refine holds.reledger holds.sound rfl rfl (fun raw other _ => untouched raw other) ?_ ?_ ?_
  · rw [Counts, untouched _ (by decide)]
    exact holds.lastTxnId
  · intro raw ledger
    rw [value, ← holds.ledger raw ledger]
    split
    · next same =>
      rw [same]
      exact iff_of_true rfl registered
    · exact Iff.rfl
  · intro e ledger found
    rw [value] at found
    split at found
    · rw [← Option.some.inj found]
      exact length_cell now
    · exact holds.heartbeats e ledger found

theorem ledger_shed (holds : Holds a rows) {keep : Registration → Bool} {dropped : List Bytes}
    (gone : ∀ s ∈ a.running, keep s = false → ledgerKey s ∈ dropped) {raw : Bytes}
    (at_ledger : region raw = some 4)
    (spared : raw ∈ dropped → ∀ s ∈ a.running, keep s = true → raw ≠ ledgerKey s) :
    ((rows.apply (dropped.map .delete)).get? raw).isSome ↔
      ∃ r ∈ (a.restrict keep).running, raw = ledgerKey r := by
  rw [RawRows.get?_apply_delete]
  simp only [Standing.restrict, List.mem_filter]
  by_cases mem : raw ∈ dropped
  · rw [if_pos mem]
    refine iff_of_false (by simp) ?_
    rintro ⟨r, ⟨hr, kept⟩, same⟩
    exact spared mem r hr kept same
  · rw [if_neg mem, holds.ledger raw at_ledger]
    constructor
    · rintro ⟨r, hr, same⟩
      cases kept : keep r with
      | true => exact ⟨r, ⟨hr, kept⟩, same⟩
      | false => exact absurd (same ▸ gone r hr kept) mem
    · rintro ⟨r, ⟨hr, _⟩, same⟩
      exact ⟨r, hr, same⟩

/-- Registrations that are not kept lose their ledger rows, and the log may lose rows up to the
version that is then the horizon. -/
theorem shed (holds : Holds a rows) (keep : Registration → Bool) (dropped : List Bytes)
    (dispensable : ∀ raw ∈ dropped,
      region raw = some 4 ∧ (∀ s ∈ a.running, keep s = true → raw ≠ ledgerKey s) ∨
      region raw = some 3 ∧ ∀ v i, (a.restrict keep).horizon < v → v < wordBound → i < placeBound →
        raw ≠ logKey v i)
    (gone : ∀ s ∈ a.running, keep s = false → ledgerKey s ∈ dropped) :
    Holds (a.restrict keep) (rows.apply (dropped.map .delete)) := by
  have value (raw : Bytes) := rows.get?_apply_delete dropped raw
  have untouched (raw : Bytes) (log : region raw ≠ some 3) (ledger : region raw ≠ some 4) :
      (rows.apply (dropped.map .delete)).get? raw = rows.get? raw := by
    rw [value, if_neg]
    intro mem
    rcases dispensable raw mem with ⟨at_ledger, _⟩ | ⟨at_log, _⟩
    · exact ledger at_ledger
    · exact log at_log
  have sub (e : Row) (found : (rows.apply (dropped.map .delete)).get? e.1 = some e.2) :
      rows.get? e.1 = some e.2 := by
    rw [value] at found
    split at found
    · cases found
    · exact found
  constructor
  · exact holds.sound.restrict keep
  · rw [Counts, untouched _ (by decide) (by decide)]
    exact holds.version
  · rw [Counts, untouched _ (by decide) (by decide)]
    exact holds.lastTxnId
  · intro e data
    rw [untouched _ (by simp [data]) (by simp [data])]
    exact holds.data e data
  · intro e log found
    exact holds.logged e log (sub e found)
  · intro v i key logged above
    have old := Nat.lt_of_le_of_lt (holds.sound.horizon_le_restrict keep) above
    rw [value, if_neg]
    · exact holds.log v i key logged old
    · intro mem
      have bound := Nat.lt_of_le_of_lt logged.bounds.2 holds.length_lt
      -- a log row is named by the four bytes of its place, whichever place it is
      rcases dispensable _ mem with ⟨at_ledger, _⟩ | ⟨_, low⟩
      · cases at_ledger
      · exact low v (i % placeBound) above bound (mod_placeBound_lt i) (logKey_mod v i).symm
  · intro raw at_ledger
    refine holds.ledger_shed gone at_ledger fun mem => ?_
    rcases dispensable raw mem with ⟨_, spared⟩ | ⟨at_log, _⟩
    · exact spared
    · rw [at_log] at at_ledger
      cases at_ledger
  · intro e ledger found
    exact holds.heartbeats e ledger (sub e found)

end Holds

/-! ### A commit -/

theorem mem_commitBatch_iff (v : Nat) (w : WriteSet) (u : RawWrite) :
    u ∈ commitBatch v w ↔
      (∃ k x, (k, x) ∈ w.entries ∧ u = .put (dataKey k v x.isNone) (x.getD [])) ∨
      (∃ i key, w.keys[i]? = some key ∧ u = .put (logKey v i) key) ∨
      u = .put versionKey (cell v) := by
  rw [commitBatch, List.mem_append, List.mem_singleton, List.mem_flatMap, ← or_assoc]
  refine or_congr ?_ Iff.rfl
  constructor
  · rintro ⟨⟨⟨k, x⟩, i⟩, mem, hu⟩
    have place := List.mem_zipIdx_iff_getElem?.1 mem
    simp only at place
    rcases List.mem_cons.1 hu with rfl | hu
    · exact .inl ⟨k, x, List.mem_of_getElem? place, rfl⟩
    · obtain rfl := List.mem_singleton.1 hu
      exact .inr ⟨i, k, by rw [WriteSet.keys, List.getElem?_map, place]; rfl, rfl⟩
  · rintro (⟨k, x, mem, rfl⟩ | ⟨i, key, place, rfl⟩)
    · obtain ⟨i, hi⟩ := List.mem_iff_getElem?.1 mem
      exact ⟨((k, x), i), List.mem_zipIdx_iff_getElem?.2 hi, by simp [writeRows]⟩
    · rw [WriteSet.keys, List.getElem?_map, Option.map_eq_some_iff] at place
      obtain ⟨⟨k, x⟩, place, rfl⟩ := place
      exact ⟨((k, x), i), List.mem_zipIdx_iff_getElem?.2 place, by simp [writeRows]⟩

section Commit
variable {rows : RawRows} {w : WriteSet} {v : Nat}

theorem get?_commitBatch_data (hv : v < wordBound) {k : Bytes} {x : Option Bytes}
    (mem : (k, x) ∈ w.entries) :
    (rows.apply (commitBatch v w)).get? (dataKey k v x.isNone) = some (x.getD []) := by
  have put := (mem_commitBatch_iff v w (.put (dataKey k v x.isNone) (x.getD []))).2
    (.inl ⟨k, x, mem, rfl⟩)
  refine RawRows.get?_apply_of_all put ?_
  intro u hu same
  rcases (mem_commitBatch_iff v w u).1 hu with ⟨l, y, other, rfl⟩ | ⟨i, key, _, rfl⟩ | rfl
  · obtain ⟨rfl, _, _⟩ := dataKey_inj hv hv same
    rw [← WriteSet.get?_eq_some_iff] at mem other
    obtain rfl : x = y := Option.some.inj (mem.symm.trans other)
    rfl
  · cases congrArg region same
  · cases congrArg region same

theorem commitBatch_eq {i : Nat} {k : Bytes} {x : Option Bytes}
    (place : w.entries[i]? = some (k, x)) :
    commitBatch v w = ((w.entries.zipIdx.take i).flatMap (writeRows v) ++
        [.put (dataKey k v x.isNone) (x.getD [])]) ++ .put (logKey v i) k ::
      ((w.entries.zipIdx.drop (i + 1)).flatMap (writeRows v) ++ [.put versionKey (cell v)]) := by
  obtain ⟨lt, here⟩ := List.getElem?_eq_some_iff.1 place
  have lt : i < w.entries.zipIdx.length := by rwa [List.length_zipIdx]
  have split : w.entries.zipIdx =
      w.entries.zipIdx.take i ++ ((k, x), i) :: w.entries.zipIdx.drop (i + 1) := by
    have at_place : w.entries.zipIdx[i] = ((k, x), i) := by rw [List.getElem_zipIdx, here]; simp
    rw [← at_place, ← List.drop_eq_getElem_cons lt, List.take_append_drop]
  rw [commitBatch]
  conv => lhs; rw [split]
  simp [writeRows]

theorem get?_commitBatch_log {i : Nat} {key : Bytes} (place : w.keys[i]? = some key)
    (last : w.size ≤ i + placeBound) :
    (rows.apply (commitBatch v w)).get? (logKey v i) = some key := by
  rw [WriteSet.keys, List.getElem?_map, Option.map_eq_some_iff] at place
  obtain ⟨⟨k, x⟩, place, rfl⟩ := place
  rw [commitBatch_eq place]
  refine rows.get?_apply_last _ (w := .put (logKey v i) k) fun u mem same => ?_
  rcases List.mem_append.1 mem with mem | mem
  · obtain ⟨⟨⟨l, y⟩, j⟩, later, mem⟩ := List.mem_flatMap.1 mem
    obtain ⟨n, hn, here⟩ := List.getElem_of_mem later
    rw [List.length_drop, List.length_zipIdx, WriteSet.length_entries] at hn
    rw [List.getElem_drop, List.getElem_zipIdx] at here
    have after : i + 1 + n = j := by simpa using congrArg (·.2) here
    simp only [writeRows, List.mem_cons, List.not_mem_nil, or_false] at mem
    rcases mem with rfl | rfl
    · cases congrArg region same
    · -- two places less than a round apart have different bytes
      have round := Nat.sub_mod_eq_zero_of_mod_eq ((logKey_eq_iff v).1 same)
      rw [Nat.mod_eq_of_lt (by omega)] at round
      omega
  · cases List.mem_singleton.1 mem
    cases congrArg region same

theorem get?_commitBatch_version :
    (rows.apply (commitBatch v w)).get? versionKey = some (cell v) := by
  have put := (mem_commitBatch_iff v w (.put versionKey (cell v))).2 (.inr (.inr rfl))
  refine RawRows.get?_apply_of_all put ?_
  intro u hu same
  rcases (mem_commitBatch_iff v w u).1 hu with ⟨l, y, _, rfl⟩ | ⟨j, l, _, rfl⟩ | rfl
  · cases congrArg region same
  · cases congrArg region same
  · rfl

theorem get?_commitBatch_of_other {raw : Bytes} (data : ∀ k deleted, raw ≠ dataKey k v deleted)
    (log : ∀ i, raw ≠ logKey v i) (counter : raw ≠ versionKey) :
    (rows.apply (commitBatch v w)).get? raw = rows.get? raw := by
  apply RawRows.get?_apply_of_absent
  intro u hu same
  rcases (mem_commitBatch_iff v w u).1 hu with ⟨l, y, _, rfl⟩ | ⟨j, l, _, rfl⟩ | rfl
  · exact data l y.isNone same.symm
  · exact log j same.symm
  · exact counter same.symm

end Commit

theorem logKey_ne_of_ne {u v : Nat} (hu : u < wordBound) (hv : v < wordBound) (ne : u ≠ v)
    (i j : Nat) : logKey u i ≠ logKey v j := by
  intro same
  have cells : cell u = cell v := by
    have front := congrArg (fun raw => (raw.drop 1).take 8) same
    simpa [logKey, cell] using front
  exact ne ((cell_inj hu hv).1 cells)

namespace Holds
variable {a : Standing} {rows : RawRows}

theorem data_committed (holds : Holds a rows) (room : a.history.length + 1 < wordBound)
    (w : WriteSet) (e : Row) (data : region e.1 = some 1) :
    (rows.apply (commitBatch (a.history.length + 1) w)).get? e.1 = some e.2 ↔
      DataRow (a.history ++ [w]) e := by
  obtain ⟨raw, value⟩ := e
  constructor
  · intro found
    rcases rows.get?_apply (commitBatch (a.history.length + 1) w) raw with
      ⟨u, hu, rfl, last⟩ | ⟨_, kept⟩
    · rcases (mem_commitBatch_iff _ w u).1 hu with ⟨k, x, mem, rfl⟩ | ⟨i, key, _, rfl⟩ | rfl
      · obtain rfl : x.getD [] = value := Option.some.inj (last.symm.trans found)
        exact ⟨_, k, x, ⟨w, History.commit?_last _ w, mem⟩, rfl⟩
      · cases data
      · cases data
    · obtain ⟨v, k, x, wrote, row⟩ := (holds.data ⟨raw, value⟩ data).1 (kept.symm.trans found)
      exact ⟨v, k, x, (History.wrote_append_iff [w] wrote.bounds.2 k x).2 wrote, row⟩
  · rintro ⟨v, k, x, wrote, row⟩
    obtain ⟨rfl, rfl⟩ := Prod.mk.inj row
    rcases (History.wrote_snoc_iff a.history w v k x).1 wrote with old | ⟨rfl, mem⟩
    · have before := (holds.data (dataKey k v x.isNone, x.getD []) rfl).2 ⟨v, k, x, old, rfl⟩
      rw [← before]
      apply get?_commitBatch_of_other
      · intro l c same
        have bound := old.bounds.2
        have small : v < wordBound := by omega
        obtain ⟨_, rfl, _⟩ := dataKey_inj small room same
        omega
      · rintro i ⟨⟩
      · rintro ⟨⟩
    · exact get?_commitBatch_data room mem

theorem logged_committed (holds : Holds a rows) (w : WriteSet) (e : Row)
    (log : region e.1 = some 3)
    (found : (rows.apply (commitBatch (a.history.length + 1) w)).get? e.1 = some e.2) :
    ∃ v i, Logged (a.history ++ [w]) v i e.2 ∧ e.1 = logKey v i := by
  obtain ⟨raw, value⟩ := e
  rcases rows.get?_apply (commitBatch (a.history.length + 1) w) raw with
    ⟨u, hu, rfl, last⟩ | ⟨_, kept⟩
  · rcases (mem_commitBatch_iff _ w u).1 hu with ⟨k, x, _, rfl⟩ | ⟨i, key, place, rfl⟩ | rfl
    · cases log
    · -- the row is that of the last place with the same bytes
      obtain ⟨j, short, latest, round⟩ := exists_last_place (lt_size_of_keys place)
      have same := (logKey_eq_iff (a.history.length + 1)).2 round
      have there : j < w.keys.length := by rwa [WriteSet.keys, List.length_map, w.length_entries]
      have stands : (rows.apply (commitBatch (a.history.length + 1) w)).get?
          (logKey (a.history.length + 1) j) = some w.keys[j] :=
        get?_commitBatch_log (List.getElem?_eq_getElem there) latest
      rw [same] at stands
      obtain rfl : w.keys[j] = value := Option.some.inj (stands.symm.trans found)
      refine ⟨_, j, logged_snoc_iff.2 (.inr ⟨rfl, ?_, latest⟩), same.symm⟩
      exact List.getElem?_eq_getElem there
    · cases log
  · obtain ⟨v, i, logged, same⟩ := holds.logged ⟨raw, value⟩ log (kept.symm.trans found)
    exact ⟨v, i, logged.snoc w, same⟩

theorem log_committed (holds : Holds a rows) (room : a.history.length + 1 < wordBound)
    {w : WriteSet} {v i : Nat} {key : Bytes} (logged : Logged (a.history ++ [w]) v i key)
    (above : a.horizon < v) :
    (rows.apply (commitBatch (a.history.length + 1) w)).get? (logKey v i) = some key := by
  rcases logged_snoc_iff.1 logged with old | ⟨rfl, place, last⟩
  · rw [← holds.log v i key old above]
    have bound := old.bounds.2
    apply get?_commitBatch_of_other
    · rintro k c ⟨⟩
    · exact logKey_ne_of_ne (by omega) room (by omega) i
    · rintro ⟨⟩
  · exact get?_commitBatch_log place last

/-- A commit is sound in the rows if somebody is registered, so that it lies above the horizon. -/
theorem committed (holds : Holds a rows) {r : Registration} (hr : r ∈ a.running)
    (room : a.history.length + 1 < wordBound) (w : WriteSet) :
    Holds (a.committed w) (rows.apply (commitBatch (a.history.length + 1) w)) := by
  have length : (a.committed w).history.length = a.history.length + 1 := by
    simp [Standing.committed]
  have in_ledger (raw : Bytes) (ledger : region raw = some 4) :
      (rows.apply (commitBatch (a.history.length + 1) w)).get? raw = rows.get? raw := by
    apply get?_commitBatch_of_other
    · rintro k c rfl
      cases ledger
    · rintro i rfl
      cases ledger
    · rintro rfl
      cases ledger
  constructor
  · exact holds.sound.committed w
  · rw [length]
    exact ⟨room, .inl get?_commitBatch_version⟩
  · rw [Counts, get?_commitBatch_of_other (by rintro k c ⟨⟩) (by rintro i ⟨⟩) (by decide)]
    exact holds.lastTxnId
  · exact holds.data_committed room w
  · exact holds.logged_committed w
  · intro v i key logged above
    rw [Standing.horizon_committed hr] at above
    exact holds.log_committed room logged above
  · intro raw ledger
    rw [in_ledger raw ledger]
    exact holds.ledger raw ledger
  · intro e ledger found
    rw [in_ledger e.1 ledger] at found
    exact holds.heartbeats e ledger found

end Holds
end Durable
end OptimisticStore
