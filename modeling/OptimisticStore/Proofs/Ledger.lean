import OptimisticStore.Proofs.Durable

/-! What the ledger and the log tell a registration. Its ledger row is its own: nobody else's
operation changes it, but for a `finish` that finds it lapsed. And the log above what it reads is
that of a store which has made the same commits and has never pruned anything, whoever else has
been registered; this holds even of commits that write more keys than the log has places for. -/

namespace OptimisticStore

theorem RawRows.get?_apply_congr {rows rows' : RawRows} {k : Bytes}
    (same : rows.get? k = rows'.get? k) (batch : List RawWrite) :
    (rows.apply batch).get? k = (rows'.apply batch).get? k := by
  induction batch generalizing rows rows' with
  | nil => exact same
  | cons u batch ih =>
    have written : (rows.write u).get? k = (rows'.write u).get? k := by
      rw [get?_write, get?_write, same]
    exact ih written

namespace Durable
open Device Layout

/-! ### Seats -/

def seat (rows : RawRows) (r : Registration) : Option Bytes :=
  if r.Fits then rows.get? (ledgerKey r) else none

def keepsSeat (config : Config) (now : Nat) (heartbeat : Bytes) : Bool :=
  !(LedgerRow.expired config now ⟨[], ⟨0, 0⟩, heartbeat.toNat⟩)

section Seats
variable {a : Standing} {rows rows' : RawRows} {r : Registration}

theorem seat_of_fits (fits : r.Fits) (rows : RawRows) : seat rows r = rows.get? (ledgerKey r) :=
  if_pos fits

theorem seat_congr (same : rows'.get? (ledgerKey r) = rows.get? (ledgerKey r)) :
    seat rows' r = seat rows r := by
  rw [seat, seat, same]

theorem seat_write (fits : r.Fits) (u : RawWrite) (key : u.key = ledgerKey r) (q : Registration) :
    seat (rows.apply [u]) q = if q = r then u.value? else seat rows q := by
  rw [RawRows.apply_one]
  by_cases fits' : q.Fits
  · rw [seat_of_fits fits', seat_of_fits fits', RawRows.get?_write, key]
    by_cases same : q = r
    · rw [if_pos same, if_pos (congrArg ledgerKey same)]
    · rw [if_neg same, if_neg fun keys => same (ledgerKey_inj fits' fits keys)]
  · have other : q ≠ r := fun same => fits' (same ▸ fits)
    rw [if_neg other, seat, seat, if_neg fits', if_neg fits']

theorem seat_begun (fits : r.Fits) (counter heartbeat : Bytes) (q : Registration) :
    seat (rows.apply [.put txnIdKey counter, .put (ledgerKey r) heartbeat]) q =
      if q = r then some heartbeat else seat rows q := by
  have counted : seat (rows.apply [.put txnIdKey counter]) q = seat rows q :=
    seat_congr (RawRows.get?_apply_of_absent
      (by rintro _ mem; cases List.mem_singleton.1 mem; nofun))
  rw [← counted]
  exact seat_write fits (.put (ledgerKey r) heartbeat) rfl q

theorem seat_commitBatch (v : Nat) (w : WriteSet) (q : Registration) :
    seat (rows.apply (commitBatch v w)) q = seat rows q :=
  seat_congr (get?_commitBatch_of_other nofun nofun nofun)

theorem seat_shed {config : Config} {now : Nat} {dropped : List Bytes} (holds : Holds a rows)
    (sheds : Sheds a (fun r => !lapsed config now rows r) dropped) (q : Registration) :
    seat (rows.apply (dropped.map .delete)) q = (seat rows q).filter (keepsSeat config now) := by
  by_cases fits : q.Fits
  · rw [seat_of_fits fits, seat_of_fits fits, RawRows.get?_apply_delete]
    cases found : rows.get? (ledgerKey q) with
    | none => exact ite_self none
    | some heartbeat =>
      obtain ⟨s, running, keys⟩ := (holds.registered_iff q).1 (by rw [found]; rfl)
      obtain rfl := ledgerKey_inj fits (holds.fits running) keys
      have kept : keepsSeat config now heartbeat = !lapsed config now rows q := by
        rw [lapsed, ledgerRow, found]
        rfl
      rw [Option.filter, kept]
      cases late : lapsed config now rows q with
      | true => exact if_pos (sheds.gone q running (by simp [late]))
      | false =>
        refine if_neg fun mem => ?_
        rcases sheds.dispensable _ mem with ⟨_, spared⟩ | ⟨log, _⟩
        · exact spared q running (by simp [late]) rfl
        · cases log
  · rw [seat, seat, if_neg fits, if_neg fits]
    rfl

end Seats

/-! ### The log that is never pruned -/

/-- The rows of a store where one transaction runs throughout. -/
def unpruned (h : History) : RawRows :=
  h.zipIdx.foldl (fun rows (w, v) => rows.apply (commitBatch (v + 1) w))
    ((∅ : RawRows).apply [.put txnIdKey (cell 1), .put (ledgerKey ⟨0, 1⟩) (cell 0)])

theorem unpruned_snoc (h : History) (w : WriteSet) :
    unpruned (h ++ [w]) = (unpruned h).apply (commitBatch (h.length + 1) w) := by
  simp [unpruned, List.zipIdx_append]

theorem holds_unpruned (h : History) (room : h.length < wordBound) :
    Holds ⟨h, [⟨0, 1⟩], 1⟩ (unpruned h) := by
  induction h using History.snoc_induction with
  | nil => exact Holds.empty.begun (by decide) 0
  | snoc earlier w ih =>
    rw [List.length_append, List.length_singleton] at room
    rw [unpruned_snoc]
    have before := ih (Nat.lt_of_succ_lt room)
    exact before.committed (r := ⟨0, 1⟩) (List.mem_singleton.2 rfl) room w

/-- Above the horizon the log is the one that is never pruned. -/
def Mirrors (a : Standing) (rows : RawRows) : Prop :=
  ∀ v i, a.horizon < v → v < wordBound →
    rows.get? (logKey v i) = (unpruned a.history).get? (logKey v i)

section Log
variable {a a' : Standing} {rows rows' : RawRows}

theorem mirrors_empty : Mirrors {} ∅ := by
  intro v i _ _
  refine (RawRows.get?_apply_of_absent ?_).symm
  intro u mem
  rcases List.mem_cons.1 mem with rfl | mem
  · exact nofun
  · cases List.mem_singleton.1 mem
    exact nofun

theorem Mirrors.of_log (mirrors : Mirrors a rows) (history : a'.history = a.history)
    (horizon : a.horizon ≤ a'.horizon)
    (log : ∀ v i, rows'.get? (logKey v i) = rows.get? (logKey v i)) : Mirrors a' rows' := by
  intro v i above bound
  rw [log, history]
  exact mirrors v i (Nat.lt_of_le_of_lt horizon above) bound

theorem Mirrors.shed {keep : Registration → Bool} {dropped : List Bytes} (mirrors : Mirrors a rows)
    (sound : a.Sound) (sheds : Sheds a keep dropped) :
    Mirrors (a.restrict keep) (rows.apply (dropped.map .delete)) := by
  intro v i above bound
  rw [RawRows.get?_apply_delete, if_neg]
  · exact mirrors v i (Nat.lt_of_le_of_lt (sound.horizon_le_restrict keep) above) bound
  · intro mem
    rcases sheds.dispensable _ mem with ⟨ledger, _⟩ | ⟨_, low⟩
    · cases ledger
    · exact low v (i % placeBound) above bound (mod_placeBound_lt i) (logKey_mod v i).symm

theorem Mirrors.committed (mirrors : Mirrors a rows) {r : Registration} (hr : r ∈ a.running)
    (w : WriteSet) :
    Mirrors (a.committed w) (rows.apply (commitBatch (a.history.length + 1) w)) := by
  intro v i above bound
  rw [Standing.horizon_committed hr] at above
  rw [Standing.committed, unpruned_snoc]
  exact RawRows.get?_apply_congr (mirrors v i above bound) _

theorem filter_logSince (holds : Holds a rows) (mirrors : Mirrors a rows) {v : Nat}
    (hv : a.horizon ≤ v) :
    (logSince rows v).filter (v < ·.1) = (logSince (unpruned a.history) v).filter (v < ·.1) := by
  have holds' := holds_unpruned a.history holds.length_lt
  have row {a : Standing} {rows : RawRows} (holds : Holds a rows) {e : Row}
      (mem : e ∈ OrderedMap.between rows (logRange v none).1 (logRange v none).2)
      (above : v < logVersion e.1) : ∃ u i, e.1 = logKey u i ∧ v < u ∧ u < wordBound := by
    obtain ⟨u, i, _, raw, bound⟩ := logRow_of_between holds mem
    rw [raw, logVersion_logKey bound] at above
    exact ⟨u, i, raw, above, bound⟩
  rw [logSince, logSince, List.filter_map, List.filter_map]
  congr 1
  apply entries_eq_of_mem_iff
  · exact (rows.pairwise_between _ _).sublist List.filter_sublist
  · exact ((unpruned a.history).pairwise_between _ _).sublist List.filter_sublist
  · intro e
    simp only [List.mem_filter, Function.comp_apply, decide_eq_true_eq]
    refine and_congr_left fun above => ?_
    constructor
    · intro mem
      obtain ⟨u, i, raw, later, bound⟩ := row holds mem above
      have same := mirrors u i (Nat.lt_of_le_of_lt hv later) bound
      rw [OrderedMap.mem_between, raw, same, ← raw] at mem
      exact OrderedMap.mem_between.2 mem
    · intro mem
      obtain ⟨u, i, raw, later, bound⟩ := row holds' mem above
      have same := mirrors u i (Nat.lt_of_le_of_lt hv later) bound
      rw [OrderedMap.mem_between, raw, ← same, ← raw] at mem
      exact OrderedMap.mem_between.2 mem

end Log

def verdict (h : History) (v : Version) (reads : ReadFootprint) (_ : WriteSet) :
    Except Error Version :=
  match reads.validate v (logSince (unpruned h) v) with
  | .error e => .error e
  | .ok () =>
    if h.length + 1 < wordBound then .ok (h.length + 1) else .error (.storage .counterFull)

theorem validate_mirrored {a : Standing} {rows : RawRows} (holds : Holds a rows)
    (mirrors : Mirrors a rows) {r : Registration} (hr : r ∈ a.running) (reads : ReadFootprint) :
    reads.validate r.readVersion (logSince rows r.readVersion) =
      reads.validate r.readVersion (logSince (unpruned a.history) r.readVersion) :=
  ReadFootprint.validate_congr (filter_logSince holds mirrors (holds.sound.horizon_le hr))

end Durable
end OptimisticStore
