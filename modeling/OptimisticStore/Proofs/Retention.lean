import OptimisticStore.Proofs.Bookkeeping
import OptimisticStore.Proofs.Integrity
import OptimisticStore.Proofs.Lockstep

/-! What the stores keep of their logs, and how they count it. Both let go of every version that
no registration reads behind any more, and of no other. In memory each version that is left counts.
On a device a version is counted by the log rows it has left, so one that wrote nothing does not
count; where both stores have the same commits, their counts differ by just these versions. -/

namespace OptimisticStore

/-! ### Repetitions in an ascending list -/

section Repetitions
variable {a x : Nat} {l acc : List Nat}

theorem mem_eraseReps_loop :
    x ∈ List.eraseRepsBy.loop (· == ·) a l acc ↔ x ∈ acc ∨ x = a ∨ x ∈ l := by
  induction l generalizing a acc with
  | nil => simp [List.eraseRepsBy.loop, or_comm]
  | cons b l ih =>
    rw [List.eraseRepsBy.loop]
    cases same : a == b with
    | true =>
      obtain rfl := eq_of_beq same
      rw [ih, List.mem_cons, or_self_left]
    | false =>
      rw [ih, List.mem_cons, List.mem_cons, or_comm (a := x = a), or_assoc]

theorem pairwise_eraseReps_loop (sorted : (a :: l).Pairwise (· ≤ ·))
    (passed : acc.Pairwise (· > ·)) (below : ∀ x ∈ acc, x < a) :
    (List.eraseRepsBy.loop (· == ·) a l acc).Pairwise (· < ·) := by
  have onward : (a :: acc).Pairwise (· > ·) := List.pairwise_cons.2 ⟨below, passed⟩
  induction l generalizing a acc with
  | nil => exact List.pairwise_reverse.2 onward
  | cons b l ih =>
    obtain ⟨first, rest⟩ := List.pairwise_cons.1 sorted
    have next : a ≤ b := first b List.mem_cons_self
    rw [List.eraseRepsBy.loop]
    cases same : a == b with
    | true =>
      obtain rfl := eq_of_beq same
      exact ih rest passed below onward
    | false =>
      have lt : a < b := Nat.lt_of_le_of_ne next (ne_of_beq_false same)
      have below : ∀ x ∈ a :: acc, x < b := fun x mem =>
        (List.mem_cons.1 mem).elim (fun here => here ▸ lt) fun there =>
          Nat.lt_trans (below x there) lt
      exact ih rest onward below (List.pairwise_cons.2 ⟨below, onward⟩)

theorem mem_eraseReps : x ∈ l.eraseReps ↔ x ∈ l := by
  cases l with
  | nil => rfl
  | cons a l =>
    rw [List.eraseReps, List.eraseRepsBy, mem_eraseReps_loop, List.mem_cons]
    simp

theorem pairwise_eraseReps (sorted : l.Pairwise (· ≤ ·)) : l.eraseReps.Pairwise (· < ·) := by
  cases l with
  | nil => exact .nil
  | cons a l => exact pairwise_eraseReps_loop sorted .nil nofun

end Repetitions

/-! ### The commits that are kept -/

namespace History

/-- The commits above the least version that is being read, none if nobody reads. -/
def since (h : History) (running : List Registration) : History :=
  h.drop (Keyspace.least running h.length)

def writing (h : History) (v : Nat) : List Nat :=
  (h.entries.filter fun e => v < e.1 && !e.2.isEmpty).map (·.1)

theorem length_writing (h : History) (v : Nat) :
    (h.writing v).length = ((h.drop v).filter (!·.isEmpty)).length := by
  induction h using snoc_induction with
  | nil => simp [writing, entries]
  | snoc earlier w ih =>
    rw [writing, List.length_map] at ih
    rw [writing, List.length_map, entries_snoc, List.filter_append,
      List.length_append, ih, List.drop_append, List.filter_append, List.length_append]
    congr 1
    by_cases above : v < earlier.length + 1
    · have here : v - earlier.length = 0 := by omega
      rw [here]
      cases idle : w.isEmpty <;> simp [above, w.isEmpty_keys, idle]
    · obtain ⟨n, past⟩ : ∃ n, v - earlier.length = n + 1 := ⟨v - earlier.length - 1, by omega⟩
      rw [past]
      simp [above]

theorem pairwise_writing (h : History) (v : Nat) : (h.writing v).Pairwise (· < ·) :=
  List.pairwise_map.2 (h.pairwise_versions.sublist List.filter_sublist)

theorem mem_writing {h : History} {v u : Nat} :
    u ∈ h.writing v ↔ v < u ∧ ∃ w, h.commit? u = some w ∧ w.isEmpty = false := by
  rw [writing, List.mem_map]
  constructor
  · rintro ⟨⟨_, keys⟩, mem, rfl⟩
    obtain ⟨mem, kept⟩ := List.mem_filter.1 mem
    obtain ⟨w, committed, rfl⟩ := mem_entries.1 mem
    rw [w.isEmpty_keys, Bool.and_eq_true, decide_eq_true_eq, Bool.not_eq_true'] at kept
    exact ⟨kept.1, w, committed, kept.2⟩
  · rintro ⟨above, w, committed, wrote⟩
    refine ⟨(u, w.keys), List.mem_filter.2 ⟨mem_entries.2 ⟨w, committed, rfl⟩, ?_⟩, rfl⟩
    rw [w.isEmpty_keys, wrote]
    simpa using above

end History

/-! ### On a device -/

namespace Durable
open Device Layout

def registered (rows : RawRows) : List Registration :=
  match (OrderedMap.between rows ledgerRange.1 ledgerRange.2).mapM readLedgerRow with
  | .ok ledger => ledger.map (·.registration)
  | .error _ => []

/-- Of a version that nobody reads behind any more no log row is left, and of any other that wrote
something the first one is. -/
structure Retains (a : Standing) (rows : RawRows) : Prop where
  above : ∀ v i, v < wordBound → (rows.get? (logKey v i)).isSome = true → a.horizon < v
  kept : ∀ v w, a.history.commit? v = some w → w.isEmpty = false → a.horizon < v →
    (rows.get? (logKey v 0)).isSome = true

variable {a a' : Standing} {rows rows' : RawRows} {config : Config}

theorem registered_eq (holds : Holds a rows) : registered rows = a.running := by
  rw [registered, readLedger_eq holds]
  exact List.map_map.trans a.running.map_id

theorem least_registered (holds : Holds a rows) :
    Keyspace.least (registered rows) a.history.length = a.horizon := by
  rw [registered_eq holds, Keyspace.least_running holds.sound]

namespace Retains

theorem empty : Retains {} ∅ where
  above _ _ _ found := by cases found
  kept v w committed _ _ := by cases v <;> cases committed

theorem aside (retains : Retains a rows) (history : a'.history = a.history)
    (horizon : a'.horizon = a.horizon)
    (same : ∀ v i, rows'.get? (logKey v i) = rows.get? (logKey v i)) : Retains a' rows' where
  above v i hv found := by
    rw [same] at found
    rw [horizon]
    exact retains.above v i hv found
  kept v w := by
    rw [same, history, horizon]
    exact retains.kept v w

theorem begun (retains : Retains a rows) (now : Nat) :
    Retains a.begun (rows.apply [.put txnIdKey (cell (a.lastTxnId + 1)),
      .put (ledgerKey a.next) (cell now)]) := by
  refine retains.aside rfl a.horizon_begun fun v i => RawRows.get?_apply_of_absent ?_
  simp [RawWrite.key, logKey, txnIdKey, ledgerKey]

theorem renewed (retains : Retains a rows) (r : Registration) (now : Nat) :
    Retains a (rows.apply [.put (ledgerKey r) (cell now)]) := by
  refine retains.aside rfl rfl fun v i => RawRows.get?_apply_of_absent ?_
  simp [RawWrite.key, logKey, ledgerKey]

theorem committed (retains : Retains a rows) (sound : a.Sound) {r : Registration}
    (hr : r ∈ a.running) (room : a.history.length + 1 < wordBound) (w : WriteSet) :
    Retains (a.committed w) (rows.apply (commitBatch (a.history.length + 1) w)) where
  above v i hv found := by
    rw [Standing.horizon_committed hr]
    have bound := sound.horizon_le_length
    by_cases new : v = a.history.length + 1
    · omega
    · have old : (rows.apply (commitBatch (a.history.length + 1) w)).get? (logKey v i) =
          rows.get? (logKey v i) :=
        get?_commitBatch_of_other nofun (logKey_ne_of_ne hv room new i) nofun
      rw [old] at found
      exact retains.above v i hv found
  kept v u committed wrote above := by
    rw [Standing.horizon_committed hr] at above
    by_cases old : v ≤ a.history.length
    · have same : (rows.apply (commitBatch (a.history.length + 1) w)).get? (logKey v 0) =
          rows.get? (logKey v 0) :=
        get?_commitBatch_of_other nofun (logKey_ne_of_ne (by omega) room (by omega) 0) nofun
      rw [same]
      rw [Standing.committed, History.commit?_append [w] old] at committed
      exact retains.kept v u committed wrote above
    · have bound := (History.le_length_of_commit? committed).2
      rw [Standing.committed, List.length_append, List.length_singleton] at bound
      obtain rfl : v = a.history.length + 1 := by omega
      obtain rfl : w = u := Option.some.inj ((a.history.commit?_last w).symm.trans committed)
      obtain ⟨key, first⟩ : ∃ key, w.keys[0]? = some key := by
        rw [← w.isEmpty_keys] at wrote
        cases keys : w.keys with
        | nil => simp [keys] at wrote
        | cons key rest => exact ⟨key, rfl⟩
      have put := (mem_commitBatch_iff (a.history.length + 1) w (.put _ key)).2
        (.inr (.inl ⟨0, key, first, rfl⟩))
      -- every write of a commit puts a row, so whichever comes last to this key leaves one
      rcases rows.get?_apply (commitBatch (a.history.length + 1) w)
        (logKey (a.history.length + 1) 0) with ⟨u, hu, _, value⟩ | ⟨absent, _⟩
      · rw [value]
        rcases (mem_commitBatch_iff _ w u).1 hu with ⟨_, _, _, rfl⟩ | ⟨_, _, _, rfl⟩ | rfl <;> rfl
      · exact absurd rfl (absent _ put)

theorem finished (retains : Retains a rows) (holds : Holds a rows) (r : Registration)
    {keep : Registration → Bool} {dropped : List Bytes}
    (sheds : Sheds (a.restrict fun s => ledgerKey s ≠ ledgerKey r) keep dropped)
    (clears : Clears (rows.apply [.delete (ledgerKey r)])
      ((a.restrict fun s => ledgerKey s ≠ ledgerKey r).restrict keep).horizon dropped) :
    Retains ((a.restrict fun s => ledgerKey s ≠ ledgerKey r).restrict keep)
      ((rows.apply [.delete (ledgerKey r)]).apply (dropped.map .delete)) := by
  have aside (v i : Nat) :
      (rows.apply [.delete (ledgerKey r)]).get? (logKey v i) = rows.get? (logKey v i) := by
    apply RawRows.get?_apply_of_absent
    simp [RawWrite.key, logKey, ledgerKey]
  constructor
  · intro v i hv found
    rw [RawRows.get?_apply_delete] at found
    split at found
    · cases found
    · next spared =>
      exact Nat.lt_of_not_le fun below => spared (clears v i below found)
  · intro v w committed wrote above
    have raised :=
      Nat.le_trans (holds.sound.horizon_le_restrict fun s => ledgerKey s ≠ ledgerKey r)
        ((holds.sound.restrict _).horizon_le_restrict keep)
    have found := retains.kept v w committed wrote (Nat.lt_of_le_of_lt raised above)
    rw [RawRows.get?_apply_delete, if_neg, aside]
    · exact found
    · intro mem
      rcases sheds.dispensable _ mem with ⟨ledger, _⟩ | ⟨_, low⟩
      · cases ledger
      · have bound := (History.le_length_of_commit? committed).2
        exact low v 0 above (Nat.lt_of_le_of_lt bound holds.length_lt) (Bytes.capacity_pos 4) rfl

end Retains

/-! ### What a device counts -/

theorem le_of_logKey_lt {u v i j : Nat} (hu : u < wordBound) (hv : v < wordBound)
    (lt : logKey u i < logKey v j) : u ≤ v := by
  obtain ⟨_, i', hi, same⟩ := eq_logKey_of_readLogVersion (readLogVersion_logKey hu i)
  obtain ⟨_, j', hj, same'⟩ := eq_logKey_of_readLogVersion (readLogVersion_logKey hv j)
  rw [same, same', logKey_lt_logKey_iff hu hv hi hj] at lt
  omega

theorem pairwise_loggedVersions (holds : Holds a rows) :
    (loggedVersions rows).Pairwise (· ≤ ·) := by
  rw [loggedVersions, List.pairwise_map]
  refine List.Pairwise.imp_of_mem ?_ (rows.pairwise_between (logRange 0 none).1 (logRange 0 none).2)
  intro e f he hf lt
  obtain ⟨u, i, _, raw, hu⟩ := logRow_of_between holds he
  obtain ⟨v, j, _, raw', hv⟩ := logRow_of_between holds hf
  rw [raw, raw'] at lt ⊢
  rw [logVersion_logKey hu, logVersion_logKey hv]
  exact le_of_logKey_lt hu hv lt

theorem mem_loggedVersions (holds : Holds a rows) (retains : Retains a rows) {u : Nat} :
    u ∈ loggedVersions rows ↔ u ∈ a.history.writing a.horizon := by
  rw [loggedVersions, List.mem_map, History.mem_writing]
  constructor
  · rintro ⟨e, mem, rfl⟩
    obtain ⟨v, i, ⟨w, committed, key, _⟩, raw, hv⟩ := logRow_of_between holds mem
    have found := (OrderedMap.mem_between.1 mem).1
    rw [raw] at found
    rw [raw, logVersion_logKey hv]
    refine ⟨retains.above v i hv (by rw [found]; rfl), w, committed, ?_⟩
    rw [← w.isEmpty_keys, List.isEmpty_eq_false_iff]
    exact List.ne_nil_of_mem (List.mem_of_getElem? key)
  · rintro ⟨above, w, committed, wrote⟩
    have bounds := History.le_length_of_commit? committed
    have small : u < wordBound := Nat.lt_of_le_of_lt bounds.2 holds.length_lt
    obtain ⟨key, found⟩ := Option.isSome_iff_exists.1 (retains.kept u w committed wrote above)
    have inside := (logRange_iff none small (Bytes.capacity_pos 4) (by simp)).2
      ⟨Nat.le_trans (Nat.min_le_left (0 + 1) _) bounds.1, by simp⟩
    exact ⟨(logKey u 0, key), OrderedMap.mem_between.2 ⟨found, inside.1, inside.2⟩,
      logVersion_logKey small 0⟩

theorem eraseReps_loggedVersions (holds : Holds a rows) (retains : Retains a rows) :
    (loggedVersions rows).eraseReps = a.history.writing a.horizon :=
  eq_of_mem_iff_of_pairwise Nat.lt_asymm (pairwise_eraseReps (pairwise_loggedVersions holds))
    (a.history.pairwise_writing a.horizon) fun _ =>
      mem_eraseReps.trans (mem_loggedVersions holds retains)

def Tidy (h : History) (d : Device) : Prop :=
  ∃ a, a.history = h ∧ Holds a d.rows ∧ Retains a d.rows ∧ d.Faultless

theorem Tidy.access {α : Type} {x : Access Device α} {d : Device} {r : Except Error α}
    (faultless : d.Faultless) (does : Does x d.rows r rows) (holds : Holds a rows)
    (retains : Retains a rows) : (x d).1 = r ∧ Tidy a.history (x d).2 := by
  obtain ⟨d', ran, faultless', rfl⟩ := does d faultless rfl
  rw [ran]
  exact ⟨rfl, a, rfl, holds, retains, faultless'⟩

theorem upholds_tidy : Upholds Tidy where
  rows := by
    rintro _ d d' ⟨a, rfl, holds, retains, faultless⟩ same goes_on
    exact ⟨a, rfl, same ▸ holds, same ▸ retains, goes_on faultless⟩
  begin := by
    rintro _ d config now ⟨a, rfl, holds, retains, faultless⟩
    by_cases room : a.lastTxnId + 1 < wordBound
    · have does := does_begin_put holds config now room
      exact (Tidy.access faultless does (holds.begun room now) (retains.begun now)).2
    · have does := does_begin_full holds config now room
      exact (Tidy.access faultless does holds retains).2
  heartbeat := by
    rintro _ d now r ⟨a, rfl, holds, retains, faultless⟩
    by_cases registered : (d.rows.get? (ledgerKey r)).isSome
    · exact (Tidy.access faultless (does_heartbeat_put registered now)
        (holds.renewed registered now) (retains.renewed r now)).2
    · exact (Tidy.access faultless (does_heartbeat_idle registered now) holds retains).2
  finish := by
    rintro config _ d now r pos ⟨a, rfl, holds, retains, faultless⟩
    obtain ⟨dropped, sheds, clears, does⟩ := does_finish_delete holds pos now r
    exact (Tidy.access faultless does ((holds.withdrawn r).sheds sheds)
      (retains.finished holds r sheds clears)).2
  commit := by
    rintro config _ d r reads w pos ⟨a, rfl, holds, retains, faultless⟩
    rcases commit_cases holds pos r reads w with ⟨_, does⟩ | ⟨e, _, does⟩ | ⟨_, _, does⟩ |
      ⟨registered, valid, rows, _, after⟩
    · exact .inl ⟨_, Tidy.access faultless does holds retains⟩
    · exact .inl ⟨_, Tidy.access faultless does holds retains⟩
    · exact .inl ⟨_, Tidy.access faultless does holds retains⟩
    · have room : a.history.length + 1 < wordBound := by
        simpa [Standing.committed] using after.length_lt
      obtain ⟨s, hs, _⟩ := (holds.registered_iff r).1 registered
      have does := does_commit_put (w := w) holds pos registered valid room
      obtain ⟨done, tidy⟩ := Tidy.access faultless does (holds.committed hs room w)
        (retains.committed holds.sound hs room w)
      exact .inr ⟨⟨_, done⟩, tidy⟩

end Durable

/-! ### What both stores tell -/

def Client.stats {μ σ κ : Type} (c : Client μ σ κ) : Except Error Stats :=
  (c.backend.stats c.medium).1

theorem Keyspace.stats_client (qs : List Request) :
    (client.after qs).stats = .ok ⟨(client.history qs).length,
      ((client.history qs).since (client.after qs).medium.running).length,
      (client.after qs).medium.running.length⟩ := by
  obtain ⟨i, matched, same⟩ := client_matches qs
  rw [← same]
  generalize client.after qs = c at matched
  obtain @⟨s, snapshots, holds, _, _⟩ := matched
  have logged : s.log.length = (i.history.since s.running).length := by
    have versions := congrArg List.length (versions_above i.history i.standing.horizon)
    rw [List.length_map, List.length_range'] at versions
    rw [holds.log, History.since, holds.running, Reference.history, least_running holds.sound,
      List.length_drop]
    exact versions
  change Except.ok (Stats.mk s.version s.log.length s.running.length) = _
  rw [holds.version, logged]
  rfl

theorem Durable.stats_client (config : Config) (qs : List Request) :
    let c := (client config).after qs
    let h := (client config).history qs
    c.stats = .ok ⟨h.length, ((h.since (registered c.medium.rows)).filter (!·.isEmpty)).length,
      (registered c.medium.rows).length⟩ := by
  have fresh : Upheld Tidy [] (client config) :=
    .intro (Nat.le_max_right _ _) ⟨{}, rfl, .empty, .empty, Device.faultless_new⟩
  have upheld := fresh.run upholds_tidy qs
  rw [List.nil_append] at upheld
  dsimp only
  generalize (client config).after qs = c at upheld
  generalize (client config).history qs = h at upheld
  obtain @⟨config, d, snapshots, pos, a, rfl, holds, retains, faultless⟩ := upheld
  have counted : (loggedVersions d.rows).eraseReps.length =
      ((a.history.since (registered d.rows)).filter (!·.isEmpty)).length := by
    rw [eraseReps_loggedVersions holds retains, History.length_writing, History.since,
      least_registered holds]
  have told := (Tidy.access faultless (does_stats holds pos) holds retains).1
  rw [counted, ← registered_eq holds] at told
  exact told

/-- Both stores count the versions above the least one that is being read, in memory all of them
and on a device those that wrote something. If the requests are fair the stores have the same
commits and the same registrations, so they tell the same exactly as long as each version that is
kept wrote something. -/
theorem log_entries_counted (config : Config) (qs : List Request) :
    let m := Keyspace.client.after qs
    let d := (Durable.client config).after qs
    let h := Keyspace.client.history qs
    let k := (Durable.client config).history qs
    let inMemory := m.medium.running
    let onDevice := Durable.registered d.medium.rows
    m.stats = .ok ⟨h.length, (h.since inMemory).length, inMemory.length⟩ ∧
    d.stats = .ok ⟨k.length, ((k.since onDevice).filter (!·.isEmpty)).length, onDevice.length⟩ ∧
    (qs.length + 1 < Layout.wordBound → FairRun Keyspace.client (Durable.client config) qs →
      k = h ∧ onDevice = inMemory ∧
        (m.stats = d.stats ↔ ∀ w ∈ h.since inMemory, w.isEmpty = false)) := by
  intro m d h k inMemory onDevice
  have in_memory : m.stats = .ok ⟨h.length, (h.since inMemory).length, inMemory.length⟩ :=
    Keyspace.stats_client qs
  have on_device := Durable.stats_client config qs
  refine ⟨in_memory, on_device, fun short fair => ?_⟩
  obtain ⟨answers, hm, hd⟩ := run_eq_fresh short fair
  have commits : k = h := (congrArg OptimisticStore.commits answers).symm
  have registrations : onDevice = inMemory :=
    (Durable.registered_eq hd.holds).trans hm.holds.running.symm
  have alike : d.stats = .ok ⟨h.length, ((h.since inMemory).filter (!·.isEmpty)).length,
      inMemory.length⟩ := by
    rw [← commits, ← registrations]
    exact on_device
  refine ⟨commits, registrations, ?_⟩
  rw [in_memory, alike, Except.ok.injEq, Stats.mk.injEq]
  simp only [true_and, and_true]
  rw [eq_comm, List.length_filter_eq_length_iff]
  simp

def countedRequests : List Request :=
  [.begin 0, .commit ⟨0, 1⟩ {} (.ofList [([106], some [0])]), .begin 0, .finish 0 ⟨0, 1⟩, .begin 0,
    .commit ⟨1, 3⟩ {} (.ofList [([107], some [1]), ([108], none)]), .finish 0 ⟨1, 3⟩, .begin 0,
    .commit ⟨2, 4⟩ {} (.ofList [([109], some [2])])]

theorem log_entries_counted_sample :
    (countedRequests.length + 1 < Layout.wordBound ∧
      FairRun Keyspace.client (Durable.client {}) countedRequests) ∧
    (Keyspace.client.after countedRequests).stats.toOption = some ⟨3, 2, 2⟩ ∧
    (Keyspace.client.after countedRequests).stats =
      ((Durable.client {}).after countedRequests).stats := by
  have short : countedRequests.length + 1 < Layout.wordBound := by decide
  have fair : FairRun Keyspace.client (Durable.client {}) countedRequests := by decide +kernel
  have wrote : ∀ w ∈ (Keyspace.client.history countedRequests).since
      (Keyspace.client.after countedRequests).medium.running, w.isEmpty = false := by
    decide +kernel
  obtain ⟨_, _, same⟩ := (log_entries_counted {} countedRequests).2.2 short fair
  exact ⟨⟨short, fair⟩, by decide +kernel, same.2 wrote⟩

/-- A commit that writes nothing makes a version all the same, and counts in memory only. -/
theorem idle_version_uncounted :
    let qs : List Request := [.begin 0, .commit ⟨0, 1⟩ {} {}]
    FairRun Keyspace.client (Durable.client {}) qs ∧
      (Keyspace.client.after qs).stats.toOption = some ⟨1, 1, 1⟩ ∧
      ((Durable.client {}).after qs).stats.toOption = some ⟨1, 0, 1⟩ := by
  decide +kernel

end OptimisticStore
