import OptimisticStore.Proofs.Memory
import OptimisticStore.Proofs.Polling
import OptimisticStore.Proofs.Requests

/-! A reference for both stores. It keeps the whole history and the list of registrations,
nothing else, and answers every request from them: a snapshot is a version, and a commit is
validated against all that was ever written. The store in memory answers as the reference does.
A durable store has the same history, but it may let registrations lapse and may run out of
numbers; as long as it does neither it answers as the reference does, too. -/

namespace OptimisticStore

structure Reference where
  standing : Standing := {}
  /-- Versions of the snapshots handed out. -/
  handed : List Nat := []

namespace Reference

def history (i : Reference) : History := i.standing.history

def current (i : Reference) : Nat := i.standing.history.length

def serve (i : Reference) : Request → Reply × Reference
  | .begin _ =>
    (.begun (.ok (i.standing.next, i.current)), ⟨i.standing.begun, i.handed ++ [i.current]⟩)
  | .heartbeat _ _ => (.done (.ok ()), i)
  | .commit r reads w =>
    if r ∈ i.standing.running then
      match reads.validate r.readVersion i.history.log with
      | .ok () => (.committed (.ok (i.current + 1)), ⟨i.standing.committed w, i.handed⟩)
      | .error e => (.committed (.error e), i)
    else (.committed (.error (.notRunning r)), i)
  | .finish _ r | .abandon r => (.done (.ok ()), ⟨i.standing.restrict (· ≠ r), i.handed⟩)
  | .stats => (.stats (.ok (i.current, i.standing.running.length)), i)
  | .get n key =>
    (i.handed[n]?.elim .refused fun v => .value (.ok ((i.history.state v).get? key)), i)
  | .query n c =>
    (i.handed[n]?.elim .refused fun v => .rows (.ok (c.select (i.history.state v))), i)
  | .reopen _ => (.done (.ok ()), i)

def after (i : Reference) (qs : List Request) : Reference :=
  qs.foldl (fun i q => (i.serve q).2) i

theorem history_serve (i : Reference) (q : Request) :
    (i.serve q).2.history = i.history ++ (written (q, (i.serve q).1)).toList := by
  cases q with
  | commit r reads w =>
    simp only [serve]
    split
    · split
      · rfl
      · exact (List.append_nil _).symm
    · exact (List.append_nil _).symm
  | get n key =>
    simp only [serve]
    cases i.handed[n]? <;> exact (List.append_nil _).symm
  | query n c =>
    simp only [serve]
    cases i.handed[n]? <;> exact (List.append_nil _).symm
  | _ => exact (List.append_nil _).symm

end Reference

/-! ### In memory -/

namespace Keyspace

inductive Matches (i : Reference) : Client Keyspace Snapshot (Walk Bytes Bytes) → Prop
  | intro {s : Keyspace} {snapshots : List Snapshot}
      (holds : Holds i.standing s)
      (handed : snapshots.map (·.version) = i.handed)
      (taken : ∀ p ∈ snapshots, p.version ≤ i.current ∧ p.data = i.history.state p.version) :
      Matches i ⟨Keyspace.backend, fun _ => pure Keyspace.backend, s, snapshots⟩

theorem matches_client : Matches {} client := .intro .empty rfl (by simp)

theorem Matches.holds {i : Reference} {c : Client Keyspace Snapshot (Walk Bytes Bytes)}
    (same : Matches i c) : Holds i.standing c.medium := by
  obtain @⟨_, _, holds, _, _⟩ := same
  exact holds

theorem serve_commit {i : Reference} {c : Client Keyspace Snapshot (Walk Bytes Bytes)}
    (same : Matches i c) (r : Registration) (reads : ReadFootprint) (w : WriteSet) :
    (c.serve (.commit r reads w)).1 = (i.serve (.commit r reads w)).1 ∧
      Matches (i.serve (.commit r reads w)).2 (c.serve (.commit r reads w)).2 := by
  obtain @⟨s, snapshots, holds, handed, taken⟩ := same
  rw [Reference.serve]
  by_cases registered : r ∈ i.standing.running
  · rw [if_pos registered, Reference.history]
    cases valid : reads.validate r.readVersion i.standing.history.log with
    | ok =>
      have committed : backend.commit r reads w s = _ := holds.commit_ok registered valid w
      rw [Client.serve, Client.serveBy_eq committed]
      refine ⟨rfl, .intro (holds.apply registered w) handed ?_⟩
      intro p hp
      obtain ⟨old, data⟩ := taken p hp
      refine ⟨Nat.le_trans old (by simp [Reference.current, Standing.committed]), ?_⟩
      rw [data, Reference.history, Reference.history, Standing.committed,
        History.state_append [w] old]
    | error e =>
      have refused : backend.commit r reads w s = _ := holds.commit_error registered valid w
      rw [Client.serve, Client.serveBy_eq refused]
      exact ⟨rfl, .intro holds handed taken⟩
  · have refused : backend.commit r reads w s = _ :=
      holds.commit_of_not_running registered reads w
    rw [if_neg registered, Client.serve, Client.serveBy_eq refused]
    exact ⟨rfl, .intro holds handed taken⟩

theorem serve_matches {i : Reference} {c : Client Keyspace Snapshot (Walk Bytes Bytes)}
    (same : Matches i c) (q : Request) :
    (c.serve q).1 = (i.serve q).1 ∧ Matches (i.serve q).2 (c.serve q).2 := by
  obtain @⟨s, snapshots, holds, handed, taken⟩ := same
  have known (n : Nat) : i.handed[n]? = snapshots[n]?.map (·.version) := by
    rw [← handed, List.getElem?_map]
  cases q with
  | begin now =>
    obtain ⟨s', begun, after⟩ := holds.begin_eq
    have begun : backend.begin now s = _ := begun
    simp only [Client.serve, begun]
    refine ⟨rfl, .intro after ?_ ?_⟩
    · rw [List.map_append, handed]
      rfl
    · intro p hp
      rcases List.mem_append.1 hp with hp | hp
      · exact taken p hp
      · obtain rfl := List.mem_singleton.1 hp
        exact ⟨Nat.le_refl _, rfl⟩
  | heartbeat now r => exact ⟨rfl, .intro holds handed taken⟩
  | commit r reads w => exact serve_commit (.intro holds handed taken) r reads w
  | finish now r =>
    exact ⟨rfl, .intro (holds.withdraw_prune r) handed taken⟩
  | abandon r => exact ⟨rfl, .intro (holds.abandon r) handed taken⟩
  | stats =>
    refine ⟨?_, .intro holds handed taken⟩
    change Reply.stats (.ok (s.version, s.running.length)) = _
    rw [holds.version, holds.running]
    rfl
  | get n key =>
    simp only [Client.serve, Reference.serve, known]
    cases found : snapshots[n]? with
    | none => exact ⟨rfl, .intro holds handed taken⟩
    | some p =>
      refine ⟨?_, .intro holds handed taken⟩
      rw [Option.map_some, Option.elim_some, ← (taken p (List.mem_of_getElem? found)).2]
      rfl
  | query n condition =>
    simp only [Client.serve, Reference.serve, known]
    cases found : snapshots[n]? with
    | none => exact ⟨rfl, .intro holds handed taken⟩
    | some p =>
      simp only
      rw [Client.serveBy_eq (rows_eq p condition s), Option.map_some, Option.elim_some,
        ← (taken p (List.mem_of_getElem? found)).2]
      exact ⟨rfl, .intro holds handed taken⟩
  | reopen config => exact ⟨rfl, .intro holds handed taken⟩

theorem run_matches {i : Reference} {c : Client Keyspace Snapshot (Walk Bytes Bytes)}
    (same : Matches i c) (qs : List Request) :
    Matches (i.after qs) (c.after qs) ∧ (i.after qs).history = i.history ++ c.history qs := by
  induction qs generalizing i c with
  | nil => exact ⟨same, (List.append_nil _).symm⟩
  | cons q qs ih =>
    obtain ⟨reply, next⟩ := serve_matches same q
    obtain ⟨after, history⟩ := ih next
    refine ⟨after, ?_⟩
    change ((i.serve q).2.after qs).history = _
    rw [history, i.history_serve q, ← reply, List.append_assoc, Client.history, ← commits_cons]
    rfl

theorem client_matches (qs : List Request) :
    ∃ i, Matches i (client.after qs) ∧ i.history = client.history qs :=
  ⟨_, run_matches matches_client qs⟩

end Keyspace

/-! ### On a device -/

namespace Durable
open Layout

inductive Matches (i : Reference) : Client Device Snapshot (Option Cursor) → Prop
  | intro {config : Config} {d : Device} {snapshots : List Snapshot}
      (pos : 0 < config.pageSize) (faultless : d.Faultless) (holds : Holds i.standing d.rows)
      (handed : snapshots.map (·.version) = i.handed)
      (taken : ∀ p ∈ snapshots, p.version ≤ i.current ∧ 0 < p.pageSize) :
      Matches i ⟨backend config, fun config => do return backend (← openStore config), d, snapshots⟩

theorem withPageSize_pos (config : Config) : 0 < (config.withPageSize config.pageSize).pageSize :=
  Nat.le_max_right _ _

theorem matches_client (config : Config) : Matches {} (client config) :=
  .intro (withPageSize_pos config) Device.faultless_new .empty rfl (by simp)

theorem Matches.holds {i : Reference} {c : Client Device Snapshot (Option Cursor)}
    (same : Matches i c) : Holds i.standing c.medium.rows := by
  obtain @⟨_, _, _, _, _, holds, _, _⟩ := same
  exact holds

def keepsOthers (r : Registration) (before after : RawRows) : Bool :=
  (OrderedMap.between before ledgerRange.1 ledgerRange.2).all fun e =>
    e.1 == ledgerKey r || after.contains e.1

/-- The numbers have not run out, the log has all that a commit is validated against, and nobody
who is registered is let go before it ends. -/
def Regular (i : Reference) (before after : RawRows) : Request → Prop
  | .begin _ => i.standing.lastTxnId + 1 < wordBound
  | .commit r _ _ =>
    r ∈ i.standing.running ∧ i.history.FitsSince r.readVersion ∧ i.current + 1 < wordBound
  | .finish _ r => r.Fits ∧ keepsOthers r before after = true
  | .abandon _ => False
  | _ => True

theorem restrict_eq_of_keepsOthers {a : Standing} {before after : RawRows} {r : Registration}
    {keep : Registration → Bool} (holds : Holds a before) (fits : r.Fits)
    (holds' : Holds (a.restrict keep) after) (drops : ∀ s, keep s = true → s ≠ r)
    (keeps : keepsOthers r before after = true) : a.restrict keep = a.restrict (· ≠ r) := by
  rw [Standing.restrict, Standing.restrict]
  congr 1
  apply List.filter_congr
  intro s hs
  rw [Bool.eq_iff_iff, decide_eq_true_eq]
  refine ⟨drops s, fun other => ?_⟩
  have in_ledger : (ledgerKey s, (before.get? (ledgerKey s)).getD []) ∈
      OrderedMap.between before ledgerRange.1 ledgerRange.2 := by
    rw [ledger_eq holds]
    exact List.mem_map_of_mem hs
  have still := List.all_eq_true.1 keeps _ in_ledger
  have ne : ledgerKey s ≠ ledgerKey r := fun same => other (ledgerKey_inj (holds.fits hs) fits same)
  simp only [Bool.or_eq_true, beq_iff_eq, ne, false_or] at still
  obtain ⟨t, ht, same⟩ := (holds'.registered_iff s).1 still
  obtain ⟨mem, kept⟩ := List.mem_filter.1 ht
  rw [(holds.ledgerKey_eq_iff hs mem).1 same]
  exact kept

/-- What a durable store does for one request, next to the reference: its history grows by what
it commits, and unless something irregular happens it answers as the reference does. -/
structure Serves (i i' : Reference) (c : Client Device Snapshot (Option Cursor)) (q : Request) :
    Prop where
  next : Matches i' (c.serve q).2
  grown : i'.history = i.history ++ (written (q, (c.serve q).1)).toList
  answers : Regular i c.medium.rows (c.serve q).2.medium.rows q →
    (c.serve q).1 = (i.serve q).1 ∧ i' = (i.serve q).2

theorem Serves.of_eq {i i' : Reference} {c c' : Client Device Snapshot (Option Cursor)}
    {q : Request} {reply : Reply} (served : c.serve q = (reply, c')) (next : Matches i' c')
    (grown : i'.history = i.history ++ (written (q, reply)).toList)
    (answers : Regular i c.medium.rows c'.medium.rows q →
      reply = (i.serve q).1 ∧ i' = (i.serve q).2) : Serves i i' c q := by
  refine ⟨?_, ?_, ?_⟩ <;> rw [served]
  · exact next
  · exact grown
  · exact answers

section Serving
variable {config : Config} {d : Device} {snapshots : List Snapshot} {i i' : Reference}
  (pos : 0 < config.pageSize) (faultless : d.Faultless)

def opened (config : Config) (d : Device) (snapshots : List Snapshot) :
    Client Device Snapshot (Option Cursor) :=
  ⟨backend config, fun config => do return backend (← openStore config), d, snapshots⟩

include pos faultless

/-- Requests that are served by one access to the device. -/
theorem serves_by {α : Type} {x : Access Device α} {reply : Except Error α → Reply}
    {r : Except Error α} {rows : RawRows} {q : Request}
    (serves : (opened config d snapshots).serve q = (opened config d snapshots).serveBy reply x)
    (does : Device.Does x d.rows r rows) (after : Holds i'.standing rows)
    (handed : snapshots.map (·.version) = i'.handed)
    (taken : ∀ p ∈ snapshots, p.version ≤ i'.current ∧ 0 < p.pageSize)
    (grown : i'.history = i.history ++ (written (q, reply r)).toList)
    (answers : Regular i d.rows rows q → reply r = (i.serve q).1 ∧ i' = (i.serve q).2) :
    Serves i i' (opened config d snapshots) q := by
  obtain ⟨d', ran, faultless', rfl⟩ := does d faultless rfl
  have served : (opened config d snapshots).serve q = (reply r, opened config d' snapshots) :=
    serves.trans (Client.serveBy_eq ran reply)
  exact .of_eq served (.intro pos faultless' after handed taken) grown answers

variable (holds : Holds i.standing d.rows) (handed : snapshots.map (·.version) = i.handed)
  (taken : ∀ p ∈ snapshots, p.version ≤ i.current ∧ 0 < p.pageSize)
include holds handed taken

theorem serves_begin (now : Nat) :
    ∃ i', Serves i i' (opened config d snapshots) (.begin now) := by
  by_cases room : i.standing.lastTxnId + 1 < wordBound
  · obtain ⟨rows', does, after⟩ := does_begin holds config now room
    obtain ⟨d', ran, faultless', rfl⟩ := does d faultless rfl
    have begun : (backend config).begin now d = _ := ran
    have served : (opened config d snapshots).serve (.begin now) = (.begun (.ok (i.standing.next,
        i.current)), opened config d' (snapshots ++ [⟨i.current, config.pageSize⟩])) := by
      simp only [Client.serve, opened, begun]
      rfl
    refine ⟨(i.serve (.begin now)).2, .of_eq served (.intro pos faultless' after ?_ ?_)
      (List.append_nil _).symm fun _ => ⟨rfl, rfl⟩⟩
    · rw [List.map_append, handed]
      rfl
    · intro p hp
      rcases List.mem_append.1 hp with hp | hp
      · exact taken p hp
      · obtain rfl := List.mem_singleton.1 hp
        exact ⟨Nat.le_refl _, pos⟩
  · obtain ⟨d', ran, faultless', same⟩ := does_begin_full holds config now room d faultless rfl
    have refused : (backend config).begin now d = _ := ran
    have served : (opened config d snapshots).serve (.begin now) =
        (.begun (.error (.storage .counterFull)), opened config d' snapshots) := by
      simp only [Client.serve, opened, refused]
    exact ⟨i, .of_eq served (.intro pos faultless' (same ▸ holds) handed taken)
      (List.append_nil _).symm fun regular => absurd regular room⟩

theorem serves_commit (r : Registration) (reads : ReadFootprint) (w : WriteSet) :
    ∃ i', Serves i i' (opened config d snapshots) (.commit r reads w) := by
  have unwritten : i.history = i.history ++ [] := (List.append_nil _).symm
  have agrees (registered : r ∈ i.standing.running) (fits : i.history.FitsSince r.readVersion) :
      i.serve (.commit r reads w) =
        match reads.validate r.readVersion (logSince d.rows r.readVersion) with
        | .ok () => (.committed (.ok (i.current + 1)), ⟨i.standing.committed w, i.handed⟩)
        | .error e => (.committed (.error e), i) := by
    rw [validate_logSince holds registered fits, Reference.serve, if_pos registered]
    rfl
  rcases commit_cases holds pos r reads w with
    ⟨unregistered, does⟩ | ⟨e, refused, does⟩ | ⟨_, full, does⟩ | ⟨_, valid, rows', does, after⟩
  · refine ⟨i, serves_by pos faultless rfl does holds handed taken unwritten ?_⟩
    rintro ⟨registered, _⟩
    rw [(holds.registered_iff r).2 ⟨r, registered, rfl⟩] at unregistered
    cases unregistered
  · refine ⟨i, serves_by pos faultless rfl does holds handed taken unwritten ?_⟩
    rintro ⟨registered, fits, _⟩
    rw [agrees registered fits, refused]
    exact ⟨rfl, rfl⟩
  · refine ⟨i, serves_by pos faultless rfl does holds handed taken unwritten ?_⟩
    rintro ⟨_, _, room⟩
    exact absurd room full
  · refine ⟨⟨i.standing.committed w, i.handed⟩, serves_by pos faultless rfl does after handed ?_
      rfl ?_⟩
    · intro p hp
      obtain ⟨old, paged⟩ := taken p hp
      exact ⟨Nat.le_trans old (by simp [Reference.current, Standing.committed]), paged⟩
    · rintro ⟨registered, fits, _⟩
      rw [agrees registered fits, valid]
      exact ⟨rfl, rfl⟩

theorem serves_finish (now : Nat) (r : Registration) :
    ∃ i', Serves i i' (opened config d snapshots) (.finish now r) := by
  obtain ⟨rows', does, after⟩ := does_finish holds pos now r
  refine ⟨⟨i.standing.restrict _, i.handed⟩, serves_by pos faultless rfl does after handed taken
    (List.append_nil _).symm ?_⟩
  rintro ⟨fits, keeps⟩
  have only := restrict_eq_of_keepsOthers holds fits after (by
    intro s kept same
    simp [same] at kept) keeps
  exact ⟨rfl, congrArg (Reference.mk · i.handed) only⟩

theorem serves_get (n : Nat) (key : Bytes) :
    ∃ i', Serves i i' (opened config d snapshots) (.get n key) := by
  have unwritten : i.history = i.history ++ [] := (List.append_nil _).symm
  have known : i.handed[n]? = snapshots[n]?.map (·.version) := by
    rw [← handed, List.getElem?_map]
  cases found : snapshots[n]? with
  | none =>
    have served : (opened config d snapshots).serve (.get n key) =
        (.refused, opened config d snapshots) := by
      simp only [Client.serve, opened, found]
    refine ⟨i, .of_eq served (.intro pos faultless holds handed taken) unwritten ?_⟩
    rw [Reference.serve, known, found]
    exact fun _ => ⟨rfl, rfl⟩
  | some p =>
    obtain ⟨old, _⟩ := taken p (List.mem_of_getElem? found)
    have served : (opened config d snapshots).serve (.get n key) =
        (opened config d snapshots).serveBy .value (p.get key) := by
      simp only [Client.serve, opened, found]
      rfl
    refine ⟨i, serves_by pos faultless served (does_get holds p old key) holds handed taken
      unwritten ?_⟩
    rw [Reference.serve, known, found]
    exact fun _ => ⟨rfl, rfl⟩

theorem serves_query (n : Nat) (condition : Condition) :
    ∃ i', Serves i i' (opened config d snapshots) (.query n condition) := by
  have unwritten : i.history = i.history ++ [] := (List.append_nil _).symm
  have known : i.handed[n]? = snapshots[n]?.map (·.version) := by
    rw [← handed, List.getElem?_map]
  cases found : snapshots[n]? with
  | none =>
    have served : (opened config d snapshots).serve (.query n condition) =
        (.refused, opened config d snapshots) := by
      simp only [Client.serve, opened, found]
    refine ⟨i, .of_eq served (.intro pos faultless holds handed taken) unwritten ?_⟩
    rw [Reference.serve, known, found]
    exact fun _ => ⟨rfl, rfl⟩
  | some p =>
    obtain ⟨old, paged⟩ := taken p (List.mem_of_getElem? found)
    have served : (opened config d snapshots).serve (.query n condition) =
        (opened config d snapshots).serveBy .rows ((backend config).rows none p condition) := by
      simp only [Client.serve, opened, found]
    refine ⟨i, serves_by pos faultless served (does_rows holds config p old paged condition) holds
      handed taken unwritten ?_⟩
    rw [Reference.serve, known, found]
    exact fun _ => ⟨rfl, rfl⟩

end Serving

theorem serve_matches {i : Reference} {c : Client Device Snapshot (Option Cursor)}
    (same : Matches i c) (q : Request) :
    ∃ i', Serves i i' c q := by
  obtain @⟨config, d, snapshots, pos, faultless, holds, handed, taken⟩ := same
  have unwritten : i.history = i.history ++ [] := (List.append_nil _).symm
  cases q with
  | begin now => exact serves_begin pos faultless holds handed taken now
  | heartbeat now r =>
    obtain ⟨rows', does, after⟩ := does_heartbeat holds now r
    exact ⟨i, serves_by pos faultless rfl does after handed taken unwritten fun _ => ⟨rfl, rfl⟩⟩
  | commit r reads w => exact serves_commit pos faultless holds handed taken r reads w
  | finish now r => exact serves_finish pos faultless holds handed taken now r
  | abandon r =>
    exact ⟨i, .intro pos faultless holds handed taken, unwritten, fun regular => regular.elim⟩
  | stats =>
    have does := does_stats holds pos
    have served : (opened config d snapshots).serve .stats = (opened config d snapshots).serveBy
        (fun r => .stats (r.map fun s => (s.version, s.running))) (backend config).stats := rfl
    exact ⟨i, serves_by pos faultless served does holds handed taken unwritten fun _ => ⟨rfl, rfl⟩⟩
  | get n key => exact serves_get pos faultless holds handed taken n key
  | query n condition => exact serves_query pos faultless holds handed taken n condition
  | reopen config' =>
    have does : Device.Does (do return backend (← openStore config')) d.rows
        (.ok (backend (config'.withPageSize config'.pageSize))) d.rows :=
      (does_openStore holds config').bind (Device.does_pure _)
    obtain ⟨d', ran, faultless', same⟩ := does d faultless rfl
    have served : (opened config d snapshots).serve (.reopen config') =
        (.done (.ok ()), opened (config'.withPageSize config'.pageSize) d' snapshots) := by
      simp only [Client.serve, opened, ran]
    have next := Matches.intro (withPageSize_pos config') faultless' (same ▸ holds) handed taken
    exact ⟨i, .of_eq served next unwritten fun _ => ⟨rfl, rfl⟩⟩

theorem run_matches {i : Reference} {c : Client Device Snapshot (Option Cursor)}
    (same : Matches i c) (qs : List Request) :
    ∃ i', Matches i' (c.after qs) ∧ i'.history = i.history ++ c.history qs := by
  induction qs generalizing i c with
  | nil => exact ⟨i, same, (List.append_nil _).symm⟩
  | cons q qs ih =>
    obtain ⟨next, step, grown, _⟩ := serve_matches same q
    obtain ⟨i', after, history⟩ := ih step
    refine ⟨i', after, ?_⟩
    rw [history, grown, List.append_assoc, Client.history, ← commits_cons]
    rfl

theorem client_matches (config : Config) (qs : List Request) :
    ∃ i, Matches i ((client config).after qs) ∧ i.history = (client config).history qs :=
  run_matches (matches_client config) qs

end Durable
end OptimisticStore
