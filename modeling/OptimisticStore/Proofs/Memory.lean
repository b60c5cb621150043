import OptimisticStore.Proofs.Standing

/-! The store in memory keeps what it has taken on: its data is the last committed state, the
same tree even, and its log has exactly the versions above the horizon. So a transaction that
is still registered is validated as if the log had never been pruned. -/

namespace OptimisticStore.Keyspace

structure Holds (a : Standing) (s : Keyspace) : Prop where
  sound : a.Sound
  version : s.version = a.history.length
  data : s.data = a.history.state a.history.length
  log : s.log = a.history.entries.filter (a.horizon < ·.1)
  running : s.running = a.running
  lastTxnId : s.lastTxnId = a.lastTxnId

namespace Holds
variable {a : Standing} {s : Keyspace}

theorem empty : Holds {} {} where
  sound := Standing.sound_empty
  version := rfl
  data := rfl
  log := rfl
  running := rfl
  lastTxnId := rfl

theorem begin_eq (holds : Holds a s) :
    ∃ s', begin s = (.ok (a.next, ⟨a.history.length, a.history.state a.history.length⟩), s') ∧
      Holds a.begun s' := by
  refine ⟨(begin s).2, ?_, ?_⟩
  · simp only [begin, Standing.next, holds.version, holds.data, holds.lastTxnId]
  · constructor
    · exact holds.sound.begun
    · exact holds.version
    · exact holds.data
    · rw [Standing.horizon_begun]
      exact holds.log
    · simp only [begin, Standing.begun, Standing.next, holds.running, holds.version,
        holds.lastTxnId]
    · simp only [begin, Standing.begun, holds.lastTxnId]

theorem apply (holds : Holds a s) {r : Registration} (hr : r ∈ a.running) (w : WriteSet) :
    Holds (a.committed w) (s.apply w) where
  sound := holds.sound.committed w
  version := by
    simp only [Keyspace.apply, Standing.committed, holds.version, List.length_append,
      List.length_singleton]
  data := by
    simp only [Keyspace.apply, Standing.committed, holds.data, List.length_append,
      List.length_singleton, History.state_last]
    rfl
  log := by
    have above : a.horizon < a.history.length + 1 :=
      Nat.lt_succ_of_le holds.sound.horizon_le_length
    rw [Standing.horizon_committed hr, Standing.committed, History.entries_snoc,
      List.filter_append, Keyspace.apply, holds.log, holds.version]
    simp [above]
  running := holds.running
  lastTxnId := holds.lastTxnId

/-- Above the read version of a registration the pruned log is the full one. -/
theorem writtenAfter_eq (holds : Holds a s) {r : Registration} (hr : r ∈ a.running) :
    s.writtenAfter r.readVersion = a.history.log.filter (r.readVersion < ·.1) := by
  have below : a.horizon ≤ r.readVersion := holds.sound.horizon_le hr
  rw [writtenAfter, holds.log, List.filter_filter, History.log]
  generalize a.history.entries = es
  induction es with
  | nil => rfl
  | cons e es ih =>
    rw [List.flatMap_cons, List.filter_append, ← ih, List.filter_cons, List.filter_map]
    by_cases later : r.readVersion < e.1
    · have kept : a.horizon < e.1 := Nat.lt_of_le_of_lt below later
      have all : e.2.filter (fun _ => true) = e.2 := List.filter_eq_self.2 fun _ _ => rfl
      simp [later, kept, Function.comp_def, all]
    · simp [later, Function.comp_def]

section Commit
variable {r : Registration} {reads : ReadFootprint}

theorem contains_of_running (holds : Holds a s) (hr : r ∈ a.running) :
    s.running.contains r = true := by
  rw [holds.running]
  exact List.contains_iff_mem.2 hr

theorem validate_writtenAfter (holds : Holds a s) (hr : r ∈ a.running) (reads : ReadFootprint) :
    reads.validate r.readVersion (s.writtenAfter r.readVersion) =
      reads.validate r.readVersion a.history.log := by
  apply ReadFootprint.validate_congr
  rw [holds.writtenAfter_eq hr, List.filter_filter]
  simp

theorem commit_ok (holds : Holds a s) (hr : r ∈ a.running)
    (valid : reads.validate r.readVersion a.history.log = .ok ()) (w : WriteSet) :
    commit r reads w s = (.ok (a.history.length + 1), s.apply w) := by
  simp only [commit, holds.contains_of_running hr, if_true, holds.validate_writtenAfter hr, valid,
    holds.version]

theorem commit_error (holds : Holds a s) (hr : r ∈ a.running) {e : Error}
    (refused : reads.validate r.readVersion a.history.log = .error e) (w : WriteSet) :
    commit r reads w s = (.error e, s) := by
  simp only [commit, holds.contains_of_running hr, if_true, holds.validate_writtenAfter hr, refused]

end Commit

theorem commit_of_not_running (holds : Holds a s) {r : Registration} (hr : r ∉ a.running)
    (reads : ReadFootprint) (w : WriteSet) :
    commit r reads w s = (.error (.notRunning r), s) := by
  have unregistered : s.running.contains r = false := by
    rw [holds.running]
    exact Bool.eq_false_iff.2 fun h => hr (List.contains_iff_mem.1 h)
  simp only [commit, unregistered, Bool.false_eq_true, if_false]

theorem withdraw_prune (holds : Holds a s) (r : Registration) :
    Holds (a.restrict (· ≠ r)) (s.withdraw r).prune := by
  have sound := holds.sound.restrict (· ≠ r)
  have left : (s.withdraw r).running = (a.restrict (· ≠ r)).running := by
    rw [withdraw, holds.running, holds.sound.erase_eq_filter]
    rfl
  have horizon_is : (s.withdraw r).horizon = (a.restrict (· ≠ r)).horizon := by
    rw [horizon, left]
    simp only [withdraw, holds.version]
    rfl
  have raised := holds.sound.horizon_le_restrict (· ≠ r)
  constructor
  · exact sound
  · exact holds.version
  · exact holds.data
  · simp only [prune, horizon_is]
    rw [withdraw, holds.log, List.filter_filter]
    apply List.filter_congr
    intro e _
    have kept (above : (a.restrict (· ≠ r)).horizon < e.1) : a.horizon < e.1 :=
      Nat.lt_of_le_of_lt raised above
    simpa using kept
  · exact left
  · exact holds.lastTxnId

theorem abandon (holds : Holds a s) (r : Registration) :
    Holds (a.restrict (· ≠ r)) (Keyspace.abandon r s) := by
  rw [Keyspace.abandon]
  split
  · exact holds.withdraw_prune r
  · next unregistered =>
    have absent : r ∉ a.running := by
      rw [← holds.running]
      exact fun h => unregistered (List.contains_iff_mem.2 h)
    have same : a.restrict (· ≠ r) = a := by
      have all : a.running.filter (· ≠ r) = a.running :=
        List.filter_eq_self.2 fun x hx => decide_eq_true fun h => absent (h ▸ hx)
      rw [Standing.restrict, all]
    rw [same]
    exact holds

end Holds
end OptimisticStore.Keyspace
