import OptimisticStore.Proofs.Memory
import OptimisticStore.Proofs.Polling

/-! Both stores keep the law of a backend. In memory every commit has room in the log; on a
device a commit of more keys than the log has places for would not. -/

namespace OptimisticStore

namespace Keyspace

def Keeps (h : History) (s : Keyspace) : Prop := ∃ a : Standing, a.history = h ∧ Holds a s

theorem commit_registered {r : Registration} {reads : ReadFootprint} {w : WriteSet}
    {s s' : Keyspace} {v : Version} (committed : commit r reads w s = (.ok v, s')) :
    s.running.contains r = true := by
  rw [commit] at committed
  split at committed
  · assumption
  · cases committed

def Sees (h : History) (v : Nat) (s : Snapshot) : Prop := v ≤ h.length ∧ s.data = h.state v

theorem Sees.append {h : History} {v : Nat} {s : Snapshot} (sees : Sees h v s) (t : History) :
    Sees (h ++ t) v s := by
  obtain ⟨bound, data⟩ := sees
  refine ⟨?_, by rw [data, History.state_append t bound]⟩
  rw [List.length_append]
  exact Nat.le_add_right_of_le bound

theorem poll_shut (e : Error) (w : Walk Bytes Bytes) (s : Keyspace) (row : Bytes × Bytes) :
    (backend.poll (some e) w s).1 ≠ some (.ok row) := by
  change (Keyspace.poll (some e) w).1 ≠ _
  rw [Keyspace.poll]
  cases w.next <;> simp

def law : Law backend where
  holds := Keeps
  sees := Sees
  owes _ owed w := w.toList = owed
  fits _ := True
  sees_append t sees := sees.append t
  owes_append _ same := same
  begin_ok := by
    rintro _ s s' now r snapshot ⟨a, rfl, holds⟩ begun
    obtain ⟨next, ran, after⟩ := holds.begin_eq
    cases ran.symm.trans begun
    exact ⟨⟨a.begun, rfl, after⟩, rfl, Nat.le_refl _, rfl⟩
  begin_error := by
    rintro _ s s' now e ⟨a, rfl, holds⟩ refused
    obtain ⟨next, ran, after⟩ := holds.begin_eq
    cases ran.symm.trans refused
  commit_ok := by
    rintro _ s s' r reads w v ⟨a, rfl, holds⟩ committed
    have registered : r ∈ a.running := by
      rw [← holds.running]
      exact List.contains_iff_mem.1 (commit_registered committed)
    cases valid : reads.validate r.readVersion a.history.log with
    | error e =>
      cases (holds.commit_error registered valid w).symm.trans committed
    | ok =>
      cases (holds.commit_ok registered valid w).symm.trans committed
      exact ⟨⟨a.committed w, rfl, holds.apply registered w⟩,
        fun _ => (reads.validate_eq_ok_iff _ _).1 valid⟩
  commit_error := by
    rintro _ s s' r reads w e ⟨a, rfl, holds⟩ refused
    have same : s' = s := by
      change commit r reads w s = _ at refused
      rw [commit] at refused
      split at refused
      · split at refused
        · cases refused
        · cases refused
          rfl
      · cases refused
        rfl
    rw [same]
    exact ⟨a, rfl, holds⟩
  heartbeat _ _ keeps := keeps
  finish := by
    rintro _ s now r ⟨a, rfl, holds⟩
    exact ⟨a.restrict (· ≠ r), rfl, holds.withdraw_prune r⟩
  abandon := by
    rintro _ s r ⟨a, rfl, holds⟩
    exact ⟨a.restrict (· ≠ r), rfl, holds.abandon r⟩
  stats keeps := keeps
  close keeps := keeps
  get := by
    rintro _ s v snapshot key keeps ⟨_, data⟩
    refine ⟨?_, keeps⟩
    rw [← data]
    rfl
  query := by
    rintro _ s v snapshot c keeps ⟨_, data⟩
    rw [← data]
    exact Condition.select_eq_range c _
  pays h := by
    intro owed w s keeps owes
    obtain ⟨w', s', polled, rfl, debt⟩ := Keyspace.pays s owed w s rfl owes
    exact ⟨w', s', polled, keeps, debt⟩
  bounded := by
    rintro _ s owed w keeps rfl
    exact length_toList_le w
  poll _ _ keeps := keeps
  poll_shut := poll_shut

end Keyspace

namespace Durable
open Layout

def Keeps (h : History) (d : Device) : Prop :=
  ∃ a : Standing, a.history = h ∧ Holds a d.rows ∧ d.Faultless

theorem Keeps.access {α : Type} {x : Access Device α} {d : Device} {a : Standing}
    {r : Except Error α} {rows : RawRows} (faultless : d.Faultless)
    (does : Device.Does x d.rows r rows) (after : Holds a rows) :
    (x d).1 = r ∧ Keeps a.history (x d).2 := by
  obtain ⟨d', ran, faultless', rfl⟩ := does d faultless rfl
  rw [ran]
  exact ⟨rfl, a, rfl, after, faultless'⟩

theorem readVersion_of_ledgerKey_eq {r s : Registration} (hr : r.readVersion < wordBound)
    (hs : s.readVersion < wordBound) (same : ledgerKey r = ledgerKey s) :
    r.readVersion = s.readVersion := by
  have cells := (List.append_inj same (by simp)).1
  exact (cell_inj hr hs).1 (List.cons.inj cells).2

theorem Cursor.exists_does_nextPage (c : Cursor) (rows : RawRows) :
    ∃ r, Device.Does c.nextPage rows r rows := by
  have page := Device.does_scan rows c.lower c.upper c.direction c.pageSize
  cases records : ((c.direction.arrange (OrderedMap.between rows c.lower c.upper)).take
      c.pageSize).mapM readDataRow with
  | error defect =>
    refine ⟨.error (.storage (.corrupt defect)), page.bind ?_⟩
    rw [records]
    exact (Device.does_fail _).bind_error
  | ok records' =>
    exact ⟨_, page.bind ((Device.does_decoded records).bind (Device.does_pure _))⟩

theorem Keeps.pull {h : History} (gate : Option Error) (fuel : Nat) (c : Cursor) {d : Device}
    (keeps : Keeps h d) : Keeps h (c.pull gate fuel d).2.2 := by
  induction fuel generalizing c d with
  | zero => exact keeps
  | succ fuel ih =>
    unfold Cursor.pull
    split
    · exact keeps
    · exact keeps
    · split
      · exact keeps
      · obtain ⟨a, rfl, holds, faultless⟩ := keeps
        obtain ⟨r, does⟩ := c.exists_does_nextPage d.rows
        have after := (access faultless does holds).2
        split
        · next ran =>
          rw [ran] at after
          exact after
        · next ran =>
          rw [ran] at after
          exact ih _ after

theorem pull_shut (e : Error) (fuel : Nat) (c : Cursor) (d : Device) (row : Row) :
    (c.pull (some e) fuel d).1 ≠ some (.ok row) := by
  cases fuel with
  | zero => exact nofun
  | succ fuel => simp [Cursor.pull]

variable {config : Config}

theorem Keeps.commit (pos : 0 < config.pageSize) {h : History} {d : Device} (keeps : Keeps h d)
    (r : Registration) (reads : ReadFootprint) (w : WriteSet) :
    match commit config r reads w d with
    | (.ok _, d') => Keeps (h ++ [w]) d' ∧
        (h.FitsSince r.readVersion → ∀ e ∈ h.log, r.readVersion < e.1 → reads.covers e.2 = false)
    | (.error _, d') => Keeps h d' := by
  obtain ⟨a, rfl, holds, faultless⟩ := keeps
  rcases commit_cases holds pos r reads w with ⟨_, does⟩ | ⟨e, _, does⟩ | ⟨_, _, does⟩ |
    ⟨registered, valid, rows, does, after⟩
  · obtain ⟨d', ran, faultless', same⟩ := does d faultless rfl
    rw [ran]
    exact ⟨a, rfl, same ▸ holds, faultless'⟩
  · obtain ⟨d', ran, faultless', same⟩ := does d faultless rfl
    rw [ran]
    exact ⟨a, rfl, same ▸ holds, faultless'⟩
  · obtain ⟨d', ran, faultless', same⟩ := does d faultless rfl
    rw [ran]
    exact ⟨a, rfl, same ▸ holds, faultless'⟩
  · obtain ⟨d', ran, faultless', rfl⟩ := does d faultless rfl
    rw [ran]
    refine ⟨⟨a.committed w, rfl, after, faultless'⟩, fun fits e he later => ?_⟩
    obtain ⟨x, wrote⟩ := (a.history.mem_log e.1 e.2).1 he
    have small : r.readVersion < wordBound :=
      Nat.lt_trans (Nat.lt_of_lt_of_le later wrote.bounds.2) holds.length_lt
    obtain ⟨s, hs, key⟩ := (holds.registered_iff r).1 registered
    have same := readVersion_of_ledgerKey_eq small (holds.fits hs).1 key
    rw [same] at fits later
    rw [same, validate_logSince holds hs fits] at valid
    exact (reads.validate_eq_ok_iff _ _).1 valid e he later

def Sees (h : History) (v : Nat) (s : Snapshot) : Prop :=
  s.version = v ∧ v ≤ h.length ∧ 0 < s.pageSize

theorem Sees.append {h : History} {v : Nat} {s : Snapshot} (sees : Sees h v s) (t : History) :
    Sees (h ++ t) v s := by
  obtain ⟨version, bound, paged⟩ := sees
  refine ⟨version, ?_, paged⟩
  rw [List.length_append]
  exact Nat.le_add_right_of_le bound

def law (config : Config) (pos : 0 < config.pageSize) : Law (backend config) where
  holds := Keeps
  sees := Sees
  owes h owed c := ∃ cursor, c = some cursor ∧ Cursor.Owes h owed cursor
  fits w := w.size ≤ placeBound
  sees_append t sees := sees.append t
  owes_append := by
    rintro h owed _ t ⟨cursor, rfl, owes⟩
    exact ⟨cursor, rfl, owes.append t⟩
  begin_ok := by
    rintro _ d d' now r s ⟨a, rfl, holds, faultless⟩ begun
    by_cases room : a.lastTxnId + 1 < wordBound
    · obtain ⟨rows, does, after⟩ := does_begin holds config now room
      obtain ⟨d'', ran, faultless', rfl⟩ := does d faultless rfl
      cases ran.symm.trans begun
      exact ⟨⟨a.begun, rfl, after, faultless'⟩, rfl, rfl, Nat.le_refl _, pos⟩
    · obtain ⟨d'', ran, _⟩ := does_begin_full holds config now room d faultless rfl
      cases ran.symm.trans begun
  begin_error := by
    rintro _ d d' now e ⟨a, rfl, holds, faultless⟩ refused
    by_cases room : a.lastTxnId + 1 < wordBound
    · obtain ⟨rows, does, after⟩ := does_begin holds config now room
      obtain ⟨d'', ran, faultless', rfl⟩ := does d faultless rfl
      cases ran.symm.trans refused
    · obtain ⟨d'', ran, faultless', same⟩ := does_begin_full holds config now room d faultless rfl
      cases ran.symm.trans refused
      exact ⟨a, rfl, same ▸ holds, faultless'⟩
  commit_ok := by
    intro h d d' r reads w v keeps committed
    have committed : commit config r reads w d = _ := committed
    have cases := keeps.commit pos r reads w
    rw [committed] at cases
    exact cases
  commit_error := by
    intro h d d' r reads w e keeps refused
    have refused : commit config r reads w d = _ := refused
    have cases := keeps.commit pos r reads w
    rw [refused] at cases
    exact cases
  heartbeat := by
    rintro _ d now r ⟨a, rfl, holds, faultless⟩
    obtain ⟨rows, does, after⟩ := does_heartbeat holds now r
    exact (Keeps.access faultless does after).2
  finish := by
    rintro _ d now r ⟨a, rfl, holds, faultless⟩
    obtain ⟨rows, does, after⟩ := does_finish holds pos now r
    exact (Keeps.access faultless does after).2
  abandon _ keeps := keeps
  stats := by
    rintro _ d ⟨a, rfl, holds, faultless⟩
    have does := does_stats holds pos
    exact (Keeps.access faultless does holds).2
  close := by
    rintro _ d ⟨a, rfl, holds, faultless⟩
    exact (Keeps.access faultless Device.does_close holds).2
  get := by
    rintro _ d v s key ⟨a, rfl, holds, faultless⟩ ⟨rfl, bound, _⟩
    exact Keeps.access faultless (does_get holds s bound key) holds
  query := by
    rintro _ d v s c ⟨a, rfl, holds, _⟩ ⟨rfl, bound, paged⟩
    exact ⟨_, rfl, Cursor.owes_ofSnapshot holds s bound paged c⟩
  pays := by
    rintro h owed c d ⟨a, rfl, holds, faultless⟩ owes
    obtain ⟨c', d', polled, ⟨faultless', same⟩, debt⟩ :=
      Durable.pays holds config owed c d ⟨faultless, rfl⟩ owes
    exact ⟨c', d', polled, ⟨a, rfl, same ▸ holds, faultless'⟩, debt⟩
  bounded := by
    rintro _ d owed _ ⟨a, rfl, holds, _⟩ ⟨cursor, rfl, owes⟩
    have short := Cursor.length_owed_le holds owes
    have one : cursor.waiting.toList.length ≤ 1 := by cases cursor.waiting <;> simp
    change owed.length ≤ cursor.ready.length + d.rows.size + 1
    omega
  poll := by
    intro h d gate c keeps
    cases c with
    | none => exact keeps
    | some c => exact keeps.pull gate _ c
  poll_shut := by
    intro e c d row
    cases c with
    | none => exact nofun
    | some c => exact pull_shut e _ c d row

end Durable
end OptimisticStore
