import OptimisticStore.Proofs.Crowding

/-! Conflicts are exact. The answer to a commit is computed from a log that has been pruned, yet
it is the answer that the whole history calls for: a conflict is reported if and only if a later
commit wrote a key that was read, and it is the first one by version and then by key. On a device
this is so as long as no later commit wrote more keys than its log has places for; of one that did
the first keys are missed. -/

namespace OptimisticStore

/-- A commit after the read version wrote or deleted a key in a range that was read. -/
def Missed (h : History) (r : Registration) (reads : ReadFootprint) (v : Nat) (k : Bytes) : Prop :=
  r.readVersion < v ∧ (∃ x, h.Wrote v k x) ∧ ∃ range ∈ reads.ranges, range.contains k = true

/-- On a device a later commit is seen by the log rows that it has left. -/
def Durable.Noticed (h : History) (r : Registration) (reads : ReadFootprint) (v : Nat)
    (k : Bytes) : Prop := Missed h r reads v k ∧ ∃ i, Logged h v i k

/-- What the history calls for when a registration commits. -/
structure Verdict (h : History) (r : Registration) (reads : ReadFootprint)
    (answer : Except Error Version) : Prop where
  conflict_iff : (∃ u v k, answer = .error (.conflict u v k)) ↔ ∃ v k, Missed h r reads v k
  first : ∀ u v k, answer = .error (.conflict u v k) →
    u = r.readVersion ∧ Missed h r reads v k ∧
      ∀ v' k', Missed h r reads v' k' → v < v' ∨ v = v' ∧ k ≤ k'
  ok : (¬ ∃ v k, Missed h r reads v k) → answer = .ok (h.length + 1)
  /-- Nobody has committed since the registration began. -/
  alone : h.length = r.readVersion → answer = .ok (h.length + 1)

theorem missed_iff (h : History) (r : Registration) (reads : ReadFootprint) (v : Nat) (k : Bytes) :
    Missed h r reads v k ↔
      (v, k) ∈ h.log ∧ (r.readVersion < v && reads.covers k) = true := by
  rw [Missed, History.mem_log, ReadFootprint.covers, Bool.and_eq_true, decide_eq_true_eq,
    List.any_eq_true]
  constructor
  · rintro ⟨after, wrote, covered⟩
    exact ⟨wrote, after, covered⟩
  · rintro ⟨wrote, after, covered⟩
    exact ⟨after, wrote, covered⟩

def History.answer (h : History) (r : Registration) (reads : ReadFootprint) :
    Except Error Version :=
  match reads.validate r.readVersion h.log with
  | .ok () => .ok (h.length + 1)
  | .error e => .error e

theorem eq_or_before_of_find? {α : Type} {before : α → α → Prop} {p : α → Bool} {l : List α}
    (sorted : l.Pairwise before) {a b : α} (found : l.find? p = some a) (mem : b ∈ l)
    (hb : p b = true) : b = a ∨ before a b := by
  obtain ⟨_, front, rest, rfl, skipped⟩ := List.find?_eq_some_iff_append.1 found
  rcases List.mem_append.1 mem with mem | mem
  · have none := skipped b mem
    rw [hb] at none
    cases none
  · rcases List.mem_cons.1 mem with same | mem
    · exact .inl same
    · exact .inr ((List.pairwise_cons.1 (List.pairwise_append.1 sorted).2.1).1 b mem)

theorem History.verdict_answer (h : History) (r : Registration) (reads : ReadFootprint) :
    Verdict h r reads (h.answer r reads) := by
  cases found : reads.firstConflict? r.readVersion h.log with
  | none =>
    have free : ¬ ∃ v k, Missed h r reads v k := by
      rintro ⟨v, k, missed⟩
      obtain ⟨mem, covered⟩ := (missed_iff h r reads v k).1 missed
      exact List.find?_eq_none.1 found (v, k) mem covered
    have answer : h.answer r reads = .ok (h.length + 1) := by
      rw [answer, ReadFootprint.validate, found]
    rw [answer]
    exact ⟨iff_of_false (by rintro ⟨u, v, k, ⟨⟩⟩) free, by rintro u v k ⟨⟩, fun _ => rfl,
      fun _ => rfl⟩
  | some first =>
    obtain ⟨v, k⟩ := first
    have answer : h.answer r reads = .error (.conflict r.readVersion v k) := by
      rw [answer, ReadFootprint.validate, found]
    have covered : (r.readVersion < v && reads.covers k) = true :=
      List.find?_some (a := (v, k)) found
    have missed : Missed h r reads v k :=
      (missed_iff h r reads v k).2 ⟨List.mem_of_find?_eq_some found, covered⟩
    have least : ∀ v' k', Missed h r reads v' k' → v < v' ∨ v = v' ∧ k ≤ k' := by
      intro v' k' other
      obtain ⟨mem, covered⟩ := (missed_iff h r reads v' k').1 other
      rcases eq_or_before_of_find? h.pairwise_log found mem covered with same | lt | ⟨same, lt⟩
      · obtain ⟨rfl, rfl⟩ := Prod.mk.inj same
        exact .inr ⟨rfl, Std.le_refl _⟩
      · exact .inl lt
      · exact .inr ⟨same, Std.le_of_lt lt⟩
    rw [answer]
    refine ⟨iff_of_true ⟨_, v, k, rfl⟩ ⟨v, k, missed⟩, ?_,
      fun free => absurd ⟨v, k, missed⟩ free, ?_⟩
    · rintro _ _ _ ⟨rfl⟩
      exact ⟨rfl, missed, least⟩
    · intro alone
      obtain ⟨later, ⟨x, wrote⟩, _⟩ := missed
      have bound := Nat.lt_of_lt_of_le later wrote.bounds.2
      rw [alone] at bound
      exact absurd bound (Nat.lt_irrefl _)

/-- The registrations of the ledger, read back from its rows. -/
def Durable.InLedger (rows : RawRows) (r : Registration) : Prop :=
  ∃ raw, (rows.get? raw).isSome ∧ Layout.readLedgerKey raw = .ok r

theorem Durable.Holds.inLedger_iff {a : Standing} {rows : RawRows} (holds : Holds a rows)
    (r : Registration) : InLedger rows r ↔ r ∈ a.running := by
  constructor
  · rintro ⟨raw, found, read⟩
    have region : Layout.region raw = some 4 := by
      unfold Layout.readLedgerKey at read
      split at read
      · rfl
      · cases read
    obtain ⟨s, hs, rfl⟩ := (holds.ledger raw region).1 found
    rw [Layout.readLedgerKey_ledgerKey (holds.fits hs)] at read
    cases read
    exact hs
  · intro hr
    exact ⟨Layout.ledgerKey r, (holds.registered_iff r).2 ⟨r, hr, rfl⟩,
      Layout.readLedgerKey_ledgerKey (holds.fits hr)⟩

theorem Keyspace.commit_answer {a : Standing} {s : Keyspace} (holds : Holds a s)
    {r : Registration} (hr : r ∈ a.running) (reads : ReadFootprint) (w : WriteSet) :
    (commit r reads w s).1 = a.history.answer r reads := by
  rw [History.answer]
  cases valid : reads.validate r.readVersion a.history.log with
  | ok => rw [holds.commit_ok hr valid]
  | error e => rw [holds.commit_error hr valid]

theorem Durable.commit_answer {a : Standing} {config : Config} {d : Device}
    (holds : Holds a d.rows) (pos : 0 < config.pageSize) (faultless : d.Faultless)
    {r : Registration} (hr : r ∈ a.running) (fits : a.history.FitsSince r.readVersion)
    (room : a.history.length + 1 < Layout.wordBound) (reads : ReadFootprint) (w : WriteSet) :
    (commit config r reads w d).1 = a.history.answer r reads := by
  have full := validate_logSince holds hr fits reads
  rw [History.answer, ← full]
  rcases commit_cases_of_mem holds pos hr room reads w with
    ⟨e, refused, does⟩ | ⟨valid, rows', does, _⟩
  · obtain ⟨d', ran, _⟩ := does d faultless rfl
    rw [ran, refused]
  · obtain ⟨d', ran, _⟩ := does d faultless rfl
    rw [ran, valid]

theorem Durable.noticed_iff {h : History} {r : Registration} {reads : ReadFootprint} {v : Nat}
    {k : Bytes} : Noticed h r reads v k ↔
      r.readVersion < v ∧ reads.covers k = true ∧ ∃ i, Logged h v i k := by
  constructor
  · rintro ⟨missed, logged⟩
    obtain ⟨_, seen⟩ := (missed_iff h r reads v k).1 missed
    rw [Bool.and_eq_true, decide_eq_true_eq] at seen
    exact ⟨seen.1, seen.2, logged⟩
  · rintro ⟨later, covered, i, logged⟩
    refine ⟨(missed_iff h r reads v k).2 ⟨logged.mem_log, ?_⟩, i, logged⟩
    rw [Bool.and_eq_true, decide_eq_true_eq]
    exact ⟨later, covered⟩

/-- Whatever was written, a device reports a conflict exactly if it has noticed one. -/
theorem Durable.commit_noticed {a : Standing} {config : Config} {d : Device}
    (holds : Holds a d.rows) (pos : 0 < config.pageSize) (faultless : d.Faultless)
    {r : Registration} (hr : r ∈ a.running) (room : a.history.length + 1 < Layout.wordBound)
    (reads : ReadFootprint) (w : WriteSet) :
    ((∃ u v k, (commit config r reads w d).1 = .error (.conflict u v k)) ↔
      ∃ v k, Noticed a.history r reads v k) ∧
    ((¬ ∃ v k, Noticed a.history r reads v k) →
      (commit config r reads w d).1 = .ok (a.history.length + 1)) := by
  have valid_iff : reads.validate r.readVersion (logSince d.rows r.readVersion) = .ok () ↔
      ¬ ∃ v k, Noticed a.history r reads v k := by
    rw [validate_logSince_eq_ok_iff holds hr]
    constructor
    · rintro unread ⟨v, k, noticed⟩
      obtain ⟨later, covered, i, logged⟩ := noticed_iff.1 noticed
      rw [unread v i k later logged] at covered
      cases covered
    · intro unnoticed v i k later logged
      refine Bool.eq_false_iff.2 fun covered => unnoticed ⟨v, k, ?_⟩
      exact noticed_iff.2 ⟨later, covered, i, logged⟩
  rcases commit_cases_of_mem holds pos hr room reads w with
    ⟨e, refused, does⟩ | ⟨valid, rows', does, _⟩
  · obtain ⟨d', ran, _⟩ := does d faultless rfl
    have noticed : ∃ v k, Noticed a.history r reads v k := by
      refine Classical.not_not.1 fun unnoticed => ?_
      cases refused.symm.trans (valid_iff.2 unnoticed)
    obtain ⟨v, k, rfl⟩ := ReadFootprint.exists_conflict_of_validate refused
    rw [ran]
    exact ⟨iff_of_true ⟨_, v, k, rfl⟩ noticed, fun unnoticed => absurd noticed unnoticed⟩
  · obtain ⟨d', ran, _⟩ := does d faultless rfl
    rw [ran]
    exact ⟨iff_of_false (by rintro ⟨u, v, k, ⟨⟩⟩) (valid_iff.1 valid), fun _ => rfl⟩

section Overtaken
variable (w u : WriteSet) {key : Bytes}

theorem missed_overtaken (mem : key ∈ w.keys) {v : Nat} {k : Bytes} :
    Missed [w] ⟨0, 1⟩ ⟨[.point key]⟩ v k ↔ v = 1 ∧ k = key := by
  have whole : History.log [w] = w.keys.map fun key => (1, key) := History.log_snoc [] w
  rw [missed_iff, whole]
  constructor
  · rintro ⟨here, seen⟩
    obtain ⟨_, _, same⟩ := List.mem_map.1 here
    obtain ⟨rfl, rfl⟩ := Prod.mk.inj same
    simpa [ReadFootprint.covers, KeyRange.contains_point_iff] using seen
  · rintro ⟨rfl, rfl⟩
    exact ⟨List.mem_map_of_mem mem, by simp [ReadFootprint.covers, KeyRange.contains_point_iff]⟩

theorem Keyspace.commit_overtaken (mem : key ∈ w.keys) :
    (client.after (overtaken w)).commit ⟨0, 1⟩ ⟨[.point key]⟩ u = .error (.conflict 0 1 key) := by
  obtain ⟨same, _⟩ := matches_overtaken w
  generalize client.after (overtaken w) = c at same
  obtain @⟨s, _, holds, _, _⟩ := same
  have answer := commit_answer holds List.mem_cons_self ⟨[.point key]⟩ u
  have verdict := History.verdict_answer [w] ⟨0, 1⟩ ⟨[.point key]⟩
  have missed := (missed_overtaken w mem).2 ⟨rfl, rfl⟩
  obtain ⟨r, v, k, conflict⟩ := verdict.conflict_iff.2 ⟨1, key, missed⟩
  obtain ⟨rfl, missed, _⟩ := verdict.first r v k conflict
  obtain ⟨rfl, rfl⟩ := (missed_overtaken w mem).1 missed
  exact answer.trans conflict

theorem Durable.unnoticed_of_round {i : Nat} (place : w.keys[i]? = some key)
    (round : i + Layout.placeBound < w.size) :
    ¬ ∃ v k, Noticed [w] ⟨0, 1⟩ ⟨[.point key]⟩ v k := by
  rintro ⟨v, k, missed, logged⟩
  obtain ⟨rfl, rfl⟩ := (missed_overtaken w (List.mem_of_getElem? place)).1 missed
  exact not_logged_of_round rfl place round logged

theorem Durable.commit_overtaken {i : Nat} (place : w.keys[i]? = some key)
    (round : i + Layout.placeBound < w.size) :
    ((client {}).after (overtaken w)).commit ⟨0, 1⟩ ⟨[.point key]⟩ u = .ok 2 := by
  obtain ⟨_, same⟩ := matches_overtaken w
  generalize (client {}).after (overtaken w) = c at same
  obtain @⟨_, d, _, pos, faultless, holds, _, _⟩ := same
  have room : [w].length + 1 < Layout.wordBound := (by decide : 2 < Layout.wordBound)
  exact (commit_noticed holds pos faultless List.mem_cons_self room ⟨[.point key]⟩ u).2
    (unnoticed_of_round w place round)

theorem Durable.verdict_overlooked {i : Nat} (place : w.keys[i]? = some key)
    (round : i + Layout.placeBound < w.size) :
    let h := (client {}).history (overtaken w)
    let answer := ((client {}).after (overtaken w)).commit ⟨0, 1⟩ ⟨[.point key]⟩ u
    InLedger ((client {}).after (overtaken w)).medium.rows ⟨0, 1⟩ ∧
      Missed h ⟨0, 1⟩ ⟨[.point key]⟩ 1 key ∧ answer = .ok 2 ∧
      ¬ Verdict h ⟨0, 1⟩ ⟨[.point key]⟩ answer := by
  intro h answer
  have done : answer = .ok 2 := commit_overtaken w u place round
  have missed : Missed h ⟨0, 1⟩ ⟨[.point key]⟩ 1 key := by
    have written : h = [w] := (history_overtaken w).2
    rw [written]
    exact (missed_overtaken w (List.mem_of_getElem? place)).2 ⟨rfl, rfl⟩
  refine ⟨?_, missed, done, fun verdict => ?_⟩
  · exact ((matches_overtaken w).2.holds.inLedger_iff ⟨0, 1⟩).2 List.mem_cons_self
  · obtain ⟨_, _, _, conflict⟩ := verdict.conflict_iff.2 ⟨1, key, missed⟩
    cases done.symm.trans conflict

end Overtaken

/-- After any requests, in memory and on a device, and whatever the time to live has reclaimed. -/
theorem commit_verdict (config : Config) (qs : List Request) (r : Registration)
    (reads : ReadFootprint) (w : WriteSet) :
    (r ∈ (Keyspace.client.after qs).medium.running →
      Verdict (Keyspace.client.history qs) r reads ((Keyspace.client.after qs).commit r reads w)) ∧
    (Durable.InLedger ((Durable.client config).after qs).medium.rows r →
      let h := (Durable.client config).history qs
      let answer := ((Durable.client config).after qs).commit r reads w
      h.length + 1 < Layout.wordBound →
        ((∃ u v k, answer = .error (.conflict u v k)) ↔ ∃ v k, Durable.Noticed h r reads v k) ∧
        ((¬ ∃ v k, Durable.Noticed h r reads v k) → answer = .ok (h.length + 1)) ∧
        (h.FitsSince r.readVersion → Verdict h r reads answer)) := by
  constructor
  · obtain ⟨i, same, history⟩ := Keyspace.client_matches qs
    rw [← history]
    generalize Keyspace.client.after qs = c at same
    obtain @⟨s, _, holds, _, _⟩ := same
    intro registered
    have answer := Keyspace.commit_answer holds (holds.running ▸ registered) reads w
    have verdict := i.history.verdict_answer r reads
    rw [Reference.history, ← answer] at verdict
    exact verdict
  · obtain ⟨i, same, history⟩ := Durable.client_matches config qs
    rw [← history]
    generalize (Durable.client config).after qs = c at same
    obtain @⟨_, d, _, pos, faultless, holds, _, _⟩ := same
    intro in_ledger h answer room
    have registered := (holds.inLedger_iff r).1 in_ledger
    obtain ⟨conflict, done⟩ := Durable.commit_noticed holds pos faultless registered room reads w
    refine ⟨conflict, done, fun fits => ?_⟩
    have told := Durable.commit_answer holds pos faultless registered fits room reads w
    have verdict := i.history.verdict_answer r reads
    rw [Reference.history, ← told] at verdict
    exact verdict

theorem verdict_overtaken :
    let qs := overtaken (.ofList [([107], some [1])])
    ((⟨0, 1⟩ : Registration) ∈ (Keyspace.client.after qs).medium.running ∧
      Durable.InLedger ((Durable.client {}).after qs).medium.rows ⟨0, 1⟩ ∧
      ((Durable.client {}).history qs).length + 1 < Layout.wordBound ∧
      ((Durable.client {}).history qs).FitsSince 0) ∧
    Verdict (Keyspace.client.history qs) ⟨0, 1⟩ ⟨[.point [107]]⟩
      ((Keyspace.client.after qs).commit ⟨0, 1⟩ ⟨[.point [107]]⟩ {}) ∧
    Verdict ((Durable.client {}).history qs) ⟨0, 1⟩ ⟨[.point [107]]⟩
      (((Durable.client {}).after qs).commit ⟨0, 1⟩ ⟨[.point [107]]⟩ {}) := by
  intro qs
  have running : (⟨0, 1⟩ : Registration) ∈ (Keyspace.client.after qs).medium.running := by
    decide +kernel
  have in_ledger : Durable.InLedger ((Durable.client {}).after qs).medium.rows ⟨0, 1⟩ :=
    ⟨Layout.ledgerKey ⟨0, 1⟩, by decide +kernel,
      Layout.readLedgerKey_ledgerKey ⟨by decide, by decide⟩⟩
  have room : ((Durable.client {}).history qs).length + 1 < Layout.wordBound := by
    decide +kernel
  have fits : ((Durable.client {}).history qs).FitsSince 0 := by
    unfold History.FitsSince
    decide +kernel
  have verdicts := commit_verdict {} qs ⟨0, 1⟩ ⟨[.point [107]]⟩ {}
  exact ⟨⟨running, in_ledger, room, fits⟩, verdicts.1 running,
    (verdicts.2 in_ledger room).2.2 fits⟩

/-- A commit of one key more than there are places hides its first key: a transaction that has read
only this key commits on a device, although the history calls for a conflict. -/
theorem crowded_commit_overlooked :
    let qs := overtaken (.ofList (crowd Layout.placeBound))
    let h := (Durable.client {}).history qs
    let answer := ((Durable.client {}).after qs).commit ⟨0, 1⟩ ⟨[.point []]⟩ {}
    Durable.InLedger ((Durable.client {}).after qs).medium.rows ⟨0, 1⟩ ∧
      Missed h ⟨0, 1⟩ ⟨[.point []]⟩ 1 [] ∧ answer = .ok 2 ∧
      ¬ Verdict h ⟨0, 1⟩ ⟨[.point []]⟩ answer :=
  Durable.verdict_overlooked _ {} (first_crowd (Nat.le_refl _)) round_crowd

end OptimisticStore
