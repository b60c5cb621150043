import OptimisticStore.Proofs.Conclusive
import OptimisticStore.Proofs.Conflicts
import OptimisticStore.Proofs.Lawful

/-! What becomes of the registrations of a backend that keeps the law. One that begins is there
until it is finished, meets conflicts with commits that have been made, and none if it has read
nothing. A durable store takes new ones until its numbers run out. -/

namespace OptimisticStore

theorem Error.isRetryable_iff (e : Error) :
    e.isRetryable = true ↔ ∃ u v key, e = .conflict u v key := by
  constructor
  · intro retryable
    cases e with
    | conflict u v key => exact ⟨u, v, key, rfl⟩
    | _ => cases retryable
  · rintro ⟨u, v, key, rfl⟩
    rfl

namespace ReadFootprint

theorem mem_log_of_validate {f : ReadFootprint} {u v w : Version} {key : Bytes}
    {log : List (Version × Bytes)} (refused : f.validate u log = .error (.conflict v w key)) :
    (w, key) ∈ log := by
  rw [validate, firstConflict?] at refused
  split at refused
  · cases refused
  · next found =>
    cases refused
    exact List.mem_of_find?_eq_some found

theorem validate_unread (v : Version) (log : List (Version × Bytes)) :
    ({} : ReadFootprint).validate v log = .ok () :=
  (validate_eq_ok_iff _ _ _).2 fun _ _ _ => rfl

end ReadFootprint

/-- What a lawful backend does with registrations, of which `registered` tells those that its medium
has. It takes another one unless the medium is `full`. -/
structure Law.Registers {μ σ κ : Type} {b : Backend μ σ κ} (law : Law b)
    (registered : Registration → μ → Prop) (full : μ → Prop) : Prop where
  begins {h : History} {m : μ} (now : Nat) : law.holds h m →
    ((∃ one, (b.begin now m).1 = .ok one) ↔ ¬ full m)
  enters {h : History} {m m' : μ} {now : Nat} {r : Registration} {s : σ} : law.holds h m →
    b.begin now m = (.ok (r, s), m') → registered r m'
  /-- The commit that is in conflict has been made. -/
  reaches {h : History} {m : μ} {r : Registration} {reads : ReadFootprint} {w : WriteSet}
    {u v : Version} {key : Bytes} : law.holds h m →
    (b.commit r reads w m).1 = .error (.conflict u v key) → v ≤ h.length
  /-- Who has read nothing meets no conflict. -/
  passes {h : History} {m : μ} {r : Registration} (w : WriteSet) : law.holds h m → registered r m →
    Conclusive (b.commit r {} w m).1
  leaves {h : History} {m : μ} (now : Nat) (r : Registration) : law.holds h m →
    ¬ registered r (b.finish now r m).2

namespace Keyspace

theorem registers : law.Registers (fun r s => r ∈ s.running) fun _ => False where
  begins _ _ := ⟨fun _ => id, fun _ => ⟨_, rfl⟩⟩
  enters := by
    rintro _ s s' now r snapshot ⟨a, rfl, holds⟩ begun
    obtain ⟨next, ran, after⟩ := holds.begin_eq
    cases ran.symm.trans begun
    rw [after.running]
    exact List.mem_append_right _ (List.mem_singleton.2 rfl)
  reaches := by
    rintro _ s r reads w u v key ⟨a, rfl, holds⟩ refused
    have refused : (commit r reads w s).1 = .error (.conflict u v key) := refused
    by_cases registered : r ∈ a.running
    · cases valid : reads.validate r.readVersion a.history.log with
      | ok =>
        rw [holds.commit_ok registered valid] at refused
        cases refused
      | error e =>
        rw [holds.commit_error registered valid] at refused
        cases refused
        obtain ⟨x, wrote⟩ := (a.history.mem_log v key).1 (ReadFootprint.mem_log_of_validate valid)
        exact wrote.bounds.2
    · rw [holds.commit_of_not_running registered] at refused
      cases refused
  passes := by
    rintro _ s r w ⟨a, rfl, holds⟩ registered
    rw [holds.running] at registered
    change Conclusive (commit r {} w s).1
    rw [holds.commit_ok registered (ReadFootprint.validate_unread _ _)]
    trivial
  leaves := by
    rintro _ s now r ⟨a, rfl, holds⟩ registered
    change r ∈ (s.withdraw r).prune.running at registered
    rw [(holds.withdraw_prune r).running] at registered
    simpa using (List.mem_filter.1 registered).2

end Keyspace

namespace Durable
open Layout

def Full (d : Device) : Prop := d.rows.get? txnIdKey = some (cell (wordBound - 1))

theorem full_iff {a : Standing} {d : Device} (holds : Holds a d.rows) :
    Full d ↔ ¬ a.lastTxnId + 1 < wordBound := by
  obtain ⟨bound, stored⟩ := holds.lastTxnId
  have last : wordBound - 1 < wordBound := Nat.sub_lt (Bytes.capacity_pos 8) Nat.one_pos
  rw [Full]
  rcases stored with value | ⟨absent, none_yet⟩
  · rw [value, Option.some.injEq, cell_inj bound last]
    omega
  · have room : a.lastTxnId + 1 < wordBound := by
      rw [none_yet]
      decide
    rw [absent]
    exact iff_of_false nofun (not_not_intro room)

section Commits
variable {config : Config} {a : Standing} {d : Device} {r : Registration} {w : WriteSet}
  (holds : Holds a d.rows) (faultless : d.Faultless) (pos : 0 < config.pageSize)
include holds faultless pos

/-- A commit is in conflict with one that the log tells of, or with the last one if its attempt
is no longer registered. -/
theorem version_le_of_conflict {reads : ReadFootprint} {u v : Version} {key : Bytes}
    (refused : (commit config r reads w d).1 = .error (.conflict u v key)) :
    v ≤ a.history.length := by
  rcases commit_cases holds pos r reads w with
    ⟨_, does⟩ | ⟨e, found, does⟩ | ⟨_, _, does⟩ | ⟨_, _, rows, does, _⟩ <;>
    obtain ⟨d', ran, _⟩ := does d faultless rfl <;> rw [ran] at refused <;> cases refused
  · exact Nat.le_refl _
  · obtain ⟨e, mem, same⟩ := List.mem_map.1 (ReadFootprint.mem_log_of_validate found)
    obtain ⟨u, i, logged, raw, bound⟩ := logRow_of_between holds mem
    rw [raw, logVersion_logKey bound] at same
    cases same
    exact logged.bounds.2

theorem conclusive_commit_unread (registered : InLedger d.rows r) :
    Conclusive (commit config r {} w d).1 := by
  have seated : (d.rows.get? (ledgerKey r)).isSome = true :=
    (holds.registered_iff r).2 ⟨r, (holds.inLedger_iff r).1 registered, rfl⟩
  rcases commit_cases holds pos r {} w with
    ⟨lost, _⟩ | ⟨e, found, _⟩ | ⟨_, _, does⟩ | ⟨_, _, rows, does, _⟩
  · cases seated.symm.trans lost
  · cases (ReadFootprint.validate_unread _ _).symm.trans found
  · obtain ⟨d', ran, _⟩ := does d faultless rfl
    rw [ran]
    rfl
  · obtain ⟨d', ran, _⟩ := does d faultless rfl
    rw [ran]
    trivial

end Commits

theorem registers (config : Config) (pos : 0 < config.pageSize) :
    (law config pos).Registers (fun r d => InLedger d.rows r) Full where
  begins := by
    rintro _ d now ⟨a, rfl, holds, faultless⟩
    rw [full_iff holds, Decidable.not_not]
    by_cases room : a.lastTxnId + 1 < wordBound
    · obtain ⟨rows, does, _⟩ := does_begin holds config now room
      obtain ⟨d', ran, _⟩ := does d faultless rfl
      exact iff_of_true ⟨_, congrArg Prod.fst ran⟩ room
    · obtain ⟨d', ran, _⟩ := does_begin_full holds config now room d faultless rfl
      refine iff_of_false ?_ room
      rintro ⟨one, begun⟩
      cases (congrArg Prod.fst ran).symm.trans begun
  enters := by
    rintro _ d d' now r s ⟨a, rfl, holds, faultless⟩ begun
    by_cases room : a.lastTxnId + 1 < wordBound
    · obtain ⟨rows, does, after⟩ := does_begin holds config now room
      obtain ⟨d'', ran, _, rfl⟩ := does d faultless rfl
      cases ran.symm.trans begun
      exact (after.inLedger_iff a.next).2 (List.mem_append_right _ (List.mem_singleton.2 rfl))
    · obtain ⟨d'', ran, _⟩ := does_begin_full holds config now room d faultless rfl
      cases ran.symm.trans begun
  reaches := by
    rintro _ d r reads w u v key ⟨a, rfl, holds, faultless⟩ refused
    exact version_le_of_conflict holds faultless pos refused
  passes := by
    rintro _ d r w ⟨a, rfl, holds, faultless⟩ registered
    exact conclusive_commit_unread holds faultless pos registered
  leaves := by
    rintro _ d now r ⟨a, rfl, holds, faultless⟩ registered
    obtain ⟨rows, does, after⟩ := does_finish holds pos now r
    obtain ⟨d', ran, _, rfl⟩ := does d faultless rfl
    change InLedger (finish config now r d).2.rows r at registered
    rw [ran] at registered
    have kept := (List.mem_filter.1 ((after.inLedger_iff r).1 registered)).2
    simp at kept

end Durable
end OptimisticStore
