import OptimisticStore.Proofs.FailingReads
import OptimisticStore.Proofs.Provenance

/-! What an engine may rely on in a backend whose operations may fail at any time. It is weaker
than the law of a backend: an operation that fails has changed nothing that is committed, and a
poll may fail instead of giving what is owed. But what is given is right, and a cursor does not
go on for ever. The store in memory keeps this, and so does a durable store on any device. -/

namespace OptimisticStore

structure Resilience {μ σ κ : Type} (b : Backend μ σ κ) where
  /-- The medium keeps a store with these commits. -/
  holds : History → μ → Prop
  /-- The snapshot reads this version. -/
  sees : History → Nat → σ → Prop
  /-- The cursor reads this version, and has so many more items at most. -/
  reads : History → Nat → Nat → κ → Prop
  sees_append {h : History} {v : Nat} {s : σ} (t : History) : v ≤ h.length → sees h v s →
    sees (h ++ t) v s
  reads_append {h : History} {v n : Nat} {c : κ} (t : History) : v ≤ h.length → reads h v n c →
    reads (h ++ t) v n c
  begin {h : History} {m : μ} (now : Nat) : holds h m → holds h (b.begin now m).2
  begin_ok {h : History} {m m' : μ} {now : Nat} {r : Registration} {s : σ} :
    holds h m → b.begin now m = (.ok (r, s), m') → r.readVersion = h.length ∧ sees h h.length s
  commit_ok {h : History} {m m' : μ} {r : Registration} {footprint : ReadFootprint} {w : WriteSet}
    {v : Version} : holds h m → b.commit r footprint w m = (.ok v, m') → holds (h ++ [w]) m'
  commit_error {h : History} {m m' : μ} {r : Registration} {footprint : ReadFootprint}
    {w : WriteSet} {e : Error} : holds h m → b.commit r footprint w m = (.error e, m') → holds h m'
  heartbeat {h : History} {m : μ} (now : Nat) (r : Registration) :
    holds h m → holds h (b.heartbeat now r m).2
  finish {h : History} {m : μ} (now : Nat) (r : Registration) :
    holds h m → holds h (b.finish now r m).2
  abandon {h : History} {m : μ} (r : Registration) : holds h m → holds h (b.abandon r m)
  stats (h : History) : Access.Gives (holds h) b.stats fun stats => stats.version = h.length
  close {h : History} {m : μ} : holds h m → holds h (b.close m).2
  get {h : History} {v : Nat} {s : σ} (key : Bytes) : sees h v s →
    Access.Gives (holds h) (b.get s key) fun value => value = (h.state v).get? key
  query {h : History} {m : μ} {v : Nat} {s : σ} (c : Condition) : holds h m → sees h v s →
    ∃ n, reads h v n (b.query s c)
  poll {h : History} {m : μ} (gate : Option Error) (c : κ) :
    holds h m → holds h (b.poll gate c m).2.2
  poll_reads {h : History} {m : μ} {v n : Nat} {c : κ} (gate : Option Error) :
    holds h m → reads h v n c → ∃ n', reads h v n' (b.poll gate c m).2.1 ∧ n' ≤ n ∧
      ∀ item, (b.poll gate c m).1 = some item →
        n' < n ∧ ∀ row, item = .ok row → (h.state v).get? row.1 = some row.2
  poll_shut (e : Error) (c : κ) (m : μ) (row : Bytes × Bytes) :
    (b.poll (some e) c m).1 ≠ some (.ok row)
  bounded {h : History} {m : μ} {v n : Nat} {c : κ} :
    holds h m → reads h v n c → n ≤ b.itemBound c m + 1

theorem Resilience.shows {μ σ κ : Type} {b : Backend μ σ κ} (law : Resilience b) (h : History)
    (v : Nat) {known : Bytes × Bytes → Prop}
    (committed : ∀ row, (h.state v).get? row.1 = some row.2 → known row) :
    b.Shows (law.holds h) (fun c => ∃ n, law.reads h v n c) known := by
  rintro gate c m holds ⟨n, reads⟩
  obtain ⟨n', reads', _, shown⟩ := law.poll_reads gate holds reads
  exact ⟨⟨n', reads'⟩, fun row given => committed row ((shown _ given).2 row rfl)⟩

namespace Keyspace

def resilience : Resilience backend where
  holds := Keeps
  sees := Sees
  reads h v n w := w.toList.length = n ∧ ∀ row ∈ w.toList, (h.state v).get? row.1 = some row.2
  sees_append t _ sees := sees.append t
  reads_append := by
    rintro h v n w t bound ⟨left, rows⟩
    exact ⟨left, by rwa [History.state_append t bound]⟩
  begin := by
    rintro _ s now ⟨a, rfl, holds⟩
    obtain ⟨next, ran, after⟩ := holds.begin_eq
    change Keeps a.history (begin s).2
    rw [ran]
    exact ⟨a.begun, rfl, after⟩
  begin_ok holds begun := (law.begin_ok holds begun).2
  commit_ok holds committed := (law.commit_ok holds committed).1
  commit_error := law.commit_error
  heartbeat := law.heartbeat
  finish := law.finish
  abandon := law.abandon
  stats h := by
    rintro s ⟨a, rfl, holds⟩
    refine ⟨⟨a, rfl, holds⟩, ?_⟩
    rintro _ ⟨⟩
    exact holds.version
  close := law.close
  get {h v s} key sees := by
    have fetched : law.Gives h (backend.get s key) fun value => value = (h.state v).get? key :=
      Law.gives_fetch sees key
    exact fetched
  query := by
    rintro h s v snapshot c _ ⟨_, data⟩
    refine ⟨_, rfl, fun row mem => ?_⟩
    have all : (snapshot.query c).toList = c.select snapshot.data := Condition.select_eq_range c _
    have mem : row ∈ (snapshot.query c).toList := mem
    rw [all, Condition.mem_select_iff, data] at mem
    exact mem.1
  poll := law.poll
  poll_reads := by
    rintro h s v n w gate _ ⟨left, rows⟩
    change ∃ n', ((Keyspace.poll gate w).2.toList.length = n' ∧
      ∀ row ∈ (Keyspace.poll gate w).2.toList, (h.state v).get? row.1 = some row.2) ∧ n' ≤ n ∧
      ∀ item, (Keyspace.poll gate w).1 = some item →
        n' < n ∧ ∀ row, item = .ok row → (h.state v).get? row.1 = some row.2
    rw [Keyspace.poll]
    cases found : w.next with
    | none => exact ⟨n, ⟨left, rows⟩, Nat.le_refl _, nofun⟩
    | some e =>
      obtain ⟨row, rest⟩ := e
      rw [Walk.toList_of_next_eq_some found] at left rows
      obtain ⟨first, others⟩ := List.forall_mem_cons.1 rows
      rw [List.length_cons] at left
      refine ⟨rest.toList.length, ⟨rfl, others⟩, by omega, ?_⟩
      rintro _ ⟨⟩
      refine ⟨by omega, ?_⟩
      cases gate with
      | none =>
        rintro _ ⟨⟩
        exact first
      | some e => exact nofun
  poll_shut := poll_shut
  bounded := by
    rintro h s v n w _ ⟨rfl, _⟩
    exact Nat.le_succ_of_le (length_toList_le w)

end Keyspace

namespace Durable

namespace Cursor

theorem pull_gone (gate : Option Error) (fuel : Nat) (c : Cursor) (d : Device)
    (rowless : ∀ row, (c.pull gate fuel d).1 ≠ some (.ok row)) :
    (c.pull gate fuel d).2.1 = none := by
  induction fuel generalizing c d with
  | zero => rfl
  | succ fuel ih =>
    cases gate with
    | some e => simp only [pull]
    | none =>
      rw [pull_succ] at rowless ⊢
      rcases ran : c.turn d with ⟨e | ⟨_ | row, _ | next⟩, d'⟩ <;> simp only [ran] at rowless ⊢
      · exact ih next d' rowless
      · exact absurd rfl (rowless row)

end Cursor

/-- A cursor that is gone gives nothing more. Any other has at most one item more than its rows,
since even at the end of them its next fetch may fail. -/
def Reading (h : History) (v n : Nat) (c : Option Cursor) : Prop :=
  c = none ∧ n = 0 ∨ ∃ owed, Owing h owed c ∧ n = owed.length + 1 ∧
    ∀ row ∈ owed, (h.state v).get? row.1 = some row.2

section Reading
variable {config : Config} {h : History} {v n : Nat} {c : Option Cursor}

theorem Reading.append (reading : Reading h v n c) (bound : v ≤ h.length) (t : History) :
    Reading (h ++ t) v n c := by
  rcases reading with gone | ⟨owed, owing, left, rows⟩
  · exact .inl gone
  · exact .inr ⟨owed, owing.append t, left, by rwa [History.state_append t bound]⟩

theorem Reading.poll (reading : Reading h v n c) (gate : Option Error) {d : Device}
    (stores : Stores h d) :
    ∃ n', Reading h v n' ((backend config).poll gate c d).2.1 ∧ n' ≤ n ∧
      ∀ item, ((backend config).poll gate c d).1 = some item →
        n' < n ∧ ∀ row, item = .ok row → (h.state v).get? row.1 = some row.2 := by
  rcases reading with ⟨rfl, rfl⟩ | ⟨owed, owing, rfl, rows⟩
  · exact ⟨0, .inl ⟨rfl, rfl⟩, Nat.le_refl _, nofun⟩
  · have gone (rowless : ∀ row, ((backend config).poll gate c d).1 ≠ some (.ok row)) :
        Reading h v 0 ((backend config).poll gate c d).2.1 := by
      refine .inl ⟨?_, rfl⟩
      obtain ⟨cursor, rfl, _⟩ := owing
      exact cursor.pull_gone gate _ d rowless
    cases gate with
    | some e =>
      have rowless := poll_shut config e c d
      exact ⟨0, gone rowless, Nat.zero_le _, fun item given =>
        ⟨Nat.succ_pos _, fun row same => absurd (same ▸ given) (rowless row)⟩⟩
    | none =>
      rcases mayPay config owed c d stores owing with ⟨e, failed⟩ | ⟨given, after⟩
      · refine ⟨0, gone fun row => by simp [failed], Nat.zero_le _, fun item given => ?_⟩
        rw [failed] at given
        cases given
        exact ⟨Nat.succ_pos _, nofun⟩
      · cases owed with
        | nil =>
          have ended : ((backend config).poll none c d).1 = none := given
          refine ⟨0, gone fun row => by simp [ended], Nat.zero_le _, fun item given => ?_⟩
          rw [ended] at given
          cases given
        | cons row rest =>
          obtain ⟨first, others⟩ := List.forall_mem_cons.1 rows
          refine ⟨_, .inr ⟨rest, after (by simp), rfl, others⟩, by simp, fun item item_given => ?_⟩
          have row_given : ((backend config).poll none c d).1 = some (.ok row) := given
          rw [row_given] at item_given
          cases item_given
          refine ⟨by simp, ?_⟩
          rintro _ ⟨⟩
          exact first

end Reading

theorem Stores.gives {α : Type} {h : History} {x : Access Device α} {told : α → Prop}
    (reads : Device.ReadsOnly x)
    (does : ∀ a : Standing, ∀ rows, a.history = h → Holds a rows →
      ∃ r, Device.Does x rows r rows ∧ ∀ a, r = .ok a → told a) :
    Access.Gives (Stores h) x told := by
  rintro d ⟨a, same, holds⟩
  refine ⟨⟨a, same, (reads.unchanged d).symm ▸ holds⟩, fun value given => ?_⟩
  obtain ⟨r, does, right⟩ := does a d.rows same holds
  rcases reads.of_does does rfl with ⟨⟨text, failed⟩, _⟩ | ⟨done, _⟩
  · rw [failed] at given
    cases given
  · exact right value (done.symm.trans given)

def resilience (config : Config) (pos : 0 < config.pageSize) : Resilience (backend config) where
  holds := Stores
  sees := Sees
  reads := Reading
  sees_append t _ sees := sees.append t
  reads_append t bound reading := reading.append bound t
  begin now stores := stores.begin config now
  begin_ok := by
    rintro _ d d' now r s ⟨a, rfl, holds⟩ begun
    have begun : Durable.begin config now d = _ := begun
    rcases begin_cases config holds now with ⟨e, failed, _⟩ | ⟨done, _⟩
    · rw [begun] at failed
      cases failed
    · rw [begun] at done
      cases done
      exact ⟨rfl, rfl, Nat.le_refl _, pos⟩
  commit_ok := by
    intro h d d' r footprint w v stores committed
    have committed : Durable.commit config r footprint w d = _ := committed
    rcases stores.commit pos r footprint w with ⟨e, failed, _⟩ | ⟨_, after⟩
    · rw [committed] at failed
      cases failed
    · rw [committed] at after
      exact after
  commit_error := by
    intro h d d' r footprint w e stores refused
    have refused : Durable.commit config r footprint w d = _ := refused
    rcases stores.commit pos r footprint w with ⟨_, _, kept⟩ | ⟨done, _⟩
    · rw [refused] at kept
      exact kept
    · rw [refused] at done
      cases done
  heartbeat now r stores := stores.heartbeat now r
  finish now r stores := stores.finish pos now r
  abandon _ stores := stores
  stats h := Stores.gives (readsOnly_stats config) fun a rows same holds => by
    have does := does_stats holds pos
    refine ⟨_, does, ?_⟩
    rintro _ ⟨⟩
    exact congrArg List.length same
  close stores := stores.readsOnly Device.readsOnly_close
  get := by
    rintro h v s key ⟨rfl, bound, _⟩
    refine Stores.gives (readsOnly_snapshotGet s key) fun a rows same holds => ?_
    subst same
    refine ⟨_, does_get holds s bound key, ?_⟩
    rintro _ ⟨⟩
    rfl
  query := by
    rintro _ d v s c ⟨a, rfl, holds⟩ ⟨rfl, bound, paged⟩
    refine ⟨_, .inr ⟨_, ⟨_, rfl, Cursor.owes_ofSnapshot holds s bound paged c⟩, rfl,
      fun row mem => ?_⟩⟩
    exact ((c.mem_select_iff _ row).1 mem).1
  poll gate c stores := stores_poll config gate c _ stores
  poll_reads gate stores reading := reading.poll gate stores
  poll_shut := poll_shut config
  bounded := by
    rintro h d v n c stores (⟨_, rfl⟩ | ⟨owed, owing, rfl, _⟩)
    · exact Nat.zero_le _
    · exact Nat.succ_le_succ (length_le_itemBound config owed c d stores owing)

end Durable
end OptimisticStore
