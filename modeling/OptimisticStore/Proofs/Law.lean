import OptimisticStore.Backend
import OptimisticStore.Proofs.History

/-! What an engine may rely on in a backend, told by the history of its commits alone. A cursor
that owes some rows gives them one by one, and all of them if it is polled often enough. -/

namespace OptimisticStore

/-- Polls keep what `kept` says of the medium and give what the cursor owes. -/
def Backend.Pays {μ σ κ : Type} (b : Backend μ σ κ) (kept : μ → Prop)
    (owes : List (Bytes × Bytes) → κ → Prop) : Prop :=
  ∀ owed c m, kept m → owes owed c → ∃ c' m', b.poll none c m = (owed.head?.map .ok, c', m') ∧
    kept m' ∧ (owed ≠ [] → owes owed.tail c')

theorem Backend.Pays.collect {μ σ κ : Type} {b : Backend μ σ κ} {kept : μ → Prop}
    {owes : List (Bytes × Bytes) → κ → Prop} (pays : b.Pays kept owes) {fuel : Nat}
    {owed : List (Bytes × Bytes)} {c : κ} {m : μ} (keeps : kept m) (debt : owes owed c)
    (enough : owed.length < fuel) :
    ∃ m', b.collect none fuel c m = (.ok owed, m') ∧ kept m' := by
  induction fuel generalizing owed c m with
  | zero => omega
  | succ fuel ih =>
    obtain ⟨c', m', polled, keeps', debt'⟩ := pays owed c m keeps debt
    rw [Backend.collect]
    cases owed with
    | nil =>
      simp only [polled, List.head?_nil, Option.map_none]
      exact ⟨m', rfl, keeps'⟩
    | cons row rest =>
      obtain ⟨m'', collected, keeps''⟩ :=
        ih keeps' (debt' (by simp)) (Nat.lt_of_succ_lt_succ enough)
      simp only [polled, List.head?_cons, Option.map_some, Access.bind_apply]
      rw [List.tail_cons] at collected
      rw [collected]
      exact ⟨m'', rfl, keeps''⟩

/-- The law of a backend: what its media, snapshots and cursors stand for while the history
grows, and what each operation does to that. A commit that is answered with success is in the
history, and nobody has written what it read since its read version, provided that the log has
had room for every commit since then. -/
structure Law {μ σ κ : Type} (b : Backend μ σ κ) where
  /-- The medium keeps a store with these commits. -/
  holds : History → μ → Prop
  /-- The snapshot reads this version. -/
  sees : History → Nat → σ → Prop
  /-- The rows that are left to a cursor. -/
  owes : History → List (Bytes × Bytes) → κ → Prop
  /-- The log has a place for each of these writes. -/
  fits : WriteSet → Prop
  sees_append {h : History} {v : Nat} {s : σ} (t : History) : sees h v s → sees (h ++ t) v s
  owes_append {h : History} {owed : List (Bytes × Bytes)} {c : κ} (t : History) :
    owes h owed c → owes (h ++ t) owed c
  begin_ok {h : History} {m m' : μ} {now : Nat} {r : Registration} {s : σ} :
    holds h m → b.begin now m = (.ok (r, s), m') →
      holds h m' ∧ r.readVersion = h.length ∧ sees h h.length s
  begin_error {h : History} {m m' : μ} {now : Nat} {e : Error} :
    holds h m → b.begin now m = (.error e, m') → holds h m'
  commit_ok {h : History} {m m' : μ} {r : Registration} {reads : ReadFootprint} {w : WriteSet}
    {v : Version} : holds h m → b.commit r reads w m = (.ok v, m') →
      holds (h ++ [w]) m' ∧ ((∀ u ∈ h.drop r.readVersion, fits u) →
        ∀ e ∈ h.log, r.readVersion < e.1 → reads.covers e.2 = false)
  commit_error {h : History} {m m' : μ} {r : Registration} {reads : ReadFootprint} {w : WriteSet}
    {e : Error} : holds h m → b.commit r reads w m = (.error e, m') → holds h m'
  heartbeat {h : History} {m : μ} (now : Nat) (r : Registration) :
    holds h m → holds h (b.heartbeat now r m).2
  finish {h : History} {m : μ} (now : Nat) (r : Registration) :
    holds h m → holds h (b.finish now r m).2
  abandon {h : History} {m : μ} (r : Registration) : holds h m → holds h (b.abandon r m)
  stats {h : History} {m : μ} : holds h m → holds h (b.stats m).2
  close {h : History} {m : μ} : holds h m → holds h (b.close m).2
  get {h : History} {m : μ} {v : Nat} {s : σ} (key : Bytes) : holds h m → sees h v s →
    (b.get s key m).1 = .ok ((h.state v).get? key) ∧ holds h (b.get s key m).2
  query {h : History} {m : μ} {v : Nat} {s : σ} (c : Condition) : holds h m → sees h v s →
    owes h (c.select (h.state v)) (b.query s c)
  pays (h : History) : b.Pays (holds h) (owes h)
  bounded {h : History} {m : μ} {owed : List (Bytes × Bytes)} {c : κ} :
    holds h m → owes h owed c → owed.length ≤ b.itemBound c m
  /-- Polls of any cursor, under any gate. -/
  poll {h : History} {m : μ} (gate : Option Error) (c : κ) :
    holds h m → holds h (b.poll gate c m).2.2
  poll_shut (e : Error) (c : κ) (m : μ) (row : Bytes × Bytes) :
    (b.poll (some e) c m).1 ≠ some (.ok row)

end OptimisticStore
