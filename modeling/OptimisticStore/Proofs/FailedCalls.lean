import Mathlib.Control.Monad.Basic
import OptimisticStore.Proofs.FailingReads

/-! What is left behind by an operation of a durable store that fails, whatever the rows hold and
whichever calls of the device fail. An operation that writes does everything that may fail before
its write, so its failure leaves every row as it was; only the one that ends a registration writes
twice, and may have got as far as its first write. Operations that read make no write at all. As
nothing is left behind by a commit that failed, it can be repeated as if it had never been made. -/

namespace OptimisticStore

namespace Device

def batches (d : Device) : List (List RawWrite) :=
  d.calls.filterMap fun
    | .write batch => some batch
    | _ => none

def Unwritten (d d' : Device) : Prop := d'.rows = d.rows ∧ d'.batches = d.batches

theorem rows_healed (d : Device) : d.healed.rows = d.rows := rfl

variable {α β : Type}

/-- A failed access has changed no row, and if it fails on a device that does not, then for another
reason. -/
structure Spares (x : Access Device α) : Prop where
  unchanged : ∀ (d : Device) (e : Error), (x d).1 = .error e → (x d).2.rows = d.rows
  sincere : ∀ d : Device, d.Faultless → ¬ Broken (x d).1

structure Looks (x : Access Device α) : Prop extends ReadsOnly x where
  silent : ∀ d : Device, (x d).2.batches = d.batches
  sincere : ∀ d : Device, d.Faultless → ¬ Broken (x d).1

theorem Looks.spares {x : Access Device α} (looks : Looks x) : Spares x where
  unchanged d _ _ := looks.unchanged d
  sincere := looks.sincere

theorem Looks.unwritten {x : Access Device α} (looks : Looks x) (d : Device) :
    d.Unwritten (x d).2 := ⟨looks.unchanged d, looks.silent d⟩

theorem not_broken_ok (a : α) : ¬ Broken (.ok a : Except Error α) := by
  rintro ⟨text, failed⟩
  cases failed

theorem Does.sincere {x : Access Device α} {rows after : RawRows} {a : α}
    (does : Does x rows (.ok a) after) {d : Device} (faultless : d.Faultless)
    (same : d.rows = rows) : ¬ Broken (x d).1 := by
  obtain ⟨d', ran, _⟩ := does d faultless same
  rw [ran]
  exact not_broken_ok a

/-! ### How accesses are put together -/

theorem looks_pure (a : α) : Looks (pure a : Access Device α) where
  toReadsOnly := readsOnly_pure a
  silent _ := rfl
  sincere _ _ := not_broken_ok a

theorem looks_fail {e : Error} (genuine : ∀ text, e ≠ .storage (.device text)) :
    Looks (Access.fail e : Access Device α) where
  toReadsOnly := readsOnly_fail e
  silent _ := rfl
  sincere _ _ := by
    rintro ⟨text, failed⟩
    exact genuine text (Except.error.inj failed)

theorem sincere_bind {x : Access Device α} {f : α → Access Device β} (hx : Looks x)
    (hf : ∀ a, ∀ d : Device, d.Faultless → ¬ Broken (f a d).1) (d : Device)
    (faultless : d.Faultless) : ¬ Broken ((x >>= f) d).1 := by
  have after := hx.faultless d faultless
  have first := hx.sincere d faultless
  rcases ran : x d with ⟨e | a, d'⟩ <;> rw [ran] at after first <;> rw [Access.bind_apply, ran]
  · rintro ⟨text, failed⟩
    exact first ⟨text, by rw [Except.error.inj failed]⟩
  · exact hf a d' after

theorem Looks.bind {x : Access Device α} {f : α → Access Device β} (hx : Looks x)
    (hf : ∀ a, Looks (f a)) : Looks (x >>= f) where
  toReadsOnly := hx.toReadsOnly.bind fun a => (hf a).toReadsOnly
  silent d := by
    have kept := hx.silent d
    rcases ran : x d with ⟨e | a, d'⟩ <;> rw [ran] at kept <;> rw [Access.bind_apply, ran]
    · exact kept
    · exact ((hf a).silent d').trans kept
  sincere := sincere_bind hx fun a => (hf a).sincere

theorem Spares.bind {x : Access Device α} {f : α → Access Device β} (hx : Looks x)
    (hf : ∀ a, Spares (f a)) : Spares (x >>= f) where
  unchanged d e := by
    have kept := hx.unchanged d
    rcases ran : x d with ⟨e' | a, d'⟩ <;> rw [ran] at kept <;> rw [Access.bind_apply, ran]
    · exact fun _ => kept
    · exact fun failed => ((hf a).unchanged d' e failed).trans kept
  sincere := sincere_bind hx fun a => (hf a).sincere

theorem Spares.map {x : Access Device α} (hx : Spares x) (g : α → β) :
    Spares (do return g (← x)) where
  unchanged d e failed := by
    have kept := hx.unchanged d
    rcases ran : x d with ⟨e' | a, d'⟩ <;> rw [ran] at kept <;>
      rw [Access.bind_apply, ran] at failed ⊢
    · exact kept e' rfl
    · cases failed
  sincere d faultless := by
    have first := hx.sincere d faultless
    rcases ran : x d with ⟨e | a, d'⟩ <;> rw [ran] at first <;> rw [Access.bind_apply, ran]
    · rintro ⟨text, failed⟩
      exact first ⟨text, by rw [Except.error.inj failed]⟩
    · exact not_broken_ok (g a)

theorem looks_medium {f : RawRows → Access Device β} (hf : ∀ rows, Looks (f rows)) :
    Looks (Access.medium >>= fun d => f d.rows) where
  toReadsOnly := readsOnly_medium fun rows => (hf rows).toReadsOnly
  silent d := (hf d.rows).silent d
  sincere d := (hf d.rows).sincere d

/-! ### Calls -/

theorem looks_request {call : RawCall} (asks : ∀ batch, call ≠ .write batch) :
    Looks (request call) where
  toReadsOnly := readsOnly_request call
  silent d := by
    cases call with
    | write batch => exact absurd rfl (asks batch)
    | _ => rfl
  sincere _ faultless := (does_request call).sincere faultless rfl

theorem looks_get (key : Bytes) : Looks (Device.get key) :=
  (looks_request (by simp)).bind fun _ => looks_medium fun rows => looks_pure (rows.get? key)

theorem looks_scan (lower upper : Cut Bytes) (direction : Direction) (limit : Nat) :
    Looks (Device.scan lower upper direction limit) :=
  (looks_request (by simp)).bind fun _ => looks_medium fun rows =>
    looks_pure (rows.scan lower upper direction limit)

theorem spares_write (batch : List RawWrite) : Spares (Device.write batch) where
  unchanged d e := by
    have kept := (readsOnly_request (.write batch)).unchanged d
    rw [Device.write, Access.bind_apply]
    rcases ran : request (.write batch) d with ⟨e' | _, d'⟩ <;> rw [ran] at kept
    · exact fun _ => kept
    · intro failed
      cases failed
  sincere _ faultless := (does_write batch).sincere faultless rfl

theorem looks_decoded (x : Except RowDefect α) : Looks (Durable.decoded x) := by
  cases x with
  | error defect => exact looks_fail (by simp)
  | ok a => exact looks_pure a

end Device

namespace Durable
open Device Layout

variable (config : Config)

/-! ### Operations that read -/

theorem looks_readCounter (key : Bytes) : Looks (readCounter key) :=
  (looks_get key).bind fun value => by
    cases value with
    | none => exact looks_pure 0
    | some value => exact looks_decoded _

theorem looks_readVersion : Looks readVersion := looks_readCounter _

theorem looks_successor (n : Nat) : Looks (successor n) := by
  rw [successor]
  split
  · exact looks_pure _
  · exact looks_fail (by simp)

theorem looks_openStore : Looks (openStore config) :=
  looks_readVersion.bind fun _ => looks_pure _

theorem looks_scanPages (pageSize : Nat) (upper : Cut Bytes) (fuel : Nat) (lower : Cut Bytes) :
    Looks (scanPages pageSize upper fuel lower) := by
  induction fuel generalizing lower with
  | zero => exact looks_pure []
  | succ fuel ih =>
    refine (looks_scan _ _ _ _).bind fun rows => ?_
    split
    · exact looks_pure rows
    · exact (ih _).bind fun _ => looks_pure _

theorem looks_scanAll (ends : Cut Bytes × Cut Bytes) : Looks (scanAll config ends) :=
  looks_medium fun rows => looks_scanPages config.pageSize ends.2 (rows.size + 1) ends.1

theorem looks_snapshotGet (s : Snapshot) (key : Bytes) : Looks (s.get key) := by
  refine Looks.bind ((looks_scan _ _ _ _).bind fun rows => ?_) fun _ => looks_pure _
  cases rows.head? with
  | none => exact looks_pure none
  | some row => exact (looks_decoded _).bind fun _ => looks_pure _

theorem looks_stats : Looks (stats config) :=
  looks_readVersion.bind fun _ => (looks_scanAll config _).bind fun _ =>
    (looks_decoded _).bind fun _ => (looks_scanAll config _).bind fun _ => looks_pure _

theorem looks_nextPage (c : Cursor) : Looks c.nextPage :=
  (looks_scan _ _ _ _).bind fun _ => (looks_decoded _).bind fun _ => looks_pure _

namespace Cursor

theorem looks_turn (c : Cursor) : Looks c.turn := by
  rw [turn]
  cases c.ready with
  | cons row ready => exact looks_pure _
  | nil =>
    dsimp only
    split
    · exact looks_pure _
    · exact (looks_nextPage c).bind fun _ => looks_pure _

theorem batches_pull (gate : Option Error) (fuel : Nat) (c : Cursor) (d : Device) :
    (c.pull gate fuel d).2.2.batches = d.batches := by
  induction fuel generalizing c d with
  | zero => rfl
  | succ fuel ih =>
    cases gate with
    | some e => simp only [pull]
    | none =>
      have kept := (looks_turn c).silent d
      rw [pull_succ]
      rcases ran : c.turn d with ⟨e | ⟨_ | row, _ | next⟩, d'⟩ <;> rw [ran] at kept
      · exact kept
      · exact kept
      · exact (ih next d').trans kept
      · exact kept
      · exact kept

theorem unwritten_poll (gate : Option Error) (c : Option Cursor) (d : Device) :
    d.Unwritten (poll gate c d).2.2 := by
  refine ⟨rows_poll gate c d, ?_⟩
  cases c with
  | none => rfl
  | some c => exact batches_pull gate _ c d

end Cursor

/-! ### Operations that write once, and last -/

theorem spares_begin (now : Nat) : Spares (begin config now) :=
  .bind looks_readVersion fun _ => .bind (looks_readCounter _) fun last =>
    .bind (looks_successor last) fun _ => (spares_write _).map _

theorem spares_heartbeat (now : Nat) (r : Registration) : Spares (heartbeat now r) :=
  .bind (looks_get _) fun value => by
    split
    · exact spares_write _
    · exact (looks_pure ()).spares

theorem looks_validate (reads : ReadFootprint) (v : Version) (log : List (Version × Bytes)) :
    Looks (Access.ofExcept (reads.validate v log) : Access Device Unit) := by
  rw [ReadFootprint.validate]
  split
  · exact looks_pure ()
  · exact looks_fail (by simp)

theorem spares_commit (r : Registration) (reads : ReadFootprint) (w : WriteSet) :
    Spares (commit config r reads w) := by
  refine .bind looks_readVersion fun current => .bind (looks_get _) fun value => ?_
  have rest : Spares (do
      let rows ← scanAll config (logRange r.readVersion none)
      let log ← decoded (rows.mapM readLogRow)
      Access.ofExcept (reads.validate r.readVersion log)
      let version ← successor current
      Device.write (commitBatch version w)
      return version) :=
    .bind (looks_scanAll config _) fun _ => .bind (looks_decoded _) fun _ =>
      .bind (looks_validate reads _ _) fun _ => .bind (looks_successor current) fun _ =>
        (spares_write _).map _
  split
  · exact .bind (looks_fail (by simp)) fun _ => rest
  · exact rest

theorem spares_prune (now : Nat) (version : Version) : Spares (prune config now version) := by
  refine .bind (looks_scanAll config _) fun _ => .bind (looks_decoded _) fun ledger => ?_
  have last (obsolete : List Row) : Spares (do
      let batch := (((ledger.filter (·.expired config now)).map (·.raw)) ++
        obsolete.map (·.1)).map RawWrite.delete
      if !batch.isEmpty then Device.write batch) := by
    dsimp only
    split
    · exact spares_write _
    · exact (looks_pure ()).spares
  dsimp only
  split
  · exact .bind (looks_scanAll config _) last
  · exact .bind (looks_pure []) last

theorem finish_failed {now : Nat} {r : Registration} {d : Device} {e : Error}
    (failed : (finish config now r d).1 = .error e) :
    (finish config now r d).2.rows = d.rows ∨
      (finish config now r d).2.rows = d.rows.apply [.delete (ledgerKey r)] := by
  have first := (atomic_write [.delete (ledgerKey r)]).of_does (does_write _) (d := d) rfl
  have rest : Spares (readVersion >>= prune config now) :=
    .bind looks_readVersion fun version => spares_prune config now version
  rcases ran : Device.write [.delete (ledgerKey r)] d with ⟨r', d'⟩
  rw [finish, Access.bind_apply, ran] at failed ⊢
  rw [ran] at first
  rcases first with ⟨⟨text, rfl⟩, kept⟩ | ⟨rfl, withdrawn⟩
  · exact .inl kept
  · exact .inr ((rest.unchanged d' e failed).trans withdrawn)

/-- A commit that a failed call has stopped is made again on a device that does not fail: it comes
to what it would have come to the first time. -/
theorem commit_again {r : Registration} {reads : ReadFootprint} {w : WriteSet}
    {d first again : Device} (broken : Broken (commit config r reads w d).1)
    (faultless : first.Faultless) (same : first.rows = d.rows) (healed : again.Faultless)
    (left : again.rows = (commit config r reads w d).2.rows) :
    (commit config r reads w again).1 = (commit config r reads w first).1 ∧
      (commit config r reads w again).2.rows = (commit config r reads w first).2.rows := by
  obtain ⟨text, failed⟩ := broken
  have spares := spares_commit config r reads w
  have alike : first.rows = again.rows := by
    rw [left, spares.unchanged d _ failed, same]
  rcases (atomic_commit config r reads w).cases again first faultless alike with ⟨broken, _⟩ | agree
  · exact absurd broken (spares.sincere again healed)
  · exact agree

/-- Errors leave the raw rows intact. Let the rows be any, well-formed or not, and let calls of the
device fail by any plan. If a transaction cannot be begun, its heartbeat not renewed or its writes
not committed, for whatever reason, all rows are what they were. If it cannot be ended, they are
what they were or only its ledger row is gone. Opening, statistics, point reads and cursors, at
whatever stage, write nothing and do not try to. And a commit that a failed call has stopped can be
made again: if the device does not fail any more and nothing else was done to its rows, it returns
and writes what it would have returned and written the first time. -/
theorem failed_calls_leave_rows (d : Device) (now : Nat) (r : Registration) (reads : ReadFootprint)
    (w : WriteSet) :
    let b := backend config
    (∀ e, (b.begin now d).1 = .error e → (b.begin now d).2.rows = d.rows) ∧
    (∀ e, (b.heartbeat now r d).1 = .error e → (b.heartbeat now r d).2.rows = d.rows) ∧
    (∀ e, (b.commit r reads w d).1 = .error e → (b.commit r reads w d).2.rows = d.rows) ∧
    (∀ e, (b.finish now r d).1 = .error e → (b.finish now r d).2.rows = d.rows ∨
      ∀ key, (b.finish now r d).2.rows.get? key =
        if key = ledgerKey r then none else d.rows.get? key) ∧
    (d.Unwritten (openStore config d).2 ∧ d.Unwritten (b.stats d).2 ∧
      (∀ s key, d.Unwritten (b.get s key d).2) ∧
      ∀ gate cursor, d.Unwritten (b.poll gate cursor d).2.2) ∧
    ∀ text, (b.commit r reads w d).1 = .error (.storage (.device text)) →
      ∀ first again : Device, first.Faultless → first.rows = d.rows →
        again.Faultless → again.rows = (b.commit r reads w d).2.rows →
        (b.commit r reads w again).1 = (b.commit r reads w first).1 ∧
          (b.commit r reads w again).2.rows = (b.commit r reads w first).2.rows := by
  refine ⟨(spares_begin config now).unchanged d, (spares_heartbeat now r).unchanged d,
    (spares_commit config r reads w).unchanged d, fun e failed => ?_,
    ⟨(looks_openStore config).unwritten d, (looks_stats config).unwritten d,
      fun s key => (looks_snapshotGet s key).unwritten d,
      fun gate cursor => Cursor.unwritten_poll gate cursor d⟩,
    fun text failed first again faultless same healed left =>
      commit_again config ⟨text, failed⟩ faultless same healed left⟩
  refine (finish_failed config failed).imp id fun withdrawn key => ?_
  change (finish config now r d).2.rows.get? key = _
  rw [withdrawn, RawRows.apply_one, RawRows.get?_write]
  rfl

def stuckStore : Device :=
  { ((clientOn {} {}).after storeOfOne).medium with onWrite := .after 0 "gone" }

def sampleCommit : Access Device Version :=
  (backend {}).commit ⟨1, 2⟩ {} (.ofList [([98], some [50])])

theorem failed_calls_leave_rows_sample :
    (sampleCommit stuckStore).1 = .error (.storage (.device "gone")) ∧
      (sampleCommit stuckStore).2.rows = stuckStore.rows ∧
      (sampleCommit (sampleCommit stuckStore).2.healed).1 = .ok 2 := by
  have failed : (sampleCommit stuckStore).1 = .error (.storage (.device "gone")) := by
    decide +kernel
  have done : (sampleCommit stuckStore.healed).1 = .ok 2 := by decide +kernel
  -- told in the words of the theorem, they are recognised without being evaluated
  unfold sampleCommit at failed done ⊢
  obtain ⟨_, _, kept, _, _, again⟩ :=
    failed_calls_leave_rows {} stuckStore 0 ⟨1, 2⟩ {} (.ofList [([98], some [50])])
  have repeated := again "gone" failed stuckStore.healed _ (Device.faultless_healed _)
    (Device.rows_healed _) (Device.faultless_healed _) (Device.rows_healed _)
  exact ⟨failed, kept _ failed, repeated.1.trans done⟩

end Durable
end OptimisticStore
