import OptimisticStore.Proofs.Cursor

/-! What accesses do on a device whose calls may fail, whichever calls these are. A failed call
changes no row. So an access that writes at most once, and writes last, either fails without a
trace or does what it does on a device that never fails; this carries over all that is known of
faultless devices. Of the operations of a store only the one that ends a registration writes
twice, and it consists of two such accesses. -/

namespace OptimisticStore

namespace Device

def healed (d : Device) : Device := { rows := d.rows }

theorem faultless_healed (d : Device) : d.healed.Faultless :=
  ⟨fun _ => rfl, fun _ => rfl, fun _ => rfl, fun _ => rfl⟩

def Broken {α : Type} (r : Except Error α) : Prop := ∃ text, r = .error (.storage (.device text))

/-- Either a call fails and no row has changed, or the access does what it does on any faultless
device with the same rows. -/
structure Atomic {α : Type} (x : Access Device α) : Prop where
  faultless : ∀ d : Device, d.Faultless → (x d).2.Faultless
  cases : ∀ d d₀ : Device, d₀.Faultless → d₀.rows = d.rows →
    Broken (x d).1 ∧ (x d).2.rows = d.rows ∨
      (x d).1 = (x d₀).1 ∧ (x d).2.rows = (x d₀).2.rows

structure ReadsOnly {α : Type} (x : Access Device α) : Prop extends Atomic x where
  unchanged : ∀ d : Device, (x d).2.rows = d.rows

variable {α β : Type}

theorem readsOnly_pure (a : α) : ReadsOnly (pure a : Access Device α) where
  faultless _ faultless := faultless
  cases _ _ _ same := .inr ⟨rfl, same.symm⟩
  unchanged _ := rfl

theorem readsOnly_fail (e : Error) : ReadsOnly (Access.fail e : Access Device α) where
  faultless _ faultless := faultless
  cases _ _ _ same := .inr ⟨rfl, same.symm⟩
  unchanged _ := rfl

theorem Atomic.bind {x : Access Device α} {f : α → Access Device β} (hx : ReadsOnly x)
    (hf : ∀ a, Atomic (f a)) : Atomic (x >>= f) where
  faultless d faultless := by
    have after := hx.faultless d faultless
    rcases ran : x d with ⟨e | a, d'⟩ <;> rw [ran] at after <;> rw [Access.bind_apply, ran]
    · exact after
    · exact (hf a).faultless d' after
  cases d d₀ faultless same := by
    have kept := hx.unchanged d
    have kept₀ := hx.unchanged d₀
    have after := hx.faultless d₀ faultless
    have first := hx.cases d d₀ faultless same
    rcases ran : x d with ⟨r, d'⟩
    rcases ran₀ : x d₀ with ⟨r₀, d₀'⟩
    rw [Access.bind_apply, Access.bind_apply, ran, ran₀]
    rw [ran] at kept first
    rw [ran₀] at kept₀ after first
    rcases first with ⟨⟨text, rfl⟩, _⟩ | ⟨rfl, _⟩
    · exact .inl ⟨⟨text, rfl⟩, kept⟩
    · have alike : d₀'.rows = d'.rows := kept₀.trans (same.trans kept.symm)
      cases r with
      | error e => exact .inr ⟨rfl, alike.symm⟩
      | ok a =>
        rcases (hf a).cases d' d₀' after alike with ⟨broken, rows⟩ | agree
        · exact .inl ⟨broken, rows.trans kept⟩
        · exact .inr agree

theorem Atomic.map {x : Access Device α} (hx : Atomic x) (g : α → β) :
    Atomic (do return g (← x)) where
  faultless d faultless := by
    have after := hx.faultless d faultless
    rcases ran : x d with ⟨e | a, d'⟩ <;> rw [ran] at after <;> rw [Access.bind_apply, ran] <;>
      exact after
  cases d d₀ faultless same := by
    have cases := hx.cases d d₀ faultless same
    rcases ran : x d with ⟨r, d'⟩
    rcases ran₀ : x d₀ with ⟨r₀, d₀'⟩
    rw [Access.bind_apply, Access.bind_apply, ran, ran₀]
    rw [ran, ran₀] at cases
    rcases cases with ⟨⟨text, rfl⟩, rows⟩ | ⟨rfl, rows⟩
    · exact .inl ⟨⟨text, rfl⟩, rows⟩
    · cases r <;> exact .inr ⟨rfl, rows⟩

theorem ReadsOnly.bind {x : Access Device α} {f : α → Access Device β} (hx : ReadsOnly x)
    (hf : ∀ a, ReadsOnly (f a)) : ReadsOnly (x >>= f) where
  toAtomic := .bind hx fun a => (hf a).toAtomic
  unchanged d := by
    have kept := hx.unchanged d
    rcases ran : x d with ⟨e | a, d'⟩ <;> rw [ran] at kept <;> rw [Access.bind_apply, ran]
    · exact kept
    · exact ((hf a).unchanged d').trans kept

theorem readsOnly_medium {f : RawRows → Access Device β} (hf : ∀ rows, ReadsOnly (f rows)) :
    ReadsOnly (Access.medium >>= fun d => f d.rows) where
  faultless d := (hf d.rows).faultless d
  cases d d₀ faultless same := by
    have agree := (hf d.rows).cases d d₀ faultless same
    simpa only [Access.bind_apply, Access.medium, same] using agree
  unchanged d := (hf d.rows).unchanged d

theorem readsOnly_request (call : RawCall) : ReadsOnly (request call) where
  faultless d faultless := by
    obtain ⟨d', ran, after, _⟩ := does_request call d faultless rfl
    rw [ran]
    exact after
  cases d d₀ faultless same := by
    obtain ⟨d', ran, _, rows⟩ := does_request call d₀ faultless same
    have outcome (p : FaultPlan) : Broken p.outcome ∨ p.outcome = .ok () := by
      rw [FaultPlan.outcome]
      cases p.fails p.made with
      | none => exact .inr rfl
      | some text => exact .inl ⟨text, rfl⟩
    have asked : Broken (d.note call).1 ∨ (d.note call).1 = .ok () := by
      cases call
      · exact outcome d.onGet
      · exact outcome d.onScan
      · exact outcome d.onWrite
      · exact outcome d.onClose
    have kept := d.rows_note call
    rcases asked with broken | done
    · exact .inl ⟨broken, kept⟩
    · rw [ran]
      exact .inr ⟨done, kept.trans rows.symm⟩
  unchanged d := d.rows_note call

theorem readsOnly_get (key : Bytes) : ReadsOnly (Device.get key) :=
  (readsOnly_request _).bind fun _ => readsOnly_medium fun rows => readsOnly_pure (rows.get? key)

theorem readsOnly_scan (lower upper : Cut Bytes) (direction : Direction) (limit : Nat) :
    ReadsOnly (Device.scan lower upper direction limit) :=
  (readsOnly_request _).bind fun _ => readsOnly_medium fun rows =>
    readsOnly_pure (rows.scan lower upper direction limit)

theorem readsOnly_close : ReadsOnly Device.close := readsOnly_request .close

theorem atomic_write (batch : List RawWrite) : Atomic (Device.write batch) := by
  refine .bind (readsOnly_request _) fun _ => ⟨fun d faultless => ?_, fun d d₀ _ same => ?_⟩
  · exact ⟨faultless.get, faultless.scan, faultless.write, faultless.close⟩
  · refine .inr ⟨rfl, ?_⟩
    change d.rows.apply batch = d₀.rows.apply batch
    rw [same]

theorem readsOnly_decoded (x : Except RowDefect α) : ReadsOnly (Durable.decoded x) := by
  cases x with
  | error defect => exact readsOnly_fail _
  | ok a => exact readsOnly_pure a

theorem readsOnly_ofExcept (x : Except Error α) :
    ReadsOnly (Access.ofExcept x : Access Device α) := by
  cases x with
  | error e => exact readsOnly_fail e
  | ok a => exact readsOnly_pure a

/-- What is known of faultless devices holds of any device, unless a call fails. -/
theorem Atomic.of_does {x : Access Device α} (atomic : Atomic x) {before after : RawRows}
    {r : Except Error α} (does : Does x before r after) {d : Device} (same : d.rows = before) :
    Broken (x d).1 ∧ (x d).2.rows = before ∨ (x d).1 = r ∧ (x d).2.rows = after := by
  obtain ⟨d', ran, _, rows⟩ := does d.healed d.faultless_healed same
  have cases := atomic.cases d d.healed d.faultless_healed rfl
  rwa [ran, rows, same] at cases

end Device

namespace Durable
open Device Layout

variable (config : Config)

/-! ### Operations that read -/

theorem readsOnly_readCounter (key : Bytes) : ReadsOnly (readCounter key) :=
  (readsOnly_get key).bind fun value => by
    cases value with
    | none => exact readsOnly_pure 0
    | some value => exact readsOnly_decoded _

theorem readsOnly_readVersion : ReadsOnly readVersion := readsOnly_readCounter _

theorem readsOnly_successor (n : Nat) : ReadsOnly (successor n) := by
  rw [successor]
  split
  · exact readsOnly_pure _
  · exact readsOnly_fail _

theorem readsOnly_openStore : ReadsOnly (openStore config) :=
  readsOnly_readVersion.bind fun _ => readsOnly_pure _

theorem readsOnly_scanPages (pageSize : Nat) (upper : Cut Bytes) (fuel : Nat) (lower : Cut Bytes) :
    ReadsOnly (scanPages pageSize upper fuel lower) := by
  induction fuel generalizing lower with
  | zero => exact readsOnly_pure []
  | succ fuel ih =>
    refine (readsOnly_scan _ _ _ _).bind fun rows => ?_
    split
    · exact readsOnly_pure rows
    · exact (ih _).bind fun _ => readsOnly_pure _

theorem readsOnly_scanAll (ends : Cut Bytes × Cut Bytes) : ReadsOnly (scanAll config ends) :=
  readsOnly_medium fun rows => readsOnly_scanPages config.pageSize ends.2 (rows.size + 1) ends.1

theorem readsOnly_record? (s : Snapshot) (key : Bytes) : ReadsOnly (s.record? key) :=
  (readsOnly_scan _ _ _ _).bind fun rows => by
    cases rows.head? with
    | none => exact readsOnly_pure none
    | some row => exact (readsOnly_decoded _).bind fun _ => readsOnly_pure _

theorem readsOnly_snapshotGet (s : Snapshot) (key : Bytes) : ReadsOnly (s.get key) :=
  (readsOnly_record? s key).bind fun _ => readsOnly_pure _

theorem readsOnly_nextPage (c : Cursor) : ReadsOnly c.nextPage :=
  (readsOnly_scan _ _ _ _).bind fun _ => (readsOnly_decoded _).bind fun _ => readsOnly_pure _

namespace Cursor

theorem readsOnly_turn (c : Cursor) : ReadsOnly c.turn := by
  rw [turn]
  cases c.ready with
  | cons row ready => exact readsOnly_pure _
  | nil =>
    dsimp only
    split
    · exact readsOnly_pure _
    · exact (readsOnly_nextPage c).bind fun _ => readsOnly_pure _

theorem rows_pull (gate : Option Error) (fuel : Nat) (c : Cursor) (d : Device) :
    (c.pull gate fuel d).2.2.rows = d.rows := by
  induction fuel generalizing c d with
  | zero => rfl
  | succ fuel ih =>
    cases gate with
    | some e => simp only [pull]
    | none =>
      have kept := (readsOnly_turn c).unchanged d
      rw [pull_succ]
      rcases ran : c.turn d with ⟨e | ⟨_ | row, _ | next⟩, d'⟩ <;> rw [ran] at kept
      · exact kept
      · exact kept
      · exact (ih next d').trans kept
      · exact kept
      · exact kept

theorem rows_poll (gate : Option Error) (c : Option Cursor) (d : Device) :
    (poll gate c d).2.2.rows = d.rows := by
  cases c with
  | none => rfl
  | some c => exact rows_pull gate _ c d

theorem faultless_pull (gate : Option Error) (fuel : Nat) (c : Cursor) (d : Device)
    (faultless : d.Faultless) : (c.pull gate fuel d).2.2.Faultless := by
  induction fuel generalizing c d with
  | zero => exact faultless
  | succ fuel ih =>
    cases gate with
    | some e =>
      simp only [pull]
      exact faultless
    | none =>
      have after := (readsOnly_turn c).faultless d faultless
      rw [pull_succ]
      rcases ran : c.turn d with ⟨e | ⟨_ | row, _ | next⟩, d'⟩ <;> rw [ran] at after
      · exact after
      · exact after
      · exact ih next d' after
      · exact after
      · exact after

theorem faultless_poll (gate : Option Error) (c : Option Cursor) (d : Device)
    (faultless : d.Faultless) : (poll gate c d).2.2.Faultless := by
  cases c with
  | none => exact faultless
  | some c => exact faultless_pull gate _ c d faultless

end Cursor

theorem readsOnly_stats : ReadsOnly (stats config) :=
  readsOnly_readVersion.bind fun _ => (readsOnly_scanAll config _).bind fun _ =>
    (readsOnly_decoded _).bind fun _ => (readsOnly_scanAll config _).bind fun _ =>
      readsOnly_pure _

/-! ### Operations that write once, and last -/

theorem atomic_begin (now : Nat) : Atomic (begin config now) :=
  .bind readsOnly_readVersion fun _ => .bind (readsOnly_readCounter _) fun last =>
    .bind (readsOnly_successor last) fun _ => (atomic_write _).map _

theorem atomic_heartbeat (now : Nat) (r : Registration) : Atomic (heartbeat now r) :=
  .bind (readsOnly_get _) fun value => by
    split
    · exact atomic_write _
    · exact (readsOnly_pure ()).toAtomic

theorem atomic_commit (r : Registration) (reads : ReadFootprint) (w : WriteSet) :
    Atomic (commit config r reads w) := by
  refine .bind readsOnly_readVersion fun current => .bind (readsOnly_get _) fun value => ?_
  have rest : Atomic (do
      let rows ← scanAll config (logRange r.readVersion none)
      let log ← decoded (rows.mapM readLogRow)
      Access.ofExcept (reads.validate r.readVersion log)
      let version ← successor current
      Device.write (commitBatch version w)
      return version) :=
    .bind (readsOnly_scanAll config _) fun _ => .bind (readsOnly_decoded _) fun _ =>
      .bind (readsOnly_ofExcept _) fun _ => .bind (readsOnly_successor current) fun _ =>
        (atomic_write _).map _
  split
  · exact .bind (readsOnly_fail _) fun _ => rest
  · exact rest

theorem atomic_prune (now : Nat) (version : Version) : Atomic (prune config now version) := by
  refine .bind (readsOnly_scanAll config _) fun _ => .bind (readsOnly_decoded _) fun ledger => ?_
  have last (obsolete : List Row) : Atomic (do
      let batch := (((ledger.filter (·.expired config now)).map (·.raw)) ++
        obsolete.map (·.1)).map RawWrite.delete
      if !batch.isEmpty then Device.write batch) := by
    dsimp only
    split
    · exact atomic_write _
    · exact (readsOnly_pure ()).toAtomic
  dsimp only
  split
  · exact .bind (readsOnly_scanAll config _) last
  · exact .bind (readsOnly_pure []) last

/-! ### Operations on rows that keep a standing -/

section Holding
variable {config} {a : Standing} {d : Device}

theorem begin_cases (config : Config) (holds : Holds a d.rows) (now : Nat) :
    (∃ e, (begin config now d).1 = .error e ∧ (begin config now d).2.rows = d.rows) ∨
      (begin config now d).1 = .ok (a.next, ⟨a.history.length, config.pageSize⟩) ∧
        Holds a.begun (begin config now d).2.rows := by
  by_cases room : a.lastTxnId + 1 < wordBound
  · obtain ⟨rows, does, after⟩ := does_begin holds config now room
    rcases (atomic_begin config now).of_does does rfl with ⟨⟨text, failed⟩, kept⟩ | ⟨done, same⟩
    · exact .inl ⟨_, failed, kept⟩
    · exact .inr ⟨done, same ▸ after⟩
  · rcases (atomic_begin config now).of_does (does_begin_full holds config now room) rfl with
      ⟨⟨text, failed⟩, kept⟩ | ⟨full, kept⟩
    · exact .inl ⟨_, failed, kept⟩
    · exact .inl ⟨_, full, kept⟩

theorem Holds.heartbeat_any (holds : Holds a d.rows) (now : Nat) (r : Registration) :
    Holds a (heartbeat now r d).2.rows := by
  obtain ⟨rows, does, after⟩ := does_heartbeat holds now r
  rcases (atomic_heartbeat now r).of_does does rfl with ⟨_, kept⟩ | ⟨_, same⟩
  · exact kept ▸ holds
  · exact same ▸ after

theorem commit_any (holds : Holds a d.rows) (pos : 0 < config.pageSize) (r : Registration)
    (reads : ReadFootprint) (w : WriteSet) :
    (∃ e, (commit config r reads w d).1 = .error e ∧ (commit config r reads w d).2.rows = d.rows) ∨
      (commit config r reads w d).1 = .ok (a.history.length + 1) ∧
        Holds (a.committed w) (commit config r reads w d).2.rows := by
  have atomic := atomic_commit config r reads w
  rcases commit_cases holds pos r reads w with ⟨_, does⟩ | ⟨e, _, does⟩ | ⟨_, _, does⟩ |
    ⟨_, _, rows, does, after⟩ <;>
    rcases atomic.of_does does rfl with ⟨⟨text, failed⟩, kept⟩ | ⟨done, same⟩
  · exact .inl ⟨_, failed, kept⟩
  · exact .inl ⟨_, done, same⟩
  · exact .inl ⟨_, failed, kept⟩
  · exact .inl ⟨_, done, same⟩
  · exact .inl ⟨_, failed, kept⟩
  · exact .inl ⟨_, done, same⟩
  · exact .inl ⟨_, failed, kept⟩
  · exact .inr ⟨done, same ▸ after⟩

/-- An end that fails half-way has withdrawn its registration and pruned nothing. -/
theorem finish_any (holds : Holds a d.rows) (pos : 0 < config.pageSize) (now : Nat)
    (r : Registration) : ∃ keep, Holds (a.restrict keep) (finish config now r d).2.rows := by
  have withdrawn := holds.withdrawn r
  have everyone : a.running.filter (fun _ => true) = a.running :=
    List.filter_eq_self.2 fun _ _ => rfl
  have first := (atomic_write [.delete (ledgerKey r)]).of_does (does_write _) (d := d) rfl
  rcases ran : Device.write [.delete (ledgerKey r)] d with ⟨r', d'⟩
  rw [finish, Access.bind_apply, ran]
  rw [ran] at first
  rcases first with ⟨⟨text, rfl⟩, kept⟩ | ⟨rfl, gone⟩
  · refine ⟨fun _ => true, ?_⟩
    rw [Standing.restrict, everyone]
    exact kept ▸ holds
  · have rest : Atomic (readVersion >>= prune config now) :=
      .bind readsOnly_readVersion fun version => atomic_prune config now version
    obtain ⟨rows, does, after⟩ := does_prune withdrawn pos now
    change ∃ keep, Holds (a.restrict keep) ((readVersion >>= prune config now) d').2.rows
    rcases rest.of_does ((does_readVersion withdrawn).bind does) gone with ⟨_, kept⟩ | ⟨_, same⟩
    · exact ⟨_, kept ▸ withdrawn⟩
    · rw [same]
      refine ⟨fun s => ledgerKey s ≠ ledgerKey r &&
        !lapsed config now (d.rows.apply [.delete (ledgerKey r)]) s, ?_⟩
      simpa only [Standing.restrict, List.filter_filter, Bool.and_comm] using after

end Holding

end Durable
end OptimisticStore
