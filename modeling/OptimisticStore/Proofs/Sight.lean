import OptimisticStore.Proofs.FailingReads
import OptimisticStore.Proofs.Serializability

/-! What a transaction gets when nothing stands against its reads: the gate is open and no call
fails. Its snapshot shows one map of data for as long as the medium is as it should be, and every
read then succeeds; it gives what the data and the staged writes make it give, records one range
for each key or condition it was asked for, and changes nothing else of the transaction but the
time of its heartbeat. -/

namespace OptimisticStore

def Access.Serves {μ α : Type} (kept : μ → Prop) (x : Access μ α) (a : α) : Prop :=
  ∀ m, kept m → (x m).1 = .ok a ∧ kept (x m).2

/-- A snapshot that shows these data on every medium of which `kept` is said, and the rows that
are left to a cursor. -/
structure Sight {μ σ κ : Type} (b : Backend μ σ κ) (s : σ) (data : OrderedMap Bytes Bytes) where
  kept : μ → Prop
  owes : List (Bytes × Bytes) → κ → Prop
  heartbeat (now : Nat) (r : Registration) : Access.Serves kept (b.heartbeat now r) ()
  get (key : Bytes) : Access.Serves kept (b.get s key) (data.get? key)
  query {m : μ} (c : Condition) : kept m → owes (c.select data) (b.query s c)
  pays : b.Pays kept owes
  bounded (owed : List (Bytes × Bytes)) (cursor : κ) (m : μ) :
    kept m → owes owed cursor → owed.length ≤ b.itemBound cursor m

def Keyspace.sight (snapshot : Snapshot) : Sight backend snapshot snapshot.data where
  kept _ := True
  owes owed w := w.toList = owed
  heartbeat _ _ _ keeps := ⟨rfl, keeps⟩
  get _ _ keeps := ⟨rfl, keeps⟩
  query c _ := Condition.select_eq_range c _
  pays owed w s _ owes := by
    obtain ⟨w', s', polled, _, debt⟩ := Keyspace.pays s owed w s rfl owes
    exact ⟨w', s', polled, trivial, debt⟩
  bounded := by
    rintro _ w _ _ rfl
    exact length_toList_le w

def Law.sight {μ σ κ : Type} {b : Backend μ σ κ} (law : Law b) {h : History} {v : Nat} {s : σ}
    (sees : law.sees h v s)
    (beats : ∀ now r m, law.holds h m → (b.heartbeat now r m).1 = .ok ()) :
    Sight b s (h.state v) where
  kept := law.holds h
  owes := law.owes h
  heartbeat now r m holds := ⟨beats now r m holds, law.heartbeat now r holds⟩
  get key _ holds := law.get key holds sees
  query c holds := law.query c holds sees
  pays := law.pays h
  bounded _ _ _ := law.bounded

theorem Durable.heartbeat_ok {h : History} (now : Nat) (r : Registration) (d : Device)
    (keeps : Keeps h d) : (heartbeat now r d).1 = .ok () := by
  obtain ⟨a, rfl, holds, faultless⟩ := keeps
  obtain ⟨rows, does, after⟩ := does_heartbeat holds now r
  exact (Keeps.access faultless does after).1

/-- On this medium the snapshot shows these data. In memory any snapshot does, whatever the store
holds; a durable one shows the state of its version, on a device that never fails and keeps a
history that reaches up to that version. -/
inductive Shows : {μ σ κ : Type} → Backend μ σ κ → μ → σ → OrderedMap Bytes Bytes → Prop
  | memory (store : Keyspace) (snapshot : Keyspace.Snapshot) :
    Shows Keyspace.backend store snapshot snapshot.data
  | durable {config : Config} {h : History} {d : Device} {v : Nat} {snapshot : Durable.Snapshot} :
    0 < config.pageSize → Durable.Keeps h d → Durable.Sees h v snapshot →
      Shows (Durable.backend config) d snapshot (h.state v)

theorem Shows.exists_sight {μ σ κ : Type} {b : Backend μ σ κ} {m : μ} {s : σ}
    {data : OrderedMap Bytes Bytes} (shows' : Shows b m s data) :
    ∃ sight : Sight b s data, sight.kept m := by
  cases shows' with
  | memory store snapshot => exact ⟨Keyspace.sight snapshot, trivial⟩
  | durable pos keeps sees =>
    exact ⟨(Durable.law _ pos).sight sees Durable.heartbeat_ok, keeps⟩

namespace Transaction
variable {μ σ κ α β : Type}

def afterReads (t : Transaction σ) (ranges : List KeyRange) (last : Nat) : Transaction σ :=
  { t with reads := ⟨t.reads.ranges ++ ranges⟩, lastHeartbeat := last }

@[simp] theorem afterReads_afterReads (t : Transaction σ) (ranges ranges' : List KeyRange)
    (last last' : Nat) : (t.afterReads ranges last).afterReads ranges' last' =
      t.afterReads (ranges ++ ranges') last' := by
  simp [afterReads]

@[simp] theorem writes_afterReads (t : Transaction σ) (ranges : List KeyRange) (last : Nat) :
    (t.afterReads ranges last).writes = t.writes := rfl

@[simp] theorem snapshot_afterReads (t : Transaction σ) (ranges : List KeyRange) (last : Nat) :
    (t.afterReads ranges last).snapshot = t.snapshot := rfl

def Gets (t : Transaction σ) (m : μ) (x : Access (Transaction σ × μ) α) (a : α)
    (ranges : List KeyRange) : Prop :=
  ∃ last m', x (t, m) = (.ok a, t.afterReads ranges last, m')

def AlwaysGets (kept : μ → Prop) (t : Transaction σ) (x : Access (Transaction σ × μ) α) (a : α)
    (ranges : List KeyRange) : Prop :=
  ∀ m, kept m → ∃ last m', x (t, m) = (.ok a, t.afterReads ranges last, m') ∧ kept m'

theorem AlwaysGets.gets {kept : μ → Prop} {t : Transaction σ} {m : μ}
    {x : Access (Transaction σ × μ) α} {a : α} {ranges : List KeyRange}
    (always : AlwaysGets kept t x a ranges) (keeps : kept m) : t.Gets m x a ranges := by
  obtain ⟨last, m', ran, _⟩ := always m keeps
  exact ⟨last, m', ran⟩

section Steps
variable {kept : μ → Prop} {t : Transaction σ} {ranges ranges' : List KeyRange}

theorem AlwaysGets.bind {x : Access (Transaction σ × μ) α} {a : α}
    {f : α → Access (Transaction σ × μ) β} {b : β} (hx : AlwaysGets kept t x a ranges)
    (hf : ∀ last, AlwaysGets kept (t.afterReads ranges last) (f a) b ranges') :
    AlwaysGets kept t (x >>= f) b (ranges ++ ranges') := by
  intro m keeps
  obtain ⟨last, m', ran, keeps'⟩ := hx m keeps
  obtain ⟨last', m'', ran', keeps''⟩ := hf last m' keeps'
  refine ⟨last', m'', ?_, keeps''⟩
  rw [Access.bind_apply, ran, ← afterReads_afterReads]
  exact ran'

theorem afterReads_nil (t : Transaction σ) : t.afterReads [] t.lastHeartbeat = t := by
  simp [afterReads]

theorem alwaysGets_pure (a : α) : AlwaysGets kept t (pure a) a [] :=
  fun m keeps => ⟨t.lastHeartbeat, m, by rw [afterReads_nil, Access.pure_apply], keeps⟩

theorem alwaysGets_pass {gate : Option Error} (isOpen : gate = none) :
    AlwaysGets kept t (Access.pass gate) () [] := by
  rw [isOpen]
  exact alwaysGets_pure ()

theorem alwaysGets_record (range : KeyRange) : AlwaysGets kept t (record range) () [range] :=
  fun m keeps => ⟨t.lastHeartbeat, m, rfl, keeps⟩

theorem alwaysGets_current : AlwaysGets kept t current t [] :=
  fun m keeps => ⟨t.lastHeartbeat, m, by rw [afterReads_nil, current], keeps⟩

theorem alwaysGets_onSecond {x : Access μ α} {a : α} (serves : Access.Serves kept x a) :
    AlwaysGets kept t (Access.onSecond x) a [] := by
  intro m keeps
  obtain ⟨ran, keeps'⟩ := serves m keeps
  refine ⟨t.lastHeartbeat, (x m).2, ?_, keeps'⟩
  rw [afterReads_nil, ← ran]
  rfl

end Steps
end Transaction

def Transaction.pull {μ σ κ : Type} (b : Backend μ σ κ) (now : Moment) (c : Condition) (n : Nat) :
    Access (Transaction σ × μ) (List (Bytes × Bytes)) := do
  let feed ← query b now c
  Access.onSecond (feed.take b now.gate n)

namespace Sight
open Transaction
variable {μ σ κ : Type} {b : Backend μ σ κ} {data : OrderedMap Bytes Bytes}

section Feeds
variable {s : σ} (sight : Sight b s data) {feed : Feed κ} {rows : List (Bytes × Bytes)}

theorem serves_take (debt : feed.Owes sight.owes rows) {gate : Option Error}
    (isOpen : gate = none) (limit : Nat) :
    Access.Serves sight.kept (feed.take b gate limit) (rows.take limit) := by
  intro m keeps
  obtain ⟨m', taken, keeps'⟩ :=
    Feed.take_owes sight.pays sight.bounded keeps debt limit
  rw [isOpen, taken]
  exact ⟨rfl, keeps'⟩

theorem serves_rows (debt : feed.Owes sight.owes rows) {gate : Option Error}
    (isOpen : gate = none) : Access.Serves sight.kept (feed.rows b gate) rows := by
  intro m keeps
  obtain ⟨m', read, keeps'⟩ := Feed.rows_owes sight.pays sight.bounded keeps debt
  rw [isOpen, read]
  exact ⟨rfl, keeps'⟩

end Feeds

section Reads
variable {t : Transaction σ} (sight : Sight b t.snapshot data) {now : Moment}
  (isOpen : now.gate = none)

theorem owes_merged {m : μ} (keeps : sight.kept m) (c : Condition) :
    (t.merged b c).Owes sight.owes (c.select (t.writes.onto data)) :=
  Feed.start_owes (sight.query c keeps) t.writes

include isOpen

theorem gets_prepare : AlwaysGets sight.kept t (prepare b now) () [] := by
  refine (alwaysGets_pass isOpen).bind fun _ => alwaysGets_current.bind fun _ => ?_
  split
  · refine (alwaysGets_onSecond (sight.heartbeat _ _)).bind fun _ m keeps => ?_
    exact ⟨now.clock.steady, m, by simp [update, Access.modify, afterReads], keeps⟩
  · exact alwaysGets_pure ()

theorem gets_get (key : Bytes) :
    AlwaysGets sight.kept t (Transaction.get b now key) ((t.writes.onto data).get? key)
      [.point key] := by
  refine (sight.gets_prepare isOpen).bind fun _ => (alwaysGets_record _).bind fun _ =>
    alwaysGets_current.bind fun _ => ?_
  simp only [writes_afterReads, snapshot_afterReads, WriteSet.get?_onto]
  cases t.writes.get? key with
  | some staged => exact alwaysGets_pure staged
  | none => exact alwaysGets_onSecond (sight.get key)

theorem gets_query (c : Condition) :
    AlwaysGets sight.kept t (Transaction.query b now c) (t.merged b c) [c.readRange] :=
  (sight.gets_prepare isOpen).bind fun _ => (alwaysGets_record _).bind fun _ =>
    alwaysGets_current.bind fun _ => alwaysGets_pure _

theorem gets_getMany (keys : List Bytes) :
    AlwaysGets sight.kept t (getMany b now keys) (keys.map (t.writes.onto data).get?)
      (keys.map .point) := by
  rw [getMany]
  induction keys generalizing t with
  | nil => exact alwaysGets_pure []
  | cons key keys ih =>
    rw [List.mapM_cons]
    refine (sight.gets_get isOpen key).bind fun last => ?_
    have rest := ih (t := t.afterReads [.point key] last) sight
    rw [← List.append_nil (keys.map KeyRange.point)]
    exact rest.bind fun _ => alwaysGets_pure _

theorem gets_pull (c : Condition) (n : Nat) :
    AlwaysGets sight.kept t (pull b now c n) ((c.select (t.writes.onto data)).take n)
      [c.readRange] := by
  refine (sight.gets_query isOpen c).bind fun _ m keeps => ?_
  exact alwaysGets_onSecond (sight.serves_take (sight.owes_merged keeps c) isOpen n) m keeps

theorem gets_queryRows (c : Condition) :
    AlwaysGets sight.kept t (Engine.queryRows b now c) (c.select (t.writes.onto data))
      [c.readRange] := by
  refine (sight.gets_query isOpen c).bind fun _ m keeps => ?_
  exact alwaysGets_onSecond (sight.serves_rows (sight.owes_merged keeps c) isOpen) m keeps

theorem gets_scan (c : Condition) (limit : Nat) :
    AlwaysGets sight.kept t (scan b now c limit) ((c.select (t.writes.onto data)).take limit)
      [scanned c limit ((c.select (t.writes.onto data)).take limit)] := by
  refine (sight.gets_prepare isOpen).bind fun _ => alwaysGets_current.bind fun _ m keeps => ?_
  have taken := sight.serves_take (sight.owes_merged keeps c) isOpen limit
  have recorded (t' : Transaction σ) (rows : List (Bytes × Bytes)) :
      AlwaysGets sight.kept t' (do record (scanned c limit rows); return rows) rows
        ([scanned c limit rows] ++ []) :=
    (alwaysGets_record _).bind fun _ => alwaysGets_pure rows
  exact (alwaysGets_onSecond taken).bind (fun _ => recorded _ _) m keeps

end Reads
end Sight

/-! ### Snapshots of running sessions -/

section Runs
variable {config : Config} {events : List (Clock × Event)} {name : String}

theorem Follows.sees_session {μ σ κ : Type} {b : Backend μ σ κ} {law : Law b} {c : Chronicle}
    {g : Engine μ σ κ} (follows : Follows law c g) {s : Session σ}
    (found : g.session? name = some s) :
    law.sees c.history s.attempt.registration.readVersion s.attempt.snapshot := by
  obtain ⟨story, _, tracks⟩ := (follows.sessions name).of_session found
  rw [tracks.registered]
  exact tracks.sees

theorem Keyspace.shows_session {s : Session Snapshot}
    (found : ((Keyspace.engine config).run events).2.session? name = some s) :
    Shows backend ((Keyspace.engine config).run events).2.medium s.attempt.snapshot
      (((Keyspace.engine config).chronicle events).history.state
        s.attempt.registration.readVersion) := by
  have follows := (Follows.fresh law config (m := {}) ⟨{}, rfl, .empty⟩).run events
  obtain ⟨_, data⟩ := follows.sees_session found
  exact data ▸ .memory _ _

theorem Durable.shows_session {store : Config} {s : Session Snapshot}
    (found : ((Durable.engine store config).run events).2.session? name = some s) :
    Shows (backend (store.withPageSize store.pageSize))
      ((Durable.engine store config).run events).2.medium s.attempt.snapshot
      (((Durable.engine store config).chronicle events).history.state
        s.attempt.registration.readVersion) := by
  have pos := withPageSize_pos store
  have follows := (Follows.fresh (law (store.withPageSize store.pageSize) pos) config (m := {})
    ⟨{}, rfl, .empty, Device.faultless_new⟩).run events
  exact .durable pos follows.holds (follows.sees_session found)

end Runs

/-! ### A store to look at -/

theorem Durable.keeps_healed {a : Standing} {d : Device} (holds : Holds a d.rows) :
    Keeps a.history d.healed := ⟨a, rfl, holds, d.faultless_healed⟩

def sampleHistory : History := (Durable.clientOn {} {}).history Durable.storeOfOne

def soundStore : Device := ((Durable.clientOn {} {}).after Durable.storeOfOne).medium.healed

theorem keeps_soundStore : Durable.Keeps sampleHistory soundStore := by
  obtain ⟨a, same, holds⟩ := (Durable.endures_clientOn {} {} Durable.storeOfOne).exists_holds
  rw [sampleHistory, ← same]
  exact Durable.keeps_healed holds

theorem shows_soundStore : Shows (Durable.backend {}) soundStore Durable.sampleReader.snapshot
    (sampleHistory.state 1) := by
  have reached : 1 ≤ sampleHistory.length := by decide +kernel
  have sees : Durable.Sees sampleHistory 1 Durable.sampleReader.snapshot :=
    ⟨rfl, reached, Nat.one_pos⟩
  exact .durable (by decide) keeps_soundStore sees

end OptimisticStore
