import OptimisticStore.Proofs.Faults
import OptimisticStore.Proofs.Provenance
import OptimisticStore.Proofs.Retries

/-! Which failures are worth another attempt. Only the validation of a commit tells of a conflict:
whatever else a store is asked, and whatever a feed gives, a failure is conclusive. So of all events
only the end of a body that has succeeded, and a call that is one event, may be answered with a
conflict that the caller has not handed over itself. -/

namespace OptimisticStore

def Answer.error? : Answer → Option Error
  | .done (.error (.store e)) | .value (.error e) | .values (.error e) | .rows (.error e)
  | .staged (.error e) | .opened (.error e) | .item (some (.error e)) | .stats (.error e)
  | .closed (.error e) => some e
  | _ => none

/-- A result of this kind, or a failure that is not worth another attempt. -/
def Conclusive {α : Type} (r : Except Error α) (told : α → Prop := fun _ => True) : Prop :=
  match r with
  | .ok a => told a
  | .error e => e.isRetryable = false

def Access.Concludes {μ α : Type} (x : Access μ α) (told : α → Prop := fun _ => True) : Prop :=
  ∀ m, Conclusive (x m).1 told

def Shut (gate : Option Error) : Prop := ∀ e ∈ gate, e.isRetryable = false

structure Backend.Concludes {μ σ κ : Type} (b : Backend μ σ κ) : Prop where
  begin now : (b.begin now).Concludes
  heartbeat now r : (b.heartbeat now r).Concludes
  get s key : (b.get s key).Concludes
  stats : b.stats.Concludes
  close : b.close.Concludes
  poll gate c m : Shut gate → ∀ item ∈ (b.poll gate c m).1, Conclusive item

namespace Access
variable {μ τ α β : Type} {told : α → Prop} {told' : β → Prop}

theorem concludes_pure {a : α} (here : told a) : (pure a : Access μ α).Concludes told :=
  fun _ => here

theorem concludes_fail {e : Error} (final : e.isRetryable = false) :
    (fail e : Access μ α).Concludes told := fun _ => final

theorem Concludes.bind {x : Access μ α} {f : α → Access μ β} (hx : x.Concludes told)
    (hf : ∀ a, told a → (f a).Concludes told') : (x >>= f).Concludes told' := by
  intro m
  have first := hx m
  rw [bind_apply]
  rcases ran : x m with ⟨e | a, m'⟩ <;> rw [ran] at first
  · exact first
  · exact hf a first m'

theorem concludes_pass {gate : Option Error} (final : Shut gate) :
    (pass gate : Access μ Unit).Concludes := by
  cases gate with
  | none => exact concludes_pure trivial
  | some e => exact concludes_fail (final e rfl)

theorem concludes_modify (f : μ → μ) : (modify f).Concludes := fun _ => trivial

theorem Concludes.onSecond {x : Access μ α} (hx : x.Concludes told) :
    (onSecond x : Access (τ × μ) α).Concludes told := fun state => hx state.2

end Access

/-! ### Both stores -/

theorem Keyspace.concludes : Keyspace.backend.Concludes where
  begin _ := fun _ => trivial
  heartbeat _ _ := fun _ => trivial
  get _ _ := fun _ => trivial
  stats := fun _ => trivial
  close := fun _ => trivial
  poll gate w s final := by
    change ∀ item ∈ (Keyspace.poll gate w).1, _
    rw [Keyspace.poll]
    cases w.next with
    | none => rintro _ ⟨⟩
    | some next =>
      rintro _ ⟨⟩
      cases gate with
      | none => trivial
      | some e => exact final e rfl

namespace Durable
open Access
variable {α : Type}

theorem concludes_request (call : RawCall) : (Device.request call).Concludes := by
  have outcome (plan : FaultPlan) : Conclusive plan.outcome := by
    rw [FaultPlan.outcome]
    cases plan.fails plan.made with
    | none => trivial
    | some text => rfl
  intro d
  cases call with
  | get key => exact outcome d.onGet
  | scan lower upper direction limit => exact outcome d.onScan
  | write batch => exact outcome d.onWrite
  | close => exact outcome d.onClose

theorem concludes_get (key : Bytes) : (Device.get key).Concludes :=
  (concludes_request _).bind fun _ _ _ => trivial

theorem concludes_scan (lower upper : Cut Bytes) (direction : Direction) (limit : Nat) :
    (Device.scan lower upper direction limit).Concludes :=
  (concludes_request _).bind fun _ _ _ => trivial

theorem concludes_write (batch : List RawWrite) : (Device.write batch).Concludes :=
  (concludes_request _).bind fun _ _ _ => trivial

theorem concludes_decoded (x : Except RowDefect α) : (decoded x).Concludes := by
  cases x with
  | error defect => exact concludes_fail rfl
  | ok a => exact concludes_pure trivial

theorem concludes_readCounter (key : Bytes) : (readCounter key).Concludes :=
  (concludes_get key).bind fun value _ => by
    cases value with
    | none => exact concludes_pure trivial
    | some value => exact concludes_decoded _

theorem concludes_successor (n : Nat) : (successor n).Concludes := by
  rw [successor]
  split
  · exact concludes_pure trivial
  · exact concludes_fail rfl

theorem concludes_scanPages (pageSize : Nat) (upper : Cut Bytes) (fuel : Nat) (lower : Cut Bytes) :
    (scanPages pageSize upper fuel lower).Concludes := by
  induction fuel generalizing lower with
  | zero => exact concludes_pure trivial
  | succ fuel ih =>
    refine (concludes_scan _ _ _ _).bind fun rows _ => ?_
    split
    · exact concludes_pure trivial
    · exact (ih _).bind fun _ _ => concludes_pure trivial

theorem concludes_scanAll (config : Config) (ends : Cut Bytes × Cut Bytes) :
    (scanAll config ends).Concludes := fun d =>
  concludes_scanPages config.pageSize ends.2 (d.rows.size + 1) ends.1 d

theorem concludes_begin (config : Config) (now : Nat) :
    (begin config now).Concludes :=
  (concludes_readCounter _).bind fun _ _ => (concludes_readCounter _).bind fun _ _ =>
    (concludes_successor _).bind fun _ _ => (concludes_write _).bind fun _ _ =>
      concludes_pure trivial

theorem concludes_heartbeat (now : Nat) (r : Registration) :
    (heartbeat now r).Concludes :=
  (concludes_get _).bind fun _ _ => by
    split
    · exact concludes_write _
    · exact concludes_pure trivial

theorem concludes_stats (config : Config) : (stats config).Concludes :=
  (concludes_readCounter _).bind fun _ _ => (concludes_scanAll config _).bind fun _ _ =>
    (concludes_decoded _).bind fun _ _ => (concludes_scanAll config _).bind fun _ _ =>
      concludes_pure trivial

theorem concludes_snapshotGet (s : Snapshot) (key : Bytes) :
    (s.get key).Concludes := by
  have found : (s.record? key).Concludes := (concludes_scan _ _ _ _).bind fun rows _ => by
    cases rows.head? with
    | none => exact concludes_pure trivial
    | some row => exact (concludes_decoded _).bind fun _ _ => concludes_pure trivial
  exact found.bind fun _ _ => concludes_pure trivial

theorem concludes_nextPage (c : Cursor) : c.nextPage.Concludes :=
  (concludes_scan _ _ _ _).bind fun _ _ => (concludes_decoded _).bind fun _ _ =>
    concludes_pure trivial

theorem concludes_pull {gate : Option Error} (final : Shut gate) (fuel : Nat) (c : Cursor)
    (d : Device) : ∀ item ∈ (c.pull gate fuel d).1, Conclusive item := by
  induction fuel generalizing c d with
  | zero => rintro _ ⟨⟩
  | succ fuel ih =>
    unfold Cursor.pull
    split
    · rintro _ ⟨⟩
      exact final _ rfl
    · rintro _ ⟨⟩
      trivial
    · split
      · rintro _ ⟨⟩
      · have fetched := concludes_nextPage c d
        split
        · next ran =>
          rw [ran] at fetched
          rintro _ ⟨⟩
          exact fetched
        · exact ih _ _

theorem concludes (config : Config) : (backend config).Concludes where
  begin := concludes_begin config
  heartbeat := concludes_heartbeat
  get := concludes_snapshotGet
  stats := concludes_stats config
  close := concludes_request .close
  poll gate c d final := by
    cases c with
    | none => rintro _ ⟨⟩
    | some c => exact concludes_pull final _ c d

end Durable

/-! ### Feeds -/

section Feeds
variable {μ σ κ : Type}

structure Overlay.Concludes (o : Overlay κ) : Prop where
  lanes : ∀ lane ∈ o.lanes, ∀ item ∈ lane.item, Conclusive item
  held : ∀ item ∈ o.held, Conclusive item

def Feed.Concludes : Feed κ → Prop
  | .plain _ | .guarded _ => True
  | .overlaid o => o.Concludes

theorem Feed.concludes_start (d : Direction) (cursor : κ) (writes : List (Bytes × Option Bytes)) :
    (Feed.start d cursor writes).Concludes := by
  rw [start]
  split
  · trivial
  · refine ⟨fun lane mem => ?_, by rintro _ ⟨⟩⟩
    rcases List.mem_cons.1 mem with rfl | mem
    · rintro _ ⟨⟩
    · rw [List.mem_singleton.1 mem]
      rintro _ ⟨⟩

theorem MergeItem.conclusive_combine {a b joined : MergeItem}
    (combined : a.combine b = some joined) : Conclusive joined := by
  cases a with
  | error e => cases combined
  | ok a =>
    cases b with
    | error e => cases combined
    | ok b =>
      obtain ⟨entry, _, rfl⟩ := Option.map_eq_some_iff.1 combined
      trivial

theorem Overlay.conclusive_reveal {item : MergeItem} (final : Conclusive item) :
    ∀ given ∈ reveal item, Conclusive given := by
  cases item with
  | error e =>
    rintro _ ⟨⟩
    exact final
  | ok entry =>
    intro given shown
    obtain ⟨value, _, rfl⟩ := Option.map_eq_some_iff.1 shown
    trivial

variable {b : Backend μ σ κ} (store : b.Concludes) {gate : Option Error} (final : Shut gate)
include store final

namespace Overlay

theorem ask_concludes (source : LaneSource κ) (m : μ) :
    ∀ asked ∈ (ask b gate source m).1, Conclusive asked.1 := by
  cases source with
  | staged writes =>
    cases writes with
    | nil => rintro _ ⟨⟩
    | cons write writes =>
      rintro _ ⟨⟩
      trivial
  | committed cursor =>
    have polled := store.poll gate cursor m final
    rw [ask]
    rcases ran : b.poll gate cursor m with ⟨_ | e | row, cursor', m'⟩ <;> rw [ran] at polled
    · rintro _ ⟨⟩
    · rintro _ ⟨⟩
      exact polled (.error e) rfl
    · rintro _ ⟨⟩
      trivial

theorem merge_concludes (d : Direction) (fuel : Nat) {lanes : List (Lane κ)} (m : μ)
    (waiting : ∀ lane ∈ lanes, ∀ item ∈ lane.item, Conclusive item) :
    (∀ item ∈ (merge b gate d fuel lanes m).1, Conclusive item) ∧
      ∀ lane ∈ (merge b gate d fuel lanes m).2.1, ∀ item ∈ lane.item,
        Conclusive item := by
  induction fuel generalizing lanes m with
  | zero => exact ⟨by rintro _ ⟨⟩, waiting⟩
  | succ fuel ih =>
    cases lanes with
    | nil => exact ⟨by rintro _ ⟨⟩, waiting⟩
    | cons lane others =>
      have rest := fun other mem => waiting other (List.mem_cons_of_mem lane mem)
      rw [merge]
      cases hand : lane.item with
      | some item =>
        refine ⟨?_, fun other mem => ?_⟩
        · rintro _ ⟨⟩
          exact waiting lane List.mem_cons_self item hand
        · rcases List.mem_cons.1 mem with rfl | mem
          · rintro _ ⟨⟩
          · exact rest other mem
      | none =>
        have asked := ask_concludes store final lane.source m
        rcases ran : ask b gate lane.source m with ⟨_ | ⟨item, source⟩, m'⟩ <;> rw [ran] at asked
        · exact ih m' rest
        · refine ih m' fun other mem => ?_
          rcases mem_place mem with rfl | mem
          · rintro _ ⟨⟩
            exact asked (item, source) rfl
          · exact rest other mem

theorem pull_concludes (fuel : Nat) {o : Overlay κ} (m : μ) (waiting : o.Concludes) :
    (∀ item ∈ (o.pull b gate fuel m).1, Conclusive item) ∧
      (o.pull b gate fuel m).2.1.Concludes := by
  induction fuel generalizing o m with
  | zero => exact ⟨by rintro _ ⟨⟩, waiting⟩
  | succ fuel ih =>
    obtain ⟨given, lanes⟩ := merge_concludes store final o.direction (3 * o.lanes.length) m
      waiting.lanes
    unfold pull
    rcases ran : merge b gate o.direction (3 * o.lanes.length) o.lanes m with ⟨_ | item, lanes', m'⟩
      <;> rw [ran] at given lanes
    · refine ⟨fun item revealed => ?_, lanes, by rintro _ ⟨⟩⟩
      obtain ⟨held, waits, shown⟩ := Option.bind_eq_some_iff.1 revealed
      exact conclusive_reveal (waiting.held held waits) item shown
    · have holding {held : MergeItem} (calm : Conclusive held) :
          Overlay.Concludes ⟨o.direction, lanes', some held⟩ := by
        refine ⟨lanes, ?_⟩
        rintro _ ⟨⟩
        exact calm
      have next := holding (given item rfl)
      cases waits : o.held with
      | none => exact ih m' next
      | some held =>
        dsimp only
        split
        · next joined combined =>
          exact ih m' (holding (MergeItem.conclusive_combine combined))
        · split
          · next shown =>
            refine ⟨?_, next⟩
            rintro _ ⟨⟩
            exact conclusive_reveal (waiting.held held waits) _ shown
          · exact ih m' next

end Overlay

namespace Feed

theorem poll_concludes {feed : Feed κ} (m : μ) (waiting : feed.Concludes) :
    (∀ item ∈ (feed.poll b gate m).1, Conclusive item) ∧
      (feed.poll b gate m).2.1.Concludes := by
  have guarded {given : Option Item} (calm : ∀ item ∈ given, Conclusive item) :
      ∀ item ∈ given.map (guard gate), Conclusive item := by
    intro item passed
    obtain ⟨before, shown, rfl⟩ := Option.map_eq_some_iff.1 passed
    cases gate with
    | none => exact calm before shown
    | some e => exact final e rfl
  cases feed with
  | plain cursor => exact ⟨store.poll gate cursor m final, trivial⟩
  | guarded cursor => exact ⟨guarded (store.poll gate cursor m final), trivial⟩
  | overlaid o =>
    obtain ⟨given, after⟩ := o.pull_concludes store final (o.itemBound b m + 2) m waiting
    exact ⟨guarded given, after⟩

theorem take_concludes (limit : Nat) {feed : Feed κ} (waiting : feed.Concludes) :
    (feed.take b gate limit).Concludes := by
  induction limit generalizing feed with
  | zero => exact Access.concludes_pure trivial
  | succ limit ih =>
    intro m
    obtain ⟨given, after⟩ := poll_concludes store final m waiting
    rcases polled : feed.poll b gate m with ⟨_ | e | row, feed', m'⟩ <;>
      rw [polled] at given after <;> simp only [take, polled]
    · trivial
    · exact given (.error e) rfl
    · exact ((ih after).bind fun _ _ => Access.concludes_pure trivial) m'

theorem rows_concludes {feed : Feed κ} (waiting : feed.Concludes) :
    (feed.rows b gate).Concludes := fun m =>
  take_concludes store final (feed.itemBound b m + 1) waiting m

end Feed
end Feeds

/-! ### Reading and staging -/

section Attempts
open Access
variable {μ σ κ : Type} {b : Backend μ σ κ} (store : b.Concludes) {now : Moment}
  (final : Shut now.gate)
include store final

namespace Attempt
variable (a : Attempt σ)

theorem get_concludes (key : Bytes) : (a.get b now key).Concludes :=
  (concludes_pass final).bind fun _ _ => store.get a.snapshot key

omit store in
theorem query_concludes (c : Condition) : (a.query b now c).Concludes Feed.Concludes :=
  (concludes_pass final).bind fun _ _ => concludes_pure trivial

theorem scan_concludes (c : Condition) (limit : Nat) :
    (a.scan b now c limit).Concludes :=
  (a.query_concludes final c).bind fun _ calm => Feed.take_concludes store final limit calm

theorem rows_concludes (c : Condition) : (Engine.viewRows b now a c).Concludes :=
  (a.query_concludes final c).bind fun _ calm => Feed.rows_concludes store final calm

end Attempt

namespace Transaction

omit store final in
theorem current_concludes : (current : Access (Transaction σ × μ) _).Concludes := fun _ => trivial

omit store final in
theorem record_concludes (range : KeyRange) :
    (record range : Access (Transaction σ × μ) _).Concludes := concludes_modify _

theorem prepare_concludes : (prepare b now).Concludes := by
  refine (concludes_pass final).bind fun _ _ => current_concludes.bind fun t _ => ?_
  split
  · exact (store.heartbeat _ _).onSecond.bind fun _ _ => concludes_modify _
  · exact concludes_pure trivial

theorem get_concludes (key : Bytes) : (Transaction.get b now key).Concludes := by
  refine (prepare_concludes store final).bind fun _ _ => (record_concludes _).bind fun _ _ =>
    current_concludes.bind fun t _ => ?_
  cases t.writes.get? key with
  | some staged => exact concludes_pure trivial
  | none => exact (store.get t.snapshot key).onSecond

theorem getMany_concludes (keys : List Bytes) : (getMany b now keys).Concludes := by
  rw [getMany]
  induction keys with
  | nil => exact concludes_pure trivial
  | cons key keys ih =>
    rw [List.mapM_cons]
    exact (get_concludes store final key).bind fun _ _ => ih.bind fun _ _ => concludes_pure trivial

theorem query_concludes (c : Condition) :
    (Transaction.query b now c).Concludes Feed.Concludes :=
  (prepare_concludes store final).bind fun _ _ => (record_concludes _).bind fun _ _ =>
    current_concludes.bind fun _ _ => concludes_pure (Feed.concludes_start _ _ _)

theorem queryRows_concludes (c : Condition) : (Engine.queryRows b now c).Concludes :=
  (query_concludes store final c).bind fun _ calm => (Feed.rows_concludes store final calm).onSecond

theorem scan_concludes (c : Condition) (limit : Nat) : (scan b now c limit).Concludes :=
  (prepare_concludes store final).bind fun _ _ => current_concludes.bind fun _ _ =>
    (Feed.take_concludes store final limit (Feed.concludes_start _ _ _)).onSecond.bind fun _ _ =>
      (record_concludes _).bind fun _ _ => concludes_pure trivial

omit store final in
theorem stageAndCount_concludes (shut : Shut now.shut) (write : Bytes × Option Bytes) :
    (Engine.stageAndCount now write : Access (Transaction σ × μ) Nat).Concludes := by
  have staged : (stage now write : Access (Transaction σ × μ) Unit).Concludes :=
    (concludes_pass shut).bind fun _ _ => concludes_modify _
  exact staged.bind fun _ _ => current_concludes.bind fun _ _ => concludes_pure trivial

end Transaction
end Attempts

/-! ### Events -/

section Events
variable {μ σ κ α : Type} {g g' : Engine μ σ κ} {name : String}

namespace Engine

theorem shut_gate (g : Engine μ σ κ) (clock : Clock) (l : Liveness String) :
    Shut (g.moment clock l).gate := fun _ stands => barrier_final (l := l) stands

theorem shut_shut (g : Engine μ σ κ) (clock : Clock) (l : Liveness String) :
    Shut (g.moment clock l).shut := by
  intro e stands
  obtain ⟨reason, _, rfl⟩ := Option.map_eq_some_iff.1 stands
  rfl

theorem shut_streamGate (g : Engine μ σ κ) (st : Stream κ) : Shut (g.streamGate st) := by
  intro e stands
  rw [streamGate] at stands
  split at stands
  · exact barrier_final (l := st.liveness) stands
  · rcases Option.or_eq_some_iff.1 stands with closed | ⟨_, ended⟩
    · obtain ⟨reason, _, rfl⟩ := Option.map_eq_some_iff.1 closed
      rfl
    · cases ended
      rfl

theorem commit_dropSession (g : Engine μ σ κ) (name : String) (t : Transaction σ) :
    (commit t (g.dropSession name)).1 = (commit t g).1 := by
  rw [commit_eq, commit_eq]
  cases stands : (g.closed.map Error.closed).or (g.flagError t.liveness) with
  | some e =>
    have stands : ((g.dropSession name).closed.map Error.closed).or
      ((g.dropSession name).flagError t.liveness) = some e := stands
    rw [stands]
  | none =>
    have stands : ((g.dropSession name).closed.map Error.closed).or
      ((g.dropSession name).flagError t.liveness) = none := stands
    rw [stands]
    cases t.writes.isEmpty <;> rfl

/-- The store tells of conflicts only when it commits, and no stream has one to tell. -/
structure Clear (g : Engine μ σ κ) : Prop where
  backend : g.backend.Concludes
  streams : ∀ stream st, g.stream? stream = some st → st.feed.Concludes

/-- How an event comes to be answered with a conflict: it was handed over by the caller, or it was
met by a commit of an attempt that may not be made again. -/
inductive Meets (g : Engine μ σ κ) (err : Error) : Event → Prop
  | handed (name : String) : g.Meets err (.fail name (.store err))
  | asked : g.Meets err (.read (.error err))
  | last (name : String) (t : Transaction σ) : g.session? name = some (.transaction t) →
      (commit t g).1 = .error err → g.mayRetry t err = false → g.Meets err (.succeed name)
  | alone (l : Liveness String) (writes : List (Bytes × Option Bytes)) :
      g.Meets err (.run l writes)

def Clears (out : Answer × Engine μ σ κ) : Prop :=
  out.2.Clear ∧ ∀ err ∈ out.1.error?, err.isRetryable = false

theorem Clears.meets {out : Answer × Engine μ σ κ} (clears : Clears out) {e : Event} :
    out.2.Clear ∧ ∀ err ∈ out.1.error?, err.isRetryable = true → g.Meets err e := by
  refine ⟨clears.1, fun err here again => ?_⟩
  cases (clears.2 err here).symm.trans again

namespace Clear

theorem unmoved (clear : g.Clear) (unmoved : g.Unmoved g') : g'.Clear where
  backend := unmoved.backend ▸ clear.backend
  streams stream st found := clear.streams stream st <| by
    rwa [stream?, unmoved.streams] at found

theorem sessions (clear : g.Clear) (sessions : List (String × Session σ)) :
    Engine.Clear { g with sessions } := ⟨clear.backend, clear.streams⟩

theorem beginAttempt (clear : g.Clear) (clock : Clock) (l : Liveness String) :
    Conclusive (Engine.beginAttempt clock l g).1 := by
  have begun := clear.backend.begin clock.wall g.medium
  rw [beginAttempt_eq]
  split
  · next stands => exact barrier_final (l := l) stands
  · split
    · trivial
    · next refused =>
      rw [refused] at begun
      exact begun

theorem dropSession (clear : g.Clear) (name : String) : (g.dropSession name).Clear :=
  clear.sessions _

theorem setSession (clear : g.Clear) (name : String) (s : Session σ) :
    (g.setSession name s).Clear := clear.sessions _

theorem enter (clear : g.Clear) (name : String) (s : Session σ) : (g.enter name s).Clear := by
  obtain ⟨m, entered⟩ := g.exists_enter_eq name s
  have moved : Engine.Clear { g with medium := m } := clear.unmoved ⟨rfl, rfl, rfl, rfl⟩
  rw [entered]
  exact moved.setSession name s

/-! What an access of a session leaves, and how it comes out. -/

theorem onMedium {x : Access μ α} {told : α → Prop} (clear : g.Clear) (calm : x.Concludes told) :
    Conclusive (Engine.onMedium x g).1 told ∧ (Engine.onMedium x g).2.Clear :=
  ⟨calm g.medium, clear.unmoved (unmoved_onMedium x g)⟩

theorem within (clear : g.Clear) (name : String) (clock : Clock) (t : Transaction σ)
    {x : Backend μ σ κ → Moment → Access (Transaction σ × μ) α} {told : α → Prop}
    (calm : (x g.backend (g.moment clock t.liveness)).Concludes told) :
    Conclusive (Engine.within name clock t x g).1 told ∧
      (Engine.within name clock t x g).2.Clear := by
  have moved : Engine.Clear { g with
      medium := (x g.backend (g.moment clock t.liveness) (t, g.medium)).2.2 } :=
    clear.unmoved ⟨rfl, rfl, rfl, rfl⟩
  exact ⟨calm (t, g.medium), moved.setSession name _⟩

theorem clears {one : Except Error α × Engine μ σ κ} (done : Conclusive one.1 ∧ one.2.Clear)
    {answer : Except Error α → Answer} (refused : ∀ e, (answer (.error e)).error? = some e)
    (served : ∀ a, (answer (.ok a)).error? = none) : Clears (answer one.1, one.2) := by
  refine ⟨done.2, fun err here => ?_⟩
  obtain ⟨e | a, g'⟩ := one
  · obtain rfl : e = err := Option.some.inj ((refused e).symm.trans here)
    exact done.1
  · cases (served a).symm.trans here

theorem silent {answer : Answer} (after : g.Clear) (served : answer.error? = none) :
    Clears (answer, g) := by
  refine ⟨after, fun err here => ?_⟩
  cases served.symm.trans here

theorem clears_ended {e : Error} (after : g.Clear) (final : e.isRetryable = false) :
    Clears (ended e, g) := by
  refine ⟨after, ?_⟩
  rintro _ ⟨⟩
  exact final

section Steps
variable (clear : g.Clear) (clock : Clock)
include clear

theorem stepTransact (l : Liveness String) : Clears (g.stepTransact clock name l) := by
  have calm := clear.beginAttempt clock l
  have begun := clear.unmoved (unmoved_beginAttempt clock l g)
  rw [Engine.stepTransact, beginTransaction_eq]
  rcases ran : Engine.beginAttempt clock l g with ⟨e | a, g'⟩ <;> rw [ran] at calm begun
  · exact clears_ended begun calm
  · exact silent (begun.enter name _) rfl

theorem stepSnapshot (l : Liveness String) : Clears (g.stepSnapshot clock name l) := by
  have calm := clear.beginAttempt clock l
  have begun := clear.unmoved (unmoved_beginAttempt clock l g)
  rw [Engine.stepSnapshot]
  rcases ran : Engine.beginAttempt clock l g with ⟨e | a, g'⟩ <;> rw [ran] at calm begun
  · exact clears_ended begun calm
  · exact silent (begun.enter name _) rfl

theorem stepRead {answer : Except Error α → Answer}
    (refused : ∀ e, (answer (.error e)).error? = some e)
    (served : ∀ a, (answer (.ok a)).error? = none)
    {inTransaction : Backend μ σ κ → Moment → Access (Transaction σ × μ) α}
    {inView : Backend μ σ κ → Moment → Attempt σ → Access μ α}
    (transaction : ∀ now, Shut now.gate → (inTransaction g.backend now).Concludes)
    (view : ∀ now a, Shut now.gate → (inView g.backend now a).Concludes) :
    Clears (g.stepRead clock name answer inTransaction inView) := by
  cases found : g.session? name with
  | none =>
    simp only [Engine.stepRead, found]
    exact silent clear rfl
  | some s =>
    cases s with
    | transaction t =>
      simp only [Engine.stepRead, found]
      exact clears (clear.within name clock t (transaction _ (g.shut_gate clock _))) refused served
    | view a =>
      simp only [Engine.stepRead, found]
      exact clears (clear.onMedium (view _ a (g.shut_gate clock _))) refused served

theorem stepTransaction {answer : Except Error α → Answer}
    (refused : ∀ e, (answer (.error e)).error? = some e)
    (served : ∀ a, (answer (.ok a)).error? = none)
    {x : Backend μ σ κ → Moment → Access (Transaction σ × μ) α}
    (calm : ∀ now, Shut now.gate → Shut now.shut → (x g.backend now).Concludes) :
    Clears (g.stepTransaction clock name answer x) := by
  cases found : g.session? name with
  | none =>
    simp only [Engine.stepTransaction, found]
    exact silent clear rfl
  | some s =>
    cases s with
    | transaction t =>
      simp only [Engine.stepTransaction, found]
      exact clears (clear.within name clock t
        (calm _ (g.shut_gate clock _) (g.shut_shut clock t.liveness))) refused served
    | view a =>
      simp only [Engine.stepTransaction, found]
      exact silent clear rfl

omit clear in
theorem opened {s : Session σ} {stream : String} {one : Except Error (Feed κ) × Engine μ σ κ}
    (queried : Conclusive one.1 Feed.Concludes ∧ one.2.Clear) :
    Clears (Engine.opened s stream one) := by
  obtain ⟨e | feed, g'⟩ := one
  · refine ⟨queried.2, ?_⟩
    rintro _ ⟨⟩
    exact queried.1
  · refine silent ⟨queried.2.backend, fun other st found => ?_⟩ rfl
    rw [g'.stream?_setStream, Names.set] at found
    split at found
    · cases found
      exact queried.1
    · exact queried.2.streams other st found

theorem stepOpen (c : Condition) (stream : String) :
    Clears (g.stepOpen clock name c stream) := by
  cases found : g.session? name with
  | none =>
    simp only [Engine.stepOpen, found]
    exact silent clear rfl
  | some s =>
    cases s with
    | transaction t =>
      rw [stepOpen_transaction clock c stream found]
      exact opened (clear.within name clock t
        (Transaction.query_concludes clear.backend (g.shut_gate clock _) c))
    | view a =>
      rw [stepOpen_view clock c stream found]
      exact opened (clear.onMedium (a.query_concludes (g.shut_gate clock _) c))

theorem stepPoll (stream : String) : Clears (g.stepPoll stream) := by
  cases found : g.stream? stream with
  | none =>
    have absent : g.streams.lookup stream = none := found
    simp only [Engine.stepPoll, absent]
    exact silent clear rfl
  | some st =>
    obtain ⟨given, left⟩ := Feed.poll_concludes clear.backend (g.shut_streamGate st) g.medium
      (clear.streams stream st found)
    rcases polled : st.feed.poll g.backend (g.streamGate st) g.medium with ⟨item, feed, m⟩
    rw [polled] at given left
    obtain ⟨answer, _, done⟩ := polled_stepPoll found polled
    refine ⟨⟨done.backend ▸ clear.backend, fun other st' found' => ?_⟩, fun err here => ?_⟩
    · rw [done.streams, Names.set] at found'
      split at found'
      · split at found'
        · cases found'
        · cases found'
          exact left
      · exact clear.streams other st' found'
    · rw [answer] at here
      rcases item with _ | e | row <;> cases here
      exact given (.error err) rfl

theorem stepSucceed : (g.stepSucceed clock name).2.Clear ∧
    ∀ err ∈ (g.stepSucceed clock name).1.error?, err.isRetryable = true →
      g.Meets err (.succeed name) := by
  cases found : g.session? name with
  | none =>
    simp only [Engine.stepSucceed, found]
    exact Clears.meets (silent clear rfl)
  | some s =>
    have dropped := clear.dropSession name
    cases s with
    | view a =>
      simp only [Engine.stepSucceed, found]
      exact Clears.meets (silent (dropped.unmoved (unmoved_endAttempt clock a _)) rfl)
    | transaction t =>
      have moved := unmoved_conclude clock t (g.dropSession name)
      have concluded := dropped.unmoved moved
      simp only [Engine.stepSucceed, found, succeed]
      rcases ran : conclude clock t (g.dropSession name) with ⟨e | v, g'⟩ <;>
        rw [ran] at moved concluded
      · cases again : g'.mayRetry t e with
        | false =>
          simp only [again, Bool.false_eq_true, if_false]
          refine ⟨concluded, ?_⟩
          rintro _ ⟨⟩ retryable
          have spent : g.mayRetry t e = false := by
            rw [mayRetry, moved.config] at again
            exact again
          have verdict : (conclude clock t (g.dropSession name)).1 = .error e := by rw [ran]
          exact .last name t found ((g.commit_dropSession name t).symm.trans verdict) spent
        | true =>
          have refused := concluded.beginAttempt clock t.liveness
          have begun := concluded.unmoved (unmoved_beginAttempt clock t.liveness g')
          rcases ran : Engine.beginAttempt clock t.liveness g' with ⟨e | a, g''⟩ <;>
            rw [ran] at refused begun <;>
            simp only [again, if_true, Access.bind_apply, beginTransaction_eq, ran,
              Access.pure_apply]
          · exact Clears.meets (clears_ended begun refused)
          · exact Clears.meets (silent (begun.setSession name _) rfl)
      · exact Clears.meets (silent concluded rfl)

theorem readAlone (c : Except Error Condition) :
    (g.step clock (.read c)).2.Clear ∧ ∀ err ∈ (g.step clock (.read c)).1.error?,
      err.isRetryable = true → g.Meets err (.read c) := by
  have moved := clear.unmoved (unmoved_readAlone clock c g)
  have refused := clear.beginAttempt clock .always
  have begun := clear.unmoved (unmoved_beginAttempt clock .always g)
  rw [step]
  rcases ran : Engine.beginAttempt clock .always g with ⟨e | a, g'⟩ <;> rw [ran] at refused begun
  · rw [Engine.readAlone, Access.bind_apply, ran]
    exact Clears.meets (clears_ended begun refused)
  · cases c with
    | error e =>
      rw [Engine.readAlone, Access.bind_apply, ran]
      refine ⟨begun.unmoved (unmoved_endAttempt clock a g'), ?_⟩
      rintro _ ⟨⟩ _
      exact .asked
    | ok c =>
      have rows := a.rows_concludes begun.backend (g'.shut_gate clock a.liveness) c g'.medium
      rw [readAlone_ok ran] at moved ⊢
      rcases read : viewRows g'.backend (g'.moment clock a.liveness) a c g'.medium
        with ⟨e | given, m⟩ <;> rw [read] at moved rows
      · exact Clears.meets (clears_ended moved rows)
      · exact Clears.meets (silent moved rfl)

end Steps

theorem step (clear : g.Clear) (clock : Clock) (e : Event) :
    (g.step clock e).2.Clear ∧
      ∀ err ∈ (g.step clock e).1.error?, err.isRetryable = true → g.Meets err e := by
  have store := clear.backend
  cases e with
  | transact name l => exact Clears.meets (clear.stepTransact clock l)
  | snapshot name l => exact Clears.meets (clear.stepSnapshot clock l)
  | get name key =>
    exact Clears.meets (clear.stepRead clock (fun _ => rfl) (fun _ => rfl)
      (fun _ final => Transaction.get_concludes store final key)
      fun _ a final => a.get_concludes store final key)
  | getMany name keys =>
    exact Clears.meets (clear.stepTransaction clock (fun _ => rfl) (fun _ => rfl)
      fun _ final _ => Transaction.getMany_concludes store final keys)
  | stage name write =>
    exact Clears.meets (clear.stepTransaction clock (fun _ => rfl) (fun _ => rfl)
      fun _ _ shut => Transaction.stageAndCount_concludes shut write)
  | query name c =>
    exact Clears.meets (clear.stepRead clock (fun _ => rfl) (fun _ => rfl)
      (fun _ final => Transaction.queryRows_concludes store final c)
      fun _ a final => a.rows_concludes store final c)
  | scan name c limit =>
    exact Clears.meets (clear.stepRead clock (fun _ => rfl) (fun _ => rfl)
      (fun _ final => Transaction.scan_concludes store final c limit)
      fun _ a final => a.scan_concludes store final c limit)
  | openStream name c stream => exact Clears.meets (clear.stepOpen clock c stream)
  | poll stream => exact Clears.meets (clear.stepPoll stream)
  | succeed name => exact clear.stepSucceed clock
  | fail name cause =>
    rw [Engine.step, stepFail]
    split
    · exact Clears.meets (silent clear rfl)
    · refine ⟨(clear.dropSession name).unmoved (unmoved_endAttempt clock _ _), ?_⟩
      intro err here _
      cases cause with
      | store e =>
        cases here
        exact .handed name
      | user text => cases here
  | drop name =>
    rw [Engine.step, stepDrop]
    split
    · exact Clears.meets (silent clear rfl)
    · refine Clears.meets (silent ?_ rfl)
      exact (clear.dropSession name).unmoved ⟨rfl, rfl, rfl, rfl⟩
  | cancel flag =>
    refine Clears.meets (silent ?_ rfl)
    exact clear.unmoved ⟨rfl, rfl, rfl, rfl⟩
  | run l writes =>
    have ran := clear.unmoved (unmoved_transactAlone clock l writes g.config.maxRetries 0 g)
    refine ⟨?_, fun err _ _ => .alone l writes⟩
    rw [Engine.step]
    split <;> next same => rwa [same] at ran
  | read c => exact clear.readAlone clock c
  | stats => exact Clears.meets (clears (clear.onMedium store.stats) (fun _ => rfl) fun _ => rfl)
  | close reason =>
    have closed := clear.unmoved (unmoved_close reason g)
    have calmly : Conclusive (close reason g).1 := by
      rw [close]
      split
      · trivial
      · exact store.close g.medium
    exact Clears.meets (clears ⟨calmly, closed⟩ (fun _ => rfl) fun _ => rfl)

theorem run (clear : g.Clear) (events : List (Clock × Event)) : (g.run events).2.Clear := by
  induction events generalizing g with
  | nil => exact clear
  | cons one events ih => exact ih (clear.step one.1 one.2).1

end Clear
end Engine
end Events
end OptimisticStore
