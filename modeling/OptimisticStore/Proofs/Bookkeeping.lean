import OptimisticStore.Proofs.AllOrNothing
import OptimisticStore.Proofs.Closing
import OptimisticStore.Proofs.Discreet
import OptimisticStore.Proofs.Hidden

/-! The books of the store in memory are exact. Whatever the sessions of an engine do and however
they end, the store has a registration for each attempt in flight and no other; so its log has
exactly the versions above the least one that is being read, and none when nobody reads. Nothing
that the engine commits has ever lost its registration. -/

namespace OptimisticStore

/-- The registrations of the attempts in flight. An attempt is in flight as long as its session
has not ended, been given up or begun again. -/
def Engine.inFlight {μ σ κ : Type} (g : Engine μ σ κ) : List Registration :=
  g.sessions.map (·.2.attempt.registration)

def Answer.ending : Answer → Option Error
  | .done (.error (.store err)) => some err
  | _ => none

theorem Follows.readVersions {μ σ κ : Type} {b : Backend μ σ κ} {law : Law b} {c : Chronicle}
    {g : Engine μ σ κ} (follows : Follows law c g) (name : String) :
    (g.session? name).map (·.attempt.registration.readVersion) =
      (c.running name).map (·.readVersion) := by
  cases found : g.session? name with
  | none =>
    rw [((follows.sessions name).of_absent found).1]
    rfl
  | some s =>
    obtain ⟨story, told, tracks⟩ := (follows.sessions name).of_session found
    rw [told]
    exact congrArg some tracks.registered

namespace Keyspace

/-- The version below which nobody reads: the least of the registrations, or the current one if
there are none. -/
def least (attempts : List Registration) (current : Version) : Version :=
  ((attempts.map (·.readVersion)).min?).getD current

/-- The store has these commits and is read by these attempts, and keeps nothing else. -/
structure Exact (h : History) (attempts : List Registration) (s : Keyspace) : Prop where
  version : s.version = h.length
  running : s.running.Perm attempts
  numbers : (s.running.map (·.txnId)).Nodup
  versions : s.log.map (·.1) =
    List.range' (least attempts s.version + 1) (s.version - least attempts s.version)
  keys : ∀ e ∈ s.log, ∃ w, h.commit? e.1 = some w ∧ e.2 = w.keys ∧ e.2.Pairwise (· < ·)

/-- An error that tells of a lost registration is only the reason that an engine was closed for. -/
def Excused (closed : Option String) (err : Error) : Prop :=
  ∀ r, err = .notRunning r → closed.map Error.closed = some err

section Books
variable {h : History} {a : Standing} {s : Keyspace}

theorem least_of_perm {attempts running : List Registration} (same : running.Perm attempts)
    (current : Version) : least attempts current = least running current := by
  rw [least, least]
  congr 1
  have versions := same.map (·.readVersion)
  cases found : (running.map (·.readVersion)).min? with
  | none =>
    rw [List.min?_eq_none_iff] at found ⊢
    rw [found] at versions
    exact versions.nil_eq.symm
  | some least =>
    rw [List.min?_eq_some_iff] at found ⊢
    exact ⟨versions.mem_iff.1 found.1, fun v mem => found.2 v (versions.mem_iff.2 mem)⟩

theorem least_le {attempts : List Registration} {r : Registration} (mem : r ∈ attempts)
    (current : Version) : least attempts current ≤ r.readVersion := by
  have read : r.readVersion ∈ attempts.map (·.readVersion) := List.mem_map_of_mem mem
  rw [least]
  cases found : (attempts.map (·.readVersion)).min? with
  | none =>
    rw [List.min?_eq_none_iff.1 found] at read
    cases read
  | some least => exact (List.min?_eq_some_iff.1 found).2 _ read

theorem least_of_ascending {running : List Registration}
    (ascending : running.Pairwise fun r s => r.readVersion ≤ s.readVersion) (current : Version) :
    least running current = (running.head?.map (·.readVersion)).getD current := by
  rw [least]
  cases running with
  | nil => rfl
  | cons first rest =>
    rw [List.pairwise_cons] at ascending
    have smallest : ((first :: rest).map (·.readVersion)).min? = some first.readVersion := by
      rw [List.min?_eq_some_iff]
      refine ⟨List.mem_cons_self, fun v read => ?_⟩
      obtain ⟨r, mem, rfl⟩ := List.mem_map.1 read
      rcases List.mem_cons.1 mem with here | later
      · exact Nat.le_of_eq (congrArg _ here.symm)
      · exact ascending.1 r later
    rw [smallest]
    rfl

theorem least_running (sound : a.Sound) : least a.running a.history.length = a.horizon :=
  least_of_ascending (sound.ordered.imp And.left) _

theorem versions_above (h : History) (v : Nat) :
    (h.entries.filter (v < ·.1)).map (·.1) = List.range' (v + 1) (h.length - v) := by
  induction h using History.snoc_induction with
  | nil => simp [History.entries]
  | snoc earlier w ih =>
    rw [History.entries_snoc, List.filter_append, List.map_append, ih,
      List.length_append, List.length_singleton]
    by_cases above : v < earlier.length + 1
    · have more : earlier.length + 1 - v = earlier.length - v + 1 := by omega
      have last : v + 1 + (earlier.length - v) = earlier.length + 1 := by omega
      rw [more, List.range'_1_concat, last]
      simp [above]
    · have no_more : earlier.length + 1 - v = earlier.length - v := by omega
      rw [no_more]
      simp [above]

theorem Holds.exact (holds : Holds a s) {attempts : List Registration}
    (same : s.running.Perm attempts) : Exact a.history attempts s := by
  have running := holds.running
  have horizon : least attempts s.version = a.horizon := by
    rw [least_of_perm same, running, holds.version, least_running holds.sound]
  refine ⟨holds.version, same, ?_, ?_, ?_⟩
  · rw [running, List.nodup_iff_pairwise_ne, List.pairwise_map]
    exact holds.sound.ordered.imp fun before => Nat.ne_of_lt before.2
  · rw [horizon, holds.version, holds.log, versions_above]
  · rintro ⟨v, keys⟩ mem
    rw [holds.log] at mem
    obtain ⟨w, committed, rfl⟩ := History.mem_entries.1 (List.mem_filter.1 mem).1
    exact ⟨w, committed, rfl, w.pairwise_keys⟩

/-- A commit under a registration that the store has is not refused for want of it. -/
theorem commit_not_lost {r : Registration} (mem : r ∈ s.running) (reads : ReadFootprint)
    (w : WriteSet) (q : Registration) : (commit r reads w s).1 ≠ .error (.notRunning q) := by
  rw [commit, if_pos (List.contains_iff_mem.2 mem), ReadFootprint.validate]
  cases reads.firstConflict? r.readVersion (s.writtenAfter r.readVersion) with
  | none =>
    intro lost
    cases lost
  | some found =>
    intro lost
    cases lost

end Books

/-! ### Registrations -/

theorem perm_of_lookup {α : Type} {l : List (String × α)} (once : (l.map (·.1)).Nodup)
    {name : String} {x : α} (found : l.lookup name = some x) :
    l.Perm ((name, x) :: l.filter (·.1 != name)) := by
  induction l with
  | nil => cases found
  | cons e l ih =>
    obtain ⟨other, y⟩ := e
    rw [List.map_cons, List.nodup_cons] at once
    rw [List.lookup_cons] at found
    by_cases same : name = other
    · rw [same, beq_self_eq_true] at found
      cases found
      have apart : l.filter (·.1 != name) = l := by
        refine List.filter_eq_self.2 fun e mem => ?_
        have ne : e.1 ≠ name := fun alike => once.1 (List.mem_map.2 ⟨e, mem, alike.trans same⟩)
        exact bne_iff_ne.2 ne
      rw [List.filter_cons_of_neg (by simp [same]), apart, same]
    · rw [beq_false_of_ne same] at found
      have kept : ((other, y).1 != name) = true := bne_iff_ne.2 (Ne.symm same)
      rw [List.filter_cons, if_pos kept]
      exact ((ih once.2 found).cons (other, y)).trans (.swap ..)

abbrev Client := Engine Keyspace Snapshot (Walk Bytes Bytes)

/-- The store has the registrations of the attempts in flight, and of these others that belong to
no session: one that is about to begin, or about to end. -/
structure Registered (others : List Registration) (g : Client) : Prop where
  backend : g.backend = backend
  names : (g.sessions.map (·.1)).Nodup
  running : g.medium.running.Perm (others ++ g.inFlight)

namespace Registered
variable {others : List Registration} {g g' : Client} {name : String}
  {s s' : Session Snapshot} {t : Transaction Snapshot} {r : Registration}

theorem aside (registered : Registered others g) (backend : g'.backend = g.backend)
    (sessions : g'.sessions = g.sessions) (running : g'.medium.running = g.medium.running) :
    Registered others g' where
  backend := backend.trans registered.backend
  names := sessions ▸ registered.names
  running := by
    rw [running, Engine.inFlight, sessions]
    exact registered.running

theorem medium (registered : Registered others g) {m : Keyspace}
    (running : m.running = g.medium.running) : Registered others { g with medium := m } :=
  registered.aside rfl rfl running

/-! ### Sessions -/

theorem dropSession (registered : Registered others g) (found : g.session? name = some s) :
    Registered (s.attempt.registration :: others) (g.dropSession name) where
  backend := registered.backend
  names := registered.names.sublist (List.filter_sublist.map _)
  running := by
    have one := (perm_of_lookup registered.names found).map (·.2.attempt.registration)
    exact registered.running.trans ((one.append_left others).trans List.perm_middle)

theorem setSession (registered : Registered (s.attempt.registration :: others) g)
    (free : g.session? name = none) : Registered others (g.setSession name s) where
  backend := registered.backend
  names := Engine.names_setSession registered.names name s
  running := by
    have apart : (g.setSession name s).inFlight = s.attempt.registration :: g.inFlight :=
      congrArg (fun g : Client => s.attempt.registration :: g.inFlight)
        (Engine.dropSession_of_absent free)
    rw [apart]
    exact registered.running.trans List.perm_middle.symm

theorem goOn (registered : Registered others g) (found : g.session? name = some s)
    (same : s'.attempt = s.attempt) : Registered others (g.setSession name s') := by
  have left := registered.dropSession found
  rw [← same] at left
  rw [← Engine.setSession_dropSession]
  exact left.setSession (g.session?_dropSession name)

/-! ### Attempts -/

theorem mem_running (registered : Registered (r :: others) g) : r ∈ g.medium.running :=
  registered.running.mem_iff.2 List.mem_cons_self

theorem withdraw (registered : Registered (r :: others) g) {m : Keyspace}
    (left : m.running = g.medium.running.erase r) : Registered others { g with medium := m } where
  backend := registered.backend
  names := registered.names
  running := by
    have erased := registered.running.erase r
    rw [List.cons_append, List.erase_cons_head, ← left] at erased
    exact erased

theorem endAttempt {a : Attempt Snapshot} (registered : Registered (a.registration :: others) g)
    (clock : Clock) : Registered others (Engine.endAttempt clock a g) := by
  refine registered.withdraw (m := (g.backend.finish clock.wall a.registration g.medium).2) ?_
  rw [registered.backend]
  rfl

theorem abandon (registered : Registered (r :: others) g) :
    Registered others { g with medium := g.backend.abandon r g.medium } := by
  refine registered.withdraw ?_
  rw [registered.backend]
  change (Keyspace.abandon r g.medium).running = _
  rw [Keyspace.abandon, if_pos (List.contains_iff_mem.2 registered.mem_running)]
  rfl

theorem excused_of_barrier {l : Liveness String} {err : Error}
    (stands : g.barrier l = some err) : Excused g.closed err := by
  intro r lost
  rw [Engine.barrier] at stands
  cases closed : g.closed with
  | some reason =>
    rw [closed] at stands
    exact stands
  | none =>
    rw [closed, Option.map_none, Option.none_or, Engine.flagError] at stands
    split at stands <;> cases stands
    cases lost

theorem beginAttempt (registered : Registered others g) (clock : Clock) (l : Liveness String) :
    match Engine.beginAttempt clock l g with
    | (.ok a, g') => Registered (a.registration :: others) g'
    | (.error err, g') => Registered others g' ∧ Excused g.closed err := by
  cases stands : g.barrier l with
  | some err =>
    rw [Engine.beginAttempt_barred stands]
    exact ⟨registered, excused_of_barrier stands⟩
  | none =>
    have isOpen : (g.closed.map Error.closed).or (g.flagError l) = none := stands
    have begun : (Keyspace.backend.begin clock.wall g.medium).1 = .ok _ := rfl
    rw [Engine.beginAttempt_ok isOpen registered.backend begun]
    refine ⟨registered.backend, registered.names, ?_⟩
    have added := registered.running.append_right [⟨g.medium.version, g.medium.lastTxnId + 1⟩]
    exact added.trans List.perm_append_comm

theorem conclude (registered : Registered (t.registration :: others) g) (clock : Clock) :
    match Engine.conclude clock t g with
    | (.ok _, g') => Registered others g'
    | (.error err, g') => Registered others g' ∧ Excused g.closed err := by
  have ended {g : Client} (registered : Registered (t.registration :: others) g) :=
    registered.endAttempt (a := t.toAttempt) clock
  rw [Engine.conclude, Engine.commit_eq]
  cases stands : (g.closed.map Error.closed).or (g.flagError t.liveness) with
  | some err => exact ⟨ended registered, excused_of_barrier stands⟩
  | none =>
    cases idle : t.writes.isEmpty with
    | true => exact ended registered
    | false =>
      have here : g.backend.commit t.registration t.reads t.writes g.medium =
          commit t.registration t.reads t.writes g.medium := by rw [registered.backend]; rfl
      have left := running_commit t.registration t.reads t.writes g.medium
      have found := commit_not_lost registered.mem_running t.reads t.writes
      simp only [Bool.false_eq_true, if_false, Engine.onMedium_eq, here]
      rcases ran : commit t.registration t.reads t.writes g.medium with ⟨err | v, m⟩ <;>
        rw [ran] at left found
      · exact ⟨ended (registered.medium left),
          fun q lost => absurd (congrArg Except.error lost) (found q)⟩
      · exact ended (registered.medium left)

/-! ### Moves of a body -/

def Settled (g : Client) (e : Event) (out : Answer × Client) : Prop :=
  Registered [] out.2 ∧ ∀ err, out.1 = Engine.ended err →
    Excused g.closed err ∨ ∃ name, e = .fail name (.store err)

theorem settled {e : Event} {out : Answer × Client} (registered : Registered [] out.2)
    (other : out.1.ending = none) : Settled g e out := by
  refine ⟨registered, fun err same => ?_⟩
  rw [same] at other
  cases other

theorem settled_error {e : Event} {err : Error}
    (refused : Registered [] g' ∧ Excused g.closed err) : Settled g e (Engine.ended err, g') := by
  refine ⟨refused.1, ?_⟩
  rintro _ ⟨⟩
  exact .inl refused.2

section Reads
variable {α : Type} {n : List Registration}

theorem fetched (snapshot : Snapshot) (key : Bytes) :
    Access.Gives (fun m : Keyspace => m.running = n) (Keyspace.backend.get snapshot key)
      fun value => value = snapshot.data.get? key := Access.gives_pure fun _ _ => rfl

theorem within (registered : Registered others g)
    (found : g.session? name = some (.transaction t)) (clock : Clock)
    {x : Backend Keyspace Snapshot (Walk Bytes Bytes) → Moment →
      Access (Transaction Snapshot × Keyspace) α}
    (stays : ∀ now n, t.Stays (fun m => m.running = n) (x Keyspace.backend now)) :
    Registered others (Engine.within name clock t x g).2 := by
  have stays := stays (g.moment clock t.liveness) g.medium.running
  rw [← registered.backend] at stays
  obtain ⟨running, attempt⟩ := stays g.medium rfl
  have same : (Session.transaction _).attempt = (Session.transaction t).attempt := attempt
  exact (registered.medium running).goOn found same

theorem stepRead (registered : Registered [] g) (clock : Clock)
    {e : Event} {answer : Except Error α → Answer} (plain : ∀ r, (answer r).ending = none)
    {inTransaction : Backend Keyspace Snapshot (Walk Bytes Bytes) → Moment →
      Access (Transaction Snapshot × Keyspace) α}
    {inView : Backend Keyspace Snapshot (Walk Bytes Bytes) → Moment → Attempt Snapshot →
      Access Keyspace α}
    (stays : ∀ (t : Transaction Snapshot) now n,
      t.Stays (fun m => m.running = n) (inTransaction Keyspace.backend now))
    (gives : ∀ a now n,
      Access.Gives (fun m : Keyspace => m.running = n) (inView Keyspace.backend now a)
        fun _ => True) :
    Settled g e (g.stepRead clock name answer inTransaction inView) := by
  cases found : g.session? name with
  | none =>
    simp only [Engine.stepRead, found]
    exact settled registered rfl
  | some s =>
    cases s with
    | transaction t =>
      simp only [Engine.stepRead, found]
      exact settled (registered.within found clock (stays t)) (plain _)
    | view a =>
      have gives := gives a (g.moment clock a.liveness) g.medium.running
      rw [← registered.backend] at gives
      simp only [Engine.stepRead, found]
      exact settled (registered.medium (gives g.medium rfl).1) (plain _)

theorem stepTransaction (registered : Registered [] g) (clock : Clock)
    {e : Event} {answer : Except Error α → Answer} (plain : ∀ r, (answer r).ending = none)
    {x : Backend Keyspace Snapshot (Walk Bytes Bytes) → Moment →
      Access (Transaction Snapshot × Keyspace) α}
    (stays : ∀ (t : Transaction Snapshot) now n,
      t.Stays (fun m => m.running = n) (x Keyspace.backend now)) :
    Settled g e (g.stepTransaction clock name answer x) := by
  cases found : g.session? name with
  | none =>
    simp only [Engine.stepTransaction, found]
    exact settled registered rfl
  | some s =>
    cases s with
    | transaction t =>
      simp only [Engine.stepTransaction, found]
      exact settled (registered.within found clock (stays t)) (plain _)
    | view a =>
      simp only [Engine.stepTransaction, found]
      exact settled registered rfl

theorem get (registered : Registered [] g) (clock : Clock) (name : String) (key : Bytes) :
    Settled g (.get name key) (g.step clock (.get name key)) := by
  refine registered.stepRead clock (fun _ => rfl) (fun t now n => ?_) fun a now n => ?_
  · exact (Transaction.reads_get (fun _ => id) (fetched t.snapshot key)).stays
  · exact (Access.gives_pass now.gate).bind fun _ _ =>
      Access.gives_pure fun _ _ => trivial

theorem getMany (registered : Registered [] g) (clock : Clock) (name : String)
    (keys : List Bytes) : Settled g (.getMany name keys) (g.step clock (.getMany name keys)) :=
  registered.stepTransaction clock (fun _ => rfl) fun t _ _ =>
    (Transaction.reads_getMany (fun _ => id) (fetched t.snapshot)).stays

theorem stage (registered : Registered [] g) (clock : Clock) (name : String)
    (write : Bytes × Option Bytes) :
    Settled g (.stage name write) (g.step clock (.stage name write)) :=
  registered.stepTransaction clock (fun _ => rfl) fun _ now _ =>
    Transaction.stays_stageAndCount now write

theorem steady (gate : Option Error) (w : Walk Bytes Bytes) (m : Keyspace)
    (kept : m.running = n) : (Keyspace.backend.poll gate w m).2.2.running = n := kept

theorem gives_query (a : Attempt Snapshot) (now : Moment) (c : Condition) :
    Access.Gives (fun m : Keyspace => m.running = n) (a.query Keyspace.backend now c)
      fun _ => True :=
  (Access.gives_pass now.gate).bind fun _ _ => Access.gives_pure fun _ _ => trivial

theorem query (registered : Registered [] g) (clock : Clock) (name : String) (c : Condition) :
    Settled g (.query name c) (g.step clock (.query name c)) := by
  refine registered.stepRead clock (fun _ => rfl) (fun t now n => ?_) fun a now n => ?_
  · exact (Transaction.reads_queryRows (fun _ => id) (Feed.gives_rows steady none _)).stays
  · exact (gives_query a now c).bind fun feed _ => feed.gives_rows steady now.gate

theorem scan (registered : Registered [] g) (clock : Clock) (name : String) (c : Condition)
    (limit : Nat) : Settled g (.scan name c limit) (g.step clock (.scan name c limit)) := by
  refine registered.stepRead clock (fun _ => rfl) (fun t now n => ?_) fun a now n => ?_
  · exact (Transaction.reads_scan (fun _ => id) (Feed.gives_take steady none limit _)).stays
  · exact (gives_query a now c).bind fun feed _ => feed.gives_take steady now.gate limit

theorem stepOpen (registered : Registered [] g) (clock : Clock) (name : String)
    (c : Condition) (stream : String) :
    Settled g (.openStream name c stream) (g.stepOpen clock name c stream) := by
  have opened {g : Client} (registered : Registered [] g) (st : Stream (Walk Bytes Bytes)) :
      Registered [] (g.setStream stream st) := registered.aside rfl rfl rfl
  cases found : g.session? name with
  | none =>
    simp only [Engine.stepOpen, found]
    exact settled registered rfl
  | some s =>
    cases s with
    | transaction t =>
      have after := registered.within found clock
        (x := fun b now => Transaction.query b now c) fun now n =>
          (Transaction.reads_query (fun _ => id) c).stays
      simp only [Engine.stepOpen, found]
      rcases ran : g.within name clock t fun b now => Transaction.query b now c with
        ⟨e | feed, g'⟩ <;> rw [ran] at after
      · exact settled after rfl
      · exact settled (opened after _) rfl
    | view a =>
      have gives := gives_query (n := g.medium.running) a (g.moment clock a.liveness) c
      rw [← registered.backend] at gives
      have after := registered.medium (gives g.medium rfl).1
      simp only [Engine.stepOpen, found, Engine.onMedium_eq]
      split
      · exact settled (opened after _) rfl
      · exact settled after rfl

theorem stepPoll (registered : Registered [] g) (stream : String) :
    Settled g (.poll stream) (g.stepPoll stream) := by
  cases standing : g.stream? stream with
  | none =>
    have absent : g.streams.lookup stream = none := standing
    simp only [Engine.stepPoll, absent]
    exact settled registered rfl
  | some st =>
    have kept : (st.feed.poll Keyspace.backend (g.streamGate st) g.medium).2.2.running =
        g.medium.running := Feed.poll_keeps steady (g.streamGate st) st.feed rfl
    rw [← registered.backend] at kept
    obtain ⟨answered, medium, done⟩ := Engine.polled_stepPoll standing rfl
    refine settled (registered.aside done.backend done.sessions (medium ▸ kept)) ?_
    rw [answered]
    rfl

end Reads

/-! ### Calls begin and end -/

theorem enter (registered : Registered (s.attempt.registration :: others) g) (name : String) :
    Registered others (g.enter name s) := by
  rw [Engine.enter]
  cases found : g.session? name with
  | none => exact registered.setSession found
  | some old =>
    have left := (registered.dropSession found).abandon
    rw [← Engine.setSession_dropSession]
    exact left.setSession (g.session?_dropSession name)

theorem stepTransact (registered : Registered [] g) (clock : Clock) (name : String)
    (l : Liveness String) : Settled g (.transact name l) (g.stepTransact clock name l) := by
  have begun := registered.beginAttempt clock l
  rw [Engine.stepTransact, Engine.beginTransaction_eq]
  rcases ran : Engine.beginAttempt clock l g with ⟨e | a, g'⟩ <;> rw [ran] at begun
  · exact settled_error begun
  · exact settled (enter (s := .transaction { toAttempt := a, lastHeartbeat := clock.steady })
      begun name) rfl

theorem stepSnapshot (registered : Registered [] g) (clock : Clock) (name : String)
    (l : Liveness String) : Settled g (.snapshot name l) (g.stepSnapshot clock name l) := by
  have begun := registered.beginAttempt clock l
  rw [Engine.stepSnapshot]
  rcases ran : Engine.beginAttempt clock l g with ⟨e | a, g'⟩ <;> rw [ran] at begun
  · exact settled_error begun
  · exact settled (enter (s := .view a) begun name) rfl

theorem stepSucceed (registered : Registered [] g) (clock : Clock) (name : String) :
    Settled g (.succeed name) (g.stepSucceed clock name) := by
  cases found : g.session? name with
  | none =>
    simp only [Engine.stepSucceed, found]
    exact settled registered rfl
  | some s =>
    have left := registered.dropSession found
    cases s with
    | view a =>
      simp only [Engine.stepSucceed, found]
      exact settled (left.endAttempt clock) rfl
    | transaction t =>
      have concluded := left.conclude clock
      have kept := (g.dropSession name).sessions_conclude clock t
      have closed := (g.dropSession name).closed_conclude clock t
      simp only [Engine.stepSucceed, found, Engine.succeed]
      rcases ran : Engine.conclude clock t (g.dropSession name) with ⟨e | v, g'⟩ <;>
        rw [ran] at concluded kept closed
      · cases again : g'.mayRetry t e with
        | false =>
          simp only [again, Bool.false_eq_true, if_false]
          exact settled_error concluded
        | true =>
          have begun := concluded.1.beginAttempt clock t.liveness
          rcases ran : Engine.beginAttempt clock t.liveness g' with ⟨e | a, g''⟩ <;>
            rw [ran] at begun <;>
            simp only [again, if_true, Access.bind_apply, Engine.beginTransaction_eq, ran,
              Access.pure_apply]
          · exact settled_error ⟨begun.1, closed ▸ begun.2⟩
          · have sessions := g'.sessions_beginAttempt clock t.liveness
            rw [ran, kept] at sessions
            have free : g''.session? name = none := by
              rw [Engine.session?, sessions]
              exact g.session?_dropSession name
            exact settled (begun.setSession (s := .transaction
              { toAttempt := a, retries := t.retries + 1, lastHeartbeat := clock.steady }) free)
              rfl
      · exact settled concluded rfl

theorem stepFail (registered : Registered [] g) (clock : Clock) (name : String)
    (cause : BodyError) : Settled g (.fail name cause) (g.stepFail clock name cause) := by
  cases found : g.session? name with
  | none =>
    simp only [Engine.stepFail, found]
    exact settled registered rfl
  | some s =>
    simp only [Engine.stepFail, found]
    refine ⟨(registered.dropSession found).endAttempt clock, ?_⟩
    rintro err ⟨⟩
    exact .inr ⟨name, rfl⟩

theorem stepDrop (registered : Registered [] g) (name : String) :
    Settled g (.drop name) (g.stepDrop name) := by
  cases found : g.session? name with
  | none =>
    simp only [Engine.stepDrop, found]
    exact settled registered rfl
  | some s =>
    simp only [Engine.stepDrop, found]
    exact settled (registered.dropSession found).abandon rfl

theorem excused_stageAll {clock : Clock} {l : Liveness String}
    {writes : List (Bytes × Option Bytes)} {m m' : Keyspace} {t t' : Transaction Snapshot}
    {err : Error}
    (refused : Engine.stageAll (g.moment clock l) writes (t, m) = (.error err, t', m')) :
    Excused g.closed err := by
  induction writes generalizing t m with
  | nil => cases refused
  | cons write writes ih =>
    have refused : (Transaction.stage (g.moment clock l) write >>= fun _ =>
      Engine.stageAll (g.moment clock l) writes) (t, m) = (.error err, t', m') := refused
    rw [Access.bind_apply, Transaction.stage, Access.bind_apply] at refused
    cases shut : (g.moment clock l).shut with
    | none =>
      rw [shut] at refused
      exact ih refused
    | some e =>
      rw [shut] at refused
      cases refused
      exact fun _ _ => shut

theorem transactAlone {g : Client} (registered : Registered [] g) (clock : Clock)
    (l : Liveness String) (writes : List (Bytes × Option Bytes)) (left retries : Nat) :
    match Engine.transactAlone clock l writes left retries g with
    | (.ok _, g') => Registered [] g'
    | (.error err, g') => Registered [] g' ∧ Excused g.closed err := by
  have begun := registered.beginAttempt clock l
  have closed := g.closed_beginAttempt clock l
  unfold Engine.transactAlone
  rw [Access.bind_apply, Engine.beginTransaction_eq]
  rcases ran : Engine.beginAttempt clock l g with ⟨e | a, g₁⟩ <;> rw [ran] at begun closed
  · exact begun
  · rcases staged : Engine.stageAll (g₁.moment clock l) writes
      ({ toAttempt := a, retries, lastHeartbeat := clock.steady }, g₁.medium) with ⟨e | _, t, m⟩ <;>
      simp only [Access.bind_apply, Access.medium, staged]
    · exact ⟨begun.endAttempt clock, closed ▸ excused_stageAll staged⟩
    · obtain rfl : t.toAttempt = a := Transaction.attempt_stageAll staged
      have concluded := begun.conclude clock
      have closed' := g₁.closed_conclude clock t
      rcases ran : Engine.conclude clock t g₁ with ⟨e | v, g₂⟩ <;> rw [ran] at concluded closed' <;>
        simp only [Access.outcome, ran]
      · have refused : Registered [] g₂ ∧ Excused g.closed e :=
          ⟨concluded.1, closed ▸ concluded.2⟩
        cases left with
        | zero => exact refused
        | succ left =>
          have next := transactAlone refused.1 clock l writes left (retries + 1)
          rw [closed'.trans closed] at next
          cases g₁.mayRetry t e with
          | true => exact next
          | false => exact refused
      · exact concluded

theorem readAlone (registered : Registered [] g) (clock : Clock) (c : Except Error Condition) :
    match Engine.readAlone clock c g with
    | (.ok _, g') => Registered [] g'
    | (.error err, g') => Registered [] g' ∧ Excused g.closed err := by
  have begun := registered.beginAttempt clock .always
  rcases ran : Engine.beginAttempt clock .always g with ⟨e | a, g'⟩ <;> rw [ran] at begun
  · rw [Engine.readAlone, Access.bind_apply, ran]
    exact begun
  · cases c with
    | error e =>
      rw [Engine.readAlone, Access.bind_apply, ran]
      exact begun.endAttempt clock
    | ok c =>
      have gives := (gives_query (n := g'.medium.running) a (g'.moment clock a.liveness) c).bind
        fun feed _ => feed.gives_rows steady (g'.moment clock a.liveness).gate
      rw [← begun.backend] at gives
      rw [Engine.readAlone_ok ran]
      exact (begun.medium (gives g'.medium rfl).1).endAttempt clock

theorem step (registered : Registered [] g) (clock : Clock) (e : Event) :
    Settled g e (g.step clock e) := by
  cases e with
  | transact name l => exact registered.stepTransact clock name l
  | snapshot name l => exact registered.stepSnapshot clock name l
  | get name key => exact registered.get clock name key
  | getMany name keys => exact registered.getMany clock name keys
  | stage name write => exact registered.stage clock name write
  | query name c => exact registered.query clock name c
  | scan name c limit => exact registered.scan clock name c limit
  | openStream name c stream => exact registered.stepOpen clock name c stream
  | poll stream => exact registered.stepPoll stream
  | succeed name => exact registered.stepSucceed clock name
  | fail name cause => exact registered.stepFail clock name cause
  | drop name => exact registered.stepDrop name
  | cancel flag => exact settled (registered.aside rfl rfl rfl) rfl
  | run l writes =>
    have ran := registered.transactAlone clock l writes g.config.maxRetries 0
    rw [Engine.step]
    rcases done : Engine.transactAlone clock l writes g.config.maxRetries 0 g with ⟨e | _, g'⟩ <;>
      rw [done] at ran
    · exact settled_error ran
    · exact settled ran rfl
  | read c =>
    have ran := registered.readAlone clock c
    rw [Engine.step]
    rcases done : Engine.readAlone clock c g with ⟨e | rows, g'⟩ <;> rw [done] at ran
    · exact settled_error ran
    · exact settled ran rfl
  | stats => exact settled (registered.medium (by rw [registered.backend]; rfl)) rfl
  | close reason =>
    refine settled ?_ rfl
    change Registered [] (Engine.close reason g).2
    rw [Engine.close]
    cases g.closed with
    | some earlier => exact registered
    | none =>
      refine registered.aside rfl rfl ?_
      change (g.backend.close g.medium).2.running = _
      rw [registered.backend]
      rfl

theorem fresh (config : Config) : Registered [] (Keyspace.engine config) :=
  ⟨rfl, .nil, .refl _⟩

theorem run (registered : Registered [] g) (events : List (Clock × Event)) :
    Registered [] (g.run events).2 := by
  induction events generalizing g with
  | nil => exact registered
  | cons one events ih =>
    obtain ⟨clock, e⟩ := one
    exact ih (registered.step clock e).1

end Registered

theorem Exact.log_empty {h : History} {s : Keyspace} (exact' : Exact h [] s) : s.log = [] := by
  have versions := exact'.versions
  have nobody : least [] s.version = s.version := rfl
  rw [nobody, Nat.sub_self, List.range'_zero] at versions
  exact List.map_eq_nil_iff.1 versions

/-- After any run the books are exact, and the attempts in flight are those that the chronicle
tells, at the versions that they were told. The log is empty when nobody is in flight. No session
that could commit has lost its registration, and no call ends with the error that says so, unless
its own body returns it or the engine was closed for just this reason. -/
theorem books_exact (config : Config) (events : List (Clock × Event)) (clock : Clock)
    (e : Event) :
    let g := engine config
    let c := g.chronicle events
    let after := (g.run events).2
    Exact c.history after.inFlight after.medium ∧
      (∀ name, (after.session? name).map (·.attempt.registration.readVersion) =
        (c.running name).map (·.readVersion)) ∧
      (after.sessions = [] → after.medium.log = []) ∧
      (∀ name t reads w q, after.session? name = some (.transaction t) →
        (commit t.registration reads w after.medium).1 ≠ .error (.notRunning q)) ∧
      ∀ q, (after.step clock e).1 = Engine.ended (.notRunning q) →
        firstClose events = some (q.display ++ " is not running") ∨
          ∃ name, e = .fail name (.store (.notRunning q)) := by
  intro g c after
  have empty : Keeps [] {} := ⟨{}, rfl, .empty⟩
  have registered := (Registered.fresh config).run events
  have follows : Follows law c after := (Follows.fresh law config empty).run events
  obtain ⟨a, same, holds⟩ := follows.holds
  have exact' : Exact c.history after.inFlight after.medium := by
    have exact' := holds.exact registered.running
    rwa [same] at exact'
  refine ⟨exact', follows.readVersions, fun idle => ?_, fun name t reads w q found => ?_,
    fun q lost => ?_⟩
  · have nobody : after.inFlight = [] := by rw [Engine.inFlight, idle, List.map_nil]
    rw [nobody] at exact'
    exact exact'.log_empty
  · exact commit_not_lost (registered.dropSession found).mem_running reads w q
  · rcases (registered.step clock e).2 _ lost with excused | failed
    · have closed : after.closed = firstClose events := Engine.closed_run_of_open rfl events
      refine .inl (closed.symm.trans ?_)
      obtain ⟨reason, stands, same⟩ := Option.map_eq_some_iff.1 (excused q rfl)
      cases same
      exact stands
    · exact .inr failed

/-- A view holds back the log until its call is dropped. -/
theorem books_exact_sample :
    let events : List (Clock × Event) :=
      [.snapshot "v" .always, .run .always [([107], some [1])]].map (⟨0, 0⟩, ·)
    let dropped := events ++ [(⟨0, 0⟩, .drop "v")]
    ((engine {}).run events).2.medium.log = [(1, [[107]])] ∧
      Exact ((engine {}).chronicle events).history ((engine {}).run events).2.inFlight
        ((engine {}).run events).2.medium ∧
      ((engine {}).run dropped).2.medium.log = [] := by
  intro events dropped
  have left : ((engine {}).run dropped).2.sessions.isEmpty = true := by decide +kernel
  exact ⟨by decide +kernel, (books_exact {} events ⟨0, 0⟩ .stats).1,
    (books_exact {} dropped ⟨0, 0⟩ .stats).2.2.1 (List.isEmpty_iff.1 left)⟩

end Keyspace
end OptimisticStore
