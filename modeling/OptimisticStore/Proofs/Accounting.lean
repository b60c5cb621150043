import OptimisticStore.Proofs.Accounts
import OptimisticStore.Proofs.Serializability

/-! Transactions happen in full or not at all, whatever fails. The chronicle accounts for the
engine through every event: what it tells to be committed is exactly what the store has, and each
answer holds nothing but committed rows and what its own session has staged. -/

namespace OptimisticStore

namespace Chronicle

def wrote (c : Chronicle) : Event → Answer → Option WriteSet
  | .succeed name, .done (.ok ()) => ((c.running name).map Story.staged).filter (!·.isEmpty)
  | .run _ writes, .done (.ok ()) => some (.ofList writes) |>.filter (!·.isEmpty)
  | _, _ => none

/-- The answer tells the last version where it tells one, and what is read in it comes from the
version of its session and from what that session has staged. -/
def Explains (c : Chronicle) : Event → Answer → Prop
  | .transact _ _, .begun _ r | .succeed _, .begun _ r => r.readVersion = c.writers.length
  | .snapshot _ _, .viewing v => v = c.writers.length
  | .get name key, .value (.ok value) => ∃ s, c.running name = some s ∧
      value = (s.staged.onto (c.history.state s.readVersion)).get? key
  | .getMany name keys, .values (.ok values) => ∃ s, c.running name = some s ∧
      values = keys.map (s.staged.onto (c.history.state s.readVersion)).get?
  | .query name _, .rows (.ok rows) | .scan name _ _, .rows (.ok rows) =>
    ∃ s, c.running name = some s ∧ ∀ row ∈ rows, s.Knows c.history row
  | .poll stream, .item (some (.ok row)) => ∃ name s, c.owner stream = some name ∧
      c.running name = some s ∧ s.Knows c.history row
  | .read _, .rows (.ok rows) =>
    ∀ row ∈ rows, (c.history.state c.writers.length).get? row.1 = some row.2
  | .stats, .stats (.ok stats) => stats.version = c.writers.length
  | _, _ => True

theorem history_place (c : Chronicle) (s : Story) :
    (c.place s).history = c.history ++ (some s.staged |>.filter (!·.isEmpty)).toList := by
  rw [place]
  cases idle : s.staged.isEmpty with
  | true =>
    simp only [if_true, Option.filter, idle, Bool.not_true, Bool.false_eq_true, if_false]
    exact (List.append_nil _).symm
  | false =>
    simp only [Bool.false_eq_true, if_false, Option.filter, idle, Bool.not_false, if_true]
    exact List.map_append

theorem history_leave (c : Chronicle) (name : String) : (c.leave name).history = c.history :=
  congrArg (List.map Story.staged) (c.writers_leave name)

theorem history_note (c : Chronicle) (name : String) (call : Call) :
    (c.note name call).history = c.history := by
  rw [note]
  cases c.running name <;> rfl

theorem history_polled (c : Chronicle) (stream : String) (item : Option Item) :
    (c.polled stream item).history = c.history := by
  rw [polled]
  cases c.owner stream with
  | none => rfl
  | some name =>
    rcases item with _ | _ | row
    · dsimp only
      split
      · exact c.history_note name _
      · rfl
    · rfl
    · exact c.history_note name _

theorem history_conclude (c : Chronicle) (name : String) :
    (c.conclude name).history =
      c.history ++ (((c.running name).map Story.staged).filter (!·.isEmpty)).toList := by
  rw [conclude]
  cases c.running name with
  | none => exact (List.append_nil _).symm
  | some s => exact (c.forget name).history_place s

/-- Nothing is committed but by the calls that have succeeded, and by each of them once. -/
theorem history_observe (c : Chronicle) (e : Event) (a : Answer) :
    (c.observe e a).history = c.history ++ (c.wrote e a).toList := by
  have kept {h : History} (same : h = c.history) :
      h = c.history ++ (none : Option WriteSet).toList :=
    same.trans (List.append_nil _).symm
  unfold observe wrote
  split
  · exact kept (c.history_leave _)
  · exact kept (c.history_leave _)
  · exact kept (c.history_note _ _)
  · exact kept (c.history_note _ _)
  · exact kept (c.history_note _ _)
  · exact kept (c.history_note _ _)
  · exact kept (c.history_note _ _)
  · exact kept (c.history_note _ _)
  · exact kept (c.history_polled _ _)
  · exact c.history_conclude _
  · refine kept ?_
    rw [restart]
    split
    · exact c.history_leave _
    · rfl
  · exact kept (c.history_leave _)
  · exact kept (c.history_leave _)
  · exact kept (c.history_leave _)
  · exact kept rfl
  · exact (c.history_place _).trans (by rw [Story.staged, alone, stagedBy_stages])
  · refine (c.history_place _).trans (kept ?_)
    exact List.append_nil _
  · exact kept rfl
  · split
    · simp_all
    · simp_all
    · exact kept rfl

end Chronicle

/-! ### Reads of a session -/

namespace Resilience
variable {μ σ κ : Type} {b : Backend μ σ κ} (law : Resilience b) {h : History} {v : Nat}
  {known : Bytes × Bytes → Prop}

theorem beats (now : Moment) (r : Registration) (m : μ) (holds : law.holds h m) :
    law.holds h (b.heartbeat now.clock.wall r m).2 := law.heartbeat now.clock.wall r holds

theorem steady (gate : Option Error) (c : κ) (m : μ) (holds : law.holds h m) :
    law.holds h (b.poll gate c m).2.2 := law.poll gate c holds

variable {law}

theorem gives_query {a : Attempt σ} (sees : law.sees h v a.snapshot) (now : Moment)
    (c : Condition) : Access.Gives (law.holds h) (a.query b now c) fun feed =>
      feed.Draws (fun k => ∃ n, law.reads h v n k) known :=
  (Access.gives_pass now.gate).bind fun _ _ =>
    Access.gives_pure fun _ holds => law.query c holds sees

theorem draws_merged {t : Transaction σ} (sees : law.sees h v t.snapshot)
    (own : ∀ key value, t.writes.get? key = some (some value) → known (key, value)) {m : μ}
    (holds : law.holds h m) (c : Condition) :
    (t.merged b c).Draws (fun k => ∃ n, law.reads h v n k) known := by
  refine Feed.start_draws ?_ c own
  exact law.query c holds sees

variable (committed : ∀ row, (h.state v).get? row.1 = some row.2 → known row)
include committed

section Views
variable {a : Attempt σ} (sees : law.sees h v a.snapshot) (now : Moment)
include sees

theorem gives_viewRows (c : Condition) :
    Access.Gives (law.holds h) (Engine.viewRows b now a c) fun rows => ∀ row ∈ rows, known row :=
  (gives_query sees now c).bind fun _ draws =>
    Feed.gives_rows_draws (law.shows h v committed) law.steady now.gate draws

theorem gives_scan (c : Condition) (limit : Nat) :
    Access.Gives (law.holds h) (a.scan b now c limit) fun rows => ∀ row ∈ rows, known row :=
  (gives_query sees now c).bind fun _ draws =>
    Feed.gives_take_draws (law.shows h v committed) law.steady now.gate limit draws

end Views

section Transactions
variable {t : Transaction σ} (sees : law.sees h v t.snapshot)
  (own : ∀ key value, t.writes.get? key = some (some value) → known (key, value))
include sees own

theorem reads_queryRows (now : Moment) (c : Condition) :
    Transaction.Reads (law.holds h) t (Engine.queryRows b now c) fun rows _ =>
      ∀ row ∈ rows, known row :=
  (Transaction.reads_queryRows (law.beats now t.registration) fun m holds =>
    Feed.gives_rows_draws (law.shows h v committed) law.steady none
      (draws_merged sees own holds c) m holds).imp fun _ _ told => told.1

theorem reads_scan (now : Moment) (c : Condition) (limit : Nat) :
    Transaction.Reads (law.holds h) t (Transaction.scan b now c limit) fun rows _ =>
      ∀ row ∈ rows, known row :=
  (Transaction.reads_scan (law.beats now t.registration) fun m holds =>
    Feed.gives_take_draws (law.shows h v committed) law.steady none limit
      (draws_merged sees own holds c) m holds).imp fun _ _ told => told.1

end Transactions
end Resilience

variable {μ σ κ α : Type} {b : Backend μ σ κ} {law : Resilience b} {c : Chronicle}
  {g g' : Engine μ σ κ} {name : String} {s : Session σ} {story : Story}

theorem Story.knows_of_told (told : Told law c.history s story) (key value : Bytes)
    (found : s.writes.get? key = some (some value)) : story.Knows c.history (key, value) :=
  Story.knows_of_staged (told.staged ▸ found)

def Accounted (law : Resilience b) (c : Chronicle) (e : Event) (out : Answer × Engine μ σ κ) :
    Prop := Accounts law (c.observe e out.1) out.2 ∧ c.Explains e out.1

namespace Accounts

theorem noting (accounts : Accounts law c g) (name : String) {call : α → Call}
    (quiet : ∀ a, (call a).Quiet) (r : Except Error α) :
    Accounts law (c.noting name call r) g := by
  cases r with
  | error e => exact accounts
  | ok a => exact accounts.note name (quiet a)

section Reads
variable {call : α → Call} (quiet : ∀ a, (call a).Quiet)
include quiet

theorem read_within (accounts : Accounts law c g) {t : Transaction σ}
    (found : g.session? name = some (.transaction t)) (clock : Clock)
    {x : Backend μ σ κ → Moment → Access (Transaction σ × μ) α} {told : α → Prop}
    (reads : Transaction.Reads (law.holds c.history) t (x g.backend (g.moment clock t.liveness))
      fun a _ => told a) :
    Accounts law (c.noting name call (g.within name clock t x).1) (g.within name clock t x).2 ∧
      ∀ a, (g.within name clock t x).1 = .ok a → told a := by
  obtain ⟨holds, extends', gives⟩ := reads g.medium accounts.holds
  rcases ran : x g.backend (g.moment clock t.liveness) (t, g.medium) with ⟨r, t', m⟩
  simp only [Engine.within, ran] at holds extends' gives ⊢
  have read : Accounts law c ({ g with medium := m }.setSession name (.transaction t')) :=
    (accounts.medium holds).resume found extends'.attempt extends'.writes
  exact ⟨read.noting name quiet r, gives⟩

theorem read_view (accounts : Accounts law c g) {x : Access μ α} {told : α → Prop}
    (gives : Access.Gives (law.holds c.history) x told) (name : String) :
    Accounts law (c.noting name call (Engine.onMedium x g).1) (Engine.onMedium x g).2 ∧
      ∀ a, (Engine.onMedium x g).1 = .ok a → told a := by
  obtain ⟨holds, right⟩ := gives g.medium accounts.holds
  rcases ran : x g.medium with ⟨r, m⟩
  simp only [Engine.onMedium, ran] at holds right ⊢
  exact ⟨(accounts.medium holds).noting name quiet r, right⟩

variable (call) (told : Story → α → Prop) {e : Event} {answer : Except Error α → Answer}
  (refused : c.observe e .refused = c ∧ c.Explains e .refused)
  (answered : ∀ r, c.observe e (answer r) = c.noting name call r)
  (explained : ∀ story, c.running name = some story → ∀ r, (∀ a, r = .ok a → told story a) →
    c.Explains e (answer r))
include refused answered explained

theorem stepReadMany (accounts : Accounts law c g) (clock : Clock)
    {x : Backend μ σ κ → Moment → Access (Transaction σ × μ) α}
    (reads : ∀ story t now, Told law c.history (.transaction t) story →
      Transaction.Reads (law.holds c.history) t (x b now) fun a _ => told story a) :
    Accounted law c e (g.stepTransaction clock name answer x) := by
  cases found : g.session? name with
  | none =>
    simp only [Engine.stepTransaction, found]
    exact ⟨refused.1.symm ▸ accounts, refused.2⟩
  | some s =>
    cases s with
    | transaction t =>
      obtain rfl := accounts.backend
      obtain ⟨story, running, so, _⟩ := (accounts.sessions name).of_session found
      obtain ⟨after, right⟩ := accounts.read_within quiet found clock (reads story t _ so)
      simp only [Engine.stepTransaction, found]
      exact ⟨(answered _).symm ▸ after, explained story running _ right⟩
    | view a =>
      simp only [Engine.stepTransaction, found]
      exact ⟨refused.1.symm ▸ accounts, refused.2⟩

theorem stepRead (accounts : Accounts law c g) (clock : Clock)
    {inTransaction : Backend μ σ κ → Moment → Access (Transaction σ × μ) α}
    {inView : Backend μ σ κ → Moment → Attempt σ → Access μ α}
    (reads : ∀ story t now, Told law c.history (.transaction t) story →
      Transaction.Reads (law.holds c.history) t (inTransaction b now) fun a _ => told story a)
    (gives : ∀ story a now, Told law c.history (.view a) story →
      Access.Gives (law.holds c.history) (inView b now a) (told story)) :
    Accounted law c e (g.stepRead clock name answer inTransaction inView) := by
  cases found : g.session? name with
  | none =>
    simp only [Engine.stepRead, found]
    exact ⟨refused.1.symm ▸ accounts, refused.2⟩
  | some s =>
    obtain rfl := accounts.backend
    obtain ⟨story, running, so, _⟩ := (accounts.sessions name).of_session found
    cases s with
    | transaction t =>
      obtain ⟨after, right⟩ := accounts.read_within quiet found clock (reads story t _ so)
      simp only [Engine.stepRead, found]
      exact ⟨(answered _).symm ▸ after, explained story running _ right⟩
    | view a =>
      obtain ⟨after, right⟩ := accounts.read_view quiet (gives story a _ so) name
      simp only [Engine.stepRead, found]
      exact ⟨(answered _).symm ▸ after, explained story running _ right⟩

end Reads

theorem get (accounts : Accounts law c g) (clock : Clock) (name : String) (key : Bytes) :
    Accounted law c (.get name key) (g.step clock (.get name key)) := by
  refine accounts.stepRead (.get key) (fun _ _ => rfl)
    (fun story value => value = (story.staged.onto (c.history.state story.readVersion)).get? key)
    ⟨rfl, ?_⟩ ?_ ?_ clock ?_ ?_
  · trivial
  · rintro (_ | _) <;> rfl
  · rintro story running (_ | value) told
    · trivial
    · exact ⟨story, running, told value rfl⟩
  · intro story t now so
    rw [so.staged]
    exact (Transaction.reads_get (law.beats now t.registration) (law.get key so.sees)).imp
      fun _ _ read => read.1
  · intro story a now so
    rw [so.staged]
    exact (Access.gives_pass now.gate).bind fun _ _ => law.get key so.sees

theorem getMany (accounts : Accounts law c g) (clock : Clock) (name : String) (keys : List Bytes) :
    Accounted law c (.getMany name keys) (g.step clock (.getMany name keys)) := by
  refine accounts.stepReadMany (.getMany keys) (fun _ _ => rfl)
    (fun story values =>
      values = keys.map (story.staged.onto (c.history.state story.readVersion)).get?)
    ⟨rfl, ?_⟩ ?_ ?_ clock ?_
  · trivial
  · rintro (_ | _) <;> rfl
  · rintro story running (_ | values) told
    · trivial
    · exact ⟨story, running, told values rfl⟩
  · intro story t now so
    rw [so.staged]
    exact (Transaction.reads_getMany (law.beats now t.registration)
      fun key => law.get key so.sees).imp
      fun _ _ read => read.1

theorem query (accounts : Accounts law c g) (clock : Clock) (name : String)
    (condition : Condition) :
    Accounted law c (.query name condition) (g.step clock (.query name condition)) := by
  refine accounts.stepRead (.query condition) (fun _ _ => rfl)
    (fun story rows => ∀ row ∈ rows, story.Knows c.history row) ⟨rfl, ?_⟩ ?_ ?_ clock ?_ ?_
  · trivial
  · rintro (_ | _) <;> rfl
  · rintro story running (_ | rows) told
    · trivial
    · exact ⟨story, running, told rows rfl⟩
  · intro story t now so
    exact Resilience.reads_queryRows (fun _ => .inr) so.sees (Story.knows_of_told so) now condition
  · intro story a now so
    exact Resilience.gives_viewRows (fun _ => .inr) so.sees now condition

theorem scan (accounts : Accounts law c g) (clock : Clock) (name : String) (condition : Condition)
    (limit : Nat) :
    Accounted law c (.scan name condition limit) (g.step clock (.scan name condition limit)) := by
  refine accounts.stepRead (.scan condition limit) (fun _ _ => rfl)
    (fun story rows => ∀ row ∈ rows, story.Knows c.history row) ⟨rfl, ?_⟩ ?_ ?_ clock ?_ ?_
  · trivial
  · rintro (_ | _) <;> rfl
  · rintro story running (_ | rows) told
    · trivial
    · exact ⟨story, running, told rows rfl⟩
  · intro story t now so
    exact Resilience.reads_scan (fun _ => .inr) so.sees (Story.knows_of_told so) now condition limit
  · intro story a now so
    exact Resilience.gives_scan (fun _ => .inr) so.sees now condition limit

theorem stage (accounts : Accounts law c g) (clock : Clock) (name : String)
    (write : Bytes × Option Bytes) :
    Accounted law c (.stage name write) (g.step clock (.stage name write)) := by
  rw [Engine.step]
  cases found : g.session? name with
  | none =>
    simp only [Engine.stepTransaction, found]
    exact ⟨accounts, trivial⟩
  | some s =>
    cases s with
    | view a =>
      simp only [Engine.stepTransaction, found]
      exact ⟨accounts, trivial⟩
    | transaction t =>
      obtain ⟨story, told, ⟨_, _, staged⟩, _⟩ := (accounts.sessions name).of_session found
      simp only [Engine.stepTransaction, found, Engine.within, Engine.stageAndCount,
        Transaction.stage, Access.bind_apply]
      cases (g.moment clock t.liveness).shut with
      | some e =>
        have refused : Accounts law c (g.setSession name (.transaction t)) :=
          accounts.resume found rfl rfl
        exact ⟨refused, trivial⟩
      | none =>
        refine ⟨?_, trivial⟩
        change Accounts law (c.note name (.stage write))
          (g.setSession name (.transaction { t with writes := t.writes.stage write }))
        rw [Chronicle.note_eq told]
        refine accounts.goOn found told (.inr rfl) rfl rfl (List.prefix_append _ _) ?_
        refine (stagedBy_snoc story.calls (.stage write)).trans ?_
        change story.staged.stage write = t.writes.stage write
        rw [staged]
        rfl

/-! ### Streams -/

theorem opened (accounts : Accounts law c g) (found : g.session? name = some s)
    (condition : Condition) (stream : String) (l : Liveness String) {feed : Feed κ}
    (feeds : ∀ story, c.running name = some story → story.Feeds law c.history feed) :
    Accounts law ((c.note name (.openStream condition stream)).own stream name)
      (g.setStream stream ⟨s.attempt.serial, l, feed⟩) := by
  have quiet : (Call.openStream condition stream).Quiet := fun _ => rfl
  refine (accounts.note name quiet).openStream found stream l fun story told => ?_
  rw [c.history_note name]
  cases before : c.running name with
  | none =>
    rw [Chronicle.note, before] at told
    exact feeds story told
  | some story₀ =>
    rw [Chronicle.note_eq before] at told
    cases (c.running.set_same name _).symm.trans told
    exact (feeds story₀ before).later rfl (List.prefix_append _ _)

theorem openInView {law : Resilience g.backend} (accounts : Accounts law c g) {a : Attempt σ}
    (found : g.session? name = some (.view a)) (clock : Clock) (condition : Condition)
    (stream : String) :
    Accounted law c (.openStream name condition stream)
      (g.stepOpen clock name condition stream) := by
  obtain ⟨story, told, so, _⟩ := (accounts.sessions name).of_session found
  have sees : law.sees c.history story.readVersion a.snapshot := so.sees
  have queried : Access.Gives (law.holds c.history)
      (a.query g.backend (g.moment clock a.liveness) condition)
      fun feed => story.Feeds law c.history feed :=
    Resilience.gives_query sees (g.moment clock a.liveness) condition
  obtain ⟨holds, gives⟩ := queried g.medium accounts.holds
  rcases ran : a.query g.backend (g.moment clock a.liveness) condition g.medium with ⟨r, m⟩
  rw [ran] at holds gives
  have read := accounts.medium holds
  simp only [Engine.stepOpen, found, Engine.onMedium, ran]
  cases r with
  | error e => exact ⟨read, trivial⟩
  | ok feed =>
    refine ⟨read.opened found condition stream a.liveness fun story' told' => ?_, trivial⟩
    cases told.symm.trans told'
    exact gives feed rfl

theorem openInTransaction {law : Resilience g.backend} (accounts : Accounts law c g)
    {t : Transaction σ} (found : g.session? name = some (.transaction t)) (clock : Clock)
    (condition : Condition) (stream : String) :
    Accounted law c (.openStream name condition stream)
      (g.stepOpen clock name condition stream) := by
  obtain ⟨story, told, so, _⟩ := (accounts.sessions name).of_session found
  have sees : law.sees c.history story.readVersion t.snapshot := so.sees
  have queried : Transaction.Reads (law.holds c.history) t
      (Transaction.query g.backend (g.moment clock t.liveness) condition) _ :=
    Transaction.reads_query (law.beats (g.moment clock t.liveness) t.registration) condition
  obtain ⟨holds, extends', gives⟩ := queried g.medium accounts.holds
  rcases ran : Transaction.query g.backend (g.moment clock t.liveness) condition (t, g.medium)
    with ⟨r, t', m⟩
  rw [ran] at holds extends' gives
  have read : Accounts law c ({ g with medium := m }.setSession name (.transaction t')) :=
    (accounts.medium holds).resume found extends'.attempt extends'.writes
  have here : ({ g with medium := m }.setSession name (.transaction t')).session? name = _ :=
    (Engine.session?_setSession _ name name _).trans (if_pos rfl)
  have attempt : t'.toAttempt = t.toAttempt := extends'.attempt
  simp only [Engine.stepOpen, found, Engine.within, ran]
  cases r with
  | error e => exact ⟨read, trivial⟩
  | ok feed =>
    obtain ⟨_, rfl, _⟩ := gives feed rfl
    rw [Session.attempt, ← attempt]
    refine ⟨read.opened here condition stream _ fun story' told' => ?_, trivial⟩
    cases told.symm.trans told'
    exact Resilience.draws_merged sees (Story.knows_of_told so) accounts.holds condition

theorem stepOpen (accounts : Accounts law c g) (clock : Clock) (name : String)
    (condition : Condition) (stream : String) :
    Accounted law c (.openStream name condition stream)
      (g.stepOpen clock name condition stream) := by
  obtain rfl := accounts.backend
  cases found : g.session? name with
  | none =>
    simp only [Engine.stepOpen, found]
    exact ⟨accounts, trivial⟩
  | some s =>
    cases s with
    | view a => exact accounts.openInView found clock condition stream
    | transaction t => exact accounts.openInTransaction found clock condition stream

theorem own_owner (c : Chronicle) (stream : String) : c.own stream (c.owner stream) = c := by
  have same : c.owner.set stream (c.owner stream) = c.owner := by
    funext other
    by_cases here : other = stream
    · rw [here]
      exact c.owner.set_same stream _
    · exact c.owner.set_other here _
  rw [Chronicle.own, same]

theorem disown (accounts : Accounts law c g) {stream : String} (ended : g.stream? stream = none) :
    Accounts law (c.own stream none) g := by
  have streams : g.stream? = g.stream?.set stream none := by
    funext other
    by_cases here : other = stream
    · rw [here, ended]
      exact (g.stream?.set_same stream none).symm
    · exact (g.stream?.set_other here none).symm
  exact accounts.restream rfl accounts.holds rfl rfl streams nofun

theorem pollQuietly {law : Resilience g.backend} (accounts : Accounts law c g) {stream : String}
    {st : Stream κ} (standing : g.stream? stream = some st) :
    Accounts law c (g.stepPoll stream).2 := by
  have holds := Feed.poll_keeps law.steady (g.streamGate st) st.feed accounts.holds
  have draws (story : Story) (feeds : story.Feeds law c.history st.feed) :=
    (Feed.poll_draws (law.shows c.history story.readVersion fun _ => .inr) law.steady
      (g.streamGate st) accounts.holds feeds).2
  rcases polled : st.feed.poll g.backend (g.streamGate st) g.medium with ⟨item, feed, m⟩
  obtain ⟨_, medium, done⟩ := Engine.polled_stepPoll standing polled
  have attempts : (g.stepPoll stream).2.attempts = g.attempts := by
    have found : g.streams.lookup stream = some st := standing
    simp only [Engine.stepPoll, found, polled]
    split <;> rfl
  rw [polled] at holds draws
  rw [← medium] at holds
  have here : ∀ st', (if item.isNone then none else some { st with feed }) = some st' →
      st'.serial < g.attempts ∧ ∀ name s, g.session? name = some s →
        st'.serial = s.attempt.serial → c.owner stream = some name ∧
          ∀ story, c.running name = some story → story.Feeds law c.history st'.feed := by
    intro st' left
    split at left
    · cases left
    · cases left
      refine ⟨accounts.numbered.streams stream st standing, fun name s found serial => ?_⟩
      obtain ⟨story, told, _, streams⟩ := (accounts.sessions name).of_session found
      obtain ⟨mine, feeds⟩ := streams stream st standing serial
      refine ⟨mine, fun story' told' => ?_⟩
      cases told.symm.trans told'
      exact draws story feeds
  have after : Accounts law (c.own stream (c.owner stream)) (g.stepPoll stream).2 :=
    accounts.restream done.backend holds done.sessions attempts done.streams here
  rwa [own_owner] at after

theorem knows_of_polled {law : Resilience g.backend} (accounts : Accounts law c g)
    {stream : String} {st : Stream κ} (standing : g.stream? stream = some st)
    {row : Bytes × Bytes}
    (given : (st.feed.poll g.backend (g.streamGate st) g.medium).1 = some (.ok row)) :
    ∃ name story, c.owner stream = some name ∧ c.running name = some story ∧
      story.Knows c.history row := by
  cases gate : g.streamGate st with
  | some e =>
    rw [gate] at given
    exact absurd given (Feed.poll_shut law.poll_shut e st.feed g.medium row)
  | none =>
    have running : g.isRunning st.serial = true := by
      have flag := (Option.or_eq_none_iff.1 gate).2
      split at flag
      · assumption
      · cases flag
    obtain ⟨name, s, found, serial⟩ := (Engine.isRunning_iff accounts.numbered _).1 running
    obtain ⟨story, told, _, streams⟩ := (accounts.sessions name).of_session found
    obtain ⟨mine, feeds⟩ := streams stream st standing serial.symm
    have shown := (Feed.poll_draws (law.shows c.history story.readVersion fun _ => .inr) law.steady
      (g.streamGate st) accounts.holds feeds).1
    exact ⟨name, story, mine, told, shown row given⟩

theorem stepPoll (accounts : Accounts law c g) (stream : String) :
    Accounted law c (.poll stream) (g.stepPoll stream) := by
  cases standing : g.stream? stream with
  | none =>
    have absent : g.streams.lookup stream = none := standing
    simp only [Engine.stepPoll, absent]
    exact ⟨accounts, trivial⟩
  | some st =>
    obtain rfl := accounts.backend
    have after := accounts.pollQuietly standing
    rcases polled : st.feed.poll g.backend (g.streamGate st) g.medium with ⟨item, feed, m⟩
    obtain ⟨answered, _, done⟩ := Engine.polled_stepPoll standing polled
    rw [Accounted, answered]
    change Accounts law (c.polled stream item) _ ∧ _
    rw [Chronicle.polled]
    rcases item with _ | e | row
    · refine ⟨?_, trivial⟩
      have ended : (g.stepPoll stream).2.stream? stream = none := by
        rw [done.streams]
        exact g.stream?.set_same stream _
      cases c.owner stream with
      | none => exact after
      | some name =>
        dsimp only
        split
        · exact (after.note name fun _ => rfl).disown ended
        · exact after.disown ended
    · refine ⟨?_, trivial⟩
      cases c.owner stream <;> exact after
    · obtain ⟨name, story, mine, told, knows⟩ :=
        accounts.knows_of_polled standing (by rw [polled])
      rw [mine]
      exact ⟨after.note name fun _ => rfl, name, story, mine, told, knows⟩

end Accounts
end OptimisticStore
