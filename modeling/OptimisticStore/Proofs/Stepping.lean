import OptimisticStore.Proofs.Attempts
import OptimisticStore.Proofs.Streaming

/-! The engine follows its chronicle through every event, and so through every run. -/

namespace OptimisticStore

variable {μ σ κ α : Type} {b : Backend μ σ κ} {law : Law b} {c : Chronicle} {g : Engine μ σ κ}
  {name : String}

def Chronicle.noting (c : Chronicle) (name : String) (call : α → Call) : Except Error α → Chronicle
  | .ok a => c.note name (call a)
  | .error _ => c

theorem Chronicle.isOpen_of_cancel (c : Chronicle) {flag : String} {l : Liveness String}
    (goes_on : ({ c with cancelled := flag :: c.cancelled } : Chronicle).isOpen l = true) :
    c.isOpen l = true := by
  rw [Chronicle.isOpen, Bool.and_eq_true] at goes_on ⊢
  obtain ⟨not_closed, alive⟩ := goes_on
  refine ⟨not_closed, ?_⟩
  cases l with
  | always => rfl
  | flagged other =>
    simp only [Liveness.isAlive, List.contains_cons, Bool.not_or, Bool.and_eq_true] at alive
    exact alive.2

namespace Follows

section Reads
variable (given : OrderedMap Bytes Bytes → α) (call : α → Call)
  (made : ∀ state (solo : Solo), solo.call state (call (given (solo.view state))) = some solo)
include made

/-- A read of a transaction gives what its replay would read, and its footprint covers it. -/
theorem read_within (follows : Follows law c g) {t : Transaction σ}
    (found : g.session? name = some (.transaction t)) (clock : Clock)
    {x : Backend μ σ κ → Moment → Access (Transaction σ × μ) α}
    (reads : ∀ now v, law.sees c.history v t.snapshot →
      law.Reads c.history t (x b now) fun a t' =>
        a = given (t.writes.onto (c.history.state v)) ∧
          ∀ k, (call a).covers k = true → t'.reads.covers k = true) :
    Follows law (c.noting name call (g.within name clock t x).1) (g.within name clock t x).2 := by
  obtain rfl := follows.backend
  obtain ⟨story, _, tracks⟩ := (follows.sessions name).of_session found
  obtain ⟨holds, extends', gives⟩ :=
    reads (g.moment clock t.liveness) story.readVersion tracks.sees g.medium follows.holds
  rcases ran : x g.backend (g.moment clock t.liveness) (t, g.medium) with ⟨e | a, t', m⟩ <;>
    simp only [Engine.within, ran] at holds extends' gives ⊢
  · exact follows.extend found (g.touches_setSession m name _) rfl holds extends'.attempt
      extends'.writes extends'.covers
  · refine follows.call found (g.touches_setSession m name _) rfl holds extends'.attempt
      extends'.covers (gives a rfl).2 fun v sees solo writes => ?_
    have read := (reads (g.moment clock t.liveness) v sees g.medium follows.holds).2.2 a
      (by rw [ran])
    have same : Session.writes (.transaction t') = solo.writes :=
      extends'.writes.trans writes.symm
    have seen : solo.view (c.history.state v) = t.writes.onto (c.history.state v) := by
      rw [Solo.view, writes]
      rfl
    have called := made (c.history.state v) solo
    rw [seen, ← read.1] at called
    rw [same]
    exact called

theorem read_view (follows : Follows law c g) {a : Attempt σ}
    (found : g.session? name = some (.view a)) {x : Access μ α}
    (gives : ∀ v, law.sees c.history v a.snapshot →
      law.Gives c.history x fun r => r = given (c.history.state v)) :
    Follows law (c.noting name call (Engine.onMedium x g).1) (Engine.onMedium x g).2 := by
  obtain ⟨story, _, tracks⟩ := (follows.sessions name).of_session found
  obtain ⟨holds, _⟩ := gives story.readVersion tracks.sees g.medium follows.holds
  rcases ran : x g.medium with ⟨e | r, m⟩ <;> simp only [Engine.onMedium, ran] at holds ⊢
  · exact follows.medium holds g.attempts
  · refine follows.call found (Engine.touches_medium found m) rfl holds rfl
      (fun _ covered => covered) (fun _ _ => rfl) fun v sees solo writes => ?_
    have read := (gives v sees g.medium follows.holds).2 r (by rw [ran])
    have seen : solo.view (c.history.state v) = c.history.state v := by
      rw [Solo.view, writes]
      rfl
    have same : ({ solo with writes := Session.writes (.view a) } : Solo) = solo := by
      rw [← writes]
    have called := made (c.history.state v) solo
    rw [seen, ← read] at called
    rw [same]
    exact called

theorem stepRead (follows : Follows law c g) (clock : Clock) (name : String) {e : Event}
    {answer : Except Error α → Answer}
    {inTransaction : Backend μ σ κ → Moment → Access (Transaction σ × μ) α}
    {inView : Backend μ σ κ → Moment → Attempt σ → Access μ α}
    (refused : c.observe e .refused = c)
    (answered : ∀ r, c.observe e (answer r) = c.noting name call r)
    (reads : ∀ (t : Transaction σ) now v, law.sees c.history v t.snapshot →
      law.Reads c.history t (inTransaction b now) fun a t' =>
        a = given (t.writes.onto (c.history.state v)) ∧
          ∀ k, (call a).covers k = true → t'.reads.covers k = true)
    (gives : ∀ (a : Attempt σ) now v, law.sees c.history v a.snapshot →
      law.Gives c.history (inView b now a) fun r => r = given (c.history.state v)) :
    Follows law (c.observe e (g.stepRead clock name answer inTransaction inView).1)
      (g.stepRead clock name answer inTransaction inView).2 := by
  cases found : g.session? name with
  | none =>
    simp only [Engine.stepRead, found, refused]
    exact follows
  | some s =>
    cases s with
    | transaction t =>
      simp only [Engine.stepRead, found, answered]
      exact follows.read_within given call made found clock (reads t)
    | view a =>
      obtain rfl := follows.backend
      simp only [Engine.stepRead, found, answered]
      exact follows.read_view given call made found fun v sees => gives a _ v sees

theorem stepReadMany (follows : Follows law c g) (clock : Clock) (name : String) {e : Event}
    {answer : Except Error α → Answer}
    {x : Backend μ σ κ → Moment → Access (Transaction σ × μ) α}
    (refused : c.observe e .refused = c)
    (answered : ∀ r, c.observe e (answer r) = c.noting name call r)
    (reads : ∀ (t : Transaction σ) now v, law.sees c.history v t.snapshot →
      law.Reads c.history t (x b now) fun a t' =>
        a = given (t.writes.onto (c.history.state v)) ∧
          ∀ k, (call a).covers k = true → t'.reads.covers k = true) :
    Follows law (c.observe e (g.stepTransaction clock name answer x).1)
      (g.stepTransaction clock name answer x).2 := by
  cases found : g.session? name with
  | none =>
    simp only [Engine.stepTransaction, found, refused]
    exact follows
  | some s =>
    cases s with
    | transaction t =>
      simp only [Engine.stepTransaction, found, answered]
      exact follows.read_within given call made found clock (reads t)
    | view a =>
      simp only [Engine.stepTransaction, found, refused]
      exact follows

end Reads

/-! ### The events of a body -/

theorem get (follows : Follows law c g) (clock : Clock) (name : String) (key : Bytes) :
    Follows law (c.observe (.get name key) (g.step clock (.get name key)).1)
      (g.step clock (.get name key)).2 := by
  refine follows.stepRead (·.get? key) (.get key) ?_ clock name rfl ?_ ?_
    fun a now v sees => Law.gives_get sees now key
  · intro state solo
    exact if_pos rfl
  · rintro (_ | _) <;> rfl
  · intro t now v sees
    refine (Law.reads_get sees now key).imp fun value t' ⟨read, covered⟩ =>
      ⟨read, fun k inside => ?_⟩
    have same : k = key := by
      simpa [Call.covers, Call.ranges, KeyRange.contains_point_iff] using inside
    rwa [same]

theorem getMany (follows : Follows law c g) (clock : Clock) (name : String) (keys : List Bytes) :
    Follows law (c.observe (.getMany name keys) (g.step clock (.getMany name keys)).1)
      (g.step clock (.getMany name keys)).2 := by
  refine follows.stepReadMany (fun data => keys.map data.get?) (.getMany keys) ?_ clock name rfl
    ?_ ?_
  · intro state solo
    exact if_pos rfl
  · rintro (_ | _) <;> rfl
  · intro t now v sees
    refine (Law.reads_getMany sees now keys).imp fun values t' ⟨read, covered⟩ =>
      ⟨read, fun k inside => covered k ?_⟩
    simpa [Call.covers, Call.ranges, KeyRange.contains_point_iff] using inside

theorem query (follows : Follows law c g) (clock : Clock) (name : String) (condition : Condition) :
    Follows law (c.observe (.query name condition) (g.step clock (.query name condition)).1)
      (g.step clock (.query name condition)).2 := by
  refine follows.stepRead condition.select (.query condition) ?_ clock name rfl ?_ ?_
    fun a now v sees => Law.gives_viewRows sees now condition
  · intro state solo
    exact if_pos rfl
  · rintro (_ | _) <;> rfl
  · intro t now v sees
    refine (Law.reads_queryRows sees now condition).imp fun rows t' ⟨read, covered⟩ =>
      ⟨read, fun k inside => covered k ?_⟩
    simpa [Call.covers, Call.ranges, condition.contains_readRange] using inside

theorem scan (follows : Follows law c g) (clock : Clock) (name : String) (condition : Condition)
    (limit : Nat) :
    Follows law (c.observe (.scan name condition limit)
      (g.step clock (.scan name condition limit)).1)
      (g.step clock (.scan name condition limit)).2 := by
  refine follows.stepRead (fun data => (condition.select data).take limit) (.scan condition limit)
    ?_ clock name rfl ?_ ?_ fun a now v sees => Law.gives_scan sees now condition limit
  · intro state solo
    exact if_pos rfl
  · rintro (_ | _) <;> rfl
  · intro t now v sees
    refine (Law.reads_scan sees now condition limit).imp fun rows t' ⟨read, covered⟩ =>
      ⟨read, fun k inside => covered k ?_⟩
    simpa [Call.covers, Call.ranges] using inside

theorem stage (follows : Follows law c g) (clock : Clock) (name : String)
    (write : Bytes × Option Bytes) :
    Follows law (c.observe (.stage name write) (g.step clock (.stage name write)).1)
      (g.step clock (.stage name write)).2 := by
  rw [Engine.step]
  cases found : g.session? name with
  | none =>
    simp only [Engine.stepTransaction, found]
    exact follows
  | some s =>
    cases s with
    | view a =>
      simp only [Engine.stepTransaction, found]
      exact follows
    | transaction t =>
      simp only [Engine.stepTransaction, found, Engine.within, Engine.stageAndCount,
        Transaction.stage, Access.bind_apply]
      cases (g.moment clock t.liveness).shut with
      | some e =>
        exact follows.extend found (g.touches_setSession g.medium name _) rfl follows.holds rfl rfl
          fun _ covered => covered
      | none =>
        change Follows law (c.note name (.stage write)) _
        refine follows.call found (g.touches_setSession g.medium name
          (.transaction { t with writes := t.writes.stage write })) rfl follows.holds rfl
          (fun _ covered => covered) (fun _ inside => absurd inside Bool.false_ne_true)
          fun v _ solo writes => ?_
        have staged : solo.writes = t.writes := writes
        rw [Solo.call, staged]
        rfl

theorem openInView {law : Law g.backend} (follows : Follows law c g) {a : Attempt σ}
    (found : g.session? name = some (.view a)) (clock : Clock) (condition : Condition)
    (stream : String) :
    Follows law (c.observe (.openStream name condition stream)
      (g.stepOpen clock name condition stream).1) (g.stepOpen clock name condition stream).2 := by
  obtain ⟨story, _, tracks⟩ := (follows.sessions name).of_session found
  have gives (v : Nat) (sees : law.sees c.history v a.snapshot) :=
    Law.gives_query sees (g.moment clock a.liveness) condition g.medium follows.holds
  obtain ⟨holds, _⟩ := gives story.readVersion tracks.sees
  rcases ran : a.query g.backend (g.moment clock a.liveness) condition g.medium
    with ⟨e | feed, m⟩ <;> rw [ran] at holds <;>
    simp only [Engine.stepOpen, found, Engine.onMedium, ran]
  · exact follows.medium holds g.attempts
  · have read := follows.medium holds g.attempts
    exact read.openStream found (fun _ _ => rfl) fun v sees =>
      ((gives v sees).2 feed (by rw [ran])).2

theorem openInTransaction {law : Law g.backend} (follows : Follows law c g) {t : Transaction σ}
    (found : g.session? name = some (.transaction t)) (clock : Clock) (condition : Condition)
    (stream : String) :
    Follows law (c.observe (.openStream name condition stream)
      (g.stepOpen clock name condition stream).1) (g.stepOpen clock name condition stream).2 := by
  obtain ⟨story, _, tracks⟩ := (follows.sessions name).of_session found
  have reads (v : Nat) (sees : law.sees c.history v t.snapshot) :=
    Law.reads_query sees (g.moment clock t.liveness) condition g.medium follows.holds
  obtain ⟨holds, extends', _⟩ := reads story.readVersion tracks.sees
  rcases ran : Transaction.query g.backend (g.moment clock t.liveness) condition (t, g.medium)
    with ⟨r, t', m⟩
  rw [ran] at holds extends'
  have touches := g.touches_setSession m name (.transaction t')
  have read := follows.extend found touches rfl holds extends'.attempt extends'.writes
    extends'.covers
  cases r with
  | error e =>
    simp only [Engine.stepOpen, found, Engine.within, ran]
    exact read
  | ok feed =>
    have told (v : Nat) (sees : law.sees c.history v t.snapshot) :=
      (reads v sees).2.2 feed (by rw [ran])
    rw [ran] at told
    have attempt : t'.toAttempt = t.toAttempt := extends'.attempt
    simp only [Engine.stepOpen, found, Engine.within, ran]
    rw [Session.attempt, ← attempt]
    refine read.openStream touches.session (told _ tracks.sees).2.2 fun v sees => ?_
    have sees : law.sees c.history v t.snapshot := extends'.snapshot ▸ sees
    have writes : t'.writes = t.writes := extends'.writes
    rw [Session.writes, writes]
    exact (told v sees).2.1

theorem stepOpen (follows : Follows law c g) (clock : Clock) (name : String)
    (condition : Condition) (stream : String) :
    Follows law (c.observe (.openStream name condition stream)
      (g.stepOpen clock name condition stream).1) (g.stepOpen clock name condition stream).2 := by
  obtain rfl := follows.backend
  cases found : g.session? name with
  | none =>
    simp only [Engine.stepOpen, found]
    exact follows
  | some s =>
    cases s with
    | view a => exact follows.openInView found clock condition stream
    | transaction t => exact follows.openInTransaction found clock condition stream

/-! ### Events for all -/

theorem narrow (follows : Follows law c g) {closed : Option String} {shut : Bool}
    {cancelled flags : List String} {m : μ} (holds : law.holds c.history m)
    (shut_eq : shut = closed.isSome) (flags_eq : flags = cancelled)
    (opens : ∀ l, ({ c with closed := shut, cancelled := flags } : Chronicle).isOpen l = true →
      c.isOpen l = true) :
    Follows law { c with closed := shut, cancelled := flags }
      { g with closed, cancelled, medium := m } where
  backend := follows.backend
  holds := holds
  closed := shut_eq
  cancelled := flags_eq
  sessions name := (follows.sessions name).elsewhere (List.append_nil _).symm rfl rfl
    (fun _ mine => ⟨mine, rfl⟩) opens
  writers := follows.writers
  others := follows.others

theorem cancel (follows : Follows law c g) (flag : String) :
    Follows law { c with cancelled := flag :: c.cancelled }
      { g with cancelled := flag :: g.cancelled } := by
  have flags := congrArg (flag :: ·) follows.cancelled
  exact follows.narrow follows.holds follows.closed flags fun l => c.isOpen_of_cancel

theorem close (follows : Follows law c g) (reason : String) :
    Follows law { c with closed := true } (Engine.close reason g).2 := by
  rw [Engine.close]
  cases closed : g.closed with
  | some earlier =>
    have told : c.closed = true := by
      rw [follows.closed, closed]
      rfl
    rw [← told]
    exact follows
  | none =>
    have holds : law.holds c.history (g.backend.close g.medium).2 := by
      rw [follows.backend]
      exact law.close follows.holds
    change Follows law { c with closed := true } { g with
      closed := some reason, cancelled := g.cancelled, medium := (g.backend.close g.medium).2 }
    exact follows.narrow holds rfl follows.cancelled nofun

theorem stats (follows : Follows law c g) : Follows law c (Engine.stats g).2 := by
  have holds : law.holds c.history (g.backend.stats g.medium).2 := by
    rw [follows.backend]
    exact law.stats follows.holds
  exact follows.medium holds g.attempts

theorem step (follows : Follows law c g) (clock : Clock) (e : Event) :
    Follows law (c.observe e (g.step clock e).1) (g.step clock e).2 := by
  cases e with
  | transact name l => exact follows.stepTransact clock name l
  | snapshot name l => exact follows.stepSnapshot clock name l
  | get name key => exact follows.get clock name key
  | getMany name keys => exact follows.getMany clock name keys
  | stage name write => exact follows.stage clock name write
  | query name condition => exact follows.query clock name condition
  | scan name condition limit => exact follows.scan clock name condition limit
  | openStream name condition stream => exact follows.stepOpen clock name condition stream
  | poll stream => exact follows.stepPoll stream
  | succeed name => exact follows.stepSucceed clock name
  | fail name cause => exact follows.stepFail clock name cause
  | drop name => exact follows.stepDrop name
  | cancel flag => exact follows.cancel flag
  | run l writes =>
    have ends := follows.transactAlone clock l writes g.config.maxRetries 0
    rw [Ends] at ends
    rw [Engine.step]
    rcases ran : Engine.transactAlone clock l writes g.config.maxRetries 0 g with ⟨e | _, g'⟩ <;>
      rw [ran] at ends
    · exact ends
    · exact ends
  | read condition =>
    have ends := follows.readAlone clock condition
    rw [Engine.step]
    rcases ran : Engine.readAlone clock condition g with ⟨e | rows, g'⟩ <;> rw [ran] at ends
    · cases condition <;> exact ends
    · exact ends
  | stats => exact follows.stats
  | close reason => exact follows.close reason

theorem run (follows : Follows law c g) (events : List (Clock × Event)) :
    Follows law (c.watch (events.zip (g.run events).1)) (g.run events).2 := by
  induction events generalizing c g with
  | nil => exact follows
  | cons one events ih =>
    obtain ⟨clock, e⟩ := one
    exact ih (follows.step clock e)

end Follows
end OptimisticStore
