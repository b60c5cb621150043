import OptimisticStore.Proofs.Beside

/-! What twins read and stage, and the streams that they have opened. A stream goes with its
session's number, so that the twin of a stream is gated as the stream itself is. -/

namespace OptimisticStore

variable {μ σ κ τ α : Type} {b : Backend μ σ κ} {law : Discretion b τ} {h : History}
  {census : List Registration} {cast : Cast} {g g' : Engine μ σ κ} {name stream : String}
  {t : Transaction σ} {k : Nat}

namespace Unseen
variable (unseen : Unseen law h census cast g g')
include unseen

theorem within (shown : cast.sessions name = false)
    (found : g.session? name = some (.transaction t)) (counted : census[k]? = some t.registration)
    {x : Backend μ σ κ → Moment → Access (Transaction σ × μ) α} (clock : Clock)
    (agree : ∀ now, Access.Agree (law.Beside h census g.Live g.attempts t.toAttempt k) (x b now)
      (x b now)) :
    (g.within name clock t x).1 = (g'.within name clock (t.nth k) x).1 ∧
      Unseen law h census cast (g.within name clock t x).2
        (g'.within name clock (t.nth k) x).2 ∧
      ∃ t₁, (g.within name clock t x).2.session? name = some (.transaction t₁) ∧
        t₁.toAttempt = t.toAttempt := by
  have here : x g.backend (g.moment clock t.liveness) = x b (g.moment clock t.liveness) := by
    rw [unseen.backend]
  have there : x g'.backend (g'.moment clock (t.nth k).liveness) =
      x b (g.moment clock t.liveness) := by
    rw [unseen.backend', unseen.moment]
    rfl
  obtain ⟨same, beside⟩ := agree (g.moment clock t.liveness) (t, g.medium) (t.nth k, g'.medium)
    ⟨rfl, rfl, unseen.media⟩
  rw [Engine.within, Engine.within, here, there]
  revert same beside
  rcases x b (g.moment clock t.liveness) (t, g.medium) with ⟨r, t₁, m⟩
  rcases x b (g.moment clock t.liveness) (t.nth k, g'.medium) with ⟨_, _, m'⟩
  rintro rfl ⟨attempt, rfl, media⟩
  have placed : (Session.transaction t).attempt.Placed census (some k) := counted
  have same : (Session.transaction t₁).attempt = (Session.transaction t).attempt := attempt
  have on := (unseen.medium media).goOn found placed same
  rw [Option.isNone_some, Cast.withSession_same shown] at on
  exact ⟨rfl, on, t₁, (Engine.session?_setSession _ name name _).trans (if_pos rfl), attempt⟩

theorem view {x y : Access μ α}
    (agree : Access.Agree (law.Matches h census g.Live g.attempts) x y) :
    (Engine.onMedium x g).1 = (Engine.onMedium y g').1 ∧
      Unseen law h census cast (Engine.onMedium x g).2 (Engine.onMedium y g').2 := by
  obtain ⟨same, media⟩ := agree g.medium g'.medium unseen.media
  exact ⟨same, unseen.medium media⟩

section Steps
variable (shown : cast.sessions name = false) (clock : Clock) {e : Event}
  {answer : Except Error α → Answer}
include shown

theorem stepTransaction {x : Backend μ σ κ → Moment → Access (Transaction σ × μ) α}
    (quiet : ∀ a, cast.observe false e a = cast)
    (agree : ∀ (a : Attempt σ) k, a.Registered law h → census[k]? = some a.registration → ∀ now,
      Access.Agree (law.Beside h census g.Live g.attempts a k) (x b now) (x b now)) :
    Parallel law cast e (g.stepTransaction clock name answer x)
      (g'.stepTransaction clock name answer x) := by
  cases found : g.session? name with
  | none =>
    simp only [Engine.stepTransaction, found, unseen.absent found]
    exact .inr ⟨rfl, h, census, (quiet _).symm ▸ unseen⟩
  | some s =>
    obtain ⟨k, counted, found'⟩ := unseen.twin_shown shown found
    cases s with
    | view a =>
      simp only [Engine.stepTransaction, found, found', Session.nth]
      exact .inr ⟨rfl, h, census, (quiet _).symm ▸ unseen⟩
    | transaction t =>
      obtain ⟨same, after, _⟩ := unseen.within shown found counted clock
        (agree t.toAttempt k (unseen.registered found) counted)
      simp only [Engine.stepTransaction, found, found', Session.nth]
      exact .inr ⟨congrArg (Answer.told ∘ answer) same, h, census, (quiet _).symm ▸ after⟩

theorem stepRead {inTransaction : Backend μ σ κ → Moment → Access (Transaction σ × μ) α}
    {inView : Backend μ σ κ → Moment → Attempt σ → Access μ α}
    (quiet : ∀ a, cast.observe false e a = cast)
    (agree : ∀ (a : Attempt σ) k, a.Registered law h → census[k]? = some a.registration → ∀ now,
      Access.Agree (law.Beside h census g.Live g.attempts a k) (inTransaction b now)
        (inTransaction b now))
    (views : ∀ (a : Attempt σ) k, a.Registered law h → ∀ now,
      Access.Agree (law.Matches h census g.Live g.attempts) (inView b now a)
        (inView b now (a.nth k))) :
    Parallel law cast e (g.stepRead clock name answer inTransaction inView)
      (g'.stepRead clock name answer inTransaction inView) := by
  cases found : g.session? name with
  | none =>
    simp only [Engine.stepRead, found, unseen.absent found]
    exact .inr ⟨rfl, h, census, (quiet _).symm ▸ unseen⟩
  | some s =>
    obtain ⟨k, counted, found'⟩ := unseen.twin_shown shown found
    cases s with
    | transaction t =>
      obtain ⟨same, after, _⟩ := unseen.within shown found counted clock
        (agree t.toAttempt k (unseen.registered found) counted)
      simp only [Engine.stepRead, found, found', Session.nth]
      exact .inr ⟨congrArg (Answer.told ∘ answer) same, h, census, (quiet _).symm ▸ after⟩
    | view a =>
      obtain ⟨same, after⟩ := unseen.view
        (views a k (unseen.registered found) (g.moment clock a.liveness))
      simp only [Engine.stepRead, found, found', Session.nth, unseen.backend, unseen.backend']
      have moment : g'.moment clock (a.nth k).liveness = g.moment clock a.liveness :=
        unseen.moment clock a.liveness
      rw [moment]
      exact .inr ⟨congrArg (Answer.told ∘ answer) same, h, census, (quiet _).symm ▸ after⟩

theorem get (key : Bytes) :
    Parallel law cast (.get name key) (g.step clock (.get name key))
      (g'.step clock (.get name key)) :=
  unseen.stepRead shown clock (fun _ => rfl)
    (fun _ _ registered counted now => Transaction.agree_get counted now registered.sees key)
    fun _ _ registered now => Attempt.agree_get registered.sees now key

theorem getMany (keys : List Bytes) :
    Parallel law cast (.getMany name keys) (g.step clock (.getMany name keys))
      (g'.step clock (.getMany name keys)) :=
  unseen.stepTransaction shown clock (fun _ => rfl) fun _ _ registered counted now =>
    Transaction.agree_getMany counted now registered.sees keys

theorem query (c : Condition) :
    Parallel law cast (.query name c) (g.step clock (.query name c))
      (g'.step clock (.query name c)) :=
  unseen.stepRead shown clock (fun _ => rfl)
    (fun _ _ registered counted now => Transaction.agree_queryRows counted now registered.sees c)
    fun _ _ registered now => Attempt.agree_viewRows registered.sees now c

theorem scan (c : Condition) (limit : Nat) :
    Parallel law cast (.scan name c limit) (g.step clock (.scan name c limit))
      (g'.step clock (.scan name c limit)) :=
  unseen.stepRead shown clock (fun _ => rfl)
    (fun _ _ registered counted now => Transaction.agree_scan counted now registered.sees c limit)
    fun _ _ registered now => Attempt.agree_scan registered.sees now c limit

theorem stage (write : Bytes × Option Bytes) :
    Parallel law cast (.stage name write) (g.step clock (.stage name write))
      (g'.step clock (.stage name write)) :=
  unseen.stepTransaction shown clock (fun _ => rfl) fun _ _ _ _ now =>
    Transaction.agree_stageAndCount now write

/-! ### Streams -/

omit shown in
theorem openStream {s s₁ : Session σ} (found : g.session? name = some s₁)
    (attempt : s₁.attempt = s.attempt) (counted : census[k]? = some s.attempt.registration)
    (stream : String) {feed : Feed κ} {n : Nat}
    (lasts : feed.Lasts (law.reads h s.attempt.registration.readVersion) n) :
    Unseen law h census (cast.withStream stream false)
      (g.setStream stream ⟨s.attempt.serial, s.attempt.liveness, feed⟩)
      (g'.setStream stream ⟨k, s.attempt.liveness, feed⟩) := by
  rw [← attempt] at counted lasts ⊢
  refine unseen.setStreams false (g.stream?_setStream stream _) (g'.stream?_setStream stream _)
    ⟨rfl, k, _, n, counted, (unseen.registered found).number, lasts, rfl⟩ ?_
  rintro _ ⟨⟩
  exact unseen.numbered.sessions name s₁ found

omit unseen shown in
theorem opened {one other : Except Error (Feed κ) × Engine μ σ κ}
    (after : Unseen law h census cast one.2 other.2) (same : one.1 = other.1) {s s₁ : Session σ}
    (found : one.2.session? name = some s₁) (attempt : s₁.attempt = s.attempt)
    (counted : census[k]? = some s.attempt.registration)
    (lasts : ∀ feed, one.1 = .ok feed →
      ∃ n, feed.Lasts (law.reads h s.attempt.registration.readVersion) n)
    (c : Condition) (stream : String) :
    Parallel law cast (.openStream name c stream) (Engine.opened s stream one)
      (Engine.opened (s.nth k) stream other) := by
  obtain ⟨r, g₁⟩ := one
  obtain ⟨r', g₁'⟩ := other
  obtain rfl : r = r' := same
  cases r with
  | error e => exact .inr ⟨rfl, h, census, after⟩
  | ok feed =>
    obtain ⟨n, lasting⟩ := lasts feed rfl
    simp only [Engine.opened, Session.attempt_nth]
    exact .inr ⟨rfl, h, census, after.openStream found attempt counted stream lasting⟩

theorem stepOpen (c : Condition) (stream : String) :
    Parallel law cast (.openStream name c stream) (g.stepOpen clock name c stream)
      (g'.stepOpen clock name c stream) := by
  cases found : g.session? name with
  | none =>
    simp only [Engine.stepOpen, found, unseen.absent found]
    exact .inr ⟨rfl, h, census, unseen⟩
  | some s =>
    obtain ⟨k, counted, found'⟩ := unseen.twin_shown shown found
    have registered := unseen.registered found
    cases s with
    | transaction t =>
      obtain ⟨same, after, t₁, found₁, attempt⟩ :=
        unseen.within (x := fun b now => Transaction.query b now c) shown found counted clock
          fun now => Transaction.agree_query counted now c
      rw [Engine.stepOpen_transaction clock c stream found,
        Engine.stepOpen_transaction clock c stream found']
      refine after.opened (s := .transaction t) same found₁ attempt counted
        (fun feed given => ?_) c stream
      rw [Engine.within_eq, unseen.backend] at given
      exact Transaction.query_lasts unseen.media.full registered.sees _ given
    | view a =>
      have agree : Access.Agree (law.Matches h census g.Live g.attempts)
          (a.query g.backend (g.moment clock a.liveness) c)
          ((a.nth k).query g'.backend (g'.moment clock (a.nth k).liveness) c) := by
        rw [unseen.backend, unseen.backend', unseen.moment]
        exact (Access.agree_pass _).bind fun _ => Access.agree_pure _
      obtain ⟨same, after⟩ := unseen.view agree
      rw [Engine.stepOpen_view clock c stream found, Engine.stepOpen_view clock c stream found']
      refine after.opened (s := .view a) same found rfl counted (fun feed given => ?_) c stream
      rw [Engine.onMedium_eq, unseen.backend] at given
      exact Attempt.query_lasts unseen.media.full registered.sees _ given

end Steps

theorem streamGate_place {q : Registration} {st : Stream κ} (counted : census[k]? = some q)
    (number : q.txnId = st.serial + 1) :
    g'.streamGate { st with serial := k } = g.streamGate st := by
  rw [Engine.streamGate, Engine.streamGate, unseen.closed, unseen.flagError,
    unseen.isRunning_place counted number]

theorem stepPoll (shown : cast.streams stream = false) :
    Parallel law cast (.poll stream) (g.stepPoll stream) (g'.stepPoll stream) := by
  have twins := unseen.streams stream
  cases found : g.stream? stream with
  | none =>
    rw [found] at twins
    have found : g.streams.lookup stream = none := found
    have found' : g'.streams.lookup stream = none := twins
    simp only [Engine.stepPoll, found, found']
    exact .inr ⟨rfl, h, census, unseen⟩
  | some st =>
    cases found' : g'.stream? stream with
    | none =>
      rw [found, found', shown] at twins
      cases twins
    | some st' =>
      rw [found, found'] at twins
      obtain ⟨_, k, q, n, counted, number, lasts, rfl⟩ := twins
      have same := st.feed.poll_alike Discretion.Matches.polls Discretion.Matches.bounded
        (g.streamGate st) lasts unseen.media
      obtain ⟨item, left, m, m', j, ran, ran', media, lasting, _⟩ := same
      have here : st.feed.poll g.backend (g.streamGate st) g.medium = (item, left, m) := by
        rw [unseen.backend]
        exact ran
      have there : st.feed.poll g'.backend (g'.streamGate { st with serial := k }) g'.medium =
          (item, left, m') := by
        rw [unseen.backend', unseen.streamGate_place counted number]
        exact ran'
      have found : g.streams.lookup stream = some st := found
      have found' : g'.streams.lookup stream = some { st with serial := k } := found'
      have read := unseen.medium media
      simp only [Engine.stepPoll, found, found', here, there]
      refine .inr ⟨rfl, h, census, ?_⟩
      cases item with
      | none =>
        have ended := read.setStreams false (Engine.stream?_dropStream _ stream)
          (Engine.stream?_dropStream _ stream) rfl (by rintro _ ⟨⟩)
        rw [Cast.withStream_same shown] at ended
        exact ended
      | some item =>
        have on := read.setStreams false
          (Engine.stream?_setStream _ stream { st with feed := left })
          (Engine.stream?_setStream _ stream ⟨k, st.liveness, left⟩)
          ⟨rfl, k, q, j, counted, number, lasting, rfl⟩ (by
            rintro _ ⟨⟩
            exact unseen.numbered.streams stream st found)
        rw [Cast.withStream_same shown] at on
        exact on

/-! ### Events for all -/

theorem cancel (flag : String) :
    Parallel law cast (.cancel flag) (.accepted, { g with cancelled := flag :: g.cancelled })
      (.accepted, { g' with cancelled := flag :: g'.cancelled }) := by
  refine .inr ⟨rfl, h, census, ?_⟩
  rw [unseen.cancelled, ← unseen.closed]
  exact unseen.heed g'.closed (flag :: g.cancelled)

theorem stats : Parallel law cast .stats (.stats (Engine.stats g).1, (Engine.stats g).2)
    (.stats (Engine.stats g').1, (Engine.stats g').2) := by
  obtain ⟨counts, given, version⟩ := law.stats unseen.media.full
  obtain ⟨counts', given', version'⟩ := law.stats unseen.media.erased
  have media := unseen.media.still (law.stats_still unseen.media.full)
    (law.stats_still unseen.media.erased)
  have here : g.backend.stats g.medium = b.stats g.medium := by rw [unseen.backend]
  have there : g'.backend.stats g'.medium = b.stats g'.medium := by rw [unseen.backend']
  rw [Engine.stats, Engine.stats, Engine.onMedium_eq, Engine.onMedium_eq, here, there, given,
    given']
  refine .inr ⟨?_, h, census, unseen.medium media⟩
  simp only [Answer.told, version, version']

theorem close (reason : String) :
    Parallel law cast (.close reason) (.closed (Engine.close reason g).1, (Engine.close reason g).2)
      (.closed (Engine.close reason g').1, (Engine.close reason g').2) := by
  rw [Engine.close, Engine.close, unseen.closed]
  cases g.closed with
  | some earlier => exact .inr ⟨rfl, h, census, unseen⟩
  | none =>
    obtain ⟨given, still⟩ := law.close unseen.media.full
    obtain ⟨given', still'⟩ := law.close unseen.media.erased
    have here : g.backend.close g.medium = b.close g.medium := by rw [unseen.backend]
    have there : g'.backend.close g'.medium = b.close g'.medium := by rw [unseen.backend']
    simp only [Engine.onMedium_eq, here, there, given, given']
    refine .inr ⟨rfl, h, census, ?_⟩
    rw [unseen.cancelled]
    exact (unseen.medium (unseen.media.still still still')).heed (some reason) g.cancelled

theorem step (clock : Clock) {e : Event} (allowed : cast.allows g false e = true)
    (kept : g.Seated law) : Parallel law cast e (g.step clock e) (g'.step clock e) := by
  cases e with
  | transact name l => exact unseen.stepTransact name clock l
  | snapshot name l => exact unseen.stepSnapshot name clock l
  | get name key => exact unseen.get (beq_iff_eq.1 allowed) clock key
  | getMany name keys => exact unseen.getMany (beq_iff_eq.1 allowed) clock keys
  | stage name write => exact unseen.stage (beq_iff_eq.1 allowed) clock write
  | query name c => exact unseen.query (beq_iff_eq.1 allowed) clock c
  | scan name c limit => exact unseen.scan (beq_iff_eq.1 allowed) clock c limit
  | openStream name c stream =>
    have shown : cast.sessions name = false := by
      rw [Cast.allows, Bool.and_eq_true, beq_iff_eq] at allowed
      exact allowed.1
    exact unseen.stepOpen shown clock c stream
  | poll stream => exact unseen.stepPoll (beq_iff_eq.1 allowed)
  | succeed name => exact unseen.stepSucceed (beq_iff_eq.1 allowed) kept clock
  | fail name cause => exact unseen.stepFail (beq_iff_eq.1 allowed) clock cause
  | drop name => exact unseen.stepDrop (beq_iff_eq.1 allowed)
  | cancel flag => exact unseen.cancel flag
  | run l writes =>
    have ends := unseen.transactAlone clock l writes g.config.maxRetries 0
    rw [Engine.step, Engine.step, unseen.config]
    revert ends
    rcases Engine.transactAlone clock l writes g.config.maxRetries 0 g with ⟨r, g₁⟩
    rcases Engine.transactAlone clock l writes g.config.maxRetries 0 g' with ⟨r', g₁'⟩
    rintro (⟨finite, full⟩ | ⟨same, level⟩)
    · cases full
      exact .inl ⟨finite, rfl⟩
    · cases same
      cases r with
      | ok => exact .inr ⟨rfl, level⟩
      | error e => exact .inr ⟨rfl, level⟩
  | read c =>
    have ends := unseen.readAlone clock c
    rw [Engine.step, Engine.step]
    revert ends
    rcases Engine.readAlone clock c g with ⟨r, g₁⟩
    rcases Engine.readAlone clock c g' with ⟨r', g₁'⟩
    rintro (⟨finite, full⟩ | ⟨same, level⟩)
    · cases full
      exact .inl ⟨finite, rfl⟩
    · cases same
      cases r with
      | ok rows => exact .inr ⟨rfl, level⟩
      | error e => exact .inr ⟨rfl, level⟩
  | stats => exact unseen.stats
  | close reason => exact unseen.close reason

end Unseen
end OptimisticStore
