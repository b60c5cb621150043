import OptimisticStore.Proofs.Unseen

/-! The sessions that are left out. Whatever one of them does, short of committing a write, the
second engine stays as it is and matches the first one as before. -/

namespace OptimisticStore

theorem Feed.gives_take {μ σ κ : Type} {b : Backend μ σ κ} {kept : μ → Prop}
    (steady : ∀ gate c m, kept m → kept (b.poll gate c m).2.2) (gate : Option Error) (limit : Nat)
    (feed : Feed κ) : Access.Gives kept (feed.take b gate limit) fun _ => True := by
  induction limit generalizing feed with
  | zero => exact Access.gives_pure fun _ _ => trivial
  | succ limit ih =>
    intro m keeps
    have keeps' := poll_keeps steady gate feed keeps
    rcases polled : feed.poll b gate m with ⟨_ | e | row, feed', m'⟩ <;> rw [polled] at keeps' <;>
      simp only [take, polled]
    · exact ⟨keeps', fun _ _ => trivial⟩
    · exact ⟨keeps', by rintro _ ⟨⟩⟩
    · exact ((ih feed').bind fun _ _ => Access.gives_pure fun _ _ => trivial) m' keeps'

theorem Feed.gives_rows {μ σ κ : Type} {b : Backend μ σ κ} {kept : μ → Prop}
    (steady : ∀ gate c m, kept m → kept (b.poll gate c m).2.2) (gate : Option Error)
    (feed : Feed κ) : Access.Gives kept (feed.rows b gate) fun _ => True := fun m keeps =>
  feed.gives_take steady gate (feed.itemBound b m + 1) m keeps

variable {μ σ κ τ α : Type} {b : Backend μ σ κ} {law : Discretion b τ} {h : History}
  {census : List Registration} {cast : Cast} {g g' : Engine μ σ κ} {name stream : String}
  {a : Attempt σ} {t : Transaction σ} {place : Option Nat}

def Transaction.Stays (kept : μ → Prop) (t : Transaction σ) (x : Access (Transaction σ × μ) α) :
    Prop :=
  ∀ m, kept m → kept (x (t, m)).2.2 ∧ (x (t, m)).2.1.toAttempt = t.toAttempt

namespace Transaction
variable {kept : μ → Prop}

theorem Reads.stays {x : Access (Transaction σ × μ) α} {told : α → Transaction σ → Prop}
    (reads : Reads kept t x told) : t.Stays kept x := fun m keeps =>
  ⟨(reads m keeps).1, (reads m keeps).2.1.attempt⟩

theorem stays_stage (now : Moment) (write : Bytes × Option Bytes) :
    t.Stays kept (stage now write) := by
  intro m keeps
  rw [stage, Access.bind_apply]
  cases now.shut with
  | some e => exact ⟨keeps, rfl⟩
  | none => exact ⟨keeps, rfl⟩

theorem Stays.bind {β : Type} {x : Access (Transaction σ × μ) α}
    {f : α → Access (Transaction σ × μ) β} (first : t.Stays kept x)
    (rest : ∀ a (t' : Transaction σ), t'.Stays kept (f a)) : t.Stays kept (x >>= f) := by
  intro m keeps
  obtain ⟨keeps', same⟩ := first m keeps
  rw [Access.bind_apply]
  rcases ran : x (t, m) with ⟨e | a, t', m'⟩ <;> rw [ran] at keeps' same
  · exact ⟨keeps', same⟩
  · obtain ⟨keeps'', same'⟩ := rest a t' m' keeps'
    exact ⟨keeps'', same'.trans same⟩

theorem stays_stageAndCount (now : Moment) (write : Bytes × Option Bytes) :
    t.Stays kept (Engine.stageAndCount now write) :=
  (stays_stage now write).bind fun _ _ _ keeps => ⟨keeps, rfl⟩

theorem stays_stageAll (now : Moment) (writes : List (Bytes × Option Bytes)) :
    t.Stays kept (Engine.stageAll now writes) := by
  induction writes generalizing t with
  | nil => exact fun _ keeps => ⟨keeps, rfl⟩
  | cons write writes ih => exact (stays_stage now write).bind fun _ _ => ih

theorem attempt_stageAll {now : Moment} {writes : List (Bytes × Option Bytes)} {m m' : μ}
    {r : Except Error Unit} {t' : Transaction σ}
    (staged : Engine.stageAll now writes (t, m) = (r, t', m')) : t'.toAttempt = t.toAttempt := by
  have stays : t.Stays (fun _ : μ => True) (Engine.stageAll now writes) := stays_stageAll now writes
  have attempt := (stays m trivial).2
  rwa [staged] at attempt

end Transaction

namespace Unseen
variable (unseen : Unseen law h census cast g g')
include unseen

/-! ### Attempts -/

theorem beginAside (clock : Clock) (l : Liveness String) :
    (∃ e g₁, Engine.beginAttempt clock l g = (.error e, g₁) ∧ Unseen law h census cast g₁ g') ∨
    ∃ a g₁, Engine.beginAttempt clock l g = (.ok a, g₁) ∧ Unseen law h census cast g₁ g' ∧
      Loose law h census g₁ a none ∧ (law.seat a.registration g₁.medium).isSome = true := by
  cases isOpen : (g.closed.map Error.closed).or (g.flagError l) with
  | some e =>
    rw [g.beginAttempt_eq, isOpen]
    exact .inl ⟨e, g, rfl, unseen⟩
  | none =>
    by_cases room : law.room g.attempts
    · obtain ⟨registered, _, seats⟩ := law.begin clock.wall unseen.media.full room
      have media : law.Matches h _ g.Live _ _ _ :=
        (unseen.media.beginAside clock.wall room).mono fun _ => .inl
      have begun := unseen.advance media (List.append_nil h).symm (List.append_nil census).symm
        nofun (Nat.le_succ _)
      rw [← unseen.attempts'] at begun
      rw [Engine.beginAttempt_ok isOpen unseen.backend registered]
      refine .inr ⟨_, _, rfl, begun, ⟨⟨rfl, Nat.le_refl _, law.sees_first h⟩, ?_,
        Nat.lt_succ_self _, ?_⟩, ?_⟩
      · intro q mem
        exact Nat.ne_of_lt (Nat.lt_succ_of_le (unseen.media.issued q mem).number)
      · intro name s found
        exact Nat.ne_of_lt (unseen.numbered.sessions name s found)
      · dsimp only
        rw [seats, if_pos rfl]
        rfl
    · obtain ⟨refused, still⟩ := law.begin_full clock.wall unseen.media.full room
      rw [Engine.beginAttempt_error isOpen unseen.backend refused]
      exact .inl ⟨_, _, rfl, unseen.mediumAside (unseen.media.stillAside still)⟩

/-- A commit that is refused, or has nothing to write, is nobody else's business. -/
theorem concludeAside (loose : Loose law h census g t.toAttempt none)
    (silent : ∀ v, (Engine.commit t g).1 = .ok v → t.writes.isEmpty = true) (clock : Clock) :
    Unseen law h census cast (Engine.conclude clock t g).2 g' := by
  have ended {g : Engine μ σ κ} (unseen : Unseen law h census cast g g')
      (loose : Loose law h census g t.toAttempt none) :
      Unseen law h census cast (Engine.endAttempt clock t.toAttempt g) g' :=
    unseen.endAttempt loose clock
  rw [Engine.conclude]
  rw [Engine.commit_eq] at silent ⊢
  cases gate : (g.closed.map Error.closed).or (g.flagError t.liveness) with
  | some e => exact ended unseen loose
  | none =>
    rw [gate] at silent
    cases idle : t.writes.isEmpty with
    | true => exact ended unseen loose
    | false =>
      have here : g.backend.commit t.registration t.reads t.writes g.medium =
          b.commit t.registration t.reads t.writes g.medium := by rw [unseen.backend]
      simp only [idle, Bool.false_eq_true, if_false, Engine.onMedium_eq, here] at silent ⊢
      cases answered : (b.commit t.registration t.reads t.writes g.medium).1 with
      | ok v => cases silent v answered
      | error e =>
        exact ended (unseen.mediumAside (unseen.media.commitAside answered))
          (loose.grown (List.append_nil h).symm)

/-! ### Sessions -/

section Sessions
variable (hidden : cast.sessions name = true)
include hidden

theorem absent_hidden : g'.session? name = none := by
  cases found : g.session? name with
  | none => exact unseen.absent found
  | some s =>
    obtain ⟨place, _, seen, twin⟩ := unseen.twin found
    cases place with
    | none => exact twin
    | some k => cases hidden.symm.trans seen

theorem dropAside : Unseen law h census cast (g.dropSession name) g' := by
  have dropped := unseen.dropSession name
  rwa [Engine.dropSession_of_absent (unseen.absent_hidden hidden)] at dropped

theorem loose_hidden {s : Session σ} (found : g.session? name = some s) :
    Loose law h census (g.dropSession name) s.attempt none := by
  obtain ⟨place, loose, seen, _⟩ := unseen.loose found
  cases place with
  | none => exact loose
  | some k => cases hidden.symm.trans seen

theorem goOnAside {s s' : Session σ} (found : g.session? name = some s)
    (same : s'.attempt = s.attempt) : Unseen law h census cast (g.setSession name s') g' := by
  obtain ⟨place, placed, seen, _⟩ := unseen.twin found
  cases place with
  | none =>
    have on := unseen.goOn found placed same
    rw [Option.isNone_none, Option.elim_none, Cast.withSession_same hidden,
      Engine.dropSession_of_absent (unseen.absent_hidden hidden)] at on
    exact on
  | some k => cases hidden.symm.trans seen

theorem settleAside {s : Session σ} (loose : Loose law h census g s.attempt none)
    (seated : (law.seat s.attempt.registration g.medium).isSome = true) :
    Unseen law h census cast (g.setSession name s) g' := by
  have on := unseen.setSession name loose.registered loose.placed loose.given
    (fun other s' _ => loose.alone other s') fun _ => seated
  rw [Option.isNone_none, Option.elim_none, Cast.withSession_same hidden,
    Engine.dropSession_of_absent (unseen.absent_hidden hidden)] at on
  exact on

theorem succeedAside (clock : Clock)
    (silent : g.commits (.succeed name) (g.stepSucceed clock name).1 = false) :
    Unseen law h census cast (g.stepSucceed clock name).2 g' := by
  cases found : g.session? name with
  | none =>
    simp only [Engine.stepSucceed, found]
    exact unseen
  | some s =>
    have dropped := unseen.dropAside hidden
    have loose := unseen.loose_hidden hidden found
    cases s with
    | view a =>
      simp only [Engine.stepSucceed, found]
      exact dropped.endAttempt loose clock
    | transaction t =>
      have idle (v : Version) (committed : (Engine.commit t (g.dropSession name)).1 = .ok v) :
          t.writes.isEmpty = true := by
        have concluded : (Engine.conclude clock t (g.dropSession name)).1 = .ok v := committed
        rcases ran : Engine.conclude clock t (g.dropSession name) with ⟨r, g₁⟩
        rw [ran] at concluded
        cases concluded
        simp only [Engine.stepSucceed, found, Engine.succeed, ran, Engine.commits] at silent
        rwa [Bool.not_eq_false'] at silent
      have concluded := dropped.concludeAside loose idle clock
      simp only [Engine.stepSucceed, found, Engine.succeed]
      revert concluded
      rcases Engine.conclude clock t (g.dropSession name) with ⟨r, g₁⟩
      intro concluded
      cases r with
      | ok v => exact concluded
      | error e =>
        dsimp only
        cases g₁.mayRetry t e with
        | false => exact concluded
        | true =>
          simp only [if_true, Access.bind_apply, Engine.beginTransaction_eq]
          rcases concluded.beginAside clock t.liveness with
            ⟨e', g₂, ran, begun⟩ | ⟨a, g₂, ran, begun, loose₂, seated⟩
          · rw [ran]
            exact begun
          · rw [ran]
            exact begun.settleAside (s := .transaction
              { toAttempt := a, retries := t.retries + 1, lastHeartbeat := clock.steady }) hidden
              loose₂ seated

theorem failAside (clock : Clock) (cause : BodyError) :
    Unseen law h census cast (g.stepFail clock name cause).2 g' := by
  cases found : g.session? name with
  | none =>
    simp only [Engine.stepFail, found]
    exact unseen
  | some s =>
    simp only [Engine.stepFail, found]
    exact (unseen.dropAside hidden).endAttempt (unseen.loose_hidden hidden found) clock

theorem leaveAside : Unseen law h census cast (g.stepDrop name).2 g' := by
  cases found : g.session? name with
  | none =>
    simp only [Engine.stepDrop, found]
    exact unseen
  | some s =>
    simp only [Engine.stepDrop, found]
    exact (unseen.dropAside hidden).abandon (unseen.loose_hidden hidden found)

end Sessions

theorem absent_of_allowed (allowed : (cast.sessions name || (g.session? name).isNone) = true) :
    g'.session? name = none := by
  rcases Bool.or_eq_true_iff.1 allowed with hidden | free
  · exact unseen.absent_hidden hidden
  · exact unseen.absent (Option.isNone_iff_eq_none.1 free)

theorem transactAside (allowed : (cast.sessions name || (g.session? name).isNone) = true)
    (clock : Clock) (l : Liveness String) :
    Unseen law h census (cast.observe true (.transact name l) (g.stepTransact clock name l).1)
      (g.stepTransact clock name l).2 g' := by
  rcases unseen.beginAside clock l with ⟨e, g₁, ran, begun⟩ | ⟨a, g₁, ran, begun, loose, seated⟩ <;>
    simp only [Engine.stepTransact, Engine.beginTransaction_eq, ran]
  · exact begun
  · exact begun.enter (s := .transaction { toAttempt := a, lastHeartbeat := clock.steady }) name
      loose seated fun _ => unseen.absent_of_allowed allowed

theorem snapshotAside (allowed : (cast.sessions name || (g.session? name).isNone) = true)
    (clock : Clock) (l : Liveness String) :
    Unseen law h census (cast.observe true (.snapshot name l) (g.stepSnapshot clock name l).1)
      (g.stepSnapshot clock name l).2 g' := by
  rcases unseen.beginAside clock l with ⟨e, g₁, ran, begun⟩ | ⟨a, g₁, ran, begun, loose, seated⟩ <;>
    simp only [Engine.stepSnapshot, ran]
  · exact begun
  · exact begun.enter (s := .view a) name loose seated fun _ => unseen.absent_of_allowed allowed

/-! ### Whole calls in one event -/

theorem runAside (clock : Clock) (l : Liveness String) (writes : List (Bytes × Option Bytes))
    (left retries : Nat)
    (silent : (Engine.transactAlone clock l writes left retries g).1 = .ok () →
      writes.isEmpty = true) :
    Unseen law h census cast (Engine.transactAlone clock l writes left retries g).2 g' := by
  induction left using Nat.strongRecOn generalizing g retries with
  | ind left ih =>
    unfold Engine.transactAlone at silent ⊢
    rw [Access.bind_apply, Engine.beginTransaction_eq] at silent ⊢
    rcases unseen.beginAside clock l with ⟨e, g₁, ran, begun⟩ | ⟨a, g₁, ran, begun, loose, _⟩
    · rw [ran]
      exact begun
    · rw [ran] at silent ⊢
      rcases staged : Engine.stageAll (g₁.moment clock l) writes
        ({ toAttempt := a, retries, lastHeartbeat := clock.steady }, g₁.medium)
        with ⟨e | _, t, m⟩ <;>
        simp only [Access.bind_apply, Access.medium, staged] at silent ⊢
      · exact begun.endAttempt loose clock
      · obtain rfl : t.toAttempt = a := Transaction.attempt_stageAll staged
        have written := Follows.writes_stageAll staged
        -- a call that is left out ends with success only if it has staged nothing
        have idle (v : Version) (committed : (Engine.commit t g₁).1 = .ok v) :
            t.writes.isEmpty = true := by
          have concluded : (Engine.conclude clock t g₁).1 = .ok v := committed
          simp only [Access.outcome] at silent
          rcases ran : Engine.conclude clock t g₁ with ⟨r, g₂⟩
          rw [ran] at concluded silent
          cases concluded
          rw [List.isEmpty_iff.1 (silent rfl)] at written
          rw [written]
          rfl
        have concluded := begun.concludeAside loose idle clock
        simp only [Access.outcome] at silent ⊢
        revert concluded silent
        rcases Engine.conclude clock t g₁ with ⟨r, g₂⟩
        intro silent concluded
        cases r with
        | ok v => exact concluded
        | error e =>
          cases left with
          | zero => exact concluded
          | succ left =>
            dsimp only at silent ⊢
            cases again : g₁.mayRetry t e with
            | false => exact concluded
            | true =>
              rw [again] at silent
              exact ih left (Nat.lt_succ_self left) concluded (retries + 1) silent

/-! ### Reads -/

omit unseen in
theorem steadyAside (gate : Option Error) (c : κ) (m : μ)
    (media : law.Matches h census g.Live g.attempts m g'.medium) :
    law.Matches h census g.Live g.attempts (b.poll gate c m).2.2 g'.medium :=
  (media.poll_aside gate c m g'.medium).1

omit unseen in
theorem viewQueryAside (a : Attempt σ) (now : Moment) (c : Condition) {m : μ}
    (media : law.Matches h census g.Live g.attempts m g'.medium) :
    law.Matches h census g.Live g.attempts (a.query b now c m).2 g'.medium := by
  rw [Attempt.query, Access.bind_apply]
  cases now.gate <;> exact media

omit unseen in
theorem viewRowsAside (a : Attempt σ) (now : Moment) (c : Condition) {m : μ}
    (media : law.Matches h census g.Live g.attempts m g'.medium) :
    law.Matches h census g.Live g.attempts (Engine.viewRows b now a c m).2 g'.medium := by
  have queried := viewQueryAside a now c media
  rw [Engine.viewRows, Access.bind_apply]
  rcases ran : a.query b now c m with ⟨e | feed, m₁⟩ <;> rw [ran] at queried
  · exact queried
  · exact (Feed.gives_rows steadyAside now.gate feed m₁ queried).1

section Reads
variable (loose : Loose law h census (g.dropSession name) a none)
include loose

omit unseen in
theorem beatsAside (now : Moment) (m : μ)
    (media : law.Matches h census g.Live g.attempts m g'.medium) :
    law.Matches h census g.Live g.attempts (b.heartbeat now.clock.wall a.registration m).2
      g'.medium :=
  media.heartbeatAside now.clock.wall (issued_loose (g := g.dropSession name) loose)
    fun mem => loose.placed _ mem rfl

omit unseen in
theorem getAside (key : Bytes) :
    Access.Gives (fun m => law.Matches h census g.Live g.attempts m g'.medium)
      (b.get a.snapshot key)
      fun value => value = (h.state a.registration.readVersion).get? key := by
  intro m media
  refine ⟨media.stillAside (law.get_still a.snapshot key media.full), fun value given => ?_⟩
  rw [law.get key media.full loose.registered.sees] at given
  cases given
  rfl

end Reads

section Steps
variable (hidden : cast.sessions name = true) (clock : Clock) {answer : Except Error α → Answer}
include hidden

theorem withinAside (found : g.session? name = some (.transaction t))
    {x : Backend μ σ κ → Moment → Access (Transaction σ × μ) α}
    (stays : ∀ now,
      t.Stays (fun m => law.Matches h census g.Live g.attempts m g'.medium) (x b now)) :
    Unseen law h census cast (g.within name clock t x).2 g' := by
  have here : x g.backend (g.moment clock t.liveness) = x b (g.moment clock t.liveness) := by
    rw [unseen.backend]
  obtain ⟨media, same⟩ := stays (g.moment clock t.liveness) g.medium unseen.media
  rw [Engine.within_eq, here]
  exact (unseen.mediumAside media).goOnAside hidden found same

theorem stepTransactionAside {x : Backend μ σ κ → Moment → Access (Transaction σ × μ) α}
    (stays : ∀ t : Transaction σ, Loose law h census (g.dropSession name) t.toAttempt none →
      ∀ now, t.Stays (fun m => law.Matches h census g.Live g.attempts m g'.medium) (x b now)) :
    Unseen law h census cast (g.stepTransaction clock name answer x).2 g' := by
  cases found : g.session? name with
  | none =>
    simp only [Engine.stepTransaction, found]
    exact unseen
  | some s =>
    cases s with
    | transaction t =>
      simp only [Engine.stepTransaction, found]
      exact unseen.withinAside hidden clock found
        (stays t (unseen.loose_hidden hidden found))
    | view a =>
      simp only [Engine.stepTransaction, found]
      exact unseen

theorem stepReadAside {inTransaction : Backend μ σ κ → Moment → Access (Transaction σ × μ) α}
    {inView : Backend μ σ κ → Moment → Attempt σ → Access μ α}
    (stays : ∀ t : Transaction σ, Loose law h census (g.dropSession name) t.toAttempt none → ∀ now,
      t.Stays (fun m => law.Matches h census g.Live g.attempts m g'.medium) (inTransaction b now))
    (keeps : ∀ a : Attempt σ, Loose law h census (g.dropSession name) a none → ∀ now m,
      law.Matches h census g.Live g.attempts m g'.medium →
        law.Matches h census g.Live g.attempts (inView b now a m).2 g'.medium) :
    Unseen law h census cast (g.stepRead clock name answer inTransaction inView).2 g' := by
  cases found : g.session? name with
  | none =>
    simp only [Engine.stepRead, found]
    exact unseen
  | some s =>
    have loose := unseen.loose_hidden hidden found
    cases s with
    | transaction t =>
      simp only [Engine.stepRead, found]
      exact unseen.withinAside hidden clock found (stays t loose)
    | view a =>
      have here : inView g.backend (g.moment clock a.liveness) a =
          inView b (g.moment clock a.liveness) a := by rw [unseen.backend]
      simp only [Engine.stepRead, found, here]
      exact unseen.mediumAside (keeps a loose _ _ unseen.media)

theorem hiddenGet (key : Bytes) :
    Unseen law h census cast (g.step clock (.get name key)).2 g' := by
  refine unseen.stepReadAside hidden clock (fun t loose now => ?_) fun a loose now m media => ?_
  · exact (Transaction.reads_get (beatsAside loose now) (getAside loose key)).stays
  · exact ((Access.gives_pass now.gate).bind fun _ _ => getAside loose key) m media |>.1

theorem hiddenGetMany (keys : List Bytes) :
    Unseen law h census cast (g.step clock (.getMany name keys)).2 g' :=
  unseen.stepTransactionAside hidden clock fun _ loose now =>
    (Transaction.reads_getMany (beatsAside loose now) (getAside loose)).stays

theorem hiddenQuery (c : Condition) :
    Unseen law h census cast (g.step clock (.query name c)).2 g' := by
  refine unseen.stepReadAside hidden clock (fun t loose now => ?_)
    fun a _ now _ media => viewRowsAside a now c media
  exact (Transaction.reads_queryRows (beatsAside loose now)
    (Feed.gives_rows steadyAside none _)).stays

theorem hiddenScan (c : Condition) (limit : Nat) :
    Unseen law h census cast (g.step clock (.scan name c limit)).2 g' := by
  refine unseen.stepReadAside hidden clock (fun t loose now => ?_) fun a loose now m media => ?_
  · exact (Transaction.reads_scan (beatsAside loose now)
      (Feed.gives_take steadyAside none limit _)).stays
  · have queried := viewQueryAside a now c media
    rw [Attempt.scan, Access.bind_apply]
    rcases ran : a.query b now c m with ⟨e | feed, m₁⟩ <;> rw [ran] at queried
    · exact queried
    · exact (Feed.gives_take steadyAside now.gate limit feed m₁ queried).1

theorem hiddenStage (write : Bytes × Option Bytes) :
    Unseen law h census cast (g.step clock (.stage name write)).2 g' :=
  unseen.stepTransactionAside hidden clock fun _ _ now =>
    Transaction.stays_stageAndCount now write

end Steps

/-! ### Streams -/

theorem absent_stream (hidden : cast.streams stream = true) : g'.stream? stream = none := by
  have twins := unseen.streams stream
  cases found : g.stream? stream with
  | none =>
    rw [found] at twins
    exact twins
  | some st =>
    cases found' : g'.stream? stream with
    | none => rfl
    | some st' =>
      rw [found, found', hidden] at twins
      cases twins.1

theorem setStreamsAside {left : Option (Stream κ)} {streams : List (String × Stream κ)}
    (here : { g with streams }.stream? = g.stream?.set stream left)
    (absent : g'.stream? stream = none) (given : ∀ st, left = some st → st.serial < g.attempts) :
    Unseen law h census (cast.withStream stream true) { g with streams } g' := by
  have there : { g' with streams := g'.streams }.stream? = g'.stream?.set stream none := by
    funext other
    rw [Names.set]
    split
    · next same => exact same ▸ absent
    · rfl
  exact unseen.setStreams true here there (by cases left <;> rfl) given

omit unseen in
theorem openedAside {one : Except Error (Feed κ) × Engine μ σ κ}
    (after : Unseen law h census cast one.2 g') (absent : g'.stream? stream = none)
    {s : Session σ} (given : s.attempt.serial < one.2.attempts) (c : Condition) :
    Unseen law h census
      (cast.observe true (.openStream name c stream) (Engine.opened s stream one).1)
      (Engine.opened s stream one).2 g' := by
  obtain ⟨r, g₁⟩ := one
  cases r with
  | error e => exact after
  | ok feed =>
    refine after.setStreamsAside (g₁.stream?_setStream stream _) absent ?_
    rintro _ ⟨⟩
    exact given

theorem openAside (hidden : cast.sessions name = true)
    (allowed : (cast.streams stream || (g.stream? stream).isNone) = true) (clock : Clock)
    (c : Condition) :
    Unseen law h census
      (cast.observe true (.openStream name c stream) (g.stepOpen clock name c stream).1)
      (g.stepOpen clock name c stream).2 g' := by
  have absent : g'.stream? stream = none := by
    rcases Bool.or_eq_true_iff.1 allowed with hidden | free
    · exact unseen.absent_stream hidden
    · have twins := unseen.streams stream
      rw [Option.isNone_iff_eq_none.1 free] at twins
      exact twins
  cases found : g.session? name with
  | none =>
    simp only [Engine.stepOpen, found]
    exact unseen
  | some s =>
    have loose := unseen.loose_hidden hidden found
    cases s with
    | transaction t =>
      rw [Engine.stepOpen_transaction clock c stream found]
      have after := unseen.withinAside (x := fun b now => Transaction.query b now c) hidden clock
        found fun now => (Transaction.reads_query (beatsAside loose now) c).stays
      exact after.openedAside absent loose.given c
    | view a =>
      have here : a.query g.backend (g.moment clock a.liveness) c =
          a.query b (g.moment clock a.liveness) c := by rw [unseen.backend]
      rw [Engine.stepOpen_view clock c stream found, here]
      have after : Unseen law h census cast
          (Engine.onMedium (a.query b (g.moment clock a.liveness) c) g).2 g' :=
        unseen.mediumAside (viewQueryAside a (g.moment clock a.liveness) c unseen.media)
      exact after.openedAside absent loose.given c

theorem pollAside (hidden : cast.streams stream = true) :
    Unseen law h census cast (g.stepPoll stream).2 g' := by
  cases found : g.stream? stream with
  | none =>
    have found : g.streams.lookup stream = none := found
    simp only [Engine.stepPoll, found]
    exact unseen
  | some st =>
    have media : law.Matches h census g.Live g.attempts
        (st.feed.poll g.backend (g.streamGate st) g.medium).2.2 g'.medium := by
      rw [unseen.backend]
      exact Feed.poll_keeps steadyAside (g.streamGate st) st.feed unseen.media
    have absent := unseen.absent_stream hidden
    have found₁ : g.streams.lookup stream = some st := found
    simp only [Engine.stepPoll, found₁]
    revert media
    rcases st.feed.poll g.backend (g.streamGate st) g.medium with ⟨item, left, m⟩
    intro media
    have read := unseen.mediumAside media
    cases item with
    | none =>
      have ended := read.setStreamsAside (Engine.stream?_dropStream _ stream) absent
        (by rintro _ ⟨⟩)
      rw [Cast.withStream_same hidden] at ended
      exact ended
    | some item =>
      have on := read.setStreamsAside (Engine.stream?_setStream _ stream { st with feed := left })
        absent (by
          rintro _ ⟨⟩
          exact unseen.numbered.streams stream st found)
      rw [Cast.withStream_same hidden] at on
      exact on

/-! ### Whole reads -/

theorem readAside (clock : Clock) (c : Except Error Condition) :
    Unseen law h census cast (Engine.readAlone clock c g).2 g' := by
  rcases unseen.beginAside clock .always with ⟨e, g₁, ran, begun⟩ | ⟨a, g₁, ran, begun, loose, _⟩
  · rw [Engine.readAlone, Access.bind_apply, ran]
    exact begun
  · cases c with
    | error e =>
      rw [Engine.readAlone, Access.bind_apply, ran]
      exact begun.endAttempt loose clock
    | ok c =>
      have media := viewRowsAside a (g₁.moment clock a.liveness) c begun.media
      have here : Engine.viewRows g₁.backend (g₁.moment clock a.liveness) a c =
          Engine.viewRows b (g₁.moment clock a.liveness) a c := by rw [begun.backend]
      rw [Engine.readAlone_ok ran, here]
      exact (begun.mediumAside media).endAttempt (loose.grown (List.append_nil h).symm) clock

theorem stepAside (clock : Clock) {e : Event} (allowed : cast.allows g true e = true)
    (silent : g.commits e (g.step clock e).1 = false) :
    Unseen law h census (cast.observe true e (g.step clock e).1) (g.step clock e).2 g' := by
  cases e with
  | transact name l => exact unseen.transactAside allowed clock l
  | snapshot name l => exact unseen.snapshotAside allowed clock l
  | get name key => exact unseen.hiddenGet (beq_iff_eq.1 allowed) clock key
  | getMany name keys => exact unseen.hiddenGetMany (beq_iff_eq.1 allowed) clock keys
  | stage name write => exact unseen.hiddenStage (beq_iff_eq.1 allowed) clock write
  | query name c => exact unseen.hiddenQuery (beq_iff_eq.1 allowed) clock c
  | scan name c limit => exact unseen.hiddenScan (beq_iff_eq.1 allowed) clock c limit
  | openStream name c stream =>
    rw [Cast.allows, Bool.and_eq_true, beq_iff_eq] at allowed
    exact unseen.openAside allowed.1 allowed.2 clock c
  | poll stream => exact unseen.pollAside (beq_iff_eq.1 allowed)
  | succeed name => exact unseen.succeedAside (beq_iff_eq.1 allowed) clock silent
  | fail name cause => exact unseen.failAside (beq_iff_eq.1 allowed) clock cause
  | drop name => exact unseen.leaveAside (beq_iff_eq.1 allowed)
  | cancel flag => cases allowed
  | run l writes =>
    have after := unseen.runAside clock l writes g.config.maxRetries 0
    rw [Engine.step] at silent ⊢
    revert after silent
    rcases Engine.transactAlone clock l writes g.config.maxRetries 0 g with ⟨r, g₁⟩
    intro silent after
    cases r with
    | ok =>
      refine after fun _ => ?_
      simpa [Engine.commits] using silent
    | error e => exact after nofun
  | read c =>
    have after := unseen.readAside clock c
    rw [Engine.step]
    revert after
    rcases Engine.readAlone clock c g with ⟨r, g₁⟩
    intro after
    cases r with
    | ok rows => exact after
    | error e => exact after
  | stats => cases allowed
  | close reason => cases allowed

end Unseen
end OptimisticStore
