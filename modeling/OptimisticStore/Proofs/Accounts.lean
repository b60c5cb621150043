import OptimisticStore.Proofs.Numbering
import OptimisticStore.Proofs.Resilience
import OptimisticStore.Proofs.Stepping

/-! The chronicle accounts for the engine, whatever fails. The store has exactly the commits that
the chronicle tells, and every session has staged what its story tells. A stream draws on what the
story of its session knows: the rows of its version, and the writes that it had staged by then. -/

namespace OptimisticStore

/-- A row that the session can have been given: staged by its calls so far or by the first of
them, or of its version. -/
def Story.Knows (story : Story) (h : History) (row : Bytes × Bytes) : Prop :=
  (∃ calls, calls <+: story.calls ∧ (stagedBy calls).get? row.1 = some (some row.2)) ∨
    (h.state story.readVersion).get? row.1 = some row.2

theorem stagedBy_snoc (calls : List Call) (call : Call) :
    stagedBy (calls ++ [call]) = stagedOver (stagedBy calls) [call] := List.foldl_append

def Call.Quiet (call : Call) : Prop := ∀ w, stagedOver w [call] = w

namespace Story
variable {story story' : Story} {h : History} {row : Bytes × Bytes}

theorem Knows.append (knows : story.Knows h row) (bound : story.readVersion ≤ h.length)
    (t : History) : story.Knows (h ++ t) row := by
  refine knows.imp_right fun found => ?_
  rwa [History.state_append t bound]

theorem Knows.later (knows : story.Knows h row) (version : story'.readVersion = story.readVersion)
    (calls : story.calls <+: story'.calls) : story'.Knows h row := by
  rcases knows with ⟨first, sooner, found⟩ | found
  · exact .inl ⟨first, sooner.trans calls, found⟩
  · rw [← version] at found
    exact .inr found

theorem knows_of_staged (found : story.staged.get? row.1 = some (some row.2)) :
    story.Knows h row := .inl ⟨story.calls, List.prefix_rfl, found⟩

theorem staged_note {call : Call} (quiet : call.Quiet) : (story.note call).staged = story.staged :=
  (stagedBy_snoc story.calls call).trans (quiet _)

end Story

variable {μ σ κ : Type} {b : Backend μ σ κ} (law : Resilience b)

def Story.Feeds (story : Story) (h : History) (feed : Feed κ) : Prop :=
  feed.Draws (fun k => ∃ n, law.reads h story.readVersion n k) (story.Knows h)

structure Told (h : History) (s : Session σ) (story : Story) : Prop where
  sees : law.sees h story.readVersion s.attempt.snapshot
  bound : story.readVersion ≤ h.length
  staged : story.staged = s.writes

def AccountsFor (c : Chronicle) (g : Engine μ σ κ) (name : String) : Prop :=
  match g.session? name with
  | some s => ∃ story, c.running name = some story ∧ Told law c.history s story ∧
      ∀ stream st, g.stream? stream = some st → st.serial = s.attempt.serial →
        c.owner stream = some name ∧ story.Feeds law c.history st.feed
  | none => c.running name = none

structure Accounts (c : Chronicle) (g : Engine μ σ κ) : Prop where
  backend : g.backend = b
  holds : law.holds c.history g.medium
  numbered : g.Numbered
  sessions : ∀ name, AccountsFor law c g name

variable {law} {c c' : Chronicle} {g g' : Engine μ σ κ} {name : String} {s s' : Session σ}
  {story story' : Story}

theorem Story.Feeds.append {h : History} {feed : Feed κ} (feeds : story.Feeds law h feed)
    (bound : story.readVersion ≤ h.length) (t : History) : story.Feeds law (h ++ t) feed :=
  Feed.Draws.mono (fun _ ⟨n, reads⟩ => ⟨n, law.reads_append t bound reads⟩)
    (fun _ knows => knows.append bound t) feeds

theorem Story.Feeds.later {h : History} {feed : Feed κ} (feeds : story.Feeds law h feed)
    (version : story'.readVersion = story.readVersion) (calls : story.calls <+: story'.calls) :
    story'.Feeds law h feed :=
  Feed.Draws.mono (fun _ reads => version ▸ reads) (fun _ knows => knows.later version calls) feeds

theorem AccountsFor.of_session (accounts : AccountsFor law c g name)
    (found : g.session? name = some s) :
    ∃ story, c.running name = some story ∧ Told law c.history s story ∧
      ∀ stream st, g.stream? stream = some st → st.serial = s.attempt.serial →
        c.owner stream = some name ∧ story.Feeds law c.history st.feed := by
  rw [AccountsFor, found] at accounts
  exact accounts

theorem AccountsFor.of_absent (accounts : AccountsFor law c g name)
    (absent : g.session? name = none) : c.running name = none := by
  rw [AccountsFor, absent] at accounts
  exact accounts

theorem AccountsFor.elsewhere (accounts : AccountsFor law c g name) {t : History}
    (grown : c'.history = c.history ++ t) (session : g'.session? name = g.session? name)
    (running : c'.running name = c.running name)
    (same : ∀ s stream st, g.session? name = some s → g'.stream? stream = some st →
      st.serial = s.attempt.serial →
      g.stream? stream = some st ∧ c'.owner stream = c.owner stream) :
    AccountsFor law c' g' name := by
  rw [AccountsFor, session]
  cases found : g.session? name with
  | none =>
    dsimp only
    rw [running]
    exact accounts.of_absent found
  | some s =>
    obtain ⟨story, told, ⟨sees, bound, staged⟩, streams⟩ := accounts.of_session found
    rw [grown]
    refine ⟨story, running.trans told, ⟨law.sees_append t bound sees, ?_, staged⟩, ?_⟩
    · rw [List.length_append]
      exact Nat.le_add_right_of_le bound
    · intro stream st standing serial
      obtain ⟨before, owner⟩ := same s stream st found standing serial
      obtain ⟨mine, feeds⟩ := streams stream st before serial
      exact ⟨owner.trans mine, feeds.append bound t⟩

namespace Accounts

theorem aside (accounts : Accounts law c g) (backend : g'.backend = g.backend)
    (holds : law.holds c'.history g'.medium) (sessions : g'.sessions = g.sessions)
    (streams : g'.streams = g.streams) (attempts : g.attempts ≤ g'.attempts)
    (running : c'.running = c.running) (owner : c'.owner = c.owner) {t : History}
    (grown : c'.history = c.history ++ t) : Accounts law c' g' where
  backend := backend.trans accounts.backend
  holds := holds
  numbered := accounts.numbered.same sessions streams attempts
  sessions name := by
    refine (accounts.sessions name).elsewhere grown ?_ (congrFun running name) ?_
    · rw [Engine.session?, Engine.session?, sessions]
    · intro s stream st _ standing _
      rw [Engine.stream?, streams] at standing
      exact ⟨standing, congrFun owner stream⟩

theorem medium (accounts : Accounts law c g) {m : μ} (holds : law.holds c.history m) :
    Accounts law c { g with medium := m } :=
  accounts.aside rfl holds rfl rfl (Nat.le_refl _) rfl rfl (List.append_nil _).symm

theorem tell (accounts : Accounts law c g) (writers : c'.writers = c.writers)
    (running : c'.running = c.running) (owner : c'.owner = c.owner) : Accounts law c' g := by
  have history : c'.history = c.history := congrArg (List.map Story.staged) writers
  exact accounts.aside rfl (history ▸ accounts.holds) rfl rfl (Nat.le_refl _) running owner
    (history.trans (List.append_nil _).symm)

theorem addOther (accounts : Accounts law c g) (story : Story) :
    Accounts law (c.addOther story) g := accounts.tell rfl rfl rfl

theorem addWriter (accounts : Accounts law c g) {story : Story} {m : μ}
    (holds : law.holds (c.history ++ [story.staged]) m) :
    Accounts law (c.addWriter story) { g with medium := m } := by
  have grown : (c.addWriter story).history = c.history ++ [story.staged] := List.map_append
  exact accounts.aside rfl (grown ▸ holds) rfl rfl (Nat.le_refl _) rfl rfl grown

theorem endAttempt (accounts : Accounts law c g) (clock : Clock) (a : Attempt σ) :
    Accounts law c (Engine.endAttempt clock a g) := by
  refine accounts.medium (m := (g.backend.finish clock.wall a.registration g.medium).2) ?_
  rw [accounts.backend]
  exact law.finish clock.wall a.registration accounts.holds

theorem abandon (accounts : Accounts law c g) (r : Registration) :
    Accounts law c { g with medium := g.backend.abandon r g.medium } := by
  refine accounts.medium ?_
  rw [accounts.backend]
  exact law.abandon r accounts.holds

/-! ### Sessions end and go on -/

theorem forget (accounts : Accounts law c g) (name : String) :
    Accounts law (c.forget name) (g.dropSession name) where
  backend := accounts.backend
  holds := accounts.holds
  numbered := accounts.numbered.dropSession name
  sessions other := by
    have lookup := g.session?_dropSession_eq name other
    by_cases same : other = name
    · rw [if_pos same] at lookup
      rw [AccountsFor, lookup, same]
      exact c.running.set_same name none
    · rw [if_neg same] at lookup
      refine (accounts.sessions other).elsewhere (List.append_nil _).symm lookup
        (c.running.set_other same none) fun s stream st found standing serial => ⟨standing, ?_⟩
      obtain ⟨_, _, _, streams⟩ := (accounts.sessions other).of_session found
      have mine := (streams stream st standing serial).1
      change (c.owner stream).filter _ = _
      rw [mine]
      simp [same]

theorem leave (accounts : Accounts law c g) (name : String) :
    Accounts law (c.leave name) (g.dropSession name) := by
  have forgotten := accounts.forget name
  rw [Chronicle.leave]
  cases told : c.running name with
  | some story => exact forgotten.addOther story
  | none =>
    have gone : c.running = (c.forget name).running := by
      funext other
      by_cases same : other = name
      · rw [same, told]
        exact (c.running.set_same name none).symm
      · exact (c.running.set_other same none).symm
    refine ⟨accounts.backend, accounts.holds, forgotten.numbered, fun other => ?_⟩
    by_cases same : other = name
    · rw [AccountsFor, g.session?_dropSession_eq, if_pos same, same]
      exact told
    · refine (accounts.sessions other).elsewhere (List.append_nil _).symm ?_ rfl
        fun _ _ _ _ standing _ => ⟨standing, rfl⟩
      rw [g.session?_dropSession_eq, if_neg same]

theorem goOn (accounts : Accounts law c g) (found : g.session? name = some s)
    (told : c.running name = some story) (engine : g' = g ∧ s' = s ∨ g' = g.setSession name s')
    (attempt : s'.attempt = s.attempt) (version : story'.readVersion = story.readVersion)
    (calls : story.calls <+: story'.calls) (staged : story'.staged = s'.writes) :
    Accounts law (c.setRunning name story') g' := by
  have session (other : String) :
      g'.session? other = if other = name then some s' else g.session? other := by
    rcases engine with ⟨rfl, rfl⟩ | rfl
    · split
      · next same => rw [same, found]
      · rfl
    · exact g.session?_setSession name other s'
  have numbered : g'.Numbered := by
    rcases engine with ⟨rfl, rfl⟩ | rfl
    · exact accounts.numbered
    · exact accounts.numbered.goOn found (congrArg Attempt.serial attempt)
  have others : g'.backend = g.backend ∧ g'.medium = g.medium ∧ g'.stream? = g.stream? := by
    rcases engine with ⟨rfl, _⟩ | rfl <;> exact ⟨rfl, rfl, rfl⟩
  obtain ⟨backend, medium, streams⟩ := others
  refine ⟨backend.trans accounts.backend, medium ▸ accounts.holds, numbered, fun other => ?_⟩
  by_cases same : other = name
  · obtain ⟨story₀, told₀, ⟨sees, bound, _⟩, drawn⟩ := (accounts.sessions name).of_session found
    cases told₀.symm.trans told
    rw [AccountsFor, session, if_pos same, same]
    refine ⟨story', c.running.set_same name _, ⟨?_, version ▸ bound, staged⟩, ?_⟩
    · rw [attempt, version]
      exact sees
    · intro stream st standing serial
      rw [streams] at standing
      rw [attempt] at serial
      obtain ⟨mine, feeds⟩ := drawn stream st standing serial
      exact ⟨mine, feeds.later version calls⟩
  · refine (accounts.sessions other).elsewhere (List.append_nil _).symm ?_
      (c.running.set_other same _) fun _ _ _ _ standing _ => ⟨streams ▸ standing, rfl⟩
    rw [session, if_neg same]

theorem resume (accounts : Accounts law c g) (found : g.session? name = some s)
    (attempt : s'.attempt = s.attempt) (writes : s'.writes = s.writes) :
    Accounts law c (g.setSession name s') := by
  obtain ⟨story, told, ⟨_, _, staged⟩, _⟩ := (accounts.sessions name).of_session found
  have same : c.setRunning name story = c := by
    have running : c.running.set name (some story) = c.running := by
      funext other
      by_cases same : other = name
      · rw [same, told]
        exact c.running.set_same name _
      · exact c.running.set_other same _
    rw [Chronicle.setRunning, running]
  have on := accounts.goOn found told (.inr rfl) attempt rfl List.prefix_rfl
    (staged.trans writes.symm)
  rwa [same] at on

theorem note (accounts : Accounts law c g) (name : String) {call : Call} (quiet : call.Quiet) :
    Accounts law (c.note name call) g := by
  rw [Chronicle.note]
  cases told : c.running name with
  | none => exact accounts
  | some story =>
    cases found : g.session? name with
    | none =>
      rw [(accounts.sessions name).of_absent found] at told
      cases told
    | some s =>
      obtain ⟨story₀, told₀, ⟨_, _, staged⟩, _⟩ := (accounts.sessions name).of_session found
      cases told₀.symm.trans told
      exact accounts.goOn found told (.inl ⟨rfl, rfl⟩) rfl rfl (List.prefix_append _ _)
        ((Story.staged_note quiet).trans staged)

/-! ### Streams -/

theorem restream (accounts : Accounts law c g) {stream : String} {left : Option (Stream κ)}
    (backend : g'.backend = g.backend) (holds : law.holds c.history g'.medium)
    (sessions : g'.sessions = g.sessions) (attempts : g'.attempts = g.attempts)
    (streams : g'.stream? = g.stream?.set stream left) {owner : Option String}
    (here : ∀ st, left = some st → st.serial < g.attempts ∧
      ∀ name s, g.session? name = some s → st.serial = s.attempt.serial →
        owner = some name ∧ ∀ story, c.running name = some story →
          story.Feeds law c.history st.feed) :
    Accounts law (c.own stream owner) g' where
  backend := backend.trans accounts.backend
  holds := holds
  numbered := accounts.numbered.setStreams sessions attempts streams fun st same => (here st same).1
  sessions name := by
    have session : g'.session? name = g.session? name := by
      rw [Engine.session?, Engine.session?, sessions]
    have standing := accounts.sessions name
    rw [AccountsFor, session]
    cases found : g.session? name with
    | none => exact standing.of_absent found
    | some s =>
      obtain ⟨story, told, so, drawn⟩ := standing.of_session found
      refine ⟨story, told, so, fun other st standing serial => ?_⟩
      change (c.owner.set stream owner) other = some name ∧ _
      rw [streams, Names.set] at standing
      rw [Names.set]
      split at standing
      · next same =>
        rw [if_pos same]
        obtain ⟨mine, feeds⟩ := (here st standing).2 name s found serial
        exact ⟨mine, feeds story told⟩
      · next apart =>
        rw [if_neg apart]
        exact drawn other st standing serial

theorem openStream (accounts : Accounts law c g) (found : g.session? name = some s)
    (stream : String) (l : Liveness String) {feed : Feed κ}
    (feeds : ∀ story, c.running name = some story → story.Feeds law c.history feed) :
    Accounts law (c.own stream name) (g.setStream stream ⟨s.attempt.serial, l, feed⟩) := by
  have streams := g.stream?_setStream stream ⟨s.attempt.serial, l, feed⟩
  refine accounts.restream ?_ ?_ ?_ ?_ streams ?_
  · rfl
  · exact accounts.holds
  · rfl
  · rfl
  · rintro _ ⟨⟩
    refine ⟨accounts.numbered.sessions name s found, fun other s' found' serial => ?_⟩
    obtain rfl := accounts.numbered.apart name other s s' found found' serial
    exact ⟨rfl, feeds⟩

end Accounts
end OptimisticStore
