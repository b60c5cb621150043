import OptimisticStore.Proofs.Following

/-! Streams under the chronicle. A stream that is opened owes what its condition selects; each
poll while its call may go on gives the next row of the replay, or the end where the replay has
none left. A poll that comes later gives no row, whoever the stream belongs to. -/

namespace OptimisticStore

namespace Engine
variable {μ σ κ : Type}

theorem stream?_setStream (g : Engine μ σ κ) (stream : String) (s : Stream κ) :
    (g.setStream stream s).stream? = g.stream?.set stream (some s) := by
  funext other
  exact lookup_set g.streams stream other s

theorem stream?_dropStream (g : Engine μ σ κ) (stream : String) :
    (g.dropStream stream).stream? = g.stream?.set stream none := by
  funext other
  exact lookup_drop g.streams stream other

structure Polled (g g' : Engine μ σ κ) (stream : String) (left : Option (Stream κ)) : Prop where
  backend : g'.backend = g.backend
  closed : g'.closed = g.closed
  cancelled : g'.cancelled = g.cancelled
  sessions : g'.sessions = g.sessions
  streams : g'.stream? = g.stream?.set stream left

theorem Polled.touches {g g' : Engine μ σ κ} {stream name : String} {left : Option (Stream κ)}
    {s : Session σ} (done : g.Polled g' stream left) (found : g.session? name = some s) :
    g.Touches g' name s where
  backend := done.backend
  closed := done.closed
  cancelled := done.cancelled
  session := by
    rw [session?, done.sessions]
    exact found
  others other _ := by
    rw [session?, session?, done.sessions]

theorem polled_stepPoll {g : Engine μ σ κ} {stream : String} {st : Stream κ} {item : Option Item}
    {feed : Feed κ} {m : μ} (found : g.stream? stream = some st)
    (polled : st.feed.poll g.backend (g.streamGate st) g.medium = (item, feed, m)) :
    (g.stepPoll stream).1 = .item item ∧ (g.stepPoll stream).2.medium = m ∧
      g.Polled (g.stepPoll stream).2 stream
        (if item.isNone then none else some { st with feed }) := by
  have found : g.streams.lookup stream = some st := found
  have stepped : g.stepPoll stream = (.item item, if item.isNone
      then ({ g with medium := m } : Engine μ σ κ).dropStream stream
      else ({ g with medium := m } : Engine μ σ κ).setStream stream { st with feed }) := by
    simp only [stepPoll, found, polled]
  rw [stepped]
  cases item with
  | none => exact ⟨rfl, rfl, rfl, rfl, rfl, rfl, stream?_dropStream _ stream⟩
  | some item => exact ⟨rfl, rfl, rfl, rfl, rfl, rfl, stream?_setStream _ stream _⟩

theorem isRunning_of_session {g : Engine μ σ κ} {name : String} {s : Session σ}
    (found : g.session? name = some s) : g.isRunning s.attempt.serial = true := by
  have mem := List.lookup_eq_some_iff.1 found
  obtain ⟨before, after, split, _⟩ := mem
  rw [isRunning, split]
  simp

end Engine

variable {μ σ κ : Type} {b : Backend μ σ κ} {law : Law b} {c : Chronicle} {g : Engine μ σ κ}
  {name : String} {s : Session σ}

theorem Streaming.update {h : History} {owner owner' : Names String}
    {streams streams' : Names (Stream κ)} {isOpen : Liveness String → Bool} {a : Attempt σ}
    {solo solo' : Solo} {stream : String}
    (streaming : Streaming law h owner streams isOpen name a solo)
    (others : ∀ other, other ≠ stream → owner' other = owner other ∧
      streams' other = streams other ∧ solo'.streams other = solo.streams other)
    (here : owner' stream = some name → ∃ rows s, solo'.streams stream = some rows ∧
      streams' stream = some s ∧ s.serial = a.serial ∧ s.liveness = a.liveness ∧
      (isOpen a.liveness = true → s.feed.Owes (law.owes h) rows)) :
    Streaming law h owner' streams' isOpen name a solo' := by
  intro other mine
  by_cases same : other = stream
  · rw [same] at mine ⊢
    exact here mine
  · obtain ⟨owned, kept, left⟩ := others other same
    rw [left, kept]
    exact streaming other (owned ▸ mine)

namespace Follows

theorem streamGate_eq (follows : Follows law c g) (found : g.session? name = some s)
    {st : Stream κ} (serial : st.serial = s.attempt.serial)
    (liveness : st.liveness = s.attempt.liveness) :
    g.streamGate st = none ↔ c.isOpen s.attempt.liveness = true := by
  rw [follows.isOpen_iff, Engine.streamGate, serial, liveness, Engine.isRunning_of_session found,
    if_pos rfl, Engine.flagError]
  cases g.closed <;> simp

theorem openStream (follows : Follows law c g) (found : g.session? name = some s)
    {condition : Condition} {stream : String} {feed : Feed κ}
    (covered : ∀ k, condition.contains k = true → s.covers k = true)
    (debt : ∀ v, law.sees c.history v s.attempt.snapshot →
      feed.Owes (law.owes c.history) (condition.select (s.writes.onto (c.history.state v)))) :
    Follows law ((c.note name (.openStream condition stream)).own stream name)
      (g.setStream stream ⟨s.attempt.serial, s.attempt.liveness, feed⟩) := by
  obtain ⟨story, told, tracks⟩ := (follows.sessions name).of_session found
  rw [Chronicle.note_eq told]
  have touches := c.touches_setRunning name (story.note (.openStream condition stream))
  refine follows.advance (touches.own stream name) ⟨rfl, rfl, rfl, found, fun _ _ => rfl⟩
    follows.holds ?_ ⟨_, c.running.set_same name _, ?_⟩
  · intro other st ne mine
    rw [Engine.stream?_setStream]
    by_cases same : st = stream
    · rw [same] at mine
      cases (c.owner.set_same stream (some name)).symm.trans mine
      exact absurd rfl ne
    · exact ⟨(c.owner.set_other same _).symm.trans mine, g.stream?.set_other same _⟩
  · rw [Engine.stream?_setStream]
    refine tracks.call rfl (fun _ covered => covered) (fun k inside => covered k ?_)
      fun solo writes streaming => ⟨_, rfl, writes, ?_⟩
    · simpa [Call.covers, Call.ranges, condition.contains_readRange] using inside
    · refine streaming.update (fun other ne =>
        ⟨c.owner.set_other ne _, g.stream?.set_other ne _, solo.streams.set_other ne _⟩) ?_
      intro _
      refine ⟨_, _, solo.streams.set_same stream _, g.stream?.set_same stream _, rfl, rfl, ?_⟩
      intro _
      rw [Solo.view, writes]
      exact debt _ tracks.sees

/-! ### Polls -/

theorem pollUnowned (follows : Follows law c g) {stream : String} {left : Option (Stream κ)}
    (done : g.Polled g' stream left) (holds : law.holds c.history g'.medium)
    (unowned : c.owner stream = none) : Follows law c g' where
  backend := done.backend.trans follows.backend
  holds := holds
  closed := done.closed ▸ follows.closed
  cancelled := done.cancelled ▸ follows.cancelled
  sessions name := by
    have session : g'.session? name = g.session? name := by
      rw [Engine.session?, Engine.session?, done.sessions]
    refine (follows.sessions name).elsewhere (List.append_nil _).symm session rfl ?_
      fun _ goes_on => goes_on
    intro other mine
    have apart : other ≠ stream := by
      rintro rfl
      rw [unowned] at mine
      cases mine
    rw [done.streams]
    exact ⟨mine, g.stream?.set_other apart left⟩
  writers := follows.writers
  others := follows.others

theorem pollOwned (follows : Follows law c g) (found : g.session? name = some s) {stream : String}
    {left : Option (Stream κ)} (done : g.Polled g' stream left)
    (holds : law.holds c.history g'.medium) (told : c.Touches c' name)
    (here : ∀ other, c'.owner stream = some other → other = name)
    (elsewhere : ∀ other, other ≠ stream → c'.owner other = c.owner other)
    (tracks : ∃ story', c'.running name = some story' ∧
      Tracks law c.history c'.owner (g.stream?.set stream left) c.isOpen name s story') :
    Follows law c' g' := by
  refine follows.advance told (done.touches found) holds ?_ (done.streams ▸ tracks)
  intro other st ne mine
  have apart : st ≠ stream := by
    rintro rfl
    exact ne (here other mine)
  rw [done.streams]
  exact ⟨(elsewhere st apart) ▸ mine, g.stream?.set_other apart left⟩

theorem pollShut (follows : Follows law c g) (found : g.session? name = some s) {stream : String}
    {st : Stream κ} {item : Option Item} {feed : Feed κ}
    (done : g.Polled g' stream (if item.isNone then none else some { st with feed }))
    (holds : law.holds c.history g'.medium) (owned : c.owner stream = some name)
    (standing : g.stream? stream = some st) (shut : c.isOpen s.attempt.liveness = false)
    (rowless : ∀ row, item ≠ some (.ok row)) : Follows law (c.polled stream item) g' := by
  obtain ⟨story, told, tracks⟩ := (follows.sessions name).of_session found
  cases item with
  | none =>
    have ended : c.polled stream none = c.own stream none := by
      simp only [Chronicle.polled, owned, told, Option.any_some, tracks.liveness, shut,
        Bool.false_eq_true, if_false]
    rw [ended]
    refine follows.pollOwned found done holds ((c.touches_refl name).own stream none) ?_
      (fun other apart => c.owner.set_other apart none) ⟨story, told, tracks.restream ?_⟩
    · intro other mine
      cases (c.owner.set_same stream none).symm.trans mine
    · intro solo streaming
      refine streaming.update (fun other apart =>
        ⟨c.owner.set_other apart none, g.stream?.set_other apart _, rfl⟩) fun mine => ?_
      cases (c.owner.set_same stream none).symm.trans mine
  | some item =>
    cases item with
    | ok row => exact absurd rfl (rowless row)
    | error e =>
      have same : c.polled stream (some (.error e)) = c := by
        simp only [Chronicle.polled, owned]
      rw [same]
      refine follows.pollOwned found done holds (c.touches_refl name) ?_ (fun _ _ => rfl)
        ⟨story, told, tracks.restream ?_⟩
      · intro other mine
        cases owned.symm.trans mine
        rfl
      · intro solo streaming
        obtain ⟨rows, st', left, standing', serial, liveness, _⟩ := streaming stream owned
        cases standing.symm.trans standing'
        refine streaming.update (fun other apart =>
          ⟨rfl, g.stream?.set_other apart _, rfl⟩) fun _ => ?_
        -- what it owes counts only while its calls may go on
        refine ⟨rows, _, left, g.stream?.set_same stream _, serial, liveness, fun goes_on => ?_⟩
        rw [shut] at goes_on
        cases goes_on

theorem pollOpen (follows : Follows law c g) (found : g.session? name = some s) {stream : String}
    {st : Stream κ} {row : Option (Bytes × Bytes)} {feed : Feed κ}
    (done : g.Polled g' stream (if row.isNone then none else some { st with feed }))
    (holds : law.holds c.history g'.medium) (owned : c.owner stream = some name)
    (standing : g.stream? stream = some st) (goes_on : c.isOpen s.attempt.liveness = true)
    (paid : ∀ solo, Streaming law c.history c.owner g.stream? c.isOpen name s.attempt solo →
      ∃ rows, solo.streams stream = some rows ∧ rows.head? = row ∧
        (rows ≠ [] → feed.Owes (law.owes c.history) rows.tail)) :
    Follows law (c.polled stream (row.map .ok)) g' := by
  obtain ⟨story, told, tracks⟩ := (follows.sessions name).of_session found
  have touches := c.touches_setRunning name (story.note (.poll stream row))
  cases row with
  | none =>
    have ended : c.polled stream none = (c.note name (.poll stream none)).own stream none := by
      simp only [Chronicle.polled, owned, told, Option.any_some, tracks.liveness, goes_on, if_true]
    rw [Option.map_none, ended, Chronicle.note_eq told]
    refine follows.pollOwned found done holds (touches.own stream none) ?_
      (fun other apart => c.owner.set_other apart none) ⟨_, c.running.set_same name _, ?_⟩
    · intro other mine
      cases (c.owner.set_same stream none).symm.trans mine
    · refine tracks.call rfl (fun _ covered => covered) nofun fun solo writes streaming => ?_
      obtain ⟨rows, left, first, _⟩ := paid solo streaming
      refine ⟨{ solo with streams := solo.streams.set stream rows.tail },
        first ▸ Solo.call_poll _ left, writes, ?_⟩
      refine streaming.update (fun other apart =>
        ⟨c.owner.set_other apart none, g.stream?.set_other apart _,
          solo.streams.set_other apart _⟩) fun mine => ?_
      cases (c.owner.set_same stream none).symm.trans mine
  | some row =>
    have noted : c.polled stream (some (.ok row)) = c.note name (.poll stream (some row)) := by
      simp only [Chronicle.polled, owned]
    rw [Option.map_some, noted, Chronicle.note_eq told]
    refine follows.pollOwned found done holds touches ?_ (fun _ _ => rfl)
      ⟨_, c.running.set_same name _, ?_⟩
    · intro other mine
      cases owned.symm.trans mine
      rfl
    · refine tracks.call rfl (fun _ covered => covered) nofun fun solo writes streaming => ?_
      obtain ⟨rows, left, first, debt⟩ := paid solo streaming
      have some_row : rows ≠ [] := by
        rintro rfl
        cases first
      refine ⟨{ solo with streams := solo.streams.set stream rows.tail },
        first ▸ Solo.call_poll _ left, writes, ?_⟩
      refine streaming.update (fun other apart =>
        ⟨rfl, g.stream?.set_other apart _, solo.streams.set_other apart _⟩) fun mine => ?_
      obtain ⟨_, st', _, standing', serial, liveness, _⟩ := streaming stream mine
      cases standing.symm.trans standing'
      exact ⟨rows.tail, _, solo.streams.set_same stream _, g.stream?.set_same stream _, serial,
        liveness, fun _ => debt some_row⟩

theorem pollSession {g g' : Engine μ σ κ} {law : Law g.backend} (follows : Follows law c g)
    (found : g.session? name = some s) {stream : String} {st : Stream κ} {item : Option Item}
    {feed : Feed κ} {m : μ}
    (polled : st.feed.poll g.backend (g.streamGate st) g.medium = (item, feed, m))
    (done : g.Polled g' stream (if item.isNone then none else some { st with feed }))
    (holds : law.holds c.history g'.medium) (owned : c.owner stream = some name)
    (standing : g.stream? stream = some st) : Follows law (c.polled stream item) g' := by
  obtain ⟨story, told, tracks⟩ := (follows.sessions name).of_session found
  obtain ⟨solo, _, _, streaming⟩ := tracks.solo
  obtain ⟨_, st', _, standing', serial, liveness, _⟩ := streaming stream owned
  cases standing.symm.trans standing'
  have gate := follows.streamGate_eq found serial liveness
  cases goes_on : c.isOpen s.attempt.liveness with
  | true =>
    have paid (solo : Solo)
        (streaming : Streaming law c.history c.owner g.stream? c.isOpen name s.attempt solo) :
        ∃ rows, solo.streams stream = some rows ∧ rows.head?.map .ok = item ∧
          (rows ≠ [] → feed.Owes (law.owes c.history) rows.tail) := by
      obtain ⟨rows, st', left, standing', _, _, debt⟩ := streaming stream owned
      cases standing.symm.trans standing'
      obtain ⟨feed', m', polled', _, debt'⟩ := Feed.poll_owes (law.pays c.history)
        (fun _ _ _ => law.bounded) follows.holds (debt goes_on)
      rw [gate.2 goes_on] at polled
      cases polled'.symm.trans polled
      exact ⟨rows, left, rfl, debt'⟩
    obtain ⟨rows, _, rfl, _⟩ := paid solo streaming
    rw [Option.isNone_map] at done
    refine follows.pollOpen found done holds owned standing goes_on fun solo streaming => ?_
    obtain ⟨rows', left, first, debt⟩ := paid solo streaming
    exact ⟨rows', left, Option.map_injective (fun _ _ => Except.ok.inj) first, debt⟩
  | false =>
    refine follows.pollShut found done holds owned standing goes_on fun row given => ?_
    cases shut : g.streamGate st with
    | none =>
      rw [gate.1 shut] at goes_on
      cases goes_on
    | some e =>
      have closed := Feed.poll_shut law.poll_shut e st.feed g.medium row
      rw [← shut, polled] at closed
      exact closed given

theorem stepPoll (follows : Follows law c g) (stream : String) :
    Follows law (c.observe (.poll stream) (g.stepPoll stream).1) (g.stepPoll stream).2 := by
  cases standing : g.stream? stream with
  | none =>
    have absent : g.streams.lookup stream = none := standing
    simp only [Engine.stepPoll, absent]
    exact follows
  | some st =>
    obtain rfl := follows.backend
    rcases polled : st.feed.poll g.backend (g.streamGate st) g.medium with ⟨item, feed, m⟩
    obtain ⟨answered, medium, done⟩ := Engine.polled_stepPoll standing polled
    have holds := Feed.poll_keeps (fun gate k _ => law.poll gate k) (g.streamGate st) st.feed
      follows.holds
    rw [polled, ← medium] at holds
    rw [answered]
    change Follows law (c.polled stream item) _
    cases owned : c.owner stream with
    | none =>
      have same : c.polled stream item = c := by simp only [Chronicle.polled, owned]
      rw [same]
      exact follows.pollUnowned done holds owned
    | some name =>
      cases found : g.session? name with
      | none => exact absurd owned (((follows.sessions name).of_absent found).2 stream)
      | some s => exact follows.pollSession found polled done holds owned standing

end Follows
end OptimisticStore
