import OptimisticStore.OrderedMap.Table
import OptimisticStore.Proofs.Chronicle
import OptimisticStore.Proofs.Reading

/-! The engine follows its chronicle. Its store has the commits that the chronicle tells; each
running session stands where its story, replayed alone on its read version, would stand; and its
streams owe the rows that are left to them there. What a transaction has read is covered by its
footprint, so that once it has been validated its story replays on the last version as well. -/

namespace OptimisticStore

namespace Session
variable {σ : Type}

def writes : Session σ → WriteSet
  | .transaction t => t.writes
  | .view _ => {}

/-- Keys that nobody may have written if the attempt is to be moved behind later commits. A view
is never moved. -/
def covers : Session σ → Bytes → Bool
  | .transaction t => t.reads.covers
  | .view _ => fun _ => true

end Session

variable {μ σ κ : Type}

namespace Engine

theorem session?_dropSession (g : Engine μ σ κ) (name : String) :
    (g.dropSession name).session? name = none :=
  (lookup_drop g.sessions name name).trans (if_pos rfl)

theorem setSession_dropSession (g : Engine μ σ κ) (name : String) (s : Session σ) :
    (g.dropSession name).setSession name s = g.setSession name s := by
  simp only [dropSession, setSession, List.filter_filter, Bool.and_self]

end Engine

variable {b : Backend μ σ κ} (law : Law b)

def Streaming (h : History) (owner : Names String) (streams : Names (Stream κ))
    (isOpen : Liveness String → Bool) (name : String) (a : Attempt σ) (solo : Solo) : Prop :=
  ∀ stream, owner stream = some name → ∃ rows s, solo.streams stream = some rows ∧
    streams stream = some s ∧ s.serial = a.serial ∧ s.liveness = a.liveness ∧
    (isOpen a.liveness = true → s.feed.Owes (law.owes h) rows)

structure Tracks (h : History) (owner : Names String) (streams : Names (Stream κ))
    (isOpen : Liveness String → Bool) (name : String) (s : Session σ) (story : Story) : Prop where
  sees : law.sees h story.readVersion s.attempt.snapshot
  registered : s.attempt.registration.readVersion = story.readVersion
  began : story.readVersion = story.began
  bound : story.began ≤ h.length
  liveness : story.liveness = s.attempt.liveness
  covers : ∀ call ∈ story.calls, ∀ k, call.covers k = true → s.covers k = true
  solo : ∃ solo, replay (h.state story.readVersion) story.calls = some solo ∧
    solo.writes = s.writes ∧ Streaming law h owner streams isOpen name s.attempt solo

namespace Tracks
variable {law} {h : History} {owner owner' : Names String} {streams streams' : Names (Stream κ)}
  {isOpen isOpen' : Liveness String → Bool} {name : String} {s s' : Session σ} {story : Story}

theorem version_le (tracks : Tracks law h owner streams isOpen name s story) :
    story.readVersion ≤ h.length := tracks.began ▸ tracks.bound

theorem elsewhere (tracks : Tracks law h owner streams isOpen name s story) (t : History)
    (same : ∀ stream, owner' stream = some name →
      owner stream = some name ∧ streams' stream = streams stream)
    (opens : ∀ l, isOpen' l = true → isOpen l = true) :
    Tracks law (h ++ t) owner' streams' isOpen' name s story := by
  obtain ⟨solo, replayed, writes, streaming⟩ := tracks.solo
  refine { tracks with
    sees := law.sees_append t tracks.sees
    bound := ?_
    solo := ⟨solo, ?_, writes, fun stream mine => ?_⟩ }
  · rw [List.length_append]
    exact Nat.le_add_right_of_le tracks.bound
  · rw [History.state_append t tracks.version_le]
    exact replayed
  · obtain ⟨before, kept⟩ := same stream mine
    obtain ⟨rows, st, left, found, serial, liveness, debt⟩ := streaming stream before
    exact ⟨rows, st, left, kept.trans found, serial, liveness,
      fun goes_on => (debt (opens _ goes_on)).mono fun _ _ => law.owes_append t⟩

theorem extend (tracks : Tracks law h owner streams isOpen name s story)
    (attempt : s'.attempt = s.attempt) (writes : s'.writes = s.writes)
    (covers : ∀ k, s.covers k = true → s'.covers k = true) :
    Tracks law h owner streams isOpen name s' story where
  sees := attempt ▸ tracks.sees
  registered := attempt ▸ tracks.registered
  began := tracks.began
  bound := tracks.bound
  liveness := attempt ▸ tracks.liveness
  covers call mem k covered := covers k (tracks.covers call mem k covered)
  solo := by
    obtain ⟨solo, replayed, same, streaming⟩ := tracks.solo
    exact ⟨solo, replayed, same.trans writes.symm, attempt ▸ streaming⟩

theorem restream (tracks : Tracks law h owner streams isOpen name s story)
    (changed : ∀ solo, Streaming law h owner streams isOpen name s.attempt solo →
      Streaming law h owner' streams' isOpen name s.attempt solo) :
    Tracks law h owner' streams' isOpen name s story where
  sees := tracks.sees
  registered := tracks.registered
  began := tracks.began
  bound := tracks.bound
  liveness := tracks.liveness
  covers := tracks.covers
  solo := by
    obtain ⟨solo, replayed, same, streaming⟩ := tracks.solo
    exact ⟨solo, replayed, same, changed solo streaming⟩

theorem call (tracks : Tracks law h owner streams isOpen name s story) {call : Call}
    (attempt : s'.attempt = s.attempt) (covers : ∀ k, s.covers k = true → s'.covers k = true)
    (covered : ∀ k, call.covers k = true → s'.covers k = true)
    (made : ∀ solo, solo.writes = s.writes →
      Streaming law h owner streams isOpen name s.attempt solo →
      ∃ solo', solo.call (h.state story.readVersion) call = some solo' ∧
        solo'.writes = s'.writes ∧
        Streaming law h owner' streams' isOpen name s.attempt solo') :
    Tracks law h owner' streams' isOpen name s' (story.note call) where
  sees := attempt ▸ tracks.sees
  registered := attempt ▸ tracks.registered
  began := tracks.began
  bound := tracks.bound
  liveness := attempt ▸ tracks.liveness
  covers other mem k inside := by
    rcases List.mem_append.1 mem with mem | mem
    · exact covers k (tracks.covers other mem k inside)
    · rw [List.mem_singleton.1 mem] at inside
      exact covered k inside
  solo := by
    obtain ⟨solo, replayed, same, streaming⟩ := tracks.solo
    obtain ⟨solo', called, writes, streaming'⟩ := made solo same streaming
    refine ⟨solo', ?_, writes, attempt ▸ streaming'⟩
    exact (replay_snoc replayed call).trans called

theorem staged (tracks : Tracks law h owner streams isOpen name s story) :
    story.staged = s.writes := by
  obtain ⟨solo, replayed, same, _⟩ := tracks.solo
  exact (writes_of_replay replayed).symm.trans same

theorem replays (tracks : Tracks law h owner streams isOpen name s story) :
    story.Replays (h.state story.readVersion) := by
  obtain ⟨solo, replayed, _⟩ := tracks.solo
  rw [Story.Replays, replayed]
  rfl

/-- A session that nobody has written behind replays on the last version. -/
theorem replays_last (tracks : Tracks law h owner streams isOpen name s story)
    (valid : ∀ e ∈ h.log, story.readVersion < e.1 → s.covers e.2 = false) :
    story.Replays (h.state h.length) := by
  obtain ⟨solo, replayed, _⟩ := tracks.solo
  have moved : replay (h.state h.length) story.calls = some solo := by
    -- nobody has written since then what it has read, so both versions agree on it
    refine replay_congr replayed fun call mem k covered => ?_
    refine History.get?_state_eq tracks.version_le fun i x later _ wrote => ?_
    have unread := valid (i, k) ((h.mem_log i k).2 ⟨x, wrote⟩) later
    rw [tracks.covers call mem k covered] at unread
    cases unread
  rw [Story.Replays, moved]
  rfl

end Tracks

def Engine.stream? (g : Engine μ σ κ) : Names (Stream κ) := fun stream => g.streams.lookup stream

def Stands (c : Chronicle) (g : Engine μ σ κ) (name : String) : Prop :=
  match g.session? name with
  | some s => ∃ story, c.running name = some story ∧
      Tracks law c.history c.owner g.stream? c.isOpen name s story
  | none => c.running name = none ∧ ∀ stream, c.owner stream ≠ some name

structure Follows (c : Chronicle) (g : Engine μ σ κ) : Prop where
  backend : g.backend = b
  holds : law.holds c.history g.medium
  closed : c.closed = g.closed.isSome
  cancelled : c.cancelled = g.cancelled
  sessions : ∀ name, Stands law c g name
  writers : c.WritersInOrderIf law.fits
  others : ∀ s ∈ c.others, c.InOrder s

variable {law} {c c' : Chronicle} {g g' : Engine μ σ κ} {name : String} {s s' : Session σ}

theorem Chronicle.length_history (c : Chronicle) : c.history.length = c.writers.length :=
  List.length_map _

theorem Stands.of_session (stands : Stands law c g name) (found : g.session? name = some s) :
    ∃ story, c.running name = some story ∧
      Tracks law c.history c.owner g.stream? c.isOpen name s story := by
  rw [Stands, found] at stands
  exact stands

theorem Stands.of_absent (stands : Stands law c g name) (absent : g.session? name = none) :
    c.running name = none ∧ ∀ stream, c.owner stream ≠ some name := by
  rw [Stands, absent] at stands
  exact stands

theorem Stands.elsewhere (stands : Stands law c g name) {t : History}
    (grown : c'.history = c.history ++ t) (session : g'.session? name = g.session? name)
    (running : c'.running name = c.running name)
    (same : ∀ stream, c'.owner stream = some name →
      c.owner stream = some name ∧ g'.stream? stream = g.stream? stream)
    (opens : ∀ l, c'.isOpen l = true → c.isOpen l = true) : Stands law c' g' name := by
  rw [Stands, session, running]
  cases found : g.session? name with
  | none =>
    obtain ⟨idle, unowned⟩ := stands.of_absent found
    exact ⟨idle, fun stream mine => unowned stream (same stream mine).1⟩
  | some s =>
    obtain ⟨story, told, tracks⟩ := stands.of_session found
    rw [grown]
    exact ⟨story, told, tracks.elsewhere t same opens⟩

theorem Chronicle.InOrder.grown {story : Story} (inOrder : c.InOrder story) {t : History}
    (grown : c'.history = c.history ++ t) : c'.InOrder story := by
  obtain ⟨began, bound, replays⟩ := inOrder
  rw [← c.length_history] at bound
  refine ⟨began, ?_, ?_⟩
  · rw [← c'.length_history, grown, List.length_append]
    exact Nat.le_add_right_of_le bound
  · rw [grown, History.state_append t (began ▸ bound)]
    exact replays

namespace Follows

theorem inOrder (follows : Follows law c g) {story : Story} (told : c.running name = some story) :
    c.InOrder story := by
  cases found : g.session? name with
  | none =>
    rw [((follows.sessions name).of_absent found).1] at told
    cases told
  | some s =>
    obtain ⟨_, told', tracks⟩ := (follows.sessions name).of_session found
    cases told'.symm.trans told
    exact ⟨tracks.began, c.length_history ▸ tracks.bound, tracks.replays⟩

theorem othersInOrder (follows : Follows law c g) : c.OthersInOrder :=
  ⟨follows.others, fun _ _ told => follows.inOrder told⟩

theorem isOpen_iff (follows : Follows law c g) (l : Liveness String) :
    c.isOpen l = true ↔ g.closed = none ∧ l.isAlive g.cancelled = true := by
  rw [Chronicle.isOpen, follows.closed, follows.cancelled]
  cases g.closed <;> simp

theorem medium (follows : Follows law c g) {m : μ} (holds : law.holds c.history m) (n : Nat) :
    Follows law c { g with medium := m, attempts := n } where
  backend := follows.backend
  holds := holds
  closed := follows.closed
  cancelled := follows.cancelled
  sessions := follows.sessions
  writers := follows.writers
  others := follows.others

/-! ### Attempts begin and end -/

theorem forget (follows : Follows law c g) (name : String) :
    Follows law (c.forget name) (g.dropSession name) where
  backend := follows.backend
  holds := follows.holds
  closed := follows.closed
  cancelled := follows.cancelled
  sessions other := by
    have lookup := lookup_drop g.sessions name other
    have owners {stream : String} (mine : (c.forget name).owner stream = some other) :
        c.owner stream = some other ∧ other ≠ name := by
      obtain ⟨mine, kept⟩ := Option.filter_eq_some_iff.1 mine
      exact ⟨mine, by simpa using kept⟩
    by_cases same : other = name
    · rw [if_pos same] at lookup
      have gone : (g.dropSession name).session? other = none := lookup
      rw [Stands, gone]
      refine ⟨?_, fun stream mine => absurd same (owners mine).2⟩
      rw [same]
      exact c.running.set_same name none
    · rw [if_neg same] at lookup
      exact (follows.sessions other).elsewhere (List.append_nil _).symm lookup
        (c.running.set_other same none) (fun stream mine => ⟨(owners mine).1, rfl⟩)
        fun _ goes_on => goes_on
  writers := follows.writers
  others := follows.others

theorem addOther (follows : Follows law c g) {story : Story} (inOrder : c.InOrder story) :
    Follows law (c.addOther story) g where
  backend := follows.backend
  holds := follows.holds
  closed := follows.closed
  cancelled := follows.cancelled
  sessions := follows.sessions
  writers := follows.writers
  others old mem := by
    rcases List.mem_append.1 mem with mem | mem
    · exact follows.others old mem
    · rw [List.mem_singleton.1 mem]
      exact inOrder

theorem addWriter (follows : Follows law c g) {story : Story} {m : μ}
    (holds : law.holds (c.history ++ [story.staged]) m) (began : story.readVersion = story.began)
    (bound : story.began ≤ c.history.length)
    (replays : (∀ w ∈ c.history.drop story.readVersion, law.fits w) →
      story.Replays (c.history.state c.history.length)) :
    Follows law (c.addWriter story) { g with medium := m } := by
  have grown : (c.addWriter story).history = c.history ++ [story.staged] := List.map_append
  refine ⟨follows.backend, grown ▸ holds, follows.closed, follows.cancelled, fun name => ?_,
    fun n s found => ?_, fun old mem => (follows.others old mem).grown grown⟩
  · exact (follows.sessions name).elsewhere grown rfl rfl (fun _ mine => ⟨mine, rfl⟩)
      fun _ goes_on => goes_on
  · rw [grown]
    have found : (c.writers ++ [story])[n]? = some s := found
    rw [List.getElem?_append] at found
    -- the writers so far keep their places, and the new one gets the next
    split at found
    · next old =>
      rw [← c.length_history] at old
      have within := Nat.le_of_lt old
      rw [History.state_append _ within, List.take_append_of_le_length within]
      exact follows.writers n s found
    · next last =>
      rw [List.getElem?_singleton] at found
      split at found
      · next first =>
        cases found
        have here : n = c.history.length := by
          rw [c.length_history]
          omega
        rw [here, History.state_append _ (Nat.le_refl _), List.take_left]
        exact ⟨began, bound, replays⟩
      · cases found

theorem leave (follows : Follows law c g) (found : g.session? name = some s) :
    Follows law (c.leave name) (g.dropSession name) := by
  obtain ⟨story, told, _⟩ := (follows.sessions name).of_session found
  rw [Chronicle.leave, told]
  exact (follows.forget name).addOther (follows.inOrder told)

theorem setRunning (follows : Follows law c g) (free : g.session? name = none)
    (sees : law.sees c.history c.history.length s.attempt.snapshot)
    (registered : s.attempt.registration.readVersion = c.history.length)
    (idle : s.writes = {}) :
    Follows law (c.setRunning name
      ⟨s.attempt.registration.readVersion, c.writers.length, s.attempt.liveness, []⟩)
      (g.setSession name s) where
  backend := follows.backend
  holds := follows.holds
  closed := follows.closed
  cancelled := follows.cancelled
  sessions other := by
    have lookup := lookup_set g.sessions name other s
    by_cases same : other = name
    · rw [if_pos same] at lookup
      have here : (g.setSession name s).session? other = some s := lookup
      have unowned := ((follows.sessions name).of_absent free).2
      rw [Stands, here, same]
      refine ⟨_, c.running.set_same name _, ?_⟩
      exact {
        sees := registered ▸ sees
        registered := rfl
        began := registered.trans c.length_history
        bound := Nat.le_of_eq c.length_history.symm
        liveness := rfl
        covers := nofun
        solo := ⟨{}, rfl, idle.symm, fun stream mine => absurd mine (unowned stream)⟩ }
    · rw [if_neg same] at lookup
      exact (follows.sessions other).elsewhere (List.append_nil _).symm lookup
        (c.running.set_other same _) (fun _ mine => ⟨mine, rfl⟩) fun _ goes_on => goes_on
  writers := follows.writers
  others := follows.others

theorem enter (follows : Follows law c g) (name : String)
    (sees : law.sees c.history c.history.length s.attempt.snapshot)
    (registered : s.attempt.registration.readVersion = c.history.length) (idle : s.writes = {}) :
    Follows law (c.enter name s.attempt.liveness s.attempt.registration.readVersion)
      (g.enter name s) := by
  rw [Chronicle.enter, Engine.enter]
  cases found : g.session? name with
  | none =>
    have unknown := ((follows.sessions name).of_absent found).1
    rw [Chronicle.leave, unknown]
    exact follows.setRunning found sees registered idle
  | some old =>
    have abandoned : law.holds c.history
        (g.backend.abandon old.attempt.registration g.medium) := by
      rw [follows.backend]
      exact law.abandon old.attempt.registration follows.holds
    have left := (follows.medium abandoned g.attempts).leave found
    have writers := c.writers_leave name
    have same : (c.leave name).history = c.history := congrArg (List.map Story.staged) writers
    have entered := left.setRunning (s := s) (Engine.session?_dropSession _ name) (same ▸ sees)
      (same ▸ registered) idle
    rw [writers] at entered
    rw [← Engine.setSession_dropSession]
    exact entered

end Follows

/-! ### A session goes on -/

structure Chronicle.Touches (c c' : Chronicle) (name : String) : Prop where
  writers : c'.writers = c.writers
  others : c'.others = c.others
  closed : c'.closed = c.closed
  cancelled : c'.cancelled = c.cancelled
  running : ∀ other, other ≠ name → c'.running other = c.running other

theorem Chronicle.touches_refl (c : Chronicle) (name : String) : c.Touches c name :=
  ⟨rfl, rfl, rfl, rfl, fun _ _ => rfl⟩

theorem Chronicle.touches_setRunning (c : Chronicle) (name : String) (s : Story) :
    c.Touches (c.setRunning name s) name :=
  ⟨rfl, rfl, rfl, rfl, fun _ ne => c.running.set_other ne (some s)⟩

theorem Chronicle.Touches.own (touches : c.Touches c' name) (stream : String)
    (owner : Option String) : c.Touches (c'.own stream owner) name :=
  ⟨touches.writers, touches.others, touches.closed, touches.cancelled, touches.running⟩

theorem Chronicle.note_eq {story : Story} (told : c.running name = some story) (call : Call) :
    c.note name call = c.setRunning name (story.note call) := by
  rw [note, told]

structure Engine.Touches (g g' : Engine μ σ κ) (name : String) (s' : Session σ) : Prop where
  backend : g'.backend = g.backend
  closed : g'.closed = g.closed
  cancelled : g'.cancelled = g.cancelled
  session : g'.session? name = some s'
  others : ∀ other, other ≠ name → g'.session? other = g.session? other

theorem Engine.touches_setSession (g : Engine μ σ κ) (m : μ) (name : String) (s : Session σ) :
    g.Touches ({ g with medium := m }.setSession name s) name s where
  backend := rfl
  closed := rfl
  cancelled := rfl
  session := (lookup_set g.sessions name name s).trans (if_pos rfl)
  others other ne := (lookup_set g.sessions name other s).trans (if_neg ne)

theorem Engine.touches_medium {g : Engine μ σ κ} (found : g.session? name = some s) (m : μ) :
    g.Touches { g with medium := m } name s :=
  ⟨rfl, rfl, rfl, found, fun _ _ => rfl⟩

namespace Follows

theorem advance (follows : Follows law c g) (told : c.Touches c' name)
    (done : g.Touches g' name s') (holds : law.holds c.history g'.medium)
    (streams : ∀ other stream, other ≠ name → c'.owner stream = some other →
      c.owner stream = some other ∧ g'.stream? stream = g.stream? stream)
    (tracks : ∃ story', c'.running name = some story' ∧
      Tracks law c.history c'.owner g'.stream? c.isOpen name s' story') : Follows law c' g' := by
  have history : c'.history = c.history := congrArg (List.map Story.staged) told.writers
  have isOpen : c'.isOpen = c.isOpen := by
    funext l
    rw [Chronicle.isOpen, Chronicle.isOpen, told.closed, told.cancelled]
  refine ⟨done.backend.trans follows.backend, history ▸ holds,
    told.closed.trans (done.closed ▸ follows.closed),
    told.cancelled.trans (done.cancelled ▸ follows.cancelled), fun other => ?_, ?_, ?_⟩
  · by_cases same : other = name
    · rw [Stands, same, done.session, history, isOpen]
      exact tracks
    · exact (follows.sessions other).elsewhere (history.trans (List.append_nil _).symm)
        (done.others other same) (told.running other same)
        (fun stream mine => streams other stream same mine) fun l goes_on => isOpen ▸ goes_on
  · rw [Chronicle.WritersInOrderIf, told.writers, history]
    exact follows.writers
  · rw [told.others]
    intro old mem
    exact (follows.others old mem).grown (history.trans (List.append_nil _).symm)

theorem extend (follows : Follows law c g) (found : g.session? name = some s)
    (done : g.Touches g' name s') (streams : g'.streams = g.streams)
    (holds : law.holds c.history g'.medium) (attempt : s'.attempt = s.attempt)
    (writes : s'.writes = s.writes) (covers : ∀ k, s.covers k = true → s'.covers k = true) :
    Follows law c g' := by
  obtain ⟨story, told, tracks⟩ := (follows.sessions name).of_session found
  have same : g'.stream? = g.stream? := congrArg (fun l stream => l.lookup stream) streams
  refine follows.advance (c.touches_refl name) done holds
    (fun _ _ _ mine => ⟨mine, by rw [same]⟩) ⟨story, told, ?_⟩
  rw [same]
  exact tracks.extend attempt writes covers

theorem call (follows : Follows law c g) (found : g.session? name = some s)
    (done : g.Touches g' name s') (streams : g'.streams = g.streams)
    (holds : law.holds c.history g'.medium) {call : Call} (attempt : s'.attempt = s.attempt)
    (covers : ∀ k, s.covers k = true → s'.covers k = true)
    (covered : ∀ k, call.covers k = true → s'.covers k = true)
    (made : ∀ v, law.sees c.history v s.attempt.snapshot → ∀ solo : Solo, solo.writes = s.writes →
      solo.call (c.history.state v) call = some { solo with writes := s'.writes }) :
    Follows law (c.note name call) g' := by
  obtain ⟨story, told, tracks⟩ := (follows.sessions name).of_session found
  have same : g'.stream? = g.stream? := congrArg (fun l stream => l.lookup stream) streams
  rw [Chronicle.note_eq told]
  refine follows.advance (c.touches_setRunning name _) done holds
    (fun _ _ _ mine => ⟨mine, by rw [same]⟩) ⟨_, c.running.set_same name _, ?_⟩
  rw [same]
  exact tracks.call attempt covers covered fun solo writes streaming =>
    ⟨_, made _ tracks.sees solo writes, rfl, streaming⟩

end Follows
end OptimisticStore
