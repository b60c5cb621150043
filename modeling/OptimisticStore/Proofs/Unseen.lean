import OptimisticStore.Proofs.Erasure
import OptimisticStore.Proofs.Numbering
import OptimisticStore.Proofs.Twins

/-! An engine beside the one that some sessions are left out of. Each session that stays has a twin
in the second engine, which differs in its numbers only; of those that are left out the second
engine has nothing, and its store has never heard of them. -/

namespace OptimisticStore

variable {μ σ κ τ : Type} {b : Backend μ σ κ}

section Relation
variable (law : Discretion b τ) (h : History) (census : List Registration)

structure Attempt.Registered (a : Attempt σ) : Prop where
  number : a.registration.txnId = a.serial + 1
  version : a.registration.readVersion ≤ h.length
  sees : law.sees h a.registration.readVersion a.snapshot

def Attempt.Placed (a : Attempt σ) : Option Nat → Prop
  | some k => census[k]? = some a.registration
  | none => ∀ q ∈ census, q.txnId ≠ a.registration.txnId

def Session.Twins (hidden : Bool) : Option (Session σ) → Option (Session σ) → Prop
  | none, other => other = none
  | some s, other => s.attempt.Registered law h ∧ ∃ place, s.attempt.Placed census place ∧
      hidden = place.isNone ∧ other = place.map s.nth

def Stream.Twins (hidden : Bool) : Option (Stream κ) → Option (Stream κ) → Prop
  | none, other => other = none
  | some _, none => hidden = true
  | some st, some other => hidden = false ∧ ∃ k q n, census[k]? = some q ∧
      q.txnId = st.serial + 1 ∧ st.feed.Lasts (law.reads h q.readVersion) n ∧
      other = { st with serial := k }

def Engine.Live (g : Engine μ σ κ) (q : Registration) : Prop :=
  ∃ name s, g.session? name = some s ∧ s.attempt.registration = q

/-- The second engine is the first one without the sessions that are left out. The census lists the
registrations that it has given, as the first engine has them. -/
structure Unseen (cast : Cast) (g g' : Engine μ σ κ) : Prop where
  backend : g.backend = b
  backend' : g'.backend = b
  config : g'.config = g.config
  closed : g'.closed = g.closed
  cancelled : g'.cancelled = g.cancelled
  numbered : g.Numbered
  numbered' : g'.Numbered
  attempts' : g'.attempts = census.length
  media : law.Matches h census g.Live g.attempts g.medium g'.medium
  sessions : ∀ name,
    Session.Twins law h census (cast.sessions name) (g.session? name) (g'.session? name)
  streams : ∀ stream,
    Stream.Twins law h census (cast.streams stream) (g.stream? stream) (g'.stream? stream)

def Engine.Seated (law : Discretion b τ) (g : Engine μ σ κ) : Prop :=
  ∀ q, g.Live q → (law.seat q g.medium).isSome = true

/-- An attempt that has begun and is no session's. -/
structure Loose (g : Engine μ σ κ) (a : Attempt σ) (place : Option Nat) : Prop where
  registered : a.Registered law h
  placed : a.Placed census place
  given : a.serial < g.attempts
  alone : ∀ name s, g.session? name = some s → s.attempt.serial ≠ a.serial

end Relation

variable {law : Discretion b τ} {h h' : History} {census census' : List Registration} {cast : Cast}
  {g g' : Engine μ σ κ} {name stream : String} {s : Session σ} {a : Attempt σ}
  {place : Option Nat} {k n : Nat} {m m' : μ}

/-! ### Attempts begin -/

namespace Engine
variable {clock : Clock} {l : Liveness String}
  (isOpen : (g.closed.map Error.closed).or (g.flagError l) = none) (backend : g.backend = b)
include isOpen backend

theorem beginAttempt_ok {r : Registration} {snapshot : σ}
    (registered : (b.begin clock.wall g.medium).1 = .ok (r, snapshot)) :
    beginAttempt clock l g = (.ok ⟨g.attempts, r, snapshot, l⟩,
      { g with medium := (b.begin clock.wall g.medium).2, attempts := g.attempts + 1 }) := by
  subst backend
  have ran : g.backend.begin clock.wall g.medium = (.ok (r, snapshot), _) := Prod.ext registered rfl
  rw [beginAttempt_eq, isOpen, ran]

theorem beginAttempt_error {e : Error} (refused : (b.begin clock.wall g.medium).1 = .error e) :
    beginAttempt clock l g = (.error e, { g with medium := (b.begin clock.wall g.medium).2 }) := by
  subst backend
  have ran : g.backend.begin clock.wall g.medium = (.error e, _) := Prod.ext refused rfl
  rw [beginAttempt_eq, isOpen, ran]

end Engine

theorem Engine.onMedium_eq {α : Type} (x : Access μ α) (g : Engine μ σ κ) :
    onMedium x g = ((x g.medium).1, { g with medium := (x g.medium).2 }) := rfl

theorem Engine.within_eq {α : Type} (name : String) (clock : Clock) (t : Transaction σ)
    (x : Backend μ σ κ → Moment → Access (Transaction σ × μ) α) (g : Engine μ σ κ) :
    within name clock t x g =
      ((x g.backend (g.moment clock t.liveness) (t, g.medium)).1,
        { g with medium := (x g.backend (g.moment clock t.liveness) (t, g.medium)).2.2 }.setSession
          name (.transaction (x g.backend (g.moment clock t.liveness) (t, g.medium)).2.1)) := rfl

def Engine.opened (s : Session σ) (stream : String) :
    Except Error (Feed κ) × Engine μ σ κ → Answer × Engine μ σ κ
  | (.ok feed, g) =>
    (.opened (.ok ()), g.setStream stream ⟨s.attempt.serial, s.attempt.liveness, feed⟩)
  | (.error e, g) => (.opened (.error e), g)

section Opening
variable (clock : Clock) (c : Condition) (stream : String)

theorem Engine.stepOpen_transaction {t : Transaction σ}
    (found : g.session? name = some (.transaction t)) :
    g.stepOpen clock name c stream = opened (.transaction t) stream
      (g.within name clock t fun b now => Transaction.query b now c) := by
  simp only [stepOpen, found]
  rcases g.within name clock t fun b now => Transaction.query b now c with ⟨_ | _, _⟩ <;> rfl

theorem Engine.stepOpen_view (found : g.session? name = some (.view a)) :
    g.stepOpen clock name c stream = opened (.view a) stream
      (onMedium (a.query g.backend (g.moment clock a.liveness) c) g) := by
  simp only [stepOpen, found]
  rcases onMedium (a.query g.backend (g.moment clock a.liveness) c) g with ⟨_ | _, _⟩ <;> rfl

end Opening

theorem Engine.endAttempt_eq (clock : Clock) (a : Attempt σ) (g : Engine μ σ κ) :
    endAttempt clock a g =
      { g with medium := (g.backend.finish clock.wall a.registration g.medium).2 } := rfl

theorem Engine.commit_eq (t : Transaction σ) (g : Engine μ σ κ) :
    commit t g =
      match (g.closed.map Error.closed).or (g.flagError t.liveness) with
      | some e => (.error e, g)
      | none =>
        if t.writes.isEmpty then (.ok t.registration.readVersion, g)
        else onMedium (g.backend.commit t.registration t.reads t.writes) g := by
  rw [commit, Access.bind_apply, checkAlive]
  cases (g.closed.map Error.closed).or (g.flagError t.liveness) with
  | some e => rfl
  | none =>
    cases idle : t.writes.isEmpty <;>
      simp only [Access.pass, Access.pure_apply, Bool.false_eq_true, if_false, if_true,
        Access.bind_apply, Access.medium]

/-! ### More is registered and committed -/

theorem Attempt.Registered.append (registered : a.Registered law h) (t : History) :
    a.Registered law (h ++ t) where
  number := registered.number
  version := by
    rw [List.length_append]
    exact Nat.le_add_right_of_le registered.version
  sees := law.sees_append t registered.version registered.sees

theorem Attempt.Placed.append (placed : a.Placed census place) {cs : List Registration}
    (later : ∀ q ∈ cs, a.registration.txnId < q.txnId) : a.Placed (census ++ cs) place := by
  cases place with
  | some k =>
    obtain ⟨inside, _⟩ := List.getElem?_eq_some_iff.1 placed
    exact (List.getElem?_append_left inside).trans placed
  | none =>
    intro q mem
    rcases List.mem_append.1 mem with mem | mem
    · exact placed q mem
    · exact Nat.ne_of_gt (later q mem)

theorem Session.Twins.append {hidden : Bool} {one other : Option (Session σ)}
    (twins : Session.Twins law h census hidden one other) (t : History) {cs : List Registration}
    (later : ∀ s, one = some s → ∀ q ∈ cs, s.attempt.registration.txnId < q.txnId) :
    Session.Twins law (h ++ t) (census ++ cs) hidden one other := by
  cases one with
  | none => exact twins
  | some s =>
    obtain ⟨registered, place, placed, twin⟩ := twins
    exact ⟨registered.append t, place, placed.append (later s rfl), twin⟩

theorem Stream.Twins.append {hidden : Bool} {one other : Option (Stream κ)}
    (twins : Stream.Twins law h census hidden one other) (t : History) (cs : List Registration)
    (bound : ∀ q ∈ census, q.readVersion ≤ h.length) :
    Stream.Twins law (h ++ t) (census ++ cs) hidden one other := by
  cases one with
  | none => exact twins
  | some st =>
    cases other with
    | none => exact twins
    | some st' =>
      obtain ⟨seen, k, q, n, counted, number, lasts, twin⟩ := twins
      obtain ⟨inside, _⟩ := List.getElem?_eq_some_iff.1 counted
      have version := bound q (List.mem_of_getElem? counted)
      exact ⟨seen, k, q, n, (List.getElem?_append_left inside).trans counted, number,
        lasts.mono fun _ _ => law.reads_append t version, twin⟩

theorem Loose.grown (loose : Loose law h census g a place) {t : History} (grown : h' = h ++ t) :
    Loose law h' census { g with medium := m } a place where
  registered := grown ▸ loose.registered.append t
  placed := loose.placed
  given := loose.given
  alone := loose.alone

namespace Unseen
variable (unseen : Unseen law h census cast g g')
include unseen

/-! ### What both engines have alike -/

theorem flagError (l : Liveness String) : g'.flagError l = g.flagError l := by
  rw [Engine.flagError, Engine.flagError, unseen.cancelled]

theorem moment (clock : Clock) (l : Liveness String) : g'.moment clock l = g.moment clock l := by
  rw [Engine.moment, Engine.moment, unseen.closed, unseen.flagError, unseen.config]

theorem registered (found : g.session? name = some s) : s.attempt.Registered law h := by
  have twins := unseen.sessions name
  rw [found] at twins
  exact twins.1

theorem twin (found : g.session? name = some s) : ∃ place, s.attempt.Placed census place ∧
    cast.sessions name = place.isNone ∧ g'.session? name = place.map s.nth := by
  have twins := unseen.sessions name
  rw [found] at twins
  exact twins.2

theorem absent (found : g.session? name = none) : g'.session? name = none := by
  have twins := unseen.sessions name
  rw [found] at twins
  exact twins

theorem twin_of {other : Session σ} (found : g'.session? name = some other) :
    ∃ s k, g.session? name = some s ∧ other = s.nth k ∧
      census[k]? = some s.attempt.registration := by
  cases here : g.session? name with
  | none =>
    rw [unseen.absent here] at found
    cases found
  | some s =>
    obtain ⟨place, placed, _, twin⟩ := unseen.twin here
    rw [found] at twin
    cases place with
    | none => cases twin
    | some k => exact ⟨s, k, rfl, Option.some.inj twin, placed⟩

theorem isRunning_place {q : Registration} {serial : Nat} (counted : census[k]? = some q)
    (number : q.txnId = serial + 1) : g'.isRunning k = g.isRunning serial := by
  rw [Bool.eq_iff_iff, Engine.isRunning_iff unseen.numbered', Engine.isRunning_iff unseen.numbered]
  constructor
  · rintro ⟨name, other, found, rfl⟩
    obtain ⟨s, k, here, rfl, placed⟩ := unseen.twin_of found
    refine ⟨name, s, here, ?_⟩
    rw [Session.attempt_nth] at counted
    have same : s.attempt.registration = q := Option.some.inj (placed.symm.trans counted)
    have own := (unseen.registered here).number
    rw [same] at own
    exact Nat.succ.inj (own.symm.trans number)
  · rintro ⟨name, s, found, rfl⟩
    obtain ⟨place, placed, _, twin⟩ := unseen.twin found
    have own := (unseen.registered found).number
    cases place with
    | none => exact absurd (number.trans own.symm) (placed q (List.mem_of_getElem? counted))
    | some j =>
      refine ⟨name, s.nth j, twin, ?_⟩
      rw [Session.attempt_nth]
      exact unseen.media.eq_of_txnId placed counted (own.trans number.symm)

/-! ### Single changes -/

theorem advance {t : History} {cs : List Registration}
    (media : law.Matches h' census' g.Live n m m') (grown : h' = h ++ t)
    (counted : census' = census ++ cs) (later : ∀ q ∈ cs, g.attempts < q.txnId)
    (more : g.attempts ≤ n) :
    Unseen law h' census' cast { g with medium := m, attempts := n }
      { g' with medium := m', attempts := census'.length } where
  backend := unseen.backend
  backend' := unseen.backend'
  config := unseen.config
  closed := unseen.closed
  cancelled := unseen.cancelled
  numbered := unseen.numbered.same rfl rfl more
  numbered' := by
    refine unseen.numbered'.same rfl rfl ?_
    rw [unseen.attempts', counted, List.length_append]
    exact Nat.le_add_right _ _
  attempts' := rfl
  media := media
  sessions name := by
    subst grown counted
    refine (unseen.sessions name).append t fun s found q mem => ?_
    rw [(unseen.registered found).number]
    exact Nat.lt_of_le_of_lt (unseen.numbered.sessions name s found) (later q mem)
  streams stream := by
    subst grown counted
    exact (unseen.streams stream).append t cs fun q mem => (unseen.media.issued q mem).version

theorem medium (media : law.Matches h census g.Live g.attempts m m') :
    Unseen law h census cast { g with medium := m } { g' with medium := m' } := by
  have on := unseen.advance media (List.append_nil h).symm (List.append_nil census).symm nofun
    (Nat.le_refl _)
  rw [← unseen.attempts'] at on
  exact on

theorem mediumAside (media : law.Matches h census g.Live g.attempts m g'.medium) :
    Unseen law h census cast { g with medium := m } g' := unseen.medium media

theorem heed (closed : Option String) (cancelled : List String) :
    Unseen law h census cast { g with closed, cancelled } { g' with closed, cancelled } :=
  { unseen with
    closed := rfl
    cancelled := rfl
    numbered := unseen.numbered.same rfl rfl (Nat.le_refl _)
    numbered' := unseen.numbered'.same rfl rfl (Nat.le_refl _) }

theorem setSession (name : String) (registered : s.attempt.Registered law h)
    (placed : s.attempt.Placed census place) (given : s.attempt.serial < g.attempts)
    (alone : ∀ other s', other ≠ name → g.session? other = some s' →
      s'.attempt.serial ≠ s.attempt.serial)
    (seated : law.Lasting → (law.seat s.attempt.registration g.medium).isSome = true) :
    Unseen law h census (cast.withSession name place.isNone) (g.setSession name s)
      (place.elim (g'.dropSession name) fun k => g'.setSession name (s.nth k)) where
  backend := unseen.backend
  backend' := by cases place <;> exact unseen.backend'
  config := by cases place <;> exact unseen.config
  closed := by cases place <;> exact unseen.closed
  cancelled := by cases place <;> exact unseen.cancelled
  numbered := unseen.numbered.setSession given alone
  numbered' := by
    cases place with
    | none => exact unseen.numbered'.dropSession name
    | some k =>
      have number : (s.nth k).attempt.serial = k := congrArg Attempt.serial (s.attempt_nth k)
      obtain ⟨inside, _⟩ := List.getElem?_eq_some_iff.1 placed
      refine unseen.numbered'.setSession ?_ fun other s' apart found same => ?_
      · rw [number, unseen.attempts']
        exact inside
      · obtain ⟨s₁, j, here, rfl, placed₁⟩ := unseen.twin_of found
        rw [number, Session.attempt_nth] at same
        obtain rfl : j = k := same
        have registration := Option.some.inj (placed₁.symm.trans placed)
        have number₁ := (unseen.registered here).number
        rw [registration, registered.number] at number₁
        exact alone other s₁ apart here (Nat.succ.inj number₁.symm)
  attempts' := by cases place <;> exact unseen.attempts'
  media := by
    have full : law.Matches h census (g.setSession name s).Live g.attempts g.medium g'.medium := by
      refine { unseen.media with seated := fun lasting q ⟨other, s', found, same⟩ => ?_ }
      rw [Engine.session?_setSession] at found
      split at found
      · cases found
        exact same ▸ seated lasting
      · exact unseen.media.seated lasting q ⟨other, s', found, same⟩
    cases place <;> exact full
  sessions other := by
    have lookup' : (place.elim (g'.dropSession name) fun k => g'.setSession name (s.nth k)).session?
        other = if other = name then place.map s.nth else g'.session? other := by
      cases place with
      | none => exact g'.session?_dropSession_eq name other
      | some k => exact g'.session?_setSession name other _
    rw [g.session?_setSession, lookup', Cast.withSession]
    dsimp only
    split
    · exact ⟨registered, place, placed, rfl, rfl⟩
    · exact unseen.sessions other
  streams stream := by cases place <;> exact unseen.streams stream

theorem dropSession (name : String) :
    Unseen law h census cast (g.dropSession name) (g'.dropSession name) :=
  { unseen with
    numbered := unseen.numbered.dropSession name
    numbered' := unseen.numbered'.dropSession name
    media := by
      refine unseen.media.mono fun q ⟨other, s, found, same⟩ => ?_
      rw [Engine.session?_dropSession_eq] at found
      split at found
      · cases found
      · exact ⟨other, s, found, same⟩
    sessions := fun other => by
      rw [Engine.session?_dropSession_eq, Engine.session?_dropSession_eq]
      split
      · rfl
      · exact unseen.sessions other }

theorem setStreams (hidden : Bool) {left left' : Option (Stream κ)}
    {streams streams' : List (String × Stream κ)}
    (here : { g with streams }.stream? = g.stream?.set stream left)
    (there : { g' with streams := streams' }.stream? = g'.stream?.set stream left')
    (twins : Stream.Twins law h census hidden left left')
    (given : ∀ st, left = some st → st.serial < g.attempts) :
    Unseen law h census (cast.withStream stream hidden) { g with streams }
      { g' with streams := streams' } :=
  { unseen with
    numbered := unseen.numbered.setStreams rfl rfl here given
    numbered' := by
      refine unseen.numbered'.setStreams rfl rfl there fun st same => ?_
      cases left with
      | none => cases same.symm.trans twins
      | some st₀ =>
        rw [same] at twins
        obtain ⟨_, k, q, n, counted, _, _, rfl⟩ := twins
        obtain ⟨inside, _⟩ := List.getElem?_eq_some_iff.1 counted
        exact unseen.attempts' ▸ inside
    streams := fun other => by
      rw [here, there, Names.set, Names.set, Cast.withStream]
      dsimp only
      split
      · exact twins
      · exact unseen.streams other }

theorem goOn {s' : Session σ} (found : g.session? name = some s)
    (placed : s.attempt.Placed census place) (same : s'.attempt = s.attempt) :
    Unseen law h census (cast.withSession name place.isNone) (g.setSession name s')
      (place.elim (g'.dropSession name) fun k => g'.setSession name (s'.nth k)) := by
  have registered := unseen.registered found
  have given := unseen.numbered.sessions name s found
  rw [← same] at registered given placed
  refine unseen.setSession name registered placed given (fun other s'' apart here serial => ?_)
    fun lasting => unseen.media.seated lasting _ ⟨name, s, found, same ▸ rfl⟩
  exact apart (unseen.numbered.apart other name s'' s here found (same ▸ serial))

theorem loose (found : g.session? name = some s) :
    ∃ place, Loose law h census (g.dropSession name) s.attempt place ∧
      cast.sessions name = place.isNone ∧ g'.session? name = place.map s.nth := by
  obtain ⟨place, placed, seen, twin⟩ := unseen.twin found
  refine ⟨place, ⟨unseen.registered found, placed, unseen.numbered.sessions name s found, ?_⟩, seen,
    twin⟩
  intro other s' found' serial
  rw [Engine.session?_dropSession_eq] at found'
  split at found'
  · cases found'
  · next apart => exact apart (unseen.numbered.apart other name s' s found' found serial)

/-! ### Attempts that are no session's -/

section Loose
variable (loose : Loose law h census g a place)
include loose

omit unseen in
theorem issued_loose : a.registration.Issued h g.attempts :=
  ⟨loose.registered.version, loose.registered.number ▸ loose.given⟩

theorem others_of_live (q : Registration) (live : g.Live q) : g.Live q ∧ q ≠ a.registration := by
  refine ⟨live, ?_⟩
  rintro rfl
  obtain ⟨name, s, found, same⟩ := live
  have number := (unseen.registered found).number
  rw [same, loose.registered.number] at number
  exact loose.alone name s found (Nat.succ.inj number.symm)

theorem endAttempt (clock : Clock) :
    Unseen law h census cast (Engine.endAttempt clock a g)
      (place.elim g' fun k => Engine.endAttempt clock (a.nth k) g') := by
  have rest := unseen.others_of_live loose
  cases place with
  | some k =>
    have ended := unseen.media.finish rest clock.wall loose.placed
    rw [Option.elim_some, Engine.endAttempt_eq, Engine.endAttempt_eq]
    refine unseen.medium ?_
    rw [unseen.backend, unseen.backend']
    exact ended
  | none =>
    have apart : a.registration ∉ census := fun mem => loose.placed _ mem rfl
    have ended := unseen.media.finishAside rest clock.wall (issued_loose loose) apart
    rw [Option.elim_none, Engine.endAttempt_eq]
    refine unseen.mediumAside ?_
    rw [unseen.backend]
    exact ended

theorem abandon :
    Unseen law h census cast { g with medium := g.backend.abandon a.registration g.medium }
      (place.elim g' fun k =>
        { g' with medium := g'.backend.abandon (a.nth k).registration g'.medium }) := by
  have rest := unseen.others_of_live loose
  cases place with
  | some k =>
    have left := unseen.media.abandon rest loose.placed
    refine unseen.medium ?_
    rw [unseen.backend, unseen.backend']
    exact left
  | none =>
    have apart : a.registration ∉ census := fun mem => loose.placed _ mem rfl
    refine unseen.mediumAside ?_
    rw [unseen.backend]
    exact unseen.media.abandonAside rest apart

end Loose

/-- An attempt becomes the session of a name. One that is left out takes no name over from one that
stays; one that stays may take it over from either. -/
theorem enter (name : String) (loose : Loose law h census g s.attempt place)
    (seated : (law.seat s.attempt.registration g.medium).isSome = true)
    (rightful : place = none → g'.session? name = none) :
    Unseen law h census (cast.withSession name place.isNone) (g.enter name s)
      (place.elim g' fun k => g'.enter name (s.nth k)) := by
  have entered := unseen.setSession name loose.registered loose.placed loose.given
    (fun other s' _ => loose.alone other s') fun _ => seated
  cases found : g.session? name with
  | none =>
    have absent := unseen.absent found
    cases place with
    | none =>
      rw [Option.elim_none, Engine.dropSession_of_absent absent] at entered
      simp only [Engine.enter, found]
      exact entered
    | some k =>
      simp only [Engine.enter, found, Option.elim_some, absent]
      exact entered
  | some old =>
    -- the session that had the name is given up, and must not be mistaken for the new one
    obtain ⟨place', left, _, twin⟩ := unseen.loose found
    have left : Loose law h census (g.setSession name s) old.attempt place' := by
      refine ⟨left.registered, left.placed, left.given, fun other s' found' => ?_⟩
      rw [Engine.session?_setSession] at found'
      split at found'
      · cases found'
        exact (loose.alone name old found).symm
      · next apart => exact left.alone other s' ((g.session?_dropSession_eq name other).trans
          ((if_neg apart).trans found'))
    have abandoned := entered.abandon left
    simp only [Engine.enter, found]
    cases place with
    | none =>
      rw [rightful rfl] at twin
      cases place' with
      | none =>
        rw [Option.elim_none, Option.elim_none,
          Engine.dropSession_of_absent (rightful rfl)] at abandoned
        exact abandoned
      | some j => cases twin
    | some k =>
      simp only [Option.elim_some, twin]
      cases place' with
      | none => exact abandoned
      | some j =>
        simp only [Option.map_some, Session.attempt_nth]
        exact abandoned

end Unseen
end OptimisticStore
