import OptimisticStore.Proofs.Unseen

/-! The sessions that stay. What one of them does, its twin does beside it: both are answered the
same, and the engines match as before. Only where the first store has no number left for a
registration the second one, which has given fewer, may have one. -/

namespace OptimisticStore

variable {μ σ κ τ α : Type} {b : Backend μ σ κ} {law : Discretion b τ} {h : History}
  {census : List Registration} {cast : Cast} {g g' : Engine μ σ κ} {name : String} {a : Attempt σ}
  {t : Transaction σ} {k : Nat}

def Level (law : Discretion b τ) (cast : Cast) (g g' : Engine μ σ κ) : Prop :=
  ∃ h census, Unseen law h census cast g g'

/-- Both accesses come to the same, or the first engine has no number left. -/
def Keeps (law : Discretion b τ) (cast : Cast) (one other : Except Error α × Engine μ σ κ) :
    Prop :=
  law.Finite ∧ one.1 = .error law.full ∨ one.1 = other.1 ∧ Level law cast one.2 other.2

def Parallel (law : Discretion b τ) (cast : Cast) (e : Event)
    (one other : Answer × Engine μ σ κ) : Prop :=
  law.Finite ∧ one.1 = Engine.ended law.full ∨
    one.1.told = other.1.told ∧ Level law (cast.observe false e one.1) one.2 other.2

namespace Unseen
variable (unseen : Unseen law h census cast g g')
include unseen

theorem beginAttempt (clock : Clock) (l : Liveness String) :
    (law.Finite ∧ ∃ g₁, Engine.beginAttempt clock l g = (.error law.full, g₁)) ∨
    (∃ e, Engine.beginAttempt clock l g = (.error e, g) ∧
      Engine.beginAttempt clock l g' = (.error e, g')) ∨
    ∃ a k census₁ g₁ g₁', Engine.beginAttempt clock l g = (.ok a, g₁) ∧
      Engine.beginAttempt clock l g' = (.ok (a.nth k), g₁') ∧
      Unseen law h census₁ cast g₁ g₁' ∧ Loose law h census₁ g₁ a (some k) ∧
      (law.seat a.registration g₁.medium).isSome = true := by
  cases isOpen : (g.closed.map Error.closed).or (g.flagError l) with
  | some e =>
    rw [g.beginAttempt_eq, g'.beginAttempt_eq, unseen.closed, unseen.flagError, isOpen]
    exact .inr (.inl ⟨e, rfl, rfl⟩)
  | none =>
    have isOpen' : (g'.closed.map Error.closed).or (g'.flagError l) = none := by
      rw [unseen.closed, unseen.flagError, isOpen]
    by_cases room : law.room g.attempts
    · have room' := law.room_le unseen.media.count room
      obtain ⟨registered, _, seats⟩ := law.begin clock.wall unseen.media.full room
      obtain ⟨registered', _⟩ := law.begin clock.wall unseen.media.erased room'
      have media : law.Matches h _ g.Live _ _ _ :=
        (unseen.media.begin clock.wall room).mono fun _ => .inl
      rw [Engine.beginAttempt_ok isOpen unseen.backend registered,
        Engine.beginAttempt_ok isOpen' unseen.backend' registered']
      refine .inr (.inr ⟨_, census.length, _, _, _, rfl, ?_, unseen.advance media
        (List.append_nil h).symm rfl (fun q mem => ?_) (Nat.le_succ _),
        ⟨⟨rfl, Nat.le_refl _, law.sees_first h⟩, ?_, Nat.lt_succ_self _, ?_⟩, ?_⟩)
      · rw [List.length_append, ← unseen.attempts']
        rfl
      · cases List.mem_singleton.1 mem
        exact Nat.lt_succ_self _
      · exact List.getElem?_concat_length
      · intro name s found
        exact Nat.ne_of_lt (unseen.numbered.sessions name s found)
      · dsimp only
        rw [seats, if_pos rfl]
        rfl
    · obtain ⟨refused, _⟩ := law.begin_full clock.wall unseen.media.full room
      rw [Engine.beginAttempt_error isOpen unseen.backend refused]
      exact .inl ⟨⟨g.attempts, room⟩, _, rfl⟩

theorem commit (loose : Loose law h census g t.toAttempt (some k))
    (seated : (law.seat t.registration g.medium).isSome = true) :
    (Engine.commit t g).1 = (Engine.commit (t.nth k) g').1 ∧
      ∃ h', Unseen law h' census cast (Engine.commit t g).2 (Engine.commit (t.nth k) g').2 ∧
        Loose law h' census (Engine.commit t g).2 t.toAttempt (some k) := by
  have gate : (g'.closed.map Error.closed).or (g'.flagError (t.nth k).liveness) =
      (g.closed.map Error.closed).or (g.flagError t.liveness) := by
    rw [unseen.closed, unseen.flagError]
    rfl
  have idle : (t.nth k).writes.isEmpty = t.writes.isEmpty := rfl
  rw [Engine.commit_eq, Engine.commit_eq, gate, idle]
  cases (g.closed.map Error.closed).or (g.flagError t.liveness) with
  | some e => exact ⟨rfl, h, unseen, loose⟩
  | none =>
    cases t.writes.isEmpty with
    | true => exact ⟨rfl, h, unseen, loose⟩
    | false =>
      obtain ⟨same, media⟩ := unseen.media.commit loose.placed seated t.reads t.writes
      obtain rfl := unseen.backend
      have one : g'.backend.commit (t.nth k).registration (t.nth k).reads (t.nth k).writes
          g'.medium = g.backend.commit (t.registration.nth k) t.reads t.writes g'.medium := by
        rw [unseen.backend']
        rfl
      simp only [Bool.false_eq_true, if_false, Engine.onMedium_eq]
      rw [one]
      refine ⟨same.symm, ?_⟩
      revert media
      cases (g.backend.commit t.registration t.reads t.writes g.medium).1 with
      | ok v =>
        intro media
        have after := unseen.advance media rfl (List.append_nil census).symm nofun (Nat.le_refl _)
        rw [← unseen.attempts'] at after
        exact ⟨_, after, loose.grown rfl⟩
      | error e =>
        intro media
        exact ⟨h, unseen.medium media, loose.grown (List.append_nil h).symm⟩

theorem mayRetry_nth (t : Transaction σ) (k : Nat) (e : Error) :
    g'.mayRetry (t.nth k) e = g.mayRetry t e := by
  rw [Engine.mayRetry, Engine.mayRetry, unseen.config]
  rfl

theorem conclude (loose : Loose law h census g t.toAttempt (some k))
    (seated : (law.seat t.registration g.medium).isSome = true) (clock : Clock) :
    (Engine.conclude clock t g).1 = (Engine.conclude clock (t.nth k) g').1 ∧
      Level law cast (Engine.conclude clock t g).2 (Engine.conclude clock (t.nth k) g').2 := by
  obtain ⟨same, h', unseen₁, loose₁⟩ := unseen.commit loose seated
  exact ⟨same, h', census, unseen₁.endAttempt loose₁ clock⟩

theorem twin_shown (shown : cast.sessions name = false) {s : Session σ}
    (found : g.session? name = some s) :
    ∃ k, census[k]? = some s.attempt.registration ∧ g'.session? name = some (s.nth k) := by
  obtain ⟨place, placed, seen, twin⟩ := unseen.twin found
  cases place with
  | none => cases seen.symm.trans shown
  | some k => exact ⟨k, placed, twin⟩

theorem loose_shown (shown : cast.sessions name = false) {s : Session σ}
    (found : g.session? name = some s) :
    ∃ k, Loose law h census (g.dropSession name) s.attempt (some k) ∧
      g'.session? name = some (s.nth k) := by
  obtain ⟨place, loose, seen, twin⟩ := unseen.loose found
  cases place with
  | none => cases seen.symm.trans shown
  | some k => exact ⟨k, loose, twin⟩

theorem settle (shown : cast.sessions name = false) {s : Session σ}
    (loose : Loose law h census g s.attempt (some k))
    (seated : (law.seat s.attempt.registration g.medium).isSome = true) :
    Unseen law h census cast (g.setSession name s) (g'.setSession name (s.nth k)) := by
  have on := unseen.setSession name loose.registered loose.placed loose.given
    (fun other s' _ => loose.alone other s') fun _ => seated
  rw [Option.isNone_some, Cast.withSession_same shown] at on
  exact on

theorem stepSucceed (shown : cast.sessions name = false) (kept : g.Seated law) (clock : Clock) :
    Parallel law cast (.succeed name) (g.stepSucceed clock name) (g'.stepSucceed clock name) := by
  cases found : g.session? name with
  | none =>
    simp only [Engine.stepSucceed, found, unseen.absent found]
    exact .inr ⟨rfl, h, census, unseen⟩
  | some s =>
    obtain ⟨k, loose, found'⟩ := unseen.loose_shown shown found
    have dropped := unseen.dropSession name
    cases s with
    | view a =>
      simp only [Engine.stepSucceed, found, found']
      exact .inr ⟨rfl, h, census, dropped.endAttempt loose clock⟩
    | transaction t =>
      have seated := kept _ ⟨name, _, found, rfl⟩
      obtain ⟨same, h₁, census₁, unseen₁⟩ := dropped.conclude (t := t) loose seated clock
      simp only [Engine.stepSucceed, found, found', Session.nth, Engine.succeed]
      revert same unseen₁
      rcases Engine.conclude clock t (g.dropSession name) with ⟨r, g₁⟩
      rcases Engine.conclude clock (t.nth k) (g'.dropSession name) with ⟨r', g₁'⟩
      rintro rfl unseen₁
      cases r with
      | ok v => exact .inr ⟨rfl, h₁, census₁, unseen₁⟩
      | error e =>
        dsimp only
        rw [unseen₁.mayRetry_nth]
        cases g₁.mayRetry t e with
        | false => exact .inr ⟨rfl, h₁, census₁, unseen₁⟩
        | true =>
          simp only [if_true, Access.bind_apply, Engine.beginTransaction_eq]
          rcases unseen₁.beginAttempt clock t.liveness with
            ⟨finite, g₂, full⟩ | ⟨e', ran, ran'⟩ | begun
          · rw [full]
            exact .inl ⟨finite, rfl⟩
          · have ran' : Engine.beginAttempt clock (t.nth k).liveness g₁' = _ := ran'
            rw [ran, ran']
            exact .inr ⟨rfl, h₁, census₁, unseen₁⟩
          · obtain ⟨a, j, census₂, g₂, g₂', ran, ran', unseen₂, loose₂, seated⟩ := begun
            have ran' : Engine.beginAttempt clock (t.nth k).liveness g₁' = _ := ran'
            rw [ran, ran']
            let again : Transaction σ :=
              { toAttempt := a, retries := t.retries + 1, lastHeartbeat := clock.steady }
            exact .inr ⟨rfl, h₁, census₂,
              unseen₂.settle (s := .transaction again) shown loose₂ seated⟩

/-! ### Entering and leaving -/

theorem stepTransact (name : String) (clock : Clock) (l : Liveness String) :
    Parallel law cast (.transact name l) (g.stepTransact clock name l)
      (g'.stepTransact clock name l) := by
  rcases unseen.beginAttempt clock l with ⟨finite, g₁, full⟩ | ⟨e, ran, ran'⟩ | begun
  · rw [Engine.stepTransact, Engine.beginTransaction_eq, full]
    exact .inl ⟨finite, rfl⟩
  · simp only [Engine.stepTransact, Engine.beginTransaction_eq, ran, ran']
    exact .inr ⟨rfl, h, census, unseen⟩
  · obtain ⟨a, k, census₁, g₁, g₁', ran, ran', unseen₁, loose, seated⟩ := begun
    simp only [Engine.stepTransact, Engine.beginTransaction_eq, ran, ran']
    refine .inr ⟨rfl, h, census₁, ?_⟩
    exact unseen₁.enter (s := .transaction { toAttempt := a, lastHeartbeat := clock.steady }) name
      loose seated fun none => absurd none (Option.some_ne_none k)

theorem stepSnapshot (name : String) (clock : Clock) (l : Liveness String) :
    Parallel law cast (.snapshot name l) (g.stepSnapshot clock name l)
      (g'.stepSnapshot clock name l) := by
  rcases unseen.beginAttempt clock l with ⟨finite, g₁, full⟩ | ⟨e, ran, ran'⟩ | begun
  · rw [Engine.stepSnapshot, full]
    exact .inl ⟨finite, rfl⟩
  · simp only [Engine.stepSnapshot, ran, ran']
    exact .inr ⟨rfl, h, census, unseen⟩
  · obtain ⟨a, k, census₁, g₁, g₁', ran, ran', unseen₁, loose, seated⟩ := begun
    simp only [Engine.stepSnapshot, ran, ran']
    refine .inr ⟨rfl, h, census₁, ?_⟩
    exact unseen₁.enter (s := .view a) name loose seated fun none =>
      absurd none (Option.some_ne_none k)

theorem stepFail (shown : cast.sessions name = false) (clock : Clock) (cause : BodyError) :
    Parallel law cast (.fail name cause) (g.stepFail clock name cause)
      (g'.stepFail clock name cause) := by
  cases found : g.session? name with
  | none =>
    simp only [Engine.stepFail, found, unseen.absent found]
    exact .inr ⟨rfl, h, census, unseen⟩
  | some s =>
    obtain ⟨k, loose, found'⟩ := unseen.loose_shown shown found
    simp only [Engine.stepFail, found, found', Session.attempt_nth]
    exact .inr ⟨rfl, h, census, (unseen.dropSession name).endAttempt loose clock⟩

theorem stepDrop (shown : cast.sessions name = false) :
    Parallel law cast (.drop name) (g.stepDrop name) (g'.stepDrop name) := by
  cases found : g.session? name with
  | none =>
    simp only [Engine.stepDrop, found, unseen.absent found]
    exact .inr ⟨rfl, h, census, unseen⟩
  | some s =>
    obtain ⟨k, loose, found'⟩ := unseen.loose_shown shown found
    simp only [Engine.stepDrop, found, found', Session.attempt_nth]
    exact .inr ⟨rfl, h, census, (unseen.dropSession name).abandon loose⟩

/-! ### Whole calls in one event -/

theorem transactAlone (clock : Clock) (l : Liveness String) (writes : List (Bytes × Option Bytes))
    (left retries : Nat) :
    Keeps law cast (Engine.transactAlone clock l writes left retries g)
      (Engine.transactAlone clock l writes left retries g') := by
  induction left using Nat.strongRecOn generalizing h census g g' retries with
  | ind left ih =>
    unfold Engine.transactAlone
    rw [Access.bind_apply, Access.bind_apply, Engine.beginTransaction_eq,
      Engine.beginTransaction_eq]
    rcases unseen.beginAttempt clock l with ⟨finite, g₁, full⟩ | ⟨e, ran, ran'⟩ | begun
    · rw [full]
      exact .inl ⟨finite, rfl⟩
    · rw [ran, ran']
      exact .inr ⟨rfl, h, census, unseen⟩
    · obtain ⟨a, k, census₁, g₁, g₁', ran, ran', unseen₁, loose, seated⟩ := begun
      rw [ran, ran']
      obtain ⟨same, beside⟩ := Transaction.agree_stageAll (g₁.moment clock l) writes
        ({ toAttempt := a, retries, lastHeartbeat := clock.steady }, g₁.medium)
        ({ toAttempt := a.nth k, retries, lastHeartbeat := clock.steady }, g₁'.medium)
        ⟨rfl, rfl, unseen₁.media⟩
      simp only [Access.bind_apply, Access.medium, unseen₁.moment]
      revert same beside
      rcases Engine.stageAll (g₁.moment clock l) writes
        ({ toAttempt := a, retries, lastHeartbeat := clock.steady }, g₁.medium) with ⟨r, t, m⟩
      rcases Engine.stageAll (g₁.moment clock l) writes
        ({ toAttempt := a.nth k, retries, lastHeartbeat := clock.steady }, g₁'.medium)
        with ⟨_, _, m'⟩
      rintro rfl ⟨rfl, rfl, _⟩
      cases r with
      | error e => exact .inr ⟨rfl, h, census₁, unseen₁.endAttempt loose clock⟩
      | ok =>
        obtain ⟨same, h₂, census₂, unseen₂⟩ := unseen₁.conclude loose seated clock
        simp only [Access.bind_apply, Access.outcome]
        revert same unseen₂
        rcases Engine.conclude clock t g₁ with ⟨r, g₂⟩
        rcases Engine.conclude clock (t.nth k) g₁' with ⟨_, g₂'⟩
        rintro rfl unseen₂
        cases r with
        | ok v => exact .inr ⟨rfl, h₂, census₂, unseen₂⟩
        | error e =>
          cases left with
          | zero => exact .inr ⟨rfl, h₂, census₂, unseen₂⟩
          | succ left =>
            have again := ih left (Nat.lt_succ_self left) unseen₂ (retries + 1)
            dsimp only
            rw [unseen₁.mayRetry_nth]
            cases g₁.mayRetry t e with
            | true => exact again
            | false => exact .inr ⟨rfl, h₂, census₂, unseen₂⟩

theorem readAlone (clock : Clock) (c : Except Error Condition) :
    Keeps law cast (Engine.readAlone clock c g) (Engine.readAlone clock c g') := by
  rcases unseen.beginAttempt clock .always with ⟨finite, g₁, full⟩ | ⟨e, ran, ran'⟩ | begun
  · rw [Engine.readAlone, Access.bind_apply, full]
    exact .inl ⟨finite, rfl⟩
  · rw [Engine.readAlone, Access.bind_apply, Access.bind_apply, ran, ran']
    exact .inr ⟨rfl, h, census, unseen⟩
  · obtain ⟨a, k, census₁, g₁, g₁', ran, ran', unseen₁, loose, _⟩ := begun
    cases c with
    | error e =>
      rw [Engine.readAlone, Access.bind_apply, Access.bind_apply, ran, ran']
      exact .inr ⟨rfl, h, census₁, unseen₁.endAttempt loose clock⟩
    | ok c =>
      have view : Engine.viewRows g₁.backend (g₁.moment clock a.liveness) a c =
          Engine.viewRows b (g₁.moment clock a.liveness) a c := by rw [unseen₁.backend]
      have view' : Engine.viewRows g₁'.backend (g₁'.moment clock (a.nth k).liveness) (a.nth k) c =
          Engine.viewRows b (g₁.moment clock a.liveness) a c := by
        rw [unseen₁.backend', unseen₁.moment]
        rfl
      obtain ⟨same, media⟩ := Attempt.agree_viewRows loose.registered.sees
        (g₁.moment clock a.liveness) c g₁.medium g₁'.medium unseen₁.media
      rw [Engine.readAlone_ok ran, Engine.readAlone_ok ran', view, view']
      have read := (unseen₁.medium media).endAttempt (loose.grown (List.append_nil h).symm) clock
      exact .inr ⟨congrArg Except.ok same, h, census₁, read⟩

end Unseen
end OptimisticStore
