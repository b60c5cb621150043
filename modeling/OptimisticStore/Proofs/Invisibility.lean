import OptimisticStore.Proofs.Discreet
import OptimisticStore.Proofs.Hidden
import OptimisticStore.Proofs.Serializability
import OptimisticStore.Proofs.TwinSteps

/-! Sessions that commit nothing are invisible. They are registered, they hold up what is pruned,
and they use up numbers; but if all their steps are left out of a run, every step that stays is
answered as before: with the same versions, retries, rows, values, commits and conflicts. -/

namespace OptimisticStore

variable {μ σ κ τ : Type} {b : Backend μ σ κ}

theorem Unseen.fresh (law : Discretion b τ) (config : Config) {m : μ} (holds : law.holds [] 0 m) :
    Unseen law [] [] {} ({ backend := b, config, medium := m } : Engine μ σ κ)
      { backend := b, config, medium := m } where
  backend := rfl
  backend' := rfl
  config := rfl
  closed := rfl
  cancelled := rfl
  numbered := Engine.numbered_fresh b config m
  numbered' := Engine.numbered_fresh b config m
  attempts' := rfl
  media :=
    { full := holds
      erased := holds
      ordered := .nil
      issued := nofun
      count := Nat.le_refl 0
      seats := nofun
      seated := by
        rintro _ _ ⟨name, s, found, _⟩
        cases found }
  sessions _ := rfl
  streams _ := rfl

theorem Unseen.heard {law : Discretion b τ} {p : Engine μ σ κ → Prop}
    (seated : ∀ h census cast g g', Unseen law h census cast g g' → p g → g.Seated law)
    {h : History} {census : List Registration} {cast : Cast} {g g' : Engine μ σ κ}
    (unseen : Unseen law h census cast g g') {steps : List Step}
    (erasable : g.erasable cast steps = true)
    (kept : ∀ n < steps.length, p (g.run ((steps.map Step.call).take n)).2)
    (room : law.Finite → ∀ a ∈ g.heard steps, a ≠ Engine.ended law.full) :
    g'.heard (steps.filter (!·.hidden)) = g.heard steps := by
  induction steps generalizing h census cast g g' with
  | nil => rfl
  | cons s steps ih =>
    have later (n : Nat) (bound : n < steps.length) :
        p ((g.step s.clock s.event).2.run ((steps.map Step.call).take n)).2 :=
      kept (n + 1) (Nat.succ_lt_succ bound)
    rw [Engine.erasable, Bool.and_eq_true, Bool.and_eq_true] at erasable
    obtain ⟨⟨allowed, silent⟩, erasable⟩ := erasable
    rw [Engine.heard_cons] at room ⊢
    cases hidden : s.hidden with
    | true =>
      rw [hidden] at allowed silent erasable room
      have after := unseen.stepAside s.clock allowed (by simpa using silent)
      rw [List.filter_cons, hidden]
      exact ih after erasable later room
    | false =>
      rw [hidden] at allowed erasable room
      rw [List.filter_cons, hidden]
      simp only [Bool.not_false, if_true, Engine.heard_cons, hidden, Bool.false_eq_true, if_false,
        List.singleton_append] at room ⊢
      have here := seated _ _ _ _ _ unseen (kept 0 (Nat.zero_lt_succ _))
      rcases unseen.step s.clock allowed here with ⟨finite, full⟩ | ⟨same, h₁, census₁, after⟩
      · refine absurd ?_ (room finite _ List.mem_cons_self)
        rw [full]
        rfl
      · rw [same, ih after erasable later fun finite a mem =>
          room finite a (List.mem_cons_of_mem _ mem)]

/-- The store had no number left for the call. -/
def Answer.exhausted : Answer → Bool
  | .done (.error (.store (.storage .counterFull))) => true
  | _ => false

/-- No session that is running has had its ledger row reclaimed. -/
def Durable.unreclaimed (g : Engine Device Durable.Snapshot (Option Durable.Cursor)) : Bool :=
  g.sessions.all fun (_, s) =>
    (g.medium.rows.get? (Layout.ledgerKey s.attempt.registration)).isSome

theorem Durable.seated_of_unreclaimed {config : Config} {pos : 0 < config.pageSize} {h : History}
    {census : List Registration} {cast : Cast}
    {g g' : Engine Device Durable.Snapshot (Option Durable.Cursor)}
    (unseen : Unseen (discretion config pos) h census cast g g') (kept : unreclaimed g = true) :
    g.Seated (discretion config pos) := by
  rintro q ⟨name, s, found, rfl⟩
  obtain ⟨before, after, split, _⟩ := List.lookup_eq_some_iff.1 found
  have row := List.all_eq_true.1 kept (name, s) (by rw [split]; simp)
  obtain ⟨a, rfl, number, holds, _⟩ := unseen.media.full
  have registered := unseen.registered found
  have fits : s.attempt.registration.Fits := by
    refine fits_of_issued holds ⟨registered.version, ?_⟩
    rw [registered.number, number]
    exact unseen.numbered.sessions name s found
  change (seat g.medium.rows s.attempt.registration).isSome = true
  rw [seat_of_fits fits]
  exact row

/-- Whatever sessions are left out of a run, as long as they commit no write, all others are
answered alike. On a device this needs that the time to live takes no running session's ledger row,
and that there is a number left for every call. -/
theorem uncommitted_unseen (store config : Config) (steps : List Step) :
    ((Keyspace.engine config).erasable {} steps = true →
      (Keyspace.engine config).heard (steps.filter (!·.hidden)) =
        (Keyspace.engine config).heard steps) ∧
    let g := Durable.engine store config
    g.erasable {} steps = true →
      (∀ n < steps.length, Durable.unreclaimed (g.run ((steps.map Step.call).take n)).2 = true) →
      (∀ a ∈ g.heard steps, a.exhausted = false) →
        g.heard (steps.filter (!·.hidden)) = g.heard steps := by
  constructor
  · intro erasable
    have unseen := Unseen.fresh Keyspace.discretion config (m := {}) ⟨{}, rfl, rfl, .empty⟩
    refine unseen.heard (p := fun _ => True) (fun _ _ _ _ _ unseen _ => ?_) erasable
      (fun _ _ => trivial) ?_
    · exact unseen.media.seated fun _ _ => rfl
    · rintro ⟨n, full⟩
      exact absurd trivial full
  · intro g erasable kept room
    have unseen := Unseen.fresh (Durable.discretion (store.withPageSize store.pageSize)
      (Durable.withPageSize_pos store)) config (m := {})
      ⟨{}, rfl, rfl, .empty, Durable.mirrors_empty, Device.faultless_new⟩
    refine unseen.heard (p := fun g => Durable.unreclaimed g = true)
      (fun _ _ _ _ _ => Durable.seated_of_unreclaimed) erasable kept fun _ a mem => ?_
    rintro rfl
    cases room _ mem

def sampleSteps : List Step :=
  [(false, .run .always [([107], some [1])]), (true, .snapshot "view" .always),
    (true, .transact "late" .always), (true, .get "late" [107]), (false, .transact "a" .always),
    (true, .transact "failing" .always), (true, .stage "failing" ([107], none)),
    (true, .fail "failing" (.user "no")), (true, .transact "left" .always), (true, .drop "left"),
    (false, .stage "a" ([107], some [2])), (false, .succeed "a"),
    (true, .stage "late" ([108], some [3])), (true, .succeed "late"),
    (true, .openStream "view" .all "rows"), (true, .poll "rows"), (false, .read (.ok .all)),
    (false, .stats)].map fun (hidden, event) => ⟨hidden, ⟨0, 0⟩, event⟩

theorem uncommitted_unseen_sample :
    let g := Durable.engine {} { maxRetries := 0 }
    (g.erasable {} sampleSteps = true ∧
      (∀ n < sampleSteps.length,
        Durable.unreclaimed (g.run ((sampleSteps.map Step.call).take n)).2 = true) ∧
      (∀ a ∈ g.heard sampleSteps, a.exhausted = false) ∧ (g.heard sampleSteps).length = 6) ∧
    g.heard (sampleSteps.filter (!·.hidden)) = g.heard sampleSteps := by
  intro g
  have erasable : g.erasable {} sampleSteps = true := by decide +kernel
  have kept : ∀ n < sampleSteps.length,
      Durable.unreclaimed (g.run ((sampleSteps.map Step.call).take n)).2 = true := by
    decide +kernel
  have room : ∀ a ∈ g.heard sampleSteps, a.exhausted = false := by decide +kernel
  have six : (g.heard sampleSteps).length = 6 := by decide +kernel
  exact ⟨⟨erasable, kept, room, six⟩, (uncommitted_unseen {} { maxRetries := 0 } sampleSteps).2
    erasable kept room⟩

end OptimisticStore
