import OptimisticStore.Proofs.Determinism

/-! What an engine may rely on in a backend so that sessions that commit nothing go unnoticed.
A registration has a seat, which it may lose while it still runs. As long as it is seated, what
it is answered depends on the history of commits and on its read version, not on who else is
registered. So two media with one history answer alike to registrations that are seated in both,
although one of them has registered more: the numbers that it gives are then higher, and no more. -/

namespace OptimisticStore

namespace Registration

/-- One of the first `n` registrations of a store with this history. -/
structure Issued (h : History) (n : Nat) (r : Registration) : Prop where
  version : r.readVersion ≤ h.length
  number : r.txnId ≤ n

/-- The registration at this version that `k` others come before. -/
def nth (r : Registration) (k : Nat) : Registration := ⟨r.readVersion, k + 1⟩

theorem Issued.append {h : History} {n : Nat} {r : Registration} (issued : r.Issued h n)
    (t : History) : r.Issued (h ++ t) n := by
  refine ⟨?_, issued.number⟩
  rw [List.length_append]
  exact Nat.le_add_right_of_le issued.version

end Registration

structure Still {μ τ : Type} (holds : History → Nat → μ → Prop) (seat : Registration → μ → Option τ)
    (m m' : μ) : Prop where
  holds : ∀ h n, holds h n m → holds h n m'
  seat : ∀ r, seat r m' = seat r m

structure Discretion {μ σ κ : Type} (b : Backend μ σ κ) (τ : Type) where
  /-- The medium keeps a store with these commits, and has given this number last. -/
  holds : History → Nat → μ → Prop
  sees : History → Nat → σ → Prop
  /-- The cursor reads this version, and has so many more items at most. -/
  reads : History → Nat → Nat → κ → Prop
  /-- What is known of a registration as long as it is seated. -/
  seat : Registration → μ → Option τ
  /-- There is a number left after this one. -/
  room : Nat → Prop
  /-- How a registration fails for which there is none. -/
  full : Error
  /-- What a new registration reads. -/
  first : History → σ
  fresh : Nat → τ
  /-- Whether a seat is kept when another registration ends at this time. -/
  keeps : Nat → τ → Bool
  /-- What is left of a seat that is given up. -/
  leaves : τ → Option τ
  /-- What the history calls for when a registration of this version commits. -/
  verdict : History → Version → ReadFootprint → WriteSet → Except Error Version
  room_le {n k : Nat} : k ≤ n → room n → room k
  sees_first (h : History) : sees h h.length (first h)
  sees_append {h : History} {v : Nat} {s : σ} (t : History) : v ≤ h.length → sees h v s →
    sees (h ++ t) v s
  reads_append {h : History} {v n : Nat} {c : κ} (t : History) : v ≤ h.length → reads h v n c →
    reads (h ++ t) v n c
  begin {h : History} {n : Nat} {m : μ} (now : Nat) : holds h n m → room n →
    (b.begin now m).1 = .ok (⟨h.length, n + 1⟩, first h) ∧ holds h (n + 1) (b.begin now m).2 ∧
      ∀ q, seat q (b.begin now m).2 =
        if q = ⟨h.length, n + 1⟩ then some (fresh now) else seat q m
  begin_full {h : History} {n : Nat} {m : μ} (now : Nat) : holds h n m → ¬ room n →
    (b.begin now m).1 = .error full ∧ Still holds seat m (b.begin now m).2
  heartbeat {h : History} {n : Nat} {m : μ} (now : Nat) {r : Registration} : holds h n m →
    r.Issued h n → (b.heartbeat now r m).1 = .ok () ∧ holds h n (b.heartbeat now r m).2 ∧
      ∀ q, seat q (b.heartbeat now r m).2 =
        if q = r then (seat q m).map fun _ => fresh now else seat q m
  commit {h : History} {n : Nat} {m : μ} {r : Registration} (reads : ReadFootprint)
    (w : WriteSet) : holds h n m → r.Issued h n → (seat r m).isSome = true →
      (b.commit r reads w m).1 = verdict h r.readVersion reads w
  commit_ok {h : History} {n : Nat} {m : μ} {r : Registration} {reads : ReadFootprint}
    {w : WriteSet} {v : Version} : holds h n m → (b.commit r reads w m).1 = .ok v →
      holds (h ++ [w]) n (b.commit r reads w m).2
  commit_error {h : History} {n : Nat} {m : μ} {r : Registration} {reads : ReadFootprint}
    {w : WriteSet} {e : Error} : holds h n m → (b.commit r reads w m).1 = .error e →
      holds h n (b.commit r reads w m).2
  commit_seat {h : History} {n : Nat} {m : μ} (r : Registration) (reads : ReadFootprint)
    (w : WriteSet) : holds h n m → ∀ q, seat q (b.commit r reads w m).2 = seat q m
  finish {h : History} {n : Nat} {m : μ} (now : Nat) {r : Registration} : holds h n m →
    r.Issued h n → holds h n (b.finish now r m).2 ∧
      ∀ q, seat q (b.finish now r m).2 = if q = r then none else (seat q m).filter (keeps now)
  abandon {h : History} {n : Nat} {m : μ} (r : Registration) : holds h n m →
    holds h n (b.abandon r m) ∧
      ∀ q, seat q (b.abandon r m) = if q = r then (seat q m).bind leaves else seat q m
  stats {h : History} {n : Nat} {m : μ} : holds h n m →
    ∃ stats, (b.stats m).1 = .ok stats ∧ stats.version = h.length
  stats_still {h : History} {n : Nat} {m : μ} : holds h n m → Still holds seat m (b.stats m).2
  close {h : History} {n : Nat} {m : μ} : holds h n m →
    (b.close m).1 = .ok () ∧ Still holds seat m (b.close m).2
  get {h : History} {n v : Nat} {m : μ} {s : σ} (key : Bytes) : holds h n m → sees h v s →
    (b.get s key m).1 = .ok ((h.state v).get? key)
  get_still {h : History} {n : Nat} {m : μ} (s : σ) (key : Bytes) : holds h n m →
    Still holds seat m (b.get s key m).2
  query {h : History} {n v : Nat} {m : μ} {s : σ} (c : Condition) : holds h n m → sees h v s →
    ∃ k, reads h v k (b.query s c)
  poll {h : History} {n n' v k : Nat} {m m' : μ} {c : κ} (gate : Option Error) : holds h n m →
    holds h n' m' → reads h v k c →
      Alike (fun _ _ => True) (reads h v) k (b.poll gate c m) (b.poll gate c m')
  poll_still {h : History} {n : Nat} {m : μ} (gate : Option Error) (c : κ) : holds h n m →
    Still holds seat m (b.poll gate c m).2.2
  bounded {h : History} {n v k : Nat} {m : μ} {c : κ} : holds h n m → reads h v k c →
    k ≤ b.itemBound c m + 1

variable {μ σ κ τ : Type} {b : Backend μ σ κ} (law : Discretion b τ)

def Discretion.Finite : Prop := ∃ n, ¬ law.room n

def Discretion.Lasting : Prop := ∀ now t, law.keeps now t = true

/-- Two media with one history. The first has given the numbers of the census, in this order, and
others besides; the second has given one for each of these and no other. A registration of the
census that is seated in the first is seated alike in the second. -/
structure Discretion.Matches (h : History) (census : List Registration)
    (live : Registration → Prop) (n : Nat) (m m' : μ) : Prop where
  full : law.holds h n m
  erased : law.holds h census.length m'
  ordered : census.Pairwise fun q r => q.txnId < r.txnId
  issued : ∀ q ∈ census, q.Issued h n
  count : census.length ≤ n
  seats : ∀ (k : Nat) q, census[k]? = some q →
    law.seat q m = none ∨ law.seat q m = law.seat (q.nth k) m'
  seated : law.Lasting → ∀ q, live q → (law.seat q m).isSome = true

namespace Discretion.Matches
variable {law} {h : History} {census : List Registration} {live live' : Registration → Prop}
  {n k j : Nat} {m m' m₁ m₁' : μ} {q r : Registration}

section Census
variable (matching : law.Matches h census live n m m')
include matching

theorem eq_of_txnId (hk : census[k]? = some q) (hj : census[j]? = some r)
    (same : q.txnId = r.txnId) : k = j := by
  obtain ⟨ink, rfl⟩ := List.getElem?_eq_some_iff.1 hk
  obtain ⟨inj, rfl⟩ := List.getElem?_eq_some_iff.1 hj
  have ordered := List.pairwise_iff_getElem.1 matching.ordered
  rcases Nat.lt_trichotomy k j with before | same_place | after
  · exact absurd same (Nat.ne_of_lt (ordered k j ink inj before))
  · exact same_place
  · exact absurd same.symm (Nat.ne_of_lt (ordered j k inj ink after))

theorem issued_of (hk : census[k]? = some q) : q.Issued h n :=
  matching.issued q (List.mem_of_getElem? hk)

theorem issued_nth (hk : census[k]? = some q) : (q.nth k).Issued h census.length := by
  obtain ⟨inside, _⟩ := List.getElem?_eq_some_iff.1 hk
  exact ⟨(matching.issued_of hk).version, inside⟩

theorem step (full : law.holds h n m₁) (erased : law.holds h census.length m₁')
    (seats : ∀ (k : Nat) q, census[k]? = some q →
      law.seat q m = none ∨ law.seat q m = law.seat (q.nth k) m' →
      law.seat q m₁ = none ∨ law.seat q m₁ = law.seat (q.nth k) m₁')
    (seated : law.Lasting → ∀ q, live' q → (law.seat q m₁).isSome = true) :
    law.Matches h census live' n m₁ m₁' where
  full := full
  erased := erased
  ordered := matching.ordered
  issued := matching.issued
  count := matching.count
  seats k q hk := seats k q hk (matching.seats k q hk)
  seated := seated

theorem still (one : Still law.holds law.seat m m₁) (other : Still law.holds law.seat m' m₁') :
    law.Matches h census live n m₁ m₁' := by
  refine matching.step (one.holds h n matching.full) (other.holds h _ matching.erased) ?_ ?_
  · intro k q _ same
    rwa [one.seat, other.seat]
  · intro lasting q alive
    rw [one.seat]
    exact matching.seated lasting q alive

theorem mono (fewer : ∀ q, live' q → live q) : law.Matches h census live' n m m' :=
  { matching with seated := fun lasting q alive => matching.seated lasting q (fewer q alive) }

/-! ### Registrations begin -/

theorem beginAside (now : Nat) (room : law.room n) :
    law.Matches h census (fun q => live q ∨ q = ⟨h.length, n + 1⟩) (n + 1) (b.begin now m).2
      m' := by
  obtain ⟨_, full, seats⟩ := law.begin now matching.full room
  refine ⟨full, matching.erased, matching.ordered, fun q mem => ?_, ?_, fun k q hk => ?_, ?_⟩
  · obtain ⟨version, number⟩ := matching.issued q mem
    exact ⟨version, Nat.le_succ_of_le number⟩
  · exact Nat.le_succ_of_le matching.count
  · have other : q ≠ ⟨h.length, n + 1⟩ := by
      rintro rfl
      exact Nat.not_succ_le_self n (matching.issued_of hk).number
    rw [seats, if_neg other]
    exact matching.seats k q hk
  · intro lasting q alive
    rw [seats]
    split
    · rfl
    · next other => exact matching.seated lasting q (alive.resolve_right other)

theorem begin (now : Nat) (room : law.room n) :
    law.Matches h (census ++ [⟨h.length, n + 1⟩]) (fun q => live q ∨ q = ⟨h.length, n + 1⟩) (n + 1)
      (b.begin now m).2 (b.begin now m').2 := by
  have before := matching.beginAside now room
  obtain ⟨_, _, seats⟩ := law.begin now matching.full room
  obtain ⟨_, erased, seats'⟩ := law.begin now matching.erased (law.room_le matching.count room)
  refine ⟨before.full, ?_, ?_, fun q mem => ?_, ?_, fun k q hk => ?_, before.seated⟩
  · rw [List.length_append]
    exact erased
  · rw [List.pairwise_append]
    refine ⟨matching.ordered, List.pairwise_singleton .., fun q mem r new => ?_⟩
    obtain rfl := List.mem_singleton.1 new
    exact Nat.lt_succ_of_le (matching.issued q mem).number
  · rcases List.mem_append.1 mem with mem | mem
    · exact before.issued q mem
    · obtain rfl := List.mem_singleton.1 mem
      exact ⟨Nat.le_refl _, Nat.le_refl _⟩
  · rw [List.length_append]
    exact Nat.succ_le_succ matching.count
  · rw [List.getElem?_append] at hk
    split at hk
    · next inside =>
      have other : q.nth k ≠ ⟨h.length, census.length + 1⟩ := by
        intro same
        have number : k + 1 = census.length + 1 := congrArg Registration.txnId same
        omega
      rw [seats', if_neg other]
      exact before.seats k q hk
    · rw [List.getElem?_singleton] at hk
      split at hk
      · next place =>
        cases hk
        have last : k = census.length := by omega
        rw [seats, if_pos rfl, seats', if_pos (by rw [Registration.nth, last])]
        exact .inr rfl
      · cases hk

/-! ### Registrations go on and end -/

theorem nth_eq_iff (hk : census[k]? = some q) (hj : census[j]? = some r) :
    (q = r ↔ k = j) ∧ (q.nth k = r.nth j ↔ k = j) := by
  refine ⟨⟨fun same => matching.eq_of_txnId hk hj (same ▸ rfl), ?_⟩, ⟨fun same => ?_, ?_⟩⟩
  · rintro rfl
    exact Option.some.inj (hk.symm.trans hj)
  · exact Nat.succ.inj (congrArg Registration.txnId same)
  · rintro rfl
    rw [Option.some.inj (hk.symm.trans hj)]

theorem heartbeat (now : Nat) (hj : census[j]? = some r) :
    law.Matches h census live n (b.heartbeat now r m).2 (b.heartbeat now (r.nth j) m').2 := by
  obtain ⟨_, full, seats⟩ := law.heartbeat now matching.full (matching.issued_of hj)
  obtain ⟨_, erased, seats'⟩ := law.heartbeat now matching.erased (matching.issued_nth hj)
  refine matching.step full erased (fun k q hk same => ?_) fun lasting q alive => ?_
  · have here := matching.nth_eq_iff hk hj
    rw [seats, seats']
    by_cases place : k = j
    · rw [if_pos (here.1.2 place), if_pos (here.2.2 place)]
      exact same.imp (fun empty => by rw [empty]; rfl) fun same => by rw [same]
    · rw [if_neg (place ∘ here.1.1), if_neg (place ∘ here.2.1)]
      exact same
  · have kept := matching.seated lasting q alive
    rw [seats]
    split
    · rw [Option.isSome_map]
      exact kept
    · exact kept

theorem heartbeatAside (now : Nat) (issued : r.Issued h n) (apart : r ∉ census) :
    law.Matches h census live n (b.heartbeat now r m).2 m' := by
  obtain ⟨_, full, seats⟩ := law.heartbeat now matching.full issued
  refine matching.step full matching.erased (fun k q hk same => ?_) fun lasting q alive => ?_
  · have other : q ≠ r := fun same => apart (same ▸ List.mem_of_getElem? hk)
    rw [seats, if_neg other]
    exact same
  · have kept := matching.seated lasting q alive
    rw [seats]
    split
    · rw [Option.isSome_map]
      exact kept
    · exact kept

theorem commit (hj : census[j]? = some r) (seated : (law.seat r m).isSome = true)
    (reads : ReadFootprint) (w : WriteSet) :
    (b.commit (r.nth j) reads w m').1 = (b.commit r reads w m).1 ∧
      law.Matches (match (b.commit r reads w m).1 with | .ok _ => h ++ [w] | .error _ => h) census
        live n (b.commit r reads w m).2 (b.commit (r.nth j) reads w m').2 := by
  have seated' : (law.seat (r.nth j) m').isSome = true := by
    rcases matching.seats j r hj with empty | same
    · rw [empty] at seated
      cases seated
    · exact same ▸ seated
  have here := law.commit reads w matching.full (matching.issued_of hj) seated
  have there := law.commit reads w matching.erased (matching.issued_nth hj) seated'
  have same : (b.commit (r.nth j) reads w m').1 = (b.commit r reads w m).1 := there.trans here.symm
  have seats := law.commit_seat r reads w matching.full
  have seats' := law.commit_seat (r.nth j) reads w matching.erased
  refine ⟨same, ?_, ?_, matching.ordered, fun q mem => ?_, matching.count, fun k q hk => ?_,
    fun lasting q alive => ?_⟩
  · cases given : (b.commit r reads w m).1 with
    | ok v => exact law.commit_ok matching.full given
    | error e => exact law.commit_error matching.full given
  · cases given : (b.commit r reads w m).1 with
    | ok v => exact law.commit_ok matching.erased (same.trans given)
    | error e => exact law.commit_error matching.erased (same.trans given)
  · have issued := matching.issued q mem
    cases (b.commit r reads w m).1 with
    | ok v => exact issued.append [w]
    | error e => exact issued
  · rw [seats, seats']
    exact matching.seats k q hk
  · rw [seats]
    exact matching.seated lasting q alive

theorem commitAside {w : WriteSet} {e : Error} {reads : ReadFootprint}
    (refused : (b.commit r reads w m).1 = .error e) :
    law.Matches h census live n (b.commit r reads w m).2 m' := by
  have seats := law.commit_seat r reads w matching.full
  refine matching.step (law.commit_error matching.full refused) matching.erased ?_ ?_
  · intro k q _ same
    rwa [seats]
  · intro lasting q alive
    rw [seats]
    exact matching.seated lasting q alive

section Ending
variable (rest : ∀ q, live' q → live q ∧ q ≠ r)
include rest

theorem finish (now : Nat) (hj : census[j]? = some r) :
    law.Matches h census live' n (b.finish now r m).2 (b.finish now (r.nth j) m').2 := by
  obtain ⟨full, seats⟩ := law.finish now matching.full (matching.issued_of hj)
  obtain ⟨erased, seats'⟩ := law.finish now matching.erased (matching.issued_nth hj)
  refine matching.step full erased (fun k q hk same => ?_) fun lasting q alive => ?_
  · have here := matching.nth_eq_iff hk hj
    rw [seats, seats']
    by_cases place : k = j
    · rw [if_pos (here.1.2 place)]
      exact .inl rfl
    · rw [if_neg (place ∘ here.1.1), if_neg (place ∘ here.2.1)]
      exact same.imp (fun empty => by rw [empty]; rfl) fun same => by rw [same]
  · obtain ⟨before, other⟩ := rest q alive
    obtain ⟨t, taken⟩ := Option.isSome_iff_exists.1 (matching.seated lasting q before)
    rw [seats, if_neg other, taken, Option.filter, lasting now t]
    rfl

theorem finishAside (now : Nat) (issued : r.Issued h n) (apart : r ∉ census) :
    law.Matches h census live' n (b.finish now r m).2 m' := by
  obtain ⟨full, seats⟩ := law.finish now matching.full issued
  refine matching.step full matching.erased (fun k q hk same => ?_) fun lasting q alive => ?_
  · have other : q ≠ r := fun same => apart (same ▸ List.mem_of_getElem? hk)
    rw [seats, if_neg other]
    cases taken : law.seat q m with
    | none => exact .inl rfl
    | some t =>
      rw [taken] at same
      rw [Option.filter]
      split
      · exact same
      · exact .inl rfl
  · obtain ⟨before, other⟩ := rest q alive
    obtain ⟨t, taken⟩ := Option.isSome_iff_exists.1 (matching.seated lasting q before)
    rw [seats, if_neg other, taken, Option.filter, lasting now t]
    rfl

theorem abandon (hj : census[j]? = some r) :
    law.Matches h census live' n (b.abandon r m) (b.abandon (r.nth j) m') := by
  obtain ⟨full, seats⟩ := law.abandon r matching.full
  obtain ⟨erased, seats'⟩ := law.abandon (r.nth j) matching.erased
  refine matching.step full erased (fun k q hk same => ?_) fun lasting q alive => ?_
  · have here := matching.nth_eq_iff hk hj
    rw [seats, seats']
    by_cases place : k = j
    · rw [if_pos (here.1.2 place), if_pos (here.2.2 place)]
      exact same.imp (fun empty => by rw [empty]; rfl) fun same => by rw [same]
    · rw [if_neg (place ∘ here.1.1), if_neg (place ∘ here.2.1)]
      exact same
  · obtain ⟨before, other⟩ := rest q alive
    rw [seats, if_neg other]
    exact matching.seated lasting q before

theorem abandonAside (apart : r ∉ census) :
    law.Matches h census live' n (b.abandon r m) m' := by
  obtain ⟨full, seats⟩ := law.abandon r matching.full
  refine matching.step full matching.erased (fun k q hk same => ?_) fun lasting q alive => ?_
  · have other : q ≠ r := fun same => apart (same ▸ List.mem_of_getElem? hk)
    rw [seats, if_neg other]
    exact same
  · obtain ⟨before, other⟩ := rest q alive
    rw [seats, if_neg other]
    exact matching.seated lasting q before

end Ending

/-! ### Reads -/

theorem stillAside (one : Still law.holds law.seat m m₁) : law.Matches h census live n m₁ m' :=
  matching.still one ⟨fun _ _ holds => holds, fun _ => rfl⟩

end Census

theorem polls {v : Nat} : b.PollsAlike (law.Matches h census live n) (law.reads h v) := by
  intro gate k c m m' matching reading
  have one := law.poll_still gate c matching.full
  have other := law.poll_still gate c matching.erased
  obtain ⟨item, left, m₁, m₁', k', here, there, _, reading', fewer⟩ :=
    law.poll gate matching.full matching.erased reading
  rw [here] at one
  rw [there] at other
  exact ⟨item, left, m₁, m₁', k', here, there, matching.still one other, reading', fewer⟩

theorem poll_aside (gate : Option Error) (c : κ) (m m' : μ)
    (matching : law.Matches h census live n m m') :
    law.Matches h census live n (b.poll gate c m).2.2 m' ∧
      law.Matches h census live n m (b.poll gate c m').2.2 := by
  refine ⟨matching.stillAside (law.poll_still gate c matching.full), ?_⟩
  exact matching.still ⟨fun _ _ holds => holds, fun _ => rfl⟩
    (law.poll_still gate c matching.erased)

theorem bounded {v : Nat} (c : κ) (k : Nat) (m m' : μ) (matching : law.Matches h census live n m m')
    (reading : law.reads h v k c) : k ≤ b.itemBound c m + 1 ∧ k ≤ b.itemBound c m' + 1 :=
  ⟨law.bounded matching.full reading, law.bounded matching.erased reading⟩

theorem agree_get {v : Nat} {s : σ} (sees : law.sees h v s) (key : Bytes) :
    Access.Agree (law.Matches h census live n) (b.get s key) (b.get s key) := by
  intro m m' matching
  refine ⟨?_, matching.still (law.get_still s key matching.full)
    (law.get_still s key matching.erased)⟩
  exact (law.get key matching.full sees).trans (law.get key matching.erased sees).symm

end Discretion.Matches
end OptimisticStore
