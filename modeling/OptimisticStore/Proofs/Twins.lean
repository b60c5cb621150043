import OptimisticStore.Proofs.Discretion

/-! Two attempts that differ in their numbers only, one on each of two matching media. Whatever
they read or stage they are answered alike, and they go on alike. -/

namespace OptimisticStore

def Attempt.nth {σ : Type} (a : Attempt σ) (k : Nat) : Attempt σ :=
  { a with serial := k, registration := a.registration.nth k }

def Transaction.nth {σ : Type} (t : Transaction σ) (k : Nat) : Transaction σ :=
  { t with toAttempt := t.toAttempt.nth k }

def Session.nth {σ : Type} (s : Session σ) (k : Nat) : Session σ :=
  match s with
  | .transaction t => .transaction (t.nth k)
  | .view a => .view (a.nth k)

@[simp] theorem Session.attempt_nth {σ : Type} (s : Session σ) (k : Nat) :
    (s.nth k).attempt = s.attempt.nth k := by
  cases s <;> rfl

variable {μ σ κ τ α : Type} {b : Backend μ σ κ} {law : Discretion b τ} {h : History}
  {census : List Registration} {live : Registration → Prop} {n v : Nat}

namespace Discretion.Matches

theorem agree_take {feed : Feed κ} {k : Nat} (lasts : feed.Lasts (law.reads h v) k)
    (gate : Option Error) (limit : Nat) :
    Access.Agree (law.Matches h census live n) (feed.take b gate limit) (feed.take b gate limit) :=
  feed.take_alike polls bounded poll_aside gate lasts (.inl rfl)

theorem agree_rows {d : Direction} {cursor : κ} {k : Nat} (lasts : law.reads h v k cursor)
    (writes : List (Bytes × Option Bytes)) (gate : Option Error) :
    Access.Agree (law.Matches h census live n) ((Feed.start d cursor writes).rows b gate)
      ((Feed.start d cursor writes).rows b gate) := by
  obtain ⟨j, lasting, few⟩ := Feed.start_lasts (b := b) lasts d writes
  refine Feed.rows_alike polls bounded poll_aside gate lasting fun m m' matching => ?_
  exact ⟨few m fun k c reads => (bounded c k m m' matching reads).1,
    few m' fun k c reads => (bounded c k m m' matching reads).2⟩

end Discretion.Matches

theorem Attempt.query_lasts {a : Attempt σ} {m : μ} (holds : law.holds h n m)
    (sees : law.sees h v a.snapshot) (now : Moment) {c : Condition} {feed : Feed κ}
    (given : (a.query b now c m).1 = .ok feed) : ∃ k, feed.Lasts (law.reads h v) k := by
  have told : Access.Gives (fun _ => True) (a.query b now c) fun feed =>
      feed = .plain (b.query a.snapshot c) :=
    (Access.gives_pass now.gate).bind fun _ _ => Access.gives_pure fun _ _ => rfl
  obtain rfl := (told m trivial).2 feed given
  exact law.query c holds sees

theorem Transaction.query_lasts {t : Transaction σ} {m : μ} (holds : law.holds h n m)
    (sees : law.sees h v t.snapshot) (now : Moment) {c : Condition} {feed : Feed κ}
    (given : (Transaction.query b now c (t, m)).1 = .ok feed) :
    ∃ k, feed.Lasts (law.reads h v) k := by
  have told : Transaction.Reads (fun _ => True) t (Transaction.query b now c) _ :=
    Transaction.reads_query (fun _ _ => trivial) c
  obtain ⟨_, rfl, _⟩ := (told m trivial).2.2 feed given
  obtain ⟨k, lasts⟩ := law.query c holds sees
  obtain ⟨j, lasting, _⟩ := Feed.start_lasts (b := b) lasts c.direction (t.writes.range c)
  exact ⟨j, lasting⟩

/-! ### Views -/

namespace Attempt
variable {a : Attempt σ} (sees : law.sees h v a.snapshot) (now : Moment)
include sees

theorem agree_get (key : Bytes) :
    Access.Agree (law.Matches h census live n) (a.get b now key) (a.get b now key) :=
  (Access.agree_pass now.gate).bind fun _ => Discretion.Matches.agree_get sees key

theorem agree_query {c : Condition} {read : Feed κ → Access μ α}
    (reads : ∀ k cursor, law.reads h v k cursor →
      Access.Agree (law.Matches h census live n) (read (.plain cursor)) (read (.plain cursor))) :
    Access.Agree (law.Matches h census live n) (a.query b now c >>= read)
      (a.query b now c >>= read) := by
  rw [query, bind_assoc]
  refine (Access.agree_pass now.gate).bind fun _ m m' matching => ?_
  obtain ⟨k, lasts⟩ := law.query c matching.full sees
  exact reads k _ lasts m m' matching

theorem agree_scan (c : Condition) (limit : Nat) :
    Access.Agree (law.Matches h census live n) (a.scan b now c limit) (a.scan b now c limit) :=
  agree_query sees now fun _ _ lasts =>
    Discretion.Matches.agree_take (Feed.lasts_plain lasts) now.gate limit

theorem agree_viewRows (c : Condition) :
    Access.Agree (law.Matches h census live n) (Engine.viewRows b now a c)
      (Engine.viewRows b now a c) :=
  agree_query sees now fun k cursor lasts =>
    Feed.rows_alike Discretion.Matches.polls Discretion.Matches.bounded
      Discretion.Matches.poll_aside now.gate (Feed.lasts_plain lasts) fun m m' matching =>
        Discretion.Matches.bounded cursor k m m' matching lasts

end Attempt

/-! ### Transactions -/

def Discretion.Beside (law : Discretion b τ) (h : History) (census : List Registration)
    (live : Registration → Prop) (n : Nat) (a : Attempt σ) (k : Nat)
    (p p' : Transaction σ × μ) : Prop :=
  p.1.toAttempt = a ∧ p'.1 = p.1.nth k ∧ law.Matches h census live n p.2 p'.2

namespace Transaction
variable {a : Attempt σ} {k : Nat}

theorem agree_onSecond {x y : Access μ α} (agree : Access.Agree (law.Matches h census live n) x y) :
    Access.Agree (law.Beside h census live n a k) (Access.onSecond x) (Access.onSecond y) := by
  rintro ⟨t, m⟩ ⟨_, m'⟩ ⟨rfl, rfl, matching⟩
  obtain ⟨same, matching'⟩ := agree m m' matching
  exact ⟨same, rfl, rfl, matching'⟩

theorem agree_update {f : Transaction σ → Transaction σ}
    (attempt : ∀ t, (f t).toAttempt = t.toAttempt) (nth : ∀ t, f (t.nth k) = (f t).nth k) :
    Access.Agree (law.Beside h census live n a k) (update f) (update f) := by
  rintro ⟨t, m⟩ ⟨_, m'⟩ ⟨rfl, rfl, matching⟩
  exact ⟨rfl, attempt t, nth t, matching⟩

theorem agree_record (range : KeyRange) :
    Access.Agree (law.Beside h census live n a k) (record (μ := μ) range) (record range) :=
  agree_update (fun _ => rfl) fun _ => rfl

theorem agree_current {f : Transaction σ → Access (Transaction σ × μ) α}
    (agree : ∀ t, t.toAttempt = a →
      Access.Agree (law.Beside h census live n a k) (f t) (f (t.nth k))) :
    Access.Agree (law.Beside h census live n a k) (current >>= f) (current >>= f) := by
  rintro ⟨t, m⟩ ⟨_, m'⟩ ⟨rfl, rfl, matching⟩
  exact agree t rfl _ _ ⟨rfl, rfl, matching⟩

theorem agree_stage (now : Moment) (write : Bytes × Option Bytes) :
    Access.Agree (law.Beside h census live n a k) (stage (μ := μ) now write) (stage now write) :=
  (Access.agree_pass now.shut).bind fun _ => agree_update (fun _ => rfl) fun _ => rfl

theorem agree_stageAndCount (now : Moment) (write : Bytes × Option Bytes) :
    Access.Agree (law.Beside h census live n a k) (Engine.stageAndCount (μ := μ) now write)
      (Engine.stageAndCount now write) :=
  (agree_stage now write).bind fun _ => agree_current fun _ _ => Access.agree_pure _

theorem agree_stageAll (now : Moment) (writes : List (Bytes × Option Bytes)) :
    Access.Agree (law.Beside h census live n a k) (Engine.stageAll (μ := μ) now writes)
      (Engine.stageAll now writes) := by
  induction writes with
  | nil => exact Access.agree_pure ()
  | cons write writes ih => exact (agree_stage now write).bind fun _ => ih

section Reading
variable (counted : census[k]? = some a.registration) (now : Moment)
include counted

theorem agree_prepare :
    Access.Agree (law.Beside h census live n a k) (prepare b now) (prepare b now) := by
  refine (Access.agree_pass now.gate).bind fun _ => agree_current ?_
  rintro t rfl
  have beats : Access.Agree (law.Matches h census live n)
      (b.heartbeat now.clock.wall t.registration)
      (b.heartbeat now.clock.wall (t.nth k).registration) := fun m m' matching =>
    ⟨(law.heartbeat _ matching.full (matching.issued_of counted)).1.trans
      (law.heartbeat _ matching.erased (matching.issued_nth counted)).1.symm,
      matching.heartbeat now.clock.wall counted⟩
  have same : (t.nth k).lastHeartbeat = t.lastHeartbeat := rfl
  rw [same]
  split
  · exact (agree_onSecond beats).bind fun _ => agree_update (fun _ => rfl) fun _ => rfl
  · exact Access.agree_pure ()

theorem agree_query (c : Condition) :
    Access.Agree (law.Beside h census live n a k) (Transaction.query b now c)
      (Transaction.query b now c) :=
  (agree_prepare counted now).bind fun _ => (agree_record _).bind fun _ =>
    agree_current fun t _ => Access.agree_pure (t.merged b c)

variable (sees : law.sees h v a.snapshot)
include sees

theorem agree_get (key : Bytes) :
    Access.Agree (law.Beside h census live n a k) (Transaction.get b now key)
      (Transaction.get b now key) := by
  refine (agree_prepare counted now).bind fun _ => (agree_record _).bind fun _ => agree_current ?_
  rintro t rfl
  have staged : (t.nth k).writes.get? key = t.writes.get? key := rfl
  rw [staged]
  cases t.writes.get? key with
  | some value => exact Access.agree_pure value
  | none => exact agree_onSecond (Discretion.Matches.agree_get sees key)

theorem agree_getMany (keys : List Bytes) :
    Access.Agree (law.Beside h census live n a k) (getMany b now keys) (getMany b now keys) := by
  rw [getMany]
  induction keys with
  | nil => exact Access.agree_pure []
  | cons key keys ih =>
    rw [List.mapM_cons]
    exact (agree_get counted now sees key).bind fun _ => ih.bind fun _ => Access.agree_pure _

omit counted in
theorem agree_merged {c : Condition} {read : Feed κ → Access μ α}
    (reads : ∀ j cursor writes, law.reads h v j cursor →
      Access.Agree (law.Matches h census live n) (read (.start c.direction cursor writes))
        (read (.start c.direction cursor writes))) :
    Access.Agree (law.Beside h census live n a k)
      (current >>= fun t => Access.onSecond (read (t.merged b c)))
      (current >>= fun t => Access.onSecond (read (t.merged b c))) := by
  refine agree_current ?_
  rintro t rfl
  refine agree_onSecond fun m m' matching => ?_
  obtain ⟨j, lasts⟩ := law.query c matching.full sees
  exact reads j _ _ lasts m m' matching

theorem agree_queryRows (c : Condition) :
    Access.Agree (law.Beside h census live n a k) (Engine.queryRows b now c)
      (Engine.queryRows b now c) := by
  simp only [Engine.queryRows, query, bind_assoc, pure_bind]
  refine (agree_prepare counted now).bind fun _ => (agree_record _).bind fun _ => ?_
  exact agree_merged sees fun _ cursor writes lasts =>
    Discretion.Matches.agree_rows lasts writes now.gate

theorem agree_scan (c : Condition) (limit : Nat) :
    Access.Agree (law.Beside h census live n a k) (Transaction.scan b now c limit)
      (Transaction.scan b now c limit) := by
  simp only [Transaction.scan, ← bind_assoc (m := Access _) current]
  refine (agree_prepare counted now).bind fun _ => ?_
  refine (agree_merged sees fun _ cursor writes lasts => ?_).bind fun rows => ?_
  · obtain ⟨j, lasting, _⟩ := Feed.start_lasts (b := b) lasts c.direction writes
    exact Discretion.Matches.agree_take lasting now.gate limit
  · exact (agree_record _).bind fun _ => Access.agree_pure rows

end Reading
end Transaction
end OptimisticStore
