import OptimisticStore.Engine.Step
import OptimisticStore.Proofs.Feed

/-! What the reads of an attempt give. First what does not depend on the backend: an operation of
a transaction leaves its attempt and its writes as they are, and its footprint covers all keys
that what it read depends on; reading never makes it cover less. Then, over any backend that keeps
the law, what is given: a view gives what its version has, and a transaction gives that with its
own writes applied. -/

namespace OptimisticStore

def Access.Gives {μ α : Type} (kept : μ → Prop) (x : Access μ α) (told : α → Prop) : Prop :=
  ∀ m, kept m → kept (x m).2 ∧ ∀ a, (x m).1 = .ok a → told a

namespace Access
variable {μ α β : Type} {kept : μ → Prop}

theorem gives_pass (gate : Option Error) : Gives kept (pass gate) fun _ => gate = none := by
  intro m keeps
  cases gate with
  | none => exact ⟨keeps, fun _ _ => rfl⟩
  | some e => exact ⟨keeps, nofun⟩

theorem gives_pure {a : α} {told : α → Prop} (ha : ∀ m, kept m → told a) :
    Gives kept (pure a) told := by
  intro m keeps
  refine ⟨keeps, ?_⟩
  rintro _ ⟨⟩
  exact ha m keeps

theorem Gives.bind {x : Access μ α} {f : α → Access μ β} {told : α → Prop} {told' : β → Prop}
    (hx : Gives kept x told) (hf : ∀ a, told a → Gives kept (f a) told') :
    Gives kept (x >>= f) told' := by
  intro m keeps
  obtain ⟨keeps', gives⟩ := hx m keeps
  rw [bind_apply]
  rcases ran : x m with ⟨e | a, m'⟩
  · rw [ran] at keeps'
    exact ⟨keeps', nofun⟩
  · rw [ran] at keeps' gives
    exact hf a (gives a rfl) m' keeps'

end Access

structure Transaction.Extends {σ : Type} (t t' : Transaction σ) : Prop where
  attempt : t'.toAttempt = t.toAttempt
  writes : t'.writes = t.writes
  covers : ∀ k, t.reads.covers k = true → t'.reads.covers k = true

namespace Transaction.Extends
variable {σ : Type} {t t' t'' : Transaction σ}

theorem refl (t : Transaction σ) : t.Extends t := ⟨rfl, rfl, fun _ covered => covered⟩

theorem trans (first : t.Extends t') (second : t'.Extends t'') : t.Extends t'' where
  attempt := second.attempt.trans first.attempt
  writes := second.writes.trans first.writes
  covers k covered := second.covers k (first.covers k covered)

theorem snapshot (extends' : t.Extends t') : t'.snapshot = t.snapshot :=
  congrArg Attempt.snapshot extends'.attempt

theorem merged {μ κ : Type} (extends' : t.Extends t') (b : Backend μ σ κ) (c : Condition) :
    t'.merged b c = t.merged b c := by
  rw [Transaction.merged, Transaction.merged, extends'.snapshot, extends'.writes]

end Transaction.Extends

/-- The operation keeps what is said of the medium and extends the transaction; what it gives,
and the transaction then, are as told. -/
def Transaction.Reads {μ σ α : Type} (kept : μ → Prop) (t : Transaction σ)
    (x : Access (Transaction σ × μ) α) (told : α → Transaction σ → Prop) : Prop :=
  ∀ m, kept m → kept (x (t, m)).2.2 ∧ t.Extends (x (t, m)).2.1 ∧
    ∀ a, (x (t, m)).1 = .ok a → told a (x (t, m)).2.1

namespace Transaction
variable {μ σ κ α β : Type} {kept : μ → Prop} {t : Transaction σ}

theorem Reads.imp {x : Access (Transaction σ × μ) α} {told told' : α → Transaction σ → Prop}
    (reads : Reads kept t x told) (weaker : ∀ a t', told a t' → told' a t') :
    Reads kept t x told' := by
  intro m keeps
  obtain ⟨keeps', extends', gives⟩ := reads m keeps
  exact ⟨keeps', extends', fun a given => weaker a _ (gives a given)⟩

theorem Reads.bind {x : Access (Transaction σ × μ) α} {f : α → Access (Transaction σ × μ) β}
    {told : α → Transaction σ → Prop} {told' : β → Transaction σ → Prop}
    (hx : Reads kept t x told)
    (hf : ∀ a t', t.Extends t' → told a t' → Reads kept t' (f a) told') :
    Reads kept t (x >>= f) told' := by
  intro m keeps
  obtain ⟨keeps', extends', gives⟩ := hx m keeps
  rw [Access.bind_apply]
  rcases ran : x (t, m) with ⟨e | a, t', m'⟩
  · rw [ran] at keeps' extends'
    exact ⟨keeps', extends', nofun⟩
  · rw [ran] at keeps' extends' gives
    obtain ⟨keeps'', extends'', gives'⟩ := hf a t' extends' (gives a rfl) m' keeps'
    exact ⟨keeps'', extends'.trans extends'', gives'⟩

theorem reads_pure {a : α} {told : α → Transaction σ → Prop} (ha : ∀ m, kept m → told a t) :
    Reads kept t (pure a) told := by
  intro m keeps
  refine ⟨keeps, .refl t, ?_⟩
  rintro _ ⟨⟩
  exact ha m keeps

theorem reads_pass (gate : Option Error) :
    Reads kept t (Access.pass gate) fun _ t' => gate = none ∧ t = t' := by
  intro m keeps
  cases gate with
  | none => exact ⟨keeps, .refl t, fun _ _ => ⟨rfl, rfl⟩⟩
  | some e => exact ⟨keeps, .refl t, nofun⟩

theorem reads_current : Reads kept t current fun a t' => t = a ∧ t = t' := by
  intro m keeps
  refine ⟨keeps, .refl t, ?_⟩
  rintro _ ⟨⟩
  exact ⟨rfl, rfl⟩

theorem reads_record (r : KeyRange) :
    Reads kept t (record r) fun _ t' => ∀ k, r.contains k = true → t'.reads.covers k = true := by
  intro m keeps
  refine ⟨keeps, ⟨rfl, rfl, fun k covered => ?_⟩, fun _ _ k inside => ?_⟩
  · change (t.reads.record r).covers k = true
    rw [ReadFootprint.covers_record, covered, Bool.true_or]
  · change (t.reads.record r).covers k = true
    rw [ReadFootprint.covers_record, inside, Bool.or_true]

theorem reads_onSecond {x : Access μ α} {told : α → Prop} (hx : Access.Gives kept x told) :
    Reads kept t (Access.onSecond x) fun a t' => told a ∧ t = t' := by
  intro m keeps
  obtain ⟨keeps', gives⟩ := hx m keeps
  exact ⟨keeps', .refl t, fun a given => ⟨gives a given, rfl⟩⟩

section Operations
variable {b : Backend μ σ κ} {now : Moment}
  (beats : ∀ m, kept m → kept (b.heartbeat now.clock.wall t.registration m).2)
include beats

theorem reads_prepare : Reads kept t (prepare b now) fun _ _ => now.gate = none := by
  refine (reads_pass now.gate).bind ?_
  rintro _ _ _ ⟨isOpen, rfl⟩
  refine reads_current.bind ?_
  rintro _ _ _ ⟨rfl, rfl⟩
  split
  · have beat : Access.Gives kept (b.heartbeat now.clock.wall t.registration) fun _ => True :=
      fun m keeps => ⟨beats m keeps, fun _ _ => trivial⟩
    refine (reads_onSecond beat).bind ?_
    rintro _ _ _ ⟨_, rfl⟩ m keeps
    exact ⟨keeps, ⟨rfl, rfl, fun _ covered => covered⟩, fun _ _ => isOpen⟩
  · exact reads_pure fun _ _ => isOpen

theorem reads_get {data : OrderedMap Bytes Bytes} {key : Bytes}
    (fetch : Access.Gives kept (b.get t.snapshot key) fun value => value = data.get? key) :
    Reads kept t (Transaction.get b now key) fun value t' =>
      value = (t.writes.onto data).get? key ∧ t'.reads.covers key = true := by
  refine (reads_prepare beats).bind fun _ t₁ prepared _ => ?_
  refine (reads_record (.point key)).bind fun _ t₂ recorded covered => ?_
  refine reads_current.bind ?_
  rintro _ _ _ ⟨rfl, rfl⟩
  have covered := covered key ((KeyRange.contains_point_iff key key).2 rfl)
  have so_far := prepared.trans recorded
  rw [WriteSet.get?_onto, ← so_far.writes]
  cases staged : t₂.writes.get? key with
  | some value => exact reads_pure fun _ _ => ⟨rfl, covered⟩
  | none =>
    rw [← so_far.snapshot] at fetch
    intro m keeps
    obtain ⟨keeps', extends', gives⟩ := reads_onSecond fetch (t := t₂) m keeps
    refine ⟨keeps', extends', fun value given => ?_⟩
    obtain ⟨found, same⟩ := gives value given
    exact ⟨found, extends'.covers key covered⟩

theorem reads_getMany {data : OrderedMap Bytes Bytes} {keys : List Bytes}
    (fetch : ∀ key, Access.Gives kept (b.get t.snapshot key) fun value => value = data.get? key) :
    Reads kept t (Transaction.getMany b now keys) fun values t' =>
      values = keys.map (t.writes.onto data).get? ∧ ∀ key ∈ keys, t'.reads.covers key = true := by
  rw [Transaction.getMany]
  induction keys generalizing t with
  | nil => exact reads_pure fun _ _ => ⟨rfl, nofun⟩
  | cons key keys ih =>
    rw [List.mapM_cons]
    refine (reads_get beats (fetch key)).bind ?_
    rintro _ t₁ first ⟨rfl, covered⟩
    refine (ih (by rwa [first.attempt]) (by rwa [first.snapshot])).bind ?_
    rintro _ t₂ rest ⟨rfl, all⟩
    refine reads_pure fun _ _ => ⟨by rw [first.writes]; rfl, fun other mem => ?_⟩
    rcases List.mem_cons.1 mem with rfl | mem
    · exact rest.covers _ covered
    · exact all other mem

theorem reads_query (c : Condition) :
    Reads kept t (Transaction.query b now c) fun feed t' =>
      now.gate = none ∧ feed = t.merged b c ∧
        ∀ k, c.contains k = true → t'.reads.covers k = true := by
  refine (reads_prepare beats).bind fun _ t₁ prepared isOpen => ?_
  refine (reads_record c.readRange).bind fun _ t₂ recorded covered => ?_
  refine reads_current.bind ?_
  rintro _ _ _ ⟨rfl, rfl⟩
  refine reads_pure fun m keeps => ⟨isOpen, (prepared.trans recorded).merged b c, ?_⟩
  simpa only [c.contains_readRange] using covered

theorem reads_queryRows {c : Condition} {told : List (Bytes × Bytes) → Prop}
    (read : Access.Gives kept ((t.merged b c).rows b none) told) :
    Reads kept t (Engine.queryRows b now c) fun rows t' =>
      told rows ∧ ∀ k, c.contains k = true → t'.reads.covers k = true := by
  refine (reads_query beats c).bind ?_
  rintro _ t' _ ⟨isOpen, rfl, covered⟩ m keeps
  rw [← isOpen] at read
  obtain ⟨keeps', extends', gives⟩ := reads_onSecond read (t := t') m keeps
  exact ⟨keeps', extends', fun rows given =>
    ⟨(gives rows given).1, fun k inside => extends'.covers k (covered k inside)⟩⟩

theorem reads_scan {c : Condition} {limit : Nat} {told : List (Bytes × Bytes) → Prop}
    (taken : Access.Gives kept ((t.merged b c).take b none limit) told) :
    Reads kept t (Transaction.scan b now c limit) fun rows t' =>
      told rows ∧
        ∀ k, (scanned c limit rows).contains k = true → t'.reads.covers k = true := by
  refine (reads_prepare beats).bind fun _ t₁ prepared isOpen => ?_
  refine reads_current.bind ?_
  rintro _ _ _ ⟨rfl, rfl⟩
  rw [← isOpen, ← prepared.merged b c] at taken
  refine (reads_onSecond taken).bind ?_
  rintro rows _ _ ⟨found, rfl⟩
  exact (reads_record _).bind fun _ t₂ _ covered => reads_pure fun _ _ => ⟨found, covered⟩

end Operations
end Transaction

/-! ### Over a backend that keeps the law -/

namespace Law
variable {μ σ κ α β : Type} {b : Backend μ σ κ} (law : Law b)

abbrev Gives (h : History) (x : Access μ α) (told : α → Prop) : Prop :=
  Access.Gives (law.holds h) x told

abbrev Reads (h : History) (t : Transaction σ) (x : Access (Transaction σ × μ) α)
    (told : α → Transaction σ → Prop) : Prop := Transaction.Reads (law.holds h) t x told

variable {law} {h : History} {t : Transaction σ}

theorem gives_fetch {v : Nat} {s : σ} (sees : law.sees h v s) (key : Bytes) :
    law.Gives h (b.get s key) fun value => value = (h.state v).get? key := by
  intro m holds
  obtain ⟨given, after⟩ := law.get key holds sees
  refine ⟨after, fun value found => ?_⟩
  rw [given] at found
  cases found
  rfl

section Views
variable {v : Nat} {a : Attempt σ} (sees : law.sees h v a.snapshot) (now : Moment)
include sees

theorem gives_get (key : Bytes) :
    law.Gives h (a.get b now key) fun value => value = (h.state v).get? key :=
  (Access.gives_pass now.gate).bind fun _ _ => gives_fetch sees key

theorem gives_query (c : Condition) :
    law.Gives h (a.query b now c) fun feed =>
      now.gate = none ∧ feed.Owes (law.owes h) (c.select (h.state v)) :=
  (Access.gives_pass now.gate).bind fun _ isOpen =>
    Access.gives_pure fun _ holds => ⟨isOpen, law.query c holds sees⟩

end Views

theorem gives_take {feed : Feed κ} {rows : List (Bytes × Bytes)}
    (debt : feed.Owes (law.owes h) rows) {gate : Option Error} (isOpen : gate = none)
    (limit : Nat) : law.Gives h (feed.take b gate limit) fun given => given = rows.take limit := by
  intro m holds
  obtain ⟨m', taken, holds'⟩ :=
    Feed.take_owes (law.pays h) (fun _ _ _ => law.bounded) holds debt limit
  rw [isOpen, taken]
  refine ⟨holds', ?_⟩
  rintro _ ⟨⟩
  rfl

theorem gives_rows {feed : Feed κ} {rows : List (Bytes × Bytes)}
    (debt : feed.Owes (law.owes h) rows) {gate : Option Error} (isOpen : gate = none) :
    law.Gives h (feed.rows b gate) fun given => given = rows := by
  intro m holds
  obtain ⟨m', read, holds'⟩ := Feed.rows_owes (law.pays h) (fun _ _ _ => law.bounded) holds debt
  rw [isOpen, read]
  refine ⟨holds', ?_⟩
  rintro _ ⟨⟩
  rfl

section Views
variable {v : Nat} {a : Attempt σ} (sees : law.sees h v a.snapshot) (now : Moment)
include sees

theorem gives_scan (c : Condition) (limit : Nat) :
    law.Gives h (a.scan b now c limit) fun rows => rows = (c.select (h.state v)).take limit :=
  (gives_query sees now c).bind fun _ ⟨isOpen, debt⟩ => gives_take debt isOpen limit

theorem gives_viewRows (c : Condition) :
    law.Gives h (Engine.viewRows b now a c) fun rows => rows = c.select (h.state v) :=
  (gives_query sees now c).bind fun _ ⟨isOpen, debt⟩ => gives_rows debt isOpen

end Views

theorem beats (now : Moment) (r : Registration) (m : μ) (holds : law.holds h m) :
    law.holds h (b.heartbeat now.clock.wall r m).2 := law.heartbeat now.clock.wall r holds

section Transactions
variable {v : Nat} (sees : law.sees h v t.snapshot) (now : Moment)
include sees

theorem reads_get (key : Bytes) :
    law.Reads h t (Transaction.get b now key) fun value t' =>
      value = (t.writes.onto (h.state v)).get? key ∧ t'.reads.covers key = true :=
  Transaction.reads_get (law.beats now t.registration) (gives_fetch sees key)

theorem reads_getMany (keys : List Bytes) :
    law.Reads h t (Transaction.getMany b now keys) fun values t' =>
      values = keys.map (t.writes.onto (h.state v)).get? ∧
        ∀ key ∈ keys, t'.reads.covers key = true :=
  Transaction.reads_getMany (law.beats now t.registration) (gives_fetch sees)

theorem merged_owes {m : μ} (holds : law.holds h m) (c : Condition) :
    (t.merged b c).Owes (law.owes h) (c.select (t.writes.onto (h.state v))) :=
  Feed.start_owes (law.query c holds sees) t.writes

theorem reads_query (c : Condition) :
    law.Reads h t (Transaction.query b now c) fun feed t' =>
      now.gate = none ∧ feed.Owes (law.owes h) (c.select (t.writes.onto (h.state v))) ∧
        ∀ k, c.contains k = true → t'.reads.covers k = true := by
  intro m holds
  obtain ⟨holds', extends', gives⟩ :=
    Transaction.reads_query (law.beats now t.registration) c (t := t) m holds
  refine ⟨holds', extends', fun feed given => ?_⟩
  obtain ⟨isOpen, rfl, covered⟩ := gives feed given
  exact ⟨isOpen, merged_owes sees holds c, covered⟩

theorem reads_queryRows (c : Condition) :
    law.Reads h t (Engine.queryRows b now c) fun rows t' =>
      rows = c.select (t.writes.onto (h.state v)) ∧
        ∀ k, c.contains k = true → t'.reads.covers k = true :=
  Transaction.reads_queryRows (law.beats now t.registration) fun m holds =>
    gives_rows (merged_owes sees holds c) rfl m holds

theorem reads_scan (c : Condition) (limit : Nat) :
    law.Reads h t (Transaction.scan b now c limit) fun rows t' =>
      rows = (c.select (t.writes.onto (h.state v))).take limit ∧
        ∀ k, (Transaction.scanned c limit rows).contains k = true →
          t'.reads.covers k = true :=
  Transaction.reads_scan (law.beats now t.registration) fun m holds =>
    gives_take (merged_owes sees holds c) rfl limit m holds

end Transactions
end Law

end OptimisticStore
