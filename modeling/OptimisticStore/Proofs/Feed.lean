import OptimisticStore.Overlay
import OptimisticStore.Proofs.Law
import OptimisticStore.Proofs.Overlay

/-! The feed of a stream gives what its snapshot and its staged writes owe, row by row, as long
as the gate is open. A closed gate lets no row through. Whatever the gate and the state of a
feed are, asking it leaves the store with its history. -/

namespace OptimisticStore

open MergeEntry

section Owing
variable {κ : Type} (owes : List (Bytes × Bytes) → κ → Prop)

def LaneSource.Owes (es : List MergeEntry) : LaneSource κ → Prop
  | .committed cursor => ∃ rows, owes rows cursor ∧ es = rows.map ofRow
  | .staged writes => es = writes.map ofWrite

/-- The item at hand comes before what its source owes, and is no failure. -/
def Lane.Owes (es : List MergeEntry) (lane : Lane κ) : Prop :=
  match lane.item with
  | none => lane.source.Owes owes es
  | some (.ok e) => ∃ rest, lane.source.Owes owes rest ∧ es = e :: rest
  | some (.error _) => False

/-- What the lanes owe together. The leading one of two lanes may have an item at hand only if
it goes before the item of the other. -/
inductive Lanes.Owes (d : Direction) : List MergeEntry → List (Lane κ) → Prop
  | none : Owes d [] []
  | one {es : List MergeEntry} {lane : Lane κ} (debt : lane.Owes owes es) : Owes d es [lane]
  | two {es fs : List MergeEntry} {lane other : Lane κ} (debt : lane.Owes owes es)
      (debt' : other.Owes owes fs) (apart : ∀ e ∈ es, ∀ f ∈ fs, e.staged ≠ f.staged)
      (led : ∀ e, lane.item = some (.ok e) → ∃ f, other.item = some (.ok f) ∧ e.leads d f = true) :
      Owes d (es.merge fs (leads d)) [lane, other]

def Overlay.Owes (rows : List (Bytes × Bytes)) (o : Overlay κ) : Prop :=
  ∃ held es, o.held = held.map .ok ∧ Lanes.Owes owes o.direction es o.lanes ∧
    rows = given held es

def Feed.Owes (rows : List (Bytes × Bytes)) : Feed κ → Prop
  | .plain cursor | .guarded cursor => owes rows cursor
  | .overlaid o => o.Owes owes rows

variable {owes}

theorem Lane.Owes.of_item {lane : Lane κ} {es : List MergeEntry} {item : MergeItem}
    (debt : lane.Owes owes es) (hand : lane.item = some item) :
    ∃ e rest, item = .ok e ∧ lane.source.Owes owes rest ∧ es = e :: rest := by
  rw [Lane.Owes, hand] at debt
  cases item with
  | error failure => exact debt.elim
  | ok e =>
    obtain ⟨rest, debt, rfl⟩ := debt
    exact ⟨e, rest, rfl, debt, rfl⟩

theorem Lane.Owes.mono {owes' : List (Bytes × Bytes) → κ → Prop}
    (more : ∀ rows c, owes rows c → owes' rows c) {lane : Lane κ} {es : List MergeEntry}
    (debt : lane.Owes owes es) : lane.Owes owes' es := by
  have source {es : List MergeEntry} (debt : lane.source.Owes owes es) :
      lane.source.Owes owes' es := by
    revert debt
    cases lane.source with
    | staged writes => exact id
    | committed cursor => exact fun ⟨rows, debt, same⟩ => ⟨rows, more rows cursor debt, same⟩
  rw [Lane.Owes] at debt ⊢
  split at debt
  · exact source debt
  · obtain ⟨rest, debt, same⟩ := debt
    exact ⟨rest, source debt, same⟩
  · exact debt

theorem Lanes.Owes.mono {owes' : List (Bytes × Bytes) → κ → Prop}
    (more : ∀ rows c, owes rows c → owes' rows c) {d : Direction} {es : List MergeEntry}
    {lanes : List (Lane κ)} (debt : Lanes.Owes owes d es lanes) : Lanes.Owes owes' d es lanes := by
  cases debt with
  | none => exact .none
  | one debt => exact .one (debt.mono more)
  | two debt debt' apart led => exact .two (debt.mono more) (debt'.mono more) apart led

theorem Feed.Owes.mono {owes' : List (Bytes × Bytes) → κ → Prop}
    (more : ∀ rows c, owes rows c → owes' rows c) {feed : Feed κ} {rows : List (Bytes × Bytes)}
    (debt : feed.Owes owes rows) : feed.Owes owes' rows := by
  cases feed with
  | plain cursor => exact more rows cursor debt
  | guarded cursor => exact more rows cursor debt
  | overlaid o =>
    obtain ⟨held, es, waits, debt, same⟩ := debt
    exact ⟨held, es, waits, debt.mono more, same⟩

end Owing

section Paying
variable {μ σ κ : Type} {b : Backend μ σ κ} {kept : μ → Prop}
  {owes : List (Bytes × Bytes) → κ → Prop}

namespace Overlay

theorem ask_owes (pays : b.Pays kept owes) {source : LaneSource κ} {es : List MergeEntry} {m : μ}
    (keeps : kept m) (debt : source.Owes owes es) :
    ∃ m', kept m' ∧
      (es = [] ∧ ask b none source m = (none, m') ∨
        ∃ e rest source', es = e :: rest ∧ ask b none source m = (some (.ok e, source'), m') ∧
          source'.Owes owes rest) := by
  cases source with
  | staged writes =>
    obtain rfl : es = writes.map ofWrite := debt
    refine ⟨m, keeps, ?_⟩
    cases writes with
    | nil => exact .inl ⟨rfl, rfl⟩
    | cons write writes => exact .inr ⟨_, _, .staged writes, rfl, rfl, rfl⟩
  | committed cursor =>
    obtain ⟨rows, debt, rfl⟩ := debt
    obtain ⟨cursor', m', polled, keeps', debt'⟩ := pays rows cursor m keeps debt
    refine ⟨m', keeps', ?_⟩
    cases rows with
    | nil =>
      refine .inl ⟨rfl, ?_⟩
      simp only [ask, polled, List.head?_nil, Option.map_none]
    | cons row rows =>
      refine .inr ⟨ofRow row, rows.map ofRow, .committed cursor', rfl, ?_,
        ⟨rows, debt' (by simp), rfl⟩⟩
      simp only [ask, polled, List.head?_cons, Option.map_some]
      rfl

def lacking (lanes : List (Lane κ)) : Nat := lanes.countP (·.item.isNone)

theorem place_owes {d : Direction} {lane other : Lane κ} {e : MergeEntry}
    {es fs : List MergeEntry} (item : lane.item = some (.ok e)) (debt : lane.Owes owes (e :: es))
    (debt' : other.Owes owes fs) (apart : ∀ x ∈ e :: es, ∀ f ∈ fs, x.staged ≠ f.staged) :
    Lanes.Owes owes d ((e :: es).merge fs (leads d)) (place d lane [other]) ∧
      lacking (place d lane [other]) = lacking [other] := by
  have swapped : lacking [other, lane] = lacking [other] := by
    simp [lacking, List.countP_cons, item]
  have kept : lacking [lane, other] = lacking [other] := by
    simp [lacking, List.countP_cons, item]
  have apart' : ∀ f ∈ fs, ∀ x ∈ e :: es, f.staged ≠ x.staged :=
    fun f hf x hx => (apart x hx f hf).symm
  cases hand : other.item with
  | none =>
    simp only [place, item, hand, Bool.false_eq_true, if_false]
    rw [merge_comm apart]
    exact ⟨.two debt' debt apart' (by simp [hand]), swapped⟩
  | some item' =>
    obtain ⟨f, rest, rfl, _, rfl⟩ := debt'.of_item hand
    simp only [place, item, hand, MergeItem.leads]
    cases first : e.leads d f with
    | true =>
      refine ⟨.two debt debt' apart fun x hx => ⟨f, hand, ?_⟩, kept⟩
      cases item.symm.trans hx
      exact first
    | false =>
      rw [merge_comm apart]
      refine ⟨.two debt' debt apart' fun x hx => ⟨e, item, ?_⟩, swapped⟩
      cases hand.symm.trans hx
      rw [leads_eq_not (apart' f List.mem_cons_self e List.mem_cons_self), first]
      rfl

theorem merge_of_item {d : Direction} {lane : Lane κ} {e : MergeEntry} (fuel : Nat)
    (others : List (Lane κ)) (m : μ) (item : lane.item = some (.ok e)) :
    merge b none d (fuel + 1) (lane :: others) m =
      (some (.ok e), { lane with item := none } :: others, m) := by
  simp only [merge, item]

/-- A merge gives the first entry that its lanes owe. -/
theorem merge_owes (pays : b.Pays kept owes) {d : Direction} {fuel : Nat} {es : List MergeEntry}
    {lanes : List (Lane κ)} {m : μ} (keeps : kept m) (debt : Lanes.Owes owes d es lanes)
    (enough : lacking lanes < fuel) :
    ∃ lanes' m', merge b none d fuel lanes m = (es.head?.map .ok, lanes', m') ∧ kept m' ∧
      Lanes.Owes owes d es.tail lanes' := by
  -- each round either gives an item at hand or asks one lane, which then lacks none
  induction fuel generalizing es lanes m with
  | zero => omega
  | succ fuel ih =>
    cases debt with
    | none => exact ⟨[], m, by simp [merge], keeps, .none⟩
    | @one es lane debt =>
      cases hand : lane.item with
      | some item =>
        obtain ⟨e, rest, rfl, left, rfl⟩ := debt.of_item hand
        exact ⟨_, m, merge_of_item fuel [] m hand, keeps, .one left⟩
      | none =>
        have alone : lacking [lane] = 1 := by simp [lacking, hand]
        rw [Lane.Owes, hand] at debt
        obtain ⟨m', keeps', ⟨rfl, asked⟩ | ⟨e, rest, source, rfl, asked, debt'⟩⟩ :=
          ask_owes pays keeps debt
        · simp only [merge, hand, asked]
          refine ih keeps' .none ?_
          simp only [lacking, List.countP_nil]
          omega
        · simp only [merge, hand, asked, place]
          refine ih keeps' (.one ⟨rest, debt', rfl⟩) ?_
          simp only [lacking, List.countP_singleton, Option.isNone_some, Bool.false_eq_true,
            if_false]
          omega
    | @two es fs lane other debt debt' apart led =>
      cases hand : lane.item with
      | some item =>
        obtain ⟨e, rest, rfl, left, rfl⟩ := debt.of_item hand
        obtain ⟨f, hand', first⟩ := led e hand
        obtain ⟨f', rest', same, _, rfl⟩ := debt'.of_item hand'
        cases same
        have given := merge_of_item (b := b) (d := d) fuel [other] m hand
        rw [List.cons_merge_cons, if_pos first]
        exact ⟨_, m, given, keeps,
          .two left debt' (fun x hx => apart x (List.mem_cons_of_mem e hx)) nofun⟩
      | none =>
        have fewer : lacking [lane, other] = lacking [other] + 1 := by
          simp [lacking, List.countP_cons, hand]
        rw [Lane.Owes, hand] at debt
        obtain ⟨m', keeps', ⟨rfl, asked⟩ | ⟨e, rest, source, rfl, asked, after⟩⟩ :=
          ask_owes pays keeps debt
        · simp only [merge, hand, asked, List.nil_merge]
          exact ih keeps' (.one debt') (by omega)
        · have lane' : Lane.Owes owes (e :: rest) ⟨source, some (.ok e)⟩ := ⟨rest, after, rfl⟩
          obtain ⟨placed, alike⟩ := place_owes (d := d) rfl lane' debt' apart
          simp only [merge, hand, asked]
          exact ih keeps' placed (by omega)

/-- Three rounds for each lane are enough. -/
theorem merge_enough (pays : b.Pays kept owes) {d : Direction} {es : List MergeEntry}
    {lanes : List (Lane κ)} {m : μ} (keeps : kept m) (debt : Lanes.Owes owes d es lanes) :
    ∃ lanes' m', merge b none d (3 * lanes.length) lanes m = (es.head?.map .ok, lanes', m') ∧
      kept m' ∧ Lanes.Owes owes d es.tail lanes' := by
  cases lanes with
  | nil =>
    cases debt
    exact ⟨[], m, by simp [merge], keeps, .none⟩
  | cons lane lanes =>
    have some_of_them : lacking (lane :: lanes) ≤ (lane :: lanes).length := List.countP_le_length
    refine merge_owes pays keeps debt ?_
    rw [List.length_cons] at *
    omega

theorem reveal_ok (e : MergeEntry) : reveal (.ok e) = e.shown.head?.map .ok := by
  rw [reveal, shown]
  cases e.value <;> rfl

section Rounds
variable {gate : Option Error} {fuel : Nat} {o : Overlay κ} {held : Option MergeEntry}
  {lanes : List (Lane κ)} {m m' : μ} (waits : o.held = held.map .ok)
include waits

/-- A round in which the lanes give an entry: what is owed stays and another entry is held back, or
the first row is given and the entry held back is this one. -/
theorem pull_entry {e : MergeEntry}
    (merged : merge b gate o.direction (3 * o.lanes.length) o.lanes m = (some (.ok e), lanes, m'))
    (es : List MergeEntry) :
    (∃ held', o.pull b gate (fuel + 1) m =
        Overlay.pull b gate fuel { o with lanes, held := some (.ok held') } m' ∧
      given held (e :: es) = given (some held') es ∧
      ∀ d, (held.toList ++ e :: es).Pairwise (MergeEntry.Follows d) →
        (held' :: es).Pairwise (MergeEntry.Follows d)) ∨
    ∃ row, o.pull b gate (fuel + 1) m =
        (some (.ok row), { o with lanes, held := some (.ok e) }, m') ∧
      given held (e :: es) = row :: given (some e) es := by
  cases held with
  | none =>
    simp only [pull, merged, waits, Option.map_none]
    exact .inl ⟨e, rfl, rfl, fun _ sorted => sorted⟩
  | some held =>
    simp only [pull, merged, waits, Option.map_some, MergeItem.combine, given]
    cases joined : held.combine e with
    | some joined' =>
      refine .inl ⟨joined', rfl, rfl, fun d sorted => ?_⟩
      rw [combine_of_follows ((List.pairwise_cons.1 sorted).1 e List.mem_cons_self) joined]
      exact sorted.sublist (.cons_cons held (List.sublist_cons_self e es))
    | none =>
      simp only [Option.map_none, reveal_ok]
      cases shown : held.shown with
      | nil => exact .inl ⟨e, rfl, rfl, fun _ sorted => (List.pairwise_cons.1 sorted).2⟩
      | cons row more =>
        have alone : more = [] := by rw [← held.tail_shown, shown, List.tail_cons]
        rw [alone]
        exact .inr ⟨row, rfl, rfl⟩

theorem pull_end
    (merged : merge b gate o.direction (3 * o.lanes.length) o.lanes m = (none, lanes, m')) :
    o.pull b gate (fuel + 1) m =
        ((given held []).head?.map .ok, { o with lanes, held := none }, m') ∧
      (given held []).tail = [] := by
  simp only [pull, merged, waits]
  cases held with
  | none => exact ⟨rfl, rfl⟩
  | some held =>
    rw [Option.map_some, Option.bind_some, reveal_ok]
    exact ⟨rfl, held.tail_shown⟩

end Rounds

theorem pull_owes (pays : b.Pays kept owes) {fuel : Nat} {o : Overlay κ}
    {held : Option MergeEntry} {es : List MergeEntry} {m : μ} (keeps : kept m)
    (waits : o.held = held.map .ok) (debt : Lanes.Owes owes o.direction es o.lanes)
    (enough : es.length < fuel) :
    ∃ o' m', o.pull b none fuel m = ((given held es).head?.map .ok, o', m') ∧ kept m' ∧
      (given held es ≠ [] → o'.Owes owes (given held es).tail) := by
  induction fuel generalizing o held es m with
  | zero => omega
  | succ fuel ih =>
    obtain ⟨lanes, m', merged, keeps', debt'⟩ := merge_enough pays keeps debt
    cases es with
    | nil =>
      obtain ⟨ended, last⟩ := pull_end waits merged
      exact ⟨_, m', ended, keeps', fun _ => ⟨none, [], rfl, debt', last⟩⟩
    | cons e es =>
      rw [List.length_cons] at enough
      rcases pull_entry waits merged es with ⟨held', on, same, _⟩ | ⟨row, gave, same⟩
      · rw [on, same]
        exact ih keeps' rfl debt' (by omega)
      · rw [gave, same]
        exact ⟨_, m', rfl, keeps', fun _ => ⟨some e, es, rfl, debt', rfl⟩⟩

end Overlay

section Bounds
variable (bounded : ∀ rows c m, kept m → owes rows c → rows.length ≤ b.itemBound c m)
include bounded

theorem LaneSource.Owes.length_le {source : LaneSource κ} {es : List MergeEntry} {m : μ}
    (debt : source.Owes owes es) (keeps : kept m) : es.length ≤ Overlay.sourceBound b m source := by
  cases source with
  | committed cursor =>
    obtain ⟨rows, debt, rfl⟩ := debt
    rw [List.length_map]
    exact bounded rows cursor m keeps debt
  | staged writes =>
    obtain rfl : es = writes.map ofWrite := debt
    exact Nat.le_of_eq (List.length_map _)

theorem Lane.Owes.length_le {lane : Lane κ} {es : List MergeEntry} {m : μ}
    (debt : lane.Owes owes es) (keeps : kept m) :
    es.length ≤ Overlay.sourceBound b m lane.source + 1 := by
  rw [Lane.Owes] at debt
  split at debt
  · exact Nat.le_succ_of_le (debt.length_le bounded keeps)
  · obtain ⟨rest, debt, rfl⟩ := debt
    exact Nat.succ_le_succ (debt.length_le bounded keeps)
  · exact debt.elim

theorem Lanes.Owes.length_lt {o : Overlay κ} {es : List MergeEntry} {m : μ}
    (debt : Lanes.Owes owes o.direction es o.lanes) (keeps : kept m) :
    es.length < o.itemBound b m := by
  obtain ⟨direction, lanes, held⟩ := o
  rw [Overlay.itemBound]
  cases debt with
  | none => exact Nat.one_pos
  | one debt =>
    have first := debt.length_le bounded keeps
    simp only [List.foldr_cons, List.foldr_nil]
    omega
  | two debt debt' =>
    have first := debt.length_le bounded keeps
    have second := debt'.length_le bounded keeps
    rw [List.length_merge]
    simp only [List.foldr_cons, List.foldr_nil]
    omega

theorem Feed.Owes.length_le {feed : Feed κ} {rows : List (Bytes × Bytes)} {m : μ}
    (debt : feed.Owes owes rows) (keeps : kept m) : rows.length ≤ feed.itemBound b m := by
  cases feed with
  | plain cursor => exact bounded rows cursor m keeps debt
  | guarded cursor => exact bounded rows cursor m keeps debt
  | overlaid o =>
    obtain ⟨held, es, _, debt, rfl⟩ := debt
    have few := length_given_le held es
    have short := debt.length_lt bounded keeps
    exact Nat.le_trans few short

end Bounds

namespace Feed

theorem map_guard_none (item : Option Item) : item.map (guard none) = item := by
  cases item <;> rfl

section Owing
variable (pays : b.Pays kept owes)
  (bounded : ∀ rows c m, kept m → owes rows c → rows.length ≤ b.itemBound c m)
include pays bounded

theorem poll_owes {feed : Feed κ} {rows : List (Bytes × Bytes)} {m : μ} (keeps : kept m)
    (debt : feed.Owes owes rows) :
    ∃ feed' m', feed.poll b none m = (rows.head?.map .ok, feed', m') ∧ kept m' ∧
      (rows ≠ [] → feed'.Owes owes rows.tail) := by
  cases feed with
  | plain cursor =>
    obtain ⟨cursor', m', polled, keeps', debt'⟩ := pays rows cursor m keeps debt
    simp only [poll, polled]
    exact ⟨_, m', rfl, keeps', debt'⟩
  | guarded cursor =>
    obtain ⟨cursor', m', polled, keeps', debt'⟩ := pays rows cursor m keeps debt
    simp only [poll, polled, map_guard_none]
    exact ⟨_, m', rfl, keeps', debt'⟩
  | overlaid o =>
    obtain ⟨held, es, waits, debt, rfl⟩ := debt
    have short := debt.length_lt bounded keeps
    have enough : es.length < o.itemBound b m + 2 := by omega
    obtain ⟨o', m', pulled, keeps', debt'⟩ := o.pull_owes pays keeps waits debt enough
    simp only [poll, pulled, map_guard_none]
    exact ⟨_, m', rfl, keeps', debt'⟩

theorem take_owes {feed : Feed κ} {rows : List (Bytes × Bytes)} {m : μ} (keeps : kept m)
    (debt : feed.Owes owes rows) (limit : Nat) :
    ∃ m', feed.take b none limit m = (.ok (rows.take limit), m') ∧ kept m' := by
  induction limit generalizing feed rows m with
  | zero => exact ⟨m, rfl, keeps⟩
  | succ limit ih =>
    obtain ⟨feed', m', polled, keeps', debt'⟩ := poll_owes pays bounded keeps debt
    rw [take]
    cases rows with
    | nil =>
      simp only [polled, List.head?_nil, Option.map_none]
      exact ⟨m', rfl, keeps'⟩
    | cons row rows =>
      obtain ⟨m'', taken, keeps''⟩ := ih keeps' (debt' (by simp))
      simp only [polled, List.head?_cons, Option.map_some, Access.bind_apply, taken]
      exact ⟨m'', rfl, keeps''⟩

theorem rows_owes {feed : Feed κ} {rows : List (Bytes × Bytes)} {m : μ} (keeps : kept m)
    (debt : feed.Owes owes rows) : ∃ m', feed.rows b none m = (.ok rows, m') ∧ kept m' := by
  have short := debt.length_le bounded keeps
  obtain ⟨m', taken, keeps'⟩ := take_owes pays bounded keeps debt (feed.itemBound b m + 1)
  rw [List.take_of_length_le (Nat.le_succ_of_le short)] at taken
  exact ⟨m', taken, keeps'⟩

end Owing

end Feed

theorem Feed.start_owes {c : Condition} {cursor : κ} {data : OrderedMap Bytes Bytes}
    (debt : owes (c.select data) cursor) (w : WriteSet) :
    (Feed.start c.direction cursor (w.range c)).Owes owes (c.select (w.onto data)) := by
  rw [start]
  split
  · next idle =>
    rw [WriteSet.select_onto_of_range (List.isEmpty_iff.1 idle)]
    exact debt
  · refine ⟨none, w.overlay c data, rfl, .two ⟨_, debt, rfl⟩ rfl ?_ nofun, ?_⟩
    · intro e he f hf
      obtain ⟨row, _, rfl⟩ := List.mem_map.1 he
      obtain ⟨write, _, rfl⟩ := List.mem_map.1 hf
      exact Bool.false_ne_true
    · exact (w.given_overlay c data).symm

end Paying

/-! ### Under any gate -/

section Keeping
variable {μ σ κ : Type} {b : Backend μ σ κ} {kept : μ → Prop}
  (steady : ∀ gate c m, kept m → kept (b.poll gate c m).2.2)
include steady

namespace Overlay

theorem ask_keeps (gate : Option Error) (source : LaneSource κ) {m : μ} (keeps : kept m) :
    kept (ask b gate source m).2 := by
  cases source with
  | staged writes => cases writes <;> exact keeps
  | committed cursor =>
    have after := steady gate cursor m keeps
    rw [ask]
    split
    · next polled =>
      rw [polled] at after
      exact after
    · next polled =>
      rw [polled] at after
      exact after

theorem merge_keeps (gate : Option Error) (d : Direction) (fuel : Nat) (lanes : List (Lane κ))
    {m : μ} (keeps : kept m) : kept (merge b gate d fuel lanes m).2.2 := by
  induction fuel generalizing lanes m with
  | zero => exact keeps
  | succ fuel ih =>
    cases lanes with
    | nil => exact keeps
    | cons lane others =>
      have after := ask_keeps steady gate lane.source keeps
      rw [merge]
      split
      · exact keeps
      · split
        · next asked =>
          rw [asked] at after
          exact ih _ after
        · next asked =>
          rw [asked] at after
          exact ih _ after

theorem pull_keeps (gate : Option Error) (fuel : Nat) (o : Overlay κ) {m : μ} (keeps : kept m) :
    kept (o.pull b gate fuel m).2.2 := by
  induction fuel generalizing o m with
  | zero => exact keeps
  | succ fuel ih =>
    have after := merge_keeps steady gate o.direction (3 * o.lanes.length) o.lanes keeps
    unfold pull
    split
    · next merged =>
      rw [merged] at after
      exact after
    · next merged =>
      rw [merged] at after
      split
      · exact ih _ after
      · split
        · exact ih _ after
        · dsimp only
          split
          · exact after
          · exact ih _ after

end Overlay

theorem Feed.poll_keeps (gate : Option Error) (feed : Feed κ) {m : μ} (keeps : kept m) :
    kept (feed.poll b gate m).2.2 := by
  cases feed with
  | plain cursor => exact steady gate cursor m keeps
  | guarded cursor => exact steady gate cursor m keeps
  | overlaid o => exact o.pull_keeps steady gate (o.itemBound b m + 2) keeps

end Keeping

theorem Feed.poll_shut {μ σ κ : Type} {b : Backend μ σ κ}
    (shut : ∀ e c m row, (b.poll (some e) c m).1 ≠ some (.ok row)) (e : Error) (feed : Feed κ)
    (m : μ) (row : Bytes × Bytes) : (feed.poll b (some e) m).1 ≠ some (.ok row) := by
  have guarded (item : Option Item) : item.map (guard (some e)) ≠ some (.ok row) := by
    cases item <;> simp [guard]
  cases feed with
  | plain cursor => exact shut e cursor m row
  | guarded cursor => exact guarded _
  | overlaid o => exact guarded _

end OptimisticStore
