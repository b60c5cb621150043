import OptimisticStore.Engine.Session
import OptimisticStore.Proofs.Faults
import OptimisticStore.Proofs.Feed
import OptimisticStore.Proofs.Requests

/-! A read of a transaction on a device whose calls may fail. A merge that is under way always
has an item at hand of every lane but the one it asks, and a failure of the lane just asked goes
before that item; so up to the first failure a stream gives what it owes, in order. A merge that
starts has nothing at hand. If the first poll of the committed rows fails, the staged lane is asked
next and keeps the lead before the failure until it has given all it has. -/

namespace OptimisticStore

open MergeEntry

/-- An item at the front of what is owed, or a failure. Behind an item `next` holds of the rest. -/
def Gives {α : Type} (owed : List α) (next : List α → Prop) (item : Option (Except Error α)) :
    Prop :=
  (∃ e, item = some (.error e)) ∨ item = owed.head?.map .ok ∧ (owed ≠ [] → next owed.tail)

theorem Gives.mono {α : Type} {owed : List α} {next next' : List α → Prop}
    {item : Option (Except Error α)} (gives : Gives owed next item)
    (more : ∀ rest, next rest → next' rest) : Gives owed next' item := by
  rcases gives with failed | ⟨given, after⟩
  · exact .inl failed
  · exact .inr ⟨given, fun some_left => more _ (after some_left)⟩

def Backend.MayPay {μ σ κ : Type} (b : Backend μ σ κ) (kept : μ → Prop)
    (owes : List (Bytes × Bytes) → κ → Prop) : Prop :=
  ∀ owed c m, kept m → owes owed c →
    Gives owed (fun rest => owes rest (b.poll none c m).2.1) (b.poll none c m).1

def Overlay.Ready {κ : Type} (lanes : List (Lane κ)) : Prop :=
  ∀ lane ∈ lanes.tail, lane.item.isSome = true

def Overlay.Merges {κ : Type} (owes : List (Bytes × Bytes) → κ → Prop) (d : Direction)
    (es : List MergeEntry) (item : Option MergeItem) (lanes : List (Lane κ)) : Prop :=
  (∃ e, item = some (.error e)) ∨
    item = es.head?.map .ok ∧ Lanes.Owes owes d es.tail lanes ∧ Ready lanes

/-- The rows that are left to an overlay up to its first failure. -/
def Overlay.Underway {κ : Type} (owes : List (Bytes × Bytes) → κ → Prop)
    (rows : List (Bytes × Bytes)) (o : Overlay κ) : Prop :=
  (∃ e, o.held = some (.error e)) ∨
    ∃ held es, o.held = held.map .ok ∧ Lanes.Owes owes o.direction es o.lanes ∧ Ready o.lanes ∧
      (held.toList ++ es).Pairwise (MergeEntry.Follows o.direction) ∧ rows = given held es

def Feed.Underway {κ : Type} (owes : List (Bytes × Bytes) → κ → Prop)
    (rows : List (Bytes × Bytes)) : Feed κ → Prop
  | .plain cursor | .guarded cursor => owes rows cursor
  | .overlaid o => o.Underway owes rows

theorem Feed.Underway.mono {κ : Type} {owes owes' : List (Bytes × Bytes) → κ → Prop}
    (more : ∀ rows c, owes rows c → owes' rows c) {feed : Feed κ} {rows : List (Bytes × Bytes)}
    (debt : feed.Underway owes rows) : feed.Underway owes' rows := by
  cases feed with
  | plain cursor => exact more rows cursor debt
  | guarded cursor => exact more rows cursor debt
  | overlaid o =>
    rcases debt with broken | ⟨held, es, waits, debt, ready, sorted, same⟩
    · exact .inl broken
    · exact .inr ⟨held, es, waits, debt.mono more, ready, sorted, same⟩

theorem MergeEntry.given_eq_append {d : Direction} {held : MergeEntry} {es : List MergeEntry}
    (sorted : (held :: es).Pairwise (MergeEntry.Follows d)) :
    ∃ rest, given (some held) es = held.shown ++ rest := by
  induction es with
  | nil => exact ⟨[], (List.append_nil _).symm⟩
  | cons e es ih =>
    by_cases same : held.key = e.key
    · rcases (List.pairwise_cons.1 sorted).1 e List.mem_cons_self with before | ⟨_, staged, _⟩
      · exact absurd same before.ne
      · rw [given_of_same same staged]
        exact ih (sorted.sublist (.cons_cons held (List.sublist_cons_self e es)))
    · exact ⟨_, given_of_ne same⟩

section Paying
variable {μ σ κ : Type} {b : Backend μ σ κ} {kept : μ → Prop}
  {owes : List (Bytes × Bytes) → κ → Prop} {d : Direction}

namespace Overlay

theorem ask_may (pays : b.MayPay kept owes) {source : LaneSource κ} {es : List MergeEntry} {m : μ}
    (keeps : kept m) (debt : source.Owes owes es) :
    ∃ r m', ask b none source m = (r, m') ∧
      ((∃ e source', r = some (.error e, source')) ∨ es = [] ∧ r = none ∨
        ∃ e rest source', es = e :: rest ∧ r = some (.ok e, source') ∧
          source'.Owes owes rest) := by
  cases source with
  | staged writes =>
    obtain rfl : es = writes.map ofWrite := debt
    cases writes with
    | nil => exact ⟨_, m, rfl, .inr (.inl ⟨rfl, rfl⟩)⟩
    | cons write writes => exact ⟨_, m, rfl, .inr (.inr ⟨_, _, .staged writes, rfl, rfl, rfl⟩)⟩
  | committed cursor =>
    obtain ⟨rows, debt, rfl⟩ := debt
    have paid := pays rows cursor m keeps debt
    rcases polled : b.poll none cursor m with ⟨item, cursor', m'⟩
    rw [polled] at paid
    rcases paid with ⟨e, rfl⟩ | ⟨rfl, after⟩
    · refine ⟨some (.error e, .committed cursor'), m', ?_, .inl ⟨e, _, rfl⟩⟩
      simp only [ask, polled]
      rfl
    · cases rows with
      | nil => exact ⟨none, m', by simp only [ask, polled, List.head?_nil, Option.map_none],
          .inr (.inl ⟨rfl, rfl⟩)⟩
      | cons row rows =>
        refine ⟨some (.ok (ofRow row), .committed cursor'), m', ?_,
          .inr (.inr ⟨_, _, _, rfl, rfl, rows, after (by simp), rfl⟩)⟩
        simp only [ask, polled, List.head?_cons, Option.map_some]
        rfl

theorem merge_at_hand {es : List MergeEntry} {lane : Lane κ} {others : List (Lane κ)}
    (debt : Lanes.Owes owes d es (lane :: others)) (hand : lane.item.isSome = true) (fuel : Nat)
    (m : μ) : Merges owes d es (merge b none d (fuel + 1) (lane :: others) m).1
      (merge b none d (fuel + 1) (lane :: others) m).2.1 := by
  obtain ⟨item, hand⟩ := Option.isSome_iff_exists.1 hand
  cases debt with
  | one debt =>
    obtain ⟨e, rest, rfl, left, rfl⟩ := debt.of_item hand
    rw [merge_of_item fuel [] m hand]
    exact .inr ⟨rfl, .one left, nofun⟩
  | @two es fs lane other debt debt' apart led =>
    obtain ⟨e, rest, rfl, left, rfl⟩ := debt.of_item hand
    obtain ⟨f, hand', first⟩ := led e hand
    obtain ⟨f', rest', same, _, rfl⟩ := debt'.of_item hand'
    cases same
    rw [merge_of_item fuel [other] m hand, List.cons_merge_cons, if_pos first]
    refine .inr ⟨rfl, .two left debt' (fun x hx => apart x (List.mem_cons_of_mem e hx)) nofun, ?_⟩
    intro lane mem
    rw [List.mem_singleton.1 mem, hand']
    rfl

/-- A failure of the lane just asked goes before the item of the other one. -/
theorem place_error {lane : Lane κ} {e : Error} (failed : lane.item = some (.error e))
    (others : List (Lane κ)) (ready : ∀ other ∈ others, other.item.isSome = true) :
    place d lane others = lane :: others := by
  cases others with
  | nil => rfl
  | cons other rest =>
    obtain ⟨item, hand⟩ := Option.isSome_iff_exists.1 (ready other List.mem_cons_self)
    simp [place, failed, hand, MergeItem.leads]

theorem exists_place (lane : Lane κ) {other : Lane κ} (item : lane.item.isSome = true)
    (item' : other.item.isSome = true) :
    ∃ first rest, place d lane [other] = first :: rest ∧ first.item.isSome = true := by
  have either (keeps : Bool) : ∃ first rest,
      (if keeps then [lane, other] else [other, lane]) = first :: rest ∧
        first.item.isSome = true := by
    cases keeps with
    | true => exact ⟨lane, [other], rfl, item⟩
    | false => exact ⟨other, [lane], rfl, item'⟩
  exact either _

/-- A merge under way gives the first entry that its lanes owe, or fails. -/
theorem merge_may (pays : b.MayPay kept owes) {fuel : Nat} {es : List MergeEntry}
    {lanes : List (Lane κ)} {m : μ} (keeps : kept m) (debt : Lanes.Owes owes d es lanes)
    (ready : Ready lanes) (enough : 2 * lanes.length ≤ fuel) :
    Merges owes d es (merge b none d fuel lanes m).1 (merge b none d fuel lanes m).2.1 := by
  have ended (fuel : Nat) (m : μ) : Merges owes d [] (merge b none d fuel [] m).1
      (merge b none d fuel [] m).2.1 := by
    cases fuel <;> exact .inr ⟨rfl, .none, nofun⟩
  cases lanes with
  | nil =>
    cases debt
    exact ended fuel m
  | cons lane others =>
    rw [List.length_cons] at enough
    obtain ⟨fuel, rfl⟩ : ∃ n, fuel = n + 2 := ⟨fuel - 2, by omega⟩
    cases hand : lane.item with
    | some item => exact merge_at_hand debt (by rw [hand]; rfl) (fuel + 1) m
    | none =>
      -- the other lane is ready, so a failure of the one asked is placed in front of its item
      have failing {source : LaneSource κ} {e : Error} {m' : μ}
          (asked : ask b none lane.source m = (some (.error e, source), m')) :
          Merges owes d es (merge b none d (fuel + 2) (lane :: others) m).1
            (merge b none d (fuel + 2) (lane :: others) m).2.1 := by
        rw [merge, hand]
        simp only [asked]
        rw [place_error rfl others ready]
        exact .inl ⟨e, rfl⟩
      cases debt with
      | one debt =>
        rw [Lane.Owes, hand] at debt
        obtain ⟨r, m', asked, ⟨e, source, rfl⟩ | ⟨rfl, rfl⟩ | ⟨e, rest, source, rfl, rfl, left⟩⟩ :=
          ask_may pays keeps debt
        · exact failing asked
        · rw [merge, hand]
          simp only [asked]
          exact ended (fuel + 1) m'
        · rw [merge, hand]
          simp only [asked, place]
          have at_hand : Lane.Owes owes (e :: rest) ⟨source, some (.ok e)⟩ := ⟨rest, left, rfl⟩
          exact merge_at_hand (.one at_hand) rfl fuel m'
      | @two es fs lane other debt debt' apart led =>
        have at_hand := ready other List.mem_cons_self
        rw [Lane.Owes, hand] at debt
        obtain ⟨r, m', asked, ⟨e, source, rfl⟩ | ⟨rfl, rfl⟩ | ⟨e, rest, source, rfl, rfl, left⟩⟩ :=
          ask_may pays keeps debt
        · exact failing asked
        · rw [merge, hand]
          simp only [asked, List.nil_merge]
          exact merge_at_hand (.one debt') at_hand fuel m'
        · have lane' : Lane.Owes owes (e :: rest) ⟨source, some (.ok e)⟩ := ⟨rest, left, rfl⟩
          obtain ⟨placed, _⟩ := place_owes (d := d) rfl lane' debt' apart
          obtain ⟨first, others, order, hand'⟩ :=
            exists_place (d := d) ⟨source, some (.ok e)⟩ rfl at_hand
          rw [merge, hand]
          simp only [asked]
          rw [order] at placed ⊢
          exact merge_at_hand placed hand' fuel m'

theorem pull_broken {o : Overlay κ} {e : Error} (held : o.held = some (.error e))
    (gate : Option Error) {fuel : Nat} (pos : 0 < fuel) (m : μ) :
    (o.pull b gate fuel m).1 = some (.error e) := by
  obtain ⟨fuel, rfl⟩ : ∃ n, fuel = n + 1 := ⟨fuel - 1, by omega⟩
  rw [pull]
  rcases merge b gate o.direction (3 * o.lanes.length) o.lanes m with ⟨_ | item, lanes, m'⟩
  · simp only [held, Option.bind_some, reveal]
  · simp only [held, MergeItem.combine, reveal]

theorem pull_failed {gate : Option Error} {fuel : Nat} {o : Overlay κ} {held : Option MergeEntry}
    {e : Error} {lanes : List (Lane κ)} {m m' : μ} (waits : o.held = held.map .ok)
    (merged : merge b gate o.direction (3 * o.lanes.length) o.lanes m =
      (some (.error e), lanes, m')) (pos : 0 < fuel) :
    (o.pull b gate (fuel + 1) m).1 = some ((given held []).head?.elim (.error e) .ok) ∧
      (given held [] ≠ [] → (o.pull b gate (fuel + 1) m).2.1.held = some (.error e)) ∧
      (given held []).tail = [] := by
  have broken := pull_broken (b := b) (o := { o with lanes, held := some (.error e) }) rfl gate pos
    m'
  cases held with
  | none =>
    simp only [pull, merged, waits, Option.map_none]
    exact ⟨broken, fun some_row => absurd rfl some_row, rfl⟩
  | some held =>
    simp only [pull, merged, waits, Option.map_some, MergeItem.combine, reveal_ok, given]
    cases shown : held.shown with
    | nil => exact ⟨broken, fun some_row => absurd rfl some_row, rfl⟩
    | cons row more => exact ⟨rfl, fun _ => rfl, by rw [← held.tail_shown, shown]⟩

section Pulling
variable (pays : b.MayPay kept owes)
  (steady : ∀ gate c m, kept m → kept (b.poll gate c m).2.2)
include pays steady

/-- An overlay gives the first row that it owes, or fails. If a failure comes behind the row that
is held back, that row is the first one owed. -/
theorem pull_may {fuel : Nat} {o : Overlay κ} {held : Option MergeEntry} {es : List MergeEntry}
    {m : μ} (keeps : kept m) (waits : o.held = held.map .ok)
    (first : Merges owes o.direction es
      (merge b none o.direction (3 * o.lanes.length) o.lanes m).1
      (merge b none o.direction (3 * o.lanes.length) o.lanes m).2.1)
    (sorted : (held.toList ++ es).Pairwise (MergeEntry.Follows o.direction))
    (enough : es.length + 1 < fuel) :
    Gives (given held es) (fun rest => (o.pull b none fuel m).2.1.Underway owes rest)
      (o.pull b none fuel m).1 := by
  induction fuel generalizing o held es m with
  | zero => omega
  | succ fuel ih =>
    have keeps' := merge_keeps steady none o.direction (3 * o.lanes.length) o.lanes keeps
    rcases merged : merge b none o.direction (3 * o.lanes.length) o.lanes m with ⟨item, lanes, m'⟩
    rw [merged] at first keeps'
    rcases first with ⟨e, rfl⟩ | ⟨rfl, debt, ready⟩
    · obtain ⟨gave, left, _⟩ := pull_failed waits merged (by omega : 0 < fuel)
      rw [gave]
      cases held with
      | none => exact .inl ⟨e, rfl⟩
      | some held =>
        obtain ⟨rest, front⟩ := given_eq_append (show (held :: es).Pairwise _ from sorted)
        cases shown : held.shown with
        | nil => exact .inl ⟨e, by rw [given, shown]; rfl⟩
        | cons row more =>
          rw [given, shown] at left
          rw [front, given, shown]
          exact .inr ⟨rfl, fun _ => .inl ⟨e, left (List.cons_ne_nil row more)⟩⟩
    · cases es with
      | nil =>
        obtain ⟨ended, last⟩ := pull_end waits merged
        rw [ended]
        exact .inr ⟨rfl, fun _ => .inr ⟨none, [], rfl, debt, ready, .nil, last⟩⟩
      | cons e es =>
        rw [List.length_cons] at enough
        rcases pull_entry waits merged es with ⟨held', on, same, order⟩ | ⟨row, gave, same⟩
        · rw [on, same]
          exact ih keeps' rfl (merge_may pays keeps' debt ready (by omega)) (order _ sorted)
            (by omega)
        · rw [gave, same]
          have behind := sorted.sublist (List.sublist_append_right held.toList (e :: es))
          exact .inr ⟨rfl, fun _ => .inr ⟨some e, es, rfl, debt, ready, behind, rfl⟩⟩

theorem merge_start {fuel : Nat} {rows : List (Bytes × Bytes)} {cursor : κ} {m : μ}
    (keeps : kept m) (debt : owes rows cursor) (writes : List (Bytes × Option Bytes))
    (found : ∀ e, (b.poll none cursor m).1 ≠ some (.error e)) :
    Merges owes d ((rows.map ofRow).merge (writes.map ofWrite) (leads d))
      (merge b none d (fuel + 5) (start d cursor writes).lanes m).1
      (merge b none d (fuel + 5) (start d cursor writes).lanes m).2.1 := by
  have staged : Lane.Owes owes (writes.map ofWrite) ⟨.staged writes, none⟩ := rfl
  have paid := pays rows cursor m keeps debt
  have keeps' := steady none cursor m keeps
  rcases polled : b.poll none cursor m with ⟨item, cursor', m'⟩
  rw [polled] at paid keeps' found
  rcases paid with ⟨e, rfl⟩ | ⟨rfl, after⟩
  · exact absurd rfl (found e)
  · cases rows with
    | nil =>
      rw [start, merge]
      simp only [ask, polled, List.head?_nil, Option.map_none, List.map_nil, List.nil_merge]
      refine merge_may pays keeps' (.one staged) (by rintro _ ⟨⟩) ?_
      rw [List.length_singleton]
      omega
    | cons row rows =>
      have lane : Lane.Owes owes ((row :: rows).map ofRow)
        ⟨.committed cursor', some (.ok (ofRow row))⟩ := ⟨_, ⟨rows, after (by simp), rfl⟩, rfl⟩
      have apart : ∀ f ∈ writes.map ofWrite, ∀ e ∈ (row :: rows).map ofRow,
          f.staged ≠ e.staged := by
        intro f hf e he
        obtain ⟨row, _, rfl⟩ := List.mem_map.1 he
        obtain ⟨write, _, rfl⟩ := List.mem_map.1 hf
        exact Bool.false_ne_true.symm
      have lanes : Lanes.Owes owes d _ [⟨.staged writes, none⟩, _] :=
        .two staged lane apart (by rintro _ ⟨⟩)
      rw [start, merge]
      simp only [ask, polled, List.head?_cons, Option.map_some]
      rw [← merge_comm apart]
      refine merge_may pays keeps' lanes ?_ (Nat.le_add_left 4 fuel)
      intro other mem
      rw [List.mem_singleton.1 mem]
      rfl

end Pulling

/-! ### A failure of the first item asked for -/

/-- The staged lane alone still gives, and the failure that waits behind it comes last. -/
def Cut (e : Error) (rows : List (Bytes × Bytes)) (o : Overlay κ) : Prop :=
  o.held = some (.error e) ∧ rows = [] ∨
    ∃ held writes source, o.held = held.map .ok ∧
      o.lanes = [⟨.staged writes, none⟩, ⟨source, some (.error e)⟩] ∧
      (held.toList ++ writes.map ofWrite).Pairwise (MergeEntry.Follows o.direction) ∧
      rows = given held (writes.map ofWrite)

theorem merge_cut {e : Error} (fuel : Nat) (writes : List (Bytes × Option Bytes))
    (source : LaneSource κ) (m : μ) :
    merge b none d (fuel + 2) [⟨.staged writes, none⟩, ⟨source, some (.error e)⟩] m =
      match writes with
      | [] => (some (.error e), [⟨source, none⟩], m)
      | write :: writes =>
        (some (.ok (ofWrite write)), [⟨.staged writes, none⟩, ⟨source, some (.error e)⟩], m) := by
  cases writes <;> rfl

/-- An overlay that has failed at once gives the rows of its staged writes, and then fails. -/
theorem pull_cut {e : Error} {fuel : Nat} {o : Overlay κ} {held : Option MergeEntry}
    {writes : List (Bytes × Option Bytes)} {source : LaneSource κ} {m : μ}
    (waits : o.held = held.map .ok)
    (lanes : o.lanes = [⟨.staged writes, none⟩, ⟨source, some (.error e)⟩])
    (sorted : (held.toList ++ writes.map ofWrite).Pairwise (MergeEntry.Follows o.direction))
    (enough : writes.length + 1 < fuel) :
    let rows := given held (writes.map ofWrite)
    (o.pull b none fuel m).1 = some (rows.head?.elim (.error e) .ok) ∧
      (rows ≠ [] → (o.pull b none fuel m).2.1.Cut e rows.tail) := by
  induction fuel generalizing o held writes with
  | zero => omega
  | succ fuel ih =>
    have merged := merge_cut (b := b) (d := o.direction) (e := e) 4 writes source m
    have rounds : 3 * o.lanes.length = 4 + 2 := by rw [lanes]; rfl
    rw [← lanes, ← rounds] at merged
    cases writes with
    | nil =>
      obtain ⟨gave, left, last⟩ := pull_failed waits merged (by omega : 0 < fuel)
      exact ⟨gave, fun some_row => .inl ⟨left some_row, last⟩⟩
    | cons write writes =>
      rw [List.length_cons] at enough
      rcases pull_entry waits merged (writes.map ofWrite) with
        ⟨held', on, same, order⟩ | ⟨row, gave, same⟩
      · rw [on, List.map_cons, same]
        exact ih rfl rfl (order _ sorted) (by omega)
      · rw [gave, List.map_cons, same]
        have behind := sorted.sublist (List.sublist_append_right held.toList _)
        exact ⟨rfl, fun _ => .inr ⟨some (ofWrite write), writes, source, rfl, rfl, behind, rfl⟩⟩

theorem merge_start_cut {e : Error} (fuel : Nat) {cursor : κ} {m : μ}
    (failed : (b.poll none cursor m).1 = some (.error e)) (writes : List (Bytes × Option Bytes)) :
    ∃ source m', merge b none d (fuel + 1) (start d cursor writes).lanes m =
      merge b none d fuel [⟨.staged writes, none⟩, ⟨source, some (.error e)⟩] m' := by
  rcases polled : b.poll none cursor m with ⟨item, cursor', m'⟩
  rw [polled] at failed
  obtain rfl : item = some (.error e) := failed
  refine ⟨.committed cursor', m', ?_⟩
  rw [start, merge]
  simp only [ask, polled]
  rfl

theorem pull_congr {gate : Option Error} {held : Option MergeItem} {lanes lanes' : List (Lane κ)}
    {m m' : μ} (same : merge b gate d (3 * lanes.length) lanes m =
      merge b gate d (3 * lanes'.length) lanes' m') (fuel : Nat) :
    Overlay.pull b gate (fuel + 1) ⟨d, lanes, held⟩ m =
      Overlay.pull b gate (fuel + 1) ⟨d, lanes', held⟩ m' := by
  simp only [pull, same]

theorem pull_start_cut {e : Error} {cursor : κ} {m : μ}
    (failed : (b.poll none cursor m).1 = some (.error e)) (writes : List (Bytes × Option Bytes))
    (fuel : Nat) :
    ∃ source m', (start d cursor writes).pull b none (fuel + 1) m =
      Overlay.pull b none (fuel + 1) { direction := d, lanes := [⟨.staged writes, none⟩,
        ⟨source, some (.error e)⟩] } m' := by
  obtain ⟨source, m', merged⟩ := merge_start_cut (d := d) 5 failed writes
  have enough : merge b none d 5 [⟨.staged writes, none⟩, ⟨source, some (.error e)⟩] m' =
      merge b none d 6 [⟨.staged writes, none⟩, ⟨source, some (.error e)⟩] m' := by
    rw [merge_cut, merge_cut]
  exact ⟨source, m', pull_congr (merged.trans enough) fuel⟩

end Overlay

namespace Feed

/-- Nothing but staged writes is left in front of a failure. -/
def Cut (e : Error) (rows : List (Bytes × Bytes)) : Feed κ → Prop
  | .plain _ | .guarded _ => False
  | .overlaid o => o.Cut e rows

theorem poll_cut {e : Error} {feed : Feed κ} {rows : List (Bytes × Bytes)} (cut : feed.Cut e rows)
    (m : μ) :
    (feed.poll b none m).1 = some (rows.head?.elim (.error e) .ok) ∧
      (rows ≠ [] → (feed.poll b none m).2.1.Cut e rows.tail) := by
  cases feed with
  | plain cursor => exact cut.elim
  | guarded cursor => exact cut.elim
  | overlaid o =>
    simp only [poll, map_guard_none]
    rcases cut with ⟨held, rfl⟩ | ⟨held, writes, source, waits, lanes, sorted, rfl⟩
    · exact ⟨Overlay.pull_broken held none (Nat.succ_pos _) m, fun some_row => absurd rfl some_row⟩
    · refine Overlay.pull_cut waits lanes sorted ?_
      rw [Overlay.itemBound, lanes]
      simp only [List.foldr_cons, List.foldr_nil, Overlay.sourceBound]
      omega

theorem take_of_polled {gate : Option Error} {feed feed' : Feed κ} {row : Bytes × Bytes} {m m' : μ}
    (polled : feed.poll b gate m = (some (.ok row), feed', m')) (limit : Nat) :
    (feed.take b gate (limit + 1) m).1 = (feed'.take b gate limit m').1.map (row :: ·) := by
  simp only [take, polled, Access.bind_apply]
  rcases feed'.take b gate limit m' with ⟨_ | _, _⟩ <;> rfl

theorem take_cut {e : Error} {feed : Feed κ} {rows : List (Bytes × Bytes)} {m : μ}
    (first : (feed.poll b none m).1 = some (rows.head?.elim (.error e) .ok) ∧
      (rows ≠ [] → (feed.poll b none m).2.1.Cut e rows.tail)) (limit : Nat) :
    (feed.take b none limit m).1 =
      if limit ≤ rows.length then .ok (rows.take limit) else .error e := by
  induction limit generalizing feed rows m with
  | zero => exact (if_pos (Nat.zero_le _)).symm
  | succ limit ih =>
    obtain ⟨item, after⟩ := first
    rcases polled : feed.poll b none m with ⟨given, feed', m'⟩
    rw [polled] at item after
    obtain rfl : given = _ := item
    cases rows with
    | nil =>
      simp only [take, polled, List.head?_nil, Option.elim_none]
      exact (if_neg (Nat.not_succ_le_zero limit)).symm
    | cons row rows =>
      rw [take_of_polled polled, ih (poll_cut (b := b) (after (by simp)) m'), List.tail_cons]
      simp only [List.length_cons, Nat.succ_le_succ_iff, List.take_succ_cons]
      split <;> rfl

section May
variable (pays : b.MayPay kept owes)
  (steady : ∀ gate c m, kept m → kept (b.poll gate c m).2.2)
  (bounded : ∀ rows c m, kept m → owes rows c → rows.length ≤ b.itemBound c m)
include pays steady bounded

theorem poll_may {feed : Feed κ} {rows : List (Bytes × Bytes)} {m : μ} (keeps : kept m)
    (debt : feed.Underway owes rows) :
    Gives rows (fun rest => (feed.poll b none m).2.1.Underway owes rest)
      (feed.poll b none m).1 := by
  cases feed with
  | plain cursor => exact pays rows cursor m keeps debt
  | guarded cursor =>
    simp only [poll, map_guard_none]
    exact pays rows cursor m keeps debt
  | overlaid o =>
    simp only [poll, map_guard_none]
    rcases debt with ⟨e, held⟩ | ⟨held, es, waits, debt, ready, sorted, rfl⟩
    · exact .inl ⟨e, Overlay.pull_broken held none (Nat.succ_pos _) m⟩
    · have short := debt.length_lt bounded keeps
      refine Overlay.pull_may pays steady keeps waits ?_ sorted (by omega)
      exact Overlay.merge_may pays keeps debt ready (Nat.mul_le_mul_right _ (by omega))

theorem take_may {feed : Feed κ} {rows : List (Bytes × Bytes)} {m : μ} (keeps : kept m)
    (first : Gives rows (fun rest => (feed.poll b none m).2.1.Underway owes rest)
      (feed.poll b none m).1) (limit : Nat) :
    (∃ e, (feed.take b none limit m).1 = .error e) ∨
      (feed.take b none limit m).1 = .ok (rows.take limit) := by
  induction limit generalizing feed rows m with
  | zero => exact .inr rfl
  | succ limit ih =>
    have keeps' := poll_keeps steady none feed keeps
    rcases polled : feed.poll b none m with ⟨item, feed', m'⟩
    rw [polled] at first keeps'
    rcases first with ⟨e, rfl⟩ | ⟨rfl, after⟩
    · exact .inl ⟨e, by simp only [take, polled]⟩
    · cases rows with
      | nil =>
        simp only [take, polled, List.head?_nil, Option.map_none]
        exact .inr rfl
      | cons row rows =>
        rw [take_of_polled polled]
        rcases ih keeps' (poll_may pays steady bounded keeps' (after (by simp))) with ⟨e, r⟩ | r <;>
          rw [r]
        · exact .inl ⟨e, rfl⟩
        · exact .inr rfl

theorem poll_start {c : Condition} {cursor : κ} {data : OrderedMap Bytes Bytes} {m : μ}
    (keeps : kept m) (debt : owes (c.select data) cursor) (w : WriteSet)
    (found : w.range c = [] ∨ ∀ e, (b.poll none cursor m).1 ≠ some (.error e)) :
    let feed := start c.direction cursor (w.range c)
    Gives (c.select (w.onto data)) (fun rest => (feed.poll b none m).2.1.Underway owes rest)
      (feed.poll b none m).1 := by
  dsimp only
  rw [start]
  split
  · next idle =>
    rw [WriteSet.select_onto_of_range (List.isEmpty_iff.1 idle)]
    exact poll_may pays steady bounded keeps debt
  · next staged =>
    have staged : w.range c ≠ [] := fun idle => staged (List.isEmpty_iff.2 idle)
    simp only [poll, map_guard_none]
    rw [← w.given_overlay]
    refine Overlay.pull_may pays steady keeps rfl ?_ (w.pairwise_overlay c data) ?_
    · exact Overlay.merge_start pays steady keeps debt _ (Or.resolve_left found staged)
    · have short := bounded _ cursor m keeps debt
      rw [WriteSet.overlay, List.length_merge, List.length_map, List.length_map, Overlay.itemBound,
        Overlay.start]
      simp only [List.foldr_cons, List.foldr_nil, Overlay.sourceBound]
      omega

end May

/-- If the first poll of the committed rows fails, a transaction's feed gives what its staged writes
give alone. -/
theorem poll_start_cut {e : Error} {c : Condition} {cursor : κ} {m : μ}
    (failed : (b.poll none cursor m).1 = some (.error e)) {w : WriteSet} (staged : w.range c ≠ []) :
    let feed := start c.direction cursor (w.range c)
    let rows := c.select (w.onto ∅)
    (feed.poll b none m).1 = some (rows.head?.elim (.error e) .ok) ∧
      (rows ≠ [] → (feed.poll b none m).2.1.Cut e rows.tail) := by
  have nothing : c.select (∅ : OrderedMap Bytes Bytes) = [] := by
    rw [List.eq_nil_iff_forall_not_mem]
    intro row mem
    cases ((c.mem_select_iff ∅ row).1 mem).1
  have alone : c.select (w.onto ∅) = given none ((w.range c).map ofWrite) := by
    rw [← w.given_overlay, WriteSet.overlay, nothing, List.map_nil, List.nil_merge]
  have sorted := w.pairwise_overlay c ∅
  rw [WriteSet.overlay, nothing, List.map_nil, List.nil_merge] at sorted
  obtain ⟨source, m', pulled⟩ := Overlay.pull_start_cut (d := c.direction) failed (w.range c)
    ((Overlay.start c.direction cursor (w.range c)).itemBound b m + 1)
  dsimp only
  rw [start, if_neg (by simpa using staged), alone]
  simp only [poll, map_guard_none, pulled]
  refine Overlay.pull_cut rfl rfl sorted ?_
  rw [Overlay.itemBound, Overlay.start]
  simp only [List.foldr_cons, List.foldr_nil, Overlay.sourceBound]
  omega

/-- What is left to a stream, with or without a failure that it has passed over. -/
def Left (owes : List (Bytes × Bytes) → κ → Prop) (rows : List (Bytes × Bytes)) (feed : Feed κ) :
    Prop := feed.Underway owes rows ∨ ∃ e, feed.Cut e rows

theorem gives_of_cut {e : Error} {rows : List (Bytes × Bytes)} {feed : Feed κ} {m : μ}
    (cut : (feed.poll b none m).1 = some (rows.head?.elim (.error e) .ok) ∧
      (rows ≠ [] → (feed.poll b none m).2.1.Cut e rows.tail)) :
    Gives rows (fun rest => (feed.poll b none m).2.1.Left owes rest) (feed.poll b none m).1 := by
  obtain ⟨item, after⟩ := cut
  cases rows with
  | nil => exact .inl ⟨e, item⟩
  | cons row rows => exact .inr ⟨item, fun some_left => .inr ⟨e, after some_left⟩⟩

/-- The rows that a stream gives if it is polled at these moments, one after the other, up to its
end or its first failure. -/
def drawn (b : Backend μ σ κ) : Feed κ → List (Option Error × μ) → List (Bytes × Bytes)
  | _, [] => []
  | feed, (gate, m) :: moments =>
    match feed.poll b gate m with
    | (some (.ok row), feed, _) => row :: drawn b feed moments
    | _ => []

theorem drawn_prefix (next : List (Bytes × Bytes) → Feed κ → Prop) {feed : Feed κ}
    {rows : List (Bytes × Bytes)} {gate : Option Error} {m : μ}
    (shut : ∀ e c m row, (b.poll (some e) c m).1 ≠ some (.ok row))
    (first : gate = none → Gives rows (fun rest => next rest (feed.poll b none m).2.1)
      (feed.poll b none m).1)
    {moments : List (Option Error × μ)}
    (others : ∀ rest feed', next rest feed' → feed'.drawn b moments <+: rest) :
    feed.drawn b ((gate, m) :: moments) <+: rows := by
  cases gate with
  | some e =>
    have refused := poll_shut shut e feed m
    rw [drawn]
    split
    · next row _ _ polled =>
      rw [polled] at refused
      exact absurd rfl (refused row)
    · exact List.nil_prefix
  | none =>
    have first := first rfl
    rw [drawn]
    split
    · next row feed' m' polled =>
      rw [polled] at first
      rcases first with ⟨e, failed⟩ | ⟨item, after⟩
      · cases failed
      · cases rows with
        | nil => cases item
        | cons row' rest =>
          cases item
          exact (List.prefix_cons_inj row).2 (others rest feed' (after (by simp)))
    · exact List.nil_prefix

end Feed

end Paying
end OptimisticStore
