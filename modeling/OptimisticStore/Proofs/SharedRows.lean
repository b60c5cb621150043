import OptimisticStore.Durable.RowTable
import OptimisticStore.Proofs.Contents
import OptimisticStore.Proofs.ProperRanges

/-! Raw rows are an ordered map that is shared by its handles. Next to the stores behind handles
runs a book that knows of no trees: which handles lead to one store, and the finite function behind
each. A batch changes the functions of all handles that share with the one it is written through.
What a scan answers is told by the function alone. The map under the rows takes proper ranges only,
and the test in front of it lets no other range pass. -/

namespace OptimisticStore

/-! ### Ranges that reach the map -/

namespace Cut

theorem proper_of_not_crossed {lower upper : Cut Bytes} (room : crossed lower upper = false) :
    Proper lower upper := by
  cases lower with
  | unbounded => trivial
  | included l =>
    cases upper with
    | unbounded => trivial
    | included u => exact Std.not_lt.1 (of_decide_eq_false room)
    | excluded u => exact Std.le_of_lt (Std.not_le.1 (of_decide_eq_false room))
  | excluded l =>
    cases upper with
    | unbounded => trivial
    | included u => exact Std.le_of_lt (Std.not_le.1 (of_decide_eq_false room))
    | excluded u => exact Std.not_le.1 (of_decide_eq_false room)

end Cut

namespace OrderedMap
variable {ν : Type}

/-- A walk of a map that takes proper ranges only. -/
def walk? (m : OrderedMap Bytes ν) (lower upper : Cut Bytes) (d : Direction) :
    Option (Walk Bytes ν) :=
  if Cut.Proper lower upper then some (m.walk lower upper d) else none

theorem walk?_eq_none_iff (m : OrderedMap Bytes ν) (lower upper : Cut Bytes) (d : Direction) :
    m.walk? lower upper d = none ↔ (∃ l ∈ lower.key?, ∃ u ∈ upper.key?, u < l) ∨
      ∃ k, lower = .excluded k ∧ upper = .excluded k := by
  have improper : m.walk? lower upper d = none ↔ ¬ Cut.Proper lower upper := by
    rw [walk?]
    split <;> simp_all
  rw [improper, Cut.proper_iff, Classical.not_and_iff_not_or_not]
  simp only [not_forall, exists_prop, Std.not_le, not_not]

end OrderedMap

namespace RawRows

/-- A scan of rows in such a map. It ends without an answer if it asks for a range that the map does
not take. -/
def scan? (rows : RawRows) (lower upper : Cut Bytes) (d : Direction) (limit : Nat) :
    Option (List Row) :=
  if Cut.crossed lower upper then some []
  else (OrderedMap.walk? rows lower upper d).map (·.take limit)

theorem scan?_eq (rows : RawRows) (lower upper : Cut Bytes) (d : Direction) (limit : Nat) :
    rows.scan? lower upper d limit = some (rows.scan lower upper d limit) := by
  rw [scan?, scan]
  split
  · rfl
  · next room =>
    have proper := Cut.proper_of_not_crossed (Bool.eq_false_iff.2 room)
    rw [OrderedMap.walk?, if_pos proper, Option.map_some]

end RawRows

/-! ### The book of the handles -/

def RawWrite.edit (f : Finmap fun _ : Bytes => Bytes) : RawWrite → Finmap fun _ : Bytes => Bytes
  | .put key value => f.insert key value
  | .delete key => f.erase key

theorem RawRows.get?_apply_eq_lookup {rows : RawRows} {f : Finmap fun _ : Bytes => Bytes}
    (told : ∀ k, rows.get? k = f.lookup k) (batch : List RawWrite) (k : Bytes) :
    (rows.apply batch).get? k = (batch.foldl RawWrite.edit f).lookup k := by
  induction batch generalizing rows f with
  | nil => exact told k
  | cons w batch ih =>
    refine ih fun a => ?_
    cases w with
    | put key value => exact OrderedMap.get?_insert_eq_lookup told key value 0 a
    | delete key => exact OrderedMap.get?_remove_eq_lookup told key 0 a

namespace RowTable

inductive Update where
  | openNew (name : String)
  | clone (name other : String)
  | write (name : String) (batch : List RawWrite)

def update (t : RowTable) : Update → RowTable
  | .openNew name => t.openNew name
  | .clone name other => t.clone name other
  | .write name batch => t.write name batch

def after (us : List Update) : RowTable := us.foldl update {}

theorem place?_cons (stores : List RawRows) (handles : List (String × Nat)) (name a : String)
    (place : Nat) : place? ⟨stores, (name, place) :: handles⟩ a =
      if a = name then some place else place? ⟨stores, handles⟩ a := by
  rw [place?, List.lookup_cons]
  by_cases same : a = name
  · simp [same]
  · rw [beq_false_of_ne same, if_neg same, place?]

theorem place?_openNew (t : RowTable) (name a : String) :
    (t.openNew name).place? a = if a = name then some t.stores.length else t.place? a :=
  place?_cons ..

theorem place?_clone {t : RowTable} {other : String} {place : Nat}
    (found : t.place? other = some place) (name a : String) :
    (t.clone name other).place? a = t.place? (if a = name then other else a) := by
  rw [clone, found]
  dsimp only
  rw [place?_cons]
  split
  · exact found.symm
  · rfl

theorem place?_write (t : RowTable) (name a : String) (batch : List RawWrite) :
    (t.write name batch).place? a = t.place? a := by
  unfold write
  split <;> rfl

def Shares (t : RowTable) (a c : String) : Prop :=
  ∃ place, t.place? a = some place ∧ t.place? c = some place

def Placed (t : RowTable) : Prop := ∀ a place, t.place? a = some place → place < t.stores.length

theorem Placed.openNew {t : RowTable} (placed : t.Placed) (name : String) :
    (t.openNew name).Placed := by
  intro a place
  have length : (t.openNew name).stores.length = t.stores.length + 1 := List.length_append
  rw [place?_openNew, length]
  split
  · rintro ⟨⟩
    exact Nat.lt_succ_self _
  · intro found
    exact Nat.lt_succ_of_lt (placed a place found)

theorem Placed.clone {t : RowTable} (placed : t.Placed) (name other : String) :
    (t.clone name other).Placed := by
  intro a
  cases found : t.place? other with
  | none =>
    rw [RowTable.clone, found]
    exact placed a
  | some place =>
    have stores : (t.clone name other).stores = t.stores := by rw [RowTable.clone, found]
    rw [place?_clone found, stores]
    exact placed _

theorem Placed.write {t : RowTable} (placed : t.Placed) (name : String) (batch : List RawWrite) :
    (t.write name batch).Placed := by
  intro a
  have length : (t.write name batch).stores.length = t.stores.length := by
    unfold RowTable.write
    split
    · rfl
    · exact List.length_modify ..
  rw [place?_write, length]
  exact placed a

theorem rows_of_place? {t : RowTable} {name : String} {place : Nat}
    (found : t.place? name = some place) : t.rows name = t.stores[place]?.getD ∅ := by
  rw [rows, found, Option.bind_some]

theorem rows_of_shares {t : RowTable} {a c : String} (shares : t.Shares a c) :
    t.rows a = t.rows c := by
  obtain ⟨place, left, right⟩ := shares
  rw [rows_of_place? left, rows_of_place? right]

theorem rows_openNew {t : RowTable} (placed : t.Placed) (name a : String) :
    (t.openNew name).rows a = if a = name then ∅ else t.rows a := by
  rw [rows, place?_openNew]
  change (Option.bind _ ((t.stores ++ [∅])[·]?)).getD ∅ = _
  split
  · rw [Option.bind_some, List.getElem?_concat_length, Option.getD_some]
  · rw [rows]
    cases found : t.place? a with
    | none => rfl
    | some place =>
      rw [Option.bind_some, Option.bind_some, List.getElem?_append_left (placed a place found)]

theorem rows_clone {t : RowTable} {other : String} {place : Nat}
    (found : t.place? other = some place) (name a : String) :
    (t.clone name other).rows a = t.rows (if a = name then other else a) := by
  have stores : (t.clone name other).stores = t.stores := by rw [clone, found]
  rw [rows, rows, place?_clone found, stores]

theorem rows_write_of_shares {t : RowTable} (placed : t.Placed) {name a : String}
    (shares : t.Shares name a) (batch : List RawWrite) :
    (t.write name batch).rows a = (t.rows a).apply batch := by
  obtain ⟨place, found, led⟩ := shares
  have written : (t.write name batch).rows a =
      (t.stores.modify place (·.apply batch))[place]?.getD ∅ := by
    rw [write, found]
    exact rows_of_place? led
  rw [written, rows_of_place? led, List.getElem?_modify_eq,
    List.getElem?_eq_getElem (placed a place led)]
  rfl

theorem rows_write_of_not_shares {t : RowTable} {name a : String} (apart : ¬ t.Shares name a)
    (batch : List RawWrite) : (t.write name batch).rows a = t.rows a := by
  unfold write
  split
  · rfl
  · next place found =>
    have kept (led : Nat) (leads : t.place? a = some led) :
        (t.stores.modify place (·.apply batch))[led]? = t.stores[led]? := by
      refine List.getElem?_modify_ne _ _ ?_
      rintro rfl
      exact apart ⟨place, found, leads⟩
    change ((t.place? a).bind ((t.stores.modify place (·.apply batch))[·]?)).getD ∅ = _
    rw [rows]
    cases leads : t.place? a with
    | none => rfl
    | some led => rw [Option.bind_some, Option.bind_some, kept led leads]

end RowTable

structure RowBook where
  /-- Whether two names are handles on one store. -/
  shares : String → String → Bool := fun _ _ => false
  contents : String → Finmap fun _ : Bytes => Bytes := fun _ => ∅

namespace RowBook

def note (b : RowBook) : RowTable.Update → RowBook
  | .openNew name =>
    { shares := fun a c => if a = name ∨ c = name then decide (a = c) else b.shares a c
      contents := Function.update b.contents name ∅ }
  | .clone name other =>
    if b.shares other other then
      let source (a : String) : String := if a = name then other else a
      { shares := fun a c => b.shares (source a) (source c)
        contents := fun a => b.contents (source a) }
    else b
  | .write name batch =>
    { b with
      contents := fun a =>
        if b.shares name a then batch.foldl RawWrite.edit (b.contents a) else b.contents a }

def after (us : List RowTable.Update) : RowBook := us.foldl note {}

structure Agrees (b : RowBook) (t : RowTable) : Prop where
  placed : t.Placed
  shares a c : b.shares a c = true ↔ t.Shares a c
  told a k : (t.rows a).get? k = (b.contents a).lookup k

namespace Agrees
variable {b : RowBook} {t : RowTable}

theorem fresh : Agrees {} {} where
  placed _ _ := nofun
  shares a c := by simp [RowTable.Shares, RowTable.place?]
  told _ _ := rfl

theorem openNew (agrees : Agrees b t) (name : String) :
    Agrees (b.note (.openNew name)) (t.openNew name) where
  placed := agrees.placed.openNew name
  shares a c := by
    -- No handle led to the place of the new store.
    have elsewhere (d : String) : t.place? d ≠ some t.stores.length :=
      fun found => Nat.lt_irrefl _ (agrees.placed d _ found)
    simp only [note, RowTable.Shares, RowTable.place?_openNew]
    by_cases ha : a = name <;> by_cases hc : c = name
    · simp [ha, hc]
    · simpa [ha, hc, Ne.symm hc] using elsewhere c
    · simpa [ha, hc] using elsewhere a
    · simp only [ha, hc, or_self, if_false]
      exact agrees.shares a c
  told a k := by
    change _ = (Function.update b.contents name ∅ a).lookup k
    rw [RowTable.rows_openNew agrees.placed, Function.update_apply]
    split
    · rfl
    · exact agrees.told a k

theorem clone (agrees : Agrees b t) (name other : String) :
    Agrees (b.note (.clone name other)) (t.clone name other) := by
  have known : b.shares other other = true ↔ ∃ place, t.place? other = some place := by
    rw [agrees.shares, RowTable.Shares]
    simp only [and_self]
  cases found : t.place? other with
  | none =>
    have same : b.note (.clone name other) = b := by
      rw [note, if_neg]
      simp [known, found]
    rw [same, RowTable.clone, found]
    exact agrees
  | some place =>
    rw [note, if_pos (known.2 ⟨place, found⟩)]
    refine ⟨agrees.placed.clone name other, fun a c => ?_, fun a k => ?_⟩
    · rw [RowTable.Shares, RowTable.place?_clone found, RowTable.place?_clone found]
      exact agrees.shares _ _
    · rw [RowTable.rows_clone found]
      exact agrees.told _ k

theorem write (agrees : Agrees b t) (name : String) (batch : List RawWrite) :
    Agrees (b.note (.write name batch)) (t.write name batch) where
  placed := agrees.placed.write name batch
  shares a c := by
    rw [RowTable.Shares, RowTable.place?_write, RowTable.place?_write]
    exact agrees.shares a c
  told a k := by
    rw [note]
    dsimp only
    split
    · next together =>
      rw [RowTable.rows_write_of_shares agrees.placed ((agrees.shares name a).1 together)]
      exact RawRows.get?_apply_eq_lookup (agrees.told a) batch k
    · next apart =>
      rw [RowTable.rows_write_of_not_shares (mt (agrees.shares name a).2 apart)]
      exact agrees.told a k

theorem update (agrees : Agrees b t) (u : RowTable.Update) : Agrees (b.note u) (t.update u) := by
  cases u with
  | openNew name => exact agrees.openNew name
  | clone name other => exact agrees.clone name other
  | write name batch => exact agrees.write name batch

theorem after (us : List RowTable.Update) : Agrees (RowBook.after us) (RowTable.after us) := by
  have run {b : RowBook} {t : RowTable} (agrees : Agrees b t) :
      Agrees (us.foldl note b) (us.foldl RowTable.update t) := by
    induction us generalizing b t with
    | nil => exact agrees
    | cons u us ih => exact ih (agrees.update u)
  exact run fresh

end Agrees
end RowBook

/-- However handles are opened, cloned and written through: the rows behind one are those of the
finite function that the same batches give, whichever handles on the store they went through, and
all handles on the store have the same rows. Between any two ends a scan answers with the first rows
in its direction, as many as the limit allows. It never breaks: the map under the rows would refuse
a range that ends before it starts or excludes its only key, and is not asked for one. -/
theorem shared_rows_exact (us : List RowTable.Update) (name : String) :
    let rows := (RowTable.after us).rows name
    let f := (RowBook.after us).contents name
    OrderedMap.Represents rows f ∧
    (∀ other, (RowBook.after us).shares name other = true →
      (RowTable.after us).rows other = rows) ∧
    ∀ lower upper d,
      (∃ all : List Row,
        (∀ e, e ∈ all ↔ f.lookup e.1 = some e.2 ∧ lower.Below e.1 ∧ upper.Above e.1) ∧
        (all.Pairwise fun a b => d.Before a.1 b.1) ∧
        ∀ limit, rows.scan lower upper d limit = all.take limit ∧
          (rows.scan lower upper d limit).length = min limit all.length) ∧
      (∀ limit, rows.scan? lower upper d limit = some (rows.scan lower upper d limit)) ∧
      (OrderedMap.walk? rows lower upper d = none ↔
        (∃ l ∈ lower.key?, ∃ u ∈ upper.key?, u < l) ∨
          ∃ k, lower = .excluded k ∧ upper = .excluded k) := by
  intro rows f
  have agrees : RowBook.Agrees (RowBook.after us) (RowTable.after us) := .after us
  have told : ∀ k, rows.get? k = f.lookup k := agrees.told name
  refine ⟨OrderedMap.represents_of_get? told, fun other together => ?_, fun lower upper d =>
    ⟨⟨d.arrange (OrderedMap.between rows lower upper), fun e => ?_, ?_, fun limit => ?_⟩,
      fun limit => rows.scan?_eq lower upper d limit,
      OrderedMap.walk?_eq_none_iff rows lower upper d⟩⟩
  · exact (RowTable.rows_of_shares ((agrees.shares name other).1 together)).symm
  · rw [Direction.mem_arrange, OrderedMap.mem_between, told]
  · exact d.pairwise_arrange (rows.pairwise_between lower upper)
  · rw [RawRows.scan_eq_take]
    exact ⟨rfl, List.length_take⟩

/-- A batch through a clone, read through the first handle: a key that is put and then deleted, a
scan downwards that is cut off, and ends that meet. -/
example :
    let rows := (RowTable.after [.openNew "a", .clone "b" "a",
      .write "b" [.put [1] [7], .put [2] [8], .put [3] [9], .delete [2]]]).rows "a"
    rows.scan .unbounded .unbounded .backward 1 = [([3], [9])] ∧
      rows.scan (.included [1]) (.included [1]) .forward 1 = [([1], [7])] ∧
      rows.scan? (.excluded [3]) (.excluded [3]) .forward 1 = some [] := by
  decide +kernel

end OptimisticStore
