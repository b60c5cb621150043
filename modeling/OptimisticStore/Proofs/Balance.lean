import Mathlib.Data.Nat.Fib.Basic
import OptimisticStore.OrderedMap.Basic

/-! Trees of maps are height-balanced. At every node the cached height is that of the higher side
and one, and no side is higher than the other by more than one. An update changes the height of a
side by one at most, so `balance` never meets a difference above two, and it repairs this one
however the higher side itself leans. A map that was made by updates, behind whatever handle, is
therefore balanced, and its height is logarithmic in the number of its entries. -/

namespace OptimisticStore

namespace Tree
variable {κ ν : Type}

def depth : Tree κ ν → Nat
  | leaf => 0
  | node _ _ _ _ l r => 1 + max l.depth r.depth

def Balanced : Tree κ ν → Prop
  | leaf => True
  | node _ _ _ h l r =>
    h = 1 + max l.height r.height ∧ l.height ≤ r.height + 1 ∧ r.height ≤ l.height + 1 ∧
      l.Balanced ∧ r.Balanced

@[simp] theorem height_leaf : (leaf : Tree κ ν).height = 0 := rfl

@[simp] theorem height_node (serial : Nat) (k : κ) (v : ν) (h : Nat) (l r : Tree κ ν) :
    (node serial k v h l r).height = h := rfl

@[simp] theorem height_make (serial : Nat) (k : κ) (v : ν) (l r : Tree κ ν) :
    (make serial k v l r).height = 1 + max l.height r.height := rfl

theorem balanced_make {serial : Nat} {k : κ} {v : ν} {l r : Tree κ ν} :
    (make serial k v l r).Balanced ↔
      l.height ≤ r.height + 1 ∧ r.height ≤ l.height + 1 ∧ l.Balanced ∧ r.Balanced := by
  simp [make, Balanced]

theorem Balanced.depth_eq {t : Tree κ ν} (balanced : t.Balanced) : t.depth = t.height := by
  induction t with
  | leaf => rfl
  | node _ _ _ h l r hl hr =>
    obtain ⟨cached, _, _, left, right⟩ := balanced
    rw [depth, hl left, hr right, height_node, cached]

/-- A tree of one height has the fewest entries if at each node one side is lower than the other. -/
theorem Balanced.fib_le {t : Tree κ ν} (balanced : t.Balanced) :
    Nat.fib (t.height + 2) ≤ t.size + 1 := by
  induction t with
  | leaf => simp [size]
  | node _ _ _ h l r hl hr =>
    obtain ⟨cached, left_le, right_le, left, right⟩ := balanced
    have sides : Nat.fib (h + 2) ≤ Nat.fib (l.height + 2) + Nat.fib (r.height + 2) := by
      rw [Nat.fib_add_two]
      rcases Nat.le_total l.height r.height with le | le
      · have low := Nat.fib_mono (show h ≤ l.height + 2 by omega)
        have high := Nat.fib_mono (show h + 1 ≤ r.height + 2 by omega)
        omega
      · have low := Nat.fib_mono (show h ≤ r.height + 2 by omega)
        have high := Nat.fib_mono (show h + 1 ≤ l.height + 2 by omega)
        omega
    have left_size := hl left
    have right_size := hr right
    rw [height_node, size]
    omega

/-! ### Repairing a node -/

/-- A balanced tree made of two sides: as high as a plain node of them, or lower by one if they
stand too far apart for that. -/
structure Repairs (l r t : Tree κ ν) : Prop where
  balanced : t.Balanced
  lower : max l.height r.height ≤ t.height
  upper : t.height ≤ 1 + max l.height r.height
  plain : l.height ≤ r.height + 1 → r.height ≤ l.height + 1 →
    t.height = 1 + max l.height r.height

theorem repairs_balance (serial : Nat) (k : κ) (v : ν) {l r : Tree κ ν} (left : l.Balanced)
    (right : r.Balanced) (left_le : l.height ≤ r.height + 2) (right_le : r.height ≤ l.height + 2) :
    Repairs l r (balance serial k v l r) := by
  unfold balance
  split
  · next high =>
    cases l with
    | leaf => simp at high
    | node _ lk lv lh ll lr =>
      obtain ⟨cached, below, above, outer, inner⟩ := left
      simp only [height_node] at high left_le right_le
      dsimp only
      split
      · next leans =>
        constructor <;> simp only [balanced_make, height_make, height_node] <;> grind
      -- the inner side is the higher one, so its root comes up by two rotations
      · next leans =>
        cases lr with
        | leaf => simp at leans
        | node _ ik iv ih il ir =>
          obtain ⟨cached', below', above', inner_left, inner_right⟩ := inner
          simp only [height_node] at leans cached below above
          constructor <;> simp only [balanced_make, height_make, height_node] <;> grind
  · split
    · next high =>
      cases r with
      | leaf => simp at high
      | node _ rk rv rh rl rr =>
        obtain ⟨cached, below, above, inner, outer⟩ := right
        simp only [height_node] at high left_le right_le
        dsimp only
        split
        · next leans =>
          constructor <;> simp only [balanced_make, height_make, height_node] <;> grind
        · next leans =>
          cases rl with
          | leaf => simp at leans
          | node _ ik iv ih il ir =>
            obtain ⟨cached', below', above', inner_left, inner_right⟩ := inner
            simp only [height_node] at leans cached below above
            constructor <;> simp only [balanced_make, height_make, height_node] <;> grind
    · next near far =>
      have plain := height_make serial k v l r
      have made : (make serial k v l r).Balanced :=
        balanced_make.2 ⟨by omega, by omega, left, right⟩
      exact ⟨made, by omega, by omega, fun _ _ => plain⟩

/-! ### Updates -/

structure Grows (t t' : Tree κ ν) : Prop where
  balanced : t'.Balanced
  lower : t.height ≤ t'.height
  upper : t'.height ≤ t.height + 1

structure Shrinks (t t' : Tree κ ν) : Prop where
  balanced : t'.Balanced
  lower : t.height ≤ t'.height + 1
  upper : t'.height ≤ t.height

section Sides
variable {s h : Nat} {a : κ} {x : ν} {l r side : Tree κ ν} (balanced : (node s a x h l r).Balanced)
  (serial : Nat) (k : κ) (v : ν)
include balanced

theorem Grows.left (grown : Grows l side) :
    Grows (node s a x h l r) (balance serial k v side r) := by
  obtain ⟨cached, left_le, right_le, _, right⟩ := balanced
  obtain ⟨more, lower, upper⟩ := grown
  obtain ⟨repaired, low, high, plain⟩ :=
    repairs_balance serial k v more right (by omega) (by omega)
  exact ⟨repaired, by rw [height_node]; omega, by rw [height_node]; omega⟩

theorem Grows.right (grown : Grows r side) :
    Grows (node s a x h l r) (balance serial k v l side) := by
  obtain ⟨cached, left_le, right_le, left, _⟩ := balanced
  obtain ⟨more, lower, upper⟩ := grown
  obtain ⟨repaired, low, high, plain⟩ :=
    repairs_balance serial k v left more (by omega) (by omega)
  exact ⟨repaired, by rw [height_node]; omega, by rw [height_node]; omega⟩

theorem Shrinks.left (less : Shrinks l side) :
    Shrinks (node s a x h l r) (balance serial k v side r) := by
  obtain ⟨cached, left_le, right_le, _, right⟩ := balanced
  obtain ⟨less, lower, upper⟩ := less
  obtain ⟨repaired, low, high, plain⟩ :=
    repairs_balance serial k v less right (by omega) (by omega)
  exact ⟨repaired, by rw [height_node]; omega, by rw [height_node]; omega⟩

theorem Shrinks.right (less : Shrinks r side) :
    Shrinks (node s a x h l r) (balance serial k v l side) := by
  obtain ⟨cached, left_le, right_le, left, _⟩ := balanced
  obtain ⟨less, lower, upper⟩ := less
  obtain ⟨repaired, low, high, plain⟩ :=
    repairs_balance serial k v left less (by omega) (by omega)
  exact ⟨repaired, by rw [height_node]; omega, by rw [height_node]; omega⟩

end Sides

theorem eq_leaf_of_popFirst {serial : Nat} {t : Tree κ ν} (empty : t.popFirst serial = none) :
    t = leaf := by
  cases t with
  | leaf => rfl
  | node _ a x _ l r =>
    rw [popFirst] at empty
    split at empty <;> cases empty

theorem shrinks_popFirst {serial : Nat} {t rest : Tree κ ν} (balanced : t.Balanced) {first : κ × ν}
    (popped : t.popFirst serial = some (first, rest)) : Shrinks t rest := by
  induction t generalizing first rest with
  | leaf => cases popped
  | node _ a x h l r hl _ =>
    rw [popFirst] at popped
    cases within : l.popFirst serial with
    | none =>
      rw [within] at popped
      cases popped
      obtain rfl := eq_leaf_of_popFirst within
      obtain ⟨cached, _, right_le, _, right⟩ := balanced
      simp only [height_leaf] at cached right_le
      exact ⟨right, by rw [height_node]; omega, by rw [height_node]; omega⟩
    | some popped_left =>
      rw [within] at popped
      cases popped
      obtain ⟨_, _, _, left, _⟩ := id balanced
      exact (hl left within).left balanced serial a x

theorem shrinks_join (serial : Nat) {s : Nat} {a : κ} {x : ν} {h : Nat} {l r : Tree κ ν}
    (balanced : (node s a x h l r).Balanced) :
    Shrinks (node s a x h l r) (join serial l r) := by
  obtain ⟨cached, left_le, right_le, left, right⟩ := id balanced
  unfold join
  split
  · rw [height_leaf] at cached right_le
    exact ⟨right, by rw [height_node]; omega, by rw [height_node]; omega⟩
  · rw [height_leaf] at cached left_le
    exact ⟨left, by rw [height_node]; omega, by rw [height_node]; omega⟩
  · next nonempty =>
    split
    · next empty => exact absurd (eq_leaf_of_popFirst empty) nonempty
    · next k v rest popped =>
      exact (shrinks_popFirst right popped).right balanced serial k v

variable [LT κ] [DecidableLT κ]

theorem grows_insert (serial : Nat) (k : κ) (v : ν) {t : Tree κ ν} (balanced : t.Balanced) :
    Grows t (t.insert serial k v) := by
  induction t with
  | leaf => exact ⟨by simp [insert, balanced_make, Balanced], by simp, by simp [insert]⟩
  | node _ a x h l r hl hr =>
    obtain ⟨cached, left_le, right_le, left, right⟩ := id balanced
    rw [insert]
    split
    · exact (hl left).left balanced serial a x
    · split
      · exact (hr right).right balanced serial a x
      · exact ⟨balanced_make.2 ⟨left_le, right_le, left, right⟩, by simp [cached], by simp [cached]⟩

theorem shrinks_erase (serial : Nat) (k : κ) {t : Tree κ ν} (balanced : t.Balanced) :
    Shrinks t (t.erase serial k) := by
  induction t with
  | leaf => exact ⟨trivial, Nat.le_succ _, Nat.le_refl _⟩
  | node _ a x h l r hl hr =>
    obtain ⟨_, _, _, left, right⟩ := id balanced
    rw [erase]
    split
    · exact (hl left).left balanced serial a x
    · split
      · exact (hr right).right balanced serial a x
      · exact shrinks_join serial balanced

end Tree

/-! ### Maps behind handles -/

namespace OrderedMap

/-- What is done to maps behind handles. A copy is one more handle on the same map, and a map that
is collected from entries takes the place of the one that was there. -/
inductive Update (κ ν : Type) where
  | insert (handle : Nat) (key : κ) (value : ν)
  | remove (handle : Nat) (key : κ)
  | collect (handle : Nat) (entries : List (κ × ν))
  | clone (handle other : Nat)

/-- A handle that was never used has the empty map. Updates are numbered, as the nodes they make
are known by the number. -/
structure Handles (κ ν : Type) [LT κ] where
  map : Nat → OrderedMap κ ν := fun _ => ∅
  updates : Nat := 0

namespace Handles
variable {κ ν : Type} [LT κ]

def set (s : Handles κ ν) (handle : Nat) (m : OrderedMap κ ν) : Handles κ ν :=
  ⟨fun h => if h = handle then m else s.map h, s.updates + 1⟩

theorem kept_set {P : OrderedMap κ ν → Prop} {s : Handles κ ν} {m : OrderedMap κ ν}
    (all : ∀ h, P (s.map h)) (made : P m) (handle h : Nat) : P ((s.set handle m).map h) := by
  change P (if h = handle then m else s.map h)
  split
  · exact made
  · exact all h

variable [DecidableLT κ] [LE κ] [Std.IsLinearOrder κ] [Std.LawfulOrderLT κ]

def insert (s : Handles κ ν) (handle : Nat) (e : κ × ν) : Handles κ ν :=
  s.set handle ((s.map handle).insert e.1 e.2 s.updates)

def update (s : Handles κ ν) : Update κ ν → Handles κ ν
  | .insert handle key value => s.insert handle (key, value)
  | .remove handle key => s.set handle ((s.map handle).remove key s.updates).2
  | .collect handle entries => entries.foldl (insert · handle) (s.set handle ∅)
  | .clone handle other => s.set handle (s.map other)

def after (us : List (Update κ ν)) : Handles κ ν := us.foldl update {}

/-- What is so of the empty map and outlives single updates. -/
structure Kept (P : OrderedMap κ ν → Prop) : Prop where
  empty : P ∅
  insert {m} k v serial : P m → P (m.insert k v serial)
  remove {m} k serial : P m → P (m.remove k serial).2

variable {P : OrderedMap κ ν → Prop} {s : Handles κ ν}

theorem Kept.update (kept : Kept P) (all : ∀ h, P (s.map h)) (u : Update κ ν) (h : Nat) :
    P ((s.update u).map h) := by
  cases u with
  | insert handle key value => exact kept_set all (kept.insert _ _ _ (all handle)) handle h
  | remove handle key => exact kept_set all (kept.remove _ _ (all handle)) handle h
  | clone handle other => exact kept_set all (all other) handle h
  | collect handle entries =>
    have fresh := kept_set all kept.empty handle
    rw [Handles.update]
    generalize s.set handle ∅ = t at fresh
    induction entries generalizing t with
    | nil => exact fresh h
    | cons e entries ih =>
      exact ih _ (kept_set fresh (kept.insert e.1 e.2 t.updates (fresh handle)) handle)

/-- Whatever single updates keep is so behind every handle, however the handles were used. -/
theorem Kept.after (kept : Kept P) (us : List (Update κ ν)) (h : Nat) :
    P ((Handles.after us).map h) := by
  have run (s : Handles κ ν) (all : ∀ h, P (s.map h)) (h : Nat) :
      P ((us.foldl Handles.update s).map h) := by
    induction us generalizing s with
    | nil => exact all h
    | cons u us ih => exact ih _ (kept.update all u)
  exact run {} (fun _ => kept.empty) h

theorem kept_balanced : Kept fun m : OrderedMap κ ν => m.tree.Balanced where
  empty := trivial
  insert k v serial balanced := (Tree.grows_insert serial k v balanced).balanced
  remove {m} k serial balanced := by
    unfold remove
    split
    · exact balanced
    · exact (Tree.shrinks_erase serial k balanced).balanced

end Handles

section Made
variable {κ ν : Type} [LT κ] [DecidableLT κ] [LE κ] [Std.IsLinearOrder κ] [Std.LawfulOrderLT κ]

/-- However maps are updated, collected from entries and copied, behind each handle is a map whose
keys ascend, whose tree is balanced and whose size is the number of its nodes. The cached height of
such a tree is the length of its longest path, so a path is long only if there are many entries. -/
theorem made_maps_balanced (us : List (Update κ ν)) (handle : Nat) :
    let m := (Handles.after us).map handle
    (m.toList.Pairwise fun a b => a.1 < b.1) ∧ m.tree.Balanced ∧ m.size = m.tree.size ∧
      m.tree.depth = m.tree.height ∧ Nat.fib (m.tree.height + 2) - 1 ≤ m.size := by
  intro m
  have balanced : m.tree.Balanced := Handles.kept_balanced.after us handle
  have entries := balanced.fib_le
  rw [← m.size_eq] at entries
  exact ⟨m.pairwise_toList, balanced, m.size_eq, balanced.depth_eq, Nat.sub_le_of_le_add entries⟩

end Made

def sampleUpdates : List (Update Nat Nat) :=
  [.collect 0 [(1, 1), (2, 2), (3, 3), (4, 4), (5, 5), (6, 6), (7, 7), (8, 8)], .clone 1 0,
    .remove 0 1, .remove 0 3, .remove 0 2, .insert 1 9 9]

theorem made_maps_balanced_sample :
    ((Handles.after sampleUpdates).map 0).tree.height = 3 ∧
      ((Handles.after sampleUpdates).map 1).tree.height = 4 ∧
      Nat.fib (4 + 2) - 1 ≤ ((Handles.after sampleUpdates).map 1).size ∧
      ((Handles.after sampleUpdates).map 0).tree.Balanced := by
  have high : ((Handles.after sampleUpdates).map 1).tree.height = 4 := by decide +kernel
  obtain ⟨_, _, _, _, entries⟩ := made_maps_balanced sampleUpdates 1
  rw [high] at entries
  exact ⟨by decide +kernel, high, entries, (made_maps_balanced sampleUpdates 0).2.1⟩

end OrderedMap
end OptimisticStore
