import OptimisticStore.OrderedMap.Order
import OptimisticStore.OrderedMap.Walk

/-! Finite maps with ordered keys: a sorted tree with a count of its entries. A map is a value;
whoever holds it keeps seeing it, whatever is made from it later. -/

namespace OptimisticStore

structure OrderedMap (κ ν : Type) [LT κ] where
  tree : Tree κ ν
  size : Nat
  sorted : tree.Sorted
  size_eq : size = tree.size

namespace OrderedMap
variable {κ ν : Type} [LT κ]

def empty : OrderedMap κ ν := ⟨.leaf, 0, Tree.sorted_leaf, rfl⟩

instance : EmptyCollection (OrderedMap κ ν) := ⟨empty⟩

instance : Inhabited (OrderedMap κ ν) := ⟨∅⟩

def isEmpty (m : OrderedMap κ ν) : Bool := m.size == 0

def toList (m : OrderedMap κ ν) : List (κ × ν) := m.tree.toList

theorem pairwise_toList (m : OrderedMap κ ν) : m.toList.Pairwise fun a b => a.1 < b.1 := m.sorted

theorem length_toList (m : OrderedMap κ ν) : m.toList.length = m.size := by
  rw [m.size_eq, toList, Tree.length_toList]

@[simp] theorem toList_empty : (∅ : OrderedMap κ ν).toList = [] := rfl

variable [DecidableLT κ]

def get? (m : OrderedMap κ ν) (k : κ) : Option ν := m.tree.find? k

def contains (m : OrderedMap κ ν) (k : κ) : Bool := (m.get? k).isSome

def sharesRoot (m n : OrderedMap κ ν) : Bool := m.tree.sharesRoot n.tree

variable [LE κ] [Std.IsLinearOrder κ] [Std.LawfulOrderLT κ]

/-- Inserts or replaces. The root is a new node in either case. -/
def insert (m : OrderedMap κ ν) (k : κ) (v : ν) (serial : Nat := 0) : OrderedMap κ ν where
  tree := m.tree.insert serial k v
  size := if m.contains k then m.size else m.size + 1
  sorted := Tree.sorted_insert m.sorted serial k v
  size_eq := by rw [Tree.size_insert m.sorted, m.size_eq]; rfl

/-- The removed value, and the map without it; the map itself if there is none. -/
def remove (m : OrderedMap κ ν) (k : κ) (serial : Nat := 0) : Option ν × OrderedMap κ ν :=
  match found : m.get? k with
  | none => (none, m)
  | some v => (some v,
    { tree := m.tree.erase serial k
      size := m.size - 1
      sorted := Tree.sorted_erase m.sorted serial k
      size_eq := by rw [Tree.size_erase m.sorted serial found, m.size_eq] })

def erase (m : OrderedMap κ ν) (k : κ) : OrderedMap κ ν := (m.remove k).2

theorem get?_eq_some_iff (m : OrderedMap κ ν) (k : κ) (v : ν) :
    m.get? k = some v ↔ (k, v) ∈ m.toList := Tree.find?_eq_some_iff m.sorted k v

theorem get?_eq_none_iff (m : OrderedMap κ ν) (k : κ) :
    m.get? k = none ↔ ∀ v, (k, v) ∉ m.toList := by
  simp only [Option.eq_none_iff_forall_ne_some, ne_eq, get?_eq_some_iff]

theorem toList_insert (m : OrderedMap κ ν) (k : κ) (v : ν) (serial : Nat) :
    (m.insert k v serial).toList =
      Tree.lesser k m.toList ++ (k, v) :: Tree.greater k m.toList :=
  Tree.toList_insert m.sorted serial k v

theorem mem_toList_insert {m : OrderedMap κ ν} {k : κ} {v : ν} {serial : Nat} {e : κ × ν} :
    e ∈ (m.insert k v serial).toList ↔ e = (k, v) ∨ e ∈ m.toList ∧ e.1 ≠ k := by
  simp only [toList_insert, Tree.lesser, Tree.greater, List.mem_append, List.mem_cons,
    List.mem_filter, decide_eq_true_eq]
  grind

theorem remove_fst (m : OrderedMap κ ν) (k : κ) (serial : Nat) :
    (m.remove k serial).1 = m.get? k := by
  unfold remove
  split <;> simp_all

theorem mem_toList_remove {m : OrderedMap κ ν} {k : κ} {serial : Nat} {e : κ × ν} :
    e ∈ (m.remove k serial).2.toList ↔ e ∈ m.toList ∧ e.1 ≠ k := by
  unfold remove
  split
  · next absent =>
    rw [get?_eq_none_iff] at absent
    have (v : ν) := absent v
    grind
  · simp only [toList, Tree.toList_erase m.sorted, Tree.lesser, Tree.greater, List.mem_append,
      List.mem_filter, decide_eq_true_eq]
    grind

theorem get?_insert [DecidableEq κ] (m : OrderedMap κ ν) (k a : κ) (v : ν) (serial : Nat) :
    (m.insert k v serial).get? a = if a = k then some v else m.get? a := by
  apply Option.ext
  intro x
  split <;> simp only [get?_eq_some_iff, mem_toList_insert] <;> grind

theorem get?_remove [DecidableEq κ] (m : OrderedMap κ ν) (k a : κ) (serial : Nat) :
    (m.remove k serial).2.get? a = if a = k then none else m.get? a := by
  apply Option.ext
  intro x
  split <;> simp only [get?_eq_some_iff, mem_toList_remove] <;> grind

/-- An absent key leaves the map as it is, its root included. -/
theorem remove_of_get?_eq_none {m : OrderedMap κ ν} {k : κ} (absent : m.get? k = none)
    (serial : Nat) : m.remove k serial = (none, m) := by
  unfold remove
  split <;> simp_all

variable [DecidableLE κ]

def walk (m : OrderedMap κ ν) (lower upper : Cut κ) (direction : Direction) : Walk κ ν :=
  .start m.tree lower upper direction

def range (m : OrderedMap κ ν) (lower upper : Cut κ) (direction : Direction) : List (κ × ν) :=
  (m.walk lower upper direction).toList

end OrderedMap
end OptimisticStore
