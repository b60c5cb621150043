import OptimisticStore.Bytes
import OptimisticStore.OrderedMap.Basic

/-! Named maps and walks that may share nodes. Updates are numbered through the whole table,
so no two of them make the same node and `sharesRoot` tells a copy from a rebuilt equal. -/

namespace OptimisticStore

section Lookup
variable {α : Type}

theorem lookup_drop (l : List (String × α)) (name other : String) :
    (l.filter (·.1 != name)).lookup other = if other = name then none else l.lookup other := by
  induction l with
  | nil => simp
  | cons e l ih =>
    obtain ⟨key, x⟩ := e
    rw [List.filter_cons, List.lookup_cons]
    by_cases same : key = name
    · subst same
      simp only [bne_self_eq_false, Bool.false_eq_true, if_false, ih]
      by_cases here : other = key
      · rw [if_pos here, if_pos here]
      · rw [if_neg here, if_neg here, beq_false_of_ne here]
    · simp only [bne_iff_ne, ne_eq, same, not_false_eq_true, if_true, List.lookup_cons, ih]
      cases here : other == key with
      | true =>
        have other_ne : other ≠ name := eq_of_beq here ▸ same
        simp [other_ne]
      | false => rfl

theorem lookup_set (l : List (String × α)) (name other : String) (x : α) :
    ((name, x) :: l.filter (·.1 != name)).lookup other =
      if other = name then some x else l.lookup other := by
  rw [List.lookup_cons, lookup_drop]
  by_cases here : other = name
  · simp [here]
  · rw [beq_false_of_ne here, if_neg here, if_neg here]

end Lookup

structure MapTable where
  maps : List (String × OrderedMap Bytes Bytes) := []
  walks : List (String × Walk Bytes Bytes) := []
  updates : Nat := 0

namespace MapTable

def map (t : MapTable) (name : String) : OrderedMap Bytes Bytes := (t.maps.lookup name).getD ∅

def set (t : MapTable) (name : String) (m : OrderedMap Bytes Bytes) : MapTable :=
  { t with maps := (name, m) :: t.maps.filter (·.1 != name), updates := t.updates + 1 }

def insert (t : MapTable) (name : String) (key value : Bytes) : MapTable :=
  t.set name ((t.map name).insert key value t.updates)

def insertMany (t : MapTable) (name : String) (entries : List (Bytes × Bytes)) : MapTable :=
  entries.foldl (fun t (key, value) => t.insert name key value) t

def remove (t : MapTable) (name : String) (key : Bytes) : Option Bytes × MapTable :=
  let (removed, m) := (t.map name).remove key t.updates
  (removed, t.set name m)

def removeMany (t : MapTable) (name : String) : List Bytes → List (Option Bytes) × MapTable
  | [] => ([], t)
  | key :: keys =>
    let (removed, t) := t.remove name key
    let (others, t) := t.removeMany name keys
    (removed :: others, t)

def clone (t : MapTable) (name other : String) : MapTable := t.set name (t.map other)

def sharesRoot (t : MapTable) (name other : String) : Bool :=
  (t.map name).sharesRoot (t.map other)

def openWalk (t : MapTable) (name walk : String) (lower upper : Cut Bytes)
    (direction : Direction) : MapTable :=
  { t with
    walks := (walk, (t.map name).walk lower upper direction) :: t.walks.filter (·.1 != walk) }

def step (t : MapTable) (walk : String) : Option (Option (Bytes × Bytes) × MapTable) :=
  (t.walks.lookup walk).map fun w =>
    match w.next with
    | none => (none, t)
    | some (entry, rest) =>
      (some entry, { t with walks := (walk, rest) :: t.walks.filter (·.1 != walk) })

end MapTable
end OptimisticStore
