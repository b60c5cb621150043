/-! Height-balanced search trees. Every node caches its height and carries the serial number of
the update that made it. An update makes new nodes along one path and keeps all others, so two
trees have a node in common exactly if both hold it under the same serial and key. -/

namespace OptimisticStore

inductive Tree (κ ν : Type) where
  | leaf
  | node (serial : Nat) (key : κ) (value : ν) (height : Nat) (left right : Tree κ ν)

namespace Tree
variable {κ ν : Type}

def height : Tree κ ν → Nat
  | leaf => 0
  | node _ _ _ h _ _ => h

def toList : Tree κ ν → List (κ × ν)
  | leaf => []
  | node _ k v _ l r => l.toList ++ (k, v) :: r.toList

def size : Tree κ ν → Nat
  | leaf => 0
  | node _ _ _ _ l r => l.size + 1 + r.size

theorem length_toList (t : Tree κ ν) : t.toList.length = t.size := by
  induction t with
  | leaf => rfl
  | node _ _ _ _ _ _ hl hr => simp [toList, size, hl, hr]; omega

/-- A node whose height is that of its two sides. -/
def make (serial : Nat) (k : κ) (v : ν) (l r : Tree κ ν) : Tree κ ν :=
  node serial k v (1 + max l.height r.height) l r

/-- A node from its parts, with one or two rotations if one side is higher by two. -/
def balance (serial : Nat) (k : κ) (v : ν) (l r : Tree κ ν) : Tree κ ν :=
  if r.height + 1 < l.height then
    match l with
    | leaf => make serial k v l r
    | node _ lk lv _ ll lr =>
      if lr.height ≤ ll.height then make serial lk lv ll (make serial k v lr r)
      else match lr with
        | leaf => make serial k v l r
        | node _ ik iv _ il ir =>
          make serial ik iv (make serial lk lv ll il) (make serial k v ir r)
  else if l.height + 1 < r.height then
    match r with
    | leaf => make serial k v l r
    | node _ rk rv _ rl rr =>
      if rl.height ≤ rr.height then make serial rk rv (make serial k v l rl) rr
      else match rl with
        | leaf => make serial k v l r
        | node _ ik iv _ il ir =>
          make serial ik iv (make serial k v l il) (make serial rk rv ir rr)
  else make serial k v l r

@[simp] theorem toList_make (serial : Nat) (k : κ) (v : ν) (l r : Tree κ ν) :
    (make serial k v l r).toList = l.toList ++ (k, v) :: r.toList := rfl

@[simp] theorem toList_balance (serial : Nat) (k : κ) (v : ν) (l r : Tree κ ν) :
    (balance serial k v l r).toList = l.toList ++ (k, v) :: r.toList := by
  unfold balance
  repeat' split
  all_goals simp [toList]

def popFirst (serial : Nat) : Tree κ ν → Option ((κ × ν) × Tree κ ν)
  | leaf => none
  | node _ k v _ l r =>
    match l.popFirst serial with
    | none => some ((k, v), r)
    | some (first, rest) => some (first, balance serial k v rest r)

theorem toList_popFirst (serial : Nat) (t : Tree κ ν) :
    t.toList = match t.popFirst serial with
      | none => []
      | some (first, rest) => first :: rest.toList := by
  induction t with
  | leaf => rfl
  | node _ k v _ l r hl _ =>
    rw [toList, hl, popFirst]
    cases l.popFirst serial <;> simp

def join (serial : Nat) (l r : Tree κ ν) : Tree κ ν :=
  match l, r with
  | leaf, r => r
  | l, leaf => l
  | l, r =>
    match r.popFirst serial with
    | none => l
    | some ((k, v), rest) => balance serial k v l rest

@[simp] theorem toList_join (serial : Nat) (l r : Tree κ ν) :
    (join serial l r).toList = l.toList ++ r.toList := by
  unfold join
  split
  · simp [toList]
  · simp [toList]
  · rw [toList_popFirst serial r]
    cases r.popFirst serial <;> simp

variable [LT κ] [DecidableLT κ]

def find? (k : κ) : Tree κ ν → Option ν
  | leaf => none
  | node _ a x _ l r => if k < a then l.find? k else if a < k then r.find? k else some x

def insert (serial : Nat) (k : κ) (v : ν) : Tree κ ν → Tree κ ν
  | leaf => make serial k v leaf leaf
  | node _ a x _ l r =>
    if k < a then balance serial a x (l.insert serial k v) r
    else if a < k then balance serial a x l (r.insert serial k v)
    else make serial k v l r

/-- The path to `k` is made anew even where `k` is not found; see `OrderedMap.remove`. -/
def erase (serial : Nat) (k : κ) : Tree κ ν → Tree κ ν
  | leaf => leaf
  | node _ a x _ l r =>
    if k < a then balance serial a x (l.erase serial k) r
    else if a < k then balance serial a x l (r.erase serial k)
    else join serial l r

/-- Both are empty, or both have the same node at the root. -/
def sharesRoot : Tree κ ν → Tree κ ν → Bool
  | leaf, leaf => true
  | node s a _ _ _ _, node t b _ _ _ _ => s == t && !decide (a < b) && !decide (b < a)
  | _, _ => false

end Tree
end OptimisticStore
