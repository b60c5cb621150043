import Mathlib.Data.Finmap
import OptimisticStore.OrderedMap.Range
import OptimisticStore.Proofs.Balance

/-! Maps hold what was put into them and nothing else. Next to the trees behind handles runs a book
of finite functions, kept by the same updates; the lookups of the one are those of the other, and
from this alone follow its size, whether it is empty and what an iteration gives. Roots are compared
by the update that made them: an insertion makes a new one, and a removal keeps the root exactly if
there was nothing to remove. -/

namespace OptimisticStore

namespace Tree
variable {κ ν : Type}

/-! ### Nodes made before an update -/

def MadeBefore (n : Nat) : Tree κ ν → Prop
  | leaf => True
  | node serial _ _ _ l r => serial < n ∧ l.MadeBefore n ∧ r.MadeBefore n

/-- What tells a root from all other nodes. -/
def root? : Tree κ ν → Option (Nat × κ)
  | leaf => none
  | node serial k _ _ _ _ => some (serial, k)

theorem MadeBefore.mono {m n : Nat} (le : m ≤ n) {t : Tree κ ν} (made : t.MadeBefore m) :
    t.MadeBefore n := by
  induction t with
  | leaf => trivial
  | node serial _ _ _ l r hl hr =>
    obtain ⟨root, left, right⟩ := made
    exact ⟨by omega, hl left, hr right⟩

theorem MadeBefore.ne_root? {n : Nat} {t u : Tree κ ν} (made : u.MadeBefore n)
    (new : ∃ a, t.root? = some (n, a)) : t.root? ≠ u.root? := by
  obtain ⟨a, new⟩ := new
  rw [new]
  cases u with
  | leaf => exact nofun
  | node serial b _ _ _ _ =>
    have older : serial < n := made.1
    intro same
    cases same
    omega

section Updates
variable {n serial : Nat} (new : serial < n)
include new

theorem madeBefore_balance (k : κ) (v : ν) {l r : Tree κ ν} (left : l.MadeBefore n)
    (right : r.MadeBefore n) : (balance serial k v l r).MadeBefore n := by
  unfold balance
  repeat' split
  all_goals simp_all only [make, MadeBefore, and_self]

theorem madeBefore_popFirst {t rest : Tree κ ν} (made : t.MadeBefore n) {first : κ × ν}
    (popped : t.popFirst serial = some (first, rest)) : rest.MadeBefore n := by
  induction t generalizing first rest with
  | leaf => cases popped
  | node _ a x _ l r hl _ =>
    obtain ⟨_, left, right⟩ := made
    rw [popFirst] at popped
    cases within : l.popFirst serial with
    | none =>
      rw [within] at popped
      cases popped
      exact right
    | some popped_left =>
      rw [within] at popped
      cases popped
      exact madeBefore_balance new a x (hl left within) right

theorem madeBefore_join {l r : Tree κ ν} (left : l.MadeBefore n) (right : r.MadeBefore n) :
    (join serial l r).MadeBefore n := by
  unfold join
  split
  · exact right
  · exact left
  · split
    · exact left
    · next k v rest popped =>
      exact madeBefore_balance new k v left (madeBefore_popFirst new right popped)

variable [LT κ] [DecidableLT κ]

theorem madeBefore_insert (k : κ) (v : ν) {t : Tree κ ν} (made : t.MadeBefore n) :
    (t.insert serial k v).MadeBefore n := by
  induction t with
  | leaf => exact ⟨new, trivial, trivial⟩
  | node _ a x _ l r hl hr =>
    obtain ⟨_, left, right⟩ := made
    rw [insert]
    split
    · exact madeBefore_balance new a x (hl left) right
    · split
      · exact madeBefore_balance new a x left (hr right)
      · exact ⟨new, left, right⟩

theorem madeBefore_erase (k : κ) {t : Tree κ ν} (made : t.MadeBefore n) :
    (t.erase serial k).MadeBefore n := by
  induction t with
  | leaf => trivial
  | node _ a x _ l r hl hr =>
    obtain ⟨_, left, right⟩ := made
    rw [erase]
    split
    · exact madeBefore_balance new a x (hl left) right
    · split
      · exact madeBefore_balance new a x left (hr right)
      · exact madeBefore_join new left right

end Updates

/-! ### Roots -/

theorem root?_balance (serial : Nat) (k : κ) (v : ν) (l r : Tree κ ν) :
    ∃ a, (balance serial k v l r).root? = some (serial, a) := by
  unfold balance
  repeat' split
  all_goals exact ⟨_, rfl⟩

section Roots
variable [LT κ]

theorem root?_insert_ne {n : Nat} {u : Tree κ ν} (made : u.MadeBefore n) (k : κ) (v : ν)
    (t : Tree κ ν) [DecidableLT κ] : (t.insert n k v).root? ≠ u.root? := by
  have new : ∃ a, (t.insert n k v).root? = some (n, a) := by
    cases t with
    | leaf => exact ⟨k, rfl⟩
    | node _ a x _ l r =>
      rw [insert]
      split
      · exact root?_balance ..
      · split
        · exact root?_balance ..
        · exact ⟨k, rfl⟩
  exact made.ne_root? new

variable [LE κ] [Std.IsLinearOrder κ] [Std.LawfulOrderLT κ]

theorem ne_root?_side {s : Nat} {a : κ} {x : ν} {h : Nat} {l r : Tree κ ν}
    (sorted : (node s a x h l r).Sorted) :
    l.root? ≠ some (s, a) ∧ r.root? ≠ some (s, a) := by
  obtain ⟨_, _, below, above, _⟩ := sorted_node_iff.1 sorted
  constructor
  · cases l with
    | leaf => simp [root?]
    | node _ b y _ _ _ =>
      have lt : b < a := below (b, y) (by simp [toList])
      grind [root?]
  · cases r with
    | leaf => simp [root?]
    | node _ b y _ _ _ =>
      have lt : a < b := above (b, y) (by simp [toList])
      grind [root?]

variable [DecidableLT κ]

theorem sharesRoot_iff (t u : Tree κ ν) : t.sharesRoot u = true ↔ t.root? = u.root? := by
  cases t with
  | leaf => cases u <;> simp [sharesRoot, root?]
  | node s a _ _ _ _ =>
    cases u with
    | leaf => simp [sharesRoot, root?]
    | node u b _ _ _ _ =>
      have same : ¬ a < b ∧ ¬ b < a ↔ a = b := by grind
      simp [sharesRoot, root?, ← same, and_assoc]

/-- A removal that finds its key makes the root anew or lifts the root of a side. -/
theorem root?_erase_ne {n : Nat} {t : Tree κ ν} (sorted : t.Sorted) (made : t.MadeBefore n) {k : κ}
    {v : ν} (found : t.find? k = some v) : (t.erase n k).root? ≠ t.root? := by
  cases t with
  | leaf => cases found
  | node s a x h l r =>
    obtain ⟨left, right⟩ := ne_root?_side sorted
    rw [erase]
    split
    · exact made.ne_root? (root?_balance ..)
    · split
      · exact made.ne_root? (root?_balance ..)
      · unfold join
        split
        · exact right
        · exact left
        · split
          · exact left
          · exact made.ne_root? (root?_balance ..)

end Roots

/-! ### Updates in one descent -/

section Descent
variable [LT κ] [DecidableLT κ]

/-- Inserts, and tells on the way whether the key is new. -/
def enter (serial : Nat) (k : κ) (v : ν) : Tree κ ν → Tree κ ν × Bool
  | leaf => (make serial k v leaf leaf, true)
  | node _ a x _ l r =>
    if k < a then
      let (side, added) := l.enter serial k v
      (balance serial a x side r, added)
    else if a < k then
      let (side, added) := r.enter serial k v
      (balance serial a x l side, added)
    else (make serial k v l r, false)

def withdraw (serial : Nat) (k : κ) : Tree κ ν → Option (Tree κ ν × ν)
  | leaf => none
  | node _ a x _ l r =>
    if k < a then (l.withdraw serial k).map fun (side, v) => (balance serial a x side r, v)
    else if a < k then (r.withdraw serial k).map fun (side, v) => (balance serial a x l side, v)
    else some (join serial l r, x)

theorem enter_eq (serial : Nat) (k : κ) (v : ν) (t : Tree κ ν) :
    t.enter serial k v = (t.insert serial k v, (t.find? k).isNone) := by
  induction t with
  | leaf => rfl
  | node _ a x _ l r hl hr =>
    rw [enter, insert, find?, hl, hr]
    split
    · rfl
    · split <;> rfl

theorem withdraw_eq (serial : Nat) (k : κ) (t : Tree κ ν) :
    t.withdraw serial k = (t.find? k).map fun v => (t.erase serial k, v) := by
  induction t with
  | leaf => rfl
  | node _ a x _ l r hl hr =>
    rw [withdraw, erase, find?, hl, hr]
    split
    · rw [Option.map_map]
      rfl
    · split
      · rw [Option.map_map]
        rfl
      · rfl

end Descent

end Tree

namespace OrderedMap

/-! ### Finite functions -/

section Listing
variable {κ ν : Type} [LT κ] [LE κ] [Std.IsLinearOrder κ] [Std.LawfulOrderLT κ] [DecidableLT κ]
  [DecidableLE κ]

def iterate (m : OrderedMap κ ν) : List (κ × ν) := m.range .unbounded .unbounded .forward

theorem iterate_eq_toList (m : OrderedMap κ ν) : m.iterate = m.toList := by
  rw [iterate, range_eq_arrange, Direction.arrange, between, List.filter_eq_self]
  intro e _
  rw [Bool.and_eq_true, decide_eq_true_eq, decide_eq_true_eq]
  exact ⟨trivial, trivial⟩

end Listing

section Represents
variable {κ ν : Type} [LT κ] [LE κ] [Std.IsLinearOrder κ] [Std.LawfulOrderLT κ] [DecidableLT κ]
  [DecidableEq κ] {m : OrderedMap κ ν} {f : Finmap fun _ : κ => ν}

theorem keys_eq_toFinset (same : ∀ k, m.get? k = f.lookup k) :
    f.keys = (m.toList.map (·.1)).toFinset := by
  ext k
  rw [Finmap.mem_keys, Finmap.mem_iff, List.mem_toFinset, List.mem_map]
  simp only [← same, get?_eq_some_iff]
  constructor
  · rintro ⟨v, mem⟩
    exact ⟨(k, v), mem, rfl⟩
  · rintro ⟨⟨_, v⟩, mem, rfl⟩
    exact ⟨v, mem⟩

theorem get?_insert_eq_lookup (same : ∀ k, m.get? k = f.lookup k) (k : κ) (v : ν) (serial : Nat)
    (a : κ) : (m.insert k v serial).get? a = (f.insert k v).lookup a := by
  rw [get?_insert]
  split
  · next found => rw [found, Finmap.lookup_insert]
  · next other => rw [Finmap.lookup_insert_of_ne f other, same]

theorem get?_remove_eq_lookup (same : ∀ k, m.get? k = f.lookup k) (k : κ) (serial : Nat) (a : κ) :
    (m.remove k serial).2.get? a = (f.erase k).lookup a := by
  rw [get?_remove]
  split
  · next found => rw [found, Finmap.lookup_erase]
  · next other => rw [Finmap.lookup_erase_ne other, same]

variable [DecidableLE κ]

/-- A map and a finite function answer alike. -/
structure Represents (m : OrderedMap κ ν) (f : Finmap fun _ : κ => ν) : Prop where
  get? k : m.get? k = f.lookup k
  contains k : m.contains k = true ↔ k ∈ f
  size : m.size = f.keys.card
  isEmpty : m.isEmpty = true ↔ f = ∅
  ascending : m.iterate.Pairwise fun a b => a.1 < b.1
  entries e : e ∈ m.iterate ↔ f.lookup e.1 = some e.2

theorem represents_of_get? (same : ∀ k, m.get? k = f.lookup k) : Represents m f := by
  have distinct : (m.toList.map (·.1)).Nodup :=
    List.pairwise_map.2 (m.pairwise_toList.imp Std.ne_of_lt)
  have size : m.size = f.keys.card := by
    calc
      m.size = (m.toList.map (·.1)).length := by rw [List.length_map, length_toList]
      _ = (m.toList.map (·.1)).toFinset.card := (List.toFinset_card_of_nodup distinct).symm
      _ = f.keys.card := by rw [keys_eq_toFinset same]
  refine ⟨same, fun k => ?_, size, ?_, ?_, fun e => ?_⟩
  · rw [OrderedMap.contains, same, Finmap.lookup_isSome]
  · rw [OrderedMap.isEmpty, beq_iff_eq, size, Finset.card_eq_zero]
    constructor
    · intro none
      apply Finmap.ext_lookup
      intro k
      rw [Finmap.lookup_empty, Finmap.lookup_eq_none, ← Finmap.mem_keys, none]
      exact Finset.notMem_empty k
    · rintro rfl
      exact Finmap.keys_empty
  · rw [iterate_eq_toList]
    exact m.pairwise_toList
  · rw [iterate_eq_toList, ← same, get?_eq_some_iff]

end Represents

namespace Handles

/-! ### The book of the handles -/

section Book
variable {κ ν : Type} [DecidableEq κ]

def record (book : Nat → Finmap fun _ : κ => ν) : Update κ ν → Nat → Finmap fun _ : κ => ν
  | .insert handle key value => Function.update book handle ((book handle).insert key value)
  | .remove handle key => Function.update book handle ((book handle).erase key)
  | .collect handle entries =>
    Function.update book handle (entries.foldl (fun f e => f.insert e.1 e.2) ∅)
  | .clone handle other => Function.update book handle (book other)

def contents (us : List (Update κ ν)) : Nat → Finmap fun _ : κ => ν := us.foldl record fun _ => ∅

variable [LT κ] [DecidableLT κ]

structure Agrees (s : Handles κ ν) (book : Nat → Finmap fun _ : κ => ν) : Prop where
  told handle k : (s.map handle).get? k = (book handle).lookup k
  made handle : (s.map handle).tree.MadeBefore s.updates

namespace Agrees
variable {s : Handles κ ν} {book : Nat → Finmap fun _ : κ => ν}

theorem fresh : Agrees ({} : Handles κ ν) fun _ => ∅ where
  told _ _ := rfl
  made _ := trivial

theorem set (agrees : Agrees s book) (handle : Nat) {m : OrderedMap κ ν}
    {f : Finmap fun _ : κ => ν} (told : ∀ k, m.get? k = f.lookup k)
    (made : m.tree.MadeBefore (s.updates + 1)) :
    Agrees (s.set handle m) (Function.update book handle f) where
  told h k := by
    rw [Function.update_apply]
    change (if h = handle then m else s.map h).get? k = _
    split
    · exact told k
    · exact agrees.told h k
  made h := by
    change (if h = handle then m else s.map h).tree.MadeBefore (s.updates + 1)
    split
    · exact made
    · exact (agrees.made h).mono (Nat.le_succ _)

variable [LE κ] [Std.IsLinearOrder κ] [Std.LawfulOrderLT κ]

theorem insert (agrees : Agrees s book) (handle : Nat) (e : κ × ν) :
    Agrees (s.insert handle e) (Function.update book handle ((book handle).insert e.1 e.2)) := by
  have older := (agrees.made handle).mono (Nat.le_succ s.updates)
  exact agrees.set handle (get?_insert_eq_lookup (agrees.told handle) e.1 e.2 s.updates)
    (Tree.madeBefore_insert (Nat.lt_succ_self _) e.1 e.2 older)

theorem remove (agrees : Agrees s book) (handle : Nat) (k : κ) :
    Agrees (s.set handle ((s.map handle).remove k s.updates).2)
      (Function.update book handle ((book handle).erase k)) := by
  have older := (agrees.made handle).mono (Nat.le_succ s.updates)
  refine agrees.set handle (get?_remove_eq_lookup (agrees.told handle) k s.updates) ?_
  unfold OrderedMap.remove
  split
  · exact older
  · exact Tree.madeBefore_erase (Nat.lt_succ_self _) k older

theorem collect (handle : Nat) (entries : List (κ × ν)) {f : Finmap fun _ : κ => ν}
    (agrees : Agrees s (Function.update book handle f)) :
    Agrees (entries.foldl (Handles.insert · handle) s)
      (Function.update book handle (entries.foldl (fun f e => f.insert e.1 e.2) f)) := by
  induction entries generalizing s f with
  | nil => exact agrees
  | cons e entries ih =>
    have next := agrees.insert handle e
    rw [Function.update_self, Function.update_idem] at next
    exact ih next

theorem update (agrees : Agrees s book) (u : Update κ ν) : Agrees (s.update u) (record book u) := by
  cases u with
  | insert handle key value => exact agrees.insert handle (key, value)
  | remove handle key => exact agrees.remove handle key
  | clone handle other =>
    exact agrees.set handle (agrees.told other) ((agrees.made other).mono (Nat.le_succ _))
  | collect handle entries =>
    exact collect handle entries (agrees.set handle (m := ∅) (fun _ => rfl) trivial)

theorem after (us : List (Update κ ν)) : Agrees (Handles.after us) (contents us) := by
  have run {s : Handles κ ν} {book : Nat → Finmap fun _ : κ => ν} (agrees : Agrees s book) :
      Agrees (us.foldl Handles.update s) (us.foldl record book) := by
    induction us generalizing s book with
    | nil => exact agrees
    | cons u us ih => exact ih (agrees.update u)
  exact run fresh

end Agrees

end Book
end Handles

section Made
variable {κ ν : Type} [LT κ] [DecidableLT κ] [LE κ] [DecidableLE κ] [Std.IsLinearOrder κ]
  [Std.LawfulOrderLT κ] [DecidableEq κ]

/-- However maps are updated, collected from entries and copied, behind each handle is the finite
function that the same updates give. An insertion replaces the old value and makes a root that no
map has; a removal gives the value that was there, and it keeps the root exactly if there was none,
and then the whole map. Either is done in one descent, on which it also shows whether the number of
entries changes. -/
theorem represents_contents (us : List (Update κ ν)) (handle : Nat) (k : κ) (v : ν) :
    let s := Handles.after us
    let m := s.map handle
    let f := Handles.contents us handle
    let inserted := m.insert k v s.updates
    let removed := m.remove k s.updates
    Represents m f ∧
      (Represents inserted (f.insert k v) ∧
        (∀ other, inserted.sharesRoot (s.map other) = false) ∧
        m.tree.enter s.updates k v = (inserted.tree, (f.lookup k).isNone)) ∧
      (removed.1 = f.lookup k ∧ Represents removed.2 (f.erase k) ∧
        (removed.2.sharesRoot m = true ↔ f.lookup k = none) ∧
        (f.lookup k = none → removed.2 = m) ∧
        m.tree.withdraw s.updates k = (f.lookup k).map fun x => (removed.2.tree, x)) := by
  intro s m f inserted removed
  have agrees : Handles.Agrees s (Handles.contents us) := .after us
  have told : ∀ a, m.get? a = f.lookup a := agrees.told handle
  have found : m.tree.find? k = f.lookup k := told k
  have kept (absent : f.lookup k = none) : removed = (none, m) :=
    remove_of_get?_eq_none ((told k).trans absent) s.updates
  have erased {x : ν} (present : f.lookup k = some x) :
      removed.2.tree = m.tree.erase s.updates k := by
    simp only [removed, OrderedMap.remove]
    split <;> simp_all
  refine ⟨represents_of_get? told, ⟨represents_of_get? (get?_insert_eq_lookup told k v s.updates),
    fun other => ?_, ?_⟩, (remove_fst m k s.updates).trans (told k),
    represents_of_get? (get?_remove_eq_lookup told k s.updates), ?_, fun absent => ?_, ?_⟩
  · rw [Bool.eq_false_iff, sharesRoot, ne_eq, Tree.sharesRoot_iff]
    exact Tree.root?_insert_ne (agrees.made other) k v m.tree
  · rw [Tree.enter_eq, found]
    rfl
  · rw [sharesRoot, Tree.sharesRoot_iff]
    constructor
    · intro same
      cases present : f.lookup k with
      | none => rfl
      | some x =>
        rw [erased present] at same
        exact absurd same (Tree.root?_erase_ne m.sorted (agrees.made handle) (found.trans present))
    · intro absent
      rw [kept absent]
  · rw [kept absent]
  · rw [Tree.withdraw_eq, found]
    cases present : f.lookup k with
    | none => rfl
    | some x => rw [erased present]

end Made

/-- Key 1 was removed behind the first handle after it was copied to the second one. -/
theorem represents_contents_sample :
    (Handles.contents sampleUpdates 0).lookup 1 = none ∧
      (((Handles.after sampleUpdates).map 0).remove 1 (Handles.after sampleUpdates).updates).2 =
        (Handles.after sampleUpdates).map 0 ∧
      Represents ((Handles.after sampleUpdates).map 0) (Handles.contents sampleUpdates 0) ∧
      (((Handles.after sampleUpdates).map 1).remove 1 (Handles.after sampleUpdates).updates).1 =
        some 1 := by
  have absent : (Handles.contents sampleUpdates 0).lookup 1 = none := by decide +kernel
  have present : (Handles.contents sampleUpdates 1).lookup 1 = some 1 := by decide +kernel
  obtain ⟨alike, _, _, _, _, kept, _⟩ := represents_contents sampleUpdates 0 1 9
  obtain ⟨_, _, removed, _⟩ := represents_contents sampleUpdates 1 1 9
  exact ⟨absent, kept absent, alike, removed.trans present⟩

end OrderedMap
end OptimisticStore
