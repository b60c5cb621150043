import OptimisticStore.OrderedMap.Tree

/-! Trees whose keys ascend from left to right. A key splits the entries of such a tree into
those below it, its own if there is one, and those above it; looking up, inserting and erasing
are read off this split. -/

namespace OptimisticStore.Tree
variable {κ ν : Type} [LT κ]

def Sorted (t : Tree κ ν) : Prop := t.toList.Pairwise fun a b => a.1 < b.1

theorem sorted_leaf : (leaf : Tree κ ν).Sorted := List.Pairwise.nil

theorem sorted_node_iff {serial : Nat} {a : κ} {x : ν} {h : Nat} {l r : Tree κ ν} :
    (node serial a x h l r).Sorted ↔ l.Sorted ∧ r.Sorted ∧
      (∀ e ∈ l.toList, e.1 < a) ∧ (∀ e ∈ r.toList, a < e.1) ∧
        ∀ e ∈ l.toList, ∀ f ∈ r.toList, e.1 < f.1 := by
  simp only [Sorted, toList, List.pairwise_append, List.pairwise_cons, List.mem_cons,
    forall_eq_or_imp]
  grind

variable [DecidableLT κ]

def lesser (k : κ) (es : List (κ × ν)) : List (κ × ν) := es.filter (·.1 < k)

def greater (k : κ) (es : List (κ × ν)) : List (κ × ν) := es.filter (k < ·.1)

@[simp] theorem lesser_append (k : κ) (es fs : List (κ × ν)) :
    lesser k (es ++ fs) = lesser k es ++ lesser k fs := List.filter_append ..

@[simp] theorem greater_append (k : κ) (es fs : List (κ × ν)) :
    greater k (es ++ fs) = greater k es ++ greater k fs := List.filter_append ..

theorem lesser_cons (k : κ) (e : κ × ν) (es : List (κ × ν)) :
    lesser k (e :: es) = if e.1 < k then e :: lesser k es else lesser k es := by
  simp [lesser, List.filter_cons]

theorem greater_cons (k : κ) (e : κ × ν) (es : List (κ × ν)) :
    greater k (e :: es) = if k < e.1 then e :: greater k es else greater k es := by
  simp [greater, List.filter_cons]

theorem lesser_of_forall_lt {k : κ} {es : List (κ × ν)} (h : ∀ e ∈ es, e.1 < k) :
    lesser k es = es := by
  simpa [lesser, List.filter_eq_self] using h

theorem greater_of_forall_gt {k : κ} {es : List (κ × ν)} (h : ∀ e ∈ es, k < e.1) :
    greater k es = es := by
  simpa [greater, List.filter_eq_self] using h

private theorem sorted_parts {t : Tree κ ν} (sorted : t.Sorted) (k : κ) :
    (lesser k t.toList).Pairwise (·.1 < ·.1) ∧ (greater k t.toList).Pairwise (·.1 < ·.1) :=
  ⟨sorted.sublist List.filter_sublist, sorted.sublist List.filter_sublist⟩

variable [LE κ] [Std.IsLinearOrder κ] [Std.LawfulOrderLT κ]

theorem greater_of_forall_lt {k : κ} {es : List (κ × ν)} (h : ∀ e ∈ es, e.1 < k) :
    greater k es = [] := by
  simp only [greater, List.filter_eq_nil_iff, decide_eq_true_eq]
  grind

theorem lesser_of_forall_gt {k : κ} {es : List (κ × ν)} (h : ∀ e ∈ es, k < e.1) :
    lesser k es = [] := by
  simp only [lesser, List.filter_eq_nil_iff, decide_eq_true_eq]
  grind

def own (k : κ) (t : Tree κ ν) : List (κ × ν) := ((t.find? k).map fun v => (k, v)).toList

/-- The three ways in which a key meets a node, with what they say about its two sides. -/
private theorem sides_of_lt {k a : κ} {r : List (κ × ν)} (lt : k < a)
    (hr : ∀ e ∈ r, a < e.1) : ¬ a < k ∧ lesser k r = [] ∧ greater k r = r :=
  ⟨by grind, lesser_of_forall_gt (by grind), greater_of_forall_gt (by grind)⟩

private theorem sides_of_gt {k a : κ} {l : List (κ × ν)} (lt : a < k)
    (hl : ∀ e ∈ l, e.1 < a) : ¬ k < a ∧ lesser k l = l ∧ greater k l = [] :=
  ⟨by grind, lesser_of_forall_lt (by grind), greater_of_forall_lt (by grind)⟩

theorem toList_eq_split {t : Tree κ ν} (sorted : t.Sorted) (k : κ) :
    t.toList = lesser k t.toList ++ own k t ++ greater k t.toList := by
  induction t with
  | leaf => simp [toList, own, find?, lesser, greater]
  | node _ a x _ l r hl hr =>
    obtain ⟨sl, sr, la, ra, _⟩ := sorted_node_iff.1 sorted
    rw [toList, lesser_append, greater_append, lesser_cons, greater_cons, own, find?]
    rcases Std.lt_trichotomy k a with lt | rfl | lt
    · obtain ⟨na, hb, ha⟩ := sides_of_lt lt ra
      rw [if_neg na, if_pos lt, if_pos lt, hb, ha]
      conv => lhs; rw [hl sl]
      simp [own]
    · simp [Std.lt_irrefl, lesser_of_forall_lt la, greater_of_forall_lt la, lesser_of_forall_gt ra,
        greater_of_forall_gt ra]
    · obtain ⟨na, hb, ha⟩ := sides_of_gt lt la
      rw [if_neg na, if_pos lt, if_neg na, if_pos lt, hb, ha]
      conv => lhs; rw [hr sr]
      simp [own]

theorem toList_insert {t : Tree κ ν} (sorted : t.Sorted) (serial : Nat) (k : κ) (v : ν) :
    (t.insert serial k v).toList = lesser k t.toList ++ (k, v) :: greater k t.toList := by
  induction t with
  | leaf => simp [insert, make, toList, lesser, greater]
  | node _ a x _ l r hl hr =>
    obtain ⟨sl, sr, la, ra, _⟩ := sorted_node_iff.1 sorted
    rw [toList, lesser_append, greater_append, lesser_cons, greater_cons, insert]
    rcases Std.lt_trichotomy k a with lt | rfl | lt
    · obtain ⟨na, hb, ha⟩ := sides_of_lt lt ra
      simp [lt, na, hl sl, hb, ha]
    · simp [Std.lt_irrefl, lesser_of_forall_lt la, greater_of_forall_lt la, lesser_of_forall_gt ra,
        greater_of_forall_gt ra]
    · obtain ⟨na, hb, ha⟩ := sides_of_gt lt la
      simp [lt, na, hr sr, hb, ha]

theorem toList_erase {t : Tree κ ν} (sorted : t.Sorted) (serial : Nat) (k : κ) :
    (t.erase serial k).toList = lesser k t.toList ++ greater k t.toList := by
  induction t with
  | leaf => simp [erase, toList, lesser, greater]
  | node _ a x _ l r hl hr =>
    obtain ⟨sl, sr, la, ra, _⟩ := sorted_node_iff.1 sorted
    rw [toList, lesser_append, greater_append, lesser_cons, greater_cons, erase]
    rcases Std.lt_trichotomy k a with lt | rfl | lt
    · obtain ⟨na, hb, ha⟩ := sides_of_lt lt ra
      simp [lt, na, hl sl, hb, ha]
    · simp [Std.lt_irrefl, lesser_of_forall_lt la, greater_of_forall_lt la, lesser_of_forall_gt ra,
        greater_of_forall_gt ra]
    · obtain ⟨na, hb, ha⟩ := sides_of_gt lt la
      simp [lt, na, hr sr, hb, ha]

theorem sorted_insert {t : Tree κ ν} (sorted : t.Sorted) (serial : Nat) (k : κ) (v : ν) :
    (t.insert serial k v).Sorted := by
  have parts := sorted_parts sorted k
  rw [Sorted, toList_insert sorted, List.pairwise_append, List.pairwise_cons]
  refine ⟨parts.1, ⟨?_, parts.2⟩, ?_⟩
  · simp [greater]
  · simp [lesser, greater]
    grind

theorem sorted_erase {t : Tree κ ν} (sorted : t.Sorted) (serial : Nat) (k : κ) :
    (t.erase serial k).Sorted := by
  have parts := sorted_parts sorted k
  rw [Sorted, toList_erase sorted, List.pairwise_append]
  refine ⟨parts.1, parts.2, ?_⟩
  simp [lesser, greater]
  grind

theorem find?_eq_some_iff {t : Tree κ ν} (sorted : t.Sorted) (k : κ) (v : ν) :
    t.find? k = some v ↔ (k, v) ∈ t.toList := by
  rw [toList_eq_split sorted k]
  simp [lesser, greater, own, Std.lt_irrefl]

theorem size_insert {t : Tree κ ν} (sorted : t.Sorted) (serial : Nat) (k : κ) (v : ν) :
    (t.insert serial k v).size = if (t.find? k).isSome then t.size else t.size + 1 := by
  have split := congrArg List.length (toList_eq_split sorted k)
  rw [← length_toList, toList_insert sorted, ← length_toList]
  cases h : t.find? k <;> simp [own, h] at split ⊢ <;> omega

theorem size_erase {t : Tree κ ν} (sorted : t.Sorted) (serial : Nat) {k : κ} {v : ν}
    (found : t.find? k = some v) : (t.erase serial k).size = t.size - 1 := by
  have split := congrArg List.length (toList_eq_split sorted k)
  rw [← length_toList, toList_erase sorted, ← length_toList]
  simp [own, found] at split ⊢
  omega

end OptimisticStore.Tree
