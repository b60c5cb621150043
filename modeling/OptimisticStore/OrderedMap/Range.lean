import OptimisticStore.OrderedMap.Basic

/-! What a walk reads. On a sorted tree it gives the entries between its cuts, each once: by
ascending key forward and by descending key backward. -/

namespace OptimisticStore

def Direction.arrange {α : Type} : Direction → List α → List α
  | .forward, es => es
  | .backward, es => es.reverse

@[simp] theorem Direction.mem_arrange {α : Type} {d : Direction} {es : List α} {e : α} :
    e ∈ d.arrange es ↔ e ∈ es := by
  cases d <;> simp [arrange]

namespace Walk
variable {κ ν : Type}

def remaining (d : Direction) (stack : List ((κ × ν) × Tree κ ν)) : List (κ × ν) :=
  stack.flatMap fun (entry, side) => entry :: d.arrange side.toList

@[simp] theorem remaining_nil (d : Direction) : remaining d ([] : List ((κ × ν) × Tree κ ν)) = [] :=
  rfl

@[simp] theorem remaining_cons (d : Direction) (e : κ × ν) (t : Tree κ ν)
    (stack : List ((κ × ν) × Tree κ ν)) :
    remaining d ((e, t) :: stack) = e :: (d.arrange t.toList ++ remaining d stack) := by
  simp [remaining]

theorem remaining_descend (d : Direction) (t : Tree κ ν) (stack : List ((κ × ν) × Tree κ ν)) :
    remaining d (descend d t stack) = d.arrange t.toList ++ remaining d stack := by
  induction t generalizing stack with
  | leaf => cases d <;> rfl
  | node _ k v _ l r hl hr =>
    cases d
    · simp [descend, Tree.toList, hl, Direction.arrange]
    · simp [descend, Tree.toList, hr, Direction.arrange]

variable [LT κ] [LE κ] [DecidableLT κ] [DecidableLE κ]

theorem toList_of_next_eq_none {w : Walk κ ν} (h : w.next = none) : w.toList = [] := by
  rw [toList]
  split <;> simp_all

theorem toList_of_next_eq_some {w rest : Walk κ ν} {e : κ × ν} (h : w.next = some (e, rest)) :
    w.toList = e :: rest.toList := by
  rw [toList]
  split <;> simp_all

/-- A walk goes on as long as the finishing cut admits the next key. -/
theorem toList_eq_takeWhile (w : Walk κ ν) :
    w.toList = (remaining w.direction w.stack).takeWhile fun e => w.within e.1 := by
  fun_induction toList w with
  | case1 w ended =>
    unfold next at ended
    split at ended
    · next hs => simp [hs]
    · next hs =>
      split at ended
      · cases ended
      · next outside => simp [hs, outside]
  | case2 w entry rest more ih =>
    unfold next at more
    split at more
    · cases more
    · next e side stack hs =>
      split at more
      · next inside =>
        cases more
        rw [ih, hs, remaining_cons, List.takeWhile_cons, if_pos inside, ← remaining_descend]
        rfl
      · cases more

theorem take_eq_take_toList (w : Walk κ ν) (limit : Nat) : w.take limit = w.toList.take limit := by
  induction limit generalizing w with
  | zero => simp [take]
  | succ limit ih =>
    rw [take]
    split
    · next h => rw [toList_of_next_eq_none h, List.take_nil]
    · next h => rw [toList_of_next_eq_some h, List.take_succ_cons, ih]

variable [Std.IsLinearOrder κ] [Std.LawfulOrderLT κ]

theorem remaining_seek_forward {t : Tree κ ν} (sorted : t.Sorted) (lower upper : Cut κ)
    (stack : List ((κ × ν) × Tree κ ν)) :
    remaining .forward (seek lower upper .forward t stack) =
      t.toList.filter (fun e => lower.Below e.1) ++ remaining .forward stack := by
  induction t generalizing stack with
  | leaf => rfl
  | node _ a x _ l r hl hr =>
    obtain ⟨sl, sr, la, ra, _⟩ := Tree.sorted_node_iff.1 sorted
    rw [seek]
    split
    · next inside =>
      have all : r.toList.filter (fun e => lower.Below e.1) = r.toList := by
        simp only [List.filter_eq_self, decide_eq_true_eq]
        intro e he
        have := ra e he
        cases lower <;> simp_all [Cut.Below] <;> grind
      simp [hl sl, Tree.toList, all, inside, Direction.arrange]
    · next outside =>
      have none : l.toList.filter (fun e => lower.Below e.1) = [] := by
        simp only [List.filter_eq_nil_iff, decide_eq_true_eq]
        intro e he
        have := la e he
        cases lower <;> simp_all [Cut.Below] <;> grind
      simp [hr sr, Tree.toList, none, outside]

theorem remaining_seek_backward {t : Tree κ ν} (sorted : t.Sorted) (lower upper : Cut κ)
    (stack : List ((κ × ν) × Tree κ ν)) :
    remaining .backward (seek lower upper .backward t stack) =
      (t.toList.filter (fun e => upper.Above e.1)).reverse ++ remaining .backward stack := by
  induction t generalizing stack with
  | leaf => rfl
  | node _ a x _ l r hl hr =>
    obtain ⟨sl, sr, la, ra, _⟩ := Tree.sorted_node_iff.1 sorted
    rw [seek]
    split
    · next inside =>
      have all : l.toList.filter (fun e => upper.Above e.1) = l.toList := by
        simp only [List.filter_eq_self, decide_eq_true_eq]
        intro e he
        have := la e he
        cases upper <;> simp_all [Cut.Above] <;> grind
      simp [hr sr, Tree.toList, all, inside, Direction.arrange]
    · next outside =>
      have none : r.toList.filter (fun e => upper.Above e.1) = [] := by
        simp only [List.filter_eq_nil_iff, decide_eq_true_eq]
        intro e he
        have := ra e he
        cases upper <;> simp_all [Cut.Above] <;> grind
      simp [hl sl, Tree.toList, none, outside]

end Walk

/-- Where a property, once lost, stays lost along a list, the first entries that have it are all
that have it. -/
theorem takeWhile_eq_filter {α : Type} {p : α → Bool} {es : List α}
    (lost : es.Pairwise fun a b => p b = true → p a = true) : es.takeWhile p = es.filter p := by
  induction es with
  | nil => rfl
  | cons e es ih =>
    obtain ⟨he, hes⟩ := List.pairwise_cons.1 lost
    cases hp : p e
    · have : es.filter p = [] := by
        simp only [List.filter_eq_nil_iff]
        intro a ha pa
        simp [he a ha pa] at hp
      simp [hp, this]
    · simp [hp, ih hes]

namespace OrderedMap
variable {κ ν : Type} [LT κ] [LE κ] [DecidableLT κ] [DecidableLE κ]
  [Std.IsLinearOrder κ] [Std.LawfulOrderLT κ]

def between (m : OrderedMap κ ν) (lower upper : Cut κ) : List (κ × ν) :=
  m.toList.filter fun e => lower.Below e.1 && upper.Above e.1

theorem toList_walk (m : OrderedMap κ ν) (lower upper : Cut κ) (d : Direction) :
    (m.walk lower upper d).toList = d.arrange (m.between lower upper) := by
  rw [Walk.toList_eq_takeWhile, walk, Walk.start]
  have sorted := m.pairwise_toList
  cases d with
  | forward =>
    simp only [Walk.remaining_seek_forward m.sorted, Walk.within]
    rw [takeWhile_eq_filter]
    · simp [Direction.arrange, between, toList, Bool.and_comm]
    · rw [Walk.remaining_nil, List.append_nil]
      refine (sorted.sublist List.filter_sublist).imp ?_
      intro a b lt
      cases upper <;> simp [Cut.Above] <;> grind
  | backward =>
    simp only [Walk.remaining_seek_backward m.sorted, Walk.within]
    rw [takeWhile_eq_filter]
    · simp [Direction.arrange, between, toList]
    · rw [Walk.remaining_nil, List.append_nil, List.pairwise_reverse]
      refine (sorted.sublist List.filter_sublist).imp ?_
      intro a b lt
      cases lower <;> simp [Cut.Below] <;> grind

theorem range_eq_arrange (m : OrderedMap κ ν) (lower upper : Cut κ) (d : Direction) :
    m.range lower upper d = d.arrange (m.between lower upper) := toList_walk m lower upper d

end OrderedMap
end OptimisticStore
