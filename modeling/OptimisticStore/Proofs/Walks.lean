import OptimisticStore.Proofs.Contents

/-! Walks are exact. What a walk still has to give is its list: a step gives the head of it and
leaves the tail, in either direction and on any stack, and when there is no head the walk is over
and drops what is left on its stack. Behind a handle this list holds the entries of the finite
function between the two cuts, each once and in the order of the direction. -/

namespace OptimisticStore

namespace Walk
variable {κ ν : Type} [LT κ] [LE κ] [DecidableLT κ] [DecidableLE κ]

/-- One call: the next entry and the walk behind it. A walk that is over keeps nothing. -/
def advance (w : Walk κ ν) : Option (κ × ν) × Walk κ ν :=
  match w.next with
  | none => (none, { w with stack := [] })
  | some (entry, rest) => (some entry, rest)

def answers : (calls : Nat) → Walk κ ν → List (Option (κ × ν))
  | 0, _ => []
  | calls + 1, w => w.advance.1 :: answers calls w.advance.2

theorem toList_of_stack_eq_nil {w : Walk κ ν} (empty : w.stack = []) : w.toList = [] :=
  toList_of_next_eq_none (by rw [next, empty])

theorem advance_toList (w : Walk κ ν) :
    w.advance.1 = w.toList.head? ∧ w.advance.2.toList = w.toList.tail := by
  unfold advance
  split
  · next ended =>
    have nothing : ({ w with stack := [] } : Walk κ ν).toList = [] := toList_of_stack_eq_nil rfl
    rw [toList_of_next_eq_none ended]
    exact ⟨rfl, nothing⟩
  · next entry rest more =>
    rw [toList_of_next_eq_some more]
    exact ⟨rfl, rfl⟩

theorem answers_eq (w : Walk κ ν) (calls : Nat) :
    w.answers calls = (List.range calls).map (w.toList[·]?) := by
  induction calls generalizing w with
  | zero => rfl
  | succ calls ih =>
    obtain ⟨first, others⟩ := w.advance_toList
    calc
      w.answers (calls + 1)
        = w.toList.head? :: (List.range calls).map (w.toList.tail[·]?) := by
          rw [answers, ih, first, others]
      _ = w.toList[0]? :: (List.range calls).map (fun i => w.toList[i + 1]?) := by
          simp only [List.head?_eq_getElem?, List.getElem?_tail]
      _ = (List.range (calls + 1)).map (w.toList[·]?) := by
          rw [List.range_succ_eq_map, List.map_cons, List.map_map]
          rfl

end Walk

namespace OrderedMap
variable {κ ν : Type} [LT κ] [LE κ] [DecidableLT κ] [DecidableLE κ] [Std.IsLinearOrder κ]
  [Std.LawfulOrderLT κ]

theorem mem_range_iff (m : OrderedMap κ ν) (lower upper : Cut κ) (d : Direction) (e : κ × ν) :
    e ∈ m.range lower upper d ↔
      m.get? e.1 = some e.2 ∧ lower.Below e.1 ∧ upper.Above e.1 := by
  rw [range_eq_arrange, Direction.mem_arrange, get?_eq_some_iff]
  simp [between]

variable [DecidableEq κ]

/-- Behind a handle, however it came to hold its map, calling a walk until it ends gives the entries
between the two cuts: upwards by ascending and downwards by descending keys, so each once. Cuts that
cross give none. The calls answer these entries one by one, and from then on always that the walk is
over. -/
theorem walks_exact (us : List (Update κ ν)) (handle : Nat) (lower upper : Cut κ) :
    let m := (Handles.after us).map handle
    let f := Handles.contents us handle
    (∀ d e, e ∈ m.range lower upper d ↔
        f.lookup e.1 = some e.2 ∧ lower.Below e.1 ∧ upper.Above e.1) ∧
      ((m.range lower upper .forward).Pairwise fun a b => a.1 < b.1) ∧
      ((m.range lower upper .backward).Pairwise fun a b => b.1 < a.1) ∧
      (Cut.crossed lower upper = true → ∀ d, m.range lower upper d = []) ∧
      ∀ d calls, (m.walk lower upper d).answers calls =
        (List.range calls).map ((m.range lower upper d)[·]?) := by
  intro m f
  have told : ∀ k, m.get? k = f.lookup k := (Handles.Agrees.after us).told handle
  have member (d : Direction) (e : κ × ν) : e ∈ m.range lower upper d ↔
      f.lookup e.1 = some e.2 ∧ lower.Below e.1 ∧ upper.Above e.1 := by
    rw [mem_range_iff, told]
  have ascending : (m.between lower upper).Pairwise fun a b => a.1 < b.1 :=
    m.pairwise_toList.sublist List.filter_sublist
  refine ⟨member, ?_, ?_, fun crossed d => ?_, fun d calls => Walk.answers_eq _ calls⟩
  · rw [range_eq_arrange]
    exact ascending
  · rw [range_eq_arrange]
    exact List.pairwise_reverse.2 ascending
  · apply List.eq_nil_iff_forall_not_mem.2
    intro e mem
    exact Cut.not_between_of_crossed crossed e.1 ((member d e).1 mem).2

/-- A walk downwards that stops at its lower cut with nodes left on the stack, and cuts that
meet. -/
theorem walks_exact_sample :
    let m := (Handles.after sampleUpdates).map 1
    (m.walk (.excluded 3) (.included 5) .backward).answers 4 =
        [some (5, 5), some (4, 4), none, none] ∧
      Cut.crossed (.excluded 4) (.included 4) = true ∧
      m.range (.excluded 4) (.included 4) .forward = [] := by
  intro m
  have given : m.range (.excluded 3) (.included 5) .backward = [(5, 5), (4, 4)] := by
    rw [range_eq_arrange]
    decide +kernel
  have touching : Cut.crossed (.excluded 4) (.included 4) = true := rfl
  obtain ⟨_, _, _, _, calls⟩ := walks_exact sampleUpdates 1 (.excluded 3) (.included 5)
  obtain ⟨_, _, _, nothing, _⟩ := walks_exact sampleUpdates 1 (.excluded 4) (.included 4)
  refine ⟨?_, touching, nothing touching .forward⟩
  rw [calls .backward 4, given]
  rfl

end OrderedMap
end OptimisticStore
