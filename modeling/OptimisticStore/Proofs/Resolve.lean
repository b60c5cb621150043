import OptimisticStore.Durable.Cursor
import OptimisticStore.Proofs.History

/-! Which records of a scan give rows. Upwards the newest record of a key is met first and the
rows come from the first record of each key; downwards it is met last, and reading downwards
gives what reading upwards gives, turned round. Records above the version of a cursor change
nothing, and neither does where a scan is split. -/

namespace OptimisticStore.Durable

abbrev Entry := Bytes × Record Bytes

def NewestFirst (a b : Entry) : Prop := a.1 < b.1 ∨ a.1 = b.1 ∧ b.2.version < a.2.version

theorem NewestFirst.key_le {a b : Entry} (order : NewestFirst a b) : a.1 ≤ b.1 := by
  rcases order with lt | ⟨eq, _⟩
  · exact Std.le_of_lt lt
  · rw [eq]
    exact Std.le_refl _

theorem NewestFirst.version_lt {a b : Entry} (order : NewestFirst a b) (same : a.1 = b.1) :
    b.2.version < a.2.version := by
  rcases order with lt | ⟨_, older⟩
  · rw [same] at lt
    exact absurd lt Std.lt_irrefl
  · exact older

/-- The first record of each key; records of the key already `settled` are passed over. -/
def firsts : (settled : Option Bytes) → List Entry → List Entry
  | _, [] => []
  | settled, e :: rest =>
    if settled = some e.1 then firsts settled rest else e :: firsts (some e.1) rest

/-- The last record of each key, where `waiting` is the last one met so far. -/
def lasts : (waiting : Option Entry) → List Entry → List Entry
  | waiting, [] => waiting.toList
  | none, e :: rest => lasts (some e) rest
  | some w, e :: rest => if w.1 = e.1 then lasts (some e) rest else w :: lasts (some e) rest

theorem firsts_append_singleton (s : Option Bytes) (l : List Entry) (e : Entry) :
    firsts s (l ++ [e]) =
      firsts s l ++ if (l.getLast?.map (·.1)).or s = some e.1 then [] else [e] := by
  induction l generalizing s with
  | nil => by_cases same : s = some e.1 <;> simp [firsts, same]
  | cons f l ih =>
    have last : ((f :: l).getLast?.map (·.1)).or s = (l.getLast?.map (·.1)).or (some f.1) := by
      cases l with
      | nil => rfl
      | cons g l => simp [List.getLast?_eq_some_getLast]
    rw [last, List.cons_append, firsts, firsts]
    by_cases same : s = some f.1
    · rw [if_pos same, if_pos same, ih, same]
    · rw [if_neg same, if_neg same, ih, List.cons_append]

theorem lasts_some (e : Entry) (l : List Entry) :
    lasts (some e) l = (if l.head?.map (·.1) = some e.1 then [] else [e]) ++ lasts none l := by
  cases l with
  | nil => simp [lasts]
  | cons f l =>
    by_cases same : e.1 = f.1
    · simp [lasts, same]
    · simp [lasts, same, Ne.symm same]

theorem lasts_eq_reverse (l : List Entry) : lasts none l = (firsts none l.reverse).reverse := by
  induction l with
  | nil => rfl
  | cons e l ih =>
    have turned : (if (l.reverse.getLast?.map (·.1)).or none = some e.1 then [] else [e]).reverse =
        if l.head?.map (·.1) = some e.1 then [] else [e] := by
      rw [List.getLast?_reverse, Option.or_none]
      split <;> rfl
    rw [lasts, lasts_some, ih, List.reverse_cons, firsts_append_singleton, List.reverse_append,
      turned]

theorem behind_front {g : Entry} {l : List Entry} (first : ∀ f ∈ l, g.1 ≤ f.1) :
    ∀ k ∈ some g.1, ∀ f ∈ l, k ≤ f.1 := by
  rintro k ⟨rfl⟩
  exact first

/-- However the records of a key are ordered among themselves, the one met first counts. -/
theorem mem_firsts_iff_find? {l : List Entry} (sorted : l.Pairwise fun a b => a.1 ≤ b.1)
    {s : Option Bytes} (behind : ∀ k ∈ s, ∀ e ∈ l, k ≤ e.1) (e : Entry) :
    e ∈ firsts s l ↔ s ≠ some e.1 ∧ l.find? (·.1 = e.1) = some e := by
  induction l generalizing s with
  | nil => simp [firsts]
  | cons g l ih =>
    obtain ⟨first, rest⟩ := List.pairwise_cons.1 sorted
    rw [firsts, List.find?_cons]
    by_cases same : s = some g.1
    · rw [if_pos same, ih rest fun k hk f hf => behind k hk f (List.mem_cons_of_mem _ hf)]
      refine and_congr_right fun other => ?_
      have apart : g.1 ≠ e.1 := fun key => other (same.trans (congrArg some key))
      rw [decide_eq_false apart]
    · rw [if_neg same, List.mem_cons, ih rest (behind_front first)]
      by_cases key : g.1 = e.1
      · rw [← key, decide_eq_true rfl]
        simp [same, eq_comm]
      · rw [decide_eq_false key]
        have not_front : e ≠ g := fun here => key (congrArg Prod.fst here.symm)
        have passed : some g.1 ≠ some e.1 := fun here => key (Option.some.inj here)
        rw [or_iff_right not_front, and_iff_right passed]
        refine ⟨fun found => ⟨fun settled => ?_, found⟩, And.right⟩
        -- a settled key stands at the very front
        have low := behind e.1 settled g List.mem_cons_self
        exact key (Std.le_antisymm (first e (List.mem_of_find?_eq_some found)) low)

theorem find?_key_eq_some_iff {l : List Entry} (sorted : l.Pairwise NewestFirst) (e : Entry) :
    l.find? (·.1 = e.1) = some e ↔
      e ∈ l ∧ ∀ f ∈ l, f.1 = e.1 → f.2.version ≤ e.2.version := by
  constructor
  · intro found
    refine ⟨List.mem_of_find?_eq_some found, fun f hf key => ?_⟩
    obtain ⟨_, before, after, rfl, others⟩ := List.find?_eq_some_iff_append.1 found
    rcases List.mem_append.1 hf with early | late
    · have other := others f early
      simp [key] at other
    · rcases List.mem_cons.1 late with rfl | late
      · exact Nat.le_refl _
      · have order := (List.pairwise_append.1 sorted).2.1
        exact Nat.le_of_lt (((List.pairwise_cons.1 order).1 f late).version_lt key.symm)
  · rintro ⟨mem, newest⟩
    cases found : l.find? (·.1 = e.1) with
    | none => exact absurd (decide_eq_true rfl) (List.find?_eq_none.1 found e mem)
    | some g =>
      have key : g.1 = e.1 := by simpa using List.find?_some found
      obtain ⟨_, before, after, rfl, others⟩ := List.find?_eq_some_iff_append.1 found
      rcases List.mem_append.1 mem with early | late
      · have other := others e early
        simp at other
      · rcases List.mem_cons.1 late with rfl | late
        · rfl
        · have order := (List.pairwise_append.1 sorted).2.1
          have older := ((List.pairwise_cons.1 order).1 e late).version_lt key
          exact absurd older (Nat.not_lt_of_le (newest g (by simp) key))

theorem mem_firsts_iff {l : List Entry} (sorted : l.Pairwise NewestFirst) {s : Option Bytes}
    (behind : ∀ k ∈ s, ∀ e ∈ l, k ≤ e.1) (e : Entry) :
    e ∈ firsts s l ↔
      e ∈ l ∧ s ≠ some e.1 ∧ ∀ f ∈ l, f.1 = e.1 → f.2.version ≤ e.2.version := by
  rw [mem_firsts_iff_find? (sorted.imp NewestFirst.key_le) behind, find?_key_eq_some_iff sorted,
    and_left_comm]

theorem pairwise_firsts {l : List Entry} (sorted : l.Pairwise fun a b => a.1 ≤ b.1)
    {s : Option Bytes} (behind : ∀ k ∈ s, ∀ e ∈ l, k ≤ e.1) :
    (firsts s l).Pairwise fun a b => a.1 < b.1 := by
  induction l generalizing s with
  | nil => exact List.Pairwise.nil
  | cons g l ih =>
    obtain ⟨first, rest⟩ := List.pairwise_cons.1 sorted
    have later := behind_front first
    rw [firsts]
    by_cases same : s = some g.1
    · rw [if_pos same]
      exact ih rest fun k hk f hf => behind k hk f (List.mem_cons_of_mem _ hf)
    · rw [if_neg same, List.pairwise_cons]
      refine ⟨fun e he => ?_, ih rest later⟩
      obtain ⟨other, found⟩ := (mem_firsts_iff_find? rest later e).1 he
      exact Std.lt_of_le_of_ne (first e (List.mem_of_find?_eq_some found)) fun key =>
        other (congrArg some key)

namespace Cursor

def final (c : Cursor) : List Row := c.waiting.elim [] fun e => rowOf e.1 e.2

def settle (c : Cursor) (l : List Entry) : List Row := (c.acceptAll l).1 ++ (c.acceptAll l).2.final

theorem acceptAll_cons (c : Cursor) (e : Entry) (l : List Entry) :
    c.acceptAll (e :: l) =
      ((c.accept e.1 e.2).1 ++ ((c.accept e.1 e.2).2.acceptAll l).1,
        ((c.accept e.1 e.2).2.acceptAll l).2) := rfl

theorem acceptAll_append (c : Cursor) (l m : List Entry) :
    c.acceptAll (l ++ m) =
      ((c.acceptAll l).1 ++ ((c.acceptAll l).2.acceptAll m).1,
        ((c.acceptAll l).2.acceptAll m).2) := by
  induction l generalizing c with
  | nil => rfl
  | cons e l ih => rw [List.cons_append, acceptAll_cons, acceptAll_cons, ih, List.append_assoc]

theorem settle_append (c : Cursor) (l m : List Entry) :
    c.settle (l ++ m) = (c.acceptAll l).1 ++ (c.acceptAll l).2.settle m := by
  rw [settle, acceptAll_append, settle, List.append_assoc]

theorem acceptAll_filter (c : Cursor) (l : List Entry) :
    c.acceptAll (l.filter fun e => e.2.version ≤ c.version) = c.acceptAll l := by
  have same_version (c : Cursor) (e : Entry) : (c.accept e.1 e.2).2.version = c.version := by
    rw [accept]
    repeat' split
    all_goals rfl
  induction l generalizing c with
  | nil => rfl
  | cons e l ih =>
    have rest := ih (c.accept e.1 e.2).2
    rw [same_version] at rest
    by_cases seen : e.2.version ≤ c.version
    · rw [List.filter_cons_of_pos (by simpa using seen), acceptAll_cons, acceptAll_cons, rest]
    · have unseen : c.accept e.1 e.2 = ([], c) := by
        rw [accept, if_pos (Nat.lt_of_not_le seen)]
      rw [List.filter_cons_of_neg (by simpa using seen), acceptAll_cons, unseen, ih]
      rfl

theorem accept_eq (c : Cursor) (k : Bytes) (x : Record Bytes) :
    ∃ s w, (c.accept k x).2 = { c with settled := s, waiting := w } := by
  rw [accept]
  repeat' split
  all_goals exact ⟨_, _, rfl⟩

theorem acceptAll_eq (c : Cursor) (l : List Entry) :
    ∃ s w, (c.acceptAll l).2 = { c with settled := s, waiting := w } := by
  induction l generalizing c with
  | nil => exact ⟨_, _, rfl⟩
  | cons e l ih =>
    obtain ⟨s, w, one⟩ := c.accept_eq e.1 e.2
    obtain ⟨t, u, all⟩ := ih (c.accept e.1 e.2).2
    rw [one] at all
    exact ⟨t, u, by rw [acceptAll_cons, one]; exact all⟩

theorem acceptAll_moved (c : Cursor) (lower upper : Cut Bytes) (exhausted : Bool)
    (ready : List Row) (l : List Entry) :
    ({ c with lower, upper, exhausted, ready } : Cursor).acceptAll l =
      ((c.acceptAll l).1, { (c.acceptAll l).2 with lower, upper, exhausted, ready }) := by
  have one (c : Cursor) (k : Bytes) (x : Record Bytes) :
      ({ c with lower, upper, exhausted, ready } : Cursor).accept k x =
        ((c.accept k x).1, { (c.accept k x).2 with lower, upper, exhausted, ready }) := by
    simp only [accept]
    repeat' split
    all_goals rfl
  induction l generalizing c with
  | nil => rfl
  | cons e l ih => rw [acceptAll_cons, one, ih, acceptAll_cons]

theorem settle_moved (c : Cursor) (lower upper : Cut Bytes) (exhausted : Bool)
    (ready : List Row) (l : List Entry) :
    ({ c with lower, upper, exhausted, ready } : Cursor).settle l = c.settle l := by
  rw [settle, acceptAll_moved]
  rfl

section Accept
variable {c : Cursor} {k : Bytes} {x : Record Bytes}

theorem accept_settled (forward : c.direction = .forward) (same : c.settled = some k) :
    c.accept k x = ([], c) := by
  rw [accept, forward]
  simp only [if_pos same, ite_self]

theorem accept_forward (forward : c.direction = .forward) (seen : x.version ≤ c.version)
    (other : c.settled ≠ some k) :
    c.accept k x = (rowOf k x, { c with settled := some k }) := by
  rw [accept, if_neg (Nat.not_lt_of_le seen), forward]
  simp only [if_neg other]

theorem accept_backward (backward : c.direction = .backward) (seen : x.version ≤ c.version) :
    c.accept k x =
      (c.waiting.elim [] fun w => if w.1 = k then [] else rowOf w.1 w.2,
        { c with waiting := some (k, x) }) := by
  rw [accept, if_neg (Nat.not_lt_of_le seen), backward]
  cases c.waiting <;> rfl

end Accept

theorem settle_cons (c : Cursor) (e : Entry) (l : List Entry) :
    c.settle (e :: l) = (c.accept e.1 e.2).1 ++ (c.accept e.1 e.2).2.settle l := by
  rw [settle, acceptAll_cons, settle, List.append_assoc]

theorem settle_forward {c : Cursor} (forward : c.direction = .forward) (idle : c.waiting = none)
    {l : List Entry} (seen : ∀ e ∈ l, e.2.version ≤ c.version) :
    c.settle l = (firsts c.settled l).flatMap fun e => rowOf e.1 e.2 := by
  induction l generalizing c with
  | nil => simp [settle, acceptAll, final, idle, firsts]
  | cons e l ih =>
    have here := seen e List.mem_cons_self
    have rest : ∀ f ∈ l, f.2.version ≤ c.version := fun f hf => seen f (List.mem_cons_of_mem _ hf)
    rw [settle_cons, firsts]
    by_cases same : c.settled = some e.1
    · rw [accept_settled forward same, if_pos same]
      exact ih forward idle rest
    · have next := ih (c := { c with settled := some e.1 }) forward idle rest
      rw [accept_forward forward here same, if_neg same, List.flatMap_cons, next]

theorem settle_backward {c : Cursor} (backward : c.direction = .backward) {l : List Entry}
    (seen : ∀ e ∈ l, e.2.version ≤ c.version) :
    c.settle l = (lasts c.waiting l).flatMap fun e => rowOf e.1 e.2 := by
  induction l generalizing c with
  | nil => cases waiting : c.waiting <;> simp [settle, acceptAll, final, waiting, lasts]
  | cons e l ih =>
    have here := seen e List.mem_cons_self
    have rest : ∀ f ∈ l, f.2.version ≤ c.version := fun f hf => seen f (List.mem_cons_of_mem _ hf)
    have next := ih (c := { c with waiting := some e }) backward rest
    rw [settle_cons, accept_backward backward here, next]
    cases c.waiting with
    | none => rfl
    | some w =>
      rw [lasts, Option.elim_some]
      by_cases same : w.1 = e.1
      · rw [if_pos same, if_pos same]
        rfl
      · rw [if_neg same, if_neg same, List.flatMap_cons]

theorem length_settle_le (c : Cursor) (l : List Entry) :
    (c.settle l).length ≤ l.length + c.waiting.toList.length := by
  have short (k : Bytes) (x : Record Bytes) : (rowOf k x).length ≤ 1 := by
    rw [rowOf]
    cases x.value? <;> simp
  induction l generalizing c with
  | nil =>
    cases waiting : c.waiting with
    | none => simp [settle, acceptAll, final, waiting]
    | some w => simpa [settle, acceptAll, final, waiting] using short w.1 w.2
  | cons e l ih =>
    have rest := ih (c.accept e.1 e.2).2
    have here : (c.accept e.1 e.2).1.length + (c.accept e.1 e.2).2.waiting.toList.length ≤
        1 + c.waiting.toList.length := by
      have row := short e.1 e.2
      rw [accept]
      cases waiting : c.waiting with
      | none =>
        repeat' split
        all_goals simp_all
      | some w =>
        have row' := short w.1 w.2
        repeat' split
        all_goals simp_all
    rw [settle_cons, List.length_append, List.length_cons]
    omega

end Cursor
end OptimisticStore.Durable
