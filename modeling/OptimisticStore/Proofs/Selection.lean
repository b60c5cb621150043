import OptimisticStore.Condition
import OptimisticStore.OrderedMap.Range

/-! What a condition selects from a map: the entries whose key it contains, in its direction. -/

namespace OptimisticStore

namespace Direction

theorem arrange_filter {α : Type} (d : Direction) (p : α → Bool) (es : List α) :
    d.arrange (es.filter p) = (d.arrange es).filter p := by
  cases d with
  | forward => rfl
  | backward => exact List.filter_reverse.symm

theorem length_arrange {α : Type} (d : Direction) (es : List α) :
    (d.arrange es).length = es.length := by
  cases d with
  | forward => rfl
  | backward => exact List.length_reverse

def Before (d : Direction) (k l : Bytes) : Prop :=
  match d with
  | .forward => k < l
  | .backward => l < k

instance (d : Direction) (k l : Bytes) : Decidable (d.Before k l) := by
  cases d <;> unfold Before <;> infer_instance

theorem Before.asymm {d : Direction} {k l : Bytes} (before : d.Before k l) : ¬ d.Before l k := by
  cases d with
  | forward => exact Std.not_gt_of_lt before
  | backward => exact Std.not_gt_of_lt before

theorem Before.ne {d : Direction} {k l : Bytes} (before : d.Before k l) : k ≠ l := by
  rintro rfl
  exact before.asymm before

theorem Before.trans {d : Direction} {j k l : Bytes} (first : d.Before j k)
    (second : d.Before k l) : d.Before j l := by
  cases d with
  | forward => exact Std.lt_trans first second
  | backward => exact Std.lt_trans second first

theorem before_total (d : Direction) (k l : Bytes) : d.Before k l ∨ k = l ∨ d.Before l k := by
  cases d with
  | forward => exact Std.lt_trichotomy k l
  | backward =>
    rcases Std.lt_trichotomy l k with lt | eq | lt
    · exact .inl lt
    · exact .inr (.inl eq.symm)
    · exact .inr (.inr lt)

theorem pairwise_arrange {ν : Type} (d : Direction) {es : List (Bytes × ν)}
    (sorted : es.Pairwise fun a b => a.1 < b.1) :
    (d.arrange es).Pairwise fun a b => d.Before a.1 b.1 := by
  cases d with
  | forward => exact sorted
  | backward => exact List.pairwise_reverse.2 sorted

end Direction

section Last
variable {α : Type} {R : α → α → Prop} (asymm : ∀ a b, R a b → ¬ R b a) {es : List α}
  (sorted : es.Pairwise R) {n : Nat} {last : α} (hlast : (es.take n).getLast? = some last)
include asymm sorted hlast

theorem page_last : (∀ e ∈ es.take n, ¬ R last e) ∧ ∀ e ∈ es.drop n, R last e := by
  rw [← List.take_append_drop n es, List.pairwise_append] at sorted
  obtain ⟨page, _, across⟩ := sorted
  refine ⟨fun e he => ?_, across last (List.mem_of_getLast? hlast)⟩
  obtain ⟨front, split⟩ := List.getLast?_eq_some_iff.1 hlast
  rw [split, List.pairwise_append] at page
  rw [split, List.mem_append, List.mem_singleton] at he
  rcases he with he | rfl
  · exact asymm _ _ (page.2.2 e he last (by simp))
  · exact fun h => asymm _ _ h h

theorem filter_behind_last [DecidableRel R] : es.filter (R last) = es.drop n := by
  obtain ⟨page, behind⟩ := page_last asymm sorted hlast
  have none : (es.take n).filter (R last) = [] :=
    List.filter_eq_nil_iff.2 fun e he => by simpa using page e he
  have all : (es.drop n).filter (R last) = es.drop n :=
    List.filter_eq_self.2 fun e he => decide_eq_true (behind e he)
  conv => lhs; rw [← List.take_append_drop n es]
  rw [List.filter_append, none, all, List.nil_append]

theorem filter_upto_last [DecidableRel R] : es.filter (fun e => ¬ R last e) = es.take n := by
  obtain ⟨page, behind⟩ := page_last asymm sorted hlast
  have all : (es.take n).filter (fun e => ¬ R last e) = es.take n :=
    List.filter_eq_self.2 fun e he => decide_eq_true (page e he)
  have none : (es.drop n).filter (fun e => ¬ R last e) = [] :=
    List.filter_eq_nil_iff.2 fun e he => by simpa using behind e he
  conv => lhs; rw [← List.take_append_drop n es]
  rw [List.filter_append, none, all, List.append_nil]

end Last

theorem eq_of_mem_iff_of_pairwise {α : Type} {lt : α → α → Prop}
    (asymm : ∀ {a b : α}, lt a b → ¬ lt b a) {xs ys : List α}
    (hxs : xs.Pairwise lt) (hys : ys.Pairwise lt) (same : ∀ a, a ∈ xs ↔ a ∈ ys) : xs = ys := by
  have distinct {zs : List α} (hzs : zs.Pairwise lt) : zs.Nodup := by
    refine hzs.imp ?_
    rintro a b hab rfl
    exact asymm hab hab
  have perm := (List.perm_ext_iff_of_nodup (distinct hxs) (distinct hys)).2 (fun {a} => same a)
  exact perm.eq_of_pairwise (fun a b _ _ hab hba => absurd hba (asymm hab)) hxs hys

theorem entries_eq_of_mem_iff {ν : Type} {es fs : List (Bytes × ν)}
    (hes : es.Pairwise fun a b => a.1 < b.1) (hfs : fs.Pairwise fun a b => a.1 < b.1)
    (same : ∀ e, e ∈ es ↔ e ∈ fs) : es = fs :=
  eq_of_mem_iff_of_pairwise (fun lt => Std.not_gt_of_lt lt) hes hfs same

namespace Condition
variable {ν : Type}

def select (c : Condition) (m : OrderedMap Bytes ν) : List (Bytes × ν) :=
  c.direction.arrange (m.toList.filter fun e => c.contains e.1)

theorem mem_select_iff (c : Condition) (m : OrderedMap Bytes ν) (e : Bytes × ν) :
    e ∈ c.select m ↔ m.get? e.1 = some e.2 ∧ c.contains e.1 = true := by
  rw [select, Direction.mem_arrange, List.mem_filter, OrderedMap.get?_eq_some_iff]

theorem pairwise_select (c : Condition) (m : OrderedMap Bytes ν) :
    (c.select m).Pairwise fun a b => c.direction.Before a.1 b.1 :=
  c.direction.pairwise_arrange (m.pairwise_toList.sublist List.filter_sublist)

theorem eq_of_mem_iff {c : Condition} {es fs : List (Bytes × ν)}
    (hes : es.Pairwise fun a b => c.direction.Before a.1 b.1)
    (hfs : fs.Pairwise fun a b => c.direction.Before a.1 b.1)
    (same : ∀ e, e ∈ es ↔ e ∈ fs) : es = fs :=
  eq_of_mem_iff_of_pairwise Direction.Before.asymm hes hfs same

theorem select_congr {c : Condition} {m n : OrderedMap Bytes ν}
    (same : ∀ k, c.contains k = true → m.get? k = n.get? k) : c.select m = c.select n := by
  apply eq_of_mem_iff (c.pairwise_select m) (c.pairwise_select n)
  intro e
  rw [mem_select_iff, mem_select_iff]
  refine and_congr_left fun inside => ?_
  rw [same e.1 inside]

theorem select_eq_range (c : Condition) (m : OrderedMap Bytes ν) :
    m.range c.readRange.lower.cut c.readRange.upper.cut c.direction = c.select m := by
  rw [OrderedMap.range_eq_arrange, select, OrderedMap.between]
  congr 1
  apply List.filter_congr
  intro e _
  rw [← c.contains_readRange, Bool.eq_iff_iff, KeyRange.contains_iff_cuts]
  simp

end Condition
end OptimisticStore
