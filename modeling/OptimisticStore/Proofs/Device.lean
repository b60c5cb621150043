import OptimisticStore.Durable.Store
import OptimisticStore.Proofs.Selection

/-! What accesses do on a device none of whose calls fails. `Does x before r after` says that the
access gives `r` and turns the rows `before` into the rows `after`; what else the device notes is
left open. Reading a range page by page gives all of it, as long as the rows stay as they are. -/

namespace OptimisticStore

namespace Cut

theorem below_of_lt {c : Cut Bytes} {k l : Bytes} (below : c.Below k) (lt : k < l) : c.Below l := by
  cases c with
  | unbounded => trivial
  | included b => exact Std.le_of_lt (Std.lt_of_le_of_lt below lt)
  | excluded b => exact Std.lt_trans below lt

theorem above_of_lt {c : Cut Bytes} {k l : Bytes} (above : c.Above l) (lt : k < l) : c.Above k := by
  cases c with
  | unbounded => trivial
  | included b => exact Std.le_of_lt (Std.lt_of_lt_of_le lt above)
  | excluded b => exact Std.lt_trans lt above

end Cut

namespace OrderedMap
variable {ν : Type}

theorem pairwise_between (m : OrderedMap Bytes ν) (lower upper : Cut Bytes) :
    (m.between lower upper).Pairwise fun a b => a.1 < b.1 :=
  m.pairwise_toList.sublist List.filter_sublist

theorem mem_between {m : OrderedMap Bytes ν} {lower upper : Cut Bytes} {e : Bytes × ν} :
    e ∈ m.between lower upper ↔ m.get? e.1 = some e.2 ∧ lower.Below e.1 ∧ upper.Above e.1 := by
  rw [get?_eq_some_iff]
  simp [between]

theorem length_between_le (m : OrderedMap Bytes ν) (lower upper : Cut Bytes) :
    (m.between lower upper).length ≤ m.size := by
  rw [← m.length_toList]
  exact List.length_filter_le ..

theorem between_excluded_last {m : OrderedMap Bytes ν} {lower upper : Cut Bytes} {n : Nat}
    {last : Bytes × ν} (hlast : ((m.between lower upper).take n).getLast? = some last) :
    m.between (.excluded last.1) upper = (m.between lower upper).drop n := by
  have mem := List.mem_of_mem_take (List.mem_of_getLast? hlast)
  have inside := (mem_between.1 mem).2.1
  have rest := filter_behind_last (R := fun a b : Bytes × ν => a.1 < b.1)
    (fun _ _ => Std.not_gt_of_lt) (m.pairwise_between lower upper) hlast
  rw [← rest, between, between, List.filter_filter]
  apply List.filter_congr
  intro e _
  have same : Cut.Below (.excluded last.1) e.1 ↔ lower.Below e.1 ∧ last.1 < e.1 :=
    ⟨fun lt => ⟨Cut.below_of_lt inside lt, lt⟩, fun h => h.2⟩
  simp only [same, Bool.decide_and]
  grind

theorem between_behind_page {m : OrderedMap Bytes ν} {lower upper : Cut Bytes} {n : Nat}
    (pos : 0 < n) (full : n ≤ (m.between lower upper).length) :
    m.between (((m.between lower upper).take n).getLast?.elim lower fun (last, _) => .excluded last)
      upper = (m.between lower upper).drop n := by
  have length : ((m.between lower upper).take n).length = n := List.length_take_of_le full
  cases hlast : ((m.between lower upper).take n).getLast? with
  | none =>
    rw [List.getLast?_eq_none_iff.1 hlast] at length
    exact absurd length (Nat.ne_of_lt pos)
  | some last => exact between_excluded_last hlast

theorem between_excluded_last_reverse {m : OrderedMap Bytes ν} {lower upper : Cut Bytes} {n : Nat}
    {last : Bytes × ν} (hlast : ((m.between lower upper).reverse.take n).getLast? = some last) :
    (m.between lower (.excluded last.1)).reverse = (m.between lower upper).reverse.drop n := by
  have mem := List.mem_of_mem_take (List.mem_of_getLast? hlast)
  have inside := (mem_between.1 (List.mem_reverse.1 mem)).2.2
  have rest := filter_behind_last (R := fun a b : Bytes × ν => b.1 < a.1)
    (fun _ _ => Std.not_gt_of_lt) (List.pairwise_reverse.2 (m.pairwise_between lower upper)) hlast
  rw [← rest, List.filter_reverse, between, between, List.filter_filter]
  congr 1
  apply List.filter_congr
  intro e _
  have same : Cut.Above (.excluded last.1) e.1 ↔ upper.Above e.1 ∧ e.1 < last.1 :=
    ⟨fun lt => ⟨Cut.above_of_lt inside lt, lt⟩, fun h => h.2⟩
  simp only [same, Bool.decide_and]
  grind

end OrderedMap

namespace Device

structure Faultless (d : Device) : Prop where
  get : ∀ n, d.onGet.fails n = none
  scan : ∀ n, d.onScan.fails n = none
  write : ∀ n, d.onWrite.fails n = none
  close : ∀ n, d.onClose.fails n = none

theorem faultless_new : Faultless {} := ⟨fun _ => rfl, fun _ => rfl, fun _ => rfl, fun _ => rfl⟩

def Does {α : Type} (x : Access Device α) (before : RawRows) (r : Except Error α)
    (after : RawRows) : Prop :=
  ∀ d : Device, d.Faultless → d.rows = before →
    ∃ d', x d = (r, d') ∧ d'.Faultless ∧ d'.rows = after

variable {α β : Type} {before middle after rows : RawRows}

theorem does_pure (a : α) : Does (pure a) rows (.ok a) rows :=
  fun d faultless same => ⟨d, rfl, faultless, same⟩

theorem does_fail (e : Error) : Does (Access.fail e : Access Device α) rows (.error e) rows :=
  fun d faultless same => ⟨d, rfl, faultless, same⟩

theorem Does.bind {x : Access Device α} {f : α → Access Device β} {a : α} {r : Except Error β}
    (hx : Does x before (.ok a) middle) (hf : Does (f a) middle r after) :
    Does (x >>= f) before r after := by
  intro d faultless same
  obtain ⟨d₁, run, faultless, same⟩ := hx d faultless same
  obtain ⟨d₂, rest, faultless, same⟩ := hf d₁ faultless same
  refine ⟨d₂, ?_, faultless, same⟩
  rw [Access.bind_apply, run]
  exact rest

theorem Does.bind_error {x : Access Device α} {f : α → Access Device β} {e : Error}
    (hx : Does x before (.error e) after) : Does (x >>= f) before (.error e) after := by
  intro d faultless same
  obtain ⟨d₁, run, faultless, same⟩ := hx d faultless same
  refine ⟨d₁, ?_, faultless, same⟩
  rw [Access.bind_apply, run]

theorem Does.unique {x : Access Device α} {r r' : Except Error α} (does : Does x before r after)
    (does' : Does x before r' after) : r = r' := by
  let d : Device := { rows := before }
  have faultless : d.Faultless := ⟨fun _ => rfl, fun _ => rfl, fun _ => rfl, fun _ => rfl⟩
  obtain ⟨_, ran, _⟩ := does d faultless rfl
  obtain ⟨_, ran', _⟩ := does' d faultless rfl
  rw [ran] at ran'
  exact (Prod.mk.inj ran').1

theorem does_medium {f : Device → Access Device β} {r : Except Error β}
    (hf : ∀ d : Device, d.rows = before → Does (f d) before r after) :
    Does (Access.medium >>= f) before r after :=
  fun d faultless same => hf d same d faultless same

theorem does_request (call : RawCall) : Does (request call) rows (.ok ()) rows := by
  intro d faultless same
  refine ⟨(d.note call).2, ?_, ?_, by rw [rows_note, same]⟩
  · cases call
    · simp [request, note, FaultPlan.outcome, faultless.get]
    · simp [request, note, FaultPlan.outcome, faultless.scan]
    · simp [request, note, FaultPlan.outcome, faultless.write]
    · simp [request, note, FaultPlan.outcome, faultless.close]
  · cases call <;> exact ⟨faultless.get, faultless.scan, faultless.write, faultless.close⟩

theorem does_get (key : Bytes) : Does (Device.get key) rows (.ok (rows.get? key)) rows := by
  refine (does_request (.get key)).bind (does_medium fun d same => ?_)
  rw [same]
  exact does_pure _

theorem does_scan (rows : RawRows) (lower upper : Cut Bytes) (direction : Direction) (limit : Nat) :
    Does (Device.scan lower upper direction limit) rows
      (.ok ((direction.arrange (OrderedMap.between rows lower upper)).take limit)) rows := by
  refine (does_request _).bind (does_medium fun d same => ?_)
  rw [same, RawRows.scan_eq_take]
  exact does_pure _

theorem calls_request (call : RawCall) (d : Device) :
    (request call d).2.calls = call :: d.calls := by
  cases call <;> rfl

theorem calls_scan (lower upper : Cut Bytes) (direction : Direction) (limit : Nat) (d : Device) :
    (Device.scan lower upper direction limit d).2.calls =
      .scan lower upper direction limit :: d.calls := by
  rw [Device.scan, Access.bind_apply, ← calls_request (.scan lower upper direction limit) d]
  rcases request (.scan lower upper direction limit) d with ⟨_ | _, d₁⟩ <;> rfl

theorem inside_of_scan {lower upper : Cut Bytes} {direction : Direction} {limit : Nat}
    {d d' : Device} {page : List Row}
    (ran : Device.scan lower upper direction limit d = (.ok page, d')) {e : Row} (mem : e ∈ page) :
    lower.Below e.1 ∧ upper.Above e.1 := by
  rw [Device.scan, Access.bind_apply, request] at ran
  rcases noted : d.note (.scan lower upper direction limit) with ⟨_ | _, d₁⟩ <;>
    rw [noted] at ran <;> cases ran
  rw [RawRows.scan_eq_take] at mem
  exact (OrderedMap.mem_between.1 (Direction.mem_arrange.1 (List.mem_of_mem_take mem))).2

theorem does_write (batch : List RawWrite) :
    Does (Device.write batch) rows (.ok ()) (rows.apply batch) := by
  refine (does_request (.write batch)).bind ?_
  intro d faultless same
  refine ⟨_, rfl, ⟨faultless.get, faultless.scan, faultless.write, faultless.close⟩, ?_⟩
  change d.rows.apply batch = rows.apply batch
  rw [same]

theorem does_close : Does Device.close rows (.ok ()) rows := does_request .close

theorem does_decoded {x : Except RowDefect α} {a : α} (hx : x = .ok a) :
    Does (Durable.decoded x) rows (.ok a) rows := by
  subst hx
  exact does_pure a

end Device

namespace Durable
open Device

theorem does_scanPages {pageSize : Nat} (pos : 0 < pageSize) (rows : RawRows)
    (upper : Cut Bytes) {fuel : Nat} {lower : Cut Bytes}
    (enough : (OrderedMap.between rows lower upper).length < fuel) :
    Does (scanPages pageSize upper fuel lower) rows
      (.ok (OrderedMap.between rows lower upper)) rows := by
  induction fuel generalizing lower with
  | zero => omega
  | succ fuel ih =>
    have page := does_scan rows lower upper .forward pageSize
    refine page.bind ?_
    rw [Direction.arrange]
    by_cases short : ((OrderedMap.between rows lower upper).take pageSize).length < pageSize
    · have whole : (OrderedMap.between rows lower upper).take pageSize =
          OrderedMap.between rows lower upper := by
        apply List.take_of_length_le
        rw [List.length_take] at short
        omega
      rw [if_pos short, whole]
      exact does_pure _
    · rw [if_neg short]
      rw [List.length_take] at short
      have full : pageSize ≤ (OrderedMap.between rows lower upper).length := by omega
      have rest := OrderedMap.between_behind_page pos full
      have rest_read := ih (by rw [rest, List.length_drop]; omega)
      refine rest_read.bind ?_
      rw [rest, List.take_append_drop]
      exact does_pure _

theorem does_scanAll {config : Config} (pos : 0 < config.pageSize) (rows : RawRows)
    (ends : Cut Bytes × Cut Bytes) :
    Does (scanAll config ends) rows (.ok (OrderedMap.between rows ends.1 ends.2)) rows := by
  refine does_medium fun d same => does_scanPages pos rows ends.2 ?_
  rw [same]
  exact Nat.lt_succ_of_le (OrderedMap.length_between_le rows ends.1 ends.2)

end Durable
end OptimisticStore
