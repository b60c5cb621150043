import OptimisticStore.Overlay
import OptimisticStore.Proofs.History

/-! What laying staged writes over committed rows gives, told on lists. Two sorted lists of
entries, merged in scan order and with two entries of one key made into one, give the rows that
the condition selects once the writes have been applied. Nothing here asks a lane. -/

namespace OptimisticStore

namespace MergeEntry

def ofRow (row : Bytes × Bytes) : MergeEntry := ⟨row.1, some row.2, false⟩

def ofWrite (write : Bytes × Option Bytes) : MergeEntry := ⟨write.1, write.2, true⟩

def shown (e : MergeEntry) : List (Bytes × Bytes) :=
  (e.value.map fun value => (e.key, value)).toList

theorem tail_shown (e : MergeEntry) : e.shown.tail = [] := by
  rw [shown]
  cases e.value <;> rfl

/-- The rows that an entry held back and the entries behind it give. -/
def given : Option MergeEntry → List MergeEntry → List (Bytes × Bytes)
  | none, [] => []
  | some held, [] => held.shown
  | none, e :: es => given (some e) es
  | some held, e :: es =>
    match held.combine e with
    | some joined => given (some joined) es
    | none => held.shown ++ given (some e) es

theorem length_shown_le (e : MergeEntry) : e.shown.length ≤ 1 := by
  rw [shown]
  cases e.value <;> simp

theorem length_given_le (held : Option MergeEntry) (es : List MergeEntry) :
    (given held es).length ≤ es.length + 1 := by
  induction es generalizing held with
  | nil =>
    cases held with
    | none => exact Nat.zero_le _
    | some held => exact held.length_shown_le
  | cons e es ih =>
    cases held with
    | none => exact Nat.le_succ_of_le (ih (some e))
    | some held =>
      rw [given]
      cases held.combine e with
      | some joined => exact Nat.le_succ_of_le (ih (some joined))
      | none =>
        have one := held.length_shown_le
        have rest := ih (some e)
        simp only [List.length_append, List.length_cons]
        omega

def Follows (d : Direction) (a b : MergeEntry) : Prop :=
  d.Before a.key b.key ∨ a.key = b.key ∧ a.staged = true ∧ b.staged = false

variable {d : Direction}

theorem mem_shown_iff (e : MergeEntry) (row : Bytes × Bytes) :
    row ∈ e.shown ↔ e.key = row.1 ∧ e.value = some row.2 := by
  obtain ⟨key, value, staged⟩ := e
  obtain ⟨k, x⟩ := row
  cases value with
  | none => simp [shown]
  | some y => simp [shown, eq_comm]

theorem leads_of_same {a b : MergeEntry} (same : a.key = b.key) :
    a.leads d b = (a.staged || !b.staged) := if_pos same

theorem leads_of_before {a b : MergeEntry} (before : d.Before a.key b.key) :
    a.leads d b = true := by
  unfold leads
  rw [if_neg before.ne]
  cases d with
  | forward => exact decide_eq_true before
  | backward => exact decide_eq_true before

theorem leads_of_after {a b : MergeEntry} (after : d.Before b.key a.key) :
    a.leads d b = false := by
  unfold leads
  rw [if_neg after.ne.symm]
  cases d with
  | forward => exact decide_eq_false after.asymm
  | backward => exact decide_eq_false after.asymm

theorem leads_eq_not {a b : MergeEntry} (apart : a.staged ≠ b.staged) :
    a.leads d b = !b.leads d a := by
  rcases d.before_total a.key b.key with before | same | after
  · rw [leads_of_before before, leads_of_after before]
    rfl
  · rw [leads_of_same same, leads_of_same same.symm]
    revert apart
    cases a.staged <;> cases b.staged <;> simp
  · rw [leads_of_after after, leads_of_before after]
    rfl

theorem merge_comm {es fs : List MergeEntry}
    (apart : ∀ e ∈ es, ∀ f ∈ fs, e.staged ≠ f.staged) :
    es.merge fs (leads d) = fs.merge es (leads d) := by
  induction es generalizing fs with
  | nil => simp
  | cons e es ihe =>
    induction fs with
    | nil => simp
    | cons f fs ihf =>
      have other := leads_eq_not (d := d) (apart e List.mem_cons_self f List.mem_cons_self)
      rw [List.cons_merge_cons, List.cons_merge_cons, other]
      cases f.leads d e with
      | false =>
        rw [ihe fun x hx => apart x (List.mem_cons_of_mem e hx)]
        rfl
      | true =>
        rw [ihf fun x hx y hy => apart x hx y (List.mem_cons_of_mem f hy)]
        rfl

theorem pairwise_merge {es fs : List MergeEntry}
    (hes : es.Pairwise fun a b => d.Before a.key b.key) (rows : ∀ e ∈ es, e.staged = false)
    (hfs : fs.Pairwise fun a b => d.Before a.key b.key) (writes : ∀ f ∈ fs, f.staged = true) :
    (es.merge fs (leads d)).Pairwise (Follows d) := by
  -- a merge takes from one list or the other, so each step is an induction on the one it takes from
  induction es generalizing fs with
  | nil =>
    rw [List.nil_merge]
    exact hfs.imp .inl
  | cons e es ihe =>
    induction fs with
    | nil =>
      rw [List.merge_right]
      exact hes.imp .inl
    | cons f fs ihf =>
      obtain ⟨first, hes'⟩ := List.pairwise_cons.1 hes
      obtain ⟨first', hfs'⟩ := List.pairwise_cons.1 hfs
      have row := rows e List.mem_cons_self
      have write := writes f List.mem_cons_self
      have rest := ihf hfs' fun x hx => writes x (List.mem_cons_of_mem f hx)
      have rest' := ihe hes' (fun x hx => rows x (List.mem_cons_of_mem e hx)) hfs writes
      rw [List.cons_merge_cons]
      rcases d.before_total e.key f.key with before | same | after
      · rw [if_pos (leads_of_before before)]
        refine List.pairwise_cons.2 ⟨fun x hx => .inl ?_, rest'⟩
        rcases List.mem_merge.1 hx with hx | hx
        · exact first x hx
        · rcases List.mem_cons.1 hx with rfl | hx
          · exact before
          · exact before.trans (first' x hx)
      · have behind : e.leads d f = false := by rw [leads_of_same same, row, write]; rfl
        rw [behind, if_neg (by simp)]
        refine List.pairwise_cons.2 ⟨fun x hx => ?_, rest⟩
        rcases List.mem_merge.1 hx with hx | hx
        · rcases List.mem_cons.1 hx with rfl | hx
          · exact .inr ⟨same.symm, write, row⟩
          · exact .inl (same ▸ first x hx)
        · exact .inl (first' x hx)
      · rw [leads_of_after after, if_neg (by simp)]
        refine List.pairwise_cons.2 ⟨fun x hx => .inl ?_, rest⟩
        rcases List.mem_merge.1 hx with hx | hx
        · rcases List.mem_cons.1 hx with rfl | hx
          · exact after
          · exact after.trans (first x hx)
        · exact first' x hx

def Stands (e : MergeEntry) (es : List MergeEntry) : Prop :=
  e.staged = true ∨ ∀ f ∈ es, f.key = e.key → f.staged = false

section Given
variable {held e : MergeEntry} {es : List MergeEntry}

theorem given_of_same (same : held.key = e.key) (staged : held.staged = true) :
    given (some held) (e :: es) = given (some held) es := by
  rw [given, combine, if_pos same, if_pos staged]

theorem given_of_ne (ne : held.key ≠ e.key) :
    given (some held) (e :: es) = held.shown ++ given (some e) es := by
  rw [given, combine, if_neg ne]

theorem combine_of_follows {joined : MergeEntry} (follows : Follows d held e)
    (combined : held.combine e = some joined) : joined = held := by
  rw [combine] at combined
  split at combined
  · next same =>
    rcases follows with before | ⟨_, staged, _⟩
    · exact absurd same before.ne
    · rw [if_pos staged] at combined
      exact (Option.some.inj combined).symm
  · cases combined

theorem before_of_ne (sorted : (held :: e :: es).Pairwise (Follows d)) (ne : held.key ≠ e.key)
    {f : MergeEntry} (hf : f ∈ e :: es) : d.Before held.key f.key := by
  obtain ⟨first, rest⟩ := List.pairwise_cons.1 sorted
  have before : d.Before held.key e.key := by
    rcases first e List.mem_cons_self with before | ⟨same, _⟩
    · exact before
    · exact absurd same ne
  rcases List.mem_cons.1 hf with rfl | hf
  · exact before
  · rcases (List.pairwise_cons.1 rest).1 f hf with after | ⟨same, _⟩
    · exact before.trans after
    · rwa [← same]

theorem mem_given_iff (sorted : (held :: es).Pairwise (Follows d)) (row : Bytes × Bytes) :
    row ∈ given (some held) es ↔ ∃ x ∈ held :: es, row ∈ x.shown ∧ x.Stands (held :: es) := by
  induction es generalizing held with
  | nil =>
    have stands : held.Stands [held] := by
      cases staged : held.staged <;> simp [Stands, staged]
    simp [given, stands]
  | cons e es ih =>
    obtain ⟨first, rest⟩ := List.pairwise_cons.1 sorted
    by_cases same : held.key = e.key
    · obtain ⟨staged, hidden⟩ : held.staged = true ∧ e.staged = false := by
        rcases first e List.mem_cons_self with before | ⟨_, flags⟩
        · exact absurd same before.ne
        · exact flags
      have fewer : (held :: es).Pairwise (Follows d) :=
        sorted.sublist (.cons_cons held (List.sublist_cons_self e es))
      rw [given_of_same same staged, ih fewer]
      simp only [Stands, List.mem_cons, exists_eq_or_imp, forall_eq_or_imp, hidden]
      simp [same, staged]
    · rw [given_of_ne same, List.mem_append, ih rest]
      have other (x : MergeEntry) (hx : x ∈ e :: es) : held.key ≠ x.key :=
        (before_of_ne sorted same hx).ne
      have stands : held.Stands (held :: e :: es) := by
        cases staged : held.staged with
        | true => exact .inl staged
        | false =>
          refine .inr fun f hf key => ?_
          rcases List.mem_cons.1 hf with rfl | hf
          · exact staged
          · exact absurd key.symm (other f hf)
      have alike (x : MergeEntry) (hx : x ∈ e :: es) :
          x.Stands (held :: e :: es) ↔ x.Stands (e :: es) := by
        rw [Stands, List.forall_mem_cons]
        simp [Stands, other x hx]
      constructor
      · rintro (here | ⟨x, hx, shown, stand⟩)
        · exact ⟨held, List.mem_cons_self, here, stands⟩
        · exact ⟨x, List.mem_cons_of_mem held hx, shown, (alike x hx).2 stand⟩
      · rintro ⟨x, hx, shown, stand⟩
        rcases List.mem_cons.1 hx with rfl | hx
        · exact .inl shown
        · exact .inr ⟨x, hx, shown, (alike x hx).1 stand⟩

theorem pairwise_given (sorted : (held :: es).Pairwise (Follows d)) :
    (given (some held) es).Pairwise fun a b => d.Before a.1 b.1 := by
  have one (x : MergeEntry) : x.shown.Pairwise fun a b => d.Before a.1 b.1 := by
    rw [shown]
    cases x.value <;> simp
  induction es generalizing held with
  | nil => exact one held
  | cons e es ih =>
    obtain ⟨first, rest⟩ := List.pairwise_cons.1 sorted
    by_cases same : held.key = e.key
    · rcases first e List.mem_cons_self with before | ⟨_, staged, _⟩
      · exact absurd same before.ne
      · rw [given_of_same same staged]
        exact ih (sorted.sublist (.cons_cons held (List.sublist_cons_self e es)))
    · rw [given_of_ne same, List.pairwise_append]
      refine ⟨one held, ih rest, fun a ha b hb => ?_⟩
      obtain ⟨x, hx, shown, _⟩ := (mem_given_iff rest b).1 hb
      rw [← ((mem_shown_iff held a).1 ha).1, ← ((mem_shown_iff x b).1 shown).1]
      exact before_of_ne sorted same hx

end Given

theorem mem_given_none_iff {es : List MergeEntry} (sorted : es.Pairwise (Follows d))
    (row : Bytes × Bytes) :
    row ∈ given none es ↔ ∃ x ∈ es, row ∈ x.shown ∧ x.Stands es := by
  cases es with
  | nil => simp [given]
  | cons e es => exact mem_given_iff sorted row

theorem pairwise_given_none {es : List MergeEntry} (sorted : es.Pairwise (Follows d)) :
    (given none es).Pairwise fun a b => d.Before a.1 b.1 := by
  cases es with
  | nil => exact List.Pairwise.nil
  | cons e es => exact pairwise_given sorted

end MergeEntry

open MergeEntry

def WriteSet.overlay (w : WriteSet) (c : Condition) (data : OrderedMap Bytes Bytes) :
    List MergeEntry :=
  ((c.select data).map ofRow).merge ((w.range c).map ofWrite) (leads c.direction)

theorem WriteSet.mem_range_iff (w : WriteSet) (c : Condition) (e : Bytes × Option Bytes) :
    e ∈ w.range c ↔ w.get? e.1 = some e.2 ∧ c.contains e.1 = true := by
  rw [range, Condition.select_eq_range]
  exact c.mem_select_iff w.table e

theorem WriteSet.pairwise_overlay (w : WriteSet) (c : Condition) (data : OrderedMap Bytes Bytes) :
    (w.overlay c data).Pairwise (Follows c.direction) := by
  apply pairwise_merge
  · exact List.pairwise_map.2 (c.pairwise_select data)
  · intro e he
    obtain ⟨row, _, rfl⟩ := List.mem_map.1 he
    rfl
  · rw [range, Condition.select_eq_range]
    exact List.pairwise_map.2 (c.pairwise_select w.table)
  · intro f hf
    obtain ⟨write, _, rfl⟩ := List.mem_map.1 hf
    rfl

theorem WriteSet.exists_overlay_iff (w : WriteSet) (c : Condition) (data : OrderedMap Bytes Bytes)
    (row : Bytes × Bytes) :
    (∃ x ∈ w.overlay c data, row ∈ x.shown ∧ x.Stands (w.overlay c data)) ↔
      (w.get? row.1 = some (some row.2) ∨ w.get? row.1 = none ∧ data.get? row.1 = some row.2) ∧
        c.contains row.1 = true := by
  have members (x : MergeEntry) : x ∈ w.overlay c data ↔
      (∃ r ∈ c.select data, ofRow r = x) ∨ ∃ e ∈ w.range c, ofWrite e = x := by
    rw [overlay, List.mem_merge, List.mem_map, List.mem_map]
  constructor
  · rintro ⟨x, hx, shown, stands⟩
    obtain ⟨key, value⟩ := (mem_shown_iff x row).1 shown
    rcases (members x).1 hx with ⟨r, hr, rfl⟩ | ⟨e, he, rfl⟩
    · obtain rfl : r = row := Prod.ext key (Option.some.inj value)
      obtain ⟨found, inside⟩ := (c.mem_select_iff data r).1 hr
      refine ⟨.inr ⟨?_, found⟩, inside⟩
      -- a write to the key would be in range, and staged
      have alone := Or.resolve_left stands Bool.false_ne_true
      rw [Option.eq_none_iff_forall_ne_some]
      intro y written
      have staged := alone (ofWrite (r.1, y))
        ((members _).2 (.inr ⟨_, (w.mem_range_iff c _).2 ⟨written, inside⟩, rfl⟩)) rfl
      cases staged
    · obtain ⟨written, inside⟩ := (w.mem_range_iff c e).1 he
      have key : e.1 = row.1 := key
      have value : e.2 = some row.2 := value
      rw [key] at written inside
      exact ⟨.inl (value ▸ written), inside⟩
  · rintro ⟨written | ⟨unwritten, found⟩, inside⟩
    · have mem := (w.mem_range_iff c (row.1, some row.2)).2 ⟨written, inside⟩
      exact ⟨_, (members _).2 (.inr ⟨_, mem, rfl⟩), (mem_shown_iff _ row).2 ⟨rfl, rfl⟩, .inl rfl⟩
    · have mem := (c.mem_select_iff data row).2 ⟨found, inside⟩
      refine ⟨_, (members _).2 (.inl ⟨_, mem, rfl⟩), (mem_shown_iff _ row).2 ⟨rfl, rfl⟩,
        .inr fun f hf key => ?_⟩
      rcases (members f).1 hf with ⟨r, _, rfl⟩ | ⟨e, he, rfl⟩
      · rfl
      · have written := ((w.mem_range_iff c e).1 he).1
        have key : e.1 = row.1 := key
        rw [key, unwritten] at written
        cases written

theorem WriteSet.select_onto_of_range {w : WriteSet} {c : Condition} (idle : w.range c = [])
    (data : OrderedMap Bytes Bytes) : c.select (w.onto data) = c.select data := by
  apply Condition.select_congr
  intro k inside
  have unwritten : w.get? k = none := by
    rw [Option.eq_none_iff_forall_ne_some]
    intro x written
    have mem := (w.mem_range_iff c (k, x)).2 ⟨written, inside⟩
    rw [idle] at mem
    cases mem
  rw [w.get?_onto, unwritten, Option.getD_none]

/-- The merge gives the rows of the data with the writes applied. -/
theorem WriteSet.given_overlay (w : WriteSet) (c : Condition) (data : OrderedMap Bytes Bytes) :
    given none (w.overlay c data) = c.select (w.onto data) := by
  have sorted := w.pairwise_overlay c data
  apply Condition.eq_of_mem_iff (pairwise_given_none sorted) (c.pairwise_select _)
  intro row
  rw [mem_given_none_iff sorted, w.exists_overlay_iff, c.mem_select_iff, w.get?_onto]
  cases w.get? row.1 <;> simp

end OptimisticStore
