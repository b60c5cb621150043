import OptimisticStore.Memory
import OptimisticStore.Proofs.Selection

/-! The committed states of a store, told by the write sets of its commits alone; nothing here
knows how a store keeps them. Entry `v` of a history made version `v + 1` out of version `v`.
The log of a history lists every key that was ever written and is never pruned, so it is what
the pruned logs of the stores are held against. -/

namespace OptimisticStore

namespace WriteSet

theorem pairwise_entries (w : WriteSet) : w.entries.Pairwise fun a b => a.1 < b.1 :=
  w.table.pairwise_toList

theorem get?_eq_some_iff (w : WriteSet) (k : Bytes) (x : Option Bytes) :
    w.get? k = some x ↔ (k, x) ∈ w.entries := w.table.get?_eq_some_iff k x

theorem mem_keys (w : WriteSet) (k : Bytes) : k ∈ w.keys ↔ ∃ x, (k, x) ∈ w.entries := by
  simp [keys]

theorem pairwise_keys (w : WriteSet) : w.keys.Pairwise (· < ·) :=
  List.pairwise_map.2 w.pairwise_entries

theorem length_entries (w : WriteSet) : w.entries.length = w.size := w.table.length_toList

theorem isEmpty_keys (w : WriteSet) : w.keys.isEmpty = w.isEmpty := by
  rw [Bool.eq_iff_iff, List.isEmpty_iff, ← List.length_eq_zero_iff, keys, List.length_map,
    length_entries]
  exact beq_iff_eq.symm

theorem isEmpty_of_place {w : WriteSet} {i : Nat} {key : Bytes} (place : w.keys[i]? = some key) :
    w.isEmpty = false := by
  rw [← w.isEmpty_keys, List.isEmpty_eq_false_iff]
  exact List.ne_nil_of_mem (List.mem_of_getElem? place)

theorem get?_stage (w : WriteSet) (write : Bytes × Option Bytes) (k : Bytes) :
    (w.stage write).get? k = if k = write.1 then some write.2 else w.get? k := by
  obtain ⟨key, _ | value⟩ := write
  · exact OrderedMap.get?_insert w.table key k none 0
  · exact OrderedMap.get?_insert w.table key k (some value) 0

def onto (w : WriteSet) (data : OrderedMap Bytes Bytes) : OrderedMap Bytes Bytes :=
  w.entries.foldl Keyspace.writeData data

theorem get?_writeData (data : OrderedMap Bytes Bytes) (e : Bytes × Option Bytes) (k : Bytes) :
    (Keyspace.writeData data e).get? k = if k = e.1 then e.2 else data.get? k := by
  obtain ⟨key, _ | value⟩ := e
  · exact OrderedMap.get?_remove data key k 0
  · exact OrderedMap.get?_insert data key k value 0

theorem get?_foldl_writeData {es : List (Bytes × Option Bytes)}
    (sorted : es.Pairwise fun a b => a.1 < b.1) (data : OrderedMap Bytes Bytes) (k : Bytes) :
    (∀ x, (k, x) ∈ es → (es.foldl Keyspace.writeData data).get? k = x) ∧
    ((∀ x, (k, x) ∉ es) → (es.foldl Keyspace.writeData data).get? k = data.get? k) := by
  induction es generalizing data with
  | nil => simp
  | cons e es ih =>
    obtain ⟨first, rest⟩ := List.pairwise_cons.1 sorted
    obtain ⟨written, kept⟩ := ih rest (Keyspace.writeData data e)
    rw [List.foldl_cons]
    constructor
    · intro x hx
      rcases List.mem_cons.1 hx with rfl | hx
      · -- the first entry stands, as its key does not come again
        rw [kept fun y hy => Std.lt_irrefl (first (k, y) hy), get?_writeData, if_pos rfl]
      · exact written x hx
    · intro absent
      have other : k ≠ e.1 := by
        intro same
        exact absent e.2 (by simp [same])
      rw [kept fun x hx => absent x (List.mem_cons_of_mem _ hx), get?_writeData, if_neg other]

theorem empty_onto (data : OrderedMap Bytes Bytes) : ({} : WriteSet).onto data = data := rfl

theorem get?_onto (w : WriteSet) (data : OrderedMap Bytes Bytes) (k : Bytes) :
    (w.onto data).get? k = (w.get? k).getD (data.get? k) := by
  obtain ⟨written, kept⟩ := get?_foldl_writeData w.pairwise_entries data k
  cases found : w.get? k with
  | none =>
    apply kept
    intro x hx
    rw [← get?_eq_some_iff, found] at hx
    cases hx
  | some x => exact written x ((w.get?_eq_some_iff k x).1 found)

end WriteSet

/-- The write sets of all commits so far, the first one first. -/
abbrev History := List WriteSet

namespace History

/-- The data right after the commit that made the version. -/
def state (h : History) (v : Nat) : OrderedMap Bytes Bytes :=
  (h.take v).foldl (fun data w => w.onto data) ∅

def commit? (h : History) : Nat → Option WriteSet
  | 0 => none
  | v + 1 => h[v]?

/-- The commit of version `v` left `x` at `k`; a deletion leaves none. -/
def Wrote (h : History) (v : Nat) (k : Bytes) (x : Option Bytes) : Prop :=
  ∃ w, h.commit? v = some w ∧ (k, x) ∈ w.entries

def entries (h : History) : List (Nat × List Bytes) :=
  h.zipIdx.map fun (w, i) => (i + 1, w.keys)

def log (h : History) : List (Nat × Bytes) :=
  h.entries.flatMap fun (v, keys) => keys.map fun key => (v, key)

theorem commit?_eq_some_iff (h : History) (v : Nat) (w : WriteSet) :
    h.commit? v = some w ↔ 0 < v ∧ h[v - 1]? = some w := by
  cases v <;> simp [commit?]

theorem commit?_append {h : History} {v : Nat} (t : History) (hv : v ≤ h.length) :
    commit? (h ++ t) v = h.commit? v := by
  cases v with
  | zero => rfl
  | succ v => exact List.getElem?_append_left hv

theorem commit?_last (h : History) (w : WriteSet) :
    commit? (h ++ [w]) (h.length + 1) = some w := by
  simp [commit?]

theorem le_length_of_commit? {h : History} {v : Nat} {w : WriteSet}
    (hw : h.commit? v = some w) : 0 < v ∧ v ≤ h.length := by
  obtain ⟨pos, hw⟩ := (h.commit?_eq_some_iff v w).1 hw
  obtain ⟨bound, _⟩ := List.getElem?_eq_some_iff.1 hw
  omega

theorem Wrote.bounds {h : History} {v : Nat} {k : Bytes} {x : Option Bytes}
    (wrote : h.Wrote v k x) : 0 < v ∧ v ≤ h.length := by
  obtain ⟨w, hw, _⟩ := wrote
  exact le_length_of_commit? hw

theorem Wrote.unique {h : History} {v : Nat} {k : Bytes} {x y : Option Bytes}
    (hx : h.Wrote v k x) (hy : h.Wrote v k y) : x = y := by
  obtain ⟨w, hw, hx⟩ := hx
  obtain ⟨u, hu, hy⟩ := hy
  obtain rfl : w = u := Option.some.inj (hw.symm.trans hu)
  rw [← WriteSet.get?_eq_some_iff] at hx hy
  exact Option.some.inj (hx.symm.trans hy)

theorem wrote_append_iff {h : History} {v : Nat} (t : History) (hv : v ≤ h.length)
    (k : Bytes) (x : Option Bytes) : Wrote (h ++ t) v k x ↔ h.Wrote v k x := by
  simp only [Wrote, commit?_append t hv]

theorem wrote_snoc_iff (h : History) (w : WriteSet) (v : Nat) (k : Bytes)
    (x : Option Bytes) :
    Wrote (h ++ [w]) v k x ↔ h.Wrote v k x ∨ v = h.length + 1 ∧ (k, x) ∈ w.entries := by
  by_cases hv : v ≤ h.length
  · rw [wrote_append_iff [w] hv]
    have : v ≠ h.length + 1 := by omega
    simp [this]
  · constructor
    · rintro ⟨u, hu, hx⟩
      have bound := (le_length_of_commit? hu).2
      rw [List.length_append, List.length_singleton] at bound
      obtain rfl : v = h.length + 1 := by omega
      rw [commit?_last] at hu
      cases hu
      exact .inr ⟨rfl, hx⟩
    · rintro (wrote | ⟨rfl, hx⟩)
      · exact absurd wrote.bounds.2 hv
      · exact ⟨w, commit?_last h w, hx⟩

theorem state_append {h : History} {v : Nat} (t : History) (hv : v ≤ h.length) :
    state (h ++ t) v = h.state v := by
  rw [state, List.take_append_of_le_length hv, state]

theorem state_succ {h : History} {v : Nat} {w : WriteSet} (hw : h.commit? (v + 1) = some w) :
    h.state (v + 1) = w.onto (h.state v) := by
  have hw : h[v]? = some w := hw
  rw [state, List.take_add_one, hw, List.foldl_append]
  rfl

theorem state_last (h : History) (w : WriteSet) :
    state (h ++ [w]) (h.length + 1) = w.onto (h.state h.length) := by
  rw [state_succ (commit?_last h w), state_append _ (Nat.le_refl _)]

theorem state_of_length_le {h : History} {v : Nat} (hv : h.length ≤ v) :
    h.state v = h.state h.length := by
  rw [state, state, List.take_of_length_le hv, List.take_length]

theorem get?_state_eq {h : History} {u v : Nat} {k : Bytes} (huv : u ≤ v)
    (untouched : ∀ i x, u < i → i ≤ v → ¬ h.Wrote i k x) :
    (h.state v).get? k = (h.state u).get? k := by
  induction v with
  | zero =>
    obtain rfl : u = 0 := by omega
    rfl
  | succ v ih =>
    by_cases same : u = v + 1
    · rw [same]
    have below := ih (by omega) fun i x hi hiv => untouched i x hi (by omega)
    cases hw : h.commit? (v + 1) with
    | none =>
      have short : h.length ≤ v := List.getElem?_eq_none_iff.1 hw
      rw [state_of_length_le (by omega), ← state_of_length_le short, below]
    | some w =>
      have unwritten : w.get? k = none := by
        rw [Option.eq_none_iff_forall_ne_some]
        intro x hx
        exact untouched (v + 1) x (by omega) (by omega) ⟨w, hw, (w.get?_eq_some_iff k x).1 hx⟩
      rw [state_succ hw, WriteSet.get?_onto, unwritten, Option.getD_none, below]

theorem get?_state_of_wrote {h : History} {u v : Nat} {k : Bytes} {x : Option Bytes}
    (wrote : h.Wrote u k x) (huv : u ≤ v) (newest : ∀ i y, u < i → i ≤ v → ¬ h.Wrote i k y) :
    (h.state v).get? k = x := by
  rw [get?_state_eq huv newest]
  obtain ⟨pos, _⟩ := wrote.bounds
  obtain ⟨w, hw, hx⟩ := wrote
  obtain ⟨u, rfl⟩ : ∃ i, u = i + 1 := ⟨u - 1, by omega⟩
  rw [state_succ hw, WriteSet.get?_onto, (w.get?_eq_some_iff k x).2 hx, Option.getD_some]

theorem get?_state_of_unwritten {h : History} {v : Nat} {k : Bytes}
    (unwritten : ∀ i x, i ≤ v → ¬ h.Wrote i k x) : (h.state v).get? k = none :=
  get?_state_eq (Nat.zero_le v) fun i x _ => unwritten i x

theorem exists_newest (h : History) (v : Nat) (k : Bytes) :
    (∃ u x, u ≤ v ∧ h.Wrote u k x ∧ ∀ i y, u < i → i ≤ v → ¬ h.Wrote i k y) ∨
      ∀ i x, i ≤ v → ¬ h.Wrote i k x := by
  induction v with
  | zero =>
    refine .inr fun i x hi wrote => ?_
    have pos := wrote.bounds.1
    omega
  | succ v ih =>
    by_cases last : ∃ x, h.Wrote (v + 1) k x
    · obtain ⟨x, wrote⟩ := last
      exact .inl ⟨v + 1, x, Nat.le_refl _, wrote, fun i y hi hiv => by omega⟩
    · have top {i : Nat} (hi : i ≤ v + 1) {x : Option Bytes} (wrote : h.Wrote i k x) : i ≤ v := by
        by_cases same : i = v + 1
        · exact absurd ⟨x, same ▸ wrote⟩ last
        · omega
      rcases ih with ⟨u, x, hu, wrote, newest⟩ | unwritten
      · exact .inl ⟨u, x, by omega, wrote, fun i y hi hiv wy => newest i y hi (top hiv wy) wy⟩
      · exact .inr fun i x hi wx => unwritten i x (top hi wx) wx

theorem get?_state_eq_some_iff (h : History) (v : Nat) (k x : Bytes) :
    (h.state v).get? k = some x ↔
      ∃ u, u ≤ v ∧ h.Wrote u k (some x) ∧ ∀ i y, u < i → i ≤ v → ¬ h.Wrote i k y := by
  constructor
  · intro found
    rcases h.exists_newest v k with ⟨u, y, hu, wrote, newest⟩ | unwritten
    · rw [get?_state_of_wrote wrote hu newest] at found
      subst found
      exact ⟨u, hu, wrote, newest⟩
    · rw [get?_state_of_unwritten unwritten] at found
      cases found
  · rintro ⟨u, hu, wrote, newest⟩
    exact get?_state_of_wrote wrote hu newest

theorem mem_log (h : History) (v : Nat) (k : Bytes) : (v, k) ∈ h.log ↔ ∃ x, h.Wrote v k x := by
  simp only [log, entries, List.flatMap_map, List.mem_flatMap, List.mem_map, Prod.mk.injEq, Wrote,
    commit?_eq_some_iff]
  constructor
  · rintro ⟨⟨w, i⟩, hw, key, hkey, rfl, rfl⟩
    obtain ⟨x, hx⟩ := (w.mem_keys key).1 hkey
    exact ⟨x, w, ⟨by omega, List.mem_zipIdx_iff_getElem?.1 hw⟩, hx⟩
  · rintro ⟨x, w, ⟨pos, hw⟩, hx⟩
    exact ⟨(w, v - 1), List.mem_zipIdx_iff_getElem?.2 hw, k, (w.mem_keys k).2 ⟨x, hx⟩,
      by simp only; omega, rfl⟩

def LogLt (a b : Nat × Bytes) : Prop := a.1 < b.1 ∨ a.1 = b.1 ∧ a.2 < b.2

theorem LogLt.asymm {a b : Nat × Bytes} (hab : LogLt a b) : ¬ LogLt b a := by
  rintro (hba | ⟨same, hba⟩) <;> rcases hab with hab | ⟨same', hab⟩
  · omega
  · omega
  · omega
  · exact Std.not_gt_of_lt hab hba

@[elab_as_elim]
theorem snoc_induction {motive : History → Prop} (nil : motive [])
    (snoc : ∀ earlier w, motive earlier → motive (earlier ++ [w])) (h : History) : motive h := by
  rcases List.eq_nil_or_concat h with rfl | ⟨earlier, w, rfl⟩
  · exact nil
  · rw [List.concat_eq_append]
    exact snoc earlier w (snoc_induction nil snoc earlier)
termination_by h.length

theorem entries_snoc (h : History) (w : WriteSet) :
    entries (h ++ [w]) = h.entries ++ [(h.length + 1, w.keys)] := by
  simp [entries, List.zipIdx_append]

theorem mem_entries {h : History} {v : Nat} {keys : List Bytes} :
    (v, keys) ∈ h.entries ↔ ∃ w, h.commit? v = some w ∧ keys = w.keys := by
  simp only [entries, List.mem_map, Prod.mk.injEq, commit?_eq_some_iff]
  constructor
  · rintro ⟨⟨w, i⟩, placed, rfl, rfl⟩
    exact ⟨w, ⟨by omega, List.mem_zipIdx_iff_getElem?.1 placed⟩, rfl⟩
  · rintro ⟨w, ⟨pos, placed⟩, rfl⟩
    exact ⟨(w, v - 1), List.mem_zipIdx_iff_getElem?.2 placed, by simp only; omega, rfl⟩

theorem pairwise_versions (h : History) : h.entries.Pairwise fun a b => a.1 < b.1 := by
  rw [entries, List.pairwise_map, List.pairwise_iff_getElem]
  intro i j _ _ lt
  simpa using lt

theorem log_snoc (h : History) (w : WriteSet) :
    log (h ++ [w]) = h.log ++ w.keys.map fun key => (h.length + 1, key) := by
  simp [log, entries_snoc]

theorem pairwise_keys_at (w : WriteSet) (v : Nat) :
    (w.keys.map fun key => (v, key)).Pairwise LogLt := by
  rw [List.pairwise_map]
  exact w.pairwise_keys.imp fun lt => .inr ⟨rfl, lt⟩

theorem pairwise_log (h : History) : h.log.Pairwise LogLt := by
  induction h using snoc_induction with
  | nil => exact List.Pairwise.nil
  | snoc earlier w ih =>
    rw [log_snoc, List.pairwise_append]
    refine ⟨ih, pairwise_keys_at w _, ?_⟩
    intro a ha b hb
    obtain ⟨key, _, rfl⟩ := List.mem_map.1 hb
    obtain ⟨x, wrote⟩ := (mem_log earlier a.1 a.2).1 ha
    have bound := wrote.bounds.2
    exact .inl (by simp only; omega)

theorem log_eq_of_mem_iff {es fs : List (Nat × Bytes)} (hes : es.Pairwise LogLt)
    (hfs : fs.Pairwise LogLt) (same : ∀ e, e ∈ es ↔ e ∈ fs) : es = fs :=
  eq_of_mem_iff_of_pairwise LogLt.asymm hes hfs same

end History

namespace ReadFootprint

theorem validate_congr {f : ReadFootprint} {v : Nat} {es fs : List (Nat × Bytes)}
    (same : es.filter (v < ·.1) = fs.filter (v < ·.1)) : f.validate v es = f.validate v fs := by
  have above (log : List (Nat × Bytes)) :
      f.firstConflict? v log = (log.filter (v < ·.1)).find? fun e => f.covers e.2 := by
    rw [List.find?_filter, firstConflict?]
    congr 1
    funext e
    simp
  rw [validate, validate, above, above, same]

end ReadFootprint
end OptimisticStore
