import OptimisticStore.Proofs.Lockstep

/-! A commit of more keys than the log has places for. A place is told by four bytes and comes
again after as many others as these can tell, and then the later write takes the row of the earlier
one, so the first keys of the commit are left without a row. The store in memory keeps the keys of
a commit as they are, whatever their number. -/

namespace OptimisticStore

namespace WriteSet

theorem mem_keys_iff_isSome (w : WriteSet) (k : Bytes) : k ∈ w.keys ↔ (w.get? k).isSome := by
  rw [mem_keys, Option.isSome_iff_exists]
  exact exists_congr fun x => (w.get?_eq_some_iff k x).symm

theorem isSome_get?_foldl_stage (w : WriteSet) (writes : List (Bytes × Option Bytes)) (k : Bytes) :
    ((writes.foldl stage w).get? k).isSome ↔ (w.get? k).isSome ∨ k ∈ writes.map (·.1) := by
  induction writes generalizing w with
  | nil => simp
  | cons write writes ih =>
    rw [List.foldl_cons, ih, get?_stage, List.map_cons, List.mem_cons, ← or_assoc]
    by_cases here : k = write.1 <;> simp [here]

theorem get?_foldl_stage_of_absent (w : WriteSet) {writes : List (Bytes × Option Bytes)}
    {k : Bytes} (absent : k ∉ writes.map (·.1)) : (writes.foldl stage w).get? k = w.get? k := by
  induction writes generalizing w with
  | nil => rfl
  | cons write writes ih =>
    rw [List.map_cons, List.mem_cons, not_or] at absent
    rw [List.foldl_cons, ih _ absent.2, get?_stage, if_neg absent.1]

theorem mem_keys_ofList (writes : List (Bytes × Option Bytes)) (k : Bytes) :
    k ∈ (ofList writes).keys ↔ k ∈ writes.map (·.1) := by
  rw [mem_keys_iff_isSome, ofList, isSome_get?_foldl_stage]
  exact or_iff_right Bool.false_ne_true

end WriteSet

/-- The empty key, and the numbers below `n` as keys of four bytes, all with an empty value. -/
def crowd (n : Nat) : List (Bytes × Option Bytes) :=
  ([], some []) :: (List.range n).map fun i => (Bytes.ofNat 4 i, some [])

section Crowd
variable {n : Nat}

theorem map_fst_crowd (n : Nat) :
    (crowd n).map (·.1) = [] :: (List.range n).map (Bytes.ofNat 4) := by
  rw [crowd, List.map_cons, List.map_map]
  rfl

theorem pairwise_crowd (small : n ≤ Bytes.capacity 4) :
    ((crowd n).map (·.1)).Pairwise (· < ·) := by
  rw [map_fst_crowd, List.pairwise_cons, List.pairwise_map]
  constructor
  · intro key mem
    obtain ⟨i, _, rfl⟩ := List.mem_map.1 mem
    exact List.nil_lt_cons _ _
  · refine List.pairwise_lt_range.imp_of_mem fun {i j} hi hj lt => ?_
    exact (Bytes.ofNat_lt_ofNat_iff (Nat.lt_of_lt_of_le (List.mem_range.1 hi) small)
      (Nat.lt_of_lt_of_le (List.mem_range.1 hj) small)).2 lt

theorem keys_crowd (small : n ≤ Bytes.capacity 4) :
    (WriteSet.ofList (crowd n)).keys = [] :: (List.range n).map (Bytes.ofNat 4) := by
  rw [← map_fst_crowd]
  exact eq_of_mem_iff_of_pairwise (fun lt => Std.not_gt_of_lt lt) (WriteSet.pairwise_keys _)
    (pairwise_crowd small) (WriteSet.mem_keys_ofList (crowd n))

theorem size_crowd (small : n ≤ Bytes.capacity 4) : (WriteSet.ofList (crowd n)).size = n + 1 := by
  have counted := congrArg List.length (keys_crowd small)
  rwa [WriteSet.keys, List.length_map, WriteSet.length_entries, List.length_cons, List.length_map,
    List.length_range] at counted

theorem get?_crowd (n : Nat) : (WriteSet.ofList (crowd n)).get? [] = some (some []) := by
  rw [WriteSet.ofList, crowd, List.foldl_cons, WriteSet.get?_foldl_stage_of_absent,
    WriteSet.get?_stage, if_pos rfl]
  intro mem
  rw [List.map_map, List.mem_map] at mem
  obtain ⟨i, _, same⟩ := mem
  cases congrArg List.length same

theorem first_crowd (small : n ≤ Bytes.capacity 4) :
    (WriteSet.ofList (crowd n)).keys[0]? = some [] := by
  rw [keys_crowd small, List.getElem?_cons_zero]

theorem round_crowd :
    0 + Layout.placeBound < (WriteSet.ofList (crowd Layout.placeBound)).size := by
  have size := size_crowd (n := Layout.placeBound) (Nat.le_refl _)
  omega

end Crowd

namespace Durable

/-- A place that comes again in the same commit has lost its row. -/
theorem not_logged_of_round {h : History} {v i : Nat} {w : WriteSet} {key : Bytes}
    (commit : h.commit? v = some w) (place : w.keys[i]? = some key)
    (round : i + Layout.placeBound < w.size) : ¬ ∃ j, Logged h v j key := by
  rintro ⟨j, u, there, place', last⟩
  obtain rfl : w = u := Option.some.inj (commit.symm.trans there)
  obtain ⟨hi, hik⟩ := List.getElem?_eq_some_iff.1 place
  obtain ⟨hj, hjk⟩ := List.getElem?_eq_some_iff.1 place'
  -- the row that is left belongs to a later place, and keys do not repeat
  have ascending := List.pairwise_iff_getElem.1 w.pairwise_keys i j hi hj (by omega)
  rw [hik, hjk] at ascending
  exact Std.lt_irrefl ascending

theorem lapsed_zero (config : Config) (rows : RawRows) (r : Registration) :
    lapsed config 0 rows r = false := by
  simp [lapsed, LedgerRow.expired]

theorem keepsOthers_prompt {i : Reference} {c : Client Device Snapshot (Option Cursor)}
    (same : Matches i c) (r : Registration) :
    keepsOthers r c.medium.rows (c.serve (.finish 0 r)).2.medium.rows = true := by
  obtain @⟨config, d, snapshots, pos, faultless, holds, _, _⟩ := same
  obtain ⟨rows, does, after⟩ := does_finish holds pos 0 r
  obtain ⟨d', ran, _, rfl⟩ := does d faultless rfl
  change keepsOthers r d.rows (Client.serveBy _ Reply.done (finish config 0 r)).2.medium.rows = true
  rw [Client.serveBy_eq ran, keepsOthers, ledger_eq holds, List.all_map, List.all_eq_true]
  intro s mem
  rw [Function.comp_apply, Bool.or_eq_true, beq_iff_eq]
  refine (Decidable.em (Layout.ledgerKey s = Layout.ledgerKey r)).imp_right fun other => ?_
  refine (after.registered_iff s).2 ⟨s, List.mem_filter.2 ⟨mem, ?_⟩, rfl⟩
  rw [lapsed_zero, Bool.not_false, Bool.and_true]
  exact decide_eq_true other

end Durable

/-- Two transactions begin, and the second one commits these writes and ends. -/
def overtaken (w : WriteSet) : List Request :=
  [.begin 0, .begin 0, .commit ⟨0, 2⟩ {} w, .finish 0 ⟨0, 2⟩]

section Overtaken
variable (w : WriteSet)

theorem short_overtaken : (overtaken w).length + 1 < Layout.wordBound :=
  (by decide : 5 < Layout.wordBound)

theorem fairRun_overtaken : FairRun Keyspace.client (Durable.client {}) (overtaken w) := by
  obtain ⟨_, one⟩ := Durable.serve_matches (Durable.matches_client {}) (.begin 0)
  obtain ⟨_, two⟩ := Durable.serve_matches one.next (.begin 0)
  obtain ⟨_, three⟩ := Durable.serve_matches two.next (.commit ⟨0, 2⟩ {} w)
  have registered : (⟨0, 2⟩ : Registration) ∈
      ((Keyspace.client.serve (.begin 0)).2.serve (.begin 0)).2.medium.running := by
    decide +kernel
  have unlogged : ((Keyspace.client.serve (.begin 0)).2.serve (.begin 0)).2.medium.log = [] := rfl
  refine ⟨trivial, trivial, ⟨registered, ?_⟩, ⟨by decide, ?_⟩, trivial⟩
  · rw [unlogged]
    intro e mem
    cases mem
  · exact Durable.keepsOthers_prompt three.next ⟨0, 2⟩

theorem matches_overtaken :
    let i : Reference := ⟨⟨[w], [⟨0, 1⟩], 2⟩, [0, 0]⟩
    Keyspace.Matches i (Keyspace.client.after (overtaken w)) ∧
      Durable.Matches i ((Durable.client {}).after (overtaken w)) := by
  have standing : Reference.after {} (overtaken w) = ⟨⟨[w], [⟨0, 1⟩], 2⟩, [0, 0]⟩ := rfl
  have same := (run_eq_fresh (short_overtaken w) (fairRun_overtaken w)).2
  rw [standing] at same
  exact same

theorem history_overtaken : Keyspace.client.history (overtaken w) = [w] ∧
    (Durable.client {}).history (overtaken w) = [w] := by
  have in_memory : [w] = Keyspace.client.history (overtaken w) :=
    (Keyspace.run_matches Keyspace.matches_client (overtaken w)).2
  have alike := congrArg commits (run_eq_fresh (short_overtaken w) (fairRun_overtaken w)).1
  exact ⟨in_memory.symm, alike.symm.trans in_memory.symm⟩

end Overtaken

end OptimisticStore
