import OptimisticStore.Proofs.Conflicts

/-! A store on a device refines the one in memory: asked the same requests it gives the same
answers. What parts them is a commit of more keys than the log of the device has places for, as
soon as a transaction that it overtook is validated. -/

namespace OptimisticStore

/-- The device may be opened again between any two requests, with any configuration. -/
theorem durable_answers_as_memory (config : Config) (qs : List Request)
    (short : qs.length + 1 < Layout.wordBound)
    (fair : FairRun Keyspace.client (Durable.client config) qs) :
    (Keyspace.client.run qs).1 = ((Durable.client config).run qs).1 :=
  (run_eq_fresh short fair).1

/-- A commit, a conflict with it, and reads of both states over a device opened again. -/
def sampleRequests : List Request :=
  [.begin 0, .begin 0, .commit ⟨0, 1⟩ {} (.ofList [([107], some [1]), ([108], none)]),
    .finish 0 ⟨0, 1⟩, .begin 0, .reopen { pageSize := 1 }, .query 2 .all, .query 1 (.lte [108]),
    .commit ⟨0, 2⟩ ⟨[.point [107]]⟩ {}, .get 2 [107], .stats]

theorem sampleRequests_answers :
    (sampleRequests.length + 1 < Layout.wordBound ∧
      FairRun Keyspace.client (Durable.client {}) sampleRequests) ∧
    (Keyspace.client.run sampleRequests).1 = ((Durable.client {}).run sampleRequests).1 := by
  have short : sampleRequests.length + 1 < Layout.wordBound := by decide
  have fair : FairRun Keyspace.client (Durable.client {}) sampleRequests := by decide +kernel
  exact ⟨⟨short, fair⟩, durable_answers_as_memory {} sampleRequests short fair⟩


section Overtaken
variable {w : WriteSet} {key : Bytes} {i : Nat} (u : WriteSet)

theorem Client.run_snoc {μ σ κ : Type} (c : Client μ σ κ) (qs : List Request) (q : Request) :
    (c.run (qs ++ [q])).1 = (c.run qs).1 ++ [(q, ((c.after qs).serve q).1)] := by
  induction qs generalizing c with
  | nil => rfl
  | cons first qs ih => exact congrArg (_ :: ·) (ih (c.serve first).2)

theorem Client.serve_commit {μ σ κ : Type} (c : Client μ σ κ) (r : Registration)
    (reads : ReadFootprint) : (c.serve (.commit r reads u)).1 = .committed (c.commit r reads u) :=
  rfl

theorem answers_overlooked (place : w.keys[i]? = some key)
    (round : i + Layout.placeBound < w.size) :
    let q : Request := .commit ⟨0, 1⟩ ⟨[.point key]⟩ u
    FairRun Keyspace.client (Durable.client {}) (overtaken w) ∧
    (⟨0, 1⟩ : Registration) ∈ (Keyspace.client.after (overtaken w)).medium.running ∧
    ((Keyspace.client.after (overtaken w)).serve q).1 = .committed (.error (.conflict 0 1 key)) ∧
    (((Durable.client {}).after (overtaken w)).serve q).1 = .committed (.ok 2) ∧
    (Keyspace.client.run (overtaken w ++ [q])).1 ≠
      ((Durable.client {}).run (overtaken w ++ [q])).1 := by
  intro q
  have in_memory := Keyspace.commit_overtaken w u (List.mem_of_getElem? place)
  have on_device := Durable.commit_overtaken w u place round
  have registered := (matches_overtaken w).1.holds.running
  rw [Client.serve_commit, Client.serve_commit, in_memory, on_device]
  refine ⟨fairRun_overtaken w, registered ▸ List.mem_cons_self, rfl, rfl, fun same => ?_⟩
  rw [Client.run_snoc, Client.run_snoc, Client.serve_commit, Client.serve_commit, in_memory,
    on_device] at same
  have last := (List.append_inj' same rfl).2
  cases last

end Overtaken

/-- All of these requests are fair but the last one, which is validated against too large a
commit. -/
theorem crowded_answers_differ :
    let w := WriteSet.ofList (crowd Layout.placeBound)
    let q : Request := .commit ⟨0, 1⟩ ⟨[.point []]⟩ {}
    FairRun Keyspace.client (Durable.client {}) (overtaken w) ∧
    (⟨0, 1⟩ : Registration) ∈ (Keyspace.client.after (overtaken w)).medium.running ∧
    ((Keyspace.client.after (overtaken w)).serve q).1 = .committed (.error (.conflict 0 1 [])) ∧
    (((Durable.client {}).after (overtaken w)).serve q).1 = .committed (.ok 2) ∧
    (Keyspace.client.run (overtaken w ++ [q])).1 ≠
      ((Durable.client {}).run (overtaken w ++ [q])).1 :=
  answers_overlooked {} (first_crowd (Nat.le_refl _)) round_crowd

end OptimisticStore
