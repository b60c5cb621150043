import OptimisticStore.Proofs.Reference

/-! Both stores move in step. They are asked the same requests in the same order, from the empty
store on, and every reply is the same: registrations, versions, the first conflict, values, rows and
counts. The requests have to be fair: who commits is registered, the time to live takes nobody's
ledger row, and the log has a place for each key that a commit is validated against. -/

namespace OptimisticStore

/-- What one request may ask, with the device before and after it. A place in the log is a word
of four bytes, and none of the commits that a transaction is validated against has more keys than
there are places. -/
def Fair (m : Client Keyspace Keyspace.Snapshot (Walk Bytes Bytes)) (before after : Device) :
    Request → Prop
  | .commit r _ _ => r ∈ m.medium.running ∧
      ∀ e ∈ m.medium.log, r.readVersion < e.1 → e.2.length ≤ Layout.placeBound
  | .finish _ r => r.Fits ∧ Durable.keepsOthers r before.rows after.rows = true
  | .abandon _ => False
  | _ => True

def FairRun (m : Client Keyspace Keyspace.Snapshot (Walk Bytes Bytes))
    (d : Client Device Durable.Snapshot (Option Durable.Cursor)) : List Request → Prop
  | [] => True
  | q :: qs =>
    Fair m d.medium (d.serve q).2.medium q ∧ FairRun (m.serve q).2 (d.serve q).2 qs

instance (m : Client Keyspace Keyspace.Snapshot (Walk Bytes Bytes)) (before after : Device)
    (q : Request) : Decidable (Fair m before after q) :=
  match q with
  | .commit .. | .finish .. => inferInstanceAs (Decidable (_ ∧ _))
  | .abandon _ => inferInstanceAs (Decidable False)
  | .begin _ | .heartbeat .. | .stats | .get .. | .query .. | .reopen _ =>
    inferInstanceAs (Decidable True)

instance decidableFairRun : (m : Client Keyspace Keyspace.Snapshot (Walk Bytes Bytes)) →
    (d : Client Device Durable.Snapshot (Option Durable.Cursor)) → (qs : List Request) →
    Decidable (FairRun m d qs)
  | _, _, [] => inferInstanceAs (Decidable True)
  | m, d, q :: qs =>
    have := decidableFairRun (m.serve q).2 (d.serve q).2 qs
    inferInstanceAs (Decidable (_ ∧ _))

namespace Reference

theorem serve_grows (i : Reference) (q : Request) :
    (i.serve q).2.current ≤ i.current + 1 ∧
      (i.serve q).2.standing.lastTxnId ≤ i.standing.lastTxnId + 1 := by
  have one := congrArg List.length (i.history_serve q)
  rw [List.length_append] at one
  have version : (i.serve q).2.current ≤ i.current + 1 := by
    have short : (written (q, (i.serve q).1)).toList.length ≤ 1 := by
      cases written (q, (i.serve q).1) <;> simp
    change (i.serve q).2.history.length ≤ i.history.length + 1
    omega
  refine ⟨version, ?_⟩
  cases q with
  | begin now => exact Nat.le_refl _
  | commit r reads w =>
    simp only [serve]
    repeat' split
    all_goals exact Nat.le_succ _
  | get n key => exact Nat.le_succ _
  | query n c => exact Nat.le_succ _
  | _ => exact Nat.le_succ _

end Reference

theorem Keyspace.Holds.fitsSince {a : Standing} {s : Keyspace} (holds : Holds a s)
    {r : Registration} (hr : r ∈ a.running)
    (fits : ∀ e ∈ s.log, r.readVersion < e.1 → e.2.length ≤ Layout.placeBound) :
    a.history.FitsSince r.readVersion := by
  intro w mem
  obtain ⟨n, place⟩ := List.mem_iff_getElem?.1 mem
  rw [List.getElem?_drop] at place
  have later := Nat.lt_succ_of_le (Nat.le_add_right r.readVersion n)
  have logged : (r.readVersion + n + 1, w.keys) ∈ s.log := by
    rw [holds.log, List.mem_filter]
    exact ⟨History.mem_entries.2 ⟨w, place, rfl⟩,
      decide_eq_true (Nat.lt_of_le_of_lt (holds.sound.horizon_le hr) later)⟩
  have size := fits _ logged later
  rwa [WriteSet.keys, List.length_map, WriteSet.length_entries] at size

/-- Both clients match the same reference, so they answer alike, and go on to match the same. -/
theorem run_eq {i : Reference} {m : Client Keyspace Keyspace.Snapshot (Walk Bytes Bytes)}
    {d : Client Device Durable.Snapshot (Option Durable.Cursor)} (hm : Keyspace.Matches i m)
    (hd : Durable.Matches i d) {qs : List Request}
    (room : i.current + qs.length + 1 < Layout.wordBound ∧
      i.standing.lastTxnId + qs.length + 1 < Layout.wordBound)
    (fair : FairRun m d qs) : (m.run qs).1 = (d.run qs).1 ∧
      Keyspace.Matches (i.after qs) (m.after qs) ∧ Durable.Matches (i.after qs) (d.after qs) := by
  induction qs generalizing i m d with
  | nil => exact ⟨rfl, hm, hd⟩
  | cons q qs ih =>
    obtain ⟨now, later⟩ := fair
    obtain ⟨versions, numbers⟩ := room
    rw [List.length_cons] at versions numbers
    have regular : Durable.Regular i d.medium.rows (d.serve q).2.medium.rows q := by
      cases q with
      | begin now => exact (by omega : i.standing.lastTxnId + 1 < Layout.wordBound)
      | commit r reads w =>
        have registered : r ∈ i.standing.running := hm.holds.running ▸ now.1
        exact ⟨registered, hm.holds.fitsSince registered now.2, by omega⟩
      | finish now' r => exact now
      | abandon r => exact now
      | heartbeat | stats | get | query | reopen => trivial
    obtain ⟨reply, hm'⟩ := Keyspace.serve_matches hm q
    obtain ⟨i', hd', _, answers⟩ := Durable.serve_matches hd q
    obtain ⟨reply', rfl⟩ := answers regular
    have grown := i.serve_grows q
    obtain ⟨rest, last⟩ := ih hm' hd' ⟨by omega, by omega⟩ later
    refine ⟨?_, last⟩
    simp only [Client.run]
    rw [reply, reply', rest]

theorem run_eq_fresh {config : Config} {qs : List Request}
    (short : qs.length + 1 < Layout.wordBound)
    (fair : FairRun Keyspace.client (Durable.client config) qs) :
    (Keyspace.client.run qs).1 = ((Durable.client config).run qs).1 ∧
      Keyspace.Matches (Reference.after {} qs) (Keyspace.client.after qs) ∧
        Durable.Matches (Reference.after {} qs) ((Durable.client config).after qs) := by
  refine run_eq Keyspace.matches_client (Durable.matches_client config) ⟨?_, ?_⟩ fair
  · simpa [Reference.current] using short
  · simpa using short

end OptimisticStore
