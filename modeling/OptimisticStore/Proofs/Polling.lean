import OptimisticStore.Proofs.Cursor
import OptimisticStore.Proofs.Law

/-! Reading a query of either store to its end: the cursors pay what they owe, and the bounds
that the stores tell are enough for it. -/

namespace OptimisticStore

namespace Keyspace

theorem length_toList_le (w : Walk Bytes Bytes) : w.toList.length ≤ Walk.weight w.stack := by
  fun_induction Walk.toList w with
  | case1 => exact Nat.zero_le _
  | case2 w entry rest found ih =>
    have fewer := Walk.weight_next found
    rw [List.length_cons]
    omega

theorem pays (s : Keyspace) : backend.Pays (· = s) fun owed w => w.toList = owed := by
  rintro _ w s rfl rfl
  change ∃ c' m', ((Keyspace.poll none w).1, (Keyspace.poll none w).2, s) = _ ∧ _
  rw [Keyspace.poll]
  cases found : w.next with
  | none =>
    rw [Walk.toList_of_next_eq_none found]
    exact ⟨w, s, rfl, rfl, fun some_left => absurd rfl some_left⟩
  | some e =>
    obtain ⟨row, rest⟩ := e
    rw [Walk.toList_of_next_eq_some found]
    exact ⟨rest, s, rfl, rfl, fun _ => rfl⟩

theorem rows_eq (snapshot : Snapshot) (c : Condition) (s : Keyspace) :
    backend.rows none snapshot c s = (.ok (c.select snapshot.data), s) := by
  have all : (snapshot.query c).toList = c.select snapshot.data := Condition.select_eq_range c _
  have short := length_toList_le (snapshot.query c)
  obtain ⟨s', collected, rfl⟩ := (pays s).collect rfl all
    (by rw [← all]; exact Nat.lt_succ_of_le short)
  exact collected

end Keyspace

namespace Durable
variable {a : Standing} {rows : RawRows}

theorem pays (holds : Holds a rows) (config : Config) :
    (backend config).Pays (fun d => d.Faultless ∧ d.rows = rows)
      fun owed c => ∃ cursor, c = some cursor ∧ Cursor.Owes a.history owed cursor := by
  rintro owed _ d ⟨faultless, same⟩ ⟨cursor, rfl, owes⟩
  obtain ⟨next, d', polled, faultless', same', _, debt⟩ :=
    Cursor.does_poll holds owes faultless same
  exact ⟨next, d', polled, ⟨faultless', same'⟩, debt⟩

theorem pays_due (readable : DataReadable rows) (config : Config) :
    (backend config).Pays (fun d => d.Faultless ∧ d.rows = rows)
      fun owed c => ∃ cursor, c = some cursor ∧ Cursor.Due rows owed cursor := by
  rintro owed _ d ⟨faultless, same⟩ ⟨cursor, rfl, due⟩
  obtain ⟨next, d', polled, faultless', same', _, debt⟩ :=
    Cursor.does_poll_due readable due faultless same
  refine ⟨next, d', polled, ⟨faultless', same'⟩, fun some_left => ?_⟩
  obtain ⟨c', given, due', _⟩ := debt some_left
  exact ⟨c', given, due'⟩

theorem does_rows_due (readable : DataReadable rows) (config : Config) {s : Snapshot}
    {c : Condition} {owed : List Row} (due : Cursor.Due rows owed (.ofSnapshot s c)) :
    Device.Does ((backend config).rows none s c) rows (.ok owed) rows := by
  intro d faultless same
  have short := Cursor.length_due_le due
  obtain ⟨d', collected, faultless', same'⟩ := (pays_due readable config).collect
    ⟨faultless, same⟩ ⟨_, rfl, due⟩ (by
      rw [← same] at short
      exact Nat.lt_succ_of_le (Nat.le_succ_of_le short))
  exact ⟨d', collected, faultless', same'⟩

theorem does_rows (holds : Holds a rows) (config : Config) (s : Snapshot)
    (hv : s.version ≤ a.history.length) (paged : 0 < s.pageSize) (c : Condition) :
    Device.Does ((backend config).rows none s c) rows
      (.ok (c.select (a.history.state s.version))) rows :=
  does_rows_due (dataReadable holds) config
    ((Cursor.owes_iff holds _).1 (Cursor.owes_ofSnapshot holds s hv paged c)).2

end Durable
end OptimisticStore
