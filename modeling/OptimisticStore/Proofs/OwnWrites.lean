import OptimisticStore.Proofs.Sight

/-! A transaction reads its own writes, by whatever read. The view of a transaction is told key by
key: what its snapshot shows, overwritten by one staged write after the other. A point, a list of
points, a query and a scan look it up in different ways, and all of them give this view. -/

namespace OptimisticStore

/-- What the keys stand for after one more write; a deletion leaves nothing. -/
def overwrite (seen : Bytes → Option Bytes) (write : Bytes × Option Bytes) :
    Bytes → Option Bytes := fun key => if key = write.1 then write.2 else seen key

def Transaction.sees {σ : Type} (t : Transaction σ) (data : OrderedMap Bytes Bytes) :
    Bytes → Option Bytes := fun key => (t.writes.get? key).getD (data.get? key)

namespace WriteSet

theorem getD_foldl_stage (w : WriteSet) (writes : List (Bytes × Option Bytes))
    (data : OrderedMap Bytes Bytes) (k : Bytes) :
    ((writes.foldl stage w).get? k).getD (data.get? k) =
      writes.foldl overwrite (fun key => (w.get? key).getD (data.get? key)) k := by
  induction writes generalizing w with
  | nil => rfl
  | cons write writes ih =>
    have once : (fun key => ((w.stage write).get? key).getD (data.get? key)) =
        overwrite (fun key => (w.get? key).getD (data.get? key)) write := by
      funext key
      rw [get?_stage, overwrite]
      split <;> rfl
    rw [List.foldl_cons, List.foldl_cons, ih, once]

end WriteSet

section Views
variable {μ σ κ : Type} {t : Transaction σ} {writes : List (Bytes × Option Bytes)}

theorem Transaction.get?_staging (t : Transaction σ) (writes : List (Bytes × Option Bytes))
    (data : OrderedMap Bytes Bytes) (k : Bytes) :
    ((t.staging writes).writes.onto data).get? k = writes.foldl overwrite (t.sees data) k := by
  rw [WriteSet.get?_onto]
  exact t.writes.getD_foldl_stage writes data k

variable {b : Backend μ σ κ} {m m' : μ} {data : OrderedMap Bytes Bytes} {now now' : Moment}

/-- Read your own writes. Whatever a transaction puts and deletes in whatever order while the
engine is open, all of it is staged. Its view then is what it saw before, overwritten by one write
after the other. Every later read that nothing stands against tells this view: a read of a key
gives what the key stands for, a read of many keys gives that of each; and of a condition's
entries, taken in the condition's direction and each key once, a query gives all, a query that is
pulled so far gives the first ones and a scan gives as many as its limit lets it. -/
theorem own_writes_read (wasOpen : now.shut = none) (writes : List (Bytes × Option Bytes))
    (shows' : Shows b m' t.snapshot data) (isOpen : now'.gate = none) :
    ∃ t', Engine.stageAll now writes (t, m) = (.ok (), t', m) ∧
      let view := writes.foldl overwrite (t.sees data)
      (∀ key, t'.Gets m' (Transaction.get b now' key) (view key) [.point key]) ∧
      (∀ keys, t'.Gets m' (Transaction.getMany b now' keys) (keys.map view) (keys.map .point)) ∧
      ∀ c, ∃ rows : List (Bytes × Bytes),
        (rows.Pairwise fun e f => c.direction.Before e.1 f.1) ∧
        (∀ e, e ∈ rows ↔ view e.1 = some e.2 ∧ c.contains e.1 = true) ∧
        t'.Gets m' (Engine.queryRows b now' c) rows [c.readRange] ∧
        (∀ n, t'.Gets m' (Transaction.pull b now' c n) (rows.take n) [c.readRange]) ∧
        ∀ limit, ∃ range,
          t'.Gets m' (Transaction.scan b now' c limit) (rows.take limit) [range] := by
  obtain ⟨sight, kept⟩ : ∃ sight : Sight b (t.staging writes).snapshot data, sight.kept m' :=
    shows'.exists_sight
  have view (k : Bytes) := t.get?_staging writes data k
  refine ⟨t.staging writes, Engine.stageAll_open wasOpen writes t m, fun key => ?_,
    fun keys => ?_, fun c => ⟨_, c.pairwise_select _, fun e => ?_,
      (sight.gets_queryRows isOpen c).gets kept, fun n => (sight.gets_pull isOpen c n).gets kept,
      fun limit => ⟨_, (sight.gets_scan isOpen c limit).gets kept⟩⟩⟩
  · rw [← view key]
    exact (sight.gets_get isOpen key).gets kept
  · rw [← funext view]
    exact (sight.gets_getMany isOpen keys).gets kept
  · rw [c.mem_select_iff, view]

end Views

theorem own_writes_read_sample :
    let writes := [([97], none), ([98], some [51]), ([98], some [52])]
    ∃ t', Engine.stageAll Durable.sampleMoment writes (Durable.sampleReader, soundStore) =
        (.ok (), t', soundStore) ∧
      t'.Gets soundStore (Transaction.get (Durable.backend {}) Durable.sampleMoment [97]) none
        [.point [97]] ∧
      ∃ rows, ([98], [52]) ∈ rows ∧ (∀ value, ([97], value) ∉ rows) ∧
        t'.Gets soundStore (Engine.queryRows (Durable.backend {}) Durable.sampleMoment .all) rows
          [Condition.all.readRange] := by
  intro writes
  have wasOpen : Durable.sampleMoment.shut = none := rfl
  have isOpen : Durable.sampleMoment.gate = none := rfl
  obtain ⟨t', staged, get, _, query⟩ :=
    own_writes_read (m := soundStore) wasOpen writes shows_soundStore isOpen
  obtain ⟨rows, _, selects, gets, _⟩ := query .all
  refine ⟨t', staged, get [97], rows, (selects _).2 ⟨rfl, rfl⟩, fun value found => ?_, gets⟩
  cases ((selects _).1 found).1

end OptimisticStore
