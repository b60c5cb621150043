import OptimisticStore.Condition

/-! What a transaction has read: one range for each read, in order and with repetitions.
At commit the footprint is held against the keys that others have written since. -/

namespace OptimisticStore

structure ReadFootprint where
  ranges : List KeyRange := []

namespace ReadFootprint

def record (f : ReadFootprint) (r : KeyRange) : ReadFootprint := ⟨f.ranges ++ [r]⟩

def recordPoint (f : ReadFootprint) (key : Bytes) : ReadFootprint := f.record (.point key)

def covers (f : ReadFootprint) (key : Bytes) : Bool := f.ranges.any (·.contains key)

@[simp] theorem covers_record (f : ReadFootprint) (r : KeyRange) (key : Bytes) :
    (f.record r).covers key = (f.covers key || r.contains key) := by
  simp [covers, record]

/-- The first entry of `log` above `readVersion` whose key is covered. -/
def firstConflict? (f : ReadFootprint) (readVersion : Version) (log : List (Version × Bytes)) :
    Option (Version × Bytes) :=
  log.find? fun (version, key) => readVersion < version && f.covers key

/-- Entries at or below `readVersion` do not count, so a longer log may be passed. -/
def validate (f : ReadFootprint) (readVersion : Version) (log : List (Version × Bytes)) :
    Except Error Unit :=
  match f.firstConflict? readVersion log with
  | none => .ok ()
  | some (version, key) => .error (.conflict readVersion version key)

theorem validate_eq_ok_iff (f : ReadFootprint) (readVersion : Version)
    (log : List (Version × Bytes)) :
    f.validate readVersion log = .ok () ↔
      ∀ entry ∈ log, readVersion < entry.1 → f.covers entry.2 = false := by
  unfold validate firstConflict?
  split <;> rename_i h
  · simpa using h
  · have found := List.find?_some h
    have mem := List.mem_of_find?_eq_some h
    simp only [reduceCtorEq, false_iff, Classical.not_forall]
    simp only [Bool.and_eq_true, decide_eq_true_eq] at found
    exact ⟨_, mem, found.1, by simp [found.2]⟩

theorem exists_conflict_of_validate {f : ReadFootprint} {readVersion : Version}
    {log : List (Version × Bytes)} {e : Error} (refused : f.validate readVersion log = .error e) :
    ∃ version key, e = .conflict readVersion version key := by
  unfold validate at refused
  split at refused
  · cases refused
  · next version key _ =>
    cases refused
    exact ⟨version, key, rfl⟩

def inspect (f : ReadFootprint) : String :=
  Inspect.record "ReadTracker" [("ranges", Inspect.sequence (f.ranges.map KeyRange.inspect))]

end ReadFootprint
end OptimisticStore
