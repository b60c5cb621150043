import OptimisticStore.Inspect

/-! Versions number the committed states of a store, from 0 for the empty one. A registration
names a transaction that has begun and not yet ended: the version it reads and its own number.
Registrations are ordered by read version first, so the least one holds back the log. -/

namespace OptimisticStore

abbrev Version := Nat
abbrev TxnId := Nat

structure Registration where
  readVersion : Version
  txnId : TxnId
  deriving DecidableEq

namespace Registration

instance : Ord Registration where
  compare a b := (compare a.readVersion b.readVersion).then (compare a.txnId b.txnId)

def display (r : Registration) : String := "txn-" ++ r.txnId.repr ++ "@" ++ r.readVersion.repr

def inspect (r : Registration) : String :=
  Inspect.record "RunningTxn" [("read_version", r.readVersion.repr), ("txn_id", r.txnId.repr)]

theorem compare_eq_lt_iff (a b : Registration) :
    compare a b = .lt ↔
      a.readVersion < b.readVersion ∨ a.readVersion = b.readVersion ∧ a.txnId < b.txnId := by
  change (compare a.readVersion b.readVersion).then _ = .lt ↔ _
  rw [Ordering.then_eq_lt, Nat.compare_eq_lt, Nat.compare_eq_eq, Nat.compare_eq_lt]

end Registration
end OptimisticStore
