import OptimisticStore.Proofs.Layout

/-! The bookkeeping rows and the windows through which a store looks at its rows. Ledger rows stand
in the order of their registrations and log rows in the order of versions and places, and what is
read from a key is what it was made of. A window shows rows of one region only, whatever it is made
of itself, so pruning the log or the ledger never meets a row of another kind. -/

namespace OptimisticStore

theorem Registration.compare_eq_eq_iff (a b : Registration) : compare a b = .eq ↔ a = b := by
  obtain ⟨version, number⟩ := a
  obtain ⟨version', number'⟩ := b
  change (compare version version').then (compare number number') = .eq ↔ _
  rw [Ordering.then_eq_eq, Nat.compare_eq_eq, Nat.compare_eq_eq, Registration.mk.injEq]

namespace Layout

inductive RowName where
  | data (key : Bytes) (version : Version) (deleted : Bool)
  | lastVersion
  | lastTxnId
  | log (version : Version) (place : Nat)
  | ledger (r : Registration)

namespace RowName

def raw : RowName → Bytes
  | .data key version deleted => dataKey key version deleted
  | .lastVersion => versionKey
  | .lastTxnId => txnIdKey
  | .log version place => logKey version place
  | .ledger r => ledgerKey r

def region : RowName → UInt8
  | .data .. => 1
  | .lastVersion | .lastTxnId => 2
  | .log .. => 3
  | .ledger _ => 4

theorem region_raw (n : RowName) : Layout.region n.raw = some n.region := by
  cases n <;> rfl

end RowName

/-- What the ends of a scan are made of: a range of keys, a key and the version at which it is
looked up, the versions of the log after one and up to another, or nothing for the ledger. -/
inductive Window where
  | data (r : KeyRange)
  | lookup (key : Bytes) (version : Version)
  | log (after : Version) (upto : Option Version)
  | ledger

namespace Window

def ends : Window → Cut Bytes × Cut Bytes
  | .data r => dataRange r
  | .lookup key version => (.included (seekKey key version), .included (dataKeyEnd key))
  | .log after upto => logRange after upto
  | .ledger => ledgerRange

def region : Window → UInt8
  | .data _ | .lookup .. => 1
  | .log .. => 3
  | .ledger => 4

def Shows (w : Window) (raw : Bytes) : Prop := w.ends.1.Below raw ∧ w.ends.2.Above raw

theorem region_of_shows {w : Window} {raw : Bytes} (shown : w.Shows raw) :
    Layout.region raw = some w.region := by
  obtain ⟨lower, upper⟩ := shown
  cases w with
  | data r => exact region_of_dataRange lower upper
  | lookup key version => exact region_of_seek lower upper
  | log after upto => exact region_of_logRange lower upper
  | ledger => exact (ledgerRange_iff raw).1 ⟨lower, upper⟩

theorem region_eq_of_shows {w : Window} {n : RowName} (shown : w.Shows n.raw) :
    w.region = n.region := by
  have region := region_of_shows shown
  rw [n.region_raw] at region
  exact (Option.some.inj region).symm

theorem ledger_shows_iff (n : RowName) : ledger.Shows n.raw ↔ n.region = 4 := by
  rw [Shows, ends, ledgerRange_iff, n.region_raw, Option.some.injEq]

end Window

theorem readLedgerKey_eq_ok_iff (raw : Bytes) (r : Registration) :
    readLedgerKey raw = .ok r ↔ r.Fits ∧ raw = ledgerKey r := by
  constructor
  · exact eq_ledgerKey_of_readLedgerKey
  · rintro ⟨fits, rfl⟩
    exact readLedgerKey_ledgerKey fits

theorem readLogVersion_eq_ok_iff (raw : Bytes) (v : Version) :
    readLogVersion raw = .ok v ↔ v < wordBound ∧ ∃ i < placeBound, raw = logKey v i := by
  constructor
  · exact eq_logKey_of_readLogVersion
  · rintro ⟨small, i, _, rfl⟩
    exact readLogVersion_logKey small i

theorem log_shows_iff {after v i : Nat} {upto : Option Nat} (early : after < wordBound - 1)
    (hupto : ∀ n ∈ upto, n < wordBound) (hv : v < wordBound) (hi : i < placeBound) :
    (Window.log after upto).Shows (logKey v i) ↔ after < v ∧ ∀ n ∈ upto, v ≤ n := by
  have next : min (after + 1) (wordBound - 1) = after + 1 := Nat.min_eq_left early
  rw [Window.Shows, Window.ends, logRange_iff upto hv hi hupto, next, Nat.succ_le_iff]

/-- The keys of the ledger stand as their registrations do and those of the log by version and
place. From either kind of key its own numbers are read, and from a byte string that is no such key
none. A window of the log shows the versions between its ends, the one of the ledger all of the
ledger, and no window shows a row of another region than its own. -/
theorem bookkeeping_keys_exact {r s : Registration} (hr : r.Fits) (hs : s.Fits) {u v i j : Nat}
    (hu : u < wordBound) (hv : v < wordBound) (hi : i < placeBound) (hj : j < placeBound) :
    ((ledgerKey r < ledgerKey s ↔ compare r s = .lt) ∧
      (ledgerKey r = ledgerKey s ↔ compare r s = .eq)) ∧
    (readLedgerKey (ledgerKey r) = .ok r ∧
      ∀ raw x, readLedgerKey raw = .ok x ↔ x.Fits ∧ raw = ledgerKey x) ∧
    ((logKey u i < logKey v j ↔ u < v ∨ u = v ∧ i < j) ∧
      (logKey u i = logKey v j ↔ u = v ∧ i = j)) ∧
    (readLogVersion (logKey v i) = .ok v ∧
      ∀ raw x, readLogVersion raw = .ok x ↔ x < wordBound ∧ ∃ p < placeBound, raw = logKey x p) ∧
    (∀ after upto, after < wordBound - 1 → (∀ n ∈ upto, n < wordBound) →
      ((Window.log after upto).Shows (logKey v i) ↔ after < v ∧ ∀ n ∈ upto, v ≤ n)) ∧
    (∀ n : RowName, Window.ledger.Shows n.raw ↔ n.region = 4) ∧
    ∀ (w : Window) (n : RowName), w.Shows n.raw → w.region = n.region := by
  refine ⟨⟨?_, ?_⟩, ⟨readLedgerKey_ledgerKey hr, readLedgerKey_eq_ok_iff⟩,
    ⟨logKey_lt_logKey_iff hu hv hi hj, ⟨logKey_inj hu hv hi hj, ?_⟩⟩,
    ⟨readLogVersion_logKey hv i, readLogVersion_eq_ok_iff⟩,
    fun after upto early words => log_shows_iff early words hv hi, Window.ledger_shows_iff,
    fun w n => Window.region_eq_of_shows⟩
  · rw [ledgerKey_lt_ledgerKey_iff hr hs, Registration.compare_eq_lt_iff]
  · rw [Registration.compare_eq_eq_iff]
    exact ⟨ledgerKey_inj hr hs, congrArg ledgerKey⟩
  · rintro ⟨rfl, rfl⟩
    rfl

theorem bookkeeping_keys_exact_sample :
    let r : Registration := ⟨255, wordBound - 1⟩
    let s : Registration := ⟨256, 0⟩
    ledgerKey r < ledgerKey s ∧ readLedgerKey (ledgerKey r) = .ok r ∧
      logKey 255 (placeBound - 1) < logKey (wordBound - 1) 0 ∧
      (Window.log (wordBound - 2) (some (wordBound - 1))).Shows
        (logKey (wordBound - 1) (placeBound - 1)) ∧
      ¬ (Window.log 255 none).Shows (logKey 255 (placeBound - 1)) := by
  intro r s
  have fits : r.Fits ∧ s.Fits := by decide
  have low : 255 < wordBound := by decide
  have high : wordBound - 1 < wordBound := by decide
  have last : placeBound - 1 < placeBound := by decide
  have first : 0 < placeBound := by decide
  have word : ∀ n ∈ some (wordBound - 1), n < wordBound := by
    rintro _ ⟨⟩
    exact high
  obtain ⟨⟨ledger, _⟩, ⟨read, _⟩, ⟨log, _⟩, _, top, _⟩ :=
    bookkeeping_keys_exact fits.1 fits.2 low high last first
  obtain ⟨_, _, _, _, own, _⟩ := bookkeeping_keys_exact fits.1 fits.2 high low last first
  refine ⟨ledger.2 (by decide), read, log.2 (.inl (by decide)), ?_, ?_⟩
  · refine (top (wordBound - 2) _ (by decide) word).2 ⟨by decide, ?_⟩
    rintro _ ⟨⟩
    exact Nat.le_refl _
  · intro shown
    exact Nat.lt_irrefl _ ((own 255 none (by decide) nofun).1 shown).1

end Layout
end OptimisticStore
