import OptimisticStore.Proofs.Obsolete
import OptimisticStore.Proofs.Resolve
import OptimisticStore.Proofs.RowMedium

/-! A range is proper if its lower end is not above its upper end and the two are not the same
excluded key. The durable store starts from proper ranges, and behind a row of a proper range the
rest of it is proper again. So as long as scans keep to their range, none of its operations can
break what only a scan of an improper range could break (`RowMedium.Sustains`). -/

namespace OptimisticStore

/-! ### Proper ranges -/

namespace Cut

/-- A range that an ordered map takes. -/
def Proper (lower upper : Cut Bytes) : Prop :=
  match lower, upper with
  | included l, included u | included l, excluded u | excluded l, included u => l ≤ u
  | excluded l, excluded u => l < u
  | _, _ => True

instance (lower upper : Cut Bytes) : Decidable (Proper lower upper) := by
  cases lower <;> cases upper <;> unfold Proper <;> infer_instance

def key? : Cut Bytes → Option Bytes
  | unbounded => none
  | included k | excluded k => some k

theorem proper_iff (lower upper : Cut Bytes) :
    Proper lower upper ↔ (∀ l ∈ lower.key?, ∀ u ∈ upper.key?, l ≤ u) ∧
      ∀ k, ¬ (lower = .excluded k ∧ upper = .excluded k) := by
  cases lower with
  | unbounded => simp [Proper, key?]
  | included l => cases upper <;> simp [Proper, key?]
  | excluded l =>
    cases upper with
    | unbounded => simp [Proper, key?]
    | included u => simp [Proper, key?]
    | excluded u =>
      have strict : l < u ↔ l ≤ u ∧ ¬ u = l :=
        ⟨fun lt => ⟨Std.le_of_lt lt, fun same => Std.ne_of_lt lt same.symm⟩,
          fun both => Std.lt_of_le_of_ne both.1 fun same => both.2 same.symm⟩
      simpa [Proper, key?] using strict

theorem proper_from {upper : Cut Bytes} {k : Bytes} (inside : upper.Above k) :
    Proper (.excluded k) upper := by
  cases upper <;> exact inside

theorem proper_upto {lower : Cut Bytes} {k : Bytes} (inside : lower.Below k) :
    Proper lower (.excluded k) := by
  cases lower with
  | unbounded => trivial
  | included l => exact inside
  | excluded l => exact inside

end Cut

namespace Layout

theorem proper_ledgerRange : Cut.Proper ledgerRange.1 ledgerRange.2 := by decide

theorem proper_logRange (after : Version) :
    Cut.Proper (logRange after none).1 (logRange after none).2 :=
  Std.le_of_lt ((region_eq_iff (logKey _ 0) (b := 3) (by decide)).1 rfl).2

theorem proper_logRange_upto {upto : Nat} (pos : 0 < upto) (small : upto < wordBound) :
    Cut.Proper (logRange 0 (some upto)).1 (logRange 0 (some upto)).2 := by
  have words : 1 < wordBound := by decide
  have first : min (0 + 1) (wordBound - 1) < wordBound := by omega
  refine Std.not_lt.1 fun below => ?_
  rw [logKey_lt_logKey_iff small first (by decide) (by decide)] at below
  omega

theorem proper_seek (key : Bytes) (v : Version) :
    Cut.Proper (.included (seekKey key v)) (.included (dataKeyEnd key)) := by
  have suffix : cell (complement v) ≤ List.replicate 9 255 := Bytes.le_replicate (by simp)
  exact (Bytes.append_le_append_iff rfl _ _).2 (.inr ⟨rfl, suffix⟩)

theorem proper_dataRange (c : Condition) :
    Cut.Proper (dataRange c.readRange).1 (dataRange c.readRange).2 := by
  have inside (raw : Bytes) (data : region raw = some 1) : [1] ≤ raw ∧ raw < [2] :=
    (region_eq_iff raw (by decide)).1 data
  cases c with
  | gt k => exact (inside (dataKeyEnd k) rfl).2
  | gte k => exact Std.le_of_lt (inside (dataStem k) rfl).2
  | lt k => exact (inside (dataStem k) rfl).1
  | lte k => exact (inside (dataKeyEnd k) rfl).1

end Layout

theorem Durable.fits_of_readLedger {rows : List Row} {ledger : List LedgerRow}
    (read : rows.mapM readLedgerRow = .ok ledger) : ∀ row ∈ ledger, row.registration.Fits := by
  intro row mem
  rcases mapM_cases readLedgerRow rows with ⟨_, all⟩ | ⟨_, e, failed⟩
  · rw [read] at all
    cases all
    obtain ⟨e, _, some_row⟩ := List.mem_filterMap.1 mem
    exact (eq_of_readLedgerRow (toOption_eq_some_iff.1 some_row)).2.1
  · rw [read] at failed
    cases failed

namespace Durable.Cursor

def Proper (c : Cursor) : Prop := Cut.Proper c.lower c.upper

variable {c : Cursor}

theorem proper_ofSnapshot (s : Snapshot) (cond : Condition) : (ofSnapshot s cond).Proper :=
  Layout.proper_dataRange cond

theorem Proper.beyond (proper : c.Proper) {page : List Row}
    (inside : ∀ e ∈ page, c.lower.Below e.1 ∧ c.upper.Above e.1) :
    (page.getLast?.elim c fun (last, _) => c.advance last).Proper := by
  cases hlast : page.getLast? with
  | none => exact proper
  | some e =>
    have stands := inside e (List.mem_of_getLast? hlast)
    change (c.advance e.1).Proper
    unfold Cursor.advance
    split
    · exact Cut.proper_from stands.2
    · exact Cut.proper_upto stands.1

theorem Proper.acceptAll (proper : c.Proper) {records : List (Bytes × Record Bytes)} :
    (c.acceptAll records).2.Proper := by
  obtain ⟨_, _, same⟩ := acceptAll_eq c records
  rw [same]
  exact proper

theorem Proper.release (proper : c.Proper) : c.release.2.Proper := by
  unfold Cursor.release
  split <;> exact proper

end Durable.Cursor

/-! ### What improper ranges alone could break -/

def Access.Sustains {μ α : Type} (P : μ → Prop) (x : Access μ α)
    (told : α → Prop := fun _ => True) : Prop :=
  ∀ m, P m → P (x m).2 ∧ ∀ a, (x m).1 = .ok a → told a

/-- No call breaks `P`, but perhaps a scan of an improper range, and scans keep to their range. -/
structure RowMedium.Sustains {μ : Type} (raw : RowMedium μ) (P : μ → Prop) : Prop where
  get key : (raw.get key).Sustains P
  scan lower upper d limit : Cut.Proper lower upper →
    (raw.scan lower upper d limit).Sustains P fun page =>
      ∀ e ∈ page, lower.Below e.1 ∧ upper.Above e.1
  write batch : (raw.write batch).Sustains P
  close : raw.close.Sustains P

namespace Access
variable {μ α β : Type} {P : μ → Prop} {told : α → Prop} {told' : β → Prop}

theorem sustains_told {a : α} (here : told a) : (pure a : Access μ α).Sustains P told := by
  intro m holds
  refine ⟨holds, fun b same => ?_⟩
  cases same
  exact here

theorem sustains_pure (a : α) : (pure a : Access μ α).Sustains P := sustains_told trivial

theorem sustains_fail (e : Error) : (fail e : Access μ α).Sustains P told :=
  fun _ holds => ⟨holds, nofun⟩

theorem Sustains.bind {x : Access μ α} {f : α → Access μ β} (hx : x.Sustains P told)
    (hf : ∀ a, told a → (f a).Sustains P told') : (x >>= f).Sustains P told' := by
  intro m holds
  obtain ⟨after, first⟩ := hx m holds
  rw [bind_apply]
  rcases ran : x m with ⟨e | a, m'⟩ <;> rw [ran] at after first
  · exact ⟨after, nofun⟩
  · exact hf a (first a rfl) m' after

theorem sustains_medium {f : μ → Access μ β} (hf : ∀ m, (f m).Sustains P told') :
    (medium >>= f).Sustains P told' :=
  fun m holds => hf m m holds

theorem sustains_ofExcept (x : Except Error α) : (ofExcept x : Access μ α).Sustains P := by
  cases x with
  | error e => exact sustains_fail e
  | ok a => exact sustains_pure _

end Access

namespace RowMedium
open Access Durable
variable {μ α : Type} {P : μ → Prop}

theorem sustains_decoded {x : Except RowDefect α} {told : α → Prop}
    (right : ∀ a, x = .ok a → told a) : (decoded x : Access μ α).Sustains P told := by
  cases x with
  | error defect => exact sustains_fail _
  | ok a => exact sustains_told (right a rfl)

theorem sustains_successor (n : Nat) : (successor n : Access μ Nat).Sustains P := by
  rw [successor]
  split
  · exact sustains_pure _
  · exact sustains_fail _

namespace Sustains
variable {raw : RowMedium μ} (sustains : raw.Sustains P)
include sustains

theorem readCounter (key : Bytes) :
    (raw.readCounter key).Sustains P (· < Layout.wordBound) := by
  refine (sustains.get key).bind fun value _ => ?_
  cases value with
  | none => exact sustains_told (Bytes.capacity_pos 8)
  | some value => exact sustains_decoded fun n read => (Layout.eq_cell_of_readCell read).1

theorem openStore (config : Config) : (raw.openStore config).Sustains P :=
  (sustains.readCounter _).bind fun _ _ => sustains_pure _

/-- Each page ends at a row of the range, and the next range goes on from there. -/
theorem scanPages (pageSize : Nat) {lower upper : Cut Bytes} (proper : lower.Proper upper)
    (fuel : Nat) : (raw.scanPages pageSize upper fuel lower).Sustains P := by
  induction fuel generalizing lower with
  | zero => exact sustains_pure _
  | succ fuel ih =>
    refine (sustains.scan lower upper .forward pageSize proper).bind fun page inside => ?_
    split
    · exact sustains_pure _
    · have rest : Cut.Proper (page.getLast?.elim lower fun (last, _) => .excluded last) upper := by
        cases hlast : page.getLast? with
        | none => exact proper
        | some last => exact Cut.proper_from (inside last (List.mem_of_getLast? hlast)).2
      exact (ih rest).bind fun _ _ => sustains_pure _

theorem scanAll (config : Config) {ends : Cut Bytes × Cut Bytes} (proper : ends.1.Proper ends.2) :
    (raw.scanAll config ends).Sustains P :=
  sustains_medium fun m => sustains.scanPages config.pageSize proper (raw.size m + 1)

theorem begin (config : Config) (now : Nat) : (raw.begin config now).Sustains P :=
  (sustains.readCounter _).bind fun _ _ => (sustains.readCounter _).bind fun _ _ =>
    (sustains_successor _).bind fun _ _ => (sustains.write _).bind fun _ _ =>
      sustains_pure _

theorem heartbeat (now : Nat) (r : Registration) : (raw.heartbeat now r).Sustains P :=
  (sustains.get _).bind fun _ _ => by
    split
    · exact sustains.write _
    · exact sustains_pure _

theorem commit (config : Config) (r : Registration) (reads : ReadFootprint) (writes : WriteSet) :
    (raw.commit config r reads writes).Sustains P := by
  refine (sustains.readCounter _).bind fun current _ => (sustains.get _).bind fun found _ => ?_
  have validated : (do
      let rows ← raw.scanAll config (Layout.logRange r.readVersion none)
      let log ← decoded (rows.mapM readLogRow)
      Access.ofExcept (reads.validate r.readVersion log)
      let version ← successor current
      raw.write (commitBatch version writes)
      return version : Access μ Version).Sustains P :=
    (sustains.scanAll config (Layout.proper_logRange r.readVersion)).bind fun _ _ =>
      (sustains_decoded fun _ _ => trivial).bind fun _ _ => (sustains_ofExcept _).bind fun _ _ =>
        (sustains_successor _).bind fun _ _ => (sustains.write _).bind fun _ _ =>
          sustains_pure _
  have refused : (Access.fail (.conflict r.readVersion current []) : Access μ Unit).Sustains P :=
    sustains_fail _
  dsimp only
  split
  · exact refused.bind fun _ _ => validated
  · exact validated

/-- The horizon comes from a cell or from a ledger row, so it is a word. -/
theorem prune (config : Config) (now : Nat) {version : Version}
    (small : version < Layout.wordBound) : (raw.prune config now version).Sustains P := by
  refine (sustains.scanAll config Layout.proper_ledgerRange).bind fun rows _ =>
    (sustains_decoded fun ledger => fits_of_readLedger).bind fun ledger fits => ?_
  dsimp only
  have word : ((ledger.filter (!·.expired config now)).head?.map
      (·.registration.readVersion)).getD version < Layout.wordBound := by
    cases kept : (ledger.filter (!·.expired config now)).head? with
    | none => exact small
    | some row => exact (fits row (List.mem_filter.1 (List.mem_of_mem_head? kept)).1).1
  have written : ∀ batch : List RawWrite,
      (if !batch.isEmpty then raw.write batch else pure () : Access μ Unit).Sustains P := by
    intro batch
    split
    · exact sustains.write batch
    · exact sustains_pure _
  split
  · next pos =>
    exact (sustains.scanAll config (Layout.proper_logRange_upto pos word)).bind fun _ _ => written _
  · exact (sustains_pure []).bind fun _ _ => written _

theorem finish (config : Config) (now : Nat) (r : Registration) :
    (raw.finish config now r).Sustains P :=
  (sustains.write _).bind fun _ _ => (sustains.readCounter _).bind fun _ small =>
    sustains.prune config now small

theorem stats (config : Config) : (raw.stats config).Sustains P :=
  (sustains.readCounter _).bind fun _ _ =>
    (sustains.scanAll config (Layout.proper_logRange 0)).bind fun _ _ =>
      (sustains_decoded fun _ _ => trivial).bind fun _ _ =>
        (sustains.scanAll config Layout.proper_ledgerRange).bind fun _ _ => sustains_pure _

theorem getAt (s : Snapshot) (key : Bytes) : (raw.getAt s key).Sustains P := by
  have record : (raw.record? s key).Sustains P := by
    refine (sustains.scan _ _ .forward 1 (Layout.proper_seek key s.version)).bind fun page _ => ?_
    cases page.head? with
    | none => exact sustains_pure _
    | some e => exact (sustains_decoded fun _ _ => trivial).bind fun _ _ => sustains_pure _
  exact record.bind fun _ _ => sustains_pure _

theorem nextPage {c : Cursor} (proper : c.Proper) : (raw.nextPage c).Sustains P Cursor.Proper := by
  refine (sustains.scan c.lower c.upper c.direction c.pageSize proper).bind fun page inside =>
    (sustains_decoded fun _ _ => trivial).bind fun _ _ => sustains_told ?_
  refine (Cursor.Proper.acceptAll ?_).release
  split
  · exact Cursor.Proper.beyond (c := { c with exhausted := true }) proper inside
  · exact Cursor.Proper.beyond proper inside

theorem pull (gate : Option Error) (fuel : Nat) {c : Cursor} (proper : c.Proper) {m : μ}
    (holds : P m) : P (raw.pull gate fuel c m).2.2 ∧
      ∀ next ∈ (raw.pull gate fuel c m).2.1, next.Proper := by
  induction fuel generalizing c m with
  | zero => exact ⟨holds, nofun⟩
  | succ fuel ih =>
    unfold RowMedium.pull
    split
    · exact ⟨holds, nofun⟩
    · exact ⟨holds, by rintro _ ⟨⟩; exact proper⟩
    · split
      · exact ⟨holds, nofun⟩
      · obtain ⟨after, fetched⟩ := sustains.nextPage proper m holds
        rcases ran : raw.nextPage c m with ⟨e | c', m'⟩ <;> rw [ran] at after fetched
        · exact ⟨after, nofun⟩
        · exact ih (fetched c' rfl) after

end Sustains

end RowMedium
end OptimisticStore
