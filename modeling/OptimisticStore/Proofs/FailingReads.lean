import OptimisticStore.Proofs.Integrity
import OptimisticStore.Proofs.Interruption
import OptimisticStore.Proofs.Lawful

/-! Reads of a transaction over a durable store whose device fails now and then, by any plan. The
pages fetched so far are settled, so a cursor gives what it owes until a fetch fails, and nothing
afterwards. A scan is then either refused or complete, and a stream gives a first part of what a
device without failures would give. There is one exception: if writes are staged in range and the
first poll of the committed rows fails, the staged writes are given as if the store held nothing
else, and the failure comes behind them; a scan with no more room than for them never meets it.
The first poll fetches pages until one has a row to show, so more than one fetch may go well before
the one that fails. -/

namespace OptimisticStore

theorem Access.onSecond_eq {μ τ α : Type} {x : Access μ α} {r : Except Error α} {m m' : μ}
    (ran : x m = (r, m')) (first : τ) : Access.onSecond x (first, m) = (r, first, m') := by
  simp only [Access.onSecond, ran]

namespace Transaction
variable {μ σ κ : Type} (b : Backend μ σ κ) (t : Transaction σ) (c : Condition)

/-- The failure that a read passes over: writes are staged in range, and the first poll of the
committed rows fails, at whichever of its fetches. -/
def passedOver (gate : Option Error) (m : μ) : Option Error :=
  if t.writes.range c = [] then none
  else match (b.poll gate (b.query t.snapshot c) m).1 with
    | some (.error e) => some e
    | _ => none

variable {b t c} in
theorem passedOver_eq_none_iff {gate : Option Error} {m : μ} :
    t.passedOver b c gate m = none ↔ t.writes.range c = [] ∨
      ∀ e, (b.poll gate (b.query t.snapshot c) m).1 ≠ some (.error e) := by
  rw [passedOver]
  split
  · next idle => simp [idle]
  · next staged =>
    rcases (b.poll gate (b.query t.snapshot c) m).1 with _ | _ | _ <;> simp [staged]

variable {b t c} in
theorem passedOver_eq_some_iff {gate : Option Error} {m : μ} {e : Error} :
    t.passedOver b c gate m = some e ↔ t.writes.range c ≠ [] ∧
      (b.poll gate (b.query t.snapshot c) m).1 = some (.error e) := by
  rw [passedOver]
  split
  · next idle => simp [idle]
  · next staged =>
    rcases (b.poll gate (b.query t.snapshot c) m).1 with _ | _ | _ <;> simp [staged]

theorem prepare_cases (now : Moment) (m : μ) :
    (∃ e after, prepare b now (t, m) = (.error e, after)) ∨
      ∃ last m', prepare b now (t, m) = (.ok (), { t with lastHeartbeat := last }, m') ∧
        now.gate = none ∧ (m' = m ∨ m' = (b.heartbeat now.clock.wall t.registration m).2) := by
  simp only [prepare, Access.bind_apply]
  cases now.gate with
  | some e => exact .inl ⟨e, _, rfl⟩
  | none =>
    simp only [Access.pass, Access.pure_apply, current]
    split
    · rcases sent : b.heartbeat now.clock.wall t.registration m with ⟨e | _, m'⟩ <;>
        simp only [Access.bind_apply, Access.onSecond_eq sent]
      · exact .inl ⟨e, _, rfl⟩
      · exact .inr ⟨now.clock.steady, m', rfl, trivial, .inr rfl⟩
    · exact .inr ⟨t.lastHeartbeat, m, rfl, trivial, .inl rfl⟩

theorem fst_scan {now : Moment} {last : Nat} {m m' : μ}
    (ready : prepare b now (t, m) = (.ok (), { t with lastHeartbeat := last }, m'))
    (limit : Nat) :
    (scan b now c limit (t, m)).1 = ((t.merged b c).take b now.gate limit m').1 := by
  have same : merged b { t with lastHeartbeat := last } c = t.merged b c := rfl
  simp only [scan, Access.bind_apply, ready, current, same]
  rcases taken : (t.merged b c).take b now.gate limit m' with ⟨_ | _, _⟩
  · simp only [Access.onSecond_eq taken]
  · simp only [Access.onSecond_eq taken]
    rfl

theorem fst_query {now : Moment} {last : Nat} {m m' : μ}
    (ready : prepare b now (t, m) = (.ok (), { t with lastHeartbeat := last }, m')) :
    (query b now c (t, m)).1 = .ok (t.merged b c) := by
  simp only [query, Access.bind_apply, ready]
  rfl

end Transaction

namespace Durable
open Device

namespace Cursor

variable {a : Standing} {d : Device}

theorem pull_may {owed : List Row} {c : Cursor} (holds : Holds a d.rows)
    (owes : Owes a.history owed c) {fuel : Nat} (enough : c.left d.rows < fuel) :
    Gives owed (fun rest => ∃ c', (pull none fuel c d).2.1 = some c' ∧ Owes a.history rest c')
      (pull none fuel c d).1 := by
  induction fuel generalizing c d with
  | zero => omega
  | succ fuel ih =>
    rcases ran : c.turn d with ⟨r, d'⟩
    have outcome {r₀ : Except Error (Option Row × Option Cursor)}
        (does : Does c.turn d.rows r₀ d.rows) : Broken r ∨ r = r₀ ∧ d'.rows = d.rows := by
      have cases := (readsOnly_turn c).of_does does rfl
      rw [ran] at cases
      exact cases.imp And.left id
    rw [pull_succ, ran]
    rcases does_turn holds owes with ⟨row, rest, c', does, rfl, after, _⟩ | ⟨does, rfl⟩ |
      ⟨c', does, after, fewer⟩ <;>
      rcases outcome does with ⟨text, rfl⟩ | ⟨rfl, same⟩
    · exact .inl ⟨_, rfl⟩
    · exact .inr ⟨rfl, fun _ => ⟨c', rfl, after⟩⟩
    · exact .inl ⟨_, rfl⟩
    · exact .inr ⟨rfl, fun some_left => absurd rfl some_left⟩
    · exact .inl ⟨_, rfl⟩
    · exact ih (same ▸ holds) after (by rw [same]; omega)

end Cursor

def Owing (h : History) (owed : List Row) (c : Option Cursor) : Prop :=
  ∃ cursor, c = some cursor ∧ Cursor.Owes h owed cursor

theorem Owing.append {h : History} {owed : List Row} {c : Option Cursor} (owing : Owing h owed c)
    (t : History) : Owing (h ++ t) owed c := by
  obtain ⟨cursor, rfl, owes⟩ := owing
  exact ⟨cursor, rfl, owes.append t⟩

variable (config : Config) {h : History}

theorem mayPay : (backend config).MayPay (Stores h) (Owing h) := by
  rintro owed _ d ⟨a, rfl, holds⟩ ⟨cursor, rfl, owes⟩
  have enough : cursor.left d.rows < d.rows.size + 2 := Nat.lt_succ_of_le (cursor.left_le d.rows)
  exact Cursor.pull_may holds owes enough

theorem stores_poll (gate : Option Error) (c : Option Cursor) (d : Device) (stores : Stores h d) :
    Stores h ((backend config).poll gate c d).2.2 :=
  stores.of_rows (Cursor.rows_poll gate c d)

theorem length_le_itemBound (owed : List Row) (c : Option Cursor) (d : Device)
    (stores : Stores h d) (owing : Owing h owed c) :
    owed.length ≤ (backend config).itemBound c d := by
  obtain ⟨a, rfl, holds⟩ := stores
  obtain ⟨cursor, rfl, owes⟩ := owing
  have short := Cursor.length_owed_le holds owes
  have one : cursor.waiting.toList.length ≤ 1 := by cases cursor.waiting <;> simp
  change owed.length ≤ cursor.ready.length + d.rows.size + 1
  omega

/-- At each of these moments the device keeps a store that has the commits of the moments before. -/
def Meets (h : History) : List (Option Error × Device) → Prop
  | [] => True
  | (_, d) :: moments => ∃ t, Stores (h ++ t) d ∧ Meets (h ++ t) moments

theorem poll_shut (e : Error) (c : Option Cursor) (d : Device) (row : Row) :
    ((backend config).poll (some e) c d).1 ≠ some (.ok row) := by
  cases c with
  | none => exact nofun
  | some c => exact pull_shut e _ c d row

theorem drawn_of_left {rows : List Row} {feed : Feed (Option Cursor)}
    (left : feed.Left (Owing h) rows) {moments : List (Option Error × Device)}
    (meets : Meets h moments) : feed.drawn (backend config) moments <+: rows := by
  induction moments generalizing h feed rows with
  | nil => exact List.nil_prefix
  | cons moment moments ih =>
    obtain ⟨gate, d⟩ := moment
    obtain ⟨t, stores, meets⟩ := meets
    refine Feed.drawn_prefix (fun rest feed => feed.Left (Owing (h ++ t)) rest)
      (poll_shut config) ?_ fun _ _ left => ih left meets
    rintro -
    rcases left with underway | ⟨e, cut⟩
    · have underway := underway.mono fun _ _ (owing : Owing h _ _) => owing.append t
      exact (Feed.poll_may (mayPay config) (stores_poll config) (length_le_itemBound config)
        stores underway).mono fun _ => .inl
    · exact Feed.gives_of_cut (Feed.poll_cut cut d)

section Transactions
variable {d : Device} {t : Transaction Snapshot}
  (current : t.snapshot.version ≤ h.length) (paged : 0 < t.snapshot.pageSize)
include current paged

theorem owing_query (stores : Stores h d) (c : Condition) :
    Owing h (c.select (h.state t.snapshot.version)) ((backend config).query t.snapshot c) := by
  obtain ⟨a, rfl, holds⟩ := stores
  exact ⟨_, rfl, Cursor.owes_ofSnapshot holds t.snapshot current paged c⟩

theorem poll_merged (stores : Stores h d) (c : Condition) :
    let feed := t.merged (backend config) c
    match t.passedOver (backend config) c none d with
    | none =>
      Gives (c.select (t.writes.onto (h.state t.snapshot.version)))
        (fun rest => (feed.poll (backend config) none d).2.1.Underway (Owing h) rest)
        (feed.poll (backend config) none d).1
    | some e =>
      let rows := c.select (t.writes.onto ∅)
      (feed.poll (backend config) none d).1 = some (rows.head?.elim (.error e) .ok) ∧
        (rows ≠ [] → (feed.poll (backend config) none d).2.1.Cut e rows.tail) := by
  have owing := owing_query config current paged stores c
  dsimp only
  cases passed : t.passedOver (backend config) c none d with
  | none =>
    exact Feed.poll_start (mayPay config) (stores_poll config) (length_le_itemBound config) stores
      owing t.writes (Transaction.passedOver_eq_none_iff.1 passed)
  | some e =>
    obtain ⟨staged, failed⟩ := Transaction.passedOver_eq_some_iff.1 passed
    exact Feed.poll_start_cut failed staged

theorem take_merged (stores : Stores h d) (c : Condition) (limit : Nat) :
    let r := ((t.merged (backend config) c).take (backend config) none limit d).1
    match t.passedOver (backend config) c none d with
    | none => (∃ e, r = .error e) ∨
        r = .ok ((c.select (t.writes.onto (h.state t.snapshot.version))).take limit)
    | some e =>
      let own := c.select (t.writes.onto ∅)
      r = if limit ≤ own.length then .ok (own.take limit) else .error e := by
  have first := poll_merged config current paged stores c
  dsimp only at first ⊢
  cases passed : t.passedOver (backend config) c none d with
  | none =>
    rw [passed] at first
    exact Feed.take_may (mayPay config) (stores_poll config) (length_le_itemBound config) stores
      first limit
  | some e =>
    rw [passed] at first
    exact Feed.take_cut first limit

theorem drawn_merged (c : Condition) {gate : Option Error} {moments : List (Option Error × Device)}
    (meets : Meets h ((gate, d) :: moments)) :
    (t.merged (backend config) c).drawn (backend config) ((gate, d) :: moments) <+:
      match t.passedOver (backend config) c gate d with
      | none => c.select (t.writes.onto (h.state t.snapshot.version))
      | some _ => c.select (t.writes.onto ∅) := by
  obtain ⟨t', stores, meets⟩ := meets
  have later : t.snapshot.version ≤ (h ++ t').length := by
    rw [List.length_append]
    exact Nat.le_add_right_of_le current
  have first := poll_merged config later paged stores c
  rw [History.state_append t' current] at first
  refine Feed.drawn_prefix (fun rest feed => feed.Left (Owing (h ++ t')) rest)
    (poll_shut config) ?_ fun _ _ left => drawn_of_left config left meets
  rintro rfl
  dsimp only at first ⊢
  cases passed : t.passedOver (backend config) c none d with
  | none =>
    rw [passed] at first
    exact first.mono fun _ => .inl
  | some e =>
    rw [passed] at first
    exact Feed.gives_of_cut first

/-- On a device that may fail at any call. If no failure is passed over, a scan that is answered
has its rows in full, and a stream gives a first part of what the transaction sees, also if others
commit between its polls. Else both give the transaction's own writes alone, and a scan tells the
failure only if it has room for more than these. -/
theorem reads_interrupted (stores : Stores h d) (now : Moment) (c : Condition) :
    let b := backend config
    let ready := Transaction.prepare b now (t, d)
    let all := c.select (t.writes.onto (h.state t.snapshot.version))
    let own := c.select (t.writes.onto ∅)
    (∀ limit,
      let r := (Transaction.scan b now c limit (t, d)).1
      match t.passedOver b c now.gate ready.2.2 with
      | none => (∃ e, r = .error e) ∨ r = .ok (all.take limit)
      | some e => (∃ e', ready.1 = .error e' ∧ r = .error e') ∨
          r = if limit ≤ own.length then .ok (own.take limit) else .error e) ∧
    ∀ feed, (Transaction.query b now c (t, d)).1 = .ok feed →
      ∀ gate d' moments, Meets h ((gate, d') :: moments) →
        feed.drawn b ((gate, d') :: moments) <+:
          match t.passedOver b c gate d' with
          | none => all
          | some _ => own := by
  dsimp only
  rcases Transaction.prepare_cases (backend config) t now d with ⟨e, after, refused⟩ |
    ⟨last, d', ready, isOpen, sent⟩
  · have scan (limit : Nat) : (Transaction.scan (backend config) now c limit (t, d)).1 =
        .error e := by rw [Transaction.scan, Access.bind_apply, refused]
    have query : (Transaction.query (backend config) now c (t, d)).1 = .error e := by
      rw [Transaction.query, Access.bind_apply, refused]
    constructor
    · intro limit
      rw [scan, refused]
      split
      · exact .inl ⟨e, rfl⟩
      · exact .inl ⟨e, rfl, rfl⟩
    · intro feed opened
      rw [query] at opened
      cases opened
  · have stores' : Stores h d' := by
      rcases sent with rfl | rfl
      · exact stores
      · exact stores.heartbeat now.clock.wall t.registration
    constructor
    · intro limit
      have taken := take_merged config current paged stores' c limit
      rw [Transaction.fst_scan (backend config) t c ready, ready, isOpen]
      dsimp only at taken ⊢
      split
      · next passed =>
        rw [passed] at taken
        exact taken
      · next e passed =>
        rw [passed] at taken
        exact .inr taken
    · intro feed opened gate d'' moments meets
      rw [Transaction.fst_query (backend config) t c ready] at opened
      cases opened
      exact drawn_merged config current paged c meets

end Transactions

def storeOfOne : List Request :=
  [.begin 0, .commit ⟨0, 1⟩ {} (.ofList [([97], some [49])]), .begin 0]

def sampleReader : Transaction Snapshot :=
  { serial := 0, registration := ⟨1, 2⟩, snapshot := ⟨1, 1⟩, liveness := .always,
    writes := .ofList [([98], some [50])], lastHeartbeat := 0 }

def sampleMoment : Moment :=
  { closed := none, stopped := none, clock := ⟨0, 0⟩, heartbeatInterval := .ofSeconds 1 }

def failingAfter (pages : Nat) (d : Device) : Device := { d with onScan := .after pages "gone" }

theorem rows_failingAfter (pages : Nat) (d : Device) : (failingAfter pages d).rows = d.rows := rfl

def failingStore (pages : Nat) : Device :=
  failingAfter pages ((clientOn {} {}).after storeOfOne).medium

theorem stores_failingStore (pages : Nat) :
    Stores ((clientOn {} {}).history storeOfOne) (failingStore pages) := by
  obtain ⟨a, same, holds⟩ := (endures_clientOn {} {} storeOfOne).exists_holds
  refine ⟨a, same, ?_⟩
  rw [failingStore, rows_failingAfter]
  exact holds

/-- The first page is fetched, and the second one fails: a scan of one row has its row. -/
theorem reads_interrupted_sample :
    let h := (clientOn {} {}).history storeOfOne
    (sampleReader.snapshot.version ≤ h.length ∧ 0 < sampleReader.snapshot.pageSize ∧
      Stores h (failingStore 1)) ∧
    ∀ limit,
      let r := (Transaction.scan (backend {}) sampleMoment .all limit
        (sampleReader, failingStore 1)).1
      (∃ e, r = .error e) ∨
        r = .ok ((Condition.all.select (sampleReader.writes.onto (h.state 1))).take limit) := by
  have current : sampleReader.snapshot.version ≤ ((clientOn {} {}).history storeOfOne).length := by
    decide +kernel
  have stores := stores_failingStore 1
  have scan := (reads_interrupted {} current Nat.one_pos stores sampleMoment .all).1
  have fetched : sampleReader.passedOver (backend {}) .all sampleMoment.gate
      (Transaction.prepare (backend {}) sampleMoment
        (sampleReader, failingStore 1)).2.2 = none := by
    decide +kernel
  refine ⟨⟨current, Nat.one_pos, stores⟩, fun limit => ?_⟩
  have answered := scan limit
  rw [fetched] at answered
  exact answered

/-- If even the first page fails, the staged row is given where the committed one should be. -/
theorem own_row_instead_of_missing_row :
    let h := (clientOn {} {}).history storeOfOne
    (Transaction.scan (backend {}) sampleMoment .all 1 (sampleReader, failingStore 0)).1.toOption =
        some [([98], [50])] ∧
      (Condition.all.select (sampleReader.writes.onto (h.state 1))).take 1 = [([97], [49])] := by
  decide +kernel

end Durable
end OptimisticStore
