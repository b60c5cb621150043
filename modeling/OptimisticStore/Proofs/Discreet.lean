import OptimisticStore.Proofs.Conflicts
import OptimisticStore.Proofs.Discretion
import OptimisticStore.Proofs.Faults
import OptimisticStore.Proofs.Lawful
import OptimisticStore.Proofs.Ledger

/-! Both stores are discreet. In memory a registration is seated until it ends or is given up. On
a device that never fails it is seated as long as its ledger row is there, and so it may lose its
seat while it still runs. Two cursors at one place of two devices read the same pages, since their
data rows are those of the one history. -/

namespace OptimisticStore

namespace Keyspace

def Numbers (h : History) (n : Nat) (s : Keyspace) : Prop :=
  ∃ a : Standing, a.history = h ∧ a.lastTxnId = n ∧ Holds a s

def seat (r : Registration) (s : Keyspace) : Option Unit :=
  if r ∈ s.running then some () else none

section Seats
variable {a : Standing} {s s' : Keyspace} (holds : Holds a s)
include holds

theorem seat_begun (after : Holds a.begun s') (q : Registration) :
    seat q s' = if q = a.next then some () else seat q s := by
  have running : q ∈ s'.running ↔ q ∈ s.running ∨ q = a.next := by
    rw [after.running, holds.running]
    simp [Standing.begun]
  rw [seat, seat]
  by_cases new : q = a.next
  · rw [if_pos (running.2 (.inr new)), if_pos new]
  · simp only [running, new, or_false, if_false]

theorem seat_restrict {r : Registration} (after : Holds (a.restrict (· ≠ r)) s')
    (q : Registration) : seat q s' = if q = r then none else seat q s := by
  have running : q ∈ s'.running ↔ q ∈ s.running ∧ q ≠ r := by
    rw [after.running, holds.running]
    simp [Standing.restrict]
  rw [seat, seat]
  by_cases left : q = r
  · rw [if_pos left, if_neg fun mem => (running.1 mem).2 left]
  · simp only [running, left, ne_eq, not_false_eq_true, and_true, if_false]

theorem running_of_seat {r : Registration} (seated : (seat r s).isSome = true) :
    r ∈ a.running := by
  rw [seat] at seated
  split at seated
  · next mem => exact holds.running ▸ mem
  · cases seated

end Seats

theorem running_commit (r : Registration) (reads : ReadFootprint) (w : WriteSet) (s : Keyspace) :
    (commit r reads w s).2.running = s.running := by
  rw [commit]
  split
  · split <;> rfl
  · rfl

def discretion : Discretion backend Unit where
  holds := Numbers
  sees := Sees
  reads _ _ n w := w.toList.length = n
  seat := seat
  room _ := True
  full := .attemptEnded
  first h := ⟨h.length, h.state h.length⟩
  fresh _ := ()
  keeps _ _ := true
  leaves _ := none
  verdict h v reads _ := h.answer ⟨v, 0⟩ reads
  room_le _ _ := trivial
  sees_first _ := ⟨Nat.le_refl _, rfl⟩
  sees_append t _ sees := sees.append t
  reads_append _ _ same := same
  begin := by
    rintro _ _ s now ⟨a, rfl, rfl, holds⟩ _
    obtain ⟨s', ran, after⟩ := holds.begin_eq
    have ran : backend.begin now s = _ := ran
    rw [ran]
    exact ⟨rfl, ⟨a.begun, rfl, rfl, after⟩, seat_begun holds after⟩
  begin_full _ _ full := absurd trivial full
  heartbeat := by
    rintro h n s now r numbers _
    refine ⟨rfl, numbers, fun q => ?_⟩
    change seat q s = _
    split
    · cases seat q s <;> rfl
    · rfl
  commit := by
    rintro _ _ s r reads w ⟨a, rfl, rfl, holds⟩ _ seated
    exact commit_answer holds (running_of_seat holds seated) reads w
  commit_ok := by
    rintro _ _ s r reads w v ⟨a, rfl, rfl, holds⟩ committed
    have committed : (commit r reads w s).1 = .ok v := committed
    have registered : r ∈ a.running := by
      rw [← holds.running]
      exact List.contains_iff_mem.1 (commit_registered (Prod.ext committed rfl))
    change Numbers _ _ (commit r reads w s).2
    cases valid : reads.validate r.readVersion a.history.log with
    | error e =>
      rw [holds.commit_error registered valid w] at committed
      cases committed
    | ok =>
      rw [holds.commit_ok registered valid w]
      exact ⟨a.committed w, rfl, rfl, holds.apply registered w⟩
  commit_error := by
    rintro _ _ s r reads w e ⟨a, rfl, rfl, holds⟩ refused
    have refused : (commit r reads w s).1 = .error e := refused
    change Numbers _ _ (commit r reads w s).2
    by_cases registered : r ∈ a.running
    · cases valid : reads.validate r.readVersion a.history.log with
      | error e =>
        rw [holds.commit_error registered valid w]
        exact ⟨a, rfl, rfl, holds⟩
      | ok =>
        rw [holds.commit_ok registered valid w] at refused
        cases refused
    · rw [holds.commit_of_not_running registered]
      exact ⟨a, rfl, rfl, holds⟩
  commit_seat := by
    intro h n s r reads w _ q
    change (if q ∈ (commit r reads w s).2.running then some () else none) = _
    rw [running_commit]
    rfl
  finish := by
    rintro _ _ s now r ⟨a, rfl, rfl, holds⟩ _
    have after := holds.withdraw_prune r
    refine ⟨⟨a.restrict (· ≠ r), rfl, rfl, after⟩, fun q => ?_⟩
    have kept : (seat q s).filter (fun _ => true) = seat q s := by cases seat q s <;> rfl
    exact (seat_restrict holds after q).trans (by rw [kept])
  abandon := by
    rintro _ _ s r ⟨a, rfl, rfl, holds⟩
    have after := holds.abandon r
    refine ⟨⟨a.restrict (· ≠ r), rfl, rfl, after⟩, fun q => ?_⟩
    have gone : (seat q s).bind (fun _ => (none : Option Unit)) = none := by
      cases seat q s <;> rfl
    exact (seat_restrict holds after q).trans (by rw [gone])
  stats := by
    rintro _ _ s ⟨a, rfl, rfl, holds⟩
    exact ⟨_, rfl, holds.version⟩
  stats_still _ := ⟨fun _ _ holds => holds, fun _ => rfl⟩
  close _ := ⟨rfl, fun _ _ holds => holds, fun _ => rfl⟩
  get key _ sees := by
    rw [← sees.2]
    rfl
  get_still _ _ _ := ⟨fun _ _ holds => holds, fun _ => rfl⟩
  query _ _ _ := ⟨_, rfl⟩
  poll := by
    rintro h n n' v k s s' w gate _ _ rfl
    refine ⟨(Keyspace.poll gate w).1, (Keyspace.poll gate w).2, s, s', _, rfl, rfl, trivial, rfl,
      ?_⟩
    rw [Keyspace.poll]
    cases found : w.next with
    | none => exact Nat.le_refl _
    | some e =>
      obtain ⟨row, rest⟩ := e
      rw [Walk.toList_of_next_eq_some found]
      exact Nat.le_refl _
  poll_still _ _ _ := ⟨fun _ _ holds => holds, fun _ => rfl⟩
  bounded := by
    rintro h n v k s w _ rfl
    exact Nat.le_succ_of_le (length_toList_le w)

end Keyspace
namespace Durable
open Device Layout

namespace Cursor
variable {a a' : Standing} {rows rows' : RawRows} {c : Cursor}

theorem page_eq (holds : Holds a rows) (holds' : Holds a' rows') (same : a'.history = a.history)
    (inside : ∀ raw, c.lower.Below raw → c.upper.Above raw → region raw = some 1) :
    c.page rows' = c.page rows := by
  have between :
      OrderedMap.between rows' c.lower c.upper = OrderedMap.between rows c.lower c.upper := by
    apply entries_eq_of_mem_iff (rows'.pairwise_between _ _) (rows.pairwise_between _ _)
    intro e
    rw [OrderedMap.mem_between, OrderedMap.mem_between]
    refine and_congr_left fun ⟨lower, upper⟩ => ?_
    rw [holds'.data e (inside e.1 lower upper), holds.data e (inside e.1 lower upper), same]
  rw [page, page, between]

def next (c : Cursor) (rows : RawRows) : Option Row × Option Cursor :=
  match c.ready with
  | row :: ready => (some row, some { c with ready })
  | [] => if c.exhausted then (none, none)
    else (none, some (c.turned ((c.page rows).take c.pageSize)))

theorem does_next (holds : Holds a rows) {owed : List Row} (owes : Owes a.history owed c) :
    Does c.turn rows (.ok (c.next rows)) rows := by
  rw [turn, next]
  cases c.ready with
  | cons row ready => exact does_pure _
  | nil =>
    dsimp only
    split
    · exact does_pure _
    · exact (does_nextPage holds owes).bind (does_pure _)

theorem next_cases (holds : Holds a rows) {owed : List Row} (owes : Owes a.history owed c) :
    (∃ row rest c', c.next rows = (some row, some c') ∧ owed = row :: rest ∧
      Owes a.history rest c' ∧ c'.left rows = c.left rows) ∨
    (c.next rows = (none, none) ∧ owed = []) ∨
    ∃ c', c.next rows = (none, some c') ∧ Owes a.history owed c' ∧ c'.left rows < c.left rows := by
  obtain ⟨d', ran, _⟩ := does_next holds owes { rows } ⟨fun _ => rfl, fun _ => rfl, fun _ => rfl,
    fun _ => rfl⟩ rfl
  have once {out : Option Row × Option Cursor} (does : Does c.turn rows (.ok out) rows) :
      c.next rows = out := by
    obtain ⟨d'', ran', _⟩ := does { rows } ⟨fun _ => rfl, fun _ => rfl, fun _ => rfl,
      fun _ => rfl⟩ rfl
    rw [ran] at ran'
    exact Except.ok.inj (Prod.mk.inj ran').1
  rcases does_turn holds owes with ⟨row, rest, c', does, owed, after, left⟩ | ⟨does, owed⟩ |
    ⟨c', does, after, fewer⟩
  · exact .inl ⟨row, rest, c', once does, owed, after, left⟩
  · exact .inr (.inl ⟨once does, owed⟩)
  · exact .inr (.inr ⟨c', once does, after, fewer⟩)

theorem pull_both {owed : List Row} {fuel fuel' : Nat} {d d' : Device} (holds : Holds a d.rows)
    (holds' : Holds a' d'.rows) (same : a'.history = a.history) (faultless : d.Faultless)
    (faultless' : d'.Faultless) (owes : Owes a.history owed c) (enough : c.left d.rows < fuel)
    (enough' : c.left d.rows < fuel') :
    ∃ next d₁ d₁', pull none fuel c d = (owed.head?.map .ok, next, d₁) ∧
      pull none fuel' c d' = (owed.head?.map .ok, next, d₁') ∧ (owed = [] → next = none) ∧
      (owed ≠ [] → ∃ c', next = some c' ∧ Owes a.history owed.tail c') := by
  induction fuel generalizing fuel' c d d' with
  | zero => omega
  | succ fuel ih =>
    obtain ⟨fuel', rfl⟩ := Nat.exists_eq_add_one_of_ne_zero (Nat.ne_zero_of_lt enough')
    obtain ⟨d₁, ran, faultless₁, rows₁⟩ := does_next holds owes d faultless rfl
    obtain ⟨d₁', ran', faultless₁', rows₁'⟩ :=
      does_next holds' (same ▸ owes) d' faultless' rfl
    have alike : c.next d'.rows = c.next d.rows := by
      rw [next, next, page_eq holds holds' same owes.inside]
    rw [pull_succ, pull_succ, ran, ran', alike]
    rcases next_cases holds owes with ⟨row, rest, c', next, rfl, after, _⟩ | ⟨next, rfl⟩ |
      ⟨c', next, after, fewer⟩ <;> rw [next]
    · exact ⟨some c', d₁, d₁', rfl, rfl, nofun, fun _ => ⟨c', rfl, after⟩⟩
    · exact ⟨none, d₁, d₁', rfl, rfl, fun _ => rfl, fun some_left => absurd rfl some_left⟩
    · exact ih (rows₁.symm ▸ holds) (rows₁'.symm ▸ holds') faultless₁ faultless₁' after
        (by rw [rows₁]; omega) (by rw [rows₁]; omega)

end Cursor

/-- A cursor that is gone gives nothing more. Any other has at most one item more than its rows,
as a closed gate takes the place of all of them. -/
def Lasts (h : History) (n : Nat) (c : Option Cursor) : Prop :=
  c = none ∧ n = 0 ∨
    ∃ cursor owed, c = some cursor ∧ Cursor.Owes h owed cursor ∧ n = owed.length + 1

def Numbers (h : History) (n : Nat) (d : Device) : Prop :=
  ∃ a : Standing, a.history = h ∧ a.lastTxnId = n ∧ Holds a d.rows ∧ Mirrors a d.rows ∧ d.Faultless

section Polls
variable {config : Config} {h : History} {n n' k : Nat} {d d' : Device}

theorem Lasts.poll {c : Option Cursor} (lasts : Lasts h k c) (numbers : Numbers h n d)
    (numbers' : Numbers h n' d') (gate : Option Error) :
    Alike (fun _ _ => True) (Lasts h) k (Cursor.poll gate c d) (Cursor.poll gate c d') := by
  obtain ⟨a, rfl, _, holds, _, faultless⟩ := numbers
  obtain ⟨a', same, _, holds', _, faultless'⟩ := numbers'
  rcases lasts with ⟨rfl, rfl⟩ | ⟨cursor, owed, rfl, owes, rfl⟩
  · exact ⟨none, none, d, d', 0, rfl, rfl, trivial, .inl ⟨rfl, rfl⟩, Nat.le_refl _⟩
  · cases gate with
    | some e =>
      exact ⟨some (.error e), none, d, d', 0, rfl, rfl, trivial, .inl ⟨rfl, rfl⟩, by simp⟩
    | none =>
      have bound := cursor.left_le d'.rows
      rw [Cursor.left, Cursor.page_eq holds holds' same owes.inside, ← Cursor.left] at bound
      obtain ⟨next, d₁, d₁', ran, ran', ended, goes_on⟩ := Cursor.pull_both holds holds' same
        faultless faultless' owes (Nat.lt_succ_of_le (cursor.left_le d.rows))
        (Nat.lt_succ_of_le bound)
      cases owed with
      | nil =>
        obtain rfl := ended rfl
        exact ⟨none, none, d₁, d₁', 0, ran, ran', trivial, .inl ⟨rfl, rfl⟩, Nat.zero_le _⟩
      | cons row rest =>
        obtain ⟨c', rfl, after⟩ := goes_on (by simp)
        exact ⟨some (.ok row), some c', d₁, d₁', _, ran, ran', trivial,
          .inr ⟨c', rest, rfl, after, rfl⟩, Nat.le_refl _⟩

theorem Lasts.append {c : Option Cursor} (lasts : Lasts h k c) (t : History) :
    Lasts (h ++ t) k c := by
  rcases lasts with gone | ⟨cursor, owed, same, owes, count⟩
  · exact .inl gone
  · exact .inr ⟨cursor, owed, same, owes.append t, count⟩

end Polls

section Operations
variable {config : Config} {h : History} {n : Nat} {d : Device} {r : Registration}

theorem fits_of_issued {a : Standing} {rows : RawRows} (holds : Holds a rows)
    (issued : r.Issued a.history a.lastTxnId) : r.Fits :=
  ⟨Nat.lt_of_le_of_lt issued.version holds.length_lt,
    Nat.lt_of_le_of_lt issued.number holds.lastTxnId.1⟩

theorem Numbers.access {α : Type} {x : Access Device α} {a : Standing} {rows : RawRows}
    {out : Except Error α} (faultless : d.Faultless) (does : Does x d.rows out rows)
    (holds : Holds a rows) (mirrors : Mirrors a rows) :
    (x d).1 = out ∧ Numbers a.history a.lastTxnId (x d).2 ∧ (x d).2.rows = rows := by
  obtain ⟨d', ran, faultless', rfl⟩ := does d faultless rfl
  rw [ran]
  exact ⟨rfl, ⟨a, rfl, rfl, holds, mirrors, faultless'⟩, rfl⟩

theorem still_of_rows {d' : Device} (rows : d'.rows = d.rows)
    (faultless : d.Faultless → d'.Faultless) :
    Still Numbers (fun r d => seat d.rows r) d d' where
  holds := by
    rintro _ _ ⟨a, rfl, rfl, holds, mirrors, sound⟩
    exact ⟨a, rfl, rfl, rows.symm ▸ holds, rows.symm ▸ mirrors, faultless sound⟩
  seat r := by rw [rows]

theorem still_of_readsOnly {α : Type} {x : Access Device α} (reads : ReadsOnly x) (d : Device) :
    Still Numbers (fun r d => seat d.rows r) d (x d).2 :=
  still_of_rows (reads.unchanged d) (reads.faultless d)

theorem Numbers.begin (numbers : Numbers h n d) (config : Config) (now : Nat)
    (room : n + 1 < wordBound) :
    (Durable.begin config now d).1 = .ok (⟨h.length, n + 1⟩, ⟨h.length, config.pageSize⟩) ∧
      Numbers h (n + 1) (Durable.begin config now d).2 ∧
      ∀ q, seat (Durable.begin config now d).2.rows q =
        if q = ⟨h.length, n + 1⟩ then some (cell now) else seat d.rows q := by
  obtain ⟨a, rfl, rfl, holds, mirrors, faultless⟩ := numbers
  have log (v i : Nat) : (d.rows.apply [.put txnIdKey (cell (a.lastTxnId + 1)),
      .put (ledgerKey a.next) (cell now)]).get? (logKey v i) = d.rows.get? (logKey v i) := by
    apply RawRows.get?_apply_of_absent
    intro u mem
    rcases List.mem_cons.1 mem with rfl | mem
    · exact nofun
    · cases List.mem_singleton.1 mem
      exact nofun
  have horizon : a.horizon ≤ a.begun.horizon := Nat.le_of_eq a.horizon_begun.symm
  obtain ⟨answer, after, rows⟩ := Numbers.access faultless (does_begin_put holds config now room)
    (holds.begun room now) (mirrors.of_log rfl horizon log)
  refine ⟨answer, after, fun q => ?_⟩
  rw [rows]
  exact seat_begun ⟨holds.length_lt, room⟩ _ _ q

theorem Numbers.begin_full (numbers : Numbers h n d) (config : Config) (now : Nat)
    (full : ¬ n + 1 < wordBound) :
    (Durable.begin config now d).1 = .error (.storage .counterFull) ∧
      Still Numbers (fun r d => seat d.rows r) d (Durable.begin config now d).2 := by
  obtain ⟨a, _, rfl, holds, _, faultless⟩ := numbers
  obtain ⟨d', ran, faultless', rows⟩ := does_begin_full holds config now full d faultless rfl
  rw [ran]
  exact ⟨rfl, still_of_rows rows fun _ => faultless'⟩

theorem Numbers.heartbeat (numbers : Numbers h n d) (now : Nat) (issued : r.Issued h n) :
    (Durable.heartbeat now r d).1 = .ok () ∧ Numbers h n (Durable.heartbeat now r d).2 ∧
      ∀ q, seat (Durable.heartbeat now r d).2.rows q =
        if q = r then (seat d.rows q).map fun _ => cell now else seat d.rows q := by
  obtain ⟨a, rfl, rfl, holds, mirrors, faultless⟩ := numbers
  have fits := fits_of_issued holds issued
  by_cases registered : (d.rows.get? (ledgerKey r)).isSome
  · have log (v i : Nat) : (d.rows.apply [.put (ledgerKey r) (cell now)]).get? (logKey v i) =
        d.rows.get? (logKey v i) := by
      apply RawRows.get?_apply_of_absent
      intro u mem
      cases List.mem_singleton.1 mem
      exact nofun
    obtain ⟨answer, after, rows⟩ := Numbers.access faultless (does_heartbeat_put registered now)
      (holds.renewed registered now) (mirrors.of_log rfl (Nat.le_refl _) log)
    refine ⟨answer, after, fun q => ?_⟩
    rw [rows, seat_write fits (.put (ledgerKey r) (cell now)) rfl q]
    split
    · next same =>
      obtain ⟨heartbeat, found⟩ := Option.isSome_iff_exists.1 registered
      rw [same, seat_of_fits fits, found]
      rfl
    · rfl
  · obtain ⟨answer, after, rows⟩ := Numbers.access faultless (does_heartbeat_idle registered now)
      holds mirrors
    refine ⟨answer, after, fun q => ?_⟩
    rw [rows]
    split
    · next same =>
      have empty : d.rows.get? (ledgerKey r) = none := by simpa using registered
      rw [same, seat_of_fits fits, empty]
      rfl
    · rfl

theorem Numbers.commit (numbers : Numbers h n d) (pos : 0 < config.pageSize) (r : Registration)
    (reads : ReadFootprint) (w : WriteSet) :
    ((∃ e, (Durable.commit config r reads w d).1 = .error e ∧
        Numbers h n (Durable.commit config r reads w d).2) ∨
      ∃ v, (Durable.commit config r reads w d).1 = .ok v ∧
        Numbers (h ++ [w]) n (Durable.commit config r reads w d).2) ∧
    ∀ q, seat (Durable.commit config r reads w d).2.rows q = seat d.rows q := by
  obtain ⟨a, rfl, rfl, holds, mirrors, faultless⟩ := numbers
  have refused {e : Error}
      (does : Does (Durable.commit config r reads w) d.rows (.error e) d.rows) :
      (∃ e, (Durable.commit config r reads w d).1 = .error e ∧
        Numbers a.history a.lastTxnId (Durable.commit config r reads w d).2) ∧
      (Durable.commit config r reads w d).2.rows = d.rows := by
    obtain ⟨answer, after, rows⟩ := Numbers.access faultless does holds mirrors
    exact ⟨⟨e, answer, after⟩, rows⟩
  by_cases registered : (d.rows.get? (ledgerKey r)).isSome
  · cases valid : reads.validate r.readVersion (logSince d.rows r.readVersion) with
    | error e =>
      obtain ⟨after, rows⟩ := refused (does_commit_error holds pos registered valid)
      exact ⟨.inl after, fun q => by rw [rows]⟩
    | ok =>
      by_cases room : a.history.length + 1 < wordBound
      · obtain ⟨s, running, _⟩ := (holds.registered_iff r).1 registered
        obtain ⟨answer, after, rows⟩ := Numbers.access faultless
          (does_commit_put holds pos registered valid room) (holds.committed running room w)
          (mirrors.committed running w)
        refine ⟨.inr ⟨_, answer, after⟩, fun q => ?_⟩
        rw [rows]
        exact seat_commitBatch _ w q
      · obtain ⟨after, rows⟩ := refused (does_commit_full holds pos registered valid room)
        exact ⟨.inl after, fun q => by rw [rows]⟩
  · obtain ⟨after, rows⟩ := refused (does_commit_unregistered holds (by simpa using registered))
    exact ⟨.inl after, fun q => by rw [rows]⟩

theorem Numbers.commit_answer (numbers : Numbers h n d) (pos : 0 < config.pageSize)
    (issued : r.Issued h n) (seated : (seat d.rows r).isSome = true) (reads : ReadFootprint)
    (w : WriteSet) : (Durable.commit config r reads w d).1 = verdict h r.readVersion reads w := by
  obtain ⟨a, rfl, rfl, holds, mirrors, faultless⟩ := numbers
  have fits := fits_of_issued holds issued
  rw [seat_of_fits fits] at seated
  obtain ⟨s, running, keys⟩ := (holds.registered_iff r).1 seated
  obtain rfl := ledgerKey_inj fits (holds.fits running) keys
  have full := validate_mirrored holds mirrors running reads
  rw [verdict, ← full]
  cases valid : reads.validate r.readVersion (logSince d.rows r.readVersion) with
  | error e =>
    obtain ⟨d', ran, _⟩ := does_commit_error holds pos seated valid d faultless rfl
    rw [ran]
  | ok =>
    by_cases room : a.history.length + 1 < wordBound
    · obtain ⟨d', ran, _⟩ := does_commit_put (w := w) holds pos seated valid room d faultless rfl
      rw [ran]
      exact (if_pos room).symm
    · obtain ⟨d', ran, _⟩ := does_commit_full (w := w) holds pos seated valid room d faultless rfl
      rw [ran]
      exact (if_neg room).symm

theorem Numbers.finish (numbers : Numbers h n d) (pos : 0 < config.pageSize) (now : Nat)
    (issued : r.Issued h n) :
    Numbers h n (Durable.finish config now r d).2 ∧
    ∀ q, seat (Durable.finish config now r d).2.rows q =
      if q = r then none else (seat d.rows q).filter (keepsSeat config now) := by
  obtain ⟨a, rfl, rfl, holds, mirrors, faultless⟩ := numbers
  have fits := fits_of_issued holds issued
  have withdrawn := holds.withdrawn r
  have mirrored := mirrors.shed holds.sound (sheds_ledgerKey a r)
  obtain ⟨dropped, sheds, _, does⟩ := does_finish_delete holds pos now r
  obtain ⟨_, after, rows⟩ := Numbers.access faultless does (withdrawn.sheds sheds)
    (mirrored.shed withdrawn.sound sheds)
  refine ⟨after, fun q => ?_⟩
  rw [rows, seat_shed withdrawn sheds, seat_write fits (.delete (ledgerKey r)) rfl q]
  split
  · rfl
  · rfl

end Operations

def discretion (config : Config) (pos : 0 < config.pageSize) :
    Discretion (backend config) Bytes where
  holds := Numbers
  sees := Sees
  reads h _ := Lasts h
  seat r d := seat d.rows r
  room n := n + 1 < wordBound
  full := .storage .counterFull
  first h := ⟨h.length, config.pageSize⟩
  fresh := cell
  keeps := keepsSeat config
  leaves := some
  verdict := verdict
  room_le := by
    intro n k few room
    omega
  sees_first _ := ⟨rfl, Nat.le_refl _, pos⟩
  sees_append t _ sees := sees.append t
  reads_append t _ lasts := lasts.append t
  begin now numbers room := numbers.begin config now room
  begin_full now numbers full := numbers.begin_full config now full
  heartbeat now _ numbers issued := numbers.heartbeat now issued
  commit reads w numbers issued seated := numbers.commit_answer pos issued seated reads w
  commit_ok := by
    intro h n d r reads w v numbers committed
    have committed : (Durable.commit config r reads w d).1 = .ok v := committed
    rcases (numbers.commit pos r reads w).1 with ⟨e, refused, _⟩ | ⟨_, _, after⟩
    · rw [committed] at refused
      cases refused
    · exact after
  commit_error := by
    intro h n d r reads w e numbers refused
    have refused : (Durable.commit config r reads w d).1 = .error e := refused
    rcases (numbers.commit pos r reads w).1 with ⟨_, _, after⟩ | ⟨v, committed, _⟩
    · exact after
    · rw [refused] at committed
      cases committed
  commit_seat r reads w numbers := (numbers.commit pos r reads w).2
  finish now _ numbers issued := numbers.finish pos now issued
  abandon r numbers := by
    refine ⟨numbers, fun q => ?_⟩
    have kept (seat : Option Bytes) : seat.bind some = seat := by cases seat <;> rfl
    rw [kept, ite_self]
    rfl
  stats := by
    rintro _ _ d ⟨a, rfl, _, holds, _, faultless⟩
    have does := does_stats holds pos
    obtain ⟨d', ran, _⟩ := does d faultless rfl
    have ran : (backend config).stats d = _ := ran
    exact ⟨_, congrArg Prod.fst ran, rfl⟩
  stats_still _ := still_of_readsOnly (readsOnly_stats config) _
  close := by
    rintro _ _ d ⟨_, _, _, _, _, faultless⟩
    have does : Does (backend config).close d.rows (.ok ()) d.rows := does_close
    obtain ⟨d', ran, _⟩ := does d faultless rfl
    exact ⟨congrArg Prod.fst ran, still_of_readsOnly readsOnly_close d⟩
  get := by
    rintro _ _ v d s key ⟨a, rfl, _, holds, _, faultless⟩ ⟨rfl, bound, _⟩
    obtain ⟨d', ran, _⟩ := does_get holds s bound key d faultless rfl
    exact congrArg Prod.fst ran
  get_still s key _ := still_of_readsOnly (readsOnly_snapshotGet s key) _
  query := by
    rintro _ _ v d s c ⟨a, rfl, _, holds, _, _⟩ ⟨rfl, bound, paged⟩
    exact ⟨_, .inr ⟨_, _, rfl, Cursor.owes_ofSnapshot holds s bound paged c, rfl⟩⟩
  poll gate numbers numbers' lasts := lasts.poll numbers numbers' gate
  poll_still gate c _ := still_of_rows (Cursor.rows_poll gate c _) (Cursor.faultless_poll gate c _)
  bounded := by
    rintro _ _ v k d c ⟨a, rfl, _, holds, _, _⟩ (⟨rfl, rfl⟩ | ⟨cursor, owed, rfl, owes, rfl⟩)
    · exact Nat.zero_le _
    · have short := Cursor.length_owed_le holds owes
      have one : cursor.waiting.toList.length ≤ 1 := by cases cursor.waiting <;> simp
      change owed.length + 1 ≤ cursor.ready.length + d.rows.size + 1 + 1
      omega

end Durable
end OptimisticStore
