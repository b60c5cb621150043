import OptimisticStore.Proofs.Overlay
import OptimisticStore.Proofs.Reading

/-! Where the rows of a feed come from. A feed draws on one cursor and on the writes staged when
it was opened; merging, holding back and hiding add nothing to these. So whatever gates and
failures come between its polls, each row that it gives was given by the cursor or staged. -/

namespace OptimisticStore

open MergeEntry

section Drawing
variable {κ : Type} (reads : κ → Prop) (known : Bytes × Bytes → Prop)

def MergeEntry.From (e : MergeEntry) : Prop := ∀ value, e.value = some value → known (e.key, value)

def MergeItem.From : MergeItem → Prop
  | .ok e => e.From known
  | .error _ => True

def LaneSource.Draws : LaneSource κ → Prop
  | .committed cursor => reads cursor
  | .staged writes => ∀ write ∈ writes, (ofWrite write).From known

structure Lane.Draws (lane : Lane κ) : Prop where
  source : lane.source.Draws reads known
  item : ∀ item ∈ lane.item, item.From known

structure Overlay.Draws (o : Overlay κ) : Prop where
  lanes : ∀ lane ∈ o.lanes, lane.Draws reads known
  held : ∀ item ∈ o.held, item.From known

def Feed.Draws : Feed κ → Prop
  | .plain cursor | .guarded cursor => reads cursor
  | .overlaid o => o.Draws reads known

variable {reads known} {reads' : κ → Prop} {known' : Bytes × Bytes → Prop}

theorem MergeItem.From.mono (more : ∀ row, known row → known' row) {item : MergeItem}
    (source : item.From known) : item.From known' := by
  cases item with
  | error e => trivial
  | ok e => exact fun value shown => more _ (source value shown)

theorem MergeItem.from_combine {a b joined : MergeItem} (first : a.From known)
    (second : b.From known) (combined : a.combine b = some joined) : joined.From known := by
  cases a with
  | error e => cases combined
  | ok a =>
    cases b with
    | error e => cases combined
    | ok b =>
      rw [combine, MergeEntry.combine] at combined
      split at combined
      · cases combined
        cases a.staged
        · exact second
        · exact first
      · cases combined

theorem MergeItem.known_of_reveal {item : MergeItem} (source : item.From known)
    {row : Bytes × Bytes} (shown : Overlay.reveal item = some (.ok row)) : known row := by
  cases item with
  | error e => cases shown
  | ok e =>
    obtain ⟨value, found, same⟩ := Option.map_eq_some_iff.1 shown
    cases same
    exact source value found

theorem Feed.Draws.mono (kept : ∀ c, reads c → reads' c) (more : ∀ row, known row → known' row)
    {feed : Feed κ} (draws : feed.Draws reads known) : feed.Draws reads' known' := by
  cases feed with
  | plain cursor => exact kept cursor draws
  | guarded cursor => exact kept cursor draws
  | overlaid o =>
    refine ⟨fun lane mem => ?_, fun item held => (draws.held item held).mono more⟩
    obtain ⟨source, item⟩ := draws.lanes lane mem
    refine ⟨?_, fun hand at_hand => (item hand at_hand).mono more⟩
    revert source
    cases lane.source with
    | committed cursor => exact kept cursor
    | staged writes => exact fun all write mem value shown => more _ (all write mem value shown)

end Drawing

theorem Overlay.mem_place {κ : Type} {d : Direction} {lane other : Lane κ} {lanes : List (Lane κ)}
    (mem : other ∈ place d lane lanes) : other = lane ∨ other ∈ lanes := by
  cases lanes with
  | nil => exact .inl (List.mem_singleton.1 mem)
  | cons first rest =>
    have either (keeps : Bool)
        (mem : other ∈ if keeps then lane :: first :: rest else first :: lane :: rest) :
        other = lane ∨ other ∈ first :: rest := by
      cases keeps with
      | true => exact List.mem_cons.1 mem
      | false =>
        rcases List.mem_cons.1 mem with rfl | mem
        · exact .inr List.mem_cons_self
        · exact (List.mem_cons.1 mem).imp_right (List.mem_cons_of_mem first)
    exact either _ mem

def Backend.Shows {μ σ κ : Type} (b : Backend μ σ κ) (kept : μ → Prop) (reads : κ → Prop)
    (known : Bytes × Bytes → Prop) : Prop :=
  ∀ gate c m, kept m → reads c → reads (b.poll gate c m).2.1 ∧
    ∀ row, (b.poll gate c m).1 = some (.ok row) → known row

section Polling
variable {μ σ κ : Type} {b : Backend μ σ κ} {kept : μ → Prop} {reads : κ → Prop}
  {known : Bytes × Bytes → Prop} (shows : b.Shows kept reads known)
include shows

namespace Overlay

theorem ask_draws (gate : Option Error) {source : LaneSource κ} {m : μ} (keeps : kept m)
    (draws : source.Draws reads known) :
    ∀ asked ∈ (ask b gate source m).1,
      MergeItem.From known asked.1 ∧ asked.2.Draws reads known := by
  cases source with
  | staged writes =>
    cases writes with
    | nil => rintro _ ⟨⟩
    | cons write writes =>
      rintro _ ⟨⟩
      exact ⟨draws write List.mem_cons_self, fun other mem =>
        draws other (List.mem_cons_of_mem write mem)⟩
  | committed cursor =>
    obtain ⟨after, shown⟩ := shows gate cursor m keeps draws
    rw [ask]
    rcases polled : b.poll gate cursor m with ⟨_ | e | row, cursor', m'⟩ <;>
      rw [polled] at after shown
    · rintro _ ⟨⟩
    · rintro _ ⟨⟩
      exact ⟨trivial, after⟩
    · rintro _ ⟨⟩
      refine ⟨?_, after⟩
      rintro value ⟨⟩
      exact shown row rfl

variable (steady : ∀ gate c m, kept m → kept (b.poll gate c m).2.2)
include steady

theorem merge_draws (gate : Option Error) (d : Direction) (fuel : Nat) {lanes : List (Lane κ)}
    {m : μ} (keeps : kept m) (draws : ∀ lane ∈ lanes, lane.Draws reads known) :
    (∀ item ∈ (merge b gate d fuel lanes m).1, item.From known) ∧
      ∀ lane ∈ (merge b gate d fuel lanes m).2.1, lane.Draws reads known := by
  induction fuel generalizing lanes m with
  | zero => exact ⟨by rintro _ ⟨⟩, draws⟩
  | succ fuel ih =>
    cases lanes with
    | nil => exact ⟨by rintro _ ⟨⟩, draws⟩
    | cons lane others =>
      have first := draws lane List.mem_cons_self
      have rest : ∀ other ∈ others, other.Draws reads known :=
        fun other mem => draws other (List.mem_cons_of_mem lane mem)
      rw [merge]
      cases hand : lane.item with
      | some item =>
        refine ⟨?_, fun other mem => ?_⟩
        · rintro _ ⟨⟩
          exact first.item item hand
        · rcases List.mem_cons.1 mem with rfl | mem
          · exact ⟨first.source, by rintro _ ⟨⟩⟩
          · exact rest other mem
      | none =>
        have keeps' := ask_keeps steady gate lane.source keeps
        have asked := ask_draws shows gate keeps first.source
        rcases ran : ask b gate lane.source m with ⟨_ | ⟨item, source⟩, m'⟩ <;>
          rw [ran] at keeps' asked
        · exact ih keeps' rest
        · obtain ⟨origin, after⟩ := asked _ rfl
          refine ih keeps' fun other mem => ?_
          rcases mem_place mem with rfl | mem
          · refine ⟨after, ?_⟩
            rintro _ ⟨⟩
            exact origin
          · exact rest other mem

theorem pull_draws (gate : Option Error) (fuel : Nat) {o : Overlay κ} {m : μ} (keeps : kept m)
    (draws : o.Draws reads known) :
    (∀ row, (o.pull b gate fuel m).1 = some (.ok row) → known row) ∧
      (o.pull b gate fuel m).2.1.Draws reads known := by
  induction fuel generalizing o m with
  | zero => exact ⟨by rintro _ ⟨⟩, draws⟩
  | succ fuel ih =>
    have keeps' := merge_keeps steady gate o.direction (3 * o.lanes.length) o.lanes keeps
    obtain ⟨given, lanes⟩ := merge_draws shows steady gate o.direction (3 * o.lanes.length) keeps
      draws.lanes
    unfold pull
    rcases ran : merge b gate o.direction (3 * o.lanes.length) o.lanes m with ⟨_ | item, lanes', m'⟩
      <;> rw [ran] at keeps' given lanes
    · refine ⟨fun row revealed => ?_, lanes, by rintro _ ⟨⟩⟩
      obtain ⟨held, waits, shown⟩ := Option.bind_eq_some_iff.1 revealed
      exact MergeItem.known_of_reveal (draws.held held waits) shown
    · have origin := given item rfl
      have holding {held : MergeItem} (origin : held.From known) :
          Overlay.Draws reads known ⟨o.direction, lanes', some held⟩ := by
        refine ⟨lanes, ?_⟩
        rintro _ ⟨⟩
        exact origin
      cases waits : o.held with
      | none => exact ih keeps' (holding origin)
      | some held =>
        have before := draws.held held waits
        dsimp only
        split
        · next joined combined =>
          exact ih keeps' (holding (MergeItem.from_combine before origin combined))
        · split
          · next shown =>
            refine ⟨?_, holding origin⟩
            rintro row ⟨⟩
            exact MergeItem.known_of_reveal before shown
          · exact ih keeps' (holding origin)

end Overlay

namespace Feed
variable (steady : ∀ gate c m, kept m → kept (b.poll gate c m).2.2)
include steady

theorem poll_draws (gate : Option Error) {feed : Feed κ} {m : μ} (keeps : kept m)
    (draws : feed.Draws reads known) :
    (∀ row, (feed.poll b gate m).1 = some (.ok row) → known row) ∧
      (feed.poll b gate m).2.1.Draws reads known := by
  have unguarded {item : Option Item} (shown : ∀ row, item = some (.ok row) → known row)
      (row : Bytes × Bytes) (given : item.map (guard gate) = some (.ok row)) : known row := by
    obtain ⟨item', rfl, passed⟩ := Option.map_eq_some_iff.1 given
    cases gate with
    | none => exact shown row (congrArg some passed)
    | some e => cases passed
  cases feed with
  | plain cursor =>
    obtain ⟨after, shown⟩ := shows gate cursor m keeps draws
    exact ⟨shown, after⟩
  | guarded cursor =>
    obtain ⟨after, shown⟩ := shows gate cursor m keeps draws
    exact ⟨unguarded shown, after⟩
  | overlaid o =>
    obtain ⟨shown, after⟩ := o.pull_draws shows steady gate (o.itemBound b m + 2) keeps draws
    exact ⟨unguarded shown, after⟩

theorem gives_take_draws (gate : Option Error) (limit : Nat) {feed : Feed κ}
    (draws : feed.Draws reads known) :
    Access.Gives kept (feed.take b gate limit) fun rows => ∀ row ∈ rows, known row := by
  induction limit generalizing feed with
  | zero => exact Access.gives_pure fun _ _ => by rintro _ ⟨⟩
  | succ limit ih =>
    intro m keeps
    have keeps' := poll_keeps steady gate feed keeps
    obtain ⟨shown, after⟩ := poll_draws shows steady gate keeps draws
    rcases polled : feed.poll b gate m with ⟨_ | e | row, feed', m'⟩ <;>
      rw [polled] at keeps' shown after <;> simp only [take, polled]
    · refine ⟨keeps', ?_⟩
      rintro _ ⟨⟩ _ ⟨⟩
    · exact ⟨keeps', by rintro _ ⟨⟩⟩
    · refine (ih after).bind (fun rows all => Access.gives_pure fun _ _ => ?_) m' keeps'
      exact List.forall_mem_cons.2 ⟨shown row rfl, all⟩

theorem gives_rows_draws (gate : Option Error) {feed : Feed κ} (draws : feed.Draws reads known) :
    Access.Gives kept (feed.rows b gate) fun rows => ∀ row ∈ rows, known row :=
  fun m keeps => gives_take_draws shows steady gate (feed.itemBound b m + 1) draws m keeps

end Feed
end Polling

theorem Feed.start_draws {κ : Type} {reads : κ → Prop} {known : Bytes × Bytes → Prop} {cursor : κ}
    (draws : reads cursor) (c : Condition) {w : WriteSet}
    (own : ∀ key value, w.get? key = some (some value) → known (key, value)) :
    (Feed.start c.direction cursor (w.range c)).Draws reads known := by
  rw [start]
  split
  · exact draws
  · refine ⟨fun lane mem => ?_, by rintro _ ⟨⟩⟩
    rcases List.mem_cons.1 mem with rfl | mem
    · exact ⟨draws, by rintro _ ⟨⟩⟩
    · rw [List.mem_singleton.1 mem]
      refine ⟨fun write staged value shown => own write.1 value ?_, by rintro _ ⟨⟩⟩
      rw [((w.mem_range_iff c write).1 staged).1]
      exact congrArg some shown

end OptimisticStore
