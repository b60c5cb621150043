import OptimisticStore.Backend

/-! A query of a transaction sees the committed rows with its own staged writes laid over them.
Two lanes, one of committed rows and one of staged writes, are merged in scan order; of two
entries of one key the staged one stands, and a staged deletion hides its key.

A lane is asked for an item only when it leads and has none at hand, and the lane just asked
keeps the lead unless the item of the other one goes before its own. A failure goes before
everything and nothing goes before a failure: as long as the lane just asked has items, it
stays in front of a failure that waits in the other.

The comparison and the joining of two items belong to the store: `MergeItem.leads` is `by_key_asc`
and `by_key_desc`, and `MergeItem.combine` is `prefer_staged`. What they are handed to comes from
the library stream_more: `ask`, `place` and `merge` stand for the heap of its `KMerge`, and `pull`
with the item held back for its `coalesce`. Most of what is proved of overlays would hold of any
merge that gives on the items of its lanes as they are, in order as long as none fails
(`merge_owes`, `merge_draws`), and a closed gate is asked outside of it. Only which rows still come
in front of a failure depends on when lanes are asked and on who keeps the lead. -/

namespace OptimisticStore

structure MergeEntry where
  key : Bytes
  /-- A staged deletion has none. -/
  value : Option Bytes
  staged : Bool

namespace MergeEntry

/-- In scan order, a staged entry before a committed one of the same key. -/
def leads (direction : Direction) (a b : MergeEntry) : Bool :=
  if a.key = b.key then a.staged || !b.staged
  else match direction with
    | .forward => a.key < b.key
    | .backward => b.key < a.key

/-- Two entries of one key become one. -/
def combine (a b : MergeEntry) : Option MergeEntry :=
  if a.key = b.key then some (if a.staged then a else b) else none

end MergeEntry

abbrev MergeItem := Except Error MergeEntry

namespace MergeItem

def leads (direction : Direction) : MergeItem → MergeItem → Bool
  | .ok a, .ok b => a.leads direction b
  | _, _ => true

def combine : MergeItem → MergeItem → Option MergeItem
  | .ok a, .ok b => (a.combine b).map .ok
  | _, _ => none

end MergeItem

inductive LaneSource (κ : Type) where
  | committed (cursor : κ)
  | staged (writes : List (Bytes × Option Bytes))

structure Lane (κ : Type) where
  source : LaneSource κ
  /-- The item at hand. -/
  item : Option MergeItem := none

structure Overlay (κ : Type) where
  direction : Direction
  /-- The leading lane first. A lane that has ended is gone. -/
  lanes : List (Lane κ)
  /-- The last merged item, held back in case the next one has the same key. -/
  held : Option MergeItem := none

namespace Overlay
variable {μ σ κ : Type}

def start (direction : Direction) (cursor : κ) (writes : List (Bytes × Option Bytes)) :
    Overlay κ :=
  { direction, lanes := [⟨.committed cursor, none⟩, ⟨.staged writes, none⟩] }

def ask (b : Backend μ σ κ) (gate : Option Error) (source : LaneSource κ) (m : μ) :
    Option (MergeItem × LaneSource κ) × μ :=
  match source with
  | .staged [] => (none, m)
  | .staged ((key, value) :: writes) => (some (.ok ⟨key, value, true⟩, .staged writes), m)
  | .committed cursor =>
    match b.poll gate cursor m with
    | (none, _, m) => (none, m)
    | (some item, cursor, m) =>
      (some (item.map fun (key, value) => ⟨key, some value, false⟩, .committed cursor), m)

/-- Puts the lane just asked in front of the others if it keeps the lead. -/
def place (direction : Direction) (lane : Lane κ) : List (Lane κ) → List (Lane κ)
  | [] => [lane]
  | other :: rest =>
    let keeps := match lane.item, other.item with
      | some item, some otherItem => item.leads direction otherItem
      | _, none => false
      | none, some _ => true
    if keeps then lane :: other :: rest else other :: lane :: rest

/-- The next item of the merge. Each round asks a lane or gives its item, so three rounds for
each lane are enough. -/
def merge (b : Backend μ σ κ) (gate : Option Error) (direction : Direction) :
    (fuel : Nat) → List (Lane κ) → μ → Option MergeItem × List (Lane κ) × μ
  | 0, lanes, m => (none, lanes, m)
  | _, [], m => (none, [], m)
  | fuel + 1, lane :: others, m =>
    match lane.item with
    | some item => (some item, { lane with item := none } :: others, m)
    | none =>
      match ask b gate lane.source m with
      | (none, m) => merge b gate direction fuel others m
      | (some (item, source), m) =>
        merge b gate direction fuel (place direction ⟨source, some item⟩ others) m

/-- An item as it is given on; a hidden key gives nothing. -/
def reveal : MergeItem → Option Item
  | .error e => some (.error e)
  | .ok entry => entry.value.map fun value => .ok (entry.key, value)

def pull (b : Backend μ σ κ) (gate : Option Error) :
    (fuel : Nat) → Overlay κ → μ → Option Item × Overlay κ × μ
  | 0, o, m => (none, o, m)
  | fuel + 1, o, m =>
    match merge b gate o.direction (3 * o.lanes.length) o.lanes m with
    | (none, lanes, m) =>
      (o.held.bind reveal, { o with lanes, held := none }, m)
    | (some item, lanes, m) =>
      match o.held with
      | none => pull b gate fuel { o with lanes, held := some item } m
      | some held =>
        match held.combine item with
        | some joined => pull b gate fuel { o with lanes, held := some joined } m
        | none =>
          let o := { o with lanes, held := some item }
          match reveal held with
          | some given => (some given, o, m)
          | none => pull b gate fuel o m

def sourceBound (b : Backend μ σ κ) (m : μ) : LaneSource κ → Nat
  | .committed cursor => b.itemBound cursor m
  | .staged writes => writes.length

/-- No more items than this are left in the lanes and behind them. -/
def itemBound (b : Backend μ σ κ) (o : Overlay κ) (m : μ) : Nat :=
  o.lanes.foldr (fun lane others => sourceBound b m lane.source + 1 + others) 1

end Overlay

/-- What a stream reads: the committed rows of a view, the committed rows of a transaction
that has staged nothing among them, or those with the staged writes over them. -/
inductive Feed (κ : Type) where
  | plain (cursor : κ)
  | guarded (cursor : κ)
  | overlaid (overlay : Overlay κ)

namespace Feed
variable {μ σ κ : Type}

/-- A transaction's feed. Without staged writes in range there is nothing to merge. -/
def start (direction : Direction) (cursor : κ) (writes : List (Bytes × Option Bytes)) : Feed κ :=
  if writes.isEmpty then guarded cursor else overlaid (.start direction cursor writes)

/-- A closed gate lets nothing through that was fetched before it closed. -/
def guard (gate : Option Error) (item : Item) : Item := gate.elim item .error

/-- A cursor is asked under the gate, and what a transaction gets passes it once more: a staged
write, or a row held back by the merge, may be older than the gate's closing. -/
def poll (b : Backend μ σ κ) (gate : Option Error) (feed : Feed κ) (m : μ) :
    Option Item × Feed κ × μ :=
  match feed with
  | plain cursor =>
    let (item, cursor, m) := b.poll gate cursor m
    (item, plain cursor, m)
  | guarded cursor =>
    let (item, cursor, m) := b.poll gate cursor m
    (item.map (guard gate), guarded cursor, m)
  | overlaid o =>
    let (item, o, m) := o.pull b gate (o.itemBound b m + 2) m
    (item.map (guard gate), overlaid o, m)

def itemBound (b : Backend μ σ κ) (m : μ) : Feed κ → Nat
  | plain cursor | guarded cursor => b.itemBound cursor m
  | overlaid o => o.itemBound b m

/-- At most `limit` rows. It stops at the limit without another poll, at the end, and at the
first failure. -/
def take (b : Backend μ σ κ) (gate : Option Error) :
    (limit : Nat) → Feed κ → Access μ (List (Bytes × Bytes))
  | 0, _ => pure []
  | limit + 1, feed => fun m =>
    match feed.poll b gate m with
    | (none, _, m) => (.ok [], m)
    | (some (.error e), _, m) => (.error e, m)
    | (some (.ok row), feed, m) => (do return row :: (← take b gate limit feed)) m

def rows (b : Backend μ σ κ) (gate : Option Error) (feed : Feed κ) :
    Access μ (List (Bytes × Bytes)) := fun m =>
  feed.take b gate (feed.itemBound b m + 1) m

end Feed
end OptimisticStore
