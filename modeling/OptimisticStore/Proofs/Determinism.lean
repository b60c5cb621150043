import OptimisticStore.Proofs.Reading

/-! One feed read on two media. The medium enters into what a feed gives through its cursor, and
through the fuel of its merge, which is taken from the bounds that the backend tells. If polls of
one cursor on either medium give the same item and leave the same cursor, then so do polls of a
merged feed, as fuel beyond the items that are left changes nothing. -/

namespace OptimisticStore

/-- On related media the accesses come to the same, and leave related media. -/
def Access.Agree {μ ν α : Type} (alike : μ → ν → Prop) (x : Access μ α) (y : Access ν α) : Prop :=
  ∀ m n, alike m n → (x m).1 = (y n).1 ∧ alike (x m).2 (y n).2

namespace Access
variable {μ ν α β : Type} {alike : μ → ν → Prop}

theorem agree_pure (a : α) : Agree alike (pure a) (pure a) := fun _ _ media => ⟨rfl, media⟩

theorem agree_pass (gate : Option Error) : Agree alike (pass gate) (pass gate) := by
  intro m n media
  cases gate with
  | none => exact ⟨rfl, media⟩
  | some e => exact ⟨rfl, media⟩

theorem Agree.bind {x : Access μ α} {y : Access ν α} {f : α → Access μ β} {g : α → Access ν β}
    (first : Agree alike x y) (rest : ∀ a, Agree alike (f a) (g a)) :
    Agree alike (x >>= f) (y >>= g) := by
  intro m n media
  obtain ⟨same, media'⟩ := first m n media
  rw [bind_apply, bind_apply]
  revert same media'
  rcases x m with ⟨e | a, m'⟩ <;> rcases y n with ⟨e' | a', n'⟩ <;> rintro ⟨⟩ media'
  · exact ⟨rfl, media'⟩
  · exact rest a m' n' media'

end Access

section Lasting
variable {κ : Type} (reads : Nat → κ → Prop)

def LaneSource.Lasts (n : Nat) : LaneSource κ → Prop
  | .committed cursor => reads n cursor
  | .staged writes => n = writes.length

def Lane.Lasts (n : Nat) (lane : Lane κ) : Prop :=
  ∃ k, lane.source.Lasts reads k ∧ n = k + lane.item.toList.length

def Lanes.Lasts : Nat → List (Lane κ) → Prop
  | n, [] => n = 0
  | n, lane :: others => ∃ k j, lane.Lasts reads k ∧ Lanes.Lasts j others ∧ n = k + j

structure Overlay.Lasts (n : Nat) (o : Overlay κ) : Prop where
  two : o.lanes.length ≤ 2
  items : ∃ k, Lanes.Lasts reads k o.lanes ∧ n = k + o.held.toList.length

def Feed.Lasts (n : Nat) : Feed κ → Prop
  | .plain cursor | .guarded cursor => reads n cursor
  | .overlaid o => o.Lasts reads n

variable {reads}

theorem Lane.Lasts.mono {reads' : Nat → κ → Prop} (weaker : ∀ n c, reads n c → reads' n c) {n : Nat}
    {lane : Lane κ} (lasts : lane.Lasts reads n) : lane.Lasts reads' n := by
  obtain ⟨k, source, rfl⟩ := lasts
  refine ⟨k, ?_, rfl⟩
  cases reading : lane.source with
  | committed cursor =>
    rw [reading] at source
    exact weaker k cursor source
  | staged writes =>
    rw [reading] at source
    exact source

theorem Feed.Lasts.mono {reads' : Nat → κ → Prop} (weaker : ∀ n c, reads n c → reads' n c) {n : Nat}
    {feed : Feed κ} (lasts : feed.Lasts reads n) : feed.Lasts reads' n := by
  have lanes (l : List (Lane κ)) (k : Nat) (items : Lanes.Lasts reads k l) :
      Lanes.Lasts reads' k l := by
    induction l generalizing k with
    | nil => exact items
    | cons lane others ih =>
      obtain ⟨i, j, first, rest, rfl⟩ := items
      exact ⟨i, j, first.mono weaker, ih j rest, rfl⟩
  cases feed with
  | plain cursor => exact weaker n cursor lasts
  | guarded cursor => exact weaker n cursor lasts
  | overlaid o =>
    obtain ⟨two, k, items, rfl⟩ := lasts
    exact ⟨two, k, lanes o.lanes k items, rfl⟩

theorem Feed.lasts_plain {n : Nat} {cursor : κ} (lasts : reads n cursor) :
    (Feed.plain cursor).Lasts reads n := lasts

theorem Overlay.place_cons (d : Direction) (lane other : Lane κ) (others : List (Lane κ)) :
    place d lane (other :: others) = lane :: other :: others ∨
      place d lane (other :: others) = other :: lane :: others := by
  have either (keeps : Bool) :
      (if keeps then lane :: other :: others else other :: lane :: others) =
        lane :: other :: others ∨
      (if keeps then lane :: other :: others else other :: lane :: others) =
        other :: lane :: others := by
    cases keeps with
    | true => exact .inl rfl
    | false => exact .inr rfl
  exact either _

theorem Overlay.length_place (d : Direction) (lane : Lane κ) (others : List (Lane κ)) :
    (place d lane others).length = others.length + 1 := by
  cases others with
  | nil => rfl
  | cons other others =>
    rcases place_cons d lane other others with same | same <;> rw [same] <;> rfl

theorem Lanes.Lasts.place {n k : Nat} {lane : Lane κ} {others : List (Lane κ)}
    (rest : Lanes.Lasts reads n others) (first : lane.Lasts reads k) (d : Direction) :
    Lanes.Lasts reads (k + n) (Overlay.place d lane others) := by
  cases others with
  | nil => exact ⟨k, n, first, rest, rfl⟩
  | cons other others =>
    rcases Overlay.place_cons d lane other others with same | same <;> rw [same]
    · exact ⟨k, n, first, rest, rfl⟩
    · obtain ⟨i, j, second, rest, rfl⟩ := rest
      exact ⟨i, k + j, second, ⟨k, j, first, rest, rfl⟩, by omega⟩

end Lasting

/-- Two polls have given the same item and left the same thing behind, of which an item less is
left if one was given. -/
def Alike {μ ι ρ : Type} (alike : μ → μ → Prop) (lasts : Nat → ρ → Prop) (n : Nat)
    (one other : Option ι × ρ × μ) : Prop :=
  ∃ item left m m' n', one = (item, left, m) ∧ other = (item, left, m') ∧ alike m m' ∧
    lasts n' left ∧ n' + item.toList.length ≤ n

section Polling
variable {μ ι ι' ρ ρ' : Type} {alike : μ → μ → Prop} {lasts : Nat → ρ → Prop}

theorem Alike.le {n k : Nat} {one other : Option ι × ρ × μ}
    (same : Alike alike lasts n one other) (more : n ≤ k) : Alike alike lasts k one other := by
  obtain ⟨item, left, m, m', n', here, there, media, lasting, fewer⟩ := same
  exact ⟨item, left, m, m', n', here, there, media, lasting, Nat.le_trans fewer more⟩

theorem Alike.map {n : Nat} {one other : Option ι × ρ × μ} (same : Alike alike lasts n one other)
    (f : ι → ι') (wrap : ρ → ρ') {lasts' : Nat → ρ' → Prop}
    (wrapped : ∀ k left, lasts k left → lasts' k (wrap left)) :
    Alike alike lasts' n (one.1.map f, wrap one.2.1, one.2.2)
      (other.1.map f, wrap other.2.1, other.2.2) := by
  obtain ⟨item, left, m, m', n', rfl, rfl, media, lasting, fewer⟩ := same
  refine ⟨item.map f, wrap left, m, m', n', rfl, rfl, media, wrapped n' left lasting, ?_⟩
  cases item <;> exact fewer

end Polling

def Backend.PollsAlike {μ σ κ : Type} (b : Backend μ σ κ) (alike : μ → μ → Prop)
    (reads : Nat → κ → Prop) : Prop :=
  ∀ gate n c m m', alike m m' → reads n c →
    Alike alike reads n (b.poll gate c m) (b.poll gate c m')

section Feeds
variable {μ σ κ : Type} {b : Backend μ σ κ} {alike : μ → μ → Prop} {reads : Nat → κ → Prop}
  (polls : b.PollsAlike alike reads) {m m' : μ}
include polls

namespace Overlay

theorem ask_alike (gate : Option Error) {source : LaneSource κ} {n : Nat}
    (lasts : source.Lasts reads n) (media : alike m m') :
    ∃ asked m₁ m₁', ask b gate source m = (asked, m₁) ∧ ask b gate source m' = (asked, m₁') ∧
      alike m₁ m₁' ∧
      ∀ item next, asked = some (item, next) → ∃ n', next.Lasts reads n' ∧ n' < n := by
  cases source with
  | staged writes =>
    cases writes with
    | nil => exact ⟨none, m, m', rfl, rfl, media, nofun⟩
    | cons write writes =>
      refine ⟨_, m, m', rfl, rfl, media, ?_⟩
      rintro _ _ ⟨⟩
      exact ⟨writes.length, rfl, Nat.lt_of_lt_of_eq (Nat.lt_succ_self _) lasts.symm⟩
  | committed cursor =>
    obtain ⟨item, next, m₁, m₁', n', here, there, media', lasting, fewer⟩ :=
      polls gate n cursor m m' media lasts
    simp only [ask, here, there]
    cases item with
    | none => exact ⟨none, m₁, m₁', rfl, rfl, media', nofun⟩
    | some item =>
      refine ⟨_, m₁, m₁', rfl, rfl, media', ?_⟩
      rintro _ _ ⟨⟩
      exact ⟨n', lasting, fewer⟩

theorem merge_alike (gate : Option Error) (d : Direction) (bound fuel : Nat)
    {lanes : List (Lane κ)} {n : Nat} (few : lanes.length ≤ bound)
    (lasts : Lanes.Lasts reads n lanes) (media : alike m m') :
    Alike alike (fun n lanes => lanes.length ≤ bound ∧ Lanes.Lasts reads n lanes) n
      (merge b gate d fuel lanes m) (merge b gate d fuel lanes m') := by
  induction fuel generalizing lanes n m m' with
  | zero => exact ⟨none, lanes, m, m', n, rfl, rfl, media, ⟨few, lasts⟩, Nat.le_refl _⟩
  | succ fuel ih =>
    cases lanes with
    | nil => exact ⟨none, [], m, m', n, rfl, rfl, media, ⟨few, lasts⟩, Nat.le_refl _⟩
    | cons lane others =>
      obtain ⟨k, j, ⟨left, behind, rfl⟩, rest, rfl⟩ := lasts
      rw [merge, merge]
      cases hand : lane.item with
      | some item =>
        exact ⟨some item, { lane with item := none } :: others, m, m', left + j, rfl, rfl, media,
          ⟨few, left, j, ⟨left, behind, rfl⟩, rest, rfl⟩,
          Nat.le_of_eq (Nat.add_right_comm left j _)⟩
      | none =>
        obtain ⟨asked, m₁, m₁', here, there, media', next⟩ := ask_alike polls gate behind media
        simp only [here, there]
        cases asked with
        | none => exact (ih (Nat.le_of_succ_le few) rest media').le (by omega)
        | some asked =>
          obtain ⟨item, source⟩ := asked
          obtain ⟨n', lasting, fewer⟩ := next item source rfl
          have first : Lane.Lasts reads (n' + 1) ⟨source, some item⟩ := ⟨n', lasting, rfl⟩
          have placed := rest.place first d
          have count : (place d ⟨source, some item⟩ others).length ≤ bound := by
            rw [length_place]
            exact few
          exact (ih count placed media').le (Nat.add_le_add_right fewer j)

/-- Fuel beyond the items of the lanes changes nothing. -/
theorem pull_alike (gate : Option Error) {fuel fuel' : Nat} {o : Overlay κ} {k : Nat}
    (two : o.lanes.length ≤ 2) (lasts : Lanes.Lasts reads k o.lanes) (media : alike m m')
    (enough : k < fuel) (enough' : k < fuel') :
    Alike alike (fun n o => o.Lasts reads n) (k + o.held.toList.length)
      (o.pull b gate fuel m) (o.pull b gate fuel' m') := by
  induction fuel generalizing fuel' o k m m' with
  | zero => omega
  | succ fuel ih =>
    obtain ⟨fuel', rfl⟩ := Nat.exists_eq_add_one_of_ne_zero (Nat.ne_zero_of_lt enough')
    obtain ⟨item, lanes, m₁, m₁', k', here, there, media', ⟨few, lasting⟩, fewer⟩ :=
      merge_alike polls gate o.direction 2 (3 * o.lanes.length) two lasts media
    simp only [pull, here, there]
    cases item with
    | none =>
      refine ⟨_, _, m₁, m₁', k', rfl, rfl, media', ⟨few, k', lasting, rfl⟩, ?_⟩
      have shown : (o.held.bind reveal).toList.length ≤ o.held.toList.length := by
        cases o.held with
        | none => exact Nat.le_refl _
        | some held => cases reveal held <;> simp [*]
      simp only [Option.toList_none, List.length_nil] at fewer
      omega
    | some item =>
      simp only [Option.toList_some, List.length_singleton] at fewer
      have again (held : MergeItem) :
          Alike alike (fun n o => o.Lasts reads n) (k + o.held.toList.length)
            (pull b gate fuel { o with lanes, held := some held } m₁)
            (pull b gate fuel' { o with lanes, held := some held } m₁') := by
        refine (ih (o := { o with lanes, held := some held }) few lasting media' (by omega)
          (by omega)).le ?_
        simp only [Option.toList_some, List.length_singleton]
        omega
      revert again
      generalize o.held = waiting
      intro again
      cases waiting with
      | none => exact again item
      | some held =>
        dsimp only
        split
        · exact again _
        · split
          · next given _ =>
            refine ⟨some given, _, m₁, m₁', k' + 1, rfl, rfl, media', ⟨few, k', lasting, rfl⟩, ?_⟩
            simp only [Option.toList_some, List.length_singleton]
            omega
          · exact again item

end Overlay

omit polls in
theorem Lanes.Lasts.lt_itemBound (bounded : ∀ n c, reads n c → n ≤ b.itemBound c m + 1)
    {lanes : List (Lane κ)} {n : Nat} (lasts : Lanes.Lasts reads n lanes) (d : Direction)
    (held : Option MergeItem) : n < Overlay.itemBound b ⟨d, lanes, held⟩ m + lanes.length := by
  induction lanes generalizing n with
  | nil =>
    obtain rfl : n = 0 := lasts
    exact Nat.one_pos
  | cons lane others ih =>
    obtain ⟨k, j, ⟨left, behind, rfl⟩, rest, rfl⟩ := lasts
    have others_few := ih rest
    have source_few : left ≤ Overlay.sourceBound b m lane.source + 1 := by
      revert behind
      cases lane.source with
      | committed cursor => exact bounded left cursor
      | staged writes => exact fun all => Nat.le_succ_of_le (Nat.le_of_eq all)
    have at_hand : lane.item.toList.length ≤ 1 := by cases lane.item <;> simp
    simp only [Overlay.itemBound, List.foldr_cons, List.length_cons] at others_few ⊢
    omega

variable (bounded : ∀ c n m m', alike m m' → reads n c →
    n ≤ b.itemBound c m + 1 ∧ n ≤ b.itemBound c m' + 1)
include bounded

namespace Feed

theorem poll_alike (gate : Option Error) {feed : Feed κ} {n : Nat} (lasts : feed.Lasts reads n)
    (media : alike m m') :
    Alike alike (fun n feed => feed.Lasts reads n) n (feed.poll b gate m)
      (feed.poll b gate m') := by
  cases feed with
  | plain cursor =>
    have same : Alike alike (fun n (feed : Feed κ) => feed.Lasts reads n) n _ _ :=
      (polls gate n cursor m m' media lasts).map id Feed.plain fun _ _ reading => reading
    simp only [Option.map_id_fun, id] at same
    exact same
  | guarded cursor =>
    exact (polls gate n cursor m m' media lasts).map (guard gate) Feed.guarded
      fun _ _ reading => reading
  | overlaid o =>
    obtain ⟨two, k, items, rfl⟩ := lasts
    have enough := items.lt_itemBound (fun n c reading => (bounded c n m m' media reading).1)
      o.direction o.held
    have enough' := items.lt_itemBound (fun n c reading => (bounded c n m m' media reading).2)
      o.direction o.held
    have same := o.pull_alike polls gate two items media (Nat.lt_of_lt_of_le enough
      (Nat.add_le_add_left two _)) (Nat.lt_of_lt_of_le enough' (Nat.add_le_add_left two _))
    exact same.map (guard gate) Feed.overlaid fun _ _ lasting => lasting

variable (aside : ∀ gate c m m', alike m m' →
    alike (b.poll gate c m).2.2 m' ∧ alike m (b.poll gate c m').2.2)
include aside

theorem take_ended (gate : Option Error) (limit : Nat) {feed : Feed κ} (lasts : feed.Lasts reads 0)
    (media : alike m m') :
    (feed.take b gate (limit + 1) m).1 = .ok [] ∧ (feed.take b gate (limit + 1) m').1 = .ok [] ∧
      alike (feed.take b gate (limit + 1) m).2 m' ∧
      alike m (feed.take b gate (limit + 1) m').2 := by
  obtain ⟨item, left, m₁, m₁', n', here, there, media', lasting, fewer⟩ :=
    feed.poll_alike polls bounded gate lasts media
  have left_kept := feed.poll_keeps (b := b)
    (fun gate c one (media : alike one m') => (aside gate c one m' media).1) gate media
  have right_kept := feed.poll_keeps (b := b)
    (fun gate c other (media : alike m other) => (aside gate c m other media).2) gate media
  rw [here] at left_kept
  rw [there] at right_kept
  cases item with
  | some item => simp at fewer
  | none =>
    simp only [take, here, there]
    exact ⟨trivial, trivial, left_kept, right_kept⟩

theorem take_alike (gate : Option Error) {limit limit' : Nat} {feed : Feed κ} {n : Nat}
    (lasts : feed.Lasts reads n) (enough : limit = limit' ∨ n ≤ limit ∧ n ≤ limit') :
    Access.Agree alike (feed.take b gate limit) (feed.take b gate limit') := by
  induction limit generalizing limit' feed n with
  | zero =>
    intro m m' media
    cases limit' with
    | zero => exact ⟨rfl, media⟩
    | succ limit' =>
      obtain ⟨none_left, _⟩ := enough.resolve_left (by omega)
      obtain rfl := Nat.le_zero.1 none_left
      obtain ⟨_, same, _, media'⟩ := take_ended polls bounded aside gate limit' lasts media
      exact ⟨same.symm, media'⟩
  | succ limit ih =>
    intro m m' media
    cases limit' with
    | zero =>
      obtain ⟨_, none_left⟩ := enough.resolve_left (by omega)
      obtain rfl := Nat.le_zero.1 none_left
      obtain ⟨same, _, media', _⟩ := take_ended polls bounded aside gate limit lasts media
      exact ⟨same, media'⟩
    | succ limit' =>
      obtain ⟨item, left, m₁, m₁', n', here, there, media', lasting, fewer⟩ :=
        feed.poll_alike polls bounded gate lasts media
      simp only [take, here, there]
      cases item with
      | none => exact ⟨rfl, media'⟩
      | some item =>
        cases item with
        | error e => exact ⟨rfl, media'⟩
        | ok row =>
          simp only [Option.toList_some, List.length_singleton] at fewer
          have rest : limit = limit' ∨ n' ≤ limit ∧ n' ≤ limit' := by omega
          exact (ih lasting rest).bind (fun rows => Access.agree_pure _) m₁ m₁' media'

theorem rows_alike (gate : Option Error) {feed : Feed κ} {n : Nat} (lasts : feed.Lasts reads n)
    (enough : ∀ m m', alike m m' → n ≤ feed.itemBound b m + 1 ∧ n ≤ feed.itemBound b m' + 1) :
    Access.Agree alike (feed.rows b gate) (feed.rows b gate) := fun m m' media =>
  feed.take_alike polls bounded aside gate lasts (.inr (enough m m' media)) m m' media

end Feed
end Feeds

theorem Feed.start_lasts {μ σ κ : Type} {b : Backend μ σ κ} {reads : Nat → κ → Prop} {cursor : κ}
    {n : Nat} (lasts : reads n cursor) (d : Direction) (writes : List (Bytes × Option Bytes)) :
    ∃ k, (Feed.start d cursor writes).Lasts reads k ∧
      ∀ m, (∀ n c, reads n c → n ≤ b.itemBound c m + 1) →
        k ≤ (Feed.start d cursor writes).itemBound b m + 1 := by
  rw [start]
  split
  · exact ⟨n, lasts, fun m bounded => bounded n cursor lasts⟩
  · have items : Lanes.Lasts reads (n + writes.length) (Overlay.start d cursor writes).lanes :=
      ⟨n, writes.length, ⟨n, lasts, rfl⟩, ⟨_, 0, ⟨_, rfl, rfl⟩, rfl, rfl⟩, rfl⟩
    refine ⟨_, ⟨Nat.le_refl _, _, items, rfl⟩, fun m bounded => ?_⟩
    have few := items.lt_itemBound bounded d none
    exact Nat.le_of_lt_succ few

end OptimisticStore
