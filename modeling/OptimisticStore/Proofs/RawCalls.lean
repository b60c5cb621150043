import OptimisticStore.Proofs.ProperRanges

/-! What a store asks of its rows, whatever it is asked itself. Each range is proper, with any rows
and any answers that keep to their range. So rows may be kept in a map that takes no other range. -/

namespace OptimisticStore

/-! ### Whatever is asked of a store -/

/-- One request to an open store. A registration or a snapshot need not come from the store. -/
inductive Act where
  | begin (now : Nat)
  | heartbeat (now : Nat) (r : Registration)
  | commit (r : Registration) (reads : ReadFootprint) (writes : WriteSet)
  | finish (now : Nat) (r : Registration)
  | abandon (r : Registration)
  | stats
  | close
  | get (s : Durable.Snapshot) (key : Bytes)
  | query (s : Durable.Snapshot) (c : Condition)
  /-- Polls the stream of an earlier query. -/
  | poll (gate : Option Error) (stream : Nat)

structure Caller (μ : Type) where
  medium : μ
  streams : List (Option Durable.Cursor) := []

def RowMedium.opened {μ : Type} (raw : RowMedium μ) (config : Config) :
    Access μ (Backend μ Durable.Snapshot (Option Durable.Cursor)) := do
  return raw.backend (← raw.openStore config)

namespace Caller
variable {μ : Type}

def act (b : Backend μ Durable.Snapshot (Option Durable.Cursor)) (s : Caller μ) : Act → Caller μ
  | .begin now => { s with medium := (b.begin now s.medium).2 }
  | .heartbeat now r => { s with medium := (b.heartbeat now r s.medium).2 }
  | .commit r reads writes => { s with medium := (b.commit r reads writes s.medium).2 }
  | .finish now r => { s with medium := (b.finish now r s.medium).2 }
  | .abandon r => { s with medium := b.abandon r s.medium }
  | .stats => { s with medium := (b.stats s.medium).2 }
  | .close => { s with medium := (b.close s.medium).2 }
  | .get snapshot key => { s with medium := (b.get snapshot key s.medium).2 }
  | .query snapshot c => { s with streams := s.streams ++ [b.query snapshot c] }
  | .poll gate stream =>
    match s.streams[stream]? with
    | none => s
    | some cursor =>
      let (_, cursor, medium) := b.poll gate cursor s.medium
      ⟨medium, s.streams.set stream cursor⟩

def mediumAfter (opened : Access μ (Backend μ Durable.Snapshot (Option Durable.Cursor)))
    (acts : List Act) (m : μ) : μ :=
  match opened m with
  | (.error _, m) => m
  | (.ok b, m) => (acts.foldl (act b) ⟨m, []⟩).medium

structure Sound (P : μ → Prop) (s : Caller μ) : Prop where
  medium : P s.medium
  streams : ∀ cursor ∈ s.streams, ∀ c ∈ cursor, c.Proper

variable {raw : RowMedium μ} {P : μ → Prop} {s : Caller μ}

theorem Sound.act (sustains : raw.Sustains P) (config : Config) (sound : s.Sound P) (a : Act) :
    (s.act (raw.backend config) a).Sound P := by
  cases a with
  | begin now => exact ⟨(sustains.begin config now _ sound.medium).1, sound.streams⟩
  | heartbeat now r => exact ⟨(sustains.heartbeat now r _ sound.medium).1, sound.streams⟩
  | commit r reads writes =>
    exact ⟨(sustains.commit config r reads writes _ sound.medium).1, sound.streams⟩
  | finish now r => exact ⟨(sustains.finish config now r _ sound.medium).1, sound.streams⟩
  | abandon r => exact sound
  | stats => exact ⟨(sustains.stats config _ sound.medium).1, sound.streams⟩
  | close => exact ⟨(sustains.close _ sound.medium).1, sound.streams⟩
  | get snapshot key => exact ⟨(sustains.getAt snapshot key _ sound.medium).1, sound.streams⟩
  | query snapshot c =>
    refine ⟨sound.medium, fun cursor mem => ?_⟩
    rcases List.mem_append.1 mem with earlier | new
    · exact sound.streams cursor earlier
    · rintro _ rfl
      cases List.mem_singleton.1 new
      exact Durable.Cursor.proper_ofSnapshot snapshot c
  | poll gate stream =>
    rw [Caller.act]
    split
    · exact sound
    · next cursor found =>
      have polled : P (raw.poll gate cursor s.medium).2.2 ∧
          ∀ c ∈ (raw.poll gate cursor s.medium).2.1, c.Proper := by
        cases cursor with
        | none => exact ⟨sound.medium, nofun⟩
        | some c =>
          have proper := sound.streams _ (List.mem_of_getElem? found) c rfl
          exact sustains.pull gate _ proper sound.medium
      refine ⟨polled.1, fun cursor mem => ?_⟩
      rcases List.mem_or_eq_of_mem_set mem with other | rfl
      · exact sound.streams cursor other
      · exact polled.2

theorem Sound.acts (sustains : raw.Sustains P) (config : Config) (sound : s.Sound P)
    (acts : List Act) : (acts.foldl (Caller.act (raw.backend config)) s).Sound P := by
  induction acts generalizing s with
  | nil => exact sound
  | cons a rest ih => exact ih (sound.act sustains config a)

theorem mediumAfter_sustains (sustains : raw.Sustains P) (config : Config) (acts : List Act) {m : μ}
    (holds : P m) : P (mediumAfter (raw.opened config) acts m) := by
  have first := (sustains.openStore config m holds).1
  rw [mediumAfter, RowMedium.opened, Access.bind_apply]
  rcases ran : raw.openStore config m with ⟨e | config', m'⟩ <;> rw [ran] at first
  · exact first
  · have sound : Sound P ⟨m', []⟩ := ⟨first, nofun⟩
    exact (sound.acts sustains config' acts).medium

end Caller

/-! ### Media that tell -/

def RawCall.Proper : RawCall → Prop
  | .scan lower upper _ _ => Cut.Proper lower upper
  | _ => True

def Access.noted {μ α : Type} (call : RawCall) (x : Access μ α) : Access (List RawCall × μ) α :=
  fun (calls, m) => x.onSecond (call :: calls, m)

namespace RowMedium
variable {μ : Type}

/-- No scan gives a row outside of its range. Nothing else is asked of the answers: they may fail,
leave rows out, or make rows up. -/
def Bounded (raw : RowMedium μ) : Prop :=
  ∀ lower upper d limit m page m', raw.scan lower upper d limit m = (.ok page, m') →
    ∀ e ∈ page, lower.Below e.1 ∧ upper.Above e.1

def noting (raw : RowMedium μ) : RowMedium (List RawCall × μ) where
  get key := (raw.get key).noted (.get key)
  scan lower upper d limit := (raw.scan lower upper d limit).noted (.scan lower upper d limit)
  write batch := (raw.write batch).noted (.write batch)
  close := raw.close.noted .close
  size m := raw.size m.2

def AllProper (calls : List RawCall) : Prop := ∀ call ∈ calls, call.Proper

theorem sustains_noted {α : Type} {x : Access μ α} {call : RawCall} {told : α → Prop}
    (proper : call.Proper) (right : ∀ m a m', x m = (.ok a, m') → told a) :
    (x.noted call).Sustains (fun m => AllProper m.1) told := by
  rintro ⟨calls, m⟩ earlier
  refine ⟨List.forall_mem_cons.2 ⟨proper, earlier⟩, fun a answered => ?_⟩
  exact right m a (x m).2 (Prod.ext answered rfl)

theorem Bounded.noting {raw : RowMedium μ} (bounded : raw.Bounded) :
    raw.noting.Sustains fun m => AllProper m.1 where
  get _ := sustains_noted trivial fun _ _ _ _ => trivial
  scan lower upper d limit proper := sustains_noted proper (bounded lower upper d limit)
  write _ := sustains_noted trivial fun _ _ _ _ => trivial
  close := sustains_noted trivial fun _ _ _ _ => trivial

end RowMedium

namespace Device
variable {d : Device}

def ProperSince (before : List RawCall) (d : Device) : Prop :=
  ∃ made, d.calls = made ++ before ∧ ∀ call ∈ made, call.Proper

theorem sustains_request (call : RawCall) (proper : call.Proper) (before : List RawCall) :
    (request call).Sustains (ProperSince before) := by
  rintro d ⟨made, calls, all⟩
  refine ⟨⟨call :: made, ?_, List.forall_mem_cons.2 ⟨proper, all⟩⟩, fun _ _ => trivial⟩
  rw [calls_request, calls]
  rfl

end Device

theorem deviceMedium_sustains (before : List RawCall) :
    deviceMedium.Sustains (Device.ProperSince before) where
  get key := (Device.sustains_request (.get key) trivial before).bind fun _ _ =>
    Access.sustains_medium fun _ => Access.sustains_pure _
  scan lower upper d limit proper := by
    have scanned : (Device.scan lower upper d limit).Sustains (Device.ProperSince before) :=
      (Device.sustains_request (.scan lower upper d limit) proper before).bind fun _ _ =>
        Access.sustains_medium fun _ => Access.sustains_pure _
    refine fun m holds => ⟨(scanned m holds).1, fun page answered e mem => ?_⟩
    exact Device.inside_of_scan (Prod.ext answered rfl) mem
  write batch := (Device.sustains_request (.write batch) trivial before).bind fun _ _ _ holds =>
    ⟨holds, fun _ _ => trivial⟩
  close := Device.sustains_request .close trivial before

/-- Rows in an ordered map that is given each range as it comes. -/
structure DirectRows where
  rows : RawRows := ∅
  /-- By a range that the map does not take. -/
  broken : Bool := false

namespace DirectRows

def scan (lower upper : Cut Bytes) (d : Direction) (limit : Nat) :
    Access DirectRows (List Row) := fun m =>
  if Cut.Proper lower upper then (.ok ((OrderedMap.walk m.rows lower upper d).take limit), m)
  else (.error (.storage (.device "range")), { m with broken := true })

theorem scan_of_proper {lower upper : Cut Bytes} (proper : lower.Proper upper) (d : Direction)
    (limit : Nat) (m : DirectRows) :
    scan lower upper d limit m = (.ok (m.rows.scan lower upper d limit), m) := by
  rw [scan, if_pos proper, Walk.take_eq_take_toList, OrderedMap.toList_walk, RawRows.scan_eq_take]

end DirectRows

def directMedium : RowMedium DirectRows where
  get key := do return (← Access.medium).rows.get? key
  scan := DirectRows.scan
  write batch := Access.modify fun m => { m with rows := m.rows.apply batch }
  close := pure ()
  size m := m.rows.size

theorem bounded_directMedium : directMedium.Bounded := by
  intro lower upper d limit m page m' ran e mem
  change DirectRows.scan lower upper d limit m = _ at ran
  by_cases proper : lower.Proper upper
  · rw [DirectRows.scan_of_proper proper] at ran
    cases ran
    rw [RawRows.scan_eq_take] at mem
    exact (OrderedMap.mem_between.1 (Direction.mem_arrange.1 (List.mem_of_mem_take mem))).2
  · rw [DirectRows.scan, if_neg proper] at ran
    cases ran

theorem directMedium_sustains : directMedium.Sustains fun m => m.broken = false where
  get _ := Access.sustains_medium fun _ => Access.sustains_pure _
  scan lower upper d limit proper := by
    refine fun m holds => ⟨?_, fun page answered => ?_⟩
    · change (DirectRows.scan lower upper d limit m).2.broken = false
      rw [DirectRows.scan_of_proper proper]
      exact holds
    · exact bounded_directMedium lower upper d limit m page _ (Prod.ext answered rfl)
  write _ := fun _ holds => ⟨holds, fun _ _ => trivial⟩
  close := Access.sustains_pure ()

theorem opened_deviceMedium (config : Config) : deviceMedium.opened config = do
    return Durable.backend (← Durable.openStore config) := by
  rw [RowMedium.opened, RowMedium.openStore_deviceMedium]
  simp only [RowMedium.backend_deviceMedium]

/-- Whatever a store is asked, one thing after the other, with any page size, registrations,
snapshots and conditions: each range it asks for is proper. This holds over any device, whatever
rows it holds and whichever of its calls fail, and over any medium whose scans keep to their range,
whatever else it answers. So rows in a map that is given each range as it comes never break. -/
theorem raw_ranges_proper (config : Config) (acts : List Act) :
    (∀ d : Device, ∃ made,
      (Caller.mediumAfter (do return Durable.backend (← Durable.openStore config)) acts d).calls =
        made ++ d.calls ∧ ∀ call ∈ made, call.Proper) ∧
    (∀ (μ : Type) (raw : RowMedium μ), raw.Bounded → ∀ m : μ,
      ∀ call ∈ (Caller.mediumAfter (raw.noting.opened config) acts ([], m)).1, call.Proper) ∧
    ∀ rows : RawRows,
      (Caller.mediumAfter (directMedium.opened config) acts ⟨rows, false⟩).broken = false := by
  refine ⟨fun d => ?_, fun μ raw bounded m => ?_, fun rows => ?_⟩
  · rw [← opened_deviceMedium]
    exact Caller.mediumAfter_sustains (deviceMedium_sustains d.calls) config acts ⟨[], rfl, nofun⟩
  · exact Caller.mediumAfter_sustains bounded.noting config acts (m := ([], m)) nofun
  · exact Caller.mediumAfter_sustains directMedium_sustains config acts rfl

open Layout

/-- Rows at the last places that ranges have, one of them spoilt, and the last version but one, so
that there is a number for one more commit. -/
def brimRows : RawRows :=
  (∅ : RawRows).apply [.put (dataKeyEnd [0]) [], .put versionKey
    (cell (wordBound - 2)), .put (ledgerKey ⟨wordBound - 1, 7⟩)
    (cell 0), .put (logKey (wordBound - 1) (placeBound - 1)) [0]]

def brimActs : List Act :=
  [.commit ⟨wordBound - 1, 7⟩ ⟨[Condition.all.readRange]⟩ {}, .begin 0,
    .get ⟨wordBound - 1, 1⟩ [0], .query ⟨wordBound - 1, 1⟩ (.lte [0]),
    .query ⟨0, 1⟩ (.gt []), .query ⟨0, 1⟩ (.lt []), .poll none 0, .poll none 1, .poll none 2,
    .stats, .finish 1 ⟨wordBound - 1, 7⟩]

theorem raw_ranges_proper_brim :
    directMedium.Bounded ∧
    .scan (.excluded (logKey (wordBound - 1) (placeBound - 1)))
        (.included (logKey (wordBound - 1) (placeBound - 1))) .forward 1 ∈
      (Caller.mediumAfter (directMedium.noting.opened { pageSize := 0 }) brimActs
        ([], ⟨brimRows, false⟩)).1 ∧
    (∀ call ∈ (Caller.mediumAfter (directMedium.noting.opened { pageSize := 0 }) brimActs
      ([], ⟨brimRows, false⟩)).1, call.Proper) ∧
    (Caller.mediumAfter (directMedium.opened { pageSize := 0 }) brimActs
      ⟨brimRows, false⟩).broken = false := by
  obtain ⟨_, noted, direct⟩ := raw_ranges_proper { pageSize := 0 } brimActs
  exact ⟨bounded_directMedium, by decide +kernel,
    noted DirectRows directMedium bounded_directMedium ⟨brimRows, false⟩, direct brimRows⟩

end OptimisticStore
