import Mathlib.Logic.Equiv.List
import OptimisticStore.OrderedMap.Table
import OptimisticStore.Proofs.Walks

/-! A table of named maps is a set of handles. Names are numbered by their characters, so no two of
them are one handle, and what is done to the table is done to the handles by updates: behind a name
and behind its handle there is the same map, with the same root. A walk answers as it would on its
own, whatever is done to the table between its calls. -/

namespace OptimisticStore

open OrderedMap

namespace MapTable

/-- What is done to a table. -/
inductive Edit where
  | insertMany (name : String) (entries : List (Bytes × Bytes))
  | removeMany (name : String) (keys : List Bytes)
  | collect (name : String) (entries : List (Bytes × Bytes))
  | clone (name other : String)
  | openWalk (name walk : String) (lower upper : Cut Bytes) (direction : Direction)
  | step (walk : String)

def edit (t : MapTable) : Edit → MapTable
  | .insertMany name entries => t.insertMany name entries
  | .removeMany name keys => (t.removeMany name keys).2
  | .collect name entries => (t.set name ∅).insertMany name entries
  | .clone name other => t.clone name other
  | .openWalk name walk lower upper direction => t.openWalk name walk lower upper direction
  | .step walk => (t.step walk).elim t (·.2)

def handle (name : String) : Nat := Encodable.encode (name.toList.map Char.toNat)

theorem handle_injective : Function.Injective handle := by
  intro name other same
  have codes := Encodable.encode_injective same
  have chars : Function.Injective Char.toNat := fun c d same => Char.ext (UInt32.toNat_inj.1 same)
  exact String.ext (List.map_injective_iff.2 chars codes)

/-- What an edit does to the handles. Walks are no business of theirs. -/
def Edit.updates : Edit → List (Update Bytes Bytes)
  | .insertMany name entries => entries.map fun (key, value) => .insert (handle name) key value
  | .removeMany name keys => keys.map (.remove (handle name))
  | .collect name entries => [.collect (handle name) entries]
  | .clone name other => [.clone (handle name) (handle other)]
  | .openWalk .. | .step _ => []

theorem edit_step (t : MapTable) (walk : String) :
    (t.edit (.step walk)).maps = t.maps ∧ (t.edit (.step walk)).updates = t.updates := by
  rw [edit, step]
  cases t.walks.lookup walk with
  | none => exact ⟨rfl, rfl⟩
  | some w =>
    rw [Option.map_some, Option.elim_some]
    split <;> exact ⟨rfl, rfl⟩

/-! ### The maps -/

structure Mirrors (t : MapTable) (s : Handles Bytes Bytes) : Prop where
  map name : t.map name = s.map (handle name)
  updates : t.updates = s.updates

namespace Mirrors
variable {t : MapTable} {s : Handles Bytes Bytes} (mirrors : Mirrors t s)
include mirrors

theorem set (name : String) (m : OrderedMap Bytes Bytes) :
    Mirrors (t.set name m) (s.set (handle name) m) where
  map other := by
    have found : (t.set name m).maps.lookup other = _ := lookup_set t.maps name other m
    change ((t.set name m).maps.lookup other).getD ∅ = if handle other = handle name then m else _
    rw [found]
    by_cases here : other = name
    · rw [if_pos here, if_pos (congrArg handle here), Option.getD_some]
    · rw [if_neg here, if_neg (handle_injective.ne here)]
      exact mirrors.map other
  updates := congrArg (· + 1) mirrors.updates

theorem insert (name : String) (e : Bytes × Bytes) :
    Mirrors (t.insert name e.1 e.2) (s.insert (handle name) e) := by
  rw [MapTable.insert, Handles.insert, mirrors.map, mirrors.updates]
  exact mirrors.set name _

theorem insertMany (name : String) (entries : List (Bytes × Bytes)) :
    Mirrors (t.insertMany name entries) (entries.foldl (Handles.insert · (handle name)) s) := by
  induction entries generalizing t s with
  | nil => exact mirrors
  | cons e entries ih => exact ih (mirrors.insert name e)

theorem remove (name : String) (key : Bytes) :
    Mirrors (t.remove name key).2 (s.update (.remove (handle name) key)) := by
  rw [MapTable.remove, Handles.update, mirrors.map, mirrors.updates]
  exact mirrors.set name _

theorem removeMany (name : String) (keys : List Bytes) :
    Mirrors (t.removeMany name keys).2
      ((keys.map (Update.remove (handle name))).foldl Handles.update s) := by
  induction keys generalizing t s with
  | nil => exact mirrors
  | cons key keys ih => exact ih (mirrors.remove name key)

theorem of_maps {t' : MapTable} (maps : t'.maps = t.maps) (updates : t'.updates = t.updates) :
    Mirrors t' s where
  map name := by
    rw [MapTable.map, maps]
    exact mirrors.map name
  updates := updates.trans mirrors.updates

theorem edit (e : Edit) : Mirrors (t.edit e) (e.updates.foldl Handles.update s) := by
  cases e with
  | insertMany name entries =>
    rw [Edit.updates, List.foldl_map]
    exact mirrors.insertMany name entries
  | removeMany name keys => exact mirrors.removeMany name keys
  | collect name entries => exact (mirrors.set name ∅).insertMany name entries
  | clone name other =>
    rw [MapTable.edit, MapTable.clone, mirrors.map other]
    exact mirrors.set name _
  | openWalk name walk lower upper direction => exact mirrors.of_maps rfl rfl
  | step walk => exact mirrors.of_maps (t.edit_step walk).1 (t.edit_step walk).2

end Mirrors

/-- Whatever is done to a table, what it has behind its names is what the updates make of maps
behind handles. -/
theorem mirrors_after (edits : List Edit) :
    Mirrors (edits.foldl edit {}) (Handles.after (edits.flatMap Edit.updates)) := by
  have run {t : MapTable} {s : Handles Bytes Bytes} (mirrors : Mirrors t s) :
      Mirrors (edits.foldl edit t) ((edits.flatMap Edit.updates).foldl Handles.update s) := by
    induction edits generalizing t s with
    | nil => exact mirrors
    | cons e edits ih =>
      rw [List.flatMap_cons, List.foldl_append]
      exact ih (mirrors.edit e)
  exact run ⟨fun _ => rfl, rfl⟩

/-- So the maps of a table are balanced, and hold what has been put into them. -/
theorem maps_after (edits : List Edit) (name : String) :
    let m := (edits.foldl edit {}).map name
    m.tree.Balanced ∧
      Represents m (Handles.contents (edits.flatMap Edit.updates) (handle name)) := by
  dsimp only
  rw [(mirrors_after edits).map name]
  exact ⟨Handles.kept_balanced.after _ _, represents_of_get? ((Handles.Agrees.after _).told _)⟩

/-! ### The walks -/

section Walks
variable {t : MapTable} {walk : String} {w : Walk Bytes Bytes}

def Edit.opens (walk : String) : Edit → Bool
  | .openWalk _ other .. => other == walk
  | _ => false

def Edit.steps (walk : String) : Edit → Bool
  | .step other => other == walk
  | _ => false

theorem eq_step_of_steps {e : Edit} (steps : e.steps walk = true) : e = .step walk := by
  cases e with
  | step other => exact congrArg Edit.step (eq_of_beq steps)
  | _ => cases steps

/-- The answers to the calls of one walk, among all that is done. -/
def answersOf (walk : String) (t : MapTable) : List Edit → List (Option (Bytes × Bytes))
  | [] => []
  | e :: edits =>
    let answer := if e.steps walk then (t.step walk).map (·.1) else none
    answer.toList ++ answersOf walk (t.edit e) edits

theorem walks_insertMany (t : MapTable) (name : String) (entries : List (Bytes × Bytes)) :
    (t.insertMany name entries).walks = t.walks := by
  induction entries generalizing t with
  | nil => rfl
  | cons e entries ih => exact ih (t.insert name e.1 e.2)

theorem walks_removeMany (t : MapTable) (name : String) (keys : List Bytes) :
    (t.removeMany name keys).2.walks = t.walks := by
  induction keys generalizing t with
  | nil => rfl
  | cons key keys ih => exact ih (t.remove name key).2

/-- A call gives the head of what the walk has left, and leaves the tail. -/
theorem step_advance (found : t.walks.lookup walk = some w) :
    ∃ w', (t.step walk).map (·.1) = some w.advance.1 ∧
      (t.edit (.step walk)).walks.lookup walk = some w' ∧ w'.toList = w.advance.2.toList := by
  obtain ⟨_, tail⟩ := w.advance_toList
  rw [edit, step, found, Option.map_some, Option.map_some, Option.elim_some, tail, Walk.advance]
  cases next : w.next with
  | none =>
    have nothing := Walk.toList_of_next_eq_none next
    exact ⟨w, rfl, found, by rw [nothing, List.tail_nil]⟩
  | some given =>
    obtain ⟨entry, rest⟩ := given
    have left := Walk.toList_of_next_eq_some next
    have there := (lookup_set t.walks walk walk rest).trans (if_pos rfl)
    exact ⟨rest, rfl, there, by rw [left, List.tail_cons]⟩

theorem lookup_edit {e : Edit} (opens : e.opens walk = false) (steps : e.steps walk = false) :
    (t.edit e).walks.lookup walk = t.walks.lookup walk := by
  cases e with
  | insertMany name entries => exact congrArg _ (t.walks_insertMany name entries)
  | removeMany name keys => exact congrArg _ (t.walks_removeMany name keys)
  | collect name entries => exact congrArg _ ((t.set name ∅).walks_insertMany name entries)
  | clone name other => rfl
  | openWalk name other lower upper direction =>
    have apart : walk ≠ other := fun same => by simp [Edit.opens, same] at opens
    exact (lookup_set t.walks other walk _).trans (if_neg apart)
  | step other =>
    have apart : walk ≠ other := fun same => by simp [Edit.steps, same] at steps
    rw [edit, step]
    cases t.walks.lookup other with
    | none => rfl
    | some w =>
      rw [Option.map_some, Option.elim_some]
      split
      · rfl
      · exact (lookup_set t.walks other walk _).trans (if_neg apart)

theorem answersOf_eq (found : t.walks.lookup walk = some w) (edits : List Edit)
    (kept : ∀ e ∈ edits, e.opens walk = false) :
    t.answersOf walk edits = w.answers (edits.countP (·.steps walk)) := by
  induction edits generalizing t w with
  | nil => rfl
  | cons e edits ih =>
    have kept' (f : Edit) (mem : f ∈ edits) := kept f (List.mem_cons_of_mem _ mem)
    rw [answersOf, List.countP_cons]
    cases steps : e.steps walk with
    | false =>
      have stays := (lookup_edit (kept e List.mem_cons_self) steps).trans found
      exact ih stays kept'
    | true =>
      obtain rfl := eq_step_of_steps steps
      obtain ⟨w', given, there, left⟩ := step_advance found
      have others := ih there kept'
      rw [Walk.answers_eq, left, ← Walk.answers_eq] at others
      rw [if_pos rfl, given, others]
      rfl

/-- Once it has been opened a walk answers as it would alone. -/
theorem answersOf_openWalk (t : MapTable) (name walk : String) (lower upper : Cut Bytes)
    (d : Direction) (edits : List Edit) (kept : ∀ e ∈ edits, e.opens walk = false) :
    (t.openWalk name walk lower upper d).answersOf walk edits =
      ((t.map name).walk lower upper d).answers (edits.countP (·.steps walk)) :=
  answersOf_eq ((lookup_set t.walks walk walk _).trans (if_pos rfl)) edits kept

end Walks

end MapTable
end OptimisticStore
