import OptimisticStore.Proofs.Stepping

/-! What one observation can change for a session and for a stream. A session goes on under the
flag that its call was begun with, until its name is taken over; a stream stays with the session
that opened it, until its name is given to another one; and what may not go on once may not go on
later. So a chronicle only ever narrows what it has told. -/

namespace OptimisticStore

def Event.Enters (e : Event) (name : String) : Prop :=
  ∃ l, e = .transact name l ∨ e = .snapshot name l

def Event.Opens (e : Event) (stream : String) : Prop :=
  ∃ name condition, e = .openStream name condition stream

namespace Chronicle

/-! ### Sessions -/

/-- The name stands for the same call as before, if it still stands for any. -/
def Continues (c c' : Chronicle) (name : String) : Prop :=
  ∀ story, c'.running name = some story →
    ∃ before, c.running name = some before ∧ before.liveness = story.liveness

section Sessions
variable (c : Chronicle) (name other : String)

variable {c} in
theorem continues_of_same {c' : Chronicle} (same : c'.running name = c.running name) :
    c.Continues c' name := fun story told => ⟨story, same ▸ told, rfl⟩

variable {c name} in
theorem Continues.trans {c' c'' : Chronicle} (first : c.Continues c' name)
    (second : c'.Continues c'' name) : c.Continues c'' name := by
  intro story told
  obtain ⟨mid, told', same⟩ := second story told
  obtain ⟨before, told'', same'⟩ := first mid told'
  exact ⟨before, told'', same'.trans same⟩

theorem continues_refl : c.Continues c name := continues_of_same name rfl

theorem continues_setRunning {s : Story}
    (before : other = name → ∃ s', c.running name = some s' ∧ s'.liveness = s.liveness) :
    c.Continues (c.setRunning other s) name := by
  intro story told
  change c.running.set other (some s) name = some story at told
  by_cases same : name = other
  · rw [same, c.running.set_same] at told
    cases told
    exact before same.symm
  · rw [c.running.set_other same] at told
    exact ⟨story, told, rfl⟩

theorem continues_note (call : Call) : c.Continues (c.note other call) name := by
  rw [note]
  cases told : c.running other with
  | none => exact c.continues_refl name
  | some s => exact c.continues_setRunning name other fun same => ⟨s, same ▸ told, rfl⟩

theorem continues_forget : c.Continues (c.forget other) name := by
  intro story told
  change c.running.set other none name = some story at told
  by_cases same : name = other
  · rw [same, c.running.set_same] at told
    cases told
  · rw [c.running.set_other same] at told
    exact ⟨story, told, rfl⟩

theorem running_place (s : Story) : (c.place s).running = c.running := by
  rw [place]
  split <;> rfl

theorem continues_leave : c.Continues (c.leave other) name := by
  rw [leave]
  split
  · exact (c.continues_forget name other).trans (continues_of_same name rfl)
  · exact c.continues_refl name

theorem continues_conclude : c.Continues (c.conclude other) name := by
  rw [conclude]
  split
  · exact (c.continues_forget name other).trans
      (continues_of_same name (congrFun (running_place _ _) name))
  · exact c.continues_refl name

theorem continues_restart (v : Nat) : c.Continues (c.restart other v) name := by
  rw [restart]
  cases told : c.running other with
  | none => exact c.continues_refl name
  | some s =>
    by_cases same : other = name
    · intro story told'
      change (c.leave other).running.set other _ name = some story at told'
      rw [same, Names.set_same] at told'
      cases told'
      exact ⟨s, same ▸ told, rfl⟩
    · exact (c.continues_leave name other).trans
        (continues_setRunning _ name other fun alike => absurd alike same)

theorem continues_polled (stream : String) (item : Option Item) :
    c.Continues (c.polled stream item) name := by
  rw [polled]
  cases c.owner stream with
  | none => exact c.continues_refl name
  | some mine =>
    rcases item with _ | _ | row
    · dsimp only
      split
      · exact (c.continues_note name mine _).trans (continues_of_same name rfl)
      · exact continues_of_same name rfl
    · exact c.continues_refl name
    · exact c.continues_note name mine _

theorem continues_observe {e : Event} (stays : ¬ e.Enters name) (a : Answer) :
    c.Continues (c.observe e a) name := by
  have entered (other : String) (l : Liveness String) (v : Nat) (apart : other ≠ name) :
      c.Continues (c.enter other l v) name :=
    (c.continues_leave name other).trans
      (continues_setRunning _ name other fun same => absurd same apart)
  unfold observe
  split
  · next other l _ r => exact entered other l _ fun same => stays ⟨l, .inl (same ▸ rfl)⟩
  · next other l v => exact entered other l v fun same => stays ⟨l, .inr (same ▸ rfl)⟩
  · exact c.continues_note name _ _
  · exact c.continues_note name _ _
  · exact c.continues_note name _ _
  · exact c.continues_note name _ _
  · exact c.continues_note name _ _
  · exact (c.continues_note name _ _).trans (continues_of_same name rfl)
  · exact c.continues_polled name _ _
  · exact c.continues_conclude name _
  · exact c.continues_restart name _ _
  · exact c.continues_leave name _
  · exact c.continues_leave name _
  · exact c.continues_leave name _
  · exact continues_of_same name rfl
  · exact continues_of_same name (congrFun (c.running_place _) name)
  · exact continues_of_same name (congrFun (c.running_place _) name)
  · exact continues_of_same name rfl
  · exact c.continues_refl name

end Sessions

/-! ### Streams -/

section Streams
variable (c : Chronicle) (stream name : String)

theorem owner_note (call : Call) : (c.note name call).owner = c.owner := by
  rw [note]
  cases c.running name <;> rfl

theorem owner_place (s : Story) : (c.place s).owner = c.owner := by
  rw [place]
  split <;> rfl

variable {c stream} in
theorem owner_of_forget {mine : String} (owned : (c.forget name).owner stream = some mine) :
    c.owner stream = some mine ∧ mine ≠ name := by
  change (c.owner stream).filter _ = some mine at owned
  rw [Option.filter_eq_some_iff] at owned
  exact ⟨owned.1, bne_iff_ne.1 owned.2⟩

variable {c stream} in
theorem owner_of_own {other mine : String} {owner : Option String}
    (apart : other = stream → owner = none)
    (owned : (c.own other owner).owner stream = some mine) : c.owner stream = some mine := by
  change c.owner.set other owner stream = some mine at owned
  by_cases same : stream = other
  · rw [same, c.owner.set_same, apart same.symm] at owned
    cases owned
  · rwa [c.owner.set_other same] at owned

theorem owner_of_leave (anchored : ∀ mine, c.owner stream = some mine → c.running mine ≠ none)
    {mine : String} (owned : (c.leave name).owner stream = some mine) :
    c.owner stream = some mine ∧ mine ≠ name := by
  rw [leave] at owned
  cases told : c.running name with
  | none =>
    rw [told] at owned
    refine ⟨owned, ?_⟩
    rintro rfl
    exact anchored mine owned told
  | some s =>
    rw [told] at owned
    exact owner_of_forget name owned

theorem owner_of_polled {other mine : String} {item : Option Item}
    (owned : (c.polled other item).owner stream = some mine) : c.owner stream = some mine := by
  rw [polled] at owned
  cases asked : c.owner other with
  | none =>
    rw [asked] at owned
    exact owned
  | some name =>
    rw [asked] at owned
    rcases item with _ | _ | row
    · dsimp only at owned
      split at owned
      · have owned := owner_of_own (fun _ => rfl) owned
        rwa [owner_note] at owned
      · exact owner_of_own (fun _ => rfl) owned
    · exact owned
    · rwa [owner_note] at owned

theorem owner_of_observe (anchored : ∀ mine, c.owner stream = some mine → c.running mine ≠ none)
    {e : Event} (kept : ¬ e.Opens stream) {a : Answer} {mine : String}
    (owned : (c.observe e a).owner stream = some mine) :
    c.owner stream = some mine := by
  unfold observe at owned
  split at owned
  · exact (c.owner_of_leave stream _ anchored owned).1
  · exact (c.owner_of_leave stream _ anchored owned).1
  · rwa [owner_note] at owned
  · rwa [owner_note] at owned
  · rwa [owner_note] at owned
  · rwa [owner_note] at owned
  · rwa [owner_note] at owned
  · next name condition opened =>
    have owned := owner_of_own (fun same => absurd ⟨name, condition, same ▸ rfl⟩ kept) owned
    rwa [owner_note] at owned
  · exact c.owner_of_polled stream owned
  · rw [conclude] at owned
    split at owned
    · rw [owner_place] at owned
      exact (owner_of_forget _ owned).1
    · exact owned
  · rw [restart] at owned
    split at owned
    · exact (c.owner_of_leave stream _ anchored owned).1
    · exact owned
  · exact (c.owner_of_leave stream _ anchored owned).1
  · exact (c.owner_of_leave stream _ anchored owned).1
  · exact (c.owner_of_leave stream _ anchored owned).1
  · exact owned
  · rwa [owner_place] at owned
  · rwa [owner_place] at owned
  · exact owned
  · exact owned

theorem observe_of_owner (anchored : ∀ mine, c.owner stream = some mine → c.running mine ≠ none)
    {e : Event} {a : Answer} {mine : String} (enters : e.Enters mine)
    (owned : (c.observe e a).owner stream = some mine) : c.observe e a = c := by
  have gone (l : Liveness String) (v : Nat) (owned : (c.enter mine l v).owner stream = some mine) :
      False := (c.owner_of_leave stream mine anchored owned).2 rfl
  obtain ⟨l, rfl | rfl⟩ := enters
  · cases a with
    | begun _ r => exact (gone l _ owned).elim
    | _ => rfl
  · cases a with
    | viewing v => exact (gone l _ owned).elim
    | _ => rfl

end Streams

/-! ### What may go on -/

section Opening
variable (c : Chronicle)

theorem isOpen_note (name : String) (call : Call) : (c.note name call).isOpen = c.isOpen := by
  rw [note]
  cases c.running name <;> rfl

theorem isOpen_leave (name : String) : (c.leave name).isOpen = c.isOpen := by
  rw [leave]
  cases c.running name <;> rfl

theorem isOpen_place (s : Story) : (c.place s).isOpen = c.isOpen := by
  rw [place]
  split <;> rfl

theorem isOpen_conclude (name : String) : (c.conclude name).isOpen = c.isOpen := by
  rw [conclude]
  cases c.running name with
  | none => rfl
  | some s => exact isOpen_place _ s

theorem isOpen_restart (name : String) (v : Nat) : (c.restart name v).isOpen = c.isOpen := by
  rw [restart]
  cases c.running name with
  | none => rfl
  | some s => exact c.isOpen_leave name

theorem isOpen_polled (stream : String) (item : Option Item) :
    (c.polled stream item).isOpen = c.isOpen := by
  rw [polled]
  cases c.owner stream with
  | none => rfl
  | some name =>
    rcases item with _ | _ | row
    · dsimp only
      split
      · exact c.isOpen_note name _
      · rfl
    · rfl
    · exact c.isOpen_note name _

theorem isOpen_of_observe {e : Event} {a : Answer} {l : Liveness String}
    (goes_on : (c.observe e a).isOpen l = true) : c.isOpen l = true := by
  unfold observe at goes_on
  split at goes_on
  · exact c.isOpen_leave _ ▸ goes_on
  · exact c.isOpen_leave _ ▸ goes_on
  · rwa [isOpen_note] at goes_on
  · rwa [isOpen_note] at goes_on
  · rwa [isOpen_note] at goes_on
  · rwa [isOpen_note] at goes_on
  · rwa [isOpen_note] at goes_on
  · exact c.isOpen_note _ _ ▸ goes_on
  · rwa [isOpen_polled] at goes_on
  · rwa [isOpen_conclude] at goes_on
  · rwa [isOpen_restart] at goes_on
  · rwa [isOpen_leave] at goes_on
  · rwa [isOpen_leave] at goes_on
  · rwa [isOpen_leave] at goes_on
  · exact c.isOpen_of_cancel goes_on
  · rwa [isOpen_place] at goes_on
  · rwa [isOpen_place] at goes_on
  · cases goes_on
  · exact goes_on

end Opening

def Stopped (c : Chronicle) (name : String) : Prop :=
  ∀ story, c.running name = some story → c.isOpen story.liveness = false

theorem Stopped.observe {c : Chronicle} {name : String} (stopped : c.Stopped name) {e : Event}
    (stays : ¬ e.Enters name) (a : Answer) : (c.observe e a).Stopped name := by
  intro story told
  obtain ⟨before, told', same⟩ := c.continues_observe name stays a story told
  have closed := stopped before told'
  rw [same] at closed
  exact Bool.eq_false_iff.2 fun goes_on =>
    Bool.eq_false_iff.1 closed (c.isOpen_of_observe goes_on)

def Shuts (c : Chronicle) (stream : String) : Prop :=
  ∀ name, c.owner stream = some name → c.Stopped name

theorem Shuts.observe {c : Chronicle} {stream : String} (shut : c.Shuts stream)
    (anchored : ∀ mine, c.owner stream = some mine → c.running mine ≠ none) {e : Event}
    (kept : ¬ e.Opens stream) (a : Answer) : (c.observe e a).Shuts stream := by
  intro name owned
  have stopped := shut name (c.owner_of_observe stream anchored kept owned)
  by_cases enters : e.Enters name
  · rwa [c.observe_of_owner stream anchored enters owned]
  · exact stopped.observe enters a

end Chronicle
end OptimisticStore
