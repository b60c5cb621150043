import OptimisticStore.Proofs.Attempts
import OptimisticStore.Proofs.Streaming

/-! Names and numbers of an engine. A name stands for one session, and the number of an attempt
for one session at most: numbers are given in order and never again. So a stream, which knows
its attempt by the number, belongs to at most one session, for as long as that attempt lasts. -/

namespace OptimisticStore

theorem lookup_eq_some_of_mem {α : Type} {l : List (String × α)} (once : (l.map (·.1)).Nodup)
    {name : String} {x : α} (mem : (name, x) ∈ l) : l.lookup name = some x := by
  induction l with
  | nil => cases mem
  | cons e l ih =>
    rw [List.map_cons, List.nodup_cons] at once
    rw [List.lookup_cons]
    rcases List.mem_cons.1 mem with rfl | mem
    · rw [beq_self_eq_true]
    · have ne : name ≠ e.1 := by
        rintro rfl
        exact once.1 (List.mem_map.2 ⟨_, mem, rfl⟩)
      rw [beq_false_of_ne ne]
      exact ih once.2 mem

namespace Engine
variable {μ σ κ : Type}

structure Numbered (g : Engine μ σ κ) : Prop where
  names : (g.sessions.map (·.1)).Nodup
  sessions : ∀ name s, g.session? name = some s → s.attempt.serial < g.attempts
  streams : ∀ stream st, g.stream? stream = some st → st.serial < g.attempts
  apart : ∀ name other s s', g.session? name = some s → g.session? other = some s' →
    s.attempt.serial = s'.attempt.serial → name = other

theorem numbered_fresh (b : Backend μ σ κ) (config : Config) (m : μ) :
    ({ backend := b, config, medium := m } : Engine μ σ κ).Numbered where
  names := .nil
  sessions _ _ := nofun
  streams _ _ := nofun
  apart _ _ _ _ := nofun

theorem session?_setSession (g : Engine μ σ κ) (name other : String) (s : Session σ) :
    (g.setSession name s).session? other = if other = name then some s else g.session? other :=
  lookup_set g.sessions name other s

theorem session?_dropSession_eq (g : Engine μ σ κ) (name other : String) :
    (g.dropSession name).session? other = if other = name then none else g.session? other :=
  lookup_drop g.sessions name other

theorem dropSession_of_absent {g : Engine μ σ κ} {name : String}
    (absent : g.session? name = none) : g.dropSession name = g := by
  have kept : g.sessions.filter (·.1 != name) = g.sessions := by
    rw [List.filter_eq_self]
    intro e mem
    have other := List.lookup_eq_none_iff.1 absent e mem
    rw [bne_iff_ne] at other ⊢
    exact other.symm
  rw [dropSession, kept]

theorem names_setSession {g : Engine μ σ κ} (once : (g.sessions.map (·.1)).Nodup)
    (name : String) (s : Session σ) : ((g.setSession name s).sessions.map (·.1)).Nodup := by
  rw [setSession, List.map_cons, List.nodup_cons]
  refine ⟨fun mem => ?_, once.sublist (List.filter_sublist.map _)⟩
  obtain ⟨e, kept, same⟩ := List.mem_map.1 mem
  have other : e.1 ≠ name := by simpa using (List.mem_filter.1 kept).2
  exact other same

section Keeping
variable {g g' : Engine μ σ κ} (numbered : g.Numbered)
include numbered

theorem isRunning_iff (serial : Nat) :
    g.isRunning serial = true ↔ ∃ name s, g.session? name = some s ∧ s.attempt.serial = serial := by
  constructor
  · intro running
    obtain ⟨⟨name, s⟩, mem, same⟩ := List.any_eq_true.1 running
    exact ⟨name, s, lookup_eq_some_of_mem numbered.names mem, by simpa using same⟩
  · rintro ⟨name, s, found, rfl⟩
    exact isRunning_of_session found

namespace Numbered

theorem same (sessions : g'.sessions = g.sessions) (streams : g'.streams = g.streams)
    (attempts : g.attempts ≤ g'.attempts) : g'.Numbered := by
  have session (name : String) : g'.session? name = g.session? name := by
    rw [session?, session?, sessions]
  have stream : g'.stream? = g.stream? := congrArg (fun l stream => l.lookup stream) streams
  refine ⟨sessions ▸ numbered.names, fun name s found => ?_, fun name st found => ?_,
    fun name other s s' found found' => ?_⟩
  · exact Nat.lt_of_lt_of_le (numbered.sessions name s (session name ▸ found)) attempts
  · exact Nat.lt_of_lt_of_le (numbered.streams name st (stream ▸ found)) attempts
  · rw [session] at found found'
    exact numbered.apart name other s s' found found'

theorem dropSession (name : String) : (g.dropSession name).Numbered where
  names := numbered.names.sublist (List.filter_sublist.map _)
  sessions other s found := by
    rw [session?_dropSession_eq] at found
    split at found
    · cases found
    · exact numbered.sessions other s found
  streams := numbered.streams
  apart one other s s' found found' := by
    rw [session?_dropSession_eq] at found found'
    split at found
    · cases found
    · split at found'
      · cases found'
      · exact numbered.apart one other s s' found found'

theorem setSession {name : String} {s : Session σ} (given : s.attempt.serial < g.attempts)
    (alone : ∀ other s', other ≠ name → g.session? other = some s' →
      s'.attempt.serial ≠ s.attempt.serial) : (g.setSession name s).Numbered where
  names := names_setSession numbered.names name s
  sessions other s' found := by
    rw [session?_setSession] at found
    split at found
    · cases found
      exact given
    · exact numbered.sessions other s' found
  streams := numbered.streams
  apart one other s₁ s₂ found found' same := by
    rw [session?_setSession] at found found'
    split at found <;> split at found'
    · next here here' => exact here.trans here'.symm
    · next here there =>
      cases found
      exact absurd same.symm (alone other s₂ there found')
    · next there here =>
      cases found'
      exact absurd same (alone one s₁ there found)
    · exact numbered.apart one other s₁ s₂ found found' same

theorem goOn {name : String} {s s' : Session σ} (found : g.session? name = some s)
    (same : s'.attempt.serial = s.attempt.serial) : (g.setSession name s').Numbered := by
  refine numbered.setSession (same ▸ numbered.sessions name s found) ?_
  intro other s'' ne found' alike
  exact ne (numbered.apart other name s'' s found' found (alike.trans same))

theorem setStreams {stream : String} {left : Option (Stream κ)}
    (sessions : g'.sessions = g.sessions) (attempts : g'.attempts = g.attempts)
    (streams : g'.stream? = g.stream?.set stream left)
    (given : ∀ st, left = some st → st.serial < g.attempts) : g'.Numbered := by
  have session (name : String) : g'.session? name = g.session? name := by
    rw [session?, session?, sessions]
  refine ⟨sessions ▸ numbered.names, fun name s found => ?_, fun other st found => ?_,
    fun name other s s' found found' => ?_⟩
  · exact attempts ▸ numbered.sessions name s (session name ▸ found)
  · rw [streams, Names.set] at found
    rw [attempts]
    split at found
    · exact given st found
    · exact numbered.streams other st found
  · rw [session] at found found'
    exact numbered.apart name other s s' found found'

end Numbered
end Keeping
end Engine
end OptimisticStore
