import OptimisticStore.Proofs.History

/-! What a store has taken on, whichever way it keeps it: the commits it has made, and the
registrations that have begun and not yet ended. Registrations are numbered in the order in
which they begin, so their read versions ascend along the list. -/

namespace OptimisticStore

structure Standing where
  history : History := []
  running : List Registration := []
  lastTxnId : Nat := 0

namespace Standing

structure Sound (a : Standing) : Prop where
  ordered : a.running.Pairwise fun r s => r.readVersion ≤ s.readVersion ∧ r.txnId < s.txnId
  bounded : ∀ r ∈ a.running, r.readVersion ≤ a.history.length ∧ r.txnId ≤ a.lastTxnId

theorem sound_empty : Sound {} := ⟨List.Pairwise.nil, by simp⟩

def next (a : Standing) : Registration := ⟨a.history.length, a.lastTxnId + 1⟩

def begun (a : Standing) : Standing :=
  { a with running := a.running ++ [a.next], lastTxnId := a.lastTxnId + 1 }

def committed (a : Standing) (w : WriteSet) : Standing := { a with history := a.history ++ [w] }

def restrict (a : Standing) (keep : Registration → Bool) : Standing :=
  { a with running := a.running.filter keep }

/-- No registration reads below this version. -/
def horizon (a : Standing) : Nat := (a.running.head?.map (·.readVersion)).getD a.history.length

theorem horizon_begun (a : Standing) : a.begun.horizon = a.horizon := by
  cases running : a.running <;> simp [horizon, begun, next, running]

theorem horizon_committed {a : Standing} {r : Registration} (hr : r ∈ a.running) (w : WriteSet) :
    (a.committed w).horizon = a.horizon := by
  cases running : a.running with
  | nil => simp [running] at hr
  | cons first rest => simp [horizon, committed, running]

namespace Sound
variable {a : Standing}

theorem begun (sound : a.Sound) : a.begun.Sound where
  ordered := by
    rw [Standing.begun, List.pairwise_append]
    refine ⟨sound.ordered, List.pairwise_singleton .., ?_⟩
    intro r hr s hs
    obtain rfl := List.mem_singleton.1 hs
    exact ⟨(sound.bounded r hr).1, Nat.lt_succ_of_le (sound.bounded r hr).2⟩
  bounded := by
    intro r hr
    rcases List.mem_append.1 hr with hr | hr
    · exact ⟨(sound.bounded r hr).1, Nat.le_succ_of_le (sound.bounded r hr).2⟩
    · obtain rfl := List.mem_singleton.1 hr
      exact ⟨Nat.le_refl _, Nat.le_refl _⟩

theorem committed (sound : a.Sound) (w : WriteSet) : (a.committed w).Sound where
  ordered := sound.ordered
  bounded r hr := by
    rw [Standing.committed, List.length_append]
    exact ⟨Nat.le_add_right_of_le (sound.bounded r hr).1, (sound.bounded r hr).2⟩

theorem restrict (sound : a.Sound) (keep : Registration → Bool) : (a.restrict keep).Sound where
  ordered := sound.ordered.sublist List.filter_sublist
  bounded r hr := sound.bounded r (List.mem_filter.1 hr).1

theorem horizon_le (sound : a.Sound) {r : Registration} (hr : r ∈ a.running) :
    a.horizon ≤ r.readVersion := by
  have ordered := sound.ordered
  cases running : a.running with
  | nil => simp [running] at hr
  | cons first rest =>
    rw [running] at hr ordered
    have first_is : a.horizon = first.readVersion := by simp [horizon, running]
    rw [first_is]
    rcases List.mem_cons.1 hr with rfl | hr
    · exact Nat.le_refl _
    · exact ((List.pairwise_cons.1 ordered).1 r hr).1

theorem horizon_le_length (sound : a.Sound) : a.horizon ≤ a.history.length := by
  cases running : a.running with
  | nil => simp [horizon, running]
  | cons first rest =>
    have first_is : a.horizon = first.readVersion := by simp [horizon, running]
    rw [first_is]
    exact (sound.bounded first (by simp [running])).1

theorem horizon_le_restrict (sound : a.Sound) (keep : Registration → Bool) :
    a.horizon ≤ (a.restrict keep).horizon := by
  cases running : (a.restrict keep).running with
  | nil =>
    have top : (a.restrict keep).horizon = a.history.length := by simp [horizon, running]; rfl
    rw [top]
    exact sound.horizon_le_length
  | cons first rest =>
    have first_is : (a.restrict keep).horizon = first.readVersion := by simp [horizon, running]
    have mem : first ∈ (a.restrict keep).running := by simp [running]
    rw [first_is]
    exact sound.horizon_le (List.mem_filter.1 mem).1

theorem eq_of_txnId (sound : a.Sound) {r s : Registration} (hr : r ∈ a.running)
    (hs : s ∈ a.running) (same : r.txnId = s.txnId) : r = s := by
  obtain ⟨i, hi, rfl⟩ := List.getElem_of_mem hr
  obtain ⟨j, hj, rfl⟩ := List.getElem_of_mem hs
  have ordered := List.pairwise_iff_getElem.1 sound.ordered
  rcases Nat.lt_trichotomy i j with before | rfl | after
  · exact absurd same (Nat.ne_of_lt (ordered i j hi hj before).2)
  · rfl
  · exact absurd same.symm (Nat.ne_of_lt (ordered j i hj hi after).2)

theorem nodup (sound : a.Sound) : a.running.Nodup :=
  sound.ordered.imp fun before same => by
    rw [same] at before
    exact Nat.lt_irrefl _ before.2

theorem erase_eq_filter (sound : a.Sound) (r : Registration) :
    a.running.erase r = a.running.filter (· ≠ r) := by
  rw [sound.nodup.erase_eq_filter]
  congr 1
  funext s
  by_cases same : s = r <;> simp [same]

end Sound
end Standing
end OptimisticStore
