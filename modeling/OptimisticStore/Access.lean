import OptimisticStore.Error

/-! Access to a medium: a computation on its state that gives a result or fails. A failure
keeps what was done to the medium before it. -/

namespace OptimisticStore

def Access (μ α : Type) : Type := μ → Except Error α × μ

namespace Access
variable {μ α β : Type}

instance : Monad (Access μ) where
  pure a := fun m => (.ok a, m)
  bind x f := fun m =>
    match x m with
    | (.ok a, m) => f a m
    | (.error e, m) => (.error e, m)

def fail (e : Error) : Access μ α := fun m => (.error e, m)

def ofExcept : Except Error α → Access μ α
  | .ok a => pure a
  | .error e => fail e

def medium : Access μ μ := fun m => (.ok m, m)

def modify (f : μ → μ) : Access μ Unit := fun m => (.ok (), f m)

/-- Goes on with the outcome, whichever it is. -/
def outcome (x : Access μ α) : Access μ (Except Error α) := fun m =>
  match x m with
  | (r, m) => (.ok r, m)

def onSecond {τ : Type} (x : Access μ α) : Access (τ × μ) α := fun (first, m) =>
  match x m with
  | (r, m) => (r, (first, m))

theorem pure_apply (a : α) (m : μ) : (pure a : Access μ α) m = (.ok a, m) := rfl

theorem bind_apply (x : Access μ α) (f : α → Access μ β) (m : μ) :
    (x >>= f) m =
      match x m with
      | (.ok a, m) => f a m
      | (.error e, m) => (.error e, m) := rfl

private theorem id_map_apply (x : Access μ α) : id <$> x = x := by
  funext m
  change (match x m with
    | (.ok a, m) => (Except.ok a, m)
    | (.error e, m) => (Except.error e, m)) = x m
  rcases x m with ⟨_ | _, _⟩ <;> rfl

private theorem bind_assoc_apply {γ : Type} (x : Access μ α) (f : α → Access μ β)
    (g : β → Access μ γ) : x >>= f >>= g = x >>= fun a => f a >>= g := by
  funext m
  simp only [bind]
  rcases x m with ⟨_ | _, _⟩ <;> rfl

instance : LawfulMonad (Access μ) :=
  .mk' _ id_map_apply (fun _ _ => rfl) bind_assoc_apply

end Access
end OptimisticStore
