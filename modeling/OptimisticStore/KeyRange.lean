import OptimisticStore.Bytes

/-! Ranges of keys. An endpoint is one end of a range as it is recorded and sent: a key that
may be missing, and a mark that counts only if there is one. A cut is the same end without
the idle mark, over any ordered keys. -/

namespace OptimisticStore

inductive Direction where
  | forward
  | backward
  deriving DecidableEq

inductive Cut (κ : Type) where
  | unbounded
  | included (key : κ)
  | excluded (key : κ)
  deriving DecidableEq

namespace Cut
variable {κ : Type} [LT κ] [LE κ]

/-- The key lies above the cut, taken as a lower end. -/
def Below (c : Cut κ) (k : κ) : Prop :=
  match c with
  | unbounded => True
  | included b => b ≤ k
  | excluded b => b < k

/-- The key lies below the cut, taken as an upper end. -/
def Above (c : Cut κ) (k : κ) : Prop :=
  match c with
  | unbounded => True
  | included b => k ≤ b
  | excluded b => k < b

variable [DecidableLT κ] [DecidableLE κ]

instance (c : Cut κ) (k : κ) : Decidable (c.Below k) := by
  cases c <;> unfold Below <;> infer_instance

instance (c : Cut κ) (k : κ) : Decidable (c.Above k) := by
  cases c <;> unfold Above <;> infer_instance

/-- The two ends leave no room for a key: they cross, or meet without both including. -/
def crossed : (lower upper : Cut κ) → Bool
  | included l, included u => u < l
  | included l, excluded u => u ≤ l
  | excluded l, included u => u ≤ l
  | excluded l, excluded u => u ≤ l
  | _, _ => false

theorem not_between_of_crossed [Std.IsLinearOrder κ] [Std.LawfulOrderLT κ] {lower upper : Cut κ}
    (h : crossed lower upper = true) (k : κ) : ¬ (lower.Below k ∧ upper.Above k) := by
  cases lower <;> cases upper <;> simp [crossed, Below, Above] at * <;> grind

end Cut

structure Endpoint where
  key : Option Bytes
  inclusive : Bool
  deriving DecidableEq

namespace Endpoint

def unbounded : Endpoint := ⟨none, false⟩
def included (key : Bytes) : Endpoint := ⟨some key, true⟩
def excluded (key : Bytes) : Endpoint := ⟨some key, false⟩

def cut (e : Endpoint) : Cut Bytes :=
  match e.key, e.inclusive with
  | none, _ => .unbounded
  | some k, true => .included k
  | some k, false => .excluded k

def inspect (e : Endpoint) : String :=
  Inspect.record "Bound"
    [("key", Inspect.optional (e.key.map Bytes.inspect)), ("inclusive", Inspect.flag e.inclusive)]

end Endpoint

structure KeyRange where
  lower : Endpoint
  upper : Endpoint
  deriving DecidableEq

namespace KeyRange

def point (key : Bytes) : KeyRange := ⟨.included key, .included key⟩

/-- Membership reads the endpoints themselves; `contains_iff_cuts` relates it to the cuts. -/
def contains (r : KeyRange) (k : Bytes) : Bool :=
  (match r.lower.key with
    | none => true
    | some b => if r.lower.inclusive then decide (b ≤ k) else decide (b < k)) &&
  (match r.upper.key with
    | none => true
    | some b => if r.upper.inclusive then decide (k ≤ b) else decide (k < b))

theorem contains_iff_cuts (r : KeyRange) (k : Bytes) :
    r.contains k = true ↔ r.lower.cut.Below k ∧ r.upper.cut.Above k := by
  obtain ⟨⟨_ | l, _ | _⟩, ⟨_ | u, _ | _⟩⟩ := r <;>
    simp [contains, Endpoint.cut, Cut.Below, Cut.Above]

theorem contains_point_iff (a k : Bytes) : (point a).contains k = true ↔ k = a := by
  simp only [contains_iff_cuts, point, Endpoint.included, Endpoint.cut, Cut.Below, Cut.Above]
  grind

def inspect (r : KeyRange) : String :=
  Inspect.record "ReadRange" [("lower", r.lower.inspect), ("upper", r.upper.inspect)]

end KeyRange
end OptimisticStore
