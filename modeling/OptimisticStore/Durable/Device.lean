import OptimisticStore.Access
import OptimisticStore.Durable.Rows

/-! A device holds raw rows and answers four kinds of calls. A call either does its work in full
or fails and changes no row; which calls fail is laid down by a plan for each kind. Every call
is noted, also one that fails. -/

namespace OptimisticStore

inductive RawCall where
  | get (key : Bytes)
  | scan (lower upper : Cut Bytes) (direction : Direction) (limit : Nat)
  | write (batch : List RawWrite)
  | close
  deriving DecidableEq

/-- The calls of one kind are counted from 0; `fails n` is the failure of call `n`. -/
structure FaultPlan where
  fails : Nat → Option String := fun _ => none
  made : Nat := 0

namespace FaultPlan

def never : FaultPlan := {}

def after (calls : Nat) (text : String) : FaultPlan :=
  { fails := fun n => if n < calls then none else some text }

def next (p : FaultPlan) : FaultPlan := { p with made := p.made + 1 }

def outcome (p : FaultPlan) : Except Error Unit :=
  match p.fails p.made with
  | none => .ok ()
  | some text => .error (.storage (.device text))

end FaultPlan

structure Device where
  rows : RawRows := ∅
  onGet : FaultPlan := .never
  onScan : FaultPlan := .never
  onWrite : FaultPlan := .never
  onClose : FaultPlan := .never
  /-- The calls so far, the last one first. -/
  calls : List RawCall := []

namespace Device

def note (d : Device) (call : RawCall) : Except Error Unit × Device :=
  let d := { d with calls := call :: d.calls }
  match call with
  | .get _ => (d.onGet.outcome, { d with onGet := d.onGet.next })
  | .scan .. => (d.onScan.outcome, { d with onScan := d.onScan.next })
  | .write _ => (d.onWrite.outcome, { d with onWrite := d.onWrite.next })
  | .close => (d.onClose.outcome, { d with onClose := d.onClose.next })

@[simp] theorem rows_note (d : Device) (call : RawCall) : (d.note call).2.rows = d.rows := by
  cases call <;> rfl

def request (call : RawCall) : Access Device Unit := fun d => d.note call

def get (key : Bytes) : Access Device (Option Bytes) := do
  request (.get key)
  return (← Access.medium).rows.get? key

def scan (lower upper : Cut Bytes) (direction : Direction) (limit : Nat) :
    Access Device (List Row) := do
  request (.scan lower upper direction limit)
  return (← Access.medium).rows.scan lower upper direction limit

/-- All writes of the batch, or none of them. -/
def write (batch : List RawWrite) : Access Device Unit := do
  request (.write batch)
  Access.modify fun d => { d with rows := d.rows.apply batch }

def close : Access Device Unit := request .close

/-- Changes rows directly, past every plan and without a note. -/
def tamper (d : Device) (batch : List RawWrite) : Device :=
  { d with rows := d.rows.apply batch }

end Device
end OptimisticStore
