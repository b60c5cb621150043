import OptimisticStore.Condition
import OptimisticStore.Config

/-! Documents carry settings and requests from outside. A structure is read from an object,
by field name, or from an array, by position; a missing optional field takes its default and a
field that no structure asks for is passed over, except in a duration, which has exactly two.
Writing gives the object form. -/

namespace OptimisticStore

inductive Document where
  | null
  | bool (value : Bool)
  | natural (value : Nat)
  /-- A number with a sign, a fraction or an exponent. -/
  | otherNumber
  | text (value : String)
  | array (items : List Document)
  | object (fields : List (String × Document))
  deriving Inhabited

namespace Document

def bounded (bound : Nat) : Document → Option Nat
  | natural n => if n < bound then some n else none
  | _ => none

def word : Document → Option Nat := bounded (Bytes.capacity 8)

def bytes : Document → Option Bytes
  | array items => items.mapM fun item => (item.bounded 256).map UInt8.ofNat
  | _ => none

/-- `null` and a value of its own kind are both read. -/
def nullable {α : Type} (read : Document → Option α) : Document → Option (Option α)
  | null => some none
  | d => (read d).map some

/-- The named parts of a structure with at most `names.length` of them, missing ones as `none`. -/
def parts (names : List String) : Document → Option (List (Option Document))
  | object fields => some (names.map fun name => List.lookup name fields)
  | array items =>
    if items.length ≤ names.length then
      some (items.map some ++ List.replicate (names.length - items.length) none)
    else none
  | _ => none

def orDefault {α : Type} (read : Document → Option α) (default : α) : Option Document → Option α
  | none => some default
  | some d => read d

def required {α : Type} (read : Document → Option α) (part : Option Document) : Option α :=
  part.bind read

def ofBytes (b : Bytes) : Document := array (b.map fun x => natural x.toNat)

def ofOption (b : Option Bytes) : Document := b.elim null ofBytes

end Document

open Document

def ConditionRequest.ofDocument? (d : Document) : Option ConditionRequest := do
  let [gt, gte, lt, lte] ← d.parts ["gt", "gte", "lt", "lte"] | none
  let key := orDefault (nullable bytes) none
  return ⟨← key gt, ← key gte, ← key lt, ← key lte⟩

def ConditionRequest.toDocument (r : ConditionRequest) : Document :=
  .object [("gt", ofOption r.gt), ("gte", ofOption r.gte), ("lt", ofOption r.lt),
    ("lte", ofOption r.lte)]

def Endpoint.ofDocument? (d : Document) : Option Endpoint := do
  let [key, inclusive] ← d.parts ["key", "inclusive"] | none
  let key ← match d with
    | .array _ => required (nullable bytes) key
    | _ => orDefault (nullable bytes) none key
  let some (.bool inclusive) := inclusive | none
  return ⟨key, inclusive⟩

def Endpoint.toDocument (e : Endpoint) : Document :=
  .object [("key", ofOption e.key), ("inclusive", .bool e.inclusive)]

/-- A count of nanoseconds of a second or more is carried, as long as the seconds fit a word. -/
def Duration.ofDocument? (d : Document) : Option Duration := do
  let onlyKnown : Bool := match d with
    | .object fields => fields.all fun (name, _) => name == "secs" || name == "nanos"
    | _ => true
  guard onlyKnown
  let [seconds, nanos] ← d.parts ["secs", "nanos"] | none
  let seconds ← required word seconds
  let nanos ← required (bounded (Bytes.capacity 4)) nanos
  guard (seconds + nanos / 1000000000 < Bytes.capacity 8)
  return .ofParts seconds nanos

def Duration.toDocument (d : Duration) : Document :=
  .object [("secs", .natural d.seconds), ("nanos", .natural d.subsecond)]

def Config.ofDocument? (d : Document) : Option Config := do
  let [retries, page, ttl, heartbeat] ← d.parts
    ["max_retries", "page_size", "running_txn_ttl", "heartbeat_interval"] | none
  let standard : Config := {}
  return {
    maxRetries := ← orDefault word standard.maxRetries retries
    pageSize := ← orDefault word standard.pageSize page
    runningTxnTtl := ← orDefault Duration.ofDocument? standard.runningTxnTtl ttl
    heartbeatInterval := ← orDefault Duration.ofDocument? standard.heartbeatInterval heartbeat }

def Config.toDocument (c : Config) : Document :=
  .object [("max_retries", .natural c.maxRetries), ("page_size", .natural c.pageSize),
    ("running_txn_ttl", c.runningTxnTtl.toDocument),
    ("heartbeat_interval", c.heartbeatInterval.toDocument)]

end OptimisticStore
