import OptimisticStore.Bytes
import OptimisticStore.Version

/-! A record is what one commit left at a key: a value, or a tombstone if the key was deleted.
Records are never changed; a later commit adds one of a higher version. -/

namespace OptimisticStore

inductive Record (α : Type) where
  | tombstone (version : Version)
  | live (version : Version) (value : α)
  deriving DecidableEq

namespace Record
variable {α : Type}

/-- The value beside a deletion mark is dropped. -/
def ofParts (version : Version) (deleted : Bool) (value : α) : Record α :=
  if deleted then tombstone version else live version value

def version : Record α → Version
  | tombstone version => version
  | live version _ => version

def value? : Record α → Option α
  | tombstone _ => none
  | live _ value => some value

@[simp] theorem version_ofParts (version : Version) (deleted : Bool) (value : α) :
    (ofParts version deleted value).version = version := by
  cases deleted <;> rfl

@[simp] theorem value?_ofParts (version : Version) (deleted : Bool) (value : α) :
    (ofParts version deleted value).value? = if deleted then none else some value := by
  cases deleted <;> rfl

def inspect : Record Bytes → String
  | tombstone version => Inspect.record "TombStone" [("version", version.repr)]
  | live version value =>
    Inspect.record "Normal" [("version", version.repr), ("value", value.inspect)]

end Record
end OptimisticStore
