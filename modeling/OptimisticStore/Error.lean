import OptimisticStore.Bytes
import OptimisticStore.Version

/-! Why an operation fails, and the text of each reason. -/

namespace OptimisticStore

/-- What keeps a raw row from being read back. -/
inductive RowDefect where
  | notData
  | badEscape
  | unterminated
  | suffixLength (length : Nat)
  | deletedFlag (flag : UInt8)
  | cellLength (length : Nat)
  | notLog
  | notLedger
  deriving DecidableEq

def RowDefect.message : RowDefect → String
  | notData => "not a data row"
  | badEscape => "invalid escape in data row"
  | unterminated => "unterminated key in data row"
  | suffixLength length => "expect 9 bytes version suffix, got " ++ length.repr
  | deletedFlag flag => "invalid deleted flag: " ++ flag.toNat.repr
  | cellLength length => "expect 8 bytes u64, got " ++ length.repr ++ " bytes"
  | notLog => "not a commit log row"
  | notLedger => "not a running transaction row"

inductive StorageError where
  | corrupt (defect : RowDefect)
  /-- The device itself refused. -/
  | device (text : String)
  /-- Stands for what an addition past the last word comes to, a panic or a number that wraps. It
  has no counterpart among the failures of a store. -/
  | counterFull
  deriving DecidableEq

def StorageError.message : StorageError → String
  | corrupt defect => defect.message
  | device text => text
  | counterFull => "counter is full"

inductive Error where
  /-- A key that was read has been written after the version it was read at. -/
  | conflict (readVersion conflictingVersion : Version) (key : Bytes)
  | closed (reason : String)
  | invalidCondition (text : String)
  | cancelled
  | storage (cause : StorageError)
  deriving DecidableEq

namespace Error

def message : Error → String
  | conflict readVersion conflictingVersion key =>
    "Conflict: read_version=" ++ readVersion.repr ++ ", key " ++ key.inspect ++
      " was written at version " ++ conflictingVersion.repr
  | closed reason => "Closed: " ++ reason
  | invalidCondition text => "InvalidCondition: " ++ text
  | cancelled => "Cancelled"
  | storage cause => "Storage: " ++ cause.message

/-- Only a conflict is worth another attempt: a later snapshot may be free of it. -/
def isRetryable : Error → Bool
  | conflict .. => true
  | _ => false

def isClosed : Error → Bool
  | closed _ => true
  | _ => false

def attemptEnded : Error := closed "transaction has ended"

def notRunning (r : Registration) : Error := closed (r.display ++ " is not running")

def noBound : Error := invalidCondition "one of gt, gte, lt, lte is required"

def manyBounds (count : Nat) : Error :=
  invalidCondition ("exactly one of gt, gte, lt, lte is allowed, got " ++ count.repr)

end Error
end OptimisticStore
