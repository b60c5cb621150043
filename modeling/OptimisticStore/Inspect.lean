import OptimisticStore.Inspect.Printable

/-! Diagnostic texts of values: a constructor's name with its fields in braces, lists in
brackets, tables in braces. Every type that can be inspected builds its text from these shapes.
Texts are output only; nothing is read back from them. -/

namespace OptimisticStore.Inspect

def commaSeparated (parts : List String) : String := ", ".intercalate parts

def sequence (parts : List String) : String := "[" ++ commaSeparated parts ++ "]"

def table (entries : List (String × String)) : String :=
  "\x7b" ++ commaSeparated (entries.map fun (key, value) => key ++ ": " ++ value) ++ "\x7d"

def collection (parts : List String) : String := "\x7b" ++ commaSeparated parts ++ "\x7d"

def fieldList (fields : List (String × String)) : String :=
  commaSeparated (fields.map fun (name, text) => name ++ ": " ++ text)

def record (name : String) (fields : List (String × String)) : String :=
  name ++ " \x7b " ++ fieldList fields ++ " \x7d"

def partialRecord (name : String) (fields : List (String × String)) : String :=
  name ++ " \x7b " ++ fieldList fields ++ ", .. \x7d"

def variant (name argument : String) : String := name ++ "(" ++ argument ++ ")"

def optional : Option String → String
  | none => "None"
  | some text => variant "Some" text

def flag (b : Bool) : String := if b then "true" else "false"

def hexDigits (n : Nat) : String := String.ofList (Nat.toDigits 16 n)

def quotedChar (c : Char) : String :=
  if c = '"' then "\\\""
  else if c = '\\' then "\\\\"
  else if c = '\n' then "\\n"
  else if c = '\r' then "\\r"
  else if c = '\t' then "\\t"
  else if c = '\x00' then "\\0"
  else if isPrintable c then String.singleton c
  else "\\u\x7b" ++ hexDigits c.toNat ++ "\x7d"

def quoted (s : String) : String := "\"" ++ String.join (s.toList.map quotedChar) ++ "\""

/-- A cell guarded by a lock, seen while nobody holds it. -/
def guarded (content : String) : String :=
  partialRecord "Mutex" [("data", content), ("poisoned", flag false)]

end OptimisticStore.Inspect
