/-! Lengths of time, counted in nanoseconds. -/

namespace OptimisticStore

structure Duration where
  nanoseconds : Nat
  deriving DecidableEq

namespace Duration

def ofParts (seconds nanos : Nat) : Duration := ⟨seconds * 1000000000 + nanos⟩

def ofSeconds (seconds : Nat) : Duration := ofParts seconds 0

def ofMilliseconds (milliseconds : Nat) : Duration := ⟨milliseconds * 1000000⟩

def seconds (d : Duration) : Nat := d.nanoseconds / 1000000000

def subsecond (d : Duration) : Nat := d.nanoseconds % 1000000000

def milliseconds (d : Duration) : Nat := d.nanoseconds / 1000000

/-- `part` of `10 ^ places` as digits after a point, none if it is zero and without zeros at
the end. -/
def fraction (part places : Nat) : String :=
  let digits := part.repr
  let padded := "".pushn '0' (places - digits.length) ++ digits
  match (padded.toList.reverse.dropWhile (· == '0')).reverse with
  | [] => ""
  | kept => "." ++ String.ofList kept

/-- The largest of s, ms, µs and ns that is reached, with a decimal fraction. -/
def inspect (d : Duration) : String :=
  if 0 < d.seconds then d.seconds.repr ++ fraction d.subsecond 9 ++ "s"
  else if 1000000 ≤ d.subsecond then
    (d.subsecond / 1000000).repr ++ fraction (d.subsecond % 1000000) 6 ++ "ms"
  else if 1000 ≤ d.subsecond then
    (d.subsecond / 1000).repr ++ fraction (d.subsecond % 1000) 3 ++ "µs"
  else d.subsecond.repr ++ "ns"

end Duration
end OptimisticStore
