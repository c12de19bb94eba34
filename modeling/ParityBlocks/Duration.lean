import ParityBlocks.Binary64.Decimal

/-!
# Durations

A `Duration` is a number of nanoseconds below `2 ^ 64` seconds. `Duration.text`
writes it in the largest of the units `s`, `ms`, `µs` and `ns` in which its
whole part is at least one, with its exact fraction. `Duration.total?` adds
durations and fails exactly when the sum does not fit.
-/

namespace ParityBlocks

/-- A span of time, in nanoseconds. -/
structure Duration where
  nanoseconds : Nat
deriving DecidableEq, Inhabited

namespace Duration

/-- A second, in nanoseconds. -/
def second : Nat := 1000000000

/-- The first number of nanoseconds that is too long to be a duration. -/
def limit : Nat := second <<< 64

/-- No time. -/
def zero : Duration := ⟨0⟩

/-- A duration from whole seconds and nanoseconds. -/
def ofParts (seconds nanoseconds : Nat) : Duration := ⟨seconds * second + nanoseconds⟩

/-- The whole seconds. -/
def seconds (d : Duration) : Nat := d.nanoseconds / second

/-- The nanoseconds beyond the whole seconds. -/
def subsecond (d : Duration) : Nat := d.nanoseconds % second

/-- The sum of durations, if it fits. -/
def total? (ds : List Duration) : Option Duration :=
  let sum := ds.foldr (fun d n => d.nanoseconds + n) 0
  if sum < limit then some ⟨sum⟩ else none

/-- The fraction `num / 10 ^ places` behind the point: all places without the
zeros at the end, and no point if nothing is left. -/
def fractionText (places num : Nat) : String :=
  let digits := ((zeroPadded places num).toList.reverse.dropWhile (· = '0')).reverse
  if num = 0 then "" else "." ++ String.ofList digits

/-- The duration in a unit of `10 ^ places` nanoseconds. -/
def textIn (d : Duration) (places : Nat) (unit : String) : String :=
  let whole := d.nanoseconds / powerOfTen places
  s!"{whole}{fractionText places (d.nanoseconds % powerOfTen places)}{unit}"

/-- The duration in the largest unit of which it has a whole one; no time is `0ns`. -/
def text (d : Duration) : String :=
  if powerOfTen 9 ≤ d.nanoseconds then d.textIn 9 "s"
  else if powerOfTen 6 ≤ d.nanoseconds then d.textIn 6 "ms"
  else if powerOfTen 3 ≤ d.nanoseconds then d.textIn 3 "µs"
  else d.textIn 0 "ns"

/-- The duration in seconds, the whole part and the fraction each rounded to a double. -/
def inSeconds (d : Duration) : Binary64 :=
  (Binary64.ofNat d.seconds).sum (Binary64.quotient d.subsecond second)

end Duration

end ParityBlocks
