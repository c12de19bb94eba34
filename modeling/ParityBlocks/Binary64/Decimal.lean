import ParityBlocks.Binary64

/-!
# Doubles as decimal text

`Binary64.fixed` writes the exact value of a double with a fixed number of
decimal places, a half going to the even neighbour. `Binary64.shortest` writes
the decimal with the fewest digits that reads back as the same double, and of
those the nearest to it, never with an exponent. `padLeft` brings a text to a
minimum width.
-/

namespace ParityBlocks

/-- The text with blanks before it, so that it has at least `width` characters. -/
def padLeft (width : Nat) (text : String) : String :=
  "".pushn ' ' (width - text.length) ++ text

/-- The natural number `n` in decimal, zeros before it, so that it has at least
`width` digits. -/
def zeroPadded (width n : Nat) : String :=
  let digits := toString n
  "".pushn '0' (width - digits.length) ++ digits

/-- The power of ten with this exponent. -/
def powerOfTen (exponent : Nat) : Nat := Nat.pow 10 exponent

/-- The decimal `n / 10 ^ places`, all its places written. -/
def decimalText (places n : Nat) : String :=
  if places = 0 then toString n
  else s!"{n / powerOfTen places}.{zeroPadded places (n % powerOfTen places)}"

namespace Binary64

/-- The sign, and the text of the absolute value for finite doubles. -/
def textWith (finite : Binary64 → String) (x : Binary64) : String :=
  if x.isNaN then "NaN"
  else (if x.isNegative then "-" else "") ++ (if x.magnitude = infinity then "inf" else finite x)

/-- The exact value rounded to so many decimal places. -/
def fixed (places : Nat) (x : Binary64) : String :=
  x.textWith fun x => decimalText places (roundHalfEven (x.units * powerOfTen places) unitsOfOne)

/-- The decimal `n * 10 ^ exponent` as a fraction of naturals. -/
def decimalFraction (n : Nat) (exponent : Int) : Nat × Nat :=
  (n * powerOfTen exponent.toNat, powerOfTen (-exponent).toNat)

/-- The decimal `n * 10 ^ exponent` reads back as the magnitude. -/
def readsBack (magnitude n : Nat) (exponent : Int) : Bool :=
  let (num, den) := decimalFraction n exponent
  nearest (num * unitsOfOne) den == magnitude

/-- The multiple of `10 ^ exponent` that reads back as the magnitude and is
nearest to it, of two equally near ones the larger. -/
def onGrid? (magnitude : Nat) (exponent : Int) : Option Nat :=
  let (step, parts) := decimalFraction 1 exponent
  let num := unitsOf magnitude * parts
  let den := step * unitsOfOne
  let below := num / den
  match readsBack magnitude below exponent, readsBack magnitude (below + 1) exponent with
  | true, true => some (if 2 * (num % den) < den then below else below + 1)
  | true, false => some below
  | false, true => some (below + 1)
  | false, false => none

/-- The exponents of the decimal grids to try for a magnitude, coarsest first:
from the number of digits before the point down to the last place that any
double needs to read back. -/
def gridExponents (magnitude : Nat) : List Int :=
  let digits := (toString (unitsOf magnitude / unitsOfOne)).length
  (List.range (digits + 345)).map fun (i : Nat) => (digits : Int) - i

/-- The decimal with the fewest digits that reads back as the double. -/
def shortest (x : Binary64) : String :=
  x.textWith fun x =>
    if x.magnitude = 0 then "0"
    else
      match (gridExponents x.magnitude).findSome? fun e =>
        (onGrid? x.magnitude e).map fun n => (n, e) with
      | some (n, e) => decimalText (-e).toNat (n * powerOfTen e.toNat)
      | none => fixed 1074 x

end Binary64

end ParityBlocks
