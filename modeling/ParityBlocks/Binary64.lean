/-!
# Double precision numbers

A `Binary64` is the 64 bits of a double: the sign, eleven bits of exponent and
fifty-two of fraction. Without the sign, the bits read as a natural number
(`magnitude`) grow with the value they stand for, and the value of a finite
double is a multiple of `2 ^ -1074` (`units`). So arithmetic is arithmetic of
naturals: `nearest num den` is the magnitude nearest to `num / den` units, ties
to the even one, and `ofNat`, `quotient` and `percent` are exact results
rounded once by it.

Two orders are defined. `AtLeast` compares values: nothing is at least a NaN,
and both zeros are equal. `rank` orders all bit patterns: negative before
positive, each by its magnitude, NaNs at the ends.
-/

namespace ParityBlocks

/-- A double, by its bits. -/
structure Binary64 where
  bits : UInt64
deriving DecidableEq, Inhabited

/-- The quotient `num / den` rounded to a natural number, a half to the even one. -/
def roundHalfEven (num den : Nat) : Nat :=
  let floor := num / den
  let rest := 2 * (num % den)
  if rest < den then floor
  else if den < rest then floor + 1
  else if floor % 2 = 0 then floor else floor + 1

namespace Binary64

/-- The weight of the sign bit. -/
def signBit : Nat := 1 <<< 63

/-- The weight of the lowest exponent bit. -/
def exponentBit : Nat := 1 <<< 52

/-- The magnitude of the infinities. Larger magnitudes are NaNs. -/
def infinity : Nat := 2047 * exponentBit

/-- A value of one is this many units. -/
def unitsOfOne : Nat := 1 <<< 1074

/-- The bits without the sign. -/
def magnitude (x : Binary64) : Nat := x.bits.toNat % signBit

/-- The sign bit is set. -/
def isNegative (x : Binary64) : Bool := decide (signBit ≤ x.bits.toNat)

/-- The bits stand for no number. -/
def isNaN (x : Binary64) : Bool := decide (infinity < x.magnitude)

/-- The double with this sign and magnitude. -/
def ofMagnitude (negative : Bool) (magnitude : Nat) : Binary64 :=
  ⟨UInt64.ofNat ((if negative then signBit else 0) + magnitude)⟩

/-- The absolute value that a finite magnitude stands for, in units of `2 ^ -1074`. -/
def unitsOf (magnitude : Nat) : Nat :=
  let exponent := magnitude / exponentBit
  let fraction := magnitude % exponentBit
  if exponent = 0 then fraction else (exponentBit + fraction) <<< (exponent - 1)

/-- The absolute value of a finite double, in units of `2 ^ -1074`. -/
def units (x : Binary64) : Nat := unitsOf x.magnitude

/-- The magnitude nearest to `num / den` units. From `2 ^ 53` units on the
quotient is cut to 53 digits first, which the exponent makes up for. -/
def nearest (num den : Nat) : Nat :=
  let shift := (num / den).log2 - 52
  min infinity (shift * exponentBit + roundHalfEven num (den <<< shift))

/-- Zero. -/
def zero : Binary64 := ⟨0⟩

/-- The double nearest to a natural number. -/
def ofNat (n : Nat) : Binary64 := ofMagnitude false (nearest (n * unitsOfOne) 1)

/-- The double nearest to the quotient of the doubles nearest to `m` and `n`. -/
def quotient (m n : Nat) : Binary64 :=
  ofMagnitude false (nearest ((ofNat m).units * unitsOfOne) (ofNat n).units)

/-- The double nearest to a hundred times `x`. NaNs and infinities stay. -/
def percent (x : Binary64) : Binary64 :=
  if infinity ≤ x.magnitude then x
  else ofMagnitude x.isNegative (nearest (100 * x.units) 1)

/-- The double nearest to the sum of two finite doubles that are not negative. -/
def sum (x y : Binary64) : Binary64 := ofMagnitude false (nearest (x.units + y.units) 1)

/-- The magnitude with the sign, so that the value grows with it; both zeros are 0. -/
def signedMagnitude (x : Binary64) : Int :=
  if x.isNegative then -(x.magnitude : Int) else x.magnitude

/-- The value of `x` is at least that of `y`. Nothing is at least a NaN, and a
NaN is at least nothing. -/
def AtLeast (x y : Binary64) : Prop :=
  x.isNaN = false ∧ y.isNaN = false ∧ y.signedMagnitude ≤ x.signedMagnitude

instance (x y : Binary64) : Decidable (AtLeast x y) :=
  inferInstanceAs (Decidable (_ ∧ _ ∧ _))

/-- The position of a bit pattern in the total order: negative doubles by
falling magnitude, then positive ones by rising magnitude. -/
def rank (x : Binary64) : Nat :=
  if x.isNegative then signBit - 1 - x.magnitude else signBit + x.magnitude

/-- Different bit patterns have different ranks. -/
theorem rank_inj {x y : Binary64} : x.rank = y.rank ↔ x = y := by
  refine ⟨fun h => ?_, fun h => h ▸ rfl⟩
  have hx := x.bits.toNat_lt
  have hy := y.bits.toNat_lt
  have key : x.bits.toNat = y.bits.toNat := by
    by_cases sx : signBit ≤ x.bits.toNat <;> by_cases sy : signBit ≤ y.bits.toNat <;>
      simp only [rank, isNegative, magnitude, sx, sy, decide_true, decide_false, if_true,
        Bool.false_eq_true, if_false] at h <;>
      simp only [signBit, Nat.shiftLeft_eq] at sx sy h <;> omega
  cases x; cases y
  exact congrArg mk (UInt64.toNat_inj.mp key)

end Binary64

end ParityBlocks
