import ParityBlocks.Failure

/-!
# Numberings of the variables

A variable has three numbers: the one the user knows, the outer one that counts
the variables added by the solver, and the inner one under which the solver
stores it. Outer variables can also be recorded as equal; each has a
representative then. `Numbering` keeps the tables between these numbers.

`Numbering.replacementOf` is what cleaning puts for an inner variable: the inner
number of the representative of its outer number. `Numbering.renumber` accepts
exactly the permutations as new inner numbers.
-/

namespace ParityBlocks

/-- The tables between the numbers of a variable. -/
structure Numbering where
  /-- The outer numbers of user variables for which they differ, newest first. -/
  aliases : List (Var × Var)
  /-- The representative of each outer variable. -/
  representative : Array Var
  /-- The inner number of each outer variable. -/
  toInner : Array Var
  /-- The outer number of each inner variable. -/
  toOuter : Array Var
deriving DecidableEq

/-- Why new inner numbers are refused. -/
inductive NumberingError
  | wrongLength (expected actual : Nat)
  /-- An inner number is out of range, or was given before. -/
  | notPermutation (inner : Var)
deriving DecidableEq

/-- The error in words. -/
def NumberingError.message : NumberingError → String
  | wrongLength expected actual => s!"Expected a mapping of {expected} variables, got {actual}"
  | notPermutation inner =>
    s!"Mapping is not a permutation, v{inner} is out of range or repeated"

namespace Numbering

/-- Every variable with one number only. Tables end at the largest number that
can be stored. -/
def identity (varCount : Nat) : Numbering :=
  let same := Array.range (varCount % Var.modulus)
  { aliases := [], representative := same, toInner := same, toOuter := same }

/-- The outer number of a user variable. -/
def outerOfUser (n : Numbering) (v : Var) : Var := (n.aliases.lookup v).getD v

/-- The representative of an outer variable; unknown ones represent themselves. -/
def representativeOf (n : Numbering) (v : Var) : Var := n.representative[v]?.getD v

/-- The inner number of an outer variable; unknown ones keep their number. -/
def innerOf (n : Numbering) (v : Var) : Var := n.toInner[v]?.getD v

/-- The inner variable that stands for an inner variable. -/
def replacementOf (n : Numbering) (v : Var) : Except Fault Var := do
  let outer ← lookup n.toOuter v
  let representative ← lookup n.representative outer
  lookup n.toInner representative

/-- Records the outer number of a user variable. -/
def addAlias (n : Numbering) (user outer : Var) : Numbering :=
  { n with aliases := (user, outer) :: n.aliases }

/-- Records that the outer variable `v` equals the outer variable `w`: `v` and
all that it represents get the representative of `w`. -/
def replace (n : Numbering) (v w : Var) : Except Fault Numbering := do
  let target ← lookup n.representative w
  let _ ← lookup n.representative v
  let swept := n.representative.map fun r => if r = v then target else r
  return { n with representative := swept.setIfInBounds v target }

/-- Marks an inner number that has not been given yet. -/
def unused : Var := Var.modulus - 1

/-- The outer number of each inner variable, for a list of the inner numbers of
the outer variables. -/
def invert (varCount : Nat) (inners : List Var) : Except NumberingError (Array Var) :=
  inners.zipIdx.foldlM
    (fun slots (inner, outer) =>
      if slots[inner]? = some unused then .ok (slots.setIfInBounds inner (outer % Var.modulus))
      else .error (.notPermutation inner))
    (Array.replicate varCount unused)

/-- Gives the outer variables new inner numbers. -/
def renumber (n : Numbering) (varCount : Nat) (inners : List Var) :
    Except NumberingError Numbering :=
  if inners.length ≠ varCount then .error (.wrongLength varCount inners.length)
  else
    match invert varCount inners with
    | .error e => .error e
    | .ok toOuter => .ok { n with toInner := inners.toArray, toOuter := toOuter }

end Numbering

end ParityBlocks
