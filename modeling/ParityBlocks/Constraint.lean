/-!
# Parity constraints

A `Constraint` says that the sum modulo two of its variables is `rhs`.
`Constraint.Holds` is its meaning under an assignment, `Constraint.text` the
way it is written in logs. A constraint also carries the variables that were
cancelled when it was produced from others (`cancelled`) and the block it was
put into (`placement`); neither takes part in its meaning.
-/

namespace ParityBlocks

/-- A variable, by its number from 0. -/
abbrev Var := Nat

/-- Variables are stored in 32 bits: a number is kept modulo this. -/
def Var.modulus : Nat := 1 <<< 32

/-- Where the search for blocks has put a constraint. -/
inductive Placement
  /-- No search has decided on the constraint. -/
  | undecided
  /-- The constraint is a row of the matrix with this number. -/
  | inMatrix (number : Nat)
  /-- The constraint was given back to the general pool. -/
  | inPool
deriving DecidableEq, Inhabited

/-- The constraint that the variables of `vars`, each as often as it is listed,
add up to `rhs` modulo two. -/
structure Constraint where
  vars : List Var
  rhs : Bool
  /-- Variables that cancelled when the constraint was produced from others. -/
  cancelled : List Var := []
  placement : Placement := .undecided
deriving DecidableEq, Inhabited

/-- The sum modulo two of the values of `vars`. -/
def parity (a : Var → Bool) (vars : List Var) : Bool :=
  vars.foldr (fun v p => a v ^^ p) false

namespace Constraint

/-- The assignment `a` satisfies the constraint. -/
def Holds (a : Var → Bool) (c : Constraint) : Prop := parity a c.vars = c.rhs

instance (a : Var → Bool) (c : Constraint) : Decidable (c.Holds a) :=
  inferInstanceAs (Decidable (_ = _))

/-- The same equation, with nothing known about where it comes from. -/
def fresh (c : Constraint) : Constraint := { vars := c.vars, rhs := c.rhs }

/-- The constraint mentions no variable. -/
def isTrivial (c : Constraint) : Bool := c.vars.isEmpty

/-- The constraint is `0 = 1`, which no assignment satisfies. -/
def isAbsurd (c : Constraint) : Bool := c.isTrivial && c.rhs

/-- The sum, its terms joined by `^`; the empty sum is `0`. -/
def sumText (vars : List Var) : String :=
  if vars.isEmpty then "0" else " ^ ".intercalate (vars.map fun v => s!"v{v}")

/-- The constraint as an equation, such as `v1 ^ v2 = 1`. -/
def text (c : Constraint) : String :=
  s!"{sumText c.vars} = {c.rhs.toNat}"

end Constraint

end ParityBlocks
