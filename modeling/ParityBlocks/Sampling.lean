import ParityBlocks.Binary64
import ParityBlocks.Marking

/-!
# Coverage of the sampling variables

A `SamplingSet` holds what the user's sampling variables stand for in the
solver. `SamplingSet.ratio` is the part of them that a component settles:
those that have a value and those among its members.
-/

namespace ParityBlocks

/-- What a sampling variable stands for. -/
inductive SamplingEntry
  /-- It has a value, so every component covers it. -/
  | assigned
  /-- It is this variable of the solver, without a value. -/
  | free (v : Var)
  /-- It is no variable of the solver. -/
  | unknown
deriving DecidableEq

/-- What the sampling variables stand for, in the order of the user's list. -/
structure SamplingSet where
  entries : List SamplingEntry
deriving DecidableEq

namespace SamplingSet

/-- The number of sampling variables, repeated ones counted. -/
def size (s : SamplingSet) : Nat := s.entries.length

/-- How many entries are covered if the marked variables are settled. -/
def coveredBy (s : SamplingSet) (isMarked : Var → Bool) : Nat :=
  s.entries.countP fun
    | .assigned => true
    | .free v => isMarked v
    | .unknown => false

/-- The part of the sampling variables that are covered by a component with
these members, 0 if there are none; and the flags that were used to find it. A
member without a flag is a fault. -/
def ratio (s : SamplingSet) (members : List Var) (flags : Array Bool) :
    Except Fault Binary64 × Array Bool :=
  if s.entries.isEmpty then (.ok .zero, flags)
  else
    let (marking, outcome) := (Marking.borrow flags).markAll members
    let ratio := outcome.map fun () => .quotient (s.coveredBy marking.isMarked) s.size
    (ratio, marking.release)

end SamplingSet

end ParityBlocks
