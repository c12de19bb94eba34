import ParityBlocks.Matrix
import ParityBlocks.Numbering
import ParityBlocks.Sampling
import ParityBlocks.Settings

/-!
# The solver

A `Solver` is the state that the search for blocks works on: the values that
variables have for good, the numberings, the pool of constraints that are in no
matrix, and the matrices with their queue. The operations here change one of
these at a time. An operation that can fail returns the solver it leaves behind
together with its outcome, since a failure can change the solver too.
-/

namespace ParityBlocks

/-- The state of a solver. -/
structure Solver where
  settings : Settings
  /-- The value of each variable, if it has one for good. -/
  values : Array (Option Bool)
  /-- No contradiction has been found. -/
  consistent : Bool
  /-- The constraints that are in no matrix. -/
  pool : List Constraint
  numbering : Numbering
  /-- A scratch flag for each variable, clear unless on loan. -/
  flags : Array Bool
  matrices : List Matrix
  /-- One entry for each matrix. -/
  queue : List QueueEntry
  /-- The variables that cancelled in the last search, ascending. -/
  cancelled : List Var
deriving DecidableEq

namespace Solver

/-- A solver without constraints and values. -/
def new (varCount : Nat) (settings : Settings) : Solver where
  settings := settings
  values := Array.replicate varCount none
  consistent := true
  pool := []
  numbering := .identity varCount
  flags := Array.replicate varCount false
  matrices := []
  queue := []
  cancelled := []

/-- A new solver, unless its values would make too large a table. -/
def create (varCount : Nat) (settings : Settings) : Except Fault Solver := do
  checkTable 1 varCount
  return .new varCount settings

/-- The number of variables. -/
def varCount (s : Solver) : Nat := s.values.size

/-- The value that a variable has for good. Unknown variables have none. -/
def value (s : Solver) (v : Var) : Option Bool := s.values[v]?.join

/-- A scratch flag is set. -/
def anyFlag (s : Solver) : Bool := s.flags.any id

/-- The constraint mentions only variables of the solver. -/
def knows (s : Solver) (c : Constraint) : Bool := c.vars.all fun v => decide (v < s.varCount)

/-- Adds a constraint to the pool. -/
def add (s : Solver) (vars : List Var) (rhs : Bool) : Except Fault Solver :=
  let c : Constraint := { vars := vars, rhs := rhs }
  if s.knows c then .ok { s with pool := s.pool ++ [c] } else .error (.unknownVariable c)

/-- Gives a variable a value for good. The opposite value is a contradiction. -/
def assign (s : Solver) (v : Var) (b : Bool) : Solver × Except Failure Unit :=
  match lookup s.values v with
  | .error fault => (s, .error (.fault fault))
  | .ok old =>
    if old = some !b then
      ({ s with consistent := false }, .error (.contradiction (.bothValues v)))
    else ({ s with values := s.values.setIfInBounds v (some b) }, .ok ())

/-- Records that two outer variables are equal. -/
def replace (s : Solver) (v w : Var) : Except Fault Solver :=
  (s.numbering.replace v w).map fun n => { s with numbering := n }

/-- Gives the outer variables new inner numbers. -/
def renumber (s : Solver) (inners : List Var) : Except NumberingError Solver :=
  (s.numbering.renumber s.varCount inners).map fun n => { s with numbering := n }

/-- Records the outer number of a user variable. -/
def addAlias (s : Solver) (user outer : Var) : Solver :=
  { s with numbering := s.numbering.addAlias user outer }

/-- Adds an entry to the queue. -/
def addQueueEntry (s : Solver) (entry : QueueEntry) : Solver :=
  { s with queue := s.queue ++ [entry] }

/-- Takes all constraints out of the pool. -/
def detach (s : Solver) : Solver × List Constraint := ({ s with pool := [] }, s.pool)

/-- Puts constraints into the pool, where `0 = 1` makes the solver inconsistent.
Returns whether it is consistent afterwards. -/
def attach (s : Solver) (cs : List Constraint) : Solver × Bool :=
  let consistent := s.consistent && !cs.any Constraint.isAbsurd
  ({ s with pool := s.pool ++ cs, consistent := consistent }, consistent)

/-- What a sampling variable stands for: the user's number is followed to the
inner number of the representative. -/
def samplingEntry (s : Solver) (user : Var) : SamplingEntry :=
  let outer := s.numbering.representativeOf (s.numbering.outerOfUser user)
  let inner := s.numbering.innerOf outer
  if s.varCount ≤ inner then .unknown
  else if (s.value inner).isSome then .assigned
  else .free inner

/-- What the sampling variables stand for, if any are configured. -/
def samplingSet (s : Solver) : Option SamplingSet :=
  s.settings.sampling.map fun users => ⟨users.map s.samplingEntry⟩

end Solver

end ParityBlocks
