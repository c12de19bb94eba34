import ParityBlocks.Solver
import Std.Data.TreeMap

/-!
# Cleaning and combining constraints

Two passes prepare constraints for a search. `Solver.clean` replaces variables
by what stands for them, puts in the values that are known, and lets pairs of
the same variable cancel; what remains is ascending. `Solver.combine` adds, to
each constraint that repeats the variables of an earlier one, that earlier one,
which leaves `0 = 0` if they agree.

A pass ends at the first failure. Its `Pass` holds the constraints as they are
then, in their places: those before the failure have been worked on, and those
after it have not.
-/

namespace ParityBlocks

/-- Where a pass over constraints has got to. -/
structure Pass where
  solver : Solver
  constraints : List Constraint
  outcome : Except Failure Unit

namespace Solver

/-- What stands for a variable, and its value. -/
def substitute (s : Solver) (v : Var) : Except Fault (Var × Option Bool) := do
  let w ← s.numbering.replacementOf v
  let value ← lookup s.values w
  return (w, value)

/-- The constraint that says the same in terms of variables without values. -/
def reduce (s : Solver) (c : Constraint) : Except Fault Constraint := do
  let terms ← c.vars.mapM s.substitute
  let free := terms.filterMap fun (w, value) => if value.isNone then some w else none
  let known := terms.filterMap Prod.snd
  return { c with vars := Ascending.oddOf free, rhs := known.foldl (· ^^ ·) c.rhs }

/-- Reduces constraints one by one, up to the first that becomes `0 = 1`. -/
def reduceAll (s : Solver) : List Constraint → List Constraint × Except Failure Unit
  | [] => ([], .ok ())
  | c :: cs =>
    match s.reduce c with
    | .error fault => (c :: cs, .error (.fault fault))
    | .ok c =>
      if c.isAbsurd then (c :: cs, .error (.contradiction .absurdAfterCleaning))
      else
        let (cs, outcome) := s.reduceAll cs
        (c :: cs, outcome)

/-- Notes a contradiction: the solver is not consistent from then on. -/
def noting (s : Solver) (outcome : Except Failure Unit) : Solver :=
  match outcome with
  | .error (.contradiction _) => { s with consistent := false }
  | _ => s

/-- Cleans constraints. -/
def clean (s : Solver) (cs : List Constraint) : Pass :=
  let (cs, outcome) := s.reduceAll cs
  { solver := s.noting outcome, constraints := cs, outcome := outcome }

end Solver

/-- The constraint after one with the same variables and parity was added to it. -/
def Constraint.cancel (c : Constraint) : Constraint :=
  { c with vars := [], rhs := false, cancelled := c.cancelled ++ c.vars }

/-- Combines constraints one by one with those of `firsts`, which holds the first
constraint met so far for each list of variables, up to the first constraint that
contradicts one of them. -/
def combineAll (firsts : Std.TreeMap (List Var) Constraint) :
    List Constraint → List Constraint × Except Failure Unit
  | [] => ([], .ok ())
  | c :: cs =>
    if c.isTrivial then
      let (cs, outcome) := combineAll firsts cs
      (c :: cs, outcome)
    else
      match firsts[c.vars]? with
      | none =>
        let (cs, outcome) := combineAll (firsts.insert c.vars c) cs
        (c :: cs, outcome)
      | some first =>
        if first.rhs = c.rhs then
          let (cs, outcome) := combineAll firsts cs
          (c.cancel :: cs, outcome)
        else (c :: cs, .error (.contradiction (.opposite first c)))

/-- Combines constraints with the same variables. -/
def Solver.combine (s : Solver) (cs : List Constraint) : Pass :=
  let (cs, outcome) := combineAll {} cs
  { solver := s.noting outcome, constraints := cs, outcome := outcome }

end ParityBlocks
