import ParityBlocks.Cnf.Problem
import ParityBlocks.Solver

/-!
# Problems in a solver

`Solver.load` puts a problem into a solver: first the values, then the
constraints. It ends at the first that fails, and what was put in before stays.
-/

namespace ParityBlocks.Solver

/-- Gives variables values one by one. -/
def assignAll (s : Solver) : List (Var × Bool) → Solver × Except Failure Unit
  | [] => (s, .ok ())
  | (v, b) :: rest =>
    match s.assign v b with
    | (s, .error failure) => (s, .error failure)
    | (s, .ok ()) => s.assignAll rest

/-- Adds constraints, up to the first that mentions a variable that does not exist. -/
def addAll (s : Solver) (cs : List Constraint) : Solver × Except Failure Unit :=
  let s' := { s with pool := s.pool ++ (cs.takeWhile s.knows).map Constraint.fresh }
  match cs.find? fun c => !s.knows c with
  | some c => (s', .error (.fault (.unknownVariable c.fresh)))
  | none => (s', .ok ())

/-- Puts a problem into the solver. -/
def load (s : Solver) (p : Cnf.Problem) : Solver × Except Failure Unit :=
  match s.assignAll p.units with
  | (s, .error failure) => (s, .error failure)
  | (s, .ok ()) => s.addAll p.constraints

end ParityBlocks.Solver
