import ParityBlocks.Search

/-!
# Searching with some operations overridden

`Overrides` name the solver operations that a search should see changed, so that
its ways out can be walked without a solver in that state: passes that do
nothing or fail, a consistency flag of one's own, constraints that come back to
an inconsistent solver. What is not overridden is the solver's own operation.
-/

namespace ParityBlocks

/-- Which solver operations a search sees changed. -/
structure Overrides where
  /-- The decision level. -/
  level : Nat := 0
  /-- The answer to whether the solver is consistent. -/
  consistent : Option Bool := none
  /-- Cleaning does nothing. -/
  skipsCleaning : Bool := false
  /-- Combining does nothing. -/
  skipsCombining : Bool := false
  /-- Cleaning only fails, for this reason. -/
  cleaningReason : Option String := none
  /-- Combining only fails, for this reason. -/
  combiningReason : Option String := none
  /-- Constraints that are given back find an inconsistent solver. -/
  attachFails : Bool := false

namespace Overrides

/-- A pass, unless it only fails for a reason or is left out. -/
def pass (reason : Option String) (skips : Bool) (ordinary : Solver → List Constraint → Pass)
    (s : Solver) (cs : List Constraint) : Pass :=
  match reason with
  | some reason => ⟨s, cs, .error (.contradiction (.stated reason))⟩
  | none => if skips then ⟨s, cs, .ok ()⟩ else ordinary s cs

/-- The operations with the overrides. -/
def backend (o : Overrides) : Backend where
  level := o.level
  isConsistent := fun s => o.consistent.getD s.consistent
  clean := pass o.cleaningReason o.skipsCleaning Solver.clean
  combine := pass o.combiningReason o.skipsCombining Solver.combine
  attach := fun s cs =>
    let (s, consistent) := s.attach cs
    (s, consistent && !o.attachFails)

end Overrides

end ParityBlocks
