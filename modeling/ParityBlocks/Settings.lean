import ParityBlocks.Constraint

/-!
# Settings

`Thresholds` say when the search for blocks runs and which blocks become
matrices. `Settings` add the sampling variables and how much is logged.
-/

namespace ParityBlocks

/-- When blocks are looked for, and which of them become matrices. -/
structure Thresholds where
  /-- Blocks are looked for at all. -/
  enabled : Bool := true
  /-- Fewer constraints with variables than this are not worth a search. -/
  minConstraints : Nat := 2
  /-- More constraints than this are not searched if sampling variables are given. -/
  maxConstraints : Nat := 500000
  maxRows : Nat := 3000
  maxColumns : Nat := 1000
  minRows : Nat := 3
  maxMatrices : Nat := 5
deriving DecidableEq

/-- The settings of a solver. -/
structure Settings where
  thresholds : Thresholds := {}
  /-- The variables that the user samples, as the user numbers them. The empty
  list is a choice too. -/
  sampling : Option (List Var) := none
  /-- How much is logged; nothing at 0. -/
  verbosity : Nat := 0
deriving DecidableEq

end ParityBlocks
