import ParityBlocks.Ascending

/-!
# Elimination matrices

A `Matrix` owns the constraints of one block as its rows, and its columns are
the variables of the rows, ascending. `Matrix.ofRows` builds it and marks each
row with the matrix number. Elimination itself is not part of this library; a
`QueueEntry` is what its propagation keeps for each matrix.
-/

namespace ParityBlocks

/-- A numbered block of constraints. -/
structure Matrix where
  number : Nat
  rows : List Constraint
  /-- The variables of the rows, ascending. -/
  columns : List Var
deriving DecidableEq

namespace Matrix

/-- The matrix with this number that takes over `rows`. -/
def ofRows (number : Nat) (rows : List Constraint) : Matrix where
  number := number
  rows := rows.map fun c => { c with placement := .inMatrix number }
  columns := Ascending.ofList (rows.flatMap Constraint.vars)

/-- A line with the number and the size, then a line for each row. A matrix
without rows ends after the line break. -/
def text (m : Matrix) : String :=
  s!"matrix #{m.number} ({m.rows.length} x {m.columns.length})\n" ++
    "\n".intercalate (m.rows.map fun c => s!"  {c.text}")

end Matrix

/-- The state of propagation in one matrix. -/
structure QueueEntry where
  /-- Variables whose propagation is pending. -/
  pending : List Var := []
  /-- The matrix was switched off. -/
  disabled : Bool := false
deriving DecidableEq, Inhabited

/-- The entry of a matrix in which nothing has been propagated. -/
def QueueEntry.fresh : QueueEntry := {}

/-- Brings a queue to `size` entries: the first ones stay, missing ones are new. -/
def resizeQueue (size : Nat) (queue : List QueueEntry) : List QueueEntry :=
  queue.take size ++ List.replicate (size - queue.length) .fresh

end ParityBlocks
