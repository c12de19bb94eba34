import ParityBlocks.Failure

/-!
# Scratch flags on loan

A solver keeps one flag for each variable for whoever needs to mark some of
them for a while. A `Marking` is such a loan: `mark` sets flags and remembers
which ones it set, `isMarked` reads them, and `release` gives the flags back,
all those clear again that the loan set.
-/

namespace ParityBlocks

/-- Flags on loan, and the variables whose flags the loan has set. -/
structure Marking where
  flags : Array Bool
  marked : List Var

namespace Marking

/-- Starts a loan of flags. -/
def borrow (flags : Array Bool) : Marking := ⟨flags, []⟩

/-- Sets the flag of a variable. -/
def mark (m : Marking) (v : Var) : Except Fault Marking :=
  match lookup m.flags v with
  | .error fault => .error fault
  | .ok true => .ok m
  | .ok false => .ok ⟨m.flags.setIfInBounds v true, v :: m.marked⟩

/-- The flag of a variable is set. Variables without a flag are never marked. -/
def isMarked (m : Marking) (v : Var) : Bool := m.flags[v]?.getD false

/-- The flags, those of the loan clear again. -/
def release (m : Marking) : Array Bool :=
  m.marked.foldl (fun flags v => flags.setIfInBounds v false) m.flags

/-- Marks the variables of a list, up to the first that has no flag. -/
def markAll (m : Marking) : List Var → Marking × Except Fault Unit
  | [] => (m, .ok ())
  | v :: vs =>
    match m.mark v with
    | .error fault => (m, .error fault)
    | .ok m => m.markAll vs

end Marking

end ParityBlocks
