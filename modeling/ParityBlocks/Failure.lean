import ParityBlocks.Constraint

/-!
# What can go wrong

Two kinds of failure are told apart. A `Contradiction` is an answer: the
constraints cannot all hold. A `Fault` is a request that was not allowed, such
as a variable that does not exist. Both are causes; their wording is in
`Contradiction.reason` and `Fault.message` alone.
-/

namespace ParityBlocks

/-- Why the constraints cannot all hold. -/
inductive Contradiction
  /-- A variable was assigned both values. -/
  | bothValues (v : Var)
  /-- A constraint was left without variables and with parity one. -/
  | absurdAfterCleaning
  /-- Two constraints have the same variables and opposite parities. -/
  | opposite (first second : Constraint)
  /-- The solver was inconsistent when constraints were given back to it. -/
  | inconsistentPool
  /-- A reason stated by someone else. -/
  | stated (reason : String)
deriving DecidableEq

/-- The reason in words. -/
def Contradiction.reason : Contradiction → String
  | bothValues v => s!"v{v} assigned both true and false"
  | absurdAfterCleaning => "XOR reduced to 0 = 1 during cleaning"
  | opposite first second => s!"`{first.text}` and `{second.text}` can't both hold"
  | inconsistentPool => "inconsistent XOR found while reattaching"
  | stated reason => reason

/-- The reason, announced as a contradiction. -/
def Contradiction.text (c : Contradiction) : String := s!"contradiction: {c.reason}"

/-- Why a request was not allowed. -/
inductive Fault
  /-- A table of `size` entries was read at `index`. -/
  | indexOutOfRange (size index : Nat)
  /-- A new constraint mentions a variable that the solver does not have. -/
  | unknownVariable (c : Constraint)
  /-- A constraint's variable is in no component. -/
  | notPartitioned (c : Constraint)
  /-- A search was asked for above decision level 0. -/
  | aboveBaseLevel (level : Nat)
  /-- A search was asked for in an inconsistent solver. -/
  | inconsistentSolver
  /-- A search was asked for in a solver that has matrices. -/
  | matricesPresent
  /-- A sum of durations does not fit. -/
  | durationOverflow
  /-- A table was asked for that is larger than any table can be. -/
  | tableTooLarge
deriving DecidableEq

/-- The fault in words. -/
def Fault.message : Fault → String
  | indexOutOfRange size index => s!"index out of bounds: the len is {size} but the index is {index}"
  | unknownVariable c => s!"XOR `{c.text}` refers to an unknown variable"
  | notPartitioned c => s!"XOR `{c.text}` was not partitioned"
  | aboveBaseLevel level => s!"assertion `left == right` failed\n  left: {level}\n right: 0"
  | inconsistentSolver => "assertion failed: self.host.okay()"
  | matricesPresent => "assertion failed: self.host.matrices().is_empty()"
  | durationOverflow => "overflow in iter::sum over durations"
  | tableTooLarge => "capacity overflow"

/-- A contradiction or a fault. -/
inductive Failure
  | contradiction (c : Contradiction)
  | fault (f : Fault)
deriving DecidableEq

/-- The most bytes that a table can take. -/
def tableBytes : Nat := (1 <<< 63) - 1

/-- Faults if a table of `size` entries, each of `width` bytes, would be too large. -/
def checkTable (width size : Nat) : Except Fault Unit :=
  if tableBytes < width * size then .error .tableTooLarge else .ok ()

/-- The entry of a table at `i`, or the fault of reading outside of it. -/
def lookup {α : Type} (table : Array α) (i : Nat) : Except Fault α :=
  match table[i]? with
  | some x => .ok x
  | none => .error (.indexOutOfRange table.size i)

theorem checkTable_eq_ok_iff {width size : Nat} :
    checkTable width size = .ok () ↔ width * size ≤ tableBytes := by
  unfold checkTable; split <;> simp_all

/-- A table lookup faults exactly outside the table. -/
theorem lookup_eq_ok_iff {α : Type} {table : Array α} {i : Nat} {x : α} :
    lookup table i = .ok x ↔ table[i]? = some x := by
  unfold lookup; split <;> simp_all

/-- The variable at a place of the constraint's list. -/
def Constraint.varAt (c : Constraint) (i : Nat) : Except Fault Var := lookup c.vars.toArray i

end ParityBlocks
