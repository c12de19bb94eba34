import ParityBlocks.Ascending
import ParityBlocks.Failure

/-!
# Connected components of variables

A `Partition` grows constraint by constraint: two variables are in the same
component exactly if a chain of constraints, neighbours sharing a variable,
leads from one to the other. Components are numbered. `Partition.add` joins the
variables of a constraint: into the component they touch if it is a single one,
and otherwise into a new component that takes over all the touched ones, whose
numbers are never used again.

`Partition.componentOf` and `Partition.membersOf` are the two views, by variable
and by number; `Partition.components` lists the live components.
-/

namespace ParityBlocks

/-- Components of variables, by variable and by number. -/
structure Partition where
  /-- The component of each variable, none before a constraint mentions it. -/
  table : Array (Option Nat)
  /-- The variables of each component, none once another one has taken it over. -/
  members : Array (Option (List Var))

namespace Partition

/-- No variable is in a component yet. -/
def empty (varCount : Nat) : Partition := ⟨Array.replicate varCount none, #[]⟩

/-- The component of a variable. -/
def componentOf (p : Partition) (v : Var) : Option Nat := p.table[v]?.join

/-- The variables of a live component. -/
def membersOf (p : Partition) (id : Nat) : Option (List Var) := p.members[id]?.join

/-- How many numbers have been given to components. -/
def idCount (p : Partition) : Nat := p.members.size

/-- The live components, by rising number. -/
def components (p : Partition) : List (Nat × List Var) :=
  (List.range p.idCount).filterMap fun id => (p.membersOf id).map fun ms => (id, ms)

/-- The variables of a list that are in no component, each once, in order. -/
def newcomers (p : Partition) (vars : List Var) : List Var :=
  vars.eraseDups.filter fun v => (p.componentOf v).isNone

/-- The components that a list of variables touches, by rising number. -/
def touched (p : Partition) (vars : List Var) : List Nat :=
  Ascending.ofList (vars.filterMap p.componentOf)

/-- Notes for each variable of a list that it is in the component `id`. -/
def assign (id : Nat) (vars : List Var) (table : Array (Option Nat)) : Array (Option Nat) :=
  vars.foldl (fun t v => t.setIfInBounds v (some id)) table

/-- Takes the variables away from the components with these numbers. -/
def retire (ids : List Nat) (members : Array (Option (List Var))) :
    Array (Option (List Var)) :=
  ids.foldl (fun m id => m.setIfInBounds id none) members

/-- Puts new variables into the live component `id`, after its others. -/
def absorb (p : Partition) (id : Nat) (vars : List Var) : Partition where
  table := assign id vars p.table
  members := p.members.modify id fun ms => ms.map (· ++ vars)

/-- Makes a new component of new variables and those of the components `ids`. -/
def merge (p : Partition) (ids : List Nat) (vars : List Var) : Partition :=
  let merged := vars ++ ids.flatMap fun id => (p.membersOf id).getD []
  { table := assign p.idCount merged p.table
    members := (retire ids p.members).push (some merged) }

/-- Joins the variables of a list into one component. -/
def join (p : Partition) (vars : List Var) : Partition :=
  if vars.isEmpty then p
  else
    match p.touched vars with
    | [id] => p.absorb id (p.newcomers vars)
    | ids => p.merge ids (p.newcomers vars)

/-- Joins the variables of a constraint, and faults at the first of them that
does not exist. -/
def add (p : Partition) (vars : List Var) : Except Fault Partition :=
  match vars.find? fun v => decide (p.table.size ≤ v) with
  | some v => .error (.indexOutOfRange p.table.size v)
  | none => .ok (p.join vars)

/-- The components that the constraints with variables make. -/
def ofConstraints (varCount : Nat) (cs : List Constraint) : Except Fault Partition :=
  (cs.filter fun c => !c.isTrivial).foldlM (fun p c => p.add c.vars) (empty varCount)

/-- The bytes of an entry in the table of components. -/
def entryBytes : Nat := 16

/-- The same, unless its table would be too large. -/
def build (varCount : Nat) (cs : List Constraint) : Except Fault Partition := do
  checkTable entryBytes varCount
  ofConstraints varCount cs

end Partition

end ParityBlocks
