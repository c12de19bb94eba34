import ParityBlocks.Binary64
import ParityBlocks.Partition
import ParityBlocks.Sorting

/-!
# Components and their shapes

A `Component` is a live component of the partition together with its rows, the
constraints that fall into it. Its `Shape` holds the numbers by which it is
judged. `Shape.priority` is the order in which components compete for matrices:
more rows first, then the denser one, then the lower number.
`Component.ofPartition` finds all components, in that order.
-/

namespace ParityBlocks

/-- The numbers by which a component is judged. -/
structure Shape where
  /-- The number of the component. -/
  id : Nat
  rows : Nat
  cols : Nat
  /-- The lengths of all rows together. -/
  sizeSum : Nat
  /-- The part of the cells that are filled. -/
  density : Binary64
deriving DecidableEq, Inhabited

namespace Shape

/-- The number of cells. -/
def area (s : Shape) : Nat := s.rows * s.cols

/-- The average length of a row, 0 without rows. -/
def averageLength (s : Shape) : Binary64 :=
  if s.rows = 0 then .zero else .quotient s.sizeSum s.rows

/-- The shape of a component with these members and rows. The density of a
component without cells is 0. -/
def ofRows (id : Nat) (members : List Var) (rows : List Constraint) : Shape :=
  let sizeSum := rows.foldr (fun c n => c.vars.length + n) 0
  let area := rows.length * members.length
  { id := id
    rows := rows.length
    cols := members.length
    sizeSum := sizeSum
    density := if 0 < area then .quotient sizeSum area else .zero }

/-- The order of competition for matrices: `lt` means that the first goes first. -/
def priority (s t : Shape) : Ordering :=
  (compare t.rows s.rows).then <|
    (compare t.density.rank s.density.rank).then (compare s.id t.id)

/-- The first shape does not go after the second. -/
def mayPrecede (s t : Shape) : Bool := (s.priority t).isLE

/-- Sorts by priority; equals stay in order. -/
def sort (shapes : List Shape) : List Shape :=
  Sorting.sort mayPrecede shapes

end Shape

/-- A component: its variables and the constraints that fall into it. -/
structure Component where
  shape : Shape
  members : List Var
  rows : List Constraint

namespace Component

/-- The component that a constraint falls into: that of its first variable, as
all of them are in the same one. A constraint without variables falls into none. -/
def idOf (p : Partition) (c : Constraint) : Option Nat := c.vars.head?.bind p.componentOf

/-- Faults if the constraint has variables and falls into no component. -/
def check (p : Partition) (c : Constraint) : Except Fault Unit :=
  match c.vars with
  | [] => .ok ()
  | v :: _ =>
    match lookup p.table v with
    | .error fault => .error fault
    | .ok none => .error (.notPartitioned c)
    | .ok (some _) => .ok ()

/-- The component with this number and these members, with its rows among `cs`. -/
def gather (p : Partition) (cs : List Constraint) (id : Nat) (members : List Var) : Component :=
  let rows := cs.filter fun c => idOf p c == some id
  { shape := .ofRows id members rows, members := members, rows := rows }

/-- The components of the partition with their rows among `cs`, in the order of
competition. Constraints without variables are dropped; one with variables that
falls into no component is a fault. -/
def ofPartition (p : Partition) (cs : List Constraint) : Except Fault (List Component) := do
  cs.forM (check p)
  let found := p.components.map fun (id, members) => gather p cs id members
  return Sorting.sort (fun s t => s.shape.mayPrecede t.shape) found

end Component

end ParityBlocks
