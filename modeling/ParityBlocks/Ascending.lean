import ParityBlocks.Constraint

/-!
# Ascending lists

A finite set of numbers is kept as the strictly ascending list of its members,
so equal sets are equal lists. `insert` adds a member, `toggle` adds it or takes
it out, and `ofList` and `oddOf` fold these over a list: they hold the members
that occur at all, and those that occur an odd number of times.
-/

namespace ParityBlocks.Ascending

/-- Adds `v` to an ascending list, once. -/
def insert (v : Nat) : List Nat → List Nat
  | [] => [v]
  | w :: ws => if v < w then v :: w :: ws else if v = w then w :: ws else w :: insert v ws

/-- Takes `v` out of an ascending list if it is there, and adds it otherwise. -/
def toggle (v : Nat) : List Nat → List Nat
  | [] => [v]
  | w :: ws => if v < w then v :: w :: ws else if v = w then ws else w :: toggle v ws

/-- The numbers that occur in a list. -/
def ofList (vs : List Nat) : List Nat := vs.foldr insert []

/-- The numbers that occur an odd number of times in a list. -/
def oddOf (vs : List Nat) : List Nat := vs.foldr toggle []

end ParityBlocks.Ascending
