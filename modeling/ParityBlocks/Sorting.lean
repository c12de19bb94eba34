/-!
# Sorting

`sort` sorts a list by insertion and keeps elements in order that neither
precedes: each element is placed before the first of the later ones that it may
precede (`place`).
-/

namespace ParityBlocks.Sorting

/-- Puts `x` before the first element that it may precede. -/
def place {α : Type} (mayPrecede : α → α → Bool) (x : α) : List α → List α
  | [] => [x]
  | y :: ys => if mayPrecede x y then x :: y :: ys else y :: place mayPrecede x ys

/-- Sorts a list. -/
def sort {α : Type} (mayPrecede : α → α → Bool) (xs : List α) : List α :=
  xs.foldr (place mayPrecede) []

end ParityBlocks.Sorting
