import ParityBlocks.Duration
import ParityBlocks.Log
import ParityBlocks.Sorting

/-!
# Timing statistics

`Timings` collect samples, each the name of a step and how long it took. The
table of statistics (`Timings.rows`) has a row for each name with the number
of its samples and their total, longest first and then by name, so it depends
on the samples alone and not on the order in which they came.
-/

namespace ParityBlocks

/-- Timing samples, newest first: what was timed, and how long it took. -/
structure Timings where
  samples : List (String × Duration) := []
deriving DecidableEq

/-- A row of the table of statistics. -/
structure TimingRow where
  name : String
  count : Nat
  total : Duration
deriving DecidableEq

namespace Timings

/-- Adds a sample. -/
def record (t : Timings) (name : String) (elapsed : Duration) : Timings :=
  ⟨(name, elapsed) :: t.samples⟩

/-- The durations of the samples with a name. -/
def durationsOf (t : Timings) (name : String) : List Duration :=
  (t.samples.filter fun s => s.1 == name).map Prod.snd

/-- The number of samples with a name. -/
def count (t : Timings) (name : String) : Nat := (t.durationsOf name).length

/-- The total of the samples with a name. -/
def total (t : Timings) (name : String) : Except Fault Duration :=
  match Duration.total? (t.durationsOf name) with
  | some total => .ok total
  | none => .error .durationOverflow

/-- The names of the samples, each once. -/
def names (t : Timings) : List String := (t.samples.map Prod.fst).eraseDups

/-- The order of rows: longer totals first, then by name. -/
def mayPrecede (r s : TimingRow) : Bool :=
  decide (s.total.nanoseconds < r.total.nanoseconds) ||
    (r.total == s.total && decide (r.name ≤ s.name))

/-- The rows of the table, in order. A total that does not fit is a fault. -/
def rows (t : Timings) : Except Fault (List TimingRow) := do
  let rows ← t.names.mapM fun name => do
    return { name := name, count := t.count name, total := ← t.total name : TimingRow }
  return Sorting.sort mayPrecede rows

/-- A row as a line of the table. -/
def rowText (r : TimingRow) : String := s!"| {r.name} | {r.count} | {r.total.text} |"

/-- The events that print rows as a table. -/
def tableEvents (rows : List TimingRow) : List Event :=
  [ .text "#### Timing statistics", .newline,
    .text "| Step | Samples | Total time |",
    .text "|------|---------|------------|" ] ++
  rows.map (fun r => .text (rowText r)) ++ [.newline]

end Timings

end ParityBlocks
