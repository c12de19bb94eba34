import ParityBlocks.Admission
import ParityBlocks.Binary64.Decimal
import ParityBlocks.Duration

/-!
# Reports

A search for blocks ends with a `Report`: what was decided about each
component, the counts, and why nothing was looked for if that was so. A
`Decision` about a component is one line of it.
-/

namespace ParityBlocks

/-- Why blocks were not looked for. -/
inductive SkipCause
  | tooFewConstraints
  | tooManyForSampling
  | disabled
deriving DecidableEq

/-- The cause in words. -/
def SkipCause.text : SkipCause → String
  | tooFewConstraints => "too few xors"
  | tooManyForSampling => "too many xors for sampling"
  | disabled => "disabled"

/-- What was decided about a component. -/
structure Decision where
  shape : Shape
  /-- The part of the sampling variables that it covers, if any are configured. -/
  ratio : Option Binary64
  verdict : Verdict
  /-- The number of the matrix made from the component. -/
  matrixNumber : Option Nat
deriving DecidableEq

/-- The outcome of a search for blocks. -/
structure Report where
  /-- A matrix was made. -/
  matrixCreated : Bool := false
  matrixCount : Nat := 0
  /-- The constraints after cleaning and combining, those without variables included. -/
  constraintCount : Nat := 0
  skipped : Option SkipCause := none
  /-- In the order in which the components competed. -/
  decisions : List Decision := []
  unusedCount : Nat := 0
  tooFewRowsCount : Nat := 0
  elapsed : Duration := .zero
deriving DecidableEq

/-- A ratio as a percentage with one decimal place. -/
def percentText (ratio : Binary64) : String := s!"{ratio.percent.fixed 1}%"

/-- The decision as a line of the report. -/
def Decision.text (d : Decision) : String :=
  let sampling := match d.ratio with
    | some ratio => s!", sampling {percentText ratio}"
    | none => ""
  let matrix := match d.matrixNumber with
    | some number => s!" -> matrix {number}"
    | none => ""
  s!"#{d.shape.id}: {d.shape.rows} x {d.shape.cols}, density {d.shape.density.fixed 4}" ++
    s!"{sampling}, {d.verdict.text}{matrix}"

/-- The report as text: one line with the counts, and one for each decision. -/
def Report.text (r : Report) : String :=
  match r.skipped with
  | some cause => s!"xors: {r.constraintCount}, skipped: {cause.text}"
  | none =>
    let counts := s!"xors: {r.constraintCount}, matrices: {r.matrixCount}, " ++
      s!"unused: {r.unusedCount} (too few rows: {r.tooFewRowsCount})"
    "\n".intercalate (counts :: r.decisions.map Decision.text)

end ParityBlocks
