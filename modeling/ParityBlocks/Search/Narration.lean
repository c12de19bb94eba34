import ParityBlocks.Log
import ParityBlocks.Search.Ruling

/-!
# What a search says

The texts that a search logs, each from some verbosity on: why nothing is looked
for, which rule decided about a component (`explain`), one line for each
component (`componentLine`), and the counts at the end. `narrate` puts the texts
and the matrices of all rulings in order.
-/

namespace ParityBlocks.Narration

/-- A text that is logged from the verbosity `level` on. -/
def say (verbosity level : Nat) (text : String) : List Event :=
  if level ≤ verbosity then [.text text] else []

/-- Why nothing is looked for. -/
def skipText (verbosity withVariables : Nat) : SkipCause → List Event
  | .tooFewConstraints =>
    say verbosity 4 s!"[matrix] too few xor clauses for GJ: {withVariables}"
  | .tooManyForSampling =>
    say verbosity 1 ("WARNING sampling vars have been given but there are too many XORs " ++
      "and it would take too much time to put them into matrices. Skipping!")
  | .disabled =>
    say verbosity 1 "Matrix finding disabled through switch. Not using matrices"

/-- The limit for rows was raised. -/
def raisedText (verbosity maxRows : Nat) : List Event :=
  say verbosity 1 s!"[matrix] incrementing max number of rows to {maxRows}"

/-- Which rule decided about a component, and the ratio if it had a say. -/
def explain (verbosity minRows : Nat) (d : Decision) : List Event :=
  let ratio := match d.ratio with
    | some ratio =>
      if d.shape.rows > minRows then
        say verbosity 2 s!"[matrix] ratio_sampling: {ratio.shortest}"
      else []
    | none => []
  let rule := match d.verdict with
    | .acceptedBySampling =>
      say verbosity 1 "[matrix] sampling ratio good -> set usage to YES"
    | .rejected .lowSamplingRatio =>
      say verbosity 2 "[matrix] sampling ratio bad -> set usage to NO"
    | .rejected .tooManyRows =>
      say verbosity 1 s!"[matrix] Too many rows in matrix: {d.shape.rows} -> set usage to NO"
    | .rejected .tooManyColumns =>
      say verbosity 1
        s!"[matrix] Too many columns in matrix: {d.shape.cols} -> set usage to NO"
    | .rejected .tooFewRows =>
      say verbosity 2 s!"[matrix] Too few rows in matrix: {d.shape.rows} -> set usage to NO"
    | .rejected .matrixLimit =>
      say verbosity 3 "[matrix] above max number of matrixes -> set usage to NO"
    | .accepted | .rejected .noRows => []
  ratio ++ rule

/-- The line of a component, after the words that say what became of it. -/
def componentLine (fate : String) (d : Decision) : String :=
  let sampling := match d.ratio with
    | some ratio => s!"  perc of sampl vars: {padLeft 5 (ratio.percent.fixed 3)} %"
    | none => ""
  let size := s!"{padLeft 7 (toString d.shape.rows)} x{padLeft 5 (toString d.shape.cols)}"
  let density := padLeft 5 (d.shape.density.fixed 4)
  let average := padLeft 5 (d.shape.averageLength.fixed 2)
  s!"[matrix] {fate} {size}  density:{density}  xorlen avg: {average}{sampling}"

/-- At most this many rejected components get a line. -/
def maxUnusedLines : Nat := 10

/-- A rejected component is shown: not if it is small, below verbosity 2, and not
after `shown` others used up the limit. -/
def showsUnused (verbosity minRows shown : Nat) (d : Decision) : Bool :=
  (decide (minRows ≤ d.shape.rows) || decide (2 ≤ verbosity)) && decide (shown < maxUnusedLines)

/-- The texts and matrices of rulings in order, after `shown` lines of rejected
components. -/
def narrate (verbosity minRows shown : Nat) : List Ruling → List Event
  | [] => []
  | r :: rest =>
    let d := r.decision
    let opening := explain verbosity minRows d ++ r.matrix?.toList.map Event.matrix
    match d.matrixNumber with
    | some number =>
      let fate := s!"Good   matrix {padLeft 2 (toString number)}"
      opening ++ say verbosity 1 (componentLine fate d) ++ narrate verbosity minRows shown rest
    | none =>
      if 1 ≤ verbosity ∧ showsUnused verbosity minRows shown d then
        opening ++ [.text (componentLine "UNused matrix   " d)] ++
          narrate verbosity minRows (shown + 1) rest
      else opening ++ narrate verbosity minRows shown rest

/-- The counts of rejected components, if there are any. -/
def unusedText (verbosity : Nat) (r : Report) : List Event :=
  if 0 < r.unusedCount then
    say verbosity 1 (s!"[matrix] unused matrices: {r.unusedCount} " ++
      s!"of which too few rows: {r.tooFewRowsCount}")
  else []

/-- The counts and the time at the end. -/
def closingText (verbosity : Nat) (r : Report) : List Event :=
  say verbosity 1 (s!"[matrix] Using {r.matrixCount} matrices recovered from " ++
    s!"{r.constraintCount} xors T: {r.elapsed.inSeconds.fixed 2}")

end ParityBlocks.Narration
