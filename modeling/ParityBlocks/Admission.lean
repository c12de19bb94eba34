import ParityBlocks.Component
import ParityBlocks.Settings

/-!
# Admission of components

A `Policy` decides which components become matrices. Its rules are asked in a
fixed order, and the first that has a verdict ends the matter
(`Policy.decide`); a component that passes them all is accepted. The sampling
rule comes right after the check for rows, so for components with more than the
least number of rows it stands in for all limits.
-/

namespace ParityBlocks

/-- Why a component does not become a matrix. -/
inductive Rejection
  | noRows
  | tooManyRows
  | tooManyColumns
  | tooFewRows
  | matrixLimit
  | lowSamplingRatio
deriving DecidableEq

/-- What is decided about a component. -/
inductive Verdict
  | accepted
  /-- Accepted because it covers enough of the sampling variables. -/
  | acceptedBySampling
  | rejected (why : Rejection)
deriving DecidableEq

namespace Verdict

/-- The component becomes a matrix. -/
def isAccepted : Verdict → Bool
  | accepted | acceptedBySampling => true
  | rejected _ => false

/-- The verdict in words. -/
def text : Verdict → String
  | accepted => "accepted"
  | acceptedBySampling => "accepted (sampling ratio)"
  | rejected .noRows => "rejected (no rows)"
  | rejected .tooManyRows => "rejected (too many rows)"
  | rejected .tooManyColumns => "rejected (too many columns)"
  | rejected .tooFewRows => "rejected (too few rows)"
  | rejected .matrixLimit => "rejected (matrix limit)"
  | rejected .lowSamplingRatio => "rejected (sampling ratio)"

end Verdict

/-- What a policy gets to see of a component. -/
structure Candidate where
  shape : Shape
  /-- The part of the sampling variables that it covers, if any are configured. -/
  ratio : Option Binary64
  /-- How many matrices were accepted before it. -/
  acceptedBefore : Nat

/-- The limits by which components are judged. -/
structure Policy where
  maxRows : Nat
  maxColumns : Nat
  minRows : Nat
  maxMatrices : Nat
deriving DecidableEq

namespace Policy

/-- The policy of the thresholds, with a limit for rows of its own. -/
def ofThresholds (t : Thresholds) (maxRows : Nat) : Policy where
  maxRows := maxRows
  maxColumns := t.maxColumns
  minRows := t.minRows
  maxMatrices := t.maxMatrices

/-- The covered part of the sampling variables, 0.6, from which on a component
becomes a matrix whatever its size is. -/
def samplingThreshold : Binary64 := ⟨0x3FE3333333333333⟩

/-- A rule ends the matter with a verdict, or passes. -/
abbrev Rule := Policy → Candidate → Option Verdict

/-- Rejects the candidates that meet a condition. -/
def rejectIf (condition : Policy → Candidate → Bool) (why : Rejection) : Rule :=
  fun p c => if condition p c then some (.rejected why) else none

/-- Judges candidates with more than the least number of rows by their ratio
alone, if sampling variables are configured. -/
def samplingRule : Rule := fun p c =>
  if c.shape.rows > p.minRows then
    c.ratio.map fun ratio =>
      if ratio.AtLeast samplingThreshold then .acceptedBySampling
      else .rejected .lowSamplingRatio
  else none

/-- The rules, in the order in which they are asked. -/
def rules : List Rule :=
  [ rejectIf (fun _ c => c.shape.rows == 0) .noRows,
    samplingRule,
    rejectIf (fun p c => c.shape.rows > p.maxRows) .tooManyRows,
    rejectIf (fun p c => c.shape.cols > p.maxColumns) .tooManyColumns,
    rejectIf (fun p c => c.shape.rows < p.minRows) .tooFewRows,
    rejectIf (fun p c => c.acceptedBefore ≥ p.maxMatrices) .matrixLimit ]

/-- The verdict of the first rule that has one. -/
def decide (p : Policy) (c : Candidate) : Verdict :=
  (rules.findSome? fun rule => rule p c).getD .accepted

end Policy

end ParityBlocks
