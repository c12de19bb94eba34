import ParityBlocks.Report
import ParityBlocks.Solver

/-!
# Ruling on components

Components are ruled on in the order of competition, so that the number of
matrices accepted before a component is known when its turn comes
(`Ruling.ofAssessed`). A `Ruling` keeps the decision with the rows it is about:
those of an accepted component become the matrix `Ruling.matrix?`, those of a
rejected one go back to the pool (`Ruling.returned`). Before, `assess` finds the
covered part of the sampling variables for each component.
-/

namespace ParityBlocks

/-- A component, and the part of the sampling variables that it covers. -/
structure Assessed where
  component : Component
  ratio : Option Binary64

/-- Finds the covered part of the sampling variables for each component, if any
are configured. The flags are lent to each component in turn. -/
def assess (sampling : Option SamplingSet) :
    List Component → Array Bool → Except Fault (List Assessed) × Array Bool
  | [], flags => (.ok [], flags)
  | c :: cs, flags =>
    match sampling with
    | none =>
      let (rest, flags) := assess sampling cs flags
      (rest.map (⟨c, none⟩ :: ·), flags)
    | some set =>
      match set.ratio c.members flags with
      | (.error fault, flags) => (.error fault, flags)
      | (.ok ratio, flags) =>
        let (rest, flags) := assess sampling cs flags
        (rest.map (⟨c, some ratio⟩ :: ·), flags)

/-- A decision about a component, and its rows. -/
structure Ruling where
  decision : Decision
  rows : List Constraint
deriving DecidableEq

namespace Ruling

/-- Rules on components, `accepted` of which were accepted before. A component
without rows is passed over. -/
def ofAssessed (policy : Policy) (accepted : Nat) : List Assessed → List Ruling
  | [] => []
  | a :: rest =>
    let shape := a.component.shape
    let verdict := policy.decide ⟨shape, a.ratio, accepted⟩
    if verdict = .rejected .noRows then ofAssessed policy accepted rest
    else if verdict.isAccepted then
      ⟨⟨shape, a.ratio, verdict, some accepted⟩, a.component.rows⟩ ::
        ofAssessed policy (accepted + 1) rest
    else
      ⟨⟨shape, a.ratio, verdict, none⟩, a.component.rows⟩ :: ofAssessed policy accepted rest

/-- The matrix that an accepted component becomes. -/
def matrix? (r : Ruling) : Option Matrix :=
  r.decision.matrixNumber.map fun number => .ofRows number r.rows

/-- The constraints that go back to the pool. -/
def returned (r : Ruling) : List Constraint :=
  match r.decision.matrixNumber with
  | some _ => []
  | none => r.rows.map fun c => { c with placement := .inPool }

/-- The report on a search that ended with these rulings. -/
def report (constraintCount : Nat) (rulings : List Ruling) : Report :=
  let decisions := rulings.map decision
  let matrixCount := decisions.countP fun d => d.matrixNumber.isSome
  { matrixCreated := decide (0 < matrixCount)
    matrixCount := matrixCount
    constraintCount := constraintCount
    decisions := decisions
    unusedCount := decisions.countP fun d => d.matrixNumber.isNone
    tooFewRowsCount := decisions.countP fun d => d.verdict == .rejected .tooFewRows }

end Ruling

end ParityBlocks
