import ParityBlocks.Cleaning
import ParityBlocks.Search.Narration

/-!
# The search for blocks

A search takes the constraints out of the pool, cleans and combines them, splits
them into independent blocks and makes matrices of the blocks that the policy
accepts; the constraints of the others go back to the pool. `explore` is the
search without its time and `Findings.finish` adds that, so the result is a
function of the solver and of the time that the search is said to take
(`search`).

The solver operations that a search goes through are a `Backend`; a solver's own
ones are `Backend.ordinary`.
-/

namespace ParityBlocks

/-- The solver operations that a search goes through. -/
structure Backend where
  /-- The decision level at which the search is started. -/
  level : Nat
  isConsistent : Solver → Bool
  clean : Solver → List Constraint → Pass
  combine : Solver → List Constraint → Pass
  /-- Gives constraints back, and says whether the solver is consistent then. -/
  attach : Solver → List Constraint → Solver × Bool

/-- The operations of the solver itself. Its decision level is always 0. -/
def Backend.ordinary : Backend where
  level := 0
  isConsistent := Solver.consistent
  clean := Solver.clean
  combine := Solver.combine
  attach := Solver.attach

/-- What a search has done: the solver it leaves, what it logged, and its outcome. -/
structure Findings where
  solver : Solver
  events : List Event
  outcome : Except Failure Report

namespace Search

/-- A search needs a consistent solver without matrices at decision level 0. -/
def precondition (b : Backend) (s : Solver) : Except Fault Unit :=
  if b.level ≠ 0 then .error (.aboveBaseLevel b.level)
  else if !b.isConsistent s then .error .inconsistentSolver
  else if !s.matrices.isEmpty then .error .matricesPresent
  else .ok ()

/-- The number of constraints with variables. -/
def withVariables (cs : List Constraint) : Nat := cs.countP fun c => !c.isTrivial

/-- Why blocks should not be looked for among constraints, if there is a cause. -/
def skipCause? (settings : Settings) (cs : List Constraint) : Option SkipCause :=
  let t := settings.thresholds
  if withVariables cs < t.minConstraints then some .tooFewConstraints
  else if cs.length > t.maxConstraints ∧ settings.sampling.isSome then some .tooManyForSampling
  else if !t.enabled then some .disabled
  else none

/-- The limit for rows: three rows for each sampling variable have to fit. -/
def rowLimit (maxRows : Nat) (sampling : Option SamplingSet) : Nat :=
  match sampling with
  | some set => max maxRows (set.size * 3)
  | none => maxRows

/-- The queue after matrices were added one by one, to `count`: entries beyond
the first matrix go when it is added, and all go if there is none. -/
def queueAfter (queue : List QueueEntry) (count : Nat) : List QueueEntry :=
  resizeQueue count ((List.range count).foldl (fun q i => resizeQueue (i + 1) q) queue)

/-- Gives constraints back to the solver. If it is inconsistent then, the search
fails, and otherwise it ends with the report, after more texts. -/
def giveBack (b : Backend) (s : Solver) (cs : List Constraint) (events : List Event)
    (report : Report) (more : List Event) : Findings :=
  match b.attach s cs with
  | (s, true) => ⟨s, events ++ more, .ok report⟩
  | (s, false) => ⟨s, events, .error (.contradiction .inconsistentPool)⟩

/-- Ends a search in which blocks are not looked for. -/
def skip (b : Backend) (s : Solver) (cs : List Constraint) (cause : SkipCause) : Findings :=
  giveBack b { s with queue := [] } cs
    (Narration.skipText s.settings.verbosity (withVariables cs) cause)
    { constraintCount := cs.length, skipped := some cause } []

/-- Makes matrices and a new pool of what was ruled on. -/
def carryOut (b : Backend) (s : Solver) (constraintCount : Nat) (rulings : List Ruling)
    (events : List Event) : Findings :=
  let verbosity := s.settings.verbosity
  let matrices := rulings.filterMap Ruling.matrix?
  let report := Ruling.report constraintCount rulings
  giveBack b
    { s with
      matrices := s.matrices ++ matrices
      queue := queueAfter s.queue matrices.length }
    (rulings.flatMap Ruling.returned)
    (events ++ Narration.narrate verbosity s.settings.thresholds.minRows 0 rulings)
    report (Narration.unusedText verbosity report)

/-- Looks for blocks among constraints. -/
def divide (b : Backend) (s : Solver) (cs : List Constraint) : Findings :=
  let sampling := s.samplingSet
  let maxRows := s.settings.thresholds.maxRows
  let limit := rowLimit maxRows sampling
  let events := if maxRows < limit then Narration.raisedText s.settings.verbosity limit else []
  let components := do
    let partition ← Partition.build s.varCount cs
    Component.ofPartition partition cs
  match components with
  | .error fault => ⟨s, events, .error (.fault fault)⟩
  | .ok components =>
    match assess sampling components s.flags with
    | (.error fault, flags) => ⟨{ s with flags := flags }, events, .error (.fault fault)⟩
    | (.ok assessed, flags) =>
      let policy := Policy.ofThresholds s.settings.thresholds limit
      carryOut b { s with flags := flags } cs.length (Ruling.ofAssessed policy 0 assessed) events

/-- Searches the prepared constraints, or says why not. -/
def searchPrepared (b : Backend) (s : Solver) (cs : List Constraint) : Findings :=
  let s := { s with cancelled := Ascending.ofList (cs.flatMap Constraint.cancelled) }
  match skipCause? s.settings cs with
  | some cause => skip b s cs cause
  | none => divide b s cs

/-- A search without its time. A failure of a pass ends it, and the constraints
that were taken out of the pool do not come back. -/
def explore (b : Backend) (s : Solver) : Findings :=
  match precondition b s with
  | .error fault => ⟨s, [], .error (.fault fault)⟩
  | .ok () =>
    let (s, cs) := s.detach
    let cleaned := b.clean s cs
    match cleaned.outcome with
    | .error failure => ⟨cleaned.solver, [], .error failure⟩
    | .ok () =>
      let combined := b.combine cleaned.solver cleaned.constraints
      match combined.outcome with
      | .error failure => ⟨combined.solver, [], .error failure⟩
      | .ok () => searchPrepared b combined.solver combined.constraints

end Search

/-- Adds the time that the search took. A search in which blocks were looked for
says it at the end. -/
def Findings.finish (f : Findings) (elapsed : Duration) : Findings :=
  match f.outcome with
  | .error _ => f
  | .ok report =>
    let report := { report with elapsed := elapsed }
    let closing :=
      if report.skipped.isNone then Narration.closingText f.solver.settings.verbosity report
      else []
    { f with events := f.events ++ closing, outcome := .ok report }

/-- The solver after a search whose outcome counts: a contradiction leaves it
inconsistent. -/
def Findings.settled (f : Findings) : Solver := f.solver.noting (f.outcome.map fun _ => ())

/-- Searches for blocks in `elapsed` time. -/
def search (b : Backend) (elapsed : Duration) (s : Solver) : Findings :=
  (Search.explore b s).finish elapsed

end ParityBlocks
