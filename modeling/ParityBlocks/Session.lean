import ParityBlocks.Search
import ParityBlocks.Timings

/-!
# Sessions

A `Session` is a solver in use: with the outputs that get its log, and with
timing statistics if they are switched on. What outputs answer never changes the
solver; only operations whose purpose is to write report a refusal.
-/

namespace ParityBlocks

/-- A solver with its outputs and statistics. -/
structure Session where
  solver : Solver
  timings : Option Timings := none
  outputs : List Output := []

/-- Why statistics were not printed. -/
inductive PrintError
  /-- They could not be made. -/
  | fault (f : Fault)
  /-- An output refused a part of them. -/
  | refused (text : String)
deriving DecidableEq

namespace Session

/-- Switches statistics on. Samples taken so far stay. -/
def enableTimings (s : Session) : Session := { s with timings := some (s.timings.getD {}) }

/-- Adds a sample, if statistics are on. -/
def recordTime (s : Session) (name : String) (elapsed : Duration) : Session :=
  { s with timings := s.timings.map fun t => t.record name elapsed }

/-- Logs an event. The result is the first refusal. -/
def log (s : Session) (e : Event) : Session × Option String :=
  let (outputs, refusal) := broadcast s.outputs e
  ({ s with outputs := outputs }, refusal)

/-- Logs events, whatever is refused. -/
def logAll (s : Session) (events : List Event) : Session :=
  { s with outputs := broadcastAll s.outputs events }

/-- Logs a matrix and keeps it, whatever is refused. -/
def addMatrix (s : Session) (m : Matrix) : Session :=
  { s with solver := { s.solver with matrices := s.solver.matrices ++ [m] } }.logAll [.matrix m]

/-- The name under which the time of a search is recorded. -/
def searchName : String := "matrix find"

/-- Takes over what a search has found: logs it with the report, or with the
contradiction, which makes the solver inconsistent, and records the time if
blocks were looked for. -/
def adopt (s : Session) (f : Findings) : Session × Except Failure Report :=
  let s := { s with solver := f.settled }
  match f.outcome with
  | .ok report =>
    let s := if report.skipped.isNone then s.recordTime searchName report.elapsed else s
    (s.logAll (f.events ++ [.report report]), f.outcome)
  | .error (.contradiction c) =>
    (s.logAll (f.events ++ [.text s!"[matrix] {c.text}"]), f.outcome)
  | .error (.fault _) => (s.logAll f.events, f.outcome)

/-- Searches for blocks in `elapsed` time. -/
def find (s : Session) (elapsed : Duration) : Session × Except Failure Report :=
  s.adopt (search .ordinary elapsed s.solver)

/-- Searches with other operations than the solver's own. The outcome is left to
the caller: it is not logged, and neither is the time recorded. -/
def findWith (s : Session) (b : Backend) (elapsed : Duration) :
    Session × Except Failure Report :=
  let f := search b elapsed s.solver
  ({ s with solver := f.solver }.logAll f.events, f.outcome)

/-- Prints the statistics, if they are on, up to the first event that an output
refuses. -/
def printTimings (s : Session) : Session × Except PrintError Unit :=
  match s.timings with
  | none => (s, .ok ())
  | some timings =>
    match timings.rows with
    | .error fault => (s, .error (.fault fault))
    | .ok rows =>
      match broadcastWhileAccepted s.outputs (Timings.tableEvents rows) with
      | (outputs, none) => ({ s with outputs := outputs }, .ok ())
      | (outputs, some refusal) => ({ s with outputs := outputs }, .error (.refused refusal))

end Session

end ParityBlocks
