import ParityBlocks.Cnf.Load
import ParityBlocks.CommandLine.Arguments
import ParityBlocks.CommandLine.FileTree
import ParityBlocks.Log.Console
import ParityBlocks.Log.Markdown
import ParityBlocks.Session

/-!
# The command line tool

The tool reads a file, searches its constraints for blocks, and prints what it
finds as solver output, and as Markdown into files. What it needs for that are
its `Surroundings`: `run` is the tool in any of them, `Job.prepare` sets up a
session and `Job.run` searches in it. In the surroundings that a file tree makes,
the tool is a function of the arguments, the tree and the time that the search
takes (`runIn`).
-/

namespace ParityBlocks.CommandLine

/-- Why the tool ends without a result. -/
inductive ToolError
  | cannotOpen (path : String) (why : FileError)
  | cannotRead (path : String) (why : FileError)
  | cannotParse (path : String) (why : Cnf.ReadError)
  /-- A sampling variable of the arguments is not among the declared ones. -/
  | samplingOutOfRange (var declared : Nat)
  | cannotCreate (why : FileError)
  /-- No solver can have the declared variables. -/
  | cannotStart (why : Fault)
deriving DecidableEq

namespace ToolError

/-- The error in words, the general ones before those that explain them. -/
def chain : ToolError → List String
  | cannotOpen path why => [s!"Can't open `{path}`", why.message]
  | cannotRead path why => [s!"Can't parse `{path}`", why.message]
  | cannotParse path why => s!"Can't parse `{path}`" :: why.chain
  | samplingOutOfRange var declared =>
    [s!"Sampling variable {var} is out of range 1..={declared}"]
  | cannotCreate why => [why.message]
  | cannotStart why => [why.message]

/-- The causes of an error, numbered if there is more than one. -/
def causesText : List String → String
  | [] => ""
  | [cause] => s!"\nCaused by:\n    {cause}\n"
  | causes => "\nCaused by:\n" ++
    String.join (causes.zipIdx.map fun (cause, i) => s!"{padLeft 5 (toString i)}: {cause}\n")

/-- The error as it is printed. A fault is printed as such. -/
def text (e : ToolError) : String :=
  match e, e.chain with
  | cannotStart why, _ => s!"{why.message}\n"
  | _, [] => ""
  | _, head :: causes => s!"Error: {head}\n{causesText causes}"

/-- The exit code of the tool. -/
def exitCode : ToolError → Nat
  | cannotStart _ => 101
  | _ => 1

end ToolError

/-- What a run of the tool has printed and written. -/
structure Transcript where
  exitCode : Nat
  stdout : String := ""
  stderr : String := ""
  /-- The Markdown files, in the order of the arguments. -/
  files : List (String × String) := []
deriving DecidableEq

/-- A problem in a session. -/
structure Job where
  arguments : Arguments
  problem : Cnf.Problem
  session : Session
  /-- Whether the problem could be put into the solver. -/
  loaded : Except Failure Unit

namespace Job

/-- The sampling variables: those of the arguments, counted from 0, if there are
any, and otherwise those of the file. -/
def samplingVars (a : Arguments) (p : Cnf.Problem) : Except ToolError (Option (List Var)) :=
  match a.sampling with
  | none => .ok p.sampling
  | some users =>
    match users.find? fun v => v == 0 || decide (p.varCount < v) with
    | some v => .error (.samplingOutOfRange v p.varCount)
    | none => .ok (some (users.map fun v => (v - 1) % Var.modulus))

/-- Puts a problem into a session. Its outputs are the terminal and then the
Markdown files. -/
def prepare (a : Arguments) (p : Cnf.Problem) : Except ToolError Job := do
  let sampling ← samplingVars a p
  let settings : Settings :=
    { thresholds := a.thresholds, sampling := sampling, verbosity := a.verbosity }
  let solver ← (Solver.create p.varCount settings).mapError .cannotStart
  let (solver, loaded) := solver.load p
  let session : Session :=
    { solver := solver
      timings := if a.statistics then some {} else none
      outputs := .quiet :: a.markdown.map fun _ => .quiet }
  return { arguments := a, problem := p, session := session, loaded := loaded }

/-- The first line on the terminal. -/
def greeting (p : Cnf.Problem) : String :=
  s!"c {p.varCount} vars, {p.constraints.length} xors, {p.units.length} units, " ++
    s!"{p.skippedClauses} other clauses ignored\n"

/-- The events that the terminal got. -/
def terminalEvents (s : Session) : List Event :=
  match s.outputs with
  | [] => []
  | terminal :: _ => terminal.received.toList

/-- The Markdown files with what was written to them. -/
def fileTexts (paths : List String) (s : Session) : List (String × String) :=
  paths.zip (s.outputs.tail.map fun o => (Log.Markdown.ofEvents o.received.toList).text)

/-- The end of a job: the session it leaves, how much of the log the terminal had
shown when `text` was printed, and the exit code. -/
def transcriptOf (j : Job) (exitCode : Nat) (s : Session) (shown : Nat) (text stderr : String) :
    Transcript :=
  let events := terminalEvents s
  { exitCode := exitCode
    stdout := greeting j.problem ++ Log.Console.ofEvents (events.take shown) ++ text ++
      Log.Console.ofEvents (events.drop shown)
    stderr := stderr
    files := fileTexts j.arguments.markdown s }

/-- Ends a job with the statistics and a status, after a text on the terminal. -/
def conclude (j : Job) (s : Session) (text : String) (status : Status) : Transcript :=
  let shown := (terminalEvents s).length
  match s.printTimings with
  | (s, .error (.refused refusal)) => j.transcriptOf 1 s shown text s!"Error: {refusal}\n"
  | (s, .error (.fault fault)) => j.transcriptOf 101 s shown text s!"{fault.message}\n"
  | (s, .ok ()) => j.transcriptOf 0 (s.log (.status status)).1 shown text ""

/-- Ends a job that came to a failure: a contradiction is an answer, a fault is not. -/
def fail (j : Job) (s : Session) (text : String) : Failure → Transcript
  | .contradiction _ => j.conclude s text .unsatisfiable
  | .fault fault => j.transcriptOf 101 s (terminalEvents s).length "" s!"{fault.message}\n"

/-- Ends a job whose search has found something in `elapsed` time. -/
def finish (j : Job) (f : Findings) (elapsed : Duration) : Transcript :=
  let (s, outcome) := j.session.adopt (f.finish elapsed)
  match outcome with
  | .ok report => j.conclude s (Log.Console.comment report.text) .unknown
  | .error failure => j.fail s "" failure

/-- Ends a job whose problem could not be put into the solver. -/
def refuse (j : Job) : Failure → Transcript
  | .contradiction c => j.fail j.session s!"c {c.text}\n" (.contradiction c)
  | .fault fault => j.fail j.session "" (.fault fault)

end Job

/-- What the tool needs of its surroundings `m`: files, and a clock. -/
structure Surroundings (m : Type → Type) where
  /-- The content of a file. -/
  read : String → m (Except ToolError ByteArray)
  /-- Makes a file empty. -/
  create : String → m (Except FileError Unit)
  /-- Does a search and tells the time that it takes. -/
  timed : (Unit → Findings) → m (Findings × Duration)

namespace Surroundings

/-- Makes files empty in order, up to the first that cannot be made. The result
are the paths of those that were, and the error. -/
def createAll {m : Type → Type} [Monad m] (around : Surroundings m) :
    List String → m (List String × Except FileError Unit)
  | [] => return ([], .ok ())
  | path :: rest => do
    match ← around.create path with
    | .error e => return ([], .error e)
    | .ok () =>
      let (created, outcome) ← around.createAll rest
      return (path :: created, outcome)

/-- A file tree around the tool, where a search takes `elapsed` time. -/
def ofTree (elapsed : Duration) : Surroundings (StateM FileTree) where
  read := fun path => do
    match (← get).read path with
    | .ok content => return .ok content
    | .error .isDirectory => return .error (.cannotRead path .isDirectory)
    | .error why => return .error (.cannotOpen path why)
  create := fun path => do
    match (← get).create path with
    | .ok tree =>
      set tree
      return .ok ()
    | .error e => return .error e
  timed := fun search => return (search (), elapsed)

end Surroundings

/-- The end of a run that came to an error after it had created files. -/
def errorTranscript (e : ToolError) (created : List String) : Transcript :=
  { exitCode := e.exitCode, stderr := e.text, files := created.map fun path => (path, "") }

/-- The job for what the input file was read as. -/
def prepared (a : Arguments) (input : Except ToolError ByteArray) : Except ToolError Job := do
  let problem ← (Cnf.Problem.ofBytes (← input)).mapError (.cannotParse a.input)
  Job.prepare a problem

/-- How to call the tool. -/
def helpText : String :=
  "Find Gauss-Jordan matrices among the XOR constraints of a CNF file\n\n" ++
  "Usage: parity-blocks [OPTIONS] <INPUT>\n\nOptions:\n" ++
  "      --no-matrix-find\n" ++
  "      --min-gauss-xor-clauses <N>\n" ++
  "      --max-gauss-xor-clauses <N>\n" ++
  "      --max-matrix-rows <N>\n" ++
  "      --max-matrix-columns <N>\n" ++
  "      --min-matrix-rows <N>\n" ++
  "      --max-num-matrices <N>\n" ++
  "      --sampling <V,V,...>\n" ++
  "  -v, --verbosity <N>\n" ++
  "  -m, --markdown-output <PATH>\n" ++
  "      --stats\n" ++
  "  -h, --help\n"

/-- The exit code for arguments that are not understood. -/
def usageExitCode : Nat := 2

/-- The end of a run whose arguments are not understood. -/
def usageTranscript (e : UsageError) : Transcript :=
  { exitCode := usageExitCode, stderr := s!"error: {e.message}\n" }

/-- The end of a run that was asked for help. -/
def helpTranscript : Transcript := { exitCode := 0, stdout := helpText }

/-- What a job has printed and written at its end. -/
def Job.run {m : Type → Type} [Monad m] (j : Job) (around : Surroundings m) : m Transcript := do
  match j.loaded with
  | .error failure => return j.refuse failure
  | .ok () =>
    let (findings, elapsed) ← around.timed fun () => Search.explore .ordinary j.session.solver
    return j.finish findings elapsed

/-- What a command line has printed and written at its end. -/
def run {m : Type → Type} [Monad m] (around : Surroundings m) (args : List String) :
    m Transcript := do
  match Arguments.parse args with
  | .error e => return usageTranscript e
  | .ok .help => return helpTranscript
  | .ok (.run a) =>
    match prepared a (← around.read a.input) with
    | .error e => return errorTranscript e []
    | .ok j =>
      match ← around.createAll a.markdown with
      | (created, .error e) => return errorTranscript (.cannotCreate e) created
      | (_, .ok ()) => j.run around

/-- What a command line has printed in a file tree, and the tree with what it has
written, if its search takes `elapsed` time. -/
def runIn (tree : FileTree) (elapsed : Duration) (args : List String) : Transcript × FileTree :=
  let (transcript, tree) := Id.run ((run (.ofTree elapsed) args).run tree)
  (transcript, transcript.files.foldl (fun t file => t.write file.1 file.2.toUTF8) tree)

end ParityBlocks.CommandLine
