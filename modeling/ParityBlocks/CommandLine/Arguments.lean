import ParityBlocks.Settings
import ParityBlocks.Text.Numeral

/-!
# Command line arguments

The tool takes one input file and options. `given` reads the arguments from left
to right as switches, options with their values and plain arguments: `--name
value`, `--name=value`, `-n value`, `-nvalue` and `-n=value`; after `--` all
arguments are plain. A value in an argument of its own does not start with a
dash, unless it is one. `Arguments.parse` checks how often each may be given and
reads the values.

A call for help ends the reading: what comes after it does not matter, and what
comes before it has to be right, though the input file may be missing.
-/

namespace ParityBlocks.CommandLine

/-- Options without a value. -/
inductive Switch
  | noSearch
  | statistics
deriving DecidableEq

/-- Options with a value. -/
inductive Key
  | minConstraints
  | maxConstraints
  | maxRows
  | maxColumns
  | minRows
  | maxMatrices
  | verbosity
  | sampling
  | markdown
deriving DecidableEq

/-- What an option is. -/
inductive OptionKind
  | help
  | switch (s : Switch)
  | key (k : Key)
deriving DecidableEq

/-- The options by their long names. -/
def longOptions : List (String × OptionKind) :=
  [("help", .help), ("no-matrix-find", .switch .noSearch), ("stats", .switch .statistics),
   ("min-gauss-xor-clauses", .key .minConstraints),
   ("max-gauss-xor-clauses", .key .maxConstraints), ("max-matrix-rows", .key .maxRows),
   ("max-matrix-columns", .key .maxColumns), ("min-matrix-rows", .key .minRows),
   ("max-num-matrices", .key .maxMatrices), ("verbosity", .key .verbosity),
   ("sampling", .key .sampling), ("markdown-output", .key .markdown)]

/-- The options with values by their short names. -/
def shortKeys : List (Char × Key) := [('v', .verbosity), ('m', .markdown)]

/-- An argument as it was given. -/
inductive Given
  | help
  | switch (s : Switch)
  | value (k : Key) (text : String)
  | plain (text : String)
deriving DecidableEq

/-- Why arguments are not understood. -/
inductive UsageError
  | unknown (arg : String)
  | missingValue (option : String)
  | unexpectedValue (option : String)
  | repeated (what : String)
  | badValue (text : String)
  | missingInput
  | secondInput (text : String)
deriving DecidableEq

/-- The error in words. -/
def UsageError.message : UsageError → String
  | unknown arg => s!"unexpected argument '{arg}' found"
  | missingValue option => s!"a value is required for '{option}' but none was supplied"
  | unexpectedValue option => s!"unexpected value for '{option}' found; no more were expected"
  | repeated what => s!"the argument '{what}' cannot be used multiple times"
  | badValue text => s!"invalid value '{text}'"
  | missingInput => "the following required arguments were not provided: <INPUT>"
  | secondInput text => s!"unexpected argument '{text}' found"

/-- The argument looks like an option, so it is not the value of one. -/
def looksLikeOption (arg : String) : Bool := arg.startsWith "-" && arg != "-"

/-- An option with a value, `attached` to it or in the next argument, before the
rest that `readRest` reads. -/
def withValue (arg : String) (k : Key) (attached : Option String) (rest : List String)
    (readRest : List String → Except UsageError (List Given)) :
    Except UsageError (List Given) :=
  match attached, rest with
  | some text, rest => (readRest rest).map (.value k text :: ·)
  | none, [] => .error (.missingValue arg)
  | none, text :: rest =>
    if looksLikeOption text then .error (.missingValue arg)
    else (readRest rest).map (.value k text :: ·)

/-- The parts of a text before and after its first `=`. -/
def splitValue (cs : List Char) : String × Option String :=
  let name := String.ofList (cs.takeWhile (· ≠ '='))
  match cs.dropWhile (· ≠ '=') with
  | [] => (name, none)
  | _ :: value => (name, some (.ofList value))

/-- The value behind the letter of a short option, which an `=` may precede. -/
def attachedValue : List Char → Option String
  | [] => none
  | '=' :: value => some (.ofList value)
  | value => some (.ofList value)

/-- Reads arguments from left to right, up to a call for help. Each of them takes
one step of `fuel`. -/
def givenWithin : Nat → List String → Except UsageError (List Given)
  | _, [] => .ok []
  | 0, arg :: _ => .error (.unknown arg)
  | fuel + 1, arg :: rest =>
    match arg.toList with
    | ['-', '-'] => .ok (rest.map .plain)
    | '-' :: '-' :: cs =>
      let (name, value) := splitValue cs
      match longOptions.lookup name, value with
      | none, _ => .error (.unknown arg)
      | some (.key k), value => withValue arg k value rest (givenWithin fuel)
      | some _, some _ => .error (.unexpectedValue arg)
      | some .help, none => .ok [.help]
      | some (.switch s), none => (givenWithin fuel rest).map (.switch s :: ·)
    | '-' :: 'h' :: _ => .ok [.help]
    | '-' :: letter :: cs =>
      match shortKeys.lookup letter with
      | none => .error (.unknown arg)
      | some k => withValue arg k (attachedValue cs) rest (givenWithin fuel)
    | _ => (givenWithin fuel rest).map (.plain arg :: ·)

/-- Reads arguments from left to right, up to a call for help. -/
def given (args : List String) : Except UsageError (List Given) :=
  givenWithin args.length args

/-- The options by their meaning. -/
structure Options where
  thresholds : Thresholds := {}
  /-- The sampling variables, counted from 1, that replace those of the file. -/
  sampling : Option (List Nat) := none
  verbosity : Nat := 1
  statistics : Bool := false
  /-- The Markdown files to write. -/
  markdown : List String := []
deriving DecidableEq

/-- The arguments by their meaning. -/
structure Arguments extends Options where
  input : String
deriving DecidableEq

/-- What is asked for. -/
inductive Request
  | help
  | run (arguments : Arguments)
deriving DecidableEq

namespace Options

/-- A natural number of 64 bits. -/
def readCount (text : String) : Except UsageError Nat :=
  (Text.readUnsigned 64 text.toList).mapError fun _ => .badValue text

/-- A natural number of 32 bits. It is read as a signed number, so `-0` is one. -/
def readLevel (text : String) : Except UsageError Nat :=
  match Text.readSigned 64 text.toList with
  | .ok (.ofNat n) => if n < 1 <<< 32 then .ok n else .error (.badValue text)
  | _ => .error (.badValue text)

/-- Natural numbers with commas between them. -/
def readCounts (text : String) : Except UsageError (List Nat) :=
  (text.toList.splitOn ',').mapM fun cs => readCount (.ofList cs)

/-- A path, which is not empty. -/
def readPath (text : String) : Except UsageError String :=
  if text.isEmpty then .error (.badValue text) else .ok text

/-- The values given for a key, in order. -/
def valuesOf (gs : List Given) (k : Key) : List String :=
  gs.filterMap fun
    | .value key text => if key = k then some text else none
    | _ => none

/-- The value of a key that may be given once. -/
def once (gs : List Given) (k : Key) (name : String) : Except UsageError (Option String) :=
  match valuesOf gs k with
  | [] => .ok none
  | [text] => .ok (some text)
  | _ => .error (.repeated name)

/-- The number of a key that may be given once. -/
def countOf (gs : List Given) (k : Key) (name : String) (default : Nat) :
    Except UsageError Nat := do
  match ← once gs k name with
  | none => return default
  | some text => readCount text

/-- Whether a switch that may be given once is given. -/
def switched (gs : List Given) (s : Switch) (name : String) : Except UsageError Bool :=
  match gs.count (.switch s) with
  | 0 => .ok false
  | 1 => .ok true
  | _ => .error (.repeated name)

/-- The thresholds, with the defaults for those that are not given. -/
def thresholdsOf (gs : List Given) : Except UsageError Thresholds := do
  let d : Thresholds := {}
  return {
    enabled := !(← switched gs .noSearch "--no-matrix-find")
    minConstraints := ← countOf gs .minConstraints "--min-gauss-xor-clauses" d.minConstraints
    maxConstraints := ← countOf gs .maxConstraints "--max-gauss-xor-clauses" d.maxConstraints
    maxRows := ← countOf gs .maxRows "--max-matrix-rows" d.maxRows
    maxColumns := ← countOf gs .maxColumns "--max-matrix-columns" d.maxColumns
    minRows := ← countOf gs .minRows "--min-matrix-rows" d.minRows
    maxMatrices := ← countOf gs .maxMatrices "--max-num-matrices" d.maxMatrices }

/-- The sampling variables of all options for them, if there is one. -/
def samplingOf (gs : List Given) : Except UsageError (Option (List Nat)) :=
  match valuesOf gs .sampling with
  | [] => .ok none
  | texts => (texts.mapM readCounts).map fun counts => some counts.flatten

/-- The meaning of the options. -/
def ofGiven (gs : List Given) : Except UsageError Options := do
  let verbosity ← match ← once gs .verbosity "--verbosity" with
    | none => pure 1
    | some text => readLevel text
  return {
    thresholds := ← thresholdsOf gs
    sampling := ← samplingOf gs
    verbosity := verbosity
    statistics := ← switched gs .statistics "--stats"
    markdown := ← (valuesOf gs .markdown).mapM readPath }

end Options

namespace Arguments

/-- The only plain argument, if there is one. -/
def inputOf (gs : List Given) : Except UsageError (Option String) :=
  let plain := gs.filterMap fun
    | .plain text => some text
    | _ => none
  match plain with
  | [] => .ok none
  | [text] => (Options.readPath text).map some
  | _ :: text :: _ => .error (.secondInput text)

/-- The meaning of arguments. -/
def parse (args : List String) : Except UsageError Request := do
  let gs ← given args
  let options ← Options.ofGiven gs
  let input? ← inputOf gs
  if gs.contains .help then return .help
  match input? with
  | none => .error .missingInput
  | some input => return .run { toOptions := options, input := input }

end Arguments

end ParityBlocks.CommandLine
