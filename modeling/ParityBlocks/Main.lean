import ParityBlocks.CommandLine.Tool

/-!
# The executable

The tool in the surroundings that the operating system makes. All that it prints
is decided in `CommandLine.Tool`.
-/

namespace ParityBlocks.CommandLine

/-- The number of an error, which may be given with the opposite sign. -/
def errorNumber (code : UInt32) : UInt32 := if code.toNat < 1 <<< 31 then code else 0 - code

/-- What a failed file operation means. -/
def fileErrorOf : IO.Error → FileError
  | .noFileOrDirectory .. | .noSuchThing .. => .notFound
  | .permissionDenied .. => .permissionDenied
  | .inappropriateType _ code details =>
    match errorNumber code with
    | 20 => .notDirectory
    | 21 => .isDirectory
    | _ => .other details
  | .invalidArgument _ code details =>
    match errorNumber code with
    | 36 => .nameTooLong
    | _ => .other details
  | e => .other (toString e)

/-- Opens and reads a file. -/
def readInput (path : String) : IO (Except ToolError ByteArray) := do
  try
    return .ok (← IO.FS.readBinFile path)
  catch e =>
    match fileErrorOf e with
    | .isDirectory => return .error (.cannotRead path .isDirectory)
    | why => return .error (.cannotOpen path why)

/-- Creates an empty file. -/
def createFile (path : String) : IO (Except FileError Unit) := do
  try
    IO.FS.writeFile path ""
    return .ok ()
  catch e => return .error (fileErrorOf e)

/-- Does a search and measures its time. -/
def timedSearch (search : Unit → Findings) : IO (Findings × Duration) := do
  let started ← IO.monoNanosNow
  let findings ← IO.lazyPure search
  let ended ← IO.monoNanosNow
  return (findings, ⟨ended - started⟩)

/-- Prints a transcript and writes its files. -/
def deliver (t : Transcript) : IO UInt32 := do
  (← IO.getStdout).putStr t.stdout
  (← IO.getStderr).putStr t.stderr
  for (path, text) in t.files do
    IO.FS.writeFile path text
  return UInt32.ofNat t.exitCode

end ParityBlocks.CommandLine

open ParityBlocks.CommandLine in
/-- Runs the tool. -/
def main (args : List String) : IO UInt32 := do
  deliver (← run { read := readInput, create := createFile, timed := timedSearch } args)
