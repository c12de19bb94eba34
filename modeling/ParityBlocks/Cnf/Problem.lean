import ParityBlocks.Cnf.Line
import ParityBlocks.Cnf.Literal
import ParityBlocks.Text.Lines

/-!
# Problems from files

A file in conjunctive normal form, with lines for parity constraints, is read
line by line. Each line makes a `Statement`, or none if it is blank or a comment
(`Statement.ofLine?`), and the first line that is wrong is the error
(`readLines`). A `Problem` puts the statements of a file together by kind
(`Problem.ofStatements`). `Problem.ofBytes` reads a file and `Problem.ofText` a
text.
-/

namespace ParityBlocks.Cnf

/-- What a line says. -/
inductive Statement
  /-- The number of variables. -/
  | header (varCount : Nat)
  | sampling (vars : List Var)
  | parity (c : Constraint)
  /-- A clause with one literal gives a variable its value. -/
  | unit (v : Var) (value : Bool)
  /-- A clause with two or more literals, which is not kept. -/
  | longClause
deriving DecidableEq

/-- Why a line is wrong. -/
inductive LineError
  | duplicateHeader
  | varCount (why : Text.NumeralError)
  | samplingBeforeHeader
  | negatedSampling
  | headerExpected
  | emptyClause
  | literals (why : LiteralError)
deriving DecidableEq

/-- The error in words, the general ones before those that explain them. -/
def LineError.chain : LineError → List String
  | duplicateHeader => ["Duplicate header"]
  | varCount why => ["Variable count", why.message]
  | samplingBeforeHeader => ["Sampling set before header"]
  | negatedSampling => ["Sampling variables can't be negated"]
  | headerExpected => ["Expected `p cnf` header first"]
  | emptyClause => ["Empty clause"]
  | literals why => why.chain

/-- Why a file is not a problem. -/
inductive ReadError
  /-- A line is wrong. Lines are counted from 1. -/
  | inLine (number : Nat) (line : String) (why : LineError)
  /-- A line is not encoded as UTF-8. -/
  | notUtf8
  | noHeader
deriving DecidableEq

namespace ReadError

/-- The error in words, the general ones before those that explain them. -/
def chain : ReadError → List String
  | inLine number line why => s!"Line {number}: `{line}`" :: why.chain
  | notUtf8 => ["stream did not contain valid UTF-8"]
  | noHeader => ["No `p cnf` header found"]

/-- The error in one line. -/
def message (e : ReadError) : String := ": ".intercalate e.chain

end ReadError

/-- The literals of a line, after a header; `early` is the error before it. -/
def literalsAfterHeader (declared : Option Nat) (early : LineError) (text : List Char) :
    Except LineError (List Literal) :=
  match declared with
  | none => .error early
  | some varCount => (literalsOf varCount text).mapError .literals

namespace Statement

/-- The constraint that the sum of the literals is one: every negation turns the
parity over. -/
def ofParityLiterals (literals : List Literal) : Statement :=
  .parity
    { vars := literals.map Literal.var
      rhs := literals.countP Literal.negated % 2 == 0 }

/-- What a clause with these literals says. -/
def ofClauseLiterals : List Literal → Except LineError Statement
  | [] => .error .emptyClause
  | [l] => .ok (.unit l.var !l.negated)
  | _ => .ok .longClause

/-- What a list of sampling variables says. -/
def ofSamplingLiterals (literals : List Literal) : Except LineError Statement :=
  if literals.any Literal.negated then .error .negatedSampling
  else .ok (.sampling (literals.map Literal.var))

/-- What a line says, if a header has declared so many variables before. -/
def ofLine? (declared : Option Nat) : Line → Except LineError (Option Statement)
  | .blank | .comment => .ok none
  | .header digits =>
    if declared.isSome then .error .duplicateHeader
    else
      match Text.readUnsigned 64 digits with
      | .error why => .error (.varCount why)
      | .ok varCount => .ok (some (.header varCount))
  | .sampling text => do
    let literals ← literalsAfterHeader declared .samplingBeforeHeader text
    return some (← ofSamplingLiterals literals)
  | .parity text => do
    let literals ← literalsAfterHeader declared .headerExpected text
    return some (ofParityLiterals literals)
  | .clause text => do
    let literals ← literalsAfterHeader declared .headerExpected text
    return some (← ofClauseLiterals literals)

/-- The number of variables that is declared after a line, given what was
declared before it. -/
def declaredAfter (declared : Option Nat) : Option Statement → Option Nat
  | some (.header varCount) => some varCount
  | _ => declared

end Statement

/-- The statements of lines, the first of which has the given number. A line that
is missing is not encoded as UTF-8. -/
def readLines (number : Nat) (declared : Option Nat) :
    List (Option (List Char)) → Except ReadError (List Statement)
  | [] => .ok []
  | none :: _ => .error .notUtf8
  | some line :: rest =>
    match Statement.ofLine? declared (.ofTrimmed (Text.trim line)) with
    | .error why => .error (.inLine number (.ofList (Text.trim line)) why)
    | .ok statement? =>
      (readLines (number + 1) (Statement.declaredAfter declared statement?) rest).map
        (statement?.toList ++ ·)

/-- What a file says. -/
structure Problem where
  varCount : Nat := 0
  constraints : List Constraint := []
  /-- Variables that have a value, from clauses with one literal. -/
  units : List (Var × Bool) := []
  /-- The sampling variables, if a line lists any. -/
  sampling : Option (List Var) := none
  /-- The number of clauses with two or more literals. -/
  skippedClauses : Nat := 0
deriving DecidableEq

namespace Problem

/-- The declared number of variables. -/
def varCount? (statements : List Statement) : Option Nat :=
  statements.findSome? fun
    | .header varCount => some varCount
    | _ => none

/-- The lists of sampling variables. -/
def samplingLists (statements : List Statement) : List (List Var) :=
  statements.filterMap fun
    | .sampling vars => some vars
    | _ => none

/-- The statements of a file by kind, each kind in the order of the file. -/
def ofStatements (varCount : Nat) (statements : List Statement) : Problem where
  varCount := varCount
  constraints := statements.filterMap fun
    | .parity c => some c
    | _ => none
  units := statements.filterMap fun
    | .unit v value => some (v, value)
    | _ => none
  sampling := match samplingLists statements with
    | [] => none
    | lists => some lists.flatten
  skippedClauses := statements.count .longClause

/-- Reads the lines of a file. -/
def ofLines (lines : List (Option (List Char))) : Except ReadError Problem := do
  let statements ← readLines 1 none lines
  match varCount? statements with
  | none => .error .noHeader
  | some varCount => .ok (ofStatements varCount statements)

/-- Reads a text. -/
def ofText (text : String) : Except ReadError Problem :=
  ofLines ((Text.linesOf '\n' '\r' text.toList).map some)

/-- The characters of a line of a file, if it is encoded as UTF-8. -/
def decodeLine (bytes : List UInt8) : Option (List Char) :=
  (String.fromUTF8? bytes.toByteArray).map String.toList

/-- Reads the bytes of a file. -/
def ofBytes (bytes : ByteArray) : Except ReadError Problem :=
  ofLines ((Text.linesOf 10 13 bytes.toList).map decodeLine)

end Problem

end ParityBlocks.Cnf
