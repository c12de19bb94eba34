import ParityBlocks.Text.Blank

/-!
# Kinds of lines

`Line.ofTrimmed` tells the kind of a line without blanks at its ends, by how it
starts: `p cnf` and two numbers is a header, `c ind` or `c p show` and more is a
list of sampling variables, any other line that starts with `c` is a comment,
`x` starts a parity constraint, and the rest are clauses. Words of headers and
of the starts of sampling lines are separated by any blanks.
-/

namespace ParityBlocks.Cnf

/-- A line of a file by its kind, with the part that has yet to be read. -/
inductive Line
  | blank
  /-- The digits of the declared number of variables. -/
  | header (varCount : List Char)
  | sampling (literals : List Char)
  | comment
  | parity (literals : List Char)
  | clause (literals : List Char)
deriving DecidableEq

namespace Line

/-- What follows `word` at the start of a text. -/
def afterWord (word cs : List Char) : Option (List Char) :=
  if word.isPrefixOf cs then some (cs.drop word.length) else none

/-- What follows the blanks at the start of a text, at least one. -/
def afterBlanks (cs : List Char) : Option (List Char) :=
  let rest := cs.dropWhile Text.isBlank
  if rest.length < cs.length then some rest else none

/-- The digits at the start of a text, at least one, and what follows them. -/
def digits (cs : List Char) : Option (List Char × List Char) :=
  let found := cs.takeWhile Char.isDigit
  if found.isEmpty then none else some (found, cs.dropWhile Char.isDigit)

/-- The digits of the first number of a header. -/
def header? (cs : List Char) : Option (List Char) := do
  let cs ← afterBlanks (← afterWord ['p'] cs)
  let cs ← afterBlanks (← afterWord ['c', 'n', 'f'] cs)
  let (varCount, cs) ← digits cs
  let (_, cs) ← digits (← afterBlanks cs)
  if cs.all Text.isBlank then some varCount else none

/-- The list of a sampling line. -/
def sampling? (cs : List Char) : Option (List Char) := do
  let cs ← afterBlanks (← afterWord ['c'] cs)
  let cs ←
    (afterWord ['i', 'n', 'd'] cs).or do
      afterWord ['s', 'h', 'o', 'w'] (← afterBlanks (← afterWord ['p'] cs))
  afterBlanks cs

/-- The kind of a line without blanks at its ends. -/
def ofTrimmed (cs : List Char) : Line :=
  match header? cs, sampling? cs, cs with
  | _, _, [] => blank
  | some varCount, _, _ => header varCount
  | none, some literals, _ => sampling literals
  | none, none, 'c' :: _ => comment
  | none, none, 'x' :: literals => parity literals
  | none, none, literals => clause literals

end Line

end ParityBlocks.Cnf
