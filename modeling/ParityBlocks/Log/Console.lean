import ParityBlocks.Log
import ParityBlocks.Text.Lines

/-!
# The log as solver output

On a terminal, texts are comment lines, each line after `c `, and a status is
the result line. Other events are not shown.
-/

namespace ParityBlocks.Log.Console

/-- Each line of the text as a comment line. -/
def comment (text : String) : String :=
  String.join ((Text.lines text).map fun line => s!"c {line}\n")

/-- What an event puts on the terminal. -/
def ofEvent : Event → String
  | .text text => comment text
  | .status .unsatisfiable => "s UNSATISFIABLE\n"
  | .status .satisfiable => "s SATISFIABLE\n"
  | .status .unknown => "s INDETERMINATE\n"
  | .newline | .matrix _ | .report _ => ""

/-- What a sequence of events puts on the terminal. -/
def ofEvents (events : List Event) : String := String.join (events.map ofEvent)

end ParityBlocks.Log.Console
