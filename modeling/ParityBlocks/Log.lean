import ParityBlocks.Matrix
import ParityBlocks.Report

/-!
# The log

What a solver has to say is a sequence of `Event`s, and every event goes to
every `Output`. An output is known by the events it was sent (`received`) and by
its rule for refusing one, which may depend on all that came before; what it
makes of the events is a function of the history, as in `Log.Markdown` and
`Log.Console`. `broadcast` sends an event to all outputs, also after one of them
has refused it, and returns the first refusal.
-/

namespace ParityBlocks

/-- What is known about satisfiability. -/
inductive Status
  | unsatisfiable
  | satisfiable
  | unknown
deriving DecidableEq

/-- The short name of a status. -/
def Status.text : Status → String
  | unsatisfiable => "unsat"
  | satisfiable => "sat"
  | unknown => "unknown"

/-- Something that is logged. -/
inductive Event
  | text (text : String)
  | newline
  | status (status : Status)
  /-- A matrix is about to be kept. -/
  | matrix (matrix : Matrix)
  /-- A search for blocks has ended. -/
  | report (report : Report)
deriving DecidableEq

/-- A receiver of events. -/
structure Output where
  /-- The refusal, if any, of an event after the events before it. -/
  refusal : Array Event → Event → Option String
  /-- The events sent so far, in order. -/
  received : Array Event := #[]

namespace Output

/-- An output that refuses nothing. -/
def quiet : Output := { refusal := fun _ _ => none }

/-- What the output answers to the next event: its refusal, if it refuses. -/
def answer (o : Output) (e : Event) : Option String := o.refusal o.received e

/-- The output after the next event, refused or not. -/
def receive (o : Output) (e : Event) : Output := { o with received := o.received.push e }

end Output

/-- Sends an event to all outputs. The result is the first refusal. -/
def broadcast (outputs : List Output) (e : Event) : List Output × Option String :=
  (outputs.map fun o => o.receive e, outputs.findSome? fun o => o.answer e)

/-- Sends events to all outputs in order, whatever is refused. -/
def broadcastAll (outputs : List Output) (events : List Event) : List Output :=
  events.foldl (fun os e => (broadcast os e).1) outputs

/-- Sends events to all outputs in order, up to the first event that one of them
refuses. The result is the first refusal. -/
def broadcastWhileAccepted (outputs : List Output) :
    List Event → List Output × Option String
  | [] => (outputs, none)
  | e :: es =>
    match broadcast outputs e with
    | (outputs, some refusal) => (outputs, some refusal)
    | (outputs, none) => broadcastWhileAccepted outputs es

end ParityBlocks
