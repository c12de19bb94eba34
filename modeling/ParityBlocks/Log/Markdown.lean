import ParityBlocks.Log

/-!
# The log as Markdown

A `Markdown` document grows event by event: text as paragraphs, each matrix as
a code block with its rows, each report as a table of decisions. Blocks are set
apart by one empty line (`Markdown.newline`). What is written waits in `pending`
until an event that a reader waits for flushes it.
-/

namespace ParityBlocks.Log

/-- A Markdown document in the making. -/
structure Markdown where
  /-- What has been passed on. -/
  flushed : String := ""
  /-- What waits to be passed on. -/
  pending : String := ""
  /-- Nothing was written since the start or since the last empty line. -/
  atGap : Bool := true
deriving DecidableEq

namespace Markdown

/-- The document so far. -/
def text (m : Markdown) : String := m.flushed ++ m.pending

/-- Writes a block that is not empty. -/
def write (m : Markdown) (block : String) : Markdown :=
  { m with pending := m.pending ++ block, atGap := false }

/-- Ends a paragraph with an empty line, unless there is nothing to end. -/
def newline (m : Markdown) : Markdown :=
  if m.atGap then m else { m with pending := m.pending ++ "\n", atGap := true }

/-- Passes on all that waits. -/
def flush (m : Markdown) : Markdown := { m with flushed := m.text, pending := "" }

/-- The head of the table of decisions. -/
def tableHead (r : Report) : String :=
  s!"#### Components\n\n{r.matrixCount} matrices recovered from {r.constraintCount} xors in " ++
    s!"{r.elapsed.text}\n\n" ++
    "| Component | Rows | Columns | Density | Sampling | Decision |\n" ++
    "|-----------|------|---------|---------|----------|----------|\n"

/-- A decision as a row of the table. -/
def tableRow (d : Decision) : String :=
  let sampling := match d.ratio with
    | some ratio => percentText ratio
    | none => "-"
  s!"| #{d.shape.id} | {d.shape.rows} | {d.shape.cols} | {d.shape.density.fixed 4} " ++
    s!"| {sampling} | {d.verdict.text} |\n"

/-- The sentence that stands for a report without decisions. -/
def skipSentence (cause : SkipCause) (r : Report) : String :=
  s!"Matrix finding skipped ({cause.text}), {r.constraintCount} xors left as they are.\n"

/-- Writes an event. Statuses, matrices and reports with decisions are passed on
at once, together with what waited before them. -/
def receive (m : Markdown) : Event → Markdown
  | .text text => m.write (text ++ "\n")
  | .newline => m.newline
  | .status status => (m.newline.write s!"**Status:** `{status.text}`\n").flush
  | .matrix matrix => (m.newline.write s!"```\n{matrix.text}\n```\n").flush
  | .report report =>
    match report.skipped with
    | some cause => m.newline.write (skipSentence cause report)
    | none =>
      (m.newline.write
        (tableHead report ++ String.join (report.decisions.map tableRow))).flush

/-- The document that events make. -/
def ofEvents (events : List Event) : Markdown := events.foldl receive {}

end Markdown

end ParityBlocks.Log
