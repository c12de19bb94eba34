import Mathlib.Data.List.Induction
import ParityBlocks.Log.Markdown
import ParityBlocks.Proofs.LineFeeds

/-!
# The Markdown document of a log

What an event writes is told by the event and by the one right before it, as a new block needs an
empty line only if there is none yet (`Log.Markdown.rendered`). So a document knows no more of its
past than whether it stands at such a gap (`Log.Markdown.receive_eq`, the lemma of a step), and what
it holds, passed on or not, are the renderings of its events in order
(`Log.Markdown.text_ofEvents`, by induction on the events from the last one).

Every block begins with a line that is not empty, has no two empty lines in a row and ends with
one line feed (`Log.Markdown.reads_body`). A matrix without rows and the head of a table have
empty lines of their own, but never at an end. So the document ends with two line feeds where it
stands at a gap and with one elsewhere (`Log.Markdown.reads_renderings`), and
`Log.Markdown.ofEvents_layout` follows.
-/

namespace ParityBlocks

open Text

/-- The event is a block of its own, set apart from what comes before it. -/
def Event.isBlock : Event → Bool
  | .status _ | .matrix _ | .report _ => true
  | .text _ | .newline => false

/-- A reader waits for the event, so that it is passed on at once. -/
def Event.isAwaited : Event → Bool
  | .status _ | .matrix _ => true
  | .report r => r.skipped.isNone
  | .text _ | .newline => false

namespace Log.Markdown

/-! ## Renderings -/

/-- What an event writes, an empty line before it left aside. -/
def body : Event → String
  | .text text => text ++ "\n"
  | .newline => ""
  | .status status => s!"**Status:** `{status.text}`\n"
  | .matrix matrix => s!"```\n{matrix.text}\n```\n"
  | .report report =>
    match report.skipped with
    | some cause => skipSentence cause report
    | none => tableHead report ++ String.join (report.decisions.map tableRow)

/-- After this event, if any, the document is empty or ends with an empty line. -/
def isGap : Option Event → Bool
  | none | some .newline => true
  | some _ => false

/-- The line feed that ends a paragraph before the event, where one has to be ended. -/
def gap (previous : Option Event) : Event → String
  | .text _ => ""
  | .newline | .status _ | .matrix _ | .report _ => if isGap previous then "" else "\n"

/-- What an event writes after the one before it. -/
def rendered (previous : Option Event) (e : Event) : String := gap previous e ++ body e

/-- What events write, each after the one before it. -/
def renderings (previous : Option Event) (events : List Event) : List String :=
  List.zipWith rendered (previous :: events.map some) events

variable {m : Markdown} {previous : Option Event} {e : Event} {events : List Event}

theorem renderings_cons (previous : Option Event) (e : Event) (events : List Event) :
    renderings previous (e :: events) = rendered previous e :: renderings (some e) events := rfl

theorem renderings_append (previous : Option Event) (before after : List Event) :
    renderings previous (before ++ after) =
      renderings previous before ++ renderings (before.getLast?.or previous) after := by
  induction before generalizing previous with
  | nil => rfl
  | cons b before ih =>
    have last : (b :: before).getLast?.or previous = before.getLast?.or (some b) := by
      rw [List.getLast?_cons]
      cases before.getLast? <;> rfl
    rw [last, List.cons_append, renderings_cons, ih, renderings_cons, List.cons_append]

theorem renderings_concat (events : List Event) (e : Event) :
    renderings none (events ++ [e]) = renderings none events ++ [rendered events.getLast? e] := by
  rw [renderings_append, Option.or_none]
  rfl

/-! ## What a document holds -/

theorem newline_eq (h : m.atGap = isGap previous) :
    m.newline = ⟨m.flushed, m.pending ++ gap previous .newline, true⟩ := by
  rw [newline, h, gap]
  split
  · rename_i hgap
    rw [String.append_empty, ← hgap, ← h]
  · rfl

theorem write_newline_eq (h : m.atGap = isGap previous) (block : String) :
    m.newline.write block = ⟨m.flushed, m.pending ++ (gap previous .newline ++ block), false⟩ := by
  rw [newline_eq h, write, String.append_assoc]

/-- An event adds its rendering to what is pending, and if it is awaited all of it is passed on. -/
theorem receive_eq (e : Event) (h : m.atGap = isGap previous) :
    m.receive e =
      if e.isAwaited then ⟨m.flushed ++ (m.pending ++ rendered previous e), "", isGap (some e)⟩
      else ⟨m.flushed, m.pending ++ rendered previous e, isGap (some e)⟩ := by
  cases e with
  | text t =>
    simp only [rendered, gap, String.empty_append]
    rfl
  | newline =>
    simp only [rendered, body, String.append_empty]
    exact newline_eq h
  | status status =>
    rw [receive, write_newline_eq h]
    rfl
  | matrix matrix =>
    rw [receive, write_newline_eq h]
    rfl
  | report r =>
    cases hskip : r.skipped <;>
      simp only [receive, Event.isAwaited, rendered, body, hskip, write_newline_eq h] <;> rfl

theorem text_receive (e : Event) (h : m.atGap = isGap previous) :
    (m.receive e).text = m.text ++ rendered previous e := by
  rw [receive_eq e h]
  split
  · rw [Markdown.text, Markdown.text, String.append_empty, String.append_assoc]
  · rw [Markdown.text, Markdown.text, String.append_assoc]

theorem atGap_receive (e : Event) (h : m.atGap = isGap previous) :
    (m.receive e).atGap = isGap (some e) := by
  rw [receive_eq e h]
  split <;> rfl

theorem pending_receive (h : m.atGap = isGap previous) (he : e.isAwaited = true) :
    (m.receive e).pending = "" := by
  rw [receive_eq e h, if_pos he]

theorem flushed_receive (e : Event) (h : m.atGap = isGap previous) :
    ∃ more, (m.receive e).flushed = m.flushed ++ more := by
  rw [receive_eq e h]
  split
  · exact ⟨_, rfl⟩
  · exact ⟨"", String.append_empty.symm⟩

theorem ofEvents_append (before after : List Event) :
    ofEvents (before ++ after) = after.foldl receive (ofEvents before) :=
  List.foldl_append

theorem ofEvents_concat (events : List Event) (e : Event) :
    ofEvents (events ++ [e]) = (ofEvents events).receive e :=
  ofEvents_append events [e]

theorem atGap_ofEvents (events : List Event) : (ofEvents events).atGap = isGap events.getLast? := by
  induction events using List.reverseRecOn with
  | nil => rfl
  | append_singleton events e ih =>
    rw [ofEvents_concat, List.getLast?_concat]
    exact atGap_receive e ih

theorem text_ofEvents (events : List Event) :
    (ofEvents events).text = String.join (renderings none events) := by
  induction events using List.reverseRecOn with
  | nil => rfl
  | append_singleton events e ih =>
    rw [ofEvents_concat, renderings_concat, String.join_append, ← ih, String.join_cons,
      String.join_nil, String.append_empty]
    exact text_receive e (atGap_ofEvents events)

/-- What has been passed on stays. -/
theorem flushed_ofEvents_append (before after : List Event) :
    ∃ more, (ofEvents (before ++ after)).flushed = (ofEvents before).flushed ++ more := by
  induction after using List.reverseRecOn with
  | nil => exact ⟨"", by rw [List.append_nil, String.append_empty]⟩
  | append_singleton after e ih =>
    obtain ⟨more, hmore⟩ := ih
    obtain ⟨more', hmore'⟩ := flushed_receive e (atGap_ofEvents (before ++ after))
    rw [← List.append_assoc, ofEvents_concat]
    exact ⟨more ++ more', hmore'.trans (by rw [hmore, String.append_assoc])⟩

theorem receive_newline_twice (m : Markdown) :
    (m.receive .newline).receive .newline = m.receive .newline := by
  have atGap : (m.receive .newline).atGap = true := by
    rw [receive, newline]
    split
    · assumption
    · rfl
  rw [receive, newline, if_pos atGap]

/-- Where a paragraph has been ended there is nothing more to end. -/
theorem ofEvents_replicate_newline (before after : List Event) (n : Nat) :
    ofEvents (before ++ List.replicate (n + 1) Event.newline ++ after) =
      ofEvents (before ++ .newline :: after) := by
  have all : ofEvents (before ++ List.replicate (n + 1) .newline) =
      (ofEvents before).receive .newline := by
    induction n with
    | zero => exact ofEvents_concat before .newline
    | succ n ih =>
      rw [List.replicate_succ', ← List.append_assoc, ofEvents_concat, ih]
      exact receive_newline_twice _
  rw [ofEvents_append, all, ofEvents_append, List.foldl_cons]

/-! ## Spacing -/

/-- The line feeds at the end of a document after this event, if any; a document begins as if
after an empty line. -/
def feedsAt (previous : Option Event) : Nat := if isGap previous then 2 else 1

theorem reads_status (status : Status) : Reads 2 (body (.status status)) 1 :=
  (Reads.append (by decide) status.isInline_text.reads).append (by decide)

/-- The rows of a matrix, or nothing, after the line with its size. -/
theorem reads_rows (rows : List Constraint) :
    Reads 1 ("\n".intercalate (rows.map fun c => s!"  {c.text}")) (if rows = [] then 1 else 0) := by
  split
  · rename_i hrows
    subst hrows
    exact reads_empty 1
  · rename_i hrows
    refine Reads.intercalate (fun hnil => hrows (List.map_eq_nil_iff.mp hnil)) (fun t ht => ?_) 1
    obtain ⟨c, -, rfl⟩ := List.mem_map.mp ht
    exact IsInline.reads_of_ne (isInline_append.mpr ⟨by decide, c.isInline_text⟩)
      fun h => absurd (String.append_eq_empty_iff.mp h).1 (by decide)

theorem reads_matrixText (matrix : Matrix) :
    Reads 1 matrix.text (if matrix.rows = [] then 1 else 0) := by
  have number := (isInline_toString matrix.number).reads
  have rowCount := (isInline_toString matrix.rows.length).reads
  have columnCount := (isInline_toString matrix.columns.length).reads
  exact (((((((Reads.append (by decide) number).append (by decide)).append rowCount).append
    (by decide)).append columnCount).append (show Reads 0 _ 1 by decide))).append
      (reads_rows matrix.rows)

theorem reads_matrix (matrix : Matrix) : Reads 2 (body (.matrix matrix)) 1 := by
  refine (Reads.append (by decide) (reads_matrixText matrix)).append ?_
  -- Without rows, the line feed after them makes an empty line.
  split <;> decide

theorem reads_skipSentence (cause : SkipCause) (r : Report) : Reads 2 (skipSentence cause r) 1 :=
  (((Reads.append (by decide) cause.isInline_text.reads).append (by decide)).append
    (isInline_toString r.constraintCount).reads).append (by decide)

theorem reads_tableHead (r : Report) : Reads 2 (tableHead r) 1 := by
  have constraintCount := (isInline_toString r.constraintCount).reads
  have elapsed := r.elapsed.isInline_text.reads
  exact ((((((Reads.append (by decide) (reads_toString 2 r.matrixCount)).append (by decide)).append
    constraintCount).append (by decide)).append (elapsed.append (by decide))).append
      (show Reads 2 _ 1 by decide)).append (by decide)

theorem reads_tableRow (d : Decision) : Reads 1 (tableRow d) 1 := by
  have id := (isInline_toString d.shape.id).reads
  have rows := (isInline_toString d.shape.rows).reads
  have cols := (isInline_toString d.shape.cols).reads
  have density := (Binary64.isInline_fixed 4 d.shape.density).reads
  have verdict := d.verdict.isInline_text.reads
  have row {sampling : String} (h : IsInline sampling) :
      Reads 1 (s!"| #{d.shape.id} | {d.shape.rows} | {d.shape.cols} | {d.shape.density.fixed 4} " ++
        s!"| {sampling} | {d.verdict.text} |\n") 1 :=
    ((((((((Reads.append (by decide) id).append (by decide)).append rows).append
      (by decide)).append cols).append (by decide)).append density).append
        (show Reads 0 _ 0 by decide)).append
      ((((Reads.append (by decide) h.reads).append (by decide)).append verdict).append
        (by decide))
  unfold tableRow
  cases d.ratio with
  | none => exact row (by decide)
  | some ratio => exact row (isInline_percentText ratio)

/-- A block can stand after an empty line, and ends with one line feed. -/
theorem reads_body (he : e ≠ .newline) (htext : ∀ t, e = .text t → HasNoEmptyLine t) :
    Reads 2 (body e) 1 := by
  cases e with
  | text t => exact (htext t rfl).reads
  | newline => exact absurd rfl he
  | status status => exact reads_status status
  | matrix matrix => exact reads_matrix matrix
  | report r =>
    rw [body]
    split
    · exact reads_skipSentence _ r
    · refine (reads_tableHead r).append (Reads.join fun t ht => ?_)
      obtain ⟨d, -, rfl⟩ := List.mem_map.mp ht
      exact reads_tableRow d

theorem reads_gap (previous : Option Event) (he : e.isBlock = true) :
    Reads (feedsAt previous) (gap previous e) 2 := by
  have atGap : Reads (feedsAt previous) (if isGap previous then "" else "\n") 2 := by
    rw [feedsAt]
    split <;> decide
  cases e with
  | text | newline => cases he
  | status | matrix | report => exact atGap

theorem reads_rendered (previous : Option Event)
    (htext : ∀ t, e = .text t → HasNoEmptyLine t) :
    Reads (feedsAt previous) (rendered previous e) (feedsAt (some e)) := by
  cases e with
  | text t =>
    rw [rendered, gap, String.empty_append]
    refine (htext t rfl).reads.of_gap (fun h => ?_) _
    exact absurd (String.append_eq_empty_iff.mp h).2 (by decide)
  | newline =>
    rw [rendered, body, String.append_empty, gap, feedsAt]
    split <;> decide
  | status | matrix | report =>
    exact (reads_gap previous rfl).append (reads_body (fun h => by cases h) htext)

/-- What a document ends with is told by its last event. -/
theorem reads_renderings (htexts : ∀ t, .text t ∈ events → HasNoEmptyLine t) :
    Reads 2 (String.join (renderings none events)) (feedsAt events.getLast?) := by
  induction events using List.reverseRecOn with
  | nil => exact reads_empty 2
  | append_singleton events e ih =>
    rw [renderings_concat, String.join_append, List.getLast?_concat, String.join_cons,
      String.join_nil, String.append_empty]
    refine (ih fun t ht => htexts t (List.mem_append_left _ ht)).append
      (reads_rendered _ fun t he => htexts t ?_)
    exact List.mem_append_right _ (List.mem_singleton.mpr he.symm)

/-! ## The layout -/

/-- What has been written of a document once it is closed. -/
theorem flushed_flush_ofEvents (events : List Event) :
    (ofEvents events).flush.flushed = String.join (renderings none events) :=
  text_ofEvents events

/-- Where no text has an empty line, a closed document neither begins with an empty line nor has
two of them in a row, and before each block there is exactly one, unless the block is the first
thing that is written. Ending a paragraph several times is ending it once. What is written are the
renderings of the events, each once and in order: at any time some of them have been passed on for
good and the others are pending. After an event that is awaited, nothing is pending. -/
theorem ofEvents_layout {events : List Event}
    (htexts : ∀ t, Event.text t ∈ events → HasNoEmptyLine t) :
    IsWellSpaced (ofEvents events).flush.flushed ∧
      (∀ before e after, events = before ++ e :: after → e.isBlock = true →
        ∃ start, start = String.join (renderings none before) ++ gap before.getLast? e ∧
          (ofEvents events).flush.flushed =
            start ++ body e ++ String.join (renderings (some e) after) ∧
          EndsWithGap start) ∧
      (∀ (before after : List Event) (n : Nat),
        events = before ++ List.replicate (n + 1) .newline ++ after →
        ofEvents events = ofEvents (before ++ .newline :: after)) ∧
      (ofEvents events).flush.flushed = String.join (renderings none events) ∧
      ∀ before after, events = before ++ after →
        (ofEvents before).flushed ++ (ofEvents before).pending =
            String.join (renderings none before) ∧
          (∃ more, (ofEvents events).flushed = (ofEvents before).flushed ++ more) ∧
          ∀ e, before.getLast? = some e → e.isAwaited = true → (ofEvents before).pending = "" := by
  rw [flushed_flush_ofEvents]
  refine ⟨(reads_renderings htexts).isWellSpaced, ?_, ?_, rfl, ?_⟩
  · rintro before e after rfl he
    have hbefore := reads_renderings fun t ht => htexts t (List.mem_append_left _ ht)
    refine ⟨_, rfl, ?_, (hbefore.append (reads_gap _ he)).endsWithGap⟩
    rw [renderings_append, Option.or_none, String.join_append, renderings_cons, String.join_cons,
      rendered, String.append_assoc, String.append_assoc, String.append_assoc]
  · rintro before after n rfl
    exact ofEvents_replicate_newline before after n
  · rintro before after rfl
    refine ⟨text_ofEvents before, flushed_ofEvents_append before after, fun e hlast he => ?_⟩
    obtain ⟨start, rfl⟩ := List.getLast?_eq_some_iff.mp hlast
    rw [ofEvents_concat]
    exact pending_receive (atGap_ofEvents start) he

/-- A report of a component that became a matrix and of one that is too small. -/
def twoDecisions : Report where
  matrixCreated := true
  matrixCount := 1
  constraintCount := 7
  decisions :=
    [{ shape := ⟨4, 5, 6, 15, .quotient 1 2⟩, ratio := some (.quotient 3 4),
       verdict := .acceptedBySampling, matrixNumber := some 0 },
     { shape := ⟨1, 2, 2, 4, .quotient 1 1⟩, ratio := none,
       verdict := .rejected .tooFewRows, matrixNumber := none }]
  unusedCount := 1
  tooFewRowsCount := 1

/-- A title, a matrix without rows and one with a row, a status, a report, and a search that was
skipped. -/
def shortLog : List Event :=
  [.text "## Matrix finding", .newline, .newline, .matrix (.ofRows 0 []),
    .matrix (.ofRows 1 [{ vars := [1, 2], rhs := true }]), .status .unknown,
    .report twoDecisions, .report { constraintCount := 1, skipped := some .tooFewConstraints }]

/-- The empty matrix has an empty line of its own. What was skipped is still pending at the end. -/
theorem ofEvents_layout_sample :
    (∀ t, Event.text t ∈ shortLog → HasNoEmptyLine t) ∧
      IsWellSpaced (ofEvents shortLog).flush.flushed ∧
      (ofEvents shortLog).flush.flushed =
        "## Matrix finding\n\n```\nmatrix #0 (0 x 0)\n\n```\n\n" ++
        "```\nmatrix #1 (1 x 2)\n  v1 ^ v2 = 1\n```\n\n**Status:** `unknown`\n\n" ++
        "#### Components\n\n1 matrices recovered from 7 xors in 0ns\n\n" ++
        "| Component | Rows | Columns | Density | Sampling | Decision |\n" ++
        "|-----------|------|---------|---------|----------|----------|\n" ++
        "| #4 | 5 | 6 | 0.5000 | 75.0% | accepted (sampling ratio) |\n" ++
        "| #1 | 2 | 2 | 1.0000 | - | rejected (too few rows) |\n\n" ++
        "Matrix finding skipped (too few xors), 1 xors left as they are.\n" ∧
      (ofEvents (shortLog.take 7)).pending = "" ∧
      (ofEvents shortLog).pending =
        "\nMatrix finding skipped (too few xors), 1 xors left as they are.\n" := by
  have htexts : ∀ t, Event.text t ∈ shortLog → HasNoEmptyLine t := by
    intro t ht
    obtain rfl : t = "## Matrix finding" := by simpa [shortLog] using ht
    decide
  obtain ⟨spaced, -, -, written, parts⟩ := ofEvents_layout htexts
  obtain ⟨-, -, awaited⟩ := parts (shortLog.take 7) (shortLog.drop 7) rfl
  exact ⟨htexts, spaced, written.trans (by decide +kernel), awaited (.report twoDecisions) rfl rfl,
    by decide +kernel⟩

end Log.Markdown

end ParityBlocks
