/-!
# Lines

`lines` cuts a sequence, of characters or of bytes, into lines. A line ends
with a line feed, and one carriage return before it belongs to the line end.
What follows the last line feed is a line unless it is empty.

The lines are known by their ends: with these they are the sequence, one line
after another (`Cut`), and it can be cut in no other way (`linesOf_eq_iff`).
The first line is what comes before the first line feed (`linesOf_append_cons`),
and so on with the rest.
-/

namespace ParityBlocks.Text

/-- The sequence without a `mark` at its end. -/
def dropEnd {α : Type} [DecidableEq α] (mark : α) (xs : List α) : List α :=
  if xs.getLast? = some mark then xs.dropLast else xs

/-- The lines of a sequence, where `lf` ends a line and `cr` may stand before it. -/
def linesOf {α : Type} [DecidableEq α] (lf cr : α) (xs : List α) : List (List α) :=
  let pieces := xs.splitOn lf
  let ended := pieces.dropLast.map (dropEnd cr)
  match pieces.getLast? with
  | none | some [] => ended
  | some rest => ended ++ [rest]

/-- The lines with their ends are the sequence. A line ends with a line feed and a carriage return
before it, if there is one. Only the last line may have no end, if it is not empty. -/
inductive Cut {α : Type} (lf cr : α) : List α → List (List α) → Prop
  | nil : Cut lf cr [] []
  | unended {line : List α} (h : lf ∉ line) (hne : line ≠ []) : Cut lf cr line [line]
  | feed {line rest : List α} {lines : List (List α)} (h : lf ∉ line)
    (hcr : line.getLast? ≠ some cr) (next : Cut lf cr rest lines) :
    Cut lf cr (line ++ lf :: rest) (line :: lines)
  | returnFeed {line rest : List α} {lines : List (List α)} (h : lf ∉ line)
    (next : Cut lf cr rest lines) : Cut lf cr (line ++ cr :: lf :: rest) (line :: lines)

section Lines

variable {α : Type}

/-- Induction from line feed to line feed. -/
@[elab_as_elim]
theorem line_induction {motive : List α → Prop} (lf : α)
    (unended : ∀ line, lf ∉ line → motive line)
    (ended : ∀ line rest, lf ∉ line → motive rest → motive (line ++ lf :: rest)) (xs : List α) :
    motive xs := by
  by_cases h : lf ∈ xs
  · obtain ⟨line, rest, rfl, hline⟩ := List.eq_append_cons_of_mem h
    exact ended line rest hline (line_induction lf unended ended rest)
  · exact unended xs h
termination_by xs.length
decreasing_by
  subst_vars
  rw [List.length_append, List.length_cons]
  omega

variable [DecidableEq α] {lf cr : α} {line : List α}

theorem dropEnd_of_ne (h : line.getLast? ≠ some cr) : dropEnd cr line = line := if_neg h

theorem dropEnd_concat (mark : α) (xs : List α) : dropEnd mark (xs ++ [mark]) = xs := by
  rw [dropEnd, List.getLast?_concat, if_pos rfl, List.dropLast_concat]

theorem linesOf_of_notMem (h : lf ∉ line) (hne : line ≠ []) : linesOf lf cr line = [line] := by
  rw [linesOf, List.splitOn_eq_singleton h]
  cases line with
  | nil => exact absurd rfl hne
  | cons x line => rfl

/-- What comes before the first line feed is the first line. -/
theorem linesOf_append_cons (h : lf ∉ line) (rest : List α) :
    linesOf lf cr (line ++ lf :: rest) = dropEnd cr line :: linesOf lf cr rest := by
  have pieces : (line ++ lf :: rest).splitOn lf = line :: rest.splitOn lf := by
    have alone : line.splitOn lf = [line] := List.splitOn_eq_singleton h
    rw [List.splitOn] at alone ⊢
    rw [List.splitOnP_append_cons (p := (· == lf)) line rest (beq_self_eq_true lf), alone]
    rfl
  obtain ⟨piece, more, hmore⟩ := List.exists_cons_of_ne_nil (List.splitOn_ne_nil lf rest)
  rw [linesOf, linesOf, pieces, hmore, List.dropLast_cons_cons, List.getLast?_cons_cons]
  simp only [List.map_cons]
  split <;> rfl

theorem cut_linesOf (lf cr : α) (xs : List α) : Cut lf cr xs (linesOf lf cr xs) := by
  induction xs using line_induction lf with
  | unended line h =>
    by_cases hnil : line = []
    · subst hnil
      exact .nil
    · rw [linesOf_of_notMem h hnil]
      exact .unended h hnil
  | ended line rest h next =>
    rw [linesOf_append_cons h]
    by_cases hcr : line.getLast? = some cr
    · obtain ⟨front, rfl⟩ := List.getLast?_eq_some_iff.mp hcr
      rw [dropEnd_concat, List.append_assoc]
      exact .returnFeed (fun hfront => h (List.mem_append_left _ hfront)) next
    · rw [dropEnd_of_ne hcr]
      exact .feed h hcr next

theorem linesOf_eq_iff (hne : lf ≠ cr) {xs : List α} {lines : List (List α)} :
    linesOf lf cr xs = lines ↔ Cut lf cr xs lines := by
  constructor
  · rintro rfl
    exact cut_linesOf lf cr xs
  · intro h
    induction h with
    | nil => rfl
    | unended h hline => exact linesOf_of_notMem h hline
    | feed h hcr _ ih => rw [linesOf_append_cons h, dropEnd_of_ne hcr, ih]
    | @returnFeed line _ _ h _ ih =>
      have ended : lf ∉ line ++ [cr] := by simp [h, hne]
      rw [List.append_cons, linesOf_append_cons ended, dropEnd_concat, ih]

end Lines

/-- The lines of a text. -/
def lines (text : String) : List String :=
  (linesOf '\n' '\r' text.toList).map String.ofList

end ParityBlocks.Text
