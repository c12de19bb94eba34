import ParityBlocks.Proofs.Bookkeeping
import ParityBlocks.Proofs.Verbosity

/-!
# Lines of components

A text is known by its first words: where two words differ, no text begins with both
(`Differ.not_opens`), and so no other text of a search is taken for the line of a component
(`Event.IsRemark`, `Narration.isRemark_explain` and the like).

The lines are what is left of a log when everything else is taken out. For those of accepted
components that is a matter of one component at a time (`Narration.filter_narrate_isAcceptedLine`).
Those of rejected ones share a limit, and a counter goes through the components with them. It
counts what is shown and nothing else, so after `shown` lines there are those of the first
components that have one and still fit (`Narration.filter_narrate_isRejectedLine`, by induction on
the components with the counter as it is by then). What a whole search logs beside them are remarks
(`Solver.exists_transcript_eq`), so its lines are those of its decisions
(`Session.find_lists_components`).
-/

namespace ParityBlocks

open Narration Search

/-! ## First words -/

/-- The text begins with these words. -/
def Opens (words text : String) : Prop := words.toList <+: text.toList

namespace Opens

variable {words text : String}

instance (words text : String) : Decidable (Opens words text) :=
  inferInstanceAs (Decidable (words.toList <+: text.toList))

theorem refl (words : String) : Opens words words := List.prefix_refl _

theorem append (h : Opens words text) (more : String) : Opens words (text ++ more) := by
  rw [Opens, String.toList_append]
  exact h.trans (List.prefix_append _ _)

theorem prepend (start : String) (h : Opens words text) : Opens (start ++ words) (start ++ text) := by
  rw [Opens, String.toList_append, String.toList_append]
  exact List.prefix_append_right_inj _ |>.mpr h

end Opens

/-- No text begins with both. -/
def Differ (words words' : String) : Prop := ¬ Opens words words' ∧ ¬ Opens words' words

instance (words words' : String) : Decidable (Differ words words') :=
  inferInstanceAs (Decidable (_ ∧ _))

theorem Differ.symm {words words' : String} (h : Differ words words') : Differ words' words :=
  And.symm h

theorem Differ.not_opens {words words' text : String} (h : Differ words words')
    (ht : Opens words' text) : ¬ Opens words text := fun hw =>
  (List.prefix_or_prefix_of_prefix hw ht).elim h.1 h.2

namespace Event

/-- The event is a text that begins with these words. -/
def begins (words : String) : Event → Bool
  | .text t => decide (Opens words t)
  | .newline | .status _ | .matrix _ | .report _ => false

/-- The line of an accepted component. -/
def isAcceptedLine : Event → Bool := begins "[matrix] Good   matrix "

/-- The line of a rejected component. -/
def isRejectedLine : Event → Bool := begins "[matrix] UNused matrix   "

theorem isAcceptedLine_iff {t : String} :
    (Event.text t).isAcceptedLine = true ↔ Opens "[matrix] Good   matrix " t := decide_eq_true_iff

theorem isRejectedLine_iff {t : String} :
    (Event.text t).isRejectedLine = true ↔ Opens "[matrix] UNused matrix   " t := decide_eq_true_iff

/-- A text that is not the line of a component. -/
structure IsRemark (e : Event) : Prop where
  isText_eq : e.isText = true
  isAcceptedLine_eq : e.isAcceptedLine = false
  isRejectedLine_eq : e.isRejectedLine = false

theorem isRemark_text {words t : String} (ht : Opens words t)
    (h : Differ "[matrix] Good   matrix " words ∧ Differ "[matrix] UNused matrix   " words) :
    IsRemark (.text t) where
  isText_eq := rfl
  isAcceptedLine_eq := eq_false_of_ne_true (isAcceptedLine_iff.not.mpr (h.1.not_opens ht))
  isRejectedLine_eq := eq_false_of_ne_true (isRejectedLine_iff.not.mpr (h.2.not_opens ht))

theorem filter_of_remarks {p : Event → Bool} (hp : ∀ {e}, IsRemark e → p e = false)
    {es : List Event} (h : ∀ e ∈ es, IsRemark e) : es.filter p = [] :=
  List.filter_eq_nil_iff.mpr fun e he => ne_true_of_eq_false (hp (h e he))

end Event

/-! ## Remarks -/

namespace Narration

open Event (IsRemark)

theorem isRemark_ite {p : Prop} [Decidable p] {es : List Event} (h : ∀ e ∈ es, IsRemark e) :
    ∀ e ∈ (if p then es else []), IsRemark e := by
  split
  · exact h
  · exact List.forall_mem_nil _

theorem isRemark_say {verbosity level : Nat} {t : String} (h : IsRemark (.text t)) :
    ∀ e ∈ say verbosity level t, IsRemark e :=
  isRemark_ite (List.forall_mem_singleton.mpr h)

theorem isRemark_skipText (verbosity count : Nat) (cause : SkipCause) :
    ∀ e ∈ skipText verbosity count cause, IsRemark e := by
  cases cause with
  | tooFewConstraints =>
    exact isRemark_say (Event.isRemark_text ((Opens.refl _).append _) (by decide))
  | tooManyForSampling =>
    exact isRemark_say (Event.isRemark_text ((Opens.refl _).append _) (by decide))
  | disabled => exact isRemark_say (Event.isRemark_text (.refl _) (by decide))

theorem isRemark_explain (verbosity minRows : Nat) (d : Decision) :
    ∀ e ∈ explain verbosity minRows d, IsRemark e := by
  have none : ∀ e ∈ ([] : List Event), IsRemark e := List.forall_mem_nil _
  rw [explain]
  refine List.forall_mem_append.mpr ⟨?_, ?_⟩
  · split
    · exact isRemark_ite
        (isRemark_say (Event.isRemark_text ((Opens.refl _).append _) (by decide)))
    · exact none
  · cases d.verdict with
    | accepted => exact none
    | acceptedBySampling => exact isRemark_say (Event.isRemark_text (.refl _) (by decide))
    | rejected reason =>
      cases reason with
      | noRows => exact none
      | lowSamplingRatio => exact isRemark_say (Event.isRemark_text (.refl _) (by decide))
      | tooManyRows =>
        exact isRemark_say (Event.isRemark_text (((Opens.refl _).append _).append _) (by decide))
      | tooManyColumns =>
        exact isRemark_say (Event.isRemark_text (((Opens.refl _).append _).append _) (by decide))
      | tooFewRows =>
        exact isRemark_say (Event.isRemark_text (((Opens.refl _).append _).append _) (by decide))
      | matrixLimit => exact isRemark_say (Event.isRemark_text (.refl _) (by decide))

theorem isRemark_raisedText (verbosity maxRows : Nat) :
    ∀ e ∈ raisedText verbosity maxRows, IsRemark e :=
  isRemark_say (Event.isRemark_text ((Opens.refl _).append _) (by decide))

theorem isRemark_unusedText (verbosity : Nat) (r : Report) :
    ∀ e ∈ unusedText verbosity r, IsRemark e :=
  isRemark_ite (isRemark_say (Event.isRemark_text
    ((((Opens.refl _).append _).append _).append _) (by decide)))

theorem isRemark_closingText (verbosity : Nat) (r : Report) :
    ∀ e ∈ closingText verbosity r, IsRemark e :=
  isRemark_say (Event.isRemark_text ((((Opens.refl _).append _).append _).append _) (by decide))

/-! ## Lines -/

/-- The line of a component. -/
def lineOf (d : Decision) : String :=
  match d.matrixNumber with
  | some number => componentLine s!"Good   matrix {padLeft 2 (toString number)}" d
  | none => componentLine "UNused matrix   " d

theorem opens_componentLine {words fate start : String} (h : Opens words fate)
    (hs : "[matrix] " ++ words = start) (d : Decision) : Opens start (componentLine fate d) := by
  rw [← hs]
  exact (((((((h.prepend "[matrix] ").append _).append _).append _).append _).append _).append
    _).append _

/-- The line of a component tells whether it was accepted. -/
theorem isLine_lineOf (d : Decision) :
    (Event.text (lineOf d)).isAcceptedLine = d.matrixNumber.isSome ∧
      (Event.text (lineOf d)).isRejectedLine = d.matrixNumber.isNone := by
  have differ : Differ "[matrix] UNused matrix   " "[matrix] Good   matrix " := by decide
  rw [lineOf]
  cases d.matrixNumber with
  | some number =>
    have fate : Opens "Good   matrix " s!"Good   matrix {padLeft 2 (toString number)}" :=
      (Opens.refl _).append _
    have opens : Opens "[matrix] Good   matrix " _ := opens_componentLine fate (by decide) d
    exact ⟨Event.isAcceptedLine_iff.mpr opens,
      eq_false_of_ne_true (Event.isRejectedLine_iff.not.mpr (differ.not_opens opens))⟩
  | none =>
    have opens : Opens "[matrix] UNused matrix   " _ :=
      opens_componentLine (.refl "UNused matrix   ") (by decide) d
    exact ⟨eq_false_of_ne_true (Event.isAcceptedLine_iff.not.mpr (differ.symm.not_opens opens)),
      Event.isRejectedLine_iff.mpr opens⟩

/-! ## Component by component -/

instance (verbosity minRows : Nat) (d : Decision) : Decidable (HasLine verbosity minRows d) :=
  inferInstanceAs (Decidable (_ ∧ _))

variable {verbosity minRows shown : Nat} {r : Ruling} {rs : List Ruling}

theorem narrate_cons_of_accepted {number : Nat} (h : r.decision.matrixNumber = some number) :
    narrate verbosity minRows shown (r :: rs) =
      explain verbosity minRows r.decision ++ (.matrix (.ofRows number r.rows) ::
        (say verbosity 1 (lineOf r.decision) ++ narrate verbosity minRows shown rs)) := by
  rw [narrate, Ruling.matrix?, lineOf, h]
  simp only [Option.map_some, Option.toList_some, List.map_cons, List.map_nil, List.append_assoc,
    List.cons_append, List.nil_append]

theorem narrate_cons_of_rejected (h : r.decision.matrixNumber = none) :
    narrate verbosity minRows shown (r :: rs) =
      explain verbosity minRows r.decision ++
        if HasLine verbosity minRows r.decision ∧ shown < maxUnusedLines then
          .text (lineOf r.decision) :: narrate verbosity minRows (shown + 1) rs
        else narrate verbosity minRows shown rs := by
  rw [narrate, Ruling.matrix?, lineOf, h]
  simp only [Option.map_none, Option.toList_none, List.map_nil, List.append_nil, showsUnused_iff]
  split
  · rw [List.append_assoc, List.singleton_append]
  · rfl

theorem filter_say_of_neg {p : Event → Bool} {t : String} (h : p (.text t) = false)
    (level : Nat) : (say verbosity level t).filter p = [] := by
  rw [say]
  split
  · rw [List.filter_cons_of_neg (by rw [h]; decide), List.filter_nil]
  · rfl

/-- The lines of accepted components, each of which has one. -/
theorem filter_narrate_isAcceptedLine (verbosity minRows shown : Nat) (rs : List Ruling) :
    (narrate verbosity minRows shown rs).filter Event.isAcceptedLine =
      ((rs.map Ruling.decision).filter fun d =>
        d.matrixNumber.isSome && decide (1 ≤ verbosity)).map fun d => .text (lineOf d) := by
  induction rs generalizing shown with
  | nil => rw [narrate]; rfl
  | cons r rs ih =>
    have remarks : (explain verbosity minRows r.decision).filter Event.isAcceptedLine = [] :=
      Event.filter_of_remarks (·.isAcceptedLine_eq) (isRemark_explain _ _ _)
    have line := (isLine_lineOf r.decision).1
    rw [List.map_cons]
    cases hn : r.decision.matrixNumber with
    | some number =>
      rw [hn] at line
      have isMatrix : (Event.matrix (.ofRows number r.rows)).isAcceptedLine = false := rfl
      rw [narrate_cons_of_accepted hn, List.filter_append, remarks, List.nil_append,
        List.filter_cons_of_neg (by rw [isMatrix]; decide), List.filter_append, ih, say]
      by_cases h : 1 ≤ verbosity
      · rw [if_pos h, List.filter_cons_of_pos (by exact line), List.filter_nil,
          List.singleton_append, List.filter_cons_of_pos (by simp [hn, h]), List.map_cons]
      · rw [if_neg h, List.filter_nil, List.nil_append, List.filter_cons_of_neg (by simp [h])]
    | none =>
      rw [hn] at line
      rw [narrate_cons_of_rejected hn, List.filter_append, remarks, List.nil_append,
        List.filter_cons_of_neg (by simp [hn])]
      split
      · rw [List.filter_cons_of_neg (by rw [line]; decide), ih]
      · exact ih shown

/-- The lines of rejected components are those of the first ones that have a line, as many as the
limit has room for. -/
theorem filter_narrate_isRejectedLine (verbosity minRows shown : Nat) (rs : List Ruling) :
    (narrate verbosity minRows shown rs).filter Event.isRejectedLine =
      (((rs.map Ruling.decision).filter fun d =>
        d.matrixNumber.isNone && decide (HasLine verbosity minRows d)).take
          (maxUnusedLines - shown)).map fun d => .text (lineOf d) := by
  induction rs generalizing shown with
  | nil => rw [narrate, List.map_nil, List.filter_nil, List.filter_nil, List.take_nil, List.map_nil]
  | cons r rs ih =>
    have remarks : (explain verbosity minRows r.decision).filter Event.isRejectedLine = [] :=
      Event.filter_of_remarks (·.isRejectedLine_eq) (isRemark_explain _ _ _)
    have line := (isLine_lineOf r.decision).2
    rw [List.map_cons]
    cases hn : r.decision.matrixNumber with
    | some number =>
      rw [hn] at line
      have isMatrix : (Event.matrix (.ofRows number r.rows)).isRejectedLine = false := rfl
      rw [narrate_cons_of_accepted hn, List.filter_append, remarks, List.nil_append,
        List.filter_cons_of_neg (by rw [isMatrix]; decide), List.filter_append,
        filter_say_of_neg line, List.nil_append, ih, List.filter_cons_of_neg (by simp [hn])]
    | none =>
      rw [hn] at line
      rw [narrate_cons_of_rejected hn, List.filter_append, remarks, List.nil_append]
      by_cases hline : HasLine verbosity minRows r.decision
      · rw [List.filter_cons_of_pos (by simp [hn, hline])]
        by_cases hlimit : shown < maxUnusedLines
        · have room : maxUnusedLines - shown = maxUnusedLines - (shown + 1) + 1 := by omega
          rw [if_pos ⟨hline, hlimit⟩, List.filter_cons_of_pos (by exact line), ih, room,
            List.take_succ_cons, List.map_cons]
        · have full : maxUnusedLines - shown = 0 := by omega
          rw [if_neg fun hshows => hlimit hshows.2, ih, full, List.take_zero, List.take_zero]
      · rw [if_neg fun hshows => hline hshows.1, List.filter_cons_of_neg (by simp [hline]), ih]

end Narration

/-! ## The whole log -/

namespace Solver

variable {s : Solver} {cs : List Constraint}

/-- A search that looks for blocks logs its rulings, remarks before and after them, and its
report. -/
theorem exists_transcript_eq (hp : s.prepare = .ok cs) (hskip : skipCause? s.settings cs = none)
    (verbosity : Nat) (elapsed : Duration) :
    ∃ opening closing, (∀ e ∈ opening, Event.IsRemark e) ∧ (∀ e ∈ closing, Event.IsRemark e) ∧
      s.transcript verbosity elapsed =
        opening ++ narrate verbosity s.settings.thresholds.minRows 0 (s.rulings cs) ++ closing ++
          [.report { Ruling.report cs.length (s.rulings cs) with elapsed := elapsed }] := by
  have before := isRemark_ite (p := s.settings.thresholds.maxRows < s.policy.maxRows)
    (isRemark_raisedText verbosity s.policy.maxRows)
  have after := List.forall_mem_append.mpr
    ⟨isRemark_unusedText verbosity (Ruling.report cs.length (s.rulings cs)),
      isRemark_closingText verbosity
        { Ruling.report cs.length (s.rulings cs) with elapsed := elapsed }⟩
  refine ⟨_, _, before, after, ?_⟩
  rw [transcript, hp]
  simp only [hskip, List.append_assoc]

/-- Of such a log, what is neither a remark nor the report comes from the rulings. -/
theorem filter_transcript (hp : s.prepare = .ok cs) (hskip : skipCause? s.settings cs = none)
    {p : Event → Bool} (remark : ∀ {e}, Event.IsRemark e → p e = false)
    (report : ∀ r, p (.report r) = false) (verbosity : Nat) (elapsed : Duration) :
    (s.transcript verbosity elapsed).filter p =
      (narrate verbosity s.settings.thresholds.minRows 0 (s.rulings cs)).filter p := by
  obtain ⟨opening, closing, before, after, transcript_eq⟩ :=
    exists_transcript_eq hp hskip verbosity elapsed
  rw [transcript_eq, List.filter_append, List.filter_append, List.filter_append,
    Event.filter_of_remarks remark before, Event.filter_of_remarks remark after,
    List.filter_cons_of_neg (by rw [report]; decide), List.filter_nil, List.append_nil,
    List.append_nil, List.nil_append]

end Solver

namespace Session

variable {s : Session}

/-- Which components have a line in the log of a search that looked for blocks. From verbosity 1 on
every accepted one has a line, and so have, in the order of the decisions, the first ten of the
rejected ones that are not small, or at verbosity 2 of all rejected ones. At verbosity 0 none
has. -/
theorem find_lists_components (hr : s.solver.Reachable) {elapsed : Duration} {report : Report}
    (hok : (s.find elapsed).2 = .ok report) (hskip : report.skipped = none) :
    let verbosity := s.solver.settings.verbosity
    let minRows := s.solver.settings.thresholds.minRows
    ∃ events, (s.find elapsed).1.outputs = s.outputs.map (fun o => o.receiveAll events) ∧
      (1 ≤ verbosity →
        events.filter Event.isAcceptedLine =
          (report.decisions.filter Decision.isAccepted).map (fun d => .text (lineOf d)) ∧
        events.filter Event.isRejectedLine =
          ((report.decisions.filter fun d => !d.isAccepted &&
            (decide (minRows ≤ d.shape.rows) || decide (2 ≤ verbosity))).take 10).map
              fun d => .text (lineOf d)) ∧
      (verbosity = 0 → ∀ e ∈ events, e.isAcceptedLine = false ∧ e.isRejectedLine = false) := by
  intro verbosity minRows
  have hs := hr.wellFormed
  obtain ⟨hc, hm⟩ := ready_of_find_eq_ok hok
  obtain ⟨cs, hp, hcause, rfl, -⟩ := exists_rulings_of_find hs hc hm hok hskip
  have accepted_eq : ∀ d ∈ (s.solver.rulings cs).map Ruling.decision,
      d.matrixNumber.isSome = d.isAccepted :=
    List.forall_mem_map.mpr (Ruling.numbered_ofAssessed _ 0 _).isSome_matrixNumber
  have acceptedLines := Solver.filter_transcript hp hcause (p := Event.isAcceptedLine)
    (·.isAcceptedLine_eq) (fun _ => rfl) verbosity elapsed
  have rejectedLines := Solver.filter_transcript hp hcause (p := Event.isRejectedLine)
    (·.isRejectedLine_eq) (fun _ => rfl) verbosity elapsed
  rw [filter_narrate_isAcceptedLine] at acceptedLines
  rw [filter_narrate_isRejectedLine] at rejectedLines
  refine ⟨s.solver.transcript verbosity elapsed, ?_, fun h => ⟨?_, ?_⟩, fun h => ?_⟩
  · rw [outputs_find, Solver.said_search hs hc hm]
  · rw [acceptedLines]
    refine congrArg _ (List.filter_congr fun d hd => ?_)
    rw [accepted_eq d hd, decide_eq_true h, Bool.and_true]
  · rw [rejectedLines]
    refine congrArg (List.map _) (congrArg (List.take 10) (List.filter_congr fun d hd => ?_))
    rw [← Option.not_isSome, accepted_eq d hd, ← Bool.decide_or]
    exact congrArg _ (decide_eq_decide.mpr (and_iff_right h))
  · have silent : ¬ 1 ≤ verbosity := by omega
    have noAccepted : (s.solver.transcript verbosity elapsed).filter Event.isAcceptedLine = [] := by
      simp [acceptedLines, silent]
    have noRejected : (s.solver.transcript verbosity elapsed).filter Event.isRejectedLine = [] := by
      simp [rejectedLines, HasLine, silent]
    exact fun e he => ⟨eq_false_of_ne_true (List.filter_eq_nil_iff.mp noAccepted e he),
      eq_false_of_ne_true (List.filter_eq_nil_iff.mp noRejected e he)⟩

/-- Twelve blocks of two constraints, one on three variables, five on four, five on five and one on
six, and three blocks of one. -/
def crowd : List Request :=
  ((List.range 12).flatMap fun i =>
    [.add [6 * i, 6 * i + 1] true, .add (List.range' (6 * i + 1) ((i + 4) / 5 + 2)) false]) ++
    (List.range 3).map fun i => .add [72 + 2 * i, 73 + 2 * i] true

/-- Room for one matrix only, and all lines that verbosity 1 gives. -/
def oneMatrix : Settings where
  thresholds := { minRows := 2, maxMatrices := 1 }
  verbosity := 1

def crowded : Session where
  solver := crowd.foldl Solver.perform (.new 78 oneMatrix)
  outputs := [.quiet]

/-- The lines of the rejected blocks on four and on five variables. -/
def tenLines : List String :=
  List.replicate 5 "[matrix] UNused matrix          2 x    4  density:0.6250  xorlen avg:  2.50" ++
    List.replicate 5 "[matrix] UNused matrix          2 x    5  density:0.6000  xorlen avg:  3.00"

/-- Of the eleven blocks of two that are rejected, all but the one on six variables have a line. -/
theorem find_lists_components_sample :
    crowded.solver.Reachable ∧ ∃ report events, (crowded.find .zero).2 = .ok report ∧
      report.skipped = none ∧ report.matrixCount = 1 ∧ report.unusedCount = 14 ∧
      report.tooFewRowsCount = 3 ∧
      (crowded.find .zero).1.outputs = crowded.outputs.map (fun o => o.receiveAll events) ∧
      events.filter Event.isAcceptedLine =
        [.text "[matrix] Good   matrix  0       2 x    3  density:0.6667  xorlen avg:  2.00"] ∧
      events.filter Event.isRejectedLine = tenLines.map .text := by
  have fresh : (Solver.new 78 oneMatrix).Reachable := .new _ (by decide)
  have reachable : crowded.solver.Reachable := by
    dsimp only [crowded]
    exact fresh.foldl crowd
  have h : ((crowded.find .zero).2.toOption.any fun report => decide (report.skipped = none ∧
      report.matrixCount = 1 ∧ report.unusedCount = 14 ∧ report.tooFewRowsCount = 3 ∧
      (report.decisions.filter Decision.isAccepted).map lineOf =
        ["[matrix] Good   matrix  0       2 x    3  density:0.6667  xorlen avg:  2.00"] ∧
      ((report.decisions.filter fun d => !d.isAccepted && (decide (2 ≤ d.shape.rows) ||
        decide (2 ≤ 1))).take 10).map lineOf = tenLines)) = true := by decide +kernel
  obtain ⟨report, hok, h⟩ := Checked.exists_eq_ok h
  obtain ⟨hskip, hcount, hunused, hfew, haccepted, hrejected⟩ := of_decide_eq_true h
  have verbosity_eq : crowded.solver.settings.verbosity = 1 := by decide +kernel
  have minRows_eq : crowded.solver.settings.thresholds.minRows = 2 := by decide +kernel
  obtain ⟨events, gets, lines, -⟩ := find_lists_components reachable hok hskip
  obtain ⟨accepted, rejected⟩ := lines (by rw [verbosity_eq])
  rw [minRows_eq, verbosity_eq] at rejected
  have texts : ∀ ds : List Decision,
      ds.map (fun d => Event.text (lineOf d)) = (ds.map lineOf).map .text :=
    fun ds => (List.map_map (l := ds)).symm
  refine ⟨reachable, report, events, hok, hskip, hcount, hunused, hfew, gets, ?_, ?_⟩
  · rw [accepted, texts, haccepted]
    rfl
  · rw [rejected, texts, hrejected]

end Session

end ParityBlocks
