import ParityBlocks.Proofs.Lines

/-!
# The order of events

What a search sends has a fixed form: matrices and texts as long as it rules on components, then
one report and no more, or nothing but a contradiction (`Search.Protocol`).

Before the report, matrices and lines of accepted components are those of the rulings, in their
order (`Event.Announces`). Two parts of a log may be put together (`Event.Announces.append`),
remarks announce nothing (`Event.Announces.of_remarks`), and each component that is accepted adds
its matrix and then its line (`Narration.announces_narrate`, by induction on the rulings). As the
rulings are numbered, this puts each line between its matrix and the next one
(`Ruling.Numbered.flatMap_announcement`). With the report after it, such a log is what the protocol
asks for (`Event.Announces.told`, `Session.find_follows_protocol`).
-/

namespace ParityBlocks

open Narration Search

namespace Event

/-- The matrix that is announced. -/
def matrix? : Event → Option Matrix
  | .matrix m => some m
  | .text _ | .newline | .status _ | .report _ => none

/-- The report that a search ended with. -/
def report? : Event → Option Report
  | .report r => some r
  | .text _ | .newline | .status _ | .matrix _ => none

/-- A matrix, or the line of an accepted component. -/
def isAnnouncement (e : Event) : Bool := e.matrix?.isSome || e.isAcceptedLine

theorem exists_eq_text {e : Event} (h : e.isText = true) : ∃ t, e = .text t := by
  cases e with
  | text t => exact ⟨t, rfl⟩
  | newline | status | matrix | report => cases h

theorem IsRemark.matrix?_eq {e : Event} (h : IsRemark e) : e.matrix? = none := by
  obtain ⟨t, rfl⟩ := exists_eq_text h.isText_eq
  rfl

theorem IsRemark.isAnnouncement_eq {e : Event} (h : IsRemark e) : e.isAnnouncement = false := by
  rw [isAnnouncement, h.matrix?_eq, h.isAcceptedLine_eq]
  rfl

end Event

/-- What is sent of an accepted component: its matrix, then its line. -/
def Ruling.announcement (r : Ruling) : List Event :=
  match r.matrix? with
  | some m => [.matrix m, .text (lineOf r.decision)]
  | none => []

/-- What a search sends that ended with this report and left these matrices. -/
structure Report.Told (report : Report) (verbosity : Nat) (matrices : List Matrix)
    (events : List Event) : Prop where
  /-- Each matrix is announced once, in the order of the numbers. -/
  matrices_eq : events.filterMap Event.matrix? = matrices
  numbers_eq : matrices.map Matrix.number = List.range matrices.length
  matrices_of_skipped : report.skipped ≠ none → matrices = []
  reports_eq : events.filterMap Event.report? = [report]
  last_eq : events.getLast? = some (.report report)
  no_status : ∀ status, .status status ∉ events
  accepted_eq : (report.decisions.filter Decision.isAccepted).map Decision.matrixNumber =
    matrices.map fun m => some m.number
  /-- The line of a component comes after its matrix and before the next one. -/
  lines_eq : 1 ≤ verbosity → events.filter Event.isAnnouncement =
    (matrices.zip (report.decisions.filter Decision.isAccepted)).flatMap
      fun p => [.matrix p.1, .text (lineOf p.2)]

/-- What a search sends that had this outcome and left these matrices. -/
def Search.Protocol (verbosity : Nat) (matrices : List Matrix) (events : List Event) :
    Except Failure Report → Prop
  | .ok report => report.Told verbosity matrices events
  | .error (.contradiction c) => events = [.text s!"[matrix] {c.text}"]
  | .error (.fault _) => False

/-! ## Before the report -/

namespace Event

/-- The events are texts and matrices. Matrices and lines of accepted components are those of
the rulings, in their order. -/
structure Announces (verbosity : Nat) (rs : List Ruling) (events : List Event) : Prop where
  kind : ∀ e ∈ events, e.isText = true ∨ ∃ m, e = .matrix m
  matrices_eq : events.filterMap matrix? = rs.filterMap Ruling.matrix?
  lines_eq : 1 ≤ verbosity → events.filter isAnnouncement = rs.flatMap Ruling.announcement

namespace Announces

variable {verbosity : Nat} {rs rs' : List Ruling} {events events' : List Event}

theorem of_remarks (h : ∀ e ∈ events, IsRemark e) : Announces verbosity [] events where
  kind e he := .inl (h e he).isText_eq
  matrices_eq := List.filterMap_eq_nil_iff.mpr fun e he => (h e he).matrix?_eq
  lines_eq _ := filter_of_remarks (·.isAnnouncement_eq) h

theorem append (h : Announces verbosity rs events) (h' : Announces verbosity rs' events') :
    Announces verbosity (rs ++ rs') (events ++ events') where
  kind := List.forall_mem_append.mpr ⟨h.kind, h'.kind⟩
  matrices_eq := by
    rw [List.filterMap_append, List.filterMap_append, h.matrices_eq, h'.matrices_eq]
  lines_eq hv := by
    rw [List.filter_append, List.flatMap_append, h.lines_eq hv, h'.lines_eq hv]

theorem remarks_append (h' : Announces verbosity rs events') (h : ∀ e ∈ events, IsRemark e) :
    Announces verbosity rs (events ++ events') :=
  (of_remarks h).append h'

theorem append_remarks (h : Announces verbosity rs events) (h' : ∀ e ∈ events', IsRemark e) :
    Announces verbosity rs (events ++ events') := by
  have both := h.append (of_remarks h')
  rwa [List.append_nil] at both

/-- What a component adds that is accepted. -/
theorem of_accepted {r : Ruling} {number : Nat} (hn : r.decision.matrixNumber = some number) :
    Announces verbosity [r]
      (.matrix (.ofRows number r.rows) :: say verbosity 1 (lineOf r.decision)) := by
  have matrix_eq : r.matrix? = some (.ofRows number r.rows) := by rw [Ruling.matrix?, hn]; rfl
  have isLine : (Event.text (lineOf r.decision)).isAcceptedLine = true := by
    rw [(isLine_lineOf r.decision).1, hn]
    rfl
  by_cases hv : 1 ≤ verbosity
  · rw [say, if_pos hv]
    constructor
    case kind => simp [isText]
    case matrices_eq => simp [matrix?, matrix_eq]
    case lines_eq =>
      simp [Ruling.announcement, matrix_eq, isAnnouncement, isLine, matrix?]
  · rw [say, if_neg hv]
    constructor
    case kind => simp
    case matrices_eq => simp [matrix?, matrix_eq]
    case lines_eq => exact fun h => absurd h hv

/-- What a component adds that is rejected. -/
theorem of_rejected {r : Ruling} (hn : r.decision.matrixNumber = none)
    (h : ∀ e ∈ events, e = .text (lineOf r.decision)) : Announces verbosity [r] events := by
  have matrix_eq : r.matrix? = none := by rw [Ruling.matrix?, hn]; rfl
  have isLine : (Event.text (lineOf r.decision)).isAcceptedLine = false := by
    rw [(isLine_lineOf r.decision).1, hn]
    rfl
  constructor
  case kind => exact fun e he => .inl (h e he ▸ rfl)
  case matrices_eq =>
    rw [List.filterMap_cons_none matrix_eq]
    exact List.filterMap_eq_nil_iff.mpr fun e he => h e he ▸ rfl
  case lines_eq =>
    intro _
    rw [List.flatMap_singleton, Ruling.announcement, matrix_eq]
    exact List.filter_eq_nil_iff.mpr fun e he =>
      h e he ▸ ne_true_of_eq_false ((Bool.false_or _).trans isLine)

end Announces

end Event

theorem Narration.announces_narrate (verbosity minRows shown : Nat) (rs : List Ruling) :
    Event.Announces verbosity rs (narrate verbosity minRows shown rs) := by
  induction rs generalizing shown with
  | nil =>
    rw [narrate]
    exact .of_remarks (List.forall_mem_nil _)
  | cons r rs ih =>
    have opening := isRemark_explain verbosity minRows r.decision
    cases hn : r.decision.matrixNumber with
    | some number =>
      rw [narrate_cons_of_accepted hn]
      exact ((Event.Announces.of_accepted hn).append (ih shown)).remarks_append opening
    | none =>
      rw [narrate_cons_of_rejected hn]
      refine Event.Announces.remarks_append ?_ opening
      split
      · have line : ∀ e ∈ [Event.text (lineOf r.decision)], e = .text (lineOf r.decision) :=
          List.forall_mem_singleton.mpr rfl
        exact (Event.Announces.of_rejected hn line).append (ih (shown + 1))
      · have nothing : ∀ e ∈ ([] : List Event), e = .text (lineOf r.decision) :=
          List.forall_mem_nil _
        exact (Event.Announces.of_rejected hn nothing).append (ih shown)

/-! ## Matrices and decisions side by side -/

namespace Ruling.Numbered

variable {k : Nat} {rs : List Ruling}

/-- Accepted components and matrices have the same numbers. -/
theorem matrixNumbers_eq (h : Numbered k rs) :
    ((rs.map decision).filter Decision.isAccepted).map Decision.matrixNumber =
      (rs.filterMap matrix?).map fun m => some m.number := by
  induction rs generalizing k with
  | nil => rfl
  | cons r rs ih =>
    rw [List.map_cons]
    obtain ⟨ha, hn, hm, h⟩ | ⟨ha, -, hm, h⟩ := h.uncons
    · rw [List.filter_cons_of_pos (by exact ha), List.filterMap_cons_some hm, List.map_cons,
        List.map_cons, hn, ih h]
      rfl
    · rw [List.filter_cons_of_neg (by exact ne_true_of_eq_false ha), List.filterMap_cons_none hm,
        ih h]

theorem numbers_of_matrices (h : Numbered 0 rs) :
    (rs.filterMap matrix?).map Matrix.number = List.range (rs.filterMap matrix?).length := by
  have same := h.matrixNumbers_eq
  rw [filter_decisions, List.map_map] at same
  refine List.map_injective_iff.mpr (Option.some_injective _) ?_
  rw [List.map_map, h.length_matrices, List.range_eq_range', ← h.numbers_eq]
  exact same.symm

/-- Each matrix is announced next to the accepted component that it was made of. -/
theorem flatMap_announcement (h : Numbered k rs) :
    rs.flatMap announcement =
      ((rs.filterMap matrix?).zip ((rs.map decision).filter Decision.isAccepted)).flatMap
        fun p => [.matrix p.1, .text (lineOf p.2)] := by
  induction rs generalizing k with
  | nil => rfl
  | cons r rs ih =>
    rw [List.map_cons, List.flatMap_cons, announcement]
    obtain ⟨ha, -, hm, h⟩ | ⟨ha, -, hm, h⟩ := h.uncons
    · rw [List.filter_cons_of_pos (by exact ha), List.filterMap_cons_some hm, List.zip_cons_cons,
        List.flatMap_cons, hm, ih h]
    · rw [List.filter_cons_of_neg (by exact ne_true_of_eq_false ha), List.filterMap_cons_none hm,
        hm, ih h]
      rfl

end Ruling.Numbered

/-- With the report after them, such events are those of a search. -/
theorem Event.Announces.told {verbosity : Nat} {rs : List Ruling} {events : List Event}
    (h : Announces verbosity rs events) (hn : Ruling.Numbered 0 rs) {report : Report}
    (decisions_eq : report.decisions = rs.map Ruling.decision)
    (hskip : report.skipped ≠ none → rs = []) :
    report.Told verbosity (rs.filterMap Ruling.matrix?) (events ++ [.report report]) := by
  constructor
  case matrices_eq =>
    rw [List.filterMap_append, h.matrices_eq]
    exact List.append_nil _
  case numbers_eq => exact hn.numbers_of_matrices
  case matrices_of_skipped => exact fun hs => by rw [hskip hs]; rfl
  case reports_eq =>
    have before : events.filterMap Event.report? = [] := by
      refine List.filterMap_eq_nil_iff.mpr fun e he => ?_
      obtain htext | ⟨m, rfl⟩ := h.kind e he
      · obtain ⟨t, rfl⟩ := Event.exists_eq_text htext
        rfl
      · rfl
    rw [List.filterMap_append, before]
    rfl
  case last_eq => exact List.getLast?_concat
  case no_status =>
    intro status hstatus
    obtain hbefore | hlast := List.mem_append.mp hstatus
    · obtain htext | ⟨m, hmatrix⟩ := h.kind _ hbefore
      · cases htext
      · cases hmatrix
    · cases List.mem_singleton.mp hlast
  case accepted_eq => rw [decisions_eq, hn.matrixNumbers_eq]
  case lines_eq =>
    intro hv
    rw [List.filter_append, h.lines_eq hv, decisions_eq, ← hn.flatMap_announcement]
    exact List.append_nil _

/-! ## A whole search -/

namespace Session

variable {s : Session}

/-- What a search sends to all outputs has the form that its outcome asks for. That holds of the
search that sends everything at its moment, which this is. -/
theorem find_follows_protocol (hr : s.solver.Reachable) (hc : s.solver.consistent = true)
    (hm : s.solver.matrices = []) (elapsed : Duration) :
    ∃ events, (s.find elapsed).1.outputs = s.outputs.map (fun o => o.receiveAll events) ∧
      Protocol s.solver.settings.verbosity (s.find elapsed).1.solver.matrices events
        (s.find elapsed).2 ∧
      s.findAloud elapsed = .ok (s.find elapsed) := by
  have hs := hr.wellFormed
  refine ⟨s.solver.transcript s.solver.settings.verbosity elapsed, ?_, ?_,
    findAloud_eq hs hc hm elapsed⟩
  · rw [outputs_find, Solver.said_search hs hc hm]
  cases hp : s.solver.prepare with
  | error failure =>
    cases failure with
    | fault f => exact absurd hp (hs.prepare_ne_fault f)
    | contradiction c =>
      have outcome_eq : (s.find elapsed).2 = .error (.contradiction c) := by
        rw [find, search, explore_of_prepare_eq_error hc hm hp]
        rfl
      rw [outcome_eq, Solver.transcript, hp]
      rfl
  | ok cs =>
    cases hskip : skipCause? s.solver.settings cs with
    | some cause =>
      obtain ⟨outcome_eq, solver_eq⟩ := find_of_skipped hs hc hm hp hskip elapsed
      have announces : Event.Announces s.solver.settings.verbosity []
          (skipText s.solver.settings.verbosity (withVariables cs) cause) :=
        .of_remarks (isRemark_skipText _ _ _)
      rw [outcome_eq, solver_eq, hm, Solver.transcript, hp]
      simp only [hskip]
      exact announces.told trivial rfl fun _ => rfl
    | none =>
      obtain ⟨outcome_eq, solver_eq⟩ := find_of_divided hs hc hm hp hskip elapsed
      obtain ⟨opening, closing, before, after, transcript_eq⟩ :=
        Solver.exists_transcript_eq hp hskip s.solver.settings.verbosity elapsed
      rw [outcome_eq, solver_eq, transcript_eq]
      have announces := ((announces_narrate s.solver.settings.verbosity
        s.solver.settings.thresholds.minRows 0 (s.solver.rulings cs)).remarks_append
          before).append_remarks after
      exact announces.told (hs.divides_rulings hp).numbered rfl fun hne => absurd rfl hne

/-- The sample with two outputs, one of which refuses everything. -/
def ignoredSample : Session where
  solver := sample.solver.perform (.configure { verbosity := 1 })
  outputs := [{ refusal := fun _ _ => some "closed" }, .quiet]

theorem find_follows_protocol_sample :
    ignoredSample.solver.Reachable ∧ ignoredSample.solver.consistent = true ∧
      ignoredSample.solver.matrices = [] ∧
      (ignoredSample.find .zero).1.solver.matrices.length = 2 ∧
      ∃ report events, (ignoredSample.find .zero).2 = .ok report ∧ report.skipped = none ∧
      (ignoredSample.find .zero).1.outputs =
        ignoredSample.outputs.map (fun o => o.receiveAll events) ∧
      report.Told 1 (ignoredSample.find .zero).1.solver.matrices events ∧
      ignoredSample.findAloud .zero = .ok (ignoredSample.find .zero) := by
  have reachable : ignoredSample.solver.Reachable :=
    reachable_sample.perform (.configure { verbosity := 1 })
  have h : ((ignoredSample.find .zero).2.toOption.any fun report =>
      decide (report.skipped = none)) = true := by decide +kernel
  obtain ⟨report, hok, h⟩ := Checked.exists_eq_ok h
  obtain ⟨events, gets, follows, aloud⟩ :=
    find_follows_protocol reachable consistent_sample matrices_sample .zero
  rw [hok] at follows
  exact ⟨reachable, consistent_sample, matrices_sample, by decide +kernel, report, events, hok,
    of_decide_eq_true h, gets, follows, aloud⟩

end Session

end ParityBlocks
