import ParityBlocks.Proofs.Account
import ParityBlocks.Proofs.Reachable

/-!
# Searches that do not look for blocks

Three causes speak against looking for blocks among prepared constraints
(`SkipCause.Applies`). The first of them that applies is reported
(`Search.skipCause?_eq_find?`), and the search then gives everything back: the pool holds the
prepared constraints, which are those that it held before, each prepared in its place
(`Solver.forall₂_of_prepare`), and neither matrices nor queue entries are left
(`Session.find_skips_by_first_cause`).
-/

namespace ParityBlocks

/-- There is this cause against looking for blocks among the constraints. -/
def SkipCause.Applies (settings : Settings) (cs : List Constraint) : SkipCause → Prop
  | tooFewConstraints => cs.countP (fun c => c.vars ≠ []) < settings.thresholds.minConstraints
  | tooManyForSampling => settings.thresholds.maxConstraints < cs.length ∧ settings.sampling ≠ none
  | disabled => settings.thresholds.enabled = false

instance (settings : Settings) (cs : List Constraint) :
    DecidablePred (SkipCause.Applies settings cs)
  | .tooFewConstraints => inferInstanceAs (Decidable (_ < _))
  | .tooManyForSampling => inferInstanceAs (Decidable (_ ∧ _))
  | .disabled => inferInstanceAs (Decidable (_ = _))

/-- All causes, those that go first before the others. -/
def SkipCause.all : List SkipCause := [tooFewConstraints, tooManyForSampling, disabled]

theorem SkipCause.mem_all (cause : SkipCause) : cause ∈ all := by
  cases cause <;> decide

namespace Search

theorem withVariables_eq (cs : List Constraint) :
    withVariables cs = cs.countP fun c => c.vars ≠ [] := by
  refine List.countP_congr fun c _ => ?_
  simp [Constraint.isTrivial]

theorem find?_decide_cons {α : Type} (P : α → Prop) [DecidablePred P] (x : α) (xs : List α) :
    (x :: xs).find? (fun y => P y) = if P x then some x else xs.find? fun y => P y := by
  rw [List.find?_cons]
  by_cases h : P x
  · rw [decide_eq_true h, if_pos h]
  · rw [decide_eq_false h, if_neg h]

/-- The first cause that applies is the one that is reported. -/
theorem skipCause?_eq_find? (settings : Settings) (cs : List Constraint) :
    skipCause? settings cs =
      SkipCause.all.find? fun cause => cause.Applies settings cs := by
  have few : SkipCause.tooFewConstraints.Applies settings cs ↔
      withVariables cs < settings.thresholds.minConstraints := by
    rw [withVariables_eq]
    rfl
  have many : SkipCause.tooManyForSampling.Applies settings cs ↔
      cs.length > settings.thresholds.maxConstraints ∧ settings.sampling.isSome :=
    and_congr_right fun _ => Option.isSome_iff_ne_none.symm
  have off : SkipCause.disabled.Applies settings cs ↔ !settings.thresholds.enabled := by
    rw [Bool.not_eq_true']
    rfl
  rw [SkipCause.all, find?_decide_cons, find?_decide_cons, find?_decide_cons, List.find?_nil]
  simp only [few, many, off]
  rfl

theorem skipCause?_ne_none_iff {settings : Settings} {cs : List Constraint} :
    skipCause? settings cs ≠ none ↔ ∃ cause : SkipCause, cause.Applies settings cs := by
  rw [skipCause?_eq_find?, ← Option.isSome_iff_ne_none, List.find?_isSome]
  constructor
  · rintro ⟨cause, -, h⟩
    exact ⟨cause, of_decide_eq_true h⟩
  · rintro ⟨cause, h⟩
    exact ⟨cause, cause.mem_all, decide_eq_true h⟩

end Search

namespace Session

open Search

variable {s : Session}

/-- If the pool can be prepared then the search ends with a report. It does not look for blocks
if there is a cause against it, and reports the first such cause; then it leaves the prepared
constraints in the pool, each where it was before. -/
theorem find_skips_by_first_cause (hr : s.solver.Reachable) (hc : s.solver.consistent = true)
    (hm : s.solver.matrices = []) {cs : List Constraint} (hp : s.solver.prepare = .ok cs)
    (elapsed : Duration) :
    ∃ report, (s.find elapsed).2 = .ok report ∧
      (report.skipped ≠ none ↔ ∃ cause : SkipCause, cause.Applies s.solver.settings cs) ∧
      report.skipped = SkipCause.all.find? (fun cause => cause.Applies s.solver.settings cs) ∧
      (∀ cause, report.skipped = some cause →
        report = { constraintCount := cs.length, skipped := some cause, elapsed := elapsed } ∧
        (s.find elapsed).1.solver =
          { s.solver with
            pool := cs
            matrices := []
            queue := []
            cancelled := Ascending.ofList (cs.flatMap Constraint.cancelled) }) ∧
      List.Forall₂ (fun c c' => s.solver.PreparesTo c c' ∧ c'.placement = c.placement)
        s.solver.pool cs := by
  have hs := hr.wellFormed
  have outcome_eq := (find_of_prepare hs hc hm hp elapsed).outcome_eq
  have skipped_eq : (s.solver.account cs).skipped = skipCause? s.solver.settings cs := by
    rw [Solver.account]
    cases h : skipCause? s.solver.settings cs <;> rfl
  refine ⟨_, outcome_eq, ?_, skipped_eq.trans (skipCause?_eq_find? _ _), ?_,
    (Solver.forall₂_of_prepare hp).imp fun c c' h => ⟨h, h.placement_eq⟩⟩
  · exact skipped_eq ▸ skipCause?_ne_none_iff
  · intro cause hcause
    obtain ⟨outcome_eq', solver_eq⟩ :=
      find_of_skipped hs hc hm hp (skipped_eq.symm.trans hcause) elapsed
    rw [outcome_eq'] at outcome_eq
    refine ⟨(Except.ok.inj outcome_eq).symm, ?_⟩
    rw [solver_eq, ← hm]

/-- A session with three constraints, two of them the same and one without variables, for which
two causes apply. -/
def skipping : Session where
  solver :=
    [.configure { thresholds := { minConstraints := 1, maxConstraints := 2, enabled := false },
                  sampling := some [] },
      .add [1, 0] true, .add [0, 1] true, .add [2, 2] false].foldl Solver.perform (.new 3 {})

theorem find_skips_by_first_cause_sample :
    skipping.solver.Reachable ∧ skipping.solver.consistent = true ∧
      skipping.solver.matrices = [] ∧
      ∃ cs report, skipping.solver.prepare = .ok cs ∧
        cs = [⟨[0, 1], true, [], .undecided⟩, ⟨[], false, [0, 1], .undecided⟩,
          ⟨[], false, [], .undecided⟩] ∧
        SkipCause.disabled.Applies skipping.solver.settings cs ∧
        (skipping.find .zero).2 = .ok report ∧
        report = { constraintCount := 3, skipped := some .tooManyForSampling } ∧
        (skipping.find .zero).1.solver.pool = cs ∧
        List.Forall₂ (fun c c' => skipping.solver.PreparesTo c c' ∧ c'.placement = c.placement)
          skipping.solver.pool cs := by
  have hr : skipping.solver.Reachable := Solver.Reachable.foldl (.new {} (by decide)) _
  have hc : skipping.solver.consistent = true := by decide +kernel
  have hm : skipping.solver.matrices = [] := by decide +kernel
  have hprepare : (skipping.solver.prepare.toOption.any fun cs => decide (cs =
      [⟨[0, 1], true, [], .undecided⟩, ⟨[], false, [0, 1], .undecided⟩,
        ⟨[], false, [], .undecided⟩])) = true := by decide +kernel
  obtain ⟨cs, hp, hcs⟩ := Checked.exists_eq_ok hprepare
  obtain rfl := of_decide_eq_true hcs
  obtain ⟨report, hok, -, hfirst, given, prepares⟩ :=
    find_skips_by_first_cause hr hc hm hp .zero
  have hskip : report.skipped = some .tooManyForSampling := hfirst.trans (by decide +kernel)
  obtain ⟨report_eq, solver_eq⟩ := given _ hskip
  exact ⟨hr, hc, hm, _, report, hp, rfl, by decide +kernel, hok, report_eq,
    congrArg Solver.pool solver_eq, prepares⟩

end Session

end ParityBlocks
