import ParityBlocks.Proofs.Flags
import ParityBlocks.Proofs.Preparation
import ParityBlocks.Proofs.Rulings
import ParityBlocks.Session

/-!
# How a search ends

`Search.Ends` lists the ends of a search of a consistent solver without
matrices, each with the solver and the outcome it leaves; `Session.ends_find`
says that there are no others. Preparing leaves no `0 = 1`
(`Solver.not_isAbsurd_of_prepare`), so giving constraints back to the pool never
fails (`giveBack_ordinary`), after a search in full as little as after one that
was skipped.
-/

namespace ParityBlocks

namespace Solver

variable {s : Solver}

/-- The components of constraints, in the order of competition. -/
def components (s : Solver) (cs : List Constraint) : Except Fault (List Component) := do
  let partition ← Partition.build s.varCount cs
  Component.ofPartition partition cs

/-- The policy of a search: the thresholds, with room for the sampling variables. -/
def policy (s : Solver) : Policy :=
  .ofThresholds s.settings.thresholds (Search.rowLimit s.settings.thresholds.maxRows s.samplingSet)

end Solver

namespace Search

variable {s : Solver}

theorem precondition_ordinary (hc : s.consistent = true) (hm : s.matrices = []) :
    precondition .ordinary s = .ok () := by
  simp [precondition, Backend.ordinary, hc, hm]

/-- A search of any other solver is refused. -/
theorem exists_precondition_eq_error (h : ¬ (s.consistent = true ∧ s.matrices = [])) :
    ∃ fault, precondition .ordinary s = .error fault := by
  by_cases hc : s.consistent = true
  · have hm : s.matrices ≠ [] := fun hm => h ⟨hc, hm⟩
    exact ⟨.matricesPresent, by simp [precondition, Backend.ordinary, hc, hm]⟩
  · exact ⟨.inconsistentSolver, by simp [precondition, Backend.ordinary, hc]⟩

theorem explore_of_prepare_eq_ok (hc : s.consistent = true) (hm : s.matrices = [])
    {cs : List Constraint} (hp : s.prepare = .ok cs) :
    explore .ordinary s = searchPrepared .ordinary { s with pool := [] } cs := by
  obtain ⟨cleaned, hclean, hcombine⟩ := Solver.prepare_eq_ok.mp hp
  have hclean : ({ s with pool := [] } : Solver).reduceAll s.pool = (cleaned, .ok ()) := by
    rw [← hclean]
    apply Solver.reduceAll_congr <;> rfl
  rw [explore, precondition_ordinary hc hm]
  simp only [Solver.detach, Backend.ordinary, Solver.clean, Solver.combine, hclean, hcombine]
  rfl

theorem explore_of_prepare_eq_error (hc : s.consistent = true) (hm : s.matrices = [])
    {failure : Failure} (hp : s.prepare = .error failure) :
    explore .ordinary s =
      ⟨({ s with pool := [] } : Solver).noting (.error failure), [], .error failure⟩ := by
  have same : ({ s with pool := [] } : Solver).reduceAll s.pool = s.reduceAll s.pool := by
    apply Solver.reduceAll_congr <;> rfl
  rw [explore, precondition_ordinary hc hm]
  simp only [Solver.detach, Backend.ordinary, Solver.clean, Solver.combine, same]
  obtain ⟨cleaned, hclean⟩ | ⟨cleaned, cs, hclean, hcombine⟩ := Solver.prepare_eq_error.mp hp
  · simp only [hclean]
  · simp only [hclean, hcombine]
    rfl

/-- Constraints without `0 = 1` go back to the pool of a consistent solver. -/
theorem giveBack_ordinary {cs : List Constraint} (hc : s.consistent = true)
    (hcs : ∀ c ∈ cs, c.isAbsurd = false) (events : List Event) (report : Report) (more : List Event) :
    giveBack .ordinary s cs events report more =
      ⟨{ s with pool := s.pool ++ cs }, events ++ more, .ok report⟩ := by
  have hany : cs.any Constraint.isAbsurd = false :=
    List.any_eq_false.mpr fun c h => by simp [hcs c h]
  simp only [giveBack, Backend.ordinary, Solver.attach, hc, hany, Bool.not_false, Bool.and_true]

/-- How a search of a consistent solver without matrices ends: with a failure of
preparing, without looking for blocks, with a fault in looking for them, or with
the rulings carried out. -/
inductive Ends (s : Solver) (elapsed : Duration) : Solver → Except Failure Report → Prop
  | unprepared {failure : Failure} (prepared : s.prepare = .error failure) :
    Ends s elapsed (({ s with pool := [] } : Solver).noting (.error failure)) (.error failure)
  | skipped {cs : List Constraint} {cause : SkipCause} (prepared : s.prepare = .ok cs)
      (skipCause : skipCause? s.settings cs = some cause) :
    Ends s elapsed
      { s with
        pool := cs
        queue := []
        cancelled := Ascending.ofList (cs.flatMap Constraint.cancelled) }
      (.ok { constraintCount := cs.length, skipped := some cause, elapsed := elapsed })
  | faulted {cs : List Constraint} {flags : Array Bool} {fault : Fault}
      (prepared : s.prepare = .ok cs) (skipCause : skipCause? s.settings cs = none)
      (faulty : s.components cs = .error fault ∧ flags = s.flags ∨
        ∃ components, s.components cs = .ok components ∧
          assess s.samplingSet components s.flags = (.error fault, flags)) :
    Ends s elapsed
      { s with
        pool := []
        flags := flags
        cancelled := Ascending.ofList (cs.flatMap Constraint.cancelled) }
      (.error (.fault fault))
  | divided {cs : List Constraint} {components : List Component} {assessed : List Assessed}
      {flags : Array Bool} {rulings : List Ruling}
      (prepared : s.prepare = .ok cs) (skipCause : skipCause? s.settings cs = none)
      (components_eq : s.components cs = .ok components)
      (assess_eq : assess s.samplingSet components s.flags = (.ok assessed, flags))
      (rulings_eq : rulings = Ruling.ofAssessed s.policy 0 assessed) :
    Ends s elapsed
      { s with
        pool := rulings.flatMap Ruling.returned
        flags := flags
        matrices := rulings.filterMap Ruling.matrix?
        queue := queueAfter s.queue (rulings.filterMap Ruling.matrix?).length
        cancelled := Ascending.ofList (cs.flatMap Constraint.cancelled) }
      (.ok { Ruling.report cs.length rulings with elapsed := elapsed })

/-- What goes back to the pool is no `0 = 1` if no constraint is. -/
theorem not_isAbsurd_of_returned {cs : List Constraint} {components : List Component}
    {assessed : List Assessed} {flags : Array Bool} {policy : Policy}
    (hcs : ∀ c ∈ cs, c.isAbsurd = false) (hcomp : s.components cs = .ok components)
    (hassess : assess s.samplingSet components s.flags = (.ok assessed, flags)) :
    ∀ c ∈ (Ruling.ofAssessed policy 0 assessed).flatMap Ruling.returned, c.isAbsurd = false := by
  obtain ⟨p, -, hcomp⟩ := Checked.bind_eq_ok.mp hcomp
  intro c hc
  obtain ⟨r, hr, hc⟩ := List.mem_flatMap.mp hc
  obtain ⟨a, ha, hrows⟩ := Ruling.exists_of_mem_ofAssessed hr
  rw [Ruling.returned, hrows] at hc
  split at hc
  · cases hc
  · obtain ⟨d, hd, rfl⟩ := List.mem_map.mp hc
    have hmem : a.component ∈ components :=
      map_component_of_assess hassess ▸ List.mem_map_of_mem ha
    exact hcs d (Component.mem_of_ofPartition hcomp hmem hd)

section Divide

variable {b : Backend} {cs : List Constraint} {f : Findings} (hf : divide b s cs = f)
include hf

theorem eq_of_components_eq_error {fault : Fault} (h : s.components cs = .error fault) :
    ∃ events, f = ⟨s, events, .error (.fault fault)⟩ := by
  rw [Solver.components] at h
  simp only [divide, h] at hf
  exact ⟨_, hf.symm⟩

theorem eq_of_assess_eq_error {components : List Component} {fault : Fault} {flags : Array Bool}
    (h : s.components cs = .ok components)
    (ha : assess s.samplingSet components s.flags = (.error fault, flags)) :
    ∃ events, f = ⟨{ s with flags := flags }, events, .error (.fault fault)⟩ := by
  rw [Solver.components] at h
  simp only [divide, h, ha] at hf
  exact ⟨_, hf.symm⟩

theorem eq_of_assess_eq_ok {components : List Component} {assessed : List Assessed}
    {flags : Array Bool} (h : s.components cs = .ok components)
    (ha : assess s.samplingSet components s.flags = (.ok assessed, flags)) :
    f = carryOut b { s with flags := flags } cs.length (Ruling.ofAssessed s.policy 0 assessed)
      (if s.settings.thresholds.maxRows < s.policy.maxRows
        then Narration.raisedText s.settings.verbosity s.policy.maxRows else []) := by
  rw [Solver.components] at h
  simp only [divide, h, ha] at hf
  exact hf.symm

end Divide

theorem ends_searchPrepared {cs : List Constraint} (hc : s.consistent = true) (hm : s.matrices = [])
    (hp : s.prepare = .ok cs) {f : Findings} (elapsed : Duration)
    (hf : searchPrepared .ordinary { s with pool := [] } cs = f) :
    Ends s elapsed f.settled (f.outcome.map fun report => { report with elapsed := elapsed }) := by
  have hcs := Solver.not_isAbsurd_of_prepare hp
  rw [searchPrepared] at hf
  cases hskip : skipCause? s.settings cs with
  | some cause =>
    simp only [hskip, skip] at hf
    rw [giveBack_ordinary (by exact hc) hcs] at hf
    subst hf
    exact .skipped hp hskip
  | none =>
    simp only [hskip] at hf
    cases hcomp : s.components cs with
    | error fault =>
      obtain ⟨events, rfl⟩ := eq_of_components_eq_error hf hcomp
      exact .faulted hp hskip (.inl ⟨hcomp, rfl⟩)
    | ok components =>
      cases hassess : assess s.samplingSet components s.flags with
      | mk result flags =>
        cases result with
        | error fault =>
          obtain ⟨events, rfl⟩ := eq_of_assess_eq_error hf hcomp hassess
          exact .faulted hp hskip (.inr ⟨components, hcomp, hassess⟩)
        | ok assessed =>
          obtain rfl := eq_of_assess_eq_ok hf hcomp hassess
          rw [carryOut]
          rw [giveBack_ordinary (by exact hc) (not_isAbsurd_of_returned hcs hcomp hassess), hm]
          exact .divided hp hskip hcomp hassess rfl

theorem ends_explore (hc : s.consistent = true) (hm : s.matrices = []) (elapsed : Duration) :
    Ends s elapsed (explore .ordinary s).settled
      ((explore .ordinary s).outcome.map fun report => { report with elapsed := elapsed }) := by
  cases hp : s.prepare with
  | error failure =>
    rw [explore_of_prepare_eq_error hc hm hp]
    cases failure with
    | contradiction c => exact .unprepared hp
    | fault f => exact .unprepared hp
  | ok cs =>
    rw [explore_of_prepare_eq_ok hc hm hp]
    exact ends_searchPrepared hc hm hp elapsed rfl

end Search

namespace Session

open Search

theorem solver_find (s : Session) (elapsed : Duration) :
    (s.find elapsed).1.solver = (explore .ordinary s.solver).settled := by
  rw [find, search]
  match explore .ordinary s.solver with
  | ⟨solver, events, .ok report⟩ =>
    simp only [Findings.finish, adopt]
    split <;> rfl
  | ⟨solver, events, .error (.contradiction c)⟩ => rfl
  | ⟨solver, events, .error (.fault fault)⟩ => rfl

theorem outcome_find (s : Session) (elapsed : Duration) :
    (s.find elapsed).2 = (explore .ordinary s.solver).outcome.map
      fun report => { report with elapsed := elapsed } := by
  rw [find, search]
  match explore .ordinary s.solver with
  | ⟨solver, events, .ok report⟩ => rfl
  | ⟨solver, events, .error (.contradiction c)⟩ => rfl
  | ⟨solver, events, .error (.fault fault)⟩ => rfl

/-- Any other solver is left as it is. -/
theorem solver_find_of_refused {s : Session}
    (h : ¬ (s.solver.consistent = true ∧ s.solver.matrices = [])) (elapsed : Duration) :
    (s.find elapsed).1.solver = s.solver := by
  rw [solver_find]
  obtain ⟨fault, hp⟩ := exists_precondition_eq_error h
  rw [explore, hp]
  rfl

/-- Only a consistent solver without matrices is searched. -/
theorem ready_of_find_eq_ok {s : Session} {elapsed : Duration} {report : Report}
    (hok : (s.find elapsed).2 = .ok report) :
    s.solver.consistent = true ∧ s.solver.matrices = [] := by
  by_contra h
  obtain ⟨fault, hp⟩ := exists_precondition_eq_error h
  rw [outcome_find, explore, hp] at hok
  cases hok

/-- Every search of a consistent solver without matrices has one of these ends. -/
theorem ends_find {s : Session} (hc : s.solver.consistent = true) (hm : s.solver.matrices = [])
    (elapsed : Duration) : Ends s.solver elapsed (s.find elapsed).1.solver (s.find elapsed).2 := by
  rw [solver_find, outcome_find]
  exact ends_explore hc hm elapsed

end Session

end ParityBlocks
