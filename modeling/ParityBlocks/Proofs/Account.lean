import ParityBlocks.Proofs.Conclusion

/-!
# The account of a search

What a search of a well-formed solver reports, and which matrices it makes, is a
function of the solver and of the constraints that it has prepared: the components in
the order of competition (`Solver.ranked`), the rulings on them (`Solver.rulings`), and
the report with them unless there is a cause against looking (`Solver.account`).
`Session.find_of_prepare` and `Session.find_of_prepare_error` say so; whoever compares
two searches compares these.
-/

namespace ParityBlocks

namespace Solver

/-- The components of constraints, in the order of competition. -/
def ranked (s : Solver) (cs : List Constraint) : List Component :=
  Component.ranked (.ofLists s.varCount (cs.map Constraint.vars)) cs

/-- The components with the parts of the sampling variables that they cover. -/
def assessed (s : Solver) (cs : List Constraint) : List Assessed :=
  (s.ranked cs).map (Assessed.of s.samplingSet)

/-- The rulings on the components of constraints. -/
def rulings (s : Solver) (cs : List Constraint) : List Ruling :=
  Ruling.ofAssessed s.policy 0 (s.assessed cs)

/-- What is reported of prepared constraints, but for the time. -/
def account (s : Solver) (cs : List Constraint) : Report :=
  match Search.skipCause? s.settings cs with
  | some cause => { constraintCount := cs.length, skipped := some cause }
  | none => Ruling.report cs.length (s.rulings cs)

/-- The matrices that prepared constraints become. -/
def blockMatrices (s : Solver) (cs : List Constraint) : List Matrix :=
  match Search.skipCause? s.settings cs with
  | some _ => []
  | none => (s.rulings cs).filterMap Ruling.matrix?

variable {s : Solver} {cs : List Constraint}

theorem samplingSet_eq {users : List Var} (h : s.settings.sampling = some users) :
    s.samplingSet = some ⟨users.map s.samplingEntry⟩ := by
  rw [samplingSet, h]
  rfl

theorem components_eq (hn : Partition.entryBytes * s.varCount ≤ tableBytes)
    (hcs : ∀ c ∈ cs, ∀ v ∈ c.vars, v < s.varCount) : s.components cs = .ok (s.ranked cs) := by
  rw [components, Partition.build_eq hn, Partition.ofConstraints_eq hcs]
  exact Component.ofPartition_eq (Partition.represents_ofLists (List.forall_mem_map.mpr hcs))

theorem lt_of_mem_ranked (hcs : ∀ c ∈ cs, ∀ v ∈ c.vars, v < s.varCount) :
    ∀ c ∈ s.ranked cs, ∀ v ∈ c.members, v < s.varCount := by
  have rep := Partition.represents_ofLists (List.forall_mem_map.mpr hcs)
  intro c hc v hv
  have := Component.lt_of_mem_members rep ((Component.perm_ranked _ _).mem_iff.mp hc) v hv
  rwa [Partition.size_table_ofLists] at this

/-- No component is without rows. -/
theorem rows_ne_zero_of_mem_assessed (hcs : ∀ c ∈ cs, ∀ v ∈ c.vars, v < s.varCount) :
    ∀ a ∈ s.assessed cs, a.component.shape.rows ≠ 0 := by
  have rep := Partition.represents_ofLists (List.forall_mem_map.mpr hcs)
  have perm := Component.perm_ranked (.ofLists s.varCount (cs.map Constraint.vars)) cs
  have blocks := Component.blocks_of_perm_found rep perm
  refine List.forall_mem_map.mpr fun c hc => ?_
  obtain ⟨members, -, -, hshape⟩ := Component.isOf_of_mem_found rep (perm.mem_iff.mp hc)
  rw [Assessed.of, hshape]
  exact List.length_eq_zero_iff.not.mpr (blocks.ne_nil _ (List.mem_map_of_mem hc))

namespace WellFormed

variable (hs : s.WellFormed) (hp : s.prepare = .ok cs)
include hs hp

theorem components_eq : s.components cs = .ok (s.ranked cs) :=
  Solver.components_eq hs.fits (lt_of_prepare hp)

theorem assess_eq : assess s.samplingSet (s.ranked cs) s.flags = (.ok (s.assessed cs), s.flags) := by
  have assess_eq := ParityBlocks.assess_eq s.samplingSet (lt_of_mem_ranked (lt_of_prepare hp))
  rwa [← hs.flags] at assess_eq

theorem divides_rulings : Ruling.Divides cs (s.rulings cs) :=
  (hs.divides hp (hs.components_eq hp) (hs.assess_eq hp)).2

end WellFormed

end Solver

/-- Whether there is a cause against looking for blocks is a matter of counts. -/
theorem Search.skipCause?_congr {settings settings' : Settings} {cs ds : List Constraint}
    (ht : settings'.thresholds = settings.thresholds)
    (hs : settings'.sampling.isSome = settings.sampling.isSome) (hl : ds.length = cs.length)
    (hw : withVariables ds = withVariables cs) :
    skipCause? settings' ds = skipCause? settings cs := by
  rw [skipCause?, skipCause?, ht, hs, hl, hw]

/-- Both searches found a contradiction, or both ended with reports that are related. -/
inductive Search.EndAlike (related : Report → Report → Prop) :
    Except Failure Report → Except Failure Report → Prop
  | contradicted (c c' : Contradiction) :
    EndAlike related (.error (.contradiction c)) (.error (.contradiction c'))
  | reported {r r' : Report} (h : related r r') : EndAlike related (.ok r) (.ok r')

/-- What a search does with constraints that can be prepared. -/
structure Search.Accounts (s : Solver) (cs : List Constraint) (elapsed : Duration) (t : Solver)
    (outcome : Except Failure Report) : Prop where
  outcome_eq : outcome = .ok { s.account cs with elapsed := elapsed }
  matrices_eq : t.matrices = s.blockMatrices cs
  cancelled_eq : t.cancelled = Ascending.ofList (cs.flatMap Constraint.cancelled)

namespace Session

open Search

variable {s : Session}

/-- Where there is no cause against looking for blocks, the rulings on them are carried
out. -/
theorem find_of_divided (hs : s.solver.WellFormed) (hc : s.solver.consistent = true)
    (hm : s.solver.matrices = []) {cs : List Constraint} (hp : s.solver.prepare = .ok cs)
    (hskip : skipCause? s.solver.settings cs = none) (elapsed : Duration) :
    let rulings := s.solver.rulings cs
    (s.find elapsed).2 = .ok { Ruling.report cs.length rulings with elapsed := elapsed } ∧
      (s.find elapsed).1.solver =
        { s.solver with
          pool := rulings.flatMap Ruling.returned
          matrices := rulings.filterMap Ruling.matrix?
          queue := queueAfter s.solver.queue (rulings.filterMap Ruling.matrix?).length
          cancelled := Ascending.ofList (cs.flatMap Constraint.cancelled) } := by
  have hcs := Solver.lt_of_prepare hp
  have ends := concludes_find hs hc hm elapsed
  generalize (s.find elapsed).1.solver = t at ends ⊢
  generalize (s.find elapsed).2 = outcome at ends ⊢
  cases ends with
  | contradicted prepared =>
    rw [hp] at prepared
    cases prepared
  | skipped prepared skipCause =>
    rw [hp] at prepared
    cases prepared
    rw [hskip] at skipCause
    cases skipCause
  | divided prepared skipCause components_eq assess_eq rulings_eq =>
    rw [hp] at prepared
    cases prepared
    rw [Solver.components_eq hs.fits hcs] at components_eq
    cases components_eq
    rw [hs.flags, ParityBlocks.assess_eq _ (Solver.lt_of_mem_ranked hcs)] at assess_eq
    cases assess_eq
    subst rulings_eq
    exact ⟨rfl, rfl⟩

/-- Where there is a cause against looking for blocks, the prepared constraints go back. -/
theorem find_of_skipped (hs : s.solver.WellFormed) (hc : s.solver.consistent = true)
    (hm : s.solver.matrices = []) {cs : List Constraint} (hp : s.solver.prepare = .ok cs)
    {cause : SkipCause} (hskip : skipCause? s.solver.settings cs = some cause)
    (elapsed : Duration) :
    (s.find elapsed).2 =
        .ok { constraintCount := cs.length, skipped := some cause, elapsed := elapsed } ∧
      (s.find elapsed).1.solver =
        { s.solver with
          pool := cs
          queue := []
          cancelled := Ascending.ofList (cs.flatMap Constraint.cancelled) } := by
  have ends := concludes_find hs hc hm elapsed
  generalize (s.find elapsed).1.solver = t at ends ⊢
  generalize (s.find elapsed).2 = outcome at ends ⊢
  cases ends with
  | contradicted prepared =>
    rw [hp] at prepared
    cases prepared
  | skipped prepared skipCause =>
    rw [hp] at prepared
    cases prepared
    rw [hskip] at skipCause
    cases skipCause
    exact ⟨rfl, rfl⟩
  | divided prepared skipCause =>
    rw [hp] at prepared
    cases prepared
    rw [hskip] at skipCause
    cases skipCause

theorem find_of_prepare (hs : s.solver.WellFormed) (hc : s.solver.consistent = true)
    (hm : s.solver.matrices = []) {cs : List Constraint} (hp : s.solver.prepare = .ok cs)
    (elapsed : Duration) :
    Accounts s.solver cs elapsed (s.find elapsed).1.solver (s.find elapsed).2 := by
  cases hskip : skipCause? s.solver.settings cs with
  | none =>
    obtain ⟨outcome_eq, solver_eq⟩ := find_of_divided hs hc hm hp hskip elapsed
    refine ⟨?_, ?_, ?_⟩
    · rw [outcome_eq, Solver.account, hskip]
    · rw [solver_eq, Solver.blockMatrices, hskip]
    · rw [solver_eq]
  | some cause =>
    obtain ⟨outcome_eq, solver_eq⟩ := find_of_skipped hs hc hm hp hskip elapsed
    refine ⟨?_, ?_, ?_⟩
    · rw [outcome_eq, Solver.account, hskip]
    · rw [solver_eq, Solver.blockMatrices, hskip]
      exact hm
    · rw [solver_eq]

theorem find_of_prepare_error (hs : s.solver.WellFormed) (hc : s.solver.consistent = true)
    (hm : s.solver.matrices = []) {failure : Failure} (hp : s.solver.prepare = .error failure)
    (elapsed : Duration) :
    ∃ c, (s.find elapsed).2 = .error (.contradiction c) ∧
      (s.find elapsed).1.solver = { s.solver with pool := [], consistent := false } := by
  have ends := concludes_find hs hc hm elapsed
  generalize (s.find elapsed).1.solver = t at ends ⊢
  generalize (s.find elapsed).2 = outcome at ends ⊢
  cases ends with
  | contradicted prepared => exact ⟨_, rfl, rfl⟩
  | skipped prepared skipCause =>
    rw [hp] at prepared
    cases prepared
  | divided prepared skipCause components_eq assess_eq rulings_eq =>
    rw [hp] at prepared
    cases prepared

/-- A search that looked for blocks has carried out the rulings on those of the prepared
constraints. -/
theorem exists_rulings_of_find (hs : s.solver.WellFormed) (hc : s.solver.consistent = true)
    (hm : s.solver.matrices = []) {elapsed : Duration} {report : Report}
    (hok : (s.find elapsed).2 = .ok report) (hskip : report.skipped = none) :
    ∃ cs, s.solver.prepare = .ok cs ∧ skipCause? s.solver.settings cs = none ∧
      report = { Ruling.report cs.length (s.solver.rulings cs) with elapsed := elapsed } ∧
      (s.find elapsed).1.solver.matrices = (s.solver.rulings cs).filterMap Ruling.matrix? := by
  cases hp : s.solver.prepare with
  | error failure =>
    obtain ⟨c, outcome_eq, -⟩ := find_of_prepare_error hs hc hm hp elapsed
    rw [outcome_eq] at hok
    cases hok
  | ok cs =>
    have accounts := find_of_prepare hs hc hm hp elapsed
    rw [accounts.outcome_eq, Solver.account] at hok
    rw [accounts.matrices_eq, Solver.blockMatrices]
    cases hcause : skipCause? s.solver.settings cs with
    | some cause =>
      rw [hcause] at hok
      cases hok
      cases hskip
    | none =>
      rw [hcause] at hok
      exact ⟨cs, rfl, hcause, (Except.ok.inj hok).symm, rfl⟩

end Session

end ParityBlocks
