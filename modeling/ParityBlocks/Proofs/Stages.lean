import ParityBlocks.Proofs.Conclusion
import ParityBlocks.Proofs.Reachable

/-!
# A search component by component

A search that looks for blocks takes the components one after the other. `Stage` is
where it is between two of them, and `Stage.step` does the next one with all that is
checked on the way: flags are clear when they are lent, every member has a flag, and
there are as many matrices as components were accepted. `Stage.run` does them all.

From a stage where these hold, `Stage.run` never stops at a check, and it leaves what
the rulings on the components say (`Stage.exists_run`). So no search of a reachable
solver comes to a fault (`Session.find_never_faults`).
-/

namespace ParityBlocks

/-- Why a search stops between two components. -/
inductive Breach
  | fault (f : Fault)
  /-- A flag is set when the flags are lent. -/
  | flagsInUse
  /-- There are not as many matrices as components were accepted. -/
  | miscounted
deriving DecidableEq

/-- Where a search is between two components. -/
structure Stage where
  flags : Array Bool
  matrices : List Matrix
  queue : List QueueEntry
  /-- How many components were accepted. -/
  accepted : Nat
  /-- The constraints that go back to the pool. -/
  returned : List Constraint

namespace Stage

/-- A solver before the first component. -/
def start (s : Solver) : Stage := ⟨s.flags, s.matrices, s.queue, 0, []⟩

/-- Lends the flags for the covered part of the sampling variables, if there are any. -/
def lend (sampling : Option SamplingSet) (members : List Var) (flags : Array Bool) :
    Except Breach (Option Binary64 × Array Bool) :=
  match sampling with
  | none => .ok (none, flags)
  | some set =>
    if !set.entries.isEmpty && flags.any id then .error .flagsInUse
    else
      match set.ratio members flags with
      | (.error fault, _) => .error (.fault fault)
      | (.ok ratio, flags) => .ok (some ratio, flags)

/-- Keeps rows as the next matrix, with an entry in the queue. -/
def keep (st : Stage) (rows : List Constraint) : Stage :=
  { st with
    matrices := st.matrices ++ [.ofRows st.accepted rows]
    queue := resizeQueue (st.matrices.length + 1) st.queue
    accepted := st.accepted + 1 }

/-- Keeps rows as the next matrix and counts the matrices. -/
def accept (st : Stage) (rows : List Constraint) : Except Breach Stage :=
  if (st.keep rows).matrices.length ≠ (st.keep rows).accepted then .error .miscounted
  else .ok (st.keep rows)

/-- Puts rows to those that go back to the pool. -/
def reject (st : Stage) (rows : List Constraint) : Stage :=
  { st with returned := st.returned ++ rows.map fun c => { c with placement := .inPool } }

/-- Decides about one component and does what follows from it. -/
def step (policy : Policy) (sampling : Option SamplingSet) (st : Stage) (c : Component) :
    Except Breach Stage := do
  let (ratio, flags) ← lend sampling c.members st.flags
  let st := { st with flags := flags }
  let verdict := policy.decide ⟨c.shape, ratio, st.accepted⟩
  if verdict = .rejected .noRows then return st
  else if verdict.isAccepted then st.accept c.rows
  else return st.reject c.rows

/-- Decides about components in order. -/
def run (policy : Policy) (sampling : Option SamplingSet) (st : Stage)
    (components : List Component) : Except Breach Stage :=
  components.foldlM (step policy sampling) st

/-! ## What rulings make of a stage -/

/-- What every check asks for: `size` clear flags, and a matrix for each accepted
component. -/
structure Sound (size : Nat) (st : Stage) : Prop where
  flags_eq : st.flags = Array.replicate size false
  length_matrices : st.matrices.length = st.accepted

/-- The second stage is the first after the rulings: matrices, their queue entries and
the constraints that go back were added in order. -/
structure Follows (st : Stage) (rulings : List Ruling) (st' : Stage) : Prop where
  flags_eq : st'.flags = st.flags
  matrices_eq : st'.matrices = st.matrices ++ rulings.filterMap Ruling.matrix?
  queue_eq : st'.queue = (List.range' st.accepted (rulings.filterMap Ruling.matrix?).length).foldl
    (fun q i => resizeQueue (i + 1) q) st.queue
  accepted_eq : st'.accepted = st.accepted + (rulings.filterMap Ruling.matrix?).length
  returned_eq : st'.returned = st.returned ++ rulings.flatMap Ruling.returned

theorem Follows.nil (st : Stage) : Follows st [] st := by
  refine ⟨rfl, ?_, rfl, rfl, ?_⟩ <;> simp

section Step

variable {size : Nat} {st st' : Stage} {r : Ruling} {rulings : List Ruling}

theorem Sound.keep (hst : st.Sound size) (rows : List Constraint) : (st.keep rows).Sound size where
  flags_eq := hst.flags_eq
  length_matrices := by
    rw [Stage.keep, List.length_append, hst.length_matrices, List.length_singleton]

theorem Sound.accept_eq_ok (hst : st.Sound size) (rows : List Constraint) :
    st.accept rows = .ok (st.keep rows) := by
  rw [accept, if_neg (not_not_intro (hst.keep rows).length_matrices)]

theorem Sound.reject (hst : st.Sound size) (rows : List Constraint) : (st.reject rows).Sound size :=
  ⟨hst.flags_eq, hst.length_matrices⟩

/-- A ruling that makes the next matrix comes first. -/
theorem Follows.keep (hst : st.Sound size) (hr : r.decision.matrixNumber = some st.accepted)
    (h : Follows (st.keep r.rows) rulings st') : Follows st (r :: rulings) st' := by
  have hm : r.matrix? = some (.ofRows st.accepted r.rows) := by rw [Ruling.matrix?, hr]; rfl
  have hback : r.returned = [] := by rw [Ruling.returned, hr]
  refine ⟨h.flags_eq, ?_, ?_, ?_, ?_⟩
  · rw [h.matrices_eq, List.filterMap_cons_some hm, Stage.keep, List.append_assoc]
    rfl
  · rw [h.queue_eq, List.filterMap_cons_some hm, List.length_cons, List.range'_succ,
      List.foldl_cons, Stage.keep, hst.length_matrices]
  · rw [h.accepted_eq, List.filterMap_cons_some hm, List.length_cons]
    exact Nat.add_right_comm _ _ _
  · rw [h.returned_eq, List.flatMap_cons, hback]
    rfl

/-- A ruling that gives rows back comes first. -/
theorem Follows.reject (hr : r.decision.matrixNumber = none)
    (h : Follows (st.reject r.rows) rulings st') : Follows st (r :: rulings) st' := by
  have hm : r.matrix? = none := by rw [Ruling.matrix?, hr]; rfl
  have hback : r.returned = r.rows.map fun c => { c with placement := .inPool } := by
    rw [Ruling.returned, hr]
  refine ⟨h.flags_eq, ?_, ?_, ?_, ?_⟩
  · rw [h.matrices_eq, List.filterMap_cons_none hm]
    rfl
  · rw [h.queue_eq, List.filterMap_cons_none hm]
    rfl
  · rw [h.accepted_eq, List.filterMap_cons_none hm]
    rfl
  · rw [h.returned_eq, List.flatMap_cons, hback, Stage.reject, List.append_assoc]

/-! ## Every check passes -/

/-- Clear flags are lent and come back clear, and the component is assessed first. -/
theorem exists_lend {sampling : Option SamplingSet} {c : Component} {components : List Component}
    {assessed : List Assessed} {flags : Array Bool} (hv : ∀ v ∈ c.members, v < size)
    (h : assess sampling (c :: components) (Array.replicate size false) = (.ok assessed, flags)) :
    ∃ ratio rest, lend sampling c.members (Array.replicate size false) =
        .ok (ratio, Array.replicate size false) ∧
      assess sampling components (Array.replicate size false) = (.ok rest, flags) ∧
      assessed = ⟨c, ratio⟩ :: rest := by
  have cons : ∀ ratio, ((assess sampling components (Array.replicate size false)).1.map
        (⟨c, ratio⟩ :: ·), (assess sampling components (Array.replicate size false)).2) =
          (.ok assessed, flags) →
      ∃ rest, assess sampling components (Array.replicate size false) = (.ok rest, flags) ∧
        assessed = ⟨c, ratio⟩ :: rest := by
    intro ratio h
    obtain ⟨hmap, rfl⟩ := Prod.mk.inj h
    cases hrest : (assess sampling components (Array.replicate size false)).1 with
    | error fault =>
      rw [hrest] at hmap
      cases hmap
    | ok rest =>
      rw [hrest] at hmap
      cases hmap
      exact ⟨rest, Prod.ext hrest rfl, rfl⟩
  cases sampling with
  | none =>
    obtain ⟨rest, hrest, rfl⟩ := cons none h
    exact ⟨none, rest, rfl, hrest, rfl⟩
  | some set =>
    obtain ⟨ratio, hratio⟩ := set.exists_ratio hv
    rw [assess, hratio] at h
    obtain ⟨rest, hrest, rfl⟩ := cons (some ratio) h
    refine ⟨some ratio, rest, ?_, hrest, rfl⟩
    have clear : (Array.replicate size false).any id = false :=
      Array.any_eq_false.mpr fun i hi => by simp
    simp only [lend, clear, Bool.and_false, Bool.false_eq_true, if_false, hratio]

/-- From a sound stage no check stops the components, and what they leave is what the
rulings on them make of the stage. -/
theorem exists_run (policy : Policy) {sampling : Option SamplingSet} {components : List Component}
    {assessed : List Assessed} (hv : ∀ c ∈ components, ∀ v ∈ c.members, v < size)
    (hst : st.Sound size) (h : assess sampling components st.flags = (.ok assessed, st.flags)) :
    ∃ st', st.run policy sampling components = .ok st' ∧ st'.Sound size ∧
      Follows st (Ruling.ofAssessed policy st.accepted assessed) st' := by
  induction components generalizing st assessed with
  | nil =>
    cases h
    exact ⟨st, rfl, hst, .nil st⟩
  | cons c components ih =>
    obtain ⟨hc, hv⟩ := List.forall_mem_cons.mp hv
    rw [hst.flags_eq] at h
    obtain ⟨ratio, rest, hlend, hrest, rfl⟩ := exists_lend hc h
    rw [← hst.flags_eq] at hlend hrest
    have step_eq : step policy sampling st c =
        if policy.decide ⟨c.shape, ratio, st.accepted⟩ = .rejected .noRows then .ok st
        else if (policy.decide ⟨c.shape, ratio, st.accepted⟩).isAccepted then st.accept c.rows
        else .ok (st.reject c.rows) := by
      rw [step, hlend]
      rfl
    rw [run, List.foldlM_cons, step_eq]
    simp only [Ruling.ofAssessed]
    split
    · exact ih hv hst hrest
    · split
      · obtain ⟨st', hrun, hst', hfollows⟩ := ih hv (hst.keep c.rows) hrest
        rw [hst.accept_eq_ok]
        exact ⟨st', hrun, hst', .keep hst rfl hfollows⟩
      · obtain ⟨st', hrun, hst', hfollows⟩ := ih hv (hst.reject c.rows) hrest
        exact ⟨st', hrun, hst', .reject rfl hfollows⟩

end Step

end Stage

/-! ## Searches -/

/-- The members of components are variables of the solver. -/
theorem Solver.WellFormed.lt_of_mem_members {s : Solver} (hs : s.WellFormed) {cs : List Constraint}
    (hcs : ∀ c ∈ cs, ∀ v ∈ c.vars, v < s.varCount) {components : List Component}
    (h : s.components cs = .ok components) : ∀ c ∈ components, ∀ v ∈ c.members, v < s.varCount := by
  obtain ⟨components', hcomp, -, -, -, hlt⟩ := exists_components hs.fits hcs
  rw [h] at hcomp
  cases hcomp
  exact hlt

/-- The numbers that the table of a partition holds are those of live components. -/
def Partition.Live (p : Partition) : Prop :=
  ∀ v id, p.componentOf v = some id → ∃ ms, p.membersOf id = some ms ∧ v ∈ ms

/-- At any point in the partitioning of constraints, variables are in the table and
numbers in it are those of live components. -/
theorem Partition.live_ofConstraints {varCount : Nat} {cs : List Constraint}
    (hcs : ∀ c ∈ cs, ∀ v ∈ c.vars, v < varCount) {done rest : List Constraint}
    (h : cs = done ++ rest) :
    ∃ p, ofConstraints varCount done = .ok p ∧ p.table.size = varCount ∧ p.Live := by
  subst h
  obtain ⟨p, hp, rep, hsize⟩ :=
    exists_ofConstraints fun c hc => hcs c (List.mem_append_left rest hc)
  exact ⟨p, hp, hsize, fun v id => (rep.valid.componentOf_iff v id).mp⟩

/-! ### Contradictions -/

/-- A constraint that is `0 = 1` is the only contradiction in cleaning. -/
theorem Solver.eq_of_reduceAll {s : Solver} {cs cleaned : List Constraint} {c : Contradiction}
    (h : s.reduceAll cs = (cleaned, .error (.contradiction c))) : c = .absurdAfterCleaning := by
  induction cs generalizing cleaned with
  | nil => cases h
  | cons d cs ih =>
    rw [reduceAll] at h
    split at h
    · cases h
    · split at h
      · cases h
        rfl
      · obtain ⟨-, h⟩ := Prod.mk.inj h
        exact ih (Prod.ext rfl h)

theorem Solver.prepare_ne_inconsistentPool (s : Solver) :
    s.prepare ≠ .error (.contradiction .inconsistentPool) := by
  intro h
  obtain ⟨cleaned, hclean⟩ | ⟨cleaned, combined, -, hcombine⟩ := prepare_eq_error.mp h
  · exact nomatch eq_of_reduceAll hclean
  · obtain ⟨_, _, h, -⟩ := exists_opposite_of_combineAll filed_empty hcombine
    exact nomatch h

/-! ### Stages of a search -/

/-- The last stage of a search is what the search leaves: its matrices and flags, the
queue with an entry for each matrix, and the pool. -/
structure Stage.Leaves (st : Stage) (t : Solver) : Prop where
  flags_eq : t.flags = st.flags
  matrices_eq : t.matrices = st.matrices
  queue_eq : t.queue = resizeQueue st.matrices.length st.queue
  pool_eq : t.pool = st.returned

/-- The stages of a search that looks for blocks, up to what it leaves. -/
theorem Solver.WellFormed.exists_run {s : Solver} (hs : s.WellFormed) (hm : s.matrices = [])
    {cs : List Constraint} {components : List Component} {assessed : List Assessed}
    (hcs : ∀ c ∈ cs, ∀ v ∈ c.vars, v < s.varCount) (hcomp : s.components cs = .ok components)
    (hassess : assess s.samplingSet components s.flags = (.ok assessed, s.flags)) :
    ∃ st, (Stage.start s).run s.policy s.samplingSet components = .ok st ∧
      (Stage.start s).Follows (Ruling.ofAssessed s.policy 0 assessed) st := by
  have sound : (Stage.start s).Sound s.varCount :=
    ⟨hs.flags, by rw [Stage.start, hm, List.length_nil]⟩
  obtain ⟨st, hrun, -, hfollows⟩ :=
    Stage.exists_run s.policy (hs.lt_of_mem_members hcs hcomp) sound hassess
  exact ⟨st, hrun, hfollows⟩

namespace Session

open Search

variable {s : Session}

/-- No search of a reachable solver that is consistent and has no matrices faults, and
none fails on giving constraints back. While it partitions the prepared constraints,
tables are only read where they have entries; and if it looks for blocks then it comes
through all components without a check that fails. -/
theorem find_never_faults (hr : s.solver.Reachable) (hc : s.solver.consistent = true)
    (hm : s.solver.matrices = []) (elapsed : Duration) :
    (∀ fault, (s.find elapsed).2 ≠ .error (.fault fault)) ∧
      (s.find elapsed).2 ≠ .error (.contradiction .inconsistentPool) ∧
      ∀ cs, s.solver.prepare = .ok cs →
        (∀ done rest, cs = done ++ rest →
          ∃ p, Partition.ofConstraints s.solver.varCount done = .ok p ∧
            p.table.size = s.solver.varCount ∧ p.Live) ∧
        ∀ report, (s.find elapsed).2 = .ok report → report.skipped = none →
          ∃ components st, s.solver.components cs = .ok components ∧
            (Stage.start s.solver).run s.solver.policy s.solver.samplingSet components = .ok st ∧
            st.Leaves (s.find elapsed).1.solver := by
  have hs := hr.wellFormed
  have ends := concludes_find hs hc hm elapsed
  generalize (s.find elapsed).1.solver = t at ends ⊢
  generalize (s.find elapsed).2 = outcome at ends ⊢
  have partitioned : ∀ cs, s.solver.prepare = .ok cs → ∀ done rest, cs = done ++ rest →
      ∃ p, Partition.ofConstraints s.solver.varCount done = .ok p ∧
        p.table.size = s.solver.varCount ∧ p.Live :=
    fun cs prepared done rest => Partition.live_ofConstraints (Solver.lt_of_prepare prepared)
  cases ends with
  | @contradicted c prepared =>
    refine ⟨nofun, fun h => ?_, fun cs hcs => ⟨partitioned cs hcs, nofun⟩⟩
    cases h
    exact s.solver.prepare_ne_inconsistentPool prepared
  | skipped prepared skipCause =>
    refine ⟨nofun, nofun, fun cs hcs => ⟨partitioned cs hcs, fun report h hskip => ?_⟩⟩
    cases h
    cases hskip
  | divided prepared skipCause components_eq assess_eq rulings_eq divides =>
    refine ⟨nofun, nofun, fun cs hcs => ⟨partitioned cs hcs, fun report _ _ => ?_⟩⟩
    subst rulings_eq
    rw [prepared] at hcs
    cases hcs
    obtain ⟨st, hrun, hst⟩ :=
      hs.exists_run hm (Solver.lt_of_prepare prepared) components_eq assess_eq
    refine ⟨_, st, components_eq, hrun, hst.flags_eq.symm, ?_, ?_, hst.returned_eq.symm⟩
    · rw [hst.matrices_eq, Stage.start, hm]
      rfl
    · rw [hst.queue_eq, hst.matrices_eq, Stage.start, hm, queueAfter, List.range_eq_range']
      rfl

/-- Settings with sampling variables, one of which the sample does not have. -/
def samplingSettings : Settings := { sampling := some [0, 4, 9, 4000000000] }

/-- The sample with sampling variables. -/
def sampleWithSampling : Session :=
  { sample with solver := sample.solver.perform (.configure samplingSettings) }

theorem find_never_faults_sample :
    let s := sampleWithSampling
    s.solver.Reachable ∧ s.solver.consistent = true ∧ s.solver.matrices = [] ∧
      (∀ fault, (s.find .zero).2 ≠ .error (.fault fault)) ∧
      (s.find .zero).2 ≠ .error (.contradiction .inconsistentPool) ∧
      ∃ cs report, s.solver.prepare = .ok cs ∧ (s.find .zero).2 = .ok report ∧
        report.skipped = none ∧ report.matrixCount = 2 ∧
        (∃ p, Partition.ofConstraints s.solver.varCount (cs.take 3) = .ok p ∧
          p.table.size = s.solver.varCount ∧ p.Live) ∧
        ∃ components st, s.solver.components cs = .ok components ∧
          (Stage.start s.solver).run s.solver.policy s.solver.samplingSet components = .ok st ∧
          st.Leaves (s.find .zero).1.solver := by
  intro s
  have hr : s.solver.Reachable := reachable_sample.perform (.configure samplingSettings)
  have hc : s.solver.consistent = true := consistent_sample
  have hm : s.solver.matrices = [] := matrices_sample
  have hprepare : (s.solver.prepare.toOption.any fun _ => true) = true := by decide +kernel
  have hfind : ((s.find .zero).2.toOption.any fun report =>
      decide (report.skipped = none ∧ report.matrixCount = 2)) = true := by decide +kernel
  obtain ⟨cs, hcs, -⟩ := Checked.exists_eq_ok hprepare
  obtain ⟨report, hok, h⟩ := Checked.exists_eq_ok hfind
  obtain ⟨hskip, hcount⟩ := of_decide_eq_true h
  obtain ⟨hfault, hpool, hrun⟩ := find_never_faults hr hc hm .zero
  obtain ⟨hpartition, hstages⟩ := hrun cs hcs
  exact ⟨hr, hc, hm, hfault, hpool, cs, report, hcs, hok, hskip, hcount,
    hpartition _ _ (List.take_append_drop 3 cs).symm, hstages report hok hskip⟩

end Session

end ParityBlocks
