import ParityBlocks.Proofs.Normal
import ParityBlocks.Proofs.Outlines
import ParityBlocks.Proofs.Reachable

/-!
# Pools in another order

The order of the pool, and of the variables in each of its constraints, decides which of
several equal constraints is kept, how components are numbered and which of equal ones
go first. It does not decide whether there is a contradiction, what the components are
like, how many of them become matrices, and which variables cancel
(`Session.find_of_reorders`).

For reducing, the order of variables makes no difference at all (`Solver.reduce_reordered`),
so preparing yields the same constraints in another order before they are combined. After
that they have the same lists of variables (`perm_vars_folded`), which is what outlines
and verdicts are a matter of.
-/

namespace ParityBlocks

/-- The constraint with its variables in another order. -/
def Constraint.Reordered (c d : Constraint) : Prop :=
  ∃ vars, c.vars.Perm vars ∧ d = { c with vars := vars }

/-- The constraints in another order, each with its variables in another order. -/
def Reorders (cs ds : List Constraint) : Prop :=
  ∃ es, List.Forall₂ Constraint.Reordered cs es ∧ es.Perm ds

theorem Constraint.Reordered.symm {c d : Constraint} (h : c.Reordered d) : d.Reordered c := by
  obtain ⟨vars, hvars, rfl⟩ := h
  exact ⟨c.vars, hvars.symm, rfl⟩

theorem Reorders.symm {cs ds : List Constraint} (h : Reorders cs ds) : Reorders ds cs := by
  obtain ⟨es, hes, hperm⟩ := h
  have back : List.Forall₂ Constraint.Reordered es cs :=
    .flip (hes.imp fun _ _ h => h.symm)
  exact List.perm_comp_forall₂ hperm.symm back

/-! ## Preparing -/

namespace Solver

variable {s : Solver}

/-- Substituted variables leave the same, in whatever order they are. -/
theorem remainder_reordered {c d : Constraint} (h : c.Reordered d)
    {terms terms' : List (Var × Option Bool)} (ht : terms'.Perm terms) :
    remainder d terms' = { remainder c terms with } := by
  obtain ⟨vars, -, rfl⟩ := h
  have free : ∀ f : Var × Option Bool → Option Var,
      Ascending.oddOf (terms'.filterMap f) = Ascending.oddOf (terms.filterMap f) :=
    fun f => Ascending.oddOf_congr fun v => by rw [(ht.filterMap f).count_eq]
  have comm : RightCommutative (· ^^ · : Bool → Bool → Bool) := ⟨by decide⟩
  have rhs := (ht.filterMap Prod.snd).foldl_eq c.rhs (f := (· ^^ ·))
  rw [remainder, remainder, free, rhs]

/-- The order of variables makes no difference for reducing. -/
theorem reduce_reordered {c d c' : Constraint} (h : c.Reordered d) (hr : s.reduce c = .ok c') :
    s.reduce d = .ok c' := by
  obtain ⟨terms, hterms, rfl⟩ := reduce_eq_ok.mp hr
  have perm : d.vars.Perm c.vars := by
    obtain ⟨vars, hvars, rfl⟩ := h
    exact hvars.symm
  obtain ⟨terms', hterms', hperm⟩ := List.perm_comp_forall₂ perm hterms
  exact reduce_eq_ok.mpr ⟨terms', hterms', (remainder_reordered h hperm).symm⟩

end Solver

theorem Agree.perm {cs ds : List Constraint} (h : Agree cs) (hp : ds.Perm cs) : Agree ds :=
  fun c hc d hd => h c (hp.mem_iff.mp hc) d (hp.mem_iff.mp hd)

/-- The lists of variables of constraints: those of the constraints with variables, and an
empty one for each of the others. -/
theorem perm_map_vars (cs : List Constraint) :
    (cs.map Constraint.vars).Perm
      (supports cs ++ List.replicate (cs.length - (supports cs).length) []) := by
  have parts := (List.filter_append_perm (fun c => !c.isTrivial) cs).symm
  have trivial : ((cs.filter fun c => !!c.isTrivial).map Constraint.vars) =
      List.replicate (cs.length - (supports cs).length) [] := by
    rw [parts.length_eq, List.length_append, supports, List.length_map, Nat.add_sub_cancel_left,
      List.map_eq_replicate_iff]
    intro c hc
    simpa [Constraint.isTrivial] using (List.mem_filter.mp hc).2
  have perm := parts.map Constraint.vars
  rwa [List.map_append, trivial] at perm

/-- Combining constraints in another order leaves the same lists of variables. -/
theorem perm_vars_folded {cs ds : List Constraint} (h : cs.Perm ds) :
    ((folded [] cs).map Constraint.vars).Perm ((folded [] ds).map Constraint.vars) := by
  have supports : (supports (folded [] cs)).Perm (supports (folded [] ds)) := by
    rw [List.perm_ext_iff_of_nodup (nodup_supports_folded _ _) (nodup_supports_folded _ _)]
    intro vs
    rw [mem_supports_folded, mem_supports_folded, mem_supports, mem_supports,
      (h.map Constraint.vars).mem_iff]
  have parts := perm_map_vars (folded [] ds)
  rw [length_folded, ← h.length_eq, ← length_folded [] cs, ← supports.length_eq] at parts
  exact (perm_map_vars (folded [] cs)).trans ((supports.append_right _).trans parts.symm)

theorem mem_cancelled_folded_perm {cs ds : List Constraint} (h : cs.Perm ds) (v : Var) :
    v ∈ (folded [] cs).flatMap Constraint.cancelled ↔
      v ∈ (folded [] ds).flatMap Constraint.cancelled := by
  have count : ∀ vs, (cs.map Constraint.vars).count vs = (ds.map Constraint.vars).count vs :=
    fun vs => (h.map Constraint.vars).count_eq vs
  simp only [List.mem_flatMap, mem_cancelled_folded, repeated_nil_iff, count, h.mem_iff]

theorem withVariables_of_perm {cs ds : List Constraint}
    (h : (cs.map Constraint.vars).Perm (ds.map Constraint.vars)) :
    Search.withVariables ds = Search.withVariables cs := by
  have counts : ∀ es : List Constraint,
      Search.withVariables es = (es.map Constraint.vars).countP fun vs => !vs.isEmpty := by
    intro es
    rw [List.countP_map]
    rfl
  rw [counts, counts, h.countP_eq]

namespace Solver

variable {s : Solver}

/-- The order of variables makes no difference for cleaning. -/
theorem forall₂_reduce_reordered {cs es cleaned : List Constraint}
    (h : List.Forall₂ Constraint.Reordered cs es)
    (hclean : List.Forall₂ (fun c c' => s.reduce c = .ok c' ∧ c'.isAbsurd = false) cs cleaned) :
    List.Forall₂ (fun c c' => s.reduce c = .ok c' ∧ c'.isAbsurd = false) es cleaned := by
  induction h generalizing cleaned with
  | nil => exact hclean
  | cons hc _ ih =>
    cases hclean with
    | cons hr hrest => exact .cons ⟨reduce_reordered hc hr.1, hr.2⟩ (ih hrest)

/-- What a pool in another order is prepared as. -/
theorem exists_prepare_of_reorders {pool : List Constraint} (h : Reorders s.pool pool)
    {cs : List Constraint} (hp : s.prepare = .ok cs) :
    ∃ ds, ({ s with pool := pool } : Solver).prepare = .ok ds ∧
      (cs.map Constraint.vars).Perm (ds.map Constraint.vars) ∧
      ∀ v, v ∈ cs.flatMap Constraint.cancelled ↔ v ∈ ds.flatMap Constraint.cancelled := by
  obtain ⟨es, hes, hperm⟩ := h
  obtain ⟨cleaned, hclean, agree, rfl⟩ := prepare_eq_ok_iff.mp hp
  obtain ⟨cleaned', hclean', hperm'⟩ :=
    List.perm_comp_forall₂ hperm.symm (forall₂_reduce_reordered hes hclean)
  exact ⟨folded [] cleaned', prepare_eq_ok_iff.mpr ⟨cleaned', hclean', agree.perm hperm', rfl⟩,
    perm_vars_folded hperm'.symm, mem_cancelled_folded_perm hperm'.symm⟩

theorem WellFormed.reorders (hs : s.WellFormed) {pool : List Constraint}
    (h : Reorders s.pool pool) :
    ({ s with pool := pool } : Solver).WellFormed := by
  refine hs.congr rfl hs.numbering rfl fun d hd v hv => ?_
  obtain ⟨es, hes, hperm⟩ := h
  have known : ∀ e ∈ es, ∀ v ∈ e.vars, v < s.varCount := by
    refine (forall_mem_iff_of_forall₂ hes fun c _ e hce => ?_).mp hs.pool
    obtain ⟨vars, hvars, rfl⟩ := hce
    exact forall_congr' fun v => by rw [hvars.mem_iff]
  exact known d (hperm.mem_iff.mpr hd) v hv

end Solver

/-! ## Reports -/

/-- The reports agree in all that is no matter of order. -/
structure Report.Resembles (r r' : Report) : Prop where
  skipped : r'.skipped = r.skipped
  constraintCount : r'.constraintCount = r.constraintCount
  matrixCreated : r'.matrixCreated = r.matrixCreated
  matrixCount : r'.matrixCount = r.matrixCount
  unusedCount : r'.unusedCount = r.unusedCount
  tooFewRowsCount : r'.tooFewRowsCount = r.tooFewRowsCount
  outlines : (r.decisions.map Decision.outline).Perm (r'.decisions.map Decision.outline)
  verdicts : (r.decisions.map Decision.verdict).Perm (r'.decisions.map Decision.verdict)

theorem Report.Resembles.refl (r : Report) : r.Resembles r :=
  ⟨rfl, rfl, rfl, rfl, rfl, rfl, .refl _, .refl _⟩

/-- Reports are known from the verdicts and the outlines, but for the order. -/
theorem Ruling.resembles_report {rs rs' : List Ruling} (hn : Numbered 0 rs) (hn' : Numbered 0 rs')
    (verdicts : (rs.map fun r => r.decision.verdict).Perm (rs'.map fun r => r.decision.verdict))
    (outlines : (rs.map fun r => r.decision.outline).Perm (rs'.map fun r => r.decision.outline))
    (count : Nat) : (report count rs).Resembles (report count rs') := by
  have matrixCount : (report count rs').matrixCount = (report count rs).matrixCount := by
    rw [hn'.matrixCount_eq, hn.matrixCount_eq, verdicts.countP_eq]
  refine ⟨rfl, rfl, congrArg (fun n => decide (0 < n)) matrixCount, matrixCount, ?_, ?_, ?_, ?_⟩
  · rw [hn'.unusedCount_eq, hn.unusedCount_eq, verdicts.countP_eq]
  · rw [tooFewRowsCount_eq, tooFewRowsCount_eq, verdicts.count_eq]
  · simp only [report, List.map_map]
    exact outlines
  · simp only [report, List.map_map]
    exact verdicts

theorem Solver.resembles_account {s : Solver} {cs ds : List Constraint}
    (hcs : ∀ c ∈ cs, ∀ v ∈ c.vars, v < s.varCount)
    (hds : ∀ d ∈ ds, ∀ v ∈ d.vars, v < s.varCount)
    (h : (cs.map Constraint.vars).Perm (ds.map Constraint.vars)) :
    (s.account cs).Resembles (s.account ds) := by
  have length : ds.length = cs.length := by
    simpa only [List.length_map] using h.length_eq.symm
  have outlines := perm_outlines hcs h
  rw [← map_outline_rulings hcs, ← map_outline_rulings hds] at outlines
  have cause : Search.skipCause? s.settings ds = Search.skipCause? s.settings cs :=
    Search.skipCause?_congr rfl rfl length (withVariables_of_perm h)
  rw [account, account, cause, length]
  cases Search.skipCause? s.settings cs with
  | some cause => exact .refl _
  | none =>
    exact Ruling.resembles_report (Ruling.numbered_ofAssessed _ _ _)
      (Ruling.numbered_ofAssessed _ _ _) (perm_verdicts hcs hds h) outlines cs.length

namespace Session

open Search

variable {s t : Session}

/-- Two sessions whose solvers differ in the order of the pool, and of the variables in its
constraints, both find a contradiction, or their reports agree in all that is no matter of
order; and the same variables have cancelled. -/
theorem find_of_reorders (hr : s.solver.Reachable) (hc : s.solver.consistent = true)
    (hm : s.solver.matrices = []) (ht : t.solver = { s.solver with pool := t.solver.pool })
    (h : Reorders s.solver.pool t.solver.pool) (elapsed elapsed' : Duration) :
    EndAlike Report.Resembles (s.find elapsed).2 (t.find elapsed').2 ∧
      (t.find elapsed').1.solver.cancelled = (s.find elapsed).1.solver.cancelled := by
  have hs := hr.wellFormed
  generalize t.solver.pool = pool at ht h
  have hs' : t.solver.WellFormed := ht ▸ hs.reorders h
  have hc' : t.solver.consistent = true := by rw [ht]; exact hc
  have hm' : t.solver.matrices = [] := by rw [ht]; exact hm
  cases hp : s.solver.prepare with
  | ok cs =>
    obtain ⟨ds, hp', hvars, hcancelled⟩ := Solver.exists_prepare_of_reorders h hp
    rw [← ht] at hp'
    have found := find_of_prepare hs hc hm hp elapsed
    have found' := find_of_prepare hs' hc' hm' hp' elapsed'
    rw [found.outcome_eq, found'.outcome_eq, found.cancelled_eq, found'.cancelled_eq]
    refine ⟨.reported ?_, (Ascending.ofList_congr hcancelled).symm⟩
    have hds := Solver.lt_of_prepare hp'
    rw [ht] at hds ⊢
    exact { Solver.resembles_account (Solver.lt_of_prepare hp) hds hvars with }
  | error failure =>
    obtain ⟨c, found, settled⟩ := find_of_prepare_error hs hc hm hp elapsed
    cases hp' : t.solver.prepare with
    | ok ds =>
      rw [ht] at hp'
      obtain ⟨cs, prepared, -⟩ := Solver.exists_prepare_of_reorders h.symm hp'
      exact nomatch hp.symm.trans prepared
    | error failure' =>
      obtain ⟨c', found', settled'⟩ := find_of_prepare_error hs' hc' hm' hp' elapsed'
      rw [found, found', settled, settled', ht]
      exact ⟨.contradicted c c', rfl⟩

/-- The sample with its pool, and the variables of each constraint, in reverse order. -/
def reversedSample : Session where
  solver := { sample.solver with
    pool := (sample.solver.pool.map fun c => { c with vars := c.vars.reverse }).reverse }

theorem find_of_reorders_sample :
    sample.solver.Reachable ∧ sample.solver.consistent = true ∧ sample.solver.matrices = [] ∧
      reversedSample.solver = { sample.solver with pool := reversedSample.solver.pool } ∧
      Reorders sample.solver.pool reversedSample.solver.pool ∧
      EndAlike Report.Resembles (sample.find .zero).2 (reversedSample.find .zero).2 ∧
        (reversedSample.find .zero).1.solver.cancelled = (sample.find .zero).1.solver.cancelled := by
  have h : Reorders sample.solver.pool reversedSample.solver.pool := by
    refine ⟨_, ?_, (List.reverse_perm _).symm⟩
    rw [List.forall₂_map_right_iff, List.forall₂_same]
    exact fun c _ => ⟨_, c.vars.reverse_perm.symm, rfl⟩
  exact ⟨reachable_sample, consistent_sample, matrices_sample, rfl, h,
    find_of_reorders (t := reversedSample) reachable_sample consistent_sample matrices_sample rfl h
      .zero .zero⟩

end Session

end ParityBlocks
