import ParityBlocks.Proofs.Account
import ParityBlocks.Proofs.Contiguity
import ParityBlocks.Proofs.Outlines
import ParityBlocks.Proofs.Queue
import ParityBlocks.Proofs.Skipping

/-!
# Searches after a search without matrices

A search that looks for blocks and makes no matrix leaves the blocks in the pool, one after
the other in the order of competition. A second search prepares them as they are
(`Solver.WellFormed.prepare_pooled`), numbers their components in that order
(`Component.map_rows_found`) and so finds them sorted already
(`Component.forall₂_ranked_pooled`): among blocks of the same size and density the one with
the lower number went first before, and is numbered first now. It gives the same verdicts,
and leaves everything where it was (`Session.find_after_fruitless`).
-/

namespace ParityBlocks

/-- The constraint as a search gives it back. -/
def Constraint.pooled (c : Constraint) : Constraint := { c with placement := .inPool }

/-- The decision, but for the number of the component. -/
def Decision.unnumbered (d : Decision) : Decision := { d with shape := d.shape.unnumbered }

theorem map_vars_pooled (cs : List Constraint) :
    (cs.map Constraint.pooled).map Constraint.vars = cs.map Constraint.vars := by
  rw [List.map_map]
  rfl

/-- Rows with the same lists of variables have the same numbers. -/
theorem Shape.IsOf.unnumbered_eq {s t : Shape} {rows rows' : List Constraint} (hs : s.IsOf rows)
    (ht : t.IsOf rows') (h : rows'.map Constraint.vars = rows.map Constraint.vars) :
    t.unnumbered = s.unnumbered := by
  obtain ⟨ms, hms, mem, hs⟩ := hs
  obtain ⟨ns, hns, mem', ht⟩ := ht
  have mentioned : ∀ {cs : List Constraint} {v : Var},
      (∃ c ∈ cs, v ∈ c.vars) ↔ ∃ vs ∈ cs.map Constraint.vars, v ∈ vs := by simp
  have perm : ns.Perm ms := by
    refine (List.perm_ext_iff_of_nodup hns hms).mpr fun v => ?_
    rw [mem, mem', mentioned, mentioned, h]
  rw [hs, ht, unnumbered_ofRows, unnumbered_ofRows, h, perm.length_eq]

/-! ## The blocks in the pool -/

/-- Blocks that are put into the pool one after the other are its blocks. -/
theorem Blocks.pooled {cs : List Constraint} {blocks : List (List Constraint)}
    (h : Blocks cs blocks) :
    Blocks (blocks.map (List.map Constraint.pooled)).flatten
      (blocks.map (List.map Constraint.pooled)) where
  perm := by
    refine .of_eq (List.filter_eq_self.mpr fun c hc => ?_).symm
    rw [← List.map_flatten] at hc
    obtain ⟨d, hd, rfl⟩ := List.mem_map.mp hc
    exact (List.mem_filter.mp (h.perm.mem_iff.mp hd)).2
  sublist b hb := List.sublist_flatten_of_mem hb
  ne_nil := List.forall_mem_map.mpr fun b hb hnil => h.ne_nil b hb (List.map_eq_nil_iff.mp hnil)
  chained := by
    refine List.forall_mem_map.mpr fun b hb => ?_
    refine List.forall_mem_map.mpr fun c hc => List.forall_mem_map.mpr fun d hd => ?_
    exact (h.chained b hb c hc d hd).map fun _ => rfl
  separate := by
    refine List.pairwise_map.mpr (h.separate.imp fun {b b'} apart => ?_)
    exact List.forall_mem_map.mpr fun c hc => List.forall_mem_map.mpr fun d hd => apart c hc d hd

/-- What was prepared, and put into the pool without the constraints that have no variables,
is left as it is when it is prepared again. -/
theorem Solver.WellFormed.prepare_pooled {s : Solver} (hs : s.WellFormed) {cs : List Constraint}
    (hp : s.prepare = .ok cs) {pool : List Constraint}
    (perm : pool.Perm ((cs.filter fun c => !c.isTrivial).map Constraint.pooled)) :
    ({ s with pool := pool } : Solver).prepare = .ok pool := by
  have mem : ∀ c ∈ pool, ∃ d ∈ cs, d.pooled = c := by
    intro c hc
    obtain ⟨d, hd, rfl⟩ := List.mem_map.mp (perm.mem_iff.mp hc)
    exact ⟨d, List.mem_of_mem_filter hd, rfl⟩
  have nodup : (supports pool).Nodup := by
    have lists : (supports pool).Perm (supports cs) := by
      have kept : (cs.filter fun c => !c.isTrivial).filter
          ((fun c => !c.isTrivial) ∘ Constraint.pooled) = cs.filter fun c => !c.isTrivial :=
        List.filter_eq_self.mpr fun c hc => (List.mem_filter.mp hc).2
      have lists := (perm.filter fun c => !c.isTrivial).map Constraint.vars
      rwa [List.filter_map, kept, map_vars_pooled] at lists
    obtain ⟨cleaned, -, -, rfl⟩ := prepare_eq_ok_iff.mp hp
    exact lists.nodup_iff.mpr (nodup_supports_folded _ _)
  refine prepare_eq_ok_iff.mpr ⟨pool, ?_, agree_of_nodup_supports nodup, ?_⟩
  · rw [List.forall₂_same]
    intro c hc
    obtain ⟨d, hd, rfl⟩ := mem c hc
    have reduced := hs.reduce_of_prepare hp d hd
    have fixed : s.reduce d.pooled = .ok d.pooled :=
      reduce_eq_self (pairwise_vars_of_reduce reduced :) (hs.substitute_of_reduce reduced :)
    exact ⟨fixed, not_isAbsurd_of_prepare hp d hd⟩
  · rw [folded_eq_self nodup fun _ _ => List.not_mem_nil]

/-! ## The components of the pool -/

/-- Lists that correspond to each other, of which each is in an order. -/
theorem pairwise_of_forall₂ {α β : Type} {R : α → β → Prop} {P : α → α → Prop}
    {Q S : β → β → Prop} {xs : List α} {ys : List β} (h : List.Forall₂ R xs ys)
    (hx : xs.Pairwise P) (hy : ys.Pairwise Q)
    (hs : ∀ {x x' y y'}, R x y → R x' y' → P x x' → Q y y' → S y y') : ys.Pairwise S := by
  induction h with
  | nil => exact .nil
  | @cons x y xs ys hxy h ih =>
    obtain ⟨hx, hxs⟩ := List.pairwise_cons.mp hx
    obtain ⟨hy, hys⟩ := List.pairwise_cons.mp hy
    refine List.pairwise_cons.mpr ⟨fun y' hy' => ?_, ih hxs hys⟩
    obtain ⟨i, hi, rfl⟩ := List.getElem_of_mem hy'
    have hi' : i < xs.length := h.length_eq ▸ hi
    exact hs hxy (h.get hi' hi) (hx _ (List.getElem_mem hi')) (hy _ hy')

namespace Component

/-- The second component is the first with its rows in the pool. -/
structure Pooled (b b' : Component) : Prop where
  unnumbered_eq : b'.shape.unnumbered = b.shape.unnumbered
  mem_iff (v : Var) : v ∈ b'.members ↔ v ∈ b.members
  rows_eq : b'.rows = b.rows.map Constraint.pooled

/-- Components that were found are known from their rows, but for the number. -/
theorem Pooled.of_found {p q : Partition} {cs ds : List Constraint} {b b' : Component}
    (hp : p.Represents (cs.map Constraint.vars)) (hq : q.Represents (ds.map Constraint.vars))
    (hb : b ∈ found p cs) (hb' : b' ∈ found q ds) (h : b'.rows = b.rows.map Constraint.pooled) :
    b.Pooled b' where
  unnumbered_eq := by
    have lists : b'.rows.map Constraint.vars = b.rows.map Constraint.vars := by
      rw [h, map_vars_pooled]
    exact (isOf_of_mem_found hp hb).unnumbered_eq (isOf_of_mem_found hq hb') lists
  mem_iff v := by
    rw [mem_members_of_mem_found hp hb, mem_members_of_mem_found hq hb', h]
    simp [Constraint.pooled]
  rows_eq := h

/-- Of components with the same numbers but for their ids, the order of ids decides. -/
theorem Pooled.mayPrecede {b c b' c' : Component} (hb : b.Pooled b') (hc : c.Pooled c')
    (first : b.shape.priority c.shape = .lt) (rising : b'.shape.id < c'.shape.id) :
    b'.shape.mayPrecede c'.shape = true := by
  have rows : ∀ {b b' : Component}, b.Pooled b' → b'.shape.rows = b.shape.rows :=
    fun h => (congrArg Shape.rows h.unnumbered_eq :)
  have density : ∀ {b b' : Component}, b.Pooled b' → b'.shape.density = b.shape.density :=
    fun h => (congrArg Shape.density h.unnumbered_eq :)
  rw [Shape.priority_eq_lt_iff] at first
  rw [Shape.mayPrecede_iff, rows hb, rows hc, density hb, density hc]
  omega

end Component

namespace Solver

variable {s : Solver} {cs : List Constraint}

/-- The pool that a search of prepared constraints leaves if it makes no matrix. -/
def pooledBlocks (s : Solver) (cs : List Constraint) : List Constraint :=
  ((s.ranked cs).map fun b => b.rows.map Constraint.pooled).flatten

theorem blocks_ranked (hcs : ∀ c ∈ cs, ∀ v ∈ c.vars, v < s.varCount) :
    Blocks cs ((s.ranked cs).map Component.rows) :=
  Component.blocks_of_perm_found (Partition.represents_ofLists (List.forall_mem_map.mpr hcs))
    (Component.perm_ranked _ _)

theorem perm_pooledBlocks (hcs : ∀ c ∈ cs, ∀ v ∈ c.vars, v < s.varCount) :
    (s.pooledBlocks cs).Perm ((cs.filter fun c => !c.isTrivial).map Constraint.pooled) := by
  have perm := (blocks_ranked hcs).perm.map Constraint.pooled
  rwa [List.map_flatten, List.map_map] at perm

theorem lt_of_mem_pooledBlocks (hcs : ∀ c ∈ cs, ∀ v ∈ c.vars, v < s.varCount) :
    ∀ c ∈ s.pooledBlocks cs, ∀ v ∈ c.vars, v < s.varCount := by
  intro c hc
  obtain ⟨d, hd, rfl⟩ := List.mem_map.mp ((perm_pooledBlocks hcs).mem_iff.mp hc)
  exact hcs d (List.mem_of_mem_filter hd)

/-- The components of the pool compete in the order in which their blocks are in it. -/
theorem forall₂_ranked_pooled (hcs : ∀ c ∈ cs, ∀ v ∈ c.vars, v < s.varCount) :
    List.Forall₂ Component.Pooled (s.ranked cs) (s.ranked (s.pooledBlocks cs)) := by
  have hpool := lt_of_mem_pooledBlocks hcs
  have hp := Partition.represents_ofLists (List.forall_mem_map.mpr hcs)
  have hq := Partition.represents_ofLists (List.forall_mem_map.mpr hpool)
  have blocks := (blocks_ranked hcs).pooled
  rw [List.map_map] at blocks
  let again := Component.found (.ofLists s.varCount ((s.pooledBlocks cs).map Constraint.vars))
    (s.pooledBlocks cs)
  -- the components by rising number are the blocks in their order
  have rows : again.map Component.rows = (s.ranked cs).map fun b => b.rows.map Constraint.pooled :=
    Component.map_rows_found hpool blocks
  have matched : List.Forall₂ Component.Pooled (s.ranked cs) again := by
    rw [← List.forall₂_eq_eq_eq, List.forall₂_map_left_iff, List.forall₂_map_right_iff] at rows
    have rows := List.forall₂_iff_zip.mp (.flip rows)
    refine List.forall₂_iff_zip.mpr ⟨rows.1, fun {b b'} hz => ?_⟩
    obtain ⟨hb, hb'⟩ := List.of_mem_zip hz
    exact .of_found hp hq ((Component.perm_ranked _ _).mem_iff.mp hb) hb' (rows.2 hz)
  have rising : again.Pairwise fun b b' => b.shape.id < b'.shape.id :=
    List.pairwise_map.mpr (Component.pairwise_lt_components _)
  have sorted : s.ranked (s.pooledBlocks cs) = again :=
    Sorting.sort_eq_self (pairwise_of_forall₂ matched (Component.pairwise_ranked _ _) rising
      Component.Pooled.mayPrecede)
  rw [sorted]
  exact matched

end Solver

/-! ## The rulings on them -/

/-- The second component, with what it covers, is the first with its rows in the pool. -/
structure Assessed.Pooled (a a' : Assessed) : Prop where
  component : a.component.Pooled a'.component
  ratio_eq : a'.ratio = a.ratio

theorem Assessed.pooled_of (sampling : Option SamplingSet) {b b' : Component} (h : b.Pooled b') :
    (Assessed.of sampling b).Pooled (.of sampling b') := by
  refine ⟨h, ?_⟩
  rw [Assessed.of, Assessed.of]
  simp only [h.mem_iff]

namespace Ruling

/-- The second ruling is the first, but for the number of the component, on rows in the
pool. -/
structure Pooled (r r' : Ruling) : Prop where
  unnumbered_eq : r'.decision.unnumbered = r.decision.unnumbered
  rows_eq : r'.rows = r.rows.map Constraint.pooled

/-- Ruling on the same components in the same order. -/
theorem forall₂_ofAssessed_pooled (policy : Policy) (k : Nat) {as as' : List Assessed}
    (h : List.Forall₂ Assessed.Pooled as as') :
    List.Forall₂ Pooled (ofAssessed policy k as) (ofAssessed policy k as') := by
  induction h generalizing k with
  | nil => exact .nil
  | @cons a a' as as' ha _ ih =>
    have shape := ha.component.unnumbered_eq
    -- no rule asks for the number of the component
    have verdict : policy.decide ⟨a'.component.shape, a'.ratio, k⟩ =
        policy.decide ⟨a.component.shape, a.ratio, k⟩ := by
      have unnumbered : ∀ a : Assessed, policy.decide ⟨a.component.shape, a.ratio, k⟩ =
        policy.decide ⟨a.component.shape.unnumbered, a.ratio, k⟩ := fun _ => rfl
      rw [unnumbered, unnumbered a, shape, ha.ratio_eq]
    simp only [ofAssessed, verdict]
    split
    · exact ih k
    · split
      · exact .cons ⟨by simp only [Decision.unnumbered, shape, ha.ratio_eq], ha.component.rows_eq⟩
          (ih (k + 1))
      · exact .cons ⟨by simp only [Decision.unnumbered, shape, ha.ratio_eq], ha.component.rows_eq⟩
          (ih k)

theorem Pooled.matrixNumber_eq {r r' : Ruling} (h : r.Pooled r') :
    r'.decision.matrixNumber = r.decision.matrixNumber :=
  (congrArg Decision.matrixNumber h.unnumbered_eq :)

/-- The counts of a report do not depend on the numbers of components. -/
theorem report_eq_of_unnumbered {rs rs' : List Ruling} (count count' : Nat)
    (h : (rs'.map decision).map Decision.unnumbered = (rs.map decision).map Decision.unnumbered) :
    report count' rs' =
      { report count rs with constraintCount := count', decisions := rs'.map decision } := by
  have counts : ∀ p : Decision → Bool, (∀ d, p d.unnumbered = p d) →
      (rs'.map decision).countP p = (rs.map decision).countP p := by
    intro p hp
    have counted : ∀ ds : List Decision, ds.countP p = (ds.map Decision.unnumbered).countP p := by
      intro ds
      rw [List.countP_map]
      exact List.countP_congr fun d _ => by rw [Function.comp, hp]
    rw [counted, h, ← counted]
  simp only [report]
  rw [counts (fun d => d.matrixNumber.isSome) fun _ => rfl,
    counts (fun d => d.matrixNumber.isNone) fun _ => rfl,
    counts (fun d => d.verdict == .rejected .tooFewRows) fun _ => rfl]

end Ruling

namespace Solver

variable {s : Solver} {cs : List Constraint}

theorem forall₂_rulings_pooled (hcs : ∀ c ∈ cs, ∀ v ∈ c.vars, v < s.varCount) :
    List.Forall₂ Ruling.Pooled (s.rulings cs) (s.rulings (s.pooledBlocks cs)) := by
  refine Ruling.forall₂_ofAssessed_pooled s.policy 0 ?_
  rw [assessed, assessed, List.forall₂_map_left_iff, List.forall₂_map_right_iff]
  exact (forall₂_ranked_pooled hcs).imp fun _ _ => Assessed.pooled_of s.samplingSet

/-- Rulings that make no matrix give all blocks back. -/
theorem flatMap_returned_rulings (hcs : ∀ c ∈ cs, ∀ v ∈ c.vars, v < s.varCount)
    (h : ∀ r ∈ s.rulings cs, r.decision.matrixNumber = none) :
    (s.rulings cs).flatMap Ruling.returned = s.pooledBlocks cs := by
  have rows : (s.rulings cs).map (fun r => r.rows.map Constraint.pooled) =
      (s.ranked cs).map fun b => b.rows.map Constraint.pooled := by
    have parts := congrArg (List.map fun x => x.2.map Constraint.pooled)
      (Ruling.map_ofAssessed s.policy 0 (rows_ne_zero_of_mem_assessed hcs))
    rw [assessed, List.map_map, List.map_map, List.map_map] at parts
    exact parts
  rw [pooledBlocks, ← rows, List.flatMap_def]
  refine congrArg List.flatten (List.map_congr_left fun r hr => ?_)
  rw [Ruling.returned, h r hr]
  rfl

/-- The blocks that are in the pool one after the other stay so. -/
theorem pooledBlocks_pooledBlocks (hcs : ∀ c ∈ cs, ∀ v ∈ c.vars, v < s.varCount) :
    s.pooledBlocks (s.pooledBlocks cs) = s.pooledBlocks cs := by
  have rows : (s.ranked (s.pooledBlocks cs)).map (fun b => b.rows.map Constraint.pooled) =
      (s.ranked cs).map fun b => b.rows.map Constraint.pooled := by
    rw [← List.forall₂_eq_eq_eq, List.forall₂_map_left_iff, List.forall₂_map_right_iff]
    refine .flip ((forall₂_ranked_pooled hcs).imp fun b b' h => ?_)
    show b'.rows.map Constraint.pooled = b.rows.map Constraint.pooled
    rw [h.rows_eq, List.map_map]
    rfl
  rw [pooledBlocks, rows, pooledBlocks]

/-- The constraints with variables, counted in the pool. -/
theorem skipCause?_pooledBlocks (hcs : ∀ c ∈ cs, ∀ v ∈ c.vars, v < s.varCount)
    (h : Search.skipCause? s.settings cs = none) :
    Search.skipCause? s.settings (s.pooledBlocks cs) = none := by
  have perm := perm_pooledBlocks hcs
  have count : Search.withVariables (s.pooledBlocks cs) = Search.withVariables cs := by
    have nontrivial : ∀ c : Constraint, (!c.pooled.isTrivial && !c.isTrivial) = !c.isTrivial :=
      fun c => Bool.and_self _
    rw [Search.withVariables, perm.countP_eq, List.countP_map, List.countP_filter]
    exact List.countP_congr fun c _ => by rw [Function.comp, nontrivial]
  have length : (s.pooledBlocks cs).length ≤ cs.length := by
    rw [perm.length_eq, List.length_map]
    exact List.length_filter_le _ _
  simp only [Search.skipCause?, count] at h ⊢
  split_ifs at h with few many off
  rw [if_neg few, if_neg fun hmany => many ⟨by omega, hmany.2⟩, if_neg off]

end Solver

namespace Session

open Search

variable {s : Session}

/-- A search that looks for blocks and makes no matrix puts all of them into the pool. -/
theorem find_of_no_matrix (hs : s.solver.WellFormed) (hc : s.solver.consistent = true)
    (hm : s.solver.matrices = []) {cs : List Constraint} (hp : s.solver.prepare = .ok cs)
    (hcause : skipCause? s.solver.settings cs = none)
    (number : ∀ r ∈ s.solver.rulings cs, r.decision.matrixNumber = none) (elapsed : Duration) :
    (s.find elapsed).2 =
        .ok { Ruling.report cs.length (s.solver.rulings cs) with elapsed := elapsed } ∧
      (s.find elapsed).1.solver =
        { s.solver with
          pool := s.solver.pooledBlocks cs
          queue := []
          cancelled := Ascending.ofList (cs.flatMap Constraint.cancelled) } := by
  obtain ⟨outcome_eq, solver_eq⟩ := find_of_divided hs hc hm hp hcause elapsed
  have matrices : (s.solver.rulings cs).filterMap Ruling.matrix? = [] := by
    refine List.filterMap_eq_nil_iff.mpr fun r hr => ?_
    rw [Ruling.matrix?, number r hr, Option.map_none]
  refine ⟨outcome_eq, ?_⟩
  rw [solver_eq, Solver.flatMap_returned_rulings (Solver.lt_of_prepare hp) number, matrices,
    List.length_nil, queueAfter_zero, ← hm]

/-- A search that looked for blocks and made no matrix has ruled so on all of them. -/
theorem exists_of_no_matrix (hs : s.solver.WellFormed) (hc : s.solver.consistent = true)
    (hm : s.solver.matrices = []) {elapsed : Duration} {report : Report}
    (hok : (s.find elapsed).2 = .ok report) (hskip : report.skipped = none)
    (hnone : report.matrixCount = 0) :
    ∃ cs, s.solver.prepare = .ok cs ∧ skipCause? s.solver.settings cs = none ∧
      (∀ r ∈ s.solver.rulings cs, r.decision.matrixNumber = none) ∧
      report = { Ruling.report cs.length (s.solver.rulings cs) with elapsed := elapsed } := by
  obtain ⟨cs, hp, hcause, rfl, -⟩ := exists_rulings_of_find hs hc hm hok hskip
  refine ⟨cs, hp, hcause, fun r hr => ?_, rfl⟩
  have none := List.countP_eq_zero.mp hnone r.decision (List.mem_map_of_mem hr)
  rwa [Option.not_isSome_iff_eq_none] at none

/-- A search that looked for blocks and made no matrix: the next one leaves the solver as it
is, but for the variables that cancelled, and reports the same decisions in the same order,
but for the numbers of components, and the same counts. -/
theorem find_after_fruitless (hr : s.solver.Reachable) (hc : s.solver.consistent = true)
    (hm : s.solver.matrices = []) {elapsed : Duration} {report : Report}
    (hok : (s.find elapsed).2 = .ok report) (hskip : report.skipped = none)
    (hnone : report.matrixCount = 0) (elapsed' : Duration) :
    let found := (s.find elapsed).1
    let after := found.find elapsed'
    ∃ again : Report, after.2 = .ok again ∧ again.skipped = none ∧ again.matrixCount = 0 ∧
      again.decisions.map Decision.unnumbered = report.decisions.map Decision.unnumbered ∧
      again.unusedCount = report.unusedCount ∧ again.tooFewRowsCount = report.tooFewRowsCount ∧
      after.1.solver = { found.solver with cancelled := after.1.solver.cancelled } := by
  have hs := hr.wellFormed
  obtain ⟨cs, hp, hcause, number, rfl⟩ := exists_of_no_matrix hs hc hm hok hskip hnone
  have hcs := Solver.lt_of_prepare hp
  have hfound : (s.find elapsed).1.solver.WellFormed := .find hs elapsed
  have solver_eq := (find_of_no_matrix hs hc hm hp hcause number elapsed).2
  intro found after
  generalize hpool : s.solver.pooledBlocks cs = pool at solver_eq
  have prepared : found.solver.prepare = .ok pool := by
    rw [← hs.prepare_pooled hp (hpool ▸ Solver.perm_pooledBlocks hcs)]
    rw [solver_eq]
    exact Solver.prepare_congr rfl rfl rfl
  have cause : skipCause? found.solver.settings pool = none := by
    rw [solver_eq, ← hpool]
    exact Solver.skipCause?_pooledBlocks hcs hcause
  have rulings : List.Forall₂ Ruling.Pooled (s.solver.rulings cs) (found.solver.rulings pool) := by
    rw [solver_eq, ← hpool]
    exact Solver.forall₂_rulings_pooled hcs
  have pooled : found.solver.pooledBlocks pool = pool := by
    rw [solver_eq, ← hpool]
    exact Solver.pooledBlocks_pooledBlocks hcs
  have number' : ∀ r ∈ found.solver.rulings pool, r.decision.matrixNumber = none :=
    (forall_mem_iff_of_forall₂ rulings fun _ _ _ h => by rw [h.matrixNumber_eq]).mp number
  have unnumbered :
      ((found.solver.rulings pool).map Ruling.decision).map Decision.unnumbered =
        ((s.solver.rulings cs).map Ruling.decision).map Decision.unnumbered := by
    rw [List.map_map, List.map_map, ← List.forall₂_eq_eq_eq, List.forall₂_map_left_iff,
      List.forall₂_map_right_iff]
    exact .flip (rulings.imp fun _ _ h => h.unnumbered_eq)
  obtain ⟨outcome_eq, solver_eq'⟩ := find_of_no_matrix (s := found) hfound
    (by rw [solver_eq]; exact hc) (by rw [solver_eq]; exact hm) prepared cause number' elapsed'
  rw [Ruling.report_eq_of_unnumbered cs.length pool.length unnumbered] at outcome_eq
  refine ⟨_, outcome_eq, rfl, hnone, unnumbered, rfl, rfl, ?_⟩
  rw [solver_eq', pooled, solver_eq]

/-- Under these settings no block of the sample is small enough. -/
def strictSample : Session := sample.configure { thresholds := { maxColumns := 2 } }

theorem find_after_fruitless_sample :
    strictSample.solver.Reachable ∧ strictSample.solver.consistent = true ∧
      strictSample.solver.matrices = [] ∧
      ∃ report, (strictSample.find .zero).2 = .ok report ∧ report.skipped = none ∧
        report.matrixCount = 0 ∧ report.unusedCount = 3 ∧
        let found := (strictSample.find .zero).1
        let after := found.find .zero
        ∃ again : Report, after.2 = .ok again ∧ again.skipped = none ∧ again.matrixCount = 0 ∧
          again.decisions.map Decision.unnumbered = report.decisions.map Decision.unnumbered ∧
          again.unusedCount = report.unusedCount ∧
          again.tooFewRowsCount = report.tooFewRowsCount ∧
          after.1.solver = { found.solver with cancelled := after.1.solver.cancelled } := by
  have hr : strictSample.solver.Reachable := reachable_sample.perform (.configure _)
  have h : ((strictSample.find .zero).2.toOption.any fun report =>
      decide (report.skipped = none ∧ report.matrixCount = 0 ∧ report.unusedCount = 3)) = true := by
    decide +kernel
  obtain ⟨report, hok, h⟩ := Checked.exists_eq_ok h
  obtain ⟨hskip, hnone, hunused⟩ := of_decide_eq_true h
  exact ⟨hr, consistent_sample, matrices_sample, report, hok, hskip, hnone, hunused,
    find_after_fruitless hr consistent_sample matrices_sample hok hskip hnone .zero⟩

end Session

end ParityBlocks
