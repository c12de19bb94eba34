import ParityBlocks.Proofs.Account
import ParityBlocks.Proofs.Reachable

/-!
# What a report says is so

A report counts decisions, and the solver holds matrices and a pool. Both come from the same
rulings: accepted ones carry the numbers from 0 on without a gap (`Ruling.Numbered.numbers_eq`),
so that the matrix with a number is the one that its ruling makes
(`Ruling.Numbered.getElem?_matrices`), and its size is the shape that was decided on
(`Shape.IsOf.rows_eq`, `Shape.IsOf.length_columns`). The rows of all decisions are the constraints
with variables (`Ruling.Divides.totalRows_decisions`), and those of the rejected ones the new pool
(`Ruling.Numbered.totalRows_rejected`). So a search reports the truth about the solver that it
leaves (`Session.find_reports_truly`).
-/

namespace ParityBlocks

/-- The rows of all components that were decided on. -/
def Decision.totalRows (ds : List Decision) : Nat := ds.foldr (fun d n => d.shape.rows + n) 0

/-- The component becomes a matrix. -/
def Decision.isAccepted (d : Decision) : Bool := d.verdict.isAccepted

/-- What a report on a search that prepared the constraints `cs` says is so of the solver `s`
before it and the solver `t` that it leaves. -/
structure Report.Accords (r : Report) (cs : List Constraint) (s t : Solver) : Prop where
  matrixCount_eq : r.matrixCount = r.decisions.countP Decision.isAccepted
  length_matrices : t.matrices.length = r.matrixCount
  unusedCount_eq : r.unusedCount = r.decisions.countP fun d => !d.isAccepted
  tooFewRowsCount_eq :
    r.tooFewRowsCount = (r.decisions.map Decision.verdict).count (.rejected .tooFewRows)
  matrixCreated_iff : r.matrixCreated = true ↔ 0 < r.matrixCount
  /-- The accepted components are numbered in order, without a gap. -/
  numbers_eq : (r.decisions.filter Decision.isAccepted).map Decision.matrixNumber =
    (List.range r.matrixCount).map some
  number_of_rejected {d : Decision} : d ∈ r.decisions → d.isAccepted = false → d.matrixNumber = none
  /-- The matrix with the number of a component has its size. -/
  matrix {d : Decision} {k : Nat} : d ∈ r.decisions → d.matrixNumber = some k →
    ∃ m, t.matrices[k]? = some m ∧ m.number = k ∧ m.rows.length = d.shape.rows ∧
      m.columns.length = d.shape.cols
  ordered : r.decisions.Pairwise fun d e => d.shape.priority e.shape = .lt
  totalRows_eq : Decision.totalRows r.decisions = cs.countP fun c => c.vars ≠ []
  totalRows_rejected :
    Decision.totalRows (r.decisions.filter fun d => !d.isAccepted) = t.pool.length
  constraintCount_eq : r.constraintCount = s.pool.length

/-! ## Shapes of blocks -/

namespace Shape.IsOf

variable {s : Shape} {rows : List Constraint}

theorem rows_eq (h : s.IsOf rows) : s.rows = rows.length := by
  obtain ⟨members, -, -, hs⟩ := h
  rw [hs]
  rfl

/-- The variables of the rows are counted alike by a shape and by a matrix. -/
theorem length_columns (h : s.IsOf rows) (number : Nat) :
    (Matrix.ofRows number rows).columns.length = s.cols := by
  obtain ⟨members, nodup, mem_iff, hs⟩ := h
  have perm : (Matrix.ofRows number rows).columns.Perm members := by
    refine (List.perm_ext_iff_of_nodup (Ascending.nodup_ofList _) nodup).mpr fun v => ?_
    exact (@Matrix.mem_columns_ofRows number rows v).trans (mem_iff v).symm
  rw [perm.length_eq, hs]
  rfl

end Shape.IsOf

/-! ## Rulings -/

namespace Ruling

variable {rs : List Ruling} {k : Nat}

theorem Numbered.numbers_eq (h : Numbered k rs) :
    ((rs.filter isAccepted).map fun r => r.decision.matrixNumber) =
      (List.range' k (rs.countP isAccepted)).map some := by
  induction rs generalizing k with
  | nil => rfl
  | cons r rs ih =>
    obtain ⟨ha, hn, -, h⟩ | ⟨ha, -, -, h⟩ := h.uncons
    · rw [List.filter_cons_of_pos ha, List.countP_cons_of_pos ha, List.range'_succ, List.map_cons,
        List.map_cons, hn, ih h]
    · have rejected := ne_true_of_eq_false ha
      rw [List.filter_cons_of_neg rejected, List.countP_cons_of_neg rejected, ih h]

/-- The matrix with a number is the one of the rows that have it. -/
theorem Numbered.getElem?_matrices (h : Numbered k rs) {r : Ruling} (hr : r ∈ rs) {n : Nat}
    (hn : r.decision.matrixNumber = some n) :
    k ≤ n ∧ (rs.filterMap matrix?)[n - k]? = some (.ofRows n r.rows) := by
  induction rs generalizing k with
  | nil => cases hr
  | cons r' rs ih =>
    obtain ⟨-, hk, hm, h⟩ | ⟨-, hnone, hm, h⟩ := h.uncons
    · rw [List.filterMap_cons_some hm]
      rcases List.mem_cons.mp hr with rfl | hr
      · obtain rfl := Option.some.inj (hk.symm.trans hn)
        exact ⟨Nat.le_refl _, by rw [Nat.sub_self]; rfl⟩
      · obtain ⟨hle, hget⟩ := ih h hr
        have next : n - k = n - (k + 1) + 1 := by omega
        exact ⟨by omega, by rw [next, List.getElem?_cons_succ, hget]⟩
    · rw [List.filterMap_cons_none hm]
      rcases List.mem_cons.mp hr with rfl | hr
      · rw [hnone] at hn
        cases hn
      · exact ih h hr

theorem Numbered.length_matrices (h : Numbered k rs) :
    (rs.filterMap matrix?).length = rs.countP isAccepted := by
  rw [h.matrices_eq, List.length_mapIdx, List.length_map, List.countP_eq_length_filter]

/-- The rows that were decided on are the rows of the rulings. -/
theorem totalRows_decisions (h : ∀ r ∈ rs, r.decision.shape.IsOf r.rows) :
    Decision.totalRows (rs.map decision) = (rs.flatMap rows).length := by
  induction rs with
  | nil => rfl
  | cons r rs ih =>
    obtain ⟨hr, h⟩ := List.forall_mem_cons.mp h
    rw [List.flatMap_cons, List.length_append, ← ih h, ← hr.rows_eq]
    rfl

theorem filter_decisions (p : Decision → Bool) (rs : List Ruling) :
    (rs.map decision).filter p = (rs.filter fun r => p r.decision).map decision :=
  List.filter_map

/-- The rows of rejected components are those that go back. -/
theorem Numbered.totalRows_rejected (h : Numbered k rs)
    (isOf : ∀ r ∈ rs, r.decision.shape.IsOf r.rows) :
    Decision.totalRows ((rs.map decision).filter fun d => !d.isAccepted) =
      (rs.flatMap returned).length := by
  rw [filter_decisions, totalRows_decisions fun r hr => isOf r (List.mem_of_mem_filter hr),
    h.pool_eq, List.length_map]
  rfl

theorem Divides.totalRows_decisions {cs : List Constraint} (h : Divides cs rs) :
    Decision.totalRows (rs.map decision) = cs.countP fun c => c.vars ≠ [] := by
  rw [Ruling.totalRows_decisions h.isOf, List.flatMap_def, h.blocks.perm.length_eq,
    ← List.countP_eq_length_filter]
  refine List.countP_congr fun c _ => ?_
  simp [Constraint.isTrivial]

/-- The report on rulings accords with what they leave. -/
theorem Divides.accords {cs : List Constraint} (h : Divides cs rs) {s t : Solver}
    (hlength : cs.length = s.pool.length) (hmatrices : t.matrices = rs.filterMap matrix?)
    (hpool : t.pool = rs.flatMap returned) (elapsed : Duration) :
    Report.Accords { report cs.length rs with elapsed := elapsed } cs s t := by
  have count : (report cs.length rs).matrixCount = rs.countP isAccepted := by
    rw [h.numbered.matrixCount_eq, List.countP_map]
    rfl
  constructor
  case matrixCount_eq =>
    show (report cs.length rs).matrixCount = (rs.map decision).countP Decision.isAccepted
    rw [count, List.countP_map]
    rfl
  case length_matrices => rw [hmatrices, h.numbered.length_matrices, count]
  case unusedCount_eq =>
    show (report cs.length rs).unusedCount = (rs.map decision).countP fun d => !d.isAccepted
    rw [h.numbered.unusedCount_eq, List.countP_map, List.countP_map]
    rfl
  case tooFewRowsCount_eq =>
    rw [tooFewRowsCount_eq]
    exact congrArg _ List.map_map.symm
  case matrixCreated_iff => exact decide_eq_true_iff
  case numbers_eq =>
    have numbers := h.numbered.numbers_eq
    rw [← List.range_eq_range', ← count] at numbers
    rw [← numbers, report, filter_decisions, List.map_map]
    rfl
  case number_of_rejected =>
    intro d hd hrejected
    obtain ⟨r, hr, rfl⟩ := List.mem_map.mp hd
    rw [← Option.not_isSome_iff_eq_none, h.numbered.isSome_matrixNumber r hr]
    exact ne_true_of_eq_false hrejected
  case matrix =>
    intro d k hd hk
    obtain ⟨r, hr, rfl⟩ := List.mem_map.mp hd
    obtain ⟨-, hget⟩ := h.numbered.getElem?_matrices hr hk
    refine ⟨_, hmatrices ▸ hget, rfl, ?_, (h.isOf r hr).length_columns k⟩
    rw [(h.isOf r hr).rows_eq, Matrix.ofRows, List.length_map]
  case ordered => exact List.pairwise_map.mpr h.ordered
  case totalRows_eq => exact h.totalRows_decisions
  case totalRows_rejected => rw [hpool, ← h.numbered.totalRows_rejected h.isOf]; rfl
  case constraintCount_eq => exact hlength

end Ruling

namespace Session

variable {s : Session} {elapsed : Duration}

/-- The report of a search that looked for blocks tells the truth about the solver before the
search and the one after it. -/
theorem find_reports_truly (hr : s.solver.Reachable) (hc : s.solver.consistent = true)
    (hm : s.solver.matrices = []) {report : Report} (hok : (s.find elapsed).2 = .ok report)
    (hskip : report.skipped = none) :
    ∃ cs, s.solver.prepare = .ok cs ∧
      report.Accords cs s.solver (s.find elapsed).1.solver := by
  have hs := hr.wellFormed
  obtain ⟨cs, hp, hcause, rfl, hmatrices⟩ := exists_rulings_of_find hs hc hm hok hskip
  obtain ⟨-, solver_eq⟩ := find_of_divided hs hc hm hp hcause elapsed
  refine ⟨cs, hp, (hs.divides_rulings hp).accords ?_ hmatrices ?_ elapsed⟩
  · exact (Solver.forall₂_of_prepare hp).length_eq.symm
  · rw [solver_eq]

theorem find_reports_truly_sample :
    sample.solver.Reachable ∧ sample.solver.consistent = true ∧ sample.solver.matrices = [] ∧
      ∃ report cs, (sample.find .zero).2 = .ok report ∧ report.skipped = none ∧
      report.matrixCount = 2 ∧ report.unusedCount = 1 ∧ sample.solver.prepare = .ok cs ∧
      report.Accords cs sample.solver (sample.find .zero).1.solver := by
  obtain ⟨report, hok, hskip, htwo, hone⟩ := find_sample
  obtain ⟨cs, hp, accords⟩ :=
    find_reports_truly reachable_sample consistent_sample matrices_sample hok hskip
  exact ⟨reachable_sample, consistent_sample, matrices_sample, report, cs, hok, hskip, htwo, hone,
    hp, accords⟩

end Session

end ParityBlocks
