import ParityBlocks.Proofs.Reachable

/-!
# What a search guarantees

A search of a reachable solver that is consistent and has no matrices keeps the
meaning of the constraints: the pool says the same as the pool and the matrices
afterwards together, and a contradiction is only reported where there is one. If
blocks were looked for, then no constraint gets lost or doubled on the way into
matrices and back into the pool (`Session.Conserves`), and what is separated is
independent, while what is in one matrix hangs together. All of this is read off
the division of the prepared constraints (`Session.exists_divides_of_find`).
-/

namespace ParityBlocks.Session

open Search

variable {s : Session} {elapsed : Duration}

/-! ## Meaning -/

/-- Assignments that respect values and replacements satisfy the pool if and only
if they satisfy the pool and the matrices after a search; and if the search fails,
then no such assignment satisfies the pool. -/
theorem find_preserves_models (hr : s.solver.Reachable) (hc : s.solver.consistent = true)
    (hm : s.solver.matrices = []) (elapsed : Duration) {a : Var → Bool} (ha : s.solver.Admits a) :
    match (s.find elapsed).2 with
    | .ok _ =>
      (∀ c ∈ s.solver.pool, c.Holds a) ↔
        (∀ c ∈ (s.find elapsed).1.solver.pool, c.Holds a) ∧
          ∀ m ∈ (s.find elapsed).1.solver.matrices, ∀ c ∈ m.rows, c.Holds a
    | .error (.contradiction _) => ¬ ∀ c ∈ s.solver.pool, c.Holds a
    | .error (.fault _) => False := by
  have hs := hr.wellFormed
  have sound := hs.sound_prepare
  have ends := ends_find hc hm elapsed
  generalize (s.find elapsed).1.solver = t at ends ⊢
  generalize (s.find elapsed).2 = outcome at ends ⊢
  cases ends with
  | @unprepared failure prepared =>
    rw [prepared] at sound
    cases failure with
    | contradiction c => exact sound a ha
    | fault f => exact sound
  | skipped prepared skipCause =>
    rw [prepared] at sound
    show _ ↔ _ ∧ ∀ m ∈ s.solver.matrices, _
    rw [hm, sound.2 a ha]
    exact ⟨fun h => ⟨h, nofun⟩, And.left⟩
  | faulted prepared skipCause faulty => exact hs.not_faulty prepared faulty
  | divided prepared skipCause components_eq assess_eq rulings_eq =>
    subst rulings_eq
    rw [prepared] at sound
    obtain ⟨-, hdiv⟩ := hs.divides prepared components_eq assess_eq
    rw [sound.2 a ha]
    exact hdiv.forall_holds_iff (Solver.not_isAbsurd_of_prepare prepared) a

/-- An assignment of the sample that its values and replacements admit. -/
theorem find_preserves_models_sample :
    let a : Var → Bool := fun v => v ∈ [0, 1, 2, 3, 5, 7, 9]
    sample.solver.Reachable ∧ sample.solver.consistent = true ∧ sample.solver.matrices = [] ∧
      sample.solver.Admits a ∧ (∀ c ∈ sample.solver.pool, c.Holds a) ∧
      match (sample.find .zero).2 with
      | .ok _ =>
        (∀ c ∈ sample.solver.pool, c.Holds a) ↔
          (∀ c ∈ (sample.find .zero).1.solver.pool, c.Holds a) ∧
            ∀ m ∈ (sample.find .zero).1.solver.matrices, ∀ c ∈ m.rows, c.Holds a
      | .error (.contradiction _) => ¬ ∀ c ∈ sample.solver.pool, c.Holds a
      | .error (.fault _) => False := by
  have ha : sample.solver.Admits fun v => v ∈ [0, 1, 2, 3, 5, 7, 9] := by decide +kernel
  exact ⟨reachable_sample, consistent_sample, matrices_sample, ha, by decide +kernel,
    find_preserves_models reachable_sample consistent_sample matrices_sample .zero ha⟩

/-! ## Constraints -/

/-- A search that looked for blocks has ruled on those of the prepared constraints. -/
theorem exists_divides_of_find (hr : s.solver.Reachable) (hc : s.solver.consistent = true)
    (hm : s.solver.matrices = []) {report : Report} (hok : (s.find elapsed).2 = .ok report)
    (hskip : report.skipped = none) :
    ∃ (cs : List Constraint) (rulings : List Ruling), s.solver.prepare = .ok cs ∧
      Ruling.Divides cs rulings ∧ report.decisions = rulings.map Ruling.decision ∧
      (s.find elapsed).1.solver.matrices = rulings.filterMap Ruling.matrix? ∧
      (s.find elapsed).1.solver.pool = rulings.flatMap Ruling.returned := by
  have ends := ends_find hc hm elapsed
  generalize (s.find elapsed).1.solver = t at ends ⊢
  rw [hok] at ends
  cases ends with
  | skipped => cases hskip
  | divided prepared skipCause components_eq assess_eq rulings_eq =>
    subst rulings_eq
    obtain ⟨-, hdiv⟩ := hr.wellFormed.divides prepared components_eq assess_eq
    exact ⟨_, _, prepared, hdiv, rfl, rfl, rfl⟩

/-- The matrices and the pool of a solver are what rulings on the blocks of `cs`
make of them. -/
structure Conserves (cs : List Constraint) (rulings : List Ruling) (t : Solver) : Prop where
  divides : Ruling.Divides cs rulings
  /-- The accepted blocks are the matrices, numbered in the order of competition. -/
  matrices_eq :
    t.matrices = ((rulings.filter Ruling.isAccepted).map Ruling.rows).mapIdx Matrix.ofRows
  /-- The pool is the other blocks, one after the other. -/
  pool_eq : t.pool = ((rulings.filter fun r => !r.isAccepted).flatMap Ruling.rows).map
    fun c => { c with placement := .inPool }
  /-- Each constraint with variables is there once, unchanged but for its placement. -/
  perm : ((t.matrices.flatMap Matrix.rows ++ t.pool).map Constraint.unplaced).Perm
    ((cs.filter fun c => !c.isTrivial).map Constraint.unplaced)
  number_eq {k : Nat} {m : Matrix} : t.matrices[k]? = some m → m.number = k
  placement_row {k : Nat} {m : Matrix} {c : Constraint} :
    t.matrices[k]? = some m → c ∈ m.rows → c.placement = .inMatrix k
  placement_pool {c : Constraint} : c ∈ t.pool → c.placement = .inPool

theorem Conserves.of_divides {cs : List Constraint} {rulings : List Ruling} {t : Solver}
    (hdiv : Ruling.Divides cs rulings) (hmat : t.matrices = rulings.filterMap Ruling.matrix?)
    (hpool : t.pool = rulings.flatMap Ruling.returned) : Conserves cs rulings t := by
  have hmatrices := hdiv.numbered.matrices_eq
  have hreturned := hdiv.numbered.pool_eq
  simp only [Nat.zero_add] at hmatrices
  have hrow : ∀ {k : Nat} {m : Matrix}, t.matrices[k]? = some m → ∃ rows, m = .ofRows k rows := by
    intro k m hk
    rw [hmat, hmatrices, List.getElem?_mapIdx] at hk
    obtain ⟨rows, -, h⟩ := Option.map_eq_some_iff.mp hk
    exact ⟨rows, h.symm⟩
  refine ⟨hdiv, hmat.trans hmatrices, hpool.trans hreturned, ?_, fun hk => ?_, fun hk hc => ?_,
    fun hc => ?_⟩
  · rw [hmat, hpool]
    exact hdiv.perm
  · obtain ⟨rows, rfl⟩ := hrow hk
    rfl
  · obtain ⟨rows, rfl⟩ := hrow hk
    obtain ⟨d, -, rfl⟩ := List.mem_map.mp hc
    rfl
  · rw [hpool, hreturned] at hc
    obtain ⟨d, -, rfl⟩ := List.mem_map.mp hc
    rfl

/-- A search that looked for blocks conserves the constraints that cleaning and
combining left of the pool. -/
theorem find_conserves_constraints (hr : s.solver.Reachable) (hc : s.solver.consistent = true)
    (hm : s.solver.matrices = []) {report : Report} (hok : (s.find elapsed).2 = .ok report)
    (hskip : report.skipped = none) :
    ∃ cs rulings, s.solver.prepare = .ok cs ∧ report.decisions = rulings.map Ruling.decision ∧
      Conserves cs rulings (s.find elapsed).1.solver := by
  obtain ⟨cs, rulings, prepared, hdiv, hdec, hmat, hpool⟩ :=
    exists_divides_of_find hr hc hm hok hskip
  exact ⟨cs, rulings, prepared, hdec, .of_divides hdiv hmat hpool⟩

theorem find_conserves_constraints_sample :
    sample.solver.Reachable ∧ sample.solver.consistent = true ∧ sample.solver.matrices = [] ∧
      ∃ report cs rulings, (sample.find .zero).2 = .ok report ∧ report.skipped = none ∧
      sample.solver.prepare = .ok cs ∧ report.decisions = rulings.map Ruling.decision ∧
      Conserves cs rulings (sample.find .zero).1.solver := by
  obtain ⟨report, hok, hskip, -⟩ := find_sample
  obtain ⟨cs, rulings, h⟩ :=
    find_conserves_constraints reachable_sample consistent_sample matrices_sample hok hskip
  exact ⟨reachable_sample, consistent_sample, matrices_sample, report, cs, rulings, hok, hskip, h⟩

/-! ## Blocks -/

/-- What a search separates shares no variable, and the rows of a matrix hang
together. -/
theorem find_separates_blocks (hr : s.solver.Reachable) (hc : s.solver.consistent = true)
    (hm : s.solver.matrices = []) {report : Report} (hok : (s.find elapsed).2 = .ok report)
    (hskip : report.skipped = none) :
    (s.find elapsed).1.solver.matrices.Pairwise (fun m m' => ∀ v ∈ m.columns, v ∉ m'.columns) ∧
      (∀ m ∈ (s.find elapsed).1.solver.matrices, ∀ c ∈ (s.find elapsed).1.solver.pool,
        ∀ v ∈ c.vars, v ∉ m.columns) ∧
      (∀ m ∈ (s.find elapsed).1.solver.matrices, ∀ v, v ∈ m.columns ↔ ∃ c ∈ m.rows, v ∈ c.vars) ∧
      ∀ m ∈ (s.find elapsed).1.solver.matrices, ∀ c ∈ m.rows, ∀ d ∈ m.rows,
        Constraint.Chained m.rows c d := by
  obtain ⟨cs, rulings, -, hdiv, -, hmat, hpool⟩ := exists_divides_of_find hr hc hm hok hskip
  rw [hmat, hpool]
  exact ⟨hdiv.pairwise_columns, fun m hm c hc v hv => hdiv.not_mem_columns hc hm hv,
    fun m hm v => Ruling.Divides.mem_columns_iff hm v,
    fun m hm c hc d hd => hdiv.chained_rows hm hc hd⟩

theorem find_separates_blocks_sample :
    let t := (sample.find .zero).1.solver
    sample.solver.Reachable ∧ sample.solver.consistent = true ∧ sample.solver.matrices = [] ∧
      (∃ report, (sample.find .zero).2 = .ok report ∧ report.skipped = none) ∧
      t.matrices.Pairwise (fun m m' => ∀ v ∈ m.columns, v ∉ m'.columns) ∧
      (∀ m ∈ t.matrices, ∀ c ∈ t.pool, ∀ v ∈ c.vars, v ∉ m.columns) ∧
      (∀ m ∈ t.matrices, ∀ v, v ∈ m.columns ↔ ∃ c ∈ m.rows, v ∈ c.vars) ∧
      ∀ m ∈ t.matrices, ∀ c ∈ m.rows, ∀ d ∈ m.rows, Constraint.Chained m.rows c d := by
  obtain ⟨report, hok, hskip, -⟩ := find_sample
  exact ⟨reachable_sample, consistent_sample, matrices_sample, ⟨report, hok, hskip⟩,
    find_separates_blocks reachable_sample consistent_sample matrices_sample hok hskip⟩

end ParityBlocks.Session
