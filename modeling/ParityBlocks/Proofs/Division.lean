import Mathlib.Data.List.Pairwise
import ParityBlocks.Proofs.Outcome

/-!
# Division into blocks

`Ruling.Divides cs rs` says that `rs` are rulings on the blocks of `cs`, one on
each in the order of competition. From it follows what becomes of the
constraints: their meaning (`Divides.forall_holds_iff`), that none gets lost
(`Divides.perm`), that matrices and the pool share no variable
(`Divides.pairwise_columns`, `Divides.not_mem_columns`) and that a matrix is one
block (`Divides.chained_rows`).

A search of a well-formed solver that looks for blocks divides the prepared
constraints (`Solver.WellFormed.divides`) and never faults on the way
(`Solver.WellFormed.not_faulty`).
-/

namespace ParityBlocks

theorem Constraint.Chained.map {cs : List Constraint} {c d : Constraint} (h : Chained cs c d)
    {f : Constraint → Constraint} (hf : ∀ c, (f c).vars = c.vars) :
    Chained (cs.map f) (f c) (f d) := by
  refine Relation.ReflTransGen.lift f (fun x y hxy => ?_) c d h
  obtain ⟨hy, v, hvx, hvy⟩ := hxy
  refine ⟨List.mem_map_of_mem hy, v, ?_, ?_⟩
  · rwa [hf]
  · rwa [hf]

theorem Matrix.mem_columns_ofRows {number : Nat} {rows : List Constraint} {v : Var} :
    v ∈ (ofRows number rows).columns ↔ ∃ c ∈ rows, v ∈ c.vars := by
  rw [ofRows, Ascending.mem_ofList, List.mem_flatMap]

theorem Matrix.exists_mem_rows_ofRows {number : Nat} {rows : List Constraint} {v : Var} :
    (∃ c ∈ (ofRows number rows).rows, v ∈ c.vars) ↔ ∃ c ∈ rows, v ∈ c.vars := by
  simp [ofRows]

namespace Ruling

theorem matrix?_eq_some {r : Ruling} {m : Matrix} :
    r.matrix? = some m ↔ ∃ k, r.decision.matrixNumber = some k ∧ .ofRows k r.rows = m :=
  Option.map_eq_some_iff

/-- A constraint that goes back is a row of a ruling without a matrix. -/
theorem exists_of_mem_returned {rs : List Ruling} {c : Constraint} (h : c ∈ rs.flatMap returned) :
    ∃ r ∈ rs, r.decision.matrixNumber = none ∧ ∃ d ∈ r.rows, c = { d with placement := .inPool } := by
  obtain ⟨r, hr, hc⟩ := List.mem_flatMap.mp h
  rw [returned] at hc
  split at hc
  · cases hc
  · rename_i hn
    obtain ⟨d, hd, rfl⟩ := List.mem_map.mp hc
    exact ⟨r, hr, hn, d, hd, rfl⟩

/-- The rulings are on rows that share no variable. -/
def Apart (r r' : Ruling) : Prop := ∀ c ∈ r.rows, ∀ d ∈ r'.rows, ¬ c.Touches d

instance : Std.Symm Apart where
  symm _ _ h c hc d hd := fun ⟨v, hvc, hvd⟩ => h d hd c hc ⟨v, hvd, hvc⟩

/-- The rulings are on the blocks of `cs`, in the order of competition. -/
structure Divides (cs : List Constraint) (rs : List Ruling) : Prop where
  blocks : Blocks cs (rs.map rows)
  isOf : ∀ r ∈ rs, r.decision.shape.IsOf r.rows
  ordered : rs.Pairwise fun r r' => r.decision.shape.priority r'.decision.shape = .lt
  numbered : Numbered 0 rs

namespace Divides

variable {cs : List Constraint} {rs : List Ruling}

/-- The constraints with variables are in the matrices or go back to the pool,
each once and with nothing changed but its placement. -/
theorem perm (h : Divides cs rs) :
    (((rs.filterMap matrix?).flatMap Matrix.rows ++ rs.flatMap returned).map
      Constraint.unplaced).Perm ((cs.filter fun c => !c.isTrivial).map Constraint.unplaced) := by
  have blocks := h.blocks.perm
  rw [← List.flatMap_def] at blocks
  exact (perm_unplaced rs).trans (blocks.map _)

/-- Constraints hold if the pool and all rows of matrices do, and only then. -/
theorem forall_holds_iff (h : Divides cs rs) (hcs : ∀ c ∈ cs, c.isAbsurd = false) (a : Var → Bool) :
    (∀ c ∈ cs, c.Holds a) ↔ (∀ c ∈ rs.flatMap returned, c.Holds a) ∧
      ∀ m ∈ rs.filterMap matrix?, ∀ c ∈ m.rows, c.Holds a := by
  have unplaced : ∀ ds : List Constraint,
      (∀ c ∈ ds, c.Holds a) ↔ ∀ c ∈ ds.map Constraint.unplaced, c.Holds a := by
    intro ds
    rw [List.forall_mem_map]
    rfl
  have trivial : (∀ c ∈ cs, c.Holds a) ↔ ∀ c ∈ cs.filter fun c => !c.isTrivial, c.Holds a := by
    constructor
    · exact fun hall c hc => hall c (List.mem_of_mem_filter hc)
    · intro hall c hc
      cases ht : c.isTrivial with
      | true => exact c.holds_of_isTrivial ht (hcs c hc) a
      | false => exact hall c (List.mem_filter.mpr ⟨hc, by rw [ht]; rfl⟩)
  have same : (∀ c ∈ (rs.filterMap matrix?).flatMap Matrix.rows ++ rs.flatMap returned, c.Holds a) ↔
      ∀ c ∈ cs.filter fun c => !c.isTrivial, c.Holds a := by
    rw [unplaced, unplaced (cs.filter _)]
    exact forall_congr' fun c => by rw [h.perm.mem_iff]
  rw [trivial, ← same, List.forall_mem_append, List.forall_mem_flatMap, and_comm]

theorem separate (h : Divides cs rs) : rs.Pairwise Apart := by
  have separate := h.blocks.separate
  rwa [List.pairwise_map] at separate

/-- Different matrices share no column. -/
theorem pairwise_columns (h : Divides cs rs) :
    (rs.filterMap matrix?).Pairwise fun m m' => ∀ v ∈ m.columns, v ∉ m'.columns := by
  refine List.Pairwise.filterMap _ (fun r r' hsep m hm m' hm' v hv hv' => ?_) h.separate
  obtain ⟨k, -, rfl⟩ := matrix?_eq_some.mp hm
  obtain ⟨k', -, rfl⟩ := matrix?_eq_some.mp hm'
  obtain ⟨c, hc, hvc⟩ := Matrix.mem_columns_ofRows.mp hv
  obtain ⟨d, hd, hvd⟩ := Matrix.mem_columns_ofRows.mp hv'
  exact hsep c hc d hd ⟨v, hvc, hvd⟩

/-- The columns of a matrix are the variables of its rows. -/
theorem mem_columns_iff {m : Matrix} (hm : m ∈ rs.filterMap matrix?) (v : Var) :
    v ∈ m.columns ↔ ∃ c ∈ m.rows, v ∈ c.vars := by
  obtain ⟨r, -, hm⟩ := List.mem_filterMap.mp hm
  obtain ⟨k, -, rfl⟩ := matrix?_eq_some.mp hm
  rw [Matrix.mem_columns_ofRows, Matrix.exists_mem_rows_ofRows]

/-- No variable of the pool is a column of a matrix. -/
theorem not_mem_columns (h : Divides cs rs) {c : Constraint} (hc : c ∈ rs.flatMap returned)
    {m : Matrix} (hm : m ∈ rs.filterMap matrix?) {v : Var} (hv : v ∈ c.vars) : v ∉ m.columns := by
  intro hcol
  obtain ⟨r, hr, hm⟩ := List.mem_filterMap.mp hm
  obtain ⟨k, hk, rfl⟩ := matrix?_eq_some.mp hm
  obtain ⟨r', hr', hn, d, hd, rfl⟩ := exists_of_mem_returned hc
  obtain ⟨e, he, hve⟩ := Matrix.mem_columns_ofRows.mp hcol
  have hne : r ≠ r' := by
    rintro rfl
    rw [hk] at hn
    cases hn
  exact h.separate.forall hr hr' hne e he d hd ⟨v, hve, hv⟩

/-- The rows of a matrix hang together. -/
theorem chained_rows (h : Divides cs rs) {m : Matrix} (hm : m ∈ rs.filterMap matrix?)
    {c d : Constraint} (hc : c ∈ m.rows) (hd : d ∈ m.rows) : Constraint.Chained m.rows c d := by
  obtain ⟨r, hr, hm⟩ := List.mem_filterMap.mp hm
  obtain ⟨k, -, rfl⟩ := matrix?_eq_some.mp hm
  obtain ⟨c', hc', rfl⟩ := List.mem_map.mp hc
  obtain ⟨d', hd', rfl⟩ := List.mem_map.mp hd
  exact (h.blocks.chained _ (List.mem_map_of_mem hr) c' hc' d' hd').map fun _ => rfl

end Divides

end Ruling

/-! ## Searches that divide -/

/-- Ruling in turn on assessed components that are blocks in the order of
competition is ruling on the blocks. -/
theorem Ruling.divides_ofAssessed {cs : List Constraint} {assessed : List Assessed}
    {components : List Component} (hmap : assessed.map Assessed.component = components)
    (blocks : Blocks cs (components.map Component.rows))
    (ordered : components.Pairwise fun b b' => b.shape.priority b'.shape = .lt)
    (isOf : ∀ b ∈ components, b.shape.IsOf b.rows) (policy : Policy) :
    Divides cs (ofAssessed policy 0 assessed) := by
  subst hmap
  have hrows : ∀ a ∈ assessed, a.component.shape.rows ≠ 0 := by
    intro a ha
    have hb : a.component ∈ assessed.map Assessed.component := List.mem_map_of_mem ha
    obtain ⟨members, -, -, hshape⟩ := isOf _ hb
    rw [hshape]
    exact List.length_eq_zero_iff.not.mpr (blocks.ne_nil _ (List.mem_map_of_mem hb))
  have same := map_ofAssessed policy 0 hrows
  refine ⟨?_, ?_, ?_, numbered_ofAssessed policy 0 assessed⟩
  · have := congrArg (List.map Prod.snd) same
    rw [List.map_map, List.map_map] at this
    rw [List.map_map] at blocks
    exact this ▸ blocks
  · have : ∀ x ∈ (ofAssessed policy 0 assessed).map fun r => (r.decision.shape, r.rows),
        x.1.IsOf x.2 := by
      rw [same]
      intro x hx
      obtain ⟨a, ha, rfl⟩ := List.mem_map.mp hx
      exact isOf _ (List.mem_map_of_mem ha)
    exact fun r hr => this _ (List.mem_map_of_mem hr)
  · have : ((ofAssessed policy 0 assessed).map fun r => (r.decision.shape, r.rows)).Pairwise
        fun x y => x.1.priority y.1 = .lt := by
      rw [List.pairwise_map] at ordered
      rw [same, List.pairwise_map]
      exact ordered
    rwa [List.pairwise_map] at this

/-- The components of constraints over the variables of a solver are their blocks. -/
theorem Solver.exists_components {s : Solver} {cs : List Constraint}
    (hn : Partition.entryBytes * s.varCount ≤ tableBytes)
    (hcs : ∀ c ∈ cs, ∀ v ∈ c.vars, v < s.varCount) :
    ∃ components, s.components cs = .ok components ∧
      Blocks cs (components.map Component.rows) ∧
      (components.Pairwise fun b b' => b.shape.priority b'.shape = .lt) ∧
      (∀ b ∈ components, b.shape.IsOf b.rows) ∧
      ∀ b ∈ components, ∀ v ∈ b.members, v < s.varCount := by
  obtain ⟨p, hp, hrep, hsize⟩ := Partition.exists_ofConstraints hcs
  obtain ⟨components, hcomp, h⟩ := Component.exists_ofPartition hrep
  rw [← Partition.build_eq hn] at hp
  exact ⟨components, Checked.bind_eq_ok.mpr ⟨p, hp, hcomp⟩, hsize ▸ h⟩

/-- A solver with clear flags finds the blocks of constraints over its variables, and
assesses them all. -/
theorem Solver.exists_divides {s : Solver} {cs : List Constraint}
    (hn : Partition.entryBytes * s.varCount ≤ tableBytes)
    (hf : s.flags = Array.replicate s.varCount false)
    (hcs : ∀ c ∈ cs, ∀ v ∈ c.vars, v < s.varCount) :
    ∃ components assessed, s.components cs = .ok components ∧
      assess s.samplingSet components s.flags = (.ok assessed, s.flags) ∧
      Ruling.Divides cs (Ruling.ofAssessed s.policy 0 assessed) := by
  obtain ⟨components, hcomp, blocks, ordered, isOf, hlt⟩ := exists_components hn hcs
  obtain ⟨assessed, hassess⟩ := exists_assess s.samplingSet hlt
  rw [← hf] at hassess
  exact ⟨components, assessed, hcomp, hassess,
    Ruling.divides_ofAssessed (map_component_of_assess hassess) blocks ordered isOf s.policy⟩

namespace Solver.WellFormed

variable {s : Solver} {cs : List Constraint}

/-- There is room for a table of the components of a well-formed solver's variables. -/
theorem fits (hs : s.WellFormed) : Partition.entryBytes * s.varCount ≤ tableBytes := by
  have hlt := hs.varCount_lt
  simp only [Var.modulus, Partition.entryBytes, tableBytes] at hlt ⊢
  omega

theorem exists_divides (hs : s.WellFormed) (hcs : ∀ c ∈ cs, ∀ v ∈ c.vars, v < s.varCount) :
    ∃ components assessed, s.components cs = .ok components ∧
      assess s.samplingSet components s.flags = (.ok assessed, s.flags) ∧
      Ruling.Divides cs (Ruling.ofAssessed s.policy 0 assessed) :=
  Solver.exists_divides hs.fits hs.flags hcs

/-- The prepared constraints are divided, and all flags come back. -/
theorem divides (hs : s.WellFormed) (hp : s.prepare = .ok cs) {components : List Component}
    {assessed : List Assessed} {flags : Array Bool} (hcomp : s.components cs = .ok components)
    (hassess : assess s.samplingSet components s.flags = (.ok assessed, flags)) :
    flags = s.flags ∧ Ruling.Divides cs (Ruling.ofAssessed s.policy 0 assessed) := by
  obtain ⟨components', assessed', hcomp', hassess', hdiv⟩ :=
    hs.exists_divides (Solver.lt_of_prepare hp)
  rw [hcomp] at hcomp'
  cases hcomp'
  rw [hassess] at hassess'
  cases hassess'
  exact ⟨rfl, hdiv⟩

/-- Looking for blocks among prepared constraints does not fault. -/
theorem not_faulty (hs : s.WellFormed) (hp : s.prepare = .ok cs) {fault : Fault}
    {flags : Array Bool} :
    ¬ (s.components cs = .error fault ∧ flags = s.flags ∨ ∃ components,
      s.components cs = .ok components ∧
        assess s.samplingSet components s.flags = (.error fault, flags)) := by
  obtain ⟨components', assessed, hcomp', hassess', -⟩ :=
    hs.exists_divides (Solver.lt_of_prepare hp)
  rintro (⟨hcomp, -⟩ | ⟨components, hcomp, hassess⟩)
  · rw [hcomp] at hcomp'
    cases hcomp'
  · rw [hcomp] at hcomp'
    cases hcomp'
    rw [hassess] at hassess'
    cases hassess'

end Solver.WellFormed

end ParityBlocks
