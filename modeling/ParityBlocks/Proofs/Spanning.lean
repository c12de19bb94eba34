import Mathlib.Data.Finset.Card
import Mathlib.Data.Finset.Dedup
import ParityBlocks.Proofs.Bookkeeping
import ParityBlocks.Proofs.Normal
import ParityBlocks.Proofs.Rounding

/-!
# The shapes of blocks

A block is held together by the variables that its rows share, and that bounds the number of its
variables from above. Its rows can be taken one by one so that each one touches those before it
(`Constraint.exists_touches`, by induction on a chain that leads out of them), and then every row
but the first brings at least one variable that is there already. So rows and variables together
are at most one more than the lengths of all rows (`Constraint.card_varSet_add_length_le`, by
induction on the rows that are left).

With that, the shape of a component is known to be that of a block with rows and variables
(`Shape.IsOf.measures`): what its density is divided by is not 0, the density is above 0 and at
most 1, and no policy rejects it for having no rows. `Session.find_measures_components` says so of
all partitions, and of what a search goes through.
-/

namespace ParityBlocks

/-! ## Variables and lengths of rows -/

namespace Constraint

/-- The lengths of all constraints together. -/
def totalLength (cs : List Constraint) : Nat := cs.foldr (fun c n => c.vars.length + n) 0

/-- The different variables of constraints. -/
def varSet (cs : List Constraint) : Finset Var := (cs.flatMap vars).toFinset

variable {c : Constraint} {cs cs' : List Constraint} {v : Var}

theorem mem_varSet : v ∈ varSet cs ↔ ∃ c ∈ cs, v ∈ c.vars := by
  rw [varSet, List.mem_toFinset, List.mem_flatMap]

theorem varSet_cons (c : Constraint) (cs : List Constraint) :
    varSet (c :: cs) = c.vars.toFinset ∪ varSet cs := by
  rw [varSet, List.flatMap_cons, List.toFinset_append]
  rfl

theorem totalLength_perm (h : cs.Perm cs') : totalLength cs = totalLength cs' :=
  h.foldr_eq' (fun c _ d _ n => Nat.add_left_comm d.vars.length c.vars.length n) 0

theorem varSet_perm (h : cs.Perm cs') : varSet cs = varSet cs' := by
  ext v
  rw [mem_varSet, mem_varSet]
  exact exists_congr fun c => and_congr_left' h.mem_iff

/-- A constraint that shares a variable brings at least one less than it has. -/
theorem card_varSet_cons_lt (hv : v ∈ c.vars) (h : v ∈ varSet cs) :
    (varSet (c :: cs)).card < (varSet cs).card + c.vars.length := by
  have hsub : varSet (c :: cs) ⊆ c.vars.toFinset.erase v ∪ varSet cs := by
    intro w hw
    rw [varSet_cons, Finset.mem_union] at hw
    rw [Finset.mem_union, Finset.mem_erase]
    by_cases hwv : w = v
    · exact .inr (hwv ▸ h)
    · exact hw.imp_left fun hw => ⟨hwv, hw⟩
  have hcard := (Finset.card_le_card hsub).trans (Finset.card_union_le _ _)
  have herase := Finset.card_erase_lt_of_mem (List.mem_toFinset.mpr hv)
  have hdistinct := c.vars.toFinset_card_le
  omega

/-! ## Taking connected rows one by one -/

/-- Where rows are taken from connected ones and others are left, one that is left touches one
that was taken. -/
theorem exists_touches {rows taken left : List Constraint} (hperm : rows.Perm (taken ++ left))
    (htaken : taken ≠ []) (hleft : left ≠ []) (hvars : ∀ c ∈ rows, c.vars ≠ [])
    (hchained : ∀ c ∈ rows, ∀ d ∈ rows, Chained rows c d) :
    ∃ d ∈ left, ∃ c ∈ taken, c.Touches d := by
  obtain ⟨c, hc⟩ := List.exists_mem_of_ne_nil _ htaken
  obtain ⟨d, hd⟩ := List.exists_mem_of_ne_nil _ hleft
  have hdrows : d ∈ rows := hperm.mem_iff.mpr (List.mem_append_right _ hd)
  have chain := hchained c (hperm.mem_iff.mpr (List.mem_append_left _ hc)) d hdrows
  -- As long as the chain has not left what was taken, it goes on from there.
  have reached : ∀ e, Chained rows c e → e ∈ taken ∨ ∃ d ∈ left, ∃ c ∈ taken, c.Touches d := by
    intro e he
    induction he with
    | refl => exact .inl hc
    | tail _ hstep ih =>
      obtain ⟨hrow, htouches⟩ := hstep
      obtain hin | found := ih
      · exact (List.mem_append.mp (hperm.mem_iff.mp hrow)).imp_right fun hout =>
          ⟨_, hout, _, hin, htouches⟩
      · exact .inr found
  obtain hin | found := reached d chain
  · -- The same constraint was taken and is left once more.
    obtain ⟨v, hv⟩ := List.exists_mem_of_ne_nil _ (hvars d hdrows)
    exact ⟨d, hd, d, hin, v, hv, hv⟩
  · exact found

/-- Connected rows have at most as many variables as if each one but the first brought all its
variables but one. -/
theorem card_varSet_add_length_le {rows : List Constraint} (hne : rows ≠ [])
    (hvars : ∀ c ∈ rows, c.vars ≠ [])
    (hchained : ∀ c ∈ rows, ∀ d ∈ rows, Chained rows c d) :
    (varSet rows).card + rows.length ≤ totalLength rows + 1 := by
  -- `taken` rows for which it holds are extended by one of those left that touches them.
  have extend : ∀ n taken left, left.length = n → rows.Perm (taken ++ left) → taken ≠ [] →
      (varSet taken).card + taken.length ≤ totalLength taken + 1 →
      (varSet rows).card + rows.length ≤ totalLength rows + 1 := by
    intro n
    induction n with
    | zero =>
      intro taken left hlen hperm _ hbound
      rw [List.length_eq_zero_iff.mp hlen, List.append_nil] at hperm
      rwa [varSet_perm hperm, hperm.length_eq, totalLength_perm hperm]
    | succ n ih =>
      intro taken left hlen hperm htaken hbound
      have hleft : left ≠ [] := List.ne_nil_of_length_eq_add_one hlen
      obtain ⟨d, hd, c, hc, v, hvc, hvd⟩ := exists_touches hperm htaken hleft hvars hchained
      refine ih (d :: taken) (left.erase d) ?_ ?_ (List.cons_ne_nil d taken) ?_
      · rw [List.length_erase_of_mem hd, hlen, Nat.add_sub_cancel]
      · refine hperm.trans ?_
        exact ((List.perm_cons_erase hd).append_left taken).trans List.perm_middle
      · have hcard := card_varSet_cons_lt hvd (mem_varSet.mpr ⟨c, hc, hvc⟩)
        rw [List.length_cons]
        show _ ≤ d.vars.length + totalLength taken + 1
        omega
  obtain ⟨c, rest, rfl⟩ := List.exists_cons_of_ne_nil hne
  refine extend rest.length [c] rest rfl (.refl _) (List.cons_ne_nil c []) ?_
  have hdistinct := c.vars.toFinset_card_le
  simpa [varSet, totalLength] using hdistinct

/-- No row is longer than there are variables. -/
theorem totalLength_le {rows : List Constraint} (hnodup : ∀ c ∈ rows, c.vars.Nodup)
    {members : List Var} (h : ∀ c ∈ rows, ∀ v ∈ c.vars, v ∈ members) :
    totalLength rows ≤ rows.length * members.length := by
  induction rows with
  | nil => exact Nat.zero_le _
  | cons c rows ih =>
    obtain ⟨hc, hnodup⟩ := List.forall_mem_cons.mp hnodup
    obtain ⟨hmem, h⟩ := List.forall_mem_cons.mp h
    have hlen := (hc.subperm hmem).length_le
    have hrest := ih hnodup h
    rw [List.length_cons, Nat.succ_mul]
    show c.vars.length + totalLength rows ≤ _
    omega

end Constraint

/-! ## Shapes -/

/-- The shape is that of a block with these rows, and its density is a proper one. -/
structure Shape.Measures (s : Shape) (rows : List Constraint) : Prop where
  rows_eq : s.rows = rows.length
  cols_eq : s.cols = (Constraint.varSet rows).card
  columns_eq : ∀ number, (Matrix.ofRows number rows).columns.length = s.cols
  sizeSum_eq : s.sizeSum = Constraint.totalLength rows
  rows_pos : 1 ≤ s.rows
  spanned : s.cols + s.rows - 1 ≤ s.sizeSum
  filled : s.sizeSum ≤ s.rows * s.cols
  /-- The density is the quotient of the filled cells and all cells, not of 0 and 0. -/
  density_eq : s.density = .quotient s.sizeSum s.area
  area_pos : 0 < s.area
  divisor_pos : 0 < (Binary64.ofNat s.area).units
  sizeSum_pos : 0 < s.sizeSum
  isPart : s.density.IsPart

theorem Shape.IsOf.measures {s : Shape} {rows : List Constraint} (h : s.IsOf rows)
    (hne : rows ≠ []) (hvars : ∀ c ∈ rows, c.vars ≠ []) (hnodup : ∀ c ∈ rows, c.vars.Nodup)
    (hchained : ∀ c ∈ rows, ∀ d ∈ rows, Constraint.Chained rows c d) : s.Measures rows := by
  have columns_eq := h.length_columns
  have rows_eq := h.rows_eq
  obtain ⟨members, nodup, mem_iff, hs⟩ := h
  have hcols : s.cols = members.length := by rw [hs]; rfl
  have hsize : s.sizeSum = Constraint.totalLength rows := by rw [hs]; rfl
  have cols_eq : s.cols = (Constraint.varSet rows).card := by
    rw [hcols, ← List.toFinset_card_of_nodup nodup]
    congr 1
    ext v
    rw [List.mem_toFinset, Constraint.mem_varSet, mem_iff]
  have spanned := Constraint.card_varSet_add_length_le hne hvars hchained
  have filled := Constraint.totalLength_le hnodup fun c hc v hv => (mem_iff v).mpr ⟨c, hc, hv⟩
  rw [← cols_eq, ← rows_eq, ← hsize] at spanned
  rw [← hcols, ← rows_eq, ← hsize] at filled
  have rows_pos : 0 < s.rows := by
    rw [rows_eq]
    exact List.length_pos_of_ne_nil hne
  have cols_pos : 0 < s.cols := by
    obtain ⟨c, hc⟩ := List.exists_mem_of_ne_nil _ hne
    obtain ⟨v, hv⟩ := List.exists_mem_of_ne_nil _ (hvars c hc)
    rw [hcols]
    exact List.length_pos_of_mem ((mem_iff v).mpr ⟨c, hc, hv⟩)
  have area_pos : 0 < s.area := Nat.mul_pos rows_pos cols_pos
  have sizeSum_pos : 0 < s.sizeSum := by omega
  have density_eq : s.density = .quotient s.sizeSum s.area := by
    rw [hs] at area_pos ⊢
    exact if_pos area_pos
  exact {
    rows_eq, cols_eq, columns_eq, sizeSum_eq := hsize, rows_pos, spanned := by omega, filled,
    density_eq, area_pos, sizeSum_pos
    divisor_pos := Nat.lt_of_lt_of_le (by decide) (Binary64.unitsOfOne_le_units_ofNat area_pos)
    isPart := density_eq ▸ Binary64.isPart_quotient sizeSum_pos filled }

theorem Blocks.mem_of_mem {cs : List Constraint} {blocks : List (List Constraint)}
    (h : Blocks cs blocks) {b : List Constraint} (hb : b ∈ blocks) {c : Constraint} (hc : c ∈ b) :
    c ∈ cs ∧ c.vars ≠ [] := by
  have hmem := h.perm.mem_iff.mp (List.mem_flatten_of_mem hb hc)
  rw [List.mem_filter, Bool.not_eq_true'] at hmem
  exact ⟨hmem.1, Constraint.isTrivial_eq_false.mp hmem.2⟩

/-- The components of constraints whose variables are all different measure their rows. -/
theorem Component.measures_of_blocks {cs : List Constraint} {components : List Component}
    (blocks : Blocks cs (components.map Component.rows))
    (isOf : ∀ b ∈ components, b.shape.IsOf b.rows) (hnodup : ∀ c ∈ cs, c.vars.Nodup) :
    ∀ b ∈ components, b.shape.Measures b.rows := by
  intro b hb
  have hrows : b.rows ∈ components.map Component.rows := List.mem_map_of_mem hb
  have hmem := fun c => blocks.mem_of_mem (c := c) hrows
  exact (isOf b hb).measures (blocks.ne_nil _ hrows) (fun c hc => (hmem c hc).2)
    (fun c hc => hnodup c (hmem c hc).1) (blocks.chained _ hrows)

/-- Such a component is never rejected for having no rows. -/
theorem Shape.Measures.decide_ne_noRows {s : Shape} {rows : List Constraint} (h : s.Measures rows)
    (policy : Policy) {c : Candidate} (hc : c.shape = s) :
    policy.decide c ≠ .rejected .noRows :=
  policy.decide_ne_noRows (hc ▸ Nat.ne_of_gt h.rows_pos)

/-! ## Searches -/

namespace Session

/-- The components of a complete partition have the shapes of blocks: as many rows as
constraints, at least one; as many columns as variables, and as a matrix of these rows; and as
many filled cells as the rows are long, not more than there are cells and at least rows and
columns together less one. So the density is a quotient above 0 and at most 1, and no policy finds
a component without rows. In a search, whatever it made of its constraints before, each component
therefore has a decision, and none is that there are no rows. -/
theorem find_measures_components :
    (∀ (varCount : Nat) (cs : List Constraint), (∀ c ∈ cs, ∀ v ∈ c.vars, v < varCount) →
      (∀ c ∈ cs, c.vars.Nodup) →
      ∃ p components, Partition.ofConstraints varCount cs = .ok p ∧
        Component.ofPartition p cs = .ok components ∧
        Blocks cs (components.map Component.rows) ∧
        ∀ b ∈ components, b.shape.Measures b.rows ∧
          ∀ (policy : Policy) (candidate : Candidate), candidate.shape = b.shape →
            policy.decide candidate ≠ .rejected .noRows) ∧
    ∀ (s : Session) (elapsed : Duration) (report : Report), s.solver.Reachable →
      (s.find elapsed).2 = .ok report → report.skipped = none →
      ∃ cs components, s.solver.prepare = .ok cs ∧ s.solver.components cs = .ok components ∧
        (∀ b ∈ components, b.shape.Measures b.rows) ∧
        report.decisions.map Decision.shape = components.map Component.shape ∧
        ∀ d ∈ report.decisions, d.verdict ≠ .rejected .noRows := by
  refine ⟨fun varCount cs hlt hnodup => ?_, fun s elapsed report hr hok hskip => ?_⟩
  · obtain ⟨p, hp, rep, -⟩ := Partition.exists_ofConstraints hlt
    obtain ⟨components, hcomponents, blocks, -, isOf, -⟩ := Component.exists_ofPartition rep
    refine ⟨p, components, hp, hcomponents, blocks, fun b hb => ?_⟩
    have measures := Component.measures_of_blocks blocks isOf hnodup b hb
    exact ⟨measures, fun policy _ => measures.decide_ne_noRows policy⟩
  · have hs := hr.wellFormed
    obtain ⟨hc, hm⟩ := ready_of_find_eq_ok hok
    obtain ⟨cs, hp, -, rfl, -⟩ := exists_rulings_of_find hs hc hm hok hskip
    have hlt := Solver.lt_of_prepare hp
    obtain ⟨components, hcomponents, blocks, -, isOf, -⟩ := Solver.exists_components hs.fits hlt
    obtain rfl : s.solver.ranked cs = components :=
      Except.ok.inj ((hs.components_eq hp).symm.trans hcomponents)
    obtain ⟨shapes, verdicts⟩ :=
      Ruling.decisions_ofAssessed s.solver.policy
        (Solver.rows_ne_zero_of_mem_assessed hlt) 0
    refine ⟨cs, _, hp, hcomponents,
      Component.measures_of_blocks blocks isOf (hs.nodup_of_prepare hp), ?_, verdicts⟩
    refine shapes.trans ?_
    rw [Solver.assessed, List.map_map]
    rfl

/-- Three rows of four variables, two of them the same, and a row of one variable. -/
def spanned : List Constraint :=
  [{ vars := [0, 1], rhs := true }, { vars := [4], rhs := true }, { vars := [1, 2, 3], rhs := false },
    { vars := [], rhs := false }, { vars := [0, 1], rhs := true }]

/-- The three rows share two variables, and one of these once more. -/
theorem find_measures_components_sample :
    (∀ c ∈ spanned, ∀ v ∈ c.vars, v < 5) ∧ (∀ c ∈ spanned, c.vars.Nodup) ∧
      (∃ p components, Partition.ofConstraints 5 spanned = .ok p ∧
        Component.ofPartition p spanned = .ok components ∧
        components.map (fun b => (b.shape.rows, b.shape.cols, b.shape.sizeSum)) =
          [(3, 4, 7), (1, 1, 1)] ∧
        ∀ b ∈ components, b.shape.Measures b.rows) ∧
      sample.solver.Reachable ∧
      ∃ report cs components, (sample.find .zero).2 = .ok report ∧ report.skipped = none ∧
        sample.solver.prepare = .ok cs ∧ sample.solver.components cs = .ok components ∧
        (∀ b ∈ components, b.shape.Measures b.rows) ∧
        report.decisions.map Decision.shape = components.map Component.shape ∧
        ∀ d ∈ report.decisions, d.verdict ≠ .rejected .noRows := by
  obtain ⟨partitions, searches⟩ := find_measures_components
  have hlt : ∀ c ∈ spanned, ∀ v ∈ c.vars, v < 5 := by decide
  have hnodup : ∀ c ∈ spanned, c.vars.Nodup := by decide
  obtain ⟨p, components, hp, hcomponents, -, measures⟩ := partitions 5 spanned hlt hnodup
  have shapes : (((Partition.ofConstraints 5 spanned).bind fun p =>
      Component.ofPartition p spanned).map fun components =>
        components.map fun b => (b.shape.rows, b.shape.cols, b.shape.sizeSum)) =
      .ok [(3, 4, 7), (1, 1, 1)] := by decide +kernel
  rw [hp, Except.bind, hcomponents] at shapes
  obtain ⟨report, hok, hskip, -⟩ := find_sample
  obtain ⟨cs, searched, hprepare, hsearched, measures', hdecisions⟩ :=
    searches sample .zero report reachable_sample hok hskip
  exact ⟨hlt, hnodup, ⟨p, components, hp, hcomponents, Except.ok.inj shapes,
      fun b hb => (measures b hb).1⟩,
    reachable_sample, report, cs, searched, hok, hskip, hprepare, hsearched, measures', hdecisions⟩

end Session

end ParityBlocks
