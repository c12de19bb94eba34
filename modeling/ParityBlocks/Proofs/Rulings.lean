import ParityBlocks.Proofs.Blocks
import ParityBlocks.Search.Ruling

/-!
# What rulings do with rows

Rulings give out the numbers of matrices without a gap (`Numbered`, with
`Numbered.uncons` for one of them at a time), so their matrices are the accepted
blocks in their order (`Numbered.matrices_eq`), and what goes back to the pool
is the rejected blocks one after the other (`Numbered.pool_eq`). No row gets lost
or doubled on the way, and a row changes in its placement only (`perm_unplaced`).

`ofAssessed` rules on every component that has rows, in turn (`map_ofAssessed`,
`numbered_ofAssessed`), so where all have rows there is a decision on each of them
(`decisions_ofAssessed`).
-/

namespace ParityBlocks

/-- The constraint as it was before a search placed it. -/
def Constraint.unplaced (c : Constraint) : Constraint := { c with placement := .undecided }

/-- A component with rows is never rejected for having none. -/
theorem Policy.decide_ne_noRows (p : Policy) {c : Candidate} (h : c.shape.rows ≠ 0) :
    p.decide c ≠ .rejected .noRows := by
  intro hd
  rw [decide] at hd
  cases hf : rules.findSome? fun rule => rule p c with
  | none =>
    rw [hf] at hd
    cases hd
  | some verdict =>
    rw [hf, Option.getD_some] at hd
    obtain ⟨rule, hmem, hrule⟩ := List.exists_of_findSome?_eq_some hf
    rw [hd] at hrule
    simp only [rules, List.mem_cons, List.not_mem_nil, or_false] at hmem
    rcases hmem with rfl | rfl | rfl | rfl | rfl | rfl
    case inr.inl =>
      simp only [samplingRule] at hrule
      split at hrule
      · obtain ⟨ratio, -, hratio⟩ := Option.map_eq_some_iff.mp hrule
        split at hratio <;> cases hratio
      · cases hrule
    all_goals simp [rejectIf, h] at hrule

namespace Ruling

/-- The rows become a matrix. -/
def isAccepted (r : Ruling) : Bool := r.decision.verdict.isAccepted

/-- Those that are accepted, and no others, have the numbers from `k` on. -/
def Numbered : Nat → List Ruling → Prop
  | _, [] => True
  | k, r :: rs =>
    if r.isAccepted then r.decision.matrixNumber = some k ∧ Numbered (k + 1) rs
    else r.decision.matrixNumber = none ∧ Numbered k rs

variable {rs : List Ruling} {k : Nat}

theorem Numbered.cons_accepted {r : Ruling} (ha : r.isAccepted = true)
    (hn : r.decision.matrixNumber = some k) (h : Numbered (k + 1) rs) : Numbered k (r :: rs) := by
  rw [Numbered, if_pos ha]
  exact ⟨hn, h⟩

theorem Numbered.cons_rejected {r : Ruling} (ha : r.isAccepted = false)
    (hn : r.decision.matrixNumber = none) (h : Numbered k rs) : Numbered k (r :: rs) := by
  rw [Numbered, ha, if_neg Bool.false_ne_true]
  exact ⟨hn, h⟩

/-- The first of numbered rulings is accepted and makes the matrix with the next number, or it is
rejected and makes none. -/
theorem Numbered.uncons {r : Ruling} (h : Numbered k (r :: rs)) :
    (r.isAccepted = true ∧ r.decision.matrixNumber = some k ∧
      r.matrix? = some (.ofRows k r.rows) ∧ Numbered (k + 1) rs) ∨
    (r.isAccepted = false ∧ r.decision.matrixNumber = none ∧ r.matrix? = none ∧
      Numbered k rs) := by
  rw [Numbered] at h
  split at h
  · rename_i ha
    exact .inl ⟨ha, h.1, by rw [matrix?, h.1]; rfl, h.2⟩
  · rename_i ha
    exact .inr ⟨Bool.eq_false_of_not_eq_true ha, h.1, by rw [matrix?, h.1]; rfl, h.2⟩

/-- Who is accepted has a number. -/
theorem Numbered.isSome_matrixNumber (h : Numbered k rs) :
    ∀ r ∈ rs, r.decision.matrixNumber.isSome = r.isAccepted := by
  induction rs generalizing k with
  | nil => exact nofun
  | cons r rs ih =>
    obtain ⟨ha, hn, -, h⟩ | ⟨ha, hn, -, h⟩ := h.uncons
    · exact List.forall_mem_cons.mpr ⟨by rw [hn, ha]; rfl, ih h⟩
    · exact List.forall_mem_cons.mpr ⟨by rw [hn, ha]; rfl, ih h⟩

theorem Numbered.matrices_eq (h : Numbered k rs) :
    rs.filterMap matrix? =
      ((rs.filter isAccepted).map rows).mapIdx fun i rows => .ofRows (k + i) rows := by
  induction rs generalizing k with
  | nil => rfl
  | cons r rs ih =>
    obtain ⟨ha, -, hm, h⟩ | ⟨ha, -, hm, h⟩ := h.uncons
    · rw [List.filterMap_cons_some hm, List.filter_cons_of_pos ha, List.map_cons, List.mapIdx_cons,
        ih h]
      simp only [Nat.add_zero, Nat.add_assoc, Nat.add_comm 1]
    · rw [List.filterMap_cons_none hm, List.filter_cons_of_neg (ne_true_of_eq_false ha), ih h]

theorem Numbered.pool_eq (h : Numbered k rs) :
    rs.flatMap returned = ((rs.filter fun r => !r.isAccepted).flatMap rows).map
      fun c => { c with placement := .inPool } := by
  induction rs generalizing k with
  | nil => rfl
  | cons r rs ih =>
    obtain ⟨ha, hn, -, h⟩ | ⟨ha, hn, -, h⟩ := h.uncons
    · rw [List.flatMap_cons, returned, hn, List.filter_cons_of_neg (by simp [ha]), ih h]
      rfl
    · rw [List.flatMap_cons, returned, hn, List.filter_cons_of_pos (by simp [ha]), ih h,
        List.flatMap_cons, List.map_append]

theorem Numbered.matrixCount_eq (h : Numbered k rs) (count : Nat) :
    (report count rs).matrixCount =
      (rs.map fun r => r.decision.verdict).countP Verdict.isAccepted := by
  simp only [report, List.countP_map]
  refine List.countP_congr fun r hr => ?_
  rw [Function.comp, h.isSome_matrixNumber r hr]
  rfl

theorem Numbered.unusedCount_eq (h : Numbered k rs) (count : Nat) :
    (report count rs).unusedCount =
      (rs.map fun r => r.decision.verdict).countP fun verdict => !verdict.isAccepted := by
  simp only [report, List.countP_map]
  refine List.countP_congr fun r hr => ?_
  rw [Function.comp, ← Option.not_isSome, h.isSome_matrixNumber r hr]
  rfl

theorem tooFewRowsCount_eq (count : Nat) (rs : List Ruling) :
    (report count rs).tooFewRowsCount =
      (rs.map fun r => r.decision.verdict).count (.rejected .tooFewRows) := by
  simp only [report, List.count, List.countP_map]
  rfl

/-- All rows are in the matrices or go back, each once and with nothing changed
but its placement. -/
theorem perm_unplaced (rs : List Ruling) :
    (((rs.filterMap matrix?).flatMap Matrix.rows ++ rs.flatMap returned).map
      Constraint.unplaced).Perm ((rs.flatMap rows).map Constraint.unplaced) := by
  induction rs with
  | nil => exact .nil
  | cons r rs ih =>
    cases hn : r.decision.matrixNumber with
    | some number =>
      have hm : r.matrix? = some (.ofRows number r.rows) := by rw [matrix?, hn]; rfl
      have hrows : (Matrix.ofRows number r.rows).rows.map Constraint.unplaced =
          r.rows.map Constraint.unplaced := by
        rw [Matrix.ofRows, List.map_map]
        rfl
      rw [List.filterMap_cons_some hm, List.flatMap_cons, List.flatMap_cons, List.flatMap_cons,
        returned, hn, List.nil_append, List.append_assoc]
      simp only [List.map_append, hrows] at ih ⊢
      exact ih.append_left _
    | none =>
      have hm : r.matrix? = none := by rw [matrix?, hn]; rfl
      have hrows : r.returned.map Constraint.unplaced = r.rows.map Constraint.unplaced := by
        rw [returned, hn, List.map_map]
        rfl
      rw [List.filterMap_cons_none hm, List.flatMap_cons, List.flatMap_cons]
      refine ((List.perm_append_comm_assoc _ _ _).map _).trans ?_
      simp only [List.map_append, hrows] at ih ⊢
      exact ih.append_left _

/-! ## Ruling in turn -/

variable {policy : Policy} {assessed : List Assessed}

theorem map_parts_ofAssessed (policy : Policy) (k : Nat)
    (h : ∀ a ∈ assessed, a.component.shape.rows ≠ 0) :
    (ofAssessed policy k assessed).map (fun r => (r.decision.shape, r.decision.ratio, r.rows)) =
      assessed.map fun a => (a.component.shape, a.ratio, a.component.rows) := by
  induction assessed generalizing k with
  | nil => rfl
  | cons a rest ih =>
    obtain ⟨ha, h⟩ := List.forall_mem_cons.mp h
    have hv := policy.decide_ne_noRows (c := ⟨a.component.shape, a.ratio, k⟩) ha
    simp only [ofAssessed, if_neg hv]
    split
    · rw [List.map_cons, List.map_cons, ih _ h]
    · rw [List.map_cons, List.map_cons, ih _ h]

theorem map_ofAssessed (policy : Policy) (k : Nat)
    (h : ∀ a ∈ assessed, a.component.shape.rows ≠ 0) :
    (ofAssessed policy k assessed).map (fun r => (r.decision.shape, r.rows)) =
      assessed.map fun a => (a.component.shape, a.component.rows) := by
  have parts := congrArg (List.map fun x => (x.1, x.2.2)) (map_parts_ofAssessed policy k h)
  rwa [List.map_map, List.map_map] at parts

theorem exists_of_mem_ofAssessed {r : Ruling} (h : r ∈ ofAssessed policy k assessed) :
    ∃ a ∈ assessed, r.rows = a.component.rows := by
  induction assessed generalizing k with
  | nil => cases h
  | cons a rest ih =>
    have tail : ∀ k, r ∈ ofAssessed policy k rest → ∃ a' ∈ a :: rest, r.rows = a'.component.rows := by
      intro k h
      obtain ⟨a', ha', hrows⟩ := ih h
      exact ⟨a', List.mem_cons_of_mem _ ha', hrows⟩
    simp only [ofAssessed] at h
    split at h
    · exact tail k h
    · split at h
      · obtain rfl | h := List.mem_cons.mp h
        · exact ⟨a, List.mem_cons_self, rfl⟩
        · exact tail (k + 1) h
      · obtain rfl | h := List.mem_cons.mp h
        · exact ⟨a, List.mem_cons_self, rfl⟩
        · exact tail k h

theorem numbered_ofAssessed (policy : Policy) (k : Nat) (assessed : List Assessed) :
    Numbered k (ofAssessed policy k assessed) := by
  induction assessed generalizing k with
  | nil => trivial
  | cons a rest ih =>
    simp only [ofAssessed]
    split
    · exact ih k
    · split
      · rename_i ha
        exact .cons_accepted ha rfl (ih (k + 1))
      · rename_i ha
        exact .cons_rejected (Bool.eq_false_of_not_eq_true ha) rfl (ih k)

/-- The verdict on a component knows how many were accepted before it. -/
theorem verdict_of_ofAssessed (h : ∀ a ∈ assessed, a.component.shape.rows ≠ 0) {k i : Nat}
    {r : Ruling} (hi : (ofAssessed policy k assessed)[i]? = some r) :
    r.decision.verdict = policy.decide ⟨r.decision.shape, r.decision.ratio,
      k + ((ofAssessed policy k assessed).take i).countP isAccepted⟩ := by
  induction assessed generalizing k i with
  | nil => cases hi
  | cons a rest ih =>
    obtain ⟨ha, h⟩ := List.forall_mem_cons.mp h
    have hv := policy.decide_ne_noRows (c := ⟨a.component.shape, a.ratio, k⟩) ha
    simp only [ofAssessed, if_neg hv] at hi ⊢
    split
    · rename_i haccepted
      rw [if_pos haccepted] at hi
      cases i with
      | zero =>
        cases hi
        rfl
      | succ i =>
        rw [ih h hi, List.take_succ_cons, List.countP_cons_of_pos (by exact haccepted)]
        congr 2
        omega
    · rename_i hrejected
      rw [if_neg hrejected] at hi
      cases i with
      | zero =>
        cases hi
        rfl
      | succ i => rw [ih h hi, List.take_succ_cons, List.countP_cons_of_neg (by exact hrejected)]

/-- The decisions of rulings on components with rows are about all of these, in their order, and
none is that there are no rows. -/
theorem decisions_ofAssessed (policy : Policy)
    (h : ∀ a ∈ assessed, a.component.shape.rows ≠ 0) (k : Nat) :
    ((ofAssessed policy k assessed).map decision).map Decision.shape =
        assessed.map (fun a => a.component.shape) ∧
      ∀ d ∈ (ofAssessed policy k assessed).map decision, d.verdict ≠ .rejected .noRows := by
  have parts := map_ofAssessed policy k h
  have shapes : (ofAssessed policy k assessed).map (fun r => r.decision.shape) =
      assessed.map fun a => a.component.shape := by
    have := congrArg (List.map Prod.fst) parts
    rwa [List.map_map, List.map_map] at this
  refine ⟨by rwa [List.map_map], List.forall_mem_map.mpr fun r hr => ?_⟩
  obtain ⟨i, hi, rfl⟩ := List.getElem_of_mem hr
  rw [verdict_of_ofAssessed h (List.getElem?_eq_getElem hi)]
  refine policy.decide_ne_noRows ?_
  have hshape := List.mem_map_of_mem (f := fun (r : Ruling) => r.decision.shape) hr
  rw [shapes] at hshape
  obtain ⟨a, ha, heq⟩ := List.mem_map.mp hshape
  exact heq ▸ h a ha

end Ruling

end ParityBlocks
