import Mathlib.Data.Finset.Basic
import ParityBlocks.Proofs.Account
import ParityBlocks.Proofs.Normal
import ParityBlocks.Proofs.Reachable

/-!
# Contradictions that a search sees

What a constraint is reduced to is a function of what stands for its variables
(`Solver.reduced`): the variables without a value that stand for an odd number of them
(`Solver.support`), and the parity with the values of the others added
(`Solver.balance`). A search of a well-formed solver fails exactly if one of the pool's
constraints is reduced to `0 = 1`, or two to opposite ones (`Solver.Clashes`,
`Solver.WellFormed.prepare_eq_ok_iff_folded`), and then it leaves all but the pool and the mark
of consistency as it is (`Session.find_fails_iff_clashes`).

A value counts for what stands for a variable only, so constraints whose variables all
have values are decided by a search as long as these values are shared
(`Solver.SharesValues`), but not otherwise (`Session.find_decides_valued_iff`).
-/

namespace ParityBlocks

namespace Solver

variable {s : Solver} {c d : Constraint}

/-! ## Reductions -/

/-- The inner variable that stands for `v`. -/
def standIn (s : Solver) (v : Var) : Var := (s.numbering.replacementOf v).toOption.getD v

/-- The value of a variable, where no value counts as false. -/
def known (s : Solver) (v : Var) : Bool := (s.value v).getD false

/-- What stands for the variables of the constraint, each as often as it does. -/
def standIns (s : Solver) (c : Constraint) : List Var := c.vars.map s.standIn

/-- The variables without a value that stand for an odd number of the constraint's. -/
def support (s : Solver) (c : Constraint) : Finset Var :=
  (s.standIns c).toFinset.filter fun w => s.value w = none ∧ (s.standIns c).count w % 2 = 1

/-- The parity, with the values of what stands for the variables added. -/
def balance (s : Solver) (c : Constraint) : Bool := c.rhs ^^ parity s.known (s.standIns c)

/-- What the constraint is reduced to. -/
def reduced (s : Solver) (c : Constraint) : Constraint :=
  { c with
    vars := Ascending.oddOf ((s.standIns c).filter fun w => (s.value w).isNone)
    rhs := s.balance c }

theorem foldl_known (s : Solver) (ws : List Var) (r : Bool) :
    (ws.filterMap s.value).foldl (· ^^ ·) r = (r ^^ parity s.known ws) := by
  induction ws generalizing r with
  | nil => rw [parity_nil, Bool.xor_false]; rfl
  | cons w ws ih =>
    rw [parity_cons, known]
    cases h : s.value w with
    | none => rw [List.filterMap_cons_none h, ih, Option.getD_none, Bool.false_xor]
    | some b =>
      rw [List.filterMap_cons_some h, List.foldl_cons, ih, Option.getD_some, Bool.xor_assoc]

theorem WellFormed.substitute_eq (hs : s.WellFormed) {v : Var} (hv : v < s.varCount) :
    s.substitute v = .ok (s.standIn v, s.value (s.standIn v)) := by
  obtain ⟨w, hw⟩ := hs.numbering.exists_replacementOf hv
  have hlt : w < s.values.size := hs.numbering.replacementOf_lt hw
  have stands : s.standIn v = w := by rw [standIn, hw]; rfl
  rw [stands]
  refine substitute_eq_ok.mpr ⟨hw, ?_⟩
  rw [value, Array.getElem?_eq_getElem hlt, Option.join_some]

/-- Constraints over the variables of a well-formed solver are reduced to `reduced`. -/
theorem WellFormed.reduce_eq (hs : s.WellFormed) (hc : ∀ v ∈ c.vars, v < s.varCount) :
    s.reduce c = .ok (s.reduced c) := by
  refine reduce_eq_ok.mpr ⟨c.vars.map fun v => (s.standIn v, s.value (s.standIn v)), ?_, ?_⟩
  · rw [List.forall₂_map_right_iff, List.forall₂_same]
    exact fun v hv => hs.substitute_eq (hc v hv)
  · -- only the terms count, and they are those of the constraint on the stand-ins
    have terms := remainder_map { c with vars := s.standIns c } s.value
    rw [standIns, List.map_map] at terms
    rw [reduced, balance, ← foldl_known]
    exact terms.symm

theorem mem_vars_reduced {v : Var} : v ∈ (s.reduced c).vars ↔ v ∈ s.support c := by
  rw [reduced, Ascending.mem_oddOf, support, Finset.mem_filter, List.mem_toFinset]
  cases hv : (s.value v).isNone with
  | true =>
    rw [List.count_filter (by exact hv), and_iff_right (Option.isNone_iff_eq_none.mp hv)]
    exact (and_iff_right_of_imp fun h => List.count_pos_iff.mp (by omega)).symm
  | false =>
    have hne : s.value v ≠ none := fun h => by rw [h] at hv; cases hv
    have none : v ∉ (s.standIns c).filter fun w => (s.value w).isNone := fun h => by
      rw [List.mem_filter, hv] at h
      cases h.2
    rw [List.count_eq_zero.mpr none]
    simp [hne]

/-- Reductions have the same variables if they have the same support. -/
theorem vars_reduced_eq_iff : (s.reduced c).vars = (s.reduced d).vars ↔ s.support c = s.support d := by
  constructor
  · intro h
    ext v
    rw [← mem_vars_reduced, h, mem_vars_reduced]
  · intro h
    refine Ascending.eq_of_mem_iff (Ascending.pairwise_oddOf _) (Ascending.pairwise_oddOf _) ?_
    exact fun v => by rw [mem_vars_reduced, mem_vars_reduced, h]

theorem isTrivial_reduced : (s.reduced c).isTrivial = true ↔ s.support c = ∅ := by
  rw [Constraint.isTrivial, List.isEmpty_iff, List.eq_nil_iff_forall_not_mem,
    Finset.eq_empty_iff_forall_notMem]
  exact forall_congr' fun v => not_congr mem_vars_reduced

/-! ## Clashes -/

/-- A constraint of the pool is reduced to `0 = 1`, or two of them have the same variables
left and opposite parities. -/
def Clashes (s : Solver) : Prop :=
  (∃ c ∈ s.pool, s.support c = ∅ ∧ s.balance c = true) ∨
    ∃ c ∈ s.pool, ∃ d ∈ s.pool,
      s.support c = s.support d ∧ s.support c ≠ ∅ ∧ s.balance c ≠ s.balance d

theorem isAbsurd_reduced :
    (s.reduced c).isAbsurd = true ↔ s.support c = ∅ ∧ s.balance c = true := by
  rw [Constraint.isAbsurd, Bool.and_eq_true, isTrivial_reduced]
  rfl

theorem agree_reduced {pool : List Constraint} :
    Agree (pool.map s.reduced) ↔ ∀ c ∈ pool, ∀ d ∈ pool,
      s.support c ≠ ∅ → s.support c = s.support d → s.balance c = s.balance d := by
  simp only [Agree, List.forall_mem_map, vars_reduced_eq_iff, ← isTrivial_reduced, ne_eq,
    Bool.not_eq_true]
  rfl

theorem not_clashes_iff :
    ¬ s.Clashes ↔ (∀ c ∈ s.pool, (s.reduced c).isAbsurd = false) ∧ Agree (s.pool.map s.reduced) := by
  simp only [Clashes, not_or, not_exists, not_and, agree_reduced, ← Bool.not_eq_true,
    isAbsurd_reduced, ne_eq, not_not]
  exact and_congr_right fun _ => ⟨fun h c hc d hd hne he => h c hc d hd he hne,
    fun h c hc d hd he hne => h c hc d hd hne he⟩

/-- What constraints over the variables of the solver are reduced to, if none is `0 = 1` then. -/
theorem WellFormed.forall₂_reduce_iff (hs : s.WellFormed) {cs cleaned : List Constraint}
    (hcs : ∀ c ∈ cs, ∀ v ∈ c.vars, v < s.varCount) :
    List.Forall₂ (fun c c' => s.reduce c = .ok c' ∧ c'.isAbsurd = false) cs cleaned ↔
      cleaned = cs.map s.reduced ∧ ∀ c ∈ cs, (s.reduced c).isAbsurd = false := by
  have reduced : cs.mapM s.reduce = .ok (cs.map s.reduced) := by
    rw [Checked.mapM_eq_ok, List.forall₂_map_right_iff, List.forall₂_same]
    exact fun c hc => hs.reduce_eq (hcs c hc)
  constructor
  · intro h
    have same : cs.mapM s.reduce = .ok cleaned := Checked.mapM_eq_ok.mpr (h.imp fun _ _ => And.left)
    obtain rfl := Except.ok.inj (reduced.symm.trans same)
    refine ⟨rfl, ?_⟩
    rw [List.forall₂_map_right_iff, List.forall₂_same] at h
    exact fun c hc => (h c hc).2
  · rintro ⟨rfl, h⟩
    rw [List.forall₂_map_right_iff, List.forall₂_same]
    exact fun c hc => ⟨hs.reduce_eq (hcs c hc), h c hc⟩

/-- Preparing comes to a result if nothing clashes, and then to the reductions with those
cancelled that repeat the variables of an earlier one. -/
theorem WellFormed.prepare_eq_ok_iff_folded (hs : s.WellFormed) {cs : List Constraint} :
    s.prepare = .ok cs ↔ ¬ s.Clashes ∧ cs = folded [] (s.pool.map s.reduced) := by
  simp only [prepare_eq_ok_iff, hs.forall₂_reduce_iff hs.pool, not_clashes_iff]
  constructor
  · rintro ⟨_, ⟨rfl, h⟩, hagree, rfl⟩
    exact ⟨⟨h, hagree⟩, rfl⟩
  · rintro ⟨⟨h, hagree⟩, rfl⟩
    exact ⟨_, ⟨rfl, h⟩, hagree, rfl⟩

/-! ## Values -/

/-- Every variable of the constraint has a value. -/
def Valued (s : Solver) (c : Constraint) : Prop := ∀ v ∈ c.vars, (s.value v).isSome = true

instance (s : Solver) (c : Constraint) : Decidable (s.Valued c) :=
  inferInstanceAs (Decidable (∀ v ∈ c.vars, _))

/-- What stands for a variable with a value has the same value. -/
def SharesValues (s : Solver) : Prop :=
  ∀ v, (s.value v).isSome = true → s.value (s.standIn v) = s.value v

/-- The reduction of a constraint whose variables have values that what stands for them
shares: no variables, and `0 = 0` or `0 = 1` as the values satisfy it or not. -/
theorem support_eq_empty_of_shared (hc : s.Valued c)
    (hshared : ∀ v ∈ c.vars, s.value (s.standIn v) = s.value v) :
    s.support c = ∅ ∧ (s.balance c = true ↔ ¬ c.Holds s.known) := by
  constructor
  · rw [Finset.eq_empty_iff_forall_notMem]
    intro w hw
    obtain ⟨hmem, hnone, -⟩ := Finset.mem_filter.mp hw
    obtain ⟨v, hv, rfl⟩ := List.mem_map.mp (List.mem_toFinset.mp hmem)
    rw [hshared v hv] at hnone
    have := hc v hv
    rw [hnone] at this
    cases this
  · have same : parity s.known (s.standIns c) = parity s.known c.vars := by
      rw [standIns, parity, parity, List.foldr_map]
      refine List.foldr_ext _ _ _ fun v hv p => ?_
      rw [known, known, hshared v hv]
    rw [balance, same, Constraint.Holds]
    cases c.rhs <;> cases parity s.known c.vars <;> decide

/-- Where a value is not shared, the opposite value of the variable clashes with nothing. -/
theorem not_clashes_single {v : Var} {b : Bool} (hv : s.value v = some b)
    (hne : s.value (s.standIn v) ≠ s.value v) :
    ¬ ({ s with pool := [⟨[v], !b, [], .undecided⟩] } : Solver).Clashes := by
  rintro (⟨c, hc, hempty, hrhs⟩ | ⟨c, hc, d, hd, -, -, hrhs⟩)
  · obtain rfl := List.mem_singleton.mp hc
    cases hw : s.value (s.standIn v) with
    | none =>
      -- what stands for the variable is left
      refine absurd hempty (Finset.ne_empty_of_mem (a := s.standIn v) ?_)
      refine Finset.mem_filter.mpr ⟨List.mem_toFinset.mpr List.mem_cons_self, hw, ?_⟩
      exact congrArg (· % 2) List.count_cons_self
    | some b' =>
      have opposite : b' = !b := by
        rw [hv, hw] at hne
        cases b <;> cases b' <;> first | rfl | exact absurd rfl hne
      have balanced : (!b ^^ (s.known (s.standIn v) ^^ false)) = true := hrhs
      rw [known, hw, opposite, Option.getD_some, Bool.xor_false, Bool.xor_self] at balanced
      cases balanced
  · obtain rfl := List.mem_singleton.mp hc
    obtain rfl := List.mem_singleton.mp hd
    exact hrhs rfl

/-- The constraints with variables that are in the matrices or in the pool. -/
def survivors (s : Solver) : List Constraint :=
  (s.matrices.flatMap Matrix.rows ++ s.pool).filter fun c => !c.isTrivial

end Solver

/-- Combining leaves each constraint as it is, or cancels it. -/
theorem combinesTo_folded (before : List (List Var)) (cs : List Constraint) :
    List.Forall₂ Constraint.CombinesTo cs (folded before cs) := by
  induction cs generalizing before with
  | nil => exact .nil
  | cons c cs ih =>
    refine .cons ?_ (ih _)
    split
    · exact .inr rfl
    · exact .inl rfl

/-! ## Searches -/

namespace Session

open Search

variable {s : Session} {elapsed : Duration}

/-- A search in which constraints of the pool clash fails, and leaves all but the pool and
the mark of consistency as it is. -/
theorem find_of_clashes (hs : s.solver.WellFormed) (hc : s.solver.consistent = true)
    (hm : s.solver.matrices = []) (h : s.solver.Clashes) (elapsed : Duration) :
    ∃ c, (s.find elapsed).2 = .error (.contradiction c) ∧
      (s.find elapsed).1.solver = { s.solver with pool := [], consistent := false } := by
  cases hp : s.solver.prepare with
  | ok cs => exact absurd h (hs.prepare_eq_ok_iff_folded.mp hp).1
  | error failure => exact find_of_prepare_error hs hc hm hp elapsed

/-- A search in which none clash comes to a report. -/
theorem exists_report_of_not_clashes (hs : s.solver.WellFormed) (hc : s.solver.consistent = true)
    (hm : s.solver.matrices = []) (h : ¬ s.solver.Clashes) (elapsed : Duration) :
    ∃ report, (s.find elapsed).2 = .ok report :=
  ⟨_, (find_of_prepare hs hc hm (hs.prepare_eq_ok_iff_folded.mpr ⟨h, rfl⟩) elapsed).outcome_eq⟩

/-- A search fails if and only if constraints of the pool clash. The failure is a
contradiction, and it leaves the pool empty, the solver inconsistent and all else as it was. -/
theorem find_fails_iff_clashes (hr : s.solver.Reachable) (hc : s.solver.consistent = true)
    (hm : s.solver.matrices = []) (elapsed : Duration) :
    ((∃ failure, (s.find elapsed).2 = .error failure) ↔ s.solver.Clashes) ∧
      ∀ failure, (s.find elapsed).2 = .error failure →
        (∃ c, failure = .contradiction c) ∧
          (s.find elapsed).1.solver = { s.solver with pool := [], consistent := false } := by
  have hs := hr.wellFormed
  by_cases h : s.solver.Clashes
  · obtain ⟨c, houtcome, hsolver⟩ := find_of_clashes hs hc hm h elapsed
    refine ⟨⟨fun _ => h, fun _ => ⟨_, houtcome⟩⟩, fun failure hf => ?_⟩
    rw [houtcome] at hf
    cases hf
    exact ⟨⟨c, rfl⟩, hsolver⟩
  · obtain ⟨report, hok⟩ := exists_report_of_not_clashes hs hc hm h elapsed
    have none : ∀ failure, (s.find elapsed).2 ≠ .error failure := fun failure hf => by
      rw [hok] at hf
      cases hf
    exact ⟨⟨fun ⟨failure, hf⟩ => absurd hf (none failure), fun h' => absurd h' h⟩,
      fun failure hf => absurd hf (none failure)⟩

/-- A session whose constraints clash: two of them are reduced to opposite ones, with a
replacement and a value. -/
def clashing : Session where
  solver :=
    [.replace 1 0, .assign 7 true, .add [5, 6] true, .add [1, 2, 7] true, .add [3, 0, 2, 3] true].foldl
      Solver.perform (.new 8 {})

theorem find_fails_iff_clashes_sample :
    clashing.solver.Reachable ∧ clashing.solver.consistent = true ∧ clashing.solver.matrices = [] ∧
      (∃ failure, (clashing.find .zero).2 = .error failure) ∧ clashing.solver.Clashes ∧
      (clashing.find .zero).1.solver = { clashing.solver with pool := [], consistent := false } := by
  have hr : clashing.solver.Reachable := Solver.Reachable.foldl (.new {} (by decide)) _
  have hc : clashing.solver.consistent = true := by decide +kernel
  have hm : clashing.solver.matrices = [] := by decide +kernel
  have h : (clashing.find .zero).2.toOption = none := by decide +kernel
  obtain ⟨iff, kept⟩ := find_fails_iff_clashes hr hc hm .zero
  cases hf : (clashing.find .zero).2 with
  | ok report =>
    rw [hf] at h
    cases h
  | error failure =>
    exact ⟨hr, hc, hm, ⟨failure, rfl⟩, iff.mp ⟨failure, hf⟩, (kept failure hf).2⟩

/-! ## What is left of a constraint -/

/-- `cs` are what a search leaves of the constraints of the pool, each in its place: the
reduction, or the reduction cancelled. If the search comes to a report then the matrices and
the pool have those with variables, each once and with nothing changed but its placement. -/
structure Leaves (s : Session) (elapsed : Duration) (cs : List Constraint) : Prop where
  combines : List.Forall₂ (fun c c' => (s.solver.reduced c).CombinesTo c') s.solver.pool cs
  perm {report : Report} : (s.find elapsed).2 = .ok report →
    ((s.find elapsed).1.solver.survivors.map Constraint.unplaced).Perm
      ((cs.filter fun c => !c.isTrivial).map Constraint.unplaced)
  none_of_failure {failure : Failure} : (s.find elapsed).2 = .error failure →
    (s.find elapsed).1.solver.survivors = []

theorem exists_leaves (hs : s.solver.WellFormed)
    (hc : s.solver.consistent = true) (hm : s.solver.matrices = []) (elapsed : Duration) :
    s.Leaves elapsed (folded [] (s.solver.pool.map s.solver.reduced)) := by
  have combines := combinesTo_folded [] (s.solver.pool.map s.solver.reduced)
  rw [List.forall₂_map_left_iff] at combines
  have ends := concludes_find hs hc hm elapsed
  generalize ht : (s.find elapsed).1.solver = t at ends
  generalize ho : (s.find elapsed).2 = outcome at ends
  cases ends with
  | contradicted prepared =>
    refine ⟨combines, fun h => ?_, fun _ => ?_⟩
    · rw [ho] at h
      cases h
    · rw [ht, Solver.survivors]
      show (s.solver.matrices.flatMap Matrix.rows ++ []).filter _ = []
      rw [hm]
      rfl
  | skipped prepared skipCause =>
    obtain ⟨-, rfl⟩ := hs.prepare_eq_ok_iff_folded.mp prepared
    refine ⟨combines, fun _ => ?_, fun h => ?_⟩
    · rw [ht, Solver.survivors]
      show (((s.solver.matrices.flatMap Matrix.rows ++ _).filter _).map _).Perm _
      rw [hm]
      exact .refl _
    · rw [ho] at h
      cases h
  | divided prepared skipCause components_eq assess_eq rulings_eq divides =>
    obtain ⟨-, rfl⟩ := hs.prepare_eq_ok_iff_folded.mp prepared
    refine ⟨combines, fun _ => ?_, fun h => ?_⟩
    · have same : ((fun c : Constraint => !c.isTrivial) ∘ Constraint.unplaced) =
        fun c => !c.isTrivial := rfl
      have perm := divides.perm.filter fun c => !c.isTrivial
      simp only [List.filter_map, List.filter_filter, same, Bool.and_self] at perm
      rw [ht]
      exact perm
    · rw [ho] at h
      cases h

/-- What becomes of the constraint at a place of the pool is decided by the values: the
search fails if they do not satisfy it, and otherwise nothing of it is left. -/
structure Decides (s : Session) (elapsed : Duration) (i : Nat) (c : Constraint) : Prop where
  violated : ¬ c.Holds s.solver.known → ∃ why, (s.find elapsed).2 = .error (.contradiction why)
  satisfied : c.Holds s.solver.known →
    ∃ cs, s.Leaves elapsed cs ∧ ∀ c', cs[i]? = some c' → c'.vars = []

/-- A constraint whose variables have values that what stands for them shares is decided. -/
theorem decides_of_shared (hs : s.solver.WellFormed) (hc : s.solver.consistent = true)
    (hm : s.solver.matrices = []) (elapsed : Duration) {i : Nat} {c : Constraint}
    (hi : s.solver.pool[i]? = some c) (hv : s.solver.Valued c)
    (hshared : ∀ v ∈ c.vars, s.solver.value (s.solver.standIn v) = s.solver.value v) :
    s.Decides elapsed i c := by
  obtain ⟨hempty, hbalance⟩ := Solver.support_eq_empty_of_shared hv hshared
  constructor
  · intro hviolated
    have clashes : s.solver.Clashes :=
      .inl ⟨c, List.mem_of_getElem? hi, hempty, hbalance.mpr hviolated⟩
    obtain ⟨why, h, -⟩ := find_of_clashes hs hc hm clashes elapsed
    exact ⟨why, h⟩
  · intro _
    have leaves := exists_leaves hs hc hm elapsed
    refine ⟨_, leaves, fun c' hc' => ?_⟩
    have hnil : (s.solver.reduced c).vars = [] :=
      List.isEmpty_iff.mp (Solver.isTrivial_reduced.mpr hempty)
    obtain ⟨hlt, hci⟩ := List.getElem?_eq_some_iff.mp hi
    obtain ⟨hlt', hci'⟩ := List.getElem?_eq_some_iff.mp hc'
    have combines := leaves.combines.get hlt hlt'
    rw [List.get_eq_getElem, List.get_eq_getElem, hci, hci'] at combines
    obtain rfl | rfl := combines
    · exact hnil
    · rfl

/-- The session with other constraints in the pool. -/
def withPool (s : Session) (pool : List Constraint) : Session :=
  { s with solver := { s.solver with pool := pool } }

/-- Constraints whose variables all have values are decided if what stands for their variables
has the same values. For all pools they are decided exactly if this is so for all variables that
have values. -/
theorem find_decides_valued_iff (hr : s.solver.Reachable) (hc : s.solver.consistent = true)
    (hm : s.solver.matrices = []) (elapsed : Duration) :
    (∀ i c, s.solver.pool[i]? = some c → s.solver.Valued c →
      (∀ v ∈ c.vars, s.solver.value (s.solver.standIn v) = s.solver.value v) →
        s.Decides elapsed i c) ∧
      ((∀ pool : List Constraint, (∀ c ∈ pool, s.solver.knows c = true) →
        ∀ i c, pool[i]? = some c → s.solver.Valued c → (s.withPool pool).Decides elapsed i c) ↔
          s.solver.SharesValues) := by
  have hs := hr.wellFormed
  have wellFormed : ∀ {pool : List Constraint}, (∀ c ∈ pool, s.solver.knows c = true) →
      (s.withPool pool).solver.WellFormed := fun {pool} hpool =>
    hs.congr rfl hs.numbering rfl fun c hc v hv =>
      of_decide_eq_true (List.all_eq_true.mp (hpool c hc) v hv)
  refine ⟨fun i c => decides_of_shared hs hc hm elapsed, ⟨fun h v hv => ?_, fun h => ?_⟩⟩
  · -- if the value is not shared, a search misses that the variable cannot have the opposite one
    by_contra hne
    obtain ⟨b, hb⟩ := Option.isSome_iff_exists.mp hv
    have hlt : v < s.solver.varCount :=
      (Array.getElem?_eq_some_iff.mp (Option.join_eq_some_iff.mp hb)).1
    have hpool : ∀ c ∈ [(⟨[v], !b, [], .undecided⟩ : Constraint)], s.solver.knows c = true := by
      simpa [Solver.knows] using hlt
    have valued : s.solver.Valued ⟨[v], !b, [], .undecided⟩ :=
      List.forall_mem_singleton.mpr hv
    have violated : ¬ Constraint.Holds s.solver.known ⟨[v], !b, [], .undecided⟩ := by
      rw [Constraint.Holds, parity_cons, parity_nil, Bool.xor_false, Solver.known, hb,
        Option.getD_some]
      exact Bool.self_ne_not b
    obtain ⟨why, failed⟩ := (h _ hpool 0 _ rfl valued).violated violated
    obtain ⟨report, hok⟩ := exists_report_of_not_clashes (wellFormed hpool) hc hm
      (Solver.not_clashes_single hb hne) elapsed
    rw [failed] at hok
    cases hok
  · intro pool hpool i c hi hv
    exact decides_of_shared (wellFormed hpool) hc hm elapsed hi hv fun v hv' => h v (hv v hv')

/-- A session with a constraint whose variables have values, one of them shared by what
stands for it, and with another constraint. -/
def valued : Session where
  solver :=
    [.assign 0 true, .assign 1 true, .replace 0 1, .assign 2 false, .add [3, 4] true,
      .add [0, 2] true].foldl Solver.perform (.new 5 {})

theorem find_decides_valued_iff_sample :
    valued.solver.Reachable ∧ valued.solver.consistent = true ∧ valued.solver.matrices = [] ∧
      ∃ c, valued.solver.pool[1]? = some c ∧ valued.solver.Valued c ∧ c.Holds valued.solver.known ∧
        valued.Decides .zero 1 c := by
  have hr : valued.solver.Reachable := Solver.Reachable.foldl (.new {} (by decide)) _
  have hc : valued.solver.consistent = true := by decide +kernel
  have hm : valued.solver.matrices = [] := by decide +kernel
  have hi : valued.solver.pool[1]? = some ⟨[0, 2], true, [], .undecided⟩ := by decide +kernel
  have hv : valued.solver.Valued ⟨[0, 2], true, [], .undecided⟩ := by decide +kernel
  have hshared : ∀ v ∈ [0, 2], valued.solver.value (valued.solver.standIn v) = valued.solver.value v := by
    decide +kernel
  exact ⟨hr, hc, hm, _, hi, hv, by decide +kernel,
    (find_decides_valued_iff hr hc hm .zero).1 1 _ hi hv hshared⟩

/-- The value of a variable is overlooked where it is replaced by one without a value. -/
theorem find_overlooks_value :
    let s : Session := { solver :=
      [.assign 0 true, .replace 0 1, .add [0] false].foldl Solver.perform (.new 2 {}) }
    s.solver.Reachable ∧ s.solver.consistent = true ∧ s.solver.matrices = [] ∧
      ∃ c ∈ s.solver.pool, s.solver.Valued c ∧ ¬ c.Holds s.solver.known ∧
        ∃ report, (s.find .zero).2 = .ok report := by
  intro s
  have hr : s.solver.Reachable := Solver.Reachable.foldl (.new {} (by decide)) _
  have h : ((s.find .zero).2.toOption.any fun _ => true) = true := by decide +kernel
  obtain ⟨report, hok, -⟩ := Checked.exists_eq_ok h
  exact ⟨hr, by decide +kernel, by decide +kernel, ⟨[0], false, [], .undecided⟩, by decide +kernel,
    by decide +kernel, by decide +kernel, report, hok⟩

end Session

end ParityBlocks
