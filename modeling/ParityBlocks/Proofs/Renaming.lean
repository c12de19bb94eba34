import Mathlib.Data.List.Count
import Mathlib.Data.List.Perm.Basic
import ParityBlocks.Proofs.Account
import ParityBlocks.Proofs.Normal
import ParityBlocks.Proofs.Plain
import ParityBlocks.Proofs.Reachable
import ParityBlocks.Proofs.RenamedBlocks

/-!
# Solvers with renamed variables

Where every variable has one number only (`Numbering.Plain`), it does not matter which
number that is: if the second solver is the first with its variables renamed
(`Solver.Renames`), then both searches find a contradiction, or both have the same report
and make the same matrices, with renamed rows (`Session.find_of_renames`).

Reduced constraints are ascending, so that they repeat each other exactly if the renamed
ones do (`Constraint.Matched`); preparing therefore cancels the same constraints
(`Solver.exists_prepare_of_renames`). From there on the numbers of components and
everything that they are judged by are the same.
-/

namespace ParityBlocks

variable {σ : Equiv.Perm Var}

theorem Renamed.symm {vs ws : List Var} (h : Renamed σ vs ws) : Renamed σ.symm ws vs := by
  have back := (List.Perm.map σ.symm h).symm
  rwa [List.map_map, σ.symm_comp_self, List.map_id] at back

theorem Renamed.ascending_eq_iff {vs ws vs' ws' : List Var} (h : Renamed σ vs ws)
    (h' : Renamed σ vs' ws') (hv : vs.Pairwise (· < ·)) (hw : ws.Pairwise (· < ·))
    (hv' : vs'.Pairwise (· < ·)) (hw' : ws'.Pairwise (· < ·)) : ws = ws' ↔ vs = vs' := by
  constructor
  · rintro rfl
    exact Ascending.eq_of_mem_iff hv hv' fun v => (h.mem_iff v).symm.trans (h'.mem_iff v)
  · rintro rfl
    refine Ascending.eq_of_mem_iff hw hw' fun w => ?_
    obtain ⟨v, rfl⟩ := σ.surjective w
    rw [h.mem_iff, h'.mem_iff]

theorem Renamed.oddOf {vs ws : List Var} (h : Renamed σ vs ws) :
    Renamed σ (Ascending.oddOf vs) (Ascending.oddOf ws) := by
  have nodup : ∀ us : List Var, (Ascending.oddOf us).Nodup := fun us =>
    (Ascending.pairwise_oddOf us).imp Nat.ne_of_lt
  refine .of_nodup (nodup vs) (nodup ws) fun v => ?_
  rw [Ascending.mem_oddOf, Ascending.mem_oddOf, List.Perm.count_eq h,
    List.count_map_of_injective _ _ σ.injective]

theorem Constraint.Renamed.symm {c d : Constraint} (h : c.Renamed σ d) : d.Renamed σ.symm c :=
  ⟨h.vars.symm, h.rhs_eq.symm⟩

/-! ## Renamed solvers -/

namespace Solver

variable {s t : Solver}

/-- The second solver is the first with its variables renamed. -/
structure Renames (σ : Equiv.Perm Var) (s t : Solver) : Prop where
  /-- Only variables of the solver are renamed. -/
  fixed {v : Var} : s.varCount ≤ v → σ v = v
  varCount_eq : t.varCount = s.varCount
  plain : s.numbering.Plain s.varCount
  plain' : t.numbering.Plain t.varCount
  thresholds_eq : t.settings.thresholds = s.settings.thresholds
  sampling_eq : t.settings.sampling = s.settings.sampling.map (List.map σ)
  value_eq (v : Var) : t.value (σ v) = s.value v
  pool : List.Forall₂ (Constraint.Renamed σ) s.pool t.pool

namespace Renames

theorem lt_iff (h : Renames σ s t) (v : Var) : σ v < t.varCount ↔ v < s.varCount := by
  rw [h.varCount_eq]
  by_cases hv : v < s.varCount
  · refine iff_of_true (Nat.lt_of_not_le fun hle => ?_) hv
    rw [σ.injective (h.fixed hle)] at hle
    exact Nat.not_le_of_lt hv hle
  · rw [h.fixed (Nat.le_of_not_lt hv)]

theorem symm (h : Renames σ s t) : Renames σ.symm t s where
  fixed {v} hv := by
    rw [Equiv.symm_apply_eq, h.fixed (h.varCount_eq ▸ hv)]
  varCount_eq := h.varCount_eq.symm
  plain := h.plain'
  plain' := h.plain
  thresholds_eq := h.thresholds_eq.symm
  sampling_eq := by
    rw [h.sampling_eq, Option.map_map]
    have back : List.map σ.symm ∘ List.map σ = id := by
      funext users
      rw [Function.comp, List.map_map, σ.symm_comp_self, List.map_id, id]
    rw [back, Option.map_id, id]
  value_eq v := by rw [← h.value_eq, σ.apply_symm_apply]
  pool := .flip (h.pool.imp fun _ _ hcd => hcd.symm)

end Renames

end Solver

/-! ## Preparing -/

/-- The second constraint is the first with its variables renamed, and both are
ascending. -/
structure Constraint.Matched (σ : Equiv.Perm Var) (c d : Constraint) : Prop
    extends c.Renamed σ d where
  pairwise : c.vars.Pairwise (· < ·)
  pairwise' : d.vars.Pairwise (· < ·)

namespace Constraint.Matched

variable {c d c' d' : Constraint}

theorem isTrivial_eq (h : c.Renamed σ d) : d.isTrivial = c.isTrivial := by
  rw [isTrivial, isTrivial, Bool.eq_iff_iff, List.isEmpty_iff, List.isEmpty_iff, h.vars.eq_nil_iff]

theorem vars_eq_iff (h : c.Matched σ d) (h' : c'.Matched σ d') :
    d.vars = d'.vars ↔ c.vars = c'.vars :=
  h.vars.ascending_eq_iff h'.vars h.pairwise h.pairwise' h'.pairwise h'.pairwise'

theorem cancel (c d : Constraint) : c.cancel.Matched σ d.cancel :=
  ⟨⟨.nil, rfl⟩, .nil, .nil⟩

end Constraint.Matched

/-- Matched constraints are cancelled in the same places. -/
theorem forall₂_folded {before before' : List (List Var)} {cs ds : List Constraint}
    (h : List.Forall₂ (Constraint.Matched σ) cs ds)
    (hb : ∀ {c d}, Constraint.Matched σ c d → (d.vars ∈ before' ↔ c.vars ∈ before)) :
    List.Forall₂ (Constraint.Matched σ) (folded before cs) (folded before' ds) := by
  induction h generalizing before before' with
  | nil => exact .nil
  | @cons c d cs ds hcd _ ih =>
    rw [folded, folded, Constraint.Matched.isTrivial_eq hcd.toRenamed]
    refine .cons ?_ (ih fun {c' d'} hcd' => ?_)
    · simp only [hb hcd]
      split
      · exact .cancel c d
      · exact hcd
    · rw [List.mem_cons, List.mem_cons, hcd'.vars_eq_iff hcd, hb hcd']

theorem Agree.of_matched {cs ds : List Constraint} (h : List.Forall₂ (Constraint.Matched σ) cs ds)
    (ha : Agree cs) : Agree ds := by
  refine (forall_mem_iff_of_forall₂ h fun c _ d hcd => ?_).mp ha
  refine forall_mem_iff_of_forall₂ h fun c' _ d' hcd' => ?_
  rw [Constraint.Matched.isTrivial_eq hcd.toRenamed, hcd.vars_eq_iff hcd', hcd.rhs_eq, hcd'.rhs_eq]

namespace Solver

variable {s t : Solver}

/-- Reducing renamed constraints. -/
theorem Renames.exists_reduce (h : Renames σ s t) {c c' d : Constraint} (hcd : c.Renamed σ d)
    (hc : s.reduce c = .ok c') : ∃ d', t.reduce d = .ok d' ∧ c'.Matched σ d' := by
  obtain ⟨hlt, rfl⟩ := (reduce_plain h.plain le_rfl).mp hc
  refine ⟨_, (reduce_plain h.plain' le_rfl).mpr ⟨fun w hw => ?_, rfl⟩, ?_⟩
  · obtain ⟨v, rfl⟩ := σ.surjective w
    exact (h.lt_iff v).mpr (hlt v ((hcd.vars.mem_iff v).mp hw))
  · have free : ParityBlocks.Renamed σ (c.vars.filter fun v => (s.value v).isNone)
        (d.vars.filter fun v => (t.value v).isNone) := by
      have perm := List.Perm.filter (fun v => (t.value v).isNone) hcd.vars
      rw [List.filter_map] at perm
      simp only [Function.comp_def, h.value_eq] at perm
      exact perm
    have known : (d.vars.filterMap t.value).Perm (c.vars.filterMap s.value) := by
      have perm := List.Perm.filterMap t.value hcd.vars
      rw [List.filterMap_map] at perm
      simpa only [Function.comp_def, h.value_eq] using perm
    have comm : RightCommutative (· ^^ · : Bool → Bool → Bool) := ⟨by decide⟩
    refine ⟨⟨free.oddOf, ?_⟩, Ascending.pairwise_oddOf _, Ascending.pairwise_oddOf _⟩
    show (d.vars.filterMap t.value).foldl (· ^^ ·) d.rhs = _
    rw [hcd.rhs_eq]
    exact known.foldl_eq c.rhs

/-- Cleaning renamed constraints. -/
theorem Renames.exists_cleaned (h : Renames σ s t) {cs ds cleaned : List Constraint}
    (hcs : List.Forall₂ (Constraint.Renamed σ) cs ds)
    (hclean : List.Forall₂ (fun c c' => s.reduce c = .ok c' ∧ c'.isAbsurd = false) cs cleaned) :
    ∃ cleaned', List.Forall₂ (fun d d' => t.reduce d = .ok d' ∧ d'.isAbsurd = false) ds cleaned' ∧
      List.Forall₂ (Constraint.Matched σ) cleaned cleaned' := by
  induction hcs generalizing cleaned with
  | nil =>
    cases hclean
    exact ⟨[], .nil, .nil⟩
  | cons hcd _ ih =>
    cases hclean with
    | cons hc hrest =>
      obtain ⟨d', hd, hcd'⟩ := h.exists_reduce hcd hc.1
      obtain ⟨rest, hrest, hmatched⟩ := ih hrest
      have present : d'.isAbsurd = false := by
        have same := hc.2
        rwa [Constraint.isAbsurd, ← Constraint.Matched.isTrivial_eq hcd'.toRenamed,
          ← hcd'.rhs_eq] at same
      exact ⟨d' :: rest, .cons ⟨hd, present⟩ hrest, .cons hcd' hmatched⟩

/-- What renamed pools are prepared as. -/
theorem Renames.exists_prepare (h : Renames σ s t) {cs : List Constraint}
    (hp : s.prepare = .ok cs) :
    ∃ ds, t.prepare = .ok ds ∧ List.Forall₂ (Constraint.Matched σ) cs ds := by
  obtain ⟨cleaned, hclean, agree, rfl⟩ := prepare_eq_ok_iff.mp hp
  obtain ⟨cleaned', hclean', hmatched⟩ := h.exists_cleaned h.pool hclean
  refine ⟨_, prepare_eq_ok_iff.mpr ⟨cleaned', hclean', agree.of_matched hmatched, rfl⟩, ?_⟩
  exact forall₂_folded hmatched fun _ => Iff.rfl.trans (by simp)

end Solver

/-! ## Sampling variables -/

/-- The entry with its variable renamed. -/
def SamplingEntry.rename (σ : Equiv.Perm Var) : SamplingEntry → SamplingEntry
  | .free v => .free (σ v)
  | entry => entry

/-- Renamed variables are covered by renamed members. -/
theorem SamplingSet.share_renamed (set : SamplingSet) {isMember isMember' : Var → Bool}
    (h : ∀ v, isMember' (σ v) = isMember v) :
    (SamplingSet.mk (set.entries.map (SamplingEntry.rename σ))).share isMember' =
      set.share isMember := by
  have covered : (SamplingSet.mk (set.entries.map (SamplingEntry.rename σ))).coveredBy isMember' =
      set.coveredBy isMember := by
    rw [coveredBy, coveredBy, List.countP_map]
    congr 1
    funext entry
    cases entry with
    | assigned => rfl
    | free v => exact h v
    | unknown => rfl
  simp only [share, covered, size, List.length_map, List.isEmpty_map]

namespace Solver

variable {s t : Solver}

theorem samplingEntry_plain (hn : s.numbering.Plain s.varCount) (user : Var) :
    s.samplingEntry user =
      if s.varCount ≤ user then .unknown
      else if (s.value user).isSome then .assigned else .free user := by
  have representative : s.numbering.representativeOf user = user := by
    rw [Numbering.representativeOf, hn.representative_eq, getD_range]
  have inner : s.numbering.innerOf user = user := by
    rw [Numbering.innerOf, hn.toInner_eq, getD_range]
  simp only [samplingEntry, hn.outerOfUser_eq, representative, inner]

namespace Renames

theorem samplingEntry (h : Renames σ s t) (user : Var) :
    t.samplingEntry (σ user) = (s.samplingEntry user).rename σ := by
  rw [samplingEntry_plain h.plain, samplingEntry_plain h.plain', h.value_eq]
  have known : t.varCount ≤ σ user ↔ s.varCount ≤ user := by
    rw [← Nat.not_lt, h.lt_iff, Nat.not_lt]
  simp only [known]
  split
  · rfl
  · split <;> rfl

theorem samplingSet (h : Renames σ s t) :
    t.samplingSet = s.samplingSet.map fun set =>
      ⟨set.entries.map (SamplingEntry.rename σ)⟩ := by
  rw [Solver.samplingSet, Solver.samplingSet, h.sampling_eq, Option.map_map, Option.map_map]
  congr 1
  funext users
  simp only [Function.comp, List.map_map]
  congr 1
  exact List.map_congr_left fun user _ => h.samplingEntry user

theorem policy_eq (h : Renames σ s t) : t.policy = s.policy := by
  have limit : Search.rowLimit s.settings.thresholds.maxRows t.samplingSet =
      Search.rowLimit s.settings.thresholds.maxRows s.samplingSet := by
    rw [h.samplingSet]
    cases s.samplingSet with
    | none => rfl
    | some set => simp only [Option.map_some, Search.rowLimit, SamplingSet.size, List.length_map]
  rw [policy, policy, h.thresholds_eq, limit]

end Renames

end Solver

/-! ## Rulings -/

/-- The second ruling is the first, on renamed rows. -/
structure Ruling.Renamed (σ : Equiv.Perm Var) (r r' : Ruling) : Prop where
  decision_eq : r'.decision = r.decision
  rows : List.Forall₂ (Constraint.Renamed σ) r.rows r'.rows

/-- The second matrix has the number of the first, and its rows with renamed variables. -/
structure Matrix.Renamed (σ : Equiv.Perm Var) (m m' : Matrix) : Prop where
  number_eq : m'.number = m.number
  rows : List.Forall₂ (Constraint.Renamed σ) m.rows m'.rows

/-- The second component is the first with renamed variables, of which it covers as many. -/
structure Assessed.Renamed (σ : Equiv.Perm Var) (a a' : Assessed) : Prop where
  component : a.component.Renamed σ a'.component
  ratio_eq : a'.ratio = a.ratio

theorem Assessed.of_renamed {b b' : Component} (h : b.Renamed σ b')
    (sampling : Option SamplingSet) :
    (Assessed.of sampling b).Renamed σ (.of (sampling.map fun set =>
      ⟨set.entries.map (SamplingEntry.rename σ)⟩) b') := by
  refine ⟨h, ?_⟩
  rw [Assessed.of, Assessed.of]
  cases sampling with
  | none => simp only [Option.map_none]
  | some set =>
    have covers : ∀ v, decide (σ v ∈ b'.members) = decide (v ∈ b.members) :=
      fun v => decide_eq_decide.mpr (h.members.mem_iff v)
    exact congrArg some (set.share_renamed covers)

namespace Ruling

/-- Ruling on renamed components. -/
theorem forall₂_ofAssessed (policy : Policy) (k : Nat) {as as' : List Assessed}
    (h : List.Forall₂ (Assessed.Renamed σ) as as') :
    List.Forall₂ (Ruling.Renamed σ) (ofAssessed policy k as) (ofAssessed policy k as') := by
  induction h generalizing k with
  | nil => exact .nil
  | cons ha _ ih =>
    simp only [ofAssessed, ha.component.shape_eq, ha.ratio_eq]
    split
    · exact ih k
    · split
      · exact .cons ⟨rfl, ha.component.rows⟩ (ih (k + 1))
      · exact .cons ⟨rfl, ha.component.rows⟩ (ih k)

theorem report_eq_of_renamed {rs rs' : List Ruling} (h : List.Forall₂ (Ruling.Renamed σ) rs rs')
    (count : Nat) : report count rs' = report count rs := by
  have decisions : rs'.map decision = rs.map decision := by
    rw [← List.forall₂_eq_eq_eq, List.forall₂_map_left_iff, List.forall₂_map_right_iff]
    exact .flip (h.imp fun _ _ hr => hr.decision_eq)
  rw [report, report, decisions]

theorem Renamed.matrix? {r r' : Ruling} (h : r.Renamed σ r') :
    Option.Rel (Matrix.Renamed σ) r.matrix? r'.matrix? := by
  rw [Ruling.matrix?, Ruling.matrix?, h.decision_eq]
  cases r.decision.matrixNumber with
  | none => exact .none
  | some number =>
    refine .some ⟨rfl, ?_⟩
    simp only [Matrix.ofRows]
    rw [List.forall₂_map_left_iff, List.forall₂_map_right_iff]
    exact h.rows.imp fun _ _ hcd => ⟨hcd.vars, hcd.rhs_eq⟩

end Ruling

namespace Solver

variable {s t : Solver} {cs ds : List Constraint}

/-- The rulings on renamed constraints. -/
theorem Renames.forall₂_rulings (h : Renames σ s t)
    (hcs : ∀ c ∈ cs, ∀ v ∈ c.vars, v < s.varCount) (hds : ∀ d ∈ ds, ∀ v ∈ d.vars, v < t.varCount)
    (hcd : List.Forall₂ (Constraint.Renamed σ) cs ds) :
    List.Forall₂ (Ruling.Renamed σ) (s.rulings cs) (t.rulings ds) := by
  rw [rulings, rulings, assessed, assessed, ranked, ranked, h.policy_eq, h.samplingSet]
  rw [h.varCount_eq] at hds ⊢
  refine Ruling.forall₂_ofAssessed _ 0 ?_
  rw [List.forall₂_map_left_iff, List.forall₂_map_right_iff]
  have lists : List.Forall₂ (ParityBlocks.Renamed σ) (cs.map Constraint.vars)
      (ds.map Constraint.vars) := by
    rw [List.forall₂_map_left_iff, List.forall₂_map_right_iff]
    exact hcd.imp fun _ _ h => h.vars
  have hcs' : ∀ vs ∈ cs.map Constraint.vars, ∀ v ∈ vs, v < s.varCount :=
    List.forall_mem_map.mpr hcs
  have hds' : ∀ ws ∈ ds.map Constraint.vars, ∀ w ∈ ws, w < s.varCount :=
    List.forall_mem_map.mpr hds
  refine (Component.forall₂_ranked (Partition.renames_ofLists lists hcs' hds')
    (Partition.represents_ofLists hds') hcd).imp fun _ _ hb => ?_
  exact Assessed.of_renamed hb s.samplingSet

theorem Renames.skipCause?_eq (h : Renames σ s t)
    (hcd : List.Forall₂ (Constraint.Renamed σ) cs ds) :
    Search.skipCause? t.settings ds = Search.skipCause? s.settings cs := by
  refine Search.skipCause?_congr h.thresholds_eq ?_ hcd.length_eq.symm ?_
  · rw [h.sampling_eq, Option.isSome_map]
  · induction hcd with
    | nil => rfl
    | cons hc _ ih =>
      simp only [Search.withVariables] at ih ⊢
      rw [List.countP_cons, List.countP_cons, ih, Constraint.Matched.isTrivial_eq hc]

end Solver

namespace Session

open Search

variable {s t : Session}

/-- Two sessions whose solvers differ in the numbers of the variables both find a
contradiction, or they have the same report but for the time, and make the same matrices
with renamed rows. -/
theorem find_of_renames (hs : s.solver.WellFormed) (ht : t.solver.WellFormed)
    (hc : s.solver.consistent = true) (hc' : t.solver.consistent = true)
    (hm : s.solver.matrices = []) (hm' : t.solver.matrices = []) (h : s.solver.Renames σ t.solver)
    (elapsed elapsed' : Duration) :
    EndAlike
      (fun r r' => r' = { r with elapsed := r'.elapsed } ∧
        List.Forall₂ (Matrix.Renamed σ) (s.find elapsed).1.solver.matrices
          (t.find elapsed').1.solver.matrices)
      (s.find elapsed).2 (t.find elapsed').2 := by
  cases hp : s.solver.prepare with
  | ok cs =>
    obtain ⟨ds, hp', hmatched⟩ := h.exists_prepare hp
    have hcd := hmatched.imp fun _ _ h => h.toRenamed
    have found := find_of_prepare hs hc hm hp elapsed
    have found' := find_of_prepare ht hc' hm' hp' elapsed'
    have rulings := h.forall₂_rulings (Solver.lt_of_prepare hp) (Solver.lt_of_prepare hp') hcd
    rw [found.outcome_eq, found'.outcome_eq, found.matrices_eq, found'.matrices_eq,
      Solver.account, Solver.account, Solver.blockMatrices, Solver.blockMatrices,
      h.skipCause?_eq hcd, hcd.length_eq]
    refine .reported ?_
    cases Search.skipCause? s.solver.settings cs with
    | some cause => exact ⟨rfl, .nil⟩
    | none =>
      refine ⟨?_, List.rel_filterMap (fun _ _ hr => hr.matrix?) rulings⟩
      rw [Ruling.report_eq_of_renamed rulings]
  | error failure =>
    obtain ⟨c, found, -⟩ := find_of_prepare_error hs hc hm hp elapsed
    cases hp' : t.solver.prepare with
    | ok ds =>
      obtain ⟨cs, prepared, -⟩ := h.symm.exists_prepare hp'
      rw [hp] at prepared
      cases prepared
    | error failure' =>
      obtain ⟨c', found', -⟩ := find_of_prepare_error ht hc' hm' hp' elapsed'
      rw [found, found']
      exact .contradicted c c'

/-- Requests that renumber and replace nothing, with variables named by `name`. -/
def plainRequests (name : Var → Var) : List Request :=
  [.assign (name 7) true, .add ([1, 2, 7].map name) true, .add ([8, 9].map name) true,
    .add ([3, 2].map name) false, .add ([0, 3, 3, 4].map name) true, .add ([5, 6].map name) true,
    .add ([9, 10].map name) true, .add ([6, 5].map name) true, .add ([8, 11].map name) false,
    .configure { sampling := some ([0, 4, 9, 40].map name) }]

/-- Two variables of different blocks change places, and two of the same. -/
def crossing : Equiv.Perm Var := (Equiv.swap 2 8).trans (Equiv.swap 5 11)

theorem crossing_fixed {v : Nat} (hv : 12 ≤ v) : crossing v = v := by
  have far : v ≠ 2 ∧ v ≠ 8 ∧ v ≠ 5 ∧ v ≠ 11 := by omega
  rw [crossing, Equiv.trans_apply, Equiv.swap_apply_of_ne_of_ne far.1 far.2.1,
    Equiv.swap_apply_of_ne_of_ne far.2.2.1 far.2.2.2]

def plainSample : Session where
  solver := (plainRequests id).foldl Solver.perform (.new 12 {})

def crossedSample : Session where
  solver := (plainRequests crossing).foldl Solver.perform (.new 12 {})

theorem renames_crossedSample : plainSample.solver.Renames crossing crossedSample.solver := by
  have count : plainSample.solver.varCount = 12 := by decide +kernel
  have count' : crossedSample.solver.varCount = 12 := by decide +kernel
  have value : ∀ v < 12, crossedSample.solver.value (crossing v) = plainSample.solver.value v := by
    decide +kernel
  have pool : crossedSample.solver.pool =
      plainSample.solver.pool.map fun c => { c with vars := c.vars.map crossing } := by
    decide +kernel
  have plain : ∀ t : Solver, t.numbering = .identity 12 → t.varCount = 12 →
      t.numbering.Plain t.varCount := by
    intro t hn ht
    rw [hn, ht]
    exact Numbering.plain_identity 12
  refine ⟨fun {v} hv => crossing_fixed (count ▸ hv), count'.trans count.symm,
    plain _ (by decide +kernel) count, plain _ (by decide +kernel) count', by decide +kernel,
    by decide +kernel, fun v => ?_, ?_⟩
  · by_cases hv : v < 12
    · exact value v hv
    · have hv := Nat.le_of_not_lt hv
      rw [crossing_fixed hv, Solver.value, Solver.value,
        Array.getElem?_eq_none (count'.trans_le hv), Array.getElem?_eq_none (count.trans_le hv)]
  · rw [pool, List.forall₂_map_right_iff, List.forall₂_same]
    exact fun c _ => ⟨.refl _, rfl⟩

theorem find_of_renames_sample :
    plainSample.solver.WellFormed ∧ crossedSample.solver.WellFormed ∧
      plainSample.solver.consistent = true ∧ crossedSample.solver.consistent = true ∧
      plainSample.solver.matrices = [] ∧ crossedSample.solver.matrices = [] ∧
      plainSample.solver.Renames crossing crossedSample.solver ∧
      EndAlike
        (fun r r' => r' = { r with elapsed := r'.elapsed } ∧
          List.Forall₂ (Matrix.Renamed crossing) (plainSample.find .zero).1.solver.matrices
            (crossedSample.find .zero).1.solver.matrices)
        (plainSample.find .zero).2 (crossedSample.find .zero).2 := by
  have hs : plainSample.solver.WellFormed :=
    (Solver.Reachable.foldl (.new {} (by decide)) _).wellFormed
  have ht : crossedSample.solver.WellFormed :=
    (Solver.Reachable.foldl (.new {} (by decide)) _).wellFormed
  have hc : plainSample.solver.consistent = true := by decide +kernel
  have hc' : crossedSample.solver.consistent = true := by decide +kernel
  have hm : plainSample.solver.matrices = [] := by decide +kernel
  have hm' : crossedSample.solver.matrices = [] := by decide +kernel
  exact ⟨hs, ht, hc, hc', hm, hm', renames_crossedSample,
    find_of_renames hs ht hc hc' hm hm' renames_crossedSample .zero .zero⟩

end Session

end ParityBlocks
