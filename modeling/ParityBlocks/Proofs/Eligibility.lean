import ParityBlocks.Proofs.Account
import ParityBlocks.Proofs.Competition
import ParityBlocks.Proofs.Reachable

/-!
# Places for eligible components

Where the covered sampling variables do not matter (`Assessed.Unsampled`), a component is
judged by its numbers of rows and columns: if these do not fit then it is rejected for the
first limit that it misses (`Policy.misfit`, `Assessed.Unsampled.merit_eq`), and if they do
(`Policy.Eligible`) it is accepted while there are places. `Ruling.Awards` says so of one component
after the other, with the number of those that were accepted before
(`Ruling.awards_ofAssessed`). By induction on it, the accepted ones are the first of the
eligible ones (`Awards.filter_isAccepted`), and the limit for matrices is left for the
others (`Awards.filter_isLimited`).

So a search without sampling variables gives its places greedily
(`Session.find_allots_greedily`).
-/

namespace ParityBlocks

namespace Policy

/-- The first limit for rows and columns that the component misses, if it misses one. -/
def misfit (p : Policy) (shape : Shape) : Option Rejection :=
  if p.maxRows < shape.rows then some .tooManyRows
  else if p.maxColumns < shape.cols then some .tooManyColumns
  else if shape.rows < p.minRows then some .tooFewRows
  else none

/-- Rows and columns are within the limits. -/
def Eligible (p : Policy) (shape : Shape) : Prop :=
  p.minRows ≤ shape.rows ∧ shape.rows ≤ p.maxRows ∧ shape.cols ≤ p.maxColumns

instance (p : Policy) (shape : Shape) : Decidable (p.Eligible shape) :=
  inferInstanceAs (Decidable (_ ∧ _))

theorem misfit_eq_none_iff {p : Policy} {shape : Shape} :
    p.misfit shape = none ↔ p.Eligible shape := by
  grind [misfit, Eligible]

theorem misfit_ne_matrixLimit (p : Policy) (shape : Shape) :
    p.misfit shape ≠ some .matrixLimit := by
  grind [misfit]

end Policy

/-- The covered sampling variables do not matter for the component. -/
def Assessed.Unsampled (p : Policy) (a : Assessed) : Prop :=
  a.component.shape.rows ≤ p.minRows ∨ a.ratio = none

namespace Assessed

variable {p : Policy} {a : Assessed}

/-- By merit, such a component is judged by its rows and columns. -/
theorem Unsampled.merit_eq (ha : a.Unsampled p) (hrows : a.component.shape.rows ≠ 0) :
    a.merit p = (p.misfit a.component.shape).map .rejected := by
  have passes : Policy.samplingRule p ⟨a.component.shape, a.ratio, 0⟩ = none := by
    rw [Policy.samplingRule]
    split
    · rename_i h
      exact congrArg (Option.map _) (ha.resolve_left (Nat.not_le.mpr h))
    · rfl
  have noRows : (a.component.shape.rows == 0) = false := beq_eq_false_iff_ne.mpr hrows
  simp only [merit, Policy.merit, Policy.rules, List.dropLast, List.findSome?_cons,
    List.findSome?_nil, passes, Policy.rejectIf, noRows, Bool.false_eq_true, if_false,
    decide_eq_true_eq, Policy.misfit, gt_iff_lt]
  split_ifs <;> rfl

/-- Rows and columns of the component are within the limits. -/
def fits (p : Policy) (a : Assessed) : Bool := decide (p.Eligible a.component.shape)

/-- The ruling on the component with this verdict and number. -/
def ruled (a : Assessed) (verdict : Verdict) (matrixNumber : Option Nat) : Ruling :=
  ⟨⟨a.component.shape, a.ratio, verdict, matrixNumber⟩, a.component.rows⟩

theorem fits_eq_true_iff : a.fits p = true ↔ p.misfit a.component.shape = none := by
  rw [fits, decide_eq_true_eq, Policy.misfit_eq_none_iff]

theorem fits_eq_false {why : Rejection} (h : p.misfit a.component.shape = some why) :
    a.fits p = false := by
  rw [← Bool.not_eq_true, fits_eq_true_iff, h]
  exact Option.some_ne_none why

end Assessed

namespace Ruling

variable {p : Policy} {a : Assessed} {as : List Assessed} {k : Nat}

/-- There was no place left for the component. -/
def isLimited (r : Ruling) : Bool := decide (r.decision.verdict = .rejected .matrixLimit)

/-! ## One component after the other -/

theorem ofAssessed_cons_of_misfit (ha : a.Unsampled p) (hrows : a.component.shape.rows ≠ 0)
    {why : Rejection} (h : p.misfit a.component.shape = some why) :
    ofAssessed p k (a :: as) = a.ruled (.rejected why) none :: ofAssessed p k as := by
  have verdict : p.decide ⟨a.component.shape, a.ratio, k⟩ = .rejected why := by
    rw [p.decide_eq, show p.merit a.component.shape a.ratio = _ from ha.merit_eq hrows, h]
    rfl
  have hne := p.decide_ne_noRows (c := ⟨a.component.shape, a.ratio, k⟩) hrows
  simp only [ofAssessed, if_neg hne]
  rw [verdict]
  rfl

theorem ofAssessed_cons_of_fits (ha : a.Unsampled p) (hrows : a.component.shape.rows ≠ 0)
    (h : a.fits p = true) :
    ofAssessed p k (a :: as) =
      if p.maxMatrices ≤ k then a.ruled (.rejected .matrixLimit) none :: ofAssessed p k as
      else a.ruled .accepted (some k) :: ofAssessed p (k + 1) as := by
  have merit : p.merit a.component.shape a.ratio = none := by
    rw [show p.merit a.component.shape a.ratio = _ from ha.merit_eq hrows,
      Assessed.fits_eq_true_iff.mp h]
    rfl
  have hne := p.decide_ne_noRows (c := ⟨a.component.shape, a.ratio, k⟩) hrows
  simp only [ofAssessed, if_neg hne]
  rw [p.decide_eq, merit, Option.getD_none]
  split
  · rfl
  · rfl

/-- Rulings on components, `k` of which were accepted before: those with too many or too few
rows or columns are rejected for that, and of the others those that find a place are accepted. -/
inductive Awards (p : Policy) : Nat → List Assessed → List Ruling → Prop
  | nil {k : Nat} : Awards p k [] []
  | misfit {k : Nat} {a : Assessed} {as : List Assessed} {rs : List Ruling} {why : Rejection}
      (h : p.misfit a.component.shape = some why) (rest : Awards p k as rs) :
    Awards p k (a :: as) (a.ruled (.rejected why) none :: rs)
  | limited {k : Nat} {a : Assessed} {as : List Assessed} {rs : List Ruling}
      (fits : a.fits p = true) (hk : p.maxMatrices ≤ k) (rest : Awards p k as rs) :
    Awards p k (a :: as) (a.ruled (.rejected .matrixLimit) none :: rs)
  | accepted {k : Nat} {a : Assessed} {as : List Assessed} {rs : List Ruling}
      (fits : a.fits p = true) (hk : k < p.maxMatrices) (rest : Awards p (k + 1) as rs) :
    Awards p k (a :: as) (a.ruled .accepted (some k) :: rs)

theorem awards_ofAssessed (has : ∀ a ∈ as, a.Unsampled p)
    (hrows : ∀ a ∈ as, a.component.shape.rows ≠ 0) (k : Nat) : Awards p k as (ofAssessed p k as) := by
  induction as generalizing k with
  | nil => exact .nil
  | cons a rest ih =>
    obtain ⟨ha, has⟩ := List.forall_mem_cons.mp has
    obtain ⟨hr, hrows⟩ := List.forall_mem_cons.mp hrows
    cases hm : p.misfit a.component.shape with
    | some why =>
      rw [ofAssessed_cons_of_misfit ha hr hm]
      exact .misfit hm (ih has hrows k)
    | none =>
      have fits := Assessed.fits_eq_true_iff.mpr hm
      rw [ofAssessed_cons_of_fits ha hr fits]
      split
      · rename_i hk
        exact .limited fits hk (ih has hrows k)
      · rename_i hk
        exact .accepted fits (Nat.lt_of_not_le hk) (ih has hrows (k + 1))

namespace Awards

variable {rs : List Ruling}

/-- The accepted ones are the first of the eligible ones, as many as there are places. -/
theorem filter_isAccepted (h : Awards p k as rs) :
    rs.filter isAccepted = ((as.filter (Assessed.fits p)).take (p.maxMatrices - k)).mapIdx
      fun i a => a.ruled .accepted (some (k + i)) := by
  induction h with
  | nil => simp
  | misfit h rest ih =>
    rw [List.filter_cons_of_neg (by exact Bool.false_ne_true), ih,
      List.filter_cons_of_neg (by simp [Assessed.fits_eq_false h])]
  | limited fits hk rest ih =>
    rw [List.filter_cons_of_neg (by exact Bool.false_ne_true), ih, Nat.sub_eq_zero_of_le hk]
    rfl
  | @accepted k a as rs fits hk rest ih =>
    have free : p.maxMatrices - k = p.maxMatrices - (k + 1) + 1 := by omega
    rw [List.filter_cons_of_pos rfl, List.filter_cons_of_pos fits, ih, free, List.take_succ_cons,
      List.mapIdx_cons]
    simp only [Nat.add_zero, Nat.add_assoc, Nat.add_comm 1]

/-- The others that are eligible find no place. -/
theorem filter_isLimited (h : Awards p k as rs) :
    rs.filter isLimited = ((as.filter (Assessed.fits p)).drop (p.maxMatrices - k)).map
      fun a => a.ruled (.rejected .matrixLimit) none := by
  induction h with
  | nil => simp
  | @misfit k a as rs why h rest ih =>
    have other : (a.ruled (.rejected why) none).isLimited = false := by
      refine decide_eq_false fun he => p.misfit_ne_matrixLimit a.component.shape ?_
      rw [h, Verdict.rejected.inj he]
    rw [List.filter_cons_of_neg (by simp [other]), ih,
      List.filter_cons_of_neg (by simp [Assessed.fits_eq_false h])]
  | limited fits hk rest ih =>
    rw [List.filter_cons_of_pos rfl, List.filter_cons_of_pos fits, ih, Nat.sub_eq_zero_of_le hk]
    rfl
  | @accepted k a as rs fits hk rest ih =>
    have free : p.maxMatrices - k = p.maxMatrices - (k + 1) + 1 := by omega
    rw [List.filter_cons_of_neg (by exact Bool.false_ne_true), List.filter_cons_of_pos fits, ih,
      free, List.drop_succ_cons]

/-- What misses a limit is rejected for the first that it misses. -/
theorem verdict_of_misfit (h : Awards p k as rs) :
    ∀ r ∈ rs, ∀ why, p.misfit r.decision.shape = some why → r.decision.verdict = .rejected why := by
  have fit : ∀ {a : Assessed} {why}, a.fits p = true → p.misfit a.component.shape ≠ some why := by
    intro a why fits hm
    rw [Assessed.fits_eq_true_iff.mp fits] at hm
    cases hm
  induction h with
  | nil => exact fun _ hr => absurd hr List.not_mem_nil
  | misfit h rest ih =>
    refine List.forall_mem_cons.mpr ⟨fun why hm => ?_, ih⟩
    rw [Option.some.inj (h.symm.trans hm)]
    rfl
  | limited fits hk rest ih => exact List.forall_mem_cons.mpr ⟨fun why hm => absurd hm (fit fits), ih⟩
  | accepted fits hk rest ih => exact List.forall_mem_cons.mpr ⟨fun why hm => absurd hm (fit fits), ih⟩

theorem map_shape (h : Awards p k as rs) :
    rs.map (fun r => r.decision.shape) = as.map fun a => a.component.shape := by
  induction h with
  | nil => rfl
  | misfit h rest ih => exact congrArg (_ :: ·) ih
  | limited fits hk rest ih => exact congrArg (_ :: ·) ih
  | accepted fits hk rest ih => exact congrArg (_ :: ·) ih

theorem numbered (h : Awards p k as rs) : Numbered k rs := by
  induction h with
  | nil => trivial
  | misfit h rest ih => exact .cons_rejected rfl rfl ih
  | limited fits hk rest ih => exact .cons_rejected rfl rfl ih
  | accepted fits hk rest ih => exact .cons_accepted rfl rfl ih

end Awards

end Ruling

/-! ## Searches without sampling variables -/

/-- What components in the order of competition come to by the limits of the policy and their
places alone. -/
structure Policy.Allots (p : Policy) (components : List Component) (report : Report)
    (matrices : List Matrix) : Prop where
  /-- Every component is decided on, in the order of competition. -/
  shapes_eq : report.decisions.map Decision.shape = components.map Component.shape
  /-- The first eligible ones are accepted, and the matrix of each has its number. -/
  accepted_eq : (report.decisions.filter fun d => d.verdict.isAccepted) =
    ((components.filter fun c => p.Eligible c.shape).take p.maxMatrices).mapIdx
      fun k c => ⟨c.shape, none, .accepted, some k⟩
  /-- The limit for matrices is the reason for the other eligible ones, and only for them. -/
  limited_eq : (report.decisions.filter fun d => d.verdict = .rejected .matrixLimit) =
    ((components.filter fun c => p.Eligible c.shape).drop p.maxMatrices).map
      fun c => ⟨c.shape, none, .rejected .matrixLimit, none⟩
  /-- Who is not eligible is rejected for the first limit that it misses. -/
  misfit {d : Decision} : d ∈ report.decisions → ¬ p.Eligible d.shape →
    ∃ why, p.misfit d.shape = some why ∧ d.verdict = .rejected why
  matrices_eq : matrices =
    ((components.filter fun c => p.Eligible c.shape).take p.maxMatrices).mapIdx
      fun k c => .ofRows k c.rows
  matrixCount_eq : report.matrixCount =
    min p.maxMatrices (components.countP fun c => p.Eligible c.shape)

/-- The report and the matrices of awards on components in the order of competition. -/
theorem Ruling.Awards.allots {p : Policy} {components : List Component} {rs : List Ruling}
    (h : Awards p 0 (components.map (Assessed.of none)) rs) (count : Nat) (elapsed : Duration) :
    p.Allots components { report count rs with elapsed := elapsed } (rs.filterMap matrix?) := by
  have eligible : (components.map (Assessed.of none)).filter (Assessed.fits p) =
      (components.filter fun c => p.Eligible c.shape).map (Assessed.of none) := List.filter_map
  have accepted := h.filter_isAccepted
  have limited := h.filter_isLimited
  simp only [eligible, Nat.sub_zero, Nat.zero_add, ← List.map_take, ← List.map_drop,
    List.map_map] at accepted limited
  refine ⟨?_, ?_, ?_, ?_, ?_, ?_⟩
  · have shapes := h.map_shape
    rw [List.map_map] at shapes
    exact (List.map_map ..).trans shapes
  · have decisions : ((rs.map decision).filter fun d => d.verdict.isAccepted) =
        (rs.filter isAccepted).map decision := List.filter_map
    rw [report, decisions, accepted]
    refine List.ext_getElem? fun k => ?_
    simp only [List.getElem?_map, List.getElem?_mapIdx, Option.map_map]
    rfl
  · have decisions : ((rs.map decision).filter fun d => d.verdict = .rejected .matrixLimit) =
        (rs.filter isLimited).map decision := List.filter_map
    rw [report, decisions, limited, List.map_map]
    rfl
  · intro d hd hne
    obtain ⟨r, hr, rfl⟩ := List.mem_map.mp hd
    obtain ⟨why, hwhy⟩ := Option.ne_none_iff_exists'.mp fun h => hne (Policy.misfit_eq_none_iff.mp h)
    exact ⟨why, hwhy, h.verdict_of_misfit r hr why hwhy⟩
  · rw [h.numbered.matrices_eq, accepted]
    refine List.ext_getElem? fun k => ?_
    simp only [List.getElem?_map, List.getElem?_mapIdx, Option.map_map, Nat.zero_add]
    rfl
  · have count_eq : ((rs.map fun r => r.decision.verdict).countP Verdict.isAccepted) =
        (rs.filter isAccepted).length := by
      rw [List.countP_map, List.countP_eq_length_filter]
      rfl
    rw [h.numbered.matrixCount_eq, count_eq, accepted, List.length_mapIdx, List.length_map,
      List.length_take, List.countP_eq_length_filter]

namespace Session

variable {s : Session} {elapsed : Duration}

/-- Without sampling variables, a search that looked for blocks has given its places to the
first eligible ones of the components, in the order of competition. -/
theorem find_allots_greedily (hr : s.solver.Reachable) (hc : s.solver.consistent = true)
    (hm : s.solver.matrices = []) (hsampling : s.solver.settings.sampling = none)
    {report : Report} (hok : (s.find elapsed).2 = .ok report) (hskip : report.skipped = none) :
    let thresholds := s.solver.settings.thresholds
    ∃ cs components, s.solver.prepare = .ok cs ∧ s.solver.components cs = .ok components ∧
      (components.Pairwise fun c d => c.shape.priority d.shape = .lt) ∧
      (Policy.ofThresholds thresholds thresholds.maxRows).Allots components report
        (s.find elapsed).1.solver.matrices ∧
      report.matrixCount ≤ thresholds.maxMatrices := by
  have hs := hr.wellFormed
  obtain ⟨cs, hp, -, hreport, hmatrices⟩ := exists_rulings_of_find hs hc hm hok hskip
  have hcs := Solver.lt_of_prepare hp
  have policy_eq : s.solver.policy =
      .ofThresholds s.solver.settings.thresholds s.solver.settings.thresholds.maxRows := by
    rw [Solver.policy, Solver.samplingSet, hsampling]
    rfl
  have assessed_eq : s.solver.assessed cs = (s.solver.ranked cs).map (Assessed.of none) := by
    rw [Solver.assessed, Solver.samplingSet, hsampling]
    rfl
  have unsampled : ∀ a ∈ s.solver.assessed cs, a.Unsampled s.solver.policy := by
    rw [assessed_eq]
    exact List.forall_mem_map.mpr fun _ _ => .inr rfl
  have awards := Ruling.awards_ofAssessed unsampled (Solver.rows_ne_zero_of_mem_assessed hcs) 0
  rw [← Solver.rulings, policy_eq, assessed_eq] at awards
  have allots := awards.allots cs.length elapsed
  rw [← hreport, ← hmatrices] at allots
  refine ⟨cs, _, hp, Solver.components_eq hs.fits hcs, Component.pairwise_ranked _ _, allots, ?_⟩
  rw [allots.matrixCount_eq]
  exact Nat.min_le_left _ _

theorem find_allots_greedily_sample :
    let thresholds := sample.solver.settings.thresholds
    sample.solver.Reachable ∧ sample.solver.consistent = true ∧ sample.solver.matrices = [] ∧
      sample.solver.settings.sampling = none ∧
      ∃ report cs components, (sample.find .zero).2 = .ok report ∧ report.skipped = none ∧
      sample.solver.prepare = .ok cs ∧ sample.solver.components cs = .ok components ∧
      (Policy.ofThresholds thresholds thresholds.maxRows).Allots components report
        (sample.find .zero).1.solver.matrices ∧
      report.matrixCount = 2 ∧ thresholds.maxMatrices = 5 := by
  obtain ⟨report, hok, hskip, htwo, -⟩ := find_sample
  have hsampling : sample.solver.settings.sampling = none := by decide +kernel
  obtain ⟨cs, components, hp, hcomponents, -, allots, -⟩ :=
    find_allots_greedily reachable_sample consistent_sample matrices_sample hsampling hok hskip
  exact ⟨reachable_sample, consistent_sample, matrices_sample, hsampling, report, cs, components, hok,
    hskip, hp, hcomponents, allots, htwo, by decide +kernel⟩

end Session

end ParityBlocks
