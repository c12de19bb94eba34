import ParityBlocks.Proofs.Eligibility

/-!
# Components that the sampling variables decide on

If sampling variables are configured then a component with more than the least number of
rows is judged by the part of them that it covers, whatever its size is and however many
matrices there are (`Policy.decide_of_sampled`), and any other component by the limits and the
places that are left (`Assessed.Unsampled.decide_eq`). `Policy.Judges` says so of the decisions
on components one after the other; `Ruling.judges_ofAssessed` makes it of
`Ruling.verdict_of_ofAssessed`.

Components compete in the order of their rows, so the first kind comes before the second
(`Component.split_ranked`). Thus a search with sampling variables has a first part that these
decide on and a second part that they do not touch (`Session.find_judges_by_sampling`).
-/

namespace ParityBlocks

namespace Policy

/-- The verdict on a component that covers this part of the sampling variables. -/
def bySampling (ratio : Binary64) : Verdict :=
  if ratio.AtLeast samplingThreshold then .acceptedBySampling else .rejected .lowSamplingRatio

/-- The verdict by the limits, after so many components were accepted. -/
def byLimits (p : Policy) (shape : Shape) (acceptedBefore : Nat) : Verdict :=
  if p.maxRows < shape.rows then .rejected .tooManyRows
  else if p.maxColumns < shape.cols then .rejected .tooManyColumns
  else if shape.rows < p.minRows then .rejected .tooFewRows
  else if p.maxMatrices ≤ acceptedBefore then .rejected .matrixLimit
  else .accepted

variable {p : Policy} {shape : Shape}

theorem byLimits_eq (p : Policy) (shape : Shape) (k : Nat) :
    p.byLimits shape k = ((p.misfit shape).map Verdict.rejected).getD
      (if p.maxMatrices ≤ k then .rejected .matrixLimit else .accepted) := by
  unfold byLimits misfit
  split_ifs <;> rfl

theorem decide_of_sampled {ratio : Binary64} (h : p.minRows < shape.rows) (k : Nat) :
    p.decide ⟨shape, some ratio, k⟩ = bySampling ratio := by
  have hrows : (shape.rows == 0) = false := beq_eq_false_iff_ne.mpr (by omega)
  simp only [decide, rules, List.findSome?_cons, rejectIf, samplingRule, hrows, Bool.false_eq_true,
    if_false, gt_iff_lt, h, if_true, Option.map_some, Option.getD_some]
  rfl

end Policy

theorem Assessed.Unsampled.decide_eq {p : Policy} {a : Assessed} (h : a.Unsampled p)
    (hrows : a.component.shape.rows ≠ 0) (k : Nat) :
    p.decide ⟨a.component.shape, a.ratio, k⟩ = p.byLimits a.component.shape k := by
  rw [p.decide_eq, show p.merit a.component.shape a.ratio = _ from h.merit_eq hrows,
    p.byLimits_eq]

/-- Who decisions on components in turn are about. -/
theorem exists_component_of_mem {ratio : Component → Binary64} {components : List Component}
    {decisions : List Decision} (h : decisions.map (fun d => (d.shape, d.ratio)) =
      components.map fun c => (c.shape, some (ratio c))) {d : Decision} (hd : d ∈ decisions) :
    ∃ c ∈ components, d.shape = c.shape ∧ d.ratio = some (ratio c) := by
  have hmem := List.mem_map_of_mem (f := fun d => (d.shape, d.ratio)) hd
  rw [h] at hmem
  obtain ⟨c, hc, he⟩ := List.mem_map.mp hmem
  exact ⟨c, hc, (congrArg Prod.fst he).symm, (congrArg Prod.snd he).symm⟩

/-- What is decided about components in turn, each of which covers the part `ratio` of the
sampling variables. -/
structure Policy.Judges (p : Policy) (ratio : Component → Binary64) (components : List Component)
    (decisions : List Decision) : Prop where
  /-- Every component is decided on, in turn. -/
  parts_eq : decisions.map (fun d => (d.shape, d.ratio)) =
    components.map fun c => (c.shape, some (ratio c))
  /-- With more than the least number of rows the covered part decides, and nothing else. -/
  sampled : ∀ d ∈ decisions, p.minRows < d.shape.rows →
    ∀ r ∈ d.ratio, d.verdict = Policy.bySampling r
  /-- Otherwise the limits decide, and the number of those accepted before. -/
  limited : ∀ i d, decisions[i]? = some d → d.shape.rows ≤ p.minRows →
    d.verdict = p.byLimits d.shape ((decisions.take i).countP fun d => d.verdict.isAccepted)

namespace Policy.Judges

variable {p : Policy} {ratio : Component → Binary64} {components : List Component}
  {decisions : List Decision}

/-- Who has no more than the least number of rows is not judged by sampling variables. -/
theorem unsampled (h : p.Judges ratio components decisions) :
    ∀ d ∈ decisions, d.shape.rows ≤ p.minRows →
      d.verdict ≠ .acceptedBySampling ∧ d.verdict ≠ .rejected .lowSamplingRatio := by
  intro d hd hrows
  obtain ⟨i, hi⟩ := List.mem_iff_getElem?.mp hd
  rw [h.limited i d hi hrows]
  unfold Policy.byLimits
  split_ifs <;> decide

/-- No component has too many rows if the limit for them is not below the least number. -/
theorem ne_tooManyRows (h : p.Judges ratio components decisions) (hp : p.minRows ≤ p.maxRows) :
    ∀ d ∈ decisions, d.verdict ≠ .rejected .tooManyRows := by
  intro d hd
  rcases Nat.lt_or_ge p.minRows d.shape.rows with hrows | hrows
  · obtain ⟨c, -, -, hr⟩ := exists_component_of_mem h.parts_eq hd
    rw [h.sampled d hd hrows _ hr]
    unfold Policy.bySampling
    split <;> decide
  · obtain ⟨i, hi⟩ := List.mem_iff_getElem?.mp hd
    rw [h.limited i d hi hrows]
    unfold Policy.byLimits
    rw [if_neg (by omega)]
    split_ifs <;> decide

end Policy.Judges

/-- Ruling on components in turn, none of them without rows. -/
theorem Ruling.judges_ofAssessed (p : Policy) (set : SamplingSet) {components : List Component}
    (hrows : ∀ c ∈ components, c.shape.rows ≠ 0) (count : Nat) :
    p.Judges (fun c => set.share fun v => decide (v ∈ c.members)) components
      (report count (ofAssessed p 0 (components.map (Assessed.of (some set))))).decisions := by
  have hrows' : ∀ a ∈ components.map (Assessed.of (some set)), a.component.shape.rows ≠ 0 :=
    List.forall_mem_map.mpr hrows
  have parts := congrArg (List.map fun x => (x.1, x.2.1)) (map_parts_ofAssessed p 0 hrows')
  have verdict {i : Nat} {r : Ruling}
      (hr : (ofAssessed p 0 (components.map (Assessed.of (some set))))[i]? = some r) :=
    verdict_of_ofAssessed hrows' hr
  generalize ofAssessed p 0 (components.map (Assessed.of (some set))) = rs at parts verdict ⊢
  have parts_eq : (rs.map decision).map (fun d => (d.shape, d.ratio)) = components.map fun c =>
      (c.shape, some (set.share fun v => decide (v ∈ c.members))) := by
    rw [List.map_map, List.map_map, List.map_map] at parts
    rw [List.map_map]
    exact parts
  have verdict : ∀ i d, (rs.map decision)[i]? = some d → d.verdict = p.decide ⟨d.shape, d.ratio,
      ((rs.map decision).take i).countP fun d => d.verdict.isAccepted⟩ := by
    intro i d hi
    rw [List.getElem?_map] at hi
    obtain ⟨r, hr, rfl⟩ := Option.map_eq_some_iff.mp hi
    rw [verdict hr, ← List.map_take, List.countP_map, Nat.zero_add]
    rfl
  refine ⟨parts_eq, fun d hd h r hr => ?_, fun i d hi h => ?_⟩
  · obtain ⟨i, hi⟩ := List.mem_iff_getElem?.mp hd
    rw [verdict i d hi, show d.ratio = some r from hr, Policy.decide_of_sampled h]
  · obtain ⟨c, hc, hshape, -⟩ := exists_component_of_mem parts_eq (List.mem_of_getElem? hi)
    rw [verdict i d hi]
    exact Assessed.Unsampled.decide_eq (a := ⟨⟨d.shape, [], []⟩, d.ratio⟩) (.inl h)
      (hshape ▸ hrows c hc) _

/-! ## The two parts of the components -/

/-- A list with falling keys: those above a bound come first. -/
theorem eq_filter_append_filter {α : Type} (key : α → Nat) (bound : Nat) {xs : List α}
    (h : xs.Pairwise fun x y => key y ≤ key x) :
    xs = (xs.filter fun x => decide (bound < key x)) ++
      xs.filter fun x => decide (key x ≤ bound) := by
  induction xs with
  | nil => rfl
  | cons x xs ih =>
    obtain ⟨hx, h⟩ := List.pairwise_cons.mp h
    by_cases hb : bound < key x
    · rw [List.filter_cons_of_pos (by simpa using hb),
        List.filter_cons_of_neg (by simpa using hb), List.cons_append, ← ih h]
    · have hle : key x ≤ bound := Nat.le_of_not_lt hb
      have above : (xs.filter fun x => decide (bound < key x)) = [] := by
        rw [List.filter_eq_nil_iff]
        intro y hy
        have := hx y hy
        simp only [decide_eq_true_eq]
        omega
      have below : (xs.filter fun x => decide (key x ≤ bound)) = xs := by
        rw [List.filter_eq_self]
        intro y hy
        exact decide_eq_true (Nat.le_trans (hx y hy) hle)
      rw [List.filter_cons_of_neg (by simpa using hle), above, List.nil_append,
        List.filter_cons_of_pos (by simpa using hle), below]

/-- Components with more rows compete first. -/
theorem Component.split_ranked (p : Partition) (cs : List Constraint) (bound : Nat) :
    ranked p cs = ((ranked p cs).filter fun c => decide (bound < c.shape.rows)) ++
      (ranked p cs).filter fun c => decide (c.shape.rows ≤ bound) := by
  refine eq_filter_append_filter (fun c : Component => c.shape.rows) bound ?_
  exact (pairwise_ranked p cs).imp Shape.rows_le_of_priority

/-! ## Searches with sampling variables -/

namespace Solver

variable {s : Solver} {users : List Var}

/-- The limit for rows leaves room for three rows for each sampling variable. -/
theorem policy_eq_of_sampling (h : s.settings.sampling = some users) :
    s.policy = .ofThresholds s.settings.thresholds
      (max s.settings.thresholds.maxRows (3 * users.length)) := by
  unfold policy Search.rowLimit
  rw [samplingSet_eq h, Nat.mul_comm]
  dsimp only [SamplingSet.size]
  rw [List.length_map]

end Solver

namespace Session

variable {s : Session} {elapsed : Duration} {users : List Var} {report : Report}

/-- The components of a search that looked for blocks, and what it decided about them. -/
theorem exists_judges_of_find (hs : s.solver.WellFormed) (hc : s.solver.consistent = true)
    (hm : s.solver.matrices = []) (hsampling : s.solver.settings.sampling = some users)
    (hok : (s.find elapsed).2 = .ok report) (hskip : report.skipped = none) :
    ∃ cs, s.solver.prepare = .ok cs ∧ s.solver.components cs = .ok (s.solver.ranked cs) ∧
      s.solver.policy.Judges
        (fun c => SamplingSet.share ⟨users.map s.solver.samplingEntry⟩ fun v =>
          decide (v ∈ c.members)) (s.solver.ranked cs) report.decisions := by
  obtain ⟨cs, hp, -, rfl, -⟩ := exists_rulings_of_find hs hc hm hok hskip
  have hcs := Solver.lt_of_prepare hp
  have hrows : ∀ c ∈ s.solver.ranked cs, c.shape.rows ≠ 0 := fun c hc =>
    Solver.rows_ne_zero_of_mem_assessed hcs _ (List.mem_map_of_mem hc)
  refine ⟨cs, hp, Solver.components_eq hs.fits hcs, ?_⟩
  have judges := Ruling.judges_ofAssessed s.solver.policy ⟨users.map s.solver.samplingEntry⟩ hrows
    cs.length
  rw [← Solver.samplingSet_eq hsampling] at judges
  exact judges

/-- With sampling variables, a search that looked for blocks decides first on all components
with more than the least number of rows, by the part of the sampling variables that they
cover and nothing else, and then on the others, by the limits and the places that are left. -/
theorem find_judges_by_sampling (hr : s.solver.Reachable) (hc : s.solver.consistent = true)
    (hm : s.solver.matrices = []) (hsampling : s.solver.settings.sampling = some users)
    (hok : (s.find elapsed).2 = .ok report) (hskip : report.skipped = none) :
    let thresholds := s.solver.settings.thresholds
    let p := Policy.ofThresholds thresholds (max thresholds.maxRows (3 * users.length))
    ∃ cs components set ratio, s.solver.prepare = .ok cs ∧
      s.solver.components cs = .ok components ∧ s.solver.samplingSet = some set ∧
      (∀ c ∈ components, set.ratio c.members s.solver.flags = (.ok (ratio c), s.solver.flags)) ∧
      components = (components.filter fun c => decide (p.minRows < c.shape.rows)) ++
        components.filter (fun c => decide (c.shape.rows ≤ p.minRows)) ∧
      p.Judges ratio components report.decisions ∧
      (∀ d ∈ report.decisions, d.shape.rows ≤ p.minRows →
        d.verdict ≠ .acceptedBySampling ∧ d.verdict ≠ .rejected .lowSamplingRatio) ∧
      (thresholds.minRows ≤ thresholds.maxRows →
        ∀ d ∈ report.decisions, d.verdict ≠ .rejected .tooManyRows) := by
  intro thresholds p
  have hs := hr.wellFormed
  obtain ⟨cs, hp, hcomponents, judges⟩ := exists_judges_of_find hs hc hm hsampling hok hskip
  rw [Solver.policy_eq_of_sampling hsampling] at judges
  refine ⟨cs, _, _, _, hp, hcomponents, Solver.samplingSet_eq hsampling, fun c hc => ?_,
    Component.split_ranked _ _ _, judges, judges.unsampled, fun hle => ?_⟩
  · rw [hs.flags]
    exact SamplingSet.ratio_eq _ (Solver.lt_of_mem_ranked (Solver.lt_of_prepare hp) c hc)
  · exact judges.ne_tooManyRows (Nat.le_trans hle (Nat.le_max_left _ _))

/-- A session with components of three rows, one of which covers four of the five sampling
variables and has too many columns, and components of two rows and of one. -/
def sampling : Session where
  solver :=
    [.configure { thresholds := { maxRows := 1, maxColumns := 3, minRows := 2, maxMatrices := 2 },
                  sampling := some [0, 2, 3, 4, 16] },
      .assign 16 true, .add [0, 1] true, .add [1, 2] true, .add [2, 3] true, .add [4, 5] true,
      .add [5, 6] true, .add [6, 7] true, .add [8, 9] true, .add [9, 10] true, .add [11, 12] true,
      .add [12, 13] true, .add [14, 15] true, .add [17, 18] true,
      .add [18, 19, 20] true].foldl Solver.perform (.new 21 {})

theorem find_judges_by_sampling_sample :
    let thresholds := sampling.solver.settings.thresholds
    let p := Policy.ofThresholds thresholds (max thresholds.maxRows (3 * 5))
    sampling.solver.Reachable ∧ sampling.solver.consistent = true ∧
      sampling.solver.matrices = [] ∧
      sampling.solver.settings.sampling = some [0, 2, 3, 4, 16] ∧
      ∃ report cs components set ratio, (sampling.find .zero).2 = .ok report ∧
        report.skipped = none ∧
        report.decisions.map Decision.verdict =
          [.acceptedBySampling, .rejected .lowSamplingRatio, .accepted, .rejected .matrixLimit,
            .rejected .tooManyColumns, .rejected .tooFewRows] ∧
        sampling.solver.prepare = .ok cs ∧ sampling.solver.components cs = .ok components ∧
        sampling.solver.samplingSet = some set ∧
        (∀ c ∈ components,
          set.ratio c.members sampling.solver.flags = (.ok (ratio c), sampling.solver.flags)) ∧
        p.Judges ratio components report.decisions := by
  have hr : sampling.solver.Reachable := by
    dsimp only [sampling]
    exact Solver.Reachable.foldl (.new {} (by decide)) _
  have hc : sampling.solver.consistent = true := by decide +kernel
  have hm : sampling.solver.matrices = [] := by decide +kernel
  have hsampling : sampling.solver.settings.sampling = some [0, 2, 3, 4, 16] := by decide +kernel
  have hfind : ((sampling.find .zero).2.toOption.any fun report => decide (report.skipped = none ∧
      report.decisions.map Decision.verdict =
        [.acceptedBySampling, .rejected .lowSamplingRatio, .accepted, .rejected .matrixLimit,
          .rejected .tooManyColumns, .rejected .tooFewRows])) = true := by decide +kernel
  obtain ⟨report, hok, h⟩ := Checked.exists_eq_ok hfind
  obtain ⟨hskip, hverdicts⟩ := of_decide_eq_true h
  obtain ⟨cs, components, set, ratio, hp, hcomponents, hset, hratio, -, judges, -, -⟩ :=
    find_judges_by_sampling hr hc hm hsampling hok hskip
  exact ⟨hr, hc, hm, hsampling, report, cs, components, set, ratio, hok, hskip, hverdicts, hp,
    hcomponents, hset, hratio, judges⟩

end Session

end ParityBlocks
