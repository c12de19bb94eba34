import ParityBlocks.Proofs.Precedence
import ParityBlocks.Proofs.Rounding

/-!
# Sampling variables that components cover

A component covers the sampling variables that have a value and those among its members
(`SamplingSet.covered_eq`). No two components have a member in common
(`Component.pairwise_disjoint_ranked`), so a sampling variable without a value is covered by
one component at the most (`SamplingSet.foldr_covered_le`).

A component that is accepted for its ratio covers more than half of the sampling variables
(`SamplingSet.lt_of_atLeast`): the threshold is above one half, and one half is a double
(`Binary64.magnitude_quotient_le`). If no sampling variable has a value there is thus one such
component at the most (`Session.find_shares_coverage`).
-/

namespace ParityBlocks

/-! ## Counting -/

/-- What is counted by predicates that exclude each other is counted once. -/
theorem foldr_countP_le {α β : Type} {p : β → α → Bool} {bs : List β} (xs : List α)
    (hp : bs.Pairwise fun b c => ∀ x, p b x = true → p c x = false) {q : α → Bool}
    (hq : ∀ b ∈ bs, ∀ x, p b x = true → q x = true) :
    bs.foldr (fun b n => xs.countP (p b) + n) 0 ≤ xs.countP q := by
  induction bs generalizing q with
  | nil => exact Nat.zero_le _
  | cons b bs ih =>
    obtain ⟨hb, hp⟩ := List.pairwise_cons.mp hp
    -- the others count only what `b` does not
    have rest : bs.foldr (fun b n => xs.countP (p b) + n) 0 ≤
        xs.countP fun x => q x && !p b x := by
      refine ih hp fun c hc x hx => ?_
      have hbx : p b x = false := by
        by_contra h
        rw [hb c hc x (by simpa using h)] at hx
        cases hx
      rw [hq c (List.mem_cons_of_mem _ hc) x hx, hbx]
      rfl
    have own : xs.countP (p b) = xs.countP fun x => q x && p b x := by
      refine List.countP_congr fun x _ => ?_
      rw [Bool.and_eq_true]
      exact ⟨fun h => ⟨hq b List.mem_cons_self x h, h⟩, And.right⟩
    have split := List.countP_eq_countP_filter_add xs q (p b)
    rw [List.countP_filter, List.countP_filter] at split
    rw [List.foldr_cons, own, split]
    exact Nat.add_le_add_left rest _

/-- Those that are counted have the value `m / k` at least. -/
theorem countP_mul_le_foldr {β : Type} {p : β → Bool} {f : β → Nat} {k m : Nat} {bs : List β}
    (h : ∀ b ∈ bs, p b = true → m ≤ k * f b) :
    bs.countP p * m ≤ k * bs.foldr (fun b n => f b + n) 0 := by
  induction bs with
  | nil =>
    rw [List.countP_nil, Nat.zero_mul]
    exact Nat.zero_le _
  | cons b bs ih =>
    obtain ⟨hb, hbs⟩ := List.forall_mem_cons.mp h
    rw [List.countP_cons, List.foldr_cons, Nat.add_mul, Nat.mul_add, Nat.add_comm]
    refine Nat.add_le_add ?_ (ih hbs)
    split
    · rename_i hpb
      rw [Nat.one_mul]
      exact hb hpb
    · rw [Nat.zero_mul]
      exact Nat.zero_le _

/-! ## Coverage -/

namespace SamplingSet

/-- How many sampling variables have a value. -/
def settled (set : SamplingSet) : Nat := set.entries.count .assigned

/-- How many sampling variables a component with these members covers. -/
def covered (set : SamplingSet) (members : List Var) : Nat :=
  set.coveredBy fun v => decide (v ∈ members)

/-- The entry stands for a variable of a list. -/
def isFreeIn (members : List Var) : SamplingEntry → Bool
  | .free v => decide (v ∈ members)
  | .assigned | .unknown => false

theorem covered_eq (set : SamplingSet) (members : List Var) :
    set.covered members = set.settled + set.entries.countP (isFreeIn members) := by
  unfold covered coveredBy settled
  induction set.entries with
  | nil => rfl
  | cons e es ih =>
    rw [List.countP_cons, List.countP_cons, List.count_cons, ih]
    cases e <;> simp [isFreeIn] <;> omega

theorem settled_le_covered (set : SamplingSet) (members : List Var) :
    set.settled ≤ set.covered members := by
  rw [covered_eq]
  exact Nat.le_add_right _ _

/-- Components without common members cover each variable without a value once at the most. -/
theorem foldr_covered_le (set : SamplingSet) {components : List Component}
    (h : components.Pairwise fun b c => b.members.Disjoint c.members) :
    components.foldr (fun c n => (set.covered c.members - set.settled) + n) 0 ≤
      set.size - set.settled := by
  have own : (fun (c : Component) n => (set.covered c.members - set.settled) + n) =
      fun c n => set.entries.countP (isFreeIn c.members) + n := by
    funext c n
    rw [covered_eq, Nat.add_sub_cancel_left]
  have disjoint : components.Pairwise fun b c => ∀ e, isFreeIn b.members e = true →
      isFreeIn c.members e = false := by
    refine h.imp fun hd e he => ?_
    cases e with
    | free v => exact decide_eq_false (hd (of_decide_eq_true he))
    | assigned | unknown => rfl
  have once := foldr_countP_le set.entries disjoint
    (q := fun e => decide ¬(e == SamplingEntry.assigned) = true) fun c _ e he => by
      cases e with
      | free v => rfl
      | assigned => cases he
      | unknown => rfl
  have all := List.length_eq_countP_add_countP (fun e => e == SamplingEntry.assigned)
    (l := set.entries)
  rw [own]
  unfold size settled List.count
  omega

/-- A ratio that reaches the threshold is above one half. -/
theorem lt_of_atLeast {set : SamplingSet} (hsize : set.size < 1 <<< 53) {isMember : Var → Bool}
    (h : (set.share isMember).AtLeast Policy.samplingThreshold) :
    set.size < 2 * set.coveredBy isMember := by
  by_contra hle
  have hmagnitude : (set.share isMember).magnitude ≤ 1022 * Binary64.exponentBit := by
    unfold share
    split
    · decide
    · rename_i hne
      refine Binary64.magnitude_quotient_le ?_ hsize (Nat.le_of_not_lt hle)
      exact List.length_pos_iff.mpr (by simpa using hne)
  have hsigned : (set.share isMember).signedMagnitude ≤ (set.share isMember).magnitude := by
    unfold Binary64.signedMagnitude
    split <;> omega
  have hthreshold : (1022 * Binary64.exponentBit : Int) <
      Policy.samplingThreshold.signedMagnitude := by decide
  have := h.2.2
  omega

end SamplingSet

/-- No two components have a member in common. -/
theorem Component.pairwise_disjoint_ranked {p : Partition} {cs : List Constraint}
    (hp : p.Represents (cs.map Constraint.vars)) :
    (ranked p cs).Pairwise fun b c => b.members.Disjoint c.members := by
  have number : ∀ b ∈ found p cs, ∀ v ∈ b.members, p.componentOf v = some b.shape.id := by
    intro b hb v hv
    obtain ⟨ms, hms, h⟩ := exists_of_mem_found hb
    rw [h] at hv
    exact (hp.valid.mem_iff hms v).mpr hv
  have apart : (found p cs).Pairwise fun b c => b.members.Disjoint c.members := by
    refine (pairwise_id_found p cs).imp_of_mem fun hb hc hne v hv hv' => hne ?_
    exact Option.some.inj ((number _ hb v hv).symm.trans (number _ hc v hv'))
  exact (perm_ranked p cs).symm.pairwise apart List.disjoint_symm

/-- Who is accepted by sampling has a ratio that reaches the threshold. -/
theorem Policy.Judges.exists_atLeast {p : Policy} {ratio : Component → Binary64}
    {components : List Component} {decisions : List Decision}
    (h : p.Judges ratio components decisions) {d : Decision} (hd : d ∈ decisions)
    (hverdict : d.verdict = .acceptedBySampling) :
    ∃ r, d.ratio = some r ∧ r.AtLeast samplingThreshold := by
  have hrows : p.minRows < d.shape.rows := by
    by_contra hle
    exact (h.unsampled d hd (Nat.le_of_not_lt hle)).1 hverdict
  obtain ⟨c, -, -, hr⟩ := exists_component_of_mem h.parts_eq hd
  refine ⟨_, hr, ?_⟩
  by_contra hlow
  have := h.sampled d hd hrows _ hr
  rw [hverdict, bySampling, if_neg hlow] at this
  cases this

/-- If no sampling variable has a value, at most one component is accepted by sampling. -/
theorem SamplingSet.countP_acceptedBySampling_le {p : Policy} {set : SamplingSet}
    {components : List Component} {decisions : List Decision}
    (judges : p.Judges (fun c => set.share fun v => decide (v ∈ c.members)) components decisions)
    (hdisjoint : components.Pairwise fun b c => b.members.Disjoint c.members)
    (hsize : set.size < 1 <<< 53) (hsettled : set.settled = 0) :
    decisions.countP (fun d => d.verdict = .acceptedBySampling) ≤ 1 := by
  let reaches (ratio : Option Binary64) : Bool :=
    ratio.any fun r => decide (r.AtLeast Policy.samplingThreshold)
  let good := components.countP fun c =>
    reaches (some (set.share fun v => decide (v ∈ c.members)))
  have accepted : decisions.countP (fun d => d.verdict = .acceptedBySampling) ≤ good := by
    have parts := congrArg (List.countP fun x => reaches x.2) judges.parts_eq
    rw [List.countP_map, List.countP_map] at parts
    refine Nat.le_trans (List.countP_mono_left fun d hd hverdict => ?_) (Nat.le_of_eq parts)
    obtain ⟨r, hr, hreaches⟩ := judges.exists_atLeast hd (of_decide_eq_true hverdict)
    dsimp only [Function.comp]
    rw [hr]
    exact decide_eq_true hreaches
  have half : good * (set.size + 1) ≤
      2 * components.foldr (fun c n => (set.covered c.members - set.settled) + n) 0 := by
    refine countP_mul_le_foldr fun c _ hc => ?_
    rw [hsettled]
    exact lt_of_atLeast hsize (of_decide_eq_true hc)
  have whole := set.foldr_covered_le hdisjoint
  have : good * (set.size + 1) < 2 * (set.size + 1) := by omega
  have := Nat.lt_of_mul_lt_mul_right this
  omega

namespace Session

variable {s : Session} {elapsed : Duration} {users : List Var} {report : Report}

/-- No sampling variable without a value is covered by two of the components that a search
decides on; if none has a value, the search accepts one component by sampling at the most. -/
theorem find_shares_coverage (hr : s.solver.Reachable) (hc : s.solver.consistent = true)
    (hm : s.solver.matrices = []) (hsampling : s.solver.settings.sampling = some users)
    (hok : (s.find elapsed).2 = .ok report) (hskip : report.skipped = none) :
    ∃ cs components set, s.solver.prepare = .ok cs ∧
      s.solver.components cs = .ok components ∧ s.solver.samplingSet = some set ∧
      set.size = users.length ∧
      (∀ c ∈ components, set.ratio c.members s.solver.flags =
        (.ok (set.share fun v => decide (v ∈ c.members)), s.solver.flags)) ∧
      report.decisions.map (fun d => (d.shape, d.ratio)) = components.map (fun c =>
        (c.shape, some (set.share fun v => decide (v ∈ c.members)))) ∧
      (∀ c ∈ components, set.settled ≤ set.covered c.members) ∧
      components.foldr (fun c n => (set.covered c.members - set.settled) + n) 0 ≤
        users.length - set.settled ∧
      (users.length < 1 <<< 53 → set.settled = 0 →
        report.decisions.countP (fun d => d.verdict = .acceptedBySampling) ≤ 1) := by
  have hs := hr.wellFormed
  obtain ⟨cs, hp, hcomponents, judges⟩ := exists_judges_of_find hs hc hm hsampling hok hskip
  have hcs := Solver.lt_of_prepare hp
  have rep := Partition.represents_ofLists (List.forall_mem_map.mpr hcs)
  have disjoint : (s.solver.ranked cs).Pairwise fun b c => b.members.Disjoint c.members :=
    Component.pairwise_disjoint_ranked rep
  have size_eq : (SamplingSet.mk (users.map s.solver.samplingEntry)).size = users.length :=
    List.length_map _
  have shared := SamplingSet.foldr_covered_le ⟨users.map s.solver.samplingEntry⟩ disjoint
  rw [size_eq] at shared
  refine ⟨cs, _, _, hp, hcomponents, Solver.samplingSet_eq hsampling, size_eq, fun c hc => ?_,
    judges.parts_eq, fun c _ => SamplingSet.settled_le_covered _ _, shared,
    fun hlen hsettled => ?_⟩
  · rw [hs.flags]
    exact SamplingSet.ratio_eq _ (Solver.lt_of_mem_ranked hcs c hc)
  · exact SamplingSet.countP_acceptedBySampling_le judges disjoint (size_eq ▸ hlen) hsettled

/-- A session with two components. The first covers three of five sampling variables, one of
them given twice, and the other covers one. The last one is no variable of the solver. -/
def covering : Session where
  solver :=
    [.configure { thresholds := { minRows := 0, minConstraints := 0 },
                  sampling := some [0, 0, 1, 5, 9] },
      .add [0, 1] true, .add [4, 5] true].foldl Solver.perform (.new 8 {})

theorem find_shares_coverage_sample :
    covering.solver.Reachable ∧ covering.solver.consistent = true ∧
      covering.solver.matrices = [] ∧
      covering.solver.settings.sampling = some [0, 0, 1, 5, 9] ∧
      ∃ report cs components set, (covering.find .zero).2 = .ok report ∧
        report.skipped = none ∧
        report.decisions.map Decision.verdict =
          [.acceptedBySampling, .rejected .lowSamplingRatio] ∧
        covering.solver.prepare = .ok cs ∧ covering.solver.components cs = .ok components ∧
        covering.solver.samplingSet = some set ∧
        components.foldr (fun c n => (set.covered c.members - set.settled) + n) 0 ≤
          5 - set.settled ∧
        set.settled = 0 ∧
        report.decisions.countP (fun d => d.verdict = .acceptedBySampling) ≤ 1 := by
  have hr : covering.solver.Reachable := Solver.Reachable.foldl (.new {} (by decide)) _
  have hc : covering.solver.consistent = true := by decide +kernel
  have hm : covering.solver.matrices = [] := by decide +kernel
  have hsampling : covering.solver.settings.sampling = some [0, 0, 1, 5, 9] := by decide +kernel
  have hset : covering.solver.samplingSet =
      some ⟨[.free 0, .free 0, .free 1, .free 5, .unknown]⟩ := by decide +kernel
  have hfind : ((covering.find .zero).2.toOption.any fun report => decide (report.skipped = none ∧
      report.decisions.map Decision.verdict =
        [.acceptedBySampling, .rejected .lowSamplingRatio])) = true := by decide +kernel
  obtain ⟨report, hok, h⟩ := Checked.exists_eq_ok hfind
  obtain ⟨hskip, hverdicts⟩ := of_decide_eq_true h
  obtain ⟨cs, components, set, hp, hcomponents, hset', -, -, -, -, shared, once⟩ :=
    find_shares_coverage hr hc hm hsampling hok hskip
  obtain rfl := Option.some.inj (hset'.symm.trans hset)
  exact ⟨hr, hc, hm, hsampling, report, cs, components, _, hok, hskip, hverdicts, hp, hcomponents,
    hset, shared, rfl, once (by decide) rfl⟩

end Session

end ParityBlocks
