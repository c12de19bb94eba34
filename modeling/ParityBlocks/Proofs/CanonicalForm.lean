import Mathlib.Logic.Relation
import ParityBlocks.Proofs.Contradictions

/-!
# Cleaning to a canonical form

Cleaning collects what stands for the variables of a constraint in one loop, adds known values to
the parity on the way, sorts what was collected and keeps a variable of each run of odd length
(`Solver.reduceInTurn`). In a sorted list such runs are of the variables that occur an odd number
of times (`Ascending.oddRuns_eq_oddOf`, by induction with `toggle` for each variable that comes in
front), so the loop comes to the reduction (`Solver.reduceInTurn_eq`).

The reduction is a function of the parity of a constraint, and of whether each variable stands for
an even or an odd number of its variables. So it does not depend on their order, and a variable
that is inserted twice leaves no trace (`Solver.reduced_congr`). What it leaves stands for itself
and has no value, so that cleaning again finds nothing to do (`Solver.clean_is_canonical`).
-/

namespace ParityBlocks

/-! ## Runs of equal numbers -/

theorem Sorting.pairwise_le_sort (vs : List Nat) :
    (sort (fun v w => decide (v ≤ w)) vs).Pairwise (· ≤ ·) := by
  have sorted : (sort (fun v w => decide (v ≤ w)) vs).Pairwise fun v w => decide (v ≤ w) = true :=
    pairwise_sort (fun v w => by simpa only [decide_eq_true_iff] using Nat.le_total v w)
      (fun u v w => by simpa only [decide_eq_true_iff] using Nat.le_trans) vs
  exact sorted.imp of_decide_eq_true

namespace Ascending

/-- The runs of equal numbers in a list, each with its length. -/
def runs : List Nat → List (Nat × Nat)
  | [] => []
  | v :: vs =>
    match runs vs with
    | [] => [(1, v)]
    | (n, w) :: rest => if v = w then (n + 1, w) :: rest else (1, v) :: (n, w) :: rest

/-- The numbers of the runs of odd length. -/
def oddRuns (vs : List Nat) : List Nat := ((runs vs).filter fun r => r.1 % 2 == 1).map Prod.snd

theorem toggle_of_forall_lt {v : Nat} {ws : List Nat} (h : ∀ w ∈ ws, v < w) :
    toggle v ws = v :: ws := by
  cases ws with
  | nil => rfl
  | cons w ws => rw [toggle, if_pos (h w List.mem_cons_self)]

/-- In a sorted list equal numbers are next to each other, so the runs ascend. -/
theorem pairwise_runs {vs : List Nat} (h : vs.Pairwise (· ≤ ·)) :
    (runs vs).Pairwise (fun r r' => r.2 < r'.2) ∧ ∀ r ∈ runs vs, r.2 ∈ vs := by
  induction vs with
  | nil => exact ⟨.nil, List.forall_mem_nil _⟩
  | cons v vs ih =>
    obtain ⟨hv, h⟩ := List.pairwise_cons.mp h
    obtain ⟨ascending, members⟩ := ih h
    rw [runs]
    generalize runs vs = rs at ascending members
    cases rs with
    | nil => exact ⟨List.pairwise_singleton _ _, by simp⟩
    | cons r rest =>
      obtain ⟨n, w⟩ := r
      obtain ⟨hw, hrest⟩ := List.forall_mem_cons.mp members
      obtain ⟨above, ascending'⟩ := List.pairwise_cons.mp ascending
      have kept : ∀ r ∈ rest, r.2 ∈ v :: vs := fun r hr => List.mem_cons_of_mem _ (hrest r hr)
      dsimp only
      split
      · exact ⟨List.pairwise_cons.mpr ⟨above, ascending'⟩,
          List.forall_mem_cons.mpr ⟨List.mem_cons_of_mem _ hw, kept⟩⟩
      · rename_i hne
        have hlt : v < w := Nat.lt_of_le_of_ne (hv w hw) hne
        refine ⟨List.pairwise_cons.mpr ⟨?_, ascending⟩, List.forall_mem_cons.mpr
          ⟨List.mem_cons_self, List.forall_mem_cons.mpr ⟨List.mem_cons_of_mem _ hw, kept⟩⟩⟩
        exact List.forall_mem_cons.mpr ⟨hlt, fun r hr => hlt.trans (above r hr)⟩

/-- In a sorted list the runs of odd length are of the numbers that occur an odd number of
times. -/
theorem oddRuns_eq_oddOf {vs : List Nat} (h : vs.Pairwise (· ≤ ·)) : oddRuns vs = oddOf vs := by
  induction vs with
  | nil => rfl
  | cons v vs ih =>
    obtain ⟨hv, h⟩ := List.pairwise_cons.mp h
    obtain ⟨ascending, members⟩ := pairwise_runs h
    show oddRuns (v :: vs) = toggle v (oddOf vs)
    rw [← ih h, oddRuns, oddRuns, runs]
    generalize runs vs = rs at ascending members
    cases rs with
    | nil => rfl
    | cons r rest =>
      obtain ⟨n, w⟩ := r
      obtain ⟨above, -⟩ := List.pairwise_cons.mp ascending
      have later : ∀ x ∈ ((rest.filter fun r => r.1 % 2 == 1).map Prod.snd), w < x :=
        List.forall_mem_map.mpr fun r hr => above r (List.mem_of_mem_filter hr)
      dsimp only
      split
      · rename_i hvw
        subst hvw
        -- One more makes an odd run even and an even run odd.
        rcases Nat.mod_two_eq_zero_or_one n with hn | hn
        · have hn' : (n + 1) % 2 = 1 := by omega
          simp only [List.filter_cons, hn, hn', List.map_cons, beq_self_eq_true, if_true]
          exact (toggle_of_forall_lt later).symm
        · have hn' : (n + 1) % 2 = 0 := by omega
          simp only [List.filter_cons, hn, hn', List.map_cons, beq_self_eq_true, if_true]
          simp [toggle]
      · rename_i hvw
        have hlt : v < w := Nat.lt_of_le_of_ne (hv w (members _ List.mem_cons_self)) hvw
        have all : ∀ x ∈ ((((n, w) :: rest).filter fun r => r.1 % 2 == 1).map Prod.snd), v < x := by
          refine List.forall_mem_map.mpr fun r hr => ?_
          obtain rfl | hr := List.mem_cons.mp (List.mem_of_mem_filter hr)
          · exact hlt
          · exact hlt.trans (above r hr)
        rw [toggle_of_forall_lt all]
        rfl

end Ascending

/-! ## Constraints with the same sum -/

/-- One list becomes the other by a change of order, or by a variable that is inserted twice. -/
inductive Rearranges : List Var → List Var → Prop
  | perm {vs ws : List Var} (h : vs.Perm ws) : Rearranges vs ws
  | twice (v : Var) (vs : List Var) : Rearranges vs (v :: v :: vs)

/-- The constraints have the same parity, and lists of variables that become each other by any
number of such changes and their reversals. -/
def Constraint.SameSum (c d : Constraint) : Prop :=
  Relation.EqvGen Rearranges c.vars d.vars ∧ c.rhs = d.rhs

/-- What stands for the variables occurs an even number of times in both lists, or an odd one. -/
theorem count_map_of_eqvGen (f : Var → Var) {vs ws : List Var}
    (h : Relation.EqvGen Rearranges vs ws) (w : Var) :
    (vs.map f).count w % 2 = (ws.map f).count w % 2 := by
  induction h with
  | rel vs ws h =>
    cases h with
    | perm h => rw [(h.map f).count_eq]
    | twice v vs =>
      rw [List.map_cons, List.map_cons, List.count_cons, List.count_cons]
      split <;> omega
  | refl vs => rfl
  | symm vs ws _ ih => exact ih.symm
  | trans vs ws xs _ _ ih ih' => exact ih.trans ih'

theorem parity_congr (a : Var → Bool) {vs ws : List Var}
    (h : ∀ v, vs.count v % 2 = ws.count v % 2) : parity a vs = parity a ws := by
  rw [← parity_oddOf a vs, Ascending.oddOf_congr h, parity_oddOf]

namespace Solver

variable {s : Solver} {c d : Constraint}

/-! ## Reducing in one loop -/

/-- Takes one more variable: what stands for it is added to those found, or its value to the
parity. -/
def gather (s : Solver) (found : List Var × Bool) (v : Var) : Except Fault (List Var × Bool) := do
  let (w, value) ← s.substitute v
  match value with
  | some b => return (found.1, found.2 ^^ b)
  | none => return (found.1 ++ [w], found.2)

/-- The reduction in one loop: what it has found is sorted, and runs of even length are dropped. -/
def reduceInTurn (s : Solver) (c : Constraint) : Except Fault Constraint := do
  let (found, rhs) ← c.vars.foldlM s.gather ([], c.rhs)
  let sorted := Sorting.sort (fun v w => decide (v ≤ w)) found
  return { c with vars := Ascending.oddRuns sorted, rhs := rhs }

theorem foldlM_gather (s : Solver) (vars : List Var) (found : List Var × Bool) :
    vars.foldlM s.gather found = (vars.mapM s.substitute).map fun terms =>
      (found.1 ++ terms.filterMap (fun (w, value) => if value.isNone then some w else none),
        (terms.filterMap Prod.snd).foldl (· ^^ ·) found.2) := by
  induction vars generalizing found with
  | nil =>
    show Except.ok found = Except.ok (found.1 ++ [], found.2)
    rw [List.append_nil]
  | cons v vs ih =>
    rw [List.foldlM_cons, List.mapM_cons, gather]
    cases s.substitute v with
    | error fault => rfl
    | ok term =>
      obtain ⟨w, value⟩ := term
      cases value with
      | some b =>
        show vs.foldlM s.gather (found.1, found.2 ^^ b) = _
        rw [ih]
        cases vs.mapM s.substitute <;> rfl
      | none =>
        show vs.foldlM s.gather (found.1 ++ [w], found.2) = _
        rw [ih]
        cases vs.mapM s.substitute with
        | error fault => rfl
        | ok terms => simp [Except.map, bind, Except.bind, pure, Except.pure]

/-- The loop comes to the reduction: sorting does not change how often a variable was found. -/
theorem reduceInTurn_eq (s : Solver) (c : Constraint) : s.reduceInTurn c = s.reduce c := by
  rw [reduceInTurn, reduce, foldlM_gather]
  cases c.vars.mapM s.substitute with
  | error fault => rfl
  | ok terms =>
    have odd : ∀ vs : List Var,
        Ascending.oddRuns (Sorting.sort (fun v w => decide (v ≤ w)) vs) = Ascending.oddOf vs := by
      intro vs
      rw [Ascending.oddRuns_eq_oddOf (Sorting.pairwise_le_sort vs)]
      exact Ascending.oddOf_congr fun v => by rw [(Sorting.perm_sort _ vs).count_eq]
    show Except.ok _ = Except.ok _
    rw [odd]
    rfl

/-! ## The reduction as a function of the sum -/

theorem mem_support_iff {w : Var} :
    w ∈ s.support c ↔ s.value w = none ∧ (s.standIns c).count w % 2 = 1 := by
  rw [support, Finset.mem_filter, List.mem_toFinset]
  exact and_iff_right_of_imp fun h => List.count_pos_iff.mp (by omega)

/-- Constraints with the same sum are reduced to the same variables and the same parity. -/
theorem reduced_congr (h : c.SameSum d) :
    (s.reduced c).vars = (s.reduced d).vars ∧ (s.reduced c).rhs = (s.reduced d).rhs := by
  have counts : ∀ w, (s.standIns c).count w % 2 = (s.standIns d).count w % 2 :=
    count_map_of_eqvGen s.standIn h.1
  constructor
  · rw [vars_reduced_eq_iff]
    ext w
    rw [mem_support_iff, mem_support_iff, counts]
  · show s.balance c = s.balance d
    rw [balance, balance, h.2, parity_congr s.known counts]

/-! ## Cleaning a list -/

/-- The constraint `c'` is the canonical form of `c`. -/
structure IsCanonicalForm (s : Solver) (c c' : Constraint) : Prop where
  replacement {v : Var} : v ∈ c.vars → s.numbering.replacementOf v = .ok (s.standIn v)
  ascending : c'.vars.Pairwise (· < ·)
  mem_vars {w : Var} : w ∈ c'.vars ↔ s.value w = none ∧ (s.standIns c).count w % 2 = 1
  rhs_eq : c'.rhs = ((s.standIns c).filterMap s.value).foldl (· ^^ ·) c.rhs
  cancelled_eq : c'.cancelled = c.cancelled
  placement_eq : c'.placement = c.placement
  /-- One loop over the variables comes to it. -/
  in_turn : s.reduceInTurn c = .ok c'

theorem WellFormed.isCanonicalForm_reduced (hs : s.WellFormed) (hc : ∀ v ∈ c.vars, v < s.varCount) :
    s.IsCanonicalForm c (s.reduced c) where
  replacement hv := (substitute_eq_ok.mp (hs.substitute_eq (hc _ hv))).1
  ascending := Ascending.pairwise_oddOf _
  mem_vars := mem_vars_reduced.trans mem_support_iff
  rhs_eq := (foldl_known s _ _).symm
  cancelled_eq := rfl
  placement_eq := rfl
  in_turn := (s.reduceInTurn_eq c).trans (hs.reduce_eq hc)

/-- Cleaning comes to a result if no constraint is reduced to `0 = 1`, and then it leaves the
solver as it was and the reductions in their places. -/
theorem WellFormed.clean_eq_iff (hs : s.WellFormed) {cs cs' : List Constraint}
    (hcs : ∀ c ∈ cs, ∀ v ∈ c.vars, v < s.varCount) :
    s.clean cs = ⟨s, cs', .ok ()⟩ ↔
      cs' = cs.map s.reduced ∧ ∀ c ∈ cs, (s.reduced c).isAbsurd = false := by
  rw [← hs.forall₂_reduce_iff hcs, ← reduceAll_eq_ok, clean]
  generalize s.reduceAll cs = r
  obtain ⟨left, outcome⟩ := r
  constructor
  · intro h
    obtain ⟨-, rfl, rfl⟩ := Pass.mk.inj h
    rfl
  · intro h
    obtain ⟨rfl, rfl⟩ := Prod.mk.inj h
    rfl

theorem clean_of_ok {cs : List Constraint} (hok : (s.clean cs).outcome = .ok ()) :
    s.clean cs = ⟨s, (s.clean cs).constraints, .ok ()⟩ := by
  have solver_eq : (s.clean cs).solver = s.noting (s.clean cs).outcome := rfl
  rw [hok] at solver_eq
  exact congr_arg₂ (fun t outcome => Pass.mk t (s.clean cs).constraints outcome) solver_eq hok

/-- Where cleaning comes to a result, it has brought each constraint into its canonical form and
changed nothing else. What is left in the constraints stands for itself and has no value, and
cleaning them again changes nothing. Constraints with the same sums are cleaned to the same
variables and parities. -/
theorem clean_is_canonical (hr : s.Reachable) {cs : List Constraint}
    (hcs : ∀ c ∈ cs, ∀ v ∈ c.vars, v < s.varCount) (hok : (s.clean cs).outcome = .ok ()) :
    ∃ cs', s.clean cs = ⟨s, cs', .ok ()⟩ ∧
      List.Forall₂ s.IsCanonicalForm cs cs' ∧
      (∀ c' ∈ cs', ∀ w ∈ c'.vars, s.value w = none ∧ s.numbering.replacementOf w = .ok w) ∧
      s.clean cs' = ⟨s, cs', .ok ()⟩ ∧
      ∀ ds : List Constraint, (∀ d ∈ ds, ∀ v ∈ d.vars, v < s.varCount) →
        List.Forall₂ Constraint.SameSum cs ds →
          ∃ ds', s.clean ds = ⟨s, ds', .ok ()⟩ ∧
            List.Forall₂ (fun c' d' => c'.vars = d'.vars ∧ c'.rhs = d'.rhs) cs' ds' := by
  have hs := hr.wellFormed
  have cleaned := clean_of_ok hok
  obtain ⟨constraints_eq, sound⟩ := (hs.clean_eq_iff hcs).mp cleaned
  rw [constraints_eq] at cleaned
  refine ⟨_, cleaned, ?_, ?_, ?_, ?_⟩
  · rw [List.forall₂_map_right_iff, List.forall₂_same]
    exact fun c hc => hs.isCanonicalForm_reduced (hcs c hc)
  · refine List.forall_mem_map.mpr fun c hc w hw => ?_
    obtain ⟨hfixed, -⟩ := substitute_eq_ok.mp (hs.substitute_of_reduce (hs.reduce_eq (hcs c hc)) w hw)
    exact ⟨(mem_support_iff.mp (mem_vars_reduced.mp hw)).1, hfixed⟩
  · have known : ∀ c' ∈ cs.map s.reduced, ∀ v ∈ c'.vars, v < s.varCount :=
      List.forall_mem_map.mpr fun c hc => lt_of_reduce (hs.reduce_eq (hcs c hc))
    have fixed : ∀ c ∈ cs, s.reduced (s.reduced c) = s.reduced c := fun c hc =>
      have again := hs.reduce_reduce (hs.reduce_eq (hcs c hc))
      Except.ok.inj ((hs.reduce_eq (known _ (List.mem_map_of_mem hc))).symm.trans again)
    refine (hs.clean_eq_iff known).mpr ⟨?_, List.forall_mem_map.mpr fun c hc => ?_⟩
    · rw [List.map_map]
      exact (List.map_congr_left fun c hc => fixed c hc).symm
    · rw [fixed c hc]
      exact sound c hc
  · intro ds hds same
    have alike : List.Forall₂ (fun c d => (s.reduced c).vars = (s.reduced d).vars ∧
        (s.reduced c).rhs = (s.reduced d).rhs) cs ds := same.imp fun _ _ => reduced_congr
    refine ⟨ds.map s.reduced, (hs.clean_eq_iff hds).mpr ⟨rfl, ?_⟩, ?_⟩
    · refine (forall_mem_iff_of_forall₂ alike fun c _ d h => ?_).mp sound
      rw [Constraint.isAbsurd, Constraint.isAbsurd, Constraint.isTrivial, Constraint.isTrivial,
        h.1, h.2]
    · rwa [List.forall₂_map_left_iff, List.forall₂_map_right_iff]

/-- A solver with other inner numbers, a replacement and a value. The two constraints have
variables that come to stand for the same one, and variables that occur three times and twice. -/
theorem clean_is_canonical_sample :
    let s := [.replace 1 0, .renumber [2, 0, 1, 4, 3], .assign 4 true].foldl perform (.new 5 {})
    let cs : List Constraint :=
      [⟨[0, 1, 2, 4], false, [3], .inPool⟩, ⟨[3, 1, 3, 4, 1, 3], true, [], .inMatrix 2⟩]
    let ds : List Constraint :=
      [⟨[3, 3, 0, 1, 2, 4], false, [], .undecided⟩, ⟨[1, 1, 3, 3, 3, 4], true, [], .undecided⟩]
    s.Reachable ∧ (∀ c ∈ cs, ∀ v ∈ c.vars, v < s.varCount) ∧ (s.clean cs).outcome = .ok () ∧
      (∀ d ∈ ds, ∀ v ∈ d.vars, v < s.varCount) ∧ List.Forall₂ Constraint.SameSum cs ds ∧
      (s.clean cs).constraints =
        [⟨[1], true, [3], .inPool⟩, ⟨[3], false, [], .inMatrix 2⟩] ∧
      ∃ cs', s.clean cs = ⟨s, cs', .ok ()⟩ ∧ List.Forall₂ s.IsCanonicalForm cs cs' ∧
        s.clean cs' = ⟨s, cs', .ok ()⟩ ∧
        ∃ ds', s.clean ds = ⟨s, ds', .ok ()⟩ ∧
          List.Forall₂ (fun c' d' => c'.vars = d'.vars ∧ c'.rhs = d'.rhs) cs' ds' := by
  intro s cs ds
  have hr : s.Reachable := Reachable.foldl (.new {} (by decide)) _
  have hcs : ∀ c ∈ cs, ∀ v ∈ c.vars, v < s.varCount := by decide +kernel
  have hds : ∀ d ∈ ds, ∀ v ∈ d.vars, v < s.varCount := by decide +kernel
  have hok : (s.clean cs).outcome = .ok () := by
    obtain ⟨_, hok, -⟩ := Checked.exists_eq_ok (p := fun _ => true)
      (x := (s.clean cs).outcome) (by decide +kernel)
    exact hok
  have same : List.Forall₂ Constraint.SameSum cs ds :=
    .cons ⟨.rel _ _ (.twice 3 _), rfl⟩ (.cons ⟨.rel _ _ (.perm (by decide)), rfl⟩ .nil)
  obtain ⟨cs', cleaned, forms, -, again, congr⟩ := clean_is_canonical hr hcs hok
  exact ⟨hr, hcs, hok, hds, same, by decide +kernel, cs', cleaned, forms, again, congr ds hds same⟩

end Solver

end ParityBlocks
