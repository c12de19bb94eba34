import Mathlib.Data.Finset.Card
import ParityBlocks.Proofs.Account
import ParityBlocks.Proofs.Competition
import ParityBlocks.Proofs.Family

/-!
# The outlines of components

The outline of a component is what it is judged by: its shape, but for its number, and
the covered part of the sampling variables. It is known from the set of its members and
the lists of variables of all constraints (`Component.outline_gather`). So constraints
with the same lists of variables, in another order, have components with the same
outlines (`Solver.perm_outlines`), and the same verdicts are given on them, the limit for
matrices being met by as many (`Solver.perm_verdicts`).
-/

namespace ParityBlocks

/-- The shape without the number of its component. -/
def Shape.unnumbered (s : Shape) : Shape := { s with id := 0 }

/-- The shape of rows with these variables, with `cols` variables in all. -/
def Shape.ofLists (lists : List (List Var)) (cols : Nat) : Shape :=
  let sizeSum := lists.foldr (fun vs n => vs.length + n) 0
  { id := 0
    rows := lists.length
    cols := cols
    sizeSum := sizeSum
    density :=
      if 0 < lists.length * cols then .quotient sizeSum (lists.length * cols) else .zero }

/-- What a component is judged by. -/
abbrev Outline := Shape × Option Binary64

/-- The outline of the component that was decided about. -/
def Decision.outline (d : Decision) : Outline := (d.shape.unnumbered, d.ratio)

def Assessed.outline (a : Assessed) : Outline := (a.component.shape.unnumbered, a.ratio)

theorem Shape.unnumbered_ofRows (id : Nat) (members : List Var) (rows : List Constraint) :
    (ofRows id members rows).unnumbered = ofLists (rows.map Constraint.vars) members.length := by
  simp only [unnumbered, ofRows, ofLists, List.foldr_map, List.length_map]

theorem Shape.ofLists_congr {lists lists' : List (List Var)} (h : lists.Perm lists') (cols : Nat) :
    ofLists lists cols = ofLists lists' cols := by
  have comm : LeftCommutative fun (vs : List Var) (n : Nat) => vs.length + n :=
    ⟨fun _ _ _ => Nat.add_left_comm _ _ _⟩
  rw [ofLists, ofLists, h.length_eq, h.foldr_eq]

namespace Component

variable {sampling : Option SamplingSet}

/-- The outline of a component with these members, where the constraints have these lists
of variables. -/
def outlineOf (sampling : Option SamplingSet) (lists : List (List Var)) (members : Finset Var) :
    Outline :=
  (.ofLists (lists.filter fun vs => vs.head?.any fun v => decide (v ∈ members)) members.card,
    sampling.map fun set => set.share fun v => decide (v ∈ members))

theorem outlineOf_congr {lists lists' : List (List Var)} (h : lists.Perm lists') :
    outlineOf sampling lists = outlineOf sampling lists' := by
  funext members
  rw [outlineOf, outlineOf, Shape.ofLists_congr (h.filter _)]

variable {p : Partition} {cs : List Constraint}

theorem outline_gather (hp : p.Represents (cs.map Constraint.vars)) {id : Nat} {ms : List Var}
    (hms : p.membersOf id = some ms) :
    (Assessed.of sampling (gather p cs id ms)).outline =
      outlineOf sampling (cs.map Constraint.vars) ms.toFinset := by
  have rows : (gather p cs id ms).rows.map Constraint.vars =
      (cs.map Constraint.vars).filter fun vs => vs.head?.any fun v => decide (v ∈ ms.toFinset) := by
    rw [gather, List.filter_map]
    refine congrArg _ (List.filter_congr fun c _ => ?_)
    rw [Function.comp, idOf]
    cases c.vars.head? with
    | none => rfl
    | some v =>
      rw [Option.bind_some, Option.any_some, Bool.eq_iff_iff, beq_iff_eq, decide_eq_true_iff,
        List.mem_toFinset, hp.valid.mem_iff hms]
  have members : (fun v => decide (v ∈ (gather p cs id ms).members)) =
      fun v => decide (v ∈ ms.toFinset) :=
    funext fun v => decide_eq_decide.mpr List.mem_toFinset.symm
  have cols : ms.length = ms.toFinset.card :=
    (List.toFinset_card_of_nodup (hp.valid.nodup hms)).symm
  rw [Assessed.outline, Assessed.of, outlineOf, ← rows, ← cols, members]
  exact Prod.ext (Shape.unnumbered_ofRows id ms _) rfl

theorem map_outline_found (hp : p.Represents (cs.map Constraint.vars)) :
    (found p cs).map (fun c => (Assessed.of sampling c).outline) =
      p.family.map (outlineOf sampling (cs.map Constraint.vars)) := by
  rw [found, Partition.family, List.map_map, List.map_map]
  refine List.map_congr_left fun x h => ?_
  obtain ⟨id, ms⟩ := x
  exact outline_gather hp (Partition.mem_components.mp h)

end Component

namespace Solver

variable {s : Solver} {cs ds : List Constraint}

/-- Constraints with the same lists of variables have components with the same outlines. -/
theorem perm_outlines (hcs : ∀ c ∈ cs, ∀ v ∈ c.vars, v < s.varCount)
    (h : (cs.map Constraint.vars).Perm (ds.map Constraint.vars)) :
    ((s.assessed cs).map Assessed.outline).Perm ((s.assessed ds).map Assessed.outline) := by
  have hlists : ∀ vs ∈ cs.map Constraint.vars, ∀ v ∈ vs, v < s.varCount :=
    List.forall_mem_map.mpr hcs
  have hp := Partition.represents_ofLists hlists
  have hq := Partition.represents_ofLists fun vs hvs => hlists vs (h.mem_iff.mpr hvs)
  have family := hp.perm_family hq (fun vs hvs => ⟨vs, h.mem_iff.mp hvs, .refl _⟩)
    fun vs hvs => ⟨vs, h.mem_iff.mpr hvs, .refl _⟩
  -- the order of competition does not matter here
  have outlines : ∀ {p : Partition} {es : List Constraint}, p.Represents (es.map Constraint.vars) →
      (((Component.ranked p es).map (Assessed.of s.samplingSet)).map Assessed.outline).Perm
        (p.family.map (Component.outlineOf s.samplingSet (es.map Constraint.vars))) := by
    intro p es hp
    rw [List.map_map]
    refine ((Component.perm_ranked p es).map _).trans (.of_eq ?_)
    exact Component.map_outline_found hp
  refine (outlines hp).trans (.trans ?_ (outlines hq).symm)
  rw [Component.outlineOf_congr h]
  exact family.map _

theorem map_outline_rulings (hcs : ∀ c ∈ cs, ∀ v ∈ c.vars, v < s.varCount) :
    (s.rulings cs).map (fun r => r.decision.outline) = (s.assessed cs).map Assessed.outline := by
  have parts := congrArg (List.map fun x => (x.1.unnumbered, x.2.1))
    (Ruling.map_parts_ofAssessed s.policy 0 (rows_ne_zero_of_mem_assessed hcs))
  rwa [List.map_map, List.map_map] at parts

/-- Components with the same outlines get the same verdicts. -/
theorem perm_verdicts (hcs : ∀ c ∈ cs, ∀ v ∈ c.vars, v < s.varCount)
    (hds : ∀ d ∈ ds, ∀ v ∈ d.vars, v < s.varCount)
    (h : (cs.map Constraint.vars).Perm (ds.map Constraint.vars)) :
    ((s.rulings cs).map fun r => r.decision.verdict).Perm
      ((s.rulings ds).map fun r => r.decision.verdict) := by
  have outlines := perm_outlines hcs h
  have settled : ((s.assessed cs).filterMap (Assessed.merit s.policy)).Perm
      ((s.assessed ds).filterMap (Assessed.merit s.policy)) := by
    have perm := outlines.filterMap fun o => s.policy.merit o.1 o.2
    rwa [List.filterMap_map, List.filterMap_map] at perm
  have others : ((s.assessed cs).countP fun a => (a.merit s.policy).isNone) =
      (s.assessed ds).countP fun a => (a.merit s.policy).isNone := by
    have count := outlines.countP_eq fun o => (s.policy.merit o.1 o.2).isNone
    rwa [List.countP_map, List.countP_map] at count
  have given : ∀ {es : List Constraint}, (∀ e ∈ es, ∀ v ∈ e.vars, v < s.varCount) → _ :=
    fun {es} hes => Ruling.perm_verdicts_ofAssessed (rows_ne_zero_of_mem_assessed hes)
      (Assessed.settled_of_pairwise s.policy (Component.pairwise_ranked _ _)) 0
  refine (given hcs).trans (.trans ?_ (given hds).symm)
  rw [settled.countP_eq, others]
  exact settled.append_right _

end Solver

end ParityBlocks
