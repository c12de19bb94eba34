import Mathlib.Data.Finset.Dedup
import ParityBlocks.Proofs.Blocks
import ParityBlocks.Proofs.Preparation

/-!
# The family of components

What the components of constraints are does not depend on how they were found.
`Partition.Connects` says it without a partition's history: a variable has a
component if a constraint mentions it, and two of them have the same one if a
chain of constraints leads from one to the other (`Represents.connects`). So the
sets of members (`Partition.family`) are those of the linked variables
(`Represents.mem_family`), each of them once (`Valid.nodup_family`), and constraints
in another order, with their variables in another order, make the same family
(`Represents.perm_family`).
-/

namespace ParityBlocks

/-- A chain of constraints of `cs` leads from a constraint that mentions `v` to one
that mentions `w`, neighbours sharing a variable. -/
def Connected (cs : List Constraint) (v w : Var) : Prop :=
  ∃ c ∈ cs, ∃ d ∈ cs, v ∈ c.vars ∧ w ∈ d.vars ∧ Constraint.Chained cs c d

/-- Steps between variables of a constraint are steps between the constraints. -/
theorem connected_of_linked {cs : List Constraint} {c : Constraint} {v w : Var} (hc : c ∈ cs)
    (hv : v ∈ c.vars) (h : Partition.Linked (cs.map Constraint.vars) v w) : Connected cs v w := by
  induction h with
  | refl => exact ⟨c, hc, c, hc, hv, hv, .refl⟩
  | tail _ hstep ih =>
    obtain ⟨c, hc, d, hd, hv, hx, hchain⟩ := ih
    obtain ⟨_, hvs, hx', hy⟩ := hstep
    obtain ⟨e, he, rfl⟩ := List.mem_map.mp hvs
    exact ⟨c, hc, e, he, hv, hy, hchain.tail ⟨he, _, hx, hx'⟩⟩

/-- All variables along a chain are linked to those at its start. -/
theorem linked_of_chained {cs : List Constraint} {c d : Constraint} {v w : Var} (hc : c ∈ cs)
    (hv : v ∈ c.vars) (h : Constraint.Chained cs c d) (hw : w ∈ d.vars) :
    Partition.Linked (cs.map Constraint.vars) v w := by
  induction h generalizing w with
  | refl => exact .single ⟨_, List.mem_map_of_mem hc, hv, hw⟩
  | tail _ hstep ih =>
    obtain ⟨he, u, hu, hu'⟩ := hstep
    exact (ih hu).tail ⟨_, List.mem_map_of_mem he, hu', hw⟩

theorem connected_iff_linked {cs : List Constraint} {v w : Var} (hv : ∃ c ∈ cs, v ∈ c.vars) :
    Connected cs v w ↔ Partition.Linked (cs.map Constraint.vars) v w := by
  constructor
  · rintro ⟨c, hc, d, -, hv, hw, hchain⟩
    exact linked_of_chained hc hv hchain hw
  · obtain ⟨c, hc, hv⟩ := hv
    exact connected_of_linked hc hv

namespace Partition

/-- The partition has the components that chains of the constraints make, and its
views by variable and by number agree. -/
structure Connects (p : Partition) (cs : List Constraint) : Prop where
  isSome_iff (v : Var) : (p.componentOf v).isSome ↔ ∃ c ∈ cs, v ∈ c.vars
  same_iff {v w : Var} (hv : ∃ c ∈ cs, v ∈ c.vars) (hw : ∃ c ∈ cs, w ∈ c.vars) :
    p.componentOf v = p.componentOf w ↔ Connected cs v w
  componentOf_iff (v : Var) (id : Nat) :
    p.componentOf v = some id ↔ ∃ ms, p.membersOf id = some ms ∧ v ∈ ms

/-- The sets of members of the live components, by rising number. -/
def family (p : Partition) : List (Finset Var) := p.components.map fun x => x.2.toFinset

theorem mem_family {p : Partition} {members : Finset Var} :
    members ∈ p.family ↔ ∃ id ms, p.membersOf id = some ms ∧ ms.toFinset = members := by
  simp only [family, List.mem_map, Prod.exists, mem_components]

/-- No two live components have the same members. -/
theorem Valid.nodup_family {p : Partition} (hp : p.Valid) : p.family.Nodup := by
  refine List.pairwise_map.mpr ((Component.pairwise_components p).imp_of_mem ?_)
  rintro ⟨i, ms⟩ ⟨j, ns⟩ hi hj hij heq
  rw [mem_components] at hi hj
  obtain ⟨v, hv⟩ := List.exists_mem_of_ne_nil _ (hp.ne_nil hi)
  have hv' : v ∈ ns := List.mem_toFinset.mp (heq ▸ List.mem_toFinset.mpr hv)
  have hsame := ((hp.mem_iff hi v).mpr hv).symm.trans ((hp.mem_iff hj v).mpr hv')
  exact hij (Option.some.inj hsame)

section Represents

variable {p q : Partition} {lists lists' : List (List Var)}

/-- The members of a component are the variables linked to any one of them. -/
theorem Represents.mem_family (hp : p.Represents lists) {members : Finset Var} :
    members ∈ p.family ↔
      ∃ v, (∃ vs ∈ lists, v ∈ vs) ∧ ∀ w, w ∈ members ↔ Linked lists v w := by
  rw [Partition.mem_family]
  constructor
  · rintro ⟨id, ms, hms, rfl⟩
    obtain ⟨v, hv⟩ := List.exists_mem_of_ne_nil _ (hp.valid.ne_nil hms)
    have hc : p.componentOf v = some id := (hp.valid.mem_iff hms v).mpr hv
    refine ⟨v, (hp.isSome_iff v).mp (by rw [hc]; rfl), fun w => ?_⟩
    rw [List.mem_toFinset, ← hp.valid.mem_iff hms, hp.same_iff hc]
  · rintro ⟨v, hv, hmem⟩
    obtain ⟨id, hc⟩ := Option.isSome_iff_exists.mp ((hp.isSome_iff v).mpr hv)
    obtain ⟨ms, hms⟩ := hp.valid.exists_membersOf hc
    refine ⟨id, ms, hms, Finset.ext fun w => ?_⟩
    rw [List.mem_toFinset, ← hp.valid.mem_iff hms, hp.same_iff hc, hmem]

theorem Represents.connects {cs : List Constraint} (hp : p.Represents (cs.map Constraint.vars)) :
    p.Connects cs where
  isSome_iff v := by
    rw [hp.isSome_iff]
    simp only [List.mem_map, exists_exists_and_eq_and]
  same_iff {v w} hv hw := by
    obtain ⟨id, hid⟩ : ∃ id, p.componentOf v = some id := by
      rw [← Option.isSome_iff_exists, hp.isSome_iff]
      simpa only [List.mem_map, exists_exists_and_eq_and] using hv
    rw [connected_iff_linked hv, ← hp.same_iff hid, hid]
    exact eq_comm
  componentOf_iff := hp.valid.componentOf_iff

/-- Lists with the same variables in them make the same family. -/
theorem Represents.perm_family (hp : p.Represents lists) (hq : q.Represents lists')
    (h : ∀ vs ∈ lists, ∃ vs' ∈ lists', vs.Perm vs')
    (h' : ∀ vs ∈ lists', ∃ vs' ∈ lists, vs.Perm vs') :
    p.family.Perm q.family := by
  have adjacent : ∀ {ls ls' : List (List Var)}, (∀ vs ∈ ls, ∃ vs' ∈ ls', vs.Perm vs') →
      ∀ v w, Adjacent ls v w → Adjacent ls' v w := by
    rintro ls ls' h v w ⟨vs, hvs, hv, hw⟩
    obtain ⟨vs', hvs', hperm⟩ := h vs hvs
    exact ⟨vs', hvs', hperm.mem_iff.mp hv, hperm.mem_iff.mp hw⟩
  have same : Adjacent lists = Adjacent lists' :=
    funext₂ fun v w => propext ⟨adjacent h v w, adjacent h' v w⟩
  -- a variable is mentioned if it is adjacent to itself
  have mentioned : ∀ {ls : List (List Var)} {v : Var}, (∃ vs ∈ ls, v ∈ vs) ↔ Adjacent ls v v := by
    simp [Adjacent]
  rw [List.perm_ext_iff_of_nodup hp.valid.nodup_family hq.valid.nodup_family]
  intro members
  simp only [hp.mem_family, hq.mem_family, mentioned, Linked, same]

end Represents

/-- The constraints of `ds` are those of `cs` in some order, each with its variables
in some order. -/
def Rearranges (cs ds : List Constraint) : Prop :=
  ∃ es, List.Forall₂ (fun c e => c.vars.Perm e.vars) cs es ∧ es.Perm ds

theorem Rearranges.exists_perm {cs ds : List Constraint} (h : Rearranges cs ds) :
    (∀ c ∈ cs, ∃ d ∈ ds, c.vars.Perm d.vars) ∧ ∀ d ∈ ds, ∃ c ∈ cs, d.vars.Perm c.vars := by
  obtain ⟨es, hvars, hperm⟩ := h
  have same : ∀ {fs : List Constraint} {c e : Constraint}, c.vars.Perm e.vars →
      ((∃ f ∈ fs, c.vars.Perm f.vars) ↔ ∃ f ∈ fs, e.vars.Perm f.vars) := fun h =>
    ⟨fun ⟨f, hf, hc⟩ => ⟨f, hf, h.symm.trans hc⟩, fun ⟨f, hf, he⟩ => ⟨f, hf, h.trans he⟩⟩
  constructor
  · refine (forall_mem_iff_of_forall₂ hvars fun c _ e hce => same hce).mpr fun e he => ?_
    exact ⟨e, hperm.mem_iff.mp he, .refl _⟩
  · have each := (forall_mem_iff_of_forall₂ hvars fun c _ e hce => same hce).mp
      fun c hc => ⟨c, hc, .refl _⟩
    exact fun d hd => each d (hperm.mem_iff.mpr hd)

/-- Constraints over known variables have the components that chains of them make,
and the family of components is the same for any rearrangement of them. -/
theorem ofConstraints_connects {varCount : Nat} {cs : List Constraint}
    (hv : ∀ c ∈ cs, ∀ v ∈ c.vars, v < varCount) :
    ∃ p, ofConstraints varCount cs = .ok p ∧ p.Connects cs ∧
      ∀ ds, Rearranges cs ds →
        ∃ q, ofConstraints varCount ds = .ok q ∧ q.Connects ds ∧ p.family.Perm q.family := by
  obtain ⟨p, hp, rep, -⟩ := exists_ofConstraints hv
  refine ⟨p, hp, rep.connects, fun ds hds => ?_⟩
  obtain ⟨forward, backward⟩ := hds.exists_perm
  have hv' : ∀ d ∈ ds, ∀ v ∈ d.vars, v < varCount := by
    intro d hd v hvd
    obtain ⟨c, hc, hperm⟩ := backward d hd
    exact hv c hc v (hperm.mem_iff.mp hvd)
  obtain ⟨q, hq, rep', -⟩ := exists_ofConstraints hv'
  refine ⟨q, hq, rep'.connects, rep.perm_family rep' ?_ ?_⟩
  · simpa using forward
  · simpa using backward

/-- Constraints that start components, extend one, join two, and are within one. -/
def sampleConstraints : List Constraint :=
  [{ vars := [0, 1], rhs := true }, { vars := [2, 3, 2], rhs := false },
    { vars := [], rhs := false }, { vars := [4], rhs := true }, { vars := [5, 1, 3], rhs := false },
    { vars := [6, 4], rhs := true }, { vars := [0, 5], rhs := true }]

theorem ofConstraints_connects_sample :
    let ds := (sampleConstraints.map fun c => { c with vars := c.vars.reverse }).reverse
    (∀ c ∈ sampleConstraints, ∀ v ∈ c.vars, v < 8) ∧ Rearranges sampleConstraints ds ∧
      ∃ p, ofConstraints 8 sampleConstraints = .ok p ∧ p.Connects sampleConstraints ∧
        ∃ q, ofConstraints 8 ds = .ok q ∧ q.Connects ds ∧ p.family.Perm q.family := by
  intro ds
  have hv : ∀ c ∈ sampleConstraints, ∀ v ∈ c.vars, v < 8 := by decide
  have hds : Rearranges sampleConstraints ds := by
    refine ⟨_, ?_, (List.reverse_perm _).symm⟩
    rw [List.forall₂_map_right_iff, List.forall₂_same]
    exact fun c _ => c.vars.reverse_perm.symm
  obtain ⟨p, hp, hcs, hfamily⟩ := ofConstraints_connects hv
  exact ⟨hv, hds, p, hp, hcs, hfamily ds hds⟩

end Partition

end ParityBlocks
