import Mathlib.Logic.Equiv.Defs
import ParityBlocks.Proofs.Ascending
import ParityBlocks.Proofs.Blocks

/-!
# Components of renamed variables

A permutation of the variables takes lists of variables to lists that are the same but
for the order (`Renamed`), since ascending lists are sorted anew. Joining renamed lists
one by one gives renamed partitions: the same numbers for the components, with renamed
members (`Partition.Renames.join`, `Partition.renames_ofLists`). So the components of
renamed constraints have the same shapes and renamed rows, each in its place
(`Component.forall₂_found`), and they compete in the same order
(`Component.forall₂_ranked`).
-/

namespace ParityBlocks

variable {σ : Equiv.Perm Var}

/-! ## Lists of variables -/

/-- The second list is the first with its variables renamed, in some order. -/
def Renamed (σ : Equiv.Perm Var) (vs ws : List Var) : Prop := ws.Perm (vs.map σ)

namespace Renamed

variable {vs ws : List Var}

theorem mem_iff (h : Renamed σ vs ws) (v : Var) : σ v ∈ ws ↔ v ∈ vs := by
  rw [List.Perm.mem_iff h, List.mem_map_of_injective σ.injective]

theorem length_eq (h : Renamed σ vs ws) : ws.length = vs.length :=
  (List.Perm.length_eq h).trans (List.length_map _)

theorem of_nodup (hv : vs.Nodup) (hw : ws.Nodup) (h : ∀ v, σ v ∈ ws ↔ v ∈ vs) :
    Renamed σ vs ws := by
  refine (List.perm_ext_iff_of_nodup hw (hv.map σ.injective)).mpr fun w => ?_
  obtain ⟨v, rfl⟩ := σ.surjective w
  rw [h, List.mem_map_of_injective σ.injective]

theorem eq_nil_iff (h : Renamed σ vs ws) : ws = [] ↔ vs = [] := by
  rw [← List.length_eq_zero_iff, h.length_eq, List.length_eq_zero_iff]

theorem append {vs' ws' : List Var} (h : Renamed σ vs ws) (h' : Renamed σ vs' ws') :
    Renamed σ (vs ++ vs') (ws ++ ws') := by
  rw [Renamed, List.map_append]
  exact List.Perm.append h h'

end Renamed

/-- Members of a list that are renamed are members of the other. -/
theorem exists_mem_renamed_iff {vs ws : List Var} (h : Renamed σ vs ws) {P : Var → Prop} :
    (∃ w ∈ ws, P w) ↔ ∃ v ∈ vs, P (σ v) := by
  constructor
  · rintro ⟨w, hw, hp⟩
    obtain ⟨v, rfl⟩ := σ.surjective w
    exact ⟨v, (h.mem_iff v).mp hw, hp⟩
  · rintro ⟨v, hv, hp⟩
    exact ⟨σ v, (h.mem_iff v).mpr hv, hp⟩

/-! ## Partitions -/

namespace Partition

/-- The second partition has the components of the first, with their numbers and with
renamed members. -/
structure Renames (σ : Equiv.Perm Var) (p q : Partition) : Prop where
  size_eq : q.table.size = p.table.size
  idCount_eq : q.idCount = p.idCount
  componentOf (v : Var) : q.componentOf (σ v) = p.componentOf v
  membersOf (id : Nat) : Option.Rel (Renamed σ) (p.membersOf id) (q.membersOf id)

theorem renames_empty (σ : Equiv.Perm Var) (varCount : Nat) :
    Renames σ (empty varCount) (empty varCount) where
  size_eq := rfl
  idCount_eq := rfl
  componentOf v := by
    simp only [Partition.componentOf, empty, Array.getElem?_replicate]
    split <;> split <;> rfl
  membersOf id := by
    simp only [Partition.membersOf, empty, List.getElem?_toArray, List.getElem?_nil]
    exact .none

namespace Renames

variable {p q : Partition} {vs ws : List Var}

theorem touched_eq (h : Renames σ p q) (hvs : Renamed σ vs ws) : q.touched ws = p.touched vs := by
  refine Ascending.ofList_congr fun id => ?_
  simp only [List.mem_filterMap]
  rw [exists_mem_renamed_iff hvs]
  simp only [h.componentOf]

theorem newcomers (h : Renames σ p q) (hvs : Renamed σ vs ws) :
    Renamed σ (p.newcomers vs) (q.newcomers ws) := by
  refine .of_nodup (nodup_newcomers p vs) (nodup_newcomers q ws) fun v => ?_
  rw [mem_newcomers, mem_newcomers, hvs.mem_iff, h.componentOf]

theorem getD_membersOf (h : Renames σ p q) (id : Nat) :
    Renamed σ ((p.membersOf id).getD []) ((q.membersOf id).getD []) := by
  have rel := h.membersOf id
  generalize p.membersOf id = ms at rel ⊢
  generalize q.membersOf id = ns at rel ⊢
  cases rel with
  | some hms => exact hms
  | none => exact .nil

theorem mergedMembers (h : Renames σ p q) (hvs : Renamed σ vs ws) (ids : List Nat) :
    Renamed σ (p.mergedMembers ids vs) (q.mergedMembers ids ws) := by
  refine hvs.append ?_
  induction ids with
  | nil => exact .nil
  | cons id ids ih => exact (h.getD_membersOf id).append ih

/-- A component takes in renamed variables. -/
theorem absorb (h : Renames σ p q) (hvs : Renamed σ vs ws) (hp : ∀ v ∈ vs, v < p.table.size)
    (hq : ∀ w ∈ ws, w < q.table.size) (id : Nat) :
    Renames σ (p.absorb id vs) (q.absorb id ws) where
  size_eq := by
    show (assign _ _ _).size = (assign _ _ _).size
    rw [size_assign, size_assign, h.size_eq]
  idCount_eq := by rw [idCount_absorb, idCount_absorb, h.idCount_eq]
  componentOf v := by
    rw [componentOf_absorb q id ws hq, componentOf_absorb p id vs hp, h.componentOf]
    simp only [hvs.mem_iff]
  membersOf j := by
    rw [membersOf_absorb, membersOf_absorb]
    split
    · have rel := h.membersOf id
      generalize p.membersOf id = ms at rel ⊢
      generalize q.membersOf id = ns at rel ⊢
      cases rel with
      | some hms => exact .some (hms.append hvs)
      | none => exact .none
    · exact h.membersOf j

/-- A new component takes over components and takes in renamed variables. -/
theorem merge (h : Renames σ p q) (hvs : Renamed σ vs ws) (ids : List Nat)
    (hp : ∀ v ∈ p.mergedMembers ids vs, v < p.table.size)
    (hq : ∀ w ∈ q.mergedMembers ids ws, w < q.table.size) :
    Renames σ (p.merge ids vs) (q.merge ids ws) where
  size_eq := by
    show (assign _ _ _).size = (assign _ _ _).size
    rw [size_assign, size_assign, h.size_eq]
  idCount_eq := by rw [idCount_merge, idCount_merge, h.idCount_eq]
  componentOf v := by
    rw [componentOf_merge q ids ws hq, componentOf_merge p ids vs hp, h.componentOf, h.idCount_eq]
    simp only [(h.mergedMembers hvs ids).mem_iff]
  membersOf j := by
    rw [membersOf_merge, membersOf_merge, h.idCount_eq]
    split
    · exact .some (h.mergedMembers hvs ids)
    · split
      · exact .none
      · exact h.membersOf j

/-- Joining renamed variables. -/
theorem join (h : Renames σ p q) (hvs : Renamed σ vs ws) (valid : p.Valid) (valid' : q.Valid)
    (hp : ∀ v ∈ vs, v < p.table.size) (hq : ∀ w ∈ ws, w < q.table.size) :
    Renames σ (p.join vs) (q.join ws) := by
  by_cases hne : vs = []
  · have hnil := hvs.eq_nil_iff.mpr hne
    subst hne hnil
    exact h
  · have hne' : ws ≠ [] := fun hw => hne (hvs.eq_nil_iff.mp hw)
    have range : ∀ {p : Partition} {vs : List Var}, (∀ v ∈ vs, v < p.table.size) →
        ∀ v ∈ p.newcomers vs, v < p.table.size := fun hv v hn => hv v (mem_newcomers.mp hn).1
    simp only [Partition.join, List.isEmpty_iff, if_neg hne, if_neg hne', h.touched_eq hvs]
    split
    · exact h.absorb (h.newcomers hvs) (range hp) (range hq) _
    · refine h.merge (h.newcomers hvs) _ (fun v hv => valid.lt_of_mem_mergedMembers hp hv) ?_
      rw [← h.touched_eq hvs]
      exact fun w hw => valid'.lt_of_mem_mergedMembers hq hw

end Renames

/-- Joining renamed lists one by one. -/
theorem Renames.foldl_join {p q : Partition} (h : Renames σ p q) (valid : p.Valid)
    (valid' : q.Valid) {lists lists' : List (List Var)}
    (hlists : List.Forall₂ (Renamed σ) lists lists')
    (hp : ∀ vs ∈ lists, ∀ v ∈ vs, v < p.table.size)
    (hq : ∀ ws ∈ lists', ∀ w ∈ ws, w < q.table.size) :
    Renames σ (lists.foldl Partition.join p) (lists'.foldl Partition.join q) := by
  induction hlists generalizing p q with
  | nil => exact h
  | cons hvs _ ih =>
    obtain ⟨hpv, hp⟩ := List.forall_mem_cons.mp hp
    obtain ⟨hqw, hq⟩ := List.forall_mem_cons.mp hq
    refine ih (h.join hvs valid valid' hpv hqw) (valid.valid_join hpv) (valid'.valid_join hqw) ?_ ?_
    · rwa [size_table_join]
    · rwa [size_table_join]

theorem renames_ofLists {varCount : Nat} {lists lists' : List (List Var)}
    (hlists : List.Forall₂ (Renamed σ) lists lists')
    (hp : ∀ vs ∈ lists, ∀ v ∈ vs, v < varCount) (hq : ∀ ws ∈ lists', ∀ w ∈ ws, w < varCount) :
    Renames σ (ofLists varCount lists) (ofLists varCount lists') := by
  have size : (empty varCount).table.size = varCount := Array.size_replicate
  exact (renames_empty σ varCount).foldl_join (.empty varCount) (.empty varCount) hlists
    (by rwa [size]) (by rwa [size])

/-- The live components are listed in the same order. -/
theorem Renames.forall₂_components {p q : Partition} (h : Renames σ p q) :
    List.Forall₂ (fun x y => y.1 = x.1 ∧ Renamed σ x.2 y.2) p.components q.components := by
  rw [components, components, h.idCount_eq]
  refine List.rel_filterMap (R := Eq) ?_ (List.forall₂_refl _)
  rintro id _ rfl
  dsimp only
  have rel := h.membersOf id
  generalize p.membersOf id = ms at rel ⊢
  generalize q.membersOf id = ns at rel ⊢
  cases rel with
  | some hms => exact .some ⟨rfl, hms⟩
  | none => exact .none

end Partition

/-! ## Components -/

/-- The second constraint is the first with its variables renamed, in some order. -/
structure Constraint.Renamed (σ : Equiv.Perm Var) (c d : Constraint) : Prop where
  vars : ParityBlocks.Renamed σ c.vars d.vars
  rhs_eq : d.rhs = c.rhs

/-- The second component is the first with its variables renamed. -/
structure Component.Renamed (σ : Equiv.Perm Var) (b b' : Component) : Prop where
  shape_eq : b'.shape = b.shape
  members : ParityBlocks.Renamed σ b.members b'.members
  rows : List.Forall₂ (Constraint.Renamed σ) b.rows b'.rows

/-- Elements that correspond are sorted in the same way if they are compared in the same
way. -/
theorem Sorting.forall₂_sort {α β : Type} {R : α → β → Prop} {mayPrecede : α → α → Bool}
    {mayPrecede' : β → β → Bool}
    (hr : ∀ {x x' y y'}, R x y → R x' y' → mayPrecede' y y' = mayPrecede x x')
    {xs : List α} {ys : List β} (h : List.Forall₂ R xs ys) :
    List.Forall₂ R (sort mayPrecede xs) (sort mayPrecede' ys) := by
  have placed : ∀ {x y xs ys}, R x y → List.Forall₂ R xs ys →
      List.Forall₂ R (place mayPrecede x xs) (place mayPrecede' y ys) := by
    intro x y xs ys hxy h
    induction h with
    | nil => exact .cons hxy .nil
    | cons hxy' h ih =>
      rw [place, place, hr hxy hxy']
      split
      · exact .cons hxy (.cons hxy' h)
      · exact .cons hxy' ih
  induction h with
  | nil => exact .nil
  | cons hxy _ ih => exact placed hxy ih

/-- The numbers of a shape are known from the numbers of members and the lengths of rows. -/
theorem Shape.ofRows_congr (id : Nat) {members members' : List Var} {rows rows' : List Constraint}
    (hm : members'.length = members.length)
    (hr : List.Forall₂ (fun c d => d.vars.length = c.vars.length) rows rows') :
    ofRows id members' rows' = ofRows id members rows := by
  have sizeSum : rows'.foldr (fun c n => c.vars.length + n) 0 =
      rows.foldr (fun c n => c.vars.length + n) 0 := by
    induction hr with
    | nil => rfl
    | cons hc _ ih => rw [List.foldr_cons, List.foldr_cons, hc, ih]
  simp only [ofRows, hm, hr.length_eq, sizeSum]

namespace Component

variable {p q : Partition} {cs ds : List Constraint}

/-- Renamed constraints are among the rows of components with the same number. -/
theorem idOf_eq_of_renamed (h : Partition.Renames σ p q)
    (hq : q.Represents (ds.map Constraint.vars)) {c d : Constraint} (hcd : c.Renamed σ d)
    (hd : d ∈ ds) : idOf q d = idOf p c := by
  cases hvars : c.vars with
  | nil =>
    have hnil : d.vars = [] := hcd.vars.eq_nil_iff.mpr hvars
    rw [idOf, idOf, hnil, hvars]
    rfl
  | cons v vs =>
    have hv : σ v ∈ d.vars := (hcd.vars.mem_iff v).mpr (by rw [hvars]; exact List.mem_cons_self)
    rw [idOf_eq hq hd hv, h.componentOf, idOf, hvars]
    rfl

theorem gather_renamed (h : Partition.Renames σ p q)
    (hq : q.Represents (ds.map Constraint.vars))
    (hcs : List.Forall₂ (Constraint.Renamed σ) cs ds) {ms ns : List Var}
    (hms : ParityBlocks.Renamed σ ms ns) (id : Nat) :
    (gather p cs id ms).Renamed σ (gather q ds id ns) := by
  have same : List.Forall₂ (fun c d => c.Renamed σ d ∧ idOf q d = idOf p c) cs ds := by
    rw [List.forall₂_iff_zip] at hcs ⊢
    refine ⟨hcs.1, fun {c d} hcd => ?_⟩
    have renamed := hcs.2 hcd
    exact ⟨renamed, idOf_eq_of_renamed h hq renamed (List.of_mem_zip hcd).2⟩
  have rows : List.Forall₂ (Constraint.Renamed σ) (gather p cs id ms).rows
      (gather q ds id ns).rows := by
    refine (List.rel_filter (fun {c d} hcd => ?_) same).imp fun _ _ => And.left
    dsimp only
    rw [hcd.2]
  refine ⟨?_, hms, rows⟩
  exact Shape.ofRows_congr id hms.length_eq (rows.imp fun _ _ hcd => hcd.vars.length_eq)

theorem forall₂_found (h : Partition.Renames σ p q) (hq : q.Represents (ds.map Constraint.vars))
    (hcs : List.Forall₂ (Constraint.Renamed σ) cs ds) :
    List.Forall₂ (Component.Renamed σ) (found p cs) (found q ds) := by
  rw [found, found, List.forall₂_map_left_iff, List.forall₂_map_right_iff]
  refine h.forall₂_components.imp ?_
  rintro ⟨id, ms⟩ ⟨_, ns⟩ ⟨rfl, hms⟩
  exact gather_renamed h hq hcs hms _

/-- The components of renamed constraints compete in the same order. -/
theorem forall₂_ranked (h : Partition.Renames σ p q) (hq : q.Represents (ds.map Constraint.vars))
    (hcs : List.Forall₂ (Constraint.Renamed σ) cs ds) :
    List.Forall₂ (Component.Renamed σ) (ranked p cs) (ranked q ds) :=
  Sorting.forall₂_sort (fun hb hb' => by rw [hb.shape_eq, hb'.shape_eq]) (forall₂_found h hq hcs)

end Component

end ParityBlocks
