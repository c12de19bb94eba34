import Mathlib.Data.List.Nodup
import Mathlib.Logic.Relation
import ParityBlocks.Partition
import ParityBlocks.Proofs.Checked
import ParityBlocks.Proofs.Parity
import ParityBlocks.Proofs.Tables

/-!
# The components are the linked variables

`Partition.Valid` says that the two views of a partition agree and that no live
component is empty or lists a variable twice. `Partition.join` keeps it
(`Valid.join`), and is the union of everything that is near the joined variables
(`same_join`). So a partition into which lists of variables were joined one by
one has exactly the components that these lists make (`Represents.joinAll`): a
variable has a component if a list mentions it, and two such variables have the
same one if and only if they are `Linked`, by steps that each stay in one list.
`exists_ofConstraints` is this for constraints.
-/

namespace ParityBlocks

theorem nodup_eraseDups {α : Type} [BEq α] [LawfulBEq α] (xs : List α) : xs.eraseDups.Nodup := by
  generalize hn : xs.length = n
  induction n using Nat.strongRecOn generalizing xs with
  | ind n ih =>
    cases xs with
    | nil => exact List.nodup_nil
    | cons x xs =>
      rw [List.eraseDups_cons]
      refine List.nodup_cons.mpr ⟨by simp, ih _ ?_ _ rfl⟩
      rw [← hn, List.length_cons]
      exact Nat.lt_succ_of_le (List.length_filter_le _ _)

namespace Partition

/-! ## Both views -/

theorem size_assign (id : Nat) (vars : List Var) (t : Array (Option Nat)) :
    (assign id vars t).size = t.size :=
  Tables.size_foldl_setIfInBounds _ _ _

theorem getElem?_assign (id : Nat) (vars : List Var) (t : Array (Option Nat)) (v : Var) :
    (assign id vars t)[v]? = if v ∈ vars ∧ v < t.size then some (some id) else t[v]? :=
  Tables.getElem?_foldl_setIfInBounds _ _ _ _

theorem size_retire (ids : List Nat) (m : Array (Option (List Var))) :
    (retire ids m).size = m.size :=
  Tables.size_foldl_setIfInBounds _ _ _

theorem join_getElem?_retire (ids : List Nat) (m : Array (Option (List Var))) (j : Nat) :
    (retire ids m)[j]?.join = if j ∈ ids then none else m[j]?.join := by
  rw [retire, Tables.getElem?_foldl_setIfInBounds]
  by_cases hs : j < m.size
  · by_cases hj : j ∈ ids <;> simp [hj, hs]
  · simp [hs]

theorem lt_of_componentOf {p : Partition} {v : Var} {id : Nat} (h : p.componentOf v = some id) :
    v < p.table.size := by
  simp only [componentOf, Option.join_eq_some_iff] at h
  exact (Array.getElem?_eq_some_iff.mp h).1

theorem lt_of_membersOf {p : Partition} {id : Nat} {ms : List Var} (h : p.membersOf id = some ms) :
    id < p.idCount := by
  simp only [membersOf, Option.join_eq_some_iff] at h
  exact (Array.getElem?_eq_some_iff.mp h).1

theorem mem_newcomers {p : Partition} {vars : List Var} {v : Var} :
    v ∈ p.newcomers vars ↔ v ∈ vars ∧ p.componentOf v = none := by
  simp [newcomers]

theorem nodup_newcomers (p : Partition) (vars : List Var) : (p.newcomers vars).Nodup :=
  (nodup_eraseDups vars).filter _

theorem mem_touched {p : Partition} {vars : List Var} {id : Nat} :
    id ∈ p.touched vars ↔ ∃ v ∈ vars, p.componentOf v = some id := by
  simp [touched]

theorem nodup_touched (p : Partition) (vars : List Var) : (p.touched vars).Nodup :=
  Ascending.nodup_ofList _

/-- The live components are those that have members. -/
theorem mem_components {p : Partition} {id : Nat} {ms : List Var} :
    (id, ms) ∈ p.components ↔ p.membersOf id = some ms := by
  simp only [components, List.mem_filterMap, List.mem_range, Option.map_eq_some_iff, Prod.mk.injEq]
  constructor
  · rintro ⟨_, -, _, h, rfl, rfl⟩; exact h
  · exact fun h => ⟨id, lt_of_membersOf h, ms, h, rfl, rfl⟩

section Absorb

variable (p : Partition) (id : Nat) (vars : List Var)

theorem componentOf_absorb (h : ∀ v ∈ vars, v < p.table.size) (v : Var) :
    (p.absorb id vars).componentOf v = if v ∈ vars then some id else p.componentOf v := by
  simp only [componentOf, absorb, getElem?_assign]
  by_cases hv : v ∈ vars
  · simp [hv, h v hv]
  · simp [hv]

theorem membersOf_absorb (j : Nat) :
    (p.absorb id vars).membersOf j =
      if j = id then (p.membersOf id).map (· ++ vars) else p.membersOf j := by
  simp only [membersOf, absorb, Array.getElem?_modify]
  by_cases hj : j = id
  · subst hj
    simp only [if_true]
    cases p.members[j]? with
    | none => rfl
    | some ms => cases ms <;> rfl
  · simp [hj, Ne.symm hj]

theorem idCount_absorb : (p.absorb id vars).idCount = p.idCount := Array.size_modify

end Absorb

/-- The members of a component that takes over the components `ids`. -/
def mergedMembers (p : Partition) (ids : List Nat) (vars : List Var) : List Var :=
  vars ++ ids.flatMap fun id => (p.membersOf id).getD []

section Merge

variable (p : Partition) (ids : List Nat) (vars : List Var)

theorem componentOf_merge (h : ∀ v ∈ p.mergedMembers ids vars, v < p.table.size) (v : Var) :
    (p.merge ids vars).componentOf v =
      if v ∈ p.mergedMembers ids vars then some p.idCount else p.componentOf v := by
  show (assign p.idCount (p.mergedMembers ids vars) p.table)[v]?.join = _
  rw [getElem?_assign]
  by_cases hv : v ∈ p.mergedMembers ids vars
  · simp [hv, h v hv]
  · simp [hv, componentOf]

theorem membersOf_merge (j : Nat) :
    (p.merge ids vars).membersOf j =
      if j = p.idCount then some (p.mergedMembers ids vars)
      else if j ∈ ids then none else p.membersOf j := by
  show ((retire ids p.members).push (some (p.mergedMembers ids vars)))[j]?.join = _
  rw [Array.getElem?_push, size_retire]
  by_cases hj : j = p.members.size
  · simp [hj, idCount]
  · rw [if_neg hj, if_neg (show ¬ j = p.idCount from hj), join_getElem?_retire]
    rfl

theorem idCount_merge : (p.merge ids vars).idCount = p.idCount + 1 := by
  rw [idCount, merge, Array.size_push, size_retire, idCount]

end Merge

/-! ## Valid partitions -/

/-- The views by variable and by number agree, and no live component is empty or
lists a variable twice. -/
structure Valid (p : Partition) : Prop where
  componentOf_iff (v : Var) (id : Nat) :
    p.componentOf v = some id ↔ ∃ ms, p.membersOf id = some ms ∧ v ∈ ms
  nodup {id : Nat} {ms : List Var} : p.membersOf id = some ms → ms.Nodup
  ne_nil {id : Nat} {ms : List Var} : p.membersOf id = some ms → ms ≠ []

theorem Valid.empty (varCount : Nat) : (empty varCount).Valid where
  componentOf_iff v id := by
    simp only [componentOf, membersOf, Partition.empty, Array.getElem?_replicate]
    split <;> simp
  nodup h := by simp [membersOf, Partition.empty] at h
  ne_nil h := by simp [membersOf, Partition.empty] at h

theorem Valid.mem_iff {p : Partition} (hp : p.Valid) {id : Nat} {ms : List Var}
    (hms : p.membersOf id = some ms) (v : Var) : p.componentOf v = some id ↔ v ∈ ms := by
  rw [hp.componentOf_iff]
  simp [hms]

theorem Valid.mem_getD_iff {p : Partition} (hp : p.Valid) (id : Nat) (v : Var) :
    v ∈ (p.membersOf id).getD [] ↔ p.componentOf v = some id := by
  rw [hp.componentOf_iff]
  cases p.membersOf id <;> simp

/-- The component of a variable is live. -/
theorem Valid.exists_membersOf {p : Partition} (hp : p.Valid) {v : Var} {id : Nat}
    (h : p.componentOf v = some id) : ∃ ms, p.membersOf id = some ms := by
  obtain ⟨ms, hms, -⟩ := (hp.componentOf_iff v id).mp h
  exact ⟨ms, hms⟩

theorem Valid.lt_idCount {p : Partition} (hp : p.Valid) {v : Var} {id : Nat}
    (h : p.componentOf v = some id) : id < p.idCount := by
  obtain ⟨ms, hms⟩ := hp.exists_membersOf h
  exact lt_of_membersOf hms

/-- A live component stays valid when it absorbs variables that are in none. -/
theorem Valid.valid_absorb {p : Partition} (hp : p.Valid) {id : Nat} {ms vars : List Var}
    (hms : p.membersOf id = some ms) (hv : ∀ v ∈ vars, v < p.table.size) (hn : vars.Nodup)
    (hnew : ∀ v ∈ vars, p.componentOf v = none) : (p.absorb id vars).Valid := by
  have hcomp := componentOf_absorb p id vars hv
  have hmem : ∀ j, (p.absorb id vars).membersOf j =
      if j = id then some (ms ++ vars) else p.membersOf j := by
    intro j
    rw [membersOf_absorb, hms]
    rfl
  refine ⟨fun v j => ?_, fun {j ns} h => ?_, fun {j ns} h => ?_⟩
  · rw [hcomp, hmem]
    by_cases hj : j = id
    · subst hj
      simp only [if_true, Option.some.injEq, exists_eq_left', List.mem_append, ← hp.mem_iff hms v]
      split <;> simp_all
    · rw [if_neg hj, ← hp.componentOf_iff]
      split
      · rename_i h
        simp [hnew v h, Ne.symm hj]
      · rfl
  · rw [hmem] at h
    split at h
    · cases h
      refine List.nodup_append'.mpr ⟨hp.nodup hms, hn, fun v hm hv => ?_⟩
      exact nomatch ((hp.mem_iff hms v).mpr hm).symm.trans (hnew v hv)
    · exact hp.nodup h
  · rw [hmem] at h
    split at h
    · cases h
      exact List.append_ne_nil_of_left_ne_nil (hp.ne_nil hms) _
    · exact hp.ne_nil h

/-- The variable is one of `vars`, or in a component that they touch. -/
def Near (p : Partition) (vars : List Var) (v : Var) : Prop :=
  v ∈ vars ∨ ∃ id ∈ p.touched vars, p.componentOf v = some id

/-- A variable that has a component is near `vars` exactly if they touch it. -/
theorem near_iff_touched {p : Partition} {vars : List Var} {v : Var} {id : Nat}
    (h : p.componentOf v = some id) : p.Near vars v ↔ id ∈ p.touched vars := by
  refine ⟨?_, fun ht => .inr ⟨id, ht, h⟩⟩
  rintro (hv | ⟨j, hj, hc⟩)
  · exact mem_touched.mpr ⟨v, hv, h⟩
  · rw [h] at hc
    cases hc
    exact hj

section Join

variable {p : Partition} {vars : List Var}

theorem Valid.mem_mergedMembers (hp : p.Valid) (v : Var) :
    v ∈ p.mergedMembers (p.touched vars) (p.newcomers vars) ↔ p.Near vars v := by
  simp only [mergedMembers, List.mem_append, List.mem_flatMap, mem_newcomers, hp.mem_getD_iff, Near]
  constructor
  · exact Or.imp_left And.left
  · rintro (hv | h)
    · cases hc : p.componentOf v with
      | none => exact .inl ⟨hv, rfl⟩
      | some id => exact .inr ⟨id, mem_touched.mpr ⟨v, hv, hc⟩, rfl⟩
    · exact .inr h

theorem Valid.nodup_mergedMembers (hp : p.Valid) :
    (p.mergedMembers (p.touched vars) (p.newcomers vars)).Nodup := by
  refine List.nodup_append'.mpr ⟨nodup_newcomers p vars, ?_, fun v hv hm => ?_⟩
  · refine List.nodup_flatMap.mpr ⟨fun id _ => ?_, (nodup_touched p vars).imp ?_⟩
    · cases hm : p.membersOf id with
      | none => exact List.nodup_nil
      | some ms => exact hp.nodup hm
    · intro i j hij v hi hj
      have := ((hp.mem_getD_iff i v).mp hi).symm.trans ((hp.mem_getD_iff j v).mp hj)
      exact hij (Option.some.inj this)
  · obtain ⟨id, -, hm⟩ := List.mem_flatMap.mp hm
    exact nomatch (mem_newcomers.mp hv).2.symm.trans ((hp.mem_getD_iff id v).mp hm)

/-- What joining does to the components: everything near the joined variables
gets into one component, in which nothing else is. -/
structure Joins (p p' : Partition) (vars : List Var) (target : Nat) : Prop where
  valid : p'.Valid
  componentOf (v : Var) [Decidable (p.Near vars v)] :
    p'.componentOf v = if p.Near vars v then some target else p.componentOf v
  near_of_target {v : Var} : p.componentOf v = some target → p.Near vars v

/-- Both ways in which a variable is known once a single component is touched. -/
theorem near_iff_of_touched {id : Nat} (ht : p.touched vars = [id]) (v : Var) :
    p.Near vars v ↔ v ∈ p.newcomers vars ∨ p.componentOf v = some id := by
  simp only [Near, ht, List.mem_singleton, exists_eq_left, mem_newcomers]
  constructor
  · rintro (hv | h)
    · cases hc : p.componentOf v with
      | none => exact .inl ⟨hv, rfl⟩
      | some j =>
        have hj := ht ▸ mem_touched.mpr ⟨v, hv, hc⟩
        rw [List.mem_singleton.mp hj]
        exact .inr rfl
    · exact .inr h
  · exact Or.imp_left And.left

/-- A single touched component takes in the newcomers. -/
theorem Valid.absorb (hp : p.Valid) (hv : ∀ v ∈ vars, v < p.table.size) {id : Nat}
    (ht : p.touched vars = [id]) : Joins p (p.absorb id (p.newcomers vars)) vars id := by
  obtain ⟨u, -, hc⟩ := mem_touched.mp (ht ▸ List.mem_singleton_self id)
  obtain ⟨ms, hms, -⟩ := (hp.componentOf_iff u id).mp hc
  have range : ∀ v ∈ p.newcomers vars, v < p.table.size := fun v h => hv v (mem_newcomers.mp h).1
  refine ⟨?_, fun v _ => ?_, fun {v} h => (near_iff_of_touched ht v).mpr (.inr h)⟩
  · exact hp.valid_absorb hms range (nodup_newcomers p vars) fun v h => (mem_newcomers.mp h).2
  · rw [componentOf_absorb p id _ range]
    simp only [near_iff_of_touched ht v]
    by_cases hn : v ∈ p.newcomers vars
    · simp [hn]
    · by_cases hi : p.componentOf v = some id
      · simp [hi]
      · simp [hn, hi]

theorem Valid.lt_of_mem_mergedMembers (hp : p.Valid) (hv : ∀ v ∈ vars, v < p.table.size) {v : Var}
    (h : v ∈ p.mergedMembers (p.touched vars) (p.newcomers vars)) : v < p.table.size := by
  rcases (hp.mem_mergedMembers v).mp h with h | ⟨id, -, h⟩
  · exact hv v h
  · exact lt_of_componentOf h

theorem Valid.valid_merge (hp : p.Valid) (hv : ∀ v ∈ vars, v < p.table.size) (hne : vars ≠ []) :
    (p.merge (p.touched vars) (p.newcomers vars)).Valid := by
  have hcomp := componentOf_merge p (p.touched vars) (p.newcomers vars) fun _ =>
    hp.lt_of_mem_mergedMembers hv
  have hmem := membersOf_merge p (p.touched vars) (p.newcomers vars)
  have fresh : ∀ v, p.componentOf v ≠ some p.idCount := fun v h =>
    Nat.lt_irrefl _ (hp.lt_idCount h)
  refine ⟨fun v j => ?_, fun {j ns} h => ?_, fun {j ns} h => ?_⟩
  · rw [hcomp, hmem]
    by_cases hj : j = p.idCount
    · subst hj
      simp only [if_true, Option.some.injEq, exists_eq_left']
      split <;> simp_all
    · rw [if_neg hj]
      by_cases hm : v ∈ p.mergedMembers (p.touched vars) (p.newcomers vars)
      · simp only [hm, if_true, Option.some.injEq, Ne.symm hj, false_iff]
        rintro ⟨ms, h, hv⟩
        split at h
        · cases h
        · rename_i hnt
          have hc := (hp.componentOf_iff v j).mpr ⟨ms, h, hv⟩
          exact hnt ((near_iff_touched hc).mp ((hp.mem_mergedMembers v).mp hm))
      · rw [if_neg hm]
        split
        · rename_i hjt
          refine ⟨fun hc => absurd ?_ hm, fun ⟨_, h, _⟩ => nomatch h⟩
          exact (hp.mem_mergedMembers v).mpr ((near_iff_touched hc).mpr hjt)
        · exact hp.componentOf_iff v j
  · rw [hmem] at h
    split at h
    · cases h
      exact hp.nodup_mergedMembers
    · split at h
      · cases h
      · exact hp.nodup h
  · rw [hmem] at h
    split at h
    · cases h
      obtain ⟨v, hv⟩ := List.exists_mem_of_ne_nil _ hne
      exact List.ne_nil_of_mem ((hp.mem_mergedMembers v).mpr (.inl hv))
    · split at h
      · cases h
      · exact hp.ne_nil h

/-- A new component takes over the touched ones and takes in the newcomers. -/
theorem Valid.merge (hp : p.Valid) (hv : ∀ v ∈ vars, v < p.table.size) (hne : vars ≠ []) :
    Joins p (p.merge (p.touched vars) (p.newcomers vars)) vars p.idCount := by
  refine ⟨hp.valid_merge hv hne, fun v _ => ?_, fun {v} h => ?_⟩
  · rw [componentOf_merge p _ _ fun _ => hp.lt_of_mem_mergedMembers hv]
    simp only [hp.mem_mergedMembers v]
  · exact absurd (hp.lt_idCount h) (Nat.lt_irrefl _)

theorem join_nil (p : Partition) : p.join [] = p := rfl

theorem size_table_join (p : Partition) (vars : List Var) :
    (p.join vars).table.size = p.table.size := by
  simp only [join]
  split
  · rfl
  · split <;> exact size_assign _ _ _

/-- All that joining can do: a single component that is touched absorbs the newcomers, and
otherwise a new one takes over those that are touched. -/
theorem join_cases (p : Partition) (hne : vars ≠ []) :
    (∃ id, p.touched vars = [id] ∧ p.join vars = p.absorb id (p.newcomers vars)) ∨
      ((∀ id, p.touched vars ≠ [id]) ∧
        p.join vars = p.merge (p.touched vars) (p.newcomers vars)) := by
  simp only [join, List.isEmpty_iff, if_neg hne]
  split
  · rename_i id ht
    exact .inl ⟨id, ht, rfl⟩
  · rename_i ht
    exact .inr ⟨ht, rfl⟩

theorem idCount_le_join (p : Partition) (vars : List Var) : p.idCount ≤ (p.join vars).idCount := by
  by_cases hne : vars = []
  · exact Nat.le_of_eq (by rw [hne, join_nil])
  · rcases p.join_cases hne with ⟨id, -, hj⟩ | ⟨-, hj⟩
    · exact Nat.le_of_eq (by rw [hj, idCount_absorb])
    · rw [hj, idCount_merge]
      exact Nat.le_succ _

/-- Joining variables, whether one component absorbs them or a new one is made. -/
theorem Valid.join (hp : p.Valid) (hv : ∀ v ∈ vars, v < p.table.size) (hne : vars ≠ []) :
    ∃ target, Joins p (p.join vars) vars target := by
  rcases p.join_cases hne with ⟨id, ht, hj⟩ | ⟨-, hj⟩
  · exact ⟨id, hj ▸ hp.absorb hv ht⟩
  · exact ⟨_, hj ▸ hp.merge hv hne⟩

theorem Valid.valid_join (hp : p.Valid) (hv : ∀ v ∈ vars, v < p.table.size) :
    (p.join vars).Valid := by
  by_cases hne : vars = []
  · subst hne
    exact hp
  · obtain ⟨_, hj⟩ := hp.join hv hne
    exact hj.valid

end Join

/-! ## Linked variables -/

/-- Some list mentions both variables. -/
def Adjacent (lists : List (List Var)) (v w : Var) : Prop := ∃ vs ∈ lists, v ∈ vs ∧ w ∈ vs

/-- Steps that each stay in one list lead from one variable to the other. -/
abbrev Linked (lists : List (List Var)) : Var → Var → Prop := Relation.ReflTransGen (Adjacent lists)

theorem Linked.mono {lists lists' : List (List Var)}
    (hsub : ∀ vs ∈ lists, ∀ v ∈ vs, vs ∈ lists') {v w : Var} (h : Linked lists v w) :
    Linked lists' v w :=
  Relation.ReflTransGen.mono (fun _ _ ⟨vs, hvs, hx, hy⟩ => ⟨vs, hsub vs hvs _ hx, hx, hy⟩) _ _ h

theorem Linked.symm {lists : List (List Var)} {v w : Var} (h : Linked lists v w) :
    Linked lists w v := by
  have : Std.Symm (Adjacent lists) := ⟨fun _ _ ⟨vs, hvs, hx, hy⟩ => ⟨vs, hvs, hy, hx⟩⟩
  exact symm_of (Relation.ReflTransGen (Adjacent lists)) h

/-- The partition has the components that the lists make. -/
structure Represents (p : Partition) (lists : List (List Var)) : Prop where
  valid : p.Valid
  isSome_iff (v : Var) : (p.componentOf v).isSome ↔ ∃ vs ∈ lists, v ∈ vs
  same_iff {v : Var} {id : Nat} (h : p.componentOf v = some id) (w : Var) :
    p.componentOf w = some id ↔ Linked lists v w

theorem Represents.empty (varCount : Nat) : (empty varCount).Represents [] where
  valid := .empty varCount
  isSome_iff v := by
    simp only [componentOf, Partition.empty, Array.getElem?_replicate]
    split <;> simp
  same_iff {v id} h := by
    simp only [componentOf, Partition.empty, Array.getElem?_replicate] at h
    split at h <;> cases h

/-- What is near joined variables is linked to one of them. -/
theorem Represents.linked_of_near {p : Partition} {lists : List (List Var)}
    (hp : p.Represents lists) {vars : List Var} {v : Var} (h : p.Near vars v) :
    ∃ u ∈ vars, Linked lists v u := by
  rcases h with h | ⟨id, ht, hv⟩
  · exact ⟨v, h, .refl⟩
  · obtain ⟨u, hu, hc⟩ := mem_touched.mp ht
    exact ⟨u, hu, (hp.same_iff hv u).mp hc⟩

/-- A list without variables makes no difference. -/
theorem Represents.concat_nil {p : Partition} {lists : List (List Var)} (hp : p.Represents lists) :
    p.Represents (lists ++ [[]]) where
  valid := hp.valid
  isSome_iff v := by
    rw [hp.isSome_iff]
    simp
  same_iff h w := by
    rw [hp.same_iff h]
    refine ⟨Linked.mono fun vs h _ _ => List.mem_append_left _ h, Linked.mono fun vs h v hv => ?_⟩
    rcases List.mem_append.mp h with h | h
    · exact h
    · rw [List.mem_singleton.mp h] at hv
      cases hv

/-- Two variables are in one component after joining if they were in one before,
or if both are near the joined variables. -/
theorem Joins.same_iff {p p' : Partition} {vars : List Var} {target : Nat}
    (hj : Joins p p' vars target) {v w : Var} {id : Nat} (h : p'.componentOf v = some id) :
    p'.componentOf w = some id ↔
      (∃ j, p.componentOf v = some j ∧ p.componentOf w = some j) ∨
        (p.Near vars v ∧ p.Near vars w) := by
  classical
  rw [hj.componentOf] at h ⊢
  by_cases hn : p.Near vars v
  · rw [if_pos hn] at h
    cases h
    by_cases hw : p.Near vars w
    · simp [hn, hw]
    · rw [if_neg hw]
      refine ⟨fun e => absurd (hj.near_of_target e) hw, ?_⟩
      rintro (⟨j, hvj, hwj⟩ | ⟨-, h⟩)
      · exact absurd ((near_iff_touched hwj).mpr ((near_iff_touched hvj).mp hn)) hw
      · exact absurd h hw
  · rw [if_neg hn] at h
    have hw : p.componentOf w = some id → ¬ p.Near vars w := fun e hw =>
      hn ((near_iff_touched h).mpr ((near_iff_touched e).mp hw))
    simp only [hn, false_and, or_false, h, Option.some.injEq, exists_eq_left']
    split
    · rename_i hnw
      refine ⟨fun e => ?_, fun e => absurd hnw (hw e)⟩
      cases e
      exact absurd (hj.near_of_target h) hn
    · rfl

/-- The variables in components are those that were before, and the joined ones. -/
theorem Joins.isSome_iff {p p' : Partition} {vars : List Var} {target : Nat}
    (hj : Joins p p' vars target) (v : Var) :
    (p'.componentOf v).isSome ↔ (p.componentOf v).isSome ∨ v ∈ vars := by
  classical
  rw [hj.componentOf]
  split
  · rename_i hn
    refine ⟨fun _ => ?_, fun _ => rfl⟩
    rcases hn with hv | ⟨id, -, hc⟩
    · exact .inr hv
    · exact .inl (by rw [hc]; rfl)
  · rename_i hn
    exact ⟨.inl, fun h => h.resolve_right fun hv => hn (.inl hv)⟩

/-- Joining one more list. -/
theorem Represents.join {p : Partition} {lists : List (List Var)} (hp : p.Represents lists)
    {vars : List Var} (hv : ∀ v ∈ vars, v < p.table.size) :
    (p.join vars).Represents (lists ++ [vars]) := by
  by_cases hne : vars = []
  · subst hne
    exact hp.concat_nil
  obtain ⟨target, hj⟩ := hp.valid.join hv hne
  refine ⟨hj.valid, fun v => ?_, fun {v id} h w => ⟨fun hw => ?_, fun hl => ?_⟩⟩
  · rw [hj.isSome_iff, hp.isSome_iff]
    simp only [List.mem_append, List.mem_singleton, or_and_right, exists_or, exists_eq_left]
  · have sub : ∀ {x y}, Linked lists x y → Linked (lists ++ [vars]) x y :=
      Linked.mono fun vs h _ _ => List.mem_append_left _ h
    rcases (hj.same_iff h).mp hw with ⟨j, hvj, hwj⟩ | ⟨hnv, hnw⟩
    · exact sub ((hp.same_iff hvj w).mp hwj)
    · obtain ⟨x, hx, hvx⟩ := hp.linked_of_near hnv
      obtain ⟨y, hy, hwy⟩ := hp.linked_of_near hnw
      have step : Adjacent (lists ++ [vars]) x y :=
        ⟨vars, List.mem_append_right _ (List.mem_singleton_self _), hx, hy⟩
      exact ((sub hvx).tail step).trans (sub hwy).symm
  · -- each step along the chain stays in the component that its start is in now
    induction hl with
    | refl => exact h
    | tail _ hstep ih =>
      obtain ⟨vs, hvs, hx, hy⟩ := hstep
      refine (hj.same_iff ih).mpr ?_
      rcases List.mem_append.mp hvs with hvs | hvs
      · obtain ⟨j, hj⟩ := Option.isSome_iff_exists.mp ((hp.isSome_iff _).mpr ⟨vs, hvs, hx⟩)
        exact .inl ⟨j, hj, (hp.same_iff hj _).mpr (.single ⟨vs, hvs, hx, hy⟩)⟩
      · rw [List.mem_singleton.mp hvs] at hx hy
        exact .inr ⟨.inl hx, .inl hy⟩

/-- Joining lists one by one, after those that the partition represents. -/
theorem Represents.joinAll {p : Partition} {done rest : List (List Var)} (hp : p.Represents done)
    (hv : ∀ vs ∈ rest, ∀ v ∈ vs, v < p.table.size) :
    (rest.foldl Partition.join p).Represents (done ++ rest) := by
  induction rest generalizing p done with
  | nil => simpa using hp
  | cons vs rest ih =>
    have := ih (hp.join (hv vs List.mem_cons_self)) (by
      rw [size_table_join]
      exact fun ws hws => hv ws (List.mem_cons_of_mem _ hws))
    rwa [List.append_assoc, List.singleton_append] at this

/-! ## The partition of constraints -/

theorem add_eq_ok {p : Partition} {vars : List Var} (hv : ∀ v ∈ vars, v < p.table.size) :
    p.add vars = .ok (p.join vars) := by
  have : vars.find? (fun v => decide (p.table.size ≤ v)) = none := by
    simpa using hv
  rw [add, this]

/-- Adding joins variables that exist, and faults at the first that does not. -/
theorem add_cases (p : Partition) (vars : List Var) :
    ((∀ v ∈ vars, v < p.table.size) ∧ p.add vars = .ok (p.join vars)) ∨
      ∃ u, vars.find? (fun v => decide (p.table.size ≤ v)) = some u ∧
        p.add vars = .error (.indexOutOfRange p.table.size u) := by
  cases hfind : vars.find? fun v => decide (p.table.size ≤ v) with
  | some u => exact .inr ⟨u, rfl, by rw [add, hfind]⟩
  | none =>
    have hv : ∀ v ∈ vars, v < p.table.size := by simpa using List.find?_eq_none.mp hfind
    exact .inl ⟨hv, add_eq_ok hv⟩

theorem foldlM_add {p : Partition} {cs : List Constraint}
    (hv : ∀ c ∈ cs, ∀ v ∈ c.vars, v < p.table.size) :
    (cs.filter fun c => !c.isTrivial).foldlM (fun p c => p.add c.vars) p =
      .ok ((cs.map Constraint.vars).foldl join p) := by
  induction cs generalizing p with
  | nil => rfl
  | cons c cs ih =>
    have rest := ih (p := p.join c.vars) (by
      rw [size_table_join]
      exact fun d hd => hv d (List.mem_cons_of_mem _ hd))
    by_cases ht : c.vars = []
    · rw [List.filter_cons_of_neg (by simp [Constraint.isTrivial, ht])]
      simpa [ht, join_nil] using rest
    · rw [List.filter_cons_of_pos (by simp [Constraint.isTrivial, ht]), List.foldlM_cons,
        add_eq_ok (hv c List.mem_cons_self)]
      exact rest

/-- The components that lists of variables make, joined one by one. -/
def ofLists (varCount : Nat) (lists : List (List Var)) : Partition :=
  lists.foldl join (empty varCount)

theorem size_table_ofLists (varCount : Nat) (lists : List (List Var)) :
    (ofLists varCount lists).table.size = varCount :=
  List.foldlRecOn (motive := fun p => p.table.size = varCount) _ _ Array.size_replicate
    fun p hp vars _ => (size_table_join p vars).trans hp

theorem represents_ofLists {varCount : Nat} {lists : List (List Var)}
    (hv : ∀ vs ∈ lists, ∀ v ∈ vs, v < varCount) : (ofLists varCount lists).Represents lists :=
  (Represents.empty varCount).joinAll (by rwa [Partition.empty, Array.size_replicate])

theorem ofConstraints_eq {varCount : Nat} {cs : List Constraint}
    (hv : ∀ c ∈ cs, ∀ v ∈ c.vars, v < varCount) :
    ofConstraints varCount cs = .ok (ofLists varCount (cs.map Constraint.vars)) :=
  foldlM_add (by rwa [Partition.empty, Array.size_replicate])

/-- Constraints over known variables have a partition, and it represents them. -/
theorem exists_ofConstraints {varCount : Nat} {cs : List Constraint}
    (hv : ∀ c ∈ cs, ∀ v ∈ c.vars, v < varCount) :
    ∃ p, ofConstraints varCount cs = .ok p ∧ p.Represents (cs.map Constraint.vars) ∧
      p.table.size = varCount :=
  ⟨_, ofConstraints_eq hv, represents_ofLists (List.forall_mem_map.mpr hv), size_table_ofLists _ _⟩

theorem build_eq {varCount : Nat} (h : entryBytes * varCount ≤ tableBytes) (cs : List Constraint) :
    build varCount cs = ofConstraints varCount cs := by
  rw [build, checkTable_eq_ok_iff.mpr h]
  rfl

end Partition

end ParityBlocks
