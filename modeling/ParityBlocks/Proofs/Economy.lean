import Mathlib.Data.Finset.Card
import Mathlib.Data.Finset.Lattice.Basic
import ParityBlocks.Proofs.Blocks

/-!
# Few numbers for components

Joining gives a new number whenever it does not put variables into a component that is there, and
numbers are never used again. But a new component is made of new variables alone, or it takes the
place of two others at least. So the numbers given and the live components, counted together, are
never more than twice the variables that have a component: joining increases the first by no more
than twice what it increases the second (`Valid.thrifty_join`), and from this the bound holds after
any run (`idCount_le_of_foldlM_add`).

The rows of the components are found with a table by number, `Component.distribute`. It comes to
what `Component.ofPartition` says (`ofPartition_eq_distribute`), and is as long as there are
numbers (`size_of_distribute`).
-/

namespace ParityBlocks

namespace Partition

/-- The variables that have a component. -/
def covered (p : Partition) : Finset Var :=
  {v ∈ Finset.range p.table.size | (p.componentOf v).isSome}

/-- The numbers of the live components. -/
def live (p : Partition) : Finset Nat := {id ∈ Finset.range p.idCount | (p.membersOf id).isSome}

section Views

variable {p : Partition} {v : Var} {id : Nat}

theorem mem_covered : v ∈ p.covered ↔ (p.componentOf v).isSome := by
  rw [covered, Finset.mem_filter, Finset.mem_range]
  refine and_iff_right_of_imp fun h => ?_
  obtain ⟨id, hc⟩ := Option.isSome_iff_exists.mp h
  exact lt_of_componentOf hc

theorem mem_live : id ∈ p.live ↔ (p.membersOf id).isSome := by
  rw [live, Finset.mem_filter, Finset.mem_range]
  refine and_iff_right_of_imp fun h => ?_
  obtain ⟨ms, hm⟩ := Option.isSome_iff_exists.mp h
  exact lt_of_membersOf hm

theorem card_covered_le (p : Partition) : p.covered.card ≤ p.table.size := by
  calc p.covered.card ≤ (Finset.range p.table.size).card := Finset.card_filter_le _ _
    _ = p.table.size := Finset.card_range _

theorem length_components (p : Partition) : p.components.length = p.live.card := by
  have nodup : (p.components.map Prod.fst).Nodup :=
    List.pairwise_map.mpr (Component.pairwise_components p)
  have same : (p.components.map Prod.fst).toFinset = p.live := by
    ext id
    simp only [List.mem_toFinset, List.mem_map, Prod.exists, mem_components, exists_and_right,
      exists_eq_right, mem_live, Option.isSome_iff_exists]
  rw [← same, List.toFinset_card_of_nodup nodup, List.length_map]

theorem Valid.mem_live (hp : p.Valid) (h : p.componentOf v = some id) : id ∈ p.live :=
  Partition.mem_live.mpr (Option.isSome_iff_exists.mpr (hp.exists_membersOf h))

/-- A component is live as soon as a variable is in one. -/
theorem Valid.live_nonempty (hp : p.Valid) (h : p.covered.Nonempty) : p.live.Nonempty := by
  obtain ⟨v, hv⟩ := h
  obtain ⟨id, hc⟩ := Option.isSome_iff_exists.mp (mem_covered.mp hv)
  exact ⟨id, hp.mem_live hc⟩

end Views

/-! ## One list more -/

section Join

variable {p : Partition} {vars : List Var}

theorem live_absorb (p : Partition) (id : Nat) (vars : List Var) :
    (p.absorb id vars).live = p.live := by
  ext j
  rw [mem_live, mem_live, membersOf_absorb]
  split
  · rename_i h
    rw [h, Option.isSome_map]
  · rfl

theorem live_merge (p : Partition) (ids : List Nat) (vars : List Var) :
    (p.merge ids vars).live = insert p.idCount (p.live \ ids.toFinset) := by
  ext j
  rw [mem_live, membersOf_merge, Finset.mem_insert, Finset.mem_sdiff, mem_live, List.mem_toFinset]
  split
  · rename_i h
    simp [h]
  · rename_i h
    split
    · rename_i hj
      simp [h, hj]
    · rename_i hj
      simp [h, hj]

/-- The new component replaces those that it takes over. -/
theorem card_live_merge {ids : List Nat} (hn : ids.Nodup) (h : ∀ id ∈ ids, id ∈ p.live)
    (vars : List Var) : (p.merge ids vars).live.card + ids.length = p.live.card + 1 := by
  have fresh : p.idCount ∉ p.live \ ids.toFinset := by
    simp [live]
  have sub : ids.toFinset ⊆ p.live := fun id hid => h id (List.mem_toFinset.mp hid)
  have split := Finset.card_sdiff_add_card_eq_card sub
  rw [List.toFinset_card_of_nodup hn] at split
  rw [live_merge, Finset.card_insert_of_notMem fresh]
  omega

theorem Valid.mem_live_of_mem_touched (hp : p.Valid) {id : Nat} (h : id ∈ p.touched vars) :
    id ∈ p.live := by
  obtain ⟨v, -, hc⟩ := mem_touched.mp h
  exact hp.mem_live hc

/-- Joining takes no variable out of the components. -/
theorem Valid.covered_subset_join (hp : p.Valid) (hv : ∀ v ∈ vars, v < p.table.size) :
    p.covered ⊆ (p.join vars).covered := by
  intro v h
  by_cases hne : vars = []
  · rwa [hne, join_nil]
  obtain ⟨target, hj⟩ := hp.join hv hne
  exact mem_covered.mpr ((hj.isSome_iff v).mpr (.inl (mem_covered.mp h)))

/-- Variables of which none is in a component are new in one after they were joined. -/
theorem Valid.covered_ssubset_join (hp : p.Valid) (hv : ∀ v ∈ vars, v < p.table.size)
    (hne : vars ≠ []) (ht : p.touched vars = []) : p.covered ⊂ (p.join vars).covered := by
  obtain ⟨u, hu⟩ := List.exists_mem_of_ne_nil _ hne
  obtain ⟨target, hj⟩ := hp.join hv hne
  refine Finset.ssubset_iff_subset_ne.mpr ⟨hp.covered_subset_join hv, fun e => ?_⟩
  have after : u ∈ (p.join vars).covered := mem_covered.mpr ((hj.isSome_iff u).mpr (.inr hu))
  obtain ⟨id, hc⟩ := Option.isSome_iff_exists.mp (mem_covered.mp (e ▸ after))
  have touched : id ∈ p.touched vars := mem_touched.mpr ⟨u, hu, hc⟩
  rw [ht] at touched
  cases touched

/-- Numbers and live components are at most twice as many as the variables in components. -/
def Thrifty (p : Partition) : Prop := p.idCount + p.live.card ≤ 2 * p.covered.card

/-- A new component costs a number, and either adds a variable or replaces two components. -/
theorem Valid.thrifty_join (hp : p.Valid) (hv : ∀ v ∈ vars, v < p.table.size) (h : p.Thrifty) :
    (p.join vars).Thrifty := by
  by_cases hne : vars = []
  · rwa [hne, join_nil]
  have mono := Finset.card_le_card (hp.covered_subset_join hv)
  have more := fun ht => Finset.card_lt_card (hp.covered_ssubset_join hv hne ht)
  rw [Thrifty] at h ⊢
  rcases p.join_cases hne with ⟨id, -, hj⟩ | ⟨hnot, hj⟩
  · rw [hj, idCount_absorb, live_absorb, ← hj]
    omega
  · have replaced : (p.join vars).live.card + (p.touched vars).length = p.live.card + 1 :=
      hj ▸ card_live_merge (nodup_touched p vars) (fun _ => hp.mem_live_of_mem_touched) _
    rw [show (p.join vars).idCount = p.idCount + 1 by rw [hj, idCount_merge]]
    rcases ht : p.touched vars with _ | ⟨i, _ | ⟨j, rest⟩⟩
    · have added := more ht
      rw [ht, List.length_nil] at replaced
      omega
    · exact absurd ht (hnot i)
    · rw [ht, List.length_cons, List.length_cons] at replaced
      omega

end Join

/-! ## Runs -/

theorem thrifty_empty (varCount : Nat) : (empty varCount).Thrifty := by
  have numbers : (empty varCount).idCount = 0 := rfl
  rw [Thrifty, numbers, live, numbers]
  exact Nat.zero_le _

/-- What a call that does not fault does. -/
theorem of_add_eq_ok {p q : Partition} {vars : List Var} (h : p.add vars = .ok q) :
    (∀ v ∈ vars, v < p.table.size) ∧ q = p.join vars := by
  rcases p.add_cases vars with ⟨hv, hadd⟩ | ⟨u, -, hadd⟩
  · exact ⟨hv, Except.ok.inj (h.symm.trans hadd)⟩
  · cases h.symm.trans hadd

/-- A partition of `varCount` variables that is valid and has not more numbers and components than
it may. -/
structure Economical (varCount : Nat) (p : Partition) : Prop where
  valid : p.Valid
  size_eq : p.table.size = varCount
  thrifty : p.Thrifty

theorem economical_foldlM_add {varCount : Nat} {p q : Partition} (hp : p.Economical varCount)
    {calls : List (List Var)} (h : calls.foldlM Partition.add p = .ok q) :
    q.Economical varCount := by
  induction calls generalizing p with
  | nil =>
    cases h
    exact hp
  | cons vars calls ih =>
    rw [List.foldlM_cons] at h
    obtain ⟨next, hnext, h⟩ := Checked.bind_eq_ok.mp h
    obtain ⟨hv, rfl⟩ := of_add_eq_ok hnext
    refine ih ⟨hp.valid.valid_join hv, ?_, hp.valid.thrifty_join hv hp.thrifty⟩ h
    rw [size_table_join, hp.size_eq]

/-- Numbers are less than twice as many as variables: some component is live, if any number was
given, and it is counted too. -/
theorem Economical.idCount_lt {varCount : Nat} {p : Partition} (hp : p.Economical varCount)
    (h : 0 < varCount) : p.idCount < 2 * varCount := by
  have few := hp.thrifty
  have known := hp.size_eq ▸ p.card_covered_le
  rw [Thrifty] at few
  rcases p.covered.eq_empty_or_nonempty with hnone | hsome
  · rw [hnone, Finset.card_empty] at few
    omega
  · have alive := Finset.card_pos.mpr (hp.valid.live_nonempty hsome)
    omega

end Partition

/-! ## The table of components -/

namespace Component

/-- A component with one more row. -/
def addRow (b : Component) (c : Constraint) : Component :=
  { b with shape := .ofRows b.shape.id b.members (b.rows ++ [c]), rows := b.rows ++ [c] }

/-- The components by number, with their rows among `cs`, and nothing where none is live. -/
def byNumber (p : Partition) (cs : List Constraint) : Array (Option Component) :=
  ((List.range p.idCount).map fun id => (p.membersOf id).map (gather p cs id)).toArray

/-- Puts a constraint into the component of its first variable. -/
def place (p : Partition) (slots : Array (Option Component)) (c : Constraint) :
    Except Fault (Array (Option Component)) :=
  match c.vars with
  | [] => .ok slots
  | v :: _ =>
    match lookup p.table v with
    | .error fault => .error fault
    | .ok none => .error (.notPartitioned c)
    | .ok (some id) =>
      match lookup slots id with
      | .error fault => .error fault
      | .ok none => .error (.notPartitioned c)
      | .ok (some b) => .ok (slots.setIfInBounds id (some (b.addRow c)))

/-- Puts constraints one by one into a table of components, by number, that are without rows. -/
def distribute (p : Partition) (cs : List Constraint) : Except Fault (Array (Option Component)) :=
  cs.foldlM (place p) (byNumber p [])

/-- The components of a table in the order of competition. -/
def collect (slots : Array (Option Component)) : List Component :=
  Sorting.sort (fun s t => s.shape.mayPrecede t.shape) slots.toList.reduceOption

section Distribute

variable {p : Partition}

theorem size_byNumber (p : Partition) (cs : List Constraint) :
    (byNumber p cs).size = p.idCount := by
  simp [byNumber]

theorem getElem?_byNumber (p : Partition) (cs : List Constraint) (id : Nat) :
    (byNumber p cs)[id]? =
      if id < p.idCount then some ((p.membersOf id).map (gather p cs id)) else none := by
  by_cases h : id < p.idCount <;> simp [byNumber, h]

/-- One constraint more is a row more for the component that it falls into. -/
theorem map_gather_concat (p : Partition) (cs : List Constraint) (c : Constraint) (id : Nat)
    (ms : Option (List Var)) :
    ms.map (gather p (cs ++ [c]) id) =
      if idOf p c = some id then ms.map fun ms => (gather p cs id ms).addRow c
      else ms.map (gather p cs id) := by
  cases ms with
  | none => simp
  | some ms =>
    split
    · rename_i h
      simp [gather, addRow, List.filter_append, h, Shape.ofRows]
    · rename_i h
      simp [gather, List.filter_append, h]

/-- Putting a constraint into the table fails where its check does. -/
theorem place_byNumber (hp : p.Valid) (cs : List Constraint) (c : Constraint) :
    place p (byNumber p cs) c = (check p c).map fun _ => byNumber p (cs ++ [c]) := by
  rw [place, check]
  cases hvs : c.vars with
  | nil =>
    have falls : idOf p c = none := by rw [idOf, hvs]; rfl
    refine congrArg Except.ok (Array.ext_getElem? fun j => ?_)
    rw [getElem?_byNumber, getElem?_byNumber, map_gather_concat, falls,
      if_neg (Option.some_ne_none j).symm]
  | cons v vs =>
    have falls : idOf p c = p.componentOf v := by rw [idOf, hvs]; rfl
    dsimp only
    cases hl : lookup p.table v with
    | error fault => rfl
    | ok found =>
      cases found with
      | none => rfl
      | some id =>
        have hc : p.componentOf v = some id := Option.join_eq_some_iff.mpr (lookup_eq_ok_iff.mp hl)
        obtain ⟨ms, hm⟩ := hp.exists_membersOf hc
        have hid := hp.lt_idCount hc
        have slot : lookup (byNumber p cs) id = .ok (some (gather p cs id ms)) := by
          rw [lookup_eq_ok_iff, getElem?_byNumber, if_pos hid, hm, Option.map_some]
        dsimp only
        rw [slot]
        refine congrArg Except.ok (Array.ext_getElem? fun j => ?_)
        rw [Array.getElem?_setIfInBounds, size_byNumber, getElem?_byNumber, getElem?_byNumber,
          map_gather_concat, falls, hc]
        by_cases hj : id = j
        · subst hj
          rw [if_pos rfl, if_pos hid, if_pos hid, if_pos rfl, hm, Option.map_some]
        · rw [if_neg hj, if_neg fun e => hj (Option.some.inj e)]

/-- Putting in the constraints one by one makes the table of all of them, if all pass the check. -/
theorem distribute_eq (hp : p.Valid) (cs : List Constraint) :
    distribute p cs = (cs.forM (check p)).map fun _ => byNumber p cs := by
  have from_any : ∀ rest done : List Constraint, rest.foldlM (place p) (byNumber p done) =
      (rest.forM (check p)).map fun _ => byNumber p (done ++ rest) := by
    intro rest
    induction rest with
    | nil =>
      intro done
      rw [List.append_nil]
      rfl
    | cons c rest ih =>
      intro done
      have later := ih (done ++ [c])
      rw [List.append_assoc, List.singleton_append] at later
      rw [List.foldlM_cons, place_byNumber hp]
      show _ = Except.map _ (check p c >>= fun _ => rest.forM (check p))
      cases check p c with
      | error fault => rfl
      | ok u => exact later
  exact from_any cs []

theorem collect_byNumber (p : Partition) (cs : List Constraint) :
    collect (byNumber p cs) = ranked p cs := by
  have same : (byNumber p cs).toList.reduceOption = found p cs := by
    show (byNumber p cs).toList.filterMap id = found p cs
    rw [byNumber, found, Partition.components, List.map_filterMap, List.toList_toArray,
      List.filterMap_map]
    refine List.filterMap_congr fun id _ => ?_
    cases hm : p.membersOf id <;> simp [hm]
  rw [collect, same, ranked]

/-- Finding the components with a table by number. -/
theorem ofPartition_eq_distribute (hp : p.Valid) (cs : List Constraint) :
    ofPartition p cs = (distribute p cs).map collect := by
  rw [distribute_eq hp, ofPartition]
  cases cs.forM (check p) with
  | error fault => rfl
  | ok u => exact congrArg Except.ok (collect_byNumber p cs).symm

theorem size_of_distribute (hp : p.Valid) {cs : List Constraint} {slots : Array (Option Component)}
    (h : distribute p cs = .ok slots) : slots.size = p.idCount := by
  rw [distribute_eq hp] at h
  obtain ⟨-, -, rfl⟩ := Checked.map_eq_ok.mp h
  exact size_byNumber p cs

end Distribute

end Component

namespace Partition

/-- However many lists are joined, numbers and live components are at most twice as many as the
variables in components, so there are less than two numbers for each variable. The table in which
the components are found has no more entries. -/
theorem idCount_le_of_foldlM_add {varCount : Nat} {calls : List (List Var)} {p : Partition}
    (h : calls.foldlM Partition.add (empty varCount) = .ok p) :
    p.idCount + p.components.length ≤ 2 * p.covered.card ∧
      (0 < varCount → p.idCount < 2 * varCount) ∧
      ∀ cs, Component.ofPartition p cs = (Component.distribute p cs).map Component.collect ∧
        ∀ slots, Component.distribute p cs = .ok slots →
          slots.size = p.idCount ∧ (0 < varCount → slots.size < 2 * varCount) := by
  have start : (empty varCount).Economical varCount :=
    ⟨.empty varCount, Array.size_replicate, thrifty_empty varCount⟩
  have reached := economical_foldlM_add start h
  refine ⟨?_, reached.idCount_lt, fun cs => ⟨?_, fun slots hs => ?_⟩⟩
  · rw [length_components]
    exact reached.thrifty
  · exact Component.ofPartition_eq_distribute reached.valid cs
  · have size := Component.size_of_distribute reached.valid hs
    exact ⟨size, fun h => size ▸ reached.idCount_lt h⟩

/-- The bound is reached where single variables are joined in pairs: four variables, one component
and seven numbers. -/
theorem idCount_le_of_foldlM_add_sample :
    let calls := [[0], [1], [2], [3], [0, 1], [2, 3, 3], [], [3, 0], [1, 2]]
    ∃ p, calls.foldlM Partition.add (empty 4) = .ok p ∧
      p.idCount = 7 ∧ p.components.length = 1 ∧ p.covered.card = 4 ∧
      p.idCount + p.components.length ≤ 2 * p.covered.card ∧ p.idCount < 2 * 4 ∧
      ∀ cs slots, Component.distribute p cs = .ok slots → slots.size < 2 * 4 := by
  intro calls
  have run : ((calls.foldlM Partition.add (empty 4)).toOption.any fun p =>
      decide (p.idCount = 7 ∧ p.components.length = 1 ∧ p.covered.card = 4)) = true := by
    decide +kernel
  obtain ⟨p, h, counts⟩ := Checked.exists_eq_ok run
  obtain ⟨ids, comps, covered⟩ := of_decide_eq_true counts
  obtain ⟨few, lt, tables⟩ := idCount_le_of_foldlM_add h
  exact ⟨p, h, ids, comps, covered, few, lt (by decide), fun cs slots hs =>
    ((tables cs).2 slots hs).2 (by decide)⟩

end Partition

end ParityBlocks
