import ParityBlocks.Proofs.InPlace

/-!
# Components over time

What calls on a partition, one after the other, do to the components that were there before
(`Partition.Succeeds`): a number is given once, so a component that was taken over never comes
back, and a variable stays in a component, whose number only changes to a new one.
Joining does this (`Valid.succeeds_join`), and a call that faults does nothing. So it holds
between any two moments of a run, and the two views agree at each of them
(`valid_foldl_inserted`).
-/

namespace ParityBlocks.Partition

/-- What later partitions keep of the components of a partition. -/
structure Succeeds (p q : Partition) : Prop where
  size_eq : q.table.size = p.table.size
  idCount_le : p.idCount ≤ q.idCount
  /-- A number that was given to a component which is gone stays without one. -/
  retired {id : Nat} : id < p.idCount → p.membersOf id = none → q.membersOf id = none
  /-- A variable keeps its component or gets into one with a number that was not given before. -/
  componentOf {v : Var} {id : Nat} : p.componentOf v = some id →
    ∃ id', q.componentOf v = some id' ∧ (id' = id ∨ p.idCount ≤ id')

namespace Succeeds

variable {p q r : Partition}

theorem refl (p : Partition) : p.Succeeds p :=
  ⟨rfl, Nat.le_refl _, fun _ h => h, fun h => ⟨_, h, .inl rfl⟩⟩

theorem trans (h : p.Succeeds q) (h' : q.Succeeds r) : p.Succeeds r where
  size_eq := h'.size_eq.trans h.size_eq
  idCount_le := Nat.le_trans h.idCount_le h'.idCount_le
  retired hid hm := h'.retired (Nat.lt_of_lt_of_le hid h.idCount_le) (h.retired hid hm)
  componentOf hc := by
    obtain ⟨id', hc', hid'⟩ := h.componentOf hc
    obtain ⟨id'', hc'', rfl | hid''⟩ := h'.componentOf hc'
    · exact ⟨id'', hc'', hid'⟩
    · exact ⟨id'', hc'', .inr (Nat.le_trans h.idCount_le hid'')⟩

end Succeeds

section Join

variable {p : Partition} {vars : List Var}

/-- Joining does not bring back a component that is gone. -/
theorem membersOf_join_of_retired {id : Nat} (hid : id < p.idCount) (h : p.membersOf id = none) :
    (p.join vars).membersOf id = none := by
  by_cases hne : vars = []
  · rwa [hne, join_nil]
  rcases p.join_cases hne with ⟨j, -, hj⟩ | ⟨-, hj⟩
  · rw [hj, membersOf_absorb]
    split
    · rename_i e
      rw [← e, h, Option.map_none]
    · exact h
  · rw [hj, membersOf_merge, if_neg (Nat.ne_of_lt hid), h, ite_self]

/-- Joining leaves a variable in its component, or puts it into the new one. -/
theorem Valid.exists_componentOf_join (hp : p.Valid) (hv : ∀ v ∈ vars, v < p.table.size) {v : Var}
    {id : Nat} (hc : p.componentOf v = some id) :
    ∃ id', (p.join vars).componentOf v = some id' ∧ (id' = id ∨ p.idCount ≤ id') := by
  classical
  by_cases hne : vars = []
  · exact ⟨id, by rwa [hne, join_nil], .inl rfl⟩
  rcases p.join_cases hne with ⟨j, ht, hj⟩ | ⟨-, hj⟩
  · rw [hj, (hp.absorb hv ht).componentOf]
    split
    · rename_i hn
      have hid := ht ▸ (near_iff_touched hc).mp hn
      exact ⟨j, rfl, .inl (List.mem_singleton.mp hid).symm⟩
    · exact ⟨id, hc, .inl rfl⟩
  · rw [hj, (hp.merge hv hne).componentOf]
    split
    · exact ⟨_, rfl, .inr (Nat.le_refl _)⟩
    · exact ⟨id, hc, .inl rfl⟩

theorem Valid.succeeds_join (hp : p.Valid) (hv : ∀ v ∈ vars, v < p.table.size) :
    p.Succeeds (p.join vars) where
  size_eq := size_table_join p vars
  idCount_le := idCount_le_join p vars
  retired := membersOf_join_of_retired
  componentOf := hp.exists_componentOf_join hv

end Join

/-! ## Calls -/

/-- The partition after a call, also after one that faulted. -/
def inserted (p : Partition) (vars : List Var) : Partition :=
  Checked.leaves (Edit.insert vars) p

section Call

variable {p : Partition} (vars : List Var)

/-- A call joins variables that exist and does nothing otherwise. -/
theorem Valid.inserted_cases (hp : p.Valid) :
    ((∀ v ∈ vars, v < p.table.size) ∧ ¬ Checked.Fails (Edit.insert vars) p ∧
        p.inserted vars = p.join vars) ∨
      ((∃ v ∈ vars, p.table.size ≤ v) ∧ Checked.Fails (Edit.insert vars) p ∧
        p.inserted vars = p) := by
  have run := hp.run_insert vars
  rcases p.add_cases vars with ⟨hv, hadd⟩ | ⟨u, hfind, hadd⟩
  · rw [hadd] at run
    exact .inl ⟨hv, Checked.not_fails_of_ok run, Checked.leaves_of_ok run⟩
  · rw [hadd] at run
    have hu : p.table.size ≤ u := by simpa using List.find?_some hfind
    exact .inr ⟨⟨u, List.mem_of_find?_eq_some hfind, hu⟩, ⟨_, _, run⟩, Checked.leaves_of_error run⟩

theorem Valid.valid_inserted (hp : p.Valid) : (p.inserted vars).Valid := by
  rcases hp.inserted_cases vars with ⟨hv, -, h⟩ | ⟨-, -, h⟩
  · rw [h]
    exact hp.valid_join hv
  · rwa [h]

theorem Valid.succeeds_inserted (hp : p.Valid) : p.Succeeds (p.inserted vars) := by
  rcases hp.inserted_cases vars with ⟨hv, -, h⟩ | ⟨-, -, h⟩
  · rw [h]
    exact hp.succeeds_join hv
  · rw [h]
    exact .refl p

theorem Valid.fails_insert_iff (hp : p.Valid) :
    Checked.Fails (Edit.insert vars) p ↔ ∃ v ∈ vars, p.table.size ≤ v := by
  rcases hp.inserted_cases vars with ⟨hv, not_fails, -⟩ | ⟨hv, fails, -⟩
  · refine iff_of_false not_fails ?_
    rintro ⟨v, hmem, hle⟩
    exact Nat.not_lt_of_le hle (hv v hmem)
  · exact iff_of_true fails hv

end Call

/-- Calls one after the other keep a partition valid and its components as they must. -/
theorem Valid.foldl_inserted {p : Partition} (hp : p.Valid) (calls : List (List Var)) :
    (calls.foldl inserted p).Valid ∧ p.Succeeds (calls.foldl inserted p) := by
  refine List.foldlRecOn (motive := fun q => q.Valid ∧ p.Succeeds q) calls inserted
    ⟨hp, .refl p⟩ ?_
  rintro q ⟨hq, hs⟩ vars -
  exact ⟨hq.valid_inserted vars, hs.trans (hq.succeeds_inserted vars)⟩

/-- After any calls, those that faulted among them, the two views agree, and the next call faults
exactly if one of its variables does not exist, which changes nothing. Whatever calls come then,
numbers of components that are gone are never used again, and a variable keeps its component or
gets into one with a new number. -/
theorem valid_foldl_inserted (varCount : Nat) (calls : List (List Var)) :
    let p := calls.foldl inserted (empty varCount)
    p.Valid ∧ p.table.size = varCount ∧
      (∀ vars,
        (Checked.Fails (Edit.insert vars) p ↔ ∃ v ∈ vars, varCount ≤ v) ∧
        (Checked.Fails (Edit.insert vars) p → p.inserted vars = p) ∧
        (Edit.insert vars).run p =
          match p.add vars with
          | .ok q => .ok () q
          | .error fault => .error fault p) ∧
      ∀ more : List (List Var), p.Succeeds (more.foldl inserted p) := by
  intro p
  obtain ⟨valid, succeeds⟩ := (Valid.empty varCount).foldl_inserted calls
  have size : p.table.size = varCount := succeeds.size_eq.trans Array.size_replicate
  refine ⟨valid, size, fun vars => ⟨?_, fun h => ?_, valid.run_insert vars⟩, fun more =>
    (valid.foldl_inserted more).2⟩
  · rw [valid.fails_insert_iff, size]
  · rcases valid.inserted_cases vars with ⟨-, not_fails, -⟩ | ⟨-, -, same⟩
    · exact absurd h not_fails
    · exact same

/-- A component absorbs a variable, two are taken over, and one call faults. -/
example :
    let p := [[0, 1], [2, 3], [4], [5, 1, 3], [0, 5], [6, 4, 6], [4, 8]].foldl inserted (empty 8)
    p.components = [(2, [4, 6]), (3, [5, 0, 1, 2, 3])] := by
  decide +kernel

end ParityBlocks.Partition
