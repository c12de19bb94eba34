import ParityBlocks.Proofs.Reachable

/-!
# New inner numbers

`Numbering.renumber` looks only for inner numbers that are out of range or were given before, with
a mark in the slots that are still free. That is enough: of a list as long as there are variables,
every slot is filled in the end, so the list is a permutation and the slots are its inverse
(`perm_of_invert`); and a permutation never meets a slot that is taken (`exists_invert`).

`Solver.renumberInPlace` is the same with the tables written one after the other. Both are written
after the last check, so a list that is refused leaves the solver as it was, and any number of
calls leaves tables that undo each other (`renumber_iff_perm`).
-/

namespace ParityBlocks

namespace Numbering

/-- The tables of inner and outer numbers have `size` entries and undo each other. -/
structure Inverse (n : Numbering) (size : Nat) : Prop where
  toInner_size : n.toInner.size = size
  toOuter_size : n.toOuter.size = size
  toOuter_toInner {v : Var} : v < size → ∃ w, n.toInner[v]? = some w ∧ n.toOuter[w]? = some v
  toInner_toOuter {w : Var} : w < size → ∃ v, n.toOuter[w]? = some v ∧ n.toInner[v]? = some w

theorem inverse_of_iff {n : Numbering} {size : Nat} (hi : n.toInner.size = size)
    (ho : n.toOuter.size = size)
    (h : ∀ v w : Var, n.toInner[v]? = some w ↔ n.toOuter[w]? = some v) : n.Inverse size where
  toInner_size := hi
  toOuter_size := ho
  toOuter_toInner hv :=
    have entry := Array.getElem?_eq_getElem (hi ▸ hv)
    ⟨_, entry, (h _ _).mp entry⟩
  toInner_toOuter hw :=
    have entry := Array.getElem?_eq_getElem (ho ▸ hw)
    ⟨_, entry, (h _ _).mpr entry⟩

theorem WellFormed.tables_inverse {n : Numbering} {size : Nat} (hn : n.WellFormed size) :
    n.Inverse size :=
  inverse_of_iff hn.toInner_size hn.toOuter_size hn.inverse

section Invert

variable {size : Nat} {inners : List Var} {slots : Array Var}

/-- A slot that was given to no variable is free. -/
theorem Filled.free {done : List Var} (hf : Filled size done slots) {x : Var} (hx : x < size)
    (hnot : x ∉ done) : slots[x]? = some unused := by
  have entry : slots[x]? = some _ := Array.getElem?_eq_getElem (hf.size_eq ▸ hx)
  rw [entry]
  by_contra hne
  have given := (hf.slot _ x fun e => hne (congrArg some e)).mpr entry
  exact hnot (List.mem_of_getElem? given)

/-- Different inner numbers in range find free slots, whichever were filled before. -/
theorem Filled.exists_foldlM (hs : size < Var.modulus) {rest done : List Var}
    (hf : Filled size done slots) (hn : (done ++ rest).Nodup) (hlt : ∀ x ∈ rest, x < size) :
    ∃ slots', (rest.zipIdx done.length).foldlM
      (fun slots (inner, outer) =>
        if slots[inner]? = some unused then
          Except.ok (slots.setIfInBounds inner (outer % Var.modulus))
        else .error (NumberingError.notPermutation inner)) slots = .ok slots' := by
  induction rest generalizing done slots with
  | nil => exact ⟨slots, rfl⟩
  | cons x rest ih =>
    obtain ⟨hx, hlt⟩ := List.forall_mem_cons.mp hlt
    have hnot : x ∉ done := fun h =>
      (List.nodup_append'.mp hn).2.2 h List.mem_cons_self
    have free := hf.free hx hnot
    obtain ⟨slots', h⟩ := ih (hf.concat hs free) (by rwa [List.append_assoc]) hlt
    refine ⟨slots', ?_⟩
    rw [List.length_append, List.length_singleton] at h
    rw [List.zipIdx_cons, List.foldlM_cons]
    dsimp only
    rw [if_pos free]
    exact h

/-- Every permutation has an inverse. -/
theorem exists_invert (hs : size < Var.modulus) (h : inners.Perm (List.range size)) :
    ∃ slots, invert size inners = .ok slots :=
  (Filled.nil size).exists_foldlM hs (h.nodup_iff.mpr List.nodup_range) fun _ hx =>
    List.mem_range.mp (h.mem_iff.mp hx)

/-- A list that has an inverse is a permutation: no number is given twice, and all are in range. -/
theorem perm_of_invert (hs : size < Var.modulus) (hl : inners.length = size)
    (h : invert size inners = .ok slots) : inners.Perm (List.range size) := by
  obtain ⟨hsize, hinv⟩ := invert_eq_ok hs hl h
  have nodup : inners.Nodup := by
    refine List.nodup_iff_getElem?_ne_getElem?.mpr fun i j hij hj heq => ?_
    obtain ⟨w, hw⟩ : ∃ w, inners[j]? = some w := ⟨_, List.getElem?_eq_getElem hj⟩
    have same := ((hinv i w).mp (heq.trans hw)).symm.trans ((hinv j w).mp hw)
    exact Nat.ne_of_lt hij (Option.some.inj same)
  have subset : inners ⊆ List.range size := by
    intro w hw
    obtain ⟨v, hv⟩ := List.getElem?_of_mem hw
    obtain ⟨hlt, -⟩ := Array.getElem?_eq_some_iff.mp ((hinv v w).mp hv)
    exact List.mem_range.mpr (hsize ▸ hlt)
  refine (List.subperm_of_subset nodup subset).perm_of_length_le ?_
  rw [List.length_range, hl]

end Invert

end Numbering

namespace Solver

/-- Gives the outer variables new inner numbers, table by table. -/
def renumberInPlace (inners : List Var) : EStateM NumberingError Solver Unit := do
  let s ← get
  if inners.length ≠ s.varCount then
    throw (.wrongLength s.varCount inners.length)
  match Numbering.invert s.varCount inners with
  | .error e => throw e
  | .ok slots =>
    modify fun s => { s with numbering := { s.numbering with toInner := inners.toArray } }
    modify fun s => { s with numbering := { s.numbering with toOuter := slots } }

/-- The solver after a call, also after one that was refused. -/
def renumbered (s : Solver) (inners : List Var) : Solver :=
  Checked.leaves (renumberInPlace inners) s

theorem run_renumberInPlace (s : Solver) (inners : List Var) :
    (renumberInPlace inners).run s =
      match s.renumber inners with
      | .ok t => .ok () t
      | .error e => .error e s := by
  rw [renumberInPlace, renumber, Numbering.renumber]
  show EStateM.run (if inners.length ≠ s.varCount then _ >>= _ else _) s = _
  by_cases hl : inners.length ≠ s.varCount
  · rw [if_pos hl, if_pos hl]
    rfl
  · rw [if_neg hl, if_neg hl]
    cases Numbering.invert s.varCount inners with
    | error e => rfl
    | ok slots => rfl

/-- A call takes over a permutation with its inverse, and refuses all else before it writes. -/
theorem renumbered_cases {s : Solver} (hs : s.varCount < Var.modulus) (inners : List Var) :
    (inners.Perm (List.range s.varCount) ∧ ∃ slots,
      (Numbering.mk s.numbering.aliases s.numbering.representative inners.toArray slots).Inverse
        s.varCount ∧
      (renumberInPlace inners).run s = .ok () { s with
        numbering := { s.numbering with toInner := inners.toArray, toOuter := slots } }) ∨
    (¬ inners.Perm (List.range s.varCount) ∧ ∃ e, (renumberInPlace inners).run s = .error e s) := by
  have run := run_renumberInPlace s inners
  rw [renumber, Numbering.renumber] at run
  by_cases hl : inners.length ≠ s.varCount
  · rw [if_pos hl] at run
    refine .inr ⟨fun h => hl ?_, _, run⟩
    rw [h.length_eq, List.length_range]
  · rw [if_neg hl] at run
    rw [not_not] at hl
    cases hi : Numbering.invert s.varCount inners with
    | error e =>
      rw [hi] at run
      refine .inr ⟨fun h => ?_, _, run⟩
      obtain ⟨slots, hslots⟩ := Numbering.exists_invert hs h
      cases hi.symm.trans hslots
    | ok slots =>
      rw [hi] at run
      obtain ⟨hsize, hinv⟩ := Numbering.invert_eq_ok hs hl hi
      refine .inl ⟨Numbering.perm_of_invert hs hl hi, slots, ?_, run⟩
      exact Numbering.inverse_of_iff hl hsize fun v w => by simpa using hinv v w

/-- Calls one after the other keep tables that undo each other. -/
theorem inverse_foldl_renumbered {n : Nat} (hn : n < Var.modulus) {s : Solver}
    (hs : s.varCount = n) (h : s.numbering.Inverse n) (calls : List (List Var)) :
    (calls.foldl renumbered s).numbering.Inverse n := by
  suffices (calls.foldl renumbered s).varCount = n ∧ (calls.foldl renumbered s).numbering.Inverse n
    from this.2
  refine List.foldlRecOn (motive := fun t => t.varCount = n ∧ t.numbering.Inverse n) calls
    renumbered ⟨hs, h⟩ ?_
  rintro t ⟨rfl, ht⟩ inners -
  rcases renumbered_cases hn inners with ⟨-, slots, inverse, run⟩ | ⟨-, e, run⟩
  · rw [renumbered, Checked.leaves_of_ok run]
    exact ⟨rfl, inverse⟩
  · rw [renumbered, Checked.leaves_of_error run]
    exact ⟨rfl, ht⟩

/-- Exactly the permutations are taken as new inner numbers. They become the table of inner numbers
and their inverse the table of outer ones, and nothing else changes; any other list changes
nothing at all. So the tables undo each other after any calls. -/
theorem renumber_iff_perm {n : Nat} (hn : n < Var.modulus) :
    (∀ s : Solver, s.varCount = n → ∀ inners : List Var,
      (¬ Checked.Fails (renumberInPlace inners) s ↔ inners.Perm (List.range n)) ∧
      (¬ Checked.Fails (renumberInPlace inners) s →
        ∃ slots, s.renumbered inners = { s with
            numbering := { s.numbering with toInner := inners.toArray, toOuter := slots } } ∧
          (s.renumbered inners).numbering.Inverse n) ∧
      (Checked.Fails (renumberInPlace inners) s → s.renumbered inners = s) ∧
      (renumberInPlace inners).run s =
        match s.renumber inners with
        | .ok t => .ok () t
        | .error e => .error e s) ∧
    ∀ s : Solver, s.Reachable → s.varCount = n → ∀ calls : List (List Var),
      (calls.foldl renumbered s).numbering.Inverse n := by
  refine ⟨fun s hs inners => ?_, fun s hr hs calls => ?_⟩
  · subst hs
    rcases renumbered_cases hn inners with ⟨perm, slots, inverse, run⟩ | ⟨not_perm, e, run⟩
    · have accepted := Checked.not_fails_of_ok run
      have result : s.renumbered inners = _ := Checked.leaves_of_ok run
      exact ⟨iff_of_true accepted perm, fun _ => ⟨slots, result, result ▸ inverse⟩,
        fun h => absurd h accepted, run_renumberInPlace s inners⟩
    · have refused : Checked.Fails (renumberInPlace inners) s := ⟨e, s, run⟩
      exact ⟨iff_of_false (not_not_intro refused) not_perm, fun h => absurd refused h,
        fun _ => Checked.leaves_of_error run, run_renumberInPlace s inners⟩
  · exact inverse_foldl_renumbered hn hs (hs ▸ hr.wellFormed.numbering.tables_inverse) calls

/-- A solver whose numbers were changed is given new ones: a list of them with a repetition, found
after three slots were filled, one that is too short, and a permutation. -/
theorem renumber_iff_perm_sample :
    let s := [.replace 1 0, .renumber [1, 0, 2, 3], .assign 2 true, .add [0, 3] true].foldl perform
      (.new 4 {})
    let t := [[2, 0, 3, 2], [0, 1], [2, 0, 3, 1]].foldl renumbered s
    4 < Var.modulus ∧ s.Reachable ∧ s.varCount = 4 ∧
      s.renumbered [2, 0, 3, 2] = s ∧ ¬ Checked.Fails (renumberInPlace [2, 0, 3, 1]) s ∧
      t.numbering.toInner = #[2, 0, 3, 1] ∧ t.numbering.toOuter = #[1, 3, 0, 2] ∧
      t.numbering.Inverse 4 := by
  intro s t
  have hn : 4 < Var.modulus := by decide
  have reachable : s.Reachable := Solver.Reachable.foldl (.new {} hn) _
  have count : s.varCount = 4 := by decide +kernel
  obtain ⟨calls, runs⟩ := renumber_iff_perm hn
  obtain ⟨repeated_iff, -, refused, -⟩ := calls s count [2, 0, 3, 2]
  obtain ⟨accepted_iff, -, -, -⟩ := calls s count [2, 0, 3, 1]
  refine ⟨hn, reachable, count, refused ?_, accepted_iff.mpr (by decide), by decide +kernel,
    by decide +kernel, runs s reachable count _⟩
  by_contra h
  exact absurd (repeated_iff.mp h) (by decide)

end Solver

end ParityBlocks
