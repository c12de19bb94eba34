import ParityBlocks.Numbering
import ParityBlocks.Proofs.Checked

/-!
# Well-formed numberings

A numbering of `size` variables is well formed (`Numbering.WellFormed`) if its
tables have `size` entries, representatives represent themselves, and the inner
and the outer numbers are inverse to each other. `Numbering.identity` is well
formed, and `replace`, `renumber` and `addAlias` keep that; for `renumber` this
is what `invert` makes of a list (`invert_eq_ok`). In a well-formed numbering
every variable has a replacement (`WellFormed.exists_replacementOf`).
-/

namespace ParityBlocks.Numbering

/-- The tables fit together: all have `size` entries and stay below `size`,
representatives represent themselves, and `toInner` and `toOuter` are inverse. -/
structure WellFormed (n : Numbering) (size : Nat) : Prop where
  representative_size : n.representative.size = size
  toInner_size : n.toInner.size = size
  toOuter_size : n.toOuter.size = size
  representative_lt {v r : Var} : n.representative[v]? = some r → r < size
  representative_fixed {v r : Var} : n.representative[v]? = some r → n.representative[r]? = some r
  inverse (v w : Var) : n.toInner[v]? = some w ↔ n.toOuter[w]? = some v

theorem replacementOf_eq_ok {n : Numbering} {v w : Var} :
    n.replacementOf v = .ok w ↔
      ∃ o r, n.toOuter[v]? = some o ∧ n.representative[o]? = some r ∧ n.toInner[r]? = some w := by
  simp only [replacementOf, Checked.bind_eq_ok, lookup_eq_ok_iff]
  exact ⟨fun ⟨o, ho, r, hr, hw⟩ => ⟨o, r, ho, hr, hw⟩, fun ⟨o, r, ho, hr, hw⟩ => ⟨o, ho, r, hr, hw⟩⟩

namespace WellFormed

variable {n n' : Numbering} {size : Nat}

theorem toOuter_lt (hn : n.WellFormed size) {v o : Var} (h : n.toOuter[v]? = some o) : o < size := by
  obtain ⟨ho, -⟩ := Array.getElem?_eq_some_iff.mp ((hn.inverse _ _).mpr h)
  rwa [← hn.toInner_size]

theorem toInner_lt (hn : n.WellFormed size) {v w : Var} (h : n.toInner[v]? = some w) : w < size := by
  obtain ⟨hw, -⟩ := Array.getElem?_eq_some_iff.mp ((hn.inverse _ _).mp h)
  rwa [← hn.toOuter_size]

/-- Every variable has a replacement. -/
theorem exists_replacementOf (hn : n.WellFormed size) {v : Var} (hv : v < size) :
    ∃ w, n.replacementOf v = .ok w := by
  obtain ⟨o, ho⟩ : ∃ o, n.toOuter[v]? = some o :=
    ⟨_, Array.getElem?_eq_getElem (by rwa [hn.toOuter_size])⟩
  obtain ⟨r, hr⟩ : ∃ r, n.representative[o]? = some r :=
    ⟨_, Array.getElem?_eq_getElem (by rw [hn.representative_size]; exact hn.toOuter_lt ho)⟩
  obtain ⟨w, hw⟩ : ∃ w, n.toInner[r]? = some w :=
    ⟨_, Array.getElem?_eq_getElem (by rw [hn.toInner_size]; exact hn.representative_lt hr)⟩
  exact ⟨w, replacementOf_eq_ok.mpr ⟨o, r, ho, hr, hw⟩⟩

theorem replacementOf_lt (hn : n.WellFormed size) {v w : Var} (h : n.replacementOf v = .ok w) :
    w < size := by
  obtain ⟨o, r, -, -, hw⟩ := replacementOf_eq_ok.mp h
  exact hn.toInner_lt hw

/-! ## Operations keep numberings well formed -/

theorem identity (hs : size < Var.modulus) : (Numbering.identity size).WellFormed size := by
  have entry : ∀ {v w : Var}, (Array.range size)[v]? = some w ↔ v < size ∧ v = w := by
    intro v w
    rw [Array.getElem?_eq_some_iff]
    simp only [Array.size_range, Array.getElem_range, exists_prop]
  simp only [Numbering.identity, Nat.mod_eq_of_lt hs]
  refine ⟨by simp, by simp, by simp, fun h => ?_, fun h => ?_, fun v w => ?_⟩
  · obtain ⟨hv, rfl⟩ := entry.mp h; exact hv
  · obtain ⟨hv, rfl⟩ := entry.mp h; exact h
  · rw [entry, entry]
    exact ⟨fun ⟨h, e⟩ => ⟨e ▸ h, e.symm⟩, fun ⟨h, e⟩ => ⟨e ▸ h, e.symm⟩⟩

theorem addAlias (hn : n.WellFormed size) (user outer : Var) :
    (n.addAlias user outer).WellFormed size :=
  ⟨hn.1, hn.2, hn.3, hn.4, hn.5, hn.6⟩

end WellFormed

/-! ## Replacing -/

/-- The representatives after `v` was replaced by a variable that `t` represents. -/
theorem replace_eq_ok {n n' : Numbering} {v w : Var} (h : n.replace v w = .ok n') :
    ∃ t, n.representative[w]? = some t ∧ v < n.representative.size ∧
      n'.toInner = n.toInner ∧ n'.toOuter = n.toOuter ∧ n'.aliases = n.aliases ∧
      n'.representative.size = n.representative.size ∧
      ∀ u, n'.representative[u]? =
        n.representative[u]?.map fun r => if u = v ∨ r = v then t else r := by
  simp only [replace, Checked.bind_eq_ok, lookup_eq_ok_iff] at h
  obtain ⟨t, ht, r, hr, h⟩ := h
  cases h
  obtain ⟨hv, -⟩ := Array.getElem?_eq_some_iff.mp hr
  refine ⟨t, ht, hv, rfl, rfl, rfl, by simp, fun u => ?_⟩
  rw [Array.getElem?_setIfInBounds, Array.size_map, Array.getElem?_map]
  by_cases hu : v = u
  · subst hu
    rw [hr]
    simp [hv]
  · simp [hu, Ne.symm hu]

theorem WellFormed.replace {n n' : Numbering} {size : Nat} (hn : n.WellFormed size) {v w : Var}
    (h : n.replace v w = .ok n') : n'.WellFormed size := by
  obtain ⟨t, ht, -, hi, ho, -, hsize, entry⟩ := replace_eq_ok h
  have new_t : n'.representative[t]? = some t := by
    rw [entry, hn.representative_fixed ht, Option.map_some]
    split <;> rfl
  refine ⟨hsize.trans hn.1, hi ▸ hn.2, ho ▸ hn.3, fun {u r} hr => ?_, fun {u r} hr => ?_,
    fun u x => ?_⟩
  · rw [entry, Option.map_eq_some_iff] at hr
    obtain ⟨x, hx, rfl⟩ := hr
    split
    · exact hn.representative_lt ht
    · exact hn.representative_lt hx
  · rw [entry, Option.map_eq_some_iff] at hr
    obtain ⟨x, hx, rfl⟩ := hr
    split
    · exact new_t
    · rename_i hne
      rw [entry, hn.representative_fixed hx, Option.map_some]
      exact congrArg some (if_neg fun e => hne (.inr (e.elim id id)))
  · rw [hi, ho]; exact hn.inverse u x

/-! ## Renumbering -/

/-- The slots after the variables from 0 on were given the inner numbers `done`:
those slots hold them, and all others are still unused. -/
structure Filled (size : Nat) (done : List Var) (slots : Array Var) : Prop where
  size_eq : slots.size = size
  count_unused : slots.count unused + done.length = size
  slot (v w : Var) : v ≠ unused → (done[v]? = some w ↔ slots[w]? = some v)

theorem Filled.nil (size : Nat) : Filled size [] (Array.replicate size unused) where
  size_eq := by simp
  count_unused := by simp
  slot v w hv := by
    simp only [List.getElem?_nil, reduceCtorEq, false_iff, Array.getElem?_replicate]
    split
    · exact fun e => hv (Option.some.inj e).symm
    · exact nofun

/-- Giving the next variable the unused inner number `x`. -/
theorem Filled.concat {size : Nat} {done : List Var} {slots : Array Var} (hf : Filled size done slots)
    (hs : size < Var.modulus) {x : Var} (hx : slots[x]? = some unused) :
    Filled size (done ++ [x]) (slots.setIfInBounds x (done.length % Var.modulus)) := by
  obtain ⟨hlt, he⟩ := Array.getElem?_eq_some_iff.mp hx
  have hpos : 0 < slots.count unused := Array.count_pos_iff.mpr (he ▸ Array.getElem_mem hlt)
  have hcount := hf.count_unused
  have hne : done.length ≠ unused := by simp only [unused]; omega
  rw [Nat.mod_eq_of_lt (by omega)]
  refine ⟨by rw [Array.size_setIfInBounds, hf.size_eq], ?_, fun v w hv => ?_⟩
  · rw [Array.setIfInBounds_def, dif_pos hlt, Array.count_set hlt, he, List.length_append]
    simp only [BEq.rfl, if_true, beq_iff_eq, hne, if_false, List.length_singleton]
    omega
  · have old := hf.slot v w hv
    rw [Array.getElem?_setIfInBounds]
    by_cases hd : v = done.length
    · subst hd
      simp only [List.getElem?_concat_length, Option.some.injEq]
      by_cases hw : x = w
      · simp [hw, hw ▸ hlt]
      · simp only [hw, if_false, ← old, false_iff]
        rw [List.getElem?_eq_none (Nat.le_refl _)]
        exact nofun
    · have other : (done ++ [x])[v]? = done[v]? := by
        rcases Nat.lt_or_gt_of_ne hd with h | h
        · exact List.getElem?_append_left h
        · rw [List.getElem?_eq_none (Nat.le_of_lt h),
            List.getElem?_eq_none (by simpa [Nat.succ_le_iff] using h)]
      rw [other, old]
      by_cases hw : x = w
      · subst hw
        simp only [hx, hlt, if_true, Option.some.injEq, Ne.symm hd, Ne.symm hv]
      · simp [hw]

theorem Filled.foldlM {size : Nat} (hs : size < Var.modulus) {rest done : List Var}
    {slots slots' : Array Var} (hf : Filled size done slots)
    (h : (rest.zipIdx done.length).foldlM
      (fun slots (inner, outer) =>
        if slots[inner]? = some unused then
          Except.ok (slots.setIfInBounds inner (outer % Var.modulus))
        else .error (NumberingError.notPermutation inner)) slots = .ok slots') :
    Filled size (done ++ rest) slots' := by
  induction rest generalizing done slots with
  | nil => cases h; simpa using hf
  | cons x rest ih =>
    rw [List.zipIdx_cons, List.foldlM_cons, Checked.bind_eq_ok] at h
    obtain ⟨next, hnext, h⟩ := h
    dsimp only at hnext
    split at hnext
    · rename_i hx
      cases hnext
      have := ih (hf.concat hs hx) (by rwa [List.length_append, List.length_singleton])
      rwa [List.append_assoc, List.singleton_append] at this
    · cases hnext

/-- The inverse of a list of inner numbers: it exists only for a permutation. -/
theorem invert_eq_ok {size : Nat} (hs : size < Var.modulus) {inners : List Var} {slots : Array Var}
    (hl : inners.length = size) (h : invert size inners = .ok slots) :
    slots.size = size ∧ ∀ v w : Var, inners[v]? = some w ↔ slots[w]? = some v := by
  have hf : Filled size inners slots := Filled.foldlM hs (Filled.nil size) h
  have none_left : unused ∉ slots := by
    rw [← Array.count_eq_zero]
    have := hf.count_unused
    omega
  refine ⟨hf.size_eq, fun v w => ?_⟩
  by_cases hv : v = unused
  · subst hv
    refine ⟨fun e => ?_, fun e => absurd (Array.mem_of_getElem? e) none_left⟩
    obtain ⟨hlt, -⟩ := List.getElem?_eq_some_iff.mp e
    simp only [unused] at hlt
    omega
  · exact hf.slot v w hv

theorem WellFormed.renumber {n n' : Numbering} {size : Nat} (hn : n.WellFormed size)
    (hs : size < Var.modulus) {inners : List Var} (h : n.renumber size inners = .ok n') :
    n'.WellFormed size := by
  simp only [Numbering.renumber] at h
  split at h <;> [cases h; skip]
  rename_i hl
  rw [not_not] at hl
  cases hi : invert size inners with
  | error e => rw [hi] at h; cases h
  | ok slots =>
    rw [hi] at h
    cases h
    obtain ⟨hsize, hinv⟩ := invert_eq_ok hs hl hi
    exact ⟨hn.1, by simpa using hl, hsize, hn.4, hn.5, fun v w => by simpa using hinv v w⟩

end ParityBlocks.Numbering
