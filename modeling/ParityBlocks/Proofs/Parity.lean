import ParityBlocks.Ascending

/-!
# Parities and ascending lists

The parity of a list of variables adds up over its parts (`parity_append`), and
the members that occur an odd number of times have the parity of the whole list
(`parity_oddOf`): a pair of the same variable cancels. The members of
`Ascending.ofList` are those of the list, and every member of `Ascending.oddOf`
is one of them.
-/

namespace ParityBlocks

/-! ## Parity -/

@[simp] theorem parity_nil (a : Var → Bool) : parity a [] = false := rfl

@[simp] theorem parity_cons (a : Var → Bool) (v : Var) (vs : List Var) :
    parity a (v :: vs) = (a v ^^ parity a vs) := rfl

theorem parity_toggle (a : Var → Bool) (v : Var) (ws : List Var) :
    parity a (Ascending.toggle v ws) = (a v ^^ parity a ws) := by
  induction ws with
  | nil => rfl
  | cons w ws ih =>
    simp only [Ascending.toggle]
    split
    · rfl
    · split
      · rename_i h
        rw [parity_cons, ← h, ← Bool.xor_assoc, Bool.xor_self, Bool.false_xor]
      · rw [parity_cons, parity_cons, ih, Bool.xor_left_comm]

theorem parity_oddOf (a : Var → Bool) (vs : List Var) :
    parity a (Ascending.oddOf vs) = parity a vs := by
  induction vs with
  | nil => rfl
  | cons v vs ih => rw [parity_cons, ← ih]; exact parity_toggle a v _

namespace Ascending

/-! ## Members -/

theorem mem_insert {v w : Nat} {ws : List Nat} : v ∈ insert w ws ↔ v = w ∨ v ∈ ws := by
  induction ws with
  | nil => simp [insert]
  | cons x ws ih =>
    simp only [insert]
    split
    · simp
    · split
      · rename_i h; subst h; simp
      · rw [List.mem_cons, ih, List.mem_cons, or_left_comm]

@[simp] theorem mem_ofList {v : Nat} {vs : List Nat} : v ∈ ofList vs ↔ v ∈ vs := by
  induction vs with
  | nil => simp [ofList]
  | cons w vs ih => rw [List.mem_cons, ← ih]; exact mem_insert

theorem pairwise_insert {v : Nat} {ws : List Nat} (h : ws.Pairwise (· < ·)) :
    (insert v ws).Pairwise (· < ·) := by
  induction ws with
  | nil => simp [insert]
  | cons w ws ih =>
    obtain ⟨hw, hs⟩ := List.pairwise_cons.mp h
    simp only [insert]
    split
    · rename_i hv
      refine List.pairwise_cons.mpr ⟨fun x hx => ?_, h⟩
      rcases List.mem_cons.mp hx with rfl | hx
      · exact hv
      · exact Nat.lt_trans hv (hw x hx)
    · split
      · exact h
      · refine List.pairwise_cons.mpr ⟨fun x hx => ?_, ih hs⟩
        rcases mem_insert.mp hx with rfl | hx
        · omega
        · exact hw x hx

/-- The members are listed in ascending order, each once. -/
theorem pairwise_ofList (vs : List Nat) : (ofList vs).Pairwise (· < ·) := by
  induction vs with
  | nil => exact .nil
  | cons v vs ih => exact pairwise_insert ih

theorem nodup_ofList (vs : List Nat) : (ofList vs).Nodup :=
  (pairwise_ofList vs).imp Nat.ne_of_lt

theorem mem_of_mem_toggle {v w : Nat} {ws : List Nat} (h : v ∈ toggle w ws) : v = w ∨ v ∈ ws := by
  induction ws with
  | nil => simpa [toggle] using h
  | cons x ws ih =>
    simp only [toggle] at h
    split at h
    · simpa using h
    · split at h
      · exact .inr (List.mem_cons_of_mem _ h)
      · rcases List.mem_cons.mp h with rfl | h
        · exact .inr List.mem_cons_self
        · exact (ih h).imp_right (List.mem_cons_of_mem _)

theorem mem_of_mem_oddOf {v : Nat} {vs : List Nat} (h : v ∈ oddOf vs) : v ∈ vs := by
  induction vs with
  | nil => exact h
  | cons w vs ih =>
    rw [oddOf, List.foldr_cons] at h
    rcases mem_of_mem_toggle h with rfl | h
    · exact List.mem_cons_self
    · exact List.mem_cons_of_mem _ (ih h)

end Ascending

end ParityBlocks
