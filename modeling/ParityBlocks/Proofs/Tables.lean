/-!
# Tables written entry by entry

A table in which the entries at some numbers were all set to one value: what it
holds (`getElem?_foldl_setIfInBounds`) and its size.
-/

namespace ParityBlocks.Tables

variable {α : Type}

theorem size_foldl_setIfInBounds (x : α) (is : List Nat) (t : Array α) :
    (is.foldl (fun t i => t.setIfInBounds i x) t).size = t.size := by
  induction is generalizing t with
  | nil => rfl
  | cons i is ih => exact (ih _).trans Array.size_setIfInBounds

theorem getElem?_foldl_setIfInBounds (x : α) (is : List Nat) (t : Array α) (j : Nat) :
    (is.foldl (fun t i => t.setIfInBounds i x) t)[j]? =
      if j ∈ is ∧ j < t.size then some x else t[j]? := by
  induction is generalizing t with
  | nil => simp
  | cons i is ih =>
    rw [List.foldl_cons, ih, Array.size_setIfInBounds, Array.getElem?_setIfInBounds]
    by_cases hs : j < t.size
    · by_cases hm : j ∈ is
      · simp [hm, hs]
      · by_cases hi : i = j
        · subst hi; simp [hs]
        · simp [hm, hi, Ne.symm hi]
    · simp only [hs, and_false, if_false]
      split
      · rename_i h; subst h; simp [hs]
      · rfl

end ParityBlocks.Tables
