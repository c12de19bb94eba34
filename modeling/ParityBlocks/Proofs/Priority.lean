import Mathlib.Data.List.Sort
import ParityBlocks.Component

/-!
# The order of competition

`Shape.priority` compares rows, then density, then numbers
(`priority_eq_lt_iff`, `mayPrecede_iff`), so of two shapes with different
numbers exactly one goes first. `Sorting.sort` is the insertion sort of the
library (`sort_eq_insertionSort`), so that sorting by a total order is a permutation
(`perm_sort`) in which every element may precede the later ones (`pairwise_sort`). If
no two elements may precede each other there is one such permutation
(`sort_eq_of_perm`). By priority every component goes before the later ones
(`pairwise_priority_sort`).
-/

namespace ParityBlocks

namespace Sorting

variable {α : Type} (mayPrecede : α → α → Bool)

theorem place_eq_orderedInsert (x : α) (ys : List α) :
    place mayPrecede x ys = ys.orderedInsert (fun x y => mayPrecede x y = true) x := by
  induction ys with
  | nil => rfl
  | cons y ys ih => simp only [place, List.orderedInsert_cons, ih]

theorem sort_eq_insertionSort (xs : List α) :
    sort mayPrecede xs = xs.insertionSort fun x y => mayPrecede x y = true := by
  induction xs with
  | nil => rfl
  | cons x xs ih =>
    rw [List.insertionSort_cons, ← ih, ← place_eq_orderedInsert]
    rfl

theorem perm_sort (xs : List α) : (sort mayPrecede xs).Perm xs := by
  rw [sort_eq_insertionSort]
  exact List.perm_insertionSort _ xs

/-- What is in order is not changed by sorting. -/
theorem sort_eq_self {mayPrecede : α → α → Bool} {xs : List α}
    (h : xs.Pairwise fun x y => mayPrecede x y = true) : sort mayPrecede xs = xs := by
  rw [sort_eq_insertionSort]
  exact h.insertionSort_eq

section Order

variable {mayPrecede : α → α → Bool}
  (total : ∀ x y, mayPrecede x y = true ∨ mayPrecede y x = true)
  (trans : ∀ x y z, mayPrecede x y = true → mayPrecede y z = true → mayPrecede x z = true)
include total trans

/-- Every element of a sorted list may precede the later ones. -/
theorem pairwise_sort (xs : List α) :
    (sort mayPrecede xs).Pairwise fun x y => mayPrecede x y = true := by
  have : Std.Total fun x y : α => mayPrecede x y = true := ⟨total⟩
  have : IsTrans α fun x y : α => mayPrecede x y = true := ⟨trans⟩
  rw [sort_eq_insertionSort]
  exact List.pairwise_insertionSort _ xs

/-- If no two elements may precede each other, it makes no difference in which order they come. -/
theorem sort_eq_of_perm {xs ys : List α} (h : xs.Perm ys)
    (antisymm : ∀ x ∈ xs, ∀ y ∈ xs, mayPrecede x y = true → mayPrecede y x = true → x = y) :
    sort mayPrecede xs = sort mayPrecede ys := by
  have perm : (sort mayPrecede xs).Perm (sort mayPrecede ys) :=
    (perm_sort _ xs).trans (h.trans (perm_sort _ ys).symm)
  refine perm.eq_of_pairwise (fun x y hx hy => ?_) (pairwise_sort total trans xs)
    (pairwise_sort total trans ys)
  exact antisymm x ((perm_sort _ xs).mem_iff.mp hx) y
    (h.mem_iff.mpr ((perm_sort _ ys).mem_iff.mp hy))

end Order

end Sorting

namespace Shape

theorem priority_eq_lt_iff {s t : Shape} :
    s.priority t = .lt ↔
      t.rows < s.rows ∨ t.rows = s.rows ∧ (t.density.rank < s.density.rank ∨
        t.density.rank = s.density.rank ∧ s.id < t.id) := by
  simp only [priority, Ordering.then_eq_lt, Nat.compare_eq_lt, Nat.compare_eq_eq]

theorem rows_le_of_priority {s t : Shape} (h : s.priority t = .lt) : t.rows ≤ s.rows := by
  rw [priority_eq_lt_iff] at h
  omega

theorem mayPrecede_iff {s t : Shape} :
    s.mayPrecede t = true ↔
      t.rows < s.rows ∨ t.rows = s.rows ∧ (t.density.rank < s.density.rank ∨
        t.density.rank = s.density.rank ∧ s.id ≤ t.id) := by
  simp only [mayPrecede, priority, Ordering.isLE_then_iff_or, Nat.compare_eq_lt, Nat.compare_eq_eq,
    Nat.isLE_compare]

theorem mayPrecede_total (s t : Shape) : s.mayPrecede t = true ∨ t.mayPrecede s = true := by
  rw [mayPrecede_iff, mayPrecede_iff]
  omega

theorem mayPrecede_trans (s t u : Shape) (h : s.mayPrecede t = true) (h' : t.mayPrecede u = true) :
    s.mayPrecede u = true := by
  rw [mayPrecede_iff] at h h' ⊢
  omega

theorem priority_eq_lt {s t : Shape} (h : s.mayPrecede t = true) (hid : s.id ≠ t.id) :
    s.priority t = .lt := by
  rw [mayPrecede_iff] at h
  rw [priority_eq_lt_iff]
  omega

/-- Elements with different numbers, sorted by the priority of their shapes. -/
theorem pairwise_priority_sort {α : Type} (shape : α → Shape) {xs : List α}
    (hid : xs.Pairwise fun x y => (shape x).id ≠ (shape y).id) :
    (Sorting.sort (fun x y => (shape x).mayPrecede (shape y)) xs).Pairwise
      fun x y => (shape x).priority (shape y) = .lt := by
  have sorted : (Sorting.sort (fun x y => (shape x).mayPrecede (shape y)) xs).Pairwise
      fun x y => (shape x).mayPrecede (shape y) = true :=
    Sorting.pairwise_sort (fun x y => mayPrecede_total (shape x) (shape y))
      (fun x y z => mayPrecede_trans (shape x) (shape y) (shape z)) xs
  have hne := (Sorting.perm_sort (fun x y => (shape x).mayPrecede (shape y)) xs).symm.pairwise hid
    fun {x y} h => Ne.symm h
  exact sorted.imp₂ (fun _ _ => priority_eq_lt) hne

end Shape

end ParityBlocks
