import ParityBlocks.Proofs.Blocks

/-!
# One ranking in whatever order

`Sorting.Sorts cmp xs ys` says what sorting by a comparison makes of a list, without saying how:
the same elements, none before an earlier one, and equals in the order they had. There is one such
list (`Sorting.Sorts.eq`, by induction on it), and `Sorting.sort` finds it (`Sorting.sort_eq_iff`).

Shapes are compared by their priority. It reads the bits of densities as signed numbers, after all
but the sign were flipped in the negative ones (`Binary64.folded`); this is the rank of the density
less half of the number of ranks (`Binary64.folded_eq`). So priority is a total order of all shapes,
and only shapes with the same rows, bits and number are equal for it. What has different numbers,
as the components of a partition have, is ranked in one way, however it was found
(`Shape.priority_ranks_canonically`).
-/

namespace ParityBlocks

/-! ## Sorting by a comparison -/

namespace Sorting

variable {α : Type} {cmp : α → α → Ordering} {xs ys zs : List α}

/-- The list `ys` is the list `xs`, sorted. -/
structure Sorts (cmp : α → α → Ordering) (xs ys : List α) : Prop where
  perm : ys.Perm xs
  /-- No later element goes before an earlier one. -/
  ordered : ys.Pairwise fun x y => cmp y x ≠ .lt
  /-- Equals are in the order they had. -/
  stable : ∀ x, ys.filter (fun y => (cmp x y).isEq) = xs.filter fun y => (cmp x y).isEq

theorem ne_lt_iff_isLE [Std.OrientedCmp cmp] {x y : α} :
    cmp y x ≠ .lt ↔ (cmp x y).isLE = true := by
  rw [ne_eq, ← Ordering.isGE_iff_ne_lt, Std.OrientedCmp.isGE_iff_isLE]

/-- Two lists of the same elements, both in order and with equals in the same order, are the same
one. -/
theorem eq_of_ordered [Std.OrientedCmp cmp] (hperm : ys.Perm zs)
    (orderedY : ys.Pairwise fun x y => cmp y x ≠ .lt)
    (orderedZ : zs.Pairwise fun x y => cmp y x ≠ .lt)
    (hstable : ∀ x, ys.filter (fun y => (cmp x y).isEq) = zs.filter fun y => (cmp x y).isEq) :
    ys = zs := by
  induction ys generalizing zs with
  | nil => exact hperm.nil_eq
  | cons y ys ih =>
    cases zs with
    | nil => exact hperm.eq_nil
    | cons z zs =>
      obtain ⟨hy, hys⟩ := List.pairwise_cons.mp orderedY
      obtain ⟨hz, hzs⟩ := List.pairwise_cons.mp orderedZ
      have self (x : α) : cmp x x = .eq := Std.ReflCmp.compare_self
      -- Neither first element goes before the other one, so they are equal for the comparison.
      have hyz : (cmp y z).isLE = true := by
        obtain rfl | hmem := List.mem_cons.mp (hperm.mem_iff.mpr List.mem_cons_self)
        · exact Ordering.isLE_of_eq_eq (self z)
        · exact ne_lt_iff_isLE.mp (hy z hmem)
      have hzy : (cmp z y).isLE = true := by
        obtain rfl | hmem := List.mem_cons.mp (hperm.mem_iff.mp List.mem_cons_self)
        · exact Ordering.isLE_of_eq_eq (self y)
        · exact ne_lt_iff_isLE.mp (hz y hmem)
      have heq : cmp y z = .eq := Std.OrientedCmp.isLE_antisymm hyz hzy
      -- Both are then the first of their equals.
      have hfirst := hstable y
      rw [List.filter_cons, List.filter_cons, if_pos (Ordering.isEq_iff_eq_eq.mpr (self y)),
        if_pos (Ordering.isEq_iff_eq_eq.mpr heq)] at hfirst
      obtain rfl : y = z := (List.cons.inj hfirst).1
      rw [ih hperm.cons_inv hys hzs fun x => ?_]
      have hx := hstable x
      rw [List.filter_cons, List.filter_cons] at hx
      split at hx
      · exact (List.cons.inj hx).2
      · exact hx

/-- A list is sorted in one way. -/
theorem Sorts.eq [Std.OrientedCmp cmp] (hy : Sorts cmp xs ys) (hz : Sorts cmp xs zs) : ys = zs :=
  eq_of_ordered (hy.perm.trans hz.perm.symm) hy.ordered hz.ordered fun x =>
    (hy.stable x).trans (hz.stable x).symm

section Stable

variable {mayPrecede : α → α → Bool} {p : α → Bool}
  (h : ∀ x y, p x = true → p y = true → mayPrecede x y = true)
include h

/-- An element is not placed after any of those that it may precede. -/
theorem filter_place (x : α) (ys : List α) :
    (place mayPrecede x ys).filter p = (x :: ys).filter p := by
  induction ys with
  | nil => rfl
  | cons y ys ih =>
    rw [place]
    split
    · rfl
    · rename_i hxy
      rw [List.filter_cons, ih]
      by_cases hx : p x = true
      · have hy : p y = false := Bool.eq_false_iff.mpr fun hy => hxy (h x y hx hy)
        simp [hx, hy]
      · simp [List.filter_cons, hx]

/-- Elements of which each may precede each stay in order. -/
theorem filter_sort (xs : List α) : (sort mayPrecede xs).filter p = xs.filter p := by
  induction xs with
  | nil => rfl
  | cons x xs ih =>
    show (place mayPrecede x (sort mayPrecede xs)).filter p = _
    rw [filter_place h, List.filter_cons, List.filter_cons, ih]

end Stable

/-- Sorting a list sorts it. -/
theorem sorts_sort [Std.TransCmp cmp] (xs : List α) :
    Sorts cmp xs (sort (fun x y => (cmp x y).isLE) xs) where
  perm := perm_sort _ xs
  ordered := by
    have total (x y : α) : (cmp x y).isLE = true ∨ (cmp y x).isLE = true := by
      rw [← Std.OrientedCmp.isGE_iff_isLE (a := x) (b := y)]
      cases cmp x y <;> decide
    exact (pairwise_sort total (fun _ _ _ => Std.TransCmp.isLE_trans) xs).imp ne_lt_iff_isLE.mpr
  stable x := by
    refine filter_sort (fun y z hy hz => ?_) xs
    rw [Ordering.isEq_iff_eq_eq] at hy hz
    exact Ordering.isLE_of_eq_eq (Std.TransCmp.eq_trans (Std.OrientedCmp.eq_symm hy) hz)

theorem sort_eq_iff [Std.TransCmp cmp] :
    sort (fun x y => (cmp x y).isLE) xs = ys ↔ Sorts cmp xs ys :=
  ⟨fun h => h ▸ sorts_sort xs, fun h => (sorts_sort xs).eq h⟩

end Sorting

/-! ## Densities -/

namespace Binary64

/-- The bits, of negative doubles all but the sign flipped, as a signed number. -/
def folded (x : Binary64) : Int :=
  let bits := x.bits.toBitVec
  (bits ^^^ (bits.sshiftRight 63 >>> 1)).toInt

/-- Flips all bits below the sign. -/
theorem xor_signBit_sub_one {n : Nat} (hn : n < signBit) :
    n ^^^ (signBit - 1) = signBit - 1 - n := by
  rw [signBit, Nat.shiftLeft_eq, Nat.one_mul] at hn ⊢
  have flipped := BitVec.toNat_not (x := BitVec.ofNat 63 n)
  rwa [← BitVec.xor_allOnes, BitVec.toNat_xor, BitVec.toNat_allOnes, BitVec.toNat_ofNat,
    Nat.mod_eq_of_lt hn] at flipped

theorem toNat_flipped (bits : BitVec 64) :
    (bits.sshiftRight 63 >>> 1).toNat = if bits.msb then signBit - 1 else 0 := by
  have hlt := bits.isLt
  rw [BitVec.toNat_ushiftRight, BitVec.toNat_sshiftRight, BitVec.msb_eq_decide]
  simp only [signBit, Nat.shiftLeft_eq, Nat.one_mul, Nat.shiftRight_eq_div_pow]
  by_cases h : 2 ^ 63 ≤ bits.toNat
  · simp only [h, decide_true, if_true]
    omega
  · simp only [h, decide_false, Bool.false_eq_true, if_false]
    omega

theorem folded_eq (x : Binary64) : x.folded = (x.rank : Int) - signBit := by
  have hlt := x.bits.toBitVec.isLt
  have hbits : x.bits.toNat = x.bits.toBitVec.toNat := rfl
  rw [folded, BitVec.toInt_eq_toNat_cond, BitVec.toNat_xor, toNat_flipped, BitVec.msb_eq_decide,
    rank, isNegative, magnitude, hbits]
  generalize x.bits.toBitVec.toNat = n at hlt
  by_cases h : 2 ^ 63 ≤ n
  · have low : (n ^^^ (signBit - 1)) % 2 ^ 63 = 2 ^ 63 - 1 - n % 2 ^ 63 := by
      rw [Nat.xor_mod_two_pow]
      exact xor_signBit_sub_one (Nat.mod_lt n (by decide))
    have high : (n ^^^ (signBit - 1)) / 2 ^ 63 = 1 := by
      have one : n / 2 ^ 63 = 1 := by omega
      rw [Nat.xor_div_two_pow, one]
      rfl
    simp only [signBit, Nat.shiftLeft_eq, Nat.one_mul, h, decide_true, if_true] at low high ⊢
    omega
  · simp only [signBit, Nat.shiftLeft_eq, Nat.one_mul, h, decide_false, Bool.false_eq_true,
      if_false, Nat.xor_zero]
    omega

theorem compare_folded (x y : Binary64) : compare x.folded y.folded = compare x.rank y.rank := by
  rw [folded_eq, folded_eq]
  rcases Nat.lt_trichotomy x.rank y.rank with h | h | h
  · rw [Nat.compare_eq_lt.mpr h, compare_lt_iff_lt]
    omega
  · rw [Nat.compare_eq_eq.mpr h, compare_eq_iff_eq]
    omega
  · rw [Nat.compare_eq_gt.mpr h, compare_gt_iff_gt]
    omega

end Binary64

/-! ## Priority -/

namespace Shape

theorem priority_eq (s t : Shape) :
    s.priority t = (compare t.rows s.rows).then
      ((compare t.density.folded s.density.folded).then (compare s.id t.id)) := by
  rw [priority, Binary64.compare_folded]

theorem priority_eq_eq_iff {s t : Shape} :
    s.priority t = .eq ↔
      s.rows = t.rows ∧ s.density.bits = t.density.bits ∧ s.id = t.id := by
  have bits : t.density = s.density ↔ s.density.bits = t.density.bits := by
    rw [Binary64.mk.injEq, eq_comm]
  simp only [priority, Ordering.then_eq_eq, Nat.compare_eq_eq, Binary64.rank_inj, bits,
    eq_comm (a := t.rows)]

theorem priority_swap (s t : Shape) : s.priority t = (t.priority s).swap := by
  simp only [priority, Ordering.swap_then, Nat.compare_swap]

variable {α : Type} (shape : α → Shape)

theorem transCmp_priority : Std.TransCmp fun x y => (shape x).priority (shape y) where
  eq_swap {x y} := priority_swap (shape x) (shape y)
  isLE_trans {x y z} := mayPrecede_trans (shape x) (shape y) (shape z)

instance : Std.TransCmp priority := transCmp_priority fun s => s

/-- What has different numbers is sorted by priority in one way. -/
theorem sort_priority_eq_of_perm {xs ys : List α} (hid : (xs.map fun x => (shape x).id).Nodup)
    (h : ys.Perm xs) :
    Sorting.sort (fun x y => (shape x).mayPrecede (shape y)) ys =
      Sorting.sort (fun x y => (shape x).mayPrecede (shape y)) xs := by
  refine (Sorting.sort_eq_of_perm (fun x y => mayPrecede_total (shape x) (shape y))
    (fun x y z => mayPrecede_trans (shape x) (shape y) (shape z)) h.symm
    fun x hx y hy hxy hyx => ?_).symm
  have heq : (shape x).priority (shape y) = .eq := Std.OrientedCmp.isLE_antisymm hxy hyx
  exact List.inj_on_of_nodup_map hid hx hy (priority_eq_eq_iff.mp heq).2.2

end Shape

/-! ## Components -/

namespace Component

variable {p : Partition} {cs : List Constraint} {components : List Component}

theorem nodup_id_found (p : Partition) (cs : List Constraint) :
    ((found p cs).map fun b => b.shape.id).Nodup := by
  rw [List.Nodup, List.pairwise_map]
  exact pairwise_id_found p cs

theorem eq_ranked_of_ofPartition (h : ofPartition p cs = .ok components) :
    components = ranked p cs := by
  obtain ⟨-, -, h⟩ := Checked.bind_eq_ok.mp h
  exact (Except.ok.inj h).symm

theorem sorts_ranked (p : Partition) (cs : List Constraint) :
    Sorting.Sorts (fun b c => b.shape.priority c.shape) (found p cs) (ranked p cs) := by
  have := Shape.transCmp_priority Component.shape
  exact Sorting.sorts_sort (found p cs)

end Component

/-- Priority compares rows, then the folded bits of densities, in both the greater one first, and
then numbers. It is a total order of all shapes, whatever bits their densities have: turned around
with its arguments, transitive, and equal only for the same rows, bits and numbers. So a list of
shapes can be sorted by it, with equals in their order, in exactly one way, which is how it is
sorted; and in whatever order shapes with different numbers come, they are sorted to the same list.
That is so of the components of any partition. -/
theorem Shape.priority_ranks_canonically :
    (∀ s t : Shape, s.priority t = (compare t.rows s.rows).then
      ((compare t.density.folded s.density.folded).then (compare s.id t.id))) ∧
    (∀ s t : Shape, t.priority s = (s.priority t).swap) ∧
    (∀ (s t u : Shape) (o : Ordering), s.priority t = o → t.priority u = o → s.priority u = o) ∧
    (∀ s t u : Shape, s.priority t ≠ .gt → t.priority u ≠ .gt → s.priority u ≠ .gt) ∧
    (∀ s t : Shape, s.priority t = .eq ↔
      s.rows = t.rows ∧ s.density.bits = t.density.bits ∧ s.id = t.id) ∧
    (∀ shapes sorted : List Shape,
      Shape.sort shapes = sorted ↔ Sorting.Sorts priority shapes sorted) ∧
    (∀ shapes shapes' : List Shape, (shapes.map Shape.id).Nodup → shapes'.Perm shapes →
      Shape.sort shapes' = Shape.sort shapes) ∧
    ∀ (p : Partition) (cs : List Constraint) (components : List Component),
      Component.ofPartition p cs = .ok components →
      ((Component.found p cs).map fun b => b.shape.id).Nodup ∧
        Sorting.Sorts (fun b c => b.shape.priority c.shape) (Component.found p cs) components ∧
        ∀ found' : List Component, found'.Perm (Component.found p cs) →
          Sorting.sort (fun b c => b.shape.mayPrecede c.shape) found' = components := by
  refine ⟨Shape.priority_eq, fun s t => Shape.priority_swap t s, fun s t u o h h' => ?_,
    fun s t u h h' => ?_, fun s t => Shape.priority_eq_eq_iff, fun shapes sorted => ?_,
    fun shapes shapes' hid h => Shape.sort_priority_eq_of_perm (fun s => s) hid h,
    fun p cs components h => ?_⟩
  · cases o with
    | lt => exact Std.TransCmp.lt_trans h h'
    | eq => exact Std.TransCmp.eq_trans h h'
    | gt => exact Std.TransCmp.gt_trans h h'
  · rw [ne_eq, ← Ordering.isLE_iff_ne_gt] at h h' ⊢
    exact Std.TransCmp.isLE_trans h h'
  · exact Sorting.sort_eq_iff
  · obtain rfl := Component.eq_ranked_of_ofPartition h
    have hid := Component.nodup_id_found p cs
    exact ⟨hid, Component.sorts_ranked p cs, fun found' hperm =>
      Shape.sort_priority_eq_of_perm Component.shape hid hperm⟩

/-- A shape with a density of these bits. -/
def Shape.ofBits (id rows : Nat) (bits : UInt64) : Shape := ⟨id, rows, 1, 0, ⟨bits⟩⟩

/-- Both zeros, both infinities, a NaN of either sign, and one shape that has more rows. -/
def extremes : List Shape :=
  [.ofBits 0 2 0x8000000000000000, .ofBits 1 2 0, .ofBits 2 2 0x7ff0000000000000,
    .ofBits 3 2 0xfff0000000000000, .ofBits 4 2 0x7ff8000000000000,
    .ofBits 5 2 0xfff8000000000000, .ofBits 6 7 0xfff8000000000000, .ofBits 7 2 0]

/-- Three components, found by rising number, of which the last has most rows. -/
def threeBlocks : Partition :=
  ⟨#[some 0, some 1, some 2, some 2], #[some [0], some [1], some [2, 3]]⟩

/-- The rows of the components. -/
def threeBlockRows : List Constraint :=
  [⟨[2, 3], true, [], .undecided⟩, ⟨[0], true, [], .undecided⟩, ⟨[1], false, [], .undecided⟩,
    ⟨[3], true, [], .undecided⟩]

/-- The extremes in either order; with the last one once more, which differs in its columns and
stays after it; and three components, found in the opposite order. -/
theorem Shape.priority_ranks_canonically_sample :
    let twin : Shape := { Shape.ofBits 7 2 0 with cols := 9 }
    (extremes.map Shape.id).Nodup ∧ extremes.reverse.Perm extremes ∧
      (Shape.sort extremes).map Shape.id = [6, 4, 2, 1, 7, 0, 3, 5] ∧
      Shape.sort extremes.reverse = Shape.sort extremes ∧
      Sorting.Sorts priority (extremes ++ [twin]) (Shape.sort (extremes ++ [twin])) ∧
      (Shape.sort (extremes ++ [twin])).map Shape.cols = [1, 1, 1, 1, 1, 9, 1, 1, 1] ∧
      Shape.priority (.ofBits 4 2 0x7ff8000000000000) (.ofBits 1 2 0) = .lt ∧
      Shape.priority (.ofBits 1 2 0) (.ofBits 5 2 0xfff8000000000000) = .lt ∧
      Shape.priority (.ofBits 4 2 0x7ff8000000000000) (.ofBits 5 2 0xfff8000000000000) = .lt ∧
      ∃ components, Component.ofPartition threeBlocks threeBlockRows = .ok components ∧
        components.map (fun b => b.shape.id) = [2, 0, 1] ∧
        Sorting.sort (fun b c => b.shape.mayPrecede c.shape)
          (Component.found threeBlocks threeBlockRows).reverse = components := by
  intro twin
  obtain ⟨-, -, trans, -, -, sort_iff, sort_perm, ranked⟩ := Shape.priority_ranks_canonically
  have hnodup : (extremes.map Shape.id).Nodup := by decide
  have hperm : extremes.reverse.Perm extremes := List.reverse_perm _
  have hfirst : Shape.priority (.ofBits 4 2 0x7ff8000000000000) (.ofBits 1 2 0) = .lt := by
    decide +kernel
  have hsecond : Shape.priority (.ofBits 1 2 0) (.ofBits 5 2 0xfff8000000000000) = .lt := by
    decide +kernel
  have hfound : ((Component.ofPartition threeBlocks threeBlockRows).toOption.any fun components =>
      decide (components.map (fun b => b.shape.id) = [2, 0, 1])) = true := by decide +kernel
  obtain ⟨components, hok, hids⟩ := Checked.exists_eq_ok hfound
  obtain ⟨-, -, again⟩ := ranked _ _ components hok
  exact ⟨hnodup, hperm, by decide +kernel, sort_perm _ _ hnodup hperm, (sort_iff _ _).mp rfl,
    by decide +kernel, hfirst, hsecond, trans _ _ _ _ hfirst hsecond, components, hok,
    of_decide_eq_true hids, again _ (List.reverse_perm _)⟩

end ParityBlocks
