import ParityBlocks.Proofs.Ascending
import ParityBlocks.Proofs.Family

/-!
# Blocks one after the other

Where the constraints of each block stand together, their components are numbered in the
order of the blocks. Joining variables leaves the components alone that they do not touch
(`membersOf_join_of_untouched`), so variables that come later, and share no list with
earlier ones, are in components with higher numbers (`lt_of_apart`). So the components by
rising number have the blocks as their rows (`Component.map_rows_found`).
-/

namespace ParityBlocks

namespace Partition

/-! ## Components that are not touched -/

section Join

variable {p : Partition} {vars : List Var} {k : Nat}

theorem membersOf_join_of_untouched (hk : k ≤ p.idCount) (h : ∀ id ∈ p.touched vars, k ≤ id)
    {id : Nat} (hid : id < k) : (p.join vars).membersOf id = p.membersOf id := by
  rw [join]
  split
  · rfl
  · split
    · rename_i j ht
      have hj : k ≤ j := h j (by rw [ht]; exact List.mem_singleton_self j)
      rw [membersOf_absorb, if_neg (by omega)]
    · rw [membersOf_merge, if_neg (by omega), if_neg fun ht => absurd (h id ht) (by omega)]

/-- Lists whose variables are in no component below `k` leave those components alone. -/
theorem Valid.membersOf_foldl_join (hp : p.Valid) (hk : k ≤ p.idCount) {lists : List (List Var)}
    (hv : ∀ vs ∈ lists, ∀ v ∈ vs, v < p.table.size)
    (h : ∀ vs ∈ lists, ∀ v ∈ vs, ∀ id, p.componentOf v = some id → k ≤ id) {id : Nat}
    (hid : id < k) : (lists.foldl Partition.join p).membersOf id = p.membersOf id := by
  induction lists generalizing p with
  | nil => rfl
  | cons vs lists ih =>
    obtain ⟨hvs, hv⟩ := List.forall_mem_cons.mp hv
    obtain ⟨hfree, h⟩ := List.forall_mem_cons.mp h
    have same : ∀ {id}, id < k → (p.join vs).membersOf id = p.membersOf id := by
      refine membersOf_join_of_untouched hk fun id ht => ?_
      obtain ⟨v, hv, hc⟩ := mem_touched.mp ht
      exact hfree v hv id hc
    have valid := hp.valid_join hvs
    rw [List.foldl_cons, ih valid (hk.trans (idCount_le_join p vs)), same hid]
    · rwa [size_table_join]
    · intro ws hws w hw id hc
      by_contra hlt
      -- the component was there before, with the same members
      obtain ⟨ms, hms, hmem⟩ := (valid.componentOf_iff w id).mp hc
      rw [same (Nat.lt_of_not_le hlt)] at hms
      exact hlt (h ws hws w hw id ((hp.componentOf_iff w id).mpr ⟨ms, hms, hmem⟩))

end Join

section Apart

variable {varCount : Nat} {done rest : List (List Var)}
  (hv : ∀ vs ∈ done ++ rest, ∀ v ∈ vs, v < varCount)
  (apart : ∀ vs ∈ done, ∀ v ∈ vs, ∀ ws ∈ rest, v ∉ ws)
include hv apart

/-- No variable of the later lists is in a component of the earlier ones. -/
theorem componentOf_eq_none_of_apart {ws : List Var} (hws : ws ∈ rest) {w : Var} (hw : w ∈ ws) :
    (ofLists varCount done).componentOf w = none := by
  have before := represents_ofLists (List.forall_mem_append.mp hv).1
  rw [← Option.not_isSome_iff_eq_none, before.isSome_iff]
  rintro ⟨vs, hvs, hwv⟩
  exact apart vs hvs w hwv ws hws hw

/-- The later lists leave the components of the earlier ones alone. -/
theorem membersOf_ofLists_append {id : Nat} (hid : id < (ofLists varCount done).idCount) :
    (ofLists varCount (done ++ rest)).membersOf id = (ofLists varCount done).membersOf id := by
  obtain ⟨hdone, hrest⟩ := List.forall_mem_append.mp hv
  have split : ofLists varCount (done ++ rest) = rest.foldl join (ofLists varCount done) :=
    List.foldl_append
  rw [split]
  refine (represents_ofLists hdone).valid.membersOf_foldl_join (Nat.le_refl _) ?_ ?_ hid
  · rwa [size_table_ofLists]
  · intro ws hws w hw id hc
    rw [componentOf_eq_none_of_apart hv apart hws hw] at hc
    cases hc

/-- The variables of the later lists are in components with higher numbers. -/
theorem lt_of_apart {v w : Var} (hvd : ∃ vs ∈ done, v ∈ vs) (hwr : ∃ ws ∈ rest, w ∈ ws)
    {i j : Nat} (hi : (ofLists varCount (done ++ rest)).componentOf v = some i)
    (hj : (ofLists varCount (done ++ rest)).componentOf w = some j) : i < j := by
  have before := represents_ofLists (List.forall_mem_append.mp hv).1
  have after := represents_ofLists hv
  obtain ⟨id, hid⟩ := Option.isSome_iff_exists.mp ((before.isSome_iff v).mpr hvd)
  obtain ⟨ms, hms, hmem⟩ := (before.valid.componentOf_iff v id).mp hid
  have hid := lt_of_membersOf hms
  have hvi : (ofLists varCount (done ++ rest)).componentOf v = some id :=
    (after.valid.componentOf_iff v id).mpr
      ⟨ms, (membersOf_ofLists_append hv apart hid).trans hms, hmem⟩
  rw [hi, Option.some.injEq] at hvi
  suffices hlow : ¬ j < (ofLists varCount done).idCount by omega
  intro hlow
  -- else the later variable would be in a component of the earlier lists
  obtain ⟨ns, hns, hmem⟩ := (after.valid.componentOf_iff w j).mp hj
  obtain ⟨ws, hws, hw⟩ := hwr
  rw [membersOf_ofLists_append hv apart hlow] at hns
  have hwj := (before.valid.componentOf_iff w j).mpr ⟨ns, hns, hmem⟩
  rw [componentOf_eq_none_of_apart hv apart hws hw] at hwj
  cases hwj

end Apart

end Partition

/-! ## Blocks by the numbers of their components -/

/-- What holds between every part of a list and all later ones holds pairwise. -/
theorem List.pairwise_of_append {α : Type} {R : α → α → Prop} {xs : List α}
    (h : ∀ before x after, xs = before ++ x :: after → ∀ y ∈ after, R x y) : xs.Pairwise R := by
  induction xs with
  | nil => exact .nil
  | cons x xs ih =>
    refine List.pairwise_cons.mpr ⟨h [] x xs rfl, ih fun before y after he => ?_⟩
    exact h (x :: before) y after (congrArg (x :: ·) he)

namespace Component

/-- Filters for the keys of the parts of a list take it apart again. -/
theorem map_filter_flatten {α : Type} (key : α → Option Nat) (number : List α → Nat)
    {parts : List (List α)} (hkey : ∀ b ∈ parts, ∀ x ∈ b, key x = some (number b))
    (hn : (parts.map number).Nodup) :
    parts.map (fun b => parts.flatten.filter fun x => key x == some (number b)) = parts := by
  induction parts with
  | nil => rfl
  | cons b parts ih =>
    obtain ⟨hb, hkey⟩ := List.forall_mem_cons.mp hkey
    rw [List.map_cons, List.nodup_cons] at hn
    have own : (b.filter fun x => key x == some (number b)) = b :=
      List.filter_eq_self.mpr fun x hx => by rw [hb x hx]; exact beq_self_eq_true _
    have others : (parts.flatten.filter fun x => key x == some (number b)) = [] := by
      refine List.filter_eq_nil_iff.mpr fun x hx hbeq => ?_
      obtain ⟨b', hb', hx⟩ := List.mem_flatten.mp hx
      rw [hkey b' hb' x hx, beq_iff_eq, Option.some.injEq] at hbeq
      exact hn.1 (hbeq ▸ List.mem_map_of_mem hb')
    rw [List.map_cons, List.flatten_cons, List.filter_append, own, others, List.append_nil]
    refine congrArg (b :: ·) (Eq.trans ?_ (ih hkey hn.2))
    refine List.map_congr_left fun b' hb' => ?_
    have none : (b.filter fun x => key x == some (number b')) = [] := by
      refine List.filter_eq_nil_iff.mpr fun x hx hbeq => ?_
      rw [hb x hx, beq_iff_eq, Option.some.injEq] at hbeq
      exact hn.1 (hbeq ▸ List.mem_map_of_mem hb')
    rw [List.filter_append, none, List.nil_append]

/-- The number of the component that the first constraint of a block falls into. -/
def numberOf (p : Partition) (b : List Constraint) : Nat := (b.head?.bind (idOf p)).getD 0

variable {varCount : Nat} {blocks : List (List Constraint)}

/-- Any constraint of a block falls into the component that the first one falls into. -/
theorem idOf_eq_numberOf {p : Partition} (hp : p.Represents (blocks.flatten.map Constraint.vars))
    (h : Blocks blocks.flatten blocks) {b : List Constraint} (hb : b ∈ blocks) {c : Constraint}
    (hc : c ∈ b) : idOf p c = some (numberOf p b) := by
  obtain ⟨d, ds, rfl⟩ := List.exists_cons_of_ne_nil (h.ne_nil b hb)
  have mem : ∀ {e}, e ∈ d :: ds → e ∈ blocks.flatten := fun he => List.mem_flatten.mpr ⟨_, hb, he⟩
  have known : ∀ e ∈ blocks.flatten, ∃ v, v ∈ e.vars := by
    intro e he
    have := (List.mem_filter.mp (h.perm.mem_iff.mp he)).2
    exact List.exists_mem_of_ne_nil _ (by simpa [Constraint.isTrivial] using this)
  obtain ⟨v, hv⟩ := known d (mem List.mem_cons_self)
  obtain ⟨id, hd, hid⟩ := idOf_of_mem hp (mem List.mem_cons_self) hv
  obtain ⟨w, hw⟩ := known c (mem hc)
  have chained := h.chained _ hb d List.mem_cons_self c hc
  have linked : Partition.Linked (blocks.flatten.map Constraint.vars) v w := by
    refine (linked_of_chained List.mem_cons_self hv chained hw).mono fun vs hvs _ _ => ?_
    obtain ⟨e, he, rfl⟩ := List.mem_map.mp hvs
    exact List.mem_map_of_mem (mem he)
  have number : numberOf p (d :: ds) = id := by
    rw [numberOf, List.head?_cons, Option.bind_some, hd, Option.getD_some]
  rw [idOf_eq hp (mem hc) hw, (hp.same_iff hid w).mpr linked, number]

/-- Some variable of each block is in the component with the block's number. -/
theorem exists_componentOf_numberOf {p : Partition}
    (hp : p.Represents (blocks.flatten.map Constraint.vars)) (h : Blocks blocks.flatten blocks)
    {b : List Constraint} (hb : b ∈ blocks) :
    ∃ c ∈ b, ∃ v ∈ c.vars, p.componentOf v = some (numberOf p b) := by
  obtain ⟨c, hc⟩ := List.exists_mem_of_ne_nil _ (h.ne_nil b hb)
  have hid := idOf_eq_numberOf hp h hb hc
  obtain ⟨v, hvc⟩ := List.exists_mem_of_ne_nil _ (ne_nil_of_idOf hid)
  exact ⟨c, hc, v, hvc, (idOf_eq hp (List.mem_flatten.mpr ⟨b, hb, hc⟩) hvc).symm.trans hid⟩

/-- The numbers of blocks that stand one after the other rise. -/
theorem pairwise_numberOf (hv : ∀ c ∈ blocks.flatten, ∀ v ∈ c.vars, v < varCount)
    (h : Blocks blocks.flatten blocks) :
    (blocks.map (numberOf (.ofLists varCount (blocks.flatten.map Constraint.vars)))).Pairwise
      (· < ·) := by
  have hv' : ∀ vs ∈ blocks.flatten.map Constraint.vars, ∀ v ∈ vs, v < varCount :=
    List.forall_mem_map.mpr hv
  have hp := Partition.represents_ofLists hv'
  refine List.pairwise_map.mpr (List.pairwise_of_append fun before b after he b' hb' => ?_)
  have hb : b ∈ blocks := by rw [he]; exact List.mem_append_right _ List.mem_cons_self
  have hb'' : b' ∈ blocks := by
    rw [he]
    exact List.mem_append_right _ (List.mem_cons_of_mem _ hb')
  -- everything up to `b` is joined before everything after it
  have split : blocks.flatten.map Constraint.vars =
      ((before.flatten ++ b).map Constraint.vars) ++ after.flatten.map Constraint.vars := by
    rw [he, List.flatten_append, List.flatten_cons, ← List.append_assoc, List.map_append]
  obtain ⟨c, hc, v, hvc, hi⟩ := exists_componentOf_numberOf hp h hb
  obtain ⟨d, hd, w, hwd, hj⟩ := exists_componentOf_numberOf hp h hb''
  rw [split] at hi hj hv' ⊢
  refine Partition.lt_of_apart hv' ?_ ⟨_, List.mem_map_of_mem (List.mem_append_right _ hc), hvc⟩
    ⟨_, List.mem_map_of_mem (List.mem_flatten.mpr ⟨b', hb', hd⟩), hwd⟩ hi hj
  have separate := h.separate
  rw [he, List.pairwise_append] at separate
  obtain ⟨-, hcons, hcross⟩ := separate
  intro vs hvs x hx ws hws hx'
  obtain ⟨e, he, rfl⟩ := List.mem_map.mp hvs
  obtain ⟨f, hf, rfl⟩ := List.mem_map.mp hws
  obtain ⟨g, hg, hf⟩ := List.mem_flatten.mp hf
  rcases List.mem_append.mp he with he | he
  · obtain ⟨g', hg', he⟩ := List.mem_flatten.mp he
    exact hcross g' hg' g (List.mem_cons_of_mem _ hg) e he f hf ⟨x, hx, hx'⟩
  · exact (List.pairwise_cons.mp hcons).1 g hg e he f hf ⟨x, hx, hx'⟩

/-- The numbers of the components are those of the blocks. -/
theorem map_fst_components {p : Partition}
    (hp : p.Represents (blocks.flatten.map Constraint.vars)) (h : Blocks blocks.flatten blocks)
    (ascending : (blocks.map (numberOf p)).Pairwise (· < ·)) :
    p.components.map Prod.fst = blocks.map (numberOf p) := by
  refine Ascending.eq_of_mem_iff (List.pairwise_map.mpr (pairwise_lt_components p)) ascending
    fun id => ?_
  simp only [List.mem_map, Prod.exists, exists_and_right, exists_eq_right,
    Partition.mem_components]
  constructor
  · rintro ⟨ms, hms⟩
    obtain ⟨v, hv⟩ := List.exists_mem_of_ne_nil _ (hp.valid.ne_nil hms)
    obtain ⟨c, hc, -⟩ := (mem_members_iff hp hms v).mp hv
    obtain ⟨hc, hid⟩ := mem_rows_gather.mp hc
    obtain ⟨b, hb, hc⟩ := List.mem_flatten.mp hc
    have same := (idOf_eq_numberOf hp h hb hc).symm.trans hid
    exact ⟨b, hb, Option.some.inj same⟩
  · rintro ⟨b, hb, rfl⟩
    obtain ⟨c, hc, v, hvc, hid⟩ := exists_componentOf_numberOf hp h hb
    exact hp.valid.exists_membersOf hid

/-- The components of blocks that stand one after the other, by rising number, have the
blocks as their rows. -/
theorem map_rows_found (hv : ∀ c ∈ blocks.flatten, ∀ v ∈ c.vars, v < varCount)
    (h : Blocks blocks.flatten blocks) :
    (found (.ofLists varCount (blocks.flatten.map Constraint.vars)) blocks.flatten).map rows =
      blocks := by
  have hp := Partition.represents_ofLists (List.forall_mem_map.mpr hv)
  have ascending := pairwise_numberOf hv h
  generalize Partition.ofLists varCount (blocks.flatten.map Constraint.vars) = p at hp ascending ⊢
  have rows : (found p blocks.flatten).map rows = (p.components.map Prod.fst).map
      fun id => blocks.flatten.filter fun c => idOf p c == some id := by
    rw [found, List.map_map, List.map_map]
    rfl
  rw [rows, map_fst_components hp h ascending, List.map_map]
  exact map_filter_flatten (idOf p) (numberOf p) (fun b hb c hc => idOf_eq_numberOf hp h hb hc)
    (ascending.imp Nat.ne_of_lt)

end Component

end ParityBlocks
