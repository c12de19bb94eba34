import ParityBlocks.Proofs.Partition
import ParityBlocks.Proofs.Priority

/-!
# The blocks of constraints

`Blocks cs blocks` says what the blocks of the constraints `cs` are, without a
partition: each constraint with variables is in exactly one of them, each lists
its constraints in the order of `cs`, a chain of constraints leads from any
constraint of a block to any other, and two blocks share no variable. The
components of a partition that represents `cs` are the blocks
(`exists_ofPartition`), in the order of competition, and their shapes are those
of the blocks (`Shape.IsOf`).
-/

namespace ParityBlocks

/-! ## Chains of constraints -/

namespace Constraint

/-- The constraints share a variable. -/
def Touches (c d : Constraint) : Prop := ∃ v ∈ c.vars, v ∈ d.vars

/-- A chain of constraints of `cs` leads from `c` to `d`, neighbours sharing a
variable. -/
def Chained (cs : List Constraint) : Constraint → Constraint → Prop :=
  Relation.ReflTransGen fun c d => d ∈ cs ∧ c.Touches d

/-- Constraints are chained if a variable of one is linked to one of the other. -/
theorem chained_of_linked {cs : List Constraint} {c d : Constraint} {v w : Var} (hv : v ∈ c.vars)
    (hd : d ∈ cs) (hw : w ∈ d.vars) (h : Partition.Linked (cs.map vars) v w) : Chained cs c d := by
  induction h generalizing d with
  | refl => exact .single ⟨hd, v, hv, hw⟩
  | tail _ hstep ih =>
    obtain ⟨_, hvs, hx, hy⟩ := hstep
    obtain ⟨e, he, rfl⟩ := List.mem_map.mp hvs
    exact (ih he hx).tail ⟨hd, _, hy, hw⟩

end Constraint

/-! ## Blocks and their shapes -/

/-- The blocks of `cs`: its constraints with variables, taken apart wherever no
variable is shared. -/
structure Blocks (cs : List Constraint) (blocks : List (List Constraint)) : Prop where
  /-- Each constraint with variables is in a block, as often as it is in `cs`. -/
  perm : blocks.flatten.Perm (cs.filter fun c => !c.isTrivial)
  /-- A block has the order of `cs`. -/
  sublist : ∀ b ∈ blocks, b.Sublist cs
  ne_nil : ∀ b ∈ blocks, b ≠ []
  chained : ∀ b ∈ blocks, ∀ c ∈ b, ∀ d ∈ b, Constraint.Chained b c d
  separate : blocks.Pairwise fun b b' => ∀ c ∈ b, ∀ d ∈ b', ¬ c.Touches d

/-- The numbers of a shape are those of a block: its rows, its different
variables, and the lengths of its rows. -/
def Shape.IsOf (s : Shape) (rows : List Constraint) : Prop :=
  ∃ members : List Var, members.Nodup ∧ (∀ v, v ∈ members ↔ ∃ c ∈ rows, v ∈ c.vars) ∧
    s = .ofRows s.id members rows

/-! ## Gathering rows -/

namespace Component

/-- Filters for different keys take a list apart. -/
theorem perm_flatMap_filter {α : Type} (key : α → Option Nat) {ids : List Nat} (hn : ids.Nodup)
    (xs : List α) :
    (ids.flatMap fun i => xs.filter fun x => key x == some i).Perm
      (xs.filter fun x => decide (∃ i ∈ ids, key x = some i)) := by
  induction ids with
  | nil => simp
  | cons i is ih =>
    obtain ⟨hi, hn⟩ := List.nodup_cons.mp hn
    rw [List.flatMap_cons]
    refine ((ih hn).append_left _).trans ?_
    have split := List.filter_append_perm (fun x => key x == some i)
      (xs.filter fun x => decide (∃ j ∈ i :: is, key x = some j))
    rw [List.filter_filter, List.filter_filter] at split
    convert split using 2
    · refine List.filter_congr fun x _ => ?_
      by_cases hk : key x = some i <;> simp [hk]
    · refine List.filter_congr fun x _ => ?_
      by_cases hk : key x = some i
      · simp [hk, hi]
      · simp [hk]

variable {p : Partition} {cs : List Constraint}

theorem idOf_of_mem (hp : p.Represents (cs.map Constraint.vars)) {c : Constraint} (hc : c ∈ cs)
    {v : Var} (hv : v ∈ c.vars) : ∃ id, idOf p c = some id ∧ p.componentOf v = some id := by
  obtain ⟨u, us, hu⟩ := List.exists_cons_of_ne_nil (List.ne_nil_of_mem hv)
  have mentioned : c.vars ∈ cs.map Constraint.vars := List.mem_map_of_mem hc
  have hmem : u ∈ c.vars := hu ▸ List.mem_cons_self
  obtain ⟨id, hid⟩ := Option.isSome_iff_exists.mp ((hp.isSome_iff u).mpr ⟨_, mentioned, hmem⟩)
  refine ⟨id, ?_, (hp.same_iff hid v).mpr (.single ⟨_, mentioned, hmem, hv⟩)⟩
  rw [idOf, hu]
  exact hid

/-- A constraint is among the rows of the component that one of its variables is in. -/
theorem idOf_eq (hp : p.Represents (cs.map Constraint.vars)) {c : Constraint} (hc : c ∈ cs)
    {v : Var} (hv : v ∈ c.vars) : idOf p c = p.componentOf v := by
  obtain ⟨id, h, h'⟩ := idOf_of_mem hp hc hv
  rw [h, h']

theorem ne_nil_of_idOf {c : Constraint} {id : Nat} (h : idOf p c = some id) : c.vars ≠ [] := by
  intro hn
  simp [idOf, hn] at h

theorem mem_rows_gather {id : Nat} {ms : List Var} {c : Constraint} :
    c ∈ (gather p cs id ms).rows ↔ c ∈ cs ∧ idOf p c = some id := by
  simp [gather]

/-- The members of a live component are the variables of its rows. -/
theorem mem_members_iff (hp : p.Represents (cs.map Constraint.vars)) {id : Nat} {ms : List Var}
    (hms : p.membersOf id = some ms) (v : Var) :
    v ∈ ms ↔ ∃ c ∈ (gather p cs id ms).rows, v ∈ c.vars := by
  rw [← hp.valid.mem_iff hms]
  constructor
  · intro h
    obtain ⟨_, hvs, hv⟩ := (hp.isSome_iff v).mp (by rw [h]; rfl)
    obtain ⟨c, hc, rfl⟩ := List.mem_map.mp hvs
    exact ⟨c, mem_rows_gather.mpr ⟨hc, (idOf_eq hp hc hv).trans h⟩, hv⟩
  · rintro ⟨c, hc, hv⟩
    obtain ⟨hc, hid⟩ := mem_rows_gather.mp hc
    exact (idOf_eq hp hc hv).symm.trans hid

/-- Steps from a variable of a component stay in the rows of the component. -/
theorem linked_rows (hp : p.Represents (cs.map Constraint.vars)) {id : Nat} (ms : List Var)
    {v w : Var} (hv : p.componentOf v = some id) (h : Partition.Linked (cs.map Constraint.vars) v w) :
    Partition.Linked ((gather p cs id ms).rows.map Constraint.vars) v w := by
  induction h with
  | refl => exact .refl
  | tail hl hstep ih =>
    obtain ⟨_, hvs, hx, hy⟩ := hstep
    obtain ⟨c, hc, rfl⟩ := List.mem_map.mp hvs
    have hid : idOf p c = some id := (idOf_eq hp hc hx).trans ((hp.same_iff hv _).mpr hl)
    exact ih.tail ⟨_, List.mem_map_of_mem (mem_rows_gather.mpr ⟨hc, hid⟩), hx, hy⟩

theorem chained_gather (hp : p.Represents (cs.map Constraint.vars)) {id : Nat} {ms : List Var}
    {c d : Constraint} (hc : c ∈ (gather p cs id ms).rows) (hd : d ∈ (gather p cs id ms).rows) :
    Constraint.Chained (gather p cs id ms).rows c d := by
  obtain ⟨hcs, hci⟩ := mem_rows_gather.mp hc
  obtain ⟨hds, hdi⟩ := mem_rows_gather.mp hd
  obtain ⟨v, hv⟩ := List.exists_mem_of_ne_nil _ (ne_nil_of_idOf hci)
  obtain ⟨w, hw⟩ := List.exists_mem_of_ne_nil _ (ne_nil_of_idOf hdi)
  have cv : p.componentOf v = some id := (idOf_eq hp hcs hv).symm.trans hci
  have cw : p.componentOf w = some id := (idOf_eq hp hds hw).symm.trans hdi
  exact Constraint.chained_of_linked hv hd hw (linked_rows hp ms cv ((hp.same_iff cv w).mp cw))

theorem check_eq_ok (hp : p.Represents (cs.map Constraint.vars)) {c : Constraint} (hc : c ∈ cs) :
    check p c = .ok () := by
  unfold check
  split
  · rfl
  · rename_i v vs hvs
    obtain ⟨id, -, h⟩ := idOf_of_mem hp hc (hvs ▸ List.mem_cons_self)
    have hl : lookup p.table v = .ok (some id) := by
      rw [lookup_eq_ok_iff]
      exact Option.join_eq_some_iff.mp h
    rw [hl]

/-! ## All components -/

theorem pairwise_lt_components (p : Partition) : p.components.Pairwise fun x y => x.1 < y.1 := by
  refine List.Pairwise.filterMap _ (fun i j hij x hx y hy => ?_) List.pairwise_lt_range
  obtain ⟨_, -, rfl⟩ := Option.map_eq_some_iff.mp hx
  obtain ⟨_, -, rfl⟩ := Option.map_eq_some_iff.mp hy
  exact hij

theorem pairwise_components (p : Partition) : p.components.Pairwise fun x y => x.1 ≠ y.1 :=
  (pairwise_lt_components p).imp Nat.ne_of_lt

/-- Gathering takes the constraints with variables apart. -/
theorem perm_gather (hp : p.Represents (cs.map Constraint.vars)) :
    (p.components.flatMap fun x => (gather p cs x.1 x.2).rows).Perm
      (cs.filter fun c => !c.isTrivial) := by
  have hn : (p.components.map Prod.fst).Nodup := by
    rw [List.Nodup, List.pairwise_map]
    exact pairwise_components p
  have apart := perm_flatMap_filter (idOf p) hn cs
  rw [List.flatMap_map] at apart
  refine apart.trans (.of_eq (List.filter_congr fun c hc => ?_))
  rw [Bool.eq_iff_iff, decide_eq_true_iff]
  constructor
  · rintro ⟨id, -, hid⟩
    simpa [Constraint.isTrivial] using ne_nil_of_idOf hid
  · intro ht
    have ht : c.vars ≠ [] := by simpa [Constraint.isTrivial] using ht
    obtain ⟨v, hv⟩ := List.exists_mem_of_ne_nil _ ht
    obtain ⟨id, hid, hc⟩ := idOf_of_mem hp hc hv
    obtain ⟨ms, hms⟩ := hp.valid.exists_membersOf hc
    exact ⟨id, List.mem_map.mpr ⟨(id, ms), Partition.mem_components.mpr hms, rfl⟩, hid⟩

/-- The rows of components are constraints. -/
theorem mem_of_ofPartition {comps : List Component} (h : ofPartition p cs = .ok comps)
    {b : Component} (hb : b ∈ comps) {c : Constraint} (hc : c ∈ b.rows) : c ∈ cs := by
  obtain ⟨-, -, h⟩ := Checked.bind_eq_ok.mp h
  cases h
  obtain ⟨x, -, rfl⟩ := List.mem_map.mp ((Sorting.perm_sort _ _).mem_iff.mp hb)
  exact (mem_rows_gather.mp hc).1

/-- The live components with their rows, by rising number. -/
def found (p : Partition) (cs : List Constraint) : List Component :=
  p.components.map fun x => gather p cs x.1 x.2

theorem pairwise_id_found (p : Partition) (cs : List Constraint) :
    (found p cs).Pairwise fun b b' => b.shape.id ≠ b'.shape.id :=
  List.pairwise_map.mpr (pairwise_components p)

theorem exists_of_mem_found {b : Component} (hb : b ∈ found p cs) :
    ∃ ms, p.membersOf b.shape.id = some ms ∧ b = gather p cs b.shape.id ms := by
  obtain ⟨⟨id, ms⟩, hx, rfl⟩ := List.mem_map.mp hb
  exact ⟨ms, Partition.mem_components.mp hx, rfl⟩

/-- Components with different numbers share no variable. -/
theorem not_touches_of_ne (hp : p.Represents (cs.map Constraint.vars)) {b b' : Component}
    (hb : b ∈ found p cs) (hb' : b' ∈ found p cs) (hne : b.shape.id ≠ b'.shape.id) :
    ∀ c ∈ b.rows, ∀ d ∈ b'.rows, ¬ c.Touches d := by
  intro c hc d hd ⟨v, hvc, hvd⟩
  obtain ⟨ms, -, h⟩ := exists_of_mem_found hb
  obtain ⟨ms', -, h'⟩ := exists_of_mem_found hb'
  obtain ⟨hc, hci⟩ := mem_rows_gather.mp (h ▸ hc)
  obtain ⟨hd, hdi⟩ := mem_rows_gather.mp (h' ▸ hd)
  rw [idOf_eq hp hc hvc] at hci
  rw [idOf_eq hp hd hvd, hci] at hdi
  exact hne (Option.some.inj hdi)

/-- In whatever order the components are, their rows are the blocks. -/
theorem blocks_of_perm_found (hp : p.Represents (cs.map Constraint.vars)) {comps : List Component}
    (hperm : comps.Perm (found p cs)) : Blocks cs (comps.map rows) := by
  have gathered : ∀ b ∈ comps, ∃ ms, p.membersOf b.shape.id = some ms ∧
      b = gather p cs b.shape.id ms := fun b hb => exists_of_mem_found (hperm.mem_iff.mp hb)
  refine ⟨?_, ?_, ?_, ?_, ?_⟩
  · refine (hperm.map rows).flatten.trans ?_
    rw [found, List.map_map, ← List.flatMap_def]
    exact perm_gather hp
  · refine List.forall_mem_map.mpr fun b hb => ?_
    obtain ⟨ms, -, h⟩ := gathered b hb
    rw [h]
    exact List.filter_sublist
  · refine List.forall_mem_map.mpr fun b hb => ?_
    obtain ⟨ms, hms, h⟩ := gathered b hb
    obtain ⟨v, hv⟩ := List.exists_mem_of_ne_nil _ (hp.valid.ne_nil hms)
    obtain ⟨c, hc, -⟩ := (mem_members_iff hp hms v).mp hv
    rw [h]
    exact List.ne_nil_of_mem hc
  · refine List.forall_mem_map.mpr fun b hb => ?_
    obtain ⟨ms, -, h⟩ := gathered b hb
    rw [h]
    exact fun c hc d hd => chained_gather hp hc hd
  · have hids := hperm.symm.pairwise (pairwise_id_found p cs) fun h => Ne.symm h
    exact List.pairwise_map.mpr (hids.imp_of_mem fun hb hb' hne =>
      not_touches_of_ne hp (hperm.mem_iff.mp hb) (hperm.mem_iff.mp hb') hne)

theorem isOf_of_mem_found (hp : p.Represents (cs.map Constraint.vars)) {b : Component}
    (hb : b ∈ found p cs) : b.shape.IsOf b.rows := by
  obtain ⟨ms, hms, h⟩ := exists_of_mem_found hb
  refine ⟨ms, hp.valid.nodup hms, fun v => ?_, ?_⟩
  · rw [h]
    exact mem_members_iff hp hms v
  · rw [h]
    rfl

/-- The members of a component are the variables of its rows. -/
theorem mem_members_of_mem_found (hp : p.Represents (cs.map Constraint.vars)) {b : Component}
    (hb : b ∈ found p cs) (v : Var) : v ∈ b.members ↔ ∃ c ∈ b.rows, v ∈ c.vars := by
  obtain ⟨ms, hms, h⟩ := exists_of_mem_found hb
  rw [h]
  exact mem_members_iff hp hms v

theorem lt_of_mem_members (hp : p.Represents (cs.map Constraint.vars)) {b : Component}
    (hb : b ∈ found p cs) : ∀ v ∈ b.members, v < p.table.size := by
  intro v hv
  obtain ⟨ms, hms, h⟩ := exists_of_mem_found hb
  rw [h] at hv
  exact Partition.lt_of_componentOf ((hp.valid.mem_iff hms v).mpr hv)

/-- The live components with their rows, in the order of competition. -/
def ranked (p : Partition) (cs : List Constraint) : List Component :=
  Sorting.sort (fun s t => s.shape.mayPrecede t.shape) (found p cs)

theorem perm_ranked (p : Partition) (cs : List Constraint) : (ranked p cs).Perm (found p cs) :=
  Sorting.perm_sort _ _

theorem pairwise_ranked (p : Partition) (cs : List Constraint) :
    (ranked p cs).Pairwise fun b b' => b.shape.priority b'.shape = .lt :=
  Shape.pairwise_priority_sort Component.shape (pairwise_id_found p cs)

theorem ofPartition_eq (hp : p.Represents (cs.map Constraint.vars)) :
    ofPartition p cs = .ok (ranked p cs) := by
  rw [ofPartition, Checked.forM_eq_ok.mpr fun c hc => check_eq_ok hp hc]
  rfl

/-- The components of a partition that represents `cs` are the blocks of `cs`, in
the order of competition. -/
theorem exists_ofPartition (hp : p.Represents (cs.map Constraint.vars)) :
    ∃ comps, ofPartition p cs = .ok comps ∧ Blocks cs (comps.map rows) ∧
      comps.Pairwise (fun b b' => b.shape.priority b'.shape = .lt) ∧
      (∀ b ∈ comps, b.shape.IsOf b.rows) ∧ ∀ b ∈ comps, ∀ v ∈ b.members, v < p.table.size := by
  have hperm := perm_ranked p cs
  exact ⟨_, ofPartition_eq hp, blocks_of_perm_found hp hperm, pairwise_ranked p cs,
    fun b hb => isOf_of_mem_found hp (hperm.mem_iff.mp hb),
    fun b hb => lt_of_mem_members hp (hperm.mem_iff.mp hb)⟩

end Component

end ParityBlocks
