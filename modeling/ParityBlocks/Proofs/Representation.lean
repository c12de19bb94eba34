import ParityBlocks.Proofs.Conclusion
import ParityBlocks.Proofs.Guarantees
import ParityBlocks.Proofs.Queue

/-!
# The representation of a solver

`Solver.Represents n s` says how the parts of a solver with `n` variables fit
together: its tables have an entry for each variable, the numberings are inverse
permutations, replacing is idempotent, no flag is set, and constraints, matrices
and queue agree about what is where.

Every request either leaves the matrices and the queue alone (`Solver.Grows`) or is
a search, and neither breaks the agreement (`Registered.perform`). So new solvers
and whatever requests make of them are represented so, and an inconsistent solver
stays inconsistent (`Solver.represents_foldl_perform`).
-/

namespace ParityBlocks

/-! ## Requests other than searches -/

namespace Solver

/-- What a request other than a search does: it keeps the number of variables, the
matrices and the queue, adds undecided constraints only, and never makes a solver
consistent. -/
structure Grows (s t : Solver) : Prop where
  varCount : t.varCount = s.varCount
  matrices : t.matrices = s.matrices
  queue : t.queue = s.queue
  pool {c : Constraint} : c ∈ t.pool → c ∈ s.pool ∨ c.placement = .undecided
  consistent : t.consistent = true → s.consistent = true

namespace Grows

theorem refl (s : Solver) : Grows s s := ⟨rfl, rfl, rfl, .inl, id⟩

theorem trans {s t u : Solver} (h : Grows s t) (h' : Grows t u) : Grows s u where
  varCount := h'.varCount.trans h.varCount
  matrices := h'.matrices.trans h.matrices
  queue := h'.queue.trans h.queue
  pool hc := (h'.pool hc).elim h.pool .inr
  consistent hc := h.consistent (h'.consistent hc)

variable (s : Solver)

theorem add (vars : List Var) (rhs : Bool) : Grows s ((s.add vars rhs).toOption.getD s) := by
  rw [Solver.add]
  split
  · refine ⟨rfl, rfl, rfl, fun {c} hc => ?_, id⟩
    obtain hc | hc := List.mem_append.mp hc
    · exact .inl hc
    · obtain rfl := List.mem_singleton.mp hc
      exact .inr rfl
  · exact .refl s

theorem assign (v : Var) (b : Bool) : Grows s (s.assign v b).1 := by
  rw [Solver.assign]
  split
  · exact .refl s
  · split
    · exact ⟨rfl, rfl, rfl, .inl, fun h => absurd h Bool.false_ne_true⟩
    · exact ⟨Array.size_setIfInBounds, rfl, rfl, .inl, id⟩

/-- A new numbering changes nothing else. -/
theorem numbering {ε : Type} (x : Except ε Numbering) :
    Grows s ((x.map fun n => { s with numbering := n }).toOption.getD s) := by
  cases x with
  | error e => exact .refl s
  | ok n => exact ⟨rfl, rfl, rfl, .inl, id⟩

theorem addAll (cs : List Constraint) : Grows s (s.addAll cs).1 := by
  have added : Grows s { s with
      pool := s.pool ++ (cs.takeWhile s.knows).map Constraint.fresh } := by
    refine ⟨rfl, rfl, rfl, fun {c} hc => ?_, id⟩
    obtain hc | hc := List.mem_append.mp hc
    · exact .inl hc
    · obtain ⟨d, -, rfl⟩ := List.mem_map.mp hc
      exact .inr rfl
  rw [Solver.addAll]
  split
  · exact added
  · exact added

theorem load (problem : Cnf.Problem) : Grows s (s.load problem).1 :=
  load_keeps (fun h v b => h.trans (assign _ v b)) (fun h cs => h.trans (addAll _ cs)) (refl s)
    problem

end Grows

/-- Every request is a search or only lets the solver grow. -/
theorem grows_perform (s : Solver) (r : Request) :
    (∃ elapsed, r = .search elapsed) ∨ Grows s (s.perform r) := by
  cases r with
  | search elapsed => exact .inl ⟨elapsed, rfl⟩
  | add vars rhs => exact .inr (.add s vars rhs)
  | assign v b => exact .inr (.assign s v b)
  | replace v w => exact .inr (.numbering s _)
  | renumber inners => exact .inr (.numbering s _)
  | addAlias user outer => exact .inr ⟨rfl, rfl, rfl, .inl, id⟩
  | configure settings => exact .inr ⟨rfl, rfl, rfl, .inl, id⟩
  | load problem => exact .inr (.load s problem)

/-- A search of a solver that is inconsistent or has matrices is refused. -/
theorem perform_search_of_refused {s : Solver} (h : ¬ (s.consistent = true ∧ s.matrices = []))
    {elapsed : Duration} : s.perform (.search elapsed) = s :=
  Session.solver_find_of_refused (s := { solver := s }) h elapsed

/-! ## Matrices, queue and pool -/

/-- Matrices, queue and pool agree: there is a queue entry for each matrix, matrices
are numbered by their places and share no column, and each constraint is marked with
the place where it is. -/
structure Registered (s : Solver) : Prop where
  queue_length : s.queue.length = s.matrices.length
  number_eq {k : Nat} {m : Matrix} : s.matrices[k]? = some m → m.number = k
  row_lt {m : Matrix} {c : Constraint} {v : Var} :
    m ∈ s.matrices → c ∈ m.rows → v ∈ c.vars → v < s.varCount
  placement_row {k : Nat} {m : Matrix} {c : Constraint} :
    s.matrices[k]? = some m → c ∈ m.rows → c.placement = .inMatrix k
  disjoint : s.matrices.Pairwise fun m m' => ∀ v ∈ m.columns, v ∉ m'.columns
  placement_pool {c : Constraint} : c ∈ s.pool → ∀ k, c.placement ≠ .inMatrix k

namespace Registered

variable {s t : Solver}

/-- Nothing is registered without matrices. -/
theorem of_matrices_eq_nil (hm : s.matrices = []) (hq : s.queue = [])
    (hp : ∀ c ∈ s.pool, ∀ k, c.placement ≠ .inMatrix k) : s.Registered := by
  refine ⟨by rw [hm, hq]; rfl, ?_, ?_, ?_, by rw [hm]; exact .nil, fun hc => hp _ hc⟩ <;>
    simp [hm]

theorem grows (h : s.Registered) (hst : Grows s t) : t.Registered where
  queue_length := by rw [hst.queue, hst.matrices, h.queue_length]
  number_eq hk := h.number_eq (hst.matrices ▸ hk)
  row_lt hm hc hv := hst.varCount ▸ h.row_lt (hst.matrices ▸ hm) hc hv
  placement_row hk hc := h.placement_row (hst.matrices ▸ hk) hc
  disjoint := hst.matrices ▸ h.disjoint
  placement_pool {c} hc k := by
    obtain hc | hc := hst.pool hc
    · exact h.placement_pool hc k
    · rw [hc]
      exact nofun

/-- Preparing constraints leaves their placements as they are. -/
theorem placement_of_prepare {cs : List Constraint} (hp : s.prepare = .ok cs) {P : Placement → Prop}
    (hpool : ∀ c ∈ s.pool, P c.placement) : ∀ c ∈ cs, P c.placement :=
  forall_mem_of_prepare hp fun c hc _ hto => hto.placement_eq ▸ hpool c hc

theorem length_queueAfter (queue : List QueueEntry) (n : Nat) :
    (Search.queueAfter queue n).length = n := by
  cases n with
  | zero => rw [Search.queueAfter_zero, List.length_nil]
  | succ n => rw [Search.queueAfter_succ, List.length_cons, List.length_replicate]

/-- Matrices and pool that are a division of constraints are registered. -/
theorem of_divides {cs : List Constraint} {rulings : List Ruling} (h : Ruling.Divides cs rulings)
    (hcs : ∀ c ∈ cs, ∀ v ∈ c.vars, v < t.varCount)
    (hmat : t.matrices = rulings.filterMap Ruling.matrix?)
    (hpool : t.pool = rulings.flatMap Ruling.returned)
    (hqueue : t.queue.length = t.matrices.length) : t.Registered := by
  have conserves := Session.Conserves.of_divides h hmat hpool
  refine ⟨hqueue, conserves.number_eq, fun {m c v} hm hc hv => ?_, conserves.placement_row, ?_,
    fun hc k => ?_⟩
  · rw [hmat] at hm
    obtain ⟨r, hr, hm⟩ := List.mem_filterMap.mp hm
    obtain ⟨k, -, rfl⟩ := Ruling.matrix?_eq_some.mp hm
    obtain ⟨d, hd, rfl⟩ := List.mem_map.mp hc
    exact hcs d ((h.blocks.sublist _ (List.mem_map_of_mem hr)).subset hd) v hv
  · rw [hmat]
    exact h.pairwise_columns
  · rw [conserves.placement_pool hc]
    exact nofun

theorem queue_eq_nil (h : s.Registered) (hm : s.matrices = []) : s.queue = [] :=
  List.eq_nil_of_length_eq_zero (by rw [h.queue_length, hm]; rfl)

/-- What a search leaves is registered, however it ends. -/
theorem concludes (h : s.Registered) (hm : s.matrices = []) {elapsed : Duration}
    {outcome : Except Failure Report} (ht : Search.Concludes s elapsed t outcome) :
    t.Registered := by
  cases ht with
  | contradicted prepared => exact .of_matrices_eq_nil hm (h.queue_eq_nil hm) nofun
  | skipped prepared skipCause =>
    exact .of_matrices_eq_nil hm rfl fun c hc =>
      placement_of_prepare (P := fun p => ∀ k, p ≠ .inMatrix k) prepared
        (fun _ hc => h.placement_pool hc) c hc
  | divided prepared skipCause components_eq assess_eq rulings_eq divides =>
    exact .of_divides divides (Solver.lt_of_prepare (s := s) prepared) rfl rfl
      (length_queueAfter _ _)

theorem perform (hs : s.WellFormed) (h : s.Registered) (r : Request) :
    (s.perform r).Registered := by
  obtain ⟨elapsed, rfl⟩ | hgrows := grows_perform s r
  · by_cases hready : s.consistent = true ∧ s.matrices = []
    · exact h.concludes hready.2
        (Session.concludes_find (s := { solver := s }) hs hready.1 hready.2 elapsed)
    · rw [perform_search_of_refused hready]
      exact h
  · exact h.grows hgrows

end Registered

/-! ## All requests -/

theorem varCount_perform {s : Solver} (hs : s.WellFormed) (r : Request) :
    (s.perform r).varCount = s.varCount := by
  obtain ⟨elapsed, rfl⟩ | hgrows := grows_perform s r
  · by_cases hready : s.consistent = true ∧ s.matrices = []
    · exact (Session.concludes_find (s := { solver := s }) hs hready.1 hready.2 elapsed).varCount_eq
    · rw [perform_search_of_refused hready]
  · exact hgrows.varCount

/-- No request makes an inconsistent solver consistent. -/
theorem consistent_of_perform {s : Solver} (r : Request) (h : (s.perform r).consistent = true) :
    s.consistent = true := by
  obtain ⟨elapsed, rfl⟩ | hgrows := grows_perform s r
  · by_contra hc
    rw [perform_search_of_refused fun hready => hc hready.1] at h
    exact hc h
  · exact hgrows.consistent h

theorem consistent_of_foldl_perform {s : Solver} (rs : List Request)
    (h : (rs.foldl perform s).consistent = true) : s.consistent = true := by
  induction rs generalizing s with
  | nil => exact h
  | cons r rs ih => exact consistent_of_perform r (ih h)

/-- How the parts of a solver with `n` variables fit together. -/
structure Represents (n : Nat) (s : Solver) : Prop where
  values_size : s.values.size = n
  /-- There is a flag for each variable, and none is set. -/
  flags_eq : s.flags = Array.replicate n false
  representative_size : s.numbering.representative.size = n
  toInner_size : s.numbering.toInner.size = n
  toOuter_size : s.numbering.toOuter.size = n
  /-- The inner and the outer numbers are inverse permutations. -/
  inverse (v w : Var) : s.numbering.toInner[v]? = some w ↔ s.numbering.toOuter[w]? = some v
  representative_lt {v r : Var} : s.numbering.representative[v]? = some r → r < n
  /-- Replacing a variable twice is replacing it once. -/
  representative_fixed {v r : Var} :
    s.numbering.representative[v]? = some r → s.numbering.representative[r]? = some r
  pool_lt {c : Constraint} {v : Var} : c ∈ s.pool → v ∈ c.vars → v < n
  row_lt {m : Matrix} {c : Constraint} {v : Var} :
    m ∈ s.matrices → c ∈ m.rows → v ∈ c.vars → v < n
  queue_length : s.queue.length = s.matrices.length
  number_eq {k : Nat} {m : Matrix} : s.matrices[k]? = some m → m.number = k
  placement_row {k : Nat} {m : Matrix} {c : Constraint} :
    s.matrices[k]? = some m → c ∈ m.rows → c.placement = .inMatrix k
  disjoint : s.matrices.Pairwise fun m m' => ∀ v ∈ m.columns, v ∉ m'.columns
  placement_pool {c : Constraint} : c ∈ s.pool → ∀ k, c.placement ≠ .inMatrix k

theorem Registered.represents {n : Nat} {s : Solver} (h : s.Registered) (hs : s.WellFormed)
    (hn : s.varCount = n) : s.Represents n := by
  subst hn
  exact
    { values_size := rfl
      flags_eq := hs.flags
      representative_size := hs.numbering.representative_size
      toInner_size := hs.numbering.toInner_size
      toOuter_size := hs.numbering.toOuter_size
      inverse := hs.numbering.inverse
      representative_lt := hs.numbering.representative_lt
      representative_fixed := hs.numbering.representative_fixed
      pool_lt := fun hc hv => hs.pool _ hc _ hv
      row_lt := h.row_lt
      queue_length := h.queue_length
      number_eq := h.number_eq
      placement_row := h.placement_row
      disjoint := h.disjoint
      placement_pool := h.placement_pool }

/-- After any requests, refused and failed ones among them, the parts of a solver fit
together; and once it is inconsistent it stays so. -/
theorem represents_foldl_perform {n : Nat} (hn : n < Var.modulus) (settings : Settings)
    (rs : List Request) :
    (rs.foldl perform (.new n settings)).Represents n ∧
      ∀ rs' : List Request, (rs.foldl perform (.new n settings)).consistent = false →
        ((rs ++ rs').foldl perform (.new n settings)).consistent = false := by
  have invariant : (rs.foldl perform (.new n settings)).WellFormed ∧
      (rs.foldl perform (.new n settings)).Registered ∧
        (rs.foldl perform (.new n settings)).varCount = n := by
    refine List.foldlRecOn (motive := fun s => s.WellFormed ∧ s.Registered ∧ s.varCount = n) rs
      perform ⟨.new settings hn, .of_matrices_eq_nil rfl rfl nofun, Array.size_replicate⟩ ?_
    rintro s ⟨hs, hreg, hcount⟩ r -
    exact ⟨hs.perform r, hreg.perform hs r, (varCount_perform hs r).trans hcount⟩
  obtain ⟨hs, hreg, hcount⟩ := invariant
  refine ⟨hreg.represents hs hcount, fun rs' h => ?_⟩
  rw [List.foldl_append]
  exact Bool.eq_false_of_not_eq_true fun hc =>
    Bool.eq_false_iff.mp h (consistent_of_foldl_perform rs' hc)

/-- Requests of all kinds: some are refused, a search makes two matrices, so that the
next search is refused, and at the end a variable gets both values. -/
def sampleRequests : List Request :=
  [.renumber [1, 0, 2, 3, 4, 5, 6, 7, 8, 9, 10, 11], .renumber [0, 0], .replace 1 0, .replace 12 0,
    .addAlias 20 3, .assign 7 true, .assign 12 true, .add [1, 2, 7] true, .add [8, 9] true,
    .add [12] true, .add [3, 2] false, .add [0, 3, 3, 4] true, .add [5, 6] true, .add [9, 10] true,
    .load
      { varCount := 12, constraints := [{ vars := [8, 11], rhs := false }], units := [(7, true)] },
    .configure { sampling := some [0, 20, 40], verbosity := 2 }, .search .zero, .search .zero,
    .assign 7 false]

theorem represents_foldl_perform_sample :
    let s := sampleRequests.foldl perform (.new 12 {})
    12 < Var.modulus ∧ s.matrices.length = 2 ∧ s.Represents 12 ∧ s.consistent = false ∧
      ∀ rs' : List Request,
        ((sampleRequests ++ rs').foldl perform (.new 12 {})).consistent = false := by
  intro s
  have hn : 12 < Var.modulus := by decide
  obtain ⟨hrep, hstays⟩ := represents_foldl_perform hn {} sampleRequests
  have hc : s.consistent = false := by decide +kernel
  exact ⟨hn, by decide +kernel, hrep, hc, fun rs' => hstays rs' hc⟩

end Solver

end ParityBlocks
