import ParityBlocks.Cnf.Load
import ParityBlocks.Proofs.Division

/-!
# Reachable solvers

A `Request` is one thing to ask of a solver, and `Solver.perform` does it, with
whatever the solver is left as if it is refused or fails. Every solver that new
ones become by requests (`Solver.Reachable`) is well formed
(`Reachable.wellFormed`), since each request keeps solvers well formed
(`WellFormed.perform`).
-/

namespace ParityBlocks

/-- One thing to ask of a solver. -/
inductive Request
  | add (vars : List Var) (rhs : Bool)
  | assign (v : Var) (b : Bool)
  | replace (v w : Var)
  | renumber (inners : List Var)
  | addAlias (user outer : Var)
  | configure (settings : Settings)
  | load (problem : Cnf.Problem)
  | search (elapsed : Duration)

namespace Solver

/-- The solver after a request, also after one that failed. -/
def perform (s : Solver) : Request → Solver
  | .add vars rhs => (s.add vars rhs).toOption.getD s
  | .assign v b => (s.assign v b).1
  | .replace v w => (s.replace v w).toOption.getD s
  | .renumber inners => (s.renumber inners).toOption.getD s
  | .addAlias user outer => s.addAlias user outer
  | .configure settings => { s with settings := settings }
  | .load problem => (s.load problem).1
  | .search elapsed => (Session.find { solver := s } elapsed).1.solver

/-- What new solvers become by requests. -/
inductive Reachable : Solver → Prop
  | new {varCount : Nat} (settings : Settings) (h : varCount < Var.modulus) :
    Reachable (.new varCount settings)
  | perform {s : Solver} (hs : s.Reachable) (r : Request) : Reachable (s.perform r)

/-- What each value and the constraints of a problem keep, the problem keeps. -/
theorem load_keeps {P : Solver → Prop} (assign : ∀ {s}, P s → ∀ v b, P (s.assign v b).1)
    (addAll : ∀ {s}, P s → ∀ cs, P (s.addAll cs).1) {s : Solver} (hs : P s)
    (problem : Cnf.Problem) : P (s.load problem).1 := by
  have assigned : ∀ units : List (Var × Bool), P (s.assignAll units).1 := by
    intro units
    induction units generalizing s with
    | nil => exact hs
    | cons unit rest ih =>
      obtain ⟨v, b⟩ := unit
      have step := assign hs v b
      rw [Solver.assignAll]
      generalize s.assign v b = r at step
      match r with
      | (t, .error failure) => exact step
      | (t, .ok ()) => exact ih step
  have assigned := assigned problem.units
  rw [Solver.load]
  generalize s.assignAll problem.units = r at assigned
  match r with
  | (t, .error failure) => exact assigned
  | (t, .ok ()) => exact addAll assigned problem.constraints

namespace WellFormed

variable {s : Solver}

theorem new {varCount : Nat} (settings : Settings) (h : varCount < Var.modulus) :
    (Solver.new varCount settings).WellFormed := by
  have size : (Solver.new varCount settings).varCount = varCount := Array.size_replicate
  refine ⟨?_, ?_, ?_, nofun⟩
  · rwa [size]
  · rw [size]
    exact .identity h
  · rw [size]
    rfl

/-- Solvers with the same tables are well formed together, apart from the pool. -/
theorem congr (hs : s.WellFormed) {t : Solver} (hv : t.varCount = s.varCount)
    (hn : t.numbering.WellFormed s.varCount) (hf : t.flags = s.flags)
    (hp : ∀ c ∈ t.pool, ∀ v ∈ c.vars, v < s.varCount) : t.WellFormed where
  varCount_lt := hv ▸ hs.varCount_lt
  numbering := hv ▸ hn
  flags := by rw [hf, hv, hs.flags]
  pool := hv ▸ hp

theorem add (hs : s.WellFormed) (vars : List Var) (rhs : Bool) :
    ((s.add vars rhs).toOption.getD s).WellFormed := by
  rw [Solver.add]
  split
  · rename_i hk
    refine hs.congr rfl hs.numbering rfl fun c hc => ?_
    obtain hc | hc := List.mem_append.mp hc
    · exact hs.pool c hc
    · obtain rfl := List.mem_singleton.mp hc
      exact fun v hv => of_decide_eq_true (List.all_eq_true.mp hk v hv)
  · exact hs

theorem assign (hs : s.WellFormed) (v : Var) (b : Bool) : (s.assign v b).1.WellFormed := by
  rw [Solver.assign]
  split
  · exact hs
  · split
    · exact hs.congr rfl hs.numbering rfl hs.pool
    · exact hs.congr Array.size_setIfInBounds hs.numbering rfl hs.pool

theorem replace (hs : s.WellFormed) (v w : Var) :
    ((s.replace v w).toOption.getD s).WellFormed := by
  rw [Solver.replace]
  cases h : s.numbering.replace v w with
  | error fault => exact hs
  | ok n => exact hs.congr rfl (hs.numbering.replace h) rfl hs.pool

theorem renumber (hs : s.WellFormed) (inners : List Var) :
    ((s.renumber inners).toOption.getD s).WellFormed := by
  rw [Solver.renumber]
  cases h : s.numbering.renumber s.varCount inners with
  | error e => exact hs
  | ok n => exact hs.congr rfl (hs.numbering.renumber hs.varCount_lt h) rfl hs.pool

/-! ## Problems -/

theorem addAll (hs : s.WellFormed) (cs : List Constraint) : (s.addAll cs).1.WellFormed := by
  have added : { s with
      pool := s.pool ++ (cs.takeWhile s.knows).map Constraint.fresh }.WellFormed := by
    refine hs.congr rfl hs.numbering rfl fun c hc => ?_
    obtain hc | hc := List.mem_append.mp hc
    · exact hs.pool c hc
    · obtain ⟨d, hd, rfl⟩ := List.mem_map.mp hc
      have hk := List.all_eq_true.mp List.all_takeWhile d hd
      exact fun v hv => of_decide_eq_true (List.all_eq_true.mp hk v hv)
  rw [Solver.addAll]
  split
  · exact added
  · exact added

theorem load (hs : s.WellFormed) (problem : Cnf.Problem) : (s.load problem).1.WellFormed :=
  load_keeps (fun ht => ht.assign) (fun ht => ht.addAll) hs problem

/-! ## Searches -/

/-- What is returned to the pool is over the variables of what was divided. -/
theorem forall_mem_returned {cs : List Constraint} {rs : List Ruling} (h : Ruling.Divides cs rs)
    {P : Var → Prop} (hcs : ∀ c ∈ cs, ∀ v ∈ c.vars, P v) :
    ∀ c ∈ rs.flatMap Ruling.returned, ∀ v ∈ c.vars, P v := by
  intro c hc
  obtain ⟨r, hr, -, d, hd, rfl⟩ := Ruling.exists_of_mem_returned hc
  exact hcs d ((h.blocks.sublist _ (List.mem_map_of_mem hr)).subset hd)

theorem of_ends (hs : s.WellFormed) {elapsed : Duration} {t : Solver}
    {outcome : Except Failure Report} (h : Search.Ends s elapsed t outcome) : t.WellFormed := by
  cases h with
  | @unprepared failure prepared =>
    cases failure with
    | contradiction c => exact hs.congr rfl hs.numbering rfl nofun
    | fault f => exact hs.congr rfl hs.numbering rfl nofun
  | skipped prepared => exact hs.congr rfl hs.numbering rfl (Solver.lt_of_prepare prepared)
  | faulted prepared skipCause faulty => exact (hs.not_faulty prepared faulty).elim
  | divided prepared skipCause components_eq assess_eq rulings_eq =>
    subst rulings_eq
    obtain ⟨rfl, hdiv⟩ := hs.divides prepared components_eq assess_eq
    exact hs.congr rfl hs.numbering rfl (forall_mem_returned hdiv (Solver.lt_of_prepare prepared))

theorem find {s : Session} (hs : s.solver.WellFormed) (elapsed : Duration) :
    (s.find elapsed).1.solver.WellFormed := by
  by_cases h : s.solver.consistent = true ∧ s.solver.matrices = []
  · exact hs.of_ends (Session.ends_find h.1 h.2 elapsed)
  · rw [Session.solver_find_of_refused h]
    exact hs

theorem perform (hs : s.WellFormed) (r : Request) : (s.perform r).WellFormed := by
  cases r with
  | add vars rhs => exact hs.add vars rhs
  | assign v b => exact hs.assign v b
  | replace v w => exact hs.replace v w
  | renumber inners => exact hs.renumber inners
  | addAlias user outer => exact hs.congr rfl (hs.numbering.addAlias user outer) rfl hs.pool
  | configure settings => exact hs.congr rfl hs.numbering rfl hs.pool
  | load problem => exact hs.load problem
  | search elapsed => exact WellFormed.find (s := { solver := s }) hs elapsed

end WellFormed

theorem Reachable.wellFormed {s : Solver} (h : s.Reachable) : s.WellFormed := by
  induction h with
  | new settings h => exact .new settings h
  | perform _ r ih => exact ih.perform r

/-- Requests one after the other. -/
theorem Reachable.foldl {s : Solver} (h : s.Reachable) (rs : List Request) :
    (rs.foldl Solver.perform s).Reachable := by
  induction rs generalizing s with
  | nil => exact h
  | cons r rs ih => exact ih (h.perform r)

end Solver

namespace Session

/-- A session with a replaced variable and one that has a value. Its constraints
fall into two blocks of three, and one of two that are the same. -/
def sample : Session where
  solver :=
    [.replace 1 0, .assign 7 true, .add [1, 2, 7] true, .add [8, 9] true, .add [3, 2] false,
      .add [0, 3, 3, 4] true, .add [5, 6] true, .add [9, 10] true, .add [6, 5] true,
      .add [8, 11] false].foldl Solver.perform (.new 12 {})

theorem reachable_sample : sample.solver.Reachable :=
  Solver.Reachable.foldl (.new {} (by decide)) _

theorem consistent_sample : sample.solver.consistent = true := by decide +kernel

theorem matrices_sample : sample.solver.matrices = [] := by decide +kernel

/-- The search of the sample makes two matrices. -/
theorem find_sample : ∃ report, (sample.find .zero).2 = .ok report ∧ report.skipped = none ∧
    report.matrixCount = 2 ∧ report.unusedCount = 1 := by
  have h : ((sample.find .zero).2.toOption.any fun report => decide (report.skipped = none ∧
      report.matrixCount = 2 ∧ report.unusedCount = 1)) = true := by decide +kernel
  obtain ⟨report, hok, h⟩ := Checked.exists_eq_ok h
  exact ⟨report, hok, of_decide_eq_true h⟩

end Session

end ParityBlocks
