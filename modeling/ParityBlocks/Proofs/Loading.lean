import Mathlib.Data.List.TakeWhile
import ParityBlocks.Proofs.Conclusion
import ParityBlocks.Proofs.Meaning
import ParityBlocks.Proofs.Plain
import ParityBlocks.Proofs.Reachable

/-!
# From a file to blocks

The assignments that a solver leaves possible (`Solver.Models`) agree with its values
and satisfy the constraints in its pool and its matrices. Putting something into a
solver rules out exactly the assignments that violate it (`Solver.Restricts`), for a
single value (`Solver.restricts_assign`) as for a whole problem
(`Solver.restricts_load`), and a search of a solver without replacements rules out none
(`Search.Concludes.tells_models`). So the assignments that satisfy a file are those that
a search of it leaves possible, and if it ends in a contradiction there are none
(`Session.find_of_file`).
-/

namespace ParityBlocks

/-- Every line of the file permits the assignment. -/
def Cnf.SatisfiesFile (b : Nat → Bool) (bytes : ByteArray) : Prop :=
  Satisfies b ((Text.linesOf 10 13 bytes.toList).map Problem.decodeLine)

namespace Solver

/-- The assignment agrees with all values and satisfies all constraints. -/
structure Models (s : Solver) (a : Var → Bool) : Prop where
  value {v : Var} {b : Bool} : s.value v = some b → a v = b
  row {m : Matrix} : m ∈ s.matrices → ∀ c ∈ m.rows, c.Holds a
  pool : ∀ c ∈ s.pool, c.Holds a

/-- The solvers have the same variables, numbering and matrices, and are consistent
together. -/
structure Alike (s t : Solver) : Prop where
  varCount_eq : t.varCount = s.varCount
  numbering_eq : t.numbering = s.numbering
  matrices_eq : t.matrices = s.matrices
  consistent_eq : t.consistent = s.consistent

theorem Alike.trans {s t u : Solver} (h : s.Alike t) (h' : t.Alike u) : s.Alike u where
  varCount_eq := h'.varCount_eq.trans h.varCount_eq
  numbering_eq := h'.numbering_eq.trans h.numbering_eq
  matrices_eq := h'.matrices_eq.trans h.matrices_eq
  consistent_eq := h'.consistent_eq.trans h.consistent_eq

/-- Of the assignments that were possible those with the property `P` are left, and
there is none if a contradiction is found. There is no fault. -/
def Restricts (s : Solver) (P : (Var → Bool) → Prop) : Solver × Except Failure Unit → Prop
  | (t, .ok ()) => s.Alike t ∧ ∀ a, t.Models a ↔ s.Models a ∧ P a
  | (_, .error (.contradiction _)) => ∀ a, s.Models a → ¬ P a
  | (_, .error (.fault _)) => False

variable {s : Solver}

theorem Restricts.congr {P Q : (Var → Bool) → Prop} {r : Solver × Except Failure Unit}
    (h : s.Restricts P r) (hpq : ∀ a, P a ↔ Q a) : s.Restricts Q r := by
  have : P = Q := funext fun a => propext (hpq a)
  rwa [← this]

/-- Two requests one after the other, of which the second is made only if the first
does not fail. -/
theorem Restricts.andThen {P Q : (Var → Bool) → Prop}
    {next : Solver → Solver × Except Failure Unit}
    (hnext : ∀ t, s.Alike t → t.Restricts Q (next t)) {r : Solver × Except Failure Unit} :
    s.Restricts P r → s.Restricts (fun a => P a ∧ Q a) (match r with
      | (t, .error failure) => (t, .error failure)
      | (t, .ok ()) => next t) := by
  intro h
  match r, h with
  | (_, .error (.contradiction _)), h => exact fun a ha hpq => h a ha hpq.1
  | (t, .ok ()), ⟨halike, hmodels⟩ =>
    have hnext := hnext t halike
    show s.Restricts _ (next t)
    generalize next t = r' at hnext
    match r', hnext with
    | (_, .error (.contradiction _)), hnext =>
      exact fun a ha hpq => hnext a ((hmodels a).mpr ⟨ha, hpq.1⟩) hpq.2
    | (u, .ok ()), ⟨halike', hmodels'⟩ =>
      exact ⟨halike.trans halike', fun a => by rw [hmodels', hmodels, and_assoc]⟩

/-! ## Values -/

theorem value_setIfInBounds {v : Var} (hv : v < s.varCount) (b : Bool) (w : Var) :
    { s with values := s.values.setIfInBounds v (some b) }.value w =
      if w = v then some b else s.value w := by
  rw [value, Array.getElem?_setIfInBounds]
  by_cases h : v = w
  · subst h
    rw [if_pos rfl, if_pos rfl]
    exact congrArg Option.join (if_pos hv)
  · rw [if_neg h, if_neg (Ne.symm h)]
    rfl

/-- Giving a variable a value rules out the assignments with the other one. -/
theorem restricts_assign {v : Var} (hv : v < s.varCount) (b : Bool) :
    s.Restricts (fun a => a v = b) (s.assign v b) := by
  have old : lookup s.values v = .ok (s.value v) := by
    rw [lookup_eq_ok_iff, value, Array.getElem?_eq_getElem hv]
    rfl
  rw [assign, old]
  dsimp only
  split
  · rename_i hold
    intro a ha hb
    rw [ha.value hold] at hb
    exact Bool.not_ne_self b hb
  · rename_i hold
    refine ⟨⟨Array.size_setIfInBounds, rfl, rfl, rfl⟩, fun a => ?_⟩
    constructor
    · intro ha
      have hb : a v = b := ha.value (by rw [value_setIfInBounds hv, if_pos rfl])
      refine ⟨⟨fun {w x} hx => ?_, ha.row, ha.pool⟩, hb⟩
      by_cases hw : w = v
      · subst hw
        rw [hx, Option.some.injEq] at hold
        rw [hb, Bool.eq_not_of_ne hold, Bool.not_not]
      · exact ha.value (by rwa [value_setIfInBounds hv, if_neg hw])
    · rintro ⟨ha, hb⟩
      refine ⟨fun {w x} hx => ?_, ha.row, ha.pool⟩
      rw [value_setIfInBounds hv] at hx
      split at hx
      · rename_i hw
        cases hx
        rwa [hw]
      · exact ha.value hx

theorem restricts_assignAll {units : List (Var × Bool)} (hu : ∀ u ∈ units, u.1 < s.varCount) :
    s.Restricts (fun a => ∀ u ∈ units, a u.1 = u.2) (s.assignAll units) := by
  induction units generalizing s with
  | nil => exact ⟨⟨rfl, rfl, rfl, rfl⟩, fun a => ⟨fun ha => ⟨ha, nofun⟩, And.left⟩⟩
  | cons u units ih =>
    obtain ⟨v, b⟩ := u
    obtain ⟨hv, hu⟩ := List.forall_mem_cons.mp hu
    refine Restricts.congr ?_ fun a => List.forall_mem_cons.symm
    exact (restricts_assign hv b).andThen fun t ht => ih (ht.varCount_eq ▸ hu)

/-! ## Constraints -/

/-- Constraints over the variables of the solver can all be added. -/
theorem addAll_eq {cs : List Constraint} (hcs : ∀ c ∈ cs, ∀ v ∈ c.vars, v < s.varCount) :
    s.addAll cs = ({ s with pool := s.pool ++ cs.map Constraint.fresh }, .ok ()) := by
  have known : ∀ c ∈ cs, s.knows c = true := fun c hc =>
    List.all_eq_true.mpr fun v hv => decide_eq_true (hcs c hc v hv)
  have none_unknown : (cs.find? fun c => !s.knows c) = none :=
    List.find?_eq_none.mpr fun c hc => by rw [known c hc]; decide
  rw [addAll, none_unknown, List.takeWhile_eq_self_iff.mpr known]

/-- Constraints that are added have to hold. -/
theorem restricts_addAll {cs : List Constraint} (hcs : ∀ c ∈ cs, ∀ v ∈ c.vars, v < s.varCount) :
    s.Restricts (fun a => ∀ c ∈ cs, c.Holds a) (s.addAll cs) := by
  rw [addAll_eq hcs]
  refine ⟨⟨rfl, rfl, rfl, rfl⟩, fun a => ?_⟩
  have fresh : (∀ c ∈ cs.map Constraint.fresh, c.Holds a) ↔ ∀ c ∈ cs, c.Holds a :=
    List.forall_mem_map
  constructor
  · intro ha
    obtain ⟨hpool, hadded⟩ := List.forall_mem_append.mp ha.pool
    exact ⟨⟨ha.value, ha.row, hpool⟩, fresh.mp hadded⟩
  · rintro ⟨ha, hadded⟩
    exact ⟨ha.value, ha.row, List.forall_mem_append.mpr ⟨ha.pool, fresh.mpr hadded⟩⟩

/-- Putting a problem into a solver with its variables leaves those assignments of
which it holds. -/
theorem restricts_load {p : Cnf.Problem} (hp : p.Within) (hs : s.varCount = p.varCount) :
    s.Restricts p.Holds (s.load p) := by
  have both : s.Restricts (fun a => (∀ u ∈ p.units, a u.1 = u.2) ∧ ∀ c ∈ p.constraints, c.Holds a)
      (s.load p) := by
    refine (restricts_assignAll (hs ▸ hp.unit)).andThen fun t ht => restricts_addAll ?_
    rw [ht.varCount_eq, hs]
    exact hp.parity
  exact both.congr fun a => ⟨fun h => ⟨h.1, h.2⟩, fun h => ⟨h.unit, h.parity⟩⟩

/-! ## Searches -/

theorem models_new {n : Nat} (settings : Settings) (a : Var → Bool) :
    (Solver.new n settings).Models a where
  value h := by
    rw [value, Solver.new, Array.getElem?_replicate] at h
    split at h <;> cases h
  row := nofun
  pool := nofun

end Solver

/-- A search in the first numbering keeps which assignments are possible. -/
theorem Search.Concludes.tells_models {s t : Solver} {elapsed : Duration}
    {outcome : Except Failure Report} (h : Search.Concludes s elapsed t outcome)
    (hs : s.WellFormed) (hm : s.matrices = []) {n : Nat} (hn : s.numbering = .identity n)
    (a : Var → Bool) : Tells (s.Models a) (t.Models a) outcome := by
  have plain : s.numbering.Plain (n % Var.modulus) := hn ▸ Numbering.plain_identity n
  have tells := fun ha => h.tells (a := a) hs hm ha
  match outcome with
  | .error (.contradiction _) =>
    exact fun ha => tells (Solver.admits_plain plain ha.value) ha.pool
  | .error (.fault _) => cases h
  | .ok report =>
    have value : t.value = s.value := by
      funext v
      rw [Solver.value, h.values_eq, Solver.value]
    constructor
    · intro ha
      obtain ⟨hpool, hrow⟩ := (tells (Solver.admits_plain plain ha.value)).mp ha.pool
      exact ⟨fun h => ha.value (value ▸ h), fun {m} => hrow m, hpool⟩
    · intro ha
      have hvalue : ∀ {v b}, s.value v = some b → a v = b := fun h => ha.value (value ▸ h)
      refine ⟨hvalue, fun hmem => ?_, ?_⟩
      · rw [hm] at hmem
        cases hmem
      · exact (tells (Solver.admits_plain plain hvalue)).mpr ⟨ha.pool, fun _ => ha.row⟩

namespace Session

/-- The assignments that satisfy a file are those that agree with the values, the
matrices and the pool after a search of what the file says. If loading the file or the
search ends in a contradiction then no assignment satisfies it, and neither faults. -/
theorem find_of_file {bytes : ByteArray} {p : Cnf.Problem}
    (h : Cnf.Problem.ofBytes bytes = .ok p) (hn : p.varCount < Var.modulus) (settings : Settings)
    (timings : Option Timings) (outputs : List Output) (elapsed : Duration) (b : Nat → Bool) :
    match (Solver.new p.varCount settings).load p with
    | (_, .error (.contradiction _)) => ¬ Cnf.SatisfiesFile b bytes
    | (_, .error (.fault _)) => False
    | (s, .ok ()) =>
      match Session.find ⟨s, timings, outputs⟩ elapsed with
      | (_, .error (.contradiction _)) => ¬ Cnf.SatisfiesFile b bytes
      | (_, .error (.fault _)) => False
      | (t, .ok _) => Cnf.SatisfiesFile b bytes ↔ t.solver.Models (Cnf.fromZero b) := by
  obtain ⟨hsat, hwithin⟩ := Cnf.Problem.ofLines_spec h hn b
  rw [Cnf.SatisfiesFile, hsat]
  have wellFormed := (Solver.WellFormed.new settings hn).load p
  have restricts := Solver.restricts_load hwithin
    (s := Solver.new p.varCount settings) Array.size_replicate
  generalize (Solver.new p.varCount settings).load p = r at restricts wellFormed
  match r, restricts with
  | (_, .error (.contradiction _)), restricts =>
    exact fun hp => restricts _ (Solver.models_new settings _) hp
  | (s, .ok ()), ⟨alike, models⟩ =>
    have models : s.Models (Cnf.fromZero b) ↔ p.Holds (Cnf.fromZero b) :=
      (models _).trans (and_iff_right (Solver.models_new settings _))
    have found := (concludes_find (s := ⟨s, timings, outputs⟩) wellFormed alike.consistent_eq
      alike.matrices_eq elapsed).tells_models wellFormed alike.matrices_eq alike.numbering_eq
      (Cnf.fromZero b)
    dsimp only
    generalize Session.find ⟨s, timings, outputs⟩ elapsed = r at found
    match r, found with
    | (_, .error (.contradiction _)), found => exact fun hp => found (models.mpr hp)
    | (t, .ok _), found => exact models.symm.trans found

/-- A file with a value and two constraints that share a variable. -/
def sampleFile : ByteArray :=
  "c a file\np cnf 5 4\nx1 -2 3 0\n-2 0\r\n x 3 4 4 -5 0 \n1 2 -3 0\n".toUTF8

/-- What the sample file is read as. -/
def sampleProblem : Cnf.Problem where
  varCount := 5
  constraints := [{ vars := [0, 1, 2], rhs := false }, { vars := [2, 3, 3, 4], rhs := false }]
  units := [(1, false)]
  skippedClauses := 1

theorem ofBytes_sampleFile : Cnf.Problem.ofBytes sampleFile = .ok sampleProblem := by
  have h : ((Cnf.Problem.ofBytes sampleFile).toOption.any fun p => decide (p = sampleProblem)) =
      true := by decide +kernel
  obtain ⟨p, hok, h⟩ := Checked.exists_eq_ok h
  rw [hok, of_decide_eq_true h]

theorem find_of_file_sample :
    Cnf.Problem.ofBytes sampleFile = .ok sampleProblem ∧ sampleProblem.varCount < Var.modulus ∧
      ∃ s t report, (Solver.new sampleProblem.varCount {}).load sampleProblem = (s, .ok ()) ∧
        Session.find ⟨s, none, []⟩ .zero = (t, .ok report) ∧ report.constraintCount = 2 ∧
        ∀ b, Cnf.SatisfiesFile b sampleFile ↔ t.solver.Models (Cnf.fromZero b) := by
  have hn : sampleProblem.varCount < Var.modulus := by decide
  have hload : (((Solver.new sampleProblem.varCount {}).load sampleProblem).2.toOption.any
      fun _ => true) = true := by decide +kernel
  have hfind : ((Session.find ⟨((Solver.new sampleProblem.varCount {}).load sampleProblem).1,
      none, []⟩ .zero).2.toOption.any fun report =>
        decide (report.constraintCount = 2)) = true := by decide +kernel
  have hmodels := find_of_file ofBytes_sampleFile hn {} none [] .zero
  generalize (Solver.new sampleProblem.varCount {}).load sampleProblem = loaded at *
  match loaded with
  | (s, .ok ()) =>
    refine ⟨ofBytes_sampleFile, hn, s, ?_⟩
    dsimp only at hfind hmodels
    generalize Session.find ⟨s, none, []⟩ .zero = found at *
    match found with
    | (t, .ok report) => exact ⟨t, report, rfl, rfl, of_decide_eq_true hfind, hmodels⟩

end Session

end ParityBlocks
