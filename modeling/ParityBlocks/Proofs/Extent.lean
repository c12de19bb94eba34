import ParityBlocks.Proofs.Ascending
import ParityBlocks.Proofs.Loading

/-!
# Problems that are too large

A file declares how many variables it has, in 64 bits, while variables are stored in 32
and a table has no more than `tableBytes` bytes. A problem that is put into a new session
and searched there (`Session.solve`) comes to a fault in three cases (`Session.Overruns`)
and in no others (`Session.solve_faults_iff`):

* there is no room for the table of values;
* cleaning comes to a variable without an entry in the tables of the numbering, which
  end at the number of variables modulo `Var.modulus` (`Cnf.Problem.Outgrows`);
* blocks are looked for, and there is no room for the table of components.

None of them is possible below `Var.modulus` variables (`Session.solve_ne_fault`).
-/

namespace ParityBlocks

/-! ## Going through a list -/

/-- From the start of the list, past members with `Q`, one comes to a member with `P`. -/
def Reaches {α : Type} (Q P : α → Prop) (xs : List α) : Prop :=
  ∃ before x after, xs = before ++ x :: after ∧ (∀ y ∈ before, Q y) ∧ P x

section Reaches

variable {α β : Type} {Q P : α → Prop}

theorem not_reaches_nil : ¬ Reaches Q P [] := by
  rintro ⟨before, x, after, h, -⟩
  cases before <;> cases h

theorem reaches_cons {x : α} {xs : List α} :
    Reaches Q P (x :: xs) ↔ P x ∨ (Q x ∧ Reaches Q P xs) := by
  constructor
  · rintro ⟨before, y, after, h, hq, hp⟩
    cases before with
    | nil =>
      cases h
      exact .inl hp
    | cons z before =>
      cases h
      obtain ⟨hz, hq⟩ := List.forall_mem_cons.mp hq
      exact .inr ⟨hz, before, y, after, rfl, hq, hp⟩
  · rintro (hp | ⟨hx, before, y, after, rfl, hq, hp⟩)
    · exact ⟨[], x, xs, rfl, nofun, hp⟩
    · exact ⟨x :: before, y, after, rfl, List.forall_mem_cons.mpr ⟨hx, hq⟩, hp⟩

/-- What is asked of the members on the way matters only where the goal is not reached. -/
theorem reaches_map_iff {f : α → β} {Q' P' : β → Prop} {xs : List α}
    (hp : ∀ x ∈ xs, P' (f x) ↔ P x) (hq : ∀ x ∈ xs, ¬ P x → (Q' (f x) ↔ Q x)) :
    Reaches Q' P' (xs.map f) ↔ Reaches Q P xs := by
  induction xs with
  | nil => exact iff_of_false not_reaches_nil not_reaches_nil
  | cons x xs ih =>
    obtain ⟨hpx, hp⟩ := List.forall_mem_cons.mp hp
    obtain ⟨hqx, hq⟩ := List.forall_mem_cons.mp hq
    rw [List.map_cons, reaches_cons, reaches_cons, hpx, ih hp hq]
    by_cases h : P x
    · exact iff_of_true (.inl h) (.inl h)
    · rw [hqx h]

end Reaches

/-! ## Constraints that can hold -/

theorem parity_update {v : Var} {ws : List Var} (h : v ∉ ws) (a : Var → Bool) (b : Bool) :
    parity (Function.update a v b) ws = parity a ws := by
  induction ws with
  | nil => rfl
  | cons w ws ih =>
    obtain ⟨hw, hws⟩ := not_or.mp (List.mem_cons.not.mp h)
    rw [parity_cons, parity_cons, ih hws, Function.update_of_ne (Ne.symm hw)]

/-- An ascending constraint that is not `0 = 1` comes to hold by changing the value of
one of its variables. -/
theorem Constraint.exists_holds {c : Constraint} (hv : c.vars.Pairwise (· < ·))
    (h : c.isAbsurd = false) (a : Var → Bool) : ∃ b, c.Holds b ∧ ∀ v ∉ c.vars, b v = a v := by
  obtain ⟨vars, rhs, cancelled, placement⟩ := c
  cases vars with
  | nil => exact ⟨a, holds_of_isTrivial rfl h a, fun _ _ => rfl⟩
  | cons v vs =>
    have hmem : v ∉ vs := fun hmem => Nat.lt_irrefl v ((List.pairwise_cons.mp hv).1 v hmem)
    refine ⟨Function.update a v (rhs ^^ parity a vs), ?_, fun w hw => ?_⟩
    · rw [Holds, parity_cons, parity_update hmem, Function.update_self, Bool.xor_assoc,
        Bool.xor_self, Bool.xor_false]
    · exact Function.update_of_ne (List.ne_of_not_mem_cons hw) _ _

namespace Solver

variable {s : Solver}

/-- In a plain numbering a constraint reduces to something else than `0 = 1` exactly if
all its variables have an entry and it can hold together with the values. -/
theorem exists_reduce_iff {size : Nat} (hn : s.numbering.Plain size) (hs : size ≤ s.varCount)
    {c : Constraint} :
    (∃ c', s.reduce c = .ok c' ∧ c'.isAbsurd = false) ↔
      (∀ v ∈ c.vars, v < size) ∧ ∃ a, (∀ v b, s.value v = some b → a v = b) ∧ c.Holds a := by
  have admits : ∀ a : Var → Bool, (∀ v b, s.value v = some b → a v = b) → s.Admits a :=
    fun a ha => admits_plain hn (ha _ _)
  constructor
  · rintro ⟨c', hred, habs⟩
    obtain ⟨hlt, hc'⟩ := (reduce_plain hn hs).mp hred
    obtain ⟨a, hholds, hother⟩ := c'.exists_holds (hc' ▸ Ascending.pairwise_oddOf _) habs
      fun v => (s.value v).getD false
    have hvalue : ∀ v b, s.value v = some b → a v = b := by
      intro v b hb
      rw [hother v, hb, Option.getD_some]
      intro hmem
      rw [hc'] at hmem
      have free := (List.mem_filter.mp (Ascending.mem_of_mem_oddOf hmem)).2
      rw [hb] at free
      cases free
    exact ⟨hlt, a, hvalue, (holds_reduce (admits a hvalue) hred).mpr hholds⟩
  · rintro ⟨hlt, a, hvalue, hholds⟩
    have hred := (reduce_plain hn hs).mpr ⟨hlt, rfl⟩
    refine ⟨_, hred, ?_⟩
    by_contra habs
    exact Constraint.not_holds_of_isAbsurd (Bool.not_eq_false _ ▸ habs) a
      ((holds_reduce (admits a hvalue) hred).mp hholds)

theorem reduce_faults_iff {size : Nat} (hn : s.numbering.Plain size) (hs : size ≤ s.varCount)
    {c : Constraint} : (∃ fault, s.reduce c = .error fault) ↔ ∃ v ∈ c.vars, size ≤ v := by
  constructor
  · rintro ⟨fault, h⟩
    by_contra hall
    push Not at hall
    rw [(reduce_plain hn hs).mpr ⟨hall, rfl⟩] at h
    cases h
  · rintro ⟨v, hv, hle⟩
    cases h : s.reduce c with
    | error fault => exact ⟨fault, rfl⟩
    | ok c' => exact absurd (((reduce_plain hn hs).mp h).1 v hv) (Nat.not_lt_of_le hle)

/-! ## Faults of a search -/

/-- Cleaning faults if past constraints with a reduction it comes to one without. -/
theorem reduceAll_faults_iff {cs : List Constraint} :
    (∃ cleaned fault, s.reduceAll cs = (cleaned, .error (.fault fault))) ↔
      Reaches (fun c => ∃ c', s.reduce c = .ok c' ∧ c'.isAbsurd = false)
        (fun c => ∃ fault, s.reduce c = .error fault) cs := by
  induction cs with
  | nil =>
    refine iff_of_false ?_ not_reaches_nil
    rintro ⟨cleaned, fault, h⟩
    cases h
  | cons c cs ih =>
    rw [reaches_cons, ← ih, reduceAll]
    cases hc : s.reduce c with
    | error fault => exact iff_of_true ⟨_, fault, rfl⟩ (.inl ⟨fault, rfl⟩)
    | ok c' =>
      cases habs : c'.isAbsurd with
      | true => simp [habs]
      | false =>
        simp only [habs, Bool.false_eq_true, if_false, reduceCtorEq, exists_false, false_or,
          Except.ok.injEq, exists_eq_left', true_and]
        constructor
        · rintro ⟨cleaned, fault, h⟩
          exact ⟨_, fault, Prod.ext rfl (Prod.ext_iff.mp h).2⟩
        · rintro ⟨cleaned, fault, h⟩
          exact ⟨_, fault, by rw [h]⟩

/-- Combining does not fault. -/
theorem prepare_faults_iff : (∃ fault, s.prepare = .error (.fault fault)) ↔
    ∃ cleaned fault, s.reduceAll s.pool = (cleaned, .error (.fault fault)) := by
  simp only [prepare_eq_error]
  constructor
  · rintro ⟨fault, ⟨cleaned, h⟩ | ⟨cleaned, cs, -, h⟩⟩
    · exact ⟨cleaned, fault, h⟩
    · have spec := combineAll_spec filed_empty cleaned
      rw [h] at spec
      exact spec.elim
  · rintro ⟨cleaned, fault, h⟩
    exact ⟨fault, .inl ⟨cleaned, h⟩⟩

theorem components_eq_error (hn : tableBytes < Partition.entryBytes * s.varCount)
    (cs : List Constraint) : s.components cs = .error .tableTooLarge := by
  rw [components, Partition.build, checkTable, if_pos hn]
  rfl

end Solver

namespace Session

open Search

/-- A search with clear flags faults in cleaning, or for want of room for the components. -/
theorem find_faults_iff {s : Session} (hc : s.solver.consistent = true)
    (hm : s.solver.matrices = []) (hf : s.solver.flags = Array.replicate s.solver.varCount false)
    (elapsed : Duration) :
    (∃ fault, (s.find elapsed).2 = .error (.fault fault)) ↔
      (∃ fault, s.solver.prepare = .error (.fault fault)) ∨
        tableBytes < Partition.entryBytes * s.solver.varCount ∧
          ∃ cs, s.solver.prepare = .ok cs ∧ skipCause? s.solver.settings cs = none := by
  have ends := ends_find hc hm elapsed
  generalize (s.find elapsed).1.solver = t at ends
  generalize (s.find elapsed).2 = outcome at ends
  cases ends with
  | unprepared prepared => simp [prepared]
  | skipped prepared skipCause => simp [prepared, skipCause]
  | faulted prepared skipCause faulty =>
    refine iff_of_true ⟨_, rfl⟩ (.inr ⟨?_, _, prepared, skipCause⟩)
    by_contra hn
    obtain ⟨components, assessed, hcomp, hassess, -⟩ :=
      Solver.exists_divides (Nat.le_of_not_lt hn) hf (Solver.lt_of_prepare prepared)
    rw [hcomp] at faulty
    rcases faulty with ⟨h, -⟩ | ⟨components', h, h'⟩
    · cases h
    · cases h
      rw [hassess] at h'
      cases h'
  | divided prepared skipCause components_eq assess_eq rulings_eq =>
    refine iff_of_false nofun ?_
    rintro (⟨fault, h⟩ | ⟨hn, -⟩)
    · rw [prepared] at h
      cases h
    · rw [Solver.components_eq_error hn] at components_eq
      cases components_eq

end Session

/-! ## Problems in new solvers -/

namespace Cnf.Problem

/-- The assignment gives variables the values that the problem gives them. -/
def Keeps (p : Problem) (a : Var → Bool) : Prop := ∀ u ∈ p.units, a u.1 = u.2

/-- Past constraints that can hold together with the values of the problem, which do not
contradict each other, one comes to a constraint with a variable beyond the tables of the
numbering. -/
def Outgrows (p : Problem) : Prop :=
  (∃ a, p.Keeps a) ∧ Reaches (fun c => ∃ a, p.Keeps a ∧ c.Holds a)
    (fun c => ∃ v ∈ c.vars, p.varCount % Var.modulus ≤ v) p.constraints

end Cnf.Problem

namespace Solver

/-- The solver is a new one with the problem in it, and with nothing else. -/
structure Carries (s : Solver) (p : Cnf.Problem) (settings : Settings) : Prop where
  varCount_eq : s.varCount = p.varCount
  settings_eq : s.settings = settings
  numbering_eq : s.numbering = .identity p.varCount
  flags_eq : s.flags = Array.replicate p.varCount false
  consistent_eq : s.consistent = true
  matrices_eq : s.matrices = []
  pool_eq : s.pool = p.constraints.map Constraint.fresh
  keeps_iff (a : Var → Bool) : (∀ v b, s.value v = some b → a v = b) ↔ p.Keeps a

/-- Giving values changes nothing but the values. -/
theorem exists_values_of_assignAll {s t : Solver} {units : List (Var × Bool)}
    (h : s.assignAll units = (t, .ok ())) : ∃ values, t = { s with values := values } := by
  induction units generalizing s with
  | nil =>
    cases h
    exact ⟨_, rfl⟩
  | cons u units ih =>
    obtain ⟨v, b⟩ := u
    rw [assignAll, assign] at h
    cases hold : lookup s.values v with
    | error fault =>
      simp only [hold] at h
      cases h
    | ok old =>
      simp only [hold] at h
      split at h
      · cases h
      · rename_i hassign
        split at hassign <;> cases hassign
        obtain ⟨values, rfl⟩ := ih h
        exact ⟨values, rfl⟩

/-- A problem goes into a new solver, unless its values contradict each other. -/
theorem carries_load_new {p : Cnf.Problem} (hp : p.Within) (settings : Settings) :
    match (Solver.new p.varCount settings).load p with
    | (_, .error (.contradiction _)) => ∀ a, ¬ p.Keeps a
    | (_, .error (.fault _)) => False
    | (s, .ok ()) => s.Carries p settings := by
  have size : (Solver.new p.varCount settings).varCount = p.varCount := Array.size_replicate
  have restricts := restricts_assignAll (s := Solver.new p.varCount settings) (size ▸ hp.unit)
  have values : ∀ t, (Solver.new p.varCount settings).assignAll p.units = (t, .ok ()) →
      ∃ values, t = { Solver.new p.varCount settings with values := values } :=
    fun t => exists_values_of_assignAll
  rw [load]
  generalize (Solver.new p.varCount settings).assignAll p.units = r at restricts values
  obtain ⟨t, outcome⟩ := r
  cases outcome with
  | error failure =>
    cases failure with
    | contradiction c => exact fun a => restricts a (models_new settings a)
    | fault f => exact restricts
  | ok u =>
    obtain ⟨alike, models⟩ := restricts
    obtain ⟨values, rfl⟩ := values t rfl
    dsimp only
    rw [addAll_eq (alike.varCount_eq.trans size ▸ hp.parity)]
    refine ⟨alike.varCount_eq.trans size, rfl, rfl, rfl, rfl, rfl, rfl, fun a => ?_⟩
    refine Iff.trans ⟨fun h => ⟨h _ _, fun hm => ?_, fun _ hc => ?_⟩, fun h v b => h.value⟩
      ((models a).trans (and_iff_right (models_new settings a)))
    · exact absurd hm List.not_mem_nil
    · exact absurd hc List.not_mem_nil

namespace Carries

variable {s : Solver} {p : Cnf.Problem} {settings : Settings}

theorem exists_keeps (h : s.Carries p settings) : ∃ a, p.Keeps a :=
  ⟨fun v => (s.value v).getD false, (h.keeps_iff _).mp fun v b hb => by rw [hb, Option.getD_some]⟩

/-- Preparing the constraints of a problem faults exactly if they outgrow the numbering. -/
theorem prepare_faults_iff (h : s.Carries p settings) :
    (∃ fault, s.prepare = .error (.fault fault)) ↔ p.Outgrows := by
  have plain : s.numbering.Plain (p.varCount % Var.modulus) :=
    h.numbering_eq ▸ Numbering.plain_identity p.varCount
  have size : p.varCount % Var.modulus ≤ s.varCount := h.varCount_eq ▸ Nat.mod_le _ _
  rw [Solver.prepare_faults_iff, reduceAll_faults_iff, h.pool_eq, Cnf.Problem.Outgrows,
    and_iff_right h.exists_keeps]
  refine reaches_map_iff (fun c _ => reduce_faults_iff plain size) fun c _ hc => ?_
  have inside : ∀ v ∈ c.fresh.vars, v < p.varCount % Var.modulus := fun v hv =>
    Nat.lt_of_not_le fun hle => hc ⟨v, hv, hle⟩
  rw [exists_reduce_iff plain size, and_iff_right inside]
  exact exists_congr fun a => and_congr_left fun _ => h.keeps_iff a

end Carries

end Solver

namespace Session

/-- Puts a problem into a new session and searches it there, in `elapsed` time, as the
command line tool does. -/
def solve (p : Cnf.Problem) (settings : Settings) (timings : Option Timings)
    (outputs : List Output) (elapsed : Duration) : Except Failure Report := do
  let solver ← (Solver.create p.varCount settings).mapError .fault
  match solver.load p with
  | (_, .error failure) => .error failure
  | (solver, .ok ()) => (find ⟨solver, timings, outputs⟩ elapsed).2

/-- A problem is too large: for its values, for its numbering, or for its components if
blocks are looked for. -/
inductive Overruns (p : Cnf.Problem) (settings : Settings) : Prop
  | values (h : tableBytes < p.varCount)
  | numbering (h : p.Outgrows)
  | components {s : Solver} {cs : List Constraint}
    (loaded : (Solver.new p.varCount settings).load p = (s, .ok ()))
    (prepared : s.prepare = .ok cs) (searched : Search.skipCause? settings cs = none)
    (h : tableBytes < Partition.entryBytes * p.varCount)

section Solve

variable {p : Cnf.Problem} {settings : Settings} {timings : Option Timings}
  {outputs : List Output} {elapsed : Duration}

theorem solve_of_large (h : tableBytes < p.varCount) :
    solve p settings timings outputs elapsed = .error (.fault .tableTooLarge) := by
  rw [solve, Solver.create, checkTable, Nat.one_mul, if_pos h]
  rfl

theorem solve_of_fits (h : p.varCount ≤ tableBytes) :
    solve p settings timings outputs elapsed =
      match (Solver.new p.varCount settings).load p with
      | (_, .error failure) => .error failure
      | (solver, .ok ()) => (find ⟨solver, timings, outputs⟩ elapsed).2 := by
  rw [solve, Solver.create, checkTable_eq_ok_iff.mpr (by rwa [Nat.one_mul])]
  rfl

/-- A problem about its variables only faults exactly if it is too large. -/
theorem solve_faults_iff_of_within (hp : p.Within) :
    (∃ fault, solve p settings timings outputs elapsed = .error (.fault fault)) ↔
      Overruns p settings := by
  by_cases hlarge : tableBytes < p.varCount
  · exact iff_of_true ⟨_, solve_of_large hlarge⟩ (.values hlarge)
  rw [solve_of_fits (Nat.le_of_not_lt hlarge)]
  have carries := Solver.carries_load_new hp settings
  cases hload : (Solver.new p.varCount settings).load p with
  | mk s outcome =>
    rw [hload] at carries
    match outcome, carries with
    | .error (.contradiction c), contradictory =>
      refine iff_of_false nofun fun h => ?_
      cases h with
      | values h => exact hlarge h
      | numbering h => exact h.1.elim contradictory
      | components loaded prepared searched h =>
        rw [hload] at loaded
        cases loaded
    | .ok (), carries =>
      dsimp only
      rw [find_faults_iff carries.consistent_eq carries.matrices_eq
        (carries.varCount_eq.symm ▸ carries.flags_eq), carries.prepare_faults_iff]
      dsimp only
      rw [carries.varCount_eq, carries.settings_eq]
      constructor
      · rintro (h | ⟨h, cs, prepared, searched⟩)
        · exact .numbering h
        · exact .components hload prepared searched h
      · intro h
        cases h with
        | values h => exact absurd h hlarge
        | numbering h => exact .inl h
        | components loaded prepared searched h =>
          rw [hload] at loaded
          cases loaded
          exact .inr ⟨h, _, prepared, searched⟩

/-- No problem of fewer than `Var.modulus` variables comes to a fault. -/
theorem solve_ne_fault (hp : p.Within) (hn : p.varCount < Var.modulus) (fault : Fault) :
    solve p settings timings outputs elapsed ≠ .error (.fault fault) := by
  intro hfault
  have overruns := (solve_faults_iff_of_within hp).mp ⟨fault, hfault⟩
  cases overruns with
  | values h =>
    simp only [Var.modulus, tableBytes] at hn h
    omega
  | numbering h =>
    obtain ⟨-, before, c, after, hc, -, v, hv, hle⟩ := h
    rw [Nat.mod_eq_of_lt hn] at hle
    have hmem : c ∈ p.constraints := hc ▸ List.mem_append_right _ List.mem_cons_self
    exact Nat.not_lt_of_le hle (hp.parity c hmem v hv)
  | components loaded prepared searched h =>
    simp only [Var.modulus, tableBytes, Partition.entryBytes] at hn h
    omega

/-- Searching what a file says comes to a fault exactly if the file declares too many
variables for it. -/
theorem solve_faults_iff {bytes : ByteArray} (h : Cnf.Problem.ofBytes bytes = .ok p) :
    (∃ fault, solve p settings timings outputs elapsed = .error (.fault fault)) ↔
      Overruns p settings :=
  solve_faults_iff_of_within (Cnf.Problem.within_of_ofLines h)

end Solve

/-- A file that declares a variable too many for a table of its numbers. -/
def wideFile : ByteArray := "p cnf 4294967296 1\nx1 2 0\n".toUTF8

/-- What the file is read as. -/
def wideProblem : Cnf.Problem where
  varCount := 4294967296
  constraints := [{ vars := [0, 1], rhs := true }]

theorem ofBytes_wideFile : Cnf.Problem.ofBytes wideFile = .ok wideProblem := by
  have h : ((Cnf.Problem.ofBytes wideFile).toOption.any fun p => decide (p = wideProblem)) =
      true := by decide +kernel
  obtain ⟨p, hok, h⟩ := Checked.exists_eq_ok h
  rw [hok, of_decide_eq_true h]

theorem outgrows_wideProblem : wideProblem.Outgrows :=
  ⟨⟨fun _ => false, nofun⟩, [], _, [], rfl, nofun, 0, List.mem_cons_self, by decide⟩

theorem solve_faults_iff_sample : Cnf.Problem.ofBytes wideFile = .ok wideProblem ∧
    Overruns wideProblem {} ∧
      ∃ fault, solve wideProblem {} none [] .zero = .error (.fault fault) :=
  ⟨ofBytes_wideFile, .numbering outgrows_wideProblem,
    (solve_faults_iff ofBytes_wideFile).mpr (.numbering outgrows_wideProblem)⟩

/-- A file that declares a variable too many for a table of their values. -/
def hugeFile : ByteArray := "p cnf 9223372036854775808 1\nx1 2 0\n".toUTF8

/-- What the file is read as. -/
def hugeProblem : Cnf.Problem := { wideProblem with varCount := 9223372036854775808 }

theorem ofBytes_hugeFile : Cnf.Problem.ofBytes hugeFile = .ok hugeProblem := by
  have h : ((Cnf.Problem.ofBytes hugeFile).toOption.any fun p => decide (p = hugeProblem)) =
      true := by decide +kernel
  obtain ⟨p, hok, h⟩ := Checked.exists_eq_ok h
  rw [hok, of_decide_eq_true h]

/-- Two files that can be read, and come to a fault when they are searched. -/
theorem solve_faults_on_declared_counts :
    (Cnf.Problem.ofBytes wideFile = .ok wideProblem ∧
      ∃ fault, solve wideProblem { sampling := wideProblem.sampling } none [] .zero =
        .error (.fault fault)) ∧
    (Cnf.Problem.ofBytes hugeFile = .ok hugeProblem ∧
      solve hugeProblem { sampling := hugeProblem.sampling } none [] .zero =
        .error (.fault .tableTooLarge)) := by
  have within : wideProblem.Within := Cnf.Problem.within_of_ofLines ofBytes_wideFile
  exact ⟨⟨ofBytes_wideFile,
      (solve_faults_iff_of_within within).mpr (.numbering outgrows_wideProblem)⟩,
    ofBytes_hugeFile, solve_of_large (by decide)⟩

end Session

end ParityBlocks
