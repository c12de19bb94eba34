import ParityBlocks.Proofs.Meaning

/-!
# How the variables of a file are stored

The lines of a file are about literals, whose variables count from 1 and may need more than
32 bits. A problem stores the variable of a literal in 32 bits, counted from 0 (`Cnf.stored`),
and that is all it keeps of the parity lines, the clauses with one literal and the sampling
lines (`Cnf.Problem.ofBytes_stored`). So two literals are stored alike exactly if their
magnitudes differ by a multiple of `Var.modulus`, and a file that declares no more variables
than that has none confused.
-/

namespace ParityBlocks

namespace Cnf

/-- The variable of the literal with this number, as it is stored. -/
def stored (k : Int) : Var := (k.natAbs - 1) % Var.modulus

/-- The constraint of a parity line with these literals. -/
def parityOf (ks : List Int) : Constraint where
  vars := ks.map stored
  rhs := ks.countP (fun k => decide (k < 0)) % 2 == 0

/-- The variable of a clause with one literal, and the value that the clause gives it. -/
def unitOf (k : Int) : Var × Bool := (stored k, decide (0 < k))

/-! ## The literals of lines -/

/-- The integers of a list of literals, without the one that ends the list. -/
def listed (text : List Char) : List Int := ((integers? text).getD []).dropLast

namespace Line

/-- The literals of a line that lists any. -/
def literals? : Line → Option (List Int)
  | .sampling text => some (listed text)
  | .parity text => some (listed text)
  | .clause text => some (listed text)
  | _ => none

def samplingLiterals? : Line → Option (List Int)
  | .sampling text => some (listed text)
  | _ => none

def parityLiterals? : Line → Option (List Int)
  | .parity text => some (listed text)
  | _ => none

/-- The literal of a clause with one. -/
def unitLiteral? : Line → Option Int
  | .clause text =>
    match listed text with
    | [k] => some k
    | _ => none
  | _ => none

end Line

/-- What `read` tells of the lines, of those of which it tells something. -/
def collect {α : Type} (read : Line → Option α) (lines : List (Option (List Char))) : List α :=
  lines.filterMap fun line? => line?.bind fun line => read (.ofTrimmed (Text.trim line))

/-- The literals of the parity lines, the clauses with one literal and the sampling lines. -/
def mentioned (lines : List (Option (List Char))) : List Int :=
  (collect Line.parityLiterals? lines).flatten ++ collect Line.unitLiteral? lines ++
    (collect Line.samplingLiterals? lines).flatten

theorem collect_map {α β : Type} (read : Line → Option α) (f : α → β)
    (lines : List (Option (List Char))) :
    collect (fun kind => (read kind).map f) lines = (collect read lines).map f := by
  simp only [collect, List.map_filterMap, Option.map_bind]
  rfl

theorem listed_of_integers? {text : List Char} {ks : List Int} {k : Int}
    (h : integers? text = some (ks ++ [k])) : listed text = ks := by
  rw [listed, h, Option.getD_some, List.dropLast_concat]

theorem Literal.not_negated_ofInt {k : Int} (hk : k ≠ 0) :
    (!(ofInt k).negated) = decide (0 < k) := by
  rw [ofInt, ← decide_not, decide_eq_decide]
  omega

/-! ## What is stored of a line -/

/-- What a line of this kind says if it is right: the variables of its literals, stored. -/
inductive Stores : Line → Option Statement → Prop
  | blank : Stores .blank none
  | header (digits : List Char) (n : Nat) : Stores (.header digits) (some (.header n))
  | sampling (text : List Char) :
    Stores (.sampling text) (some (.sampling ((listed text).map stored)))
  | comment : Stores .comment none
  | parity (text : List Char) : Stores (.parity text) (some (.parity (parityOf (listed text))))
  | unit {text : List Char} {k : Int} (h : listed text = [k]) :
    Stores (.clause text) (some (.unit (unitOf k).1 (unitOf k).2))
  | longClause {text : List Char} (h : ∀ k, listed text ≠ [k]) :
    Stores (.clause text) (some .longClause)

namespace Statement

variable {declared : Option Nat} {kind : Line} {st? : Option Statement}

/-- What a line with a list of literals says is made of them. -/
theorem make_listed {early : LineError} {text : List Char} {α : Type}
    {make : List Literal → Except LineError α} {a : α}
    (h : literalsAfterHeader declared early text >>= make = .ok a) :
    make ((listed text).map Literal.ofInt) = .ok a ∧
      ∃ m, declared = some m ∧ ∀ k ∈ listed text, k ≠ 0 ∧ k.natAbs ≤ m := by
  obtain ⟨ls, hls, h⟩ := Checked.bind_eq_ok.mp h
  obtain ⟨ks, hks, rfl, m, hm, hall⟩ := exists_of_literalsAfterHeader hls
  rw [listed_of_integers? hks]
  exact ⟨h, m, hm, hall⟩

theorem ofParityLiterals_map (ks : List Int) :
    ofParityLiterals (ks.map Literal.ofInt) = .parity (parityOf ks) := by
  rw [ofParityLiterals, List.map_map, List.countP_map]
  rfl

theorem stores_of_ofLine? (h : ofLine? declared kind = .ok st?) : Stores kind st? := by
  cases kind with
  | blank =>
    cases h
    exact .blank
  | header digits =>
    obtain ⟨-, m, rfl⟩ := exists_of_header h
    exact .header digits m
  | sampling text =>
    obtain ⟨h, -⟩ := make_listed h
    obtain ⟨st, hst, h⟩ := Checked.bind_eq_ok.mp h
    cases h
    unfold ofSamplingLiterals at hst
    split at hst
    · cases hst
    · cases hst
      rw [List.map_map]
      exact .sampling text
  | comment =>
    cases h
    exact .comment
  | parity text =>
    obtain ⟨h, -⟩ := make_listed h
    cases h
    rw [ofParityLiterals_map]
    exact .parity text
  | clause text =>
    obtain ⟨h, m, -, hall⟩ := make_listed h
    obtain ⟨st, hst, h⟩ := Checked.bind_eq_ok.mp h
    cases h
    generalize hlisted : listed text = ks at hst hall
    cases ks with
    | nil => cases hst
    | cons k ks =>
      cases ks with
      | nil =>
        cases hst
        have hzero := (hall k (List.mem_singleton_self k)).1
        rw [Literal.not_negated_ofInt hzero]
        exact .unit hlisted
      | cons k' ks =>
        cases hst
        exact .longClause fun k hk => by cases hlisted.symm.trans hk

/-- The literals that a line lists are those of declared variables. -/
theorem literals_of_ofLine? (h : ofLine? declared kind = .ok st?) :
    ∀ ks ∈ kind.literals?, ∃ m, declared = some m ∧ ∀ k ∈ ks, k ≠ 0 ∧ k.natAbs ≤ m := by
  cases kind with
  | blank => exact fun _ hks => nomatch hks
  | header digits => exact fun _ hks => nomatch hks
  | comment => exact fun _ hks => nomatch hks
  | sampling text =>
    rintro _ ⟨⟩
    exact (make_listed h).2
  | parity text =>
    rintro _ ⟨⟩
    exact (make_listed h).2
  | clause text =>
    rintro _ ⟨⟩
    exact (make_listed h).2

end Statement

/-! ## What is stored of lines -/

section Lines

variable {number : Nat} {declared : Option Nat} {lines : List (Option (List Char))}
  {sts : List Statement}

/-- What statements are about is what the kinds of their lines tell. -/
theorem filterMap_of_readLines {α : Type} {said : Statement → Option α} {read : Line → Option α}
    (hread : ∀ {kind st?}, Stores kind st? → st?.bind said = read kind)
    (h : readLines number declared lines = .ok sts) : sts.filterMap said = collect read lines := by
  induction lines generalizing number declared sts with
  | nil =>
    cases h
    rfl
  | cons line? lines ih =>
    obtain ⟨line, st?, rest, rfl, hst, hrest, rfl⟩ := exists_of_readLines_cons h
    rw [List.filterMap_append, ih hrest]
    have first := hread (Statement.stores_of_ofLine? hst)
    have split : collect read (some line :: lines) =
        (st?.bind said).toList ++ collect read lines := by
      rw [collect, List.filterMap_cons, Option.bind_some, ← first]
      cases st?.bind said <;> rfl
    rw [split]
    cases st? with
    | none => rfl
    | some st =>
      rw [Option.toList_some, List.filterMap_cons, Option.bind_some]
      cases said st <;> rfl

/-- The literals that lines list are those of `n` variables, where `n` is the only number
that is declared. -/
theorem literals_of_readLines {n : Nat} (h : readLines number declared lines = .ok sts)
    (hd : ∀ m, declared = some m ∨ .header m ∈ sts → m = n) :
    ∀ ks ∈ collect Line.literals? lines, ∀ k ∈ ks, k ≠ 0 ∧ k.natAbs ≤ n := by
  induction lines generalizing number declared sts with
  | nil => exact fun _ hks => nomatch hks
  | cons line? lines ih =>
    obtain ⟨line, st?, rest, rfl, hst, hrest, rfl⟩ := exists_of_readLines_cons h
    obtain ⟨hd, hd'⟩ := declares_cons hd
    intro ks hks
    obtain ⟨line', hmem, hks⟩ := List.mem_filterMap.mp hks
    rcases List.mem_cons.mp hmem with rfl | hmem
    · obtain ⟨m, hm, hall⟩ := Statement.literals_of_ofLine? hst ks hks
      exact hd m hm ▸ hall
    · exact ih hrest hd' ks (List.mem_filterMap.mpr ⟨line', hmem, hks⟩)

/-- The literals of parity lines, clauses with one literal and sampling lines are listed. -/
theorem exists_of_mem_mentioned {k : Int} (h : k ∈ mentioned lines) :
    ∃ ks ∈ collect Line.literals? lines, k ∈ ks := by
  have each : ∀ {α : Type} {read : Line → Option α} {a : α},
      (∀ kind, read kind = some a → ∃ ks, kind.literals? = some ks ∧ k ∈ ks) →
      a ∈ collect read lines → ∃ ks ∈ collect Line.literals? lines, k ∈ ks := by
    intro α read a hread ha
    obtain ⟨line?, hline, ha⟩ := List.mem_filterMap.mp ha
    obtain ⟨line, rfl, ha⟩ := Option.bind_eq_some_iff.mp ha
    obtain ⟨ks, hks, hk⟩ := hread _ ha
    exact ⟨ks, List.mem_filterMap.mpr ⟨some line, hline, hks⟩, hk⟩
  simp only [mentioned, List.mem_append, List.mem_flatten] at h
  rcases h with (⟨ks, hks, hk⟩ | hk) | ⟨ks, hks, hk⟩
  · refine each (fun kind h => ⟨ks, ?_, hk⟩) hks
    unfold Line.parityLiterals? at h
    split at h
    · exact h
    · cases h
  · refine each (fun kind h => ?_) hk
    unfold Line.unitLiteral? at h
    split at h
    · split at h
      · rename_i hlisted
        cases h
        exact ⟨_, rfl, by rw [hlisted]; exact List.mem_singleton_self k⟩
      · cases h
    · cases h
  · refine each (fun kind h => ⟨ks, ?_, hk⟩) hks
    unfold Line.samplingLiterals? at h
    split at h
    · exact h
    · cases h

end Lines

/-! ## Files -/

theorem stored_eq_iff {k : Int} (hk : k ≠ 0) :
    stored k = k.natAbs - 1 ↔ k.natAbs ≤ Var.modulus := by
  have hpos := Int.natAbs_pos.mpr hk
  show (k.natAbs - 1) % 4294967296 = k.natAbs - 1 ↔ k.natAbs ≤ 4294967296
  omega

theorem stored_eq_stored_iff {k m : Int} (hk : k ≠ 0) (hm : m ≠ 0) :
    stored k = stored m ↔ k.natAbs % Var.modulus = m.natAbs % Var.modulus := by
  have hpos := Int.natAbs_pos.mpr hk
  have hpos' := Int.natAbs_pos.mpr hm
  show (k.natAbs - 1) % 4294967296 = (m.natAbs - 1) % 4294967296 ↔
    k.natAbs % 4294967296 = m.natAbs % 4294967296
  omega

namespace Problem

variable {bytes : ByteArray} {p : Problem}

/-- A problem is what its file's parity lines, clauses with one literal and sampling lines
store. Each variable is the number of its literal from 0 on exactly if the magnitude is at
most `Var.modulus`, as it is if no more variables are declared, and literals are stored alike
exactly if their magnitudes are the same modulo that. -/
theorem ofBytes_stored (h : ofBytes bytes = .ok p) :
    let lines := (Text.linesOf 10 13 bytes.toList).map decodeLine
    p.constraints = (collect Line.parityLiterals? lines).map parityOf ∧
      p.units = (collect Line.unitLiteral? lines).map unitOf ∧
      p.sampling = (if collect Line.samplingLiterals? lines = [] then none
        else some ((collect Line.samplingLiterals? lines).flatten.map stored)) ∧
      ∀ k ∈ mentioned lines,
        (stored k = k.natAbs - 1 ↔ k.natAbs ≤ Var.modulus) ∧
        (p.varCount ≤ Var.modulus → stored k = k.natAbs - 1) ∧
        ∀ m ∈ mentioned lines,
          stored k = stored m ↔ k.natAbs % Var.modulus = m.natAbs % Var.modulus := by
  intro lines
  obtain ⟨sts, hsts, hp, hd⟩ := exists_of_ofLines h
  have constraints :
      p.constraints = collect (fun kind => kind.parityLiterals?.map parityOf) lines := by
    rw [hp]
    refine filterMap_of_readLines (fun hst => ?_) hsts
    cases hst <;> rfl
  have units : p.units = collect (fun kind => kind.unitLiteral?.map unitOf) lines := by
    rw [hp]
    refine filterMap_of_readLines (fun hst => ?_) hsts
    cases hst with
    | unit h => simp [Line.unitLiteral?, h]
    | longClause h =>
      rw [Line.unitLiteral?]
      split
      · exact absurd ‹_› (h _)
      · rfl
    | _ => rfl
  have sampling : samplingLists sts =
      collect (fun kind => kind.samplingLiterals?.map (·.map stored)) lines := by
    refine filterMap_of_readLines (fun hst => ?_) hsts
    cases hst <;> rfl
  have bounded : ∀ k ∈ mentioned lines, k ≠ 0 ∧ k.natAbs ≤ p.varCount := by
    intro k hk
    obtain ⟨ks, hks, hk⟩ := exists_of_mem_mentioned hk
    exact literals_of_readLines hsts hd ks hks k hk
  rw [collect_map] at constraints units sampling
  refine ⟨constraints, units, ?_, fun k hk => ?_⟩
  · rw [hp]
    simp only [ofStatements]
    rw [sampling]
    cases collect Line.samplingLiterals? lines with
    | nil => rfl
    | cons ks lists => simp [List.map_flatten]
  · obtain ⟨hzero, hle⟩ := bounded k hk
    exact ⟨stored_eq_iff hzero, fun hcount => (stored_eq_iff hzero).mpr (Nat.le_trans hle hcount),
      fun m hm => stored_eq_stored_iff hzero (bounded m hm).1⟩

/-- A file about the last variable that is stored as itself. -/
def boundaryFile : ByteArray :=
  "p cnf 4294967296 2\nx1 -4294967296 0\n-2 0\nc ind 3 0\n".toUTF8

/-- What the file is read as. -/
def boundaryProblem : Problem where
  varCount := 4294967296
  constraints := [{ vars := [0, 4294967295], rhs := false }]
  units := [(1, false)]
  sampling := some [2]

theorem ofBytes_boundaryFile : ofBytes boundaryFile = .ok boundaryProblem := by
  have h : ((ofBytes boundaryFile).toOption.any fun p => decide (p = boundaryProblem)) = true := by
    decide +kernel
  obtain ⟨p, hok, h⟩ := Checked.exists_eq_ok h
  rw [hok, of_decide_eq_true h]

theorem ofBytes_stored_sample :
    let lines := (Text.linesOf 10 13 boundaryFile.toList).map decodeLine
    ofBytes boundaryFile = .ok boundaryProblem ∧ -4294967296 ∈ mentioned lines ∧
      3 ∈ mentioned lines ∧ boundaryProblem.units = (collect Line.unitLiteral? lines).map unitOf ∧
      stored (-4294967296) = 4294967295 ∧ stored (-4294967296) ≠ stored 3 := by
  intro lines
  have hlast : -4294967296 ∈ mentioned lines := by decide +kernel
  have hthree : 3 ∈ mentioned lines := by decide +kernel
  obtain ⟨-, units, -, stored⟩ := ofBytes_stored ofBytes_boundaryFile
  obtain ⟨-, exact, alike⟩ := stored _ hlast
  exact ⟨ofBytes_boundaryFile, hlast, hthree, units, exact (by decide),
    fun h => absurd ((alike 3 hthree).mp h) (by decide)⟩

/-- A file about two variables, one of them too large to be stored as itself. -/
def confusingFile : ByteArray := "p cnf 4294967297 1\nx1 4294967297 0\n".toUTF8

/-- What the file is read as. -/
def confusingProblem : Problem where
  varCount := 4294967297
  constraints := [{ vars := [0, 0], rhs := true }]

/-- Two variables of a file that can be read are stored as one. -/
theorem ofBytes_confuses_variables :
    let lines := (Text.linesOf 10 13 confusingFile.toList).map decodeLine
    ofBytes confusingFile = .ok confusingProblem ∧
      collect Line.parityLiterals? lines = [[1, 4294967297]] ∧
      confusingProblem.constraints.map Constraint.vars = [[0, 0]] := by
  have h : ((ofBytes confusingFile).toOption.any fun p => decide (p = confusingProblem)) =
      true := by decide +kernel
  obtain ⟨p, hok, h⟩ := Checked.exists_eq_ok h
  rw [hok, of_decide_eq_true h]
  exact ⟨rfl, by decide +kernel, rfl⟩

end Problem

end Cnf

end ParityBlocks
