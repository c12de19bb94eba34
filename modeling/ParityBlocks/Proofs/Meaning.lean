import ParityBlocks.Cnf.Problem
import ParityBlocks.Proofs.Layout
import ParityBlocks.Proofs.Numerals
import ParityBlocks.Proofs.Parity

/-!
# What a file says

The meaning of a file is told from its lines, without the problem that it is read
as: a line whose words are a number other than 0 and a 0 is a clause with one
literal, and a line that starts with `x` asks for an odd number of true literals
(`Cnf.Permits`). An assignment satisfies a file if every line permits it
(`Cnf.Satisfies`).

Reading keeps this meaning: a list of literals is the integers of its words up to
the final 0 (`Cnf.exists_of_literalsOf`), what a line says holds of an assignment if
the line permits it (`Cnf.Statement.permits_iff_of_ofLine?`), and so does a whole file
(`Cnf.Problem.ofLines_spec`). That needs numbers that fit a variable; that a problem is
about declared variables only does not (`Cnf.Problem.within_of_ofLines`).
-/

namespace ParityBlocks

namespace Cnf

/-! ## The meaning of lines -/

/-- The integers that the words of a text stand for, if all of them are numerals. -/
def integers? (text : List Char) : Option (List Int) := (Text.words text).mapM Text.integer?

/-- The value of the literal with this number, where variables count from 1. -/
def literalValue (b : Nat → Bool) (k : Int) : Bool := b k.natAbs ^^ decide (k < 0)

/-- The sum modulo two of the values of literals. -/
def literalSum (b : Nat → Bool) (ks : List Int) : Bool :=
  ks.foldr (fun k p => literalValue b k ^^ p) false

/-- The line is the clause with just the literal `k`. -/
def IsUnit (line : List Char) (k : Int) : Prop := k ≠ 0 ∧ integers? (Text.trim line) = some [k, 0]

/-- The line asks that an odd number of the literals `ks` is true. -/
def IsParity (line : List Char) (ks : List Int) : Prop :=
  0 ∉ ks ∧ ∃ text, Text.trim line = 'x' :: text ∧ integers? text = some (ks ++ [0])

/-- The assignment makes the literal of the line true if it is a clause with one literal,
and the sum of its literals if it is a parity line. -/
structure Permits (b : Nat → Bool) (line : List Char) : Prop where
  unit {k : Int} : IsUnit line k → literalValue b k = true
  parity {ks : List Int} : IsParity line ks → literalSum b ks = true

/-- Every line of a file permits the assignment of its variables, which count from 1. A
line that is missing is not encoded as UTF-8. -/
def Satisfies (b : Nat → Bool) (lines : List (Option (List Char))) : Prop :=
  ∀ line, some line ∈ lines → Permits b line

/-- The assignment for variables that count from 0. -/
def fromZero (b : Nat → Bool) (v : Var) : Bool := b (v + 1)

/-! ## Literals -/

/-- A list of literals is the integers of its words, up to the 0 at the end. -/
theorem exists_of_literalsOf {declared : Nat} {text : List Char} {ls : List Literal}
    (h : literalsOf declared text = .ok ls) :
    ∃ ks, integers? text = some (ks ++ [0]) ∧ ls = ks.map Literal.ofInt ∧
      ∀ k ∈ ks, k ≠ 0 ∧ k.natAbs ≤ declared := by
  obtain ⟨ks, hks, hls, hall⟩ := exists_of_readLiterals h
  exact ⟨ks, hks, hls, fun k hk => ⟨(hall k hk).1, (hall k hk).2.1⟩⟩

section Literal

variable {b : Nat → Bool} {n : Nat}

theorem Literal.var_ofInt (hn : n ≤ Var.modulus) {k : Int} (hk : k ≠ 0 ∧ k.natAbs ≤ n) :
    (ofInt k).var + 1 = k.natAbs := by
  have hpos : 0 < k.natAbs := Int.natAbs_pos.mpr hk.1
  rw [ofInt, Nat.mod_eq_of_lt (by omega)]
  exact Nat.sub_add_cancel hpos

theorem Literal.var_ofInt_lt {k : Int} (hk : k ≠ 0 ∧ k.natAbs ≤ n) : (ofInt k).var < n := by
  have hpos : 0 < k.natAbs := Int.natAbs_pos.mpr hk.1
  calc (ofInt k).var ≤ k.natAbs - 1 := Nat.mod_le _ _
    _ < n := by omega

theorem literalValue_eq (hn : n ≤ Var.modulus) {k : Int} (hk : k ≠ 0 ∧ k.natAbs ≤ n) :
    literalValue b k = (fromZero b (Literal.ofInt k).var ^^ (Literal.ofInt k).negated) := by
  rw [literalValue, fromZero, Literal.var_ofInt hn hk]
  rfl

/-- Every negation turns the sum of the variables over. -/
theorem literalSum_eq (hn : n ≤ Var.modulus) {ks : List Int}
    (hks : ∀ k ∈ ks, k ≠ 0 ∧ k.natAbs ≤ n) :
    literalSum b ks = (parity (fromZero b) ((ks.map Literal.ofInt).map Literal.var) ^^
      (ks.map Literal.ofInt).countP Literal.negated % 2 == 1) := by
  induction ks with
  | nil => rfl
  | cons k ks ih =>
    obtain ⟨hk, hks⟩ := List.forall_mem_cons.mp hks
    have odd : ∀ m : Nat, ((m + 1) % 2 == 1) = !(m % 2 == 1) := by
      intro m
      rcases Nat.mod_two_eq_zero_or_one m with h | h <;> simp [Nat.add_mod, h]
    rw [literalSum, List.foldr_cons, ← literalSum, ih hks, literalValue_eq hn hk, List.map_cons,
      List.map_cons, parity_cons, List.countP_cons]
    cases (Literal.ofInt k).negated with
    | false =>
      rw [Bool.xor_false, ← Bool.xor_assoc]
      rfl
    | true =>
      rw [Bool.xor_true, Bool.not_xor, ← Bool.xor_assoc, ← Bool.xor_not, ← odd]
      rfl

end Literal

/-! ## Kinds of lines -/

namespace Line

/-- How lines of each kind start, and which part of them is to be read. -/
inductive Starts : List Char → Line → Prop
  | blank : Starts [] .blank
  | header {cs : List Char} (h : cs.head? = some 'p') (varCount : List Char) :
    Starts cs (.header varCount)
  | sampling {cs : List Char} (h : cs.head? = some 'c') (literals : List Char) :
    Starts cs (.sampling literals)
  | comment {cs : List Char} (h : cs.head? = some 'c') : Starts cs .comment
  | parity (literals : List Char) : Starts ('x' :: literals) (.parity literals)
  | clause {cs : List Char} (h : cs.head? ≠ some 'x') : Starts cs (.clause cs)

theorem starts_ofTrimmed (cs : List Char) : Starts cs (ofTrimmed cs) := by
  unfold ofTrimmed
  split
  · exact .blank
  · exact .header (head?_of_header? ‹_›) _
  · exact .sampling (head?_of_sampling? ‹_›) _
  · exact .comment rfl
  · exact .parity _
  · rename_i hx _ _
    refine .clause fun h => ?_
    obtain ⟨rest, hrest⟩ := List.head?_eq_some_iff.mp h
    exact hx rest hrest

end Line

section Line

variable {b : Nat → Bool} {line : List Char}

/-- The first word of a text that starts so is no numeral. -/
theorem integers?_eq_none {text : List Char} {c : Char} (h : text.head? = some c)
    (hc : Text.isAsciiBlank c = false ∧ c.isDigit = false ∧ c ≠ '-' ∧ c ≠ '+') :
    integers? text = none := by
  obtain ⟨rest, rfl⟩ := List.head?_eq_some_iff.mp h
  obtain ⟨word, words, hwords⟩ := Text.exists_words_cons hc.1 rest
  rw [integers?, hwords, List.mapM_cons, Text.integer?_cons_eq_none hc.2.1 hc.2.2.1 hc.2.2.2]
  rfl

/-- A line whose first word is no numeral is no clause. -/
theorem not_isUnit_of_head? {c : Char} (h : (Text.trim line).head? = some c)
    (hc : Text.isAsciiBlank c = false ∧ c.isDigit = false ∧ c ≠ '-' ∧ c ≠ '+') (k : Int) :
    ¬ IsUnit line k := by
  rintro ⟨-, hk⟩
  rw [integers?_eq_none h hc] at hk
  cases hk

theorem not_isParity_of_head? (h : (Text.trim line).head? ≠ some 'x') (ks : List Int) :
    ¬ IsParity line ks := by
  rintro ⟨-, text, htext, -⟩
  rw [htext] at h
  exact h rfl

/-- Headers and what starts with `c` permit everything. -/
theorem permits_of_head? {c : Char} (h : (Text.trim line).head? = some c) (hc : c = 'p' ∨ c = 'c') :
    Permits b line := by
  refine ⟨fun hk => absurd hk (not_isUnit_of_head? h ?_ _), fun hks => absurd hks ?_⟩
  · rcases hc with rfl | rfl <;> decide
  · refine not_isParity_of_head? ?_ _
    rw [h]
    rcases hc with rfl | rfl <;> decide

theorem permits_of_blank (h : Text.trim line = []) : Permits b line := by
  refine ⟨fun hk => ?_, fun hks => absurd hks (not_isParity_of_head? (by rw [h]; nofun) _)⟩
  obtain ⟨-, hk⟩ := hk
  rw [h] at hk
  cases hk

/-- A parity line permits the assignments that make the sum of its literals true. -/
theorem permits_parity_iff {text : List Char} {ks : List Int} (h : Text.trim line = 'x' :: text)
    (hks : integers? text = some (ks ++ [0])) (hzero : 0 ∉ ks) :
    Permits b line ↔ literalSum b ks = true := by
  constructor
  · exact fun hp => hp.parity ⟨hzero, text, h, hks⟩
  · intro hsum
    have hx : (Text.trim line).head? = some 'x' := by rw [h]; rfl
    refine ⟨fun hk => absurd hk (not_isUnit_of_head? hx (by decide) _), fun hks' => ?_⟩
    obtain ⟨-, text', htext', hks'⟩ := hks'
    rw [h] at htext'
    cases htext'
    rw [hks] at hks'
    rwa [← List.append_cancel_right (Option.some.inj hks')]

/-- A clause permits the assignments that make its literal true, if it has one only. -/
theorem permits_clause_iff {ks : List Int} (h : (Text.trim line).head? ≠ some 'x')
    (hks : integers? (Text.trim line) = some (ks ++ [0])) (hzero : 0 ∉ ks) :
    Permits b line ↔ ∀ k, ks = [k] → literalValue b k = true := by
  have unit : ∀ k, IsUnit line k ↔ ks = [k] := by
    intro k
    rw [IsUnit, hks, Option.some.injEq]
    constructor
    · exact fun hk => (List.append_left_inj [0]).mp hk.2
    · rintro rfl
      exact ⟨fun hk => hzero (hk ▸ List.mem_singleton_self _), rfl⟩
  constructor
  · exact fun hp k hk => hp.unit ((unit k).mpr hk)
  · intro hall
    exact ⟨fun hk => hall _ ((unit _).mp hk), fun hks => absurd hks (not_isParity_of_head? h _)⟩

end Line

/-! ## Statements -/

namespace Statement

/-- The assignment of variables from 0 does as the statement says. -/
def Holds (a : Var → Bool) : Statement → Prop
  | .unit v value => a v = value
  | .parity c => c.Holds a
  | _ => True

/-- The statement is about variables below `n`. -/
def Within (n : Nat) : Statement → Prop
  | .unit v _ => v < n
  | .parity c => ∀ v ∈ c.vars, v < n
  | _ => True

variable {b : Nat → Bool} {n : Nat} {ks : List Int}

theorem holds_ofParityLiterals (hn : n ≤ Var.modulus) (hks : ∀ k ∈ ks, k ≠ 0 ∧ k.natAbs ≤ n) :
    (ofParityLiterals (ks.map Literal.ofInt)).Holds (fromZero b) ↔ literalSum b ks = true := by
  rw [literalSum_eq hn hks]
  show ParityBlocks.parity _ _ = (_ % 2 == 0) ↔ _
  generalize ParityBlocks.parity (fromZero b) ((ks.map Literal.ofInt).map Literal.var) = p
  generalize (ks.map Literal.ofInt).countP Literal.negated = m
  rcases Nat.mod_two_eq_zero_or_one m with h | h <;> simp [h]

theorem within_ofParityLiterals (hks : ∀ k ∈ ks, k ≠ 0 ∧ k.natAbs ≤ n) :
    (ofParityLiterals (ks.map Literal.ofInt)).Within n := by
  intro v hv
  obtain ⟨l, hl, rfl⟩ := List.mem_map.mp hv
  obtain ⟨k, hk, rfl⟩ := List.mem_map.mp hl
  exact Literal.var_ofInt_lt (hks k hk)

theorem holds_ofClauseLiterals (hn : n ≤ Var.modulus) (hks : ∀ k ∈ ks, k ≠ 0 ∧ k.natAbs ≤ n)
    {st : Statement} (h : ofClauseLiterals (ks.map Literal.ofInt) = .ok st) :
    st.Holds (fromZero b) ↔ ∀ k, ks = [k] → literalValue b k = true := by
  match ks, h with
  | [k], h =>
    cases h
    have hk := hks k (List.mem_singleton_self k)
    simp only [List.cons.injEq, and_true, forall_eq', literalValue_eq hn hk, Holds]
    cases (Literal.ofInt k).negated <;> simp
  | k :: k' :: ks, h =>
    cases h
    exact ⟨fun _ _ h => (nomatch h), fun _ => trivial⟩

theorem within_ofClauseLiterals (hks : ∀ k ∈ ks, k ≠ 0 ∧ k.natAbs ≤ n)
    {st : Statement} (h : ofClauseLiterals (ks.map Literal.ofInt) = .ok st) : st.Within n := by
  match ks, h with
  | [k], h =>
    cases h
    exact Literal.var_ofInt_lt (hks k (List.mem_singleton_self k))
  | k :: k' :: ks, h =>
    cases h
    trivial

theorem exists_of_literalsAfterHeader {declared : Option Nat} {early : LineError}
    {text : List Char} {ls : List Literal} (h : literalsAfterHeader declared early text = .ok ls) :
    ∃ ks, integers? text = some (ks ++ [0]) ∧ ls = ks.map Literal.ofInt ∧
      ∃ m, declared = some m ∧ ∀ k ∈ ks, k ≠ 0 ∧ k.natAbs ≤ m := by
  unfold literalsAfterHeader at h
  split at h
  · cases h
  · rename_i m
    cases hl : literalsOf m text with
    | error e =>
      rw [hl] at h
      cases h
    | ok ls' =>
      rw [hl] at h
      cases h
      obtain ⟨ks, hks, hls, hall⟩ := exists_of_literalsOf hl
      exact ⟨ks, hks, hls, m, rfl, hall⟩

theorem exists_of_header {declared : Option Nat} {digits : List Char} {st? : Option Statement}
    (h : ofLine? declared (.header digits) = .ok st?) :
    declared = none ∧ ∃ m, st? = some (.header m) := by
  simp only [ofLine?] at h
  split at h
  · cases h
  · rename_i hnone
    split at h
    · cases h
    · rename_i m _
      cases h
      exact ⟨Option.not_isSome_iff_eq_none.mp hnone, m, rfl⟩

theorem exists_of_sampling {ls : List Literal} {st : Statement}
    (h : ofSamplingLiterals ls = .ok st) : ∃ vars, st = .sampling vars := by
  unfold ofSamplingLiterals at h
  split at h
  · cases h
  · cases h
    exact ⟨_, rfl⟩

/-- No line says a header if one has been declared. -/
theorem eq_none_of_header {declared : Option Nat} {kind : Line} {m : Nat}
    (h : ofLine? declared kind = .ok (some (.header m))) : declared = none := by
  cases kind with
  | blank => cases h
  | comment => cases h
  | header digits => exact (exists_of_header h).1
  | sampling text =>
    obtain ⟨_, -, h⟩ := Checked.bind_eq_ok.mp h
    obtain ⟨_, hsaid, h⟩ := Checked.bind_eq_ok.mp h
    obtain ⟨_, rfl⟩ := exists_of_sampling hsaid
    cases h
  | parity text =>
    obtain ⟨_, -, h⟩ := Checked.bind_eq_ok.mp h
    cases h
  | clause text =>
    obtain ⟨ls, -, h⟩ := Checked.bind_eq_ok.mp h
    obtain ⟨_, hsaid, h⟩ := Checked.bind_eq_ok.mp h
    unfold ofClauseLiterals at hsaid
    split at hsaid <;> cases hsaid <;> cases h

/-- What a line says is about declared variables. -/
theorem within_of_ofLine? {declared : Option Nat} (hd : ∀ m, declared = some m → m = n)
    {kind : Line} {st? : Option Statement} (h : ofLine? declared kind = .ok st?) :
    ∀ st ∈ st?, st.Within n := by
  cases kind with
  | blank => cases h; nofun
  | comment => cases h; nofun
  | header digits =>
    obtain ⟨-, m, rfl⟩ := exists_of_header h
    rintro _ ⟨⟩
    trivial
  | sampling text =>
    obtain ⟨_, -, h⟩ := Checked.bind_eq_ok.mp h
    obtain ⟨_, hsaid, h⟩ := Checked.bind_eq_ok.mp h
    obtain ⟨_, rfl⟩ := exists_of_sampling hsaid
    cases h
    rintro _ ⟨⟩
    trivial
  | parity text =>
    obtain ⟨ls, hls, h⟩ := Checked.bind_eq_ok.mp h
    obtain ⟨ks, -, rfl, m, hm, hall⟩ := exists_of_literalsAfterHeader hls
    obtain rfl := hd m hm
    cases h
    rintro _ ⟨⟩
    exact within_ofParityLiterals hall
  | clause text =>
    obtain ⟨ls, hls, h⟩ := Checked.bind_eq_ok.mp h
    obtain ⟨said, hsaid, h⟩ := Checked.bind_eq_ok.mp h
    cases h
    obtain ⟨ks, -, rfl, m, hm, hall⟩ := exists_of_literalsAfterHeader hls
    obtain rfl := hd m hm
    rintro _ ⟨⟩
    exact within_ofClauseLiterals hall hsaid

/-- What a line says holds of an assignment exactly if the line permits it. -/
theorem permits_iff_of_ofLine? (hn : n < Var.modulus) {declared : Option Nat}
    (hd : ∀ m, declared = some m → m = n) {line : List Char} {st? : Option Statement}
    (h : ofLine? declared (.ofTrimmed (Text.trim line)) = .ok st?) :
    Permits b line ↔ ∀ st ∈ st?, st.Holds (fromZero b) := by
  have nothing : ∀ {st? : Option Statement}, Permits b line →
      (∀ st ∈ st?, st.Holds (fromZero b)) → (Permits b line ↔ ∀ st ∈ st?, st.Holds (fromZero b)) :=
    fun hp hst => ⟨fun _ => hst, fun _ => hp⟩
  have starts := Line.starts_ofTrimmed (Text.trim line)
  generalize htrim : Text.trim line = cs at starts h
  generalize Line.ofTrimmed cs = kind at starts h
  cases starts with
  | blank =>
    cases h
    exact nothing (permits_of_blank htrim) nofun
  | header hp varCount =>
    refine nothing (permits_of_head? (htrim ▸ hp) (.inl rfl)) fun st hst => ?_
    obtain ⟨-, m, rfl⟩ := exists_of_header h
    cases hst
    trivial
  | sampling hc literals =>
    refine nothing (permits_of_head? (htrim ▸ hc) (.inr rfl)) fun st hst => ?_
    obtain ⟨ls, -, h⟩ := Checked.bind_eq_ok.mp h
    obtain ⟨said, hsaid, h⟩ := Checked.bind_eq_ok.mp h
    cases h
    cases hst
    obtain ⟨_, rfl⟩ := exists_of_sampling hsaid
    trivial
  | comment hc =>
    cases h
    exact nothing (permits_of_head? (htrim ▸ hc) (.inr rfl)) nofun
  | parity literals =>
    obtain ⟨ls, hls, h⟩ := Checked.bind_eq_ok.mp h
    cases h
    obtain ⟨ks, hks, rfl, m, hm, hall⟩ := exists_of_literalsAfterHeader hls
    obtain rfl := hd m hm
    rw [permits_parity_iff htrim hks fun h => (hall 0 h).1 rfl,
      ← holds_ofParityLiterals (Nat.le_of_lt hn) hall]
    simp
  | clause hx =>
    obtain ⟨ls, hls, h⟩ := Checked.bind_eq_ok.mp h
    obtain ⟨said, hsaid, h⟩ := Checked.bind_eq_ok.mp h
    cases h
    obtain ⟨ks, hks, rfl, m, hm, hall⟩ := exists_of_literalsAfterHeader hls
    obtain rfl := hd m hm
    rw [permits_clause_iff (htrim ▸ hx) (htrim ▸ hks) fun h => (hall 0 h).1 rfl,
      ← holds_ofClauseLiterals (Nat.le_of_lt hn) hall hsaid]
    simp

end Statement

/-! ## Files -/

section Reading

variable {number : Nat} {declared : Option Nat} {lines : List (Option (List Char))}
  {sts : List Statement}

/-- What the lines of a file say is what the first says, if anything, before the rest. -/
theorem exists_of_readLines_cons {line? : Option (List Char)}
    (h : readLines number declared (line? :: lines) = .ok sts) :
    ∃ line st? rest, line? = some line ∧
      Statement.ofLine? declared (.ofTrimmed (Text.trim line)) = .ok st? ∧
      readLines (number + 1) (Statement.declaredAfter declared st?) lines = .ok rest ∧
      sts = st?.toList ++ rest := by
  cases line? with
  | none => cases h
  | some line =>
    rw [readLines] at h
    split at h
    · cases h
    · rename_i st? hst
      obtain ⟨rest, hrest, rfl⟩ := Checked.map_eq_ok.mp h
      exact ⟨line, st?, rest, rfl, hst, hrest, rfl⟩

/-- There is no header after a header, and the problem has the number of variables of
the only one. -/
theorem eq_none_of_mem_readLines (h : readLines number declared lines = .ok sts) {m : Nat}
    (hm : .header m ∈ sts) : declared = none ∧ Problem.varCount? sts = some m := by
  induction lines generalizing number declared sts with
  | nil =>
    cases h
    cases hm
  | cons line? lines ih =>
    obtain ⟨line, st?, rest, -, hst, hrest, rfl⟩ := exists_of_readLines_cons h
    rw [Problem.varCount?, List.findSome?_append, ← Problem.varCount?]
    rcases List.mem_append.mp hm with hm | hm
    · obtain rfl := Option.mem_toList.mp hm
      exact ⟨Statement.eq_none_of_header hst, rfl⟩
    · obtain ⟨hnone, hcount⟩ := ih hrest hm
      cases st? with
      | none => exact ⟨hnone, hcount⟩
      | some st =>
        cases st with
        | header k => cases hnone
        | sampling vars => exact ⟨hnone, hcount⟩
        | parity c => exact ⟨hnone, hcount⟩
        | unit v value => exact ⟨hnone, hcount⟩
        | longClause => exact ⟨hnone, hcount⟩

theorem Statement.declaredAfter_eq_some {st? : Option Statement} {m : Nat}
    (h : declaredAfter declared st? = some m) : declared = some m ∨ st? = some (.header m) := by
  unfold declaredAfter at h
  split at h
  · cases h
    exact .inr rfl
  · exact .inl h

variable {n : Nat} {b : Nat → Bool}

theorem satisfies_cons {line : List Char} :
    Satisfies b (some line :: lines) ↔ Permits b line ∧ Satisfies b lines := by
  simp [Satisfies, or_imp, forall_and]

/-- A line and those after it: where `n` is the only number that is declared before or
in them, it is so for each. -/
theorem declares_cons {st? : Option Statement}
    (hd : ∀ m, declared = some m ∨ .header m ∈ st?.toList ++ sts → m = n) :
    (∀ m, declared = some m → m = n) ∧
      ∀ m, Statement.declaredAfter declared st? = some m ∨ .header m ∈ sts → m = n := by
  refine ⟨fun m hm => hd m (.inl hm), ?_⟩
  rintro m (hm | hm)
  · rcases Statement.declaredAfter_eq_some hm with hm | hm
    · exact hd m (.inl hm)
    · exact hd m (.inr (List.mem_append_left _ (Option.mem_toList.mpr hm)))
  · exact hd m (.inr (List.mem_append_right _ hm))

/-- What lines say is about declared variables, where `n` is the only number that is
declared. -/
theorem within_of_readLines (h : readLines number declared lines = .ok sts)
    (hd : ∀ m, declared = some m ∨ .header m ∈ sts → m = n) : ∀ st ∈ sts, st.Within n := by
  induction lines generalizing number declared sts with
  | nil =>
    cases h
    exact nofun
  | cons line? lines ih =>
    obtain ⟨line, st?, rest, -, hst, hrest, rfl⟩ := exists_of_readLines_cons h
    obtain ⟨hd, hd'⟩ := declares_cons hd
    refine List.forall_mem_append.mpr ⟨fun st hmem => ?_, ih hrest hd'⟩
    exact Statement.within_of_ofLine? hd hst st (Option.mem_toList.mp hmem)

/-- What lines say holds of an assignment exactly if all of them permit it, where `n` is
the only number that is declared. -/
theorem satisfies_iff_of_readLines (hn : n < Var.modulus)
    (h : readLines number declared lines = .ok sts)
    (hd : ∀ m, declared = some m ∨ .header m ∈ sts → m = n) :
    Satisfies b lines ↔ ∀ st ∈ sts, st.Holds (fromZero b) := by
  induction lines generalizing number declared sts with
  | nil =>
    cases h
    exact ⟨nofun, nofun⟩
  | cons line? lines ih =>
    obtain ⟨line, st?, rest, rfl, hst, hrest, rfl⟩ := exists_of_readLines_cons h
    obtain ⟨hd, hd'⟩ := declares_cons hd
    rw [satisfies_cons, Statement.permits_iff_of_ofLine? hn hd hst, ih hrest hd',
      List.forall_mem_append]
    simp only [Option.mem_toList, Option.mem_def]

end Reading

namespace Problem

/-- The assignment of variables from 0 gives the problem's values and satisfies its
constraints. -/
structure Holds (a : Var → Bool) (p : Problem) : Prop where
  unit : ∀ u ∈ p.units, a u.1 = u.2
  parity : ∀ c ∈ p.constraints, c.Holds a

/-- The problem is about its variables only. -/
structure Within (p : Problem) : Prop where
  unit : ∀ u ∈ p.units, u.1 < p.varCount
  parity : ∀ c ∈ p.constraints, ∀ v ∈ c.vars, v < p.varCount

theorem mem_units_ofStatements {n : Nat} {sts : List Statement} {u : Var × Bool} :
    u ∈ (ofStatements n sts).units ↔ .unit u.1 u.2 ∈ sts := by
  simp only [ofStatements, List.mem_filterMap]
  constructor
  · rintro ⟨st, hst, h⟩
    split at h <;> cases h
    exact hst
  · exact fun h => ⟨_, h, rfl⟩

theorem mem_constraints_ofStatements {n : Nat} {sts : List Statement} {c : Constraint} :
    c ∈ (ofStatements n sts).constraints ↔ .parity c ∈ sts := by
  simp only [ofStatements, List.mem_filterMap]
  constructor
  · rintro ⟨st, hst, h⟩
    split at h <;> cases h
    exact hst
  · exact fun h => ⟨_, h, rfl⟩

theorem holds_ofStatements {n : Nat} {sts : List Statement} {a : Var → Bool} :
    (ofStatements n sts).Holds a ↔ ∀ st ∈ sts, st.Holds a := by
  constructor
  · intro h st hst
    cases st with
    | unit v value => exact h.unit (v, value) (mem_units_ofStatements.mpr hst)
    | parity c => exact h.parity c (mem_constraints_ofStatements.mpr hst)
    | header m => trivial
    | sampling vars => trivial
    | longClause => trivial
  · intro h
    exact ⟨fun u hu => h _ (mem_units_ofStatements.mp hu),
      fun c hc => h _ (mem_constraints_ofStatements.mp hc)⟩

theorem within_ofStatements {n : Nat} {sts : List Statement} (h : ∀ st ∈ sts, st.Within n) :
    (ofStatements n sts).Within :=
  ⟨fun _ hu => h _ (mem_units_ofStatements.mp hu),
    fun _ hc => h _ (mem_constraints_ofStatements.mp hc)⟩

/-- The statements that a problem is made of, and the only number that they declare. -/
theorem exists_of_ofLines {lines : List (Option (List Char))} {p : Problem}
    (h : ofLines lines = .ok p) :
    ∃ sts, readLines 1 none lines = .ok sts ∧ p = ofStatements p.varCount sts ∧
      ∀ m, none = some m ∨ .header m ∈ sts → m = p.varCount := by
  obtain ⟨sts, hsts, h⟩ := Checked.bind_eq_ok.mp h
  split at h
  · cases h
  · rename_i n hcount
    cases h
    refine ⟨sts, hsts, rfl, fun m hm => ?_⟩
    rcases hm with hm | hm
    · cases hm
    · have := (eq_none_of_mem_readLines hsts hm).2
      rw [hcount] at this
      exact (Option.some.inj this).symm

/-- A problem is about its variables only. -/
theorem within_of_ofLines {lines : List (Option (List Char))} {p : Problem}
    (h : ofLines lines = .ok p) : p.Within := by
  obtain ⟨sts, hsts, hp, hd⟩ := exists_of_ofLines h
  rw [hp]
  exact within_ofStatements (within_of_readLines hsts hd)

/-- An assignment satisfies the lines of a file exactly if the problem that they are
read as holds of it, and the problem is about its variables only. -/
theorem ofLines_spec {lines : List (Option (List Char))} {p : Problem} (h : ofLines lines = .ok p)
    (hn : p.varCount < Var.modulus) (b : Nat → Bool) :
    (Satisfies b lines ↔ p.Holds (fromZero b)) ∧ p.Within := by
  obtain ⟨sts, hsts, hp, hd⟩ := exists_of_ofLines h
  refine ⟨?_, within_of_ofLines h⟩
  rw [satisfies_iff_of_readLines hn hsts hd, hp, holds_ofStatements]

end Problem

end Cnf

end ParityBlocks
