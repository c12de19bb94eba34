import ParityBlocks.Proofs.Meaning

/-!
# The grammar of lines

What a line may say after the lines before it is a relation of its own (`Cnf.Says`), with
one rule for each kind of line: a header comes first of its kind, and everything but blank
lines and comments comes after it. A line is read as what it says, and is wrong if it says
nothing of the kind (`Cnf.Statement.ofLine?_eq_ok_iff`).
-/

namespace ParityBlocks

namespace Cnf

/-- The line is a header, and its first number is `n`, which fits 64 bits. -/
def Declares (line : List Char) (n : Nat) : Prop :=
  n < 1 <<< 64 ∧
    ∃ first second, IsHeader (Text.trim line) first second ∧ n = Text.digitsValue first

/-- The text is a list of the literals `ks` of `declared` variables: their numerals and
that of 0 at the end, with ASCII blanks between. -/
def IsList (declared : Nat) (text : List Char) (ks : List Int) : Prop :=
  integers? text = some (ks ++ [0]) ∧ AreLiterals declared ks

/-- The line may follow the lines `before` it, and says this, or nothing. -/
inductive Says (before : List (List Char)) (line : List Char) : Option Statement → Prop
  | blank (h : Text.trim line = []) : Says before line none
  /-- The first header. -/
  | header {n : Nat} (h : Declares line n) (first : ∀ l ∈ before, ∀ m, ¬ Declares l m) :
    Says before line (some (.header n))
  /-- After a header, variables without negations. -/
  | sampling {l rest : List Char} {n : Nat} {ks : List Int} (hl : l ∈ before)
    (hn : Declares l n) (h : IsSampling (Text.trim line) rest) (list : IsList n rest ks)
    (positive : ∀ k ∈ ks, 0 < k) :
    Says before line (some (.sampling (ks.map fun k => (Literal.ofInt k).var)))
  /-- Any other line that starts with `c`. -/
  | comment (h : (Text.trim line).head? = some 'c')
    (other : ∀ rest, ¬ IsSampling (Text.trim line) rest) : Says before line none
  /-- After a header, a parity constraint, which may be empty. -/
  | parity {l text : List Char} {n : Nat} {ks : List Int} (hl : l ∈ before)
    (hn : Declares l n) (h : Text.trim line = 'x' :: text) (list : IsList n text ks) :
    Says before line (some (.ofParityLiterals (ks.map Literal.ofInt)))
  /-- After a header, a clause with one literal. -/
  | unit {l : List Char} {n : Nat} {k : Int} (hl : l ∈ before) (hn : Declares l n)
    (list : IsList n (Text.trim line) [k]) :
    Says before line (some (.unit (Literal.ofInt k).var !(Literal.ofInt k).negated))
  /-- After a header, a clause with more literals. -/
  | longClause {l : List Char} {n : Nat} {k k' : Int} {ks : List Int} (hl : l ∈ before)
    (hn : Declares l n) (list : IsList n (Text.trim line) (k :: k' :: ks)) :
    Says before line (some .longClause)

/-! ## Lists of literals -/

section Literals

variable {declared : Nat} {text : List Char} {ks : List Int}

theorem literalsOf_eq_ok_iff {ls : List Literal} :
    literalsOf declared text = .ok ls ↔
      ∃ ks, IsList declared text ks ∧ ls = ks.map Literal.ofInt := by
  rw [literalsOf, readLiterals_eq_ok_iff]
  exact ⟨fun ⟨ks, hks, hls, hall⟩ => ⟨ks, ⟨hks, hall⟩, hls⟩,
    fun ⟨ks, ⟨hks, hall⟩, hls⟩ => ⟨ks, hks, hls, hall⟩⟩

/-- A list of literals starts neither as a header nor as any other line does. -/
theorem exists_head?_of_integers? (h : integers? text = some (ks ++ [0])) :
    ∃ c ∈ text.head?, c ≠ 'p' ∧ c ≠ 'c' ∧ c ≠ 'x' := by
  cases text with
  | nil =>
    have hnil := Option.some.inj h
    cases ks <;> cases hnil
  | cons c rest =>
    have hc : ∀ c', Text.isAsciiBlank c' = false ∧ c'.isDigit = false ∧ c' ≠ '-' ∧ c' ≠ '+' →
        c ≠ c' := by
      rintro _ hc rfl
      rw [integers?_eq_none rfl hc] at h
      cases h
    exact ⟨c, rfl, hc 'p' (by decide), hc 'c' (by decide), hc 'x' (by decide)⟩

/-- A line that is a list of literals is read as a clause. -/
theorem ofTrimmed_of_integers? {line : List Char}
    (h : integers? (Text.trim line) = some (ks ++ [0])) :
    Line.ofTrimmed (Text.trim line) = .clause (Text.trim line) := by
  obtain ⟨c, hc, hp, hc', hx⟩ := exists_head?_of_integers? h
  have kind : Line.HasKind (Text.trim line) (.clause (Text.trim line)) := by
    refine .clause ⟨c, hc, hc', hx⟩ fun first second hheader => hp ?_
    rw [hheader.head?] at hc
    exact (Option.some.inj hc).symm
  exact (Line.ofTrimmed_eq_iff (Text.stops_reverse_trim line)).mpr kind

end Literals

/-! ## Lines -/

section Line

variable {before : List (List Char)} {declared : Option Nat} {line : List Char}
  {st? : Option Statement}

theorem declared_eq_none_iff (hd : ∀ n, declared = some n ↔ ∃ l ∈ before, Declares l n) :
    declared = none ↔ ∀ l ∈ before, ∀ m, ¬ Declares l m := by
  rw [Option.eq_none_iff_forall_ne_some]
  constructor
  · exact fun h l hl m hm => h m ((hd m).mpr ⟨l, hl, hm⟩)
  · intro h m hm
    obtain ⟨l, hl, hm⟩ := (hd m).mp hm
    exact h l hl m hm

/-- After lines that declare so many variables, literals are read as a list of these. -/
theorem literalsAfterHeader_eq_ok_iff (hd : ∀ n, declared = some n ↔ ∃ l ∈ before, Declares l n)
    {early : LineError} {text : List Char} {ls : List Literal} :
    literalsAfterHeader declared early text = .ok ls ↔
      ∃ l ∈ before, ∃ n ks, Declares l n ∧ IsList n text ks ∧ ls = ks.map Literal.ofInt := by
  have read : literalsAfterHeader declared early text = .ok ls ↔
      ∃ n, declared = some n ∧ ∃ ks, IsList n text ks ∧ ls = ks.map Literal.ofInt := by
    simp only [← literalsOf_eq_ok_iff]
    cases declared with
    | none => simp [literalsAfterHeader]
    | some n => cases h : literalsOf n text <;> simp [literalsAfterHeader, Except.mapError, h]
  rw [read]
  constructor
  · rintro ⟨n, hn, ks, list, hls⟩
    obtain ⟨l, hl, hn⟩ := (hd n).mp hn
    exact ⟨l, hl, n, ks, hn, list, hls⟩
  · rintro ⟨l, hl, n, ks, hn, list, hls⟩
    exact ⟨n, (hd n).mpr ⟨l, hl, hn⟩, ks, list, hls⟩

namespace Statement

theorem ofSamplingLiterals_eq_ok_iff {n : Nat} {ks : List Int} (h : AreLiterals n ks)
    {st : Statement} :
    ofSamplingLiterals (ks.map Literal.ofInt) = .ok st ↔
      (∀ k ∈ ks, 0 < k) ∧ st = .sampling (ks.map fun k => (Literal.ofInt k).var) := by
  have negated : (ks.map Literal.ofInt).any Literal.negated = true ↔ ∃ k ∈ ks, k < 0 := by
    simp [Literal.ofInt]
  have positive : (∀ k ∈ ks, 0 < k) ↔ ¬ ∃ k ∈ ks, k < 0 := by
    simp only [not_exists, not_and, Int.not_lt]
    exact forall₂_congr fun k hk => by have := (h k hk).1; omega
  rw [ofSamplingLiterals, positive]
  split
  · rename_i hneg
    exact iff_of_false (by simp) fun hpos => hpos.1 (negated.mp hneg)
  · rename_i hpos
    rw [← negated, and_iff_right hpos, List.map_map, Except.ok.injEq, eq_comm]
    rfl

theorem says_of_ofLine? (hd : ∀ n, declared = some n ↔ ∃ l ∈ before, Declares l n)
    (h : ofLine? declared (.ofTrimmed (Text.trim line)) = .ok st?) : Says before line st? := by
  have kind := (Line.ofTrimmed_eq_iff (Text.stops_reverse_trim line)).mp rfl
  generalize Line.ofTrimmed (Text.trim line) = k at kind h
  cases kind with
  | blank hblank =>
    cases h
    exact .blank hblank
  | header hheader =>
    simp only [ofLine?] at h
    split at h
    · cases h
    · rename_i hnone
      split at h
      · cases h
      · rename_i n hn
        cases h
        obtain ⟨hn, hle⟩ := (Text.readUnsigned_eq_ok_iff hheader.1.2).mp hn
        refine .header ⟨by omega, _, _, hheader, (Text.natural?_eq_some_iff.mp hn).2.2⟩ ?_
        intro l hl m hm
        rw [(hd m).mpr ⟨l, hl, hm⟩] at hnone
        exact hnone rfl
  | sampling hsampling =>
    obtain ⟨ls, hls, h⟩ := Checked.bind_eq_ok.mp h
    obtain ⟨st, hst, h⟩ := Checked.bind_eq_ok.mp h
    cases h
    obtain ⟨l, hl, n, ks, hn, list, rfl⟩ := (literalsAfterHeader_eq_ok_iff hd).mp hls
    obtain ⟨positive, rfl⟩ := (ofSamplingLiterals_eq_ok_iff list.2).mp hst
    exact .sampling hl hn hsampling list positive
  | comment hc other =>
    cases h
    exact .comment hc other
  | parity hx =>
    obtain ⟨ls, hls, h⟩ := Checked.bind_eq_ok.mp h
    cases h
    obtain ⟨l, hl, n, ks, hn, list, rfl⟩ := (literalsAfterHeader_eq_ok_iff hd).mp hls
    exact .parity hl hn hx list
  | clause =>
    obtain ⟨ls, hls, h⟩ := Checked.bind_eq_ok.mp h
    obtain ⟨st, hst, h⟩ := Checked.bind_eq_ok.mp h
    cases h
    obtain ⟨l, hl, n, ks, hn, list, rfl⟩ := (literalsAfterHeader_eq_ok_iff hd).mp hls
    cases ks with
    | nil => cases hst
    | cons k ks =>
      cases ks with
      | nil =>
        cases hst
        exact .unit hl hn list
      | cons k' ks =>
        cases hst
        exact .longClause hl hn list

theorem ofLine?_of_says (hd : ∀ n, declared = some n ↔ ∃ l ∈ before, Declares l n)
    (h : Says before line st?) : ofLine? declared (.ofTrimmed (Text.trim line)) = .ok st? := by
  have kind : ∀ {k}, Line.HasKind (Text.trim line) k → Line.ofTrimmed (Text.trim line) = k :=
    (Line.ofTrimmed_eq_iff (Text.stops_reverse_trim line)).mpr
  have after : ∀ {early l text n ks}, l ∈ before → Declares l n → IsList n text ks →
      literalsAfterHeader declared early text = .ok (ks.map Literal.ofInt) := by
    intro early l text n ks hl hn list
    exact (literalsAfterHeader_eq_ok_iff hd).mpr ⟨l, hl, n, ks, hn, list, rfl⟩
  cases h with
  | blank h =>
    rw [kind (.blank h)]
    rfl
  | header h first =>
    obtain ⟨hlt, digits, second, hheader, rfl⟩ := h
    have hnone := (declared_eq_none_iff hd).mpr first
    have hread : Text.readUnsigned 64 digits = .ok (Text.digitsValue digits) :=
      (Text.readUnsigned_eq_ok_iff hheader.1.2).mpr
        ⟨Text.natural?_eq_some_iff.mpr ⟨hheader.1.1, hheader.1.2, rfl⟩, by omega⟩
    rw [kind (.header hheader), ofLine?, hnone, hread]
    rfl
  | sampling hl hn h list positive =>
    have hsaid := (ofSamplingLiterals_eq_ok_iff list.2).mpr ⟨positive, rfl⟩
    rw [kind (.sampling h), ofLine?, after hl hn list]
    exact Checked.bind_eq_ok.mpr ⟨_, rfl, Checked.bind_eq_ok.mpr ⟨_, hsaid, rfl⟩⟩
  | comment h other =>
    rw [kind (.comment h other)]
    rfl
  | parity hl hn h list =>
    rw [kind (.parity h), ofLine?, after hl hn list]
    rfl
  | unit hl hn list =>
    rw [ofTrimmed_of_integers? list.1, ofLine?, after hl hn list]
    rfl
  | longClause hl hn list =>
    rw [ofTrimmed_of_integers? list.1, ofLine?, after hl hn list]
    rfl

/-- After lines that declare so many variables, a line is read as what it says. -/
theorem ofLine?_eq_ok_iff (hd : ∀ n, declared = some n ↔ ∃ l ∈ before, Declares l n) :
    ofLine? declared (.ofTrimmed (Text.trim line)) = .ok st? ↔ Says before line st? :=
  ⟨says_of_ofLine? hd, ofLine?_of_says hd⟩

end Statement

end Line

end Cnf

end ParityBlocks
