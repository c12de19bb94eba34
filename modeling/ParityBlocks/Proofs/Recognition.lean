import ParityBlocks.Proofs.Encoding
import ParityBlocks.Proofs.Grammar

/-!
# Which files are read

A file is a problem exactly if each of its lines (`Text.Cut`) may follow those before it and one
of them is a header; else the error is about the first line that may not, or about the missing
header (`Cnf.Problem.ofBytes_toUTF8_spec`). Reading line by line is telling what the lines say, one
after another (`Cnf.Say`), up to such a line (`Cnf.readLines_spec`).
-/

namespace ParityBlocks

namespace Cnf

/-- The line may follow the lines `before` it. -/
def Allowed (before : List (List Char)) (line : List Char) : Prop := ∃ st?, Says before line st?

/-- Each of the lines may follow those before it. -/
def EachAllowed (lines : List (List Char)) : Prop :=
  ∀ before line after, lines = before ++ line :: after → Allowed before line

/-- Just one of the lines is a header. -/
def HasOneHeader (lines : List (List Char)) : Prop :=
  ∃ before line after n, lines = before ++ line :: after ∧ Declares line n ∧
    ∀ l ∈ before ++ after, ∀ m, ¬ Declares l m

/-- What the lines say one after another, after the lines `before` them. -/
inductive Say : List (List Char) → List (List Char) → List Statement → Prop
  | nil (before : List (List Char)) : Say before [] []
  | cons {before lines : List (List Char)} {line : List Char} {st? : Option Statement}
    {sts : List Statement} (first : Says before line st?)
    (rest : Say (before ++ [line]) lines sts) : Say before (line :: lines) (st?.toList ++ sts)

/-! ## Headers -/

section Headers

variable {before lines : List (List Char)} {line : List Char} {st? : Option Statement}
  {sts : List Statement} {declared : Option Nat}

theorem Declares.unique {n m : Nat} (hn : Declares line n) (hm : Declares line m) : n = m := by
  obtain ⟨-, first, _, hfirst, rfl⟩ := hn
  obtain ⟨-, first', _, hfirst', rfl⟩ := hm
  have hend := Text.stops_reverse_trim line
  have h := (Line.header?_eq_some_iff hend).mpr ⟨_, hfirst⟩
  rw [(Line.header?_eq_some_iff hend).mpr ⟨_, hfirst'⟩] at h
  rw [Option.some.inj h]

/-- A line says a header if it is one, and only then. -/
theorem Says.eq_header_iff (h : Says before line st?) {n : Nat} :
    st? = some (.header n) ↔ Declares line n := by
  have other : (Text.trim line).head? ≠ some 'p' → ¬ Declares line n := by
    rintro hne ⟨-, _, _, hheader, -⟩
    exact hne hheader.head?
  have list : ∀ {m ks}, IsList m (Text.trim line) ks → ¬ Declares line n := by
    intro m ks list
    obtain ⟨c, hc, hp, -⟩ := exists_head?_of_integers? list.1
    exact other fun h => hp (Option.some.inj (hc.symm.trans h))
  cases h with
  | blank h => exact iff_of_false nofun (other (by rw [h]; nofun))
  | header h =>
    rw [Option.some.injEq, Statement.header.injEq]
    exact ⟨fun heq => heq ▸ h, h.unique⟩
  | sampling _ _ h => exact iff_of_false nofun (other (by rw [IsSampling.head? h]; decide))
  | comment h => exact iff_of_false nofun (other (by rw [h]; decide))
  | parity _ _ h => exact iff_of_false nofun (other (by rw [h]; simp))
  | unit _ _ h => exact iff_of_false nofun (list h)
  | longClause _ _ h => exact iff_of_false nofun (list h)

/-- No header comes before a header. -/
theorem Allowed.first (h : Allowed before line) {n : Nat} (hn : Declares line n) :
    ∀ l ∈ before, ∀ m, ¬ Declares l m := by
  obtain ⟨st?, h⟩ := h
  have hst := h.eq_header_iff.mpr hn
  cases h with
  | header _ first => exact first
  | _ => cases hst

theorem declaredAfter_eq_some_iff (hd : ∀ n, declared = some n ↔ ∃ l ∈ before, Declares l n)
    (h : Says before line st?) (n : Nat) :
    Statement.declaredAfter declared st? = some n ↔ ∃ l ∈ before ++ [line], Declares l n := by
  have after : (∃ l ∈ before ++ [line], Declares l n) ↔ declared = some n ∨ Declares line n := by
    simp [or_and_right, exists_or, hd n]
  rw [after, ← h.eq_header_iff]
  by_cases hm : ∃ m, st? = some (.header m)
  · obtain ⟨m, rfl⟩ := hm
    have hnone : declared ≠ some n := fun hn => by
      obtain ⟨l, hl, hn⟩ := (hd n).mp hn
      exact Allowed.first ⟨_, h⟩ (h.eq_header_iff.mp rfl) l hl n hn
    rw [or_iff_right hnone, Statement.declaredAfter]
    simp
  · have hsame : Statement.declaredAfter declared st? = declared := by
      unfold Statement.declaredAfter
      split
      · rename_i m
        exact absurd ⟨m, rfl⟩ hm
      · rfl
    rw [hsame, or_iff_left fun hn => hm ⟨n, hn⟩]

end Headers

/-! ## Lines -/

/-- Lines are read as what they say, or the first that may not follow those before it is
the error. -/
theorem readLines_spec {before : List (List Char)} {declared : Option Nat}
    (hd : ∀ n, declared = some n ↔ ∃ l ∈ before, Declares l n) (number : Nat)
    (lines : List (List Char)) :
    (∃ sts, Say before lines sts ∧ readLines number declared (lines.map some) = .ok sts) ∨
      ∃ done line rest sts why, lines = done ++ line :: rest ∧ Say before done sts ∧
        ¬ Allowed (before ++ done) line ∧
        readLines number declared (lines.map some) =
          .error (.inLine (number + done.length) (.ofList (Text.trim line)) why) := by
  induction lines generalizing before declared number with
  | nil => exact .inl ⟨[], .nil before, rfl⟩
  | cons line lines ih =>
    rw [List.map_cons, readLines]
    cases hst : Statement.ofLine? declared (.ofTrimmed (Text.trim line)) with
    | error why =>
      refine .inr ⟨[], line, lines, [], why, rfl, .nil before, ?_, rfl⟩
      rintro ⟨st?, h⟩
      rw [List.append_nil] at h
      rw [(Statement.ofLine?_eq_ok_iff hd).mpr h] at hst
      cases hst
    | ok st? =>
      have hsays := (Statement.ofLine?_eq_ok_iff hd).mp hst
      have hd' := declaredAfter_eq_some_iff hd hsays
      rcases ih hd' (number + 1) with ⟨sts, hsay, hread⟩ |
        ⟨done, line', rest, sts, why, rfl, hsay, hbad, hread⟩
      · refine .inl ⟨_, .cons hsays hsay, ?_⟩
        dsimp only
        rw [hread]
        rfl
      · refine .inr ⟨line :: done, line', rest, _, why, rfl, .cons hsays hsay, ?_, ?_⟩
        · rwa [List.append_assoc] at hbad
        · dsimp only
          rw [hread, List.length_cons, Nat.add_assoc, Nat.add_comm 1]
          rfl

section Say

variable {before lines : List (List Char)} {sts : List Statement}

theorem Say.allowed (h : Say before lines sts) {done rest : List (List Char)} {line : List Char}
    (hlines : lines = done ++ line :: rest) : Allowed (before ++ done) line := by
  induction h generalizing done with
  | nil => cases done <;> cases hlines
  | cons first _ ih =>
    cases done with
    | nil =>
      cases hlines
      rw [List.append_nil]
      exact ⟨_, first⟩
    | cons l done =>
      cases hlines
      have := ih rfl
      rwa [List.append_assoc] at this

/-- The headers that the lines say are those among them. -/
theorem Say.mem_header_iff (h : Say before lines sts) {n : Nat} :
    .header n ∈ sts ↔ ∃ l ∈ lines, Declares l n := by
  induction h with
  | nil => simp
  | cons first _ ih =>
    rw [List.mem_append, Option.mem_toList, first.eq_header_iff, ih]
    simp

/-- Where each line may follow those before it, one of two headers would be wrong. -/
theorem EachAllowed.hasOneHeader (h : EachAllowed lines) {l : List Char} (hl : l ∈ lines) {n : Nat}
    (hn : Declares l n) : HasOneHeader lines := by
  obtain ⟨done, rest, rfl⟩ := List.append_of_mem hl
  refine ⟨done, l, rest, n, rfl, hn, fun l' hl' m hm => ?_⟩
  rcases List.mem_append.mp hl' with hl' | hl'
  · exact (h done l rest rfl).first hn l' hl' m hm
  · obtain ⟨front, back, rfl⟩ := List.append_of_mem hl'
    have allowed : Allowed (done ++ l :: front) l' := h _ l' back (by simp)
    exact allowed.first hm l (by simp) n hn

end Say

/-! ## Files -/

namespace Problem

theorem varCount?_eq_none_iff {sts : List Statement} :
    varCount? sts = none ↔ ∀ n, .header n ∉ sts := by
  rw [varCount?, List.findSome?_eq_none_iff]
  constructor
  · intro h n hn
    cases h _ hn
  · intro h st hst
    split
    · exact absurd hst (h _)
    · rfl

/-- Lines are a problem, or lack a header, or one of them is the first that may not follow
those before it. -/
theorem ofLines_cases (lines : List (List Char)) :
    (EachAllowed lines ∧ HasOneHeader lines ∧ ∃ p, ofLines (lines.map some) = .ok p) ∨
      (EachAllowed lines ∧ (∀ l ∈ lines, ∀ n, ¬ Declares l n) ∧
        ofLines (lines.map some) = .error .noHeader) ∨
      ∃ before line after why, lines = before ++ line :: after ∧ EachAllowed before ∧
        ¬ Allowed before line ∧ ofLines (lines.map some) =
          .error (.inLine (before.length + 1) (.ofList (Text.trim line)) why) := by
  have hd : ∀ n, none = some n ↔ ∃ l ∈ ([] : List (List Char)), Declares l n := by simp
  rcases readLines_spec hd 1 lines with ⟨sts, hsay, hread⟩ |
    ⟨before, line, after, sts, why, rfl, hsay, hbad, hread⟩
  · have each : EachAllowed lines := fun _ _ _ hlines => hsay.allowed hlines
    rw [ofLines, hread]
    cases hcount : varCount? sts with
    | none =>
      refine .inr (.inl ⟨each, fun l hl n hn => ?_, ?_⟩)
      · exact varCount?_eq_none_iff.mp hcount n (hsay.mem_header_iff.mpr ⟨l, hl, hn⟩)
      · rw [Checked.bind_eq_error]
        exact .inr ⟨sts, rfl, by rw [hcount]⟩
    | some n =>
      have hheader : ∃ m, .header m ∈ sts := by
        by_contra hnone
        rw [varCount?_eq_none_iff.mpr (not_exists.mp hnone)] at hcount
        cases hcount
      obtain ⟨m, hm⟩ := hheader
      obtain ⟨l, hl, hm⟩ := hsay.mem_header_iff.mp hm
      refine .inl ⟨each, each.hasOneHeader hl hm, ofStatements n sts, ?_⟩
      exact Checked.bind_eq_ok.mpr ⟨sts, rfl, by rw [hcount]⟩
  · refine .inr (.inr ⟨before, line, after, why, rfl, fun _ _ _ h => hsay.allowed h, hbad, ?_⟩)
    rw [ofLines, hread, Nat.add_comm]
    rfl

/-- A text in UTF-8, cut into lines at its line ends, is a problem exactly if each of the lines may
follow those before it and just one is a header. The error is about the first line that may not
follow those before it, and if there is no such line, about the missing header. -/
theorem ofBytes_toUTF8_spec (text : String) :
    let lines := Text.linesOf '\n' '\r' text.toList
    (∀ ls, Text.Cut '\n' '\r' text.toList ls ↔ ls = lines) ∧
      ((∃ p, ofBytes text.toUTF8 = .ok p) ↔ EachAllowed lines ∧ HasOneHeader lines) ∧
      (¬ EachAllowed lines → ∃ before line after e, lines = before ++ line :: after ∧
        EachAllowed before ∧ ¬ Allowed before line ∧ ofBytes text.toUTF8 = .error e ∧
        e.chain.head? =
          some s!"Line {before.length + 1}: `{String.ofList (Text.trim line)}`") ∧
      (EachAllowed lines → (∀ l ∈ lines, ∀ n, ¬ Declares l n) → ∃ e,
        ofBytes text.toUTF8 = .error e ∧ e.chain = ["No `p cnf` header found"]) := by
  intro lines
  refine ⟨fun ls => (Text.linesOf_eq_iff (by decide)).symm.trans eq_comm, ?_⟩
  rw [ofBytes_toUTF8, ofText]
  rcases ofLines_cases lines with ⟨each, one, p, hp⟩ | ⟨each, none, he⟩ |
    ⟨before, line, after, why, hlines, each, hbad, he⟩
  · obtain ⟨front, l, rest, n, hl, hn, -⟩ := id one
    refine ⟨iff_of_true ⟨p, hp⟩ ⟨each, one⟩, fun h => absurd each h, fun _ h => ?_⟩
    exact absurd hn (h l (by rw [hl]; simp) n)
  · refine ⟨iff_of_false ?_ ?_, fun h => absurd each h, fun _ _ => ⟨_, he, rfl⟩⟩
    · rintro ⟨p, hp⟩
      rw [he] at hp
      cases hp
    · rintro ⟨-, front, l, rest, n, hl, hn, -⟩
      exact none l (by rw [hl]; simp) n hn
  · have hnot : ¬ EachAllowed lines := fun h => hbad (h before line after hlines)
    refine ⟨iff_of_false ?_ fun h => hnot h.1, fun _ => ?_, fun h => absurd h hnot⟩
    · rintro ⟨p, hp⟩
      rw [he] at hp
      cases hp
    · exact ⟨before, line, after, _, hlines, each, hbad, he, rfl⟩

/-- The third of three lines with different ends lists a variable above the header's. -/
theorem ofBytes_toUTF8_spec_sample :
    let text := "p cnf 2 1\r\nx1 -2 0\nc p show 2 3 0"
    let lines := Text.linesOf '\n' '\r' text.toList
    let before := ["p cnf 2 1".toList, "x1 -2 0".toList]
    let line := "c p show 2 3 0".toList
    Text.Cut '\n' '\r' text.toList (before ++ [line]) ∧ ¬ EachAllowed lines ∧
      EachAllowed before ∧ ¬ Allowed before line ∧ ∃ e, ofBytes text.toUTF8 = .error e ∧
      e.chain.head? = some "Line 3: `c p show 2 3 0`" := by
  intro text lines before line
  have lines_eq : lines = before ++ [line] := by decide +kernel
  obtain ⟨cut, reads, blames, -⟩ := ofBytes_toUTF8_spec text
  have header : Declares "p cnf 2 1".toList 2 :=
    ⟨by decide, ['2'], ['1'], ⟨⟨by decide, by decide⟩, ⟨by decide, by decide⟩,
      [' '], _, ⟨by decide, by decide⟩, rfl, [' '], _, ⟨by decide, by decide⟩, rfl,
      [' '], _, ⟨by decide, by decide⟩, rfl, rfl⟩, by decide⟩
  have fails : ofBytes text.toUTF8 =
      .error (.inLine 3 "c p show 2 3 0" (.literals (.outOfRange 3 2))) := by decide +kernel
  have hnot : ¬ EachAllowed lines := fun each => by
    obtain ⟨p, hp⟩ := reads.mpr ⟨each, each.hasOneHeader (by decide) header⟩
    rw [fails] at hp
    cases hp
  obtain ⟨front, blamed, after, e, hlines, each, hbad, he, head⟩ := blames hnot
  have hlines : before ++ [line] = front ++ blamed :: after := lines_eq.symm.trans hlines
  obtain rfl := Except.error.inj (fails.symm.trans he)
  -- The error of an earlier line has the number of that line.
  have third : front = before ∧ blamed = line := by
    rcases front with _ | ⟨first, _ | ⟨second, _ | ⟨next, more⟩⟩⟩
    · cases hlines
      exact absurd head (by decide)
    · cases hlines
      exact absurd head (by decide)
    · cases hlines
      exact ⟨rfl, rfl⟩
    · have hlength := congrArg List.length hlines
      simp [before] at hlength
  obtain ⟨rfl, rfl⟩ := third
  exact ⟨(cut _).mpr lines_eq.symm, hnot, each, hbad, _, fails, rfl⟩

end Problem

end Cnf

end ParityBlocks
