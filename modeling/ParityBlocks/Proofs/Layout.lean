import ParityBlocks.Cnf.Line

/-!
# The layout of lines

A header is the words `p` and `cnf` and two numbers with blanks between them, and a
sampling line is `c ind` or `c p show`, blanks and a rest that starts with no blank
(`Cnf.IsSampling`). The kind of a line without blanks at its ends is decided by its layout:
`Cnf.Line.ofTrimmed_eq_iff` says when it is of which kind.
-/

namespace ParityBlocks

/-! ## The start of a text -/

namespace Text

/-- The text does not go on with such a character. -/
def Stops (p : Char → Bool) (cs : List Char) : Prop := ∀ c ∈ cs.head?, p c = false

/-- At least one character, all of them blanks. -/
def IsBlanks (cs : List Char) : Prop := cs ≠ [] ∧ cs.all isBlank = true

/-- At least one character, all of them digits. -/
def IsDigits (cs : List Char) : Prop := cs ≠ [] ∧ cs.all Char.isDigit = true

/-- The text is the word and the words after it, with blanks between them. -/
def Spaced (word : List Char) : List (List Char) → List Char → Prop
  | [], cs => cs = word
  | next :: words, cs =>
    ∃ blanks rest, IsBlanks blanks ∧ cs = word ++ blanks ++ rest ∧ Spaced next words rest

theorem stops_nil (p : Char → Bool) : Stops p [] := fun _ h => nomatch h

theorem stops_cons {p : Char → Bool} {c : Char} {cs : List Char} :
    Stops p (c :: cs) ↔ p c = false := by
  simp [Stops]

/-- Where a text is all of the class up to where it stops, that is its longest such part. -/
theorem takeWhile_append_of_stops {p : Char → Bool} {found rest : List Char}
    (hall : found.all p = true) (h : Stops p rest) :
    (found ++ rest).takeWhile p = found ∧ (found ++ rest).dropWhile p = rest := by
  have hall := List.all_eq_true.mp hall
  rw [List.takeWhile_append_of_pos hall, List.dropWhile_append_of_pos hall]
  cases rest with
  | nil => exact ⟨List.append_nil _, rfl⟩
  | cons c cs =>
    have hc := stops_cons.mp h
    rw [List.takeWhile_cons_of_neg (by simp [hc]), List.dropWhile_cons_of_neg (by simp [hc])]
    exact ⟨List.append_nil _, rfl⟩

theorem stops_dropWhile (p : Char → Bool) (cs : List Char) : Stops p (cs.dropWhile p) := by
  intro c hc
  have stopped := List.head?_dropWhile_not p cs
  rw [hc] at stopped
  exact stopped

/-- A trimmed text ends with no blank. -/
theorem stops_reverse_trim (cs : List Char) : Stops isBlank (trim cs).reverse := by
  rw [trim, List.reverse_reverse]
  exact stops_dropWhile isBlank _

/-- A text that ends with no blank does not end with blanks. -/
theorem eq_nil_of_stops_reverse {p : Char → Bool} {cs rest : List Char}
    (h : Stops p (cs ++ rest).reverse) (hall : rest.all p = true) : rest = [] := by
  rcases List.eq_nil_or_concat rest with rfl | ⟨front, c, rfl⟩
  · rfl
  · have hc : p c = true := List.all_eq_true.mp hall c (by simp)
    have stops : p c = false := h c (by simp)
    rw [hc] at stops
    cases stops

theorem isBlank_of_isDigit {c : Char} (h : c.isDigit = true) : isBlank c = false := by
  simp only [Char.isDigit, Bool.and_eq_true, decide_eq_true_eq] at h
  have h : 48 ≤ c.toNat ∧ c.toNat ≤ 57 := h
  simp only [isBlank, blankRanges, List.any_cons, List.any_nil]
  simp
  omega

theorem IsDigits.stops_isBlank {ds : List Char} (h : IsDigits ds) (cs : List Char) :
    Stops isBlank (ds ++ cs) := by
  obtain ⟨d, ds, rfl⟩ := List.exists_cons_of_ne_nil h.1
  exact stops_cons.mpr (isBlank_of_isDigit (List.all_eq_true.mp h.2 d List.mem_cons_self))

theorem IsBlanks.stops_isDigit {blanks : List Char} (h : IsBlanks blanks) (cs : List Char) :
    Stops Char.isDigit (blanks ++ cs) := by
  obtain ⟨c, blanks, rfl⟩ := List.exists_cons_of_ne_nil h.1
  refine stops_cons.mpr (Bool.eq_false_iff.mpr fun hdigit => ?_)
  have hblank := List.all_eq_true.mp h.2 c List.mem_cons_self
  rw [isBlank_of_isDigit hdigit] at hblank
  cases hblank

end Text

/-! ## Words, blanks and digits -/

namespace Cnf

/-- The text is `p cnf` and two numerals, with blanks between. -/
def IsHeader (cs first second : List Char) : Prop :=
  Text.IsDigits first ∧ Text.IsDigits second ∧
    Text.Spaced ['p'] [['c', 'n', 'f'], first, second] cs

/-- The text is `c ind` or `c p show`, blanks and the rest, which starts with no blank. -/
def IsSampling (cs rest : List Char) : Prop :=
  (Text.Spaced ['c'] [['i', 'n', 'd'], rest] cs ∨
    Text.Spaced ['c'] [['p'], ['s', 'h', 'o', 'w'], rest] cs) ∧
  rest ≠ [] ∧ Text.Stops Text.isBlank rest

theorem IsHeader.head? {cs first second : List Char} (h : IsHeader cs first second) :
    cs.head? = some 'p' := by
  obtain ⟨-, -, _, _, -, rfl, -⟩ := h
  rfl

theorem IsSampling.head? {cs rest : List Char} (h : IsSampling cs rest) :
    cs.head? = some 'c' := by
  obtain ⟨⟨_, _, -, rfl, -⟩ | ⟨_, _, -, rfl, -⟩, -⟩ := h
  · rfl
  · rfl

namespace Line

open Text

variable {cs rest : List Char}

theorem afterWord_eq_some_iff {word : List Char} :
    afterWord word cs = some rest ↔ cs = word ++ rest := by
  rw [afterWord, Option.ite_none_right_eq_some, List.isPrefixOf_iff_prefix, Option.some.injEq]
  constructor
  · rintro ⟨⟨rest, rfl⟩, rfl⟩
    rw [List.drop_left]
  · rintro rfl
    exact ⟨List.prefix_append _ _, List.drop_left⟩

theorem afterBlanks_eq_some_iff :
    afterBlanks cs = some rest ↔
      ∃ blanks, IsBlanks blanks ∧ cs = blanks ++ rest ∧ Stops isBlank rest := by
  simp only [afterBlanks, Option.ite_none_right_eq_some, Option.some.injEq]
  constructor
  · rintro ⟨hlt, rfl⟩
    refine ⟨cs.takeWhile isBlank, ⟨fun hnil => ?_, List.all_takeWhile⟩,
      List.takeWhile_append_dropWhile.symm, stops_dropWhile _ _⟩
    have := congrArg List.length (List.takeWhile_append_dropWhile (p := isBlank) (l := cs))
    rw [hnil, List.nil_append] at this
    omega
  · rintro ⟨blanks, ⟨hne, hall⟩, rfl, hstops⟩
    rw [(takeWhile_append_of_stops hall hstops).2, List.length_append]
    exact ⟨Nat.lt_add_of_pos_left (List.length_pos_iff.mpr hne), rfl⟩

theorem digits_eq_some_iff {ds : List Char} :
    digits cs = some (ds, rest) ↔ IsDigits ds ∧ cs = ds ++ rest ∧ Stops Char.isDigit rest := by
  simp only [digits, Option.ite_none_left_eq_some, Option.some.injEq, Prod.mk.injEq]
  constructor
  · rintro ⟨hne, rfl, rfl⟩
    exact ⟨⟨fun hnil => hne (List.isEmpty_iff.mpr hnil), List.all_takeWhile⟩,
      List.takeWhile_append_dropWhile.symm, stops_dropWhile _ _⟩
  · rintro ⟨⟨hne, hall⟩, rfl, hstops⟩
    obtain ⟨htake, hdrop⟩ := takeWhile_append_of_stops hall hstops
    rw [htake, hdrop]
    exact ⟨fun h => hne (List.isEmpty_iff.mp h), rfl, rfl⟩

/-! ## Headers and sampling lines -/

theorem header?_eq_some_iff {first : List Char} (hend : Stops isBlank cs.reverse) :
    header? cs = some first ↔ ∃ second, IsHeader cs first second := by
  simp only [header?, Option.bind_eq_bind, Option.bind_eq_some_iff, afterWord_eq_some_iff,
    afterBlanks_eq_some_iff, digits_eq_some_iff, Prod.exists, Option.ite_none_right_eq_some,
    Option.some.injEq, IsHeader, Spaced]
  constructor
  · rintro ⟨_, rfl, _, ⟨b₁, hb₁, rfl, -⟩, _, rfl, _, ⟨b₂, hb₂, rfl, -⟩, first, _,
      ⟨hfirst, rfl, -⟩, _, ⟨b₃, hb₃, rfl, -⟩, second, rest, ⟨hsecond, rfl, -⟩, hall, rfl⟩
    obtain rfl : rest = [] := by
      simp only [← List.append_assoc] at hend
      exact eq_nil_of_stops_reverse hend hall
    exact ⟨second, hfirst, hsecond, b₁, _, hb₁, (List.append_assoc _ _ _).symm,
      b₂, _, hb₂, (List.append_assoc _ _ _).symm, b₃, _, hb₃, by simp, rfl⟩
  · rintro ⟨second, hfirst, hsecond, b₁, _, hb₁, rfl, b₂, _, hb₂, rfl, b₃, _, hb₃, rfl, rfl⟩
    refine ⟨_, List.append_assoc _ _ _, _, ⟨b₁, hb₁, rfl, stops_cons.mpr (by decide)⟩, _,
      List.append_assoc _ _ _, _, ⟨b₂, hb₂, rfl, ?_⟩, first, _,
      ⟨hfirst, List.append_assoc _ _ _, hb₃.stops_isDigit _⟩, _, ⟨b₃, hb₃, rfl, ?_⟩, _, [],
      ⟨hsecond, (List.append_nil _).symm, stops_nil _⟩, rfl, rfl⟩
    · rw [List.append_assoc]
      exact hfirst.stops_isBlank _
    · simpa using hsecond.stops_isBlank []

theorem sampling?_eq_some_iff (hend : Stops isBlank cs.reverse) :
    sampling? cs = some rest ↔ IsSampling cs rest := by
  simp only [sampling?, Option.bind_eq_bind, Option.bind_eq_some_iff, Option.or_eq_some_iff,
    afterWord_eq_some_iff, afterBlanks_eq_some_iff, IsSampling, Spaced]
  constructor
  · rintro ⟨_, rfl, _, ⟨b₁, hb₁, rfl, -⟩, _,
      rfl | ⟨-, _, rfl, _, ⟨b₂, hb₂, rfl, -⟩, rfl⟩, b₃, hb₃, rfl, hstops⟩
    all_goals
      have hne : rest ≠ [] := by
        rintro rfl
        simp only [← List.append_assoc, List.append_nil] at hend
        exact hb₃.1 (eq_nil_of_stops_reverse hend hb₃.2)
    · exact ⟨.inl ⟨b₁, _, hb₁, rfl, b₃, _, hb₃, rfl, rfl⟩, hne, hstops⟩
    · exact ⟨.inr ⟨b₁, _, hb₁, rfl, b₂, _, hb₂, rfl, b₃, _, hb₃, rfl, rfl⟩, hne, hstops⟩
  · rintro ⟨⟨b₁, _, hb₁, rfl, b₃, _, hb₃, rfl, rfl⟩ |
      ⟨b₁, _, hb₁, rfl, b₂, _, hb₂, rfl, b₃, _, hb₃, rfl, rfl⟩, -, hstops⟩
    · exact ⟨_, List.append_assoc _ _ _, _, ⟨b₁, hb₁, rfl, stops_cons.mpr (by decide)⟩, _,
        .inl (List.append_assoc _ _ _), b₃, hb₃, rfl, hstops⟩
    · exact ⟨_, List.append_assoc _ _ _, _, ⟨b₁, hb₁, rfl, stops_cons.mpr (by decide)⟩, _,
        .inr ⟨rfl, _, List.append_assoc _ _ _, _, ⟨b₂, hb₂, rfl, stops_cons.mpr (by decide)⟩,
          List.append_assoc _ _ _⟩, b₃, hb₃, rfl, hstops⟩

theorem head?_of_afterWord {c : Char} {word cs rest : List Char}
    (h : afterWord (c :: word) cs = some rest) : cs.head? = some c := by
  rw [afterWord] at h
  split at h
  · rename_i hp
    obtain ⟨_, rfl⟩ := List.isPrefixOf_iff_prefix.mp hp
    rfl
  · cases h

theorem head?_of_header? {cs varCount : List Char} (h : header? cs = some varCount) :
    cs.head? = some 'p' := by
  obtain ⟨_, hp, -⟩ := Option.bind_eq_some_iff.mp h
  exact head?_of_afterWord hp

theorem head?_of_sampling? {cs literals : List Char} (h : sampling? cs = some literals) :
    cs.head? = some 'c' := by
  obtain ⟨_, hc, -⟩ := Option.bind_eq_some_iff.mp h
  exact head?_of_afterWord hc

/-! ## Kinds -/

/-- The kind of a text without blanks at its ends, by its layout. -/
inductive HasKind (cs : List Char) : Line → Prop
  | blank (h : cs = []) : HasKind cs .blank
  | header {first second : List Char} (h : IsHeader cs first second) : HasKind cs (.header first)
  | sampling {rest : List Char} (h : IsSampling cs rest) : HasKind cs (.sampling rest)
  | comment (h : cs.head? = some 'c') (other : ∀ rest, ¬ IsSampling cs rest) : HasKind cs .comment
  | parity {text : List Char} (h : cs = 'x' :: text) : HasKind cs (.parity text)
  | clause (h : ∃ c ∈ cs.head?, c ≠ 'c' ∧ c ≠ 'x')
    (other : ∀ first second, ¬ IsHeader cs first second) : HasKind cs (.clause cs)

theorem exists_hasKind (cs : List Char) : ∃ kind, HasKind cs kind := by
  by_cases hheader : ∃ first second, IsHeader cs first second
  · obtain ⟨first, second, h⟩ := hheader
    exact ⟨_, .header h⟩
  by_cases hsampling : ∃ rest, IsSampling cs rest
  · obtain ⟨rest, h⟩ := hsampling
    exact ⟨_, .sampling h⟩
  cases cs with
  | nil => exact ⟨_, .blank rfl⟩
  | cons c rest =>
    by_cases hc : c = 'c'
    · exact ⟨_, .comment (hc ▸ rfl) (not_exists.mp hsampling)⟩
    by_cases hx : c = 'x'
    · exact ⟨.parity rest, .parity (by rw [hx])⟩
    exact ⟨_, .clause ⟨c, rfl, hc, hx⟩ fun first second h => hheader ⟨first, second, h⟩⟩

theorem ofTrimmed_of_hasKind (hend : Stops isBlank cs.reverse) {kind : Line}
    (h : HasKind cs kind) : ofTrimmed cs = kind := by
  cases h with
  | blank h =>
    subst h
    rfl
  | header h =>
    have hheader := (header?_eq_some_iff hend).mpr ⟨_, h⟩
    obtain ⟨rest, rfl⟩ := List.head?_eq_some_iff.mp (head?_of_header? hheader)
    simp only [ofTrimmed, hheader]
  | sampling h =>
    have hsampling := (sampling?_eq_some_iff hend).mpr h
    obtain ⟨rest, rfl⟩ := List.head?_eq_some_iff.mp (head?_of_sampling? hsampling)
    have hheader : header? ('c' :: rest) = none := rfl
    simp only [ofTrimmed, hheader, hsampling]
  | comment h other =>
    obtain ⟨rest, rfl⟩ := List.head?_eq_some_iff.mp h
    have hheader : header? ('c' :: rest) = none := rfl
    have hsampling : sampling? ('c' :: rest) = none :=
      Option.eq_none_iff_forall_ne_some.mpr fun rest h =>
        other rest ((sampling?_eq_some_iff hend).mp h)
    simp only [ofTrimmed, hheader, hsampling]
  | parity h =>
    subst h
    rfl
  | clause h other =>
    obtain ⟨c, hc, hne, hne'⟩ := h
    obtain ⟨rest, rfl⟩ := List.head?_eq_some_iff.mp hc
    have hheader : header? (c :: rest) = none :=
      Option.eq_none_iff_forall_ne_some.mpr fun first h => by
        obtain ⟨second, h⟩ := (header?_eq_some_iff hend).mp h
        exact other first second h
    have hsampling : sampling? (c :: rest) = none :=
      Option.eq_none_iff_forall_ne_some.mpr fun rest h =>
        hne (Option.some.inj (head?_of_sampling? h))
    simp [ofTrimmed, hheader, hsampling, hne, hne']

/-- The kind of a text without blanks at its ends is told by its layout. -/
theorem ofTrimmed_eq_iff (hend : Stops isBlank cs.reverse) {kind : Line} :
    ofTrimmed cs = kind ↔ HasKind cs kind := by
  refine ⟨?_, ofTrimmed_of_hasKind hend⟩
  rintro rfl
  obtain ⟨kind, h⟩ := exists_hasKind cs
  rwa [ofTrimmed_of_hasKind hend h]

end Line

end Cnf

end ParityBlocks
