import ParityBlocks.Cnf.Literal
import ParityBlocks.Proofs.Checked

/-!
# Numerals

The integer that a numeral stands for, however many bits it takes, is `Text.integer?`. A
numeral is read exactly if its integer is in range (`Text.readSigned_eq_ok_iff`, and
`Text.readUnsigned_eq_ok_iff` for a number without a sign). So words are read as a list of
literals exactly if they stand for the integers of literals, all in range, and for a 0 at
the end (`Cnf.readLiterals_eq_ok_iff`).
-/

namespace ParityBlocks

/-! ## Numbers -/

namespace Text

/-- The number that decimal digits stand for. -/
def digitsValue (ds : List Char) : Nat :=
  ds.foldl (fun n c => 10 * n + (c.toNat - '0'.toNat)) 0

/-- The number of a numeral without a sign. -/
def natural? (cs : List Char) : Option Nat :=
  if cs ≠ [] ∧ cs.all Char.isDigit then some (digitsValue cs) else none

/-- The number of a numeral that may have a sign. -/
def integer? : List Char → Option Int
  | '-' :: cs => (natural? cs).map fun n => -Int.ofNat n
  | '+' :: cs => (natural? cs).map Int.ofNat
  | cs => (natural? cs).map Int.ofNat

theorem natural?_eq_some_iff {cs : List Char} {n : Nat} :
    natural? cs = some n ↔ cs ≠ [] ∧ cs.all Char.isDigit = true ∧ n = digitsValue cs := by
  rw [natural?, Option.ite_none_right_eq_some, Option.some.injEq, and_assoc, eq_comm (a := n)]

/-- No numeral starts with any other character. -/
theorem integer?_cons_eq_none {c : Char} {cs : List Char} (hdigit : c.isDigit = false)
    (hminus : c ≠ '-') (hplus : c ≠ '+') : integer? (c :: cs) = none := by
  have hnone : natural? (c :: cs) = none := by
    rw [natural?, if_neg]
    simp [hdigit]
  rw [integer?, hnone, Option.map_none]
  · exact fun _ h => hminus (List.cons.inj h).1
  · exact fun _ h => hplus (List.cons.inj h).1

/-! ## Reading numerals -/

theorem digit?_eq_some_iff {c : Char} {d : Nat} :
    digit? c = some d ↔ c.isDigit = true ∧ d = c.toNat - '0'.toNat := by
  have isDigit_iff : c.isDigit = true ↔ '0' ≤ c ∧ c ≤ '9' := by
    simp only [Char.isDigit, Bool.and_eq_true, decide_eq_true_eq]
    rfl
  rw [digit?, Option.ite_none_right_eq_some, Option.some.injEq, isDigit_iff, eq_comm (a := d)]

/-- Further digits make a number no smaller. -/
theorem le_foldl_digits (cs : List Char) (value : Nat) :
    value ≤ cs.foldl (fun n c => 10 * n + (c.toNat - '0'.toNat)) value := by
  induction cs generalizing value with
  | nil => exact Nat.le_refl _
  | cons c cs ih =>
    calc value ≤ 10 * value + (c.toNat - '0'.toNat) := by omega
      _ ≤ _ := ih _

theorem readDigits_eq_ok_iff {limit : Nat} {beyond : NumeralError} {cs : List Char}
    {value n : Nat} (hv : value ≤ limit) :
    readDigits limit beyond value cs = .ok n ↔
      (cs.all Char.isDigit = true ∧
        n = cs.foldl (fun n c => 10 * n + (c.toNat - '0'.toNat)) value) ∧ n ≤ limit := by
  induction cs generalizing value with
  | nil =>
    rw [readDigits, Except.ok.injEq]
    constructor
    · rintro rfl
      exact ⟨⟨rfl, rfl⟩, hv⟩
    · exact fun h => h.1.2.symm
  | cons c cs ih =>
    rw [readDigits, List.all_cons, List.foldl_cons, Bool.and_eq_true]
    cases hd : digit? c with
    | none =>
      refine iff_of_false (by simp) fun h => ?_
      rw [digit?_eq_some_iff.mpr ⟨h.1.1.1, rfl⟩] at hd
      cases hd
    | some d =>
      obtain ⟨hdigit, rfl⟩ := digit?_eq_some_iff.mp hd
      dsimp only
      split
      · rename_i hle
        rw [ih hle, hdigit, and_iff_right rfl]
      · rename_i hle
        refine iff_of_false (by simp) ?_
        rintro ⟨⟨-, rfl⟩, hn⟩
        exact hle (Nat.le_trans (le_foldl_digits cs _) hn)

theorem readMagnitude_eq_ok_iff {limit : Nat} {beyond : NumeralError} {cs : List Char} {n : Nat} :
    readMagnitude limit beyond cs = .ok n ↔ natural? cs = some n ∧ n ≤ limit := by
  rw [natural?_eq_some_iff]
  cases cs with
  | nil =>
    rw [readMagnitude]
    exact iff_of_false (by simp) fun h => h.1.1 rfl
  | cons c cs =>
    rw [readMagnitude, readDigits_eq_ok_iff (Nat.zero_le limit),
      and_iff_right (List.cons_ne_nil c cs)]
    · rfl
    · exact List.cons_ne_nil c cs

/-- The numeral of a number without a sign. -/
theorem readUnsigned_eq_ok_iff {bits : Nat} {cs : List Char} (hall : cs.all Char.isDigit = true)
    {n : Nat} : readUnsigned bits cs = .ok n ↔ natural? cs = some n ∧ n ≤ (1 <<< bits) - 1 := by
  unfold readUnsigned
  split
  · exact iff_of_false (by simp) fun h => absurd h.1 (by simp [natural?])
  · cases hall
  · exact readMagnitude_eq_ok_iff

/-- The integer has so many bits, one of them for the sign. -/
def InRange (bits : Nat) (k : Int) : Prop :=
  -((1 <<< (bits - 1) : Nat) : Int) ≤ k ∧ k < ((1 <<< (bits - 1) : Nat) : Int)

instance (bits : Nat) (k : Int) : Decidable (InRange bits k) :=
  inferInstanceAs (Decidable (_ ∧ _))

/-- The numeral of an integer is read if the integer is in range, and only then. -/
theorem readSigned_eq_ok_iff {bits : Nat} {cs : List Char} {k : Int} :
    readSigned bits cs = .ok k ↔ integer? cs = some k ∧ InRange bits k := by
  have pos : 0 < 1 <<< (bits - 1) := by
    rw [Nat.one_shiftLeft]
    exact Nat.two_pow_pos _
  rw [InRange]
  unfold readSigned
  generalize 1 <<< (bits - 1) = limit at pos ⊢
  have positive : ∀ {cs : List Char},
      (readMagnitude (limit - 1) .tooLarge cs).map Int.ofNat = .ok k ↔
        (natural? cs).map Int.ofNat = some k ∧ -(limit : Int) ≤ k ∧ k < limit := by
    intro cs
    rw [Checked.map_eq_ok, Option.map_eq_some_iff]
    constructor
    · rintro ⟨n, hn, rfl⟩
      obtain ⟨hn, hle⟩ := readMagnitude_eq_ok_iff.mp hn
      refine ⟨⟨n, hn, rfl⟩, ?_⟩
      simp only [Int.ofNat_eq_natCast]
      omega
    · rintro ⟨⟨n, hn, rfl⟩, hk⟩
      refine ⟨n, readMagnitude_eq_ok_iff.mpr ⟨hn, ?_⟩, rfl⟩
      simp only [Int.ofNat_eq_natCast] at hk
      omega
  have negative : ∀ {cs : List Char},
      (readMagnitude limit .tooSmall cs).map (fun n => -(n : Int)) = .ok k ↔
        (natural? cs).map (fun n => -Int.ofNat n) = some k ∧ -(limit : Int) ≤ k ∧ k < limit := by
    intro cs
    rw [Checked.map_eq_ok, Option.map_eq_some_iff]
    constructor
    · rintro ⟨m, hm, rfl⟩
      obtain ⟨n, hn, hm⟩ := Checked.bind_eq_ok.mp hm
      cases hm
      obtain ⟨hn, hle⟩ := readMagnitude_eq_ok_iff.mp hn
      refine ⟨⟨n, hn, rfl⟩, ?_⟩
      omega
    · rintro ⟨⟨n, hn, rfl⟩, hk⟩
      simp only [Int.ofNat_eq_natCast] at hk
      have hn : readMagnitude limit .tooSmall cs = .ok n :=
        readMagnitude_eq_ok_iff.mpr ⟨hn, by omega⟩
      exact ⟨n, Checked.bind_eq_ok.mpr ⟨n, hn, rfl⟩, rfl⟩
  split
  · exact iff_of_false (by simp) fun h => absurd h.1 (by simp [integer?, natural?])
  · exact negative
  · exact positive
  · rename_i hminus hplus
    rw [integer?]
    · exact positive
    · exact hminus
    · exact hplus

/-- A character that is no blank starts the first word. -/
theorem exists_words_cons {c : Char} (h : isAsciiBlank c = false) (cs : List Char) :
    ∃ word rest, words (c :: cs) = (c :: word) :: rest := by
  obtain ⟨word, pieces, hpieces⟩ :=
    List.exists_cons_of_ne_nil (List.splitOnP_ne_nil isAsciiBlank cs)
  refine ⟨word, pieces.filter fun word => !word.isEmpty, ?_⟩
  rw [words, List.splitOnP_cons_eq_if_modifyHead, h, hpieces]
  rfl

end Text

/-! ## Reading lists of literals -/

namespace Cnf

/-- The integers are those of literals of `declared` variables, and are in range. -/
def AreLiterals (declared : Nat) (ks : List Int) : Prop :=
  ∀ k ∈ ks, k ≠ 0 ∧ k.natAbs ≤ declared ∧ Text.InRange 64 k

instance (declared : Nat) (ks : List Int) : Decidable (AreLiterals declared ks) :=
  inferInstanceAs (Decidable (∀ k ∈ ks, _))

variable {declared : Nat} {words : List (List Char)}

theorem exists_of_readLiterals {ls : List Literal} (h : readLiterals declared words = .ok ls) :
    ∃ ks, words.mapM Text.integer? = some (ks ++ [0]) ∧ ls = ks.map Literal.ofInt ∧
      AreLiterals declared ks := by
  induction words generalizing ls with
  | nil => cases h
  | cons word rest ih =>
    unfold readLiterals at h
    split at h
    · cases h
    · rename_i number hnumber
      obtain ⟨hword, hin⟩ := Text.readSigned_eq_ok_iff.mp hnumber
      split at h
      · rename_i hzero
        subst hzero
        split at h
        · cases h
          exact ⟨[], by simp [hword], rfl, nofun⟩
        · cases h
      · rename_i hzero
        split at h
        · cases h
        · rename_i hrange
          obtain ⟨rest, hrest, rfl⟩ := Checked.map_eq_ok.mp h
          obtain ⟨ks, hks, rfl, hall⟩ := ih hrest
          refine ⟨number :: ks, by simp [hword, hks], rfl, ?_⟩
          exact List.forall_mem_cons.mpr ⟨⟨hzero, Nat.le_of_not_lt hrange, hin⟩, hall⟩

/-- The first of the integers that words stand for is that of the first word. -/
theorem exists_of_mapM_eq_some_cons {f : List Char → Option Int} {k : Int} {ks : List Int}
    (h : words.mapM f = some (k :: ks)) :
    ∃ word rest, words = word :: rest ∧ f word = some k ∧ rest.mapM f = some ks := by
  cases words with
  | nil => cases h
  | cons word rest =>
    rw [List.mapM_cons] at h
    obtain ⟨k', hk, h⟩ := Option.bind_eq_some_iff.mp h
    obtain ⟨ks', hks, h⟩ := Option.bind_eq_some_iff.mp h
    cases h
    exact ⟨word, rest, rfl, hk, hks⟩

theorem readLiterals_of_areLiterals {ks : List Int}
    (h : words.mapM Text.integer? = some (ks ++ [0])) (hall : AreLiterals declared ks) :
    readLiterals declared words = .ok (ks.map Literal.ofInt) := by
  induction ks generalizing words with
  | nil =>
    obtain ⟨word, rest, rfl, hword, hrest⟩ := exists_of_mapM_eq_some_cons h
    have hzero : Text.readSigned 64 word = .ok 0 :=
      Text.readSigned_eq_ok_iff.mpr ⟨hword, by decide⟩
    cases rest with
    | nil =>
      unfold readLiterals
      rw [hzero]
      rfl
    | cons next rest =>
      rw [List.mapM_cons] at hrest
      obtain ⟨_, -, hrest⟩ := Option.bind_eq_some_iff.mp hrest
      obtain ⟨_, -, hrest⟩ := Option.bind_eq_some_iff.mp hrest
      cases hrest
  | cons k ks ih =>
    obtain ⟨word, rest, rfl, hword, hrest⟩ := exists_of_mapM_eq_some_cons h
    obtain ⟨⟨hzero, hrange, hin⟩, hall⟩ := List.forall_mem_cons.mp hall
    unfold readLiterals
    rw [Text.readSigned_eq_ok_iff.mpr ⟨hword, hin⟩]
    dsimp only
    rw [if_neg hzero, if_neg (Nat.not_lt.mpr hrange), ih hrest hall]
    rfl

/-- Words are read as literals exactly if they are numerals of literals, and of a 0 at the
end. -/
theorem readLiterals_eq_ok_iff {ls : List Literal} :
    readLiterals declared words = .ok ls ↔
      ∃ ks, words.mapM Text.integer? = some (ks ++ [0]) ∧ ls = ks.map Literal.ofInt ∧
        AreLiterals declared ks := by
  refine ⟨exists_of_readLiterals, ?_⟩
  rintro ⟨ks, hks, rfl, hall⟩
  exact readLiterals_of_areLiterals hks hall

end Cnf

end ParityBlocks
