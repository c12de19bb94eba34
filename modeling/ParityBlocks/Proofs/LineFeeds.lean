import Mathlib.Data.List.Basic
import ParityBlocks.Log

/-!
# Line feeds in texts

Of the text before it, all that matters for empty lines is how many line feeds it ends with.
`Text.feedsAfter` reads on from there and gives up where more than two line feeds follow each
other. A text that can be read after an empty line is well spaced (`Text.Reads.isWellSpaced`), and
what is counted are the line feeds at its end (`Text.Reads.endsWithGap`). Texts put together are
read one after the other (`Text.Reads.append`), so a long text is read piece by piece. Text that
was handed in is read as a whole, provided that none of its lines is empty
(`Text.HasNoEmptyLine.reads`).

Numbers, durations, constraints, and verdicts, causes and statuses in words stand within a line:
none of them has a line feed (`Text.IsInline`).
-/

namespace ParityBlocks

namespace Text

/-! ## Reading on -/

/-- The line feeds at the end of a text, where as many as given stand before it, and `none` if
somewhere more than two follow each other. -/
def feedsAfter : Nat → List Char → Option Nat
  | feeds, [] => some feeds
  | feeds, c :: cs =>
    if c = '\n' then if feeds < 2 then feedsAfter (feeds + 1) cs else none
    else feedsAfter 0 cs

/-- Read where `feeds` line feeds stand before it, the text ends with `feeds'` of them. -/
def Reads (feeds : Nat) (text : String) (feeds' : Nat) : Prop :=
  feedsAfter feeds text.toList = some feeds'

instance (feeds : Nat) (text : String) (feeds' : Nat) : Decidable (Reads feeds text feeds') :=
  inferInstanceAs (Decidable (_ = _))

variable {c : Char} {cs : List Char} {text text' : String} {feeds feeds' : Nat}

theorem feedsAfter_cons_of_ne (h : c ≠ '\n') : feedsAfter feeds (c :: cs) = feedsAfter 0 cs := by
  rw [feedsAfter, if_neg h]

theorem feedsAfter_append (feeds : Nat) (cs cs' : List Char) :
    feedsAfter feeds (cs ++ cs') = (feedsAfter feeds cs).bind (feedsAfter · cs') := by
  induction cs generalizing feeds with
  | nil => rfl
  | cons c cs ih =>
    rw [List.cons_append, feedsAfter, feedsAfter, ih, ih]
    split
    · split <;> rfl
    · rfl

theorem reads_empty (feeds : Nat) : Reads feeds "" feeds := rfl

namespace Reads

theorem append {feeds'' : Nat} (h : Reads feeds text feeds') (h' : Reads feeds' text' feeds'') :
    Reads feeds (text ++ text') feeds'' := by
  rw [Reads, String.toList_append, feedsAfter_append, h]
  exact h'

/-- What can be read after an empty line is read alike after anything. -/
theorem of_gap (h : Reads 2 text feeds') (hne : text ≠ "") (feeds : Nat) :
    Reads feeds text feeds' := by
  rw [Ne, ← String.toList_eq_nil_iff] at hne
  rw [Reads] at h ⊢
  cases hcs : text.toList with
  | nil => exact absurd hcs hne
  | cons c cs =>
    rw [hcs] at h
    have hc : c ≠ '\n' := by
      rintro rfl
      simp [feedsAfter] at h
    rwa [feedsAfter_cons_of_ne hc] at h ⊢

theorem join {texts : List String} (h : ∀ t ∈ texts, Reads feeds t feeds) :
    Reads feeds (String.join texts) feeds := by
  induction texts with
  | nil => exact reads_empty feeds
  | cons t texts ih =>
    rw [String.join_cons]
    exact (h t List.mem_cons_self).append (ih fun t' h' => h t' (List.mem_cons_of_mem t h'))

/-- At least one line, none of them empty, the last one without its line feed. -/
theorem intercalate {texts : List String} (hne : texts ≠ [])
    (h : ∀ t ∈ texts, ∀ feeds, Reads feeds t 0) (feeds : Nat) :
    Reads feeds ("\n".intercalate texts) 0 := by
  induction texts generalizing feeds with
  | nil => exact absurd rfl hne
  | cons t texts ih =>
    have ht := h t List.mem_cons_self feeds
    cases texts with
    | nil => exact ht
    | cons t' texts =>
      have hrest := ih (List.cons_ne_nil _ _) (fun u hu => h u (List.mem_cons_of_mem t hu)) 1
      rw [String.intercalate_cons_cons]
      exact (ht.append (by decide)).append hrest

end Reads

/-! ## What a text that was read is like -/

/-- The text neither begins with an empty line nor has two empty lines in a row. -/
def IsWellSpaced (text : String) : Prop :=
  text.toList.head? ≠ some '\n' ∧ ¬ ['\n', '\n', '\n'] <:+: text.toList

/-- The text ends with exactly one empty line, or there is none. -/
def EndsWithGap (text : String) : Prop :=
  text = "" ∨ ∃ cs c, c ≠ '\n' ∧ text.toList = cs ++ [c, '\n', '\n']

theorem exists_of_feedsAfter (h : feedsAfter feeds cs = some feeds') :
    (cs = List.replicate (feeds' - feeds) '\n' ∧ feeds ≤ feeds') ∨
      ∃ start c, c ≠ '\n' ∧ cs = start ++ c :: List.replicate feeds' '\n' := by
  induction cs generalizing feeds with
  | nil =>
    obtain rfl : feeds = feeds' := Option.some.inj h
    exact .inl ⟨by rw [Nat.sub_self]; rfl, Nat.le_refl _⟩
  | cons c cs ih =>
    by_cases hc : c = '\n'
    · subst hc
      rw [feedsAfter, if_pos rfl] at h
      split at h
      · obtain ⟨rfl, hle⟩ | ⟨start, c, hc, rfl⟩ := ih h
        · refine .inl ⟨?_, by omega⟩
          rw [← List.replicate_succ, show feeds' - (feeds + 1) + 1 = feeds' - feeds by omega]
        · exact .inr ⟨'\n' :: start, c, hc, rfl⟩
      · cases h
    · rw [feedsAfter_cons_of_ne hc] at h
      obtain ⟨rfl, -⟩ | ⟨start, d, hd, rfl⟩ := ih h
      · exact .inr ⟨[], c, hc, rfl⟩
      · exact .inr ⟨c :: start, d, hd, rfl⟩

theorem Reads.endsWithGap (h : Reads 2 text 2) : EndsWithGap text := by
  obtain ⟨hcs, -⟩ | ⟨cs, c, hc, hcs⟩ := exists_of_feedsAfter h
  · exact .inl (String.toList_eq_nil_iff.mp hcs)
  · exact .inr ⟨cs, c, hc, hcs⟩

theorem Reads.isWellSpaced (h : Reads 2 text feeds) : IsWellSpaced text := by
  rw [Reads] at h
  constructor
  · intro hhead
    obtain ⟨cs, hcs⟩ := List.head?_eq_some_iff.mp hhead
    simp [hcs, feedsAfter] at h
  · rintro ⟨cs, cs', hcs⟩
    rw [← hcs, List.append_assoc, feedsAfter_append] at h
    obtain ⟨before, -, h⟩ := Option.bind_eq_some_iff.mp h
    -- However many line feeds stand before these three, the third one is too many.
    have stuck : feedsAfter before (['\n', '\n', '\n'] ++ cs') = none := by
      simp only [feedsAfter, List.cons_append, if_true]
      split
      · split
        · rw [if_neg (by omega)]
        · rfl
      · rfl
    rw [stuck] at h
    cases h

/-! ## Texts without empty lines -/

/-- None of the lines is empty, a line being what stands between line feeds. -/
def HasNoEmptyLine (text : String) : Prop := [] ∉ text.toList.splitOn '\n'

instance (text : String) : Decidable (HasNoEmptyLine text) :=
  inferInstanceAs (Decidable (_ ∉ _))

/-- A line, which may be empty, and lines that are not, with a line feed put to their end. -/
theorem feedsAfter_of_tail_splitOn (h : [] ∉ (cs.splitOn '\n').tail) :
    feedsAfter 0 (cs ++ ['\n']) = some 1 := by
  induction cs with
  | nil => rfl
  | cons c cs ih =>
    rw [List.splitOn_cons_eq_if_modifyHead] at h
    by_cases hc : c = '\n'
    · rw [if_pos (beq_iff_eq.mpr hc), List.tail_cons] at h
      have hrest := ih fun ht => h (List.mem_of_mem_tail ht)
      cases cs with
      | nil => simp at h
      | cons d cs =>
        have hd : d ≠ '\n' := by
          rintro rfl
          simp [List.splitOn_cons_eq_if_modifyHead] at h
        rw [List.cons_append, feedsAfter_cons_of_ne hd] at hrest
        rw [hc, List.cons_append, List.cons_append, feedsAfter, if_pos rfl, if_pos (by decide),
          feedsAfter_cons_of_ne hd]
        exact hrest
    · rw [if_neg (mt beq_iff_eq.mp hc), List.tail_modifyHead] at h
      rw [List.cons_append, feedsAfter_cons_of_ne hc]
      exact ih h

theorem HasNoEmptyLine.reads (h : HasNoEmptyLine text) : Reads 2 (text ++ "\n") 1 := by
  have hrest := feedsAfter_of_tail_splitOn fun ht => h (List.mem_of_mem_tail ht)
  rw [Reads, String.toList_append]
  cases htext : text.toList with
  | nil => simp [HasNoEmptyLine, htext] at h
  | cons c cs =>
    have hc : c ≠ '\n' := by
      rintro rfl
      simp [HasNoEmptyLine, htext, List.splitOn_cons_eq_if_modifyHead] at h
    rw [htext, List.cons_append, feedsAfter_cons_of_ne hc] at hrest
    rw [List.cons_append, feedsAfter_cons_of_ne hc]
    exact hrest

/-! ## Texts within a line -/

/-- The text has no line feed. -/
def IsInline (text : String) : Prop := '\n' ∉ text.toList

instance (text : String) : Decidable (IsInline text) := inferInstanceAs (Decidable (_ ∉ _))

theorem isInline_append : IsInline (text ++ text') ↔ IsInline text ∧ IsInline text' := by
  rw [IsInline, String.toList_append, List.mem_append, not_or]
  exact Iff.rfl

theorem isInline_of_isDigit (h : ∀ c ∈ text.toList, c.isDigit = true) : IsInline text :=
  fun hc => by simpa using h _ hc

theorem isInline_intercalate {texts : List String} (hsep : IsInline text)
    (h : ∀ t ∈ texts, IsInline t) : IsInline (text.intercalate texts) := by
  induction texts with
  | nil => exact List.not_mem_nil
  | cons t texts ih =>
    have ht := h t List.mem_cons_self
    cases texts with
    | nil => exact ht
    | cons t' texts =>
      rw [String.intercalate_cons_cons]
      exact isInline_append.mpr ⟨isInline_append.mpr ⟨ht, hsep⟩,
        ih fun u hu => h u (List.mem_cons_of_mem t hu)⟩

theorem IsInline.reads (h : IsInline text) : Reads 0 text 0 := by
  rw [IsInline] at h
  rw [Reads]
  generalize text.toList = cs at h ⊢
  induction cs with
  | nil => rfl
  | cons c cs ih =>
    rw [List.mem_cons, not_or] at h
    rw [feedsAfter_cons_of_ne (Ne.symm h.1)]
    exact ih h.2

theorem IsInline.reads_of_ne (h : IsInline text) (hne : text ≠ "") (feeds : Nat) :
    Reads feeds text 0 := by
  have hread := h.reads
  rw [Ne, ← String.toList_eq_nil_iff] at hne
  rw [IsInline] at h
  rw [Reads] at hread ⊢
  cases hcs : text.toList with
  | nil => exact absurd hcs hne
  | cons c cs =>
    rw [hcs, List.mem_cons, not_or] at h
    rw [hcs] at hread
    rwa [feedsAfter_cons_of_ne (Ne.symm h.1)] at hread ⊢

end Text

/-! ## What is written within a line -/

open Text

theorem isDigit_of_mem_toString {n : Nat} {c : Char} (h : c ∈ (toString n).toList) :
    c.isDigit = true := by
  rw [Nat.toString_eq_repr, Nat.toList_repr] at h
  exact Nat.isDigit_of_mem_toDigits (by decide) (by decide) h

theorem isInline_toString (n : Nat) : IsInline (toString n) :=
  isInline_of_isDigit fun _ => isDigit_of_mem_toString

/-- A number goes on with a line, or begins one. -/
theorem reads_toString (feeds n : Nat) : Reads feeds (toString n) 0 :=
  (isInline_toString n).reads_of_ne Nat.repr_ne_empty feeds

theorem toList_pushn (c : Char) (n : Nat) (text : String) :
    (text.pushn c n).toList = text.toList ++ List.replicate n c := by
  rw [String.pushn_eq_repeat_push]
  induction n with
  | zero => simp [Nat.repeat]
  | succ n ih => rw [Nat.repeat, String.toList_push, ih, List.append_assoc, List.replicate_succ']

theorem isDigit_of_mem_zeroPadded {width n : Nat} {c : Char}
    (h : c ∈ (zeroPadded width n).toList) : c.isDigit = true := by
  rw [zeroPadded, String.toList_append, toList_pushn, List.mem_append] at h
  obtain h | h := h
  · rw [String.toList_empty, List.nil_append] at h
    rw [List.eq_of_mem_replicate h]
    rfl
  · exact isDigit_of_mem_toString h

theorem isInline_decimalText (places n : Nat) : IsInline (decimalText places n) := by
  rw [decimalText]
  split
  · exact isInline_toString n
  · exact isInline_append.mpr ⟨isInline_append.mpr ⟨isInline_toString _, by decide⟩,
      isInline_of_isDigit fun _ => isDigit_of_mem_zeroPadded⟩

namespace Binary64

theorem isInline_fixed (places : Nat) (x : Binary64) : IsInline (x.fixed places) := by
  rw [fixed, textWith]
  split
  · decide
  · refine isInline_append.mpr ⟨?_, ?_⟩
    · split <;> decide
    · split
      · decide
      · exact isInline_decimalText _ _

end Binary64

theorem isInline_percentText (ratio : Binary64) : IsInline (percentText ratio) :=
  isInline_append.mpr ⟨Binary64.isInline_fixed _ _, by decide⟩

namespace Duration

theorem isInline_fractionText (places num : Nat) : IsInline (fractionText places num) := by
  rw [fractionText]
  split
  · decide
  · refine isInline_append.mpr ⟨by decide, isInline_of_isDigit fun c hc => ?_⟩
    rw [String.toList_ofList, List.mem_reverse] at hc
    exact isDigit_of_mem_zeroPadded
      (List.mem_reverse.mp ((List.dropWhile_sublist _).mem hc))

theorem isInline_text (d : Duration) : IsInline d.text := by
  have inUnit (places : Nat) {unit : String} (h : IsInline unit) :
      IsInline (d.textIn places unit) :=
    isInline_append.mpr
      ⟨isInline_append.mpr ⟨isInline_toString _, isInline_fractionText _ _⟩, h⟩
  rw [text]
  split
  · exact inUnit 9 (by decide)
  · split
    · exact inUnit 6 (by decide)
    · split
      · exact inUnit 3 (by decide)
      · exact inUnit 0 (by decide)

end Duration

namespace Constraint

theorem isInline_sumText (vars : List Var) : IsInline (sumText vars) := by
  rw [sumText]
  split
  · decide
  · refine isInline_intercalate (by decide) fun t ht => ?_
    obtain ⟨v, -, rfl⟩ := List.mem_map.mp ht
    exact isInline_append.mpr ⟨by decide, isInline_toString v⟩

theorem isInline_text (c : Constraint) : IsInline c.text :=
  isInline_append.mpr
    ⟨isInline_append.mpr ⟨isInline_sumText _, by decide⟩, isInline_toString _⟩

end Constraint

theorem Verdict.isInline_text (v : Verdict) : IsInline v.text := by
  cases v with
  | rejected reason => cases reason <;> decide
  | _ => decide

theorem SkipCause.isInline_text (cause : SkipCause) : IsInline cause.text := by
  cases cause <;> decide

theorem Status.isInline_text (status : Status) : IsInline status.text := by
  cases status <;> decide

end ParityBlocks
