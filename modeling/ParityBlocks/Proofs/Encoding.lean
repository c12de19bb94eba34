import ParityBlocks.Cnf.Problem

/-!
# The lines of encoded texts

Where an encoding of characters keeps the line feed and the carriage return apart from all
others (`Text.KeepsMark`), the lines of an encoded text are its encoded lines
(`Text.linesOf_flatMap`, by induction from line feed to line feed). UTF-8 is such an encoding,
so a text and its bytes in UTF-8 are the same problem, or fail alike
(`Cnf.Problem.ofBytes_toUTF8`).
-/

namespace ParityBlocks

/-! ## Encodings that keep a mark apart -/

namespace Text

variable {α β : Type} [DecidableEq α] [DecidableEq β] {code : α → List β}

/-- The encoding gives every element something, the mark `mark'` to `mark`, and none of
these to any other. -/
structure KeepsMark (code : α → List β) (mark : α) (mark' : β) : Prop where
  ne_nil (x : α) : code x ≠ []
  self : code mark = [mark']
  other {x : α} (h : x ≠ mark) : mark' ∉ code x

namespace KeepsMark

variable {mark : α} {mark' : β} (h : KeepsMark code mark mark')
include h

omit [DecidableEq α] [DecidableEq β] in
theorem notMem_flatMap {xs : List α} (hxs : mark ∉ xs) : mark' ∉ xs.flatMap code := by
  rw [List.mem_flatMap]
  rintro ⟨x, hx, hmem⟩
  exact h.other (fun heq => hxs (heq ▸ hx)) hmem

omit [DecidableEq α] [DecidableEq β] in
theorem flatMap_eq_nil {xs : List α} (hxs : xs.flatMap code = []) : xs = [] :=
  List.eq_nil_iff_forall_not_mem.mpr fun x hx =>
    h.ne_nil x (List.flatMap_eq_nil_iff.mp hxs x hx)

theorem dropEnd_flatMap (xs : List α) :
    dropEnd mark' (xs.flatMap code) = (dropEnd mark xs).flatMap code := by
  rcases List.eq_nil_or_concat xs with rfl | ⟨front, x, rfl⟩
  · rfl
  · rw [List.concat_eq_append, List.flatMap_append, List.flatMap_singleton]
    by_cases hx : x = mark
    · rw [hx, h.self, dropEnd_concat, dropEnd_concat]
    · have hlast : (front.flatMap code ++ code x).getLast? ≠ some mark' := by
        rw [List.getLast?_append, List.getLast?_eq_some_getLast (h.ne_nil x), Option.some_or]
        exact fun hlast => h.other hx (Option.some.inj hlast ▸ List.getLast_mem _)
      rw [dropEnd_of_ne hlast, dropEnd_of_ne (by simpa using hx), List.flatMap_append,
        List.flatMap_singleton]

end KeepsMark

variable {lf cr : α} {lf' cr' : β}

/-- The lines of an encoded text are its encoded lines. -/
theorem linesOf_flatMap (hlf : KeepsMark code lf lf') (hcr : KeepsMark code cr cr')
    (xs : List α) :
    linesOf lf' cr' (xs.flatMap code) = (linesOf lf cr xs).map (·.flatMap code) := by
  induction xs using line_induction lf with
  | unended line h =>
    by_cases hnil : line = []
    · subst hnil
      rfl
    · rw [linesOf_of_notMem h hnil,
        linesOf_of_notMem (hlf.notMem_flatMap h) fun hcode => hnil (hlf.flatMap_eq_nil hcode)]
      rfl
  | ended line rest h next =>
    rw [List.flatMap_append, List.flatMap_cons, hlf.self, List.singleton_append,
      linesOf_append_cons (hlf.notMem_flatMap h), linesOf_append_cons h, hcr.dropEnd_flatMap, next]
    rfl

end Text

/-! ## UTF-8 -/

namespace Text

/-- In UTF-8 a byte below 128 is an ASCII character. -/
theorem eq_toNat_of_mem_utf8EncodeChar {c : Char} {b : UInt8} (hb : b ∈ String.utf8EncodeChar c)
    (hlt : b.toNat < 128) : b.toNat = c.toNat := by
  change b.toNat = c.val.toNat
  unfold String.utf8EncodeChar at hb
  dsimp only at hb
  generalize c.val.toNat = v at hb ⊢
  have toNat_eq : ∀ {n : Nat}, b = UInt8.ofNat n → b.toNat = n % 256 := by
    rintro n rfl
    exact UInt8.toNat_ofNat'
  split at hb
  · rw [toNat_eq (List.mem_singleton.mp hb)]
    omega
  · -- all bytes of a longer code are 128 or more
    exfalso
    split at hb
    · simp only [List.mem_cons, List.not_mem_nil, or_false] at hb
      rcases hb with hb | hb <;> have := toNat_eq hb <;> omega
    · split at hb
      · simp only [List.mem_cons, List.not_mem_nil, or_false] at hb
        rcases hb with hb | hb | hb <;> have := toNat_eq hb <;> omega
      · simp only [List.mem_cons, List.not_mem_nil, or_false] at hb
        rcases hb with hb | hb | hb | hb <;> have := toNat_eq hb <;> omega

theorem keepsMark_utf8EncodeChar {c : Char} (hc : c.toNat < 128) :
    KeepsMark String.utf8EncodeChar c c.toNat.toUInt8 where
  ne_nil _ := String.utf8EncodeChar_ne_nil
  self := by
    unfold String.utf8EncodeChar
    dsimp only
    rw [if_pos (by exact Nat.le_of_lt_succ hc)]
    rfl
  other := by
    intro x hx hmem
    have hself : c.toNat.toUInt8.toNat = c.toNat := Nat.mod_eq_of_lt (by omega)
    have heq := eq_toNat_of_mem_utf8EncodeChar hmem (by omega)
    exact hx (Char.toNat_inj.mp (heq.symm.trans hself))

theorem toList_loop_eq (bytes : ByteArray) (i : Nat) (found : List UInt8) :
    ByteArray.toList.loop bytes i found = found.reverse ++ bytes.data.toList.drop i := by
  fun_induction ByteArray.toList.loop bytes i found with
  | case1 i found hi ih =>
    have hlt : i < bytes.data.toList.length := hi
    have hget : bytes.get! i = bytes.data.toList[i] := by
      simp [ByteArray.get!, hi]
    rw [ih, List.reverse_cons, List.append_assoc, List.drop_eq_getElem_cons hlt, hget]
    rfl
  | case2 i found hi =>
    rw [List.drop_eq_nil_of_le (Nat.le_of_not_lt hi), List.append_nil]

theorem toList_toUTF8 (text : String) :
    text.toUTF8.toList = text.toList.flatMap String.utf8EncodeChar := by
  have encoded : text.toUTF8 = (text.toList.flatMap String.utf8EncodeChar).toByteArray :=
    String.utf8Encode_toList.symm
  rw [encoded, ByteArray.toList, toList_loop_eq, List.toList_data_toByteArray]
  rfl

end Text

namespace Cnf.Problem

theorem decodeLine_flatMap (cs : List Char) :
    decodeLine (cs.flatMap String.utf8EncodeChar) = some cs := by
  have valid : (cs.flatMap String.utf8EncodeChar).toByteArray.IsValidUTF8 :=
    (String.ofList cs).isValidUTF8
  rw [decodeLine, String.fromUTF8?, dif_pos valid, Option.map_some]
  exact congrArg some (String.toList_ofList)

/-- A text in UTF-8 is read as the text. -/
theorem ofBytes_toUTF8 (text : String) : ofBytes text.toUTF8 = ofText text := by
  have lines := Text.linesOf_flatMap (Text.keepsMark_utf8EncodeChar (c := '\n') (by decide))
    (Text.keepsMark_utf8EncodeChar (c := '\r') (by decide)) text.toList
  have lines : Text.linesOf 10 13 text.toUTF8.toList =
      (Text.linesOf '\n' '\r' text.toList).map (·.flatMap String.utf8EncodeChar) := by
    rw [Text.toList_toUTF8]
    exact lines
  rw [ofBytes, ofText, lines, List.map_map]
  exact congrArg ofLines (List.map_congr_left fun line _ => decodeLine_flatMap line)

end Cnf.Problem

end ParityBlocks
