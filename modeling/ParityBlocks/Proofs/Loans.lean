import ParityBlocks.Proofs.Flags

/-!
# Calls to a loan of flags

Whoever has flags on loan marks variables and asks which ones are marked, in any order. A call that
faults changes nothing (`Marking.answer`), so calls may go on after it, or the loan may end with it.

What a call is answered is told by the calls before it (`Marking.Call.answerAfter`), because a loan
tracks its calls (`Marking.Tracks`): the flags of exactly those variables are set that were marked
and have one, and the loan remembers each of them once. Every call keeps that (`Tracks.answer`), and
so do all calls in turn (`Tracks.answerAll`, by induction on them). `markAll` is such calls up to
the first that faults (`Tracks.markAll`), so a ratio is found with a loan like any other, and the
flags are clear after it whether it was found or not (`Marking.gives_flags_back`).
-/

namespace ParityBlocks

namespace Marking

/-- A call to a loan. -/
inductive Call
  | mark (v : Var)
  | isMarked (v : Var)
deriving DecidableEq

/-- What a call is answered. -/
inductive Answer
  | done
  | flag (isSet : Bool)
  | fault (f : Fault)
deriving DecidableEq

/-- Answers a call. A fault leaves the loan as it is. -/
def answer (m : Marking) : Call → Marking × Answer
  | .mark v =>
    match m.mark v with
    | .error fault => (m, .fault fault)
    | .ok m => (m, .done)
  | .isMarked v => (m, .flag (m.isMarked v))

/-- Answers calls in turn, also those after a fault. -/
def answerAll (m : Marking) : List Call → Marking × List Answer
  | [] => (m, [])
  | c :: cs =>
    let rest := (m.answer c).1.answerAll cs
    (rest.1, (m.answer c).2 :: rest.2)

/-- What a call is answered after other calls, with `size` flags that were all clear at first. -/
def Call.answerAfter (size : Nat) (before : List Call) : Call → Answer
  | .mark v => if v < size then .done else .fault (.indexOutOfRange size v)
  | .isMarked v => .flag (decide (v < size ∧ .mark v ∈ before))

/-- Of `size` flags those are set that these calls marked, and the loan remembers each of them
once. -/
structure Tracks (m : Marking) (size : Nat) (calls : List Call) : Prop where
  holds : m.Holds size
  mem_marked : ∀ v, v ∈ m.marked ↔ v < size ∧ .mark v ∈ calls
  nodup : m.marked.Nodup

variable {m : Marking} {size : Nat}

/-! ## One call -/

namespace Tracks

variable {before : List Call}

theorem borrow (size : Nat) : (borrow (Array.replicate size false)).Tracks size [] where
  holds := .borrow size
  mem_marked v := by simp [Marking.borrow]
  nodup := .nil

theorem isMarked_eq (h : m.Tracks size before) (v : Var) :
    m.isMarked v = decide (v < size ∧ .mark v ∈ before) := by
  rw [Marking.isMarked, h.holds v]
  by_cases hv : v < size
  · simp [hv, h.mem_marked v]
  · simp [hv]

/-- A call that marks nothing new changes nothing. -/
theorem skip (h : m.Tracks size before) {c : Call}
    (hc : ∀ v, c = .mark v → v < size → v ∈ m.marked) : m.Tracks size (before ++ [c]) where
  holds := h.holds
  mem_marked v := by
    rw [List.mem_append, List.mem_singleton]
    constructor
    · intro hm
      obtain ⟨hv, hb⟩ := (h.mem_marked v).mp hm
      exact ⟨hv, .inl hb⟩
    · rintro ⟨hv, hb | rfl⟩
      · exact (h.mem_marked v).mpr ⟨hv, hb⟩
      · exact hc v rfl hv
  nodup := h.nodup

/-- Marking a variable for the first time. -/
theorem fresh (h : m.Tracks size before) {v : Var} (hv : v < size) (hm : v ∉ m.marked) :
    Tracks ⟨m.flags.setIfInBounds v true, v :: m.marked⟩ size (before ++ [.mark v]) where
  holds := by
    obtain ⟨m', hmark, hh, -⟩ := h.holds.mark hv
    rw [h.holds.mark_of_not_mem hv hm] at hmark
    exact Except.ok.inj hmark ▸ hh
  mem_marked w := by
    rw [List.mem_cons, List.mem_append, List.mem_singleton, Call.mark.injEq, h.mem_marked]
    constructor
    · rintro (rfl | ⟨hw, hb⟩)
      · exact ⟨hv, .inr rfl⟩
      · exact ⟨hw, .inl hb⟩
    · rintro ⟨hw, hb | rfl⟩
      · exact .inr ⟨hw, hb⟩
      · exact .inl rfl
  nodup := List.nodup_cons.mpr ⟨hm, h.nodup⟩

/-- A call is answered by what was marked before it, and is tracked itself. -/
theorem answer (h : m.Tracks size before) (c : Call) :
    (m.answer c).1.Tracks size (before ++ [c]) ∧ (m.answer c).2 = c.answerAfter size before := by
  cases c with
  | isMarked v =>
    refine ⟨h.skip fun w hw => ?_, congrArg Answer.flag (h.isMarked_eq v)⟩
    cases hw
  | mark v =>
    rw [Marking.answer, Call.answerAfter]
    rcases Nat.lt_or_ge v size with hv | hv
    · rw [if_pos hv]
      by_cases hm : v ∈ m.marked
      · rw [h.holds.mark_of_mem hv hm]
        refine ⟨h.skip fun w hw _ => ?_, rfl⟩
        obtain rfl := Call.mark.inj hw
        exact hm
      · rw [h.holds.mark_of_not_mem hv hm]
        exact ⟨h.fresh hv hm, rfl⟩
    · rw [h.holds.mark_of_le hv, if_neg (Nat.not_lt_of_le hv)]
      refine ⟨h.skip fun w hw hlt => ?_, rfl⟩
      obtain rfl := Call.mark.inj hw
      exact absurd hlt (Nat.not_lt_of_le hv)

/-! ## All calls -/

theorem answerAll (h : m.Tracks size before) (calls : List Call) :
    (m.answerAll calls).1.Tracks size (before ++ calls) ∧
      (m.answerAll calls).2.length = calls.length ∧
      ∀ (i : Nat) (c : Call), calls[i]? = some c →
        (m.answerAll calls).2[i]? = some (c.answerAfter size (before ++ calls.take i)) := by
  induction calls generalizing m before with
  | nil =>
    rw [List.append_nil]
    refine ⟨h, rfl, fun i c hc => ?_⟩
    cases hc
  | cons c calls ih =>
    obtain ⟨htracks, hanswer⟩ := h.answer c
    obtain ⟨hrest, hlength, hanswers⟩ := ih htracks
    rw [List.append_assoc] at hrest
    refine ⟨hrest, congrArg Nat.succ hlength, fun i d hd => ?_⟩
    rw [Marking.answerAll]
    cases i with
    | zero =>
      obtain rfl : c = d := Option.some.inj hd
      rw [List.getElem?_cons_zero, hanswer, List.take_zero, List.append_nil]
    | succ i =>
      rw [List.getElem?_cons_succ] at hd ⊢
      rw [hanswers i d hd, List.take_succ_cons, List.append_assoc]
      rfl

/-- Marking all variables of a list is a call for each of those before the first that has no
flag. -/
theorem markAll (h : m.Tracks size before) (vs : List Var) :
    m.markAll vs =
      ((m.answerAll ((vs.takeWhile fun v => decide (v < size)).map .mark)).1,
        (vs.find? fun v => decide (size ≤ v)).elim (.ok ()) fun v =>
          .error (.indexOutOfRange size v)) := by
  induction vs generalizing m before with
  | nil => rfl
  | cons v vs ih =>
    rw [Marking.markAll]
    rcases Nat.lt_or_ge v size with hv | hv
    · obtain ⟨m', hmark, -⟩ := h.holds.mark hv
      have hanswer : (m.answer (.mark v)).1 = m' := by rw [Marking.answer, hmark]
      simp only [List.takeWhile_cons, List.find?_cons, decide_eq_true hv,
        decide_eq_false (Nat.not_le_of_lt hv), if_true, List.map_cons, Marking.answerAll, hmark,
        hanswer]
      exact ih (hanswer ▸ (h.answer (.mark v)).1)
    · simp only [List.takeWhile_cons, List.find?_cons, decide_eq_true hv,
        decide_eq_false (Nat.not_lt_of_le hv), h.holds.mark_of_le hv]
      rfl

theorem release_markAll (h : m.Tracks size before) (vs : List Var) :
    (m.markAll vs).1.release = Array.replicate size false := by
  rw [h.markAll vs]
  exact (h.answerAll _).1.holds.release

end Tracks

end Marking

/-! ## Ratios -/

namespace SamplingSet

variable (set : SamplingSet) (members : List Var) (size : Nat)

theorem ratio_snd :
    (set.ratio members (Array.replicate size false)).2 = Array.replicate size false := by
  rw [ratio]
  split
  · rfl
  · exact (Marking.Tracks.borrow size).release_markAll members

variable {set members size}

/-- A member without a flag is a fault, which is about the first such member. -/
theorem ratio_fst_eq_error (hne : set.entries ≠ []) {v : Var}
    (hv : members.find? (fun v => decide (size ≤ v)) = some v) :
    (set.ratio members (Array.replicate size false)).1 =
      .error (.indexOutOfRange size v) := by
  rw [ratio, if_neg (mt List.isEmpty_iff.mp hne), (Marking.Tracks.borrow size).markAll members, hv]
  rfl

theorem ratio_fst_eq_ok {r : Binary64} :
    (set.ratio members (Array.replicate size false)).1 = .ok r ↔
      (set.entries = [] ∨ ∀ v ∈ members, v < size) ∧
        r = set.share fun v => decide (v ∈ members) := by
  have both : (set.ratio members (Array.replicate size false)).1 = .ok r ↔
      set.ratio members (Array.replicate size false) = (.ok r, Array.replicate size false) :=
    ⟨fun h => Prod.ext h (ratio_snd set members size), fun h => congrArg Prod.fst h⟩
  rw [both, ratio_eq_ok]
  exact ⟨fun ⟨hv, hr, _⟩ => ⟨hv, hr⟩, fun ⟨hv, hr⟩ => ⟨hv, hr, rfl⟩⟩

/-- Only which variables are members matters. -/
theorem ratio_fst_congr {members' : List Var} (h : ∀ v, v ∈ members' ↔ v ∈ members)
    (r : Binary64) :
    (set.ratio members' (Array.replicate size false)).1 = .ok r ↔
      (set.ratio members (Array.replicate size false)).1 = .ok r := by
  simp only [ratio_fst_eq_ok, h]

end SamplingSet

/-- Flags that are clear are so again after a loan. Whatever was called, each call was answered by
what was marked before it, or by a fault if it was to mark a variable without a flag; the variables
that are marked are those that have a flag and were marked; and ending the loan then clears each of
their flags, and no other one, once. A ratio leaves the flags as they were too, whether there was
nothing to find, a ratio or a fault, and it depends neither on the order of the members nor on how
often they are there. -/
theorem Marking.gives_flags_back {flags : Array Bool} (hclear : ∀ flag ∈ flags, flag = false) :
    (∀ calls : List Call,
      let loan := ((borrow flags).answerAll calls).1
      let answers := ((borrow flags).answerAll calls).2
      answers.length = calls.length ∧
        (∀ (i : Nat) (c : Call), calls[i]? = some c →
          answers[i]? = some (c.answerAfter flags.size (calls.take i))) ∧
        (∀ v, loan.isMarked v = true ↔ v < flags.size ∧ .mark v ∈ calls) ∧
        loan.marked.Nodup ∧ (∀ v ∈ loan.marked, v < flags.size) ∧ loan.release = flags) ∧
    ∀ (set : SamplingSet) (members : List Var),
      (set.ratio members flags).2 = flags ∧
        (set.entries = [] → (set.ratio members flags).1 = .ok .zero) ∧
        (set.entries ≠ [] → (∀ v ∈ members, v < flags.size) → (set.ratio members flags).1 =
          .ok (.quotient (set.coveredBy fun v => decide (v ∈ members)) set.size)) ∧
        (set.entries ≠ [] → ∀ v, members.find? (fun v => decide (flags.size ≤ v)) = some v →
          (set.ratio members flags).1 = .error (.indexOutOfRange flags.size v)) ∧
        ∀ members' : List Var, (∀ v, v ∈ members' ↔ v ∈ members) → ∀ r,
          (set.ratio members' flags).1 = .ok r ↔ (set.ratio members flags).1 = .ok r := by
  obtain ⟨size, rfl⟩ : ∃ size, flags = Array.replicate size false :=
    ⟨flags.size, Array.eq_replicate_iff.mpr ⟨rfl, hclear⟩⟩
  rw [Array.size_replicate]
  refine ⟨fun calls => ?_, fun set members => ⟨set.ratio_snd members size, fun he => ?_,
    fun hne hv => ?_, fun hne v => SamplingSet.ratio_fst_eq_error hne,
    fun members' h r => SamplingSet.ratio_fst_congr h r⟩⟩
  · obtain ⟨tracks, hlength, hanswers⟩ := (Tracks.borrow size).answerAll calls
    rw [List.nil_append] at tracks
    refine ⟨hlength, hanswers, fun v => ?_, tracks.nodup,
      fun v hv => ((tracks.mem_marked v).mp hv).1, tracks.holds.release⟩
    rw [tracks.isMarked_eq v, decide_eq_true_iff]
  · rw [SamplingSet.ratio_fst_eq_ok, SamplingSet.share, if_pos (List.isEmpty_iff.mpr he)]
    exact ⟨.inl he, rfl⟩
  · rw [SamplingSet.ratio_fst_eq_ok, SamplingSet.share, if_neg (mt List.isEmpty_iff.mp hne)]
    exact ⟨.inr hv, rfl⟩

/-- Marks one variable twice, another one between two faults, and asks about both, about one that is
marked later and about one without a flag. -/
def Marking.someCalls : List Call :=
  [.mark 1, .isMarked 3, .mark 1, .mark 9, .mark 3, .mark 4, .isMarked 3, .isMarked 9, .isMarked 1]

/-- One sampling variable that has a value, two of the solver and one that is unknown. -/
def mixedSampling : SamplingSet := ⟨[.assigned, .free 1, .free 2, .unknown]⟩

theorem Marking.gives_flags_back_sample :
    let flags : Array Bool := #[false, false, false, false]
    let loan := ((borrow flags).answerAll someCalls).1
    (∀ flag ∈ flags, flag = false) ∧
      ((borrow flags).answerAll someCalls).2 =
        [.done, .flag false, .done, .fault (.indexOutOfRange 4 9), .done,
          .fault (.indexOutOfRange 4 4), .flag true, .flag false, .flag true] ∧
      loan.flags = #[false, true, false, true] ∧ loan.release = flags ∧
      (mixedSampling.ratio [3, 1, 3] flags).1 = .ok (.quotient 2 4) ∧
      (mixedSampling.ratio [1, 3] flags).1 = .ok (.quotient 2 4) ∧
      mixedSampling.ratio [1, 7, 2, 4] flags = (.error (.indexOutOfRange 4 7), flags) ∧
      SamplingSet.ratio ⟨[]⟩ [7] flags = (.ok .zero, flags) := by
  intro flags loan
  have hclear : ∀ flag ∈ flags, flag = false := by simp [flags]
  have hne : mixedSampling.entries ≠ [] := by decide
  obtain ⟨calls, ratios⟩ := Marking.gives_flags_back hclear
  obtain ⟨-, -, -, -, -, release⟩ := calls someCalls
  obtain ⟨-, -, found, -, same⟩ := ratios mixedSampling [3, 1, 3]
  obtain ⟨clear, -, -, fails, -⟩ := ratios mixedSampling [1, 7, 2, 4]
  obtain ⟨clear', empty, -⟩ := ratios ⟨[]⟩ [7]
  have hfound := found hne (by decide)
  refine ⟨hclear, by decide +kernel, by decide +kernel, release, hfound,
    (same [1, 3] (fun v => ?_) _).mpr hfound, Prod.ext (fails hne 7 (by decide)) clear,
    Prod.ext (empty rfl) clear'⟩
  simp only [List.mem_cons, List.not_mem_nil, or_false]
  rw [or_left_comm, or_self]

end ParityBlocks
