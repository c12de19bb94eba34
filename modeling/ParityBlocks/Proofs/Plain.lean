import ParityBlocks.Proofs.Preparation

/-!
# Plain numberings

In a plain numbering (`Numbering.Plain`) every variable that has an entry in its tables
has one number only and stands for itself. The first numbering is plain, but its tables
end at the largest number that can be stored (`Numbering.plain_identity`), so that they
may have fewer entries than there are variables. Cleaning then takes out the variables
that have a value, and comes to a result for just the constraints whose variables all
have an entry (`Solver.reduce_plain`).
-/

namespace ParityBlocks

/-- Every variable has one number only, and stands for itself. -/
structure Numbering.Plain (n : Numbering) (size : Nat) : Prop where
  representative_eq : n.representative = Array.range size
  toInner_eq : n.toInner = Array.range size
  toOuter_eq : n.toOuter = Array.range size
  outerOfUser_eq (v : Var) : n.outerOfUser v = v

theorem getElem?_range_eq_some {size v w : Nat} :
    (Array.range size)[v]? = some w ↔ v < size ∧ w = v := by
  rw [Array.getElem?_eq_some_iff]
  simp only [Array.size_range, Array.getElem_range, exists_prop, eq_comm]

theorem getD_range (size v : Nat) : (Array.range size)[v]?.getD v = v := by
  cases h : (Array.range size)[v]? with
  | none => rfl
  | some w => exact (getElem?_range_eq_some.mp h).2

theorem Numbering.Plain.eq_of_replacementOf {n : Numbering} {size : Nat} (hn : n.Plain size)
    {v w : Var} (h : n.replacementOf v = .ok w) : v = w := by
  obtain ⟨o, r, ho, hr, hw⟩ := replacementOf_eq_ok.mp h
  rw [hn.toOuter_eq, getElem?_range_eq_some] at ho
  rw [hn.representative_eq, getElem?_range_eq_some] at hr
  rw [hn.toInner_eq, getElem?_range_eq_some] at hw
  rw [hw.2, hr.2, ho.2]

/-- The first numbering is plain. -/
theorem Numbering.plain_identity (varCount : Nat) :
    (identity varCount).Plain (varCount % Var.modulus) :=
  ⟨rfl, rfl, rfl, fun _ => rfl⟩

namespace Solver

variable {s : Solver} {size : Nat}

/-- In a plain numbering the values alone decide what is admitted. -/
theorem admits_plain (hn : s.numbering.Plain size) {a : Var → Bool}
    (h : ∀ {v b}, s.value v = some b → a v = b) : s.Admits a where
  value := h
  replacement hw := congrArg a (hn.eq_of_replacementOf hw)

theorem substitute_plain (hn : s.numbering.Plain size) (hs : size ≤ s.varCount) {v : Var}
    {x : Var × Option Bool} : s.substitute v = .ok x ↔ v < size ∧ x = (v, s.value v) := by
  obtain ⟨w, value⟩ := x
  rw [substitute_eq_ok, Numbering.replacementOf_eq_ok, hn.representative_eq, hn.toInner_eq,
    hn.toOuter_eq]
  simp only [getElem?_range_eq_some]
  constructor
  · rintro ⟨⟨_, _, ⟨hv, rfl⟩, ⟨-, rfl⟩, -, rfl⟩, hvalue⟩
    exact ⟨hv, by rw [Solver.value, hvalue]; rfl⟩
  · rintro ⟨hv, h⟩
    cases h
    refine ⟨⟨_, _, ⟨hv, rfl⟩, ⟨hv, rfl⟩, hv, rfl⟩, ?_⟩
    have hlt : v < s.values.size := Nat.lt_of_lt_of_le hv hs
    rw [Solver.value, Array.getElem?_eq_getElem hlt]
    rfl

/-- Reducing takes out the variables that have a value. -/
theorem reduce_plain (hn : s.numbering.Plain size) (hs : size ≤ s.varCount) {c c' : Constraint} :
    s.reduce c = .ok c' ↔ (∀ v ∈ c.vars, v < size) ∧
      c' = { c with
        vars := Ascending.oddOf (c.vars.filter fun v => (s.value v).isNone)
        rhs := (c.vars.filterMap s.value).foldl (· ^^ ·) c.rhs } := by
  simp only [reduce_eq_ok, substitute_plain hn hs]
  constructor
  · rintro ⟨terms, hterms, rfl⟩
    obtain rfl : terms = c.vars.map fun v => (v, s.value v) := by
      rw [← List.forall₂_eq_eq_eq, List.forall₂_map_right_iff]
      exact (hterms.imp fun _ _ h => h.2).flip
    rw [List.forall₂_map_right_iff, List.forall₂_same] at hterms
    exact ⟨fun v hv => (hterms v hv).1, remainder_map c s.value⟩
  · rintro ⟨hlt, rfl⟩
    refine ⟨c.vars.map fun v => (v, s.value v), ?_, (remainder_map c s.value).symm⟩
    rw [List.forall₂_map_right_iff, List.forall₂_same]
    exact fun v hv => ⟨hlt v hv, rfl⟩

end Solver

end ParityBlocks
