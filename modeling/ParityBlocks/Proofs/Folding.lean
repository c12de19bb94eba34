import ParityBlocks.Proofs.Normal

/-!
# Combining by definition and in place

`Folds cs cs'` says what combining makes of constraints without a pass through them: a constraint
keeps its place, and it is cancelled if an earlier one has the same variables. That is what
`folded` comes to (`getElem?_folded`, by induction on the constraints), and hence what
`Solver.combine` leaves where it succeeds.

`combineTable` is the pass as it is done in one table, which it changes while it goes through it.
It notes for each list of variables only the position of the first constraint that has them, and
reads that constraint again where it meets these variables once more. What is noted are positions
before the present one, of constraints that were left as they are (`PointsTo`), so it reads what
`combineAll` has kept (`combineFrom_eq`, by induction on the constraints that are left).
-/

namespace ParityBlocks

/-! ## The definition -/

/-- What combining makes of constraints. -/
structure Folds (cs cs' : List Constraint) : Prop where
  length_eq : cs'.length = cs.length
  /-- A constraint without variables, or the first one with its variables, stays. -/
  kept : ∀ i c, cs[i]? = some c → (c.vars = [] ∨ ∀ d ∈ cs.take i, d.vars ≠ c.vars) →
    cs'[i]? = some c
  /-- A later one becomes `0 = 0`. -/
  cancelled : ∀ i c, cs[i]? = some c → c.vars ≠ [] → (∃ d ∈ cs.take i, d.vars = c.vars) →
    cs'[i]? = some
      { vars := [], rhs := false, cancelled := c.cancelled ++ c.vars, placement := c.placement }
  /-- No list of variables is there twice. -/
  nodup : (supports cs').Nodup

theorem getElem?_folded (before : List (List Var)) (cs : List Constraint) (i : Nat) :
    (folded before cs)[i]? = cs[i]?.map fun c =>
      if c.isTrivial = false ∧ (c.vars ∈ before ∨ ∃ d ∈ cs.take i, d.vars = c.vars) then c.cancel
      else c := by
  induction cs generalizing before i with
  | nil => rfl
  | cons c cs ih =>
    cases i with
    | zero => simp [folded]
    | succ i =>
      rw [folded, List.getElem?_cons_succ, List.getElem?_cons_succ, ih]
      congr 1
      funext d
      simp only [List.take_succ_cons, List.mem_cons, exists_eq_or_imp, eq_comm (a := c.vars),
        or_assoc, or_left_comm (a := d.vars = c.vars)]

theorem folds_folded (cs : List Constraint) : Folds cs (folded [] cs) where
  length_eq := length_folded [] cs
  kept i c hc hkept := by
    rw [getElem?_folded, hc, Option.map_some, if_neg]
    rintro ⟨ht, hbefore | ⟨d, hd, hvars⟩⟩
    · exact absurd hbefore List.not_mem_nil
    · obtain hnil | hfirst := hkept
      · exact Constraint.isTrivial_eq_false.mp ht hnil
      · exact hfirst d hd hvars
  cancelled i c hc hne hrepeats := by
    rw [getElem?_folded, hc, Option.map_some,
      if_pos ⟨Constraint.isTrivial_eq_false.mpr hne, .inr hrepeats⟩]
    rfl
  nodup := nodup_supports_folded [] cs

/-! ## The pass in place -/

/-- Combines the `n` constraints from position `i` on in a table, where `positions` holds the
position of the first constraint met so far for each list of variables. -/
def combineFrom (table : Array Constraint) (positions : Std.TreeMap (List Var) Nat) (i : Nat) :
    Nat → Array Constraint × Except Failure Unit
  | 0 => (table, .ok ())
  | n + 1 =>
    match lookup table i with
    | .error fault => (table, .error (.fault fault))
    | .ok c =>
      if c.isTrivial then combineFrom table positions (i + 1) n
      else
        match positions[c.vars]? with
        | none => combineFrom table (positions.insert c.vars i) (i + 1) n
        | some j =>
          match lookup table j with
          | .error fault => (table, .error (.fault fault))
          | .ok first =>
            if first.rhs = c.rhs then
              combineFrom (table.setIfInBounds i c.cancel) positions (i + 1) n
            else (table, .error (.contradiction (.opposite first c)))

/-- Combines the constraints of a table in place. -/
def combineTable (table : Array Constraint) : Array Constraint × Except Failure Unit :=
  combineFrom table {} 0 table.size

/-- The positions are those of the first constraints, in what has been worked on. -/
structure PointsTo (positions : Std.TreeMap (List Var) Nat)
    (firsts : Std.TreeMap (List Var) Constraint) (done : List Constraint) : Prop where
  lt : ∀ (vs : List Var) (j : Nat), positions[vs]? = some j → j < done.length
  getElem?_eq : ∀ vs : List Var, firsts[vs]? = positions[vs]?.bind (done[·]?)

namespace PointsTo

variable {positions : Std.TreeMap (List Var) Nat} {firsts : Std.TreeMap (List Var) Constraint}
variable {done : List Constraint}

theorem empty : PointsTo {} {} [] where
  lt vs j h := by simp at h
  getElem?_eq vs := by simp

/-- Positions stay when another constraint is done with, whatever has become of it. -/
theorem concat (h : PointsTo positions firsts done) (c : Constraint) :
    PointsTo positions firsts (done ++ [c]) where
  lt vs j hj := by
    rw [List.length_append]
    exact Nat.lt_add_right _ (h.lt vs j hj)
  getElem?_eq vs := by
    rw [h.getElem?_eq vs]
    cases hj : positions[vs]? with
    | none => rfl
    | some j => exact (List.getElem?_append_left (h.lt vs j hj)).symm

/-- The first constraint with its variables is noted where it is. -/
theorem insert (h : PointsTo positions firsts done) (c : Constraint) :
    PointsTo (positions.insert c.vars done.length) (firsts.insert c.vars c) (done ++ [c]) where
  lt vs j hj := by
    rw [Std.TreeMap.getElem?_insert] at hj
    split at hj
    · cases hj
      rw [List.length_append]
      exact Nat.lt_succ_self _
    · exact (h.concat c).lt vs j hj
  getElem?_eq vs := by
    rw [Std.TreeMap.getElem?_insert, Std.TreeMap.getElem?_insert]
    split
    · exact List.getElem?_concat_length.symm
    · exact (h.concat c).getElem?_eq vs

end PointsTo

theorem lookup_append_cons (done : List Constraint) (c : Constraint) (rest : List Constraint) :
    lookup (done ++ c :: rest).toArray done.length = .ok c := by
  simp [lookup]

theorem combineFrom_eq {positions : Std.TreeMap (List Var) Nat}
    {firsts : Std.TreeMap (List Var) Constraint} {done : List Constraint}
    (h : PointsTo positions firsts done) (rest : List Constraint) :
    combineFrom (done ++ rest).toArray positions done.length rest.length =
      ((done ++ (combineAll firsts rest).1).toArray, (combineAll firsts rest).2) := by
  induction rest generalizing positions firsts done with
  | nil => rfl
  | cons c rest ih =>
    -- The rest of the pass, with what the present constraint becomes.
    have next (c' : Constraint) {positions : Std.TreeMap (List Var) Nat}
        {firsts : Std.TreeMap (List Var) Constraint}
        (h : PointsTo positions firsts (done ++ [c'])) :
        combineFrom (done ++ c' :: rest).toArray positions (done.length + 1) rest.length =
          ((done ++ c' :: (combineAll firsts rest).1).toArray, (combineAll firsts rest).2) := by
      have := ih h
      rwa [List.length_append, List.append_assoc, List.append_assoc] at this
    rw [List.length_cons, combineFrom, lookup_append_cons, combineAll]
    dsimp only
    cases ht : c.isTrivial with
    | true =>
      simp only [if_true]
      exact next c (h.concat c)
    | false =>
      simp only [Bool.false_eq_true, if_false]
      have hfirst := h.getElem?_eq c.vars
      cases hj : positions[c.vars]? with
      | none =>
        rw [hj, Option.bind_none] at hfirst
        rw [hfirst]
        exact next c (h.insert c)
      | some j =>
        have hlt := h.lt _ _ hj
        rw [hj, Option.bind_some, List.getElem?_eq_getElem hlt] at hfirst
        have hread : lookup (done ++ c :: rest).toArray j = .ok done[j] := by
          rw [lookup, List.getElem?_toArray, List.getElem?_append_left hlt,
            List.getElem?_eq_getElem hlt]
        have hwrite : (done ++ c :: rest).toArray.setIfInBounds done.length c.cancel =
            (done ++ c.cancel :: rest).toArray := by simp
        simp only [hfirst, hread, hwrite]
        by_cases hrhs : done[j].rhs = c.rhs
        · simp only [if_pos hrhs]
          exact next c.cancel (h.concat c.cancel)
        · simp only [if_neg hrhs]

/-- The pass in place does what the pass through the list does. -/
theorem combineTable_eq (cs : List Constraint) :
    combineTable cs.toArray = ((combineAll {} cs).1.toArray, (combineAll {} cs).2) :=
  combineFrom_eq .empty cs

/-! ## Combining -/

/-- Two constraints have the same variables, at least one, and opposite parities. -/
def Constraint.Opposes (c d : Constraint) : Prop :=
  c.vars ≠ [] ∧ c.vars = d.vars ∧ c.rhs ≠ d.rhs

theorem not_agree_iff {cs : List Constraint} :
    ¬ Agree cs ↔ ∃ c ∈ cs, ∃ d ∈ cs, c.Opposes d := by
  simp [Agree, Constraint.Opposes, Constraint.isTrivial_eq_false]

theorem combine_of_agree (s : Solver) {cs : List Constraint} (h : Agree cs) :
    s.combine cs = ⟨s, folded [] cs, .ok ()⟩ := by
  rw [Solver.combine, combineAll_eq_ok.mpr ⟨rfl, h⟩]
  rfl

theorem combine_of_not_agree (s : Solver) {cs : List Constraint} (h : ¬ Agree cs) :
    ∃ c ∈ cs, ∃ d ∈ cs, c.Opposes d ∧
      (s.combine cs).outcome = .error (.contradiction (.opposite c d)) ∧
      (s.combine cs).solver = { s with consistent := false } := by
  rw [Solver.combine]
  cases hcombine : combineAll {} cs with
  | mk combined outcome =>
    cases outcome with
    | ok _ => exact absurd (combineAll_eq_ok.mp hcombine).2 h
    | error failure =>
      obtain ⟨c, d, rfl, hd, hne, hvars, hrhs, hc | hc⟩ :=
        exists_opposite_of_combineAll filed_empty hcombine
      · exact ⟨c, hc, d, hd, ⟨hvars ▸ hne, hvars, hrhs⟩, rfl, rfl⟩
      · simp at hc

/-- Combining does in one pass, in place, what the definition says. It fails exactly if two of the
constraints have the same variables and opposite parities, and says which. If it succeeds, every
constraint with variables that an earlier one has becomes `0 = 0`, which the cancelled variables
are noted in, and all others stay; then no variables are repeated, and combining once more changes
nothing. -/
theorem Solver.combine_folds (s : Solver) (cs : List Constraint) :
    combineTable cs.toArray = ((s.combine cs).constraints.toArray, (s.combine cs).outcome) ∧
      ((∃ failure, (s.combine cs).outcome = .error failure) ↔
        ∃ c ∈ cs, ∃ d ∈ cs, c.Opposes d) ∧
      (∀ failure, (s.combine cs).outcome = .error failure →
        (s.combine cs).solver = { s with consistent := false } ∧
          ∃ c ∈ cs, ∃ d ∈ cs, c.Opposes d ∧ failure = .contradiction (.opposite c d)) ∧
      ((s.combine cs).outcome = .ok () →
        (s.combine cs).solver = s ∧ Folds cs (s.combine cs).constraints ∧
          s.combine (s.combine cs).constraints = s.combine cs) := by
  refine ⟨combineTable_eq cs, ?_⟩
  rw [← not_agree_iff]
  by_cases h : Agree cs
  · have hnodup := nodup_supports_folded [] cs
    have again := combine_of_agree s (agree_of_nodup_supports hnodup)
    rw [folded_eq_self hnodup fun _ _ => List.not_mem_nil] at again
    rw [combine_of_agree s h]
    refine ⟨⟨?_, fun hn => absurd h hn⟩, ?_, fun _ => ⟨rfl, folds_folded cs, again⟩⟩
    · rintro ⟨failure, hfailure⟩
      cases hfailure
    · intro failure hfailure
      cases hfailure
  · obtain ⟨c, hc, d, hd, hopposes, outcome_eq, solver_eq⟩ := combine_of_not_agree s h
    rw [outcome_eq, solver_eq]
    refine ⟨⟨fun _ => h, fun _ => ⟨_, rfl⟩⟩, fun failure hfailure => ⟨rfl, ?_⟩,
      fun hok => by cases hok⟩
    cases hfailure
    exact ⟨c, hc, d, hd, hopposes, rfl⟩

/-- Three constraints with the same variables, one with others, and one without any. -/
def repeatedSums : List Constraint :=
  [{ vars := [1, 2], rhs := true, cancelled := [7] }, { vars := [], rhs := true },
    { vars := [1, 2], rhs := true, cancelled := [9], placement := .inPool },
    { vars := [3], rhs := false }, { vars := [1, 2], rhs := true }]

/-- The same, and a constraint that is opposite to one of them. -/
def opposedSums : List Constraint := repeatedSums ++ [{ vars := [3], rhs := true }]

theorem Solver.combine_folds_sample :
    let s : Solver := .new 4 {}
    (s.combine repeatedSums).outcome = .ok () ∧
      (s.combine repeatedSums).constraints =
        [{ vars := [1, 2], rhs := true, cancelled := [7] }, { vars := [], rhs := true },
          { vars := [], rhs := false, cancelled := [9, 1, 2], placement := .inPool },
          { vars := [3], rhs := false }, { vars := [], rhs := false, cancelled := [1, 2] }] ∧
      Folds repeatedSums (s.combine repeatedSums).constraints ∧
      (s.combine (s.combine repeatedSums).constraints).constraints =
        (s.combine repeatedSums).constraints ∧
      (s.combine opposedSums).outcome = .error (.contradiction
        (.opposite { vars := [3], rhs := false } { vars := [3], rhs := true })) ∧
      (s.combine opposedSums).solver = { s with consistent := false } ∧
      ∃ c ∈ opposedSums, ∃ d ∈ opposedSums, c.Opposes d := by
  intro s
  have hok : (s.combine repeatedSums).outcome = .ok () := by decide +kernel
  have hfailure : (s.combine opposedSums).outcome = .error (.contradiction
      (.opposite { vars := [3], rhs := false } { vars := [3], rhs := true })) := by decide +kernel
  obtain ⟨-, -, -, succeeds⟩ := s.combine_folds repeatedSums
  obtain ⟨-, fails_iff, fails, -⟩ := s.combine_folds opposedSums
  obtain ⟨-, folds, again⟩ := succeeds hok
  exact ⟨hok, by decide +kernel, folds, congrArg Pass.constraints again, hfailure,
    (fails _ hfailure).1, fails_iff.mp ⟨_, hfailure⟩⟩

end ParityBlocks
