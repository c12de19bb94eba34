import ParityBlocks.Proofs.Ascending
import ParityBlocks.Proofs.Preparation

/-!
# What preparing leaves

Reducing a constraint leaves ascending variables that stand for themselves and have no
value, so that there is nothing to reduce in it any more (`Solver.WellFormed.reduce_reduce`).
Combining comes to a result exactly if constraints with the same variables agree in their
parity (`combineAll_eq_ok`), and the result is `folded`: each constraint that repeats the
variables of an earlier one is cancelled, so that no list of variables is left twice
(`nodup_supports_folded`). From both follows that preparing leaves what it has prepared as
it is (`Solver.WellFormed.prepare_prepare`).
-/

namespace ParityBlocks

/-! ## Reducing -/

/-- What stands for a variable stands for itself. -/
theorem Numbering.WellFormed.replacementOf_fixed {n : Numbering} {size : Nat}
    (hn : n.WellFormed size) {v w : Var} (h : n.replacementOf v = .ok w) :
    n.replacementOf w = .ok w := by
  obtain ⟨o, r, -, hr, hw⟩ := replacementOf_eq_ok.mp h
  exact replacementOf_eq_ok.mpr ⟨r, r, (hn.inverse r w).mp hw, hn.representative_fixed hr, hw⟩

namespace Solver

variable {s : Solver}

theorem WellFormed.substitute_fixed (hs : s.WellFormed) {v w : Var} {value : Option Bool}
    (h : s.substitute v = .ok (w, value)) : s.substitute w = .ok (w, value) := by
  obtain ⟨hw, hvalue⟩ := substitute_eq_ok.mp h
  exact substitute_eq_ok.mpr ⟨hs.numbering.replacementOf_fixed hw, hvalue⟩

/-- The variables of a reduction stand for themselves and have no value. -/
theorem WellFormed.substitute_of_reduce (hs : s.WellFormed) {c c' : Constraint}
    (h : s.reduce c = .ok c') : ∀ v ∈ c'.vars, s.substitute v = .ok (v, none) := by
  obtain ⟨terms, hterms, rfl⟩ := reduce_eq_ok.mp h
  have fixed : ∀ t ∈ terms, s.substitute t.1 = .ok t := by
    refine (forall_mem_iff_of_forall₂ (P := fun _ => True) hterms fun v _ t ht => ?_).mp
      fun _ _ => trivial
    exact ⟨fun _ => hs.substitute_fixed ht, fun _ => trivial⟩
  intro v hv
  obtain ⟨⟨w, value⟩, ht, hw⟩ := List.mem_filterMap.mp (Ascending.mem_of_mem_oddOf hv)
  dsimp only at hw
  split at hw
  · rename_i hnone
    cases hw
    rw [Option.isNone_iff_eq_none] at hnone
    exact hnone ▸ fixed _ ht
  · cases hw

/-- A constraint whose variables are ascending, stand for themselves and have no value. -/
theorem reduce_eq_self {c : Constraint} (hasc : c.vars.Pairwise (· < ·))
    (hfree : ∀ v ∈ c.vars, s.substitute v = .ok (v, none)) : s.reduce c = .ok c := by
  refine reduce_eq_ok.mpr ⟨c.vars.map fun v => (v, none), ?_, ?_⟩
  · rw [List.forall₂_map_right_iff, List.forall₂_same]
    exact hfree
  · have vars : (c.vars.filter fun _ => (none : Option Bool).isNone) = c.vars :=
      List.filter_eq_self.mpr fun _ _ => rfl
    have known : c.vars.filterMap (fun _ => (none : Option Bool)) = [] :=
      List.filterMap_eq_nil_iff.mpr fun _ _ => rfl
    rw [remainder_map c fun _ => none, vars, known, Ascending.oddOf_eq_self hasc]
    rfl

theorem pairwise_vars_of_reduce {c c' : Constraint} (h : s.reduce c = .ok c') :
    c'.vars.Pairwise (· < ·) := by
  obtain ⟨terms, -, rfl⟩ := reduce_eq_ok.mp h
  exact Ascending.pairwise_oddOf _

/-- Nothing is left to reduce in a reduction. -/
theorem WellFormed.reduce_reduce (hs : s.WellFormed) {c c' : Constraint}
    (h : s.reduce c = .ok c') : s.reduce c' = .ok c' :=
  reduce_eq_self (pairwise_vars_of_reduce h) (hs.substitute_of_reduce h)

/-- Constraints that have reductions other than `0 = 1` are reduced one by one. -/
theorem reduceAll_eq_ok {cs cs' : List Constraint} :
    s.reduceAll cs = (cs', .ok ()) ↔
      List.Forall₂ (fun c c' => s.reduce c = .ok c' ∧ c'.isAbsurd = false) cs cs' := by
  constructor
  · intro h
    have spec := s.reduceAll_spec cs
    rwa [h] at spec
  · intro h
    induction h with
    | nil => rfl
    | cons hc _ ih =>
      rw [reduceAll, hc.1]
      simp only [hc.2, Bool.false_eq_true, if_false, ih]

end Solver

/-! ## Combining -/

/-- The variables of the constraints that have any. -/
def supports (cs : List Constraint) : List (List Var) :=
  (cs.filter fun c => !c.isTrivial).map Constraint.vars

theorem Constraint.isTrivial_eq_false {c : Constraint} : c.isTrivial = false ↔ c.vars ≠ [] := by
  rw [isTrivial, List.isEmpty_eq_false_iff]

theorem mem_supports {cs : List Constraint} {vs : List Var} :
    vs ∈ supports cs ↔ vs ≠ [] ∧ vs ∈ cs.map Constraint.vars := by
  simp only [supports, List.mem_map, List.mem_filter, Bool.not_eq_true',
    Constraint.isTrivial_eq_false]
  constructor
  · rintro ⟨c, ⟨hc, hne⟩, rfl⟩
    exact ⟨hne, c, hc, rfl⟩
  · rintro ⟨hne, c, hc, rfl⟩
    exact ⟨c, ⟨hc, hne⟩, rfl⟩

theorem supports_cons_of_trivial {c : Constraint} (h : c.isTrivial = true) (cs : List Constraint) :
    supports (c :: cs) = supports cs := by
  rw [supports, List.filter_cons_of_neg (by rw [h]; decide), supports]

theorem supports_cons {c : Constraint} (h : c.isTrivial = false) (cs : List Constraint) :
    supports (c :: cs) = c.vars :: supports cs := by
  rw [supports, List.filter_cons_of_pos (by rw [h]; rfl), List.map_cons, supports]

/-- Constraints with variables have the same parity if they have the same variables. -/
def Agree (cs : List Constraint) : Prop :=
  ∀ c ∈ cs, ∀ d ∈ cs, c.isTrivial = false → c.vars = d.vars → c.rhs = d.rhs

/-- The constraints after `before` with those cancelled that repeat the variables of an
earlier one. -/
def folded (before : List (List Var)) : List Constraint → List Constraint
  | [] => []
  | c :: cs =>
    (if c.isTrivial = false ∧ c.vars ∈ before then c.cancel else c) :: folded (c.vars :: before) cs

theorem length_folded (before : List (List Var)) (cs : List Constraint) :
    (folded before cs).length = cs.length := by
  induction cs generalizing before with
  | nil => rfl
  | cons c cs ih => rw [folded, List.length_cons, List.length_cons, ih]

theorem isTrivial_cancel (c : Constraint) : c.cancel.isTrivial = true := rfl

/-- Each list of variables that was not there before is left once. -/
theorem mem_supports_folded {before : List (List Var)} {cs : List Constraint} {vs : List Var} :
    vs ∈ supports (folded before cs) ↔ vs ∈ supports cs ∧ vs ∉ before := by
  induction cs generalizing before with
  | nil => exact ⟨nofun, nofun⟩
  | cons c cs ih =>
    rw [folded]
    cases ht : c.isTrivial with
    | true =>
      rw [if_neg (by simp), supports_cons_of_trivial ht, supports_cons_of_trivial ht, ih]
      refine and_congr_right fun hvs => ?_
      have hne : vs ≠ c.vars := fun h => (mem_supports.mp hvs).1
        (h.trans (List.isEmpty_iff.mp ht))
      rw [List.mem_cons, or_iff_right hne]
    | false =>
      rw [supports_cons ht, List.mem_cons]
      by_cases hb : c.vars ∈ before
      · rw [if_pos ⟨rfl, hb⟩, supports_cons_of_trivial (isTrivial_cancel c), ih]
        constructor
        · exact fun ⟨hvs, hn⟩ => ⟨.inr hvs, fun h => hn (List.mem_cons_of_mem _ h)⟩
        · rintro ⟨rfl | hvs, hn⟩
          · exact absurd hb hn
          · refine ⟨hvs, fun h => ?_⟩
            rcases List.mem_cons.mp h with rfl | h
            · exact hn hb
            · exact hn h
      · rw [if_neg fun h => hb h.2, supports_cons ht, List.mem_cons, ih]
        constructor
        · rintro (rfl | ⟨hvs, hn⟩)
          · exact ⟨.inl rfl, hb⟩
          · exact ⟨.inr hvs, fun h => hn (List.mem_cons_of_mem _ h)⟩
        · rintro ⟨hvs, hn⟩
          by_cases he : vs = c.vars
          · exact .inl he
          · exact .inr ⟨hvs.resolve_left he, fun h => (List.mem_cons.mp h).elim he hn⟩

theorem nodup_supports_folded (before : List (List Var)) (cs : List Constraint) :
    (supports (folded before cs)).Nodup := by
  induction cs generalizing before with
  | nil => exact .nil
  | cons c cs ih =>
    rw [folded]
    split
    · rw [supports_cons_of_trivial (isTrivial_cancel c)]
      exact ih _
    · cases ht : c.isTrivial with
      | true =>
        rw [supports_cons_of_trivial ht]
        exact ih _
      | false =>
        rw [supports_cons ht]
        refine List.nodup_cons.mpr ⟨fun h => ?_, ih _⟩
        exact (mem_supports_folded.mp h).2 List.mem_cons_self

/-- Where no variables are repeated nothing is cancelled. -/
theorem folded_eq_self {before : List (List Var)} {cs : List Constraint}
    (hn : (supports cs).Nodup) (hb : ∀ vs ∈ supports cs, vs ∉ before) : folded before cs = cs := by
  induction cs generalizing before with
  | nil => rfl
  | cons c cs ih =>
    rw [folded]
    cases ht : c.isTrivial with
    | true =>
      rw [supports_cons_of_trivial ht] at hn hb
      rw [if_neg (by simp), ih hn]
      intro vs hvs h
      rcases List.mem_cons.mp h with rfl | h
      · exact (mem_supports.mp hvs).1 (List.isEmpty_iff.mp ht)
      · exact hb vs hvs h
    | false =>
      rw [supports_cons ht] at hn hb
      obtain ⟨hc, hn⟩ := List.nodup_cons.mp hn
      obtain ⟨hcb, hb⟩ := List.forall_mem_cons.mp hb
      rw [if_neg fun h => hcb h.2, ih hn]
      intro vs hvs h
      rcases List.mem_cons.mp h with rfl | h
      · exact hc hvs
      · exact hb vs hvs h

theorem agree_of_nodup_supports {cs : List Constraint} (hn : (supports cs).Nodup) : Agree cs := by
  intro c hc d hd ht hvars
  have mem : ∀ {e}, e ∈ cs → e.isTrivial = false → e ∈ cs.filter fun c => !c.isTrivial :=
    fun he ht => List.mem_filter.mpr ⟨he, by rw [ht]; rfl⟩
  have htd : d.isTrivial = false := by
    rwa [Constraint.isTrivial_eq_false, ← hvars, ← Constraint.isTrivial_eq_false]
  rw [List.inj_on_of_nodup_map hn (mem hc ht) (mem hd htd) hvars]

theorem agree_cons_of_trivial {c : Constraint} (ht : c.isTrivial = true) {cs : List Constraint} :
    Agree (c :: cs) ↔ Agree cs := by
  constructor
  · exact fun h d hd e he => h d (List.mem_cons_of_mem _ hd) e (List.mem_cons_of_mem _ he)
  · intro h d hd e he hdt hvars
    have hne := Constraint.isTrivial_eq_false.mp hdt
    have hnil : c.vars = [] := List.isEmpty_iff.mp ht
    rcases List.mem_cons.mp hd with rfl | hd
    · exact absurd hnil hne
    · rcases List.mem_cons.mp he with rfl | he
      · exact absurd (hvars.trans hnil) hne
      · exact h d hd e he hdt hvars

theorem agree_cons {c : Constraint} {cs : List Constraint} (ht : c.isTrivial = false) :
    Agree (c :: cs) ↔ (∀ d ∈ cs, c.vars = d.vars → c.rhs = d.rhs) ∧ Agree cs := by
  constructor
  · intro h
    exact ⟨fun d hd => h c List.mem_cons_self d (List.mem_cons_of_mem _ hd) ht,
      fun d hd e he => h d (List.mem_cons_of_mem _ hd) e (List.mem_cons_of_mem _ he)⟩
  · rintro ⟨hc, h⟩ d hd e he hdt hvars
    obtain hdc | hd := List.mem_cons.mp hd
    · obtain hec | he := List.mem_cons.mp he
      · rw [hdc, hec]
      · rw [hdc] at hvars ⊢
        exact hc e he hvars
    · obtain hec | he := List.mem_cons.mp he
      · rw [hec] at hvars ⊢
        exact (hc d hd hvars.symm).symm
      · exact h d hd e he hdt hvars

/-- The constraint agrees with the one that was met first with its variables. -/
def Matches (firsts : Std.TreeMap (List Var) Constraint) (c : Constraint) : Prop :=
  c.isTrivial = false → ∀ first, firsts[c.vars]? = some first → first.rhs = c.rhs

theorem matches_insert_iff {firsts : Std.TreeMap (List Var) Constraint} {c : Constraint}
    (hnone : firsts[c.vars]? = none) (ht : c.isTrivial = false) (d : Constraint) :
    Matches (firsts.insert c.vars c) d ↔ (c.vars = d.vars → c.rhs = d.rhs) ∧ Matches firsts d := by
  unfold Matches
  rw [Std.TreeMap.getElem?_insert]
  by_cases hvars : c.vars = d.vars
  · have htd : d.isTrivial = false := by
      rwa [Constraint.isTrivial_eq_false, ← hvars, ← Constraint.isTrivial_eq_false]
    rw [if_pos (by rw [hvars]; exact Std.ReflCmp.compare_self), ← hvars, hnone]
    simp [htd]
  · rw [if_neg fun h => hvars (Std.LawfulEqOrd.eq_of_compare h)]
    simp [hvars]

/-- The first constraint is done with, whatever becomes of the others. -/
theorem cons_eq_ok_iff {c : Constraint} {rest : List Constraint × Except Failure Unit}
    {ds cs' : List Constraint} {P : Prop} (h : ∀ {rs}, rest = (rs, .ok ()) ↔ rs = ds ∧ P) :
    (c :: rest.1, rest.2) = (cs', .ok ()) ↔ cs' = c :: ds ∧ P := by
  constructor
  · intro he
    obtain ⟨hcs, hok⟩ := Prod.mk.inj he
    obtain ⟨hrs, hp⟩ := h.mp (Prod.ext rfl hok)
    exact ⟨by rw [← hrs]; exact hcs.symm, hp⟩
  · rintro ⟨rfl, hp⟩
    rw [h.mpr ⟨rfl, hp⟩]

/-- Combining after `firsts`, which has a constraint for each of the lists `before`. -/
theorem combineAll_eq_ok_iff {firsts : Std.TreeMap (List Var) Constraint} {before : List (List Var)}
    (hb : ∀ vs, vs ≠ [] → (vs ∈ before ↔ firsts[vs]? ≠ none)) {cs cs' : List Constraint} :
    combineAll firsts cs = (cs', .ok ()) ↔
      cs' = folded before cs ∧ (∀ c ∈ cs, Matches firsts c) ∧ Agree cs := by
  induction cs generalizing firsts before cs' with
  | nil =>
    rw [combineAll, folded]
    constructor
    · rintro h
      cases h
      exact ⟨rfl, fun _ h => absurd h List.not_mem_nil, fun _ h => absurd h List.not_mem_nil⟩
    · rintro ⟨rfl, -⟩
      rfl
  | cons c cs ih =>
    rw [combineAll, folded, List.forall_mem_cons]
    cases ht : c.isTrivial with
    | true =>
      have hb' : ∀ vs, vs ≠ [] → (vs ∈ c.vars :: before ↔ firsts[vs]? ≠ none) := by
        intro vs hvs
        rw [List.mem_cons, or_iff_right fun h => hvs (h.trans (List.isEmpty_iff.mp ht)), hb vs hvs]
      have trivially : Matches firsts c := fun h => absurd (ht.symm.trans h) Bool.noConfusion
      simp only [if_true, Bool.true_eq_false, false_and, if_false]
      rw [agree_cons_of_trivial ht, and_iff_right trivially]
      exact cons_eq_ok_iff fun {rs} => ih hb'
    | false =>
      have hne := Constraint.isTrivial_eq_false.mp ht
      simp only [Bool.false_eq_true, if_false, true_and]
      cases hfirst : firsts[c.vars]? with
      | none =>
        have hb' : ∀ vs, vs ≠ [] →
            (vs ∈ c.vars :: before ↔ (firsts.insert c.vars c)[vs]? ≠ none) := by
          intro vs hvs
          rw [List.mem_cons, Std.TreeMap.getElem?_insert, hb vs hvs]
          by_cases he : c.vars = vs
          · rw [if_pos (by rw [he]; exact Std.ReflCmp.compare_self)]
            simp [he]
          · rw [if_neg fun h => he (Std.LawfulEqOrd.eq_of_compare h), or_iff_right (Ne.symm he)]
        have unmatched : Matches firsts c := fun _ first h => by rw [hfirst] at h; cases h
        have hnew : c.vars ∉ before := fun h => (hb _ hne).mp h hfirst
        rw [if_neg hnew, and_iff_right unmatched, agree_cons ht]
        refine cons_eq_ok_iff fun {rs} => (ih hb').trans (and_congr_right fun _ => ?_)
        simp only [matches_insert_iff hfirst ht, imp_and, forall_and]
        tauto
      | some first =>
        have hold : c.vars ∈ before := (hb _ hne).mpr (hfirst ▸ Option.some_ne_none _)
        have hb' : ∀ vs, vs ≠ [] → (vs ∈ c.vars :: before ↔ firsts[vs]? ≠ none) := by
          intro vs hvs
          rw [← hb vs hvs, List.mem_cons]
          exact or_iff_right_of_imp fun h => h ▸ hold
        have matched : Matches firsts c ↔ first.rhs = c.rhs := by
          simp only [Matches, ht, hfirst, Option.some.injEq, forall_eq', true_implies]
        rw [if_pos hold, matched, agree_cons ht]
        dsimp only
        by_cases hrhs : first.rhs = c.rhs
        · rw [if_pos hrhs, and_iff_right hrhs]
          refine cons_eq_ok_iff fun {rs} => (ih hb').trans (and_congr_right fun _ => ?_)
          refine and_congr_right fun hall => (and_iff_right ?_).symm
          -- what has the variables of `c` matches the first with them, as `c` does
          intro d hd hvars
          have htd : d.isTrivial = false := by
            rwa [Constraint.isTrivial_eq_false, ← hvars]
          rw [← hrhs, hall d hd htd first (hvars ▸ hfirst)]
        · rw [if_neg hrhs]
          simp [hrhs]

/-- Combining comes to a result if the constraints agree, and only then. -/
theorem combineAll_eq_ok {cs cs' : List Constraint} :
    combineAll {} cs = (cs', .ok ()) ↔ cs' = folded [] cs ∧ Agree cs := by
  have unmatched : ∀ c ∈ cs, Matches {} c := fun c _ _ first h => by simp at h
  have empty : ∀ vs : List Var, vs ≠ [] →
      (vs ∈ [] ↔ ({} : Std.TreeMap (List Var) Constraint)[vs]? ≠ none) := by simp
  rw [combineAll_eq_ok_iff empty, and_iff_right unmatched]

/-- A constraint that is left is one of those before, or one of them cancelled. -/
theorem exists_of_mem_folded {before : List (List Var)} {cs : List Constraint} {c : Constraint}
    (h : c ∈ folded before cs) : c ∈ cs ∨ ∃ d ∈ cs, c = d.cancel := by
  induction cs generalizing before with
  | nil => cases h
  | cons d cs ih =>
    rw [folded] at h
    rcases List.mem_cons.mp h with h | h
    · split at h
      · exact .inr ⟨d, List.mem_cons_self, h⟩
      · exact .inl (h ▸ List.mem_cons_self)
    · exact (ih h).imp (List.mem_cons_of_mem _)
        fun ⟨e, he, hc⟩ => ⟨e, List.mem_cons_of_mem _ he, hc⟩

/-- The list is one of `lists`, and was there before or is there twice. -/
def Repeated (before lists : List (List Var)) (vs : List Var) : Prop :=
  vs ∈ lists ∧ (vs ∈ before ∨ 2 ≤ lists.count vs)

theorem repeated_nil_iff {lists : List (List Var)} {vs : List Var} :
    Repeated [] lists vs ↔ 2 ≤ lists.count vs := by
  rw [Repeated, or_iff_right List.not_mem_nil, and_iff_right_of_imp]
  exact fun h => List.count_pos_iff.mp (Nat.lt_of_lt_of_le Nat.two_pos h)

theorem repeated_cons {before lists : List (List Var)} {vs ws : List Var} :
    Repeated before (ws :: lists) vs ↔
      ws = vs ∧ ws ∈ before ∨ Repeated (ws :: before) lists vs := by
  by_cases h : ws = vs
  · subst h
    have count : 2 ≤ lists.count ws + 1 ↔ ws ∈ lists := by
      rw [← List.count_pos_iff]
      omega
    simp [Repeated, count]
  · simp [Repeated, h, Ne.symm h]

/-- The cancelled variables are those that were cancelled before, and those that are
repeated. -/
theorem mem_cancelled_folded {before : List (List Var)} {cs : List Constraint} {v : Var} :
    (∃ c ∈ folded before cs, v ∈ c.cancelled) ↔
      (∃ c ∈ cs, v ∈ c.cancelled) ∨ ∃ vs, v ∈ vs ∧ Repeated before (cs.map Constraint.vars) vs := by
  induction cs generalizing before with
  | nil => simp [folded, Repeated]
  | cons c cs ih =>
    have first : v ∈ (if c.isTrivial = false ∧ c.vars ∈ before then c.cancel else c).cancelled ↔
        v ∈ c.cancelled ∨ v ∈ c.vars ∧ c.vars ∈ before := by
      split
      · rename_i h
        simp [Constraint.cancel, h.2]
      · rename_i h
        refine (or_iff_left ?_).symm
        exact fun ⟨hv, hb⟩ => h ⟨Constraint.isTrivial_eq_false.mpr (List.ne_nil_of_mem hv), hb⟩
    simp only [folded, List.exists_mem_cons_iff, List.map_cons, ih, first, repeated_cons,
      and_or_left, exists_or, or_assoc]
    have here : (∃ vs, v ∈ vs ∧ c.vars = vs ∧ c.vars ∈ before) ↔ v ∈ c.vars ∧ c.vars ∈ before :=
      ⟨fun ⟨_, hv, h, hb⟩ => ⟨h ▸ hv, hb⟩, fun ⟨hv, hb⟩ => ⟨_, hv, rfl, hb⟩⟩
    rw [here]
    exact or_congr_right or_left_comm

/-! ## Both passes -/

namespace Solver

variable {s : Solver}

/-- Preparing comes to a result if all constraints have reductions other than `0 = 1`
that agree with each other. -/
theorem prepare_eq_ok_iff {cs : List Constraint} :
    s.prepare = .ok cs ↔
      ∃ cleaned, List.Forall₂ (fun c c' => s.reduce c = .ok c' ∧ c'.isAbsurd = false) s.pool cleaned ∧
        Agree cleaned ∧ cs = folded [] cleaned := by
  simp only [prepare_eq_ok, reduceAll_eq_ok, combineAll_eq_ok, and_comm (a := Agree _)]

theorem WellFormed.reduce_of_prepare (hs : s.WellFormed) {cs : List Constraint}
    (hp : s.prepare = .ok cs) : ∀ c ∈ cs, s.reduce c = .ok c := by
  obtain ⟨cleaned, hclean, -, rfl⟩ := prepare_eq_ok_iff.mp hp
  have reduced : ∀ c ∈ cleaned, s.reduce c = .ok c := by
    refine (forall_mem_iff_of_forall₂ (P := fun _ => True) hclean fun c _ c' h => ?_).mp
      fun _ _ => trivial
    exact ⟨fun _ => hs.reduce_reduce h.1, fun _ => trivial⟩
  intro c hc
  obtain hc | ⟨d, -, rfl⟩ := exists_of_mem_folded hc
  · exact reduced c hc
  · exact reduce_eq_self .nil nofun

/-- Prepared constraints have no variable twice. -/
theorem WellFormed.nodup_of_prepare (hs : s.WellFormed) {cs : List Constraint}
    (hp : s.prepare = .ok cs) : ∀ c ∈ cs, c.vars.Nodup := by
  intro c hc
  have ascending := pairwise_vars_of_reduce (hs.reduce_of_prepare hp c hc)
  exact ascending.imp Nat.ne_of_lt

/-- What was prepared is left as it is when it is prepared again. -/
theorem WellFormed.prepare_prepare (hs : s.WellFormed) {cs : List Constraint}
    (hp : s.prepare = .ok cs) : ({ s with pool := cs } : Solver).prepare = .ok cs := by
  have nodup : (supports cs).Nodup := by
    obtain ⟨cleaned, -, -, rfl⟩ := prepare_eq_ok_iff.mp hp
    exact nodup_supports_folded _ _
  refine prepare_eq_ok_iff.mpr ⟨cs, ?_, agree_of_nodup_supports nodup, ?_⟩
  · rw [List.forall₂_same]
    exact fun c hc => ⟨hs.reduce_of_prepare hp c hc, not_isAbsurd_of_prepare hp c hc⟩
  · rw [folded_eq_self nodup fun _ _ => List.not_mem_nil]

end Solver

end ParityBlocks
