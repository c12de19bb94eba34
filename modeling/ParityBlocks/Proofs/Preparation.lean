import Std.Data.TreeMap.Lemmas
import ParityBlocks.Cleaning
import ParityBlocks.Proofs.Numbering
import ParityBlocks.Proofs.Parity

/-!
# Preparing constraints keeps their meaning

`Solver.Admits` says that an assignment agrees with the values and the
replacements of a solver. For such an assignment a constraint and its reduction
hold together (`Solver.holds_reduce`), and so do constraints and what combining
leaves of them (`combineAll_spec`); it fails only at two opposite ones
(`exists_opposite_of_combineAll`).

`Solver.prepare` is both passes over the pool of a solver. It prepares each
constraint in its place (`Solver.forall₂_of_prepare`) and never leaves
`0 = 1` (`Solver.not_isAbsurd_of_prepare`). In a well-formed solver it does not
fault and keeps the meaning of the pool, and if it ends in a contradiction then
no such assignment satisfies the pool (`Solver.WellFormed.sound_prepare`).
-/

namespace ParityBlocks

/-! ## Well-formed solvers -/

namespace Solver

/-- The tables fit together, flags are clear, and constraints mention variables
of the solver only. -/
structure WellFormed (s : Solver) : Prop where
  varCount_lt : s.varCount < Var.modulus
  numbering : s.numbering.WellFormed s.varCount
  flags : s.flags = Array.replicate s.varCount false
  pool : ∀ c ∈ s.pool, ∀ v ∈ c.vars, v < s.varCount

/-- The assignment gives variables the values that they have for good, and equal
values to a variable and its replacement. -/
structure Admits (s : Solver) (a : Var → Bool) : Prop where
  value {v : Var} {b : Bool} : s.value v = some b → a v = b
  replacement {v w : Var} : s.numbering.replacementOf v = .ok w → a v = a w

theorem admits_iff {s : Solver} {a : Var → Bool} :
    s.Admits a ↔ (∀ v < s.varCount, (s.value v).all (a v == ·) = true) ∧
      ∀ v < s.numbering.toOuter.size,
        (s.numbering.replacementOf v).toOption.all (a v == a ·) = true := by
  constructor
  · intro h
    refine ⟨fun v _ => ?_, fun v _ => ?_⟩
    · rw [Option.all_eq_true]
      exact fun b hb => beq_iff_eq.mpr (h.value hb)
    · cases hw : s.numbering.replacementOf v with
      | error fault => rfl
      | ok w => exact beq_iff_eq.mpr (h.replacement hw)
  · rintro ⟨hvalue, hreplacement⟩
    refine ⟨fun {v b} hb => ?_, fun {v w} hw => ?_⟩
    · obtain ⟨hv, -⟩ := Array.getElem?_eq_some_iff.mp (Option.join_eq_some_iff.mp hb)
      have := hvalue v hv
      rw [hb] at this
      exact beq_iff_eq.mp this
    · obtain ⟨outer, _, houter, -, -⟩ := Numbering.replacementOf_eq_ok.mp hw
      obtain ⟨hv, -⟩ := Array.getElem?_eq_some_iff.mp houter
      have := hreplacement v hv
      rw [hw] at this
      exact beq_iff_eq.mp this

instance (s : Solver) (a : Var → Bool) : Decidable (s.Admits a) := decidable_of_iff' _ admits_iff

end Solver

/-! ## Reducing one constraint -/

/-- What related members of two lists say together, the lists say together. -/
theorem forall_mem_iff_of_forall₂ {α β : Type} {R : α → β → Prop} {P : α → Prop} {Q : β → Prop}
    {xs : List α} {ys : List β} (h : List.Forall₂ R xs ys)
    (hr : ∀ x ∈ xs, ∀ y, R x y → (P x ↔ Q y)) : (∀ x ∈ xs, P x) ↔ ∀ y ∈ ys, Q y := by
  induction h with
  | nil => exact ⟨nofun, nofun⟩
  | @cons x y xs ys hxy _ ih =>
    rw [List.forall_mem_cons, List.forall_mem_cons, hr x List.mem_cons_self y hxy,
      ih fun z hz => hr z (List.mem_cons_of_mem _ hz)]

/-- Members that are related over two steps. -/
theorem forall₂_comp {α β γ : Type} {R : α → β → Prop} {S : β → γ → Prop} {xs : List α}
    {ys : List β} {zs : List γ} (h : List.Forall₂ R xs ys) (h' : List.Forall₂ S ys zs) :
    List.Forall₂ (fun x z => ∃ y, R x y ∧ S y z) xs zs := by
  induction h generalizing zs with
  | nil =>
    cases h'
    exact .nil
  | cons hxy _ ih =>
    cases h' with
    | cons hyz h' => exact .cons ⟨_, hxy, hyz⟩ (ih h')

theorem foldl_xor (x r : Bool) (bs : List Bool) :
    bs.foldl (· ^^ ·) (x ^^ r) = (x ^^ bs.foldl (· ^^ ·) r) := by
  induction bs generalizing r with
  | nil => rfl
  | cons b bs ih => rw [List.foldl_cons, List.foldl_cons, Bool.xor_assoc, ih]

namespace Solver

variable {s : Solver} {a : Var → Bool}

theorem substitute_eq_ok {v w : Var} {value : Option Bool} :
    s.substitute v = .ok (w, value) ↔
      s.numbering.replacementOf v = .ok w ∧ s.values[w]? = some value := by
  simp only [substitute, Checked.bind_eq_ok, lookup_eq_ok_iff]
  constructor
  · rintro ⟨x, hx, y, hy, h⟩
    cases h
    exact ⟨hx, hy⟩
  · exact fun ⟨hx, hy⟩ => ⟨w, hx, value, hy, rfl⟩

/-- What remains of substituted variables: those without a value, each once or
not at all, and the sum of the parity with the values of the others. -/
def remainder (c : Constraint) (terms : List (Var × Option Bool)) : Constraint :=
  { c with
    vars := Ascending.oddOf (terms.filterMap fun (w, value) => if value.isNone then some w else none)
    rhs := (terms.filterMap Prod.snd).foldl (· ^^ ·) c.rhs }

/-- What remains where variables stand for themselves. -/
theorem remainder_map (c : Constraint) (value : Var → Option Bool) :
    remainder c (c.vars.map fun v => (v, value v)) =
      { c with
        vars := Ascending.oddOf (c.vars.filter fun v => (value v).isNone)
        rhs := (c.vars.filterMap value).foldl (· ^^ ·) c.rhs } := by
  rw [remainder, List.filterMap_map, List.filterMap_map, ← List.filterMap_eq_filter]
  rfl

theorem reduce_eq_ok {c c' : Constraint} :
    s.reduce c = .ok c' ↔
      ∃ terms, List.Forall₂ (fun v t => s.substitute v = .ok t) c.vars terms ∧
        c' = remainder c terms := by
  rw [reduce, Checked.bind_eq_ok]
  simp only [Checked.mapM_eq_ok]
  exact exists_congr fun terms => and_congr_right fun _ =>
    ⟨fun h => by cases h; rfl, fun h => by rw [h]; rfl⟩

theorem parity_terms (ha : s.Admits a) {vars : List Var} {terms : List (Var × Option Bool)}
    (h : List.Forall₂ (fun v t => s.substitute v = .ok t) vars terms) (r : Bool) :
    (parity a vars = r) ↔
      parity a (terms.filterMap fun (w, value) => if value.isNone then some w else none) =
        (terms.filterMap Prod.snd).foldl (· ^^ ·) r := by
  induction h generalizing r with
  | nil => rfl
  | @cons v t vars terms hv _ ih =>
    obtain ⟨w, value⟩ := t
    obtain ⟨hw, hvalue⟩ := substitute_eq_ok.mp hv
    have move : ∀ x p q : Bool, (x ^^ p) = q ↔ p = (x ^^ q) := by decide
    rw [parity_cons, ha.replacement hw, move, ih]
    cases value with
    | none =>
      simp only [List.filterMap_cons, Option.isNone_none, if_true, parity_cons, foldl_xor]
      rw [move]
    | some b =>
      have hb : a w = b := ha.value (by rw [Solver.value, hvalue]; rfl)
      simp only [List.filterMap_cons, Option.isNone_some, Bool.false_eq_true, if_false, hb,
        List.foldl_cons, Bool.xor_comm b r]

theorem holds_reduce (ha : s.Admits a) {c c' : Constraint} (h : s.reduce c = .ok c') :
    c.Holds a ↔ c'.Holds a := by
  obtain ⟨terms, hterms, rfl⟩ := reduce_eq_ok.mp h
  rw [Constraint.Holds, Constraint.Holds, remainder, parity_oddOf]
  exact parity_terms ha hterms c.rhs

theorem WellFormed.exists_substitute (hs : s.WellFormed) {v : Var} (hv : v < s.varCount) :
    ∃ t, s.substitute v = .ok t := by
  obtain ⟨w, hw⟩ := hs.numbering.exists_replacementOf hv
  have hlt := hs.numbering.replacementOf_lt hw
  exact ⟨_, substitute_eq_ok.mpr ⟨hw, Array.getElem?_eq_getElem hlt⟩⟩

theorem WellFormed.exists_terms (hs : s.WellFormed) {vars : List Var}
    (hv : ∀ v ∈ vars, v < s.varCount) :
    ∃ terms, List.Forall₂ (fun v t => s.substitute v = .ok t) vars terms :=
  Checked.exists_forall₂ fun v hmem => hs.exists_substitute (hv v hmem)

/-- Every constraint over the variables of a well-formed solver has a reduction. -/
theorem WellFormed.exists_reduce (hs : s.WellFormed) {c : Constraint}
    (hc : ∀ v ∈ c.vars, v < s.varCount) : ∃ c', s.reduce c = .ok c' := by
  obtain ⟨terms, hterms⟩ := hs.exists_terms hc
  exact ⟨_, reduce_eq_ok.mpr ⟨terms, hterms, rfl⟩⟩

/-- A reduction is over the variables of the solver. -/
theorem lt_of_reduce {c c' : Constraint} (h : s.reduce c = .ok c') :
    ∀ v ∈ c'.vars, v < s.varCount := by
  obtain ⟨terms, hterms, rfl⟩ := reduce_eq_ok.mp h
  have hlt : ∀ t ∈ terms, t.1 < s.varCount := by
    refine (forall_mem_iff_of_forall₂ (P := fun _ => True) hterms fun v _ t ht => ?_).mp
      fun _ _ => trivial
    obtain ⟨-, hvalue⟩ := substitute_eq_ok.mp ht
    exact ⟨fun _ => (Array.getElem?_eq_some_iff.mp hvalue).1, fun _ => trivial⟩
  intro v hv
  obtain ⟨⟨w, value⟩, ht, hw⟩ := List.mem_filterMap.mp (Ascending.mem_of_mem_oddOf hv)
  dsimp only at hw
  split at hw
  · cases hw
    exact hlt _ ht
  · cases hw

end Solver

/-! ## Cleaning -/

theorem Constraint.not_holds_of_isAbsurd {c : Constraint} (h : c.isAbsurd = true) (a : Var → Bool) :
    ¬ c.Holds a := by
  simp only [Constraint.isAbsurd, Constraint.isTrivial, Bool.and_eq_true, List.isEmpty_iff] at h
  rw [Constraint.Holds, h.1, h.2]
  exact nofun

theorem Constraint.holds_of_isTrivial {c : Constraint} (ht : c.isTrivial = true)
    (h : c.isAbsurd = false) (a : Var → Bool) : c.Holds a := by
  rw [Constraint.isAbsurd, ht, Bool.true_and] at h
  rw [Constraint.isTrivial, List.isEmpty_iff] at ht
  rw [Constraint.Holds, ht, h]
  rfl

/-- Cleaning reads the values and the numbering of a solver only. -/
theorem Solver.reduceAll_congr {s t : Solver} (hv : s.values = t.values)
    (hn : s.numbering = t.numbering) (cs : List Constraint) : s.reduceAll cs = t.reduceAll cs := by
  have hsub : s.substitute = t.substitute := by
    funext v
    rw [substitute, substitute, hv, hn]
  have hr : s.reduce = t.reduce := by
    funext c
    rw [reduce, reduce, hsub]
  induction cs with
  | nil => rfl
  | cons c cs ih => rw [reduceAll, reduceAll, hr, ih]

/-- The reductions of constraints one by one, or the first that is `0 = 1` or
has none. -/
theorem Solver.reduceAll_spec (s : Solver) (cs : List Constraint) :
    match s.reduceAll cs with
    | (cs', .ok ()) =>
      List.Forall₂ (fun c c' => s.reduce c = .ok c' ∧ c'.isAbsurd = false) cs cs'
    | (_, .error (.contradiction _)) => ∃ c ∈ cs, ∃ c', s.reduce c = .ok c' ∧ c'.isAbsurd = true
    | (_, .error (.fault f)) => ∃ c ∈ cs, s.reduce c = .error f := by
  induction cs with
  | nil => exact .nil
  | cons c cs ih =>
    rw [reduceAll]
    cases hc : s.reduce c with
    | error fault => exact ⟨c, List.mem_cons_self, hc⟩
    | ok c' =>
      cases habs : c'.isAbsurd with
      | true =>
        simp only [habs, if_true]
        exact ⟨c, List.mem_cons_self, c', hc, habs⟩
      | false =>
        simp only [habs, Bool.false_eq_true, if_false]
        generalize s.reduceAll cs = rest at ih
        match rest with
        | (cs', .ok ()) => exact .cons ⟨hc, habs⟩ ih
        | (_, .error (.contradiction _)) =>
          obtain ⟨d, hd, h⟩ := ih
          exact ⟨d, List.mem_cons_of_mem _ hd, h⟩
        | (_, .error (.fault f)) =>
          obtain ⟨d, hd, h⟩ := ih
          exact ⟨d, List.mem_cons_of_mem _ hd, h⟩

/-! ## Combining -/

/-- What combining makes of a constraint: itself, or `0 = 0`. -/
def Constraint.CombinesTo (c c' : Constraint) : Prop := c' = c ∨ c' = c.cancel

theorem Constraint.holds_cancel (c : Constraint) (a : Var → Bool) : c.cancel.Holds a := rfl

/-- The constraints that were met first keep their places in `firsts`, each under
its variables. -/
def Filed (firsts : Std.TreeMap (List Var) Constraint) : Prop :=
  ∀ (vs : List Var) (c : Constraint), firsts[vs]? = some c → c.vars = vs

/-- The assignment satisfies the constraints that were met first. -/
def FirstsHold (a : Var → Bool) (firsts : Std.TreeMap (List Var) Constraint) : Prop :=
  ∀ (vs : List Var) (c : Constraint), firsts[vs]? = some c → c.Holds a

theorem getElem?_insert_vars {firsts : Std.TreeMap (List Var) Constraint} {c d : Constraint}
    {vs : List Var} (h : (firsts.insert c.vars c)[vs]? = some d) :
    (c.vars = vs ∧ d = c) ∨ firsts[vs]? = some d := by
  rw [Std.TreeMap.getElem?_insert] at h
  split at h
  · rename_i heq
    exact .inl ⟨Std.LawfulEqOrd.eq_of_compare heq, (Option.some.inj h).symm⟩
  · exact .inr h

theorem Filed.insert {firsts : Std.TreeMap (List Var) Constraint} (h : Filed firsts)
    (c : Constraint) : Filed (firsts.insert c.vars c) := by
  intro vs d hd
  obtain ⟨hvs, rfl⟩ | hd := getElem?_insert_vars hd
  · exact hvs
  · exact h vs d hd

theorem FirstsHold.insert {a : Var → Bool} {firsts : Std.TreeMap (List Var) Constraint}
    (h : FirstsHold a firsts) {c : Constraint} (hc : c.Holds a) :
    FirstsHold a (firsts.insert c.vars c) := by
  intro vs d hd
  obtain ⟨-, rfl⟩ | hd := getElem?_insert_vars hd
  · exact hc
  · exact h vs d hd

/-- What is true of combining `cs` after `firsts`: wherever those met first hold,
constraints hold together with what is left of them, and they do not hold if two
are opposite. -/
def Combined (firsts : Std.TreeMap (List Var) Constraint) (cs : List Constraint) :
    List Constraint × Except Failure Unit → Prop
  | (cs', .ok ()) => List.Forall₂ Constraint.CombinesTo cs cs' ∧
      ∀ a, FirstsHold a firsts → ((∀ c ∈ cs, c.Holds a) ↔ ∀ c ∈ cs', c.Holds a)
  | (_, .error (.contradiction _)) => ∀ a, FirstsHold a firsts → ¬ ∀ c ∈ cs, c.Holds a
  | (_, .error (.fault _)) => False

theorem Combined.cons {firsts firsts' : Std.TreeMap (List Var) Constraint} {c c' : Constraint}
    (hc : c.CombinesTo c')
    (h : ∀ a, FirstsHold a firsts → (c.Holds a ↔ c'.Holds a) ∧ (c.Holds a → FirstsHold a firsts'))
    {cs : List Constraint} {rest : List Constraint × Except Failure Unit}
    (hrest : Combined firsts' cs rest) : Combined firsts (c :: cs) (c' :: rest.1, rest.2) := by
  match rest with
  | (cs', .ok ()) =>
    obtain ⟨hcs, hrest⟩ := hrest
    refine ⟨.cons hc hcs, fun a ha => ?_⟩
    obtain ⟨hsame, hnext⟩ := h a ha
    rw [List.forall_mem_cons, List.forall_mem_cons, ← hsame]
    exact and_congr_right fun hc => hrest a (hnext hc)
  | (_, .error (.contradiction _)) =>
    intro a ha hall
    obtain ⟨hc, hall⟩ := List.forall_mem_cons.mp hall
    exact hrest a ((h a ha).2 hc) hall

theorem combineAll_spec {firsts : Std.TreeMap (List Var) Constraint} (hf : Filed firsts)
    (cs : List Constraint) : Combined firsts cs (combineAll firsts cs) := by
  induction cs generalizing firsts with
  | nil => exact ⟨.nil, fun _ _ => Iff.rfl⟩
  | cons c cs ih =>
    rw [combineAll]
    cases ht : c.isTrivial with
    | true => exact .cons (.inl rfl) (fun a ha => ⟨Iff.rfl, fun _ => ha⟩) (ih hf)
    | false =>
      simp only [Bool.false_eq_true, if_false]
      cases hfirst : firsts[c.vars]? with
      | none =>
        exact .cons (.inl rfl) (fun a ha => ⟨Iff.rfl, fun hc => ha.insert hc⟩) (ih (hf.insert c))
      | some first =>
        have hvars : first.vars = c.vars := hf _ _ hfirst
        by_cases hrhs : first.rhs = c.rhs
        · simp only [if_pos hrhs]
          refine .cons (.inr rfl) (fun a ha => ⟨?_, fun _ => ha⟩) (ih hf)
          have hc : c.Holds a := by
            have := ha _ _ hfirst
            rwa [Constraint.Holds, hvars, hrhs] at this
          exact ⟨fun _ => c.holds_cancel a, fun _ => hc⟩
        · simp only [if_neg hrhs]
          intro a ha h
          have hfirst : first.Holds a := ha _ _ hfirst
          have hc : c.Holds a := h c List.mem_cons_self
          rw [Constraint.Holds, hvars, hc] at hfirst
          exact hrhs hfirst.symm

/-- Combining fails only at a constraint that is opposite to the first one with its variables. -/
theorem exists_opposite_of_combineAll {firsts : Std.TreeMap (List Var) Constraint}
    (hf : Filed firsts) {cs combined : List Constraint} {failure : Failure}
    (h : combineAll firsts cs = (combined, .error failure)) :
    ∃ first c, failure = .contradiction (.opposite first c) ∧ c ∈ cs ∧ c.vars ≠ [] ∧
      first.vars = c.vars ∧ first.rhs ≠ c.rhs ∧ (first ∈ cs ∨ firsts[c.vars]? = some first) := by
  induction cs generalizing firsts combined with
  | nil => cases h
  | cons d cs ih =>
    -- A failure later on, where the first constraint may be the present one.
    have later {firsts' : Std.TreeMap (List Var) Constraint} (hf' : Filed firsts')
        (hfirsts : ∀ (vs : List Var) (first : Constraint), firsts'[vs]? = some first →
          first = d ∨ firsts[vs]? = some first)
        (h : (combineAll firsts' cs).2 = .error failure) :
        ∃ first c, failure = .contradiction (.opposite first c) ∧ c ∈ d :: cs ∧ c.vars ≠ [] ∧
          first.vars = c.vars ∧ first.rhs ≠ c.rhs ∧
          (first ∈ d :: cs ∨ firsts[c.vars]? = some first) := by
      obtain ⟨first, c, hfailure, hc, hne, hvars, hrhs, hmet⟩ := ih hf' (Prod.ext rfl h)
      refine ⟨first, c, hfailure, List.mem_cons_of_mem d hc, hne, hvars, hrhs, ?_⟩
      obtain hmem | hmet := hmet
      · exact .inl (List.mem_cons_of_mem d hmem)
      · obtain rfl | hmet := hfirsts _ _ hmet
        · exact .inl List.mem_cons_self
        · exact .inr hmet
    rw [combineAll] at h
    split at h
    · exact later hf (fun _ _ => .inr) (Prod.mk.inj h).2
    · rename_i ht
      split at h
      · exact later (hf.insert d) (fun _ _ hd => (getElem?_insert_vars hd).imp_left And.right)
          (Prod.mk.inj h).2
      · rename_i first hfirst
        split at h
        · exact later hf (fun _ _ => .inr) (Prod.mk.inj h).2
        · rename_i hrhs
          cases h
          exact ⟨first, d, rfl, List.mem_cons_self, fun hnil => ht (List.isEmpty_iff.mpr hnil),
            hf _ _ hfirst, hrhs, .inr hfirst⟩

/-! ## Both passes -/

theorem filed_empty : Filed {} := fun _ _ h => by simp at h

theorem firstsHold_empty (a : Var → Bool) : FirstsHold a {} := fun _ _ h => by simp at h

/-- The constraints that a pass leaves, or its failure. -/
def Pass.result (p : Pass) : Except Failure (List Constraint) :=
  p.outcome.map fun () => p.constraints

namespace Solver

variable {s : Solver}

/-- The constraints of the pool, cleaned and combined. -/
def prepare (s : Solver) : Except Failure (List Constraint) := do
  let cs ← (s.clean s.pool).result
  (s.combine cs).result

/-- Preparing reads the values, the numbering and the pool of a solver only. -/
theorem prepare_congr {t : Solver} (hv : s.values = t.values) (hn : s.numbering = t.numbering)
    (hp : s.pool = t.pool) : s.prepare = t.prepare := by
  rw [prepare, prepare, Pass.result, Pass.result, clean, clean, reduceAll_congr hv hn, hp]
  rfl

theorem result_clean_eq_ok {cs cs' : List Constraint} :
    (s.clean cs).result = .ok cs' ↔ s.reduceAll cs = (cs', .ok ()) := by
  rw [Pass.result, clean]
  match s.reduceAll cs with
  | (_, .ok ()) => simp [Except.map]
  | (_, .error _) => simp [Except.map]

theorem result_combine_eq_ok {cs cs' : List Constraint} :
    (s.combine cs).result = .ok cs' ↔ combineAll {} cs = (cs', .ok ()) := by
  rw [Pass.result, combine]
  match combineAll {} cs with
  | (_, .ok ()) => simp [Except.map]
  | (_, .error _) => simp [Except.map]

theorem prepare_eq_ok {cs : List Constraint} :
    s.prepare = .ok cs ↔
      ∃ cleaned, s.reduceAll s.pool = (cleaned, .ok ()) ∧ combineAll {} cleaned = (cs, .ok ()) := by
  rw [prepare, Checked.bind_eq_ok]
  simp only [result_clean_eq_ok, result_combine_eq_ok]

theorem result_eq_error {p : Pass} {failure : Failure} :
    p.result = .error failure ↔ p.outcome = .error failure := by
  rw [Pass.result]
  cases p.outcome with
  | ok _ => simp [Except.map]
  | error _ => simp [Except.map]

theorem prepare_eq_error {failure : Failure} :
    s.prepare = .error failure ↔ (∃ cleaned, s.reduceAll s.pool = (cleaned, .error failure)) ∨
      ∃ cleaned cs, s.reduceAll s.pool = (cleaned, .ok ()) ∧
        combineAll {} cleaned = (cs, .error failure) := by
  rw [prepare, Checked.bind_eq_error]
  simp only [result_clean_eq_ok, result_eq_error]
  constructor
  · rintro (h | ⟨cleaned, hclean, h⟩)
    · exact .inl ⟨_, Prod.ext rfl h⟩
    · exact .inr ⟨cleaned, _, hclean, Prod.ext rfl h⟩
  · rintro (⟨cleaned, h⟩ | ⟨cleaned, cs, hclean, h⟩)
    · exact .inl (congrArg Prod.snd h)
    · exact .inr ⟨cleaned, hclean, congrArg Prod.snd h⟩

/-- What preparing makes of a constraint: a reduction other than `0 = 1`, cancelled or not. -/
def PreparesTo (s : Solver) (c c' : Constraint) : Prop :=
  ∃ d, s.reduce c = .ok d ∧ d.isAbsurd = false ∧ d.CombinesTo c'

namespace PreparesTo

variable {c c' : Constraint}

theorem isAbsurd_eq (h : s.PreparesTo c c') : c'.isAbsurd = false := by
  obtain ⟨d, -, habs, rfl | rfl⟩ := h
  · exact habs
  · rfl

theorem vars_lt (h : s.PreparesTo c c') : ∀ v ∈ c'.vars, v < s.varCount := by
  obtain ⟨d, hd, -, rfl | rfl⟩ := h
  · exact lt_of_reduce hd
  · exact nofun

theorem placement_eq (h : s.PreparesTo c c') : c'.placement = c.placement := by
  obtain ⟨d, hd, -, hc⟩ := h
  obtain ⟨terms, -, rfl⟩ := reduce_eq_ok.mp hd
  obtain rfl | rfl := hc <;> rfl

end PreparesTo

/-- The prepared constraints are those of the pool, each prepared in its place. -/
theorem forall₂_of_prepare {cs : List Constraint} (h : s.prepare = .ok cs) :
    List.Forall₂ s.PreparesTo s.pool cs := by
  obtain ⟨cleaned, hclean, hcombine⟩ := prepare_eq_ok.mp h
  have reduced := s.reduceAll_spec s.pool
  have combined := combineAll_spec filed_empty cleaned
  rw [hclean] at reduced
  rw [hcombine] at combined
  exact (forall₂_comp reduced combined.1).imp fun _ _ ⟨d, hd, hc⟩ => ⟨d, hd.1, hd.2, hc⟩

/-- What preparing makes of each constraint is so of all that it leaves. -/
theorem forall_mem_of_prepare {cs : List Constraint} (h : s.prepare = .ok cs)
    {P : Constraint → Prop} (hP : ∀ c ∈ s.pool, ∀ c', s.PreparesTo c c' → P c') :
    ∀ c ∈ cs, P c :=
  (forall_mem_iff_of_forall₂ (P := fun _ => True) (forall₂_of_prepare h) fun c hc c' hto =>
    ⟨fun _ => hP c hc c' hto, fun _ => trivial⟩).mp fun _ _ => trivial

/-- Preparing never leaves `0 = 1`. -/
theorem not_isAbsurd_of_prepare {cs : List Constraint} (h : s.prepare = .ok cs) :
    ∀ c ∈ cs, c.isAbsurd = false :=
  forall_mem_of_prepare h fun _ _ _ hto => hto.isAbsurd_eq

/-- Prepared constraints are over the variables of the solver. -/
theorem lt_of_prepare {cs : List Constraint} (h : s.prepare = .ok cs) :
    ∀ c ∈ cs, ∀ v ∈ c.vars, v < s.varCount :=
  forall_mem_of_prepare h fun _ _ _ hto => hto.vars_lt

/-- A step in preparing constraints `cs` of a solver is sound: it does not fault,
and every admitted assignment satisfies `cs` together with the constraints that
it leaves, which are over the variables of the solver. -/
def Sound (s : Solver) (cs : List Constraint) : Except Failure (List Constraint) → Prop
  | .ok cs' => (∀ c ∈ cs', ∀ v ∈ c.vars, v < s.varCount) ∧
      ∀ a, s.Admits a → ((∀ c ∈ cs, c.Holds a) ↔ ∀ c ∈ cs', c.Holds a)
  | .error (.contradiction _) => ∀ a, s.Admits a → ¬ ∀ c ∈ cs, c.Holds a
  | .error (.fault _) => False

theorem Sound.bind {cs : List Constraint} {x : Except Failure (List Constraint)}
    {f : List Constraint → Except Failure (List Constraint)} (hx : s.Sound cs x)
    (hf : ∀ cs', x = .ok cs' → s.Sound cs' (f cs')) : s.Sound cs (x >>= f) := by
  match x, hx with
  | .error (.contradiction _), hx => exact hx
  | .ok cs', ⟨_, hsame⟩ =>
    have hf := hf cs' rfl
    show s.Sound cs (f cs')
    generalize f cs' = y at hf
    match y, hf with
    | .error (.contradiction _), hf => exact fun a ha h => hf a ha ((hsame a ha).mp h)
    | .ok _, ⟨hlt, hsame'⟩ => exact ⟨hlt, fun a ha => (hsame a ha).trans (hsame' a ha)⟩

theorem WellFormed.sound_clean (hs : s.WellFormed) : s.Sound s.pool (s.clean s.pool).result := by
  have spec := s.reduceAll_spec s.pool
  rw [Pass.result, clean]
  generalize s.reduceAll s.pool = r at spec
  match r, spec with
  | (cs', .ok ()), spec =>
    refine ⟨?_, fun a ha => forall_mem_iff_of_forall₂ spec fun c _ c' h => holds_reduce ha h.1⟩
    exact (forall_mem_iff_of_forall₂ spec fun c hc c' h =>
      ⟨fun _ => lt_of_reduce h.1, fun _ => hs.pool c hc⟩).mp hs.pool
  | (_, .error (.contradiction _)), ⟨c, hc, c', hred, habs⟩ =>
    exact fun a ha h => c'.not_holds_of_isAbsurd habs a ((holds_reduce ha hred).mp (h c hc))
  | (_, .error (.fault _)), ⟨c, hc, hfault⟩ =>
    obtain ⟨c', hred⟩ := hs.exists_reduce (hs.pool c hc)
    rw [hred] at hfault
    cases hfault

theorem sound_combine {cs : List Constraint} (hcs : ∀ c ∈ cs, ∀ v ∈ c.vars, v < s.varCount) :
    s.Sound cs (s.combine cs).result := by
  have spec := combineAll_spec filed_empty cs
  rw [Pass.result, combine]
  generalize combineAll {} cs = r at spec
  match r, spec with
  | (cs', .ok ()), ⟨hto, hsame⟩ =>
    refine ⟨?_, fun a _ => hsame a (firstsHold_empty a)⟩
    refine (forall_mem_iff_of_forall₂ hto fun c hc c' h => ?_).mp hcs
    rcases h with rfl | rfl
    · exact Iff.rfl
    · exact ⟨fun _ => nofun, fun _ => hcs c hc⟩
  | (_, .error (.contradiction _)), spec => exact fun a _ => spec a (firstsHold_empty a)

/-- Preparing the pool of a well-formed solver is sound. -/
theorem WellFormed.sound_prepare (hs : s.WellFormed) : s.Sound s.pool s.prepare :=
  hs.sound_clean.bind fun cs hcs => by
    have clean := hs.sound_clean
    rw [hcs] at clean
    exact sound_combine clean.1

end Solver

end ParityBlocks
