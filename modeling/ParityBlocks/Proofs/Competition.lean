import ParityBlocks.Proofs.Flags
import ParityBlocks.Proofs.Rulings

/-!
# Competition for matrices

The rules before the last judge a component by itself (`Policy.merit`); the last one
counts the matrices that were made before it (`Policy.decide_eq`). Who is accepted for
the covered sampling variables comes before everyone that is left to the last rule
(`Policy.pairwise_settled`), so the places that are left for those are the same in whatever
order they come: the verdicts on all components are those by merit, then as many
acceptances as there are places, then rejections for the limit
(`Ruling.perm_verdicts_ofAssessed`).
-/

namespace ParityBlocks

namespace Policy

/-- The verdict on a component by itself, if there is one. -/
def merit (p : Policy) (shape : Shape) (ratio : Option Binary64) : Option Verdict :=
  rules.dropLast.findSome? fun rule => rule p ⟨shape, ratio, 0⟩

/-- Before the last rule, only rows, columns and covered sampling variables matter. -/
theorem findSome?_dropLast_congr (p : Policy) {c d : Candidate}
    (hrows : c.shape.rows = d.shape.rows) (hcols : c.shape.cols = d.shape.cols)
    (hratio : c.ratio = d.ratio) :
    (rules.dropLast.findSome? fun rule => rule p c) =
      rules.dropLast.findSome? fun rule => rule p d := by
  simp only [rules, List.dropLast, List.findSome?_cons, List.findSome?_nil, rejectIf, samplingRule,
    hrows, hcols, hratio]

/-- The last rule has a verdict on everyone that is left. -/
theorem decide_eq (p : Policy) (c : Candidate) :
    p.decide c = (p.merit c.shape c.ratio).getD
      (if p.maxMatrices ≤ c.acceptedBefore then .rejected .matrixLimit else .accepted) := by
  have parts : rules = rules.dropLast ++
      [rejectIf (fun p c => c.acceptedBefore ≥ p.maxMatrices) .matrixLimit] := rfl
  have same : (rules.dropLast.findSome? fun rule => rule p c) = p.merit c.shape c.ratio :=
    p.findSome?_dropLast_congr rfl rfl rfl
  rw [decide, parts, List.findSome?_append, same]
  cases p.merit c.shape c.ratio with
  | some verdict => rfl
  | none =>
    by_cases h : p.maxMatrices ≤ c.acceptedBefore <;> simp [rejectIf, h]

theorem exists_of_merit_accepted {p : Policy} {shape : Shape} {ratio : Option Binary64}
    {verdict : Verdict} (h : p.merit shape ratio = some verdict) (ha : verdict.isAccepted = true) :
    p.minRows < shape.rows ∧ ratio.isSome = true := by
  obtain ⟨rule, hmem, hrule⟩ := List.exists_of_findSome?_eq_some h
  simp only [rules, List.dropLast, List.mem_cons, List.not_mem_nil, or_false] at hmem
  have rejects : ∀ {condition : Policy → Candidate → Bool} {why : Rejection} {c : Candidate},
      rejectIf condition why p c ≠ some verdict := by
    intro condition why c he
    rw [rejectIf] at he
    split at he <;> cases he
    cases ha
  rcases hmem with rfl | rfl | rfl | rfl | rfl
  case inr.inl =>
    rw [samplingRule] at hrule
    split at hrule
    · rename_i hrows
      obtain ⟨r, hr, -⟩ := Option.map_eq_some_iff.mp hrule
      exact ⟨hrows, by rw [show ratio = some r from hr]; rfl⟩
    · cases hrule
  all_goals exact absurd hrule rejects

/-- More than the least number of rows are judged by the covered sampling variables. -/
theorem isSome_merit {p : Policy} {shape : Shape} {ratio : Option Binary64}
    (hrows : p.minRows < shape.rows) (hr : ratio.isSome = true) :
    (p.merit shape ratio).isSome = true := by
  obtain ⟨r, rfl⟩ := Option.isSome_iff_exists.mp hr
  refine List.findSome?_isSome_iff.mpr ⟨samplingRule, ?_, ?_⟩
  · simp [rules]
  · rw [samplingRule, if_pos hrows]
    rfl

/-- The verdicts on components: those by merit, and those on the others when `free` of
them can be accepted. -/
def verdicts (settled : List Verdict) (others free : Nat) : List Verdict :=
  settled ++ (List.replicate (min others free) .accepted ++
    List.replicate (others - free) (.rejected .matrixLimit))

theorem perm_verdicts_rejected (settled : List Verdict) (others : Nat) :
    (Verdict.rejected .matrixLimit :: verdicts settled others 0).Perm
      (verdicts settled (others + 1) 0) := by
  simp only [verdicts, Nat.min_zero, List.replicate_zero, List.nil_append, Nat.sub_zero]
  rw [List.replicate_succ]
  exact List.perm_middle.symm

theorem perm_verdicts_accepted (settled : List Verdict) (others free : Nat) :
    (Verdict.accepted :: verdicts settled others free).Perm
      (verdicts settled (others + 1) (free + 1)) := by
  simp only [verdicts, Nat.succ_min_succ, Nat.add_sub_add_right]
  rw [List.replicate_succ, List.cons_append]
  exact List.perm_middle.symm

end Policy

namespace Assessed

/-- The verdict on the component by itself, if there is one. -/
def merit (p : Policy) (a : Assessed) : Option Verdict := p.merit a.component.shape a.ratio

/-- The components that are left to the last rule are not followed by any that are
accepted by merit. -/
def Settled (p : Policy) (as : List Assessed) : Prop :=
  as.Pairwise fun a b => a.merit p = none → ∀ v ∈ b.merit p, v.isAccepted = false

theorem settled_of_pairwise {sampling : Option SamplingSet} (p : Policy)
    {components : List Component}
    (h : components.Pairwise fun c d => c.shape.priority d.shape = .lt) :
    Settled p (components.map (Assessed.of sampling)) := by
  refine List.pairwise_map.mpr (h.imp fun {c d} hcd hc v hv => ?_)
  by_contra ha
  obtain ⟨hrows, hratio⟩ := Policy.exists_of_merit_accepted hv (Bool.eq_true_of_not_eq_false ha)
  have more : d.shape.rows ≤ c.shape.rows := Shape.rows_le_of_priority hcd
  -- sampling variables are configured for all components or for none
  have hratio' : (Assessed.of sampling c).ratio.isSome = true := by
    cases sampling with
    | none => cases hratio
    | some set => rfl
  have := Policy.isSome_merit (Nat.lt_of_lt_of_le hrows more) hratio'
  rw [show p.merit c.shape (Assessed.of sampling c).ratio = none from hc] at this
  cases this

end Assessed

namespace Ruling

variable {p : Policy} {as : List Assessed}

/-- Ruling on components one after the other, `k` of which were accepted before. -/
theorem perm_verdicts_ofAssessed (hrows : ∀ a ∈ as, a.component.shape.rows ≠ 0)
    (h : Assessed.Settled p as) (k : Nat) :
    ((ofAssessed p k as).map fun r => r.decision.verdict).Perm
      (Policy.verdicts (as.filterMap (Assessed.merit p)) (as.countP fun a => (a.merit p).isNone)
        (p.maxMatrices - (k + (as.filterMap (Assessed.merit p)).countP Verdict.isAccepted))) := by
  induction as generalizing k with
  | nil => simp [ofAssessed, Policy.verdicts]
  | cons a rest ih =>
    obtain ⟨ha, hrows⟩ := List.forall_mem_cons.mp hrows
    obtain ⟨first, h⟩ := List.pairwise_cons.mp h
    have hne := p.decide_ne_noRows (c := ⟨a.component.shape, a.ratio, k⟩) ha
    have hd := p.decide_eq ⟨a.component.shape, a.ratio, k⟩
    simp only [ofAssessed, if_neg hne]
    cases hm : a.merit p with
    | some v =>
      rw [show p.merit a.component.shape a.ratio = some v from hm, Option.getD_some] at hd
      have others : ((a :: rest).countP fun a => (a.merit p).isNone) =
          rest.countP fun a => (a.merit p).isNone :=
        List.countP_cons_of_neg (by rw [hm]; exact Bool.false_ne_true)
      rw [hd, List.filterMap_cons_some hm, others]
      cases hv : v.isAccepted with
      | true =>
        rw [if_pos rfl, List.countP_cons_of_pos hv, ← Nat.add_assoc, Nat.add_right_comm]
        exact (ih hrows h (k + 1)).cons v
      | false =>
        rw [if_neg Bool.false_ne_true, List.countP_cons_of_neg (by rw [hv]; decide)]
        exact (ih hrows h k).cons v
    | none =>
      have rejected : (rest.filterMap (Assessed.merit p)).countP Verdict.isAccepted = 0 := by
        rw [List.countP_eq_zero]
        intro v hv
        obtain ⟨b, hb, hv⟩ := List.mem_filterMap.mp hv
        rw [first b hb hm v hv]
        decide
      have ih := ih hrows h
      rw [show p.merit a.component.shape a.ratio = none from hm, Option.getD_none] at hd
      rw [hd, List.filterMap_cons_none hm, List.countP_cons_of_pos (by rw [hm]; rfl)]
      simp only [rejected, Nat.add_zero] at ih ⊢
      generalize rest.filterMap (Assessed.merit p) = settled at ih ⊢
      generalize (rest.countP fun a => (a.merit p).isNone) = others at ih ⊢
      by_cases hk : p.maxMatrices ≤ k
      · have ih := ih k
        rw [Nat.sub_eq_zero_of_le hk] at ih ⊢
        simp only [if_pos hk, Verdict.isAccepted, Bool.false_eq_true, if_false, List.map_cons]
        exact (ih.cons _).trans (Policy.perm_verdicts_rejected settled others)
      · obtain ⟨free, hfree⟩ : ∃ free, p.maxMatrices - k = free + 1 :=
          Nat.exists_eq_succ_of_ne_zero (Nat.sub_ne_zero_of_lt (Nat.lt_of_not_le hk))
        have ih := ih (k + 1)
        rw [Nat.sub_add_eq, hfree, Nat.add_sub_cancel] at ih
        rw [hfree]
        simp only [if_neg hk, Verdict.isAccepted, if_true, List.map_cons]
        exact (ih.cons _).trans (Policy.perm_verdicts_accepted settled others free)

end Ruling

end ParityBlocks
