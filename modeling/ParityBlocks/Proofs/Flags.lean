import ParityBlocks.Proofs.Tables
import ParityBlocks.Search.Ruling

/-!
# Flags come back clear

A loan of clear flags (`Marking.Holds`) has set exactly the flags that it
remembers, so that `release` gives all of them back clear (`Holds.release`). So
finding a ratio leaves the flags as they were, and the ratio is that of the members
(`SamplingSet.ratio_eq`, `SamplingSet.ratio_eq_ok`); and so does `assess`, which has a result if the members of
all components have flags (`assess_eq`).
-/

namespace ParityBlocks

namespace Marking

/-- Of the `size` flags exactly those are set that the loan remembers. -/
def Holds (m : Marking) (size : Nat) : Prop :=
  ∀ v : Var, m.flags[v]? = if v < size then some (decide (v ∈ m.marked)) else none

theorem Holds.borrow (size : Nat) : (borrow (Array.replicate size false)).Holds size := by
  intro v
  simp [Marking.borrow, Array.getElem?_replicate]

theorem Holds.size_flags {m : Marking} {size : Nat} (h : m.Holds size) : m.flags.size = size := by
  refine Nat.le_antisymm ?_ ?_
  · rw [← Array.getElem?_eq_none_iff, h size, if_neg (Nat.lt_irrefl _)]
  · have := h m.flags.size
    rw [Array.getElem?_eq_none (Nat.le_refl _)] at this
    split at this
    · cases this
    · rename_i hlt
      exact Nat.le_of_not_lt hlt

theorem Holds.mark_of_le {m : Marking} {size : Nat} (h : m.Holds size) {v : Var} (hv : size ≤ v) :
    m.mark v = .error (.indexOutOfRange size v) := by
  have hflag : m.flags[v]? = none := by rw [h v, if_neg (Nat.not_lt_of_le hv)]
  rw [Marking.mark, lookup, hflag, h.size_flags]

theorem Holds.mark_of_mem {m : Marking} {size : Nat} (h : m.Holds size) {v : Var} (hv : v < size)
    (hm : v ∈ m.marked) : m.mark v = .ok m := by
  have hflag : m.flags[v]? = some true := by rw [h v, if_pos hv, decide_eq_true hm]
  rw [Marking.mark, lookup, hflag]

theorem Holds.mark_of_not_mem {m : Marking} {size : Nat} (h : m.Holds size) {v : Var}
    (hv : v < size) (hm : v ∉ m.marked) :
    m.mark v = .ok ⟨m.flags.setIfInBounds v true, v :: m.marked⟩ := by
  have hflag : m.flags[v]? = some false := by rw [h v, if_pos hv, decide_eq_false hm]
  rw [Marking.mark, lookup, hflag]

/-- Marking a variable that has a flag. -/
theorem Holds.mark {m : Marking} {size : Nat} (h : m.Holds size) {v : Var} (hv : v < size) :
    ∃ m', m.mark v = .ok m' ∧ m'.Holds size ∧ ∀ w, w ∈ m'.marked ↔ w = v ∨ w ∈ m.marked := by
  by_cases hm : v ∈ m.marked
  · exact ⟨m, h.mark_of_mem hv hm, h, fun w => ⟨.inr, fun e => e.elim (· ▸ hm) id⟩⟩
  · refine ⟨_, h.mark_of_not_mem hv hm, fun w => ?_, fun w => List.mem_cons⟩
    rw [Array.getElem?_setIfInBounds, h.size_flags, h w]
    by_cases hw : v = w
    · subst hw; simp [hv]
    · simp [hw, Ne.symm hw]

theorem Holds.markAll {m : Marking} {size : Nat} (h : m.Holds size) {vs : List Var}
    (hv : ∀ v ∈ vs, v < size) :
    ∃ m', m.markAll vs = (m', .ok ()) ∧ m'.Holds size ∧
      ∀ w, w ∈ m'.marked ↔ w ∈ vs ∨ w ∈ m.marked := by
  induction vs generalizing m with
  | nil => exact ⟨m, rfl, h, fun w => by simp⟩
  | cons v vs ih =>
    obtain ⟨m₁, h₁, hm₁, e₁⟩ := h.mark (hv v List.mem_cons_self)
    obtain ⟨m₂, h₂, hm₂, e₂⟩ := ih hm₁ fun w hw => hv w (List.mem_cons_of_mem _ hw)
    refine ⟨m₂, ?_, hm₂, fun w => ?_⟩
    · rw [Marking.markAll, h₁]
      exact h₂
    · rw [e₂, e₁, List.mem_cons, or_left_comm, or_assoc]

/-- Only variables that have flags can all be marked. -/
theorem Holds.lt_of_markAll {m m' : Marking} {size : Nat} (h : m.Holds size) {vs : List Var}
    (hm : m.markAll vs = (m', .ok ())) : ∀ v ∈ vs, v < size := by
  induction vs generalizing m with
  | nil => exact fun _ hv => absurd hv List.not_mem_nil
  | cons v vs ih =>
    rcases Nat.lt_or_ge v size with hv | hv
    · obtain ⟨m₁, h₁, hm₁, -⟩ := h.mark hv
      rw [Marking.markAll, h₁] at hm
      exact List.forall_mem_cons.mpr ⟨hv, ih hm₁ hm⟩
    · rw [Marking.markAll, h.mark_of_le hv] at hm
      cases hm

/-- All flags are clear again at the end of the loan. -/
theorem Holds.release {m : Marking} {size : Nat} (h : m.Holds size) :
    m.release = Array.replicate size false := by
  apply Array.ext_getElem?
  intro v
  rw [Marking.release, Tables.getElem?_foldl_setIfInBounds, h.size_flags, h v,
    Array.getElem?_replicate]
  by_cases hv : v < size
  · by_cases hm : v ∈ m.marked <;> simp [hv, hm]
  · simp [hv]

end Marking

/-- The part of the sampling variables that are covered if these variables are settled. -/
def SamplingSet.share (set : SamplingSet) (isMember : Var → Bool) : Binary64 :=
  if set.entries.isEmpty then .zero else .quotient (set.coveredBy isMember) set.size

/-- A ratio is found with clear flags, which are clear afterwards. -/
theorem SamplingSet.ratio_eq (set : SamplingSet) {members : List Var} {size : Nat}
    (hv : ∀ v ∈ members, v < size) :
    set.ratio members (Array.replicate size false) =
      (.ok (set.share fun v => decide (v ∈ members)), Array.replicate size false) := by
  obtain ⟨m, hm, hh, hmarked⟩ := (Marking.Holds.borrow size).markAll hv
  have marked : m.isMarked = fun v => decide (v ∈ members) := by
    funext v
    have hmem : v ∈ m.marked ↔ v ∈ members := by simp [hmarked, Marking.borrow]
    rw [Marking.isMarked, hh v]
    by_cases hlt : v < size
    · simp only [if_pos hlt, Option.getD_some, hmem]
    · rw [if_neg hlt, decide_eq_false fun h => hlt (hv v h)]
      rfl
  by_cases he : set.entries.isEmpty
  · rw [ratio, share, if_pos he, if_pos he]
  · rw [ratio, share, if_neg he, if_neg he, hm]
    simp only [hh.release, marked]
    rfl

/-- A ratio is found if the members have flags, or if there are no sampling variables. -/
theorem SamplingSet.ratio_eq_ok {set : SamplingSet} {members : List Var} {size : Nat}
    {r : Binary64} {flags : Array Bool} :
    set.ratio members (Array.replicate size false) = (.ok r, flags) ↔
      (set.entries = [] ∨ ∀ v ∈ members, v < size) ∧
        r = set.share (fun v => decide (v ∈ members)) ∧ flags = Array.replicate size false := by
  by_cases he : set.entries = []
  · have hempty : set.entries.isEmpty = true := List.isEmpty_iff.mpr he
    rw [ratio, if_pos hempty, share, if_pos hempty, Prod.mk.injEq, Except.ok.injEq]
    exact ⟨fun h => ⟨.inl he, h.1.symm, h.2.symm⟩, fun h => ⟨h.2.1.symm, h.2.2.symm⟩⟩
  · constructor
    · intro h
      have hv : ∀ v ∈ members, v < size := by
        rw [ratio, if_neg (mt List.isEmpty_iff.mp he)] at h
        cases hm : (Marking.borrow (Array.replicate size false)).markAll members with
        | mk m outcome =>
          cases outcome with
          | error fault =>
            rw [hm] at h
            cases h
          | ok u => exact (Marking.Holds.borrow size).lt_of_markAll hm
      rw [set.ratio_eq hv, Prod.mk.injEq, Except.ok.injEq] at h
      exact ⟨.inr hv, h.1.symm, h.2.symm⟩
    · rintro ⟨hv, rfl, rfl⟩
      exact set.ratio_eq (hv.resolve_left he)

theorem SamplingSet.exists_ratio (set : SamplingSet) {members : List Var} {size : Nat}
    (hv : ∀ v ∈ members, v < size) :
    ∃ ratio, set.ratio members (Array.replicate size false) =
      (.ok ratio, Array.replicate size false) :=
  ⟨_, set.ratio_eq hv⟩

/-- A component with the part of the sampling variables that it covers. -/
def Assessed.of (sampling : Option SamplingSet) (c : Component) : Assessed :=
  ⟨c, sampling.map fun set => set.share fun v => decide (v ∈ c.members)⟩

/-- All components get assessed if their members have flags. -/
theorem assess_eq (sampling : Option SamplingSet) {components : List Component} {size : Nat}
    (hv : ∀ c ∈ components, ∀ v ∈ c.members, v < size) :
    assess sampling components (Array.replicate size false) =
      (.ok (components.map (Assessed.of sampling)), Array.replicate size false) := by
  induction components with
  | nil => rfl
  | cons c cs ih =>
    obtain ⟨hc, hcs⟩ := List.forall_mem_cons.mp hv
    cases sampling with
    | none =>
      rw [assess, ih hcs]
      rfl
    | some set =>
      rw [assess, set.ratio_eq hc]
      simp only [ih hcs]
      rfl

theorem exists_assess (sampling : Option SamplingSet) {components : List Component} {size : Nat}
    (hv : ∀ c ∈ components, ∀ v ∈ c.members, v < size) :
    ∃ assessed, assess sampling components (Array.replicate size false) =
      (.ok assessed, Array.replicate size false) :=
  ⟨_, assess_eq sampling hv⟩

theorem map_component_of_assess {sampling : Option SamplingSet} {components : List Component}
    {flags flags' : Array Bool} {assessed : List Assessed}
    (h : assess sampling components flags = (.ok assessed, flags')) :
    assessed.map Assessed.component = components := by
  induction components generalizing flags assessed with
  | nil =>
    cases h
    rfl
  | cons c cs ih =>
    -- whatever the ratio is, the rest follows the component
    have step : ∀ flags ratio, ((assess sampling cs flags).1.map (⟨c, ratio⟩ :: ·),
        (assess sampling cs flags).2) = (.ok assessed, flags') →
        assessed.map Assessed.component = c :: cs := by
      intro flags ratio h
      obtain ⟨hmap, rfl⟩ := Prod.mk.inj h
      cases hrest : (assess sampling cs flags).1 with
      | error fault =>
        rw [hrest] at hmap
        cases hmap
      | ok rest =>
        rw [hrest] at hmap
        cases hmap
        rw [List.map_cons, ih (Prod.ext hrest rfl)]
    cases sampling with
    | none => exact step flags none h
    | some set =>
      rw [assess] at h
      cases hratio : set.ratio c.members flags with
      | mk ratio flags₁ =>
        rw [hratio] at h
        cases ratio with
        | error fault => cases h
        | ok ratio => exact step flags₁ (some ratio) h

end ParityBlocks
