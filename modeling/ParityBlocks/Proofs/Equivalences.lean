import Mathlib.Logic.Relation
import ParityBlocks.Proofs.Plain
import ParityBlocks.Proofs.Reachable

/-!
# Recorded equivalences

A solver can be told that outer variables are equal, one pair after the other
(`Solver.replaceAll`), and keeps one representative for each variable. What becomes of
the representatives is told through the equivalence relations that relate every variable
to its representative (`Numbering.Within`): such a relation is kept by a replacement whose
pair it relates (`Within.replace`), and it was such a relation before the
replacement if it also relates the replaced variable to the representative that it had
then (`WellFormed.within_of_replace`). Both are carried through all replacements by
induction (`within_replaceAll`, `within_of_replaceAll`).

So variables with the same representative are connected by recorded pairs. The converse
fails where a variable is replaced for which another stands already: it goes over to its
new representative alone, and the pairs that connected it to the old one are forgotten.
`Solver.same_iff_connected` says that this is the only way in which it fails.
-/

namespace ParityBlocks

namespace Numbering

variable {n n' : Numbering} {size : Nat} {v w : Var} {E : Var → Var → Prop}

/-- The outer variables have the same representative. -/
def Same (n : Numbering) (v w : Var) : Prop := n.representativeOf v = n.representativeOf w

instance (n : Numbering) (v w : Var) : Decidable (n.Same v w) :=
  inferInstanceAs (Decidable (_ = _))

theorem equivalence_same (n : Numbering) : Equivalence n.Same :=
  ⟨fun _ => rfl, Eq.symm, Eq.trans⟩

/-- Every outer variable is related to its representative. -/
def Within (n : Numbering) (E : Var → Var → Prop) : Prop := ∀ v, E v (n.representativeOf v)

theorem Within.of_same (hE : Equivalence E) (h : n.Within E) (hvw : n.Same v w) : E v w := by
  have hw := hE.symm (h w)
  rw [← hvw] at hw
  exact hE.trans (h v) hw

theorem representativeOf_eq {r : Var} (h : n.representative[v]? = some r) :
    n.representativeOf v = r := by
  rw [representativeOf, h, Option.getD_some]

/-- Representatives represent themselves. -/
theorem WellFormed.representativeOf_fixed (hn : n.WellFormed size) (v : Var) :
    n.representativeOf (n.representativeOf v) = n.representativeOf v := by
  cases h : n.representative[v]? with
  | none =>
    have hv : n.representativeOf v = v := by rw [representativeOf, h]; rfl
    rw [hv, hv]
  | some r => rw [representativeOf_eq h, representativeOf_eq (hn.representative_fixed h)]

theorem WellFormed.within_same (hn : n.WellFormed size) : n.Within n.Same :=
  fun v => (hn.representativeOf_fixed v).symm

/-! ## One replacement -/

/-- The representative of `w` becomes that of `v`, and of all that `v` stands for. -/
theorem representativeOf_replace (h : n.replace v w = .ok n') (u : Var) :
    n'.representativeOf u =
      if u = v ∨ n.representativeOf u = v then n.representativeOf w else n.representativeOf u := by
  obtain ⟨t, ht, hv, -, -, -, -, entry⟩ := replace_eq_ok h
  rw [representativeOf_eq ht]
  cases hu : n.representative[u]? with
  | some r => rw [representativeOf_eq hu, representativeOf, entry, hu, Option.map_some, Option.getD_some]
  | none =>
    -- `u` is out of range, and `v` is not
    have hne : u ≠ v := by
      rintro rfl
      exact absurd hv (Nat.not_lt.mpr (Array.getElem?_eq_none_iff.mp hu))
    rw [representativeOf, representativeOf, entry, hu, Option.map_none, Option.getD_none,
      if_neg (by simp [hne])]

theorem WellFormed.exists_replace (hn : n.WellFormed size) (hv : v < size) (hw : w < size) :
    ∃ n', n.replace v w = .ok n' := by
  have entry : ∀ {u}, u < size → ∃ r, n.representative[u]? = some r := fun hu =>
    ⟨_, Array.getElem?_eq_getElem (by rwa [hn.representative_size])⟩
  obtain ⟨t, ht⟩ := entry hw
  obtain ⟨r, hr⟩ := entry hv
  rw [Numbering.replace, lookup_eq_ok_iff.mpr ht, lookup_eq_ok_iff.mpr hr]
  exact ⟨_, rfl⟩

/-- The pair of a replacement has the same representative afterwards. -/
theorem same_replace (h : n.replace v w = .ok n') : n'.Same v w := by
  rw [Same, representativeOf_replace h, representativeOf_replace h, if_pos (.inl rfl), ite_self]

/-- A relation that relates the pair of a replacement is kept. -/
theorem Within.replace (hn : n.Within E) (hE : Equivalence E) (h : n.replace v w = .ok n')
    (hvw : E v w) : n'.Within E := by
  intro u
  rw [representativeOf_replace h]
  split
  · rename_i hu
    have huv : E u v := by
      rcases hu with rfl | hu
      · exact hE.refl u
      · exact hu ▸ hn u
    exact hE.trans huv (hE.trans hvw (hn w))
  · exact hn u

/-- A relation was kept if it relates the replaced variable to its old representative. -/
theorem WellFormed.within_of_replace (hwf : n.WellFormed size) (hE : Equivalence E)
    (h : n.replace v w = .ok n') (hn' : n'.Within E) (hold : E v (n.representativeOf v)) :
    n.Within E := by
  intro u
  by_cases huv : u = v
  · rwa [huv]
  refine hn'.of_same hE ?_
  by_cases hu : n.representativeOf u = v
  · -- `v` stood for `u`, and took `u` along
    rw [hu, Same, representativeOf_replace h, representativeOf_replace h, if_pos (.inr hu),
      if_pos (.inl rfl)]
  · rw [Same, representativeOf_replace h, representativeOf_replace h, hwf.representativeOf_fixed,
      if_neg (not_or.mpr ⟨huv, hu⟩), if_neg (not_or.mpr ⟨hu, hu⟩)]

end Numbering

/-! ## One replacement after the other -/

namespace Solver

variable {s t : Solver} {E : Var → Var → Prop} {pairs : List (Var × Var)}

/-- Records pairs of equal outer variables, one after the other. -/
def replaceAll (s : Solver) (pairs : List (Var × Var)) : Except Fault Solver :=
  pairs.foldlM (fun s p => s.replace p.1 p.2) s

theorem replace_eq_ok {v w : Var} :
    s.replace v w = .ok t ↔
      ∃ n, s.numbering.replace v w = .ok n ∧ { s with numbering := n } = t :=
  Checked.map_eq_ok

theorem replaceAll_cons_eq_ok {p : Var × Var} :
    s.replaceAll (p :: pairs) = .ok t ↔
      ∃ s', s.replace p.1 p.2 = .ok s' ∧ s'.replaceAll pairs = .ok t := by
  rw [replaceAll, List.foldlM_cons, Checked.bind_eq_ok]
  rfl

theorem WellFormed.of_replace (hs : s.WellFormed) {v w : Var} (h : s.replace v w = .ok t) :
    t.WellFormed := by
  have kept := hs.replace v w
  rwa [h] at kept

/-- Pairs of variables of the solver can be recorded. -/
theorem WellFormed.exists_replaceAll (hs : s.WellFormed)
    (hp : ∀ p ∈ pairs, p.1 < s.varCount ∧ p.2 < s.varCount) :
    ∃ t, s.replaceAll pairs = .ok t := by
  induction pairs generalizing s with
  | nil => exact ⟨s, rfl⟩
  | cons p pairs ih =>
    obtain ⟨⟨hv, hw⟩, hp⟩ := List.forall_mem_cons.mp hp
    obtain ⟨n, hn⟩ := hs.numbering.exists_replace hv hw
    have step : s.replace p.1 p.2 = .ok { s with numbering := n } := replace_eq_ok.mpr ⟨n, hn, rfl⟩
    obtain ⟨t, ht⟩ := ih (hs.of_replace step) hp
    exact ⟨t, replaceAll_cons_eq_ok.mpr ⟨_, step, ht⟩⟩

theorem WellFormed.of_replaceAll (hs : s.WellFormed) (h : s.replaceAll pairs = .ok t) :
    t.WellFormed := by
  induction pairs generalizing s with
  | nil => cases h; exact hs
  | cons p pairs ih =>
    obtain ⟨s', step, h⟩ := replaceAll_cons_eq_ok.mp h
    exact ih (hs.of_replace step) h

/-- A relation that relates all pairs is kept. -/
theorem within_replaceAll (hE : Equivalence E) (h : s.replaceAll pairs = .ok t)
    (hs : s.numbering.Within E) (hp : ∀ p ∈ pairs, E p.1 p.2) : t.numbering.Within E := by
  induction pairs generalizing s with
  | nil => cases h; exact hs
  | cons p pairs ih =>
    obtain ⟨s', step, h⟩ := replaceAll_cons_eq_ok.mp h
    obtain ⟨hpair, hp⟩ := List.forall_mem_cons.mp hp
    obtain ⟨n, hn, rfl⟩ := replace_eq_ok.mp step
    exact ih h (hs.replace hE hn hpair) hp

/-- Every variable that is replaced is related to the representative that it had just
before. -/
def Reunites (s : Solver) (pairs : List (Var × Var)) (E : Var → Var → Prop) : Prop :=
  ∀ before p after u, pairs = before ++ p :: after → s.replaceAll before = .ok u →
    E p.1 (u.numbering.representativeOf p.1)

theorem reunites_cons {p : Var × Var} {s' : Solver} (step : s.replace p.1 p.2 = .ok s')
    (h : s.Reunites (p :: pairs) E) :
    E p.1 (s.numbering.representativeOf p.1) ∧ s'.Reunites pairs E := by
  refine ⟨h [] p pairs s rfl rfl, fun before q after u hpairs hu => ?_⟩
  exact h (p :: before) q after u (congrArg (p :: ·) hpairs)
    (replaceAll_cons_eq_ok.mpr ⟨s', step, hu⟩)

/-- A relation in the end was one in the beginning, and relates all pairs, if it reunites
the replaced variables with their representatives. -/
theorem WellFormed.within_of_replaceAll (hE : Equivalence E) (hs : s.WellFormed)
    (h : s.replaceAll pairs = .ok t) (ht : t.numbering.Within E) (hold : s.Reunites pairs E) :
    s.numbering.Within E ∧ ∀ p ∈ pairs, E p.1 p.2 := by
  induction pairs generalizing s with
  | nil => cases h; exact ⟨ht, nofun⟩
  | cons p pairs ih =>
    obtain ⟨s', step, h⟩ := replaceAll_cons_eq_ok.mp h
    obtain ⟨hfirst, hold⟩ := reunites_cons step hold
    obtain ⟨hnext, hpairs⟩ := ih (hs.of_replace step) h hold
    obtain ⟨n, hn, rfl⟩ := replace_eq_ok.mp step
    exact ⟨hs.numbering.within_of_replace hE hn hnext hfirst,
      List.forall_mem_cons.mpr ⟨hnext.of_same hE (Numbering.same_replace hn), hpairs⟩⟩

/-! ## Pairs of a new solver -/

/-- A chain of recorded pairs, each taken in either direction, leads from `v` to `w`. -/
def Recorded (pairs : List (Var × Var)) : Var → Var → Prop :=
  Relation.ReflTransGen fun v w => (v, w) ∈ pairs ∨ (w, v) ∈ pairs

theorem equivalence_recorded (pairs : List (Var × Var)) : Equivalence (Recorded pairs) where
  refl _ := .refl
  symm h := by
    induction h with
    | refl => exact .refl
    | tail _ step ih => exact .head step.symm ih
  trans := Relation.ReflTransGen.trans

/-- Recorded pairs connect only what any equivalence relation with all the pairs relates. -/
theorem Recorded.of_forall (hE : Equivalence E) (hp : ∀ p ∈ pairs, E p.1 p.2) {v w : Var}
    (h : Recorded pairs v w) : E v w := by
  induction h with
  | refl => exact hE.refl v
  | tail _ step ih =>
    refine hE.trans ih ?_
    rcases step with hpair | hpair
    · exact hp _ hpair
    · exact hE.symm (hp _ hpair)

theorem within_new (hE : Equivalence E) (varCount : Nat) (settings : Settings) :
    (Solver.new varCount settings).numbering.Within E := by
  intro v
  rw [show (Solver.new varCount settings).numbering.representativeOf v = v from getD_range _ v]
  exact hE.refl v

/-- A variable that no pair has replaced stands for itself. -/
theorem representativeOf_replaceAll (h : s.replaceAll pairs = .ok t) {v : Var}
    (hv : s.numbering.representativeOf v = v) (hp : v ∉ pairs.map Prod.fst) :
    t.numbering.representativeOf v = v := by
  induction pairs generalizing s with
  | nil => cases h; exact hv
  | cons p pairs ih =>
    rw [List.map_cons, List.mem_cons, not_or] at hp
    obtain ⟨s', step, h⟩ := replaceAll_cons_eq_ok.mp h
    obtain ⟨n, hn, rfl⟩ := replace_eq_ok.mp step
    refine ih h ?_ hp.2
    rw [Numbering.representativeOf_replace hn, hv, if_neg (by simp [hp.1])]

/-- A new solver takes every list of pairs of its variables. What has the same
representative then is connected by recorded pairs. The converse holds exactly if every
variable has the representative in the end that stood for it whenever it was replaced, so
that it holds where no variable is replaced twice. -/
theorem same_iff_connected {varCount : Nat} (hn : varCount < Var.modulus) (settings : Settings)
    (hp : ∀ p ∈ pairs, p.1 < varCount ∧ p.2 < varCount) :
    ∃ t, (Solver.new varCount settings).replaceAll pairs = .ok t ∧
      (∀ v w, t.numbering.Same v w → Recorded pairs v w) ∧
      ((∀ v w, t.numbering.Same v w ↔ Recorded pairs v w) ↔
        (Solver.new varCount settings).Reunites pairs t.numbering.Same) ∧
      ((pairs.map Prod.fst).Nodup → ∀ v w, t.numbering.Same v w ↔ Recorded pairs v w) := by
  have hs := WellFormed.new settings hn
  have size : (Solver.new varCount settings).varCount = varCount := Array.size_replicate
  obtain ⟨t, ht⟩ := hs.exists_replaceAll (size.symm ▸ hp)
  have recorded := equivalence_recorded pairs
  have same := t.numbering.equivalence_same
  -- the representatives of the solver after some of the pairs
  have within : ∀ {before after u}, pairs = before ++ after →
      (Solver.new varCount settings).replaceAll before = .ok u →
      u.numbering.Within (Recorded pairs) := by
    rintro before after u rfl hu
    refine within_replaceAll recorded hu (within_new recorded _ _) fun p hpair => ?_
    exact .single (.inl (List.mem_append_left _ hpair))
  have sound : ∀ v w, t.numbering.Same v w → Recorded pairs v w := fun v w h =>
    (within (List.append_nil pairs).symm ht).of_same recorded h
  have complete : (Solver.new varCount settings).Reunites pairs t.numbering.Same →
      ∀ v w, t.numbering.Same v w ↔ Recorded pairs v w := by
    intro hold v w
    have ends := (hs.of_replaceAll ht).numbering.within_same
    obtain ⟨-, hpairs⟩ := hs.within_of_replaceAll same ht ends hold
    exact ⟨sound v w, fun h => h.of_forall same hpairs⟩
  refine ⟨t, ht, sound, ⟨fun h => ?_, complete⟩, fun hnodup => complete ?_⟩
  · intro before p after u hpairs hu
    exact (h _ _).mpr (within hpairs hu p.1)
  · rintro before p after u rfl hu
    rw [List.map_append, List.map_cons, List.nodup_append] at hnodup
    have first : p.1 ∉ before.map Prod.fst := fun hmem =>
      hnodup.2.2 _ hmem _ List.mem_cons_self rfl
    rw [representativeOf_replaceAll hu (getD_range _ _) first]
    exact same.refl p.1

/-- The third of these pairs takes 1 away from 0, and leaves 2 there. -/
theorem same_iff_connected_sample :
    let pairs := [(1, 0), (2, 1), (1, 3), (0, 4)]
    5 < Var.modulus ∧ (∀ p ∈ pairs, p.1 < 5 ∧ p.2 < 5) ∧
      ∃ t, (Solver.new 5 {}).replaceAll pairs = .ok t ∧
        (∀ v w, t.numbering.Same v w → Recorded pairs v w) ∧
        ((∀ v w, t.numbering.Same v w ↔ Recorded pairs v w) ↔
          (Solver.new 5 {}).Reunites pairs t.numbering.Same) ∧
        ((pairs.map Prod.fst).Nodup → ∀ v w, t.numbering.Same v w ↔ Recorded pairs v w) :=
  ⟨by decide, by decide, same_iff_connected (by decide) {} (by decide)⟩

/-- A variable that is replaced again leaves the one that stood for it. -/
theorem replaceAll_forgets_pair :
    let pairs := [(1, 0), (1, 2)]
    (∀ p ∈ pairs, p.1 < 3 ∧ p.2 < 3) ∧ ∃ t, (Solver.new 3 {}).replaceAll pairs = .ok t ∧
      Recorded pairs 0 1 ∧ ¬ t.numbering.Same 0 1 := by
  intro pairs
  have h : (((Solver.new 3 {}).replaceAll pairs).toOption.any fun t =>
      decide (¬ t.numbering.Same 0 1)) = true := by decide +kernel
  obtain ⟨t, ht, hne⟩ := Checked.exists_eq_ok h
  exact ⟨by decide, t, ht, .single (.inr List.mem_cons_self), of_decide_eq_true hne⟩

end Solver

end ParityBlocks
