import Mathlib.Data.List.Sort
import ParityBlocks.Proofs.Parity

/-!
# Ascending lists are sets

An ascending list is known by its members (`Ascending.eq_of_mem_iff`). So `ofList` is
a function of the members of a list (`ofList_congr`), and `oddOf` of how often each of
them occurs (`mem_oddOf`, `oddOf_congr`); and an ascending list has nothing left to
cancel (`oddOf_eq_self`).
-/

namespace ParityBlocks.Ascending

theorem eq_of_mem_iff {vs ws : List Nat} (hv : vs.Pairwise (· < ·)) (hw : ws.Pairwise (· < ·))
    (h : ∀ v, v ∈ vs ↔ v ∈ ws) : vs = ws := by
  have perm : vs.Perm ws :=
    (List.perm_ext_iff_of_nodup (hv.imp Nat.ne_of_lt) (hw.imp Nat.ne_of_lt)).mpr h
  exact perm.eq_of_pairwise (fun x y _ _ hxy hyx => absurd hxy (Nat.lt_asymm hyx)) hv hw

theorem ofList_congr {vs ws : List Nat} (h : ∀ v, v ∈ vs ↔ v ∈ ws) : ofList vs = ofList ws :=
  eq_of_mem_iff (pairwise_ofList vs) (pairwise_ofList ws) fun v => by rw [mem_ofList, mem_ofList, h]

/-! ## Numbers that occur an odd number of times -/

theorem pairwise_toggle {v : Nat} {ws : List Nat} (h : ws.Pairwise (· < ·)) :
    (toggle v ws).Pairwise (· < ·) := by
  induction ws with
  | nil => simp [toggle]
  | cons w ws ih =>
    obtain ⟨hw, hs⟩ := List.pairwise_cons.mp h
    simp only [toggle]
    split
    · rename_i hv
      refine List.pairwise_cons.mpr ⟨fun x hx => ?_, h⟩
      rcases List.mem_cons.mp hx with rfl | hx
      · exact hv
      · exact Nat.lt_trans hv (hw x hx)
    · split
      · exact hs
      · refine List.pairwise_cons.mpr ⟨fun x hx => ?_, ih hs⟩
        rcases mem_of_mem_toggle hx with rfl | hx
        · omega
        · exact hw x hx

theorem pairwise_oddOf (vs : List Nat) : (oddOf vs).Pairwise (· < ·) := by
  induction vs with
  | nil => exact .nil
  | cons v vs ih => exact pairwise_toggle ih

/-- Toggling a number changes whether it is a member, and nothing else. -/
theorem mem_toggle {v x : Nat} {ws : List Nat} (h : ws.Pairwise (· < ·)) :
    x ∈ toggle v ws ↔ if x = v then x ∉ ws else x ∈ ws := by
  induction ws with
  | nil => simp [toggle]
  | cons w ws ih =>
    obtain ⟨hw, hs⟩ := List.pairwise_cons.mp h
    simp only [toggle]
    split
    · rename_i hv
      have hnot : v ∉ w :: ws := by
        intro hm
        rcases List.mem_cons.mp hm with rfl | hm
        · exact Nat.lt_irrefl _ hv
        · exact Nat.lt_asymm hv (hw v hm)
      split
      · rename_i hx
        subst hx
        exact ⟨fun _ => hnot, fun _ => List.mem_cons_self⟩
      · rename_i hx
        rw [List.mem_cons, or_iff_right hx]
    · split
      · rename_i hv
        subst hv
        have hnot : v ∉ ws := fun hm => Nat.lt_irrefl _ (hw v hm)
        split
        · rename_i hx
          subst hx
          simp [hnot]
        · rename_i hx
          rw [List.mem_cons, or_iff_right hx]
      · rename_i hv
        rw [List.mem_cons, ih hs, List.mem_cons]
        split
        · rename_i hx
          subst hx
          simp [hv]
        · rfl

/-- Whether a number stays depends on how often it occurs. -/
theorem mem_oddOf {x : Nat} {vs : List Nat} : x ∈ oddOf vs ↔ vs.count x % 2 = 1 := by
  induction vs with
  | nil => simp [oddOf]
  | cons v vs ih =>
    have step : x ∈ oddOf (v :: vs) ↔ if x = v then x ∉ oddOf vs else x ∈ oddOf vs :=
      mem_toggle (pairwise_oddOf vs)
    rw [step, ih, List.count_cons]
    by_cases hx : x = v
    · subst hx
      simp only [if_true, beq_self_eq_true]
      omega
    · simp [hx, Ne.symm hx]

theorem oddOf_congr {vs ws : List Nat} (h : ∀ v, vs.count v % 2 = ws.count v % 2) :
    oddOf vs = oddOf ws :=
  eq_of_mem_iff (pairwise_oddOf vs) (pairwise_oddOf ws) fun v => by rw [mem_oddOf, mem_oddOf, h]

/-- An ascending list has nothing that occurs twice. -/
theorem oddOf_eq_self {vs : List Nat} (h : vs.Pairwise (· < ·)) : oddOf vs = vs := by
  refine eq_of_mem_iff (pairwise_oddOf vs) h fun v => ?_
  have once : vs.count v ≤ 1 := List.nodup_iff_count_le_one.mp (h.imp Nat.ne_of_lt) v
  rw [mem_oddOf, ← List.count_pos_iff]
  omega

end ParityBlocks.Ascending
