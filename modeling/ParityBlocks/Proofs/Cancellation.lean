import Mathlib.Data.List.NodupEquivFin
import ParityBlocks.Proofs.CanonicalForm

/-!
# Variables that cancel

A search keeps the variables that cancelled in it. They are collected after combining, when a
constraint that repeats the variables of an earlier one has them among those it has cancelled, and
no longer among its own; so whether the search goes on from there makes no difference.

Combining cancels the list of a constraint if it was there before, so from a list that occurs any
number of times all but one are cancelled (`mem_cancelled_folded`). What a constraint brings from
earlier searches stays with it. So after a search that comes to a report the cancelled variables
are those that constraints of the pool brought, and those of the lists that are left in two places
of the pool by cleaning (`Session.find_cancels_shared`).
-/

namespace ParityBlocks

/-- At two places there are constraints with the same variables, `v` among them. -/
def Shared (cs : List Constraint) (v : Var) : Prop :=
  ∃ (i j : Nat) (c d : Constraint),
    i < j ∧ cs[i]? = some c ∧ cs[j]? = some d ∧ c.vars = d.vars ∧ v ∈ c.vars

theorem two_le_count_iff {α : Type} [BEq α] [LawfulBEq α] {xs : List α} {x : α} :
    2 ≤ xs.count x ↔ ∃ i j : Nat, i < j ∧ xs[i]? = some x ∧ xs[j]? = some x := by
  have twice : 2 ≤ xs.count x ↔ [x, x].Sublist xs := List.replicate_sublist_iff.symm
  rw [twice, ← List.duplicate_iff_sublist, List.duplicate_iff_exists_distinct_get]
  constructor
  · rintro ⟨i, j, hij, hi, hj⟩
    exact ⟨i, j, hij, by rw [hi]; simp, by rw [hj]; simp⟩
  · rintro ⟨i, j, hij, hi, hj⟩
    obtain ⟨hi, hxi⟩ := List.getElem?_eq_some_iff.mp hi
    obtain ⟨hj, hxj⟩ := List.getElem?_eq_some_iff.mp hj
    exact ⟨⟨i, hi⟩, ⟨j, hj⟩, hij, hxi.symm, hxj.symm⟩

theorem shared_iff {cs : List Constraint} {v : Var} :
    Shared cs v ↔ ∃ vs, v ∈ vs ∧ 2 ≤ (cs.map Constraint.vars).count vs := by
  simp only [two_le_count_iff, List.getElem?_map, Option.map_eq_some_iff]
  constructor
  · rintro ⟨i, j, c, d, hij, hi, hj, hvars, hv⟩
    exact ⟨c.vars, hv, i, j, hij, ⟨c, hi, rfl⟩, ⟨d, hj, hvars.symm⟩⟩
  · rintro ⟨vs, hv, i, j, hij, ⟨c, hi, rfl⟩, ⟨d, hj, hvars⟩⟩
    exact ⟨i, j, c, d, hij, hi, hj, hvars.symm, hv⟩

/-- Combining from the start cancels the lists of variables that there are in two places. -/
theorem mem_cancelled_combined {cs : List Constraint} {v : Var} :
    v ∈ Ascending.ofList ((folded [] cs).flatMap Constraint.cancelled) ↔
      (∃ c ∈ cs, v ∈ c.cancelled) ∨ Shared cs v := by
  rw [Ascending.mem_ofList, List.mem_flatMap, mem_cancelled_folded, shared_iff]
  simp only [repeated_nil_iff]

namespace Session

variable {s : Session}

/-- After a search that comes to a report, skipped or not, a variable is among the cancelled ones
if and only if a constraint of the pool brought it as cancelled, or cleaning left the same
variables in two constraints of the pool, with this one among them. -/
theorem find_cancels_shared (hr : s.solver.Reachable) (hc : s.solver.consistent = true)
    (hm : s.solver.matrices = []) {elapsed : Duration} {report : Report}
    (hok : (s.find elapsed).2 = .ok report) :
    (s.solver.clean s.solver.pool).outcome = .ok () ∧
      (s.find elapsed).1.solver.cancelled.Pairwise (· < ·) ∧
      ∀ v, v ∈ (s.find elapsed).1.solver.cancelled ↔
        (∃ c ∈ s.solver.pool, v ∈ c.cancelled) ∨
          Shared (s.solver.clean s.solver.pool).constraints v := by
  have hs := hr.wellFormed
  cases hp : s.solver.prepare with
  | error failure =>
    obtain ⟨c, outcome_eq, -⟩ := find_of_prepare_error hs hc hm hp elapsed
    rw [outcome_eq] at hok
    cases hok
  | ok cs =>
    obtain ⟨quiet, rfl⟩ := hs.prepare_eq_ok_iff_folded.mp hp
    have cleaned : s.solver.clean s.solver.pool =
        ⟨s.solver, s.solver.pool.map s.solver.reduced, .ok ()⟩ :=
      (hs.clean_eq_iff hs.pool).mpr ⟨rfl, (Solver.not_clashes_iff.mp quiet).1⟩
    rw [(find_of_prepare hs hc hm hp elapsed).cancelled_eq, cleaned]
    refine ⟨rfl, Ascending.pairwise_ofList _, fun v => ?_⟩
    -- cleaning changes nothing in what a constraint has cancelled before
    rw [mem_cancelled_combined]
    refine or_congr_left ⟨?_, ?_⟩
    · rintro ⟨_, hmem, hv⟩
      obtain ⟨c, hpool, rfl⟩ := List.mem_map.mp hmem
      exact ⟨c, hpool, hv⟩
    · rintro ⟨c, hpool, hv⟩
      exact ⟨_, List.mem_map_of_mem hpool, hv⟩

/-- A session after a search that was skipped, in which one of two equal constraints cancelled.
Of the constraints that were added then, three are equal after a replacement. -/
def cancelling : Session where
  solver :=
    [.configure { thresholds := { minConstraints := 3 } }, .add [1, 0] true, .add [0, 1] true,
      .search .zero, .replace 3 2, .add [2, 4] false, .add [4, 3] false, .add [5, 6] true,
      .add [4, 2] false].foldl Solver.perform (.new 7 {})

theorem find_cancels_shared_sample :
    cancelling.solver.Reachable ∧ cancelling.solver.consistent = true ∧
      cancelling.solver.matrices = [] ∧ cancelling.solver.cancelled = [0, 1] ∧
      ∃ report, (cancelling.find .zero).2 = .ok report ∧ report.skipped = none ∧
        (cancelling.find .zero).1.solver.cancelled = [0, 1, 2, 4] ∧
        Shared (cancelling.solver.clean cancelling.solver.pool).constraints 4 ∧
        ∀ v, v ∈ (cancelling.find .zero).1.solver.cancelled ↔
          (∃ c ∈ cancelling.solver.pool, v ∈ c.cancelled) ∨
            Shared (cancelling.solver.clean cancelling.solver.pool).constraints v := by
  have hr : cancelling.solver.Reachable := Solver.Reachable.foldl (.new {} (by decide)) _
  have hc : cancelling.solver.consistent = true := by decide +kernel
  have hm : cancelling.solver.matrices = [] := by decide +kernel
  have h : ((cancelling.find .zero).2.toOption.any
      fun report => decide (report.skipped = none)) = true := by decide +kernel
  obtain ⟨report, hok, hskip⟩ := Checked.exists_eq_ok h
  have cancelled : (cancelling.find .zero).1.solver.cancelled = [0, 1, 2, 4] := by decide +kernel
  obtain ⟨-, -, iff⟩ := find_cancels_shared hr hc hm hok
  have shared : Shared (cancelling.solver.clean cancelling.solver.pool).constraints 4 := by
    refine ((iff 4).mp (by rw [cancelled]; decide)).resolve_left ?_
    decide +kernel
  exact ⟨hr, hc, hm, by decide +kernel, report, hok, of_decide_eq_true hskip, cancelled, shared, iff⟩

end Session

end ParityBlocks
