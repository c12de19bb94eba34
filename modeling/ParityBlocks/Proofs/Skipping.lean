import ParityBlocks.Proofs.Normal
import ParityBlocks.Proofs.Representation

/-!
# Searches after a skipped search

A skipped search leaves the prepared constraints in the pool. They are prepared already
(`Solver.WellFormed.prepare_prepare`), so any search that follows does what it would have
done without the skipped one (`Search.explore_of_prepared`,
`Session.find_after_skipped`).
-/

namespace ParityBlocks

namespace Solver

variable {s : Solver}

theorem Reachable.registered (h : s.Reachable) : s.Registered := by
  induction h with
  | new settings h => exact .of_matrices_eq_nil rfl rfl nofun
  | perform hs r ih => exact ih.perform hs.wellFormed r

end Solver

namespace Search

variable {s : Solver}

/-- What an earlier search has cancelled makes no difference. -/
theorem searchPrepared_cancelled (b : Backend) (cs : List Constraint) (cancelled : List Var) :
    searchPrepared b { s with cancelled := cancelled } cs = searchPrepared b s cs := rfl

/-- A search of prepared constraints is the search of those that they were prepared from. -/
theorem explore_of_prepared (hs : s.WellFormed) (hc : s.consistent = true) (hm : s.matrices = [])
    {cs : List Constraint} (hp : s.prepare = .ok cs) (cancelled : List Var) :
    explore .ordinary { s with pool := cs, cancelled := cancelled } = explore .ordinary s := by
  have again : ({ s with pool := cs, cancelled := cancelled } : Solver).prepare = .ok cs := by
    rw [← hs.prepare_prepare hp]
    exact Solver.prepare_congr rfl rfl rfl
  rw [explore_of_prepare_eq_ok hc hm hp, explore_of_prepare_eq_ok (by exact hc) (by exact hm) again]
  exact searchPrepared_cancelled (s := { s with pool := [] }) _ _ _

/-- A search whose constraints can be prepared ends with a report. -/
theorem exists_report_of_prepare (hs : s.WellFormed) (hc : s.consistent = true)
    (hm : s.matrices = []) {cs : List Constraint} (hp : s.prepare = .ok cs) :
    ∃ report, (explore .ordinary s).outcome = .ok report := by
  have ends := hs.concludes (ends_explore hc hm .zero)
  cases h : (explore .ordinary s).outcome with
  | ok report => exact ⟨report, rfl⟩
  | error failure =>
    rw [h] at ends
    generalize (explore .ordinary s).settled = t at ends
    cases ends with
    | contradicted prepared =>
      rw [hp] at prepared
      cases prepared

end Search

namespace Session

open Search

variable {s : Session}

/-- The session with other settings. -/
def configure (s : Session) (settings : Settings) : Session :=
  { s with solver := { s.solver with settings := settings } }

/-- Whatever the settings were under which a search was skipped: the next search, under any
settings, ends with the report and the solver with which it ends without the skipped one. -/
theorem find_after_skipped (hr : s.solver.Reachable) (hc : s.solver.consistent = true)
    (hm : s.solver.matrices = []) (skipping settings : Settings) {elapsed : Duration}
    {report : Report} (hok : ((s.configure skipping).find elapsed).2 = .ok report)
    (hskip : report.skipped ≠ none) :
    ∃ next : Report, ∀ elapsed₁ elapsed₂ : Duration,
      let after := (((s.configure skipping).find elapsed).1.configure settings).find elapsed₁
      let direct := (s.configure settings).find elapsed₂
      after.2 = .ok { next with elapsed := elapsed₁ } ∧
        direct.2 = .ok { next with elapsed := elapsed₂ } ∧ after.1.solver = direct.1.solver := by
  have hs : (s.configure settings).solver.WellFormed :=
    (hr.perform (.configure settings)).wellFormed
  have ends := concludes_find (s := s.configure skipping)
    (hr.perform (.configure skipping)).wellFormed hc hm elapsed
  rw [hok] at ends
  generalize hfound : ((s.configure skipping).find elapsed).1 = found at ends ⊢
  generalize ht : found.solver = t at ends
  cases ends with
  | divided => exact absurd rfl hskip
  | @skipped cs cause prepared skipCause =>
    have prepared : (s.configure settings).solver.prepare = .ok cs :=
      prepared ▸ Solver.prepare_congr rfl rfl rfl
    obtain ⟨next, hnext⟩ := exists_report_of_prepare hs hc hm prepared
    have same : explore .ordinary (found.configure settings).solver =
        explore .ordinary (s.configure settings).solver := by
      have hq := hr.registered.queue_eq_nil hm
      rw [← explore_of_prepared hs hc hm prepared
        (Ascending.ofList (cs.flatMap Constraint.cancelled)), configure, ht]
      simp only [configure, hq]
    refine ⟨next, fun elapsed₁ elapsed₂ => ⟨?_, ?_, ?_⟩⟩
    · rw [outcome_find, same, hnext]
      rfl
    · rw [outcome_find, hnext]
      rfl
    · rw [solver_find, solver_find, same]

/-- The search of the sample that is skipped leaves the folded constraint in the pool. -/
theorem find_after_skipped_sample :
    let skipping : Settings := { thresholds := { minConstraints := 100 } }
    sample.solver.Reachable ∧ sample.solver.consistent = true ∧ sample.solver.matrices = [] ∧
      (∃ report, ((sample.configure skipping).find .zero).2 = .ok report ∧
        report.skipped ≠ none) ∧
      ∃ next : Report, ∀ elapsed₁ elapsed₂ : Duration,
        let after := (((sample.configure skipping).find .zero).1.configure {}).find elapsed₁
        let direct := (sample.configure {}).find elapsed₂
        after.2 = .ok { next with elapsed := elapsed₁ } ∧
          direct.2 = .ok { next with elapsed := elapsed₂ } ∧
          after.1.solver = direct.1.solver := by
  intro skipping
  have h : (((sample.configure skipping).find .zero).2.toOption.any fun report =>
      decide (report.skipped ≠ none)) = true := by decide +kernel
  obtain ⟨report, hok, h⟩ := Checked.exists_eq_ok h
  have hskip := of_decide_eq_true h
  exact ⟨reachable_sample, consistent_sample, matrices_sample, ⟨report, hok, hskip⟩,
    find_after_skipped reachable_sample consistent_sample matrices_sample skipping {} hok hskip⟩

end Session

end ParityBlocks
