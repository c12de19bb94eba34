import ParityBlocks.Proofs.Division

/-!
# How a search of a well-formed solver ends

Of the ends of a search (`Search.Ends`) a well-formed solver meets three
(`Search.Concludes`): a contradiction while the pool is prepared, no search
because there is a cause against it, and a division of the prepared constraints
into blocks. So no search of it faults, and none fails on giving constraints back
(`Session.concludes_find`), and what becomes of the pool says the same as the pool
(`Search.Concludes.tells`).
-/

namespace ParityBlocks

/-- What an outcome tells about a statement that becomes another on the way: a result
that both say the same, and a contradiction that it is false. There is no fault. -/
def Tells {α : Type} (before after : Prop) : Except Failure α → Prop
  | .ok _ => before ↔ after
  | .error (.contradiction _) => ¬ before
  | .error (.fault _) => False

namespace Search

/-- How a search of a well-formed solver ends: with a contradiction in its pool,
without looking for blocks, or with the rulings on the blocks carried out. -/
inductive Concludes (s : Solver) (elapsed : Duration) : Solver → Except Failure Report → Prop
  | contradicted {c : Contradiction} (prepared : s.prepare = .error (.contradiction c)) :
    Concludes s elapsed { s with pool := [], consistent := false } (.error (.contradiction c))
  | skipped {cs : List Constraint} {cause : SkipCause} (prepared : s.prepare = .ok cs)
      (skipCause : skipCause? s.settings cs = some cause) :
    Concludes s elapsed
      { s with
        pool := cs
        queue := []
        cancelled := Ascending.ofList (cs.flatMap Constraint.cancelled) }
      (.ok { constraintCount := cs.length, skipped := some cause, elapsed := elapsed })
  | divided {cs : List Constraint} {components : List Component} {assessed : List Assessed}
      {rulings : List Ruling} (prepared : s.prepare = .ok cs)
      (skipCause : skipCause? s.settings cs = none)
      (components_eq : s.components cs = .ok components)
      (assess_eq : assess s.samplingSet components s.flags = (.ok assessed, s.flags))
      (rulings_eq : rulings = Ruling.ofAssessed s.policy 0 assessed)
      (divides : Ruling.Divides cs rulings) :
    Concludes s elapsed
      { s with
        pool := rulings.flatMap Ruling.returned
        matrices := rulings.filterMap Ruling.matrix?
        queue := queueAfter s.queue (rulings.filterMap Ruling.matrix?).length
        cancelled := Ascending.ofList (cs.flatMap Constraint.cancelled) }
      (.ok { Ruling.report cs.length rulings with elapsed := elapsed })

namespace Concludes

variable {s t : Solver} {elapsed : Duration} {outcome : Except Failure Report}

/-- A search keeps the values that variables have for good. -/
theorem values_eq (h : Concludes s elapsed t outcome) : t.values = s.values := by
  cases h <;> rfl

/-- A search keeps the number of variables. -/
theorem varCount_eq (h : Concludes s elapsed t outcome) : t.varCount = s.varCount :=
  congrArg Array.size h.values_eq

/-- For admitted assignments the pool says the same as what becomes of it. -/
theorem tells (h : Concludes s elapsed t outcome) (hs : s.WellFormed) (hm : s.matrices = [])
    {a : Var → Bool} (ha : s.Admits a) :
    Tells (∀ c ∈ s.pool, c.Holds a)
      ((∀ c ∈ t.pool, c.Holds a) ∧ ∀ m ∈ t.matrices, ∀ c ∈ m.rows, c.Holds a) outcome := by
  have sound := hs.sound_prepare
  cases h with
  | contradicted prepared =>
    rw [prepared] at sound
    exact sound a ha
  | skipped prepared skipCause =>
    rw [prepared] at sound
    rw [hm, sound.2 a ha]
    exact ⟨fun h => ⟨h, nofun⟩, And.left⟩
  | divided prepared skipCause components_eq assess_eq rulings_eq divides =>
    rw [prepared] at sound
    rw [sound.2 a ha]
    exact divides.forall_holds_iff (Solver.not_isAbsurd_of_prepare prepared) a

end Concludes

end Search

namespace Solver.WellFormed

variable {s : Solver}

/-- Preparing the pool of a well-formed solver does not fault. -/
theorem prepare_ne_fault (hs : s.WellFormed) (fault : Fault) :
    s.prepare ≠ .error (.fault fault) := by
  intro h
  have sound := hs.sound_prepare
  rwa [h] at sound

theorem concludes (hs : s.WellFormed) {elapsed : Duration} {t : Solver}
    {outcome : Except Failure Report} (h : Search.Ends s elapsed t outcome) :
    Search.Concludes s elapsed t outcome := by
  cases h with
  | @unprepared failure prepared =>
    cases failure with
    | contradiction c => exact .contradicted prepared
    | fault f => exact absurd prepared (hs.prepare_ne_fault f)
  | skipped prepared skipCause => exact .skipped prepared skipCause
  | faulted prepared skipCause faulty => exact (hs.not_faulty prepared faulty).elim
  | divided prepared skipCause components_eq assess_eq rulings_eq =>
    subst rulings_eq
    obtain ⟨rfl, hdiv⟩ := hs.divides prepared components_eq assess_eq
    exact .divided prepared skipCause components_eq assess_eq rfl hdiv

end Solver.WellFormed

/-- Every search of a well-formed solver that is consistent and has no matrices
ends so. -/
theorem Session.concludes_find {s : Session} (hs : s.solver.WellFormed)
    (hc : s.solver.consistent = true) (hm : s.solver.matrices = []) (elapsed : Duration) :
    Search.Concludes s.solver elapsed (s.find elapsed).1.solver (s.find elapsed).2 :=
  hs.concludes (ends_find hc hm elapsed)

end ParityBlocks
