import ParityBlocks.Proofs.Checked
import ParityBlocks.Session

/-!
# What outputs get

Every output gets the same events, so what a log does to a list of outputs is told by the events
alone (`broadcastAll_eq`). Where the first refusal ends a sequence of events, all of them get what
comes before that refusal and the event that was refused (`broadcastWhileAccepted_spec`, by
induction on the events with the outputs as they are by then).

Statistics are printed in this way: an output that refuses a line of the table costs all others
the rest of it. So the others get their table exactly if no output refuses an event before the
last one, or there are no others (`Session.printTimings_complete_iff`).
-/

namespace ParityBlocks

namespace Output

/-- The output after events, refused or not. -/
def receiveAll (o : Output) (events : List Event) : Output :=
  { o with received := o.received ++ events.toArray }

/-- The output refuses none of the events that it gets one after another. -/
def Accepts : Output → List Event → Prop
  | _, [] => True
  | o, e :: es => o.answer e = none ∧ (o.receive e).Accepts es

variable {o : Output} {e : Event} {es es' : List Event}

theorem receiveAll_nil (o : Output) : o.receiveAll [] = o := by
  rw [receiveAll, Array.append_empty]

theorem receiveAll_cons (o : Output) (e : Event) (es : List Event) :
    o.receiveAll (e :: es) = (o.receive e).receiveAll es := by
  simp [receiveAll, receive]

theorem receiveAll_inj : o.receiveAll es = o.receiveAll es' ↔ es = es' := by
  rw [receiveAll, receiveAll, mk.injEq, Array.append_right_inj, Array.mk.injEq]
  exact and_iff_right rfl

theorem accepts_append : o.Accepts (es ++ es') ↔ o.Accepts es ∧ (o.receiveAll es).Accepts es' := by
  induction es generalizing o with
  | nil =>
    rw [receiveAll_nil]
    exact (and_iff_right trivial).symm
  | cons e es ih => rw [List.cons_append, Accepts, Accepts, ih, receiveAll_cons, and_assoc]

theorem Accepts.of_initial (h : o.Accepts es) (hp : es' <+: es) : o.Accepts es' := by
  obtain ⟨rest, rfl⟩ := hp
  exact (accepts_append.mp h).1

/-- An output that refuses nothing accepts all events. -/
theorem accepts_of_forall (h : ∀ history e, o.refusal history e = none) (es : List Event) :
    o.Accepts es := by
  induction es generalizing o with
  | nil => trivial
  | cons e es ih => exact ⟨h _ _, ih h⟩

end Output

/-! ## Sequences of events -/

section Broadcast

variable {outputs : List Output} {events : List Event}

theorem map_receive_receiveAll (outputs : List Output) (e : Event) (es : List Event) :
    (outputs.map fun o => o.receive e).map (fun o => o.receiveAll es) =
      outputs.map fun o => o.receiveAll (e :: es) := by
  rw [List.map_map]
  exact List.map_congr_left fun o _ => (o.receiveAll_cons e es).symm

theorem broadcastAll_eq (outputs : List Output) (events : List Event) :
    broadcastAll outputs events = outputs.map fun o => o.receiveAll events := by
  induction events generalizing outputs with
  | nil =>
    simp only [Output.receiveAll_nil, List.map_id']
    rfl
  | cons e es ih => rw [← map_receive_receiveAll, ← ih]; rfl

/-- All outputs get all events if none of them refuses any. Otherwise all of them get what comes
before the first event that one refuses, and that event. -/
theorem broadcastWhileAccepted_spec (outputs : List Output) (events : List Event) :
    ((∀ o ∈ outputs, o.Accepts events) ∧
      broadcastWhileAccepted outputs events = (outputs.map fun o => o.receiveAll events, none)) ∨
    ∃ before e after refusal, events = before ++ e :: after ∧ (∀ o ∈ outputs, o.Accepts before) ∧
      outputs.findSome? (fun o => (o.receiveAll before).answer e) = some refusal ∧
      broadcastWhileAccepted outputs events =
        (outputs.map fun o => o.receiveAll (before ++ [e]), some refusal) := by
  induction events generalizing outputs with
  | nil =>
    refine .inl ⟨fun _ _ => trivial, ?_⟩
    simp only [Output.receiveAll_nil, List.map_id']
    rfl
  | cons e es ih =>
    rw [broadcastWhileAccepted, broadcast]
    cases hanswer : outputs.findSome? fun o => o.answer e with
    | some refusal =>
      refine .inr ⟨[], e, es, refusal, rfl, fun _ _ => trivial, ?_, ?_⟩
      · simpa only [Output.receiveAll_nil] using hanswer
      · simp only [List.nil_append, Output.receiveAll_cons, Output.receiveAll_nil]
    | none =>
      have accepted : ∀ o ∈ outputs, o.answer e = none := List.findSome?_eq_none_iff.mp hanswer
      rcases ih (outputs.map fun o => o.receive e) with ⟨hall, hrun⟩ |
        ⟨before, e', after, refusal, rfl, hall, hrefused, hrun⟩
      · refine .inl ⟨fun o ho => ⟨accepted o ho, hall _ (List.mem_map_of_mem ho)⟩, ?_⟩
        simp only [hrun, map_receive_receiveAll]
      · refine .inr ⟨e :: before, e', after, refusal, rfl,
          fun o ho => ⟨accepted o ho, hall _ (List.mem_map_of_mem ho)⟩, ?_, ?_⟩
        · rw [List.findSome?_map] at hrefused
          simpa only [Function.comp_def, Output.receiveAll_cons] using hrefused
        · simp only [hrun, map_receive_receiveAll, List.cons_append]

theorem broadcastWhileAccepted_of_accepts (h : ∀ o ∈ outputs, o.Accepts events) :
    broadcastWhileAccepted outputs events = (outputs.map fun o => o.receiveAll events, none) := by
  rcases broadcastWhileAccepted_spec outputs events with ⟨-, hrun⟩ |
    ⟨before, e, after, refusal, rfl, -, hrefused, -⟩
  · exact hrun
  · obtain ⟨o, ho, hanswer⟩ := List.exists_of_findSome?_eq_some hrefused
    obtain ⟨-, haccepted, -⟩ := Output.accepts_append.mp (h o ho)
    rw [haccepted] at hanswer
    cases hanswer

/-- All outputs get the same events from the start on, and these are all events exactly if no
output refuses one before the last. -/
theorem exists_given (outputs : List Output) (events : List Event) :
    ∃ given, given <+: events ∧
      (broadcastWhileAccepted outputs events).1 = outputs.map (fun o => o.receiveAll given) ∧
      (given = events ↔ ∀ o ∈ outputs, o.Accepts events.dropLast) := by
  rcases broadcastWhileAccepted_spec outputs events with ⟨hall, hrun⟩ |
    ⟨before, e, after, refusal, rfl, hall, hrefused, hrun⟩
  · refine ⟨events, List.prefix_refl _, congrArg Prod.fst hrun, iff_of_true rfl fun o ho => ?_⟩
    exact (hall o ho).of_initial (List.dropLast_prefix events)
  · have split : before ++ e :: after = (before ++ [e]) ++ after := by
      rw [List.append_assoc, List.singleton_append]
    refine ⟨before ++ [e], ⟨after, split.symm⟩, congrArg Prod.fst hrun, ?_⟩
    rw [split]
    cases after with
    | nil =>
      rw [List.append_nil, List.dropLast_concat]
      exact iff_of_true rfl hall
    | cons next after =>
      refine iff_of_false (by simp) fun haccepts => ?_
      obtain ⟨o, ho, hanswer⟩ := List.exists_of_findSome?_eq_some hrefused
      have start : before ++ [e] <+: (before ++ [e] ++ next :: after).dropLast := by
        rw [List.dropLast_append_cons]
        exact List.prefix_append _ _
      obtain ⟨-, haccepted, -⟩ := Output.accepts_append.mp ((haccepts o ho).of_initial start)
      rw [haccepted] at hanswer
      cases hanswer

/-- Those who accept all events get all of them if all do get all of them, or if there are none. -/
theorem complete_iff {given : List Event} :
    (∀ (i : Nat) (o : Output), outputs[i]? = some o → o.Accepts events →
        (outputs.map fun o => o.receiveAll given)[i]? = some (o.receiveAll events)) ↔
      given = events ∨ ∀ o ∈ outputs, ¬ o.Accepts events := by
  constructor
  · intro h
    refine or_iff_not_imp_right.mpr fun hsome => ?_
    push Not at hsome
    obtain ⟨o, ho, haccepts⟩ := hsome
    obtain ⟨i, hi⟩ := List.getElem?_of_mem ho
    have hgot := h i o hi haccepts
    rw [List.getElem?_map, hi] at hgot
    exact Output.receiveAll_inj.mp (Option.some.inj hgot)
  · rintro (rfl | hnone) i o hi haccepts
    · rw [List.getElem?_map, hi]
      rfl
    · exact absurd haccepts (hnone o (List.mem_of_getElem? hi))

end Broadcast

/-! ## Statistics -/

/-- Where every total fits there is a table. -/
theorem Timings.exists_rows {t : Timings} (h : ∀ name ∈ t.names, ∃ total, t.total name = .ok total) :
    ∃ rows, t.rows = .ok rows := by
  have each : ∀ name ∈ t.names, ∃ row, (do
      return { name := name, count := t.count name, total := ← t.total name : TimingRow }) =
        Except.ok (ε := Fault) row := by
    intro name hname
    obtain ⟨total, htotal⟩ := h name hname
    exact ⟨_, Checked.bind_eq_ok.mpr ⟨total, htotal, rfl⟩⟩
  obtain ⟨rows, hrows⟩ := Checked.exists_forall₂ each
  exact ⟨_, Checked.bind_eq_ok.mpr ⟨rows, Checked.mapM_eq_ok.mpr hrows, rfl⟩⟩

namespace Session

variable {s : Session} {t : Timings}

/-- The outputs get as much of the table as they get of a sequence that ends with a refusal. -/
theorem outputs_printTimings (ht : s.timings = some t) {rows : List TimingRow}
    (hrows : t.rows = .ok rows) :
    s.printTimings.1.outputs =
      (broadcastWhileAccepted s.outputs (Timings.tableEvents rows)).1 := by
  rw [printTimings, ht]
  simp only [hrows]
  obtain ⟨outputs, refusal⟩ := broadcastWhileAccepted s.outputs (Timings.tableEvents rows)
  cases refusal <;> rfl

theorem printTimings_of_accepts (ht : s.timings = some t) {rows : List TimingRow}
    (hrows : t.rows = .ok rows) (h : ∀ o ∈ s.outputs, o.Accepts (Timings.tableEvents rows)) :
    s.printTimings =
      ({ s with outputs := s.outputs.map fun o => o.receiveAll (Timings.tableEvents rows) },
        .ok ()) := by
  rw [printTimings, ht]
  simp only [hrows, broadcastWhileAccepted_of_accepts h]

/-- If the totals fit, an output alone gets the whole table unless it refuses a part of it. Of
several outputs all get the same part, from the start. Those that refuse nothing get all of it
exactly if no output refuses an event before the last one, or there are no such outputs. -/
theorem printTimings_complete_iff (ht : s.timings = some t)
    (htotals : ∀ name ∈ t.names, ∃ total, t.total name = .ok total) :
    ∃ rows, t.rows = .ok rows ∧
      let events := Timings.tableEvents rows
      (∀ o : Output, o.Accepts events →
        { s with outputs := [o] }.printTimings.1.outputs = [o.receiveAll events]) ∧
      (∃ given, given <+: events ∧
        s.printTimings.1.outputs = s.outputs.map fun o => o.receiveAll given) ∧
      ((∀ (i : Nat) (o : Output), s.outputs[i]? = some o → o.Accepts events →
          s.printTimings.1.outputs[i]? = some (o.receiveAll events)) ↔
        (∀ o ∈ s.outputs, o.Accepts events.dropLast) ∨ ∀ o ∈ s.outputs, ¬ o.Accepts events) := by
  obtain ⟨rows, hrows⟩ := Timings.exists_rows htotals
  refine ⟨rows, hrows, ?_⟩
  intro events
  obtain ⟨given, hgiven, hrun, hall⟩ := exists_given s.outputs events
  have outputs_eq : s.printTimings.1.outputs = s.outputs.map fun o => o.receiveAll given :=
    (outputs_printTimings ht hrows).trans hrun
  refine ⟨fun o haccepts => ?_, ⟨given, hgiven, outputs_eq⟩, ?_⟩
  · rw [outputs_printTimings (s := { s with outputs := [o] }) ht hrows]
    obtain ⟨given, -, hrun, hall⟩ := exists_given [o] events
    have whole : given = events := hall.mpr fun o' ho' => by
      rw [List.mem_singleton.mp ho']
      exact haccepts.of_initial (List.dropLast_prefix events)
    rw [hrun, whole]
    rfl
  · rw [outputs_eq, complete_iff, hall]

/-- Two steps, one of them timed twice. -/
def twoSteps : Timings := { samples := [("load", ⟨2⟩), ("search", ⟨3⟩), ("load", ⟨5⟩)] }

/-- Three outputs, the second of which refuses the last line of the head only. -/
def interrupted : Session where
  solver := .new 0 {}
  timings := some twoSteps
  outputs := [.quiet, { refusal := fun history _ => if history.size = 3 then some "full" else none },
    .quiet]

/-- Four of the seven events reach the outputs. -/
theorem printTimings_complete_iff_sample :
    interrupted.timings = some twoSteps ∧
      (∀ name ∈ twoSteps.names, ∃ total, twoSteps.total name = .ok total) ∧
      (interrupted.printTimings.1.outputs.map fun o => o.received.size) = [4, 4, 4] ∧
      ∃ rows, twoSteps.rows = .ok rows ∧ (Timings.tableEvents rows).length = 7 ∧
      let events := Timings.tableEvents rows
      (∀ o : Output, o.Accepts events →
        { interrupted with outputs := [o] }.printTimings.1.outputs = [o.receiveAll events]) ∧
      (∃ given, given <+: events ∧ interrupted.printTimings.1.outputs =
        interrupted.outputs.map fun o => o.receiveAll given) ∧
      ((∀ (i : Nat) (o : Output), interrupted.outputs[i]? = some o → o.Accepts events →
          interrupted.printTimings.1.outputs[i]? = some (o.receiveAll events)) ↔
        (∀ o ∈ interrupted.outputs, o.Accepts events.dropLast) ∨
          ∀ o ∈ interrupted.outputs, ¬ o.Accepts events) := by
  have names : twoSteps.names = ["load", "search"] := by decide +kernel
  have totals : ∀ name ∈ twoSteps.names, ∃ total, twoSteps.total name = .ok total := by
    rw [names]
    simp only [List.forall_mem_cons, List.not_mem_nil, false_implies, implies_true, and_true]
    exact ⟨⟨⟨7⟩, by decide +kernel⟩, ⟨⟨3⟩, by decide +kernel⟩⟩
  obtain ⟨rows, hrows, complete⟩ := printTimings_complete_iff (s := interrupted) rfl totals
  have two : twoSteps.rows = .ok [⟨"load", 2, ⟨7⟩⟩, ⟨"search", 1, ⟨3⟩⟩] := by decide +kernel
  obtain rfl := Except.ok.inj (two.symm.trans hrows)
  exact ⟨rfl, totals, by decide +kernel, _, two, rfl, complete⟩

/-- An output that refuses everything leaves the title of the table to one that refuses nothing. -/
theorem printTimings_silences_output :
    let broken : Output := { refusal := fun _ _ => some "broken" }
    let alone : Session := { solver := .new 1 {}, timings := some {}, outputs := [.quiet] }
    (∀ events, Output.quiet.Accepts events) ∧
      (alone.printTimings.1.outputs.map Output.received) = [(Timings.tableEvents []).toArray] ∧
      ({ alone with outputs := [broken, .quiet] }.printTimings.1.outputs.map Output.received) =
        [#[.text "#### Timing statistics"], #[.text "#### Timing statistics"]] := by
  exact ⟨Output.accepts_of_forall fun _ _ => rfl, by decide +kernel, by decide +kernel⟩

end Session

end ParityBlocks
