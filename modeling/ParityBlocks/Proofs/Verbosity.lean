import Mathlib.Data.List.Forall2
import ParityBlocks.Proofs.Delivery
import ParityBlocks.Proofs.Diagnostics

/-!
# What verbosity adds to the log

A search sends one sequence of events to all outputs (`Session.outputs_find`), which for a
well-formed solver is its `Solver.transcript` at a verbosity (`Solver.said_search`).

A log `Event.Grows` into another if that one is the same with texts added, up to the time that
the searches took. Most texts are said from a fixed verbosity on, so they are only added at a
higher one (`Narration.grows_say`). The lines of rejected components share a limit, and from
verbosity 2 on small components use it up too. They take no line from others: components with
more rows come first, so once a component has no line at the lower verbosity, none after it has
one (`Narration.HasLine.of_le`). With this invariant `Narration.grows_narrate` goes through the
rulings by induction. So the log of a search grows with the verbosity
(`Session.find_log_grows`).
-/

namespace ParityBlocks

open Narration Search

namespace Event

def isText : Event → Bool
  | .text _ => true
  | .newline | .status _ | .matrix _ | .report _ => false

/-- The events are the same, but for the time that a search took. -/
inductive Alike : Event → Event → Prop
  | same (e : Event) : Alike e e
  | closing {r : Report} {elapsed : Duration} {e e' : Event} (h : closingText 1 r = [e])
      (h' : closingText 1 { r with elapsed := elapsed } = [e']) : Alike e e'
  | report (r : Report) (elapsed : Duration) :
    Alike (.report r) (.report { r with elapsed := elapsed })

/-- The second log is the first with texts added, but for times. -/
inductive Grows : List Event → List Event → Prop
  | nil : Grows [] []
  | cons {e e' : Event} {es es' : List Event} (h : e.Alike e') (hs : Grows es es') :
    Grows (e :: es) (e' :: es')
  | text (t : String) {es es' : List Event} (hs : Grows es es') : Grows es (.text t :: es')

theorem isText_of_closingText {r : Report} {e : Event} (h : closingText 1 r = [e]) :
    e.isText = true := by
  rw [closingText, say, if_pos (Nat.le_refl 1)] at h
  rw [← List.singleton_inj.mp h]
  rfl

theorem Alike.isText_eq {e e' : Event} (h : e.Alike e') : e.isText = e'.isText := by
  cases h with
  | same => rfl
  | closing h h' => rw [isText_of_closingText h, isText_of_closingText h']
  | report => rfl

namespace Grows

variable {es es' fs fs' : List Event}

theorem refl (es : List Event) : Grows es es := by
  induction es with
  | nil => exact .nil
  | cons e es ih => exact .cons (.same e) ih

theorem append (h : Grows es es') (hs : Grows fs fs') : Grows (es ++ fs) (es' ++ fs') := by
  induction h with
  | nil => exact hs
  | cons h _ ih => exact .cons h ih
  | text t _ ih => exact .text t ih

theorem concat_text (t : String) (h : Grows es es') : Grows es (es' ++ [.text t]) := by
  have added := h.append (.text t .nil)
  rwa [List.append_nil] at added

theorem texts (h : Grows es es') :
    List.SublistForall₂ Alike (es.filter isText) (es'.filter isText) := by
  induction h with
  | nil => exact .nil
  | @cons e e' es es' h hs ih =>
    cases ht : e.isText with
    | true =>
      rw [List.filter_cons_of_pos ht, List.filter_cons_of_pos (h.isText_eq ▸ ht)]
      exact .cons h ih
    | false =>
      rwa [List.filter_cons_of_neg (ne_true_of_eq_false ht),
        List.filter_cons_of_neg (ne_true_of_eq_false (h.isText_eq ▸ ht))]
  | text t hs ih =>
    rw [List.filter_cons_of_pos (by rfl)]
    exact .cons_right ih

theorem others (h : Grows es es') :
    List.Forall₂ Alike (es.filter fun e => !e.isText) (es'.filter fun e => !e.isText) := by
  induction h with
  | nil => exact .nil
  | @cons e e' es es' h hs ih =>
    rw [List.filter_cons, List.filter_cons, h.isText_eq]
    split
    · exact .cons h ih
    · exact ih
  | text t hs ih => rwa [List.filter_cons_of_neg Bool.false_ne_true]

end Grows

end Event

/-! ## Texts from a verbosity on -/

namespace Narration

open Event (Grows)

variable {v w : Nat} (h : v ≤ w)

/-- At the verbosity a rejected component has a line, if the limit is not used up. -/
def HasLine (verbosity minRows : Nat) (d : Decision) : Prop :=
  1 ≤ verbosity ∧ (minRows ≤ d.shape.rows ∨ 2 ≤ verbosity)

theorem showsUnused_iff {verbosity minRows shown : Nat} {d : Decision} :
    (1 ≤ verbosity ∧ showsUnused verbosity minRows shown d = true) ↔
      HasLine verbosity minRows d ∧ shown < maxUnusedLines := by
  simp only [showsUnused, HasLine, Bool.and_eq_true, Bool.or_eq_true, decide_eq_true_eq, and_assoc]

/-- A component with more rows has a line if one with fewer rows has. -/
theorem HasLine.of_le {minRows : Nat} {d d' : Decision} (hd : HasLine v minRows d)
    (hrows : d.shape.rows ≤ d'.shape.rows) : HasLine v minRows d' :=
  ⟨hd.1, hd.2.imp_left fun hmin => hmin.trans hrows⟩

include h

theorem HasLine.mono {minRows : Nat} {d : Decision} (hd : HasLine v minRows d) :
    HasLine w minRows d :=
  ⟨hd.1.trans h, hd.2.imp_right fun htwo => htwo.trans h⟩

theorem grows_say (level : Nat) (text : String) : Grows (say v level text) (say w level text) := by
  rw [say, say]
  by_cases hv : level ≤ v
  · rw [if_pos hv, if_pos (hv.trans h)]
    exact .refl _
  · rw [if_neg hv]
    split
    · exact .text text .nil
    · exact .nil

theorem grows_skipText (count : Nat) (cause : SkipCause) :
    Grows (skipText v count cause) (skipText w count cause) := by
  cases cause with
  | tooFewConstraints => exact grows_say h _ _
  | tooManyForSampling => exact grows_say h _ _
  | disabled => exact grows_say h _ _

theorem grows_explain (minRows : Nat) (d : Decision) :
    Grows (explain v minRows d) (explain w minRows d) := by
  rw [explain, explain]
  refine .append ?_ ?_
  · split
    · split
      · exact grows_say h _ _
      · exact .nil
    · exact .nil
  · split <;> first | exact grows_say h _ _ | exact .nil

theorem grows_unusedText (r : Report) : Grows (unusedText v r) (unusedText w r) := by
  rw [unusedText, unusedText]
  split
  · exact grows_say h _ _
  · exact .nil

theorem grows_closingText (r : Report) (elapsed : Duration) :
    Grows (closingText v r) (closingText w { r with elapsed := elapsed }) := by
  by_cases hv : 1 ≤ v
  · rw [closingText, closingText, say, say, if_pos hv, if_pos (hv.trans h)]
    exact .cons (.closing rfl rfl) .nil
  · rw [closingText, say, if_neg hv, closingText, say]
    split
    · exact .text _ .nil
    · exact .nil

/-- What is said about rulings grows with the verbosity, where as many lines were shown before,
or no more are to come at the lower one. -/
theorem grows_narrate (minRows : Nat) {rs : List Ruling}
    (ordered : rs.Pairwise fun r r' => r'.decision.shape.rows ≤ r.decision.shape.rows)
    {shown shown' : Nat}
    (hshown : shown' = shown ∨ ∀ r ∈ rs, ¬ HasLine v minRows r.decision) :
    Grows (narrate v minRows shown rs) (narrate w minRows shown' rs) := by
  induction rs generalizing shown shown' with
  | nil => exact .nil
  | cons r rs ih =>
    obtain ⟨hfirst, ordered⟩ := List.pairwise_cons.mp ordered
    have hrest : shown' = shown ∨ ∀ r ∈ rs, ¬ HasLine v minRows r.decision :=
      hshown.imp_right fun hall => (List.forall_mem_cons.mp hall).2
    have opening : Grows (explain v minRows r.decision ++ r.matrix?.toList.map Event.matrix)
        (explain w minRows r.decision ++ r.matrix?.toList.map Event.matrix) :=
      (grows_explain h minRows r.decision).append (.refl _)
    rw [narrate, narrate]
    split
    · exact (opening.append (grows_say h _ _)).append (ih ordered hrest)
    · by_cases hline : HasLine v minRows r.decision
      · obtain rfl : shown' = shown := hshown.resolve_right fun hall => hall r List.mem_cons_self hline
        by_cases hlimit : shown' < maxUnusedLines
        · rw [if_pos (showsUnused_iff.mpr ⟨hline, hlimit⟩),
            if_pos (showsUnused_iff.mpr ⟨hline.mono h, hlimit⟩)]
          exact (opening.append (.refl _)).append (ih ordered (.inl rfl))
        · rw [if_neg fun hshows => hlimit (showsUnused_iff.mp hshows).2,
            if_neg fun hshows => hlimit (showsUnused_iff.mp hshows).2]
          exact opening.append (ih ordered (.inl rfl))
      · -- From here on only the higher verbosity uses up the limit.
        have hnone : ∀ r' ∈ rs, ¬ HasLine v minRows r'.decision :=
          fun r' hr' hline' => hline (hline'.of_le (hfirst r' hr'))
        rw [if_neg fun hshows => hline (showsUnused_iff.mp hshows).1]
        split
        · exact (opening.concat_text _).append (ih ordered (.inr hnone))
        · exact opening.append (ih ordered (.inr hnone))

end Narration

/-! ## The log of a search -/

/-- All that is logged of a search. -/
def Findings.said (f : Findings) : List Event :=
  f.events ++ match f.outcome with
    | .ok report => [.report report]
    | .error (.contradiction c) => [.text s!"[matrix] {c.text}"]
    | .error (.fault _) => []

/-- All outputs get the same events of a search. -/
theorem Session.outputs_find (s : Session) (elapsed : Duration) :
    (s.find elapsed).1.outputs =
      s.outputs.map fun o => o.receiveAll (search .ordinary elapsed s.solver).said := by
  rw [find, adopt, Findings.said]
  cases (search .ordinary elapsed s.solver).outcome with
  | ok report =>
    dsimp only
    rw [← broadcastAll_eq]
    split <;> rfl
  | error failure =>
    cases failure with
    | contradiction c => exact broadcastAll_eq _ _
    | fault f =>
      rw [List.append_nil]
      exact broadcastAll_eq _ _

namespace Solver

/-- What a search says at a verbosity. -/
def transcript (s : Solver) (verbosity : Nat) (elapsed : Duration) : List Event :=
  match s.prepare with
  | .error (.contradiction c) => [.text s!"[matrix] {c.text}"]
  | .error (.fault _) => []
  | .ok cs =>
    match skipCause? s.settings cs with
    | some cause =>
      skipText verbosity (withVariables cs) cause ++
        [.report { constraintCount := cs.length, skipped := some cause, elapsed := elapsed }]
    | none =>
      let report := Ruling.report cs.length (s.rulings cs)
      let raised := if s.settings.thresholds.maxRows < s.policy.maxRows
        then raisedText verbosity s.policy.maxRows else []
      raised ++ narrate verbosity s.settings.thresholds.minRows 0 (s.rulings cs) ++
        unusedText verbosity report ++ closingText verbosity { report with elapsed := elapsed } ++
        [.report { report with elapsed := elapsed }]

variable {s : Solver}

theorem said_search (hs : s.WellFormed) (hc : s.consistent = true) (hm : s.matrices = [])
    (elapsed : Duration) :
    (search .ordinary elapsed s).said = s.transcript s.settings.verbosity elapsed := by
  rw [search, transcript]
  cases hp : s.prepare with
  | error failure =>
    rw [explore_of_prepare_eq_error hc hm hp]
    cases failure with
    | contradiction c => rfl
    | fault f => rfl
  | ok cs =>
    dsimp only
    cases hskip : skipCause? s.settings cs with
    | some cause =>
      rw [Session.explore_of_skipped hc hm hp hskip]
      exact congrArg (· ++ _) (List.append_nil _)
    | none =>
      rw [Session.explore_of_divided hc hm hp hs hskip]
      rfl

/-- The transcript grows with the verbosity. -/
theorem grows_transcript (hs : s.WellFormed) {v w : Nat} (h : v ≤ w) (elapsed elapsed' : Duration) :
    Event.Grows (s.transcript v elapsed) (s.transcript w elapsed') := by
  rw [transcript, transcript]
  cases hp : s.prepare with
  | error failure =>
    cases failure with
    | contradiction c => exact .refl _
    | fault f => exact .nil
  | ok cs =>
    dsimp only
    cases skipCause? s.settings cs with
    | some cause => exact (grows_skipText h _ cause).append (.cons (.report _ elapsed') .nil)
    | none =>
      have ordered : (s.rulings cs).Pairwise
          fun r r' => r'.decision.shape.rows ≤ r.decision.shape.rows :=
        (hs.divides_rulings hp).ordered.imp Shape.rows_le_of_priority
      refine .append (.append (.append (.append ?_ ?_) ?_) ?_) ?_
      · split
        · exact grows_say h _ _
        · exact .nil
      · exact grows_narrate h _ ordered (.inl rfl)
      · exact grows_unusedText h _
      · exact grows_closingText h _ elapsed'
      · exact .cons (.report _ elapsed') .nil

end Solver

namespace Session

/-- The session at a verbosity. -/
def atVerbosity (s : Session) (verbosity : Nat) : Session :=
  { s with solver := { s.solver with settings := { s.solver.settings with verbosity := verbosity } } }

variable {s : Session}

/-- The log of a search grows with the verbosity: up to times, outputs get the same matrices
and the same report, and all texts that they get at a lower verbosity in their order. -/
theorem find_log_grows (hr : s.solver.Reachable) (hc : s.solver.consistent = true)
    (hm : s.solver.matrices = []) {v w : Nat} (h : v ≤ w) (elapsed elapsed' : Duration) :
    ∃ events events', Event.Grows events events' ∧
      ((s.atVerbosity v).find elapsed).1.outputs = s.outputs.map (fun o => o.receiveAll events) ∧
      ((s.atVerbosity w).find elapsed').1.outputs = s.outputs.map (fun o => o.receiveAll events') ∧
      List.SublistForall₂ Event.Alike (events.filter Event.isText) (events'.filter Event.isText) ∧
      List.Forall₂ Event.Alike (events.filter fun e => !e.isText)
        (events'.filter fun e => !e.isText) := by
  have hs := hr.wellFormed
  have gets : ∀ v elapsed, ((s.atVerbosity v).find elapsed).1.outputs =
      s.outputs.map fun o => o.receiveAll (s.solver.transcript v elapsed) := by
    intro v elapsed
    have hv : (s.atVerbosity v).solver.WellFormed := hs.congr rfl hs.numbering rfl hs.pool
    have prepare_eq : (s.atVerbosity v).solver.prepare = s.solver.prepare :=
      Solver.prepare_congr rfl rfl rfl
    rw [outputs_find, Solver.said_search hv hc hm, Solver.transcript, prepare_eq]
    rfl
  have grows := s.solver.grows_transcript hs h elapsed elapsed'
  exact ⟨_, _, grows, gets v elapsed, gets w elapsed', grows.texts, grows.others⟩

/-- The sample with an output. -/
def heardSample : Session := { sample with outputs := [.quiet] }

theorem find_log_grows_sample :
    heardSample.solver.Reachable ∧ heardSample.solver.consistent = true ∧
      heardSample.solver.matrices = [] ∧
      (((heardSample.atVerbosity 1).find .zero).1.outputs.map fun o => o.received.size) = [7] ∧
      (((heardSample.atVerbosity 2).find ⟨7⟩).1.outputs.map fun o => o.received.size) = [9] ∧
      ∃ events events', Event.Grows events events' ∧
      ((heardSample.atVerbosity 1).find .zero).1.outputs =
        heardSample.outputs.map (fun o => o.receiveAll events) ∧
      ((heardSample.atVerbosity 2).find ⟨7⟩).1.outputs =
        heardSample.outputs.map (fun o => o.receiveAll events') ∧
      List.SublistForall₂ Event.Alike (events.filter Event.isText) (events'.filter Event.isText) ∧
      List.Forall₂ Event.Alike (events.filter fun e => !e.isText)
        (events'.filter fun e => !e.isText) :=
  ⟨reachable_sample, consistent_sample, matrices_sample, by decide +kernel, by decide +kernel,
    find_log_grows (s := heardSample) reachable_sample consistent_sample matrices_sample
      (by decide) .zero ⟨7⟩⟩

end Session

end ParityBlocks
