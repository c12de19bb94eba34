import ParityBlocks.Proofs.Account
import ParityBlocks.Proofs.Stages

/-!
# Searches and what they say

`Session.find` ends a search first and then logs what there is to say about it.
`Session.findAloud` is the search that says everything at its moment: what the verbosity lets
pass is logged between the changes to the solver, down to the rule that decides about a
component, the matrix before it is kept and the line about the component
(`Progress.step`). For a reachable solver both are the same (`Session.findAloud_eq`).

What is logged, to which outputs and from which verbosity on, makes no difference to a
step (`Progress.map_silent_step`), hence to a run through all components
(`Progress.map_silent_run`), hence to a search (`Session.map_silent_findAloud`). So two
searches whose solvers differ in their verbosity only end alike
(`Session.find_of_silent_eq`).
-/

namespace ParityBlocks

open Narration

/-! ## The log of a search -/

/-- The log of a search. -/
structure Talk where
  outputs : List Output
  /-- How many lines of rejected components were logged. -/
  shown : Nat

namespace Talk

/-- Logs events, whatever is refused. -/
def log (t : Talk) (events : List Event) : Talk :=
  { t with outputs := broadcastAll t.outputs events }

/-- Logs the line of a component, if it is shown. -/
def showLine (verbosity minRows : Nat) (t : Talk) (d : Decision) : Talk :=
  match d.matrixNumber with
  | some number =>
    let fate := s!"Good   matrix {padLeft 2 (toString number)}"
    t.log (say verbosity 1 (componentLine fate d))
  | none =>
    if 1 ≤ verbosity ∧ showsUnused verbosity minRows t.shown d then
      { t.log [.text (componentLine "UNused matrix   " d)] with shown := t.shown + 1 }
    else t

theorem log_log (t : Talk) (es es' : List Event) : (t.log es).log es' = t.log (es ++ es') := by
  rw [log, log, log, broadcastAll, broadcastAll, broadcastAll, List.foldl_append]

/-- What is said about a component before its line. -/
def opening (verbosity minRows : Nat) (r : Ruling) : List Event :=
  explain verbosity minRows r.decision ++ r.matrix?.toList.map Event.matrix

theorem opening_of_rejected {verbosity minRows : Nat} {r : Ruling}
    (h : r.decision.matrixNumber = none) :
    opening verbosity minRows r = explain verbosity minRows r.decision := by
  rw [opening, Ruling.matrix?, h]
  exact List.append_nil _

/-- The words about a component and its line come before what there is to say about the
others. -/
theorem broadcastAll_showLine (verbosity minRows : Nat) (t : Talk) (r : Ruling)
    (rest : List Ruling) :
    let after := (t.log (opening verbosity minRows r)).showLine verbosity minRows r.decision
    broadcastAll after.outputs (narrate verbosity minRows after.shown rest) =
      broadcastAll t.outputs (narrate verbosity minRows t.shown (r :: rest)) := by
  simp only [narrate, showLine]
  cases hn : r.decision.matrixNumber with
  | some number => simp only [log, opening, broadcastAll, List.foldl_append]
  | none =>
    have shown : (t.log (opening verbosity minRows r)).shown = t.shown := rfl
    rw [shown]
    by_cases hs : 1 ≤ verbosity ∧ showsUnused verbosity minRows t.shown r.decision = true
    · simp only [if_pos hs, log, opening, broadcastAll, List.foldl_append]
    · simp only [if_neg hs, log, opening, broadcastAll, List.foldl_append]

end Talk

/-! ## Component by component -/

/-- Where a search is between two components, the rulings up to there, and its log. -/
structure Progress where
  stage : Stage
  rulings : List Ruling
  talk : Talk

namespace Progress

/-- A session before the first component. -/
def start (s : Session) : Progress := ⟨.start s.solver, [], s.outputs, 0⟩

/-- Decides about one component, says so and does what follows from it. -/
def decideOn (verbosity minRows : Nat) (policy : Policy) (ratio : Option Binary64) (p : Progress)
    (c : Component) : Except Breach Progress :=
  let verdict := policy.decide ⟨c.shape, ratio, p.stage.accepted⟩
  if verdict = .rejected .noRows then .ok p
  else if verdict.isAccepted then
    let r : Ruling := ⟨⟨c.shape, ratio, verdict, some p.stage.accepted⟩, c.rows⟩
    let talk := p.talk.log (explain verbosity minRows r.decision)
    let talk := talk.log [.matrix (.ofRows p.stage.accepted c.rows)]
    (p.stage.accept c.rows).map fun stage =>
      ⟨stage, p.rulings ++ [r], talk.showLine verbosity minRows r.decision⟩
  else
    let r : Ruling := ⟨⟨c.shape, ratio, verdict, none⟩, c.rows⟩
    let talk := p.talk.log (explain verbosity minRows r.decision)
    .ok ⟨p.stage.reject c.rows, p.rulings ++ [r], talk.showLine verbosity minRows r.decision⟩

/-- Lends the flags to a component and decides about it. -/
def step (verbosity minRows : Nat) (policy : Policy) (sampling : Option SamplingSet)
    (p : Progress) (c : Component) : Except Breach Progress := do
  let (ratio, flags) ← Stage.lend sampling c.members p.stage.flags
  decideOn verbosity minRows policy ratio { p with stage := { p.stage with flags := flags } } c

/-- Decides about components in order. -/
def run (verbosity minRows : Nat) (policy : Policy) (sampling : Option SamplingSet)
    (p : Progress) (components : List Component) : Except Breach Progress :=
  components.foldlM (step verbosity minRows policy sampling) p

/-! ### What is said makes no difference -/

/-- The progress without its log. -/
def silent (p : Progress) : Progress := { p with talk := ⟨[], 0⟩ }

section Silent

variable (verbosity minRows : Nat) (policy : Policy) (sampling : Option SamplingSet)

theorem map_silent_decideOn (ratio : Option Binary64) (p : Progress) (c : Component) :
    (p.decideOn verbosity minRows policy ratio c).map silent =
      (p.silent.decideOn 0 minRows policy ratio c).map silent := by
  rw [decideOn, decideOn, silent]
  dsimp only
  split
  · rfl
  · split
    · cases p.stage.accept c.rows with
      | error breach => rfl
      | ok stage => rfl
    · rfl

/-- What is said makes no difference to a step. -/
theorem map_silent_step (p : Progress) (c : Component) :
    (p.step verbosity minRows policy sampling c).map silent =
      (p.silent.step 0 minRows policy sampling c).map silent := by
  have flags : p.silent.stage.flags = p.stage.flags := rfl
  rw [step, step, flags]
  cases Stage.lend sampling c.members p.stage.flags with
  | error breach => rfl
  | ok lent =>
    exact map_silent_decideOn verbosity minRows policy lent.1
      { p with stage := { p.stage with flags := lent.2 } } c

/-- What is said makes no difference to a run through all components. -/
theorem map_silent_run (p : Progress) (components : List Component) :
    (p.run verbosity minRows policy sampling components).map silent =
      (p.silent.run 0 minRows policy sampling components).map silent := by
  induction components generalizing p verbosity with
  | nil => rfl
  | cons c components ih =>
    have first := map_silent_step verbosity minRows policy sampling p c
    rw [run, run, List.foldlM_cons, List.foldlM_cons]
    obtain ⟨breach, hp, hq⟩ | ⟨p', q, hp, hq, same⟩ := Checked.map_eq_map first
    · rw [hp, hq]
      rfl
    · have rest := ih verbosity p'
      rw [same, ← ih 0 q] at rest
      rw [hp, hq]
      exact rest

end Silent

/-! ### What is said -/

/-- The second progress is the first after the rulings: they have been kept, what they make
of the stage is done, and what there is to say about them was said. -/
structure Follows (verbosity minRows : Nat) (p : Progress) (rulings : List Ruling)
    (p' : Progress) : Prop where
  stage : p.stage.Follows rulings p'.stage
  rulings_eq : p'.rulings = p.rulings ++ rulings
  outputs_eq : p'.talk.outputs =
    broadcastAll p.talk.outputs (narrate verbosity minRows p.talk.shown rulings)

variable {verbosity minRows : Nat} {p p' : Progress} {rulings : List Ruling}

theorem Follows.nil (p : Progress) : Follows verbosity minRows p [] p :=
  ⟨.nil p.stage, (List.append_nil _).symm, rfl⟩

/-- A ruling that makes `stage` of the stage comes first. -/
theorem Follows.cons {r : Ruling} {stage : Stage}
    (first : stage.Follows rulings p'.stage → p.stage.Follows (r :: rulings) p'.stage)
    (h : Follows verbosity minRows ⟨stage, p.rulings ++ [r],
      (p.talk.log (Talk.opening verbosity minRows r)).showLine verbosity minRows r.decision⟩
      rulings p') :
    Follows verbosity minRows p (r :: rulings) p' where
  stage := first h.stage
  rulings_eq := by rw [h.rulings_eq, List.append_assoc, List.singleton_append]
  outputs_eq := by rw [h.outputs_eq, Talk.broadcastAll_showLine]

/-- From a sound stage no check stops the components, and what they leave follows from the
rulings on them. -/
theorem exists_run (verbosity minRows : Nat) (policy : Policy) {size : Nat}
    {sampling : Option SamplingSet} {components : List Component} {assessed : List Assessed}
    (hv : ∀ c ∈ components, ∀ v ∈ c.members, v < size)
    (hp : p.stage.Sound size)
    (h : assess sampling components p.stage.flags = (.ok assessed, p.stage.flags)) :
    ∃ p', p.run verbosity minRows policy sampling components = .ok p' ∧
      Follows verbosity minRows p (Ruling.ofAssessed policy p.stage.accepted assessed) p' := by
  induction components generalizing p assessed with
  | nil =>
    cases h
    exact ⟨p, rfl, .nil p⟩
  | cons c components ih =>
    obtain ⟨hc, hv⟩ := List.forall_mem_cons.mp hv
    rw [hp.flags_eq] at h
    obtain ⟨ratio, rest, hlend, hrest, rfl⟩ := Stage.exists_lend hc h
    rw [← hp.flags_eq] at hlend hrest
    have step_eq : p.step verbosity minRows policy sampling c =
        p.decideOn verbosity minRows policy ratio c := by
      rw [step, hlend]
      rfl
    rw [run, List.foldlM_cons, step_eq, decideOn]
    simp only [Ruling.ofAssessed]
    split
    · exact ih hv hp hrest
    · split
      · rw [hp.accept_eq_ok, Talk.log_log]
        obtain ⟨p', hrun, hfollows⟩ :=
          ih (p := ⟨p.stage.keep c.rows, _, _⟩) hv (hp.keep c.rows) hrest
        exact ⟨p', hrun, .cons (.keep hp rfl) hfollows⟩
      · obtain ⟨p', hrun, hfollows⟩ :=
          ih (p := ⟨p.stage.reject c.rows, _, _⟩) hv (hp.reject c.rows) hrest
        refine ⟨p', hrun, .cons (.reject rfl) ?_⟩
        rwa [Talk.opening_of_rejected rfl]

end Progress

/-! ## The whole search -/

/-- The report without the time. -/
def Report.untimed (r : Report) : Report := { r with elapsed := .zero }

/-- The solver with nothing to say. -/
def Solver.silent (s : Solver) : Solver :=
  { s with settings := { s.settings with verbosity := 0 } }

namespace Session

open Search

/-- Ends a search with a contradiction. -/
def contradict (s : Session) (c : Contradiction) : Session × Except Failure Report :=
  ({ s with solver := { s.solver with consistent := false } }.logAll
    [.text s!"[matrix] {c.text}"], .error (.contradiction c))

/-- Ends a search with a report. -/
def conclude (s : Session) (report : Report) : Session × Except Failure Report :=
  (s.logAll [.report report], .ok report)

/-- Gives constraints back to the pool and goes on, if the solver is consistent then. -/
def restore (s : Session) (cs : List Constraint)
    (next : Session → Session × Except Failure Report) : Session × Except Failure Report :=
  match s.solver.attach cs with
  | (solver, false) => { s with solver := solver }.contradict .inconsistentPool
  | (solver, true) => next { s with solver := solver }

/-- Ends a search in which blocks are not looked for. -/
def skipAloud (s : Session) (elapsed : Duration) (cs : List Constraint) (cause : SkipCause) :
    Session × Except Failure Report :=
  let s := s.logAll (skipText s.solver.settings.verbosity (withVariables cs) cause)
  { s with solver := { s.solver with queue := [] } }.restore cs fun s =>
    s.conclude { constraintCount := cs.length, skipped := some cause, elapsed := elapsed }

/-- Ends a search that has come through all components. -/
def closeAloud (s : Session) (elapsed : Duration) (constraintCount : Nat) (p : Progress) :
    Session × Except Failure Report :=
  let verbosity := s.solver.settings.verbosity
  let report := { Ruling.report constraintCount p.rulings with elapsed := elapsed }
  let solver := { s.solver with
    flags := p.stage.flags
    matrices := p.stage.matrices
    queue := resizeQueue p.stage.matrices.length p.stage.queue }
  { s with solver := solver, outputs := p.talk.outputs }.restore p.stage.returned fun s =>
    let s := s.logAll (unusedText verbosity report)
    let s := s.logAll (closingText verbosity report)
    (s.recordTime searchName elapsed).conclude report

/-- Says that the limit for rows is raised, if it is. -/
def announceLimit (s : Session) : Session :=
  let maxRows := s.solver.settings.thresholds.maxRows
  let limit := rowLimit maxRows s.solver.samplingSet
  if maxRows < limit then s.logAll (raisedText s.solver.settings.verbosity limit) else s

/-- Looks for blocks among constraints. -/
def divideAloud (s : Session) (elapsed : Duration) (cs : List Constraint) :
    Except Breach (Session × Except Failure Report) :=
  let settings := s.solver.settings
  match s.solver.components cs with
  | .error fault => .error (.fault fault)
  | .ok components =>
    ((Progress.start s.announceLimit).run settings.verbosity settings.thresholds.minRows
      s.solver.policy s.solver.samplingSet components).map
        (s.announceLimit.closeAloud elapsed cs.length)

/-- The session without its pool, after it has noted what cancelled in `cs`. -/
def taken (s : Session) (cs : List Constraint) : Session :=
  { s with solver := { s.solver with
    pool := []
    cancelled := Ascending.ofList (cs.flatMap Constraint.cancelled) } }

/-- The search that logs everything at its moment. -/
def findAloud (s : Session) (elapsed : Duration) :
    Except Breach (Session × Except Failure Report) :=
  match precondition .ordinary s.solver with
  | .error fault => .error (.fault fault)
  | .ok () =>
    match s.solver.prepare with
    | .error (.fault fault) => .error (.fault fault)
    | .error (.contradiction c) =>
      .ok ({ s with solver := { s.solver with pool := [] } }.contradict c)
    | .ok cs =>
      match skipCause? s.solver.settings cs with
      | some cause => .ok ((s.taken cs).skipAloud elapsed cs cause)
      | none => (s.taken cs).divideAloud elapsed cs

theorem announceLimit_eq (s : Session) : s.announceLimit =
    s.logAll (if s.solver.settings.thresholds.maxRows < s.solver.policy.maxRows
      then raisedText s.solver.settings.verbosity s.solver.policy.maxRows else []) := by
  rw [announceLimit, apply_ite s.logAll]
  rfl

/-! ### What is said makes no difference -/

/-- What is left of a search if it had nothing to say and took no time. -/
def essence (r : Session × Except Failure Report) : Solver × Except Failure Report :=
  (r.1.solver.silent, r.2.map Report.untimed)

section Silent

variable {s t : Session} (h : s.solver.silent = t.solver.silent)
include h

theorem essence_contradict (c : Contradiction) :
    essence (s.contradict c) = essence (t.contradict c) := by
  have solver : { s.solver.silent with consistent := false } =
      { t.solver.silent with consistent := false } := by rw [h]
  exact Prod.ext solver rfl

theorem essence_conclude {report report' : Report} (hr : report.untimed = report'.untimed) :
    essence (s.conclude report) = essence (t.conclude report') :=
  Prod.ext h (congrArg Except.ok hr)

theorem essence_restore (cs : List Constraint)
    {next next' : Session → Session × Except Failure Report}
    (hn : ∀ {s t : Session}, s.solver.silent = t.solver.silent →
      essence (next s) = essence (next' t)) :
    essence (s.restore cs next) = essence (t.restore cs next') := by
  have attached : ∀ u : Solver, u.silent.attach cs = ((u.attach cs).1.silent, (u.attach cs).2) :=
    fun _ => rfl
  have same := congrArg (fun u : Solver => u.attach cs) h
  rw [attached, attached, Prod.mk.injEq] at same
  rw [restore, restore]
  generalize s.solver.attach cs = x at same
  generalize t.solver.attach cs = y at same
  obtain ⟨solver, consistent⟩ := x
  obtain ⟨solver', consistent'⟩ := y
  obtain ⟨hsolver, rfl⟩ := same
  cases consistent with
  | false =>
    exact essence_contradict (s := { s with solver := solver }) (t := { t with solver := solver' })
      hsolver _
  | true => exact hn hsolver

theorem essence_skipAloud (elapsed elapsed' : Duration) (cs : List Constraint)
    (cause : SkipCause) :
    essence (s.skipAloud elapsed cs cause) = essence (t.skipAloud elapsed' cs cause) := by
  have cleared : { s.solver with queue := [] }.silent = { t.solver with queue := [] }.silent :=
    congrArg (fun u : Solver => { u with queue := [] }) h
  exact essence_restore cleared cs fun h => essence_conclude h rfl

theorem essence_closeAloud (elapsed elapsed' : Duration) (count : Nat) {p q : Progress}
    (hp : p.silent = q.silent) :
    essence (s.closeAloud elapsed count p) = essence (t.closeAloud elapsed' count q) := by
  obtain ⟨stage, rulings, talk⟩ := p
  obtain ⟨stage', rulings', talk'⟩ := q
  obtain ⟨rfl, rfl, -⟩ := Progress.mk.inj hp
  have left := congrArg (fun u : Solver => { u with
    flags := stage.flags
    matrices := stage.matrices
    queue := resizeQueue stage.matrices.length stage.queue }) h
  exact essence_restore left stage.returned fun h => essence_conclude h rfl

theorem silent_start : (Progress.start s).silent = (Progress.start t).silent := by
  have stage : Stage.start s.solver = Stage.start t.solver := (congrArg Stage.start h :)
  rw [Progress.silent, Progress.start, stage]
  rfl

theorem map_essence_divideAloud (elapsed elapsed' : Duration) (cs : List Constraint) :
    (s.divideAloud elapsed cs).map essence = (t.divideAloud elapsed' cs).map essence := by
  have components : s.solver.components cs = t.solver.components cs :=
    (congrArg (fun u : Solver => u.components cs) h :)
  have policy : s.solver.policy = t.solver.policy := (congrArg Solver.policy h :)
  have sampling : s.solver.samplingSet = t.solver.samplingSet :=
    (congrArg Solver.samplingSet h :)
  have thresholds : s.solver.settings.thresholds = t.solver.settings.thresholds :=
    (congrArg (fun u : Solver => u.settings.thresholds) h :)
  have limits : s.announceLimit.solver.silent = t.announceLimit.solver.silent := by
    rw [announceLimit_eq, announceLimit_eq]
    exact h
  have start := silent_start limits
  rw [divideAloud, divideAloud, components, policy, sampling, thresholds]
  cases t.solver.components cs with
  | error fault => rfl
  | ok components =>
    dsimp only
    have runs := Progress.map_silent_run s.solver.settings.verbosity
      t.solver.settings.thresholds.minRows t.solver.policy t.solver.samplingSet
      (.start s.announceLimit) components
    rw [start, ← Progress.map_silent_run t.solver.settings.verbosity] at runs
    obtain ⟨breach, hp, hq⟩ | ⟨p, q, hp, hq, same⟩ := Checked.map_eq_map runs
    · simp only [hp, hq, Except.map]
    · have closed := essence_closeAloud limits elapsed elapsed' cs.length same
      simp only [hp, hq, Except.map, closed]

/-- What is said makes no difference to a search. -/
theorem map_essence_findAloud (elapsed elapsed' : Duration) :
    (s.findAloud elapsed).map essence = (t.findAloud elapsed').map essence := by
  have precondition_eq : precondition .ordinary s.solver = precondition .ordinary t.solver :=
    (congrArg (precondition .ordinary) h :)
  have prepare_eq : s.solver.prepare = t.solver.prepare :=
    Solver.prepare_congr (congrArg Solver.values h :) (congrArg Solver.numbering h :)
      (congrArg Solver.pool h :)
  have cause_eq : ∀ cs, skipCause? s.solver.settings cs = skipCause? t.solver.settings cs :=
    fun cs => (congrArg (fun u : Solver => skipCause? u.settings cs) h :)
  have detached := congrArg (fun u : Solver => { u with pool := [] }) h
  have taken : ∀ cs, (s.taken cs).solver.silent = (t.taken cs).solver.silent :=
    fun cs => congrArg (fun u : Solver => { u with
      pool := []
      cancelled := Ascending.ofList (cs.flatMap Constraint.cancelled) }) h
  rw [findAloud, findAloud, precondition_eq, prepare_eq]
  cases precondition .ordinary t.solver with
  | error fault => rfl
  | ok _ =>
    cases t.solver.prepare with
    | error failure =>
      cases failure with
      | fault f => rfl
      | contradiction c => exact congrArg Except.ok (essence_contradict detached c)
    | ok cs =>
      dsimp only
      rw [cause_eq]
      cases skipCause? t.solver.settings cs with
      | some cause =>
        exact congrArg Except.ok (essence_skipAloud (taken cs) elapsed elapsed' cs cause)
      | none => exact map_essence_divideAloud (taken cs) elapsed elapsed' cs

end Silent

/-! ### Saying it at once -/

variable {s t : Session}

theorem logAll_append (s : Session) (es es' : List Event) :
    s.logAll (es ++ es') = (s.logAll es).logAll es' := by
  simp only [logAll, broadcastAll, List.foldl_append]

/-- Constraints without `0 = 1` go back to the pool of a consistent solver. -/
theorem restore_eq (hc : s.solver.consistent = true) {cs : List Constraint}
    (hcs : ∀ c ∈ cs, c.isAbsurd = false) (next : Session → Session × Except Failure Report) :
    s.restore cs next =
      next { s with solver := { s.solver with pool := s.solver.pool ++ cs } } := by
  have absurd : cs.any Constraint.isAbsurd = false :=
    List.any_eq_false.mpr fun c h => by simp [hcs c h]
  simp only [restore, Solver.attach, hc, absurd, Bool.not_false, Bool.and_true]

/-- A search that looked for blocks logs the counts and the time before the report. -/
theorem find_of_explore {solver : Solver} {events : List Event} {report : Report}
    (h : explore .ordinary s.solver = ⟨solver, events, .ok report⟩) (elapsed : Duration) :
    s.find elapsed =
      let report := { report with elapsed := elapsed }
      let s := { s with solver := solver }.logAll events
      if report.skipped.isNone then
        ((s.logAll (closingText solver.settings.verbosity report)).recordTime searchName
          elapsed).conclude report
      else s.conclude report := by
  rw [find, search, h]
  simp only [Findings.finish, adopt]
  cases report.skipped.isNone with
  | true =>
    simp only [if_true, logAll_append]
    rfl
  | false =>
    simp only [Bool.false_eq_true, if_false, logAll_append]
    rfl

/-- The solver after rulings were carried out. -/
def carried (u : Solver) (rulings : List Ruling) : Solver :=
  { u with
    pool := u.pool ++ rulings.flatMap Ruling.returned
    matrices := u.matrices ++ rulings.filterMap Ruling.matrix?
    queue := queueAfter u.queue (rulings.filterMap Ruling.matrix?).length }

theorem carryOut_ordinary {u : Solver} {rulings : List Ruling} (hc : u.consistent = true)
    (hr : ∀ c ∈ rulings.flatMap Ruling.returned, c.isAbsurd = false) (count : Nat)
    (events : List Event) :
    carryOut .ordinary u count rulings events =
      ⟨carried u rulings, events ++ narrate u.settings.verbosity u.settings.thresholds.minRows 0
        rulings ++ unusedText u.settings.verbosity (Ruling.report count rulings),
        .ok (Ruling.report count rulings)⟩ := by
  rw [carryOut, giveBack_ordinary (by exact hc) hr]
  rfl

section Explored

variable {u : Solver} (hc : u.consistent = true) (hm : u.matrices = []) {cs : List Constraint}
  (hp : u.prepare = .ok cs)
include hc hm hp

theorem explore_of_skipped {cause : SkipCause} (hskip : skipCause? u.settings cs = some cause) :
    explore .ordinary u =
      ⟨{ u with
          pool := cs
          queue := []
          cancelled := Ascending.ofList (cs.flatMap Constraint.cancelled) },
        skipText u.settings.verbosity (withVariables cs) cause,
        .ok { constraintCount := cs.length, skipped := some cause }⟩ := by
  rw [explore_of_prepare_eq_ok hc hm hp]
  simp only [searchPrepared, hskip, skip]
  rw [giveBack_ordinary (by exact hc) (Solver.not_isAbsurd_of_prepare hp), List.append_nil,
    List.nil_append]

theorem explore_of_divided (hs : u.WellFormed) (hskip : skipCause? u.settings cs = none) :
    let taken : Solver := { u with
      pool := []
      cancelled := Ascending.ofList (cs.flatMap Constraint.cancelled) }
    let report := Ruling.report cs.length (u.rulings cs)
    explore .ordinary u =
      ⟨carried taken (u.rulings cs),
        (if u.settings.thresholds.maxRows < u.policy.maxRows
          then raisedText u.settings.verbosity u.policy.maxRows else []) ++
          narrate u.settings.verbosity u.settings.thresholds.minRows 0 (u.rulings cs) ++
          unusedText u.settings.verbosity report,
        .ok report⟩ := by
  intro taken report
  have hcomp : taken.components cs = .ok (u.ranked cs) := hs.components_eq hp
  have hassess : assess taken.samplingSet (u.ranked cs) taken.flags =
    (.ok (u.assessed cs), taken.flags) := hs.assess_eq hp
  have returned : ∀ c ∈ (Ruling.ofAssessed taken.policy 0 (u.assessed cs)).flatMap Ruling.returned,
      c.isAbsurd = false :=
    not_isAbsurd_of_returned (Solver.not_isAbsurd_of_prepare hp) hcomp hassess
  have divided := eq_of_assess_eq_ok (b := .ordinary) rfl hcomp hassess
  rw [carryOut_ordinary (by exact hc) returned] at divided
  rw [explore_of_prepare_eq_ok hc hm hp]
  simp only [searchPrepared, hskip]
  exact divided

end Explored

/-- Where the components were gone through, the rulings on them are carried out. -/
theorem closeAloud_eq (hc : s.solver.consistent = true) (hm : s.solver.matrices = [])
    {rulings : List Ruling} (hr : ∀ c ∈ rulings.flatMap Ruling.returned, c.isAbsurd = false)
    {verbosity minRows : Nat} {p : Progress}
    (hp : Progress.Follows verbosity minRows (.start s) rulings p) (elapsed : Duration)
    (count : Nat) :
    s.closeAloud elapsed count p =
      let report := { Ruling.report count rulings with elapsed := elapsed }
      let s := { s with solver := carried s.solver rulings }.logAll
        (narrate verbosity minRows 0 rulings)
      let s := s.logAll (unusedText s.solver.settings.verbosity report)
      let s := s.logAll (closingText s.solver.settings.verbosity report)
      (s.recordTime searchName elapsed).conclude report := by
  have flags_eq : p.stage.flags = s.solver.flags := hp.stage.flags_eq
  have matrices_eq : p.stage.matrices =
      s.solver.matrices ++ rulings.filterMap Ruling.matrix? := hp.stage.matrices_eq
  have queue_eq : resizeQueue p.stage.matrices.length p.stage.queue =
      queueAfter s.solver.queue (rulings.filterMap Ruling.matrix?).length := by
    rw [matrices_eq, hp.stage.queue_eq, hm, queueAfter, List.range_eq_range']
    rfl
  have returned_eq : p.stage.returned = rulings.flatMap Ruling.returned := hp.stage.returned_eq
  have rulings_eq : p.rulings = rulings := hp.rulings_eq
  have outputs_eq : p.talk.outputs =
      broadcastAll s.outputs (narrate verbosity minRows 0 rulings) := hp.outputs_eq
  rw [closeAloud, flags_eq, queue_eq, matrices_eq, returned_eq, rulings_eq, outputs_eq,
    restore_eq (by exact hc) hr]
  rfl

section Prepared

variable (hs : s.solver.WellFormed) (hc : s.solver.consistent = true) (hm : s.solver.matrices = [])
  {cs : List Constraint} (hp : s.solver.prepare = .ok cs)
include hs hc hm hp

omit hs in
theorem skipAloud_eq {cause : SkipCause} (hskip : skipCause? s.solver.settings cs = some cause)
    (elapsed : Duration) : (s.taken cs).skipAloud elapsed cs cause = s.find elapsed := by
  rw [find_of_explore (explore_of_skipped hc hm hp hskip), skipAloud,
    restore_eq (by exact hc) (Solver.not_isAbsurd_of_prepare hp)]
  simp only [Option.isNone_some, Bool.false_eq_true, if_false]
  rfl

theorem divideAloud_eq (hskip : skipCause? s.solver.settings cs = none) (elapsed : Duration) :
    (s.taken cs).divideAloud elapsed cs = .ok (s.find elapsed) := by
  have hlt := Solver.lt_of_prepare hp
  have hcomp : (s.taken cs).solver.components cs = .ok (s.solver.ranked cs) :=
    hs.components_eq hp
  have hassess : assess (s.taken cs).solver.samplingSet (s.solver.ranked cs)
    (s.taken cs).solver.flags = (.ok (s.solver.assessed cs), (s.taken cs).solver.flags) :=
    hs.assess_eq hp
  have returned : ∀ c ∈ (s.solver.rulings cs).flatMap Ruling.returned, c.isAbsurd = false :=
    not_isAbsurd_of_returned (Solver.not_isAbsurd_of_prepare hp) hcomp hassess
  have explored := explore_of_divided hc hm hp hs hskip
  have announced : (s.taken cs).announceLimit = (s.taken cs).logAll
      (if s.solver.settings.thresholds.maxRows < s.solver.policy.maxRows
        then raisedText s.solver.settings.verbosity s.solver.policy.maxRows else []) :=
    announceLimit_eq _
  generalize (if s.solver.settings.thresholds.maxRows < s.solver.policy.maxRows
    then raisedText s.solver.settings.verbosity s.solver.policy.maxRows else []) = events
    at explored announced
  rw [find_of_explore explored, divideAloud, hcomp, announced]
  dsimp only
  have sound : (Stage.start ((s.taken cs).logAll events).solver).Sound s.solver.varCount :=
    ⟨hs.flags, congrArg List.length hm⟩
  obtain ⟨p, hrun, hfollows⟩ := Progress.exists_run (s.taken cs).solver.settings.verbosity
    (s.taken cs).solver.settings.thresholds.minRows (p := .start ((s.taken cs).logAll events))
    (s.taken cs).solver.policy (hs.lt_of_mem_members hlt hcomp) sound hassess
  rw [hrun]
  refine congrArg Except.ok ?_
  rw [closeAloud_eq (by exact hc) (by exact hm) returned hfollows]
  have looked : (Ruling.report cs.length (s.solver.rulings cs)).skipped.isNone = true := rfl
  rw [if_pos looked, logAll_append, logAll_append]
  rfl

end Prepared

/-- A search of a well-formed solver may say everything at its moment. -/
theorem findAloud_eq (hs : s.solver.WellFormed) (hc : s.solver.consistent = true)
    (hm : s.solver.matrices = []) (elapsed : Duration) :
    s.findAloud elapsed = .ok (s.find elapsed) := by
  rw [findAloud, precondition_ordinary hc hm]
  dsimp only
  cases hp : s.solver.prepare with
  | error failure =>
    cases failure with
    | fault f => exact absurd hp (hs.prepare_ne_fault f)
    | contradiction c =>
      rw [find, search, explore_of_prepare_eq_error hc hm hp]
      rfl
  | ok cs =>
    dsimp only
    cases hskip : skipCause? s.solver.settings cs with
    | some cause => exact congrArg Except.ok (skipAloud_eq hc hm hp hskip elapsed)
    | none => exact divideAloud_eq hs hc hm hp hskip elapsed

/-- Two sessions whose solvers differ in their verbosity only, with whatever outputs and
statistics: their searches have the same outcome, but for the time, and leave solvers that
differ in their verbosity only. That holds of searches that log everything at its moment,
which these are. -/
theorem find_of_silent_eq (hr : s.solver.Reachable) (hc : s.solver.consistent = true)
    (hm : s.solver.matrices = []) (h : s.solver.silent = t.solver.silent)
    (elapsed elapsed' : Duration) :
    (t.find elapsed').1.solver.silent = (s.find elapsed).1.solver.silent ∧
      (t.find elapsed').2.map Report.untimed = (s.find elapsed).2.map Report.untimed ∧
      s.findAloud elapsed = .ok (s.find elapsed) ∧
      t.findAloud elapsed' = .ok (t.find elapsed') := by
  have hs := hr.wellFormed
  have ht : t.solver.WellFormed := by
    have silent : s.solver.silent.WellFormed := hs.congr rfl hs.numbering rfl hs.pool
    rw [h] at silent
    exact silent.congr rfl silent.numbering rfl silent.pool
  have hc' : t.solver.consistent = true := (congrArg Solver.consistent h :).symm.trans hc
  have hm' : t.solver.matrices = [] := (congrArg Solver.matrices h :).symm.trans hm
  have aloud := findAloud_eq hs hc hm elapsed
  have aloud' := findAloud_eq ht hc' hm' elapsed'
  have same := map_essence_findAloud h elapsed elapsed'
  rw [aloud, aloud'] at same
  obtain ⟨solver, outcome⟩ := Prod.mk.inj (Except.ok.inj same)
  exact ⟨solver.symm, outcome.symm, aloud, aloud'⟩

/-- The sample with much to say, to an output that refuses everything, and with
statistics. -/
def loudSample : Session where
  solver := { sample.solver with settings := { sample.solver.settings with verbosity := 4 } }
  timings := some {}
  outputs := [{ refusal := fun _ _ => some "refused" }, .quiet]

theorem find_of_silent_eq_sample :
    sample.solver.Reachable ∧ sample.solver.consistent = true ∧ sample.solver.matrices = [] ∧
      sample.solver.silent = loudSample.solver.silent ∧
      (loudSample.find .zero).1.solver.silent = (sample.find .zero).1.solver.silent ∧
      (loudSample.find .zero).2.map Report.untimed = (sample.find .zero).2.map Report.untimed ∧
      sample.findAloud .zero = .ok (sample.find .zero) ∧
      loudSample.findAloud .zero = .ok (loudSample.find .zero) :=
  ⟨reachable_sample, consistent_sample, matrices_sample, rfl,
    find_of_silent_eq (t := loudSample) reachable_sample consistent_sample matrices_sample rfl
      .zero .zero⟩

end Session

end ParityBlocks
