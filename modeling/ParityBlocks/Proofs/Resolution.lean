import ParityBlocks.Proofs.Contradictions
import ParityBlocks.Proofs.Representation

/-!
# What sampling variables stand for

The user's number of a sampling variable is followed to an outer number, to that of its
representative and to an inner number, and stays what it is where a table ends. Cleaning
follows an inner number out and in again, and faults where a table ends.

The outer number is the one that was recorded last (`Solver.outerOfUser_foldl`). The tables of
a reachable solver are inverse to each other, so both ways come to the same variable
(`Solver.WellFormed.samplingEntry_eq`). So a sampling variable is covered by a component if
what cleaning writes for it has a value or is a member (`Solver.WellFormed.ratio_eq_ok`).
`Solver.resolves_foldl_perform` says both of any requests to a new solver.
-/

namespace ParityBlocks

/-! ## The outer number of a user variable -/

/-- The outer number that a request records for a user variable. -/
def Request.outer? (user : Var) : Request → Option Var
  | .addAlias u outer => if user = u then some outer else none
  | _ => none

/-- The outer number of a user variable after requests to a new solver: the one that was
recorded last, or its own number. -/
def Request.lastOuter (rs : List Request) (user : Var) : Var :=
  (rs.reverse.findSome? (outer? user)).getD user

theorem Search.Ends.numbering_eq {s t : Solver} {elapsed : Duration}
    {outcome : Except Failure Report} (h : Ends s elapsed t outcome) :
    t.numbering = s.numbering := by
  cases h with
  | @unprepared failure prepared => cases failure <;> rfl
  | skipped => rfl
  | faulted => rfl
  | divided => rfl

namespace Solver

variable {s : Solver}

theorem numbering_assign (s : Solver) (v : Var) (b : Bool) :
    (s.assign v b).1.numbering = s.numbering := by
  rw [Solver.assign]
  split
  · rfl
  · split <;> rfl

theorem numbering_addAll (s : Solver) (cs : List Constraint) :
    (s.addAll cs).1.numbering = s.numbering := by
  rw [Solver.addAll]
  split <;> rfl

/-- Requests record outer numbers and change none that was recorded before. -/
theorem outerOfUser_perform (s : Solver) (r : Request) (user : Var) :
    (s.perform r).numbering.outerOfUser user =
      (r.outer? user).getD (s.numbering.outerOfUser user) := by
  have same {t : Solver} (h : t.numbering.aliases = s.numbering.aliases) :
      t.numbering.outerOfUser user = s.numbering.outerOfUser user := by
    rw [Numbering.outerOfUser, h, Numbering.outerOfUser]
  cases r with
  | add vars rhs =>
    rw [perform, Solver.add]
    split <;> rfl
  | assign v b => exact same (congrArg _ (numbering_assign s v b))
  | replace v w =>
    rw [perform, Solver.replace]
    cases h : s.numbering.replace v w with
    | error fault => rfl
    | ok n =>
      obtain ⟨-, -, -, -, -, haliases, -⟩ := Numbering.replace_eq_ok h
      exact same haliases
  | renumber inners =>
    rw [perform, Solver.renumber, Numbering.renumber]
    split
    · rfl
    · split <;> rfl
  | addAlias u outer =>
    rw [perform, Solver.addAlias, Numbering.addAlias, Numbering.outerOfUser, List.lookup_cons,
      Request.outer?]
    by_cases hu : user = u
    · rw [if_pos hu, beq_iff_eq.mpr hu]
      rfl
    · rw [if_neg hu, beq_eq_false_iff_ne.mpr hu]
      rfl
  | configure settings => rfl
  | load problem =>
    refine same (congrArg _ (load_keeps (P := fun t => t.numbering = s.numbering)
      (fun h v b => ?_) (fun h cs => ?_) rfl problem))
    · exact (numbering_assign _ v b).trans h
    · exact (numbering_addAll _ cs).trans h
  | search elapsed =>
    by_cases hready : s.consistent = true ∧ s.matrices = []
    · exact same (congrArg _ (Session.ends_find (s := { solver := s }) hready.1 hready.2
        elapsed).numbering_eq)
    · rw [perform_search_of_refused hready]
      rfl

theorem outerOfUser_foldl (s : Solver) (rs : List Request) (user : Var) :
    (rs.foldl perform s).numbering.outerOfUser user =
      (rs.reverse.findSome? (Request.outer? user)).getD (s.numbering.outerOfUser user) := by
  induction rs generalizing s with
  | nil => rfl
  | cons r rs ih =>
    rw [List.foldl_cons, ih, outerOfUser_perform, List.reverse_cons, List.findSome?_append,
      List.findSome?_singleton]
    cases rs.reverse.findSome? (Request.outer? user) <;> rfl

theorem varCount_foldl (hs : s.WellFormed) (rs : List Request) :
    (rs.foldl perform s).varCount = s.varCount := by
  induction rs generalizing s with
  | nil => rfl
  | cons r rs ih => rw [List.foldl_cons, ih (hs.perform r), varCount_perform hs]

end Solver

/-! ## The two ways to a representative -/

namespace Numbering.WellFormed

variable {n : Numbering} {size : Nat} {outer : Var}

/-- Unknown outer variables keep their number on the way in. -/
theorem innerOf_representativeOf_of_le (hn : n.WellFormed size) (h : size ≤ outer) :
    n.innerOf (n.representativeOf outer) = outer := by
  have hrep : n.representative[outer]? = none := by
    rw [Array.getElem?_eq_none_iff, hn.representative_size]
    exact h
  have hin : n.toInner[outer]? = none := by
    rw [Array.getElem?_eq_none_iff, hn.toInner_size]
    exact h
  rw [representativeOf, hrep, Option.getD_none, innerOf, hin, Option.getD_none]

/-- Going in from an outer variable leads to the replacement of its inner number. -/
theorem exists_replacementOf_toInner (hn : n.WellFormed size) (h : outer < size) :
    ∃ inner, n.toInner[outer]? = some inner ∧
      n.replacementOf inner = .ok (n.innerOf (n.representativeOf outer)) := by
  obtain ⟨inner, hinner⟩ : ∃ inner, n.toInner[outer]? = some inner :=
    ⟨_, Array.getElem?_eq_getElem (by rwa [hn.toInner_size])⟩
  obtain ⟨r, hr⟩ : ∃ r, n.representative[outer]? = some r :=
    ⟨_, Array.getElem?_eq_getElem (by rwa [hn.representative_size])⟩
  obtain ⟨w, hw⟩ : ∃ w, n.toInner[r]? = some w :=
    ⟨_, Array.getElem?_eq_getElem (by rw [hn.toInner_size]; exact hn.representative_lt hr)⟩
  refine ⟨inner, hinner, ?_⟩
  rw [representativeOf, hr, Option.getD_some, innerOf, hw, Option.getD_some]
  exact replacementOf_eq_ok.mpr ⟨outer, r, (hn.inverse _ _).mp hinner, hr, hw⟩

end Numbering.WellFormed

namespace Solver

variable {s : Solver}

/-- What cleaning writes for an outer variable, with its value; nothing for one that the
solver does not have. -/
def written (s : Solver) (outer : Var) : Option (Var × Option Bool) :=
  s.numbering.toInner[outer]?.bind fun inner => (s.substitute inner).toOption

namespace WellFormed

theorem written_of_le (hs : s.WellFormed) {outer : Var} (h : s.varCount ≤ outer) :
    s.written outer = none := by
  have hin : s.numbering.toInner[outer]? = none := by
    rw [Array.getElem?_eq_none_iff, hs.numbering.toInner_size]
    exact h
  rw [written, hin, Option.bind_none]

theorem exists_written (hs : s.WellFormed) {outer : Var} (h : outer < s.varCount) :
    ∃ inner w, s.numbering.toInner[outer]? = some inner ∧
      s.numbering.replacementOf inner = .ok w ∧ s.substitute inner = .ok (w, s.value w) ∧
      s.written outer = some (w, s.value w) ∧ w < s.varCount ∧
      s.numbering.innerOf (s.numbering.representativeOf outer) = w := by
  obtain ⟨inner, hinner, hw⟩ := hs.numbering.exists_replacementOf_toInner h
  have hsub := hs.substitute_eq (hs.numbering.toInner_lt hinner)
  have stands : s.standIn inner = s.numbering.innerOf (s.numbering.representativeOf outer) := by
    rw [standIn, hw]
    rfl
  rw [stands] at hsub
  refine ⟨inner, _, hinner, hw, hsub, ?_, hs.numbering.replacementOf_lt hw, rfl⟩
  rw [written, hinner, Option.bind_some, hsub]
  rfl

end WellFormed

end Solver

/-- What a sampling variable stands for if cleaning writes this for it. -/
def SamplingEntry.ofWritten : Option (Var × Option Bool) → SamplingEntry
  | none => .unknown
  | some (_, some _) => .assigned
  | some (w, none) => .free w

namespace Solver

variable {s : Solver}

/-- A sampling variable stands for what cleaning writes for its outer number. -/
theorem WellFormed.samplingEntry_eq (hs : s.WellFormed) (user : Var) :
    s.samplingEntry user = .ofWritten (s.written (s.numbering.outerOfUser user)) := by
  generalize houter : s.numbering.outerOfUser user = outer
  unfold samplingEntry
  dsimp only
  rw [houter]
  rcases Nat.lt_or_ge outer s.varCount with h | h
  · obtain ⟨inner, w, -, -, -, hwritten, hlt, hway⟩ := hs.exists_written h
    rw [hway, if_neg (Nat.not_le_of_lt hlt), hwritten]
    cases s.value w <;> rfl
  · rw [hs.numbering.innerOf_representativeOf_of_le h, if_pos h, hs.written_of_le h]
    rfl

/-- What a sampling variable with this outer number stands for: nothing if the solver does not
have that number, and otherwise what cleaning writes for the inner one. -/
structure Resolves (s : Solver) (outer : Var) (entry : SamplingEntry) : Prop where
  unknown_iff : entry = .unknown ↔ s.varCount ≤ outer
  of_lt : outer < s.varCount → ∃ inner w, s.numbering.toInner[outer]? = some inner ∧
    s.numbering.replacementOf inner = .ok w ∧ s.substitute inner = .ok (w, s.value w) ∧
    s.written outer = some (w, s.value w) ∧
    entry = if (s.value w).isSome then .assigned else .free w

theorem WellFormed.resolves (hs : s.WellFormed) (user : Var) :
    s.Resolves (s.numbering.outerOfUser user) (s.samplingEntry user) := by
  rw [hs.samplingEntry_eq]
  generalize s.numbering.outerOfUser user = outer
  rcases Nat.lt_or_ge outer s.varCount with h | h
  · obtain ⟨inner, w, hinner, hw, hsub, hwritten, -, -⟩ := hs.exists_written h
    rw [hwritten]
    have known : SamplingEntry.ofWritten (some (w, s.value w)) =
        if (s.value w).isSome then .assigned else .free w := by
      cases s.value w <;> rfl
    refine ⟨⟨fun he => ?_, fun hle => absurd h (Nat.not_lt_of_le hle)⟩,
      fun _ => ⟨inner, w, hinner, hw, hsub, hwritten, known⟩⟩
    rw [known] at he
    split at he <;> cases he
  · rw [hs.written_of_le h]
    exact ⟨⟨fun _ => h, fun _ => rfl⟩, fun hlt => absurd hlt (Nat.not_lt_of_le h)⟩

/-- What cleaning writes for an outer variable has a value or is in the list. -/
def covers (s : Solver) (members : List Var) (outer : Var) : Bool :=
  (s.written outer).any fun (w, value) => value.isSome || decide (w ∈ members)

/-- How many user variables are covered. -/
theorem WellFormed.coveredBy_samplingEntry (hs : s.WellFormed) (users members : List Var) :
    SamplingSet.coveredBy ⟨users.map s.samplingEntry⟩ (fun v => decide (v ∈ members)) =
      users.countP fun user => s.covers members (s.numbering.outerOfUser user) := by
  unfold SamplingSet.coveredBy
  rw [List.countP_map]
  refine List.countP_congr fun user _ => ?_
  rw [Function.comp, hs.samplingEntry_eq, covers]
  match s.written (s.numbering.outerOfUser user) with
  | none => rfl
  | some (w, none) => simp [SamplingEntry.ofWritten]
  | some (w, some b) => simp [SamplingEntry.ofWritten]

/-- The part of the user variables that are covered. -/
theorem WellFormed.ratio_eq_ok (hs : s.WellFormed) {users members : List Var} {r : Binary64}
    {flags : Array Bool} :
    SamplingSet.ratio ⟨users.map s.samplingEntry⟩ members s.flags = (.ok r, flags) ↔
      (users = [] ∨ ∀ v ∈ members, v < s.varCount) ∧
        (r = if users = [] then .zero else .quotient
          (users.countP fun user => s.covers members (s.numbering.outerOfUser user))
          users.length) ∧ flags = s.flags := by
  have share : (SamplingSet.mk (users.map s.samplingEntry)).share (fun v => decide (v ∈ members)) =
      if users = [] then .zero else .quotient
        (users.countP fun user => s.covers members (s.numbering.outerOfUser user))
        users.length := by
    rw [SamplingSet.share, hs.coveredBy_samplingEntry]
    simp only [SamplingSet.size, List.length_map, List.isEmpty_iff, List.map_eq_nil_iff]
  rw [hs.flags, SamplingSet.ratio_eq_ok, share, List.map_eq_nil_iff]

/-- After requests to a new solver, a sampling variable is unknown if its outer number is, and
otherwise it is what cleaning writes for that, so that components cover it accordingly. -/
theorem resolves_foldl_perform {n : Nat} (hn : n < Var.modulus) (settings : Settings)
    (rs : List Request) {users : List Var} {s : Solver}
    (hs : rs.foldl perform (.new n settings) = s) (hsampling : s.settings.sampling = some users) :
    ∃ set, s.samplingSet = some set ∧ set.entries = users.map s.samplingEntry ∧
      s.varCount = n ∧
      (∀ user ∈ users, s.Resolves (Request.lastOuter rs user) (s.samplingEntry user)) ∧
      ∀ members r flags, set.ratio members s.flags = (.ok r, flags) ↔
        (users = [] ∨ ∀ v ∈ members, v < n) ∧
          (r = if users = [] then .zero else .quotient
            (users.countP fun user => s.covers members (Request.lastOuter rs user))
            users.length) ∧ flags = s.flags := by
  have hs' : s.WellFormed := hs ▸ (Reachable.foldl (.new settings hn) rs).wellFormed
  have hcount : s.varCount = n := by
    rw [← hs, varCount_foldl (.new settings hn)]
    exact Array.size_replicate
  have houter (user : Var) : s.numbering.outerOfUser user = Request.lastOuter rs user := by
    rw [← hs, outerOfUser_foldl]
    rfl
  refine ⟨_, samplingSet_eq hsampling, rfl, hcount, fun user _ => houter user ▸ hs'.resolves user,
    fun members r flags => ?_⟩
  rw [← hcount]
  simp only [← houter]
  exact hs'.ratio_eq_ok

/-- Requests that record outer numbers for two users, one of them twice, replace a variable,
give all new inner numbers, and give one of them a value. -/
def aliasRequests : List Request :=
  [.configure { sampling := some [0, 1, 2, 3, 9, 12] }, .addAlias 3 1, .renumber [3, 2, 1, 0],
    .replace 1 0, .addAlias 3 2, .addAlias 9 1, .assign 1 true]

theorem resolves_foldl_perform_sample :
    let s := aliasRequests.foldl perform (.new 4 {})
    4 < Var.modulus ∧ s.settings.sampling = some [0, 1, 2, 3, 9, 12] ∧
      s.samplingSet = some ⟨[.free 3, .free 3, .assigned, .assigned, .free 3, .unknown]⟩ ∧
      (∀ user ∈ [0, 1, 2, 3, 9, 12],
        s.Resolves (Request.lastOuter aliasRequests user) (s.samplingEntry user)) ∧
      Request.lastOuter aliasRequests 3 = 2 ∧ Request.lastOuter aliasRequests 12 = 12 ∧
      ∃ set, s.samplingSet = some set ∧
        set.ratio [3] s.flags = (.ok (.quotient 5 6), s.flags) := by
  intro s
  have hn : 4 < Var.modulus := by decide
  have hsampling : s.settings.sampling = some [0, 1, 2, 3, 9, 12] := by decide +kernel
  have hcovered : ([0, 1, 2, 3, 9, 12].countP fun user =>
      s.covers [3] (Request.lastOuter aliasRequests user)) = 5 := by decide +kernel
  obtain ⟨set, hset, -, -, resolves, ratio⟩ :=
    resolves_foldl_perform hn {} aliasRequests rfl hsampling
  refine ⟨hn, hsampling, by decide +kernel, resolves, by decide +kernel, by decide +kernel, set,
    hset, (ratio _ _ _).mpr ⟨.inr (by decide), ?_, rfl⟩⟩
  rw [if_neg (List.cons_ne_nil _ _), hcovered]
  rfl

end Solver

end ParityBlocks
