import ParityBlocks.Proofs.Ascending
import ParityBlocks.Proofs.Partition

/-!
# Joining in place

`Partition.Edit` is work on a partition that is done step by step on its two tables. Each step
checks that the place is there, and a fault leaves all that was done before it.
`Edit.insert` is the joining of a constraint's variables in this way: if they are all in one
component it is done, which the test may find before it comes to a variable that does not exist;
otherwise the components and the newcomers are listed, and then either the newcomers are put into
the single component one by one, or the components are emptied one by one into a new one.

On a valid partition this comes to the same as `Partition.add` (`Valid.run_insert`). It faults
while it lists the variables or never, so a fault leaves the partition as it was.
-/

namespace ParityBlocks.Partition

/-- Work on a partition. A fault leaves what was done before it. -/
abbrev Edit (α : Type) := EStateM Fault Partition α

namespace Edit

/-- Reads the component of a variable. -/
def read (v : Var) : Edit (Option Nat) := fun p =>
  match lookup p.table v with
  | .ok id => .ok id p
  | .error fault => .error fault p

/-- Notes that a variable is in the component `id`. -/
def write (id : Nat) (v : Var) : Edit Unit := fun p =>
  match lookup p.table v with
  | .ok _ => .ok () { p with table := p.table.setIfInBounds v (some id) }
  | .error fault => .error fault p

/-- Puts a variable after the others of the component `id`, if it is live. -/
def enlist (id : Nat) (v : Var) : Edit Unit := fun p =>
  match lookup p.members id with
  | .ok _ => .ok () { p with members := p.members.modify id fun ms => ms.map (· ++ [v]) }
  | .error fault => .error fault p

/-- Takes the variables away from the component `id`: none if it is not live. -/
def take (id : Nat) : Edit (List Var) := fun p =>
  match lookup p.members id with
  | .ok ms => .ok (ms.getD []) { p with members := p.members.setIfInBounds id none }
  | .error fault => .error fault p

/-- Adds a component. -/
def start (ms : List Var) : Edit Unit :=
  modify fun p => { p with members := p.members.push (some ms) }

/-- All variables are in one component, that of those before them if there were any. -/
def together : Option Nat → List Var → Edit Bool
  | _, [] => return true
  | found, v :: vs => do
    match ← read v with
    | none => return false
    | some id => if found.any (· ≠ id) then return false else together (some id) vs

/-- The components of those variables that have one, and the variables that have none. -/
def survey : List Var → Edit (List Nat × List Var)
  | [] => return ([], [])
  | v :: vs => do
    let found ← read v
    let (ids, newcomers) ← survey vs
    match found with
    | some id => return (id :: ids, newcomers)
    | none => return (ids, v :: newcomers)

/-- Puts variables into a component one by one. -/
def putInto (id : Nat) (vars : List Var) : Edit Unit :=
  vars.forM fun v => do write id v; enlist id v

/-- Makes a new component of variables and those of components, which are emptied one by one. -/
def takeOver (ids : List Nat) (vars : List Var) : Edit Unit := do
  let id := (← get).idCount
  let merged ← ids.foldlM (fun ms i => return ms ++ (← take i)) vars
  merged.forM (write id)
  start merged

/-- Joins the variables of a list into one component. -/
def insert (vars : List Var) : Edit Unit := do
  if ← together none vars then return
  let (ids, newcomers) ← survey vars.eraseDups
  match Ascending.ofList ids with
  | [id] => putInto id newcomers
  | ids => takeOver ids newcomers

/-! ## Single steps -/

section Steps

variable {p : Partition} {v : Var} {id : Nat}

theorem run_read (h : v < p.table.size) : (read v).run p = .ok (p.componentOf v) p := by
  simp [EStateM.run, read, lookup, componentOf, h]

theorem run_read_of_le (h : p.table.size ≤ v) :
    (read v).run p = .error (.indexOutOfRange p.table.size v) p := by
  simp [EStateM.run, read, lookup, h]

theorem run_write (h : v < p.table.size) :
    (write id v).run p = .ok () { p with table := p.table.setIfInBounds v (some id) } := by
  simp [EStateM.run, write, lookup, h]

theorem run_enlist (h : id < p.idCount) (v : Var) :
    (enlist id v).run p =
      .ok () { p with members := p.members.modify id fun ms => ms.map (· ++ [v]) } := by
  simp [EStateM.run, enlist, lookup, show id < p.members.size from h]

theorem run_take (h : id < p.idCount) :
    (take id).run p =
      .ok ((p.membersOf id).getD []) { p with members := p.members.setIfInBounds id none } := by
  simp [EStateM.run, take, lookup, membersOf, show id < p.members.size from h]

end Steps

/-! ## Reading the variables -/

section Reading

variable {p : Partition} {vars : List Var}

/-- Variables that exist are found together only if they are all in one component. -/
theorem exists_run_together (h : ∀ v ∈ vars, v < p.table.size) (found : Option Nat) :
    ∃ b, (together found vars).run p = .ok b p ∧
      (b = true → ∃ id, (∀ j ∈ found, j = id) ∧ ∀ v ∈ vars, p.componentOf v = some id) := by
  induction vars generalizing found with
  | nil => exact ⟨true, rfl, fun _ => ⟨found.getD 0, fun j hj => by rw [hj]; rfl, nofun⟩⟩
  | cons v vs ih =>
    obtain ⟨hv, hvs⟩ := List.forall_mem_cons.mp h
    rw [together, EStateM.run_bind, run_read hv]
    cases hc : p.componentOf v with
    | none => exact ⟨false, rfl, nofun⟩
    | some id =>
      by_cases hf : found.any (· ≠ id) = true
      · exact ⟨false, by simp only [hf]; rfl, nofun⟩
      · obtain ⟨b, hb, hone⟩ := ih hvs (some id)
        refine ⟨b, by simp only [hf]; exact hb, fun h => ?_⟩
        obtain ⟨j, hj, hall⟩ := hone h
        obtain rfl := hj id rfl
        refine ⟨id, fun j hj => ?_, List.forall_mem_cons.mpr ⟨hc, hall⟩⟩
        rw [hj] at hf
        simpa using hf

/-- If a variable does not exist, the test stops at it, unless it says no before. -/
theorem run_together_of_find? {u : Var}
    (h : vars.find? (fun v => decide (p.table.size ≤ v)) = some u) (found : Option Nat) :
    (together found vars).run p = .ok false p ∨
      (together found vars).run p = .error (.indexOutOfRange p.table.size u) p := by
  induction vars generalizing found with
  | nil => cases h
  | cons v vs ih =>
    rw [together, EStateM.run_bind]
    by_cases hv : p.table.size ≤ v
    · rw [List.find?_cons_of_pos (by simpa using hv)] at h
      cases h
      rw [run_read_of_le hv]
      exact .inr rfl
    · rw [List.find?_cons_of_neg (by simpa using hv)] at h
      rw [run_read (Nat.lt_of_not_le hv)]
      cases p.componentOf v with
      | none => exact .inl rfl
      | some id =>
        by_cases hf : found.any (· ≠ id) = true
        · exact .inl (by simp only [hf]; rfl)
        · simp only [hf]
          exact ih h (some id)

theorem run_survey (h : ∀ v ∈ vars, v < p.table.size) :
    (survey vars).run p =
      .ok (vars.filterMap p.componentOf, vars.filter fun v => (p.componentOf v).isNone) p := by
  induction vars with
  | nil => rfl
  | cons v vs ih =>
    obtain ⟨hv, hvs⟩ := List.forall_mem_cons.mp h
    rw [survey, EStateM.run_bind, run_read hv]
    dsimp only
    rw [EStateM.run_bind, ih hvs]
    cases hc : p.componentOf v with
    | none => simp [hc, EStateM.run_pure]
    | some id => simp [hc, EStateM.run_pure]

theorem run_survey_of_find? {u : Var}
    (h : vars.find? (fun v => decide (p.table.size ≤ v)) = some u) :
    (survey vars).run p = .error (.indexOutOfRange p.table.size u) p := by
  induction vars with
  | nil => cases h
  | cons v vs ih =>
    rw [survey, EStateM.run_bind]
    by_cases hv : p.table.size ≤ v
    · rw [List.find?_cons_of_pos (by simpa using hv)] at h
      cases h
      rw [run_read_of_le hv]
    · rw [List.find?_cons_of_neg (by simpa using hv)] at h
      rw [run_read (Nat.lt_of_not_le hv)]
      dsimp only
      rw [EStateM.run_bind, ih h]

/-- The first of some variables stays the first without the repetitions. -/
theorem find?_eraseDups (f : Var → Bool) (vs : List Var) : vs.eraseDups.find? f = vs.find? f := by
  generalize hn : vs.length = n
  induction n using Nat.strongRecOn generalizing vs with
  | ind n ih =>
    cases vs with
    | nil => rfl
    | cons v vs =>
      rw [List.eraseDups_cons, List.find?_cons, List.find?_cons]
      cases hv : f v with
      | true => rfl
      | false =>
        have shorter : (vs.filter fun w => !w == v).length < n := by
          rw [← hn, List.length_cons]
          exact Nat.lt_succ_of_le (List.length_filter_le _ _)
        dsimp only
        rw [ih _ shorter _ rfl, List.find?_filter]
        refine congrArg (fun q => vs.find? q) (funext fun w => ?_)
        by_cases hw : w = v
        · simp [hw, hv]
        · simp [hw]

end Reading

/-! ## Writing the tables -/

section Writing

variable {p : Partition}

theorem absorb_nil (p : Partition) (id : Nat) : p.absorb id [] = p := by
  have same : (fun ms : Option (List Var) => ms.map (· ++ [])) = fun ms => ms := by
    funext ms
    cases ms <;> simp
  simp only [absorb, same]
  rw [show p.members.modify id (fun ms => ms) = p.members from ?_]
  · rfl
  · refine Array.ext_getElem? fun j => ?_
    rw [Array.getElem?_modify]
    split <;> simp

/-- Variables get into a component together or one by one. -/
theorem absorb_cons (p : Partition) (id : Nat) (v : Var) (vs : List Var) :
    p.absorb id (v :: vs) = (p.absorb id [v]).absorb id vs := by
  have same : (p.absorb id (v :: vs)).members = ((p.absorb id [v]).absorb id vs).members := by
    refine Array.ext_getElem? fun j => ?_
    simp only [absorb, Array.getElem?_modify]
    split
    · cases p.members[j]? with
      | none => rfl
      | some ms => cases ms <;> simp
    · rfl
  rw [absorb, absorb, mk.injEq]
  exact ⟨rfl, same⟩

theorem run_putInto {id : Nat} {vars : List Var} (h : ∀ v ∈ vars, v < p.table.size)
    (hid : id < p.idCount) : (putInto id vars).run p = .ok () (p.absorb id vars) := by
  induction vars generalizing p with
  | nil => rw [absorb_nil]; rfl
  | cons v vs ih =>
    obtain ⟨hv, hvs⟩ := List.forall_mem_cons.mp h
    have size : (p.absorb id [v]).table.size = p.table.size := size_assign _ _ _
    have step : (do write id v; enlist id v : Edit Unit).run p = .ok () (p.absorb id [v]) := by
      rw [Checked.run_bind_of_ok (run_write hv)]
      exact run_enlist (p := { p with table := p.table.setIfInBounds v (some id) }) hid v
    have rest := ih (p := p.absorb id [v]) (by rwa [size]) (by rwa [idCount_absorb])
    show EStateM.run ((do write id v; enlist id v) >>= fun _ => putInto id vs) p = _
    rw [← absorb_cons] at rest
    exact (Checked.run_bind_of_ok step).trans rest

/-- The variables get the number of a component one by one. -/
theorem run_forM_write (id : Nat) {vars : List Var} (h : ∀ v ∈ vars, v < p.table.size) :
    (vars.forM (write id)).run p = .ok () { p with table := assign id vars p.table } := by
  induction vars generalizing p with
  | nil => rfl
  | cons v vs ih =>
    obtain ⟨hv, hvs⟩ := List.forall_mem_cons.mp h
    have rest := ih (p := { p with table := p.table.setIfInBounds v (some id) })
      (by rwa [Array.size_setIfInBounds])
    show EStateM.run (write id v >>= fun _ => vs.forM (write id)) p = _
    rw [Checked.run_bind_of_ok (run_write hv)]
    exact rest

/-- Components are emptied one by one, and their variables collected. -/
theorem run_foldlM_take {ids : List Nat} (h : ∀ id ∈ ids, id < p.idCount) (hn : ids.Nodup)
    (ms : List Var) :
    (ids.foldlM (fun ms i => return ms ++ (← take i)) ms : Edit (List Var)).run p =
      .ok (ms ++ ids.flatMap fun id => (p.membersOf id).getD [])
        { p with members := retire ids p.members } := by
  induction ids generalizing p ms with
  | nil => rw [List.flatMap_nil, List.append_nil]; rfl
  | cons id ids ih =>
    obtain ⟨hid, hids⟩ := List.forall_mem_cons.mp h
    obtain ⟨hnot, hn⟩ := List.nodup_cons.mp hn
    have rest := ih (p := { p with members := p.members.setIfInBounds id none })
      (by simpa only [idCount, Array.size_setIfInBounds] using hids) hn
      (ms ++ (p.membersOf id).getD [])
    -- the components that are still to come are as they were
    have others : (ids.flatMap fun j =>
        (membersOf { p with members := p.members.setIfInBounds id none } j).getD []) =
          ids.flatMap fun j => (p.membersOf j).getD [] := by
      refine List.flatMap_congr fun j hj => ?_
      have hne : id ≠ j := fun e => hnot (e ▸ hj)
      rw [membersOf, membersOf, Array.getElem?_setIfInBounds_ne hne]
    rw [others, List.append_assoc] at rest
    rw [List.foldlM_cons, EStateM.run_bind, EStateM.run_bind, run_take hid]
    exact rest

/-- A new component takes over others, if these are known and all variables exist. -/
theorem run_takeOver {ids : List Nat} {vars : List Var} (h : ∀ id ∈ ids, id < p.idCount)
    (hn : ids.Nodup) (hv : ∀ v ∈ p.mergedMembers ids vars, v < p.table.size) :
    (takeOver ids vars).run p = .ok () (p.merge ids vars) := by
  have taken := run_foldlM_take h hn vars
  have written := run_forM_write (p := { p with members := retire ids p.members }) p.idCount hv
  show EStateM.run (_ >>= fun ms => ms.forM (write p.idCount) >>= fun _ => start ms) p = _
  rw [Checked.run_bind_of_ok taken]
  exact Checked.run_bind_of_ok written

end Writing

end Edit

/-! ## Joining in place and joining -/

section Insert

variable {p : Partition} {vars : List Var}

/-- Nothing is to be done for variables that are all in one component. -/
theorem join_eq_self {id : Nat} (h : ∀ v ∈ vars, p.componentOf v = some id) : p.join vars = p := by
  by_cases hne : vars = []
  · rw [hne, join_nil]
  obtain ⟨u, hu⟩ := List.exists_mem_of_ne_nil _ hne
  have touched_eq : p.touched vars = [id] := by
    have ascending : (p.touched vars).Pairwise (· < ·) := Ascending.pairwise_ofList _
    refine Ascending.eq_of_mem_iff ascending (List.pairwise_singleton _ _) fun j => ?_
    rw [mem_touched, List.mem_singleton]
    constructor
    · rintro ⟨v, hv, hc⟩
      exact Option.some.inj (hc.symm.trans (h v hv))
    · rintro rfl
      exact ⟨u, hu, h u hu⟩
  have newcomers_eq : p.newcomers vars = [] := by
    refine List.eq_nil_iff_forall_not_mem.mpr fun v hv => ?_
    obtain ⟨hv, hc⟩ := mem_newcomers.mp hv
    exact nomatch (h v hv).symm.trans hc
  rw [join, if_neg (by rwa [List.isEmpty_iff]), touched_eq, newcomers_eq]
  exact Edit.absorb_nil p id

theorem Valid.lt_of_mem_touched (hp : p.Valid) {id : Nat} (h : id ∈ p.touched vars) :
    id < p.idCount := by
  obtain ⟨v, -, hc⟩ := mem_touched.mp h
  exact hp.lt_idCount hc

/-- Once the components and the newcomers are known, the tables are written as joining has it. -/
theorem Valid.run_write (hp : p.Valid) (hv : ∀ v ∈ vars, v < p.table.size) (hne : vars ≠ []) :
    (match p.touched vars with
      | [id] => Edit.putInto id (p.newcomers vars)
      | ids => Edit.takeOver ids (p.newcomers vars)).run p = .ok () (p.join vars) := by
  have known : ∀ id ∈ p.touched vars, id < p.idCount := fun id => hp.lt_of_mem_touched
  have merged := Edit.run_takeOver known (nodup_touched p vars) fun v =>
    hp.lt_of_mem_mergedMembers hv
  rw [Partition.join, if_neg (by rwa [List.isEmpty_iff])]
  rcases ht : p.touched vars with _ | ⟨id, _ | ⟨j, js⟩⟩
  · rw [ht] at merged
    exact merged
  · exact Edit.run_putInto (fun v h => hv v (mem_newcomers.mp h).1)
      (known id (ht ▸ List.mem_singleton_self id))
  · rw [ht] at merged
    exact merged

/-- Joining in place faults as joining does, with the partition as it was, and leaves otherwise
what joining makes. -/
theorem Valid.run_insert (hp : p.Valid) (vars : List Var) :
    (Edit.insert vars).run p =
      match p.add vars with
      | .ok q => .ok () q
      | .error fault => .error fault p := by
  rw [Edit.insert]
  rcases p.add_cases vars with ⟨hv, hadd⟩ | ⟨u, hfind, hadd⟩
  · rw [hadd]
    obtain ⟨b, hb, hone⟩ := Edit.exists_run_together hv none
    rw [Checked.run_bind_of_ok hb]
    cases b with
    | true =>
      obtain ⟨id, -, hall⟩ := hone rfl
      rw [join_eq_self hall]
      rfl
    | false =>
      have hne : vars ≠ [] := by
        rintro rfl
        cases hb
      have touched_eq : Ascending.ofList (vars.eraseDups.filterMap p.componentOf) =
          p.touched vars := Ascending.ofList_congr fun id => by simp
      have known : ∀ v ∈ vars.eraseDups, v < p.table.size := fun v h =>
        hv v (List.mem_eraseDups.mp h)
      refine (Checked.run_bind_of_ok (Edit.run_survey known)).trans ?_
      dsimp only
      rw [touched_eq]
      exact hp.run_write hv hne
  · have missing := (Edit.find?_eraseDups _ vars).trans hfind
    rw [hadd]
    rcases Edit.run_together_of_find? hfind none with h | h
    · exact (Checked.run_bind_of_ok h).trans
        (Checked.run_bind_of_error (Edit.run_survey_of_find? missing))
    · exact Checked.run_bind_of_error h

end Insert

end ParityBlocks.Partition
