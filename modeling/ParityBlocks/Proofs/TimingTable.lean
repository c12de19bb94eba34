import Mathlib.Data.List.Induction
import Mathlib.Data.List.Perm.Basic
import Std.Data.HashMap.Lemmas
import ParityBlocks.Proofs.Delivery
import ParityBlocks.Proofs.Partition
import ParityBlocks.Proofs.Priority

/-!
# The table of statistics

The table of statistics has a row for each name, and there is one order for them: rows are told
apart by their names, so no two of them may precede each other (`Timings.name_eq_of_mayPrecede`,
`Timings.sort_rowFor_congr`).

Samples are found by name in a map of buckets, which is read in an order of its own
(`Timings.rowsOf`). All that counts is which samples the buckets hold (`Timings.Lists`), and this
is the same for the buckets of a map in any order (`Timings.lists_of_perm_buckets`, by induction on
the samples) and for those that `Timings.rows` reads (`Timings.lists_read`). The rows of such
buckets are the table if every total fits (`Timings.Lists.rowsOf_eq_ok`), and otherwise there are
none (`Timings.Lists.rowsOf_eq_error`), so that nothing is printed.
-/

namespace ParityBlocks

/-- The name of a step, and how long it took. -/
abbrev Sample := String × Duration

namespace Duration

/-- Durations in any order have the same total. -/
theorem total?_congr {ds ds' : List Duration} (h : ds.Perm ds') : total? ds = total? ds' := by
  have comm : LeftCommutative fun (d : Duration) (n : Nat) => d.nanoseconds + n :=
    ⟨fun _ _ _ => Nat.add_left_comm _ _ _⟩
  rw [total?, total?, h.foldr_eq]

end Duration

namespace Timings

/-- The timings after samples, in the order in which they came. -/
def ofSamples (samples : List Sample) : Timings := samples.foldl (fun t x => t.record x.1 x.2) {}

/-- The durations of the samples with a name, in the order in which they came. -/
def durations (samples : List Sample) (name : String) : List Duration :=
  (samples.filter fun x => x.1 == name).map Prod.snd

/-- The nanoseconds of the samples with a name, all together. -/
def spent (samples : List Sample) (name : String) : Nat :=
  (durations samples name).foldr (fun d n => d.nanoseconds + n) 0

/-- The row of a name. -/
def rowFor (samples : List Sample) (name : String) : TimingRow where
  name := name
  count := (samples.map Prod.fst).count name
  total := ⟨spent samples name⟩

/-- A row for each name, in order. -/
def table (samples : List Sample) : List TimingRow :=
  Sorting.sort mayPrecede ((samples.map Prod.fst).eraseDups.map (rowFor samples))

/-- The rows are those of the names of the samples, one for each, by falling totals and, where
these are equal, by rising names. -/
structure Tabulates (samples : List Sample) (rows : List TimingRow) : Prop where
  nodup_names : (rows.map TimingRow.name).Nodup
  mem_iff (row : TimingRow) : row ∈ rows ↔ row.name ∈ samples.map Prod.fst ∧
    row.count = (samples.map Prod.fst).count row.name ∧
    row.total.nanoseconds = spent samples row.name
  ordered : rows.Pairwise fun r s => s.total.nanoseconds < r.total.nanoseconds ∨
    r.total = s.total ∧ r.name < s.name

/-! ## Samples by name -/

/-- A name with the durations of its samples. -/
abbrev Bucket := String × List Duration

/-- Puts a sample behind those with its name. -/
def file (buckets : Std.HashMap String (List Duration)) (x : Sample) :
    Std.HashMap String (List Duration) :=
  buckets.insert x.1 (buckets.getD x.1 [] ++ [x.2])

/-- The samples by name. -/
def buckets (samples : List Sample) : Std.HashMap String (List Duration) := samples.foldl file ∅

/-- The row of a bucket. -/
def rowOf (b : Bucket) : Except Fault TimingRow :=
  match Duration.total? b.2 with
  | some total => .ok { name := b.1, count := b.2.length, total := total }
  | none => .error .durationOverflow

/-- The rows of buckets that are read one after the other, in order. -/
def rowsOf (bs : List Bucket) : Except Fault (List TimingRow) :=
  (bs.mapM rowOf).map (Sorting.sort mayPrecede)

/-- The buckets hold the samples, in whatever order. -/
structure Lists (samples : List Sample) (bs : List Bucket) : Prop where
  nodup_names : (bs.map Prod.fst).Nodup
  mem_names_iff (name : String) : name ∈ bs.map Prod.fst ↔ name ∈ samples.map Prod.fst
  perm (b : Bucket) : b ∈ bs → b.2.Perm (durations samples b.1)

section Samples

variable {samples samples' : List Sample}

theorem samples_ofSamples (samples : List Sample) :
    (ofSamples samples).samples = samples.reverse := by
  have from_any : ∀ t : Timings, (samples.foldl (fun t x => t.record x.1 x.2) t).samples =
      samples.reverse ++ t.samples := by
    induction samples with
    | nil => exact fun t => rfl
    | cons x samples ih =>
      intro t
      rw [List.foldl_cons, ih, List.reverse_cons, List.append_assoc]
      rfl
  rw [ofSamples, from_any]
  exact List.append_nil _

theorem length_durations (samples : List Sample) (name : String) :
    (durations samples name).length = (samples.map Prod.fst).count name := by
  rw [durations, List.length_map, ← List.countP_eq_length_filter, List.count, List.countP_map]
  rfl

theorem durations_eq_nil_iff {name : String} :
    durations samples name = [] ↔ name ∉ samples.map Prod.fst := by
  rw [← List.length_eq_zero_iff, length_durations, List.count_eq_zero]

theorem durations_congr (h : samples.Perm samples') (name : String) :
    (durations samples name).Perm (durations samples' name) :=
  (h.filter _).map _

theorem total?_eq {ds : List Duration} {name : String} (h : ds.Perm (durations samples name)) :
    Duration.total? ds =
      if spent samples name < Duration.limit then some ⟨spent samples name⟩ else none := by
  rw [Duration.total?_congr h]
  rfl

/-- The durations that timings keep under a name, the newest first. -/
theorem durationsOf_ofSamples (samples : List Sample) (name : String) :
    ((ofSamples samples).durationsOf name).Perm (durations samples name) := by
  rw [durationsOf, samples_ofSamples]
  exact durations_congr samples.reverse_perm name

/-! ## The order of rows -/

theorem mayPrecede_iff {r s : TimingRow} :
    mayPrecede r s = true ↔ s.total.nanoseconds < r.total.nanoseconds ∨
      r.total = s.total ∧ r.name ≤ s.name := by
  rw [mayPrecede, Bool.or_eq_true, Bool.and_eq_true, decide_eq_true_iff, decide_eq_true_iff,
    beq_iff_eq]

theorem mayPrecede_total (r s : TimingRow) : mayPrecede r s = true ∨ mayPrecede s r = true := by
  rw [mayPrecede_iff, mayPrecede_iff]
  rcases Nat.lt_trichotomy r.total.nanoseconds s.total.nanoseconds with h | h | h
  · exact .inr (.inl h)
  · have same : r.total = s.total := congrArg Duration.mk h
    exact (String.le_total r.name s.name).imp (fun h => .inr ⟨same, h⟩) fun h => .inr ⟨same.symm, h⟩
  · exact .inl (.inl h)

theorem mayPrecede_trans (r s u : TimingRow) (h : mayPrecede r s = true)
    (h' : mayPrecede s u = true) : mayPrecede r u = true := by
  rw [mayPrecede_iff] at h h' ⊢
  rcases h with h | ⟨same, h⟩
  · rcases h' with h' | ⟨same', -⟩
    · exact .inl (Nat.lt_trans h' h)
    · exact .inl (same' ▸ h)
  · rcases h' with h' | ⟨same', h'⟩
    · exact .inl (same ▸ h')
    · exact .inr ⟨same.trans same', String.le_trans h h'⟩

/-- Rows that may precede each other have the same name. -/
theorem name_eq_of_mayPrecede {r s : TimingRow} (h : mayPrecede r s = true)
    (h' : mayPrecede s r = true) : r.name = s.name := by
  rw [mayPrecede_iff] at h h'
  rcases h with h | ⟨same, h⟩
  · rcases h' with h' | ⟨same, -⟩
    · exact absurd h' (Nat.lt_asymm h)
    · exact absurd (congrArg Duration.nanoseconds same) (Nat.ne_of_lt h)
  · rcases h' with h' | ⟨-, h'⟩
    · exact absurd (congrArg Duration.nanoseconds same) (Nat.ne_of_lt h')
    · exact String.le_antisymm h h'

/-- Rows of different names come in one order only. -/
theorem sort_rowFor_congr {names names' : List String} (h : names.Perm names') :
    Sorting.sort mayPrecede (names.map (rowFor samples)) =
      Sorting.sort mayPrecede (names'.map (rowFor samples)) := by
  refine Sorting.sort_eq_of_perm mayPrecede_total mayPrecede_trans (h.map _) ?_
  simp only [List.forall_mem_map]
  intro name _ name' _ h h'
  exact congrArg (rowFor samples) (name_eq_of_mayPrecede h h')

/-! ## The table -/

theorem nodup_names_table (samples : List Sample) :
    ((table samples).map TimingRow.name).Nodup := by
  have perm := (Sorting.perm_sort mayPrecede
    ((samples.map Prod.fst).eraseDups.map (rowFor samples))).map TimingRow.name
  have names : (samples.map Prod.fst).eraseDups.map (TimingRow.name ∘ rowFor samples) =
      (samples.map Prod.fst).eraseDups := List.map_id _
  rw [List.map_map, names] at perm
  exact perm.nodup_iff.mpr (nodup_eraseDups _)

theorem tabulates_table (samples : List Sample) : Tabulates samples (table samples) where
  nodup_names := nodup_names_table samples
  mem_iff row := by
    rw [table, (Sorting.perm_sort _ _).mem_iff, List.mem_map]
    simp only [List.mem_eraseDups]
    constructor
    · rintro ⟨name, hname, rfl⟩
      exact ⟨hname, rfl, rfl⟩
    · rintro ⟨hname, hcount, htotal⟩
      refine ⟨row.name, hname, ?_⟩
      rw [rowFor, ← hcount, ← htotal]
  ordered := by
    have sorted : (table samples).Pairwise fun r s => mayPrecede r s = true :=
      Sorting.pairwise_sort mayPrecede_total mayPrecede_trans _
    have distinct := List.pairwise_map.mp (nodup_names_table samples)
    refine sorted.imp₂ (fun r s h hne => ?_) distinct
    refine (mayPrecede_iff.mp h).imp_right fun ⟨same, hle⟩ => ⟨same, ?_⟩
    exact String.not_le.mp fun h => hne (String.le_antisymm hle h)

namespace Lists

variable {bs bs' : List Bucket} (h : Lists samples bs)
include h

/-- The buckets of samples in another order, read in another order. -/
theorem congr (hs : samples.Perm samples') (hb : bs.Perm bs') : Lists samples' bs' where
  nodup_names := (hb.map Prod.fst).nodup_iff.mp h.nodup_names
  mem_names_iff name := by
    rw [← (hb.map Prod.fst).mem_iff, h.mem_names_iff, (hs.map Prod.fst).mem_iff]
  perm b hmem := (h.perm b (hb.mem_iff.mpr hmem)).trans (durations_congr hs b.1)

theorem rowOf_eq {b : Bucket} (hb : b ∈ bs) :
    rowOf b = if spent samples b.1 < Duration.limit then .ok (rowFor samples b.1)
      else .error .durationOverflow := by
  have perm := h.perm b hb
  rw [rowOf, total?_eq perm]
  split
  · rename_i total htotal
    split at htotal
    · rename_i hfits
      cases htotal
      rw [if_pos hfits, perm.length_eq, length_durations, rowFor]
    · cases htotal
  · rename_i htotal
    split at htotal
    · cases htotal
    · rename_i hfits
      rw [if_neg hfits]

/-- If every total fits, the rows of the buckets are the table. -/
theorem rowsOf_eq_ok (hfits : ∀ name ∈ samples.map Prod.fst, spent samples name < Duration.limit) :
    rowsOf bs = .ok (table samples) := by
  have each : bs.mapM rowOf = .ok ((bs.map Prod.fst).map (rowFor samples)) := by
    rw [Checked.mapM_eq_ok, List.map_map, List.forall₂_map_right_iff, List.forall₂_same]
    intro b hb
    have known : b.1 ∈ samples.map Prod.fst := (h.mem_names_iff b.1).mp (List.mem_map_of_mem hb)
    rw [h.rowOf_eq hb, if_pos (hfits b.1 known)]
    rfl
  have names : (bs.map Prod.fst).Perm (samples.map Prod.fst).eraseDups := by
    rw [List.perm_ext_iff_of_nodup h.nodup_names (nodup_eraseDups _)]
    intro name
    rw [h.mem_names_iff, List.mem_eraseDups]
  rw [rowsOf, each, table, ← sort_rowFor_congr names]
  rfl

/-- If a total does not fit there are no rows. -/
theorem rowsOf_eq_error
    (hover : ∃ name ∈ samples.map Prod.fst, Duration.limit ≤ spent samples name) :
    rowsOf bs = .error .durationOverflow := by
  obtain ⟨name, known, hover⟩ := hover
  rw [← h.mem_names_iff] at known
  obtain ⟨b, hb, rfl⟩ := List.mem_map.mp known
  have fails : bs.mapM rowOf = .error .durationOverflow := by
    refine Checked.mapM_eq_error (fun c hc fault hfault => ?_) ⟨b, hb, ?_⟩
    · rw [h.rowOf_eq hc] at hfault
      split at hfault
      · cases hfault
      · exact (Except.error.inj hfault).symm
    · rw [h.rowOf_eq hb, if_neg (Nat.not_lt.mpr hover)]
  rw [rowsOf, fails]
  rfl

end Lists

/-! ## Which buckets are read -/

theorem durations_concat (samples : List Sample) (x : Sample) (name : String) :
    durations (samples ++ [x]) name =
      if x.1 = name then durations samples name ++ [x.2] else durations samples name := by
  rw [durations, List.filter_append, List.map_append]
  by_cases hx : x.1 = name
  · rw [if_pos hx, List.filter_cons_of_pos (by simp [hx])]
    rfl
  · rw [if_neg hx, List.filter_cons_of_neg (by simp [hx])]
    exact List.append_nil _

/-- The bucket of a name holds its durations in the order in which they came. -/
theorem getElem?_buckets (samples : List Sample) (name : String) :
    (buckets samples)[name]? =
      if name ∈ samples.map Prod.fst then some (durations samples name) else none := by
  induction samples using List.reverseRecOn with
  | nil => exact Std.HashMap.getElem?_empty
  | append_singleton samples x ih =>
    have step : buckets (samples ++ [x]) = file (buckets samples) x := List.foldl_concat ..
    have names : name ∈ (samples ++ [x]).map Prod.fst ↔ name ∈ samples.map Prod.fst ∨ name = x.1 := by
      rw [List.map_append, List.mem_append]
      exact or_congr_right List.mem_singleton
    rw [step, file, Std.HashMap.getElem?_insert, durations_concat]
    by_cases hx : x.1 = name
    · subst hx
      have before : (buckets samples).getD x.1 [] = durations samples x.1 := by
        rw [Std.HashMap.getD_eq_getD_getElem?, ih]
        split
        · rfl
        · rename_i hnot
          exact (durations_eq_nil_iff.mpr hnot).symm
      rw [if_pos (beq_self_eq_true _), if_pos (names.mpr (.inr rfl)), if_pos rfl, before]
    · rw [if_neg (by simp [hx]), if_neg hx, ih]
      exact if_congr (names.trans (or_iff_left (Ne.symm hx))).symm rfl rfl

/-- The buckets of the samples, in whatever order they are read. -/
theorem lists_of_perm_buckets {bs : List Bucket} (h : bs.Perm (buckets samples).toList) :
    Lists samples bs := by
  have mem_iff : ∀ b : Bucket, b ∈ (buckets samples).toList ↔
      b.1 ∈ samples.map Prod.fst ∧ b.2 = durations samples b.1 := by
    intro b
    rw [← Prod.mk.eta (p := b), Std.HashMap.mem_toList_iff_getElem?_eq_some, getElem?_buckets]
    split
    · rename_i hname
      rw [Option.some.injEq, and_iff_right hname, eq_comm]
    · rename_i hname
      exact iff_of_false (fun h => Option.some_ne_none _ h.symm) fun h => hname h.1
  have read : Lists samples (buckets samples).toList := by
    refine ⟨?_, fun name => ?_, fun b hb => .of_eq ((mem_iff b).mp hb).2⟩
    · rw [List.Nodup, List.pairwise_map]
      exact Std.HashMap.distinct_keys_toList.imp fun h => ne_of_beq_false h
    · rw [List.mem_map]
      constructor
      · rintro ⟨b, hb, rfl⟩
        exact ((mem_iff b).mp hb).1
      · exact fun hname => ⟨(name, durations samples name), (mem_iff _).mpr ⟨hname, rfl⟩, rfl⟩
  exact read.congr (.refl _) h.symm

/-- The buckets that timings read. -/
def read (t : Timings) : List Bucket := t.names.map fun name => (name, t.durationsOf name)

theorem lists_read (samples : List Sample) : Lists samples (ofSamples samples).read := by
  have names : (ofSamples samples).read.map Prod.fst = (ofSamples samples).names := by
    rw [read, List.map_map]
    exact List.map_id _
  refine ⟨?_, fun name => ?_, fun b hb => ?_⟩
  · rw [names]
    exact nodup_eraseDups _
  · rw [names, Timings.names, List.mem_eraseDups, samples_ofSamples, List.map_reverse,
      List.mem_reverse]
  · obtain ⟨name, -, rfl⟩ := List.mem_map.mp hb
    exact durationsOf_ofSamples samples name

theorem rows_eq_rowsOf (t : Timings) : t.rows = rowsOf t.read := by
  have row : ∀ name, (do
      return { name := name, count := t.count name, total := ← t.total name : TimingRow }) =
        rowOf (name, t.durationsOf name) := by
    intro name
    rw [total, rowOf]
    cases Duration.total? (t.durationsOf name) <;> rfl
  rw [rows, rowsOf, read, List.mapM_map, funext row]
  rfl

/-! ## Counts, totals and rows -/

theorem count_ofSamples (samples : List Sample) (name : String) :
    (ofSamples samples).count name = (samples.map Prod.fst).count name := by
  rw [count, (durationsOf_ofSamples samples name).length_eq, length_durations]

/-- The total of a name, which fits into a duration or is a fault. -/
theorem total_ofSamples (samples : List Sample) (name : String) :
    (ofSamples samples).total name =
      if spent samples name < Duration.limit then .ok ⟨spent samples name⟩
      else .error .durationOverflow := by
  rw [total, total?_eq (durationsOf_ofSamples samples name)]
  by_cases h : spent samples name < Duration.limit
  · rw [if_pos h, if_pos h]
  · rw [if_neg h, if_neg h]

theorem rows_ofSamples_eq_ok
    (h : ∀ name ∈ samples.map Prod.fst, spent samples name < Duration.limit) :
    (ofSamples samples).rows = .ok (table samples) := by
  rw [rows_eq_rowsOf, (lists_read samples).rowsOf_eq_ok h]

theorem rows_ofSamples_eq_error
    (h : ∃ name ∈ samples.map Prod.fst, Duration.limit ≤ spent samples name) :
    (ofSamples samples).rows = .error .durationOverflow := by
  rw [rows_eq_rowsOf, (lists_read samples).rowsOf_eq_error h]

/-- Buckets with the samples in another order have the rows of the timings. -/
theorem Lists.rowsOf_eq {bs : List Bucket} (h : Lists samples' bs) (hs : samples'.Perm samples) :
    rowsOf bs = (ofSamples samples).rows := by
  have lists := h.congr hs (.refl _)
  by_cases hfits : ∀ name ∈ samples.map Prod.fst, spent samples name < Duration.limit
  · rw [lists.rowsOf_eq_ok hfits, rows_ofSamples_eq_ok hfits]
  · have hover : ∃ name ∈ samples.map Prod.fst, Duration.limit ≤ spent samples name := by
      push Not at hfits
      exact hfits
    rw [lists.rowsOf_eq_error hover, rows_ofSamples_eq_error hover]

end Samples

end Timings

namespace Session

open Timings

/-- The session with statistics of these samples. -/
def withSamples (s : Session) (samples : List Sample) : Session :=
  { s with timings := some (.ofSamples samples) }

/-- Printing takes nothing from the statistics but their rows. -/
theorem printTimings_congr (s : Session) {t t' : Timings} (h : t.rows = t'.rows) :
    { s with timings := some t }.printTimings.2 = { s with timings := some t' }.printTimings.2 ∧
      { s with timings := some t }.printTimings.1.outputs =
        { s with timings := some t' }.printTimings.1.outputs := by
  rw [printTimings, printTimings]
  simp only [h]
  cases t'.rows with
  | error fault => exact ⟨rfl, rfl⟩
  | ok rows =>
    dsimp only
    generalize broadcastWhileAccepted s.outputs (tableEvents rows) = sent
    obtain ⟨outputs, refusal⟩ := sent
    cases refusal <;> exact ⟨rfl, rfl⟩

/-- The statistics of samples. For each name there are its samples and their exact total, which is a
fault from `2 ^ 64` seconds on. What is printed does not depend on the order of the samples nor on
that in which they are found by name: below a title and a head there is a line for each name with
its samples and their total, by falling totals and then by rising names. Outputs that refuse none
of it get all of it. Where a total does not fit, printing fails and no output gets anything. -/
theorem printTimings_tabulates (s : Session) (samples : List Sample) :
    let t := ofSamples samples
    (∀ name, t.count name = (samples.map Prod.fst).count name ∧
      (∀ total, t.total name = .ok total ↔
        total.nanoseconds = spent samples name ∧ spent samples name < Duration.limit) ∧
      (t.total name = .error .durationOverflow ↔ Duration.limit ≤ spent samples name)) ∧
    (∀ samples', samples'.Perm samples →
      (∀ bs, bs.Perm (buckets samples').toList → rowsOf bs = t.rows) ∧
      (s.withSamples samples').printTimings.2 = (s.withSamples samples).printTimings.2 ∧
      (s.withSamples samples').printTimings.1.outputs =
        (s.withSamples samples).printTimings.1.outputs) ∧
    ((∀ name ∈ samples.map Prod.fst, spent samples name < Duration.limit) →
      ∃ rows, t.rows = .ok rows ∧ Tabulates samples rows ∧
        let printed : List Event := [.text "#### Timing statistics", .newline,
            .text "| Step | Samples | Total time |", .text "|------|---------|------------|"] ++
          rows.map (fun r => .text s!"| {r.name} | {r.count} | {r.total.text} |") ++ [.newline]
        (s.withSamples samples).printTimings.1.outputs =
          (broadcastWhileAccepted s.outputs printed).1 ∧
        ((∀ o ∈ s.outputs, o.Accepts printed) → (s.withSamples samples).printTimings =
          ({ s.withSamples samples with
              outputs := s.outputs.map fun o => o.receiveAll printed }, .ok ()))) ∧
    ((∃ name ∈ samples.map Prod.fst, Duration.limit ≤ spent samples name) →
      (s.withSamples samples).printTimings =
        (s.withSamples samples, .error (.fault .durationOverflow))) := by
  intro t
  refine ⟨fun name => ⟨count_ofSamples samples name, fun total => ?_, ?_⟩,
    fun samples' hs => ⟨fun bs hb => ?_, ?_⟩, fun hfits => ?_, fun hover => ?_⟩
  · rw [total_ofSamples]
    split
    · rename_i hfits
      rw [Except.ok.injEq, and_iff_left hfits]
      exact ⟨fun h => h ▸ rfl, fun h => congrArg Duration.mk h.symm⟩
    · rename_i hover
      exact iff_of_false (fun h => by cases h) fun h => hover h.2
  · rw [total_ofSamples]
    split
    · rename_i hfits
      exact iff_of_false (fun h => by cases h) (Nat.not_le.mpr hfits)
    · rename_i hover
      exact iff_of_true rfl (Nat.le_of_not_lt hover)
  · exact (lists_of_perm_buckets hb).rowsOf_eq hs
  · refine printTimings_congr s ?_
    rw [rows_eq_rowsOf, (lists_read samples').rowsOf_eq hs]
  · have hrows := rows_ofSamples_eq_ok hfits
    exact ⟨table samples, hrows, tabulates_table samples, outputs_printTimings rfl hrows,
      printTimings_of_accepts (s := s.withSamples samples) rfl hrows⟩
  · rw [printTimings, withSamples]
    simp only [rows_ofSamples_eq_error hover]

/-- Four samples of three steps, two of which took the same time in all. -/
def tiedSamples : List Sample :=
  [("search", ⟨7000000⟩), ("load", ⟨2500000⟩), ("clean", ⟨1500⟩), ("load", ⟨4500000⟩)]

/-- Samples of one step that together are a nanosecond too long, and one of another. -/
def longSamples : List Sample :=
  [("load", ⟨Duration.limit - 5⟩), ("clean", ⟨3⟩), ("load", ⟨5⟩)]

/-- The tied steps come in the order of their names. The long samples leave nothing to print. -/
theorem printTimings_tabulates_sample :
    let s : Session := { solver := .new 0 {}, outputs := [.quiet] }
    let bs := (buckets tiedSamples.reverse).toList.reverse
    let rows : List TimingRow :=
      [⟨"load", 2, ⟨7000000⟩⟩, ⟨"search", 1, ⟨7000000⟩⟩, ⟨"clean", 1, ⟨1500⟩⟩]
    tiedSamples.reverse.Perm tiedSamples ∧ bs.Perm (buckets tiedSamples.reverse).toList ∧
      (∀ name ∈ tiedSamples.map Prod.fst, spent tiedSamples name < Duration.limit) ∧
      rowsOf bs = .ok rows ∧ Tabulates tiedSamples rows ∧
      (s.withSamples tiedSamples.reverse).printTimings.1.outputs.map Output.received =
        [#[.text "#### Timing statistics", .newline, .text "| Step | Samples | Total time |",
          .text "|------|---------|------------|", .text "| load | 2 | 7ms |",
          .text "| search | 1 | 7ms |", .text "| clean | 1 | 1.5µs |", .newline]] ∧
      (∃ name ∈ longSamples.map Prod.fst, Duration.limit ≤ spent longSamples name) ∧
      (s.withSamples longSamples).printTimings =
        (s.withSamples longSamples, .error (.fault .durationOverflow)) := by
  intro s bs three
  have fits : ∀ name ∈ tiedSamples.map Prod.fst, spent tiedSamples name < Duration.limit := by
    decide +kernel
  have overflows : ∃ name ∈ longSamples.map Prod.fst, Duration.limit ≤ spent longSamples name := by
    decide +kernel
  have reversed : tiedSamples.reverse.Perm tiedSamples := List.reverse_perm _
  have rows_eq : (ofSamples tiedSamples).rows = .ok three := by decide +kernel
  have accepts : ∀ o ∈ s.outputs, ∀ events, o.Accepts events :=
    List.forall_mem_singleton.mpr (Output.accepts_of_forall fun _ _ => rfl)
  obtain ⟨-, any, made, -⟩ := printTimings_tabulates s tiedSamples
  obtain ⟨rows, hrows, tabulates, -, prints⟩ := made fits
  obtain rfl := Except.ok.inj (rows_eq.symm.trans hrows)
  obtain ⟨read, -, same⟩ := any _ reversed
  obtain ⟨-, -, -, fails⟩ := printTimings_tabulates s longSamples
  refine ⟨reversed, List.reverse_perm _, fits, (read bs (List.reverse_perm _)).trans rows_eq,
    tabulates, ?_, overflows, fails overflows⟩
  rw [same, prints fun o ho => accepts o ho _]
  decide +kernel

end Session

end ParityBlocks
