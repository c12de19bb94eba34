import ParityBlocks.Proofs.Reachable

/-!
# The queue after a search

A search that does not fail leaves one queue entry for each matrix
(`Session.queue_find`), but not all of them are fresh: the first entry that was
left over stays and becomes that of the first matrix (`Search.queueAfter_succ`).
So what an earlier matrix had pending, or that it was disabled, goes away with
every entry but the first.
-/

namespace ParityBlocks

theorem resizeQueue_one (queue : List QueueEntry) :
    resizeQueue 1 queue = [queue.headD .fresh] := by
  cases queue with
  | nil => rfl
  | cons entry rest => simp [resizeQueue]

/-- Growing a queue of one entry and fresh ones adds fresh ones. -/
theorem resizeQueue_cons_replicate (entry : QueueEntry) {m n : Nat} (h : m ≤ n) :
    resizeQueue (n + 1) (entry :: List.replicate m .fresh) =
      entry :: List.replicate n .fresh := by
  rw [resizeQueue, List.take_succ_cons, List.take_replicate, List.length_cons, List.length_replicate,
    List.cons_append, List.replicate_append_replicate]
  congr 2
  omega

namespace Search

theorem queueAfter_zero (queue : List QueueEntry) : queueAfter queue 0 = [] := by
  simp [queueAfter, resizeQueue]

/-- The entry of the first matrix is the first that was left over, if any was. -/
theorem queueAfter_succ (queue : List QueueEntry) (n : Nat) :
    queueAfter queue (n + 1) = queue.headD .fresh :: List.replicate n .fresh := by
  -- the queue after each of the matrices, before the last resizing
  have grown : ∀ m, (List.range (m + 1)).foldl (fun q i => resizeQueue (i + 1) q) queue =
      queue.headD .fresh :: List.replicate m .fresh := by
    intro m
    induction m with
    | zero => exact resizeQueue_one queue
    | succ m ih =>
      rw [List.range_succ, List.foldl_append, ih]
      exact resizeQueue_cons_replicate _ (Nat.le_succ m)
  rw [queueAfter, grown]
  exact resizeQueue_cons_replicate _ (Nat.le_refl n)

end Search

namespace Session

open Search

variable {s : Session} {elapsed : Duration}

/-- The queue after a search that does not fail. -/
theorem queue_find (hc : s.solver.consistent = true) (hm : s.solver.matrices = []) {report : Report}
    (hok : (s.find elapsed).2 = .ok report) :
    (s.find elapsed).1.solver.queue =
      queueAfter s.solver.queue (s.find elapsed).1.solver.matrices.length := by
  have ends := ends_find hc hm elapsed
  generalize (s.find elapsed).1.solver = t at ends ⊢
  rw [hok] at ends
  cases ends with
  | skipped => rw [hm, List.length_nil, queueAfter_zero]
  | divided => rfl

/-- A search that does not fail leaves one queue entry for each matrix. All of
them are fresh if there is no matrix, or nothing was left over in the queue, or
the first entry left over was fresh, and only then. -/
theorem find_queue_fresh_iff (hc : s.solver.consistent = true) (hm : s.solver.matrices = [])
    {report : Report} (hok : (s.find elapsed).2 = .ok report) :
    (s.find elapsed).1.solver.queue.length = (s.find elapsed).1.solver.matrices.length ∧
      ((∀ entry ∈ (s.find elapsed).1.solver.queue, entry = .fresh) ↔
        (s.find elapsed).1.solver.matrices = [] ∨ s.solver.queue = [] ∨
          s.solver.queue.head? = some .fresh) := by
  rw [queue_find hc hm hok]
  cases hn : (s.find elapsed).1.solver.matrices with
  | nil =>
    rw [List.length_nil, queueAfter_zero]
    exact ⟨rfl, fun _ => .inl rfl, fun _ => nofun⟩
  | cons m ms =>
    rw [List.length_cons, queueAfter_succ, List.length_cons, List.length_replicate]
    refine ⟨rfl, ?_⟩
    have fresh : ∀ entry ∈ List.replicate ms.length QueueEntry.fresh, entry = .fresh :=
      fun _ h => List.eq_of_mem_replicate h
    rw [List.forall_mem_cons, and_iff_left fresh]
    cases s.solver.queue with
    | nil => simp
    | cons entry rest => simp

/-- The sample with entries left over in the queue. -/
def sampleWithQueue (queue : List QueueEntry) : Session :=
  { sample with solver := { sample.solver with queue := queue } }

theorem find_queue_fresh_iff_sample :
    let s := sampleWithQueue [.fresh, ⟨[3], true⟩]
    s.solver.consistent = true ∧ s.solver.matrices = [] ∧
      (∃ report, (s.find .zero).2 = .ok report) ∧
      (s.find .zero).1.solver.queue.length = (s.find .zero).1.solver.matrices.length ∧
        ((∀ entry ∈ (s.find .zero).1.solver.queue, entry = .fresh) ↔
          (s.find .zero).1.solver.matrices = [] ∨ s.solver.queue = [] ∨
            s.solver.queue.head? = some .fresh) := by
  intro s
  have h : ((s.find .zero).2.toOption.any fun _ => true) = true := by decide +kernel
  obtain ⟨report, hok, -⟩ := Checked.exists_eq_ok h
  exact ⟨consistent_sample, matrices_sample, ⟨report, hok⟩,
    find_queue_fresh_iff consistent_sample matrices_sample hok⟩

/-- An entry that an earlier matrix left over becomes that of a new matrix. -/
theorem find_keeps_stale_entry :
    let s := sampleWithQueue [⟨[3], true⟩]
    s.solver.consistent = true ∧ s.solver.matrices = [] ∧
      ((s.find .zero).2.toOption.any fun _ => true) = true ∧
      ¬ ((s.find .zero).1.solver.queue.length = (s.find .zero).1.solver.matrices.length ∧
        ∀ entry ∈ (s.find .zero).1.solver.queue, entry = .fresh) := by
  decide +kernel

end Session

end ParityBlocks
