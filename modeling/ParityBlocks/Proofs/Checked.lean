import Mathlib.Data.List.Forall2
import ParityBlocks.Failure

/-!
# Computations that can fail

What a computation in `Except` that came to a result says about its parts: one
step after another (`bind_eq_ok`, `bind_eq_error`), a map of the result (`map_eq_ok`,
`map_eq_map`), a list element by element (`mapM_eq_ok`, `mapM_eq_error`), which has a
result if each element has one (`exists_forall₂`), and a check of every element
(`forM_eq_ok`). A computation that changes a state in place leaves one also if it fails
(`leaves`).
-/

namespace ParityBlocks.Checked

variable {ε α β : Type}

theorem bind_eq_ok {x : Except ε α} {f : α → Except ε β} {b : β} :
    x >>= f = .ok b ↔ ∃ a, x = .ok a ∧ f a = .ok b := by
  cases x with
  | error e => simp [bind, Except.bind]
  | ok a => simp [bind, Except.bind]

theorem bind_eq_error {x : Except ε α} {f : α → Except ε β} {e : ε} :
    x >>= f = .error e ↔ x = .error e ∨ ∃ a, x = .ok a ∧ f a = .error e := by
  cases x with
  | error e => simp [bind, Except.bind]
  | ok a => simp [bind, Except.bind]

theorem map_eq_ok {x : Except ε α} {f : α → β} {b : β} :
    x.map f = .ok b ↔ ∃ a, x = .ok a ∧ f a = b := by
  cases x with
  | error e => simp [Except.map]
  | ok a => simp [Except.map]

/-- Computations that are the same after a map failed alike, or have results that are. -/
theorem map_eq_map {γ : Type} {x : Except ε α} {y : Except ε β} {f : α → γ} {g : β → γ}
    (h : x.map f = y.map g) :
    (∃ e, x = .error e ∧ y = .error e) ∨ ∃ a b, x = .ok a ∧ y = .ok b ∧ f a = g b := by
  cases x with
  | error e =>
    cases y with
    | error e' => exact .inl ⟨e, rfl, congrArg Except.error (Except.error.inj h).symm⟩
    | ok b => cases h
  | ok a =>
    cases y with
    | error e => cases h
    | ok b => exact .inr ⟨a, b, rfl, rfl, Except.ok.inj h⟩

theorem exists_forall₂ {R : α → β → Prop} {xs : List α} (h : ∀ x ∈ xs, ∃ y, R x y) :
    ∃ ys, List.Forall₂ R xs ys := by
  induction xs with
  | nil => exact ⟨[], .nil⟩
  | cons x xs ih =>
    obtain ⟨⟨y, hy⟩, h⟩ := List.forall_mem_cons.mp h
    obtain ⟨ys, hys⟩ := ih h
    exact ⟨y :: ys, .cons hy hys⟩

theorem mapM_eq_ok {f : α → Except ε β} {xs : List α} {ys : List β} :
    xs.mapM f = .ok ys ↔ List.Forall₂ (fun x y => f x = .ok y) xs ys := by
  induction xs generalizing ys with
  | nil => cases ys <;> simp [pure, Except.pure]
  | cons x xs ih =>
    rw [List.mapM_cons, bind_eq_ok]
    constructor
    · rintro ⟨y, hy, h⟩
      obtain ⟨rest, hr, h⟩ := bind_eq_ok.mp h
      cases h
      exact .cons hy (ih.mp hr)
    · rintro (_ | ⟨hy, hr⟩)
      exact ⟨_, hy, bind_eq_ok.mpr ⟨_, ih.mpr hr, rfl⟩⟩

/-- A list of which an element fails, where all that fail do so alike. -/
theorem mapM_eq_error {f : α → Except ε β} {xs : List α} {e : ε}
    (alike : ∀ x ∈ xs, ∀ e', f x = .error e' → e' = e) (h : ∃ x ∈ xs, f x = .error e) :
    xs.mapM f = .error e := by
  induction xs with
  | nil =>
    obtain ⟨x, hx, -⟩ := h
    cases hx
  | cons x xs ih =>
    obtain ⟨here, later⟩ := List.forall_mem_cons.mp alike
    rw [List.mapM_cons, bind_eq_error]
    cases hx : f x with
    | error e' => exact .inl (congrArg Except.error (here e' hx))
    | ok y =>
      obtain ⟨x', hmem, hx'⟩ := h
      rcases List.mem_cons.mp hmem with rfl | hmem
      · cases hx.symm.trans hx'
      · exact .inr ⟨y, rfl, bind_eq_error.mpr (.inl (ih later ⟨x', hmem, hx'⟩))⟩

theorem forM_eq_ok {f : α → Except ε Unit} {xs : List α} :
    xs.forM f = .ok () ↔ ∀ x ∈ xs, f x = .ok () := by
  induction xs with
  | nil => simp [pure, Except.pure]
  | cons x xs ih =>
    rw [List.forM_eq_forM] at ih ⊢
    rw [List.forM_cons, bind_eq_ok, List.forall_mem_cons, ← ih]
    exact ⟨fun ⟨_, hx, h⟩ => ⟨hx, h⟩, fun ⟨hx, h⟩ => ⟨(), hx, h⟩⟩

/-- A result that passes a test. -/
theorem exists_eq_ok {x : Except ε α} {p : α → Bool} (h : x.toOption.any p = true) :
    ∃ y, x = .ok y ∧ p y = true := by
  cases x with
  | error e => cases h
  | ok y => exact ⟨y, rfl, h⟩

/-! ## Computations that change a state -/

section State

variable {σ : Type} {x : EStateM ε σ α} {s t : σ} {a : α} {e : ε}

/-- The state after a computation, also after one that failed. -/
def leaves (x : EStateM ε σ α) (s : σ) : σ :=
  match x.run s with
  | .ok _ t => t
  | .error _ t => t

/-- The computation fails in this state. -/
def Fails (x : EStateM ε σ α) (s : σ) : Prop := ∃ e t, x.run s = .error e t

theorem leaves_of_ok (h : x.run s = .ok a t) : leaves x s = t := by
  rw [leaves, h]

theorem leaves_of_error (h : x.run s = .error e t) : leaves x s = t := by
  rw [leaves, h]

theorem not_fails_of_ok (h : x.run s = .ok a t) : ¬ Fails x s := by
  rintro ⟨e, u, he⟩
  cases h.symm.trans he

/-- A computation after one that came to a result. -/
theorem run_bind_of_ok {f : α → EStateM ε σ β} (h : x.run s = .ok a t) :
    (x >>= f).run s = (f a).run t := by
  rw [EStateM.run_bind, h]

/-- A failure ends a computation. -/
theorem run_bind_of_error {f : α → EStateM ε σ β} (h : x.run s = .error e t) :
    (x >>= f).run s = .error e t := by
  rw [EStateM.run_bind, h]

end State

end ParityBlocks.Checked
