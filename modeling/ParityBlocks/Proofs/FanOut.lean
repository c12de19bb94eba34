import ParityBlocks.Proofs.Delivery

/-!
# Outputs do not disturb each other

A log is a loop over its outputs: each is told the event, also after one before it has refused,
and the first refusal is kept. `relay` is that loop for listeners of any kind, and `broadcast` is
the loop for outputs (`broadcast_eq_relay`). `feed` tells a listener, or a whole log, events one
after the other.

One turn of the loop tells every listener the event once and answers with the first refusal
(`relay_eq`). So, by induction on the events, every listener ends where it ends alone
(`feed_relay`), and each call answers with the first refusal that a listener alone would have
given (`feed_relay_answer`). A listener may be a machine with states of its own (`Receiver`), and
an output stands for a machine if it answers as that one does. So the log does for machines what
it does for outputs (`feed_broadcast_isolates`).
-/

namespace ParityBlocks

universe u

/-- Tells events one after the other: what they make of the listener, and its answers. -/
def feed {α : Type u} (tell : α → Event → α × Option String) :
    α → List Event → α × List (Option String)
  | a, [] => (a, [])
  | a, e :: es =>
    let rest := feed tell (tell a e).1 es
    (rest.1, (tell a e).2 :: rest.2)

/-- Tells each of the listeners an event, in order and whatever they answer, and keeps the first
refusal. -/
def relay {α : Type u} (tell : α → Event → α × Option String) (listeners : List α) (e : Event) :
    List α × Option String :=
  listeners.foldl (fun told l => (told.1 ++ [(tell l e).1], told.2.or (tell l e).2)) ([], none)

/-! ## Any listeners -/

section Listeners

variable {α : Type u} {tell : α → Event → α × Option String}

theorem length_feed (a : α) (es : List Event) : (feed tell a es).2.length = es.length := by
  induction es generalizing a with
  | nil => rfl
  | cons e es ih => exact congrArg Nat.succ (ih _)

theorem getElem?_feed_eq_none (a : α) {es : List Event} {k : Nat} (hk : ¬ k < es.length) :
    (feed tell a es).2[k]? = none :=
  List.getElem?_eq_none (by rw [length_feed]; exact Nat.le_of_not_lt hk)

theorem feed_append (a : α) (es es' : List Event) :
    (feed tell a (es ++ es')).1 = (feed tell (feed tell a es).1 es').1 := by
  induction es generalizing a with
  | nil => rfl
  | cons e es ih => exact ih _

/-- The loop from any place, with some listeners told and perhaps a refusal kept. -/
theorem foldl_relay (listeners told : List α) (first : Option String) (e : Event) :
    listeners.foldl (fun told l => (told.1 ++ [(tell l e).1], told.2.or (tell l e).2))
        (told, first) =
      (told ++ listeners.map fun l => (tell l e).1,
        first.or (listeners.findSome? fun l => (tell l e).2)) := by
  induction listeners generalizing told first with
  | nil => simp
  | cons l ls ih =>
    rw [List.foldl_cons, ih, List.map_cons, List.append_assoc, List.singleton_append,
      List.findSome?_cons]
    cases first with
    | some refusal => rfl
    | none => cases (tell l e).2 <;> rfl

theorem relay_eq (listeners : List α) (e : Event) :
    relay tell listeners e =
      (listeners.map fun l => (tell l e).1, listeners.findSome? fun l => (tell l e).2) := by
  rw [relay, foldl_relay, List.nil_append, Option.none_or]

/-- A listener that is the only one is told what it is told without a log. -/
theorem feed_relay_singleton (l : α) (es : List Event) :
    feed (relay tell) [l] es = ([(feed tell l es).1], (feed tell l es).2) := by
  induction es generalizing l with
  | nil => rfl
  | cons e es ih =>
    have told : relay tell [l] e = ([(tell l e).1], (tell l e).2) := by
      rw [relay_eq, List.findSome?_singleton]
      rfl
    simp only [feed, told, ih]

/-- Every listener ends where it ends alone. -/
theorem feed_relay (listeners : List α) (es : List Event) :
    (feed (relay tell) listeners es).1 = listeners.map fun l => (feed tell l es).1 := by
  induction es generalizing listeners with
  | nil => exact (List.map_id' listeners).symm
  | cons e es ih =>
    rw [feed, ih, relay_eq, List.map_map]
    rfl

/-- Each call answers with the first refusal that a listener alone would have given. -/
theorem feed_relay_answer (listeners : List α) (es : List Event) {k : Nat} (hk : k < es.length) :
    (feed (relay tell) listeners es).2[k]? =
      some (listeners.findSome? fun l => (feed tell l es).2[k]?.join) := by
  induction es generalizing listeners k with
  | nil => exact absurd hk (Nat.not_lt_zero k)
  | cons e es ih =>
    cases k with
    | zero =>
      simp only [feed, relay_eq, List.getElem?_cons_zero, Option.join_some]
    | succ k =>
      simp only [feed, List.getElem?_cons_succ]
      rw [ih _ (Nat.lt_of_succ_lt_succ hk), relay_eq, List.findSome?_map]
      rfl

/-- What telling listeners together comes to: each is where it is alone after all events, and the
answer to a call is the first refusal of that event, in the order of the listeners. -/
structure Isolates (tell : α → Event → α × Option String) (listeners : List α)
    (events : List Event) (sent : List α × List (Option String)) : Prop where
  listeners_eq : sent.1 = listeners.map fun l => (feed tell l events).1
  length_answers : sent.2.length = events.length
  refused_iff (k : Nat) (refusal : String) :
    sent.2[k]? = some (some refusal) ↔
      ∃ before l after, listeners = before ++ l :: after ∧
        (feed tell l events).2[k]? = some (some refusal) ∧
          ∀ m ∈ before, (feed tell m events).2[k]? = some none
  accepted_iff (k : Nat) :
    sent.2[k]? = some none ↔
      k < events.length ∧ ∀ l ∈ listeners, (feed tell l events).2[k]? = some none

/-- There is an answer to each event, so one that is no refusal accepts. -/
theorem join_answer_eq_none_iff {l : α} {events : List Event} {k : Nat} (hk : k < events.length) :
    (feed tell l events).2[k]?.join = none ↔ (feed tell l events).2[k]? = some none := by
  rw [List.getElem?_eq_getElem (by rwa [length_feed])]
  simp

theorem isolates_relay (listeners : List α) (events : List Event) :
    Isolates tell listeners events (feed (relay tell) listeners events) := by
  refine ⟨feed_relay _ _, length_feed _ _, fun k refusal => ?_, fun k => ?_⟩
  · by_cases hk : k < events.length
    · rw [feed_relay_answer _ _ hk, Option.some.injEq, List.findSome?_eq_some_iff]
      simp only [Option.join_eq_some_iff, join_answer_eq_none_iff hk]
    · simp [getElem?_feed_eq_none _ hk]
  · by_cases hk : k < events.length
    · rw [feed_relay_answer _ _ hk, Option.some.injEq, List.findSome?_eq_none_iff]
      simp only [join_answer_eq_none_iff hk, hk, true_and]
    · simp [getElem?_feed_eq_none _ hk, hk]

end Listeners

/-! ## Outputs and the machines they stand for -/

namespace Output

/-- Tells an output an event. -/
def tell (o : Output) (e : Event) : Output × Option String := (o.receive e, o.answer e)

theorem feed_tell (o : Output) (es : List Event) : (feed tell o es).1 = o.receiveAll es := by
  induction es generalizing o with
  | nil => exact o.receiveAll_nil.symm
  | cons e es ih => rw [feed, ih, tell, receiveAll_cons]

end Output

theorem broadcast_eq_relay : broadcast = relay Output.tell := by
  funext outputs e
  rw [relay_eq]
  rfl

/-- A listener with states of its own: the one it is in, and where an event leads from a state,
with the refusal if it refuses there. -/
structure Receiver where
  State : Type
  state : State
  step : State → Event → State × Option String

namespace Receiver

/-- Tells a receiver an event. -/
def tell (r : Receiver) (e : Event) : Receiver × Option String :=
  ({ r with state := (r.step r.state e).1 }, (r.step r.state e).2)

/-- The output that finds out from what it has received in which state the receiver is. -/
def output (r : Receiver) : Output where
  refusal history e := ((feed tell r history.toList).1.tell e).2

end Receiver

/-- Whatever events they get, the output answers as the receiver does. -/
def Output.StandsFor (o : Output) (r : Receiver) : Prop :=
  ∀ es, (feed Output.tell o es).2 = (feed Receiver.tell r es).2

/-- An output that was made for a receiver answers from any point on as the receiver does. -/
theorem Receiver.receiveAll_output_standsFor (r : Receiver) (past : List Event) :
    (r.output.receiveAll past).StandsFor (feed Receiver.tell r past).1 := by
  intro es
  induction es generalizing past with
  | nil => rfl
  | cons e es ih =>
    have received : (r.output.receiveAll past).receive e = r.output.receiveAll (past ++ [e]) := by
      simp [Output.receiveAll, Output.receive]
    have answer : (r.output.receiveAll past).answer e =
        ((feed Receiver.tell r past).1.tell e).2 := by
      simp [Output.receiveAll, Output.answer, Receiver.output]
    have next := ih (past ++ [e])
    rw [feed_append] at next
    simp only [feed, Output.tell, received, answer] at next ⊢
    rw [next]

theorem Receiver.output_standsFor (r : Receiver) : r.output.StandsFor r := by
  have h := r.receiveAll_output_standsFor []
  rwa [Output.receiveAll_nil] at h

/-- Outputs answer to the calls of a log as the receivers do for which they stand. -/
theorem answers_eq_of_standsFor {outputs : List Output} {rs : List Receiver}
    (h : List.Forall₂ Output.StandsFor outputs rs) (events : List Event) :
    (feed (relay Receiver.tell) rs events).2 = (feed (relay Output.tell) outputs events).2 := by
  have same : rs.map (fun r => (feed Receiver.tell r events).2) =
      outputs.map fun o => (feed Output.tell o events).2 := by
    induction h with
    | nil => rfl
    | cons ho _ ih => rw [List.map_cons, List.map_cons, ih, ho events]
  refine List.ext_getElem? fun k => ?_
  by_cases hk : k < events.length
  · have first := congrArg (List.findSome? fun answers => answers[k]?.join) same
    rw [List.findSome?_map, List.findSome?_map] at first
    rw [feed_relay_answer _ _ hk, feed_relay_answer _ _ hk]
    exact congrArg some first
  · rw [getElem?_feed_eq_none _ hk, getElem?_feed_eq_none _ hk]

/-- Every output of a log gets all events in order and ends where it ends as the only output, and
each call answers with the first refusal of its event. The same holds of the machines that the
outputs stand for, and the calls answer as they do for these. -/
theorem feed_broadcast_isolates (outputs : List Output) (events : List Event) :
    let sent := feed broadcast outputs events
    Isolates Output.tell outputs events sent ∧
      sent.1 = outputs.map (fun o => o.receiveAll events) ∧
      (∀ o, feed broadcast [o] events =
        ([(feed Output.tell o events).1], (feed Output.tell o events).2)) ∧
      ∀ rs, List.Forall₂ Output.StandsFor outputs rs →
        Isolates Receiver.tell rs events (feed (relay Receiver.tell) rs events) ∧
          (feed (relay Receiver.tell) rs events).2 = sent.2 := by
  rw [broadcast_eq_relay]
  refine ⟨isolates_relay _ _, ?_, fun o => feed_relay_singleton o _, fun rs h => ?_⟩
  · simp only [feed_relay, Output.feed_tell]
  · exact ⟨isolates_relay _ _, answers_eq_of_standsFor h _⟩

/-- A receiver that refuses texts and statuses, one that only counts, and one that refuses all
that comes after its first event. -/
def sampleReceivers : List Receiver :=
  [{ State := Unit, state := ()
     step := fun _ e => match e with
       | .text _ | .status _ => ((), some "first is broken")
       | _ => ((), none) },
    { State := Nat, state := 0, step := fun n _ => (n + 1, none) },
    { State := Bool, state := false
      step := fun full _ => (true, if full then some "second is full" else none) }]

/-- An event of each kind. -/
def sampleEvents : List Event :=
  [.newline, .text "hello", .matrix (.ofRows 0 []), .status .unsatisfiable, .report {}]

theorem feed_broadcast_isolates_sample :
    let outputs := sampleReceivers.map Receiver.output
    let sent := feed broadcast outputs sampleEvents
    List.Forall₂ Output.StandsFor outputs sampleReceivers ∧
      Isolates Output.tell outputs sampleEvents sent ∧
      (feed (relay Receiver.tell) sampleReceivers sampleEvents).2 = sent.2 ∧
      sent.2 = [none, some "first is broken", some "second is full", some "first is broken",
        some "second is full"] := by
  intro outputs sent
  have standsFor : List.Forall₂ Output.StandsFor outputs sampleReceivers := by
    rw [List.forall₂_map_left_iff, List.forall₂_same]
    exact fun r _ => r.output_standsFor
  obtain ⟨isolates, -, -, machines⟩ := feed_broadcast_isolates outputs sampleEvents
  obtain ⟨-, answers⟩ := machines sampleReceivers standsFor
  exact ⟨standsFor, isolates, answers, by decide +kernel⟩

end ParityBlocks
