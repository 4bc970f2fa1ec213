import SolQueue.Lib.Machine

/-!
# Replaying the events of a machine

The outputs of a machine may carry events. An observer who sees nothing but the events can keep a
replica by folding over them; the rules say when the replica stays related to the state, and when
every event agrees with the events before it.

* `Machine.trace`: the events of a log, in order.
* `Machine.replay_run`: a relation between state and replica kept by every committed call holds
  after every run.
* `EachAfter`, `eachAfter_snoc`: every element of a list stands in a relation to those before it.
-/

/-- Every element of the list satisfies `P` of the elements before it. -/
def EachAfter {α : Type*} (P : List α → α → Prop) (l : List α) : Prop :=
  ∀ pre x post, l = pre ++ x :: post → P pre x

theorem eachAfter_nil {α : Type*} {P : List α → α → Prop} : EachAfter P [] := by
  intro pre x post h
  simp at h

/-- A list grows by an element that satisfies `P` of the list so far. -/
theorem eachAfter_snoc {α : Type*} {P : List α → α → Prop} {l : List α} {x : α}
    (h : EachAfter P l) (hx : P l x) : EachAfter P (l ++ [x]) := by
  intro pre y post hsplit
  -- the element asked for is the new one, or stands before it
  rcases List.eq_nil_or_concat post with rfl | ⟨post, z, rfl⟩
  · obtain ⟨rfl, hlast⟩ := List.append_inj' hsplit rfl
    rwa [← List.singleton_inj.mp hlast]
  · rw [List.concat_eq_append, ← List.cons_append, ← List.append_assoc] at hsplit
    exact h pre y post (List.append_inj' hsplit rfl).1

namespace Machine

variable {State Call Out Err Event Replica : Type} {M : Machine State Call Out Err}

/-- The events of a log, in order. -/
def trace (events : Out → List Event) (log : List (Entry State Call Out)) : List Event :=
  log.flatMap fun e => events e.out

theorem trace_snoc {events : Out → List Event} {log : List (Entry State Call Out)}
    {e : Entry State Call Out} : trace events (log ++ [e]) = trace events log ++ events e.out := by
  rw [trace, List.flatMap_append, List.flatMap_singleton]
  rfl

/-- If every committed call keeps a relation between the state and what a fold over its events makes
of the replica, given what is known of the state, the relation holds after every run. -/
theorem replay_run {events : Out → List Event} {apply : Replica → Event → Replica} {r₀ : Replica}
    {I : State → Prop} {P : State → Replica → Prop} (hinv : ∀ calls, I (M.run calls))
    (hinit : P M.init r₀)
    (hstep : ∀ s c s' o r, I s → P s r → M.step s c = .ok (s', o) →
      P s' ((events o).foldl apply r))
    (calls : List Call) :
    P (M.run calls) ((trace events (M.log calls)).foldl apply r₀) := by
  refine log_induction_of_inv (P := fun log s => P s ((trace events log).foldl apply r₀)) hinv
    hinit ?_ calls
  intro log s c s' o hs ih hok
  rw [trace_snoc, List.foldl_append]
  exact hstep s c s' o _ hs ih hok

end Machine
