import SolQueue.Lib.Machine

/-!
# Symmetries of a machine

A map of states is a symmetry for some calls if these commute with it. Such calls cannot tell a
state from its image: from both they give the same results, and they lead to a state and its image.

* `Machine.results`: what each call gives.
* `Machine.Symmetry`: calls commute with a map, in the states where an invariant holds.
* `Machine.Symmetry.runFrom_map`, `Machine.Symmetry.results_map`: whole lists of calls do.
-/

namespace Machine

variable {State Call Out Err : Type}

/-- What each of a list of calls from `s` gives, in order: its output or the error it is rejected
with. -/
def results (M : Machine State Call Out Err) (s : State) : List Call → List (Except Err Out)
  | [] => []
  | c :: calls => Prod.snd <$> M.step s c :: results M (M.next s c) calls

/-- In the states where `P` holds, the calls where `Q` holds commute with `f`. -/
structure Symmetry (M : Machine State Call Out Err) (f : State → State) (P : State → Prop)
    (Q : Call → Prop) : Prop where
  /-- Committed calls keep the invariant. -/
  keep : ∀ {s c s' o}, P s → M.step s c = .ok (s', o) → P s'
  /-- A call gives the same from a state and from its image, up to the map. -/
  step : ∀ {s c}, P s → Q c → M.step (f s) c = Prod.map f id <$> M.step s c

namespace Symmetry

variable {M : Machine State Call Out Err} {f : State → State} {P : State → Prop}
  {Q : Call → Prop} {s : State} {c : Call} {calls : List Call}

/-- One attempted call leads to a state and its image. -/
theorem next_map (h : M.Symmetry f P Q) (hs : P s) (hc : Q c) :
    M.next (f s) c = f (M.next s c) := by
  have hstep := h.step hs hc
  cases hok : M.step s c with
  | error e =>
    rw [hok] at hstep
    rw [next_of_error hok, next_of_error hstep]
  | ok r =>
    rw [hok] at hstep
    rw [next_of_ok hok, next_of_ok hstep]

/-- An attempted call keeps the invariant. -/
theorem next_keep (h : M.Symmetry f P Q) (hs : P s) : P (M.next s c) := by
  cases hok : M.step s c with
  | error e => rwa [next_of_error hok]
  | ok r =>
    rw [next_of_ok hok]
    exact h.keep hs hok

/-- Calls that commute with a map lead to a state and its image. -/
theorem runFrom_map (h : M.Symmetry f P Q) (hs : P s) (hcalls : ∀ c ∈ calls, Q c) :
    M.runFrom (f s) calls = f (M.runFrom s calls) := by
  induction calls generalizing s with
  | nil => rfl
  | cons c calls ih =>
    rw [List.forall_mem_cons] at hcalls
    rw [runFrom, List.foldl_cons, h.next_map hs hcalls.1]
    exact ih (h.next_keep hs) hcalls.2

/-- Calls that commute with a map give the same results from a state and from its image. -/
theorem results_map (h : M.Symmetry f P Q) (hs : P s) (hcalls : ∀ c ∈ calls, Q c) :
    M.results (f s) calls = M.results s calls := by
  induction calls generalizing s with
  | nil => rfl
  | cons c calls ih =>
    rw [List.forall_mem_cons] at hcalls
    have hfirst : Prod.snd <$> M.step (f s) c = Prod.snd <$> M.step s c := by
      rw [h.step hs hcalls.1, Functor.map_map]
      rfl
    rw [results, results, hfirst, h.next_map hs hcalls.1, ih (h.next_keep hs) hcalls.2]

end Symmetry

end Machine
