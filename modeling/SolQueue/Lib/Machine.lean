import Mathlib.Data.List.Basic
import Mathlib.Tactic.Common

/-!
# Machines that accept or reject calls

A `Machine` starts in one state and is driven by calls. A call either commits, moving to a new
state and giving an output, or is rejected with an error and leaves the state as it was. A run is
any list of calls, in any order; its log lists the calls that committed, each with the states
around it.

* `Machine.run_append`, `Machine.log_append`: a run is its parts one after the other.
* `Machine.log_induction`: what holds initially and is kept by every committed call, given the
  log so far, holds of the log and final state of every run.
* `Machine.log_induction_of_inv`, `Machine.run_induction`: the same with an invariant to use, and
  for a property of the state alone.
* `Machine.mem_logFrom`, `Machine.logFrom_eq_append_cons`: where an entry of a log stands in its
  run.
-/

/-- A machine with a start state whose step accepts or rejects each call. -/
structure Machine (State Call Out Err : Type) where
  /-- The state every run starts from. -/
  init : State
  /-- One attempted call. -/
  step : State → Call → Except Err (State × Out)

namespace Machine

/-- A committed call, with the states before and after it. -/
structure Entry (State Call Out : Type) where
  before : State
  call : Call
  out : Out
  after : State

variable {State Call Out Err : Type} (M : Machine State Call Out Err)

/-- The state after one attempted call: rejected calls change nothing. -/
def next (s : State) (c : Call) : State :=
  match M.step s c with
  | .ok (s', _) => s'
  | .error _ => s

/-- The state a list of calls leads to from `s`. -/
def runFrom (s : State) (calls : List Call) : State :=
  calls.foldl M.next s

/-- The committed calls of a list of calls from `s`, in order. -/
def logFrom (s : State) : List Call → List (Entry State Call Out)
  | [] => []
  | c :: calls =>
    match M.step s c with
    | .ok (s', o) => ⟨s, c, o, s'⟩ :: logFrom s' calls
    | .error _ => logFrom s calls

/-- The state a run leads to. -/
def run (calls : List Call) : State :=
  M.runFrom M.init calls

/-- The committed calls of a run, in order. -/
def log (calls : List Call) : List (Entry State Call Out) :=
  M.logFrom M.init calls

variable {M} {s s' : State} {c : Call} {o : Out} {calls calls' : List Call}

/-! ## One call -/

theorem next_of_ok (h : M.step s c = .ok (s', o)) : M.next s c = s' := by
  rw [next, h]

theorem next_of_error {e : Err} (h : M.step s c = .error e) : M.next s c = s := by
  rw [next, h]

theorem logFrom_cons_of_ok (h : M.step s c = .ok (s', o)) :
    M.logFrom s (c :: calls) = ⟨s, c, o, s'⟩ :: M.logFrom s' calls := by
  rw [logFrom, h]

theorem logFrom_cons_of_error {e : Err} (h : M.step s c = .error e) :
    M.logFrom s (c :: calls) = M.logFrom s calls := by
  rw [logFrom, h]

/-! ## Runs one after the other -/

@[simp]
theorem run_nil : M.run [] = M.init := rfl

theorem runFrom_append :
    M.runFrom s (calls ++ calls') = M.runFrom (M.runFrom s calls) calls' :=
  List.foldl_append

theorem logFrom_append :
    M.logFrom s (calls ++ calls') = M.logFrom s calls ++ M.logFrom (M.runFrom s calls) calls' := by
  induction calls generalizing s with
  | nil => rfl
  | cons c calls ih =>
    rw [List.cons_append, runFrom, List.foldl_cons]
    cases h : M.step s c with
    | error e =>
      rw [logFrom_cons_of_error h, logFrom_cons_of_error h, next_of_error h]
      exact ih
    | ok r =>
      rw [logFrom_cons_of_ok h, logFrom_cons_of_ok h, next_of_ok h, List.cons_append]
      exact congrArg _ ih

theorem run_append : M.run (calls ++ calls') = M.runFrom (M.run calls) calls' :=
  runFrom_append

theorem log_append : M.log (calls ++ calls') = M.log calls ++ M.logFrom (M.run calls) calls' :=
  logFrom_append

theorem run_snoc : M.run (calls ++ [c]) = M.next (M.run calls) c :=
  runFrom_append

/-- A run extended by a call that commits ends in the state it moves to. -/
theorem run_snoc_of_ok (h : M.step (M.run calls) c = .ok (s', o)) : M.run (calls ++ [c]) = s' := by
  rw [run_snoc, next_of_ok h]

/-- A run goes on from the state a committed call moves to. -/
theorem run_append_cons_of_ok (h : M.step (M.run calls) c = .ok (s', o)) :
    M.run (calls ++ c :: calls') = M.runFrom s' calls' := by
  rw [List.append_cons, run_append, run_snoc_of_ok h]

/-- A run extended by a call that commits has its entry as the last one of its log. -/
theorem log_snoc_of_ok (h : M.step (M.run calls) c = .ok (s', o)) :
    M.log (calls ++ [c]) = M.log calls ++ [⟨M.run calls, c, o, s'⟩] := by
  rw [log_append, logFrom_cons_of_ok h, logFrom]

/-- A run extended by a rejected call ends where it ended before. -/
theorem run_snoc_of_error {e : Err} (h : M.step (M.run calls) c = .error e) :
    M.run (calls ++ [c]) = M.run calls := by
  rw [run_snoc, next_of_error h]

/-- A run extended by a rejected call keeps its log. -/
theorem log_snoc_of_error {e : Err} (h : M.step (M.run calls) c = .error e) :
    M.log (calls ++ [c]) = M.log calls := by
  rw [log_append, logFrom_cons_of_error h, logFrom, List.append_nil]

/-! ## Induction along a run -/

/-- A relation between the log so far and the state, kept by every committed call, holds after
every list of calls. -/
theorem logFrom_induction {P : List (Entry State Call Out) → State → Prop}
    (hstep : ∀ l s c s' o, P l s → M.step s c = .ok (s', o) → P (l ++ [⟨s, c, o, s'⟩]) s') :
    ∀ (calls : List Call) (l : List (Entry State Call Out)) (s : State), P l s →
      P (l ++ M.logFrom s calls) (M.runFrom s calls)
  -- the log so far is an argument, so that the recursion can be on the calls still to come
  | [], l, s, h => by simpa [logFrom, runFrom] using h
  | c :: calls, l, s, h => by
    rw [runFrom, List.foldl_cons]
    cases hc : M.step s c with
    | error e =>
      rw [logFrom_cons_of_error hc, next_of_error hc]
      exact logFrom_induction hstep calls l s h
    | ok r =>
      rw [logFrom_cons_of_ok hc, next_of_ok hc, List.append_cons]
      exact logFrom_induction hstep calls _ _ (hstep l s c r.1 r.2 h hc)

/-- What holds of the empty log and the start state, and is kept by every committed call, holds of
the log and final state of every run. -/
theorem log_induction {P : List (Entry State Call Out) → State → Prop} (hinit : P [] M.init)
    (hstep : ∀ l s c s' o, P l s → M.step s c = .ok (s', o) → P (l ++ [⟨s, c, o, s'⟩]) s')
    (calls : List Call) : P (M.log calls) (M.run calls) :=
  logFrom_induction hstep calls [] M.init hinit

/-- The same, where what is known of the final state of every run may be used of the state before
each call. -/
theorem log_induction_of_inv {I : State → Prop} {P : List (Entry State Call Out) → State → Prop}
    (hinv : ∀ calls, I (M.run calls)) (hinit : P [] M.init)
    (hstep : ∀ l s c s' o, I s → P l s → M.step s c = .ok (s', o) → P (l ++ [⟨s, c, o, s'⟩]) s')
    (calls : List Call) : P (M.log calls) (M.run calls) := by
  -- the induction carries along that the state is reached by a run
  refine (log_induction (P := fun l s => P l s ∧ ∃ calls, M.run calls = s) ⟨hinit, [], rfl⟩ ?_
    calls).1
  rintro l _ c s' o ⟨hl, calls, rfl⟩ hok
  exact ⟨hstep l _ c s' o (hinv calls) hl hok, calls ++ [c], run_snoc_of_ok hok⟩

/-- A property of the state kept by every committed call holds after every list of calls. -/
theorem runFrom_induction {P : State → Prop}
    (hstep : ∀ s c s' o, P s → M.step s c = .ok (s', o) → P s') (h : P s) (calls : List Call) :
    P (M.runFrom s calls) :=
  logFrom_induction (P := fun _ s => P s) (fun _ => hstep) calls [] s h

/-- A property of the state kept by every committed call of some kind holds as long as only calls of
that kind commit. -/
theorem runFrom_induction_of_log {P : State → Prop} {Q : Entry State Call Out → Prop}
    (hstep : ∀ s c s' o, P s → M.step s c = .ok (s', o) → Q ⟨s, c, o, s'⟩ → P s') (h : P s)
    (calls : List Call) (hlog : ∀ e ∈ M.logFrom s calls, Q e) : P (M.runFrom s calls) := by
  refine logFrom_induction (P := fun log s => (∀ e ∈ log, Q e) → P s) ?_ calls [] s
    (fun _ => h) hlog
  intro log s c s' o ih hok hlog
  exact hstep s c s' o (ih fun e he => hlog e (List.mem_append_left _ he)) hok
    (hlog _ (List.mem_append_right _ List.mem_cons_self))

/-- An invariant holds in the final state of every run. -/
theorem run_induction {P : State → Prop} (hinit : P M.init)
    (hstep : ∀ s c s' o, P s → M.step s c = .ok (s', o) → P s') (calls : List Call) :
    P (M.run calls) :=
  runFrom_induction hstep hinit calls

/-! ## Entries of a log -/

/-- Every entry of a log is a committed call of the run, made in the state the calls before it
lead to. -/
theorem logFrom_eq_append_cons {pre post : List (Entry State Call Out)}
    {e : Entry State Call Out} (h : M.logFrom s calls = pre ++ e :: post) :
    ∃ calls₁ calls₂, calls = calls₁ ++ e.call :: calls₂ ∧ M.logFrom s calls₁ = pre ∧
      M.runFrom s calls₁ = e.before ∧ M.step e.before e.call = .ok (e.after, e.out) ∧
      M.logFrom e.after calls₂ = post := by
  induction calls generalizing s pre with
  | nil => simp [logFrom] at h
  | cons c calls ih =>
    cases hc : M.step s c with
    | error err =>
      -- a rejected call leaves no entry: the split is one of the calls after it
      rw [logFrom_cons_of_error hc] at h
      obtain ⟨calls₁, calls₂, rfl, hpre, hbefore, hrest⟩ := ih h
      refine ⟨c :: calls₁, calls₂, rfl, ?_, ?_, hrest⟩
      · rw [logFrom_cons_of_error hc, hpre]
      · rwa [runFrom, List.foldl_cons, next_of_error hc]
    | ok r =>
      rw [logFrom_cons_of_ok hc] at h
      -- the entry asked for is the first one, or stands among the later ones
      cases pre with
      | nil =>
        simp only [List.nil_append, List.cons.injEq] at h
        obtain ⟨rfl, rfl⟩ := h
        exact ⟨[], calls, rfl, rfl, rfl, hc, rfl⟩
      | cons p pre =>
        simp only [List.cons_append, List.cons.injEq] at h
        obtain ⟨rfl, h⟩ := h
        obtain ⟨calls₁, calls₂, rfl, hpre, hbefore, hrest⟩ := ih h
        refine ⟨c :: calls₁, calls₂, rfl, ?_, ?_, hrest⟩
        · rw [logFrom_cons_of_ok hc, hpre]
        · rwa [runFrom, List.foldl_cons, next_of_ok hc]

/-- Every entry of a log is a committed call that takes the calls from one state they went through
to the next. -/
theorem mem_logFrom {e : Entry State Call Out} (h : e ∈ M.logFrom s calls) :
    ∃ calls₁, calls₁ ++ [e.call] <+: calls ∧ M.runFrom s calls₁ = e.before ∧
      M.runFrom s (calls₁ ++ [e.call]) = e.after ∧
      M.step e.before e.call = .ok (e.after, e.out) := by
  obtain ⟨pre, post, h⟩ := List.append_of_mem h
  obtain ⟨calls₁, calls₂, rfl, -, hbefore, hstep, -⟩ := logFrom_eq_append_cons h
  refine ⟨calls₁, ⟨calls₂, by simp⟩, hbefore, ?_, hstep⟩
  rw [runFrom_append, hbefore]
  exact next_of_ok hstep

/-- A log around its entry at a place. -/
theorem eq_take_append_cons {log : List (Entry State Call Out)} {e : Entry State Call Out} {i : ℕ}
    (h : log[i]? = some e) : log = log.take i ++ e :: log.drop (i + 1) := by
  obtain ⟨hi, rfl⟩ := List.getElem?_eq_some_iff.mp h
  rw [← List.drop_eq_getElem_cons hi, List.take_append_drop]

/-- A committed call is one of the calls made. -/
theorem call_mem_of_mem_logFrom {e : Entry State Call Out} (h : e ∈ M.logFrom s calls) :
    e.call ∈ calls := by
  obtain ⟨calls₁, hprefix, -⟩ := mem_logFrom h
  exact hprefix.subset (List.mem_append_right _ List.mem_cons_self)

/-- The committed calls are some of the calls made, in the order they were made. -/
theorem map_call_logFrom_sublist : ((M.logFrom s calls).map (·.call)).Sublist calls := by
  induction calls generalizing s with
  | nil => exact List.Sublist.slnil
  | cons c calls ih =>
    cases h : M.step s c with
    | error e =>
      rw [logFrom_cons_of_error h]
      exact ih.cons c
    | ok r =>
      rw [logFrom_cons_of_ok h, List.map_cons]
      exact ih.cons_cons c

/-- Where an entry stands in the log of a run. -/
theorem log_eq_append_cons {pre post : List (Entry State Call Out)} {e : Entry State Call Out}
    (h : M.log calls = pre ++ e :: post) :
    ∃ calls₁ calls₂, calls = calls₁ ++ e.call :: calls₂ ∧ M.log calls₁ = pre ∧
      M.run calls₁ = e.before ∧ M.step e.before e.call = .ok (e.after, e.out) ∧
      M.logFrom e.after calls₂ = post :=
  logFrom_eq_append_cons h

/-- The log of the first calls is the first part of the log. -/
theorem mem_logFrom_of_prefix {e : Entry State Call Out} (hcalls : calls' <+: calls)
    (h : e ∈ M.logFrom s calls') : e ∈ M.logFrom s calls := by
  obtain ⟨rest, rfl⟩ := hcalls
  rw [logFrom_append]
  exact List.mem_append_left _ h

/-- The log of the first calls of a run is the first part of its log. -/
theorem mem_log_of_prefix {e : Entry State Call Out} (hcalls : calls' <+: calls)
    (h : e ∈ M.log calls') : e ∈ M.log calls :=
  mem_logFrom_of_prefix hcalls h

end Machine
