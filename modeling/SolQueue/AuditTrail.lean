import SolQueue.Lifecycle
import SolQueue.Replica

/-!
# The audit trail

Every instruction that creates or changes a job leaves an event; `closeJob`, which removes it,
leaves none. The events of a run determine the status of every job that is live, and which jobs are
live up to the closes that committed.

* `JobChange.balance`, `opened_run`: the jobs enqueued at an address are those closed and the live
  one.
* `enqueues_run`: the events count the jobs enqueued.
* `statusAt_eq_iff_closes`: two runs with the same events end with the same jobs exactly if they
  closed the same number of jobs at each address.
-/

namespace SolQueue

variable {Pubkey : Type}

/-! ## Opening and closing -/

/-- The operation removes the job. -/
def JobOp.isClose : JobOp Pubkey → Bool
  | .close _ => true
  | _ => false

variable [DecidableEq Pubkey]

/-- How many jobs at `a` were closed. -/
def closes (a : Pubkey) (log : List (Entry Pubkey)) : ℕ :=
  (opsOn a log).countP JobOp.isClose

/-- The jobs that were closed, in order. -/
def closedJobs (log : List (Entry Pubkey)) : List Pubkey :=
  (log.filterMap Entry.jobOp).filterMap fun
    | (a, .close _) => some a
    | _ => none

/-- The closes at an address are its occurrences among the closed jobs. -/
theorem closes_eq_count (a : Pubkey) (log : List (Entry Pubkey)) :
    closes a log = (closedJobs log).count a := by
  rw [closes, opsOn, closedJobs, List.count_eq_countP, List.countP_filterMap,
    List.countP_filterMap, List.countP_filterMap]
  refine congrArg (List.countP · log) (funext fun e => ?_)
  rw [Entry.opOn]
  cases e.jobOp with
  | none => rfl
  | some p =>
    obtain ⟨k, op⟩ := p
    by_cases ha : a = k
    · cases op <;> simp [ha, JobOp.isClose]
    · cases op <;> simp [ha, Ne.symm ha]

/-- The event announces a new job at `a`. -/
def Event.enqueues (a : Pubkey) : Event Pubkey → Bool
  | .jobEnqueued _ job _ _ _ _ _ => a = job
  | _ => false

/-- A job appears with an enqueue and disappears with a close. -/
theorem JobChange.balance {D : Derivation Pubkey} {σ : Ledger Pubkey} {now : Int64} {a : Pubkey}
    {op : Option (JobOp Pubkey)} {old new : Option (Job Pubkey)}
    (h : JobChange D σ now a op old new) :
    op.toList.countP JobOp.isEnqueue + old.isSome.toNat =
      op.toList.countP JobOp.isClose + new.isSome.toNat := by
  cases h with
  | keep | enqueue | claim | complete | failPermanent | failRetry | expire | close => rfl

section Runs

variable [Inhabited Pubkey] {D : Derivation Pubkey}

/-- In every run, the jobs enqueued at an address are those that were closed and the live one. -/
theorem opened_run (calls : List (Call Pubkey)) (a : Pubkey) :
    (opsOn a ((program D).log calls)).countP JobOp.isEnqueue =
      closes a ((program D).log calls) +
        (((program D).run calls).jobs.lookup a).isSome.toNat := by
  refine step_induction (D := D) (P := fun log (σ : Ledger Pubkey) =>
    (opsOn a log).countP JobOp.isEnqueue = closes a log + (σ.jobs.lookup a).isSome.toNat)
    rfl ?_ calls
  intro log σ c σ' o _ ih hstep
  have hbalance := (hstep.jobChange a).balance
  rw [closes] at ih ⊢
  rw [opsOn_snoc, List.countP_append, List.countP_append]
  omega

/-- A step announces a job at `a` exactly if it enqueues one there. -/
theorem Step.countP_enqueues {σ σ' : Ledger Pubkey} {c : Call Pubkey} {o : Outcome Pubkey}
    (h : Step D σ c σ' o) (a : Pubkey) :
    o.events.countP (Event.enqueues a) =
      (Entry.opOn a ⟨σ, c, o, σ'⟩).toList.countP JobOp.isEnqueue := by
  cases h with
  | initializeQueue | setQueuePaused | registerWorker | deactivateWorker => rfl
  | @enqueueJob now ctx =>
    by_cases ha : a = ctx.job <;>
      simp [Event.enqueues, Entry.opOn, Entry.jobOp, JobOp.isEnqueue, ha]
  | claimJob | completeJob | failJobPermanent | failJobRetry | expireJob | closeJob =>
    simp only [Entry.opOn, Entry.jobOp]
    split_ifs <;> rfl

/-- In every run, the events count the jobs enqueued at an address. -/
theorem enqueues_run (calls : List (Call Pubkey)) (a : Pubkey) :
    (Machine.trace Outcome.events ((program D).log calls)).countP (Event.enqueues a) =
      (opsOn a ((program D).log calls)).countP JobOp.isEnqueue := by
  refine step_induction (D := D) (P := fun log _ =>
    (Machine.trace Outcome.events log).countP (Event.enqueues a) =
      (opsOn a log).countP JobOp.isEnqueue) rfl ?_ calls
  intro log σ c σ' o _ ih hstep
  rw [Machine.trace_snoc, opsOn_snoc, List.countP_append, List.countP_append, ih,
    hstep.countP_enqueues a]

/-! ## Runs with the same events -/

/-- Where two runs with the same events both have a job, it has the same status. -/
theorem status_eq_of_trace_eq {calls calls' : List (Call Pubkey)}
    (htrace : Machine.trace Outcome.events ((program D).log calls) =
      Machine.trace Outcome.events ((program D).log calls')) {a : Pubkey} {j j' : Job Pubkey}
    (hj : ((program D).run calls).jobs.lookup a = some j)
    (hj' : ((program D).run calls').jobs.lookup a = some j') : j.status = j'.status := by
  -- both are shown by the record built from the events
  obtain ⟨x, hx, hshows⟩ := (mirrors_run (D := D) calls).job a j hj
  obtain ⟨x', hx', hshows'⟩ := (mirrors_run (D := D) calls').job a j' hj'
  rw [htrace, hx'] at hx
  obtain rfl : x' = x := Option.some.inj hx
  exact hshows.status.symm.trans hshows'.status

/-- Two runs with the same events end with the same live jobs, with the same statuses, exactly if
they closed the same number of jobs at each address. -/
theorem statusAt_eq_iff_closes {calls calls' : List (Call Pubkey)}
    (htrace : Machine.trace Outcome.events ((program D).log calls) =
      Machine.trace Outcome.events ((program D).log calls')) :
    (∀ a, ((program D).run calls).statusAt a = ((program D).run calls').statusAt a) ↔
      ∀ a, closes a ((program D).log calls) = closes a ((program D).log calls') := by
  refine forall_congr' fun a => ?_
  have hopened := opened_run (D := D) calls a
  have hopened' := opened_run (D := D) calls' a
  rw [← enqueues_run] at hopened hopened'
  rw [htrace, hopened'] at hopened
  -- as many were enqueued, so as many were closed if both have a job left or none has
  have hlive : closes a ((program D).log calls) = closes a ((program D).log calls') ↔
      (((program D).run calls).jobs.lookup a).isSome =
        (((program D).run calls').jobs.lookup a).isSome := by
    have hinj : ∀ b b' : Bool, b = b' ↔ b.toNat = b'.toNat := by decide
    rw [hinj]
    omega
  rw [hlive, Ledger.statusAt, Ledger.statusAt]
  constructor
  · intro hstatus
    simpa using congrArg Option.isSome hstatus
  · intro hsome
    cases hj : ((program D).run calls).jobs.lookup a with
    | none =>
      rw [hj, Option.isSome_none, eq_comm, Option.isSome_eq_false_iff, Option.isNone_iff_eq_none]
        at hsome
      rw [hsome]
    | some j =>
      rw [hj, Option.isSome_some, eq_comm, Option.isSome_iff_exists] at hsome
      obtain ⟨j', hj'⟩ := hsome
      rw [hj']
      exact congrArg some (status_eq_of_trace_eq htrace hj hj')

/-- Of three jobs two are completed. The first one is closed at once, and then the second one. -/
def Sample.closedSoon : List (Call Key) :=
  [create 2 60, register worker, enqueue producer 0 none, enqueue producer 1 none,
    enqueue producer 2 none, claim 2 worker 0, complete 3 worker 0, close 0, claim 4 worker 1,
    complete 5 worker 1, close 1, claim 6 worker 2]

/-- The same jobs, closed at the end and in the other order. -/
def Sample.closedLate : List (Call Key) :=
  [create 2 60, register worker, enqueue producer 0 none, enqueue producer 1 none,
    enqueue producer 2 none, claim 2 worker 0, complete 3 worker 0, claim 4 worker 1,
    complete 5 worker 1, claim 6 worker 2, close 1, close 0]

/-- All these calls commit, with the same events and one close of each of the two jobs in either
order. In the end the two jobs are gone and the third one is Processing. -/
theorem statusAt_eq_iff_closes_reordered :
    ((program Derivation.free).run Sample.closedSoon).statusAt (Sample.job 0) =
        ((program Derivation.free).run Sample.closedLate).statusAt (Sample.job 0) ∧
      ((program Derivation.free).run Sample.closedSoon).statusAt (Sample.job 2) =
        ((program Derivation.free).run Sample.closedLate).statusAt (Sample.job 2) := by
  have htrace :
      Machine.trace Outcome.events ((program Derivation.free).log Sample.closedSoon) =
        Machine.trace Outcome.events ((program Derivation.free).log Sample.closedLate) := by
    decide +kernel
  have hstatus := (statusAt_eq_iff_closes htrace).mpr fun a => ?_
  · exact ⟨hstatus _, hstatus _⟩
  have hsoon : closedJobs ((program Derivation.free).log Sample.closedSoon) =
      [Sample.job 0, Sample.job 1] := by
    decide +kernel
  have hlate : closedJobs ((program Derivation.free).log Sample.closedLate) =
      [Sample.job 1, Sample.job 0] := by
    decide +kernel
  rw [closes_eq_count, closes_eq_count, hsoon, hlate]
  exact (List.Perm.swap _ _ _).count_eq a

/-- The close of the sample job leaves no event: with and without it, the events are the same, but
only without it the job is live. -/
theorem statusAt_ne_of_close :
    ¬∀ calls calls' : List (Call Key),
      Machine.trace Outcome.events ((program Derivation.free).log calls) =
        Machine.trace Outcome.events ((program Derivation.free).log calls') →
      ∀ a, ((program Derivation.free).run calls).statusAt a =
        ((program Derivation.free).run calls').statusAt a := by
  intro h
  have hstatus := h Sample.day Sample.day.dropLast (by decide +kernel) (Sample.job 0)
  have hclosed : ((program Derivation.free).run Sample.day).statusAt (Sample.job 0) = none := by
    decide +kernel
  have hlive : ((program Derivation.free).run Sample.day.dropLast).statusAt (Sample.job 0) =
      some .completed := by
    decide +kernel
  rw [hclosed, hlive] at hstatus
  cases hstatus

end Runs

end SolQueue
