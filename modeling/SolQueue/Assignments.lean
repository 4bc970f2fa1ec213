import SolQueue.Conservation

/-!
# Assignments

The `assignedWorker` of a job is documented as the worker currently processing it, absent while the
job is Pending, Completed or Failed. A claim sets it, and a retry or an expiry clears it together
with the status; the two ways to finish a job leave it as it was.

* `assigned_iff_not_pending`: in every run, a job has an assigned worker exactly when it is not
  Pending.
* `Ledger.AssignedInProgress`, `assignedInProgress_iff_not_finishes`: the assigned workers mark the
  jobs in progress throughout a run exactly when no call of it finishes a job.
-/

namespace SolQueue

variable {Pubkey : Type} [DecidableEq Pubkey]

/-- The assigned worker marks the jobs in progress: a live job has one exactly while it is
Processing. -/
def Ledger.AssignedInProgress (σ : Ledger Pubkey) : Prop :=
  ∀ a j, σ.jobs.lookup a = some j → (j.assignedWorker.isSome ↔ j.status = .processing)

/-- The call completes a job, or reports a failure of a job that has no retry left. -/
def Entry.Finishes (e : Entry Pubkey) : Prop :=
  match e.call.instruction with
  | .completeJob .. => True
  | .failJob ctx _ _ _ => ∃ j, e.before.jobs.lookup ctx.job = some j ∧ j.maxRetries ≤ j.retryCount
  | _ => False

/-- Every operation leaves a job with an assigned worker unless it leaves it Pending. -/
theorem JobChange.assigned_iff_not_pending {D : Derivation Pubkey} {σ : Ledger Pubkey}
    {now : Int64} {a : Pubkey} {op : Option (JobOp Pubkey)} {old : Option (Job Pubkey)}
    {j' : Job Pubkey} (h : JobChange D σ now a op old (some j'))
    (hold : ∀ j, old = some j → (j.assignedWorker.isSome ↔ j.status ≠ .pending)) :
    j'.assignedWorker.isSome ↔ j'.status ≠ .pending := by
  cases h with
  | keep => exact hold _ rfl
  | enqueue | failRetry | expire => simp [EnqueueJob.newJob, Job.retried, Job.expired]
  | claim pending active => simp [Job.claimed]
  | complete held active length => simp [Job.completedWith, held.assigned]
  | failPermanent held active retries_eq exhausted =>
    simp [Job.failedFor, Job.withFailure, held.assigned]

/-- An outcome leaves the job with the worker who reported it, but not Processing. -/
theorem JobChange.assigned_of_outcome {D : Derivation Pubkey} {σ : Ledger Pubkey} {now : Int64}
    {a : Pubkey} {op : JobOp Pubkey} {old new : Option (Job Pubkey)}
    (h : JobChange D σ now a (some op) old new) (hop : op.isOutcome) :
    ∃ j', new = some j' ∧ j'.assignedWorker.isSome ∧ j'.status ≠ .processing := by
  cases h with
  | complete held active length =>
    exact ⟨_, rfl, by simp [Job.completedWith, held.assigned], by simp [Job.completedWith]⟩
  | failPermanent held active retries_eq exhausted =>
    exact ⟨_, rfl, by simp [Job.failedFor, Job.withFailure, held.assigned],
      by simp [Job.failedFor]⟩
  | _ => cases hop

section Runs

variable [Inhabited Pubkey] {D : Derivation Pubkey} {σ σ' : Ledger Pubkey} {c : Call Pubkey}
  {o : Outcome Pubkey}

/-- In every run, a live job has an assigned worker exactly when it is not Pending. -/
theorem assigned_iff_not_pending (calls : List (Call Pubkey)) {a : Pubkey} {j : Job Pubkey}
    (h : ((program D).run calls).jobs.lookup a = some j) :
    j.assignedWorker.isSome ↔ j.status ≠ .pending :=
  jobs_run_induction (P := fun _ j => j.assignedWorker.isSome ↔ j.status ≠ .pending)
    (fun hchange hold => hchange.assigned_iff_not_pending hold) calls a j h

/-- A call finishes a job exactly when its operation is an outcome. -/
theorem Step.finishes_iff (h : Step D σ c σ' o) :
    Entry.Finishes ⟨σ, c, o, σ'⟩ ↔
      ∃ a op, Entry.jobOp ⟨σ, c, o, σ'⟩ = some (a, op) ∧ op.isOutcome := by
  cases h with
  | completeJob => simp [Entry.Finishes, Entry.jobOp, JobOp.isOutcome]
  | @failJobPermanent _ _ _ _ _ _ _ j _ _ _ valid held retries_eq failed_eq exhausted total_eq =>
    -- the new count has passed the limit, so the old one had reached it
    have hle : j.maxRetries ≤ j.retryCount := UInt8.le_iff_toNat_le.mpr (by omega)
    refine ⟨fun _ => ⟨_, _, jobOp_failed (Finmap.lookup_insert _), ?_⟩,
      fun _ => ⟨j, valid.job.lookup, hle⟩⟩
    simp [JobOp.isOutcome, Job.failedFor]
  | @failJobRetry _ _ _ _ _ _ _ j _ _ valid held retries_eq failed_eq left attempts =>
    have hlt : j.retryCount < j.maxRetries := UInt8.lt_iff_toNat_lt.mpr (by omega)
    constructor
    · rintro ⟨j', hj', hle⟩
      obtain rfl : j = j' := Option.some.inj (valid.job.lookup.symm.trans hj')
      exact absurd hle (UInt8.not_le.mpr hlt)
    · rintro ⟨a, op, hop, houtcome⟩
      rw [jobOp_failed (Finmap.lookup_insert _)] at hop
      cases hop
      simp [JobOp.isOutcome, Job.retried] at houtcome
  | _ => simp [Entry.Finishes, Entry.jobOp, JobOp.isOutcome]

omit [DecidableEq Pubkey] [Inhabited Pubkey] in
/-- A job that is not unfinished has a final status. -/
theorem Job.outcomeKind_of_not_unfinished {j : Job Pubkey} (h : ¬j.Unfinished) :
    ∃ kind, j.status.outcomeKind = some kind := by
  cases hstatus : j.status with
  | pending | processing => simp [Job.Unfinished, hstatus] at h
  | completed | failed => exact ⟨_, rfl⟩

omit [DecidableEq Pubkey] [Inhabited Pubkey] in
/-- The operation that gives a job a final status is an outcome. -/
theorem JobOp.isOutcome_of_outcomeKind {st : JobStatus} {op : JobOp Pubkey}
    (h : st.outcomeKind = some op.kind) : op.isOutcome := by
  cases op with
  | complete => rfl
  | fail w permanent =>
    cases permanent with
    | true => rfl
    | false => cases st <;> cases h
  | _ => cases st <;> cases h

/-- As long as no call finishes a job, all jobs are unfinished. -/
theorem unfinished_of_not_finishes (calls : List (Call Pubkey))
    (h : ∀ e ∈ (program D).log calls, ¬Entry.Finishes e) :
    ∀ a j, ((program D).run calls).jobs.lookup a = some j → j.Unfinished := by
  refine Machine.runFrom_induction_of_log (M := program D) (P := fun σ : Ledger Pubkey =>
    ∀ a j, σ.jobs.lookup a = some j → j.Unfinished) ?_ ?_ calls h
  · intro σ c σ' o ih hok hfinishes a j' hj'
    have hstep := execute_eq_ok.mp hok
    have hchange := hstep.jobChange a
    rw [hj'] at hchange
    by_contra hfinished
    -- a final status was there before, or is the outcome of this very call
    obtain ⟨kind, hkind⟩ := Job.outcomeKind_of_not_unfinished hfinished
    rcases hchange.of_final hkind with hsame | ⟨op, j, hop, rfl, -⟩
    · exact hfinished (ih a j' hsame)
    · exact hfinishes (hstep.finishes_iff.mpr
        ⟨a, op, Entry.jobOp_of_opOn hop, JobOp.isOutcome_of_outcomeKind hkind⟩)
  · intro a j hj
    cases hj

/-- The assigned workers mark the jobs in progress in every state of a run exactly when no call
that committed in it finished a job. -/
theorem assignedInProgress_iff_not_finishes (calls : List (Call Pubkey)) :
    (∀ calls₁, calls₁ <+: calls → ((program D).run calls₁).AssignedInProgress) ↔
      ∀ e ∈ (program D).log calls, ¬Entry.Finishes e := by
  constructor
  · intro h e he hfinishes
    obtain ⟨calls₁, hprefix, -, hafter, hstep⟩ := step_of_mem_log he
    obtain ⟨a, op, hop, houtcome⟩ := hstep.finishes_iff.mp hfinishes
    obtain ⟨hchange, -⟩ := hstep.jobs_of_subject hop
    -- the job just finished keeps the worker who finished it
    obtain ⟨j', hj', hassigned, hstatus⟩ := hchange.assigned_of_outcome houtcome
    have hmarks : e.after.AssignedInProgress := hafter ▸ h _ hprefix
    exact hstatus ((hmarks a j' hj').mp hassigned)
  · intro h calls₁ hprefix a j hj
    have hunfinished := unfinished_of_not_finishes calls₁
      (fun e he => h e (Machine.mem_log_of_prefix hprefix he)) a j hj
    rw [assigned_iff_not_pending calls₁ hj]
    rcases hunfinished with hstatus | hstatus <;> simp [hstatus]

/-- A completed job still has the worker who completed it. -/
theorem not_assignedInProgress_of_complete :
    ¬∀ calls : List (Call Key),
      ((program Derivation.free).run calls).AssignedInProgress := by
  intro h
  have hjob : (((program Derivation.free).run [Sample.create 2 60, Sample.register Sample.worker,
      Sample.enqueue Sample.producer 0 none, Sample.claim 2 Sample.worker 0,
      Sample.complete 3 Sample.worker 0]).jobs.lookup (Sample.job 0)).map
        (fun j => (j.status, j.assignedWorker)) = some (.completed, some Sample.worker) := by
    decide +kernel
  obtain ⟨j, hj, hfields⟩ := Option.map_eq_some_iff.mp hjob
  obtain ⟨hstatus, hassigned⟩ := Prod.mk.inj hfields
  have hprocessing := (h _ (Sample.job 0) j hj).mp (by rw [hassigned]; rfl)
  cases hstatus.symm.trans hprocessing

end Runs

end SolQueue
