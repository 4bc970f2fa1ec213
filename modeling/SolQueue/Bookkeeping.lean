import SolQueue.Lifecycle

/-!
# Counters and histories

The program keeps three counters for each queue and three for each worker. Every one of them counts
operations of certain kinds, so in every run it equals a count over the log.

* `Entry.subject`, `countOps`: the job and operation of a log entry, and counts over a log.
* `QueueStat`, `queueStat_run`: each counter of a queue counts operations on its jobs.
* `WorkerStat`, `workerStat_run`: each counter of a worker, or of any set of workers, counts the
  operations they signed.
* `balance_run`: operations that add and remove weight account for the weight of the live jobs.
-/

namespace SolQueue

variable {Pubkey : Type} [DecidableEq Pubkey]

/-! ## Counting operations -/

/-- The job an entry operates on, as it was before the operation (after it, for the one that creates
the job), and the operation. -/
def Entry.subject (e : Entry Pubkey) : Option (Job Pubkey × JobOp Pubkey) :=
  match e.jobOp with
  | some (a, op) => ((e.before.jobs.lookup a).or (e.after.jobs.lookup a)).map (·, op)
  | none => none

/-- One if the entry operates on a job in a way that satisfies `p`, zero otherwise. -/
def Entry.gain (p : Job Pubkey → JobOp Pubkey → Bool) (e : Entry Pubkey) : ℕ :=
  if (Entry.subject e).any fun s => p s.1 s.2 then 1 else 0

/-- How many entries of a log operate on a job in a way that satisfies `p`. -/
def countOps (p : Job Pubkey → JobOp Pubkey → Bool) (log : List (Entry Pubkey)) : ℕ :=
  log.countP fun e => (Entry.subject e).any fun s => p s.1 s.2

variable {p p' : Job Pubkey → JobOp Pubkey → Bool} {e : Entry Pubkey} {log : List (Entry Pubkey)}

theorem countOps_cons : countOps p (e :: log) = countOps p log + Entry.gain p e :=
  List.countP_cons

theorem countOps_snoc : countOps p (log ++ [e]) = countOps p log + Entry.gain p e := by
  rw [countOps, List.countP_append, List.countP_singleton]
  rfl

theorem Entry.gain_of_none (h : Entry.subject e = none) : Entry.gain p e = 0 := by
  rw [gain, h]
  rfl

theorem Entry.gain_of_some {j : Job Pubkey} {op : JobOp Pubkey}
    (h : Entry.subject e = some (j, op)) : Entry.gain p e = if p j op then 1 else 0 := by
  rw [gain, h]
  rfl

/-- Operations that satisfy exactly one of two conditions are counted by their sum. -/
theorem countOps_add {p₁ p₂ : Job Pubkey → JobOp Pubkey → Bool}
    (h : ∀ j op, (if p j op then 1 else 0) =
      (if p₁ j op then 1 else 0) + if p₂ j op then 1 else 0) :
    countOps p log = countOps p₁ log + countOps p₂ log := by
  induction log with
  | nil => rfl
  | cons e log ih =>
    have hgain : Entry.gain p e = Entry.gain p₁ e + Entry.gain p₂ e := by
      cases hs : Entry.subject e with
      | none => simp only [Entry.gain_of_none hs]
      | some s =>
        obtain ⟨j, op⟩ := s
        simp only [Entry.gain_of_some hs, h j op]
    simp only [countOps_cons, ih, hgain]
    omega

/-- Operations that satisfy a stronger condition are fewer. -/
theorem countOps_mono (h : ∀ j op, p j op → p' j op) : countOps p log ≤ countOps p' log := by
  refine List.countP_mono_left fun e _ he => ?_
  rw [Option.any_eq_true] at he ⊢
  obtain ⟨s, hs, hp⟩ := he
  exact ⟨s, hs, h s.1 s.2 hp⟩

/-! ## The counters -/

/-- The lifetime counters of a queue. -/
inductive QueueStat where
  | enqueued
  | completed
  | failed

/-- The value of a counter of a queue. -/
def QueueStat.of (x : QueueStat) (q : QueueConfig Pubkey) : UInt64 :=
  match x with
  | .enqueued => q.totalEnqueued
  | .completed => q.totalCompleted
  | .failed => q.totalFailed

/-- The kind of operations a counter of a queue counts. -/
def QueueStat.kind : QueueStat → JobOpKind
  | .enqueued => .enqueue
  | .completed => .complete
  | .failed => .permanentFail

/-- The counters of a worker. -/
inductive WorkerStat where
  | claimed
  | completed
  | failed

/-- The value of a counter of a worker. -/
def WorkerStat.of (x : WorkerStat) (r : WorkerRegistry Pubkey) : UInt64 :=
  match x with
  | .claimed => r.jobsClaimed
  | .completed => r.jobsCompleted
  | .failed => r.jobsFailed

/-- The kinds of operations a counter of a worker counts. -/
def WorkerStat.kinds : WorkerStat → List JobOpKind
  | .claimed => [.claim]
  | .completed => [.complete]
  | .failed => [.retry, .permanentFail]

/-- A counter of the queue at `k`, zero as long as there is no queue. -/
def Ledger.queueStat (σ : Ledger Pubkey) (x : QueueStat) (k : Pubkey) : ℕ :=
  Finmap.weigh (fun _ q => (x.of q).toNat) k (σ.queueConfigs.lookup k)

/-- A counter summed over the registries whose queue and worker satisfy `sel`. -/
def Ledger.workerStat (σ : Ledger Pubkey) (x : WorkerStat) (sel : Pubkey → Pubkey → Bool) : ℕ :=
  Finmap.tally (fun _ r => if sel r.queue r.worker then (x.of r).toNat else 0)
    σ.workerRegistries

variable {σ σ' : Ledger Pubkey} {k : Pubkey}

theorem Ledger.queueStat_of_lookup {x : QueueStat} {q : QueueConfig Pubkey}
    (h : σ.queueConfigs.lookup k = some q) : σ.queueStat x k = (x.of q).toNat := by
  rw [queueStat, h]
  rfl

/-- Writing one queue moves the counters of that queue only. -/
theorem Ledger.queueStat_insert {x : QueueStat} {K : Pubkey} {q : QueueConfig Pubkey} {n : ℕ}
    (hσ' : σ'.queueConfigs = σ.queueConfigs.insert K q)
    (hq : (x.of q).toNat = σ.queueStat x K + n) :
    σ'.queueStat x k = σ.queueStat x k + if K = k then n else 0 := by
  rw [queueStat, hσ', Finmap.lookup_insert_eq_ite]
  by_cases h : k = K
  · subst h
    rw [if_pos rfl, if_pos rfl]
    exact hq
  · rw [if_neg h, if_neg (Ne.symm h)]
    rfl

/-- Writing one registry that was there moves its counters and keeps its queue and worker. -/
theorem Ledger.workerStat_insert {x : WorkerStat} {sel : Pubkey → Pubkey → Bool}
    {r r' : WorkerRegistry Pubkey} {n : ℕ}
    (hσ' : σ'.workerRegistries = σ.workerRegistries.insert k r')
    (hr : σ.workerRegistries.lookup k = some r) (hqueue : r'.queue = r.queue)
    (hworker : r'.worker = r.worker) (hn : (x.of r').toNat = (x.of r).toNat + n) :
    σ'.workerStat x sel = σ.workerStat x sel + if sel r.queue r.worker then n else 0 := by
  -- stated as a sum on both sides, without subtraction
  have hrule : Finmap.tally (fun _ r => if sel r.queue r.worker then (x.of r).toNat else 0)
        (σ.workerRegistries.insert k r') + _ = _ + _ := Finmap.tally_insert_replace hr
  rw [workerStat, workerStat, hσ']
  simp only [hqueue, hworker, hn] at hrule
  split_ifs at hrule ⊢ <;> omega

/-- A new registry starts its counters at zero. -/
theorem Ledger.workerStat_insert_new {x : WorkerStat} {sel : Pubkey → Pubkey → Bool}
    {r : WorkerRegistry Pubkey} (hσ' : σ'.workerRegistries = σ.workerRegistries.insert k r)
    (hr : σ.workerRegistries.lookup k = none) (hn : (x.of r).toNat = 0) :
    σ'.workerStat x sel = σ.workerStat x sel := by
  rw [workerStat, hσ', Finmap.tally_insert_new hr, hn, ite_self]
  rfl

/-! ## Every step moves the counters it should -/

/-- Every operation is about a job. -/
theorem JobChange.exists_subject {D : Derivation Pubkey} {now : Int64} {a : Pubkey}
    {op : JobOp Pubkey} {old new : Option (Job Pubkey)}
    (h : JobChange D σ now a (some op) old new) : ∃ j, old.or new = some j := by
  cases h <;> exact ⟨_, rfl⟩

namespace Step

variable {D : Derivation Pubkey} {c : Call Pubkey} {o : Outcome Pubkey}

/-- An operation on a job that was there is about that job. -/
theorem subject_of_jobOp {a : Pubkey} {op : JobOp Pubkey} {j : Job Pubkey}
    (hop : Entry.jobOp ⟨σ, c, o, σ'⟩ = some (a, op)) (hj : σ.jobs.lookup a = some j) :
    Entry.subject ⟨σ, c, o, σ'⟩ = some (j, op) := by
  rw [Entry.subject, hop]
  simp [hj]

/-- The operation that creates a job is about the job created. -/
theorem subject_of_jobOp_new {a : Pubkey} {op : JobOp Pubkey} {j : Job Pubkey}
    (hop : Entry.jobOp ⟨σ, c, o, σ'⟩ = some (a, op)) (hold : σ.jobs.lookup a = none)
    (hj : σ'.jobs.lookup a = some j) : Entry.subject ⟨σ, c, o, σ'⟩ = some (j, op) := by
  rw [Entry.subject, hop]
  simp [hold, hj]

/-- A failure that exhausts the retries is recorded as permanent. -/
theorem jobOp_failed {now : Int64} {ctx : WorkerJob Pubkey} {n : String} {s : UInt64}
    {params : FailJobParams} {j : Job Pubkey} (hj : σ'.jobs.lookup ctx.job = some j) :
    Entry.jobOp ⟨σ, ⟨now, .failJob ctx n s params⟩, o, σ'⟩ =
      some (ctx.job, .fail ctx.worker (j.status = .failed)) := by
  simp [Entry.jobOp, Ledger.statusAt, hj]

/-- An operation on a job of the queue at `K` moves the counters of that queue which count it. -/
theorem queueStat_of_subject {x : QueueStat} {K : Pubkey} {q : QueueConfig Pubkey}
    {j : Job Pubkey} {op : JobOp Pubkey} (hsub : Entry.subject ⟨σ, c, o, σ'⟩ = some (j, op))
    (hqueue : j.queue = K) (hσ' : σ'.queueConfigs = σ.queueConfigs.insert K q)
    (hq : (x.of q).toNat = σ.queueStat x K + if op.kind = x.kind then 1 else 0) :
    σ'.queueStat x k = σ.queueStat x k +
      Entry.gain (fun j op => op.kind = x.kind ∧ j.queue = k) ⟨σ, c, o, σ'⟩ := by
  rw [Ledger.queueStat_insert hσ' hq, Entry.gain_of_some hsub, hqueue]
  by_cases hkind : op.kind = x.kind <;> by_cases hk : K = k <;> simp [hkind, hk]

/-- An operation that no counter of a queue counts moves none. -/
theorem queueStat_of_subject_same {x : QueueStat} {j : Job Pubkey} {op : JobOp Pubkey}
    (hsub : Entry.subject ⟨σ, c, o, σ'⟩ = some (j, op)) (hσ' : σ'.queueConfigs = σ.queueConfigs)
    (hkind : op.kind ≠ x.kind) :
    σ'.queueStat x k = σ.queueStat x k +
      Entry.gain (fun j op => op.kind = x.kind ∧ j.queue = k) ⟨σ, c, o, σ'⟩ := by
  rw [Ledger.queueStat, hσ', Entry.gain_of_some hsub]
  simp [hkind, Ledger.queueStat]

/-- A step that operates on no job and keeps the counters of all queues. -/
theorem queueStat_of_no_subject {x : QueueStat} (hsub : Entry.jobOp ⟨σ, c, o, σ'⟩ = none)
    (hσ' : σ'.queueStat x k = σ.queueStat x k) :
    σ'.queueStat x k = σ.queueStat x k +
      Entry.gain (fun j op => op.kind = x.kind ∧ j.queue = k) ⟨σ, c, o, σ'⟩ := by
  rw [Entry.gain_of_none (by rw [Entry.subject, hsub]), hσ', Nat.add_zero]

variable [Inhabited Pubkey]

/-- Every counter of every queue moves by one exactly at the operations it counts. -/
theorem queueStat (h : Step D σ c σ' o) (x : QueueStat) (k : Pubkey) :
    σ'.queueStat x k = σ.queueStat x k +
      Entry.gain (fun j op => op.kind = x.kind ∧ j.queue = k) ⟨σ, c, o, σ'⟩ := by
  cases h with
  | initializeQueue fresh length =>
    refine queueStat_of_no_subject rfl ?_
    -- a new queue starts from zero, which is what an absent one counts as
    have hzero : ∀ x, σ.queueStat x _ = 0 := fun x => by
      rw [Ledger.queueStat, (lookup_of_fresh fresh).1]
      rfl
    refine (Ledger.queueStat_insert (n := 0) rfl ?_).trans (by simp)
    rw [hzero]
    cases x <;> rfl
  | setQueuePaused queue authority =>
    refine queueStat_of_no_subject rfl ?_
    refine (Ledger.queueStat_insert (n := 0) rfl ?_).trans (by simp)
    rw [Ledger.queueStat_of_lookup queue.lookup]
    cases x <;> rfl
  | registerWorker | deactivateWorker => exact queueStat_of_no_subject rfl rfl
  | @enqueueJob _ ctx _ _ _ _ _ _ _ queue fresh unpaused payload jobType next_eq total_eq =>
    refine queueStat_of_subject (K := ctx.queueConfig)
      (subject_of_jobOp_new rfl (lookup_of_fresh fresh).2.2 (Finmap.lookup_insert _)) rfl rfl ?_
    rw [Ledger.queueStat_of_lookup queue.lookup]
    cases x <;> simp [QueueStat.of, QueueStat.kind, JobOp.kind, total_eq]
  -- claims, retries, expiries and closes are counted by no queue
  | claimJob valid pending claimed_eq =>
    exact queueStat_of_subject_same (subject_of_jobOp rfl valid.job.lookup) rfl
      (by cases x <;> simp [QueueStat.kind, JobOp.kind])
  | completeJob valid held length duration_eq total_eq completed_eq =>
    refine queueStat_of_subject (subject_of_jobOp rfl valid.job.lookup) valid.job.queue rfl ?_
    rw [Ledger.queueStat_of_lookup valid.queue.lookup]
    cases x <;> simp [QueueStat.of, QueueStat.kind, JobOp.kind, total_eq]
  | failJobPermanent valid held retries_eq failed_eq exhausted total_eq =>
    refine queueStat_of_subject (subject_of_jobOp (jobOp_failed (Finmap.lookup_insert _))
      valid.job.lookup) valid.job.queue rfl ?_
    rw [Ledger.queueStat_of_lookup valid.queue.lookup]
    cases x <;> simp [QueueStat.of, QueueStat.kind, JobOp.kind, Job.failedFor, total_eq]
  | failJobRetry valid held retries_eq failed_eq left attempts =>
    exact queueStat_of_subject_same (subject_of_jobOp (jobOp_failed (Finmap.lookup_insert _))
      valid.job.lookup) rfl (by cases x <;> simp [QueueStat.kind, JobOp.kind, Job.retried])
  | expireJob queue job processing expired =>
    exact queueStat_of_subject_same (subject_of_jobOp rfl job.lookup) rfl
      (by cases x <;> simp [QueueStat.kind, JobOp.kind])
  | closeJob queue job creator finished =>
    exact queueStat_of_subject_same (subject_of_jobOp rfl job.lookup) rfl
      (by cases x <;> simp [QueueStat.kind, JobOp.kind])

omit [Inhabited Pubkey] in
/-- A worker operation moves the counters of its signer's registry which count it. -/
theorem workerStat_of_valid {x : WorkerStat} {sel : Pubkey → Pubkey → Bool}
    {ctx : WorkerJob Pubkey} {n : String} {s : UInt64} {q : QueueConfig Pubkey}
    {r r' : WorkerRegistry Pubkey} {j : Job Pubkey} {op : JobOp Pubkey} (haddr : Addressed D σ)
    (valid : ctx.Valid D σ n s q r j) (hsub : Entry.subject ⟨σ, c, o, σ'⟩ = some (j, op))
    (hop : op.worker = some ctx.worker)
    (hσ' : σ'.workerRegistries = σ.workerRegistries.insert ctx.workerRegistry r')
    (hqueue : r'.queue = r.queue) (hworker : r'.worker = r.worker)
    (hr : (x.of r').toNat = (x.of r).toNat + if op.kind ∈ x.kinds then 1 else 0) :
    σ'.workerStat x sel = σ.workerStat x sel +
      Entry.gain (fun j op => op.kind ∈ x.kinds ∧ op.worker.any (sel j.queue))
        ⟨σ, c, o, σ'⟩ := by
  rw [Ledger.workerStat_insert hσ' valid.registry.lookup hqueue hworker hr,
    Entry.gain_of_some hsub, hop, valid.job.queue, valid.registry.queue,
    haddr.worker_of_registryAt valid.registry]
  by_cases hkind : op.kind ∈ x.kinds <;> cases hsel : sel ctx.queueConfig ctx.worker <;>
    simp [hkind, hsel]

omit [Inhabited Pubkey] in
/-- A step that is no worker operation and keeps the counters of all workers. -/
theorem workerStat_of_not_worker {x : WorkerStat} {sel : Pubkey → Pubkey → Bool}
    (hsub : ∀ j op, Entry.subject ⟨σ, c, o, σ'⟩ = some (j, op) → op.worker = none)
    (hσ' : σ'.workerStat x sel = σ.workerStat x sel) :
    σ'.workerStat x sel = σ.workerStat x sel +
      Entry.gain (fun j op => op.kind ∈ x.kinds ∧ op.worker.any (sel j.queue))
        ⟨σ, c, o, σ'⟩ := by
  cases h : Entry.subject ⟨σ, c, o, σ'⟩ with
  | none => rw [Entry.gain_of_none h, hσ', Nat.add_zero]
  | some s =>
    obtain ⟨j, op⟩ := s
    rw [Entry.gain_of_some h, hσ', hsub j op h]
    simp

/-- Every counter of every worker moves by one exactly at the operations it counts. -/
theorem workerStat (h : Step D σ c σ' o) (haddr : Addressed D σ) (x : WorkerStat)
    (sel : Pubkey → Pubkey → Bool) :
    σ'.workerStat x sel = σ.workerStat x sel +
      Entry.gain (fun j op => op.kind ∈ x.kinds ∧ op.worker.any (sel j.queue))
        ⟨σ, c, o, σ'⟩ := by
  cases h with
  | initializeQueue | setQueuePaused =>
    exact workerStat_of_not_worker (fun _ _ h => nomatch h) rfl
  | registerWorker queue authority fresh =>
    refine workerStat_of_not_worker (fun _ _ h => nomatch h) ?_
    exact Ledger.workerStat_insert_new rfl (lookup_of_fresh fresh).2.1 (by cases x <;> rfl)
  | deactivateWorker queue authority registry =>
    refine workerStat_of_not_worker (fun _ _ h => nomatch h) ?_
    -- a deactivated worker keeps their counters
    have hcounters : ∀ r : WorkerRegistry Pubkey,
        (x.of { r with isActive := false }).toNat = (x.of r).toNat + 0 := by
      cases x <;> simp [WorkerStat.of]
    exact Eq.trans (Ledger.workerStat_insert rfl registry.lookup rfl rfl (hcounters _)) (by simp)
  | enqueueJob queue fresh unpaused payload jobType next_eq total_eq =>
    refine workerStat_of_not_worker (fun j op h => ?_) rfl
    rw [subject_of_jobOp_new rfl (lookup_of_fresh fresh).2.2 (Finmap.lookup_insert _)] at h
    cases h
    rfl
  | claimJob valid pending claimed_eq =>
    refine workerStat_of_valid haddr valid (subject_of_jobOp rfl valid.job.lookup) rfl rfl rfl
      rfl ?_
    cases x <;> simp [WorkerStat.of, WorkerStat.kinds, JobOp.kind, claimed_eq]
  | completeJob valid held length duration_eq total_eq completed_eq =>
    refine workerStat_of_valid haddr valid (subject_of_jobOp rfl valid.job.lookup) rfl rfl rfl
      rfl ?_
    cases x <;> simp [WorkerStat.of, WorkerStat.kinds, JobOp.kind, completed_eq]
  | failJobPermanent valid held retries_eq failed_eq exhausted total_eq =>
    refine workerStat_of_valid haddr valid (subject_of_jobOp (jobOp_failed
      (Finmap.lookup_insert _)) valid.job.lookup) rfl rfl rfl rfl ?_
    cases x <;> simp [WorkerStat.of, WorkerStat.kinds, JobOp.kind, Job.failedFor, failed_eq]
  | failJobRetry valid held retries_eq failed_eq left attempts =>
    refine workerStat_of_valid haddr valid (subject_of_jobOp (jobOp_failed
      (Finmap.lookup_insert _)) valid.job.lookup) rfl rfl rfl rfl ?_
    cases x <;> simp [WorkerStat.of, WorkerStat.kinds, JobOp.kind, Job.retried, failed_eq]
  | expireJob queue job processing expired =>
    refine workerStat_of_not_worker (fun j op h => ?_) rfl
    rw [subject_of_jobOp rfl job.lookup] at h
    cases h
    rfl
  | closeJob queue job creator finished =>
    refine workerStat_of_not_worker (fun j op h => ?_) rfl
    rw [subject_of_jobOp rfl job.lookup] at h
    cases h
    rfl

/-- A step that operates on no job keeps all jobs. -/
theorem jobs_of_no_subject (h : Step D σ c σ' o) (hop : Entry.jobOp ⟨σ, c, o, σ'⟩ = none) :
    σ'.jobs = σ.jobs := by
  apply Finmap.ext_lookup
  intro a
  have hchange := h.jobChange a
  rw [show Entry.opOn a ⟨σ, c, o, σ'⟩ = none by rw [Entry.opOn, hop]] at hchange
  generalize σ'.jobs.lookup a = new at hchange ⊢
  cases hchange
  rfl

/-- A step that operates on the job at `a` changes that job by the operation and keeps all
others. -/
theorem jobs_of_subject (h : Step D σ c σ' o) {a : Pubkey} {op : JobOp Pubkey}
    (hop : Entry.jobOp ⟨σ, c, o, σ'⟩ = some (a, op)) :
    JobChange D σ c.now a (some op) (σ.jobs.lookup a) (σ'.jobs.lookup a) ∧
      ∀ x, x ≠ a → σ'.jobs.lookup x = σ.jobs.lookup x := by
  refine ⟨?_, fun x hx => ?_⟩
  · have hchange := h.jobChange a
    rwa [show Entry.opOn a ⟨σ, c, o, σ'⟩ = some op by simp [Entry.opOn, hop]] at hchange
  · have hchange := h.jobChange x
    rw [show Entry.opOn x ⟨σ, c, o, σ'⟩ = none by simp [Entry.opOn, hop, hx]] at hchange
    generalize σ'.jobs.lookup x = new at hchange ⊢
    cases hchange
    rfl

end Step

/-! ## Whole runs -/

variable [Inhabited Pubkey] {D : Derivation Pubkey}

/-- In every run, every counter of every queue is the number of operations it counts. -/
theorem queueStat_run (calls : List (Call Pubkey)) (x : QueueStat) (k : Pubkey) :
    ((program D).run calls).queueStat x k =
      countOps (fun j op => op.kind = x.kind ∧ j.queue = k) ((program D).log calls) := by
  refine step_induction (P := fun log σ => Ledger.queueStat σ x k =
    countOps (fun j op => op.kind = x.kind ∧ j.queue = k) log) rfl ?_ calls
  intro log σ c σ' o _ ih hstep
  rw [countOps_snoc, ← ih]
  exact hstep.queueStat x k

/-- The same, read off the queue account. -/
theorem queueStat_of_run (calls : List (Call Pubkey)) {q : QueueConfig Pubkey}
    (hq : ((program D).run calls).queueConfigs.lookup k = some q) (x : QueueStat) :
    (x.of q).toNat =
      countOps (fun j op => op.kind = x.kind ∧ j.queue = k) ((program D).log calls) := by
  rw [← queueStat_run, Ledger.queueStat_of_lookup hq]

/-- In every run, every counter of every set of workers is the number of operations it counts. -/
theorem workerStat_run (calls : List (Call Pubkey)) (x : WorkerStat)
    (sel : Pubkey → Pubkey → Bool) :
    ((program D).run calls).workerStat x sel =
      countOps (fun j op => op.kind ∈ x.kinds ∧ op.worker.any (sel j.queue))
        ((program D).log calls) := by
  refine step_induction (P := fun log σ => Ledger.workerStat σ x sel =
    countOps (fun j op => op.kind ∈ x.kinds ∧ op.worker.any (sel j.queue)) log) rfl ?_ calls
  intro log σ c σ' o hsound ih hstep
  rw [countOps_snoc, ← ih]
  exact hstep.workerStat hsound.addressed x sel

/-- If every operation trades the weight of its job for what it adds to `pin` and `pout`, then in
every run the two counts account for the weight of the live jobs. -/
theorem balance_run (weight : Job Pubkey → ℕ) (pin pout : Job Pubkey → JobOp Pubkey → Bool)
    (hbalance : ∀ {σ now a op old new j}, JobChange D σ now a (some op) old new →
      old.or new = some j →
        (if pin j op then 1 else 0) + Finmap.weigh (fun _ => weight) a old =
          (if pout j op then 1 else 0) + Finmap.weigh (fun _ => weight) a new)
    (calls : List (Call Pubkey)) :
    countOps pin ((program D).log calls) = countOps pout ((program D).log calls) +
      Finmap.tally (fun _ => weight) ((program D).run calls).jobs := by
  refine step_induction (P := fun log (σ : Ledger Pubkey) =>
    countOps pin log = countOps pout log + Finmap.tally (fun _ => weight) σ.jobs) rfl ?_ calls
  intro log σ c σ' o _ ih hstep
  rw [countOps_snoc, countOps_snoc, ih]
  cases hop : Entry.jobOp ⟨σ, c, o, σ'⟩ with
  | none =>
    -- no job is touched, and neither count moves
    have hsub : Entry.subject ⟨σ, c, o, σ'⟩ = none := by rw [Entry.subject, hop]
    rw [Entry.gain_of_none hsub, Entry.gain_of_none hsub, hstep.jobs_of_no_subject hop]
    omega
  | some s =>
    obtain ⟨a, op⟩ := s
    obtain ⟨hchange, hothers⟩ := hstep.jobs_of_subject hop
    -- only the job at `a` changes its weight, by what the operation trades for it
    have htally := Finmap.tally_add_weigh (f := fun _ => weight) hothers
    obtain ⟨j, hj⟩ := hchange.exists_subject
    have hsub : Entry.subject ⟨σ, c, o, σ'⟩ = some (j, op) := by
      simp [Entry.subject, hop, hj]
    have htrade := hbalance hchange hj
    rw [Entry.gain_of_some hsub, Entry.gain_of_some hsub]
    omega

end SolQueue
