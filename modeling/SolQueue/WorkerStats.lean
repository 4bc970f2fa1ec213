import SolQueue.Conservation

/-!
# Balance of worker statistics

A worker's three counters are moved by three instructions; `expireJob` takes a job away from a
worker and touches none of them. In every run the claims of a worker are accounted for by their
reports, the jobs they hold and the expiries of jobs they held.

* `claims_run`: claims are reports, jobs held and expiries, for any worker of any queue.
* `workerStat_eq`: a worker's counter, read off the one registry they have on a queue.
* `worker_statistics`: the law for the counters of a worker, and for their sums over a queue.
-/

namespace SolQueue

variable {Pubkey : Type} [DecidableEq Pubkey]

/-- The number of live jobs of the queue at `k` that `w` is processing. -/
def Ledger.processing (σ : Ledger Pubkey) (k w : Pubkey) : ℕ :=
  Finmap.tally
    (fun _ j => if j.queue = k ∧ j.status = .processing ∧ j.assignedWorker = some w then 1 else 0)
    σ.jobs

/-- The number of expiries of jobs of the queue at `k` while they were assigned to `w`. -/
def expiries (k w : Pubkey) (log : List (Entry Pubkey)) : ℕ :=
  countOps (fun j op => op.kind = .expire ∧ j.queue = k ∧ j.assignedWorker = some w) log

/-- The number of failures reported on jobs of the queue at `k`. -/
def failures (k : Pubkey) (log : List (Entry Pubkey)) : ℕ :=
  countOps (fun j op => op.kind ∈ [.retry, .permanentFail] ∧ j.queue = k) log

/-- Every operation trades the jobs a worker holds for claims, reports and expiries. -/
theorem JobChange.processing {D : Derivation Pubkey} {σ : Ledger Pubkey} {now : Int64}
    {a k w : Pubkey} {op : JobOp Pubkey} {old new : Option (Job Pubkey)} {j : Job Pubkey}
    (h : JobChange D σ now a (some op) old new) (hj : old.or new = some j) :
    (if op.kind = .claim ∧ op.worker = some w ∧ j.queue = k then 1 else 0) +
        Finmap.weigh (fun _ j => if j.queue = k ∧ j.status = .processing ∧
          j.assignedWorker = some w then 1 else 0) a old =
      (if (op.reporter = some w ∧ j.queue = k) ∨
          (op.kind = .expire ∧ j.queue = k ∧ j.assignedWorker = some w) then 1 else 0) +
        Finmap.weigh (fun _ j => if j.queue = k ∧ j.status = .processing ∧
          j.assignedWorker = some w then 1 else 0) a new := by
  cases h with
  | enqueue =>
    obtain rfl := Option.some.inj hj
    simp [JobOp.kind, JobOp.reporter, EnqueueJob.newJob]
  | claim pending active =>
    obtain rfl := Option.some.inj hj
    simp [JobOp.kind, JobOp.reporter, JobOp.worker, Job.claimed, pending, and_comm]
  | complete held active length =>
    obtain rfl := Option.some.inj hj
    simp [JobOp.kind, JobOp.reporter, Job.completedWith, held.processing, held.assigned, and_comm]
  | failPermanent held active retries_eq exhausted =>
    obtain rfl := Option.some.inj hj
    simp [JobOp.kind, JobOp.reporter, Job.failedFor, held.processing, held.assigned, and_comm]
  | failRetry held active retries_eq left =>
    obtain rfl := Option.some.inj hj
    simp [JobOp.kind, JobOp.reporter, Job.retried, held.processing, held.assigned, and_comm]
  | expire queue processing expired =>
    obtain rfl := Option.some.inj hj
    simp [JobOp.kind, JobOp.reporter, Job.expired, processing]
  | close finished =>
    obtain rfl := Option.some.inj hj
    rcases finished with h | h <;> simp [JobOp.kind, JobOp.reporter, h]

section Runs

variable [Inhabited Pubkey] {D : Derivation Pubkey}

/-- In every run, the claims of a worker on a queue are their reports, the jobs they hold and the
expiries of jobs they held. -/
theorem claims_run (calls : List (Call Pubkey)) (k w : Pubkey) :
    countOps (fun j op => op.kind = .claim ∧ op.worker = some w ∧ j.queue = k)
        ((program D).log calls) =
      countOps (fun j op => op.reporter = some w ∧ j.queue = k) ((program D).log calls) +
        expiries k w ((program D).log calls) + ((program D).run calls).processing k w := by
  -- no operation is both a report and an expiry
  have hreports : countOps (fun j op => (op.reporter = some w ∧ j.queue = k) ∨
        (op.kind = .expire ∧ j.queue = k ∧ j.assignedWorker = some w)) ((program D).log calls) =
      countOps (fun j op => op.reporter = some w ∧ j.queue = k) ((program D).log calls) +
        expiries k w ((program D).log calls) := by
    refine countOps_add fun j op => ?_
    cases op with
    | fail w' permanent => cases permanent <;> simp [JobOp.reporter, JobOp.kind]
    | _ => simp [JobOp.reporter, JobOp.kind]
  rw [← hreports]
  refine balance_run _ _ _ ?_ calls
  intro σ now a op old new j hchange hj
  simpa using hchange.processing hj

/-- In every run, the counters of a worker on a queue count that worker's operations on its jobs. -/
theorem workerStat_run_worker (calls : List (Call Pubkey)) (x : WorkerStat) (k w : Pubkey) :
    ((program D).run calls).workerStat x (fun queue w' => queue = k ∧ w' = w) =
      countOps (fun j op => op.kind ∈ x.kinds ∧ op.worker = some w ∧ j.queue = k)
        ((program D).log calls) := by
  rw [workerStat_run]
  congr 1
  ext j op
  cases h : op.worker <;> simp [and_comm]

/-- In every run, the counters of all workers of a queue together count the operations on its
jobs. -/
theorem workerStat_run_queue (calls : List (Call Pubkey)) (x : WorkerStat) (k : Pubkey) :
    ((program D).run calls).workerStat x (fun queue _ => queue = k) =
      countOps (fun j op => op.kind ∈ x.kinds ∧ j.queue = k) ((program D).log calls) := by
  rw [workerStat_run]
  congr 1
  ext j op
  cases x <;> cases op <;> simp [WorkerStat.kinds, JobOp.kind, JobOp.worker]

omit [Inhabited Pubkey] in
/-- Reports are completions and failures. -/
theorem countOps_reporter (log : List (Entry Pubkey)) (k w : Pubkey) :
    countOps (fun j op => op.reporter = some w ∧ j.queue = k) log =
      countOps (fun j op => op.kind ∈ WorkerStat.completed.kinds ∧ op.worker = some w ∧
        j.queue = k) log +
      countOps (fun j op => op.kind ∈ WorkerStat.failed.kinds ∧ op.worker = some w ∧
        j.queue = k) log := by
  refine countOps_add fun j op => ?_
  cases op with
  | fail w' permanent =>
    cases permanent <;> simp [JobOp.reporter, JobOp.worker, JobOp.kind, WorkerStat.kinds]
  | _ => simp [JobOp.reporter, JobOp.worker, JobOp.kind, WorkerStat.kinds]

omit [Inhabited Pubkey] in
/-- A worker's counter is the sum over their registries on the queue, of which there is one. -/
theorem workerStat_eq {σ : Ledger Pubkey} (haddr : Addressed D σ) (x : WorkerStat) {k : Pubkey}
    {r : WorkerRegistry Pubkey} (hr : σ.workerRegistries.lookup k = some r) :
    σ.workerStat x (fun queue w => queue = r.queue ∧ w = r.worker) = (x.of r).toNat := by
  rw [Ledger.workerStat, Finmap.tally_eq_single hr]
  · simp
  · intro k' r' hr' hne
    -- another registry of the same worker and queue would have the same address
    rw [if_neg]
    intro hsame
    obtain ⟨hqueue, hworker⟩ := of_decide_eq_true hsame
    exact hne (haddr.registry_unique hr' hr hqueue hworker)

/-- In every run: the jobs a worker claimed are those they completed, those they reported as failed,
those they are processing and those expired while assigned to them, so they never completed more
than they claimed; over all workers of a queue the completed jobs are those of the queue, and the
failed ones are the failures reported on it, no fewer than its permanent failures. -/
theorem worker_statistics (calls : List (Call Pubkey)) :
    (∀ k r, ((program D).run calls).workerRegistries.lookup k = some r →
      r.jobsClaimed.toNat = r.jobsCompleted.toNat + r.jobsFailed.toNat +
          ((program D).run calls).processing r.queue r.worker +
          expiries r.queue r.worker ((program D).log calls) ∧
        r.jobsCompleted.toNat ≤ r.jobsClaimed.toNat) ∧
    ∀ k q, ((program D).run calls).queueConfigs.lookup k = some q →
      Finmap.tally (fun _ r => if r.queue = k then r.jobsCompleted.toNat else 0)
          ((program D).run calls).workerRegistries = q.totalCompleted.toNat ∧
        Finmap.tally (fun _ r => if r.queue = k then r.jobsFailed.toNat else 0)
          ((program D).run calls).workerRegistries = failures k ((program D).log calls) ∧
        q.totalFailed.toNat ≤ failures k ((program D).log calls) := by
  refine ⟨fun k r hr => ?_, fun k q hq => ?_⟩
  · -- the three counters as counts of operations, then the balance of those
    have hstat (x : WorkerStat) : (x.of r).toNat =
        countOps (fun j op => op.kind ∈ x.kinds ∧ op.worker = some r.worker ∧ j.queue = r.queue)
          ((program D).log calls) := by
      rw [← workerStat_run_worker, workerStat_eq (addressed_run calls) x hr]
    have hclaimed := hstat .claimed
    have hcompleted := hstat .completed
    have hfailed := hstat .failed
    have hclaims := claims_run (D := D) calls r.queue r.worker
    rw [countOps_reporter, ← hcompleted, ← hfailed] at hclaims
    simp only [WorkerStat.kinds, List.mem_singleton] at hclaimed
    rw [← hclaimed] at hclaims
    simp only [WorkerStat.of] at hclaims
    omega
  · have hsum (x : WorkerStat) :
        Finmap.tally (fun _ r => if r.queue = k then (x.of r).toNat else 0)
          ((program D).run calls).workerRegistries =
        countOps (fun j op => op.kind ∈ x.kinds ∧ j.queue = k) ((program D).log calls) := by
      rw [← workerStat_run_queue, Ledger.workerStat]
      simp only [decide_eq_true_eq]
    -- queue and workers count the same completions; permanent failures are some of the failures
    refine ⟨(hsum .completed).trans ?_, hsum .failed, ?_⟩
    · simp only [WorkerStat.kinds, List.mem_singleton]
      exact (queueStat_of_run calls hq .completed).symm
    · refine le_of_eq_of_le (queueStat_of_run calls hq .failed) (countOps_mono fun j op h => ?_)
      obtain ⟨hkind, hqueue⟩ := of_decide_eq_true h
      exact decide_eq_true ⟨hkind ▸ List.mem_cons_of_mem _ List.mem_cons_self, hqueue⟩

/-- The sample worker: three claims, one completed, one failed and one expired. -/
theorem worker_statistics_day :
    ((program Derivation.free).run Sample.day).processing Sample.queue Sample.worker +
      expiries Sample.queue Sample.worker ((program Derivation.free).log Sample.day) = 1 := by
  have hlookup : (((program Derivation.free).run Sample.day).workerRegistries.lookup
      (Sample.registry Sample.worker)).map
        (fun r => (r.queue, r.worker, r.jobsClaimed, r.jobsCompleted, r.jobsFailed)) =
      some (Sample.queue, Sample.worker, 3, 1, 1) := by decide +kernel
  obtain ⟨r, hr, hfields⟩ := Option.map_eq_some_iff.mp hlookup
  simp only [Prod.mk.injEq] at hfields
  obtain ⟨hqueue, hworker, hclaimed, hcompleted, hfailed⟩ := hfields
  obtain ⟨hbalance, -⟩ := (worker_statistics (D := Derivation.free) Sample.day).1 _ r hr
  rw [hqueue, hworker, hclaimed, hcompleted, hfailed,
    show (3 : UInt64).toNat = 3 from rfl, show (1 : UInt64).toNat = 1 from rfl] at hbalance
  omega

end Runs

end SolQueue
