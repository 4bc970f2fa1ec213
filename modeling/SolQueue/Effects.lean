import SolQueue.Program

/-!
# What a step does to one account

A step writes at most one queue, one registry and one job. The relations below list the ways it
can change the account at one address; everything not listed is a frame condition. Invariants of
one account type are proved from its relation and never look at the other accounts.

* `QueueChange`, `Step.queueChange`: a queue is created, paused, or one of its counters moves.
* `RegistryChange`, `Step.registryChange`: a registry is created, deactivated, or counts.
* `JobChange`, `Step.jobChange`: a job goes through one operation `JobOp` of its state machine.
* `Enqueued`, `Step.enqueued`: what a committed `enqueueJob` call found and left.
-/

namespace SolQueue

variable {Pubkey : Type} [DecidableEq Pubkey]

/-! ## Queues -/

/-- The ways a step can change the queue at one address. -/
inductive QueueChange (D : Derivation Pubkey) (k : Pubkey) :
    Option (QueueConfig Pubkey) → Option (QueueConfig Pubkey) → Prop where
  | keep {queue : Option (QueueConfig Pubkey)} : QueueChange D k queue queue
  | create {ctx : InitializeQueue Pubkey} {params : InitializeQueueParams} {b : UInt8}
      (find : D.findProgramAddress (.queue params.queueName.asBytes) = some (k, b)) :
      QueueChange D k none
        (some (ctx.newQueue b params (zeroPadded 32 params.queueName.asBytes)))
  | pause {q : QueueConfig Pubkey} {pause : Bool} :
      QueueChange D k (some q) (some { q with isPaused := pause })
  | enqueue {q : QueueConfig Pubkey} {next total : UInt64}
      (next_eq : next.toNat = q.nextJobSeq.toNat + 1)
      (total_eq : total.toNat = q.totalEnqueued.toNat + 1) :
      QueueChange D k (some q) (some { q with nextJobSeq := next, totalEnqueued := total })
  | complete {q : QueueConfig Pubkey} {total : UInt64}
      (total_eq : total.toNat = q.totalCompleted.toNat + 1) :
      QueueChange D k (some q) (some { q with totalCompleted := total })
  | fail {q : QueueConfig Pubkey} {total : UInt64}
      (total_eq : total.toNat = q.totalFailed.toNat + 1) :
      QueueChange D k (some q) (some { q with totalFailed := total })

/-! ## Worker registries -/

/-- The ways a step can change the registry at one address. -/
inductive RegistryChange (D : Derivation Pubkey) (σ : Ledger Pubkey) (k : Pubkey) :
    Option (WorkerRegistry Pubkey) → Option (WorkerRegistry Pubkey) → Prop where
  | keep {registry : Option (WorkerRegistry Pubkey)} : RegistryChange D σ k registry registry
  | register {ctx : RegisterWorker Pubkey} {n : String} {q : QueueConfig Pubkey} {b : UInt8}
      {now : Int64} (queue : QueueAt D σ n ctx.queueConfig q)
      (authority : q.authority = ctx.authority)
      (find : D.findProgramAddress (.worker n.asBytes ctx.worker) = some (k, b)) :
      RegistryChange D σ k none (some (ctx.newRegistry b now))
  | deactivate {r : WorkerRegistry Pubkey} :
      RegistryChange D σ k (some r) (some { r with isActive := false })
  | claim {r : WorkerRegistry Pubkey} {claimed : UInt64} (active : r.isActive = true)
      (claimed_eq : claimed.toNat = r.jobsClaimed.toNat + 1) :
      RegistryChange D σ k (some r) (some { r with jobsClaimed := claimed })
  | complete {r : WorkerRegistry Pubkey} {completed : UInt64} (active : r.isActive = true)
      (completed_eq : completed.toNat = r.jobsCompleted.toNat + 1) :
      RegistryChange D σ k (some r) (some { r with jobsCompleted := completed })
  | fail {r : WorkerRegistry Pubkey} {failed : UInt64} (active : r.isActive = true)
      (failed_eq : failed.toNat = r.jobsFailed.toNat + 1) :
      RegistryChange D σ k (some r) (some { r with jobsFailed := failed })

/-! ## Jobs -/

/-- The operations on one job, with their signers. A failure is permanent when it leaves the job
Failed. -/
inductive JobOp (Pubkey : Type) where
  | enqueue (creator : Pubkey)
  | claim (worker : Pubkey)
  | complete (worker : Pubkey)
  | fail (worker : Pubkey) (permanent : Bool)
  | expire (caller : Pubkey)
  | close (creator : Pubkey)
  deriving DecidableEq

/-- The status of the job at `a`, if there is one. -/
def Ledger.statusAt (σ : Ledger Pubkey) (a : Pubkey) : Option JobStatus :=
  (σ.jobs.lookup a).map (·.status)

/-- The job a committed call operates on, and the operation. -/
def Entry.jobOp (e : Entry Pubkey) : Option (Pubkey × JobOp Pubkey) :=
  match e.call.instruction with
  | .enqueueJob ctx _ _ _ => some (ctx.job, .enqueue ctx.creator)
  | .claimJob ctx _ _ => some (ctx.job, .claim ctx.worker)
  | .completeJob ctx _ _ _ => some (ctx.job, .complete ctx.worker)
  | .failJob ctx _ _ _ =>
    some (ctx.job, .fail ctx.worker (e.after.statusAt ctx.job = some .failed))
  | .expireJob ctx _ _ => some (ctx.job, .expire ctx.caller)
  | .closeJob ctx _ _ => some (ctx.job, .close ctx.creator)
  | .initializeQueue .. | .setQueuePaused .. | .registerWorker .. | .deactivateWorker .. => none

/-- The operation of a committed call on the job at `a`, if it is one. -/
def Entry.opOn (a : Pubkey) (e : Entry Pubkey) : Option (JobOp Pubkey) :=
  match e.jobOp with
  | some (k, op) => if a = k then some op else none
  | none => none

/-- An operation on the job at `a` is the operation of the call. -/
theorem Entry.jobOp_of_opOn {e : Entry Pubkey} {a : Pubkey} {op : JobOp Pubkey}
    (h : e.opOn a = some op) : e.jobOp = some (a, op) := by
  unfold Entry.opOn at h
  split at h
  · next k op' hop =>
    split_ifs at h with ha
    rw [hop, ha, Option.some.inj h]
  · cases h

/-- The operations on the job at `a`, in the order they committed. -/
def opsOn (a : Pubkey) (log : List (Entry Pubkey)) : List (JobOp Pubkey) :=
  log.filterMap (Entry.opOn a)

/-- The key `w` has an active registry on the queue at `queue`. -/
def ActiveOn (D : Derivation Pubkey) (σ : Ledger Pubkey) (queue w : Pubkey) : Prop :=
  ∃ n k r, RegistryAt D σ n w queue k r ∧ r.isActive = true

/-- The ways a step at time `now` can change the job at `a`. -/
inductive JobChange (D : Derivation Pubkey) (σ : Ledger Pubkey) (now : Int64) (a : Pubkey) :
    Option (JobOp Pubkey) → Option (Job Pubkey) → Option (Job Pubkey) → Prop where
  | keep {job : Option (Job Pubkey)} : JobChange D σ now a none job job
  | enqueue {ctx : EnqueueJob Pubkey} {n : String} {s : UInt64} {params : EnqueueJobParams}
      {q : QueueConfig Pubkey} {b : UInt8} (queue : QueueAt D σ n ctx.queueConfig q)
      (unpaused : q.isPaused = false)
      (find : D.findProgramAddress (.job n.asBytes s) = some (a, b)) :
      JobChange D σ now a (some (.enqueue ctx.creator)) none
        (some (ctx.newJob b q now params (zeroPadded 32 params.jobType.asBytes)))
  | claim {j : Job Pubkey} {w : Pubkey} (pending : j.status = .pending)
      (active : ActiveOn D σ j.queue w) :
      JobChange D σ now a (some (.claim w)) (some j) (some (j.claimed w now))
  | complete {j : Job Pubkey} {w : Pubkey} {result : List UInt8} (held : j.HeldBy w)
      (active : ActiveOn D σ j.queue w) (length : result.length ≤ 128) :
      JobChange D σ now a (some (.complete w)) (some j) (some (j.completedWith result now))
  | failPermanent {j : Job Pubkey} {w : Pubkey} {reason : String} {retries : UInt8}
      (held : j.HeldBy w) (active : ActiveOn D σ j.queue w)
      (retries_eq : retries.toNat = j.retryCount.toNat + 1)
      (exhausted : j.maxRetries.toNat < retries.toNat) :
      JobChange D σ now a (some (.fail w true)) (some j) (some (j.failedFor reason retries now))
  | failRetry {j : Job Pubkey} {w : Pubkey} {reason : String} {retries : UInt8}
      (held : j.HeldBy w) (active : ActiveOn D σ j.queue w)
      (retries_eq : retries.toNat = j.retryCount.toNat + 1)
      (left : retries.toNat ≤ j.maxRetries.toNat) :
      JobChange D σ now a (some (.fail w false)) (some j) (some (j.retried reason retries))
  | expire {j : Job Pubkey} {caller : Pubkey} {q : QueueConfig Pubkey}
      (queue : σ.queueConfigs.lookup j.queue = some q) (processing : j.status = .processing)
      (expired : j.isExpired now q.jobTimeoutSecs = .ok true) :
      JobChange D σ now a (some (.expire caller)) (some j) (some j.expired)
  | close {j : Job Pubkey} (finished : j.status = .completed ∨ j.status = .failed) :
      JobChange D σ now a (some (.close j.creator)) (some j) none

/-! ## Every step is one of these changes at every address -/

/-- What a committed `enqueueJob` call under the name `n` with the argument `s` found and left. -/
structure Enqueued (D : Derivation Pubkey) (σ σ' : Ledger Pubkey) (ctx : EnqueueJob Pubkey)
    (n : String) (s : UInt64) (q : QueueConfig Pubkey) : Prop where
  queue : QueueAt D σ n ctx.queueConfig q
  find : ∃ b, D.findProgramAddress (.job n.asBytes s) = some (ctx.job, b)
  job : ∃ j, σ'.jobs.lookup ctx.job = some j ∧ j.seq = q.nextJobSeq ∧ j.queue = ctx.queueConfig
  counter : ∃ q', QueueAt D σ' n ctx.queueConfig q' ∧
    q'.nextJobSeq.toNat = q.nextJobSeq.toNat + 1

namespace Step

/-- A fresh address holds no account. -/
theorem lookup_of_fresh {D : Derivation Pubkey} {σ : Ledger Pubkey} {s : Seeds Pubkey}
    {k : Pubkey} {b : UInt8} (h : Fresh D σ s k b) :
    σ.queueConfigs.lookup k = none ∧ σ.workerRegistries.lookup k = none ∧
      σ.jobs.lookup k = none :=
  Ledger.lookup_eq_none_of_not_owned h.free

/-- The signer of a worker instruction is active on the queue of the job. -/
theorem activeOn_of_valid {D : Derivation Pubkey} {σ : Ledger Pubkey} {ctx : WorkerJob Pubkey}
    {n : String} {s : UInt64} {q : QueueConfig Pubkey} {r : WorkerRegistry Pubkey} {j : Job Pubkey}
    (valid : ctx.Valid D σ n s q r j) : ActiveOn D σ j.queue ctx.worker := by
  refine ⟨n, ctx.workerRegistry, r, ?_, valid.active⟩
  rw [valid.job.queue]
  exact valid.registry

/-- Writing one job is a change of that job and keeps all others. -/
theorem jobChange_insert {D : Derivation Pubkey} {σ : Ledger Pubkey} {now : Int64} {a k : Pubkey}
    {op : JobOp Pubkey} {j : Job Pubkey}
    (h : JobChange D σ now k (some op) (σ.jobs.lookup k) (some j)) :
    JobChange D σ now a (if a = k then some op else none) (σ.jobs.lookup a)
      ((σ.jobs.insert k j).lookup a) := by
  rw [Finmap.lookup_insert_eq_ite]
  split_ifs with ha
  · rwa [ha]
  · exact .keep

variable [Inhabited Pubkey] {D : Derivation Pubkey} {σ σ' : Ledger Pubkey} {c : Call Pubkey}
  {o : Outcome Pubkey}

/-- What a step does to the queue at `k`. -/
theorem queueChange (h : Step D σ c σ' o) (k : Pubkey) :
    QueueChange D k (σ.queueConfigs.lookup k) (σ'.queueConfigs.lookup k) := by
  -- five instructions write a queue, each the one in its accounts; the others write none
  cases h with
  | initializeQueue fresh length =>
    refine Finmap.lookup_insert_rel (P := QueueChange D) (fun _ => .keep) ?_
    rw [(lookup_of_fresh fresh).1]
    exact .create fresh.find
  | setQueuePaused queue authority =>
    refine Finmap.lookup_insert_rel (P := QueueChange D) (fun _ => .keep) ?_
    rw [queue.lookup]
    exact .pause
  | enqueueJob queue fresh unpaused payload jobType next_eq total_eq =>
    refine Finmap.lookup_insert_rel (P := QueueChange D) (fun _ => .keep) ?_
    rw [queue.lookup]
    exact .enqueue next_eq total_eq
  | completeJob valid held length duration_eq total_eq completed_eq =>
    refine Finmap.lookup_insert_rel (P := QueueChange D) (fun _ => .keep) ?_
    rw [valid.queue.lookup]
    exact .complete total_eq
  | failJobPermanent valid held retries_eq failed_eq exhausted total_eq =>
    refine Finmap.lookup_insert_rel (P := QueueChange D) (fun _ => .keep) ?_
    rw [valid.queue.lookup]
    exact .fail total_eq
  | registerWorker | deactivateWorker | claimJob | failJobRetry | expireJob | closeJob =>
    exact .keep

/-- What a step does to the registry at `k`. -/
theorem registryChange (h : Step D σ c σ' o) (k : Pubkey) :
    RegistryChange D σ k (σ.workerRegistries.lookup k) (σ'.workerRegistries.lookup k) := by
  -- an expiry writes no registry, not even that of the worker who held the job
  cases h with
  | registerWorker queue authority fresh =>
    refine Finmap.lookup_insert_rel (P := RegistryChange D σ) (fun _ => .keep) ?_
    rw [(lookup_of_fresh fresh).2.1]
    exact .register queue authority fresh.find
  | deactivateWorker queue authority registry =>
    refine Finmap.lookup_insert_rel (P := RegistryChange D σ) (fun _ => .keep) ?_
    rw [registry.lookup]
    exact .deactivate
  | claimJob valid pending claimed_eq =>
    refine Finmap.lookup_insert_rel (P := RegistryChange D σ) (fun _ => .keep) ?_
    rw [valid.registry.lookup]
    exact .claim valid.active claimed_eq
  | completeJob valid held length duration_eq total_eq completed_eq =>
    refine Finmap.lookup_insert_rel (P := RegistryChange D σ) (fun _ => .keep) ?_
    rw [valid.registry.lookup]
    exact .complete valid.active completed_eq
  | failJobPermanent valid held retries_eq failed_eq exhausted total_eq =>
    refine Finmap.lookup_insert_rel (P := RegistryChange D σ) (fun _ => .keep) ?_
    rw [valid.registry.lookup]
    exact .fail valid.active failed_eq
  | failJobRetry valid held retries_eq failed_eq left attempts =>
    refine Finmap.lookup_insert_rel (P := RegistryChange D σ) (fun _ => .keep) ?_
    rw [valid.registry.lookup]
    exact .fail valid.active failed_eq
  | initializeQueue | setQueuePaused | enqueueJob | expireJob | closeJob => exact .keep

/-- What a step does to the job at `a`. -/
theorem jobChange (h : Step D σ c σ' o) (a : Pubkey) :
    JobChange D σ c.now a (Entry.opOn a ⟨σ, c, o, σ'⟩) (σ.jobs.lookup a) (σ'.jobs.lookup a) := by
  cases h with
  | initializeQueue | setQueuePaused | registerWorker | deactivateWorker => exact .keep
  | enqueueJob queue fresh unpaused payload jobType next_eq total_eq =>
    refine jobChange_insert ?_
    rw [(lookup_of_fresh fresh).2.2]
    exact .enqueue queue unpaused fresh.find
  | claimJob valid pending claimed_eq =>
    refine jobChange_insert ?_
    rw [valid.job.lookup]
    exact .claim pending (activeOn_of_valid valid)
  | completeJob valid held length duration_eq total_eq completed_eq =>
    refine jobChange_insert ?_
    rw [valid.job.lookup]
    exact .complete held (activeOn_of_valid valid) length
  | failJobPermanent valid held retries_eq failed_eq exhausted total_eq =>
    refine jobChange_insert ?_
    -- the job is Failed now, so the operation is a permanent failure
    rw [valid.job.lookup, Ledger.statusAt, Finmap.lookup_insert]
    exact .failPermanent held (activeOn_of_valid valid) retries_eq exhausted
  | failJobRetry valid held retries_eq failed_eq left attempts =>
    refine jobChange_insert ?_
    -- the job is Pending now, so it is not
    rw [valid.job.lookup, Ledger.statusAt, Finmap.lookup_insert]
    exact .failRetry held (activeOn_of_valid valid) retries_eq left
  | expireJob queue job processing expired =>
    refine jobChange_insert ?_
    rw [job.lookup]
    exact .expire (job.queue ▸ queue.lookup) processing expired
  | closeJob queue job creator finished =>
    simp only [Entry.opOn, Entry.jobOp, Finmap.lookup_erase_eq_ite]
    split_ifs with ha
    · rw [ha, job.lookup, ← creator]
      exact .close finished
    · exact .keep

/-- Every committed `enqueueJob` call gives the job the counter and moves the counter on. -/
theorem enqueued {now : Int64} {ctx : EnqueueJob Pubkey} {n : String} {s : UInt64}
    {params : EnqueueJobParams} (h : Step D σ ⟨now, .enqueueJob ctx n s params⟩ σ' o) :
    ∃ q, Enqueued D σ σ' ctx n s q := by
  cases h with
  | @enqueueJob _ _ _ _ _ q _ _ _ queue fresh unpaused payload jobType next_eq total_eq =>
    refine ⟨q, queue, ⟨_, fresh.find⟩, ⟨_, Finmap.lookup_insert _, rfl, rfl⟩, ?_⟩
    exact ⟨_, ⟨Finmap.lookup_insert _, queue.seeds⟩, next_eq⟩

end Step

end SolQueue
