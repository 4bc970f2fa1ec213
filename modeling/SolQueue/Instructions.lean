import SolQueue.Accounts
import SolQueue.Events

/-!
# Instructions

The ten instructions of the program. Each comes with the accounts a caller passes to it, a
`tryAccounts` that loads them and checks their constraints, and a `handler` on the loaded
accounts; the instruction itself runs both and writes the accounts back.

The constraints are checked in the order of the generated code: load every account, `init`, then
account by account the `seeds` before the other constraints. A caller may pass any keys. Signers
are the keys named `authority`, `creator`, `worker` (of a worker instruction) and `caller`.
-/

namespace SolQueue

open Checked

variable {Pubkey : Type} [DecidableEq Pubkey]

/-- The outcome of a handler that emits one event and moves no lamports. -/
def Outcome.emit (event : Event Pubkey) : Outcome Pubkey :=
  ⟨[event], []⟩

/-! ## Queue management -/

/-- The accounts of `initialize_queue`. -/
structure InitializeQueue (Pubkey : Type) where
  authority : Pubkey
  queueConfig : Pubkey

/-- The arguments of `initialize_queue`: the name of the queue and its settings. -/
structure InitializeQueueParams where
  queueName : String
  maxRetries : UInt8
  jobTimeoutSecs : Int64

/-- The queue stored by `initialize_queue`. -/
def InitializeQueue.newQueue (ctx : InitializeQueue Pubkey) (bump : UInt8)
    (params : InitializeQueueParams) (queueName : Vector UInt8 32) : QueueConfig Pubkey where
  authority := ctx.authority
  queueName := queueName
  nextJobSeq := 0
  totalEnqueued := 0
  totalCompleted := 0
  totalFailed := 0
  isPaused := false
  maxRetries := params.maxRetries
  jobTimeoutSecs := params.jobTimeoutSecs
  bump := bump

/-- The body of `initialize_queue`: pads the name, and stores and announces an unpaused queue. -/
def InitializeQueue.handler (ctx : InitializeQueue Pubkey) (bump : UInt8) (now : Int64)
    (params : InitializeQueueParams) : Except Error (QueueConfig Pubkey × Event Pubkey) := do
  let queueName ← nameToBytes params.queueName
  -- neither the retry limit nor the timeout is checked
  return (ctx.newQueue bump params queueName,
    .queuePauseToggled ctx.queueConfig false ctx.authority now)

/-- Create a new named job queue. -/
def initializeQueue (D : Derivation Pubkey) (σ : Ledger Pubkey) (now : Int64)
    (ctx : InitializeQueue Pubkey) (params : InitializeQueueParams) :
    Except Error (Ledger Pubkey × Outcome Pubkey) := do
  let bump ← D.initAccount σ (.queue params.queueName.asBytes) ctx.queueConfig
  let (queue, event) ← ctx.handler bump now params
  return ({ σ with queueConfigs := σ.queueConfigs.insert ctx.queueConfig queue },
    ⟨[event], [.rent ctx.authority ctx.queueConfig QueueConfig.LEN]⟩)

/-- The accounts of `set_queue_paused`. -/
structure PauseQueue (Pubkey : Type) where
  authority : Pubkey
  queueConfig : Pubkey

/-- Loads a queue by its name for a call its authority signs. -/
def PauseQueue.tryAccounts (D : Derivation Pubkey) (σ : Ledger Pubkey) (ctx : PauseQueue Pubkey)
    (queueName : String) : Except Error (QueueConfig Pubkey) := do
  let queue ← σ.loadQueueConfig ctx.queueConfig
  D.checkSeeds (.queue queueName.asBytes) queue.bump ctx.queueConfig
  require (queue.authority = ctx.authority) (.program .unauthorized)
  return queue

/-- Pause or resume a queue. -/
def setQueuePaused (D : Derivation Pubkey) (σ : Ledger Pubkey) (now : Int64)
    (ctx : PauseQueue Pubkey) (queueName : String) (pause : Bool) :
    Except Error (Ledger Pubkey × Outcome Pubkey) := do
  let queue ← ctx.tryAccounts D σ queueName
  let queue := { queue with isPaused := pause }
  return ({ σ with queueConfigs := σ.queueConfigs.insert ctx.queueConfig queue },
    .emit (.queuePauseToggled ctx.queueConfig pause ctx.authority now))

/-! ## Worker management -/

/-- The accounts of `register_worker`. -/
structure RegisterWorker (Pubkey : Type) where
  authority : Pubkey
  queueConfig : Pubkey
  worker : Pubkey
  workerRegistry : Pubkey

/-- Loads a queue for its authority and creates the registry of the worker. The bump of the new
address is kept. -/
def RegisterWorker.tryAccounts (D : Derivation Pubkey) (σ : Ledger Pubkey)
    (ctx : RegisterWorker Pubkey) (queueName : String) : Except Error UInt8 := do
  let queue ← σ.loadQueueConfig ctx.queueConfig
  let bump ← D.initAccount σ (.worker queueName.asBytes ctx.worker) ctx.workerRegistry
  D.checkSeeds (.queue queueName.asBytes) queue.bump ctx.queueConfig
  require (queue.authority = ctx.authority) (.program .unauthorized)
  return bump

/-- The registry stored by `register_worker`. -/
def RegisterWorker.newRegistry (ctx : RegisterWorker Pubkey) (bump : UInt8) (now : Int64) :
    WorkerRegistry Pubkey where
  queue := ctx.queueConfig
  worker := ctx.worker
  registeredAt := now
  jobsCompleted := 0
  jobsFailed := 0
  jobsClaimed := 0
  isActive := true
  bump := bump

/-- Register a worker to process jobs on a queue. -/
def registerWorker (D : Derivation Pubkey) (σ : Ledger Pubkey) (now : Int64)
    (ctx : RegisterWorker Pubkey) (queueName : String) :
    Except Error (Ledger Pubkey × Outcome Pubkey) := do
  let bump ← ctx.tryAccounts D σ queueName
  let registry := ctx.newRegistry bump now
  return ({ σ with workerRegistries := σ.workerRegistries.insert ctx.workerRegistry registry },
    ⟨[.workerRegistered ctx.queueConfig ctx.worker now],
      [.rent ctx.authority ctx.workerRegistry WorkerRegistry.LEN]⟩)

/-- The accounts of `deactivate_worker`. -/
structure DeactivateWorker (Pubkey : Type) where
  authority : Pubkey
  queueConfig : Pubkey
  worker : Pubkey
  workerRegistry : Pubkey

/-- Loads the registry of a worker on a queue whose authority signs. -/
def DeactivateWorker.tryAccounts (D : Derivation Pubkey) (σ : Ledger Pubkey)
    (ctx : DeactivateWorker Pubkey) (queueName : String) :
    Except Error (WorkerRegistry Pubkey) := do
  let queue ← σ.loadQueueConfig ctx.queueConfig
  let registry ← σ.loadWorkerRegistry ctx.workerRegistry
  D.checkSeeds (.queue queueName.asBytes) queue.bump ctx.queueConfig
  require (queue.authority = ctx.authority) (.program .unauthorized)
  D.checkSeeds (.worker queueName.asBytes ctx.worker) registry.bump ctx.workerRegistry
  require (registry.queue = ctx.queueConfig) (.program .invalidQueue)
  return registry

/-- Deactivate a registered worker. -/
def deactivateWorker (D : Derivation Pubkey) (σ : Ledger Pubkey) (now : Int64)
    (ctx : DeactivateWorker Pubkey) (queueName : String) :
    Except Error (Ledger Pubkey × Outcome Pubkey) := do
  let registry ← ctx.tryAccounts D σ queueName
  let registry := { registry with isActive := false }
  return ({ σ with workerRegistries := σ.workerRegistries.insert ctx.workerRegistry registry },
    .emit (.workerDeactivated ctx.queueConfig ctx.worker ctx.authority now))

/-! ## Enqueueing -/

/-- The accounts of `enqueue_job`. -/
structure EnqueueJob (Pubkey : Type) where
  creator : Pubkey
  queueConfig : Pubkey
  job : Pubkey

/-- The arguments of `enqueue_job` after the name and number that give the address. -/
structure EnqueueJobParams where
  queueName : String
  jobType : String
  payload : List UInt8
  priority : UInt8
  maxRetriesOverride : Option UInt8

/-- Loads an unpaused queue and creates the account of the job at the number the caller passed. -/
def EnqueueJob.tryAccounts (D : Derivation Pubkey) (σ : Ledger Pubkey) (ctx : EnqueueJob Pubkey)
    (queueName : String) (seq : UInt64) : Except Error (QueueConfig Pubkey × UInt8) := do
  let queue ← σ.loadQueueConfig ctx.queueConfig
  let bump ← D.initAccount σ (.job queueName.asBytes seq) ctx.job
  D.checkSeeds (.queue queueName.asBytes) queue.bump ctx.queueConfig
  require (queue.isPaused = false) (.program .queuePaused)
  return (queue, bump)

/-- The job stored by `enqueue_job`. Its number is the queue's counter: the `seq` argument of the
instruction only names the address. -/
def EnqueueJob.newJob (ctx : EnqueueJob Pubkey) (bump : UInt8) (queue : QueueConfig Pubkey)
    (now : Int64) (params : EnqueueJobParams) (jobType : Vector UInt8 32) : Job Pubkey where
  queue := ctx.queueConfig
  seq := queue.nextJobSeq
  jobType := jobType
  payload := zeroPadded 512 params.payload
  status := .pending
  priority := params.priority
  retryCount := 0
  -- an override of 0 is a limit of 0: only an absent one takes the queue's default
  maxRetries := params.maxRetriesOverride.getD queue.maxRetries
  assignedWorker := none
  creator := ctx.creator
  enqueuedAt := now
  startedAt := none
  completedAt := none
  result := zeroPadded 128 []
  resultLen := 0
  bump := bump

/-- The body of `enqueue_job`: checks the lengths, writes the job under the counter and advances
both counters of the queue. -/
def EnqueueJob.handler (ctx : EnqueueJob Pubkey) (bump : UInt8) (queue : QueueConfig Pubkey)
    (now : Int64) (params : EnqueueJobParams) :
    Except Error (QueueConfig Pubkey × Job Pubkey × Event Pubkey) := do
  require (params.payload.length ≤ 512) (.program .payloadTooLarge)
  -- the `seq` argument of the instruction is not compared with the counter
  let seq := queue.nextJobSeq
  let jobType ← jobTypeToBytes params.jobType
  let job := ctx.newJob bump queue now params jobType
  let nextJobSeq ← add .overflow seq 1
  let totalEnqueued ← add .overflow queue.totalEnqueued 1
  let queue := { queue with nextJobSeq := nextJobSeq, totalEnqueued := totalEnqueued }
  return (queue, job, .jobEnqueued ctx.queueConfig ctx.job seq params.jobType params.priority
    ctx.creator now)

/-- Enqueue a new job. Any signer can call this. -/
def enqueueJob (D : Derivation Pubkey) (σ : Ledger Pubkey) (now : Int64)
    (ctx : EnqueueJob Pubkey) (queueName : String) (seq : UInt64) (params : EnqueueJobParams) :
    Except Error (Ledger Pubkey × Outcome Pubkey) := do
  let (queue, bump) ← ctx.tryAccounts D σ queueName seq
  let (queue, job, event) ← ctx.handler bump queue now params
  return ({ σ with
      queueConfigs := σ.queueConfigs.insert ctx.queueConfig queue
      jobs := σ.jobs.insert ctx.job job },
    ⟨[event], [.rent ctx.creator ctx.job Job.LEN]⟩)

/-! ## Working on jobs -/

/-- The accounts of `claim_job`, `complete_job` and `fail_job`, which are declared alike. -/
structure WorkerJob (Pubkey : Type) where
  worker : Pubkey
  queueConfig : Pubkey
  workerRegistry : Pubkey
  job : Pubkey

/-- Loads a queue, an active registry of the signing worker on it and one of its jobs. -/
def WorkerJob.tryAccounts (D : Derivation Pubkey) (σ : Ledger Pubkey) (ctx : WorkerJob Pubkey)
    (queueName : String) (seq : UInt64) :
    Except Error (QueueConfig Pubkey × WorkerRegistry Pubkey × Job Pubkey) := do
  let queue ← σ.loadQueueConfig ctx.queueConfig
  let registry ← σ.loadWorkerRegistry ctx.workerRegistry
  let job ← σ.loadJob ctx.job
  D.checkSeeds (.queue queueName.asBytes) queue.bump ctx.queueConfig
  -- the worker is registered on this queue, and active
  D.checkSeeds (.worker queueName.asBytes ctx.worker) registry.bump ctx.workerRegistry
  require (registry.queue = ctx.queueConfig) (.program .invalidQueue)
  require (registry.isActive = true) (.program .workerDeactivated)
  -- the job is one of this queue
  D.checkSeeds (.job queueName.asBytes seq) job.bump ctx.job
  require (job.queue = ctx.queueConfig) (.program .invalidQueue)
  return (queue, registry, job)

/-- The job after `claim_job` by `worker`. -/
def Job.claimed (job : Job Pubkey) (worker : Pubkey) (now : Int64) : Job Pubkey :=
  { job with status := .processing, assignedWorker := some worker, startedAt := some now }

/-- The body of `claim_job`: takes a Pending job and counts the claim. -/
def ClaimJob.handler (ctx : WorkerJob Pubkey) (registry : WorkerRegistry Pubkey)
    (job : Job Pubkey) (now : Int64) :
    Except Error (WorkerRegistry Pubkey × Job Pubkey × Event Pubkey) := do
  require (job.status = .pending) (.program .jobNotPending)
  let jobsClaimed ← add .overflow registry.jobsClaimed 1
  return ({ registry with jobsClaimed := jobsClaimed }, job.claimed ctx.worker now,
    .jobClaimed ctx.job job.seq ctx.worker now)

/-- Claim a Pending job for processing. -/
def claimJob (D : Derivation Pubkey) (σ : Ledger Pubkey) (now : Int64) (ctx : WorkerJob Pubkey)
    (queueName : String) (seq : UInt64) : Except Error (Ledger Pubkey × Outcome Pubkey) := do
  let (_, registry, job) ← ctx.tryAccounts D σ queueName seq
  let (registry, job, event) ← ClaimJob.handler ctx registry job now
  return ({ σ with
      workerRegistries := σ.workerRegistries.insert ctx.workerRegistry registry
      jobs := σ.jobs.insert ctx.job job },
    .emit event)

/-- The argument of `complete_job`: the bytes of the result. -/
structure CompleteJobParams where
  result : List UInt8

/-- The job after `complete_job` with `result`. -/
def Job.completedWith (job : Job Pubkey) (result : List UInt8) (now : Int64) : Job Pubkey :=
  { job with
    result := zeroPadded 128 result
    resultLen := UInt8.ofNat result.length
    status := .completed
    completedAt := some now }

/-- The body of `complete_job`: the assigned worker stores the result of a Processing job, and the
queue and the worker count it. -/
def CompleteJob.handler (ctx : WorkerJob Pubkey) (queue : QueueConfig Pubkey)
    (registry : WorkerRegistry Pubkey) (job : Job Pubkey) (now : Int64)
    (params : CompleteJobParams) :
    Except Error (QueueConfig Pubkey × WorkerRegistry Pubkey × Job Pubkey × Event Pubkey) := do
  require (job.status = .processing) (.program .jobNotProcessing)
  require (job.assignedWorker = some ctx.worker) (.program .wrongWorker)
  require (params.result.length ≤ 128) (.program .resultTooLarge)
  -- a checked `i64` difference, computed for the event and the log line only
  let duration ← sub .overflow now (job.startedAt.getD now)
  let totalCompleted ← add .overflow queue.totalCompleted 1
  let jobsCompleted ← add .overflow registry.jobsCompleted 1
  return ({ queue with totalCompleted := totalCompleted },
    { registry with jobsCompleted := jobsCompleted },
    job.completedWith params.result now,
    .jobCompleted ctx.job job.seq ctx.worker duration now)

/-- Mark a Processing job as Completed. -/
def completeJob (D : Derivation Pubkey) (σ : Ledger Pubkey) (now : Int64)
    (ctx : WorkerJob Pubkey) (queueName : String) (seq : UInt64) (params : CompleteJobParams) :
    Except Error (Ledger Pubkey × Outcome Pubkey) := do
  let (queue, registry, job) ← ctx.tryAccounts D σ queueName seq
  let (queue, registry, job, event) ← CompleteJob.handler ctx queue registry job now params
  return ({ σ with
      queueConfigs := σ.queueConfigs.insert ctx.queueConfig queue
      workerRegistries := σ.workerRegistries.insert ctx.workerRegistry registry
      jobs := σ.jobs.insert ctx.job job },
    .emit event)

/-- The argument of `fail_job`: why the job failed, of any length. -/
structure FailJobParams where
  reason : String

/-- The job with its failure counted and the reason, cut at 128 bytes, in its result. -/
def Job.withFailure (job : Job Pubkey) (reason : String) (retryCount : UInt8) : Job Pubkey :=
  { job with
    result := zeroPadded 128 (reason.asBytes.take (min reason.asBytes.length 128))
    resultLen := UInt8.ofNat (min reason.asBytes.length 128)
    retryCount := retryCount }

/-- The job after a `fail_job` that exhausts its retries. -/
def Job.failedFor (job : Job Pubkey) (reason : String) (retryCount : UInt8) (now : Int64) :
    Job Pubkey :=
  { job.withFailure reason retryCount with status := .failed, completedAt := some now }

/-- The job after a `fail_job` that leaves a retry. -/
def Job.retried (job : Job Pubkey) (reason : String) (retryCount : UInt8) : Job Pubkey :=
  { job.withFailure reason retryCount with
    status := .pending, assignedWorker := none, startedAt := none }

/-- The body of `fail_job`: the assigned worker returns a Processing job to Pending, or fails it for
good once its retries are used up. -/
def FailJob.handler (ctx : WorkerJob Pubkey) (queue : QueueConfig Pubkey)
    (registry : WorkerRegistry Pubkey) (job : Job Pubkey) (now : Int64) (params : FailJobParams) :
    Except Error (QueueConfig Pubkey × WorkerRegistry Pubkey × Job Pubkey × Event Pubkey) := do
  require (job.status = .processing) (.program .jobNotProcessing)
  require (job.assignedWorker = some ctx.worker) (.program .wrongWorker)
  let retryCount ← add .overflow job.retryCount 1
  let jobsFailed ← add .overflow registry.jobsFailed 1
  let registry := { registry with jobsFailed := jobsFailed }
  -- the event of both branches carries the new count
  let event permanent :=
    Event.jobFailed ctx.job job.seq ctx.worker retryCount permanent now
  if retryCount > job.maxRetries then
    let totalFailed ← add .overflow queue.totalFailed 1
    return ({ queue with totalFailed := totalFailed }, registry,
      job.failedFor params.reason retryCount now, event true)
  else
    -- the log line prints the number of attempts: a `u8` sum, checked like any other
    let _attempts ← add .overflow job.maxRetries 1
    return (queue, registry, job.retried params.reason retryCount, event false)

/-- Report a job as failed: it returns to Pending, or fails permanently once its retries are
exhausted. -/
def failJob (D : Derivation Pubkey) (σ : Ledger Pubkey) (now : Int64) (ctx : WorkerJob Pubkey)
    (queueName : String) (seq : UInt64) (params : FailJobParams) :
    Except Error (Ledger Pubkey × Outcome Pubkey) := do
  let (queue, registry, job) ← ctx.tryAccounts D σ queueName seq
  let (queue, registry, job, event) ← FailJob.handler ctx queue registry job now params
  return ({ σ with
      queueConfigs := σ.queueConfigs.insert ctx.queueConfig queue
      workerRegistries := σ.workerRegistries.insert ctx.workerRegistry registry
      jobs := σ.jobs.insert ctx.job job },
    .emit event)

/-! ## Expiring and closing jobs -/

/-- The accounts of `expire_job`. -/
structure ExpireJob (Pubkey : Type) where
  caller : Pubkey
  queueConfig : Pubkey
  job : Pubkey

/-- Loads a queue and one of its jobs. The caller is not compared with anything. -/
def ExpireJob.tryAccounts (D : Derivation Pubkey) (σ : Ledger Pubkey) (ctx : ExpireJob Pubkey)
    (queueName : String) (seq : UInt64) : Except Error (QueueConfig Pubkey × Job Pubkey) := do
  let queue ← σ.loadQueueConfig ctx.queueConfig
  let job ← σ.loadJob ctx.job
  D.checkSeeds (.queue queueName.asBytes) queue.bump ctx.queueConfig
  D.checkSeeds (.job queueName.asBytes seq) job.bump ctx.job
  require (job.queue = ctx.queueConfig) (.program .invalidQueue)
  return (queue, job)

/-- The note `expire_job` leaves in the result. -/
def ExpireJob.note : List UInt8 := "expired: worker timeout".asBytes

/-- The job after `expire_job`. -/
def Job.expired (job : Job Pubkey) : Job Pubkey :=
  { job with
    status := .pending
    assignedWorker := none
    startedAt := none
    -- the retry count stays: an expiry is not the worker's fault
    result := zeroPadded 128 ExpireJob.note
    resultLen := UInt8.ofNat ExpireJob.note.length }

/-- The body of `expire_job`: a Processing job past its lease returns to Pending. -/
def ExpireJob.handler [Inhabited Pubkey] (ctx : ExpireJob Pubkey) (queue : QueueConfig Pubkey)
    (job : Job Pubkey) (now : Int64) : Except Error (Job Pubkey × Event Pubkey) := do
  require (job.status = .processing) (.program .cannotExpireNonProcessingJob)
  let expired ← job.isExpired now queue.jobTimeoutSecs
  require (expired = true) (.program .jobNotExpired)
  let previousWorker := job.assignedWorker.getD default
  return (job.expired, .jobExpired ctx.job job.seq previousWorker now)

/-- Expire a stale Processing job back to Pending. Anyone can call this. -/
def expireJob [Inhabited Pubkey] (D : Derivation Pubkey) (σ : Ledger Pubkey) (now : Int64)
    (ctx : ExpireJob Pubkey) (queueName : String) (seq : UInt64) :
    Except Error (Ledger Pubkey × Outcome Pubkey) := do
  let (queue, job) ← ctx.tryAccounts D σ queueName seq
  let (job, event) ← ctx.handler queue job now
  return ({ σ with jobs := σ.jobs.insert ctx.job job }, .emit event)

/-- The accounts of `close_job`. -/
structure CloseJob (Pubkey : Type) where
  creator : Pubkey
  queueConfig : Pubkey
  job : Pubkey

/-- Loads a Completed or Failed job of a queue for the creator, who signs. -/
def CloseJob.tryAccounts (D : Derivation Pubkey) (σ : Ledger Pubkey) (ctx : CloseJob Pubkey)
    (queueName : String) (seq : UInt64) : Except Error (Job Pubkey) := do
  let queue ← σ.loadQueueConfig ctx.queueConfig
  let job ← σ.loadJob ctx.job
  D.checkSeeds (.queue queueName.asBytes) queue.bump ctx.queueConfig
  D.checkSeeds (.job queueName.asBytes seq) job.bump ctx.job
  require (job.queue = ctx.queueConfig) (.program .invalidQueue)
  require (job.creator = ctx.creator) (.program .unauthorized)
  -- only finished jobs are closed
  require (job.status = .completed ∨ job.status = .failed) (.program .jobNotProcessing)
  return job

/-- Close a Completed or Failed job account, reclaiming its rent to the creator. The handler only
logs; the account is emptied by the `close` constraint. -/
def closeJob (D : Derivation Pubkey) (σ : Ledger Pubkey) (ctx : CloseJob Pubkey)
    (queueName : String) (seq : UInt64) : Except Error (Ledger Pubkey × Outcome Pubkey) := do
  let _job ← ctx.tryAccounts D σ queueName seq
  return ({ σ with jobs := σ.jobs.erase ctx.job }, ⟨[], [.close ctx.job ctx.creator]⟩)

end SolQueue
