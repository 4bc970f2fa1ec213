import SolQueue.Errors
import SolQueue.Lib.Checked
import SolQueue.Lib.Utf8

/-!
# Account types

The three account types of the program, over an arbitrary type of public keys:

* `QueueConfig` — a named queue, its authority, its settings and its lifetime counters.
* `WorkerRegistry` — one worker registered on one queue, with its statistics.
* `Job` — one unit of work and where it stands in the state machine `JobStatus`.
-/

namespace SolQueue

open Checked

variable {Pubkey : Type}

/-! ## Queues -/

/-- Root account of a named job queue. -/
structure QueueConfig (Pubkey : Type) where
  /-- The authority who can register and deactivate workers and pause the queue. -/
  authority : Pubkey
  /-- The queue name, null-padded to 32 bytes. -/
  queueName : Vector UInt8 32
  /-- The sequence number of the next job enqueued. -/
  nextJobSeq : UInt64
  totalEnqueued : UInt64
  totalCompleted : UInt64
  totalFailed : UInt64
  /-- Circuit breaker: while true, `enqueueJob` is rejected. -/
  isPaused : Bool
  /-- Default retry limit of the jobs of the queue. -/
  maxRetries : UInt8
  /-- After this many seconds of processing anyone can call `expireJob`. -/
  jobTimeoutSecs : Int64
  /-- Canonical bump of the account's address. -/
  bump : UInt8
  deriving DecidableEq

/-- Bytes of a `QueueConfig` account. -/
def QueueConfig.LEN : ℕ := 8 + 32 + 32 + 8 + 8 + 8 + 8 + 1 + 1 + 8 + 1

/-- The queue name as text, without its null padding. -/
def QueueConfig.nameStr (queue : QueueConfig Pubkey) : String :=
  (Utf8.decode (untilNull queue.queueName.toList)).getD "?"

/-- The stored form of a queue name. -/
def nameToBytes (name : String) : Except Error (Vector UInt8 32) := do
  require (name.asBytes.length ≤ 32) (.program .queueNameTooLong)
  return zeroPadded 32 name.asBytes

/-! ## Workers -/

/-- A worker registered on a queue. -/
structure WorkerRegistry (Pubkey : Type) where
  /-- The queue this worker is registered to. -/
  queue : Pubkey
  /-- The key that signs for the worker. -/
  worker : Pubkey
  registeredAt : Int64
  jobsCompleted : UInt64
  jobsFailed : UInt64
  jobsClaimed : UInt64
  /-- Set to false by the queue authority to deactivate the worker. -/
  isActive : Bool
  /-- Canonical bump of the account's address. -/
  bump : UInt8
  deriving DecidableEq

/-- Bytes of a `WorkerRegistry` account. -/
def WorkerRegistry.LEN : ℕ := 8 + 32 + 32 + 8 + 8 + 8 + 8 + 1 + 1

/-! ## Jobs -/

/-- Status of a job. -/
inductive JobStatus where
  /-- Waiting to be claimed by a worker. -/
  | pending
  /-- Claimed by a worker; currently being processed. -/
  | processing
  /-- Successfully completed. -/
  | completed
  /-- Exhausted all retries; permanently failed. -/
  | failed
  deriving DecidableEq, Repr

/-- A single unit of work. -/
structure Job (Pubkey : Type) where
  /-- The queue the job belongs to. -/
  queue : Pubkey
  /-- The queue's counter when the job was enqueued. -/
  seq : UInt64
  jobType : Vector UInt8 32
  payload : Vector UInt8 512
  status : JobStatus
  priority : UInt8
  /-- How many times the job has been reported as failed. -/
  retryCount : UInt8
  /-- The job fails permanently once `retryCount` exceeds this. -/
  maxRetries : UInt8
  assignedWorker : Option Pubkey
  /-- Who enqueued the job; the rent goes back to this key. -/
  creator : Pubkey
  enqueuedAt : Int64
  startedAt : Option Int64
  completedAt : Option Int64
  /-- Result or error message. -/
  result : Vector UInt8 128
  resultLen : UInt8
  /-- Canonical bump of the account's address. -/
  bump : UInt8
  deriving DecidableEq

/-- Bytes of a `Job` account. -/
def Job.LEN : ℕ := 8 + 32 + 8 + 32 + 512 + 1 + 1 + 1 + 1 + 33 + 32 + 8 + 9 + 9 + 128 + 1 + 1

/-- The job type as text, without its null padding. -/
def Job.jobTypeStr (job : Job Pubkey) : String :=
  (Utf8.decode (untilNull job.jobType.toList)).getD "?"

/-- The result as text. The slice is in bounds: every stored length is that of at most 128 bytes
(`stores_run`). -/
def Job.resultStr (job : Job Pubkey) : String :=
  (Utf8.decode (job.result.toList.take job.resultLen.toNat)).getD "?"

/-- Whether the job's worker has held it for longer than the timeout. The deadline is a checked
`i64` sum: the call aborts when it is out of range, whatever the clock reads. -/
def Job.isExpired (job : Job Pubkey) (now timeoutSecs : Int64) : Except Error Bool :=
  if job.status ≠ .processing then
    return false
  else
    match job.startedAt with
    | some started => do
      -- the deadline is out of range for a timeout near the ends of `i64`
      let deadline ← add .overflow started timeoutSecs
      return decide (now > deadline)
    | none => return false

/-- The stored form of a job type. -/
def jobTypeToBytes (s : String) : Except Error (Vector UInt8 32) := do
  require (s.asBytes.length ≤ 32) (.program .jobTypeTooLong)
  return zeroPadded 32 s.asBytes

/-- A Processing job is reported expired exactly when the exact deadline is in range and lies
strictly in the past. -/
theorem Job.isExpired_eq_ok_true {job : Job Pubkey} {now timeoutSecs : Int64} :
    job.isExpired now timeoutSecs = .ok true ↔
      job.status = .processing ∧ ∃ started, job.startedAt = some started ∧
        -2 ^ 63 ≤ started.toInt + timeoutSecs.toInt ∧
        started.toInt + timeoutSecs.toInt < now.toInt := by
  unfold Job.isExpired
  split_ifs with hstatus
  · simp [Except.pure_eq_ok, hstatus]
  · cases hstarted : job.startedAt with
    | none => simp [Except.pure_eq_ok]
    | some started =>
      have hnow := now.toInt_lt
      simp only [Except.bind_eq_ok, add_eq_ok_int64, Except.pure_eq_ok, decide_eq_true_eq,
        Option.some.injEq, exists_eq_left', not_ne_iff.mp hstatus, true_and, gt_iff_lt,
        Int64.lt_iff_toInt_lt]
      constructor
      · rintro ⟨deadline, hdeadline, hlt⟩
        have := deadline.le_toInt
        omega
      · rintro ⟨hlo, hlt⟩
        -- a deadline in the past is below some clock, so in range
        obtain ⟨deadline, hdeadline⟩ := exists_toInt_eq_int64.mpr ⟨hlo, by omega⟩
        exact ⟨deadline, hdeadline, by omega⟩

/-- A queue name is stored exactly when it has at most 32 bytes. -/
theorem nameToBytes_eq_ok {name : String} {bytes : Vector UInt8 32} :
    nameToBytes name = .ok bytes ↔
      name.asBytes.length ≤ 32 ∧ zeroPadded 32 name.asBytes = bytes := by
  simp only [nameToBytes, Except.bind_eq_ok, require_eq_ok, Except.pure_eq_ok, exists_const]

/-- A job type is stored exactly when it has at most 32 bytes. -/
theorem jobTypeToBytes_eq_ok {s : String} {bytes : Vector UInt8 32} :
    jobTypeToBytes s = .ok bytes ↔ s.asBytes.length ≤ 32 ∧ zeroPadded 32 s.asBytes = bytes := by
  simp only [jobTypeToBytes, Except.bind_eq_ok, require_eq_ok, Except.pure_eq_ok, exists_const]

end SolQueue
