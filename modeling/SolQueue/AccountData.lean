import SolQueue.Encoding
import SolQueue.Lib.Records

/-!
# Saving and loading accounts

The runtime saves an account over the front of its data, and loads it from there. The optional
fields of a job make its length vary, so a job may leave the last bytes of an earlier one behind.

* `Job.deserialize`, `QueueConfig.deserialize`, `WorkerRegistry.deserialize`: the fields of an
  account are read in the order of their declaration.
* `Job.layout`, `QueueConfig.layout`, `WorkerRegistry.layout`: each of them reads what was written,
  and its space is large enough.
* `Job.exists_saveAll`: a saved job is laid out as the dashboard finds it.
* `accounts_keepLast`: an account is loaded as it was saved last.
-/

namespace SolQueue

open Borsh (Reader Record Reads)

/-- The status with the given number. -/
def JobStatus.deserialize : Reader JobStatus := do
  let tag ← Borsh.u8
  if tag = 0 then return .pending
  else if tag = 1 then return .processing
  else if tag = 2 then return .completed
  else if tag = 3 then return .failed
  else failure

/-- Read the fields of a job. -/
def Job.deserialize : Reader (Job PublicKey) := do
  let queue ← Borsh.array 32
  let seq ← Borsh.u64
  let jobType ← Borsh.array 32
  let payload ← Borsh.array 512
  let status ← JobStatus.deserialize
  let priority ← Borsh.u8
  let retryCount ← Borsh.u8
  let maxRetries ← Borsh.u8
  let assignedWorker ← Borsh.option (Borsh.array 32)
  let creator ← Borsh.array 32
  let enqueuedAt ← Borsh.i64
  let startedAt ← Borsh.option Borsh.i64
  let completedAt ← Borsh.option Borsh.i64
  let result ← Borsh.array 128
  let resultLen ← Borsh.u8
  let bump ← Borsh.u8
  return { queue, seq, jobType, payload, status, priority, retryCount, maxRetries, assignedWorker,
           creator, enqueuedAt, startedAt, completedAt, result, resultLen, bump }

/-- Read the fields of a queue. -/
def QueueConfig.deserialize : Reader (QueueConfig PublicKey) := do
  let authority ← Borsh.array 32
  let queueName ← Borsh.array 32
  let nextJobSeq ← Borsh.u64
  let totalEnqueued ← Borsh.u64
  let totalCompleted ← Borsh.u64
  let totalFailed ← Borsh.u64
  let isPaused ← Borsh.bool
  let maxRetries ← Borsh.u8
  let jobTimeoutSecs ← Borsh.i64
  let bump ← Borsh.u8
  return { authority, queueName, nextJobSeq, totalEnqueued, totalCompleted, totalFailed, isPaused,
           maxRetries, jobTimeoutSecs, bump }

/-- Read the fields of a worker. -/
def WorkerRegistry.deserialize : Reader (WorkerRegistry PublicKey) := do
  let queue ← Borsh.array 32
  let worker ← Borsh.array 32
  let registeredAt ← Borsh.i64
  let jobsCompleted ← Borsh.u64
  let jobsFailed ← Borsh.u64
  let jobsClaimed ← Borsh.u64
  let isActive ← Borsh.bool
  let bump ← Borsh.u8
  return { queue, worker, registeredAt, jobsCompleted, jobsFailed, jobsClaimed, isActive, bump }

/-! ## What is read back -/

theorem JobStatus.reads_deserialize (status : JobStatus) :
    Reads deserialize [status.byte] status := by
  intro rest
  cases status <;> rfl

/-- An optional field is read back, and takes only its tag if there is nothing in it. -/
theorem reads_encodeOption {α : Type} {read : Reader α} {encode : α → List UInt8}
    (h : ∀ x, Reads read (encode x) x) (x : Option α) :
    Reads (Borsh.option read) (encodeOption encode x) x := by
  cases x with
  | none => exact Borsh.reads_option_none
  | some x => exact Borsh.reads_option_some (h x)

theorem Job.reads_deserialize (job : Job PublicKey) : Reads deserialize job.encode job := by
  unfold deserialize encode encodeTail
  refine (Borsh.reads_array job.queue).bind ?_
  refine (Borsh.reads_u64 job.seq).bind ?_
  refine (Borsh.reads_array job.jobType).bind ?_
  refine (Borsh.reads_array job.payload).bind ?_
  refine job.status.reads_deserialize.cons ?_
  refine (Borsh.reads_u8 job.priority).cons ?_
  refine (Borsh.reads_u8 job.retryCount).cons ?_
  refine (Borsh.reads_u8 job.maxRetries).cons ?_
  refine (reads_encodeOption Borsh.reads_array job.assignedWorker).bind ?_
  refine (Borsh.reads_array job.creator).bind ?_
  refine (Borsh.reads_i64 job.enqueuedAt).bind ?_
  refine (reads_encodeOption Borsh.reads_i64 job.startedAt).bind ?_
  refine (reads_encodeOption Borsh.reads_i64 job.completedAt).bind ?_
  refine (Borsh.reads_array job.result).bind ?_
  refine (Borsh.reads_u8 job.resultLen).cons ?_
  exact (Borsh.reads_u8 job.bump).cons .pure

theorem QueueConfig.reads_deserialize (queue : QueueConfig PublicKey) :
    Reads deserialize queue.encode queue := by
  unfold deserialize encode
  refine (Borsh.reads_array queue.authority).bind ?_
  refine (Borsh.reads_array queue.queueName).bind ?_
  refine (Borsh.reads_u64 queue.nextJobSeq).bind ?_
  refine (Borsh.reads_u64 queue.totalEnqueued).bind ?_
  refine (Borsh.reads_u64 queue.totalCompleted).bind ?_
  refine (Borsh.reads_u64 queue.totalFailed).bind ?_
  refine (Borsh.reads_bool queue.isPaused).cons ?_
  refine (Borsh.reads_u8 queue.maxRetries).cons ?_
  refine (Borsh.reads_i64 queue.jobTimeoutSecs).bind ?_
  exact (Borsh.reads_u8 queue.bump).cons .pure

theorem WorkerRegistry.reads_deserialize (registry : WorkerRegistry PublicKey) :
    Reads deserialize registry.encode registry := by
  unfold deserialize encode
  refine (Borsh.reads_array registry.queue).bind ?_
  refine (Borsh.reads_array registry.worker).bind ?_
  refine (Borsh.reads_i64 registry.registeredAt).bind ?_
  refine (Borsh.reads_u64 registry.jobsCompleted).bind ?_
  refine (Borsh.reads_u64 registry.jobsFailed).bind ?_
  refine (Borsh.reads_u64 registry.jobsClaimed).bind ?_
  refine (Borsh.reads_bool registry.isActive).cons ?_
  exact (Borsh.reads_u8 registry.bump).cons .pure

/-! ## The records of each account type -/

section Records

variable (discriminator : Vector UInt8 8)

/-- Jobs in their accounts. -/
def Job.layout : Record (Job PublicKey) Job.LEN where
  discriminator := discriminator
  write := Job.encode
  read := Job.deserialize
  reads := Job.reads_deserialize
  fits job := Nat.add_le_add_left job.length_encode_le 8

/-- Queues in their accounts. -/
def QueueConfig.layout : Record (QueueConfig PublicKey) QueueConfig.LEN where
  discriminator := discriminator
  write := QueueConfig.encode
  read := QueueConfig.deserialize
  reads := QueueConfig.reads_deserialize
  fits queue := Nat.add_le_add_left queue.length_encode.le 8

/-- Workers in their accounts. -/
def WorkerRegistry.layout : Record (WorkerRegistry PublicKey) WorkerRegistry.LEN where
  discriminator := discriminator
  write := WorkerRegistry.encode
  read := WorkerRegistry.deserialize
  reads := WorkerRegistry.reads_deserialize
  fits registry := Nat.add_le_add_left registry.length_encode.le 8

end Records

/-- Once a job is saved in a new account, after any other jobs, the data is laid out as that of the
job. -/
theorem Job.exists_saveAll (discriminator : Vector UInt8 8) (earlier : List (Job PublicKey))
    (job : Job PublicKey) :
    ∃ data, (Job.layout discriminator).saveAll (List.replicate Job.LEN 0) (earlier ++ [job]) =
      some data ∧ StoredAs job data := by
  obtain ⟨rest, hsave, hlength⟩ := Record.exists_saveAll_snoc (R := Job.layout discriminator)
    earlier job List.length_replicate
  refine ⟨_, hsave, hlength, discriminator.toList, rest, Vector.length_toList, ?_⟩
  exact List.append_assoc _ _ _

/-- Accounts of all types fit in their space whenever they are saved, and are loaded as they were
saved last. -/
theorem accounts_keepLast (jobDiscriminator queueDiscriminator workerDiscriminator :
    Vector UInt8 8) :
    (Job.layout jobDiscriminator).KeepsLast ∧ (QueueConfig.layout queueDiscriminator).KeepsLast ∧
      (WorkerRegistry.layout workerDiscriminator).KeepsLast :=
  ⟨Record.keepsLast _, Record.keepsLast _, Record.keepsLast _⟩

end SolQueue
