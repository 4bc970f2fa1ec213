import SolQueue.Lib.LittleEndian
import SolQueue.State

/-!
# How accounts are stored

The bytes of an account: a discriminator of eight bytes, the fields of its type in the order of
their declaration, and the rest of its space.

* `PublicKey`: keys as the 32 bytes they are stored as.
* `Job.encode`: the fields of a job. Optional fields have a tag byte, and are left out if there is
  nothing in them.
* `QueueConfig.encode`, `WorkerRegistry.encode`: the fields of the other two account types.
* `StoredAs`: the data of the account of a job.
-/

namespace SolQueue

/-- A key as it is stored. -/
abbrev PublicKey := Vector UInt8 32

/-- An optional field: a tag byte, followed by the value if there is one. -/
def encodeOption {α : Type} (encode : α → List UInt8) : Option α → List UInt8
  | none => [0]
  | some x => 1 :: encode x

@[simp]
theorem encodeOption_none {α : Type} {encode : α → List UInt8} : encodeOption encode none = [0] :=
  rfl

@[simp]
theorem encodeOption_some {α : Type} {encode : α → List UInt8} {x : α} :
    encodeOption encode (some x) = 1 :: encode x := rfl

theorem length_encodeOption_le {α : Type} {encode : α → List UInt8} {n : ℕ}
    (h : ∀ x, (encode x).length = n) (x : Option α) : (encodeOption encode x).length ≤ n + 1 := by
  cases x with
  | none => exact Nat.le_add_left 1 n
  | some x => rw [encodeOption_some, List.length_cons, h]

/-- The number of a status in the order of their declaration. -/
def JobStatus.byte : JobStatus → UInt8
  | .pending => 0
  | .processing => 1
  | .completed => 2
  | .failed => 3

/-- The fields of a job from its optional worker on. -/
def Job.encodeTail (job : Job PublicKey) : List UInt8 :=
  encodeOption Vector.toList job.assignedWorker ++ (job.creator.toList ++
    (i64Bytes job.enqueuedAt ++ (encodeOption i64Bytes job.startedAt ++
      (encodeOption i64Bytes job.completedAt ++ (job.result.toList ++
        [job.resultLen, job.bump])))))

/-- The fields of a job in the order of their declaration. -/
def Job.encode (job : Job PublicKey) : List UInt8 :=
  job.queue.toList ++ (leBytes 8 job.seq.toNat ++ (job.jobType.toList ++ (job.payload.toList ++
    (job.status.byte :: job.priority :: job.retryCount :: job.maxRetries :: job.encodeTail))))

/-- The space of an account holds the fields of any job. -/
theorem Job.length_encode_le (job : Job PublicKey) : job.encode.length ≤ 809 := by
  have hworker := length_encodeOption_le (fun key : PublicKey => key.length_toList)
    job.assignedWorker
  have hstarted := length_encodeOption_le (fun t => length_i64Bytes (x := t)) job.startedAt
  have hcompleted := length_encodeOption_le (fun t => length_i64Bytes (x := t)) job.completedAt
  simp only [Job.encode, Job.encodeTail, List.length_append, List.length_cons, List.length_nil,
    Vector.length_toList, length_leBytes, length_i64Bytes]
  omega

/-- The fields of a queue in the order of their declaration. -/
def QueueConfig.encode (queue : QueueConfig PublicKey) : List UInt8 :=
  queue.authority.toList ++ (queue.queueName.toList ++ (leBytes 8 queue.nextJobSeq.toNat ++
    (leBytes 8 queue.totalEnqueued.toNat ++ (leBytes 8 queue.totalCompleted.toNat ++
      (leBytes 8 queue.totalFailed.toNat ++ (queue.isPaused.toUInt8 :: queue.maxRetries ::
        (i64Bytes queue.jobTimeoutSecs ++ [queue.bump])))))))

theorem QueueConfig.length_encode (queue : QueueConfig PublicKey) : queue.encode.length = 107 := by
  simp [QueueConfig.encode]

/-- The fields of a worker in the order of their declaration. -/
def WorkerRegistry.encode (registry : WorkerRegistry PublicKey) : List UInt8 :=
  registry.queue.toList ++ (registry.worker.toList ++ (i64Bytes registry.registeredAt ++
    (leBytes 8 registry.jobsCompleted.toNat ++ (leBytes 8 registry.jobsFailed.toNat ++
      (leBytes 8 registry.jobsClaimed.toNat ++ [registry.isActive.toUInt8, registry.bump])))))

theorem WorkerRegistry.length_encode (registry : WorkerRegistry PublicKey) :
    registry.encode.length = 98 := by
  simp [WorkerRegistry.encode]

/-- The account data of a job: its fields after a discriminator, and any bytes after them. -/
structure StoredAs (job : Job PublicKey) (data : List UInt8) : Prop where
  length : data.length = Job.LEN
  layout : ∃ discriminator padding : List UInt8, discriminator.length = 8 ∧
    data = discriminator ++ (job.encode ++ padding)

end SolQueue
