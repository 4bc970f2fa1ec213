import SolQueue.AccountData
import SolQueue.Dashboard

/-!
# Queues on the dashboard

The dashboard reads the account of a queue at fixed offsets. A queue has no optional fields, so
every field stands at its offset.

* `readQueue`: the fields that are read from the account; `parseQueue`: what is shown of them.
* `QueueConfig.stats`: the fields of the queue, `QueueConfig.Displayable`: those with numbers that
  are doubles.
* `readQueue_bytes`: the fields are read as they are.
-/

namespace SolQueue

/-- What the dashboard keeps of a queue: the authority is read as the bytes of a key, and shown as a
text. -/
structure QueueStats (Authority : Type) where
  authority : Authority
  nextJobSeq : ℤ
  totalEnqueued : ℤ
  totalCompleted : ℤ
  totalFailed : ℤ
  isPaused : Bool
  maxRetries : UInt8
  jobTimeoutSecs : ℤ
  deriving DecidableEq

/-- How `fetchQueue` reads the account data of a queue: nothing if a number is read past the end. An
account in which one of the two single bytes is missing fails where the timeout is read. -/
def readQueue (data : List UInt8) : Option (QueueStats (List UInt8)) := do
  let offset := 8 -- skip the discriminator
  let authority := slice data offset (offset + 32)
  let offset := offset + 32
  let offset := offset + 32 -- the name is not shown
  let nextJobSeq := toNumber (← readBigUInt64LE data offset)
  let offset := offset + 8
  let totalEnqueued := toNumber (← readBigUInt64LE data offset)
  let offset := offset + 8
  let totalCompleted := toNumber (← readBigUInt64LE data offset)
  let offset := offset + 8
  let totalFailed := toNumber (← readBigUInt64LE data offset)
  let offset := offset + 8
  let isPaused := decide (data[offset]? = some 1)
  let offset := offset + 1
  let maxRetries ← data[offset]?
  let offset := offset + 1
  let jobTimeoutSecs := toNumber (← readBigInt64LE data offset)
  return { authority, nextJobSeq, totalEnqueued, totalCompleted, totalFailed, isPaused, maxRetries,
           jobTimeoutSecs }

/-- The text shown of an authority: the first eight characters of its key. -/
def shownAuthority (authority : List UInt8) : String :=
  String.ofList ((toBase58 authority).toList.take 8) ++ "..."

/-- The body of `fetchQueue` for the account data of a queue: nothing if it fails. -/
def parseQueue (data : List UInt8) : Option (QueueStats String) := do
  let queue ← readQueue data
  return { queue with authority := shownAuthority queue.authority }

/-- What the dashboard should read of a queue. -/
def QueueConfig.stats (queue : QueueConfig PublicKey) : QueueStats (List UInt8) where
  authority := queue.authority.toList
  nextJobSeq := queue.nextJobSeq.toNat
  totalEnqueued := queue.totalEnqueued.toNat
  totalCompleted := queue.totalCompleted.toNat
  totalFailed := queue.totalFailed.toNat
  isPaused := queue.isPaused
  maxRetries := queue.maxRetries
  jobTimeoutSecs := queue.jobTimeoutSecs.toInt

/-- A queue whose numbers are doubles. -/
structure QueueConfig.Displayable (queue : QueueConfig PublicKey) : Prop where
  nextJobSeq_le : queue.nextJobSeq.toNat ≤ 2 ^ 53
  totalEnqueued_le : queue.totalEnqueued.toNat ≤ 2 ^ 53
  totalCompleted_le : queue.totalCompleted.toNat ≤ 2 ^ 53
  totalFailed_le : queue.totalFailed.toNat ≤ 2 ^ 53
  jobTimeoutSecs_le : queue.jobTimeoutSecs.toInt.natAbs ≤ 2 ^ 53

/-- The fields of a queue are read where they stand after the discriminator. -/
theorem readQueue_of_drop {data padding : List UInt8} {queue : QueueConfig PublicKey}
    (hauthority : data.drop 8 = queue.encode ++ padding) (h : queue.Displayable) :
    readQueue data = some queue.stats := by
  simp only [QueueConfig.encode, List.append_assoc, List.cons_append] at hauthority
  -- field after field
  have hname := drop_add_of_drop hauthority Vector.length_toList
  have hseq := drop_add_of_drop hname Vector.length_toList
  have henqueued := drop_add_of_drop hseq length_leBytes
  have hcompleted := drop_add_of_drop henqueued length_leBytes
  have hfailed := drop_add_of_drop hcompleted length_leBytes
  have hpaused := drop_add_of_drop hfailed length_leBytes
  have hretries := drop_succ_of_drop hpaused
  have htimeout := drop_succ_of_drop hretries
  norm_num at hname hseq henqueued hcompleted hfailed hpaused hretries htimeout
  have hisPaused : decide (some queue.isPaused.toUInt8 = some 1) = queue.isPaused := by
    cases queue.isPaused <;> rfl
  simp only [readQueue, Nat.reduceAdd, slice_of_drop hauthority Vector.length_toList,
    readBigUInt64LE_of_drop hseq, readBigUInt64LE_of_drop henqueued,
    readBigUInt64LE_of_drop hcompleted, readBigUInt64LE_of_drop hfailed, getElem?_of_drop hpaused,
    getElem?_of_drop hretries, readBigInt64LE_of_drop htimeout, hisPaused]
  simp [QueueConfig.stats, toNumber_natCast h.nextJobSeq_le, toNumber_natCast h.totalEnqueued_le,
    toNumber_natCast h.totalCompleted_le, toNumber_natCast h.totalFailed_le,
    toNumber_of_le h.jobTimeoutSecs_le]

/-- The fields of a queue follow the discriminator. -/
theorem QueueConfig.drop_bytes (discriminator : Vector UInt8 8) (padding : List UInt8)
    (queue : QueueConfig PublicKey) :
    ((layout discriminator).bytes queue ++ padding).drop 8 = queue.encode ++ padding := by
  rw [Borsh.Record.bytes, List.append_assoc]
  exact List.drop_left' Vector.length_toList

/-- The fields of a queue are read as they are, whatever follows them in the account. -/
theorem readQueue_bytes (discriminator : Vector UInt8 8) (padding : List UInt8)
    {queue : QueueConfig PublicKey} (h : queue.Displayable) :
    readQueue ((QueueConfig.layout discriminator).bytes queue ++ padding) = some queue.stats :=
  readQueue_of_drop (queue.drop_bytes discriminator padding) h

/-- A paused queue with a negative timeout. -/
def Sample.pausedQueue : QueueConfig PublicKey where
  authority := Vector.replicate 32 7
  queueName := zeroPadded 32 "email".asBytes
  nextJobSeq := 300
  totalEnqueued := 300
  totalCompleted := 2
  totalFailed := 1
  isPaused := true
  maxRetries := 3
  jobTimeoutSecs := -60
  bump := 254

theorem Sample.displayable_pausedQueue : pausedQueue.Displayable where
  nextJobSeq_le := by decide
  totalEnqueued_le := by decide
  totalCompleted_le := by decide
  totalFailed_le := by decide
  jobTimeoutSecs_le := by decide

/-- A timeout of minus one minute is read with its sign. -/
theorem readQueue_bytes_paused :
    (readQueue ((QueueConfig.layout (Vector.replicate 8 1)).bytes Sample.pausedQueue ++ [])).map
      QueueStats.jobTimeoutSecs = some (-60) := by
  rw [readQueue_bytes (Vector.replicate 8 1) [] Sample.displayable_pausedQueue]
  decide

end SolQueue
