import SolQueue.Clients
import SolQueue.Encoding
import SolQueue.Lib.Base58
import SolQueue.Lib.Doubles

/-!
# The dashboard

The dashboard reads job accounts at fixed offsets. The fields after the optional worker stand at
these offsets only in some jobs.

* `JobItem`, `parseJob`: what the dashboard shows of a job, read from the account.
* `Job.item`: what it should show, `Job.Displayable`: of which jobs.
* `parseJob_eq`: the fields up to the optional worker are shown as they are.
-/

namespace SolQueue

/-! ## Reading accounts -/

/-- `data.slice(start, stop)`. -/
def slice (data : List UInt8) (start stop : ℕ) : List UInt8 :=
  (data.drop start).take (stop - start)

/-- `data.readBigUInt64LE(offset)`, which throws past the end. -/
def readBigUInt64LE (data : List UInt8) (offset : ℕ) : Option ℤ :=
  if offset + 8 ≤ data.length then some (leNat (slice data offset (offset + 8))) else none

/-- `data.readBigInt64LE(offset)`, which throws past the end. -/
def readBigInt64LE (data : List UInt8) (offset : ℕ) : Option ℤ :=
  if offset + 8 ≤ data.length then some (leInt (slice data offset (offset + 8))) else none

/-- `new PublicKey(bytes).toBase58()`, for the 32 bytes of a key. -/
def toBase58 (bytes : List UInt8) : String :=
  Base58.encode bytes

/-- A job as the dashboard shows it. -/
structure JobItem where
  pubkey : String
  seq : ℤ
  jobType : String
  status : JobStatus
  priority : UInt8
  retryCount : UInt8
  maxRetries : UInt8
  assignedWorker : Option String
  creator : String
  enqueuedAt : ℤ
  completedAt : Option ℤ
  result : String
  deriving DecidableEq

/-- The body of `fetchJobs` for the account data at `jobPDA`: nothing if the account is skipped. An
account in which a byte is missing is skipped in any case, at the latest where `completedAt` is
read. -/
def parseJob (T : TextDecoder) (jobPDA : PublicKey) (data : List UInt8) : Option JobItem := do
  guard (100 ≤ data.length)
  let offset := 8 -- skip the discriminator
  let offset := offset + 32 -- the queue is not shown
  let seqRead ← readBigUInt64LE data offset
  let offset := offset + 8
  let jobType := T.trimNull (slice data offset (offset + 32))
  let offset := offset + 32
  let offset := offset + 512 -- the payload is not shown
  let statusRaw ← data[offset]?
  let offset := offset + 1
  let status : JobStatus :=
    if statusRaw = 1 then .processing else if statusRaw = 2 then .completed
    else if statusRaw = 3 then .failed else .pending
  let priority ← data[offset]?
  let offset := offset + 1
  let retryCount ← data[offset]?
  let offset := offset + 1
  let maxRetries ← data[offset]?
  let offset := offset + 1
  let hasAssignedWorker ← data[offset]?
  let offset := offset + 1
  let assignedWorker :=
    if hasAssignedWorker = 1 ∧ offset + 32 ≤ data.length then
      some (toBase58 (slice data offset (offset + 32)))
    else none
  let offset := offset + 32 -- skipped whether or not there is a worker
  let creator := toBase58 (slice data offset (offset + 32))
  let offset := offset + 32
  let enqueuedAt := toNumber (← readBigInt64LE data offset)
  let offset := offset + 8
  -- the optional start time is not skipped
  let completedAt := toNumber (← readBigInt64LE data offset)
  let offset := offset + 8
  let resultBytes := slice data offset (min (offset + 128) data.length)
  return {
    pubkey := toBase58 jobPDA.toList
    seq := toNumber seqRead
    jobType := jobType
    status := status
    priority := priority
    retryCount := retryCount
    maxRetries := maxRetries
    assignedWorker := assignedWorker.filter (· ≠ "11111111111111111111111111111111")
    creator := creator
    enqueuedAt := enqueuedAt
    completedAt := if completedAt = 0 then none else some completedAt
    result := T.trimNull resultBytes }

/-- What should be shown of a job with the given type and result. -/
def Job.item (job : Job PublicKey) (jobPDA : PublicKey) (jobType result : String) : JobItem where
  pubkey := toBase58 jobPDA.toList
  seq := job.seq.toNat
  jobType := jobType
  status := job.status
  priority := job.priority
  retryCount := job.retryCount
  maxRetries := job.maxRetries
  assignedWorker := job.assignedWorker.map fun worker => toBase58 worker.toList
  creator := toBase58 job.creator.toList
  enqueuedAt := job.enqueuedAt.toInt
  completedAt := job.completedAt.map Int64.toInt
  result := result

/-- A job whose fields can be shown: its type and its result are texts without null characters, its
numbers are doubles, its worker is not the key of zeros and its completion time is not zero. -/
structure Job.Displayable (job : Job PublicKey) (jobType result : String) : Prop where
  jobType_eq : job.jobType = zeroPadded 32 jobType.asBytes
  jobType_length : jobType.asBytes.length ≤ 32
  jobType_noNull : '\x00' ∉ jobType.toList
  result_eq : job.result = zeroPadded 128 result.asBytes
  result_length : result.asBytes.length ≤ 128
  result_noNull : '\x00' ∉ result.toList
  seq_le : job.seq.toNat ≤ 2 ^ 53
  enqueuedAt_le : job.enqueuedAt.toInt.natAbs ≤ 2 ^ 53
  startedAt_le : ∀ t ∈ job.startedAt, t.toInt.natAbs ≤ 2 ^ 53
  completedAt_le : ∀ t ∈ job.completedAt, t.toInt.natAbs ≤ 2 ^ 53
  completedAt_ne : ∀ t ∈ job.completedAt, t.toInt ≠ 0
  worker_ne : ∀ worker ∈ job.assignedWorker, worker.toList ≠ List.replicate 32 0

/-! ## What is found at an offset -/

section Offsets

variable {data field rest : List UInt8} {offset n m : ℕ} {b : UInt8}

/-- The field found at an offset. -/
theorem slice_of_drop (h : data.drop offset = field ++ rest) (hn : field.length = n) :
    slice data offset (offset + n) = field := by
  rw [slice, h, Nat.add_sub_cancel_left, ← hn, List.take_left]

/-- The offset after a field. -/
theorem drop_add_of_drop (h : data.drop offset = field ++ rest) (hn : field.length = n) :
    data.drop (offset + n) = rest := by
  rw [← List.drop_drop, h, ← hn, List.drop_left]

theorem drop_succ_of_drop (h : data.drop offset = b :: rest) : data.drop (offset + 1) = rest :=
  drop_add_of_drop (show data.drop offset = [b] ++ rest from h) rfl

theorem getElem?_of_drop (h : data.drop offset = b :: rest) : data[offset]? = some b := by
  rw [← List.head?_drop, h, List.head?_cons]

/-- Reading at an offset is reading from there. -/
theorem slice_drop : slice (data.drop offset) n m = slice data (offset + n) (offset + m) := by
  rw [slice, slice, List.drop_drop, Nat.add_sub_add_left]

theorem length_slice : (slice data n m).length = min (m - n) (data.length - n) := by
  rw [slice, List.length_take, List.length_drop]

theorem readBigInt64LE_of_le (h : offset + 8 ≤ data.length) :
    readBigInt64LE data offset = some (leInt (slice data offset (offset + 8))) :=
  if_pos h

theorem readBigUInt64LE_of_le (h : offset + 8 ≤ data.length) :
    readBigUInt64LE data offset = some (leNat (slice data offset (offset + 8)) : ℤ) :=
  if_pos h

/-- A field ends before the data does. -/
theorem le_length_of_drop (h : data.drop offset = field ++ rest) (hpos : 0 < field.length) :
    offset + field.length ≤ data.length := by
  have hlength := congrArg List.length h
  rw [List.length_drop, List.length_append] at hlength
  omega

/-- A counter is read at its offset. -/
theorem readBigUInt64LE_of_drop {n : UInt64} (h : data.drop offset = leBytes 8 n.toNat ++ rest) :
    readBigUInt64LE data offset = some (n.toNat : ℤ) := by
  have hle := le_length_of_drop h (by rw [length_leBytes]; decide)
  rw [length_leBytes] at hle
  rw [readBigUInt64LE_of_le hle, slice_of_drop h length_leBytes, leNat_leBytes]
  exact n.toNat_lt

/-- A time is read at its offset. -/
theorem readBigInt64LE_of_drop {t : Int64} (h : data.drop offset = i64Bytes t ++ rest) :
    readBigInt64LE data offset = some t.toInt := by
  have hle := le_length_of_drop h (by rw [length_i64Bytes]; decide)
  rw [length_i64Bytes] at hle
  rw [readBigInt64LE_of_le hle, slice_of_drop h length_i64Bytes, leInt_i64Bytes]

end Offsets

/-- What is shown of the optional worker with the given tag and bytes. -/
def shownWorker (tag : UInt8) (bytes : List UInt8) : Option String :=
  (if tag = 1 then some (toBase58 bytes) else none).filter
    (· ≠ "11111111111111111111111111111111")

/-- What is shown of a completion time. -/
def shownTime (time : ℤ) : Option ℤ :=
  if time = 0 then none else some time

/-- The fields up to the optional worker are read as they are; the other ones are read at fixed
offsets from there. -/
theorem parseJob_eq (T : TextDecoder) (jobPDA : PublicKey) {job : Job PublicKey}
    {data : List UInt8} {jobType result : String} (h : StoredAs job data)
    (hjob : job.Displayable jobType result) :
    ∃ tag tail padding, job.encodeTail ++ padding = tag :: tail ∧ tail.length = 220 ∧
      parseJob T jobPDA data = some { job.item jobPDA jobType result with
        assignedWorker := shownWorker tag (slice tail 0 32)
        creator := toBase58 (slice tail 32 64)
        enqueuedAt := toNumber (leInt (slice tail 64 72))
        completedAt := shownTime (toNumber (leInt (slice tail 72 80)))
        result := T.trimNull (slice tail 80 208) } := by
  obtain ⟨discriminator, padding, hlength, hdata⟩ := h.layout
  have hsize : data.length = 817 := h.length
  have hqueue : data.drop 8 = job.encode ++ padding := by rw [hdata, ← hlength, List.drop_left]
  simp only [Job.encode, List.append_assoc, List.cons_append] at hqueue
  -- field after field up to the tag of the worker
  have hseq := drop_add_of_drop hqueue Vector.length_toList
  have htype := drop_add_of_drop hseq length_leBytes
  have hpayload := drop_add_of_drop htype Vector.length_toList
  have hstatus := drop_add_of_drop hpayload Vector.length_toList
  have hpriority := drop_succ_of_drop hstatus
  have hretry := drop_succ_of_drop hpriority
  have hmax := drop_succ_of_drop hretry
  have htail := drop_succ_of_drop hmax
  norm_num at hseq htype hpayload hstatus hpriority hretry hmax htail
  have hrest : (job.encodeTail ++ padding).length = 221 := by
    rw [← htail, List.length_drop, hsize]
  obtain ⟨tag, tail, hcons⟩ := List.exists_cons_of_length_eq_add_one hrest
  refine ⟨tag, tail, padding, hcons, ?_, ?_⟩
  · rw [hcons, List.length_cons] at hrest
    omega
  rw [hcons] at htail
  have hdrop := drop_succ_of_drop htail
  norm_num at hdrop
  have hjobType : T.trimNull (slice data 48 80) = jobType := by
    rw [slice_of_drop htype Vector.length_toList, hjob.jobType_eq,
      T.trimNull_zeroPadded hjob.jobType_length, Utf8.ofList_takeWhile_eq_iff]
    exact hjob.jobType_noNull
  have hseqShown : toNumber job.seq.toNat = job.seq.toNat := toNumber_natCast hjob.seq_le
  have hstatusShown : (if job.status.byte = 1 then JobStatus.processing
      else if job.status.byte = 2 then .completed
      else if job.status.byte = 3 then .failed else .pending) = job.status := by
    cases job.status <;> rfl
  have henqueued := readBigInt64LE_of_le (show 661 + 8 ≤ data.length by omega)
  have hcompleted := readBigInt64LE_of_le (show 669 + 8 ≤ data.length by omega)
  rw [← hdrop]
  simp only [parseJob, slice_drop, Nat.reduceAdd, readBigUInt64LE_of_drop hseq, hjobType, hsize,
    henqueued, hcompleted, getElem?_of_drop hstatus, getElem?_of_drop hpriority,
    getElem?_of_drop hretry, getElem?_of_drop hmax, getElem?_of_drop htail]
  simp [Job.item, shownWorker, shownTime, hseqShown, hstatusShown]

end SolQueue
