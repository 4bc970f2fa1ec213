import SolQueue.Instructions
import SolQueue.Lib.Machine
import Mathlib.Logic.Function.Basic

/-!
# What the program is for

The program without its addresses: a store of named queues, with workers under a name and a key and
jobs under a name and a slot. A job is in one `Stage`, which carries what is known of the job there;
counters are natural numbers and times are integers. What machine words cannot hold is refused
explicitly.

* `Store`: the queues, workers and jobs, each found by what a client calls it.
* `Request`: what a signer asks of one queue.
* `Reply`: what the store announces to all when it grants a request, and who pays or is paid back
  for what.
* `Store.serve`: the answer to a request, with the store it leaves or the error it is refused with.
* `machine`: the store as a machine that serves requests in any order.
-/

namespace SolQueue.Spec

open Checked

variable {Pubkey : Type} [DecidableEq Pubkey]

/-! ## The store -/

/-- A queue name that an address can be derived from. -/
abbrev QueueName := {n : String // n.asBytes.length ≤ 32}

/-- A queue. The number of the next job is the number of jobs enqueued so far. -/
structure Queue (Pubkey : Type) where
  authority : Pubkey
  paused : Bool
  maxRetries : ℕ
  timeout : ℤ
  enqueued : ℕ
  completed : ℕ
  failed : ℕ

/-- A worker on one queue. -/
structure Worker where
  active : Bool
  registered : ℤ
  claimed : ℕ
  completed : ℕ
  failed : ℕ

/-- Where a job stands, with its holder and times. -/
inductive Stage (Pubkey : Type) where
  | pending
  | processing (worker : Pubkey) (started : ℤ)
  | completed (worker : Pubkey) (started finished : ℤ)
  | failed (worker : Pubkey) (started finished : ℤ)
  deriving DecidableEq

/-- A job, with its type, payload and result as they were submitted. -/
structure Job (Pubkey : Type) where
  number : ℕ
  creator : Pubkey
  jobType : String
  payload : List UInt8
  priority : UInt8
  maxRetries : ℕ
  enqueued : ℤ
  stage : Stage Pubkey
  failures : ℕ
  result : List UInt8

/-- Named queues, their workers and their jobs. -/
structure Store (Pubkey : Type) where
  queues : QueueName → Option (Queue Pubkey)
  workers : QueueName × Pubkey → Option Worker
  jobs : QueueName × UInt64 → Option (Job Pubkey)

/-- What a signer can ask of a queue. -/
inductive Action (Pubkey : Type) where
  | create (maxRetries : ℕ) (timeout : ℤ)
  | setPaused (pause : Bool)
  | register (worker : Pubkey)
  | deactivate (worker : Pubkey)
  | enqueue (slot : UInt64) (params : EnqueueJobParams)
  | claim (slot : UInt64)
  | complete (slot : UInt64) (result : List UInt8)
  | fail (slot : UInt64) (reason : String)
  | expire (slot : UInt64)
  | close (slot : UInt64)

/-- An action on the queue `name`, asked for by `signer` at the time `now`. -/
structure Request (Pubkey : Type) where
  now : ℤ
  name : QueueName
  signer : Pubkey
  action : Action Pubkey

/-- What the store announces of a granted request, with the time at which it was made. -/
inductive Notice (Pubkey : Type) where
  /-- A queue was created, paused or resumed. -/
  | pauseToggled (queue : QueueName) (paused : Bool) (authority : Pubkey) (time : ℤ)
  /-- A worker was registered. -/
  | registered (queue : QueueName) (worker : Pubkey) (time : ℤ)
  /-- A worker was deactivated. -/
  | deactivated (queue : QueueName) (worker authority : Pubkey) (time : ℤ)
  /-- A job was enqueued. -/
  | enqueued (queue : QueueName) (slot : UInt64) (number : ℕ) (jobType : String)
      (priority : UInt8) (creator : Pubkey) (time : ℤ)
  /-- A worker holds a job. -/
  | claimed (queue : QueueName) (slot : UInt64) (number : ℕ) (worker : Pubkey) (time : ℤ)
  /-- A worker has completed a job. -/
  | completed (queue : QueueName) (slot : UInt64) (number : ℕ) (worker : Pubkey)
      (duration time : ℤ)
  /-- A worker has failed at a job, for good or not. -/
  | failed (queue : QueueName) (slot : UInt64) (number : ℕ) (worker : Pubkey) (failures : ℕ)
      (permanent : Bool) (time : ℤ)
  /-- A job was taken from a worker. -/
  | expired (queue : QueueName) (slot : UInt64) (number : ℕ) (worker : Pubkey) (time : ℤ)

/-- What is kept in the store, by what a client calls it. -/
inductive Item (Pubkey : Type) where
  | queue (name : QueueName)
  | worker (name : QueueName) (key : Pubkey)
  | job (name : QueueName) (slot : UInt64)

/-- Keeping an item in the store takes a deposit. -/
inductive Payment (Pubkey : Type) where
  /-- `payer` pays the deposit of a new item. -/
  | deposit (payer : Pubkey) (item : Item Pubkey)
  /-- The deposit of an item that is gone is paid back. -/
  | refund (item : Item Pubkey) (receiver : Pubkey)

/-- What comes of a granted request besides the store it leaves. -/
structure Reply (Pubkey : Type) where
  notices : List (Notice Pubkey)
  payments : List (Payment Pubkey)

/-- A reply that announces one thing, and for which nobody pays. -/
def Reply.notice (notice : Notice Pubkey) : Reply Pubkey :=
  ⟨[notice], []⟩

/-! ## Looking things up -/

/-- What is found, if anything is. -/
def find {α : Type} : Option α → Except Error α
  | some a => .ok a
  | none => .error .accountNotInitialized

/-- Goes on if nothing is there yet. -/
def vacant {α : Type} (entry : Option α) : Except Error Unit :=
  require (entry.isNone = true) .accountAlreadyInUse

/-- A count that a word of `w` bits can hold. -/
def count (w n : ℕ) : Except Error ℕ := do
  require (n < 2 ^ w) .overflow
  return n

/-- A time or duration that an `i64` can hold. -/
def instant (t : ℤ) : Except Error ℤ := do
  require (-2 ^ 63 ≤ t ∧ t < 2 ^ 63) .overflow
  return t

/-- The holder of a job and when they started, if the job is being processed. -/
def Stage.holder (e : SolQueueError) : Stage Pubkey → Except Error (Pubkey × ℤ)
  | .processing worker started => .ok (worker, started)
  | .pending | .completed .. | .failed .. => .error (.program e)

/-- The job has completed, or failed for good. -/
def Stage.Finished : Stage Pubkey → Prop
  | .completed .. | .failed .. => True
  | .pending | .processing .. => False

/-- Whether a stage is a final one is decidable. -/
instance (stage : Stage Pubkey) : Decidable stage.Finished := by
  cases stage <;> unfold Stage.Finished <;> infer_instance

namespace Store

variable (S : Store Pubkey) (now : ℤ) (n : QueueName) (signer : Pubkey)

/-- The store with a queue under the name `n`. -/
def setQueue (queue : Queue Pubkey) : Store Pubkey :=
  { S with queues := Function.update S.queues n (some queue) }

/-- The store with a worker under the name `n` and a key. -/
def setWorker (key : Pubkey) (worker : Worker) : Store Pubkey :=
  { S with workers := Function.update S.workers (n, key) (some worker) }

/-- The store with a job under the name `n` and a slot, or with that slot vacant. -/
def setJob (slot : UInt64) (job : Option (Job Pubkey)) : Store Pubkey :=
  { S with jobs := Function.update S.jobs (n, slot) job }

/-! ## Requests of the authority -/

/-- A queue is created by its authority, if there is none of the name. -/
def create (maxRetries : ℕ) (timeout : ℤ) : Except Error (Store Pubkey × Reply Pubkey) := do
  vacant (S.queues n)
  return (S.setQueue n ⟨signer, false, maxRetries, timeout, 0, 0, 0⟩,
    ⟨[.pauseToggled n false signer now], [.deposit signer (.queue n)]⟩)

/-- A queue is paused or resumed by its authority. -/
def setPaused (pause : Bool) : Except Error (Store Pubkey × Reply Pubkey) := do
  let queue ← find (S.queues n)
  require (queue.authority = signer) (.program .unauthorized)
  return (S.setQueue n { queue with paused := pause },
    .notice (.pauseToggled n pause signer now))

/-- A worker is registered by the authority, who pays the deposit. -/
def register (key : Pubkey) : Except Error (Store Pubkey × Reply Pubkey) := do
  let queue ← find (S.queues n)
  vacant (S.workers (n, key))
  require (queue.authority = signer) (.program .unauthorized)
  return (S.setWorker n key ⟨true, now, 0, 0, 0⟩,
    ⟨[.registered n key now], [.deposit signer (.worker n key)]⟩)

/-- A worker is deactivated by the authority. -/
def deactivate (key : Pubkey) : Except Error (Store Pubkey × Reply Pubkey) := do
  let queue ← find (S.queues n)
  let worker ← find (S.workers (n, key))
  require (queue.authority = signer) (.program .unauthorized)
  return (S.setWorker n key { worker with active := false },
    .notice (.deactivated n key signer now))

/-! ## Requests of producers and workers -/

/-- The job that `params` describes, enqueued with the given number. -/
def newJob (queue : Queue Pubkey) (params : EnqueueJobParams) : Job Pubkey where
  number := queue.enqueued
  creator := signer
  jobType := params.jobType
  payload := params.payload
  priority := params.priority
  maxRetries := (params.maxRetriesOverride.map UInt8.toNat).getD queue.maxRetries
  enqueued := now
  stage := .pending
  failures := 0
  result := []

/-- A job is put in a vacant slot by its creator, who pays the deposit. -/
def enqueue (slot : UInt64) (params : EnqueueJobParams) :
    Except Error (Store Pubkey × Reply Pubkey) := do
  let queue ← find (S.queues n)
  vacant (S.jobs (n, slot))
  require (queue.paused = false) (.program .queuePaused)
  require (params.payload.length ≤ 512) (.program .payloadTooLarge)
  require (params.jobType.asBytes.length ≤ 32) (.program .jobTypeTooLong)
  let enqueued ← count 64 (queue.enqueued + 1)
  return ((S.setQueue n { queue with enqueued }).setJob n slot (newJob now signer queue params),
    ⟨[.enqueued n slot queue.enqueued params.jobType params.priority signer now],
      [.deposit signer (.job n slot)]⟩)

/-- The queue, the signer as an active worker on it, and the job. -/
def assignment (slot : UInt64) : Except Error (Queue Pubkey × Worker × Job Pubkey) := do
  let queue ← find (S.queues n)
  let worker ← find (S.workers (n, signer))
  let job ← find (S.jobs (n, slot))
  require (worker.active = true) (.program .workerDeactivated)
  return (queue, worker, job)

/-- A Pending job is given to the signer. -/
def claim (slot : UInt64) : Except Error (Store Pubkey × Reply Pubkey) := do
  let (_, worker, job) ← S.assignment n signer slot
  require (job.stage = .pending) (.program .jobNotPending)
  let claimed ← count 64 (worker.claimed + 1)
  return ((S.setWorker n signer { worker with claimed }).setJob n slot
    (some { job with stage := .processing signer now }),
    .notice (.claimed n slot job.number signer now))

/-- A job that the signer holds is completed with a result. -/
def complete (slot : UInt64) (result : List UInt8) :
    Except Error (Store Pubkey × Reply Pubkey) := do
  let (queue, worker, job) ← S.assignment n signer slot
  let (holder, started) ← job.stage.holder .jobNotProcessing
  require (holder = signer) (.program .wrongWorker)
  require (result.length ≤ 128) (.program .resultTooLarge)
  let duration ← instant (now - started)
  let total ← count 64 (queue.completed + 1)
  let completed ← count 64 (worker.completed + 1)
  return (((S.setQueue n { queue with completed := total }).setWorker n signer
      { worker with completed }).setJob n slot
      (some { job with stage := .completed signer started now, result }),
    .notice (.completed n slot job.number signer duration now))

/-- A job that the signer holds has failed: for good if that is once too often. -/
def fail (slot : UInt64) (reason : String) : Except Error (Store Pubkey × Reply Pubkey) := do
  let (queue, worker, job) ← S.assignment n signer slot
  let (holder, started) ← job.stage.holder .jobNotProcessing
  require (holder = signer) (.program .wrongWorker)
  let failures ← count 8 (job.failures + 1)
  let failed ← count 64 (worker.failed + 1)
  let S := S.setWorker n signer { worker with failed }
  let job := { job with failures, result := reason.asBytes.take 128 }
  if job.maxRetries < failures then
    let total ← count 64 (queue.failed + 1)
    return ((S.setQueue n { queue with failed := total }).setJob n slot
      (some { job with stage := .failed signer started now }),
      .notice (.failed n slot job.number signer failures true now))
  else
    let _attempts ← count 8 (job.maxRetries + 1)
    return (S.setJob n slot (some { job with stage := .pending }),
      .notice (.failed n slot job.number signer failures false now))

/-! ## Requests of anyone -/

/-- A job is taken from a worker who has held it for longer than the timeout of the queue. -/
def expire (slot : UInt64) : Except Error (Store Pubkey × Reply Pubkey) := do
  let queue ← find (S.queues n)
  let job ← find (S.jobs (n, slot))
  let (holder, started) ← job.stage.holder .cannotExpireNonProcessingJob
  let deadline ← instant (started + queue.timeout)
  require (deadline < now) (.program .jobNotExpired)
  return (S.setJob n slot (some { job with stage := .pending, result := ExpireJob.note }),
    .notice (.expired n slot job.number holder now))

/-- A finished job is removed by its creator, who is paid the deposit back. -/
def close (slot : UInt64) : Except Error (Store Pubkey × Reply Pubkey) := do
  let _ ← find (S.queues n)
  let job ← find (S.jobs (n, slot))
  require (job.creator = signer) (.program .unauthorized)
  require job.stage.Finished (.program .jobNotProcessing)
  return (S.setJob n slot none, ⟨[], [.refund (.job n slot) signer]⟩)

/-- The answer to a request. -/
def serve (r : Request Pubkey) : Except Error (Store Pubkey × Reply Pubkey) :=
  match r.action with
  | .create maxRetries timeout => S.create r.now r.name r.signer maxRetries timeout
  | .setPaused pause => S.setPaused r.now r.name r.signer pause
  | .register key => S.register r.now r.name r.signer key
  | .deactivate key => S.deactivate r.now r.name r.signer key
  | .enqueue slot params => S.enqueue r.now r.name r.signer slot params
  | .claim slot => S.claim r.now r.name r.signer slot
  | .complete slot result => S.complete r.now r.name r.signer slot result
  | .fail slot reason => S.fail r.now r.name r.signer slot reason
  | .expire slot => S.expire r.now r.name slot
  | .close slot => S.close r.name r.signer slot

end Store

/-- The store as a machine. -/
def machine : Machine (Store Pubkey) (Request Pubkey) (Reply Pubkey) Error where
  init := ⟨fun _ => none, fun _ => none, fun _ => none⟩
  step := Store.serve

/-! ## What the store keeps -/

/-- The types and results in the store are as short as their fields. -/
def Store.Short (S : Store Pubkey) : Prop :=
  ∀ i job, S.jobs i = some job → job.jobType.asBytes.length ≤ 32 ∧ job.result.length ≤ 128

omit [DecidableEq Pubkey] in
theorem find_eq_ok {α : Type} {entry : Option α} {a : α} :
    find entry = .ok a ↔ entry = some a := by
  cases entry <;> simp [find]

omit [DecidableEq Pubkey] in
/-- The job of an assignment is the one in the slot. -/
theorem Store.jobs_of_assignment {S : Store Pubkey} {n : QueueName} {signer : Pubkey}
    {slot : UInt64} {queue : Queue Pubkey} {worker : Worker} {job : Job Pubkey}
    (h : S.assignment n signer slot = .ok (queue, worker, job)) :
    S.jobs (n, slot) = some job := by
  obtain ⟨_, -, h⟩ := Except.bind_eq_ok.mp h
  obtain ⟨_, -, h⟩ := Except.bind_eq_ok.mp h
  obtain ⟨_, hjob, h⟩ := Except.bind_eq_ok.mp h
  obtain ⟨-, -, h⟩ := Except.bind_eq_ok.mp h
  cases h
  exact find_eq_ok.mp hjob

namespace Store.Short

variable {S S' : Store Pubkey} {n : QueueName} {slot : UInt64}

omit [DecidableEq Pubkey] in
theorem setJob (h : S.Short) {entry : Option (Job Pubkey)}
    (hentry : ∀ job ∈ entry, job.jobType.asBytes.length ≤ 32 ∧ job.result.length ≤ 128) :
    (S.setJob n slot entry).Short := by
  intro i job hjob
  by_cases hi : i = (n, slot)
  · subst hi
    simp only [Store.setJob, Function.update_self] at hjob
    exact hentry job hjob
  · simp only [Store.setJob, Function.update_of_ne hi] at hjob
    exact h i job hjob

/-- A request keeps types and results short. -/
theorem serve (h : S.Short) {r : Request Pubkey} {reply : Reply Pubkey}
    (hserve : S.serve r = .ok (S', reply)) : S'.Short := by
  obtain ⟨now, n, signer, action⟩ := r
  cases action with
  -- requests of the authority leave the jobs alone
  | create maxRetries timeout =>
    obtain ⟨-, -, hok⟩ := Except.bind_eq_ok.mp hserve
    cases hok
    exact h
  | setPaused pause =>
    obtain ⟨queue, -, hserve⟩ := Except.bind_eq_ok.mp hserve
    obtain ⟨-, -, hok⟩ := Except.bind_eq_ok.mp hserve
    cases hok
    exact h
  | register key =>
    obtain ⟨queue, -, hserve⟩ := Except.bind_eq_ok.mp hserve
    obtain ⟨-, -, hserve⟩ := Except.bind_eq_ok.mp hserve
    obtain ⟨-, -, hok⟩ := Except.bind_eq_ok.mp hserve
    cases hok
    exact h
  | deactivate key =>
    obtain ⟨queue, -, hserve⟩ := Except.bind_eq_ok.mp hserve
    obtain ⟨worker, -, hserve⟩ := Except.bind_eq_ok.mp hserve
    obtain ⟨-, -, hok⟩ := Except.bind_eq_ok.mp hserve
    cases hok
    exact h
  | enqueue slot params =>
    obtain ⟨queue, -, hserve⟩ := Except.bind_eq_ok.mp hserve
    obtain ⟨-, -, hserve⟩ := Except.bind_eq_ok.mp hserve
    obtain ⟨-, -, hserve⟩ := Except.bind_eq_ok.mp hserve
    obtain ⟨-, -, hserve⟩ := Except.bind_eq_ok.mp hserve
    obtain ⟨_, htype, hserve⟩ := Except.bind_eq_ok.mp hserve
    obtain ⟨enqueued, -, hok⟩ := Except.bind_eq_ok.mp hserve
    cases hok
    -- a new job has no result yet
    refine setJob h ?_
    rintro _ ⟨⟩
    exact ⟨require_eq_ok.mp htype, Nat.zero_le _⟩
  | claim slot =>
    obtain ⟨⟨queue, worker, job⟩, hassigned, hserve⟩ := Except.bind_eq_ok.mp hserve
    obtain ⟨-, -, hserve⟩ := Except.bind_eq_ok.mp hserve
    obtain ⟨claimed, -, hok⟩ := Except.bind_eq_ok.mp hserve
    cases hok
    refine setJob h ?_
    rintro _ ⟨⟩
    exact h _ job (jobs_of_assignment hassigned)
  | complete slot result =>
    obtain ⟨⟨queue, worker, job⟩, hassigned, hserve⟩ := Except.bind_eq_ok.mp hserve
    obtain ⟨⟨holder, started⟩, -, hserve⟩ := Except.bind_eq_ok.mp hserve
    obtain ⟨-, -, hserve⟩ := Except.bind_eq_ok.mp hserve
    obtain ⟨_, hresult, hserve⟩ := Except.bind_eq_ok.mp hserve
    obtain ⟨duration, -, hserve⟩ := Except.bind_eq_ok.mp hserve
    obtain ⟨total, -, hserve⟩ := Except.bind_eq_ok.mp hserve
    obtain ⟨completed, -, hok⟩ := Except.bind_eq_ok.mp hserve
    cases hok
    -- the result was checked, and the type is the one the job had
    refine setJob h ?_
    rintro _ ⟨⟩
    exact ⟨(h _ job (jobs_of_assignment hassigned)).1, require_eq_ok.mp hresult⟩
  | fail slot reason =>
    obtain ⟨⟨queue, worker, job⟩, hassigned, hserve⟩ := Except.bind_eq_ok.mp hserve
    obtain ⟨⟨holder, started⟩, -, hserve⟩ := Except.bind_eq_ok.mp hserve
    obtain ⟨-, -, hserve⟩ := Except.bind_eq_ok.mp hserve
    obtain ⟨failures, -, hserve⟩ := Except.bind_eq_ok.mp hserve
    obtain ⟨failed, -, hserve⟩ := Except.bind_eq_ok.mp hserve
    -- for good or not, the reason is cut
    have hreason : (reason.asBytes.take 128).length ≤ 128 := List.length_take_le _ _
    have hjob := (h _ job (jobs_of_assignment hassigned)).1
    dsimp only at hserve
    split_ifs at hserve with hexhausted
    · obtain ⟨total, -, hok⟩ := Except.bind_eq_ok.mp hserve
      cases hok
      refine setJob h ?_
      rintro _ ⟨⟩
      exact ⟨hjob, hreason⟩
    · obtain ⟨_, -, hok⟩ := Except.bind_eq_ok.mp hserve
      cases hok
      refine setJob h ?_
      rintro _ ⟨⟩
      exact ⟨hjob, hreason⟩
  | expire slot =>
    obtain ⟨queue, -, hserve⟩ := Except.bind_eq_ok.mp hserve
    obtain ⟨job, hjob, hserve⟩ := Except.bind_eq_ok.mp hserve
    obtain ⟨⟨holder, started⟩, -, hserve⟩ := Except.bind_eq_ok.mp hserve
    obtain ⟨deadline, -, hserve⟩ := Except.bind_eq_ok.mp hserve
    obtain ⟨-, -, hok⟩ := Except.bind_eq_ok.mp hserve
    cases hok
    -- the result is a fixed note
    have hnote : ExpireJob.note.length ≤ 128 := by decide
    refine setJob h ?_
    rintro _ ⟨⟩
    exact ⟨(h _ job (find_eq_ok.mp hjob)).1, hnote⟩
  | close slot =>
    obtain ⟨queue, -, hserve⟩ := Except.bind_eq_ok.mp hserve
    obtain ⟨job, -, hserve⟩ := Except.bind_eq_ok.mp hserve
    obtain ⟨-, -, hserve⟩ := Except.bind_eq_ok.mp hserve
    obtain ⟨-, -, hok⟩ := Except.bind_eq_ok.mp hserve
    cases hok
    refine setJob h ?_
    rintro _ ⟨⟩

/-- In every run types and results are short. -/
theorem run (requests : List (Request Pubkey)) : (machine.run requests).Short :=
  Machine.run_induction (M := machine) (fun i job hjob => by cases hjob)
    (fun _ _ _ _ h hserve => h.serve hserve) requests

end Store.Short

end SolQueue.Spec
