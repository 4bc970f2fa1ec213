import SolQueue.Instructions
import SolQueue.Lib.Machine

/-!
# The program

The ten instructions as one step function on the ledger, and the same steps as a relation: `Step`
has one constructor for each way a call can commit, with every guard it passed and the exact
ledger and outcome it leaves. `execute_eq_ok` says the two agree; everything proved about runs
goes through `Step` and never unfolds an instruction again.
-/

namespace SolQueue

open Checked

/-- An instruction with the accounts and arguments it carries. -/
inductive Instruction (Pubkey : Type) where
  | initializeQueue (ctx : InitializeQueue Pubkey) (params : InitializeQueueParams)
  | setQueuePaused (ctx : PauseQueue Pubkey) (queueName : String) (pause : Bool)
  | registerWorker (ctx : RegisterWorker Pubkey) (queueName : String)
  | deactivateWorker (ctx : DeactivateWorker Pubkey) (queueName : String)
  | enqueueJob (ctx : EnqueueJob Pubkey) (queueName : String) (seq : UInt64)
      (params : EnqueueJobParams)
  | claimJob (ctx : WorkerJob Pubkey) (queueName : String) (seq : UInt64)
  | completeJob (ctx : WorkerJob Pubkey) (queueName : String) (seq : UInt64)
      (params : CompleteJobParams)
  | failJob (ctx : WorkerJob Pubkey) (queueName : String) (seq : UInt64) (params : FailJobParams)
  | expireJob (ctx : ExpireJob Pubkey) (queueName : String) (seq : UInt64)
  | closeJob (ctx : CloseJob Pubkey) (queueName : String) (seq : UInt64)

/-- A call: an instruction and the clock at which it is executed. -/
structure Call (Pubkey : Type) where
  now : Int64
  instruction : Instruction Pubkey

variable {Pubkey : Type} [DecidableEq Pubkey]

/-- Execute one call on the ledger. -/
def execute [Inhabited Pubkey] (D : Derivation Pubkey) (σ : Ledger Pubkey) (c : Call Pubkey) :
    Except Error (Ledger Pubkey × Outcome Pubkey) :=
  match c.instruction with
  | .initializeQueue ctx params => initializeQueue D σ c.now ctx params
  | .setQueuePaused ctx queueName pause => setQueuePaused D σ c.now ctx queueName pause
  | .registerWorker ctx queueName => registerWorker D σ c.now ctx queueName
  | .deactivateWorker ctx queueName => deactivateWorker D σ c.now ctx queueName
  | .enqueueJob ctx queueName seq params => enqueueJob D σ c.now ctx queueName seq params
  | .claimJob ctx queueName seq => claimJob D σ c.now ctx queueName seq
  | .completeJob ctx queueName seq params => completeJob D σ c.now ctx queueName seq params
  | .failJob ctx queueName seq params => failJob D σ c.now ctx queueName seq params
  | .expireJob ctx queueName seq => expireJob D σ c.now ctx queueName seq
  | .closeJob ctx queueName seq => closeJob D σ ctx queueName seq

/-- The program as a machine started on the empty ledger. Calls of any parties come in any order;
the runtime executes them one at a time and reverts those that fail. -/
def program [Inhabited Pubkey] (D : Derivation Pubkey) :
    Machine (Ledger Pubkey) (Call Pubkey) (Outcome Pubkey) Error where
  init := .empty
  step := execute D

/-- A committed call of the program, with the ledgers around it. -/
abbrev Entry (Pubkey : Type) := Machine.Entry (Ledger Pubkey) (Call Pubkey) (Outcome Pubkey)

/-! ## Steps -/

/-- What `claim_job`, `complete_job` and `fail_job` find in their accounts: the queue `q`, an active
registry `r` of the signer on it and the job `j` of it. -/
structure WorkerJob.Valid (D : Derivation Pubkey) (σ : Ledger Pubkey) (ctx : WorkerJob Pubkey)
    (n : String) (s : UInt64) (q : QueueConfig Pubkey) (r : WorkerRegistry Pubkey)
    (j : Job Pubkey) : Prop where
  queue : QueueAt D σ n ctx.queueConfig q
  registry : RegistryAt D σ n ctx.worker ctx.queueConfig ctx.workerRegistry r
  active : r.isActive = true
  job : JobAt D σ n s ctx.queueConfig ctx.job j

/-- The job `j` is held by `w`: it is Processing and assigned to `w`. -/
structure Job.HeldBy (j : Job Pubkey) (w : Pubkey) : Prop where
  processing : j.status = .processing
  assigned : j.assignedWorker = some w

/-- The ways a call can commit. -/
inductive Step [Inhabited Pubkey] (D : Derivation Pubkey) (σ : Ledger Pubkey) :
    Call Pubkey → Ledger Pubkey → Outcome Pubkey → Prop where
  | initializeQueue {now : Int64} {ctx : InitializeQueue Pubkey} {params : InitializeQueueParams}
      {b : UInt8} (fresh : Fresh D σ (.queue params.queueName.asBytes) ctx.queueConfig b)
      (length : params.queueName.asBytes.length ≤ 32) :
      Step D σ ⟨now, .initializeQueue ctx params⟩
        { σ with
          queueConfigs := σ.queueConfigs.insert ctx.queueConfig
            (ctx.newQueue b params (zeroPadded 32 params.queueName.asBytes)) }
        ⟨[.queuePauseToggled ctx.queueConfig false ctx.authority now],
          [.rent ctx.authority ctx.queueConfig QueueConfig.LEN]⟩
  | setQueuePaused {now : Int64} {ctx : PauseQueue Pubkey} {n : String} {pause : Bool}
      {q : QueueConfig Pubkey} (queue : QueueAt D σ n ctx.queueConfig q)
      (authority : q.authority = ctx.authority) :
      Step D σ ⟨now, .setQueuePaused ctx n pause⟩
        { σ with
          queueConfigs := σ.queueConfigs.insert ctx.queueConfig { q with isPaused := pause } }
        (.emit (.queuePauseToggled ctx.queueConfig pause ctx.authority now))
  | registerWorker {now : Int64} {ctx : RegisterWorker Pubkey} {n : String}
      {q : QueueConfig Pubkey} {b : UInt8} (queue : QueueAt D σ n ctx.queueConfig q)
      (authority : q.authority = ctx.authority)
      (fresh : Fresh D σ (.worker n.asBytes ctx.worker) ctx.workerRegistry b) :
      Step D σ ⟨now, .registerWorker ctx n⟩
        { σ with
          workerRegistries :=
            σ.workerRegistries.insert ctx.workerRegistry (ctx.newRegistry b now) }
        ⟨[.workerRegistered ctx.queueConfig ctx.worker now],
          [.rent ctx.authority ctx.workerRegistry WorkerRegistry.LEN]⟩
  | deactivateWorker {now : Int64} {ctx : DeactivateWorker Pubkey} {n : String}
      {q : QueueConfig Pubkey} {r : WorkerRegistry Pubkey}
      (queue : QueueAt D σ n ctx.queueConfig q) (authority : q.authority = ctx.authority)
      (registry : RegistryAt D σ n ctx.worker ctx.queueConfig ctx.workerRegistry r) :
      Step D σ ⟨now, .deactivateWorker ctx n⟩
        { σ with
          workerRegistries :=
            σ.workerRegistries.insert ctx.workerRegistry { r with isActive := false } }
        (.emit (.workerDeactivated ctx.queueConfig ctx.worker ctx.authority now))
  | enqueueJob {now : Int64} {ctx : EnqueueJob Pubkey} {n : String} {s : UInt64}
      {params : EnqueueJobParams} {q : QueueConfig Pubkey} {b : UInt8} {next total : UInt64}
      (queue : QueueAt D σ n ctx.queueConfig q)
      (fresh : Fresh D σ (.job n.asBytes s) ctx.job b) (unpaused : q.isPaused = false)
      (payload : params.payload.length ≤ 512) (jobType : params.jobType.asBytes.length ≤ 32)
      (next_eq : next.toNat = q.nextJobSeq.toNat + 1)
      (total_eq : total.toNat = q.totalEnqueued.toNat + 1) :
      Step D σ ⟨now, .enqueueJob ctx n s params⟩
        { σ with
          queueConfigs := σ.queueConfigs.insert ctx.queueConfig
            { q with nextJobSeq := next, totalEnqueued := total }
          jobs := σ.jobs.insert ctx.job
            (ctx.newJob b q now params (zeroPadded 32 params.jobType.asBytes)) }
        ⟨[.jobEnqueued ctx.queueConfig ctx.job q.nextJobSeq params.jobType params.priority
            ctx.creator now],
          [.rent ctx.creator ctx.job Job.LEN]⟩
  | claimJob {now : Int64} {ctx : WorkerJob Pubkey} {n : String} {s : UInt64}
      {q : QueueConfig Pubkey} {r : WorkerRegistry Pubkey} {j : Job Pubkey} {claimed : UInt64}
      (valid : ctx.Valid D σ n s q r j) (pending : j.status = .pending)
      (claimed_eq : claimed.toNat = r.jobsClaimed.toNat + 1) :
      Step D σ ⟨now, .claimJob ctx n s⟩
        { σ with
          workerRegistries :=
            σ.workerRegistries.insert ctx.workerRegistry { r with jobsClaimed := claimed }
          jobs := σ.jobs.insert ctx.job (j.claimed ctx.worker now) }
        (.emit (.jobClaimed ctx.job j.seq ctx.worker now))
  | completeJob {now : Int64} {ctx : WorkerJob Pubkey} {n : String} {s : UInt64}
      {params : CompleteJobParams} {q : QueueConfig Pubkey} {r : WorkerRegistry Pubkey}
      {j : Job Pubkey} {duration : Int64} {total completed : UInt64}
      (valid : ctx.Valid D σ n s q r j) (held : j.HeldBy ctx.worker)
      (length : params.result.length ≤ 128)
      (duration_eq : duration.toInt = now.toInt - (j.startedAt.getD now).toInt)
      (total_eq : total.toNat = q.totalCompleted.toNat + 1)
      (completed_eq : completed.toNat = r.jobsCompleted.toNat + 1) :
      Step D σ ⟨now, .completeJob ctx n s params⟩
        { σ with
          queueConfigs := σ.queueConfigs.insert ctx.queueConfig { q with totalCompleted := total }
          workerRegistries :=
            σ.workerRegistries.insert ctx.workerRegistry { r with jobsCompleted := completed }
          jobs := σ.jobs.insert ctx.job (j.completedWith params.result now) }
        (.emit (.jobCompleted ctx.job j.seq ctx.worker duration now))
  | failJobPermanent {now : Int64} {ctx : WorkerJob Pubkey} {n : String} {s : UInt64}
      {params : FailJobParams} {q : QueueConfig Pubkey} {r : WorkerRegistry Pubkey}
      {j : Job Pubkey} {retries : UInt8} {failed total : UInt64}
      (valid : ctx.Valid D σ n s q r j) (held : j.HeldBy ctx.worker)
      (retries_eq : retries.toNat = j.retryCount.toNat + 1)
      (failed_eq : failed.toNat = r.jobsFailed.toNat + 1)
      (exhausted : j.maxRetries.toNat < retries.toNat)
      (total_eq : total.toNat = q.totalFailed.toNat + 1) :
      Step D σ ⟨now, .failJob ctx n s params⟩
        { σ with
          queueConfigs := σ.queueConfigs.insert ctx.queueConfig { q with totalFailed := total }
          workerRegistries :=
            σ.workerRegistries.insert ctx.workerRegistry { r with jobsFailed := failed }
          jobs := σ.jobs.insert ctx.job (j.failedFor params.reason retries now) }
        (.emit (.jobFailed ctx.job j.seq ctx.worker retries true now))
  | failJobRetry {now : Int64} {ctx : WorkerJob Pubkey} {n : String} {s : UInt64}
      {params : FailJobParams} {q : QueueConfig Pubkey} {r : WorkerRegistry Pubkey}
      {j : Job Pubkey} {retries : UInt8} {failed : UInt64}
      (valid : ctx.Valid D σ n s q r j) (held : j.HeldBy ctx.worker)
      (retries_eq : retries.toNat = j.retryCount.toNat + 1)
      (failed_eq : failed.toNat = r.jobsFailed.toNat + 1)
      (left : retries.toNat ≤ j.maxRetries.toNat) (attempts : j.maxRetries.toNat + 1 < 2 ^ 8) :
      Step D σ ⟨now, .failJob ctx n s params⟩
        { σ with
          workerRegistries :=
            σ.workerRegistries.insert ctx.workerRegistry { r with jobsFailed := failed }
          jobs := σ.jobs.insert ctx.job (j.retried params.reason retries) }
        (.emit (.jobFailed ctx.job j.seq ctx.worker retries false now))
  | expireJob {now : Int64} {ctx : ExpireJob Pubkey} {n : String} {s : UInt64}
      {q : QueueConfig Pubkey} {j : Job Pubkey} (queue : QueueAt D σ n ctx.queueConfig q)
      (job : JobAt D σ n s ctx.queueConfig ctx.job j) (processing : j.status = .processing)
      (expired : j.isExpired now q.jobTimeoutSecs = .ok true) :
      Step D σ ⟨now, .expireJob ctx n s⟩
        { σ with jobs := σ.jobs.insert ctx.job j.expired }
        (.emit (.jobExpired ctx.job j.seq (j.assignedWorker.getD default) now))
  | closeJob {now : Int64} {ctx : CloseJob Pubkey} {n : String} {s : UInt64}
      {q : QueueConfig Pubkey} {j : Job Pubkey} (queue : QueueAt D σ n ctx.queueConfig q)
      (job : JobAt D σ n s ctx.queueConfig ctx.job j) (creator : j.creator = ctx.creator)
      (finished : j.status = .completed ∨ j.status = .failed) :
      Step D σ ⟨now, .closeJob ctx n s⟩ { σ with jobs := σ.jobs.erase ctx.job }
        ⟨[], [.close ctx.job ctx.creator]⟩

/-! ## What each instruction checks -/

section Accounts

variable {D : Derivation Pubkey} {σ : Ledger Pubkey} {n : String} {s : UInt64}
  {q : QueueConfig Pubkey} {r : WorkerRegistry Pubkey} {j : Job Pubkey} {b : UInt8}

theorem PauseQueue.tryAccounts_eq_ok {ctx : PauseQueue Pubkey} :
    ctx.tryAccounts D σ n = .ok q ↔
      QueueAt D σ n ctx.queueConfig q ∧ q.authority = ctx.authority := by
  simp only [PauseQueue.tryAccounts, Except.bind_eq_ok, Ledger.loadQueueConfig_eq_ok,
    Derivation.checkSeeds_eq_ok, require_eq_ok, Except.pure_eq_ok, exists_const]
  constructor
  · rintro ⟨q, hq, hseeds, hauth, rfl⟩
    exact ⟨⟨hq, hseeds⟩, hauth⟩
  · rintro ⟨⟨hq, hseeds⟩, hauth⟩
    exact ⟨q, hq, hseeds, hauth, rfl⟩

theorem RegisterWorker.tryAccounts_eq_ok {ctx : RegisterWorker Pubkey} :
    ctx.tryAccounts D σ n = .ok b ↔
      ∃ q, QueueAt D σ n ctx.queueConfig q ∧ q.authority = ctx.authority ∧
        Fresh D σ (.worker n.asBytes ctx.worker) ctx.workerRegistry b := by
  simp only [RegisterWorker.tryAccounts, Except.bind_eq_ok, Ledger.loadQueueConfig_eq_ok,
    Derivation.initAccount_eq_ok, Derivation.checkSeeds_eq_ok, require_eq_ok, Except.pure_eq_ok,
    exists_const]
  constructor
  · rintro ⟨q, hq, b, hfresh, hseeds, hauth, rfl⟩
    exact ⟨q, ⟨hq, hseeds⟩, hauth, hfresh⟩
  · rintro ⟨q, ⟨hq, hseeds⟩, hauth, hfresh⟩
    exact ⟨q, hq, b, hfresh, hseeds, hauth, rfl⟩

theorem DeactivateWorker.tryAccounts_eq_ok {ctx : DeactivateWorker Pubkey} :
    ctx.tryAccounts D σ n = .ok r ↔
      ∃ q, QueueAt D σ n ctx.queueConfig q ∧ q.authority = ctx.authority ∧
        RegistryAt D σ n ctx.worker ctx.queueConfig ctx.workerRegistry r := by
  simp only [DeactivateWorker.tryAccounts, Except.bind_eq_ok, Ledger.loadQueueConfig_eq_ok,
    Ledger.loadWorkerRegistry_eq_ok, Derivation.checkSeeds_eq_ok, require_eq_ok,
    Except.pure_eq_ok, exists_const]
  constructor
  · rintro ⟨q, hq, r, hr, hqseeds, hauth, hrseeds, hqueue, rfl⟩
    exact ⟨q, ⟨hq, hqseeds⟩, hauth, ⟨hr, hrseeds, hqueue⟩⟩
  · rintro ⟨q, ⟨hq, hqseeds⟩, hauth, ⟨hr, hrseeds, hqueue⟩⟩
    exact ⟨q, hq, r, hr, hqseeds, hauth, hrseeds, hqueue, rfl⟩

theorem EnqueueJob.tryAccounts_eq_ok {ctx : EnqueueJob Pubkey} :
    ctx.tryAccounts D σ n s = .ok (q, b) ↔
      QueueAt D σ n ctx.queueConfig q ∧ Fresh D σ (.job n.asBytes s) ctx.job b ∧
        q.isPaused = false := by
  simp only [EnqueueJob.tryAccounts, Except.bind_eq_ok, Ledger.loadQueueConfig_eq_ok,
    Derivation.initAccount_eq_ok, Derivation.checkSeeds_eq_ok, require_eq_ok, Except.pure_eq_ok,
    exists_const, Prod.mk.injEq]
  constructor
  · rintro ⟨q, hq, b, hfresh, hseeds, hpaused, rfl, rfl⟩
    exact ⟨⟨hq, hseeds⟩, hfresh, hpaused⟩
  · rintro ⟨⟨hq, hseeds⟩, hfresh, hpaused⟩
    exact ⟨q, hq, b, hfresh, hseeds, hpaused, rfl, rfl⟩

theorem WorkerJob.tryAccounts_eq_ok {ctx : WorkerJob Pubkey} :
    ctx.tryAccounts D σ n s = .ok (q, r, j) ↔ ctx.Valid D σ n s q r j := by
  simp only [WorkerJob.tryAccounts, Except.bind_eq_ok, Ledger.loadQueueConfig_eq_ok,
    Ledger.loadWorkerRegistry_eq_ok, Ledger.loadJob_eq_ok, Derivation.checkSeeds_eq_ok,
    require_eq_ok, Except.pure_eq_ok, exists_const, Prod.mk.injEq]
  constructor
  · rintro ⟨q, hq, r, hr, j, hj, hqseeds, hrseeds, hrqueue, hactive, hjseeds, hjqueue, rfl, rfl,
      rfl⟩
    exact ⟨⟨hq, hqseeds⟩, ⟨hr, hrseeds, hrqueue⟩, hactive, ⟨hj, hjseeds, hjqueue⟩⟩
  · rintro ⟨⟨hq, hqseeds⟩, ⟨hr, hrseeds, hrqueue⟩, hactive, ⟨hj, hjseeds, hjqueue⟩⟩
    exact ⟨q, hq, r, hr, j, hj, hqseeds, hrseeds, hrqueue, hactive, hjseeds, hjqueue, rfl, rfl,
      rfl⟩

theorem ExpireJob.tryAccounts_eq_ok {ctx : ExpireJob Pubkey} :
    ctx.tryAccounts D σ n s = .ok (q, j) ↔
      QueueAt D σ n ctx.queueConfig q ∧ JobAt D σ n s ctx.queueConfig ctx.job j := by
  simp only [ExpireJob.tryAccounts, Except.bind_eq_ok, Ledger.loadQueueConfig_eq_ok,
    Ledger.loadJob_eq_ok, Derivation.checkSeeds_eq_ok, require_eq_ok, Except.pure_eq_ok,
    exists_const, Prod.mk.injEq]
  constructor
  · rintro ⟨q, hq, j, hj, hqseeds, hjseeds, hjqueue, rfl, rfl⟩
    exact ⟨⟨hq, hqseeds⟩, ⟨hj, hjseeds, hjqueue⟩⟩
  · rintro ⟨⟨hq, hqseeds⟩, ⟨hj, hjseeds, hjqueue⟩⟩
    exact ⟨q, hq, j, hj, hqseeds, hjseeds, hjqueue, rfl, rfl⟩

theorem CloseJob.tryAccounts_eq_ok {ctx : CloseJob Pubkey} :
    ctx.tryAccounts D σ n s = .ok j ↔
      ∃ q, QueueAt D σ n ctx.queueConfig q ∧ JobAt D σ n s ctx.queueConfig ctx.job j ∧
        j.creator = ctx.creator ∧ (j.status = .completed ∨ j.status = .failed) := by
  simp only [CloseJob.tryAccounts, Except.bind_eq_ok, Ledger.loadQueueConfig_eq_ok,
    Ledger.loadJob_eq_ok, Derivation.checkSeeds_eq_ok, require_eq_ok, Except.pure_eq_ok,
    exists_const]
  constructor
  · rintro ⟨q, hq, j, hj, hqseeds, hjseeds, hjqueue, hcreator, hfinished, rfl⟩
    exact ⟨q, ⟨hq, hqseeds⟩, ⟨hj, hjseeds, hjqueue⟩, hcreator, hfinished⟩
  · rintro ⟨q, ⟨hq, hqseeds⟩, ⟨hj, hjseeds, hjqueue⟩, hcreator, hfinished⟩
    exact ⟨q, hq, j, hj, hqseeds, hjseeds, hjqueue, hcreator, hfinished, rfl⟩

end Accounts

/-! ## Each instruction commits exactly by its steps -/

section Instructions

variable [Inhabited Pubkey] {D : Derivation Pubkey} {σ σ' : Ledger Pubkey} {o : Outcome Pubkey}
  {now : Int64} {n : String} {s : UInt64}

theorem initializeQueue_eq_ok {ctx : InitializeQueue Pubkey} {params : InitializeQueueParams} :
    initializeQueue D σ now ctx params = .ok (σ', o) ↔
      Step D σ ⟨now, .initializeQueue ctx params⟩ σ' o := by
  simp only [initializeQueue, InitializeQueue.handler, Except.bind_eq_ok, Prod.exists,
    Derivation.initAccount_eq_ok, nameToBytes_eq_ok, Except.pure_eq_ok, Prod.mk.injEq]
  constructor
  · rintro ⟨b, hfresh, _, _, ⟨_, ⟨hlength, rfl⟩, rfl, rfl⟩, rfl, rfl⟩
    exact .initializeQueue hfresh hlength
  · intro h
    cases h with
    | initializeQueue fresh length =>
      exact ⟨_, fresh, _, _, ⟨_, ⟨length, rfl⟩, rfl, rfl⟩, rfl, rfl⟩

theorem setQueuePaused_eq_ok {ctx : PauseQueue Pubkey} {pause : Bool} :
    setQueuePaused D σ now ctx n pause = .ok (σ', o) ↔
      Step D σ ⟨now, .setQueuePaused ctx n pause⟩ σ' o := by
  simp only [setQueuePaused, Except.bind_eq_ok, PauseQueue.tryAccounts_eq_ok, Except.pure_eq_ok,
    Prod.mk.injEq]
  constructor
  · rintro ⟨q, ⟨hqueue, hauth⟩, rfl, rfl⟩
    exact .setQueuePaused hqueue hauth
  · intro h
    cases h with
    | setQueuePaused queue authority => exact ⟨_, ⟨queue, authority⟩, rfl, rfl⟩

theorem registerWorker_eq_ok {ctx : RegisterWorker Pubkey} :
    registerWorker D σ now ctx n = .ok (σ', o) ↔
      Step D σ ⟨now, .registerWorker ctx n⟩ σ' o := by
  simp only [registerWorker, Except.bind_eq_ok, RegisterWorker.tryAccounts_eq_ok,
    Except.pure_eq_ok, Prod.mk.injEq]
  constructor
  · rintro ⟨b, ⟨q, hqueue, hauth, hfresh⟩, rfl, rfl⟩
    exact .registerWorker hqueue hauth hfresh
  · intro h
    cases h with
    | registerWorker queue authority fresh => exact ⟨_, ⟨_, queue, authority, fresh⟩, rfl, rfl⟩

theorem deactivateWorker_eq_ok {ctx : DeactivateWorker Pubkey} :
    deactivateWorker D σ now ctx n = .ok (σ', o) ↔
      Step D σ ⟨now, .deactivateWorker ctx n⟩ σ' o := by
  simp only [deactivateWorker, Except.bind_eq_ok, DeactivateWorker.tryAccounts_eq_ok,
    Except.pure_eq_ok, Prod.mk.injEq]
  constructor
  · rintro ⟨r, ⟨q, hqueue, hauth, hregistry⟩, rfl, rfl⟩
    exact .deactivateWorker hqueue hauth hregistry
  · intro h
    cases h with
    | deactivateWorker queue authority registry =>
      exact ⟨_, ⟨_, queue, authority, registry⟩, rfl, rfl⟩

theorem enqueueJob_eq_ok {ctx : EnqueueJob Pubkey} {params : EnqueueJobParams} :
    enqueueJob D σ now ctx n s params = .ok (σ', o) ↔
      Step D σ ⟨now, .enqueueJob ctx n s params⟩ σ' o := by
  simp only [enqueueJob, EnqueueJob.handler, Except.bind_eq_ok, Prod.exists,
    EnqueueJob.tryAccounts_eq_ok, require_eq_ok, jobTypeToBytes_eq_ok, add_eq_ok_uint64,
    Except.pure_eq_ok, exists_const, Prod.mk.injEq]
  constructor
  · rintro ⟨q, b, ⟨hqueue, hfresh, hpaused⟩, _, _, _, ⟨hpayload, _, ⟨hjobType, rfl⟩, next, hnext,
      total, htotal, rfl, rfl, rfl⟩, rfl, rfl⟩
    exact .enqueueJob hqueue hfresh hpaused hpayload hjobType hnext htotal
  · intro h
    cases h with
    | enqueueJob queue fresh unpaused payload jobType next_eq total_eq =>
      exact ⟨_, _, ⟨queue, fresh, unpaused⟩, _, _, _, ⟨payload, _, ⟨jobType, rfl⟩, _, next_eq, _,
        total_eq, rfl, rfl, rfl⟩, rfl, rfl⟩

theorem claimJob_eq_ok {ctx : WorkerJob Pubkey} :
    claimJob D σ now ctx n s = .ok (σ', o) ↔ Step D σ ⟨now, .claimJob ctx n s⟩ σ' o := by
  simp only [claimJob, ClaimJob.handler, Except.bind_eq_ok, Prod.exists,
    WorkerJob.tryAccounts_eq_ok, require_eq_ok, add_eq_ok_uint64, Except.pure_eq_ok,
    exists_const, Prod.mk.injEq]
  constructor
  · rintro ⟨q, r, j, hvalid, _, _, _, ⟨hpending, claimed, hclaimed, rfl, rfl, rfl⟩, rfl, rfl⟩
    exact .claimJob hvalid hpending hclaimed
  · intro h
    cases h with
    | claimJob valid pending claimed_eq =>
      exact ⟨_, _, _, valid, _, _, _, ⟨pending, _, claimed_eq, rfl, rfl, rfl⟩, rfl, rfl⟩

theorem completeJob_eq_ok {ctx : WorkerJob Pubkey} {params : CompleteJobParams} :
    completeJob D σ now ctx n s params = .ok (σ', o) ↔
      Step D σ ⟨now, .completeJob ctx n s params⟩ σ' o := by
  simp only [completeJob, CompleteJob.handler, Except.bind_eq_ok, Prod.exists,
    WorkerJob.tryAccounts_eq_ok, require_eq_ok, add_eq_ok_uint64, sub_eq_ok_int64,
    Except.pure_eq_ok, exists_const, Prod.mk.injEq]
  constructor
  · rintro ⟨q, r, j, hvalid, _, _, _, _, ⟨hprocessing, hassigned, hlength, duration, hduration,
      total, htotal, completed, hcompleted, rfl, rfl, rfl, rfl⟩, rfl, rfl⟩
    exact .completeJob hvalid ⟨hprocessing, hassigned⟩ hlength hduration htotal hcompleted
  · intro h
    cases h with
    | completeJob valid held length duration_eq total_eq completed_eq =>
      exact ⟨_, _, _, valid, _, _, _, _, ⟨held.processing, held.assigned, length, _, duration_eq,
        _, total_eq, _, completed_eq, rfl, rfl, rfl, rfl⟩, rfl, rfl⟩

omit [Inhabited Pubkey] in
/-- What `fail_job` does once its accounts are loaded: it counts the failure and either fails the
job permanently or returns it to Pending, the latter only if the attempts can be printed. -/
theorem FailJob.handler_eq_ok {ctx : WorkerJob Pubkey} {q q' : QueueConfig Pubkey}
    {r r' : WorkerRegistry Pubkey} {j j' : Job Pubkey} {params : FailJobParams}
    {event : Event Pubkey} :
    FailJob.handler ctx q r j now params = .ok (q', r', j', event) ↔
      j.HeldBy ctx.worker ∧ ∃ (retries : UInt8) (failed : UInt64),
        retries.toNat = j.retryCount.toNat + 1 ∧ failed.toNat = r.jobsFailed.toNat + 1 ∧
        r' = { r with jobsFailed := failed } ∧
        ((j.maxRetries.toNat < retries.toNat ∧ ∃ total : UInt64,
            total.toNat = q.totalFailed.toNat + 1 ∧ q' = { q with totalFailed := total } ∧
            j' = j.failedFor params.reason retries now ∧
            event = .jobFailed ctx.job j.seq ctx.worker retries true now) ∨
          (retries.toNat ≤ j.maxRetries.toNat ∧ j.maxRetries.toNat + 1 < 2 ^ 8 ∧ q' = q ∧
            j' = j.retried params.reason retries ∧
            event = .jobFailed ctx.job j.seq ctx.worker retries false now)) := by
  simp only [FailJob.handler, Except.bind_eq_ok, require_eq_ok, add_eq_ok_uint64,
    add_eq_ok_uint8, exists_const]
  constructor
  · rintro ⟨hprocessing, hassigned, retries, hretries, failed, hfailed, hbranch⟩
    refine ⟨⟨hprocessing, hassigned⟩, retries, failed, hretries, hfailed, ?_⟩
    -- the branches differ in what they add: the queue's total, or the attempts of the log line
    split_ifs at hbranch with hpermanent
    · simp only [Except.bind_eq_ok, add_eq_ok_uint64, Except.pure_eq_ok, Prod.mk.injEq] at hbranch
      obtain ⟨total, htotal, rfl, rfl, rfl, rfl⟩ := hbranch
      exact ⟨rfl, .inl ⟨UInt8.lt_iff_toNat_lt.mp hpermanent, total, htotal, rfl, rfl, rfl⟩⟩
    · simp only [Except.bind_eq_ok, add_eq_ok_uint8, Except.pure_eq_ok, Prod.mk.injEq] at hbranch
      obtain ⟨attempts, hattempts, rfl, rfl, rfl, rfl⟩ := hbranch
      exact ⟨rfl, .inr ⟨UInt8.le_iff_toNat_le.mp (UInt8.not_lt.mp hpermanent),
        exists_toNat_eq_uint8.mp ⟨attempts, hattempts⟩, rfl, rfl, rfl⟩⟩
  · rintro ⟨held, retries, failed, hretries, hfailed, rfl, hbranch⟩
    refine ⟨held.processing, held.assigned, retries, hretries, failed, hfailed, ?_⟩
    rcases hbranch with ⟨hpermanent, total, htotal, rfl, rfl, rfl⟩ |
      ⟨hleft, hattempts, rfl, rfl, rfl⟩
    · rw [if_pos (UInt8.lt_iff_toNat_lt.mpr hpermanent)]
      simp only [Except.bind_eq_ok, add_eq_ok_uint64]
      exact ⟨total, htotal, rfl⟩
    · obtain ⟨attempts, hattempts⟩ := exists_toNat_eq_uint8.mpr hattempts
      rw [if_neg (UInt8.not_lt.mpr (UInt8.le_iff_toNat_le.mpr hleft))]
      simp only [Except.bind_eq_ok, add_eq_ok_uint8]
      exact ⟨attempts, hattempts, rfl⟩

theorem failJob_eq_ok {ctx : WorkerJob Pubkey} {params : FailJobParams} :
    failJob D σ now ctx n s params = .ok (σ', o) ↔
      Step D σ ⟨now, .failJob ctx n s params⟩ σ' o := by
  simp only [failJob, Except.bind_eq_ok, Prod.exists, WorkerJob.tryAccounts_eq_ok,
    FailJob.handler_eq_ok, Except.pure_eq_ok, Prod.mk.injEq]
  constructor
  · rintro ⟨q, r, j, hvalid, _, _, _, _, ⟨held, retries, failed, hretries, hfailed, rfl, hbranch⟩,
      rfl, rfl⟩
    rcases hbranch with ⟨hpermanent, total, htotal, rfl, rfl, rfl⟩ |
      ⟨hleft, hattempts, rfl, rfl, rfl⟩
    · exact .failJobPermanent hvalid held hretries hfailed hpermanent htotal
    · -- a retry writes the queue back as it was
      rw [Finmap.insert_of_lookup hvalid.queue.lookup]
      exact .failJobRetry hvalid held hretries hfailed hleft hattempts
  · intro h
    cases h with
    | failJobPermanent valid held retries_eq failed_eq exhausted total_eq =>
      exact ⟨_, _, _, valid, _, _, _, _, ⟨held, _, _, retries_eq, failed_eq, rfl,
        .inl ⟨exhausted, _, total_eq, rfl, rfl, rfl⟩⟩, rfl, rfl⟩
    | @failJobRetry _ _ _ _ _ q _ _ _ _ valid held retries_eq failed_eq left attempts =>
      refine ⟨q, _, _, valid, _, _, _, _, ⟨held, _, _, retries_eq, failed_eq, rfl,
        .inr ⟨left, attempts, rfl, rfl, rfl⟩⟩, ?_, rfl⟩
      rw [Finmap.insert_of_lookup valid.queue.lookup]

theorem expireJob_eq_ok {ctx : ExpireJob Pubkey} :
    expireJob D σ now ctx n s = .ok (σ', o) ↔ Step D σ ⟨now, .expireJob ctx n s⟩ σ' o := by
  simp only [expireJob, ExpireJob.handler, Except.bind_eq_ok, Prod.exists,
    ExpireJob.tryAccounts_eq_ok, require_eq_ok, Except.pure_eq_ok, exists_const, Prod.mk.injEq]
  constructor
  · rintro ⟨q, j, ⟨hqueue, hjob⟩, _, _, ⟨hprocessing, expired, hexpired, htrue, rfl, rfl⟩, rfl,
      rfl⟩
    exact .expireJob hqueue hjob hprocessing (htrue ▸ hexpired)
  · intro h
    cases h with
    | expireJob queue job processing expired =>
      exact ⟨_, _, ⟨queue, job⟩, _, _, ⟨processing, _, expired, rfl, rfl, rfl⟩, rfl, rfl⟩

theorem closeJob_eq_ok {ctx : CloseJob Pubkey} :
    closeJob D σ ctx n s = .ok (σ', o) ↔ Step D σ ⟨now, .closeJob ctx n s⟩ σ' o := by
  simp only [closeJob, Except.bind_eq_ok, CloseJob.tryAccounts_eq_ok, Except.pure_eq_ok,
    Prod.mk.injEq]
  constructor
  · rintro ⟨j, ⟨q, hqueue, hjob, hcreator, hfinished⟩, rfl, rfl⟩
    exact .closeJob hqueue hjob hcreator hfinished
  · intro h
    cases h with
    | closeJob queue job creator finished =>
      exact ⟨_, ⟨_, queue, job, creator, finished⟩, rfl, rfl⟩

/-- A call commits exactly by one of the steps. -/
theorem execute_eq_ok {c : Call Pubkey} : execute D σ c = .ok (σ', o) ↔ Step D σ c σ' o := by
  obtain ⟨now, instruction⟩ := c
  cases instruction with
  | initializeQueue ctx params => exact initializeQueue_eq_ok
  | setQueuePaused ctx n pause => exact setQueuePaused_eq_ok
  | registerWorker ctx n => exact registerWorker_eq_ok
  | deactivateWorker ctx n => exact deactivateWorker_eq_ok
  | enqueueJob ctx n s params => exact enqueueJob_eq_ok
  | claimJob ctx n s => exact claimJob_eq_ok
  | completeJob ctx n s params => exact completeJob_eq_ok
  | failJob ctx n s params => exact failJob_eq_ok
  | expireJob ctx n s => exact expireJob_eq_ok
  | closeJob ctx n s => exact closeJob_eq_ok

/-- Every entry of a log is a step from one ledger the calls went through to the next. -/
theorem step_of_mem_logFrom {calls : List (Call Pubkey)} {e : Entry Pubkey}
    (h : e ∈ (program D).logFrom σ calls) :
    ∃ calls₁, calls₁ ++ [e.call] <+: calls ∧ (program D).runFrom σ calls₁ = e.before ∧
      (program D).runFrom σ (calls₁ ++ [e.call]) = e.after ∧
      Step D e.before e.call e.after e.out := by
  obtain ⟨calls₁, hcalls, hbefore, hafter, hstep⟩ := Machine.mem_logFrom h
  exact ⟨calls₁, hcalls, hbefore, hafter, execute_eq_ok.mp hstep⟩

/-- Every entry of the log of a run is a step from one ledger the run went through to the next. -/
theorem step_of_mem_log {calls : List (Call Pubkey)} {e : Entry Pubkey}
    (h : e ∈ (program D).log calls) :
    ∃ calls₁, calls₁ ++ [e.call] <+: calls ∧ (program D).run calls₁ = e.before ∧
      (program D).run (calls₁ ++ [e.call]) = e.after ∧ Step D e.before e.call e.after e.out :=
  step_of_mem_logFrom h

end Instructions

/-! ## Sample calls

Calls of an authority, a producer and workers on one queue, with the accounts an honest client
passes, over keys that remember how they were derived. -/

namespace Sample

/-- The name of the queue. -/
def name : String := "q"

/-- The wallet that creates and administers the queue. -/
def authority : Key := .wallet 1

/-- The wallet that enqueues and closes jobs. -/
def producer : Key := .wallet 2

/-- The wallet that works on jobs. -/
def worker : Key := .wallet 3

/-- The address of the queue. -/
def queue : Key := .queue name.asBytes 255

/-- The address of the registry of `w`. -/
def registry (w : Key) : Key := .worker name.asBytes w 255

/-- The address of the job numbered `s`. -/
def job (s : UInt64) : Key := .job name.asBytes s 255

/-- The authority creates the queue. -/
def create (maxRetries : UInt8) (jobTimeoutSecs : Int64) : Call Key :=
  ⟨0, .initializeQueue ⟨authority, queue⟩ ⟨name, maxRetries, jobTimeoutSecs⟩⟩

/-- The authority registers `w`. -/
def register (w : Key) : Call Key :=
  ⟨0, .registerWorker ⟨authority, queue, w, registry w⟩ name⟩

/-- The authority deactivates `w`. -/
def deactivate (now : Int64) (w : Key) : Call Key :=
  ⟨now, .deactivateWorker ⟨authority, queue, w, registry w⟩ name⟩

/-- The authority pauses or resumes the queue. -/
def setPaused (pause : Bool) : Call Key :=
  ⟨0, .setQueuePaused ⟨authority, queue⟩ name pause⟩

/-- A job of three bytes of payload. -/
def params (maxRetriesOverride : Option UInt8) : EnqueueJobParams :=
  ⟨name, "email", [1, 2, 3], 0, maxRetriesOverride⟩

/-- `creator` enqueues that job at the address of the number `s`. -/
def enqueue (creator : Key) (s : UInt64) (maxRetriesOverride : Option UInt8) : Call Key :=
  ⟨1, .enqueueJob ⟨creator, queue, job s⟩ name s (params maxRetriesOverride)⟩

/-- `w` claims the job numbered `s`. -/
def claim (now : Int64) (w : Key) (s : UInt64) : Call Key :=
  ⟨now, .claimJob ⟨w, queue, registry w, job s⟩ name s⟩

/-- `w` completes the job numbered `s` with a one-byte result. -/
def complete (now : Int64) (w : Key) (s : UInt64) : Call Key :=
  ⟨now, .completeJob ⟨w, queue, registry w, job s⟩ name s ⟨[7]⟩⟩

/-- `w` reports the job numbered `s` as failed. -/
def fail (now : Int64) (w : Key) (s : UInt64) : Call Key :=
  ⟨now, .failJob ⟨w, queue, registry w, job s⟩ name s ⟨"boom"⟩⟩

/-- The producer expires the job numbered `s`. -/
def expire (now : Int64) (s : UInt64) : Call Key :=
  ⟨now, .expireJob ⟨producer, queue, job s⟩ name s⟩

/-- The producer closes the job numbered `s`. -/
def close (s : UInt64) : Call Key :=
  ⟨9, .closeJob ⟨producer, queue, job s⟩ name s⟩

/-- A job that fails once, expires once, completes and is closed. -/
def day : List (Call Key) :=
  [create 2 60, register worker, enqueue producer 0 none, claim 2 worker 0, fail 3 worker 0,
    claim 4 worker 0, expire 65 0, claim 70 worker 0, complete 71 worker 0, close 0]

example : ((program Derivation.free).log day).length = day.length := by decide +kernel

end Sample

end SolQueue
