import SolQueue.Lib.Counters
import SolQueue.Lib.Reorder
import SolQueue.Program

/-!
# Work on different jobs in any order

Operations on different jobs share the counters of queues and registries, but they read of these
accounts only what no operation on a job changes. What such a call does is therefore an `Effect`
that the counters have no part in: a queue counts, a registry counts and one job is written.

* `QueueConfig.counters`, `WorkerRegistry.counters`: the counters and the room they leave.
* `Effect`, `Acts`: what the calls that operate on a job do, apart from the counters' room.
* `step_iff_effect`: a call commits exactly if it has an effect there is room for.
* `Acts.transfer`: effects on other jobs leave the effect of a call as it is.
* `Independent.exchange`, `order_independent`: calls on different jobs commit in every order.
-/

namespace SolQueue

open Checked

variable {Pubkey : Type}

/-! ## Counters -/

/-- The counters of a queue that operations on jobs move. -/
inductive QueueCounter where
  | enqueued
  | completed
  | failed
  deriving DecidableEq

/-- The queue with one more counted. An enqueue moves two fields. -/
def QueueConfig.count (g : QueueCounter) (q : QueueConfig Pubkey) : QueueConfig Pubkey :=
  match g with
  | .enqueued =>
    { q with nextJobSeq := q.nextJobSeq + 1, totalEnqueued := q.totalEnqueued + 1 }
  | .completed => { q with totalCompleted := q.totalCompleted + 1 }
  | .failed => { q with totalFailed := q.totalFailed + 1 }

/-- One more can be counted. -/
def QueueConfig.Room (g : QueueCounter) (q : QueueConfig Pubkey) : Prop :=
  match g with
  | .enqueued => q.nextJobSeq.toNat + 1 < 2 ^ 64 ∧ q.totalEnqueued.toNat + 1 < 2 ^ 64
  | .completed => q.totalCompleted.toNat + 1 < 2 ^ 64
  | .failed => q.totalFailed.toNat + 1 < 2 ^ 64

/-- The counters of a registry. -/
inductive RegistryCounter where
  | claimed
  | completed
  | failed
  deriving DecidableEq

/-- The registry with one more counted. -/
def WorkerRegistry.count (g : RegistryCounter) (r : WorkerRegistry Pubkey) :
    WorkerRegistry Pubkey :=
  match g with
  | .claimed => { r with jobsClaimed := r.jobsClaimed + 1 }
  | .completed => { r with jobsCompleted := r.jobsCompleted + 1 }
  | .failed => { r with jobsFailed := r.jobsFailed + 1 }

/-- One more can be counted. -/
def WorkerRegistry.Room (g : RegistryCounter) (r : WorkerRegistry Pubkey) : Prop :=
  match g with
  | .claimed => r.jobsClaimed.toNat + 1 < 2 ^ 64
  | .completed => r.jobsCompleted.toNat + 1 < 2 ^ 64
  | .failed => r.jobsFailed.toNat + 1 < 2 ^ 64

/-- Queues count independently of the order. -/
def QueueConfig.counters (Pubkey : Type) : Counters (QueueConfig Pubkey) QueueCounter where
  count := QueueConfig.count
  Room := QueueConfig.Room
  count_comm g g' q := by cases g <;> cases g' <;> rfl
  room_swap {g g' q} h h' := by
    -- another counter leaves the room as it was
    cases g <;> cases g' <;> first | exact ⟨h, h'⟩ | exact ⟨h', h⟩

/-- So do registries. -/
def WorkerRegistry.counters (Pubkey : Type) :
    Counters (WorkerRegistry Pubkey) RegistryCounter where
  count := WorkerRegistry.count
  Room := WorkerRegistry.Room
  count_comm g g' r := by cases g <;> cases g' <;> rfl
  room_swap {g g' r} h h' := by
    -- another counter leaves the room as it was
    cases g <;> cases g' <;> first | exact ⟨h, h'⟩ | exact ⟨h', h⟩

/-- The queue without its counters. -/
def QueueConfig.settings (q : QueueConfig Pubkey) : QueueConfig Pubkey :=
  { q with nextJobSeq := 0, totalEnqueued := 0, totalCompleted := 0, totalFailed := 0 }

/-- The registry without its counters. -/
def WorkerRegistry.settings (r : WorkerRegistry Pubkey) : WorkerRegistry Pubkey :=
  { r with jobsCompleted := 0, jobsFailed := 0, jobsClaimed := 0 }

@[simp]
theorem QueueConfig.settings_count (g : QueueCounter) (q : QueueConfig Pubkey) :
    (q.count g).settings = q.settings := by
  cases g <;> rfl

@[simp]
theorem WorkerRegistry.settings_count (g : RegistryCounter) (r : WorkerRegistry Pubkey) :
    (r.count g).settings = r.settings := by
  cases g <;> rfl

/-! ## Effects -/

/-- What an operation on a job does: a queue and a registry count, if any, and the job is written
or erased. -/
structure Effect (Pubkey : Type) where
  queue : Option (Pubkey × QueueCounter)
  registry : Option (Pubkey × RegistryCounter)
  job : Pubkey
  left : Option (Job Pubkey)

/-- The job address an instruction operates on. -/
def Instruction.jobKey : Instruction Pubkey → Option Pubkey
  | .enqueueJob ctx _ _ _ => some ctx.job
  | .claimJob ctx _ _ | .completeJob ctx _ _ _ | .failJob ctx _ _ _ => some ctx.job
  | .expireJob ctx _ _ => some ctx.job
  | .closeJob ctx _ _ => some ctx.job
  | .initializeQueue .. | .setQueuePaused .. | .registerWorker .. | .deactivateWorker .. => none

/-- The queue an instruction enqueues on. -/
def Instruction.enqueueKey : Instruction Pubkey → Option Pubkey
  | .enqueueJob ctx _ _ _ => some ctx.queueConfig
  | _ => none

variable [DecidableEq Pubkey]

/-- The ledger after an effect. -/
def Effect.apply (e : Effect Pubkey) (σ : Ledger Pubkey) : Ledger Pubkey where
  queueConfigs := σ.queueConfigs.tick (QueueConfig.counters Pubkey) e.queue
  workerRegistries := σ.workerRegistries.tick (WorkerRegistry.counters Pubkey) e.registry
  jobs := σ.jobs.put e.job e.left

/-- The counters have room for an effect. -/
structure Effect.Fits (e : Effect Pubkey) (σ : Ledger Pubkey) : Prop where
  queue : σ.queueConfigs.HasRoom (QueueConfig.counters Pubkey) e.queue
  registry : σ.workerRegistries.HasRoom (WorkerRegistry.counters Pubkey) e.registry

/-- Effects on different jobs commute. -/
theorem Effect.apply_comm {e e' : Effect Pubkey} {σ : Ledger Pubkey} (h : e.job ≠ e'.job) :
    e'.apply (e.apply σ) = e.apply (e'.apply σ) := by
  simp only [Effect.apply, Ledger.mk.injEq]
  exact ⟨Finmap.tick_comm _, Finmap.tick_comm _, Finmap.put_comm h⟩

/-- Room for one effect after another is room for them in the other order. -/
theorem Effect.Fits.swap {e e' : Effect Pubkey} {σ : Ledger Pubkey} (h : e.Fits σ)
    (h' : e'.Fits (e.apply σ)) : e'.Fits σ ∧ e.Fits (e'.apply σ) := by
  obtain ⟨hqueue', hqueue⟩ := h.queue.swap _ h'.queue
  obtain ⟨hregistry', hregistry⟩ := h.registry.swap _ h'.registry
  exact ⟨⟨hqueue', hregistry'⟩, ⟨hqueue, hregistry⟩⟩

/-- The effect of a call that operates on a job: the checks it passes besides the room in the
counters, and what it does. -/
inductive Acts (D : Derivation Pubkey) (σ : Ledger Pubkey) : Call Pubkey → Effect Pubkey → Prop
    where
  | enqueueJob {now : Int64} {ctx : EnqueueJob Pubkey} {n : String} {s : UInt64}
      {params : EnqueueJobParams} {q : QueueConfig Pubkey} {b : UInt8}
      (queue : QueueAt D σ n ctx.queueConfig q) (fresh : Fresh D σ (.job n.asBytes s) ctx.job b)
      (unpaused : q.isPaused = false) (payload : params.payload.length ≤ 512)
      (jobType : params.jobType.asBytes.length ≤ 32) :
      Acts D σ ⟨now, .enqueueJob ctx n s params⟩
        ⟨some (ctx.queueConfig, .enqueued), none, ctx.job,
          some (ctx.newJob b q now params (zeroPadded 32 params.jobType.asBytes))⟩
  | claimJob {now : Int64} {ctx : WorkerJob Pubkey} {n : String} {s : UInt64}
      {q : QueueConfig Pubkey} {r : WorkerRegistry Pubkey} {j : Job Pubkey}
      (valid : ctx.Valid D σ n s q r j) (pending : j.status = .pending) :
      Acts D σ ⟨now, .claimJob ctx n s⟩
        ⟨none, some (ctx.workerRegistry, .claimed), ctx.job, some (j.claimed ctx.worker now)⟩
  | completeJob {now : Int64} {ctx : WorkerJob Pubkey} {n : String} {s : UInt64}
      {params : CompleteJobParams} {q : QueueConfig Pubkey} {r : WorkerRegistry Pubkey}
      {j : Job Pubkey} {duration : Int64} (valid : ctx.Valid D σ n s q r j)
      (held : j.HeldBy ctx.worker) (length : params.result.length ≤ 128)
      (duration_eq : duration.toInt = now.toInt - (j.startedAt.getD now).toInt) :
      Acts D σ ⟨now, .completeJob ctx n s params⟩
        ⟨some (ctx.queueConfig, .completed), some (ctx.workerRegistry, .completed), ctx.job,
          some (j.completedWith params.result now)⟩
  | failJobPermanent {now : Int64} {ctx : WorkerJob Pubkey} {n : String} {s : UInt64}
      {params : FailJobParams} {q : QueueConfig Pubkey} {r : WorkerRegistry Pubkey}
      {j : Job Pubkey} {retries : UInt8} (valid : ctx.Valid D σ n s q r j)
      (held : j.HeldBy ctx.worker) (retries_eq : retries.toNat = j.retryCount.toNat + 1)
      (exhausted : j.maxRetries.toNat < retries.toNat) :
      Acts D σ ⟨now, .failJob ctx n s params⟩
        ⟨some (ctx.queueConfig, .failed), some (ctx.workerRegistry, .failed), ctx.job,
          some (j.failedFor params.reason retries now)⟩
  | failJobRetry {now : Int64} {ctx : WorkerJob Pubkey} {n : String} {s : UInt64}
      {params : FailJobParams} {q : QueueConfig Pubkey} {r : WorkerRegistry Pubkey}
      {j : Job Pubkey} {retries : UInt8} (valid : ctx.Valid D σ n s q r j)
      (held : j.HeldBy ctx.worker) (retries_eq : retries.toNat = j.retryCount.toNat + 1)
      (left : retries.toNat ≤ j.maxRetries.toNat) (attempts : j.maxRetries.toNat + 1 < 2 ^ 8) :
      Acts D σ ⟨now, .failJob ctx n s params⟩
        ⟨none, some (ctx.workerRegistry, .failed), ctx.job,
          some (j.retried params.reason retries)⟩
  | expireJob {now : Int64} {ctx : ExpireJob Pubkey} {n : String} {s : UInt64}
      {q : QueueConfig Pubkey} {j : Job Pubkey} (queue : QueueAt D σ n ctx.queueConfig q)
      (job : JobAt D σ n s ctx.queueConfig ctx.job j) (processing : j.status = .processing)
      (expired : j.isExpired now q.jobTimeoutSecs = .ok true) :
      Acts D σ ⟨now, .expireJob ctx n s⟩ ⟨none, none, ctx.job, some j.expired⟩
  | closeJob {now : Int64} {ctx : CloseJob Pubkey} {n : String} {s : UInt64}
      {q : QueueConfig Pubkey} {j : Job Pubkey} (queue : QueueAt D σ n ctx.queueConfig q)
      (job : JobAt D σ n s ctx.queueConfig ctx.job j) (creator : j.creator = ctx.creator)
      (finished : j.status = .completed ∨ j.status = .failed) :
      Acts D σ ⟨now, .closeJob ctx n s⟩ ⟨none, none, ctx.job, none⟩

section Acts

variable {D : Derivation Pubkey} {σ τ : Ledger Pubkey} {c : Call Pubkey} {e : Effect Pubkey}

/-- A call acts on its own job. -/
theorem Acts.jobKey (h : Acts D σ c e) : c.instruction.jobKey = some e.job := by
  cases h <;> rfl

/-- Only a call that enqueues on a queue moves the counter of its numbers. -/
theorem Acts.enqueueKey {k : Pubkey} (h : Acts D σ c e) (hqueue : e.queue = some (k, .enqueued)) :
    c.instruction.enqueueKey = some k := by
  cases h <;> simp_all [Instruction.enqueueKey]

/-- An effect leaves the next number of a queue to calls that do not enqueue on the same queue. -/
theorem Acts.nextJobSeq_kept (h : Acts D σ c e) {k : Pubkey}
    (hk : c.instruction.enqueueKey ≠ some k) :
    ((e.apply σ).queueConfigs.lookup k).map (·.nextJobSeq) =
      (σ.queueConfigs.lookup k).map (·.nextJobSeq) := by
  refine Finmap.map_lookup_tick _ fun g hqueue q => ?_
  cases g with
  | enqueued => exact absurd (h.enqueueKey hqueue) hk
  | completed | failed => rfl

/-! ## Effects on other jobs -/

/-- The ledgers differ in counters and in jobs other than the one at `k` only. -/
structure Resembles (k : Pubkey) (σ τ : Ledger Pubkey) : Prop where
  queue : ∀ x, (σ.queueConfigs.lookup x).map QueueConfig.settings =
    (τ.queueConfigs.lookup x).map QueueConfig.settings
  registry : ∀ x, (σ.workerRegistries.lookup x).map WorkerRegistry.settings =
    (τ.workerRegistries.lookup x).map WorkerRegistry.settings
  job : σ.jobs.lookup k = τ.jobs.lookup k

/-- An effect on another job leaves the ledger resembling what it was. -/
theorem Effect.resembles {k : Pubkey} (hk : k ≠ e.job) : Resembles k (e.apply σ) σ where
  queue _ := Finmap.map_lookup_tick _ fun g _ => QueueConfig.settings_count g
  registry _ := Finmap.map_lookup_tick _ fun g _ => WorkerRegistry.settings_count g
  job := by rw [Effect.apply, Finmap.lookup_put, if_neg hk]

namespace Resembles

variable {k : Pubkey} {n : String} {s : UInt64} {x w queue : Pubkey}

theorem symm (h : Resembles k σ τ) : Resembles k τ σ :=
  ⟨fun x => (h.queue x).symm, fun x => (h.registry x).symm, h.job.symm⟩

/-- A queue that passes its checks does so up to its counters. -/
theorem queueAt (h : Resembles k σ τ) {q : QueueConfig Pubkey} (hq : QueueAt D σ n x q) :
    ∃ q', QueueAt D τ n x q' ∧ q'.settings = q.settings := by
  have hx := h.queue x
  rw [hq.lookup, Option.map_some] at hx
  obtain ⟨q', hq', hsame⟩ := Option.map_eq_some_iff.mp hx.symm
  have hbump : q'.bump = q.bump := (congrArg QueueConfig.bump hsame :)
  exact ⟨q', ⟨hq', hbump ▸ hq.seeds⟩, hsame⟩

/-- So does a registry. -/
theorem registryAt (h : Resembles k σ τ) {r : WorkerRegistry Pubkey}
    (hr : RegistryAt D σ n w queue x r) :
    ∃ r', RegistryAt D τ n w queue x r' ∧ r'.settings = r.settings := by
  have hx := h.registry x
  rw [hr.lookup, Option.map_some] at hx
  obtain ⟨r', hr', hsame⟩ := Option.map_eq_some_iff.mp hx.symm
  have hbump : r'.bump = r.bump := (congrArg WorkerRegistry.bump hsame :)
  have hqueue : r'.queue = r.queue := (congrArg WorkerRegistry.queue hsame :)
  exact ⟨r', ⟨hr', hbump ▸ hr.seeds, hqueue.trans hr.queue⟩, hsame⟩

/-- The job itself passes its checks as it is. -/
theorem jobAt (h : Resembles k σ τ) {j : Job Pubkey} (hj : JobAt D σ n s queue k j) :
    JobAt D τ n s queue k j :=
  ⟨h.job.symm.trans hj.lookup, hj.seeds, hj.queue⟩

/-- The job's address stays free. -/
theorem fresh (h : Resembles k σ τ) {x : Seeds Pubkey} {b : UInt8} (hfresh : Fresh D σ x k b) :
    Fresh D τ x k b := by
  refine ⟨hfresh.find, ?_⟩
  obtain ⟨hqueue, hregistry, hjob⟩ := Ledger.lookup_eq_none_of_not_owned hfresh.free
  have hq := h.queue k
  have hr := h.registry k
  rw [hqueue, Option.map_none] at hq
  rw [hregistry, Option.map_none] at hr
  rw [h.job] at hjob
  have hqueue' := Option.map_eq_none_iff.mp hq.symm
  have hregistry' := Option.map_eq_none_iff.mp hr.symm
  rintro (howned | howned | howned)
  · exact Finmap.lookup_eq_none.mp hqueue' howned
  · exact Finmap.lookup_eq_none.mp hregistry' howned
  · exact Finmap.lookup_eq_none.mp hjob howned

/-- The accounts of a worker instruction pass their checks up to the counters. -/
theorem valid {ctx : WorkerJob Pubkey} (h : Resembles ctx.job σ τ) {q : QueueConfig Pubkey}
    {r : WorkerRegistry Pubkey} {j : Job Pubkey} (hvalid : ctx.Valid D σ n s q r j) :
    ∃ q' r', ctx.Valid D τ n s q' r' j := by
  obtain ⟨q', hq', -⟩ := h.queueAt hvalid.queue
  obtain ⟨r', hr', hsame⟩ := h.registryAt hvalid.registry
  have hactive : r'.isActive = r.isActive := (congrArg WorkerRegistry.isActive hsame :)
  exact ⟨q', r', hq', hr', hactive.trans hvalid.active, h.jobAt hvalid.job⟩

end Resembles

/-- The effect of a call is the same on ledgers that differ in other jobs and in counters only. A
call that enqueues also reads the next number of its queue. -/
theorem Acts.transfer (h : Acts D σ c e) (hview : Resembles e.job σ τ)
    (hseq : ∀ k, c.instruction.enqueueKey = some k →
      (σ.queueConfigs.lookup k).map (·.nextJobSeq) =
        (τ.queueConfigs.lookup k).map (·.nextJobSeq)) : Acts D τ c e := by
  cases h with
  | @enqueueJob now ctx n s params q b queue fresh unpaused payload jobType =>
    obtain ⟨q', hq', hsame⟩ := hview.queueAt queue
    have hnumber := hseq _ rfl
    rw [queue.lookup, hq'.lookup, Option.map_some, Option.map_some, Option.some.injEq] at hnumber
    have hpaused : q'.isPaused = q.isPaused := (congrArg QueueConfig.isPaused hsame :)
    have hretries : q'.maxRetries = q.maxRetries := (congrArg QueueConfig.maxRetries hsame :)
    -- the job stored is made of the number and the retry limit of the queue
    have hjob : ctx.newJob b q now params (zeroPadded 32 params.jobType.asBytes) =
        ctx.newJob b q' now params (zeroPadded 32 params.jobType.asBytes) := by
      simp only [EnqueueJob.newJob, hnumber, hretries]
    rw [hjob]
    exact .enqueueJob hq' (hview.fresh fresh) (hpaused.trans unpaused) payload jobType
  | claimJob valid pending =>
    obtain ⟨q', r', hvalid⟩ := hview.valid valid
    exact .claimJob hvalid pending
  | completeJob valid held length duration_eq =>
    obtain ⟨q', r', hvalid⟩ := hview.valid valid
    exact .completeJob hvalid held length duration_eq
  | failJobPermanent valid held retries_eq exhausted =>
    obtain ⟨q', r', hvalid⟩ := hview.valid valid
    exact .failJobPermanent hvalid held retries_eq exhausted
  | failJobRetry valid held retries_eq left attempts =>
    obtain ⟨q', r', hvalid⟩ := hview.valid valid
    exact .failJobRetry hvalid held retries_eq left attempts
  | @expireJob now ctx n s q j queue job processing expired =>
    obtain ⟨q', hq', hsame⟩ := hview.queueAt queue
    have htimeout : q'.jobTimeoutSecs = q.jobTimeoutSecs :=
      (congrArg QueueConfig.jobTimeoutSecs hsame :)
    exact .expireJob hq' (hview.jobAt job) processing (htimeout ▸ expired)
  | closeJob queue job creator finished =>
    obtain ⟨q', hq', -⟩ := hview.queueAt queue
    exact .closeJob hq' (hview.jobAt job) creator finished

end Acts

/-! ## Calls and their effects -/

section Steps

variable [Inhabited Pubkey] {D : Derivation Pubkey} {σ σ' : Ledger Pubkey} {c d : Call Pubkey}
  {e : Effect Pubkey}

/-- A committed call on a job has an effect there was room for. -/
theorem Step.exists_effect {o : Outcome Pubkey} {k : Pubkey} (h : Step D σ c σ' o)
    (hk : c.instruction.jobKey = some k) :
    ∃ e, Acts D σ c e ∧ e.Fits σ ∧ e.apply σ = σ' := by
  -- a counter that moved by one is the wrapped sum, and had room
  cases h with
  | initializeQueue | setQueuePaused | registerWorker | deactivateWorker => cases hk
  | enqueueJob queue fresh unpaused payload jobType next_eq total_eq =>
    obtain ⟨hnext, rfl⟩ := toNat_eq_succ_uint64.mp next_eq
    obtain ⟨htotal, rfl⟩ := toNat_eq_succ_uint64.mp total_eq
    refine ⟨_, .enqueueJob queue fresh unpaused payload jobType, ⟨?_, Finmap.hasRoom_none _⟩, ?_⟩
    · exact (Finmap.hasRoom_some _ queue.lookup).mpr ⟨hnext, htotal⟩
    · rw [Effect.apply, Finmap.tick_some _ queue.lookup]
      rfl
  | claimJob valid pending claimed_eq =>
    obtain ⟨hclaimed, rfl⟩ := toNat_eq_succ_uint64.mp claimed_eq
    refine ⟨_, .claimJob valid pending, ⟨Finmap.hasRoom_none _, ?_⟩, ?_⟩
    · exact (Finmap.hasRoom_some _ valid.registry.lookup).mpr hclaimed
    · rw [Effect.apply, Finmap.tick_some _ valid.registry.lookup]
      rfl
  | completeJob valid held length duration_eq total_eq completed_eq =>
    obtain ⟨htotal, rfl⟩ := toNat_eq_succ_uint64.mp total_eq
    obtain ⟨hcompleted, rfl⟩ := toNat_eq_succ_uint64.mp completed_eq
    refine ⟨_, .completeJob valid held length duration_eq, ⟨?_, ?_⟩, ?_⟩
    · exact (Finmap.hasRoom_some _ valid.queue.lookup).mpr htotal
    · exact (Finmap.hasRoom_some _ valid.registry.lookup).mpr hcompleted
    · rw [Effect.apply, Finmap.tick_some _ valid.queue.lookup,
        Finmap.tick_some _ valid.registry.lookup]
      rfl
  | failJobPermanent valid held retries_eq failed_eq exhausted total_eq =>
    obtain ⟨hfailed, rfl⟩ := toNat_eq_succ_uint64.mp failed_eq
    obtain ⟨htotal, rfl⟩ := toNat_eq_succ_uint64.mp total_eq
    refine ⟨_, .failJobPermanent valid held retries_eq exhausted, ⟨?_, ?_⟩, ?_⟩
    · exact (Finmap.hasRoom_some _ valid.queue.lookup).mpr htotal
    · exact (Finmap.hasRoom_some _ valid.registry.lookup).mpr hfailed
    · rw [Effect.apply, Finmap.tick_some _ valid.queue.lookup,
        Finmap.tick_some _ valid.registry.lookup]
      rfl
  | failJobRetry valid held retries_eq failed_eq left attempts =>
    obtain ⟨hfailed, rfl⟩ := toNat_eq_succ_uint64.mp failed_eq
    refine ⟨_, .failJobRetry valid held retries_eq left attempts,
      ⟨Finmap.hasRoom_none _, ?_⟩, ?_⟩
    · exact (Finmap.hasRoom_some _ valid.registry.lookup).mpr hfailed
    · rw [Effect.apply, Finmap.tick_some _ valid.registry.lookup]
      rfl
  | expireJob queue job processing expired =>
    exact ⟨_, .expireJob queue job processing expired,
      ⟨Finmap.hasRoom_none _, Finmap.hasRoom_none _⟩, rfl⟩
  | closeJob queue job creator finished =>
    exact ⟨_, .closeJob queue job creator finished,
      ⟨Finmap.hasRoom_none _, Finmap.hasRoom_none _⟩, rfl⟩

/-- A call with an effect there is room for commits with that effect. -/
theorem Acts.exists_step (h : Acts D σ c e) (hfits : e.Fits σ) :
    ∃ o, Step D σ c (e.apply σ) o := by
  obtain ⟨hqueue, hregistry⟩ := hfits
  cases h with
  | enqueueJob queue fresh unpaused payload jobType =>
    obtain ⟨hnext, htotal⟩ := (Finmap.hasRoom_some _ queue.lookup).mp hqueue
    rw [Effect.apply, Finmap.tick_some _ queue.lookup]
    exact ⟨_, .enqueueJob queue fresh unpaused payload jobType
      (toNat_eq_succ_uint64.mpr ⟨hnext, rfl⟩) (toNat_eq_succ_uint64.mpr ⟨htotal, rfl⟩)⟩
  | claimJob valid pending =>
    have hclaimed := (Finmap.hasRoom_some _ valid.registry.lookup).mp hregistry
    rw [Effect.apply, Finmap.tick_some _ valid.registry.lookup]
    exact ⟨_, .claimJob valid pending (toNat_eq_succ_uint64.mpr ⟨hclaimed, rfl⟩)⟩
  | completeJob valid held length duration_eq =>
    have htotal := (Finmap.hasRoom_some _ valid.queue.lookup).mp hqueue
    have hcompleted := (Finmap.hasRoom_some _ valid.registry.lookup).mp hregistry
    rw [Effect.apply, Finmap.tick_some _ valid.queue.lookup,
      Finmap.tick_some _ valid.registry.lookup]
    exact ⟨_, .completeJob valid held length duration_eq
      (toNat_eq_succ_uint64.mpr ⟨htotal, rfl⟩) (toNat_eq_succ_uint64.mpr ⟨hcompleted, rfl⟩)⟩
  | failJobPermanent valid held retries_eq exhausted =>
    have htotal := (Finmap.hasRoom_some _ valid.queue.lookup).mp hqueue
    have hfailed := (Finmap.hasRoom_some _ valid.registry.lookup).mp hregistry
    rw [Effect.apply, Finmap.tick_some _ valid.queue.lookup,
      Finmap.tick_some _ valid.registry.lookup]
    exact ⟨_, .failJobPermanent valid held retries_eq (toNat_eq_succ_uint64.mpr ⟨hfailed, rfl⟩)
      exhausted (toNat_eq_succ_uint64.mpr ⟨htotal, rfl⟩)⟩
  | failJobRetry valid held retries_eq left attempts =>
    have hfailed := (Finmap.hasRoom_some _ valid.registry.lookup).mp hregistry
    rw [Effect.apply, Finmap.tick_some _ valid.registry.lookup]
    exact ⟨_, .failJobRetry valid held retries_eq (toNat_eq_succ_uint64.mpr ⟨hfailed, rfl⟩) left
      attempts⟩
  | expireJob queue job processing expired =>
    exact ⟨_, .expireJob queue job processing expired⟩
  | closeJob queue job creator finished =>
    exact ⟨_, .closeJob queue job creator finished⟩

/-! ## Calls on different jobs -/

/-- Calls that operate on different jobs and do not both enqueue on one queue. -/
structure Independent (c d : Call Pubkey) : Prop where
  left : c.instruction.jobKey ≠ none
  right : d.instruction.jobKey ≠ none
  jobs : c.instruction.jobKey ≠ d.instruction.jobKey
  queues : ∀ k, c.instruction.enqueueKey = some k → d.instruction.enqueueKey ≠ some k

omit [DecidableEq Pubkey] [Inhabited Pubkey] in
theorem Independent.symm (h : Independent c d) : Independent d c :=
  ⟨h.right, h.left, h.jobs.symm, fun k hd hc => h.queues k hc hd⟩

/-- Independent calls can be exchanged. -/
theorem Independent.exchange (h : Independent c d) : (program D).Exchange c d := by
  rintro σ σ₁ σ₂ o₁ o₂ hc hd
  obtain ⟨a, ha⟩ := Option.ne_none_iff_exists'.mp h.left
  obtain ⟨b, hb⟩ := Option.ne_none_iff_exists'.mp h.right
  obtain ⟨e, hacts, hfits, rfl⟩ := (execute_eq_ok.mp hc).exists_effect ha
  obtain ⟨e', hacts', hfits', rfl⟩ := (execute_eq_ok.mp hd).exists_effect hb
  have hjobs : e.job ≠ e'.job := by
    intro heq
    exact h.jobs (by rw [hacts.jobKey, hacts'.jobKey, heq])
  -- the second call has its effect without the first one, and the first one after the second
  have hd' : Acts D σ d e' := by
    refine hacts'.transfer (Effect.resembles hjobs.symm) fun k hk => ?_
    exact hacts.nextJobSeq_kept fun hk' => h.queues k hk' hk
  have hc' : Acts D (e'.apply σ) c e := by
    refine hacts.transfer (Effect.resembles hjobs).symm fun k hk => ?_
    exact (hd'.nextJobSeq_kept (h.queues k hk)).symm
  obtain ⟨hfits₂, hfits₁⟩ := hfits.swap hfits'
  obtain ⟨o₂', hstep₂⟩ := hd'.exists_step hfits₂
  obtain ⟨o₁', hstep₁⟩ := hc'.exists_step hfits₁
  rw [Effect.apply_comm hjobs]
  exact ⟨_, o₁', o₂', execute_eq_ok.mpr hstep₂, execute_eq_ok.mpr hstep₁⟩

omit [DecidableEq Pubkey] [Inhabited Pubkey] in
/-- Calls that operate on pairwise different jobs, at most one of them enqueueing on each queue, are
pairwise independent. -/
theorem pairwise_independent {calls : List (Call Pubkey)}
    (hjobs : ∀ c ∈ calls, c.instruction.jobKey ≠ none)
    (hdistinct : (calls.map (·.instruction.jobKey)).Nodup)
    (henqueue : (calls.filterMap (·.instruction.enqueueKey)).Nodup) :
    calls.Pairwise Independent := by
  have hdistinct' := List.pairwise_map.mp hdistinct
  have henqueue' := List.pairwise_filterMap.mp henqueue
  refine (hdistinct'.and henqueue').imp_of_mem fun hc hd h => ?_
  exact ⟨hjobs _ hc, hjobs _ hd, h.1, fun k hk hk' => h.2 k hk k hk' rfl⟩

/-- From every state a run leads to: if calls that operate on pairwise different jobs, at most one
of them enqueueing on each queue, all commit in one order, then they all commit in every order, and
all orders leave the same jobs, queues and registries. -/
theorem order_independent (calls₀ : List (Call Pubkey)) {calls calls' : List (Call Pubkey)}
    (hjobs : ∀ c ∈ calls, c.instruction.jobKey ≠ none)
    (hdistinct : (calls.map (·.instruction.jobKey)).Nodup)
    (henqueue : (calls.filterMap (·.instruction.enqueueKey)).Nodup)
    (hperm : calls.Perm calls')
    (hall : (program D).runAll ((program D).run calls₀) calls = .ok σ') :
    (program D).runAll ((program D).run calls₀) calls' = .ok σ' ∧
      (program D).run (calls₀ ++ calls') = (program D).run (calls₀ ++ calls) := by
  have hall' := Machine.runAll_perm Independent.symm Independent.exchange hperm
    (pairwise_independent hjobs hdistinct henqueue) hall
  refine ⟨hall', ?_⟩
  rw [Machine.run_append, Machine.run_append, Machine.runFrom_of_runAll hall',
    Machine.runFrom_of_runAll hall]

/-- A busy queue: two jobs are being worked on and one is waiting. -/
def Sample.busy : List (Call Key) :=
  [create 2 60, register worker, enqueue producer 0 none, enqueue producer 1 none,
    enqueue producer 2 none, claim 2 worker 0, claim 2 worker 1]

/-- On the busy queue, a completion, a failure, a claim and an enqueue commit backwards as well. -/
theorem order_independent_busy :
    ∃ σ', (program Derivation.free).runAll ((program Derivation.free).run Sample.busy)
      [Sample.enqueue Sample.producer 3 none, Sample.claim 4 Sample.worker 2,
        Sample.fail 4 Sample.worker 1, Sample.complete 4 Sample.worker 0] = .ok σ' := by
  have hall : (program Derivation.free).runAll ((program Derivation.free).run Sample.busy)
      [Sample.complete 4 Sample.worker 0, Sample.fail 4 Sample.worker 1,
        Sample.claim 4 Sample.worker 2, Sample.enqueue Sample.producer 3 none] = .ok _ := rfl
  exact ⟨_, (order_independent Sample.busy (by decide) (by decide) (by decide)
    (List.reverse_perm _).symm hall).1⟩

end Steps

end SolQueue
