import SolQueue.Invariants
import SolQueue.Lib.Replay
import Mathlib.Logic.Function.Basic

/-!
# Replicas built from events

An observer who sees nothing but the events can follow the accounts: a fold over the events keeps a
record for each job, queue and worker, and in every run the records show what is stored.

* `Replica`, `Replica.apply`: the records, and what one event does to them.
* `Mirrors`, `mirrors_run`: the replica shows every live job, every queue and every registry.
* `lastClaim`, `Reports`: completions and expiries report the last claim of their job.
* `event_replica`: both hold of the events of every run.
-/

namespace SolQueue

variable {Pubkey : Type}

/-! ## Records -/

/-- What the events say about a job. -/
structure JobRecord (Pubkey : Type) where
  queue : Pubkey
  seq : UInt64
  creator : Pubkey
  status : JobStatus
  retryCount : UInt8
  /-- The worker of the last claim. -/
  worker : Option Pubkey
  /-- The time of the last claim. -/
  startedAt : Option Int64

/-- What the events say about a queue. -/
structure QueueRecord where
  isPaused : Bool
  nextJobSeq : ℕ
  totalEnqueued : ℕ
  totalCompleted : ℕ
  totalFailed : ℕ

/-- What the events say about a worker of a queue. -/
structure WorkerRecord where
  isActive : Bool
  jobsClaimed : ℕ
  jobsCompleted : ℕ
  jobsFailed : ℕ

/-- The record of a queue there have been no events of. -/
def QueueRecord.initial : QueueRecord := ⟨false, 0, 0, 0, 0⟩

/-- The record of a worker there have been no events of. -/
def WorkerRecord.initial : WorkerRecord := ⟨false, 0, 0, 0⟩

/-- A record for every job, every queue and every worker of a queue. -/
structure Replica (Pubkey : Type) where
  jobs : Pubkey → Option (JobRecord Pubkey)
  queues : Pubkey → QueueRecord
  workers : Pubkey × Pubkey → WorkerRecord

variable [DecidableEq Pubkey]

namespace Replica

/-- The replica before the first event. -/
def empty : Replica Pubkey :=
  ⟨fun _ => none, fun _ => .initial, fun _ => .initial⟩

/-- Write the record of one job. -/
def setJob (R : Replica Pubkey) (job : Pubkey) (x : JobRecord Pubkey) : Replica Pubkey :=
  { R with jobs := Function.update R.jobs job (some x) }

/-- Change the record of one queue. -/
def modifyQueue (R : Replica Pubkey) (queue : Pubkey) (f : QueueRecord → QueueRecord) :
    Replica Pubkey :=
  { R with queues := Function.update R.queues queue (f (R.queues queue)) }

/-- Change the record of one worker. -/
def modifyWorker (R : Replica Pubkey) (queue worker : Pubkey) (f : WorkerRecord → WorkerRecord) :
    Replica Pubkey :=
  { R with workers := Function.update R.workers (queue, worker) (f (R.workers (queue, worker))) }

/-- Go on with the record of a job, if there is one. -/
def withJob (R : Replica Pubkey) (job : Pubkey) (f : JobRecord Pubkey → Replica Pubkey) :
    Replica Pubkey :=
  match R.jobs job with
  | some x => f x
  | none => R

/-- What one event does to the records. The queue of a job is known from the event that enqueued
it. -/
def apply (R : Replica Pubkey) : Event Pubkey → Replica Pubkey
  | .jobEnqueued queue job seq _ _ creator _ =>
    (R.modifyQueue queue fun q => { q with
        nextJobSeq := q.nextJobSeq + 1, totalEnqueued := q.totalEnqueued + 1 }).setJob job
      ⟨queue, seq, creator, .pending, 0, none, none⟩
  | .jobClaimed job _ worker timestamp =>
    R.withJob job fun x =>
      (R.modifyWorker x.queue worker fun w => { w with jobsClaimed := w.jobsClaimed + 1 }).setJob
        job { x with status := .processing, worker := some worker, startedAt := some timestamp }
  | .jobCompleted job _ worker _ _ =>
    R.withJob job fun x =>
      ((R.modifyWorker x.queue worker fun w =>
          { w with jobsCompleted := w.jobsCompleted + 1 }).modifyQueue x.queue fun q =>
          { q with totalCompleted := q.totalCompleted + 1 }).setJob
        job { x with status := .completed }
  | .jobFailed job _ worker retryCount true _ =>
    R.withJob job fun x =>
      ((R.modifyWorker x.queue worker fun w =>
          { w with jobsFailed := w.jobsFailed + 1 }).modifyQueue x.queue fun q =>
          { q with totalFailed := q.totalFailed + 1 }).setJob
        job { x with retryCount := retryCount, status := .failed }
  | .jobFailed job _ worker retryCount false _ =>
    R.withJob job fun x =>
      (R.modifyWorker x.queue worker fun w => { w with jobsFailed := w.jobsFailed + 1 }).setJob
        job { x with retryCount := retryCount, status := .pending }
  | .jobExpired job _ _ _ => R.withJob job fun x => R.setJob job { x with status := .pending }
  | .queuePauseToggled queue isPaused _ _ =>
    R.modifyQueue queue fun q => { q with isPaused := isPaused }
  | .workerRegistered queue worker _ =>
    R.modifyWorker queue worker fun w => { w with isActive := true }
  | .workerDeactivated queue worker _ _ =>
    R.modifyWorker queue worker fun w => { w with isActive := false }

omit [DecidableEq Pubkey] in
theorem withJob_of_some {R : Replica Pubkey} {job : Pubkey} {x : JobRecord Pubkey}
    {f : JobRecord Pubkey → Replica Pubkey} (h : R.jobs job = some x) : R.withJob job f = f x := by
  rw [withJob, h]

end Replica

/-! ## Records that show what is stored -/

/-- The record of a job shows what is stored of it; its worker and start time are those of the last
claim, which are stored only while the job is Processing. -/
structure JobRecord.Shows (x : JobRecord Pubkey) (j : Job Pubkey) : Prop where
  queue : x.queue = j.queue
  seq : x.seq = j.seq
  creator : x.creator = j.creator
  status : x.status = j.status
  retryCount : x.retryCount = j.retryCount
  claim : j.status = .processing → x.worker = j.assignedWorker ∧ x.startedAt = j.startedAt

/-- The record of a queue as it is stored. -/
def QueueConfig.record (q : QueueConfig Pubkey) : QueueRecord where
  isPaused := q.isPaused
  nextJobSeq := q.nextJobSeq.toNat
  totalEnqueued := q.totalEnqueued.toNat
  totalCompleted := q.totalCompleted.toNat
  totalFailed := q.totalFailed.toNat

/-- The record of a worker as it is stored. -/
def WorkerRegistry.record (r : WorkerRegistry Pubkey) : WorkerRecord where
  isActive := r.isActive
  jobsClaimed := r.jobsClaimed.toNat
  jobsCompleted := r.jobsCompleted.toNat
  jobsFailed := r.jobsFailed.toNat

/-- The replica shows every live job, every queue and every registry, and nothing has been recorded
of queues and workers that are not there. -/
structure Mirrors (σ : Ledger Pubkey) (R : Replica Pubkey) : Prop where
  job : ∀ a j, σ.jobs.lookup a = some j → ∃ x, R.jobs a = some x ∧ x.Shows j
  queue : ∀ k q, σ.queueConfigs.lookup k = some q → R.queues k = q.record
  no_queue : ∀ k, σ.queueConfigs.lookup k = none → R.queues k = .initial
  worker : ∀ k r, σ.workerRegistries.lookup k = some r → R.workers (r.queue, r.worker) = r.record
  no_worker : ∀ queue w, (∀ k r, σ.workerRegistries.lookup k = some r → r.queue = queue →
    r.worker ≠ w) → R.workers (queue, w) = .initial

namespace Mirrors

variable {σ : Ledger Pubkey} {R : Replica Pubkey}

/-- Writing a job and its record. -/
theorem setJob (h : Mirrors σ R) {a : Pubkey} {j : Job Pubkey} {x : JobRecord Pubkey}
    (hx : x.Shows j) : Mirrors { σ with jobs := σ.jobs.insert a j } (R.setJob a x) where
  job a' j' hj' := by
    simp only [Replica.setJob, Function.update_apply]
    rw [Finmap.lookup_insert_eq_ite] at hj'
    split_ifs at hj' ⊢ with ha
    · cases hj'
      exact ⟨x, rfl, hx⟩
    · exact h.job a' j' hj'
  queue := h.queue
  no_queue := h.no_queue
  worker := h.worker
  no_worker := h.no_worker

/-- A job that is gone keeps its record. -/
theorem eraseJob (h : Mirrors σ R) {a : Pubkey} :
    Mirrors { σ with jobs := σ.jobs.erase a } R where
  job a' j' hj' := by
    rw [Finmap.lookup_erase_eq_ite] at hj'
    split_ifs at hj'
    exact h.job a' j' hj'
  queue := h.queue
  no_queue := h.no_queue
  worker := h.worker
  no_worker := h.no_worker

/-- Writing a queue and changing its record alike. -/
theorem modifyQueue (h : Mirrors σ R) {k : Pubkey} {q : QueueConfig Pubkey}
    {f : QueueRecord → QueueRecord} (hf : f (R.queues k) = q.record) :
    Mirrors { σ with queueConfigs := σ.queueConfigs.insert k q } (R.modifyQueue k f) where
  job := h.job
  queue k' q' hq' := by
    simp only [Replica.modifyQueue, Function.update_apply]
    rw [Finmap.lookup_insert_eq_ite] at hq'
    split_ifs at hq' ⊢ with hk
    · cases hq'
      exact hf
    · exact h.queue k' q' hq'
  no_queue k' hk' := by
    simp only [Replica.modifyQueue, Function.update_apply]
    rw [Finmap.lookup_insert_eq_ite] at hk'
    split_ifs at hk' ⊢
    exact h.no_queue k' hk'
  worker := h.worker
  no_worker := h.no_worker

/-- Writing back a queue and changing its record alike. -/
theorem modifyStored (h : Mirrors σ R) {k : Pubkey} {q q' : QueueConfig Pubkey}
    {f : QueueRecord → QueueRecord} (hq : σ.queueConfigs.lookup k = some q)
    (hf : f q.record = q'.record) :
    Mirrors { σ with queueConfigs := σ.queueConfigs.insert k q' } (R.modifyQueue k f) := by
  refine h.modifyQueue ?_
  rw [h.queue k q hq, hf]

/-- Writing a registry and changing its record alike. No other registry is about the same worker of
the same queue. -/
theorem modifyWorker (h : Mirrors σ R) {x : Pubkey} {r : WorkerRegistry Pubkey}
    {f : WorkerRecord → WorkerRecord}
    (hunique : ∀ k r', σ.workerRegistries.lookup k = some r' → r'.queue = r.queue →
      r'.worker = r.worker → k = x) (hf : f (R.workers (r.queue, r.worker)) = r.record)
    (hkept : ∀ r', σ.workerRegistries.lookup x = some r' →
      r'.queue = r.queue ∧ r'.worker = r.worker) :
    Mirrors { σ with workerRegistries := σ.workerRegistries.insert x r }
      (R.modifyWorker r.queue r.worker f) where
  job := h.job
  queue := h.queue
  no_queue := h.no_queue
  worker k r' hr' := by
    simp only [Replica.modifyWorker, Function.update_apply]
    rw [Finmap.lookup_insert_eq_ite] at hr'
    split_ifs at hr' with hk
    · cases hr'
      rwa [if_pos rfl]
    · rw [if_neg]
      · exact h.worker k r' hr'
      · intro hsame
        obtain ⟨hqueue, hworker⟩ := Prod.mk.inj hsame
        exact hk (hunique k r' hr' hqueue hworker)
  no_worker queue w hnone := by
    simp only [Replica.modifyWorker, Function.update_apply]
    -- the registry written is about another worker or another queue
    have hne : (queue, w) ≠ (r.queue, r.worker) := by
      intro hsame
      obtain ⟨hqueue, hworker⟩ := Prod.mk.inj hsame
      exact hnone x r (Finmap.lookup_insert _) hqueue.symm hworker.symm
    rw [if_neg hne]
    refine h.no_worker queue w fun k r' hr' hqueue hworker => ?_
    by_cases hk : k = x
    · subst hk
      obtain ⟨hqueue', hworker'⟩ := hkept r' hr'
      exact hne (by rw [← hqueue, ← hworker, hqueue', hworker'])
    · exact hnone k r' ((Finmap.lookup_insert_of_ne _ hk).trans hr') hqueue hworker

end Mirrors

section Runs

variable {D : Derivation Pubkey} {σ σ' : Ledger Pubkey} {R : Replica Pubkey} {c : Call Pubkey}
  {o : Outcome Pubkey}

/-- A registry found for the worker of a free address derived for them would be at that address. -/
theorem Addressed.not_registered (h : Addressed D σ) {n : String} {w queue x : Pubkey} {b : UInt8}
    {q : QueueConfig Pubkey} (hq : QueueAt D σ n queue q)
    (hfresh : Fresh D σ (.worker n.asBytes w) x b) :
    ∀ k r, σ.workerRegistries.lookup k = some r → r.queue = queue → r.worker ≠ w := by
  rintro k r hr hqueue rfl
  obtain ⟨m, qm, hm, hqm⟩ := h.registry k r hr
  rw [hqueue] at hqm
  have hname : m.asBytes = n.asBytes :=
    Seeds.queue.inj (D.create_injective hqm.seeds hq.seeds).1
  rw [hname, hfresh.find] at hm
  obtain rfl : x = k := (Prod.mk.inj (Option.some.inj hm)).1
  exact hfresh.free (.inr (.inl (Finmap.mem_of_lookup_eq_some hr)))

/-- Writing back the registry of a worker, which no other registry is about, and changing its record
alike. -/
theorem Mirrors.modifyRegistered (h : Mirrors σ R) (haddr : Addressed D σ) {n : String}
    {w queue x : Pubkey} {r r' : WorkerRegistry Pubkey} {f : WorkerRecord → WorkerRecord}
    (hr : RegistryAt D σ n w queue x r) (hsame : SameRegistration r r')
    (hf : f r.record = r'.record) :
    Mirrors { σ with workerRegistries := σ.workerRegistries.insert x r' }
      (R.modifyWorker queue w f) := by
  have hqueue : r'.queue = queue := hsame.queue.trans hr.queue
  have hworker : r'.worker = w := hsame.worker.trans (haddr.worker_of_registryAt hr)
  rw [← hqueue, ← hworker]
  refine h.modifyWorker (fun k r₁ hr₁ hqueue₁ hworker₁ => ?_) ?_ fun r₁ hr₁ => ?_
  · exact haddr.registry_unique hr₁ hr.lookup (hqueue₁.trans hsame.queue)
      (hworker₁.trans hsame.worker)
  · rw [hsame.queue, hsame.worker, h.worker _ r hr.lookup, hf]
  · obtain rfl := Option.some.inj (hr.lookup.symm.trans hr₁)
    exact ⟨hsame.queue.symm, hsame.worker.symm⟩

variable [Inhabited Pubkey]

/-- What a step does to the accounts, its events do to the records. -/
theorem Mirrors.step (h : Mirrors σ R) (haddr : Addressed D σ) (hstep : Step D σ c σ' o) :
    Mirrors σ' (o.events.foldl Replica.apply R) := by
  cases hstep with
  | initializeQueue fresh length =>
    simp only [List.foldl_cons, List.foldl_nil, Replica.apply]
    refine h.modifyQueue ?_
    rw [h.no_queue _ (Step.lookup_of_fresh fresh).1]
    rfl
  | setQueuePaused queue authority =>
    simp only [Outcome.emit, List.foldl_cons, List.foldl_nil, Replica.apply]
    exact h.modifyStored queue.lookup rfl
  | @registerWorker now ctx n q b queue authority fresh =>
    simp only [List.foldl_cons, List.foldl_nil, Replica.apply]
    -- there was no registry of this worker, and no record
    have hnone := haddr.not_registered queue fresh
    refine h.modifyWorker (r := ctx.newRegistry b now) (fun k r' hr' hqueue hworker => ?_) ?_
      fun r' hr' => ?_
    · exact absurd hworker (hnone k r' hr' hqueue)
    · have hinitial := h.no_worker _ _ hnone
      simp only [RegisterWorker.newRegistry, hinitial]
      rfl
    · cases (Step.lookup_of_fresh fresh).2.1.symm.trans hr'
  | deactivateWorker queue authority registry =>
    simp only [Outcome.emit, List.foldl_cons, List.foldl_nil, Replica.apply]
    exact h.modifyRegistered haddr registry ⟨rfl, rfl, rfl, rfl⟩ rfl
  | enqueueJob queue fresh unpaused payload jobType next_eq total_eq =>
    simp only [List.foldl_cons, List.foldl_nil, Replica.apply]
    refine (h.modifyStored queue.lookup ?_).setJob
      ⟨rfl, rfl, rfl, rfl, rfl, by simp [EnqueueJob.newJob]⟩
    simp [QueueConfig.record, next_eq, total_eq]
  | claimJob valid pending claimed_eq =>
    obtain ⟨x, hx, hshows⟩ := h.job _ _ valid.job.lookup
    simp only [Outcome.emit, List.foldl_cons, List.foldl_nil, Replica.apply,
      Replica.withJob_of_some hx, hshows.queue, valid.job.queue]
    refine (h.modifyRegistered haddr valid.registry ?_ ?_).setJob ?_
    · exact ⟨rfl, rfl, rfl, rfl⟩
    · simp [WorkerRegistry.record, claimed_eq]
    · exact ⟨valid.job.queue.symm, hshows.seq, hshows.creator, rfl, hshows.retryCount,
        fun _ => ⟨rfl, rfl⟩⟩
  | completeJob valid held length duration_eq total_eq completed_eq =>
    obtain ⟨x, hx, hshows⟩ := h.job _ _ valid.job.lookup
    simp only [Outcome.emit, List.foldl_cons, List.foldl_nil, Replica.apply,
      Replica.withJob_of_some hx, hshows.queue, valid.job.queue]
    refine ((h.modifyRegistered haddr valid.registry ?_ ?_).modifyStored valid.queue.lookup
      ?_).setJob ?_
    · exact ⟨rfl, rfl, rfl, rfl⟩
    · simp [WorkerRegistry.record, completed_eq]
    · simp [QueueConfig.record, total_eq]
    · exact ⟨valid.job.queue.symm, hshows.seq, hshows.creator, rfl, hshows.retryCount,
        by simp [Job.completedWith]⟩
  | failJobPermanent valid held retries_eq failed_eq exhausted total_eq =>
    obtain ⟨x, hx, hshows⟩ := h.job _ _ valid.job.lookup
    simp only [Outcome.emit, List.foldl_cons, List.foldl_nil, Replica.apply,
      Replica.withJob_of_some hx, hshows.queue, valid.job.queue]
    refine ((h.modifyRegistered haddr valid.registry ?_ ?_).modifyStored valid.queue.lookup
      ?_).setJob ?_
    · exact ⟨rfl, rfl, rfl, rfl⟩
    · simp [WorkerRegistry.record, failed_eq]
    · simp [QueueConfig.record, total_eq]
    · exact ⟨valid.job.queue.symm, hshows.seq, hshows.creator, rfl, rfl,
        by simp [Job.failedFor]⟩
  | failJobRetry valid held retries_eq failed_eq left attempts =>
    obtain ⟨x, hx, hshows⟩ := h.job _ _ valid.job.lookup
    simp only [Outcome.emit, List.foldl_cons, List.foldl_nil, Replica.apply,
      Replica.withJob_of_some hx, hshows.queue, valid.job.queue]
    refine (h.modifyRegistered haddr valid.registry ?_ ?_).setJob ?_
    · exact ⟨rfl, rfl, rfl, rfl⟩
    · simp [WorkerRegistry.record, failed_eq]
    · exact ⟨valid.job.queue.symm, hshows.seq, hshows.creator, rfl, rfl, by simp [Job.retried]⟩
  | expireJob queue job processing expired =>
    obtain ⟨x, hx, hshows⟩ := h.job _ _ job.lookup
    simp only [Outcome.emit, List.foldl_cons, List.foldl_nil, Replica.apply,
      Replica.withJob_of_some hx]
    exact h.setJob ⟨hshows.queue, hshows.seq, hshows.creator, rfl, hshows.retryCount,
      by simp [Job.expired]⟩
  | closeJob queue job creator finished => exact h.eraseJob

/-- In every run, the records built from the events show what is stored. -/
theorem mirrors_run (calls : List (Call Pubkey)) :
    Mirrors ((program D).run calls)
      ((Machine.trace Outcome.events ((program D).log calls)).foldl Replica.apply .empty) := by
  refine Machine.replay_run (P := Mirrors) addressed_run ?_ ?_ calls
  · refine ⟨?_, ?_, fun k _ => rfl, ?_, fun queue w _ => rfl⟩
    · intro a j hj
      cases hj
    · intro k q hq
      cases hq
    · intro k r hr
      cases hr
  · intro σ c σ' o R haddr h hok
    exact h.step haddr (execute_eq_ok.mp hok)

end Runs

/-! ## Claims, as the events report them -/

/-- The worker and time of a claim of the job at `a`, if the event is one. -/
def Event.claimOf (a : Pubkey) : Event Pubkey → Option (Pubkey × Int64)
  | .jobClaimed job _ worker timestamp => if a = job then some (worker, timestamp) else none
  | _ => none

/-- The worker and time of the last claim of the job at `a`. -/
def lastClaim (a : Pubkey) (events : List (Event Pubkey)) : Option (Pubkey × Int64) :=
  (events.filterMap (Event.claimOf a)).getLast?

/-- A completion reports the time since the last claim of its job, an expiry the worker who made
it. -/
def Reports (events : List (Event Pubkey)) : Event Pubkey → Prop
  | .jobCompleted job _ _ durationSecs timestamp =>
    ∃ w t, lastClaim job events = some (w, t) ∧ durationSecs.toInt = timestamp.toInt - t.toInt
  | .jobExpired job _ previousWorker _ => ∃ t, lastClaim job events = some (previousWorker, t)
  | _ => True

/-- Processing jobs store the worker and time of their last claim. -/
def Claimed (σ : Ledger Pubkey) (events : List (Event Pubkey)) : Prop :=
  ∀ a j, σ.jobs.lookup a = some j → j.status = .processing →
    ∃ w t, j.assignedWorker = some w ∧ j.startedAt = some t ∧ lastClaim a events = some (w, t)

section Runs

variable [Inhabited Pubkey] {D : Derivation Pubkey} {σ σ' : Ledger Pubkey} {c : Call Pubkey}
  {o : Outcome Pubkey} {events : List (Event Pubkey)}

/-- The claims of a job that a step announces: its own, if it is one. -/
theorem Step.claimOf_events (h : Step D σ c σ' o) (a : Pubkey) :
    o.events.filterMap (Event.claimOf a) =
      match Entry.opOn a ⟨σ, c, o, σ'⟩ with
      | some (.claim w) => [(w, c.now)]
      | _ => [] := by
  cases h with
  | @claimJob now ctx => by_cases ha : a = ctx.job <;>
      simp [Outcome.emit, Event.claimOf, Entry.opOn, Entry.jobOp, ha]
  | initializeQueue | setQueuePaused | registerWorker | deactivateWorker => rfl
  | enqueueJob | completeJob | failJobPermanent | failJobRetry | expireJob | closeJob =>
    simp only [Outcome.emit, Event.claimOf, Entry.opOn, Entry.jobOp]
    split_ifs <;> rfl

/-- What a job stores of its last claim stays in step with the events. -/
theorem Claimed.step (h : Claimed σ events) (hstep : Step D σ c σ' o) :
    Claimed σ' (events ++ o.events) := by
  intro a j' hj' hprocessing
  have hchange := hstep.jobChange a
  have hclaims := hstep.claimOf_events a
  rw [hj'] at hchange
  rw [lastClaim, List.filterMap_append, hclaims]
  generalize hold : σ.jobs.lookup a = old at hchange
  generalize Entry.opOn a ⟨σ, c, o, σ'⟩ = op at hchange
  cases hchange with
  | keep => simpa [lastClaim] using h a j' hold hprocessing
  | claim pending active => exact ⟨_, _, rfl, rfl, List.getLast?_concat⟩
  | enqueue | complete | failPermanent | failRetry | expire => cases hprocessing

/-- Completions and expiries report what their job stores of its last claim. -/
theorem Claimed.reports (h : Claimed σ events) (hevents : EachAfter Reports events)
    (hstep : Step D σ c σ' o) : EachAfter Reports (events ++ o.events) := by
  cases hstep with
  | completeJob valid held length duration_eq total_eq completed_eq =>
    obtain ⟨w, t, -, ht, hlast⟩ := h _ _ valid.job.lookup held.processing
    rw [ht] at duration_eq
    exact eachAfter_snoc hevents ⟨w, t, hlast, duration_eq⟩
  | expireJob queue job processing expired =>
    -- a Processing job has a worker, so the default is not used
    obtain ⟨w, t, hw, -, hlast⟩ := h _ _ job.lookup processing
    exact eachAfter_snoc hevents ⟨t, by rw [hlast, hw]; rfl⟩
  | closeJob => rwa [List.append_nil]
  | _ => exact eachAfter_snoc hevents trivial

/-- In every run, the records built from the events show every live job, every queue and every
registry as they are stored, and every completion and expiry reports the last claim of its job. -/
theorem event_replica (calls : List (Call Pubkey)) :
    Mirrors ((program D).run calls)
        ((Machine.trace Outcome.events ((program D).log calls)).foldl Replica.apply .empty) ∧
      EachAfter Reports (Machine.trace Outcome.events ((program D).log calls)) := by
  refine ⟨mirrors_run calls, ?_⟩
  have hboth := step_induction (D := D) (P := fun log σ =>
    Claimed σ (Machine.trace Outcome.events log) ∧
      EachAfter Reports (Machine.trace Outcome.events log)) ?_ ?_ calls
  · exact hboth.2
  · refine ⟨?_, eachAfter_nil⟩
    intro a j hj
    cases hj
  · intro log σ c σ' o _ ⟨hclaimed, hreports⟩ hstep
    rw [Machine.trace_snoc]
    exact ⟨hclaimed.step hstep, hclaimed.reports hreports hstep⟩

end Runs

end SolQueue
