import SolQueue.Effects

/-!
# Invariants of every run

What holds in every ledger the program can reach, whatever calls were made by whom.

* `SameSettings`, `SameRegistration`, `SameIdentity`: the fields that never change.
* `Addressed`: every account sits at the address derived from its queue's name, and its stored
  bump and queue key agree with it.
* `Job.WellFormed`: the fields of a job agree with its status.
* `Numbered`: the jobs of a queue carry distinct numbers below its counter.
* `Staffed`: the holder of a job is registered on its queue.
* `Sound`, `step_induction`: all of these, and the induction along a run that may use them.
-/

namespace SolQueue

variable {Pubkey : Type} [DecidableEq Pubkey]

/-! ## Fields that never change -/

/-- The fields of a queue that no instruction changes. -/
structure SameSettings (q q' : QueueConfig Pubkey) : Prop where
  authority : q'.authority = q.authority
  queueName : q'.queueName = q.queueName
  maxRetries : q'.maxRetries = q.maxRetries
  jobTimeoutSecs : q'.jobTimeoutSecs = q.jobTimeoutSecs
  bump : q'.bump = q.bump

omit [DecidableEq Pubkey] in
theorem SameSettings.trans {q₁ q₂ q₃ : QueueConfig Pubkey} (h : SameSettings q₁ q₂)
    (h' : SameSettings q₂ q₃) : SameSettings q₁ q₃ :=
  ⟨h'.authority.trans h.authority, h'.queueName.trans h.queueName,
    h'.maxRetries.trans h.maxRetries, h'.jobTimeoutSecs.trans h.jobTimeoutSecs,
    h'.bump.trans h.bump⟩

/-- The fields of a registry that no instruction changes. -/
structure SameRegistration (r r' : WorkerRegistry Pubkey) : Prop where
  queue : r'.queue = r.queue
  worker : r'.worker = r.worker
  registeredAt : r'.registeredAt = r.registeredAt
  bump : r'.bump = r.bump

omit [DecidableEq Pubkey] in
theorem SameRegistration.refl (r : WorkerRegistry Pubkey) : SameRegistration r r :=
  ⟨rfl, rfl, rfl, rfl⟩

omit [DecidableEq Pubkey] in
theorem SameRegistration.trans {r₁ r₂ r₃ : WorkerRegistry Pubkey} (h : SameRegistration r₁ r₂)
    (h' : SameRegistration r₂ r₃) : SameRegistration r₁ r₃ :=
  ⟨h'.queue.trans h.queue, h'.worker.trans h.worker, h'.registeredAt.trans h.registeredAt,
    h'.bump.trans h.bump⟩

/-- The fields of a job that no instruction changes. -/
structure SameIdentity (j j' : Job Pubkey) : Prop where
  queue : j'.queue = j.queue
  seq : j'.seq = j.seq
  jobType : j'.jobType = j.jobType
  payload : j'.payload = j.payload
  priority : j'.priority = j.priority
  maxRetries : j'.maxRetries = j.maxRetries
  creator : j'.creator = j.creator
  enqueuedAt : j'.enqueuedAt = j.enqueuedAt
  bump : j'.bump = j.bump

omit [DecidableEq Pubkey] in
theorem SameIdentity.refl (j : Job Pubkey) : SameIdentity j j :=
  ⟨rfl, rfl, rfl, rfl, rfl, rfl, rfl, rfl, rfl⟩

omit [DecidableEq Pubkey] in
theorem SameIdentity.trans {j₁ j₂ j₃ : Job Pubkey} (h : SameIdentity j₁ j₂)
    (h' : SameIdentity j₂ j₃) : SameIdentity j₁ j₃ :=
  ⟨h'.queue.trans h.queue, h'.seq.trans h.seq, h'.jobType.trans h.jobType,
    h'.payload.trans h.payload, h'.priority.trans h.priority, h'.maxRetries.trans h.maxRetries,
    h'.creator.trans h.creator, h'.enqueuedAt.trans h.enqueuedAt, h'.bump.trans h.bump⟩

omit [DecidableEq Pubkey] in
/-- A queue is never removed; its settings stay and its counter never decreases. -/
theorem QueueChange.persists {D : Derivation Pubkey} {k : Pubkey} {q : QueueConfig Pubkey}
    {new : Option (QueueConfig Pubkey)} (h : QueueChange D k (some q) new) :
    ∃ q', new = some q' ∧ SameSettings q q' ∧ q.nextJobSeq.toNat ≤ q'.nextJobSeq.toNat := by
  cases h with
  | keep => exact ⟨q, rfl, ⟨rfl, rfl, rfl, rfl, rfl⟩, le_rfl⟩
  | pause | complete | fail => exact ⟨_, rfl, ⟨rfl, rfl, rfl, rfl, rfl⟩, le_rfl⟩
  | enqueue next_eq total_eq =>
    exact ⟨_, rfl, ⟨rfl, rfl, rfl, rfl, rfl⟩, by simp only [next_eq]; omega⟩

omit [DecidableEq Pubkey] in
/-- A queue found after a step has just been created, or was there with the same settings. -/
theorem QueueChange.origin {D : Derivation Pubkey} {k : Pubkey}
    {old : Option (QueueConfig Pubkey)} {q' : QueueConfig Pubkey}
    (h : QueueChange D k old (some q')) :
    (old = none ∧ ∃ n : String, D.findProgramAddress (.queue n.asBytes) = some (k, q'.bump)) ∨
      ∃ q, old = some q ∧ SameSettings q q' := by
  cases h with
  | create find => exact .inl ⟨rfl, _, find⟩
  | keep | pause | enqueue | complete | fail => exact .inr ⟨_, rfl, ⟨rfl, rfl, rfl, rfl, rfl⟩⟩

/-- A registry is never removed, and keeps its queue and worker. -/
theorem RegistryChange.persists {D : Derivation Pubkey} {σ : Ledger Pubkey} {k : Pubkey}
    {r : WorkerRegistry Pubkey} {new : Option (WorkerRegistry Pubkey)}
    (h : RegistryChange D σ k (some r) new) : ∃ r', new = some r' ∧ SameRegistration r r' := by
  cases h with
  | keep | deactivate | claim | complete | fail => exact ⟨_, rfl, ⟨rfl, rfl, rfl, rfl⟩⟩

/-- A registry found after a step has just been registered on an existing queue, or was there for
the same worker and queue. -/
theorem RegistryChange.origin {D : Derivation Pubkey} {σ : Ledger Pubkey} {k : Pubkey}
    {old : Option (WorkerRegistry Pubkey)} {r' : WorkerRegistry Pubkey}
    (h : RegistryChange D σ k old (some r')) :
    (old = none ∧ ∃ n q, D.findProgramAddress (.worker n.asBytes r'.worker) = some (k, r'.bump) ∧
        QueueAt D σ n r'.queue q) ∨
      ∃ r, old = some r ∧ SameRegistration r r' := by
  cases h with
  | register queue authority find => exact .inl ⟨rfl, _, _, find, queue⟩
  | keep | deactivate | claim | complete | fail => exact .inr ⟨_, rfl, ⟨rfl, rfl, rfl, rfl⟩⟩

/-- A job found after a step has just been enqueued with its queue's counter as number, or was
there with the same identity. -/
theorem JobChange.origin {D : Derivation Pubkey} {σ : Ledger Pubkey} {now : Int64} {a : Pubkey}
    {op : Option (JobOp Pubkey)} {old : Option (Job Pubkey)} {j' : Job Pubkey}
    (h : JobChange D σ now a op old (some j')) :
    (old = none ∧ op = some (.enqueue j'.creator) ∧ ∃ n s q,
        D.findProgramAddress (.job n.asBytes s) = some (a, j'.bump) ∧ QueueAt D σ n j'.queue q ∧
          j'.seq = q.nextJobSeq) ∨
      ∃ j, old = some j ∧ SameIdentity j j' := by
  cases h with
  | enqueue queue unpaused find => exact .inl ⟨rfl, rfl, _, _, _, find, queue, rfl⟩
  | keep | claim | complete | failPermanent | failRetry | expire =>
    exact .inr ⟨_, rfl, ⟨rfl, rfl, rfl, rfl, rfl, rfl, rfl, rfl, rfl⟩⟩

/-- Only an `enqueueJob` call creates a job. -/
theorem Step.created_by_enqueue [Inhabited Pubkey] {D : Derivation Pubkey}
    {σ σ' : Ledger Pubkey} {c : Call Pubkey} {o : Outcome Pubkey} {a creator : Pubkey}
    (h : Step D σ c σ' o) (hop : Entry.opOn a ⟨σ, c, o, σ'⟩ = some (.enqueue creator)) :
    ∃ ctx n s params, c.instruction = .enqueueJob ctx n s params ∧ ctx.job = a := by
  have hjob := Entry.jobOp_of_opOn hop
  cases h with
  | enqueueJob =>
    cases hjob
    exact ⟨_, _, _, _, rfl, rfl⟩
  | _ => cases hjob

/-! ## Addresses -/

/-- Every account sits at the canonical address of its seeds, which start from the name of the
queue it belongs to, and that queue exists. -/
structure Addressed (D : Derivation Pubkey) (σ : Ledger Pubkey) : Prop where
  queue : ∀ k q, σ.queueConfigs.lookup k = some q →
    ∃ n : String, D.findProgramAddress (.queue n.asBytes) = some (k, q.bump)
  registry : ∀ k r, σ.workerRegistries.lookup k = some r →
    ∃ n q, D.findProgramAddress (.worker n.asBytes r.worker) = some (k, r.bump) ∧
      QueueAt D σ n r.queue q
  job : ∀ a j, σ.jobs.lookup a = some j →
    ∃ n s q, D.findProgramAddress (.job n.asBytes s) = some (a, j.bump) ∧ QueueAt D σ n j.queue q

section Runs

variable [Inhabited Pubkey] {D : Derivation Pubkey} {σ σ' : Ledger Pubkey} {c : Call Pubkey}
  {o : Outcome Pubkey}

/-- A queue stays where it is, with its settings, and its counter never decreases. -/
theorem Step.queueAt (h : Step D σ c σ' o) {n : String} {k : Pubkey} {q : QueueConfig Pubkey}
    (hq : QueueAt D σ n k q) :
    ∃ q', QueueAt D σ' n k q' ∧ SameSettings q q' ∧
      q.nextJobSeq.toNat ≤ q'.nextJobSeq.toNat := by
  have hchange := h.queueChange k
  rw [hq.lookup] at hchange
  obtain ⟨q', hq', hsame, hle⟩ := hchange.persists
  exact ⟨q', ⟨hq', by rw [hsame.bump]; exact hq.seeds⟩, hsame, hle⟩

/-- Calls never remove a queue, change its settings or decrease its counter. -/
theorem queueAt_runFrom (calls : List (Call Pubkey)) {n : String} {k : Pubkey}
    {q : QueueConfig Pubkey} (hq : QueueAt D σ n k q) :
    ∃ q', QueueAt D ((program D).runFrom σ calls) n k q' ∧ SameSettings q q' ∧
      q.nextJobSeq.toNat ≤ q'.nextJobSeq.toNat := by
  refine Machine.runFrom_induction (P := fun σ => ∃ q', QueueAt D σ n k q' ∧ SameSettings q q' ∧
    q.nextJobSeq.toNat ≤ q'.nextJobSeq.toNat) ?_ ⟨q, hq, ⟨rfl, rfl, rfl, rfl, rfl⟩, le_rfl⟩ calls
  intro σ c σ' o ⟨q₁, hq₁, hsame₁, hle₁⟩ hstep
  obtain ⟨q₂, hq₂, hsame₂, hle₂⟩ := (execute_eq_ok.mp hstep).queueAt hq₁
  exact ⟨q₂, hq₂, hsame₁.trans hsame₂, le_trans hle₁ hle₂⟩

theorem Addressed.step (h : Addressed D σ) (hstep : Step D σ c σ' o) : Addressed D σ' where
  -- an account found after the step was there before, or was created at its canonical address
  queue k q' hq' := by
    have hchange := hstep.queueChange k
    rw [hq'] at hchange
    rcases hchange.origin with ⟨-, hnew⟩ | ⟨q, hq, hsame⟩
    · exact hnew
    · rw [hsame.bump]
      exact h.queue k q hq
  registry k r' hr' := by
    have hchange := hstep.registryChange k
    rw [hr'] at hchange
    rcases hchange.origin with ⟨-, n, q, hfind, hq⟩ | ⟨r, hr, hsame⟩
    · obtain ⟨q', hq', -⟩ := hstep.queueAt hq
      exact ⟨n, q', hfind, hq'⟩
    · obtain ⟨n, q, hfind, hq⟩ := h.registry k r hr
      obtain ⟨q', hq', -⟩ := hstep.queueAt hq
      rw [hsame.worker, hsame.bump, hsame.queue]
      exact ⟨n, q', hfind, hq'⟩
  job a j' hj' := by
    have hchange := hstep.jobChange a
    rw [hj'] at hchange
    rcases hchange.origin with ⟨-, -, n, s, q, hfind, hq, -⟩ | ⟨j, hj, hsame⟩
    · obtain ⟨q', hq', -⟩ := hstep.queueAt hq
      exact ⟨n, s, q', hfind, hq'⟩
    · obtain ⟨n, s, q, hfind, hq⟩ := h.job a j hj
      obtain ⟨q', hq', -⟩ := hstep.queueAt hq
      rw [hsame.bump, hsame.queue]
      exact ⟨n, s, q', hfind, hq'⟩

/-- Accounts are addressed consistently in every run. -/
theorem addressed_run (calls : List (Call Pubkey)) : Addressed D ((program D).run calls) := by
  refine Machine.run_induction ?_ (fun σ c σ' o h hstep => h.step (execute_eq_ok.mp hstep)) calls
  exact ⟨fun k q h => (nomatch h), fun k r h => (nomatch h), fun a j h => (nomatch h)⟩

end Runs

namespace Addressed

variable {D : Derivation Pubkey} {σ : Ledger Pubkey}

/-- A queue loaded under the name `n` sits at the canonical address of `n`. -/
theorem find_queue (h : Addressed D σ) {n : String} {k : Pubkey} {q : QueueConfig Pubkey}
    (hq : QueueAt D σ n k q) : D.findProgramAddress (.queue n.asBytes) = some (k, q.bump) := by
  obtain ⟨m, hm⟩ := h.queue k q hq.lookup
  obtain ⟨hname, -⟩ := D.find_of_create hm hq.seeds
  rwa [hname]

/-- A name has one queue, whatever the ledger it is looked up in. -/
theorem queue_unique (h : Addressed D σ) {σ' : Ledger Pubkey} (h' : Addressed D σ') {n n' : String}
    {k k' : Pubkey} {q q' : QueueConfig Pubkey} (hq : QueueAt D σ n k q)
    (hq' : QueueAt D σ' n' k' q') (hname : n.asBytes = n'.asBytes) : k = k' := by
  have hk := h.find_queue hq
  rw [hname, h'.find_queue hq'] at hk
  exact (Prod.mk.inj (Option.some.inj hk)).1.symm

/-- A registry loaded for the worker `w` is the registry of `w`. -/
theorem worker_of_registryAt (h : Addressed D σ) {n : String} {w queue k : Pubkey}
    {r : WorkerRegistry Pubkey} (hr : RegistryAt D σ n w queue k r) : r.worker = w := by
  obtain ⟨m, q, hm, -⟩ := h.registry k r hr.lookup
  obtain ⟨hseeds, -⟩ := D.find_of_create hm hr.seeds
  exact (Seeds.worker.inj hseeds).2.symm

/-- A worker has at most one registry on a queue. -/
theorem registry_unique (h : Addressed D σ) {k k' : Pubkey} {r r' : WorkerRegistry Pubkey}
    (hr : σ.workerRegistries.lookup k = some r) (hr' : σ.workerRegistries.lookup k' = some r')
    (hqueue : r.queue = r'.queue) (hworker : r.worker = r'.worker) : k = k' := by
  obtain ⟨n, q, hfind, hq⟩ := h.registry k r hr
  obtain ⟨n', q', hfind', hq'⟩ := h.registry k' r' hr'
  rw [← hqueue] at hq'
  -- one queue has one name, and one name and worker have one address
  have hname : n.asBytes = n'.asBytes :=
    Seeds.queue.inj (D.create_injective hq.seeds hq'.seeds).1
  rw [hname, hworker, hfind'] at hfind
  exact (Prod.mk.inj (Option.some.inj hfind)).1.symm

/-- The accounts of a job, of its queue and of a worker active on it pass the checks of a worker
instruction under some name and number. -/
theorem exists_valid (h : Addressed D σ) {a k : Pubkey}
    {j : Job Pubkey} {r : WorkerRegistry Pubkey} {q : QueueConfig Pubkey}
    (hj : σ.jobs.lookup a = some j) (hq : σ.queueConfigs.lookup j.queue = some q)
    (hr : σ.workerRegistries.lookup k = some r) (hqueue : r.queue = j.queue)
    (hactive : r.isActive = true) :
    ∃ n s, WorkerJob.Valid D σ ⟨r.worker, j.queue, k, a⟩ n s q r j := by
  obtain ⟨n, s, q', hfind, hq'⟩ := h.job a j hj
  obtain rfl : q = q' := Option.some.inj (hq.symm.trans hq'.lookup)
  obtain ⟨m, qm, hm, hqm⟩ := h.registry k r hr
  -- the registry was derived from the name of the same queue
  rw [hqueue] at hqm
  have hname : m.asBytes = n.asBytes :=
    Seeds.queue.inj (D.create_injective hqm.seeds hq'.seeds).1
  rw [hname] at hm
  exact ⟨n, s, hq', ⟨hr, D.create_of_find hm, hqueue⟩, hactive, hj, D.create_of_find hfind, rfl⟩

end Addressed

/-! ## Jobs on their own -/

/-- The fields of a job agree with its status: a Processing job has a holder and a start time, and
the job is Failed exactly when its failures exceed its retry limit, which they do by at most
one. -/
structure Job.WellFormed (j : Job Pubkey) : Prop where
  held : j.status = .processing → ∃ w t, j.assignedWorker = some w ∧ j.startedAt = some t
  retries_le : j.retryCount.toNat ≤ j.maxRetries.toNat + 1
  failed_iff : j.status = .failed ↔ j.retryCount.toNat = j.maxRetries.toNat + 1

omit [DecidableEq Pubkey] in
/-- Short of Failed, the failures of a job are within its retry limit. -/
theorem Job.WellFormed.retries_le_max {j : Job Pubkey} (h : j.WellFormed)
    (hstatus : j.status ≠ .failed) : j.retryCount.toNat ≤ j.maxRetries.toNat := by
  have hle := h.retries_le
  have hne : j.retryCount.toNat ≠ j.maxRetries.toNat + 1 := fun heq =>
    hstatus (h.failed_iff.mpr heq)
  omega

section Jobs

variable [Inhabited Pubkey] {D : Derivation Pubkey}

/-- What every operation on a job establishes, given that it held before, holds of every job of
every run. -/
theorem jobs_run_induction {P : Pubkey → Job Pubkey → Prop}
    (hchange : ∀ {σ now a op old j'}, JobChange D σ now a op old (some j') →
      (∀ j, old = some j → P a j) → P a j')
    (calls : List (Call Pubkey)) :
    ∀ a j, ((program D).run calls).jobs.lookup a = some j → P a j := by
  refine Machine.run_induction
    (P := fun σ : Ledger Pubkey => ∀ a j, σ.jobs.lookup a = some j → P a j) ?_ ?_ calls
  · intro a j h
    cases h
  · intro σ c σ' o h hstep a j' hj'
    have hjob := (execute_eq_ok.mp hstep).jobChange a
    rw [hj'] at hjob
    exact hchange hjob (h a)

/-- Every operation leaves a well-formed job. -/
theorem JobChange.wellFormed {σ : Ledger Pubkey} {now : Int64} {a : Pubkey}
    {op : Option (JobOp Pubkey)} {old : Option (Job Pubkey)} {j' : Job Pubkey}
    (h : JobChange D σ now a op old (some j')) (hold : ∀ j, old = some j → j.WellFormed) :
    j'.WellFormed := by
  cases h with
  | keep => exact hold _ rfl
  | enqueue queue unpaused find =>
    -- a new job has no failures, which is within any limit
    exact ⟨by simp [EnqueueJob.newJob], by simp [EnqueueJob.newJob],
      by simp [EnqueueJob.newJob]⟩
  | claim pending active =>
    -- a job that is not Failed has a count within its limit, before and after
    have hj := hold _ rfl
    have hne := hj.retries_le_max (by simp [pending])
    exact ⟨fun _ => ⟨_, _, rfl, rfl⟩, hj.retries_le, by simp [Job.claimed]; omega⟩
  | complete held active length =>
    have hj := hold _ rfl
    have hne := hj.retries_le_max (by simp [held.processing])
    exact ⟨by simp [Job.completedWith], hj.retries_le, by simp [Job.completedWith]; omega⟩
  | failPermanent held active retries_eq exhausted =>
    have hj := hold _ rfl
    have hle := hj.retries_le_max (by simp [held.processing])
    -- the count has just passed the limit, from at most the limit
    exact ⟨by simp [Job.failedFor], by simp [Job.failedFor, Job.withFailure]; omega,
      by simp [Job.failedFor, Job.withFailure]; omega⟩
  | failRetry held active retries_eq left =>
    exact ⟨by simp [Job.retried], by simp [Job.retried, Job.withFailure]; omega,
      by simp [Job.retried, Job.withFailure]; omega⟩
  | expire queue processing expired =>
    have hj := hold _ rfl
    have hne := hj.retries_le_max (by simp [processing])
    exact ⟨by simp [Job.expired], hj.retries_le, by simp [Job.expired]; omega⟩

/-- Every job of every run is well formed. -/
theorem wellFormed_run (calls : List (Call Pubkey)) {a : Pubkey} {j : Job Pubkey}
    (h : ((program D).run calls).jobs.lookup a = some j) : j.WellFormed :=
  jobs_run_induction (P := fun _ j => j.WellFormed) (fun hchange hold => hchange.wellFormed hold)
    calls a j h

end Jobs

/-! ## Numbers and holders -/

/-- The jobs of a queue carry distinct numbers below its counter, which counts the jobs enqueued. -/
structure Numbered (σ : Ledger Pubkey) : Prop where
  lt : ∀ a j q, σ.jobs.lookup a = some j → σ.queueConfigs.lookup j.queue = some q →
    j.seq.toNat < q.nextJobSeq.toNat
  injective : ∀ a a' j j', σ.jobs.lookup a = some j → σ.jobs.lookup a' = some j' →
    j.queue = j'.queue → j.seq = j'.seq → a = a'
  total : ∀ k q, σ.queueConfigs.lookup k = some q → q.totalEnqueued = q.nextJobSeq

/-- The holder of a job has a registry on its queue. -/
def Staffed (σ : Ledger Pubkey) : Prop :=
  ∀ a j w, σ.jobs.lookup a = some j → j.assignedWorker = some w →
    ∃ k r, σ.workerRegistries.lookup k = some r ∧ r.queue = j.queue ∧ r.worker = w

section Runs

variable [Inhabited Pubkey] {D : Derivation Pubkey} {σ σ' : Ledger Pubkey} {c : Call Pubkey}
  {o : Outcome Pubkey}

/-- A step that enqueues no job at `a` finds the job at `a` as it was identified before. -/
theorem Step.job_origin (h : Step D σ c σ' o) {a : Pubkey} {j' : Job Pubkey}
    (hj' : σ'.jobs.lookup a = some j') :
    (∃ ctx n s params, c.instruction = .enqueueJob ctx n s params ∧ ctx.job = a) ∨
      ∃ j, σ.jobs.lookup a = some j ∧ SameIdentity j j' := by
  have hchange := h.jobChange a
  rw [hj'] at hchange
  rcases hchange.origin with ⟨-, hop, -⟩ | hkept
  · exact .inl (h.created_by_enqueue hop)
  · exact .inr hkept

/-- A step other than an enqueue finds every job as it was identified before. -/
theorem Step.job_kept (h : Step D σ c σ' o)
    (hc : ∀ ctx n s params, c.instruction ≠ .enqueueJob ctx n s params) {a : Pubkey}
    {j' : Job Pubkey} (hj' : σ'.jobs.lookup a = some j') :
    ∃ j, σ.jobs.lookup a = some j ∧ SameIdentity j j' := by
  rcases h.job_origin hj' with ⟨ctx, n, s, params, hinstruction, -⟩ | hkept
  · exact absurd hinstruction (hc ctx n s params)
  · exact hkept

/-- A queue that counts its jobs goes on counting them. -/
theorem Numbered.total_step (h : Numbered σ) (hstep : Step D σ c σ' o) {k : Pubkey}
    {q' : QueueConfig Pubkey} (hq' : σ'.queueConfigs.lookup k = some q') :
    q'.totalEnqueued = q'.nextJobSeq := by
  have hchange := hstep.queueChange k
  rw [hq'] at hchange
  generalize hold : σ.queueConfigs.lookup k = old at hchange
  cases hchange with
  | keep => exact h.total k _ hold
  | create find => rfl
  | @pause q | @complete q | @fail q => exact h.total k q hold
  | @enqueue q next total next_eq total_eq =>
    -- both counters move by one
    have heq := h.total k q hold
    apply UInt64.toNat_inj.mp
    simp only [next_eq, total_eq, heq]

/-- A step other than an enqueue keeps the numbers of all jobs and lowers no counter. -/
theorem Numbered.step_of_kept (h : Numbered σ) (haddr : Addressed D σ) (hstep : Step D σ c σ' o)
    (hc : ∀ ctx n s params, c.instruction ≠ .enqueueJob ctx n s params) : Numbered σ' where
  lt a j' q' hj' hq' := by
    obtain ⟨j, hj, hsame⟩ := hstep.job_kept hc hj'
    obtain ⟨n, s, q, -, hq⟩ := haddr.job a j hj
    have hchange := hstep.queueChange j.queue
    rw [hq.lookup, ← hsame.queue, hq'] at hchange
    obtain ⟨_, ⟨⟩, -, hle⟩ := hchange.persists
    have hlt := h.lt a j q hj hq.lookup
    rw [hsame.seq]
    omega
  injective a₁ a₂ j₁' j₂' hj₁' hj₂' hqueue hseq := by
    obtain ⟨j₁, hj₁, hsame₁⟩ := hstep.job_kept hc hj₁'
    obtain ⟨j₂, hj₂, hsame₂⟩ := hstep.job_kept hc hj₂'
    rw [hsame₁.queue, hsame₂.queue] at hqueue
    rw [hsame₁.seq, hsame₂.seq] at hseq
    exact h.injective a₁ a₂ j₁ j₂ hj₁ hj₂ hqueue hseq
  total k q' hq' := h.total_step hstep hq'

/-- An enqueue gives the new job the counter of its queue, which no job of it carries, and moves
the counter past it. -/
theorem Numbered.step_of_enqueue (h : Numbered σ) {now : Int64} {ctx : EnqueueJob Pubkey}
    {n : String} {s : UInt64} {params : EnqueueJobParams}
    (hstep : Step D σ ⟨now, .enqueueJob ctx n s params⟩ σ' o) : Numbered σ' := by
  refine ⟨?_, ?_, fun k q' hq' => h.total_step hstep hq'⟩
  all_goals
    cases hstep with
    | enqueueJob queue fresh unpaused payload jobType next_eq total_eq => ?_
  · intro a j' q' hj' hq'
    simp only [Finmap.lookup_insert_eq_ite] at hj' hq'
    split_ifs at hj' with ha
    · -- the new job has the counter as its number, and the counter has moved on
      cases hj'
      simp only [EnqueueJob.newJob, ↓reduceIte, Option.some.injEq] at hq' ⊢
      simp only [← hq', next_eq]
      omega
    · split_ifs at hq' with hk
      · cases hq'
        have hlt := h.lt a j' _ hj' (hk ▸ queue.lookup)
        simp only [next_eq]
        omega
      · exact h.lt a j' q' hj' hq'
  · intro a₁ a₂ j₁ j₂ hj₁ hj₂ hqueue hseq
    -- an old job of the queue has a number below the counter, so not the new job's
    have old {a : Pubkey} {j : Job Pubkey} (hj : σ.jobs.lookup a = some j)
        (hk : j.queue = ctx.queueConfig) : j.seq.toNat < _ :=
      h.lt a j _ hj (hk ▸ queue.lookup)
    simp only [Finmap.lookup_insert_eq_ite] at hj₁ hj₂
    split_ifs at hj₁ hj₂ with h₁ h₂ h₂
    · rw [h₁, h₂]
    · cases hj₁
      have := old hj₂ hqueue.symm
      simp [← hseq, EnqueueJob.newJob] at this
    · cases hj₂
      have := old hj₁ hqueue
      simp [hseq, EnqueueJob.newJob] at this
    · exact h.injective a₁ a₂ j₁ j₂ hj₁ hj₂ hqueue hseq

theorem Numbered.step (h : Numbered σ) (haddr : Addressed D σ) (hstep : Step D σ c σ' o) :
    Numbered σ' := by
  obtain ⟨now, instruction⟩ := c
  cases instruction with
  | enqueueJob => exact h.step_of_enqueue hstep
  | _ => exact h.step_of_kept haddr hstep (fun _ _ _ _ => by simp)

theorem Staffed.step (h : Staffed σ) (haddr : Addressed D σ) (hstep : Step D σ c σ' o) :
    Staffed σ' := by
  intro a j' w hj' hw
  -- a registry that staffs a job before the step still does after it
  have kept {queue : Pubkey} (hr : ∃ k r, σ.workerRegistries.lookup k = some r ∧
      r.queue = queue ∧ r.worker = w) :
      ∃ k r, σ'.workerRegistries.lookup k = some r ∧ r.queue = queue ∧ r.worker = w := by
    obtain ⟨k, r, hr, hqueue, hworker⟩ := hr
    have hchange := hstep.registryChange k
    rw [hr] at hchange
    obtain ⟨r', hr', hsame⟩ := hchange.persists
    exact ⟨k, r', hr', hsame.queue.trans hqueue, hsame.worker.trans hworker⟩
  have hchange := hstep.jobChange a
  rw [hj'] at hchange
  generalize hold : σ.jobs.lookup a = old at hchange
  generalize Entry.opOn a ⟨σ, c, o, σ'⟩ = op at hchange
  cases hchange with
  | keep => exact kept (h a j' w hold hw)
  | enqueue queue unpaused find => cases hw
  | claim pending active =>
    -- the claimer's own registry staffs the job
    obtain ⟨n, k, r, hr, -⟩ := active
    obtain rfl : _ = w := Option.some.inj hw
    exact kept ⟨k, r, hr.lookup, hr.queue, haddr.worker_of_registryAt hr⟩
  | @complete j | @failPermanent j => exact kept (h a j w hold hw)
  | failRetry | expire => cases hw

/-- What holds of the whole ledger in every run. -/
structure Sound (D : Derivation Pubkey) (σ : Ledger Pubkey) : Prop where
  addressed : Addressed D σ
  numbered : Numbered σ
  staffed : Staffed σ

theorem Sound.step (h : Sound D σ) (hstep : Step D σ c σ' o) : Sound D σ' :=
  ⟨h.addressed.step hstep, h.numbered.step h.addressed hstep, h.staffed.step h.addressed hstep⟩

/-- Every ledger reached by a run is sound. -/
theorem sound_run (calls : List (Call Pubkey)) : Sound D ((program D).run calls) := by
  refine Machine.run_induction ?_ (fun σ c σ' o h hstep => h.step (execute_eq_ok.mp hstep)) calls
  refine ⟨addressed_run [], ⟨?_, ?_, ?_⟩, ?_⟩
  · intro a j q h
    cases h
  · intro a a' j j' h
    cases h
  · intro k q h
    cases h
  · intro a j w h
    cases h

/-- What holds of the empty ledger, and is kept by every step from a sound ledger, holds of the log
and ledger of every run. -/
theorem step_induction {P : List (Entry Pubkey) → Ledger Pubkey → Prop} (hempty : P [] .empty)
    (hstep : ∀ log σ c σ' o, Sound D σ → P log σ → Step D σ c σ' o →
      P (log ++ [⟨σ, c, o, σ'⟩]) σ')
    (calls : List (Call Pubkey)) : P ((program D).log calls) ((program D).run calls) :=
  Machine.log_induction_of_inv (M := program D) sound_run hempty
    (fun log σ c σ' o hsound h hok => hstep log σ c σ' o hsound h (execute_eq_ok.mp hok)) calls

end Runs

end SolQueue
