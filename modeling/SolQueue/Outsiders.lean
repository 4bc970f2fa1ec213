import SolQueue.Correctness
import SolQueue.Replica

/-!
# What outsiders can do to a queue

The instructions for enqueuing, expiring and closing jobs may be signed by anyone. Keys that
neither administer a queue nor work for it can join forces and call the program in whatever order,
with whatever accounts, times and arguments: they add jobs of their own to a queue that is not
paused, return jobs whose deadline has passed and close finished jobs that are theirs.

* `Ledger.registryOf`, `Ledger.jobOf`: the accounts that belong to a queue.
* `Outside`: a set of keys without rights on a queue.
* `QueueConfig.Enqueues`, `Fate`, `Confined`: what such keys can do to it.
* `Confined.trans`, `Step.confined`: the effects compose, and every call of an outsider is one.
* `outsiders_powerless`: the same for whatever calls they make.
-/

namespace SolQueue

variable {Pubkey : Type} [DecidableEq Pubkey]

/-! ## The accounts of a queue -/

/-- The registry at `x`, if there is one and it belongs to the queue at `k`. -/
def Ledger.registryOf (σ : Ledger Pubkey) (k x : Pubkey) : Option (WorkerRegistry Pubkey) :=
  (σ.workerRegistries.lookup x).filter (·.queue = k)

/-- The job at `a`, if there is one and it belongs to the queue at `k`. -/
def Ledger.jobOf (σ : Ledger Pubkey) (k a : Pubkey) : Option (Job Pubkey) :=
  (σ.jobs.lookup a).filter (·.queue = k)

namespace Ledger

variable {σ : Ledger Pubkey} {k w x a : Pubkey}

theorem registryOf_eq_some {r : WorkerRegistry Pubkey} :
    σ.registryOf k x = some r ↔ σ.workerRegistries.lookup x = some r ∧ r.queue = k := by
  simp only [registryOf, Option.filter_eq_some_iff, decide_eq_true_eq]

theorem jobOf_eq_some {j : Job Pubkey} :
    σ.jobOf k a = some j ↔ σ.jobs.lookup a = some j ∧ j.queue = k := by
  simp only [jobOf, Option.filter_eq_some_iff, decide_eq_true_eq]

/-- Who works for a queue is told by its registries. -/
theorem hasActiveWorker_iff :
    σ.HasActiveWorker k w ↔
      ∃ x r, σ.registryOf k x = some r ∧ r.worker = w ∧ r.isActive = true := by
  simp only [HasActiveWorker, registryOf_eq_some, and_assoc]

end Ledger

/-! ## What outsiders can do -/

/-- None of the keys `W` administers the queue `q` at `k` or works for it. -/
structure Outside (W : Set Pubkey) (k : Pubkey) (q : QueueConfig Pubkey) (σ : Ledger Pubkey) :
    Prop where
  authority : q.authority ∉ W
  worker : ∀ w ∈ W, ¬σ.HasActiveWorker k w

/-- The queue `q'` is what `q` is after `m` jobs were enqueued on it. -/
structure QueueConfig.Enqueues (m : ℕ) (q q' : QueueConfig Pubkey) : Prop where
  same : q' = { q with nextJobSeq := q'.nextJobSeq, totalEnqueued := q'.totalEnqueued }
  nextJobSeq : q'.nextJobSeq.toNat = q.nextJobSeq.toNat + m
  totalEnqueued : q'.totalEnqueued.toNat = q.totalEnqueued.toNat + m
  paused : q.isPaused = true → m = 0

/-- What the keys `W` can do at the times `T` to a job of the queue `q`, from what its address held
before to what it holds after. -/
inductive Fate (W : Set Pubkey) (T : Set Int64) (q : QueueConfig Pubkey) :
    Option (Job Pubkey) → Option (Job Pubkey) → Prop where
  /-- It stays as it is. -/
  | kept {job : Option (Job Pubkey)} : Fate W T q job job
  /-- Its deadline has passed, and it is returned. -/
  | returned {j : Job Pubkey} {t : Int64} (ht : t ∈ T)
      (expired : j.isExpired t q.jobTimeoutSecs = .ok true) : Fate W T q (some j) (some j.expired)
  /-- It is finished and one of theirs, and it is closed. -/
  | closed {j : Job Pubkey} (finished : j.status = .completed ∨ j.status = .failed)
      (creator : j.creator ∈ W) : Fate W T q (some j) none
  /-- There was no job, or one that could be closed, and now there is a new one of theirs. -/
  | enqueued {old : Option (Job Pubkey)} {j : Job Pubkey}
      (gone : ∀ j₀ ∈ old, (j₀.status = .completed ∨ j₀.status = .failed) ∧ j₀.creator ∈ W)
      (unpaused : q.isPaused = false) (creator : j.creator ∈ W) (pending : j.status = .pending)
      (unassigned : j.assignedWorker = none) (untried : j.retryCount = 0) :
      Fate W T q old (some j)

/-- What the keys `W` can do at the times `T` to the queue `q` at `k`, its workers and its jobs. -/
structure Confined (W : Set Pubkey) (T : Set Int64) (k : Pubkey) (q : QueueConfig Pubkey)
    (σ σ' : Ledger Pubkey) : Prop where
  /-- The queue is as it was, but for the numbers of jobs enqueued. -/
  queue : ∃ m q', σ'.queueConfigs.lookup k = some q' ∧ q.Enqueues m q'
  /-- Its workers are as they were. -/
  workers : ∀ x, σ'.registryOf k x = σ.registryOf k x
  /-- So are its jobs, but for those returned, closed and enqueued. -/
  jobs : ∀ a, Fate W T q (σ.jobOf k a) (σ'.jobOf k a)

/-! ### The effects compose -/

omit [DecidableEq Pubkey] in
/-- Without a job enqueued, the queue is as it was. -/
theorem QueueConfig.Enqueues.refl (q : QueueConfig Pubkey) : q.Enqueues 0 q :=
  ⟨rfl, rfl, rfl, fun _ => rfl⟩

omit [DecidableEq Pubkey] in
theorem QueueConfig.Enqueues.trans {l m : ℕ} {q q₁ q₂ : QueueConfig Pubkey}
    (h : q.Enqueues l q₁) (h' : q₁.Enqueues m q₂) : q.Enqueues (l + m) q₂ where
  same := by rw [h'.same, h.same]
  nextJobSeq := by rw [h'.nextJobSeq, h.nextJobSeq, Nat.add_assoc]
  totalEnqueued := by rw [h'.totalEnqueued, h.totalEnqueued, Nat.add_assoc]
  paused hpaused := by
    have hpaused' : q₁.isPaused = true := by rw [h.same]; exact hpaused
    rw [h.paused hpaused, h'.paused hpaused']

namespace Fate

variable {W : Set Pubkey} {T : Set Int64} {q q' : QueueConfig Pubkey}
  {old mid new : Option (Job Pubkey)}

omit [DecidableEq Pubkey]

/-- What can happen to a job depends on the queue's timeout and on whether it is paused. -/
theorem congr (h : Fate W T q old new) (htimeout : q.jobTimeoutSecs = q'.jobTimeoutSecs)
    (hpaused : q.isPaused = q'.isPaused) : Fate W T q' old new := by
  cases h with
  | kept => exact .kept
  | returned ht expired => exact .returned ht (htimeout ▸ expired)
  | closed finished creator => exact .closed finished creator
  | enqueued gone unpaused creator pending unassigned untried =>
    exact .enqueued gone (hpaused ▸ unpaused) creator pending unassigned untried

/-- Nothing more happens to a Pending job. -/
theorem eq_of_pending {j : Job Pubkey} (h : Fate W T q (some j) new) (hj : j.status = .pending) :
    new = some j := by
  cases h with
  | kept => rfl
  | returned ht expired => cases hj.symm.trans (Job.isExpired_eq_ok_true.mp expired).1
  | closed finished => rcases finished with h | h <;> cases hj.symm.trans h
  | enqueued gone => rcases (gone j rfl).1 with h | h <;> cases hj.symm.trans h

theorem trans (h : Fate W T q old mid) (h' : Fate W T q mid new) : Fate W T q old new := by
  cases h with
  | kept => exact h'
  -- a returned job is Pending, so nothing more happens to it
  | returned ht expired =>
    rw [h'.eq_of_pending rfl]
    exact .returned ht expired
  | closed finished creator =>
    cases h' with
    | kept => exact .closed finished creator
    -- closed first, then another one in its place: their job was finished before
    | enqueued gone unpaused creator' pending unassigned untried =>
      refine .enqueued ?_ unpaused creator' pending unassigned untried
      rintro _ ⟨⟩
      exact ⟨finished, creator⟩
  | enqueued gone unpaused creator pending unassigned untried =>
    -- the new job is Pending as well
    rw [h'.eq_of_pending pending]
    exact .enqueued gone unpaused creator pending unassigned untried

end Fate

namespace Confined

variable {W : Set Pubkey} {T : Set Int64} {k : Pubkey} {q q₁ : QueueConfig Pubkey}
  {σ σ₁ σ₂ : Ledger Pubkey}

theorem refl (hq : σ.queueConfigs.lookup k = some q) : Confined W T k q σ σ :=
  ⟨⟨0, q, hq, .refl q⟩, fun _ => rfl, fun _ => .kept⟩

theorem trans (h : Confined W T k q σ σ₁) (hq₁ : σ₁.queueConfigs.lookup k = some q₁)
    (h' : Confined W T k q₁ σ₁ σ₂) : Confined W T k q σ σ₂ := by
  obtain ⟨l, _, hq₁', henqueues⟩ := h.queue
  obtain rfl := Option.some.inj (hq₁.symm.trans hq₁')
  obtain ⟨m, q₂, hq₂, henqueues'⟩ := h'.queue
  have htimeout : q₁.jobTimeoutSecs = q.jobTimeoutSecs := by rw [henqueues.same]
  have hpaused : q₁.isPaused = q.isPaused := by rw [henqueues.same]
  exact ⟨⟨l + m, q₂, hq₂, henqueues.trans henqueues'⟩,
    fun x => (h'.workers x).trans (h.workers x),
    fun a => (h.jobs a).trans ((h'.jobs a).congr htimeout hpaused)⟩

/-- Outsiders stay outsiders. -/
theorem outside (h : Confined W T k q σ σ₁) (hq₁ : σ₁.queueConfigs.lookup k = some q₁)
    (hout : Outside W k q σ) : Outside W k q₁ σ₁ := by
  obtain ⟨_, _, hq₁', henqueues⟩ := h.queue
  obtain rfl := Option.some.inj (hq₁.symm.trans hq₁')
  refine ⟨?_, fun w hw hactive => hout.worker w hw ?_⟩
  · rw [henqueues.same]
    exact hout.authority
  · simpa only [Ledger.hasActiveWorker_iff, h.workers] using hactive

end Confined

/-! ## Calls on other queues -/

section Names

variable {D : Derivation Pubkey} {σ σ' : Ledger Pubkey} {n : String} {k x a : Pubkey}
  {q : QueueConfig Pubkey}

/-- The registries of a queue are under its name. -/
theorem Addressed.registryOf_eq_none (h : Addressed D σ) (hq : QueueAt D σ n k q)
    (hx : ¬UnderName D n x) : σ.registryOf k x = none := by
  rw [Option.eq_none_iff_forall_not_mem]
  intro r hr
  obtain ⟨hlookup, rfl⟩ := Ledger.registryOf_eq_some.mp hr
  obtain ⟨m, _, hfind, hm⟩ := h.registry x r hlookup
  exact hx (hm.underName.unique hq.underName ▸ ⟨_, _, rfl, D.create_of_find hfind⟩)

/-- So are its jobs. -/
theorem Addressed.jobOf_eq_none (h : Addressed D σ) (hq : QueueAt D σ n k q)
    (ha : ¬UnderName D n a) : σ.jobOf k a = none := by
  rw [Option.eq_none_iff_forall_not_mem]
  intro j hj
  obtain ⟨hlookup, rfl⟩ := Ledger.jobOf_eq_some.mp hj
  obtain ⟨m, _, _, hfind, hm⟩ := h.job a j hlookup
  exact ha (hm.underName.unique hq.underName ▸ ⟨_, _, rfl, D.create_of_find hfind⟩)

/-- Ledgers that agree under the name of a queue agree on all that belongs to it. -/
theorem AgreeOn.confined (h : AgreeOn D n σ σ') (haddr : Addressed D σ) (haddr' : Addressed D σ')
    (hq : QueueAt D σ n k q) {W : Set Pubkey} {T : Set Int64} : Confined W T k q σ σ' where
  queue := ⟨0, q, (hq.transfer h).lookup, .refl q⟩
  workers x := by
    by_cases hx : UnderName D n x
    · simp only [Ledger.registryOf, (h x hx).workerRegistry]
    · rw [haddr.registryOf_eq_none hq hx, haddr'.registryOf_eq_none (hq.transfer h) hx]
  jobs a := by
    by_cases ha : UnderName D n a
    · rw [Ledger.jobOf, Ledger.jobOf, (h a ha).job]
      exact .kept
    · rw [haddr.jobOf_eq_none hq ha, haddr'.jobOf_eq_none (hq.transfer h) ha]
      exact .kept

end Names

/-! ## Calls on the queue -/

section Runs

variable [Inhabited Pubkey] {D : Derivation Pubkey} {σ σ' : Ledger Pubkey} {c : Call Pubkey}
  {o : Outcome Pubkey} {n : String} {k : Pubkey} {q : QueueConfig Pubkey} {W : Set Pubkey}
  {T : Set Int64}

omit [Inhabited Pubkey] in
/-- Writing one job of the queue, after which the others are as they were. -/
theorem fate_insert {a b : Pubkey} {j : Job Pubkey} (hj : j.queue = k)
    (h : Fate W T q (σ.jobOf k b) (some j)) :
    Fate W T q (σ.jobOf k a) (((σ.jobs.insert b j).lookup a).filter (·.queue = k)) := by
  have hnew : (some j).filter (·.queue = k) = some j := Option.filter_some_pos (decide_eq_true hj)
  rw [Finmap.lookup_insert_eq_ite]
  split_ifs with hab
  · rwa [hab, hnew]
  · exact .kept

omit [Inhabited Pubkey] in
/-- Erasing one job, after which the others are as they were. -/
theorem fate_erase {a b : Pubkey} (h : Fate W T q (σ.jobOf k b) none) :
    Fate W T q (σ.jobOf k a) (((σ.jobs.erase b).lookup a).filter (·.queue = k)) := by
  rw [Finmap.lookup_erase_eq_ite]
  split_ifs with hab
  · rwa [hab]
  · exact .kept

/-- A call on the queue that an outsider signs enqueues, expires or closes a job. -/
theorem Step.confined_of_queueName (h : Step D σ c σ' o) (haddr : Addressed D σ)
    (hq : QueueAt D σ c.instruction.queueName k q) (hout : Outside W k q σ)
    (hsigner : c.instruction.signer ∈ W) (hnow : c.now ∈ T) : Confined W T k q σ σ' := by
  -- the name has one queue, so whatever queue the call loads is this one
  have hsame {x : Pubkey} {q' : QueueConfig Pubkey}
      (hq' : QueueAt D σ c.instruction.queueName x q') : x = k ∧ q' = q := by
    obtain rfl := haddr.queue_unique haddr hq' hq rfl
    exact ⟨rfl, Option.some.inj (hq'.lookup.symm.trans hq.lookup)⟩
  -- and a signer with an active registry on it is no outsider
  have hworker {ctx : WorkerJob Pubkey} {s : UInt64} {q' : QueueConfig Pubkey}
      {r : WorkerRegistry Pubkey} {j : Job Pubkey}
      (valid : ctx.Valid D σ c.instruction.queueName s q' r j) (hw : ctx.worker ∈ W) : False := by
    obtain ⟨hk, -⟩ := hsame valid.queue
    refine hout.worker _ hw ⟨_, r, valid.registry.lookup, valid.registry.queue.trans hk,
      haddr.worker_of_registryAt valid.registry, valid.active⟩
  cases h with
  | initializeQueue fresh =>
    -- the address of the queue is not free
    obtain ⟨rfl, -⟩ := Prod.mk.inj (Option.some.inj (fresh.find.symm.trans (haddr.find_queue hq)))
    cases hq.lookup.symm.trans (lookup_of_fresh fresh).1
  | setQueuePaused queue authority | registerWorker queue authority
  | deactivateWorker queue authority =>
    obtain ⟨-, rfl⟩ := hsame queue
    exact absurd (authority ▸ hsigner) hout.authority
  | claimJob valid | completeJob valid | failJobPermanent valid | failJobRetry valid =>
    exact (hworker valid hsigner).elim
  | enqueueJob queue fresh unpaused payload jobType next_eq total_eq =>
    obtain ⟨rfl, rfl⟩ := hsame queue
    refine ⟨⟨1, _, Finmap.lookup_insert _, rfl, next_eq, total_eq, ?_⟩, fun _ => rfl,
      fun _ => fate_insert rfl ?_⟩
    · intro hpaused
      cases hpaused.symm.trans unpaused
    -- the address of the new job was free
    · rw [Ledger.jobOf, (lookup_of_fresh fresh).2.2]
      exact .enqueued (fun _ h => nomatch h) unpaused hsigner rfl rfl rfl
  | expireJob queue job processing expired =>
    obtain ⟨rfl, rfl⟩ := hsame queue
    refine ⟨⟨0, _, hq.lookup, .refl _⟩, fun _ => rfl, fun _ => fate_insert job.queue ?_⟩
    rw [Ledger.jobOf_eq_some.mpr ⟨job.lookup, job.queue⟩]
    exact .returned hnow expired
  | closeJob queue job creator finished =>
    obtain ⟨rfl, rfl⟩ := hsame queue
    refine ⟨⟨0, _, hq.lookup, .refl _⟩, fun _ => rfl, fun _ => fate_erase ?_⟩
    rw [Ledger.jobOf_eq_some.mpr ⟨job.lookup, job.queue⟩]
    exact .closed finished (creator ▸ hsigner)

/-- What a call of an outsider can do to a queue, whichever queue it is about. -/
theorem Step.confined (h : Step D σ c σ' o) (haddr : Addressed D σ) (hq : QueueAt D σ n k q)
    (hout : Outside W k q σ) (hsigner : c.instruction.signer ∈ W) (hnow : c.now ∈ T) :
    Confined W T k q σ σ' := by
  by_cases hname : c.instruction.queueName = n
  · exact h.confined_of_queueName haddr (hname ▸ hq) hout hsigner hnow
  · -- nothing under the name of the queue changes
    have hagree : AgreeOn D n σ σ' := fun x hx => h.sameAt fun hx' => hname (hx'.unique hx)
    exact hagree.confined haddr (haddr.step h) hq

/-! ## Whatever they call -/

/-- Keys that do not administer a queue and do not work for it can do nothing to it, in any calls
that they all sign, but enqueue jobs of their own, return jobs whose deadline has passed and close
finished jobs of their own. -/
theorem outsiders_powerless {calls : List (Call Pubkey)}
    (hq : QueueAt D ((program D).run calls) n k q) (hout : Outside W k q ((program D).run calls))
    {more : List (Call Pubkey)} (hsigners : ∀ c ∈ more, c.instruction.signer ∈ W) :
    Confined W {t | ∃ c ∈ more, c.now = t} k q ((program D).run calls)
      ((program D).run (calls ++ more)) := by
  rw [Machine.run_append]
  generalize hT : {t | ∃ c ∈ more, c.now = t} = T
  suffices hrun : ∃ q', QueueAt D ((program D).runFrom ((program D).run calls) more) n k q' ∧
      Addressed D ((program D).runFrom ((program D).run calls) more) ∧
      Confined W T k q ((program D).run calls)
        ((program D).runFrom ((program D).run calls) more) by
    obtain ⟨-, -, -, hconfined⟩ := hrun
    exact hconfined
  -- by induction on the calls: what was done so far is confined, so they are still outsiders
  refine Machine.runFrom_induction_of_log (M := program D) (P := fun σ => ∃ q',
    QueueAt D σ n k q' ∧ Addressed D σ ∧ Confined W T k q ((program D).run calls) σ)
    (Q := fun e => e.call.instruction.signer ∈ W ∧ e.call.now ∈ T) ?_
    ⟨q, hq, addressed_run calls, .refl hq.lookup⟩ more ?_
  · rintro σ c σ' o ⟨q', hq', haddr, hconfined⟩ hok ⟨hsigner, hnow⟩
    have hstep := execute_eq_ok.mp hok
    obtain ⟨q₂, hq₂, -⟩ := hstep.queueAt hq'
    refine ⟨q₂, hq₂, haddr.step hstep, hconfined.trans hq'.lookup ?_⟩
    exact hstep.confined haddr hq' (hconfined.outside hq'.lookup hout) hsigner hnow
  -- only calls of theirs are in the log
  · intro e he
    have hcall := Machine.call_mem_of_mem_logFrom he
    exact ⟨hsigners _ hcall, hT ▸ ⟨_, hcall, rfl⟩⟩

/-- Someone without rights on the sample queue, whose worker holds a job, pauses it, claims and
completes the job, returns it after its deadline and enqueues another one. -/
def Sample.meddling : List (Call Key) :=
  [⟨5, .setQueuePaused ⟨.wallet 9, Sample.queue⟩ Sample.name true⟩,
    Sample.claim 5 (.wallet 9) 0, Sample.complete 5 (.wallet 9) 0,
    ⟨65, .expireJob ⟨.wallet 9, Sample.queue, Sample.job 0⟩ Sample.name 0⟩,
    Sample.enqueue (.wallet 9) 1 none]

/-- What they do is confined: only the return and the enqueue commit. -/
theorem outsiders_powerless_meddling :
    ∃ q, Confined {.wallet 9} {t | ∃ c ∈ Sample.meddling, c.now = t} Sample.queue q
      ((program Derivation.free).run (Sample.day.take 4))
      ((program Derivation.free).run (Sample.day.take 4 ++ Sample.meddling)) := by
  have hq : QueueAt Derivation.free ((program Derivation.free).run (Sample.day.take 4)) Sample.name
      Sample.queue _ := ⟨rfl, rfl⟩
  have hfresh : Fresh Derivation.free ((program Derivation.free).run (Sample.day.take 4))
      (.worker Sample.name.asBytes (.wallet 9)) (Sample.registry (.wallet 9)) 255 :=
    ⟨rfl, by decide +kernel⟩
  refine ⟨_, outsiders_powerless hq ⟨by decide +kernel, ?_⟩ (by decide +kernel)⟩
  rintro _ rfl ⟨x, r, hr, hqueue, hworker, -⟩
  exact (addressed_run _).not_registered hq hfresh x r hr hqueue hworker

end Runs

end SolQueue
