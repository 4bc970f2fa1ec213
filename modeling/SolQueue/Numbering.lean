import SolQueue.Bookkeeping

/-!
# Numbers and times of jobs

`enqueueJob` numbers the jobs of a queue by the queue's counter, whatever number it is called with.
In every run the numbers are the positions of the calls in the history of the queue.

* `enqueuesOn`: the calls of a log that enqueued jobs on a queue.
* `Chronicle`: jobs are as old as their numbers say.
* `Numbering`, `numbering_run`: what the numbers and times of the jobs of a queue say about its
  history.
-/

namespace SolQueue

variable {Pubkey : Type} [DecidableEq Pubkey]

/-- The call enqueues a job on the queue at `k`. -/
def Entry.enqueuesOn (k : Pubkey) (e : Entry Pubkey) : Bool :=
  match e.call.instruction with
  | .enqueueJob ctx _ _ _ => ctx.queueConfig = k
  | _ => false

/-- The calls of a log that enqueued jobs on the queue at `k`, in order. -/
def enqueuesOn (k : Pubkey) (log : List (Entry Pubkey)) : List (Entry Pubkey) :=
  log.filter (Entry.enqueuesOn k)

theorem length_enqueuesOn_snoc {k : Pubkey} {log : List (Entry Pubkey)} {e : Entry Pubkey} :
    (enqueuesOn k (log ++ [e])).length =
      (enqueuesOn k log).length + if e.enqueuesOn k then 1 else 0 := by
  rw [enqueuesOn, List.filter_append, List.length_append, enqueuesOn, List.filter_singleton]
  cases Entry.enqueuesOn k e <;> rfl

/-- The jobs of a ledger were enqueued at times of the log, in the order of their numbers. -/
structure Chronicle (log : List (Entry Pubkey)) (σ : Ledger Pubkey) : Prop where
  enqueued : ∀ a j, σ.jobs.lookup a = some j → ∃ e ∈ log, e.call.now = j.enqueuedAt
  ordered : ∀ a a' j j', σ.jobs.lookup a = some j → σ.jobs.lookup a' = some j' →
    j.queue = j'.queue → j.seq < j'.seq → j.enqueuedAt ≤ j'.enqueuedAt

section Runs

variable [Inhabited Pubkey] {D : Derivation Pubkey} {σ σ' : Ledger Pubkey} {c : Call Pubkey}
  {o : Outcome Pubkey}

/-- What a committed `enqueueJob` call stores and emits: the counter it found is the number of the
job, and the clock its time. -/
theorem Step.enqueueJob_stores {now : Int64} {ctx : EnqueueJob Pubkey} {n : String} {s : UInt64}
    {params : EnqueueJobParams} (h : Step D σ ⟨now, .enqueueJob ctx n s params⟩ σ' o) :
    ∃ q j, σ.queueConfigs.lookup ctx.queueConfig = some q ∧ σ'.jobs.lookup ctx.job = some j ∧
      j.queue = ctx.queueConfig ∧ j.seq = q.nextJobSeq ∧ j.enqueuedAt = now ∧
      o.events = [.jobEnqueued ctx.queueConfig ctx.job q.nextJobSeq params.jobType
        params.priority ctx.creator now] := by
  cases h with
  | enqueueJob queue fresh unpaused payload jobType next_eq total_eq =>
    exact ⟨_, _, queue.lookup, Finmap.lookup_insert _, rfl, rfl, rfl, rfl⟩

/-- Only `enqueueJob` calls count as enqueues. -/
theorem Step.gain_enqueue (h : Step D σ c σ' o) (k : Pubkey) :
    Entry.gain (fun j op => op.kind = .enqueue ∧ j.queue = k) ⟨σ, c, o, σ'⟩ =
      if Entry.enqueuesOn k ⟨σ, c, o, σ'⟩ then 1 else 0 := by
  cases h with
  | initializeQueue | setQueuePaused | registerWorker | deactivateWorker => rfl
  | enqueueJob queue fresh unpaused payload jobType next_eq total_eq =>
    rw [Entry.gain_of_some
      (subject_of_jobOp_new rfl (lookup_of_fresh fresh).2.2 (Finmap.lookup_insert _))]
    simp [Entry.enqueuesOn, JobOp.kind, EnqueueJob.newJob]
  | claimJob valid | completeJob valid =>
    rw [Entry.gain_of_some (subject_of_jobOp rfl valid.job.lookup)]
    simp [Entry.enqueuesOn, JobOp.kind]
  | failJobPermanent valid =>
    rw [Entry.gain_of_some
      (subject_of_jobOp (jobOp_failed (Finmap.lookup_insert _)) valid.job.lookup)]
    simp [Entry.enqueuesOn, JobOp.kind, Job.failedFor]
  | failJobRetry valid =>
    rw [Entry.gain_of_some
      (subject_of_jobOp (jobOp_failed (Finmap.lookup_insert _)) valid.job.lookup)]
    simp [Entry.enqueuesOn, JobOp.kind, Job.retried]
  | expireJob queue job | closeJob queue job =>
    rw [Entry.gain_of_some (subject_of_jobOp rfl job.lookup)]
    simp [Entry.enqueuesOn, JobOp.kind]

/-- The counter of a queue is the number of jobs enqueued on it. -/
theorem nextJobSeq_run (calls : List (Call Pubkey)) {k : Pubkey} {q : QueueConfig Pubkey}
    (hq : ((program D).run calls).queueConfigs.lookup k = some q) :
    q.nextJobSeq.toNat = (enqueuesOn k ((program D).log calls)).length := by
  have htotal : q.totalEnqueued.toNat = _ := queueStat_of_run calls hq .enqueued
  rw [← (sound_run calls).numbered.total k q hq, htotal]
  refine step_induction (P := fun log _ =>
    countOps (fun j op => op.kind = .enqueue ∧ j.queue = k) log = (enqueuesOn k log).length)
    rfl ?_ calls
  intro log σ c σ' o _ ih hstep
  rw [countOps_snoc, length_enqueuesOn_snoc, ih, hstep.gain_enqueue k]

/-- A step other than an enqueue on a queue keeps the queue's counter. -/
theorem Step.nextJobSeq_kept (h : Step D σ c σ' o) (hsound : Sound D σ) {k : Pubkey}
    (hother : Entry.enqueuesOn k ⟨σ, c, o, σ'⟩ = false) {q : QueueConfig Pubkey}
    (hq : σ.queueConfigs.lookup k = some q) :
    ∃ q', σ'.queueConfigs.lookup k = some q' ∧ q'.nextJobSeq = q.nextJobSeq := by
  have hchange := h.queueChange k
  rw [hq] at hchange
  obtain ⟨q', hq', -, -⟩ := hchange.persists
  refine ⟨q', hq', UInt64.toNat_inj.mp ?_⟩
  -- the counter counts enqueues, and this call is none
  have htotal : (QueueStat.of .enqueued q').toNat = (QueueStat.of .enqueued q).toNat := by
    rw [← Ledger.queueStat_of_lookup hq', ← Ledger.queueStat_of_lookup hq,
      h.queueStat .enqueued k]
    exact Nat.add_eq_left.mpr ((h.gain_enqueue k).trans (by rw [hother]; rfl))
  rw [← hsound.numbered.total k q hq, ← (hsound.step h).numbered.total k q' hq']
  exact htotal

/-- A job found after a step has just been enqueued, with the largest number of its queue, or was
there as it was identified before. -/
theorem Numbered.job_origin (h : Numbered σ) (hstep : Step D σ c σ' o) {a : Pubkey}
    {j' : Job Pubkey} (hj' : σ'.jobs.lookup a = some j') :
    (j'.enqueuedAt = c.now ∧ ∀ a₀ j₀, σ.jobs.lookup a₀ = some j₀ → j₀.queue = j'.queue →
      j₀.seq < j'.seq) ∨ ∃ j, σ.jobs.lookup a = some j ∧ SameIdentity j j' := by
  rcases hstep.job_origin hj' with ⟨ctx, n, s, params, hc, rfl⟩ | hkept
  · obtain ⟨now, _⟩ := c
    obtain rfl : _ = _ := hc
    obtain ⟨q, j, hq, hj, hqueue, hseq, hnow, -⟩ := hstep.enqueueJob_stores
    obtain rfl : j' = j := Option.some.inj (hj'.symm.trans hj)
    refine .inl ⟨hnow, fun a₀ j₀ hj₀ hqueue₀ => ?_⟩
    rw [hseq, UInt64.lt_iff_toNat_lt]
    exact h.lt a₀ j₀ q hj₀ (by rw [hqueue₀, hqueue, hq])
  · exact .inr hkept

/-- A step at a time that is not before the log keeps the chronicle. -/
theorem Chronicle.step {log : List (Entry Pubkey)} (h : Chronicle log σ) (hnumbered : Numbered σ)
    (hstep : Step D σ c σ' o) (hclock : ∀ e ∈ log, e.call.now ≤ c.now) :
    Chronicle (log ++ [⟨σ, c, o, σ'⟩]) σ' := by
  refine ⟨fun a j' hj' => ?_, fun a₁ a₂ j₁' j₂' hj₁' hj₂' hqueue hlt => ?_⟩
  · rcases hnumbered.job_origin hstep hj' with ⟨hnow, -⟩ | ⟨j, hj, hsame⟩
    · exact ⟨_, List.mem_append_right _ List.mem_cons_self, hnow.symm⟩
    · obtain ⟨e, he, hnow⟩ := h.enqueued a j hj
      exact ⟨e, List.mem_append_left _ he, hnow.trans hsame.enqueuedAt.symm⟩
  · rcases hnumbered.job_origin hstep hj₂' with ⟨hnow₂, -⟩ | ⟨j₂, hj₂, hsame₂⟩
    · -- nothing is enqueued later than now
      rw [hnow₂]
      rcases hnumbered.job_origin hstep hj₁' with ⟨hnow₁, -⟩ | ⟨j₁, hj₁, hsame₁⟩
      · rw [hnow₁]
        exact Int64.le_refl _
      · obtain ⟨e, he, hnow⟩ := h.enqueued a₁ j₁ hj₁
        rw [hsame₁.enqueuedAt, ← hnow]
        exact hclock e he
    · rcases hnumbered.job_origin hstep hj₁' with ⟨-, hnew⟩ | ⟨j₁, hj₁, hsame₁⟩
      · -- a new job has the largest number
        have hgt := hnew a₂ j₂ hj₂ (hsame₂.queue.symm.trans hqueue.symm)
        rw [← hsame₂.seq] at hgt
        exact absurd hgt (UInt64.lt_asymm hlt)
      · rw [hsame₁.queue, hsame₂.queue] at hqueue
        rw [hsame₁.seq, hsame₂.seq] at hlt
        rw [hsame₁.enqueuedAt, hsame₂.enqueuedAt]
        exact h.ordered a₁ a₂ j₁ j₂ hj₁ hj₂ hqueue hlt

/-- If the clock never decreases, every run keeps the chronicle. -/
theorem chronicle_run (calls : List (Call Pubkey))
    (hclock : calls.Pairwise fun c c' => c.now ≤ c'.now) :
    Chronicle ((program D).log calls) ((program D).run calls) := by
  -- the calls that committed are in order as well
  have hcalls : (((program D).log calls).map (·.call)).Pairwise fun c c' => c.now ≤ c'.now :=
    hclock.sublist Machine.map_call_logFrom_sublist
  rw [List.pairwise_map] at hcalls
  refine step_induction (D := D) (P := fun log σ =>
    log.Pairwise (fun e e' => e.call.now ≤ e'.call.now) → Chronicle log σ) ?_ ?_ calls hcalls
  · refine fun _ => ⟨?_, ?_⟩
    · intro a j hj
      cases hj
    · intro a a' j j' hj
      cases hj
  · intro log σ c σ' o hsound ih hstep hpairwise
    rw [List.pairwise_append] at hpairwise
    exact (ih hpairwise.1).step hsound.numbered hstep fun e he =>
      hpairwise.2.2 e he _ List.mem_cons_self

/-- What the numbers of the jobs of the queue at `k` say about a run. -/
structure Numbering (D : Derivation Pubkey) (calls : List (Call Pubkey)) (k : Pubkey) :
    Prop where
  /-- A job enqueued after `i` others stores and announces the number `i`. -/
  stored : ∀ pre e post, (program D).log calls = pre ++ e :: post → ∀ ctx n s params,
    e.call.instruction = .enqueueJob ctx n s params → ctx.queueConfig = k →
    ∃ j, e.after.jobs.lookup ctx.job = some j ∧ j.queue = k ∧
      j.seq.toNat = (enqueuesOn k pre).length ∧
      e.out.events = [.jobEnqueued k ctx.job j.seq params.jobType params.priority ctx.creator
        e.call.now]
  /-- The counters count the jobs enqueued. -/
  counted : ∀ q, ((program D).run calls).queueConfigs.lookup k = some q →
    q.nextJobSeq.toNat = (enqueuesOn k ((program D).log calls)).length ∧
      q.totalEnqueued = q.nextJobSeq
  /-- Live jobs have distinct numbers. -/
  distinct : ∀ a a' j j', ((program D).run calls).jobs.lookup a = some j →
    ((program D).run calls).jobs.lookup a' = some j' → j.queue = k → j'.queue = k → a ≠ a' →
    j.seq ≠ j'.seq
  /-- Live jobs have numbers below the counter. -/
  below : ∀ a j, ((program D).run calls).jobs.lookup a = some j → j.queue = k →
    ∃ q, ((program D).run calls).queueConfigs.lookup k = some q ∧
      j.seq.toNat < q.nextJobSeq.toNat
  /-- If the clock never decreases, jobs with smaller numbers are older. -/
  chronological : calls.Pairwise (fun c c' => c.now ≤ c'.now) →
    ∀ a a' j j', ((program D).run calls).jobs.lookup a = some j →
    ((program D).run calls).jobs.lookup a' = some j' → j.queue = k → j'.queue = k →
    j.seq < j'.seq → j.enqueuedAt ≤ j'.enqueuedAt
  /-- No other call changes the counter. -/
  only_enqueue : ∀ e ∈ (program D).log calls, Entry.enqueuesOn k e = false →
    ∀ q, e.before.queueConfigs.lookup k = some q →
    ∃ q', e.after.queueConfigs.lookup k = some q' ∧ q'.nextJobSeq = q.nextJobSeq

/-- In every run and for every queue, numbers are gap-free, unique and chronological. -/
theorem numbering_run (calls : List (Call Pubkey)) (k : Pubkey) : Numbering D calls k where
  stored := by
    rintro pre e post hlog ctx n s params hc rfl
    obtain ⟨calls₁, calls₂, -, hpre, hbefore, hok, -⟩ := Machine.log_eq_append_cons hlog
    have hstep : Step D e.before e.call e.after e.out := execute_eq_ok.mp hok
    obtain ⟨before, ⟨now, _⟩, out, after⟩ := e
    obtain rfl : _ = _ := hc
    obtain ⟨q, j, hq, hj, hqueue, hseq, -, hevents⟩ := hstep.enqueueJob_stores
    refine ⟨j, hj, hqueue, ?_, by rw [hevents, hseq]⟩
    rw [hseq, ← hpre]
    exact nextJobSeq_run calls₁ (hbefore ▸ hq)
  counted q hq := ⟨nextJobSeq_run calls hq, (sound_run calls).numbered.total k q hq⟩
  distinct a a' j j' hj hj' hqueue hqueue' ha hseq :=
    ha ((sound_run calls).numbered.injective a a' j j' hj hj' (hqueue.trans hqueue'.symm) hseq)
  below a j hj hqueue := by
    subst hqueue
    obtain ⟨n, s, q, -, hq⟩ := (addressed_run calls).job a j hj
    exact ⟨q, hq.lookup, (sound_run calls).numbered.lt a j q hj hq.lookup⟩
  chronological hclock a a' j j' hj hj' hqueue hqueue' hlt :=
    (chronicle_run calls hclock).ordered a a' j j' hj hj' (hqueue.trans hqueue'.symm) hlt
  only_enqueue := by
    intro e he hother q hq
    obtain ⟨calls₁, -, hbefore, -, hstep⟩ := step_of_mem_log he
    exact hstep.nextJobSeq_kept (hbefore ▸ sound_run calls₁) hother hq

end Runs

end SolQueue
