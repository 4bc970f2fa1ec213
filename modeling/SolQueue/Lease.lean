import SolQueue.Lifecycle

/-!
# Leases

A claim gives its worker a lease on the job: until `jobTimeoutSecs` after the claim, nobody else can
take the job away. After the lease anybody can expire the job, unless the deadline, a checked `i64`
sum, leaves no later clock.

* `Lease`: the job at an address is held by a worker since a given time.
* `lease_exclusive`: a lease lasts as long as the clock is within it and its worker has not
  reported.
* `Expirable`, `expirable_iff_deadline`: a Processing job can be expired at some clock exactly when
  its deadline is below the last one.
-/

namespace SolQueue

open Checked

variable {Pubkey : Type} [DecidableEq Pubkey]

/-! ## Within the lease -/

/-- The job at `a` is live and has been held by `w` since `started`. -/
def Lease (σ : Ledger Pubkey) (a w : Pubkey) (started : Int64) : Prop :=
  ∃ j, σ.jobs.lookup a = some j ∧ j.HeldBy w ∧ j.startedAt = some started

/-- The queue of the job at `a` has the timeout `timeoutSecs`. -/
def Ledger.TimeoutAt (σ : Ledger Pubkey) (a : Pubkey) (timeoutSecs : Int64) : Prop :=
  ∀ j, σ.jobs.lookup a = some j → ∃ q, σ.queueConfigs.lookup j.queue = some q ∧
    q.jobTimeoutSecs = timeoutSecs

/-- No operation within the lease takes the job from its holder, except their own report. -/
theorem JobChange.heldBy {D : Derivation Pubkey} {σ : Ledger Pubkey} {now started : Int64}
    {timeoutSecs : Int64} {a w : Pubkey} {op : Option (JobOp Pubkey)} {j : Job Pubkey}
    {new : Option (Job Pubkey)} (h : JobChange D σ now a op (some j) new) (hheld : j.HeldBy w)
    (hstarted : j.startedAt = some started)
    (hqueue : ∀ q, σ.queueConfigs.lookup j.queue = some q → q.jobTimeoutSecs = timeoutSecs)
    (hnow : now.toInt ≤ started.toInt + timeoutSecs.toInt)
    (hreport : ∀ op', op = some op' → op'.reporter ≠ some w) : new = some j := by
  have hholder {w' : Pubkey} (hheld' : j.HeldBy w') : w' = w :=
    Option.some.inj (hheld'.assigned.symm.trans hheld.assigned)
  cases h with
  | keep => rfl
  | claim pending active => cases pending.symm.trans hheld.processing
  | complete held active length => exact absurd (by rw [← hholder held]; rfl) (hreport _ rfl)
  | failPermanent held active retries_eq exhausted =>
    exact absurd (by rw [← hholder held]; rfl) (hreport _ rfl)
  | failRetry held active retries_eq left =>
    exact absurd (by rw [← hholder held]; rfl) (hreport _ rfl)
  | expire queue processing expired =>
    -- expiry needs a clock strictly past the deadline
    obtain ⟨-, started', hstarted', -, hpast⟩ := Job.isExpired_eq_ok_true.mp expired
    obtain rfl : started = started' := Option.some.inj (hstarted.symm.trans hstarted')
    rw [hqueue _ queue] at hpast
    omega
  | close finished =>
    rcases finished with h | h <;> cases h.symm.trans hheld.processing

section Runs

variable [Inhabited Pubkey] {D : Derivation Pubkey} {σ σ' : Ledger Pubkey}

/-- A call within the lease keeps it. -/
theorem Lease.step {c : Call Pubkey} {o : Outcome Pubkey} {a w : Pubkey}
    {started timeoutSecs : Int64} (h : Lease σ a w started) (htimeout : σ.TimeoutAt a timeoutSecs)
    (hstep : Step D σ c σ' o) (hnow : c.now.toInt ≤ started.toInt + timeoutSecs.toInt)
    (hreport : ∀ op, Entry.opOn a ⟨σ, c, o, σ'⟩ = some op → op.reporter ≠ some w) :
    Lease σ' a w started ∧ σ'.TimeoutAt a timeoutSecs := by
  obtain ⟨j, hj, hheld, hstarted⟩ := h
  obtain ⟨q, hq, hsecs⟩ := htimeout j hj
  have hchange := hstep.jobChange a
  rw [hj] at hchange
  have hnew := hchange.heldBy hheld hstarted (fun q' hq' => by
    obtain rfl : q = q' := Option.some.inj (hq.symm.trans hq')
    exact hsecs) hnow hreport
  refine ⟨⟨j, hnew, hheld, hstarted⟩, fun j' hj' => ?_⟩
  obtain rfl : j = j' := Option.some.inj (hnew.symm.trans hj')
  -- the queue's timeout is one of the settings no instruction changes
  have hqueue := hstep.queueChange j.queue
  rw [hq] at hqueue
  obtain ⟨q', hq', hsame, -⟩ := hqueue.persists
  exact ⟨q', hq', hsame.jobTimeoutSecs.trans hsecs⟩

/-- A committed claim starts a lease. -/
theorem Step.lease_of_claim {now : Int64} {ctx : WorkerJob Pubkey} {n : String} {s : UInt64}
    {q : QueueConfig Pubkey} {o : Outcome Pubkey} (h : Step D σ ⟨now, .claimJob ctx n s⟩ σ' o)
    (hq : σ.queueConfigs.lookup ctx.queueConfig = some q) :
    Lease σ' ctx.job ctx.worker now ∧ σ'.TimeoutAt ctx.job q.jobTimeoutSecs := by
  cases h with
  | claimJob valid pending claimed_eq =>
    refine ⟨⟨_, Finmap.lookup_insert _, ⟨rfl, rfl⟩, rfl⟩, fun j hj => ?_⟩
    obtain rfl := Option.some.inj ((Finmap.lookup_insert _).symm.trans hj)
    exact ⟨q, valid.job.queue.symm ▸ hq, rfl⟩

/-- From a claim of a job by `w` at time `now` on, whatever any party does while the clock is at
most `now + jobTimeoutSecs`, and unless `w` reports a result of the job, the job stays live,
Processing, assigned to `w` and started at `now`. -/
theorem lease_exclusive {calls₁ calls₂ : List (Call Pubkey)} {now : Int64}
    {ctx : WorkerJob Pubkey} {n : String} {s : UInt64} {q : QueueConfig Pubkey}
    {r : Ledger Pubkey × Outcome Pubkey}
    (hclaim : execute D ((program D).run calls₁) ⟨now, .claimJob ctx n s⟩ = .ok r)
    (hq : ((program D).run calls₁).queueConfigs.lookup ctx.queueConfig = some q)
    (hclock : ∀ c ∈ calls₂, c.now.toInt ≤ now.toInt + q.jobTimeoutSecs.toInt)
    (hreport : ∀ op ∈ opsOn ctx.job ((program D).logFrom r.1 calls₂),
      op.reporter ≠ some ctx.worker) :
    ∃ j, ((program D).run (calls₁ ++ ⟨now, .claimJob ctx n s⟩ :: calls₂)).jobs.lookup ctx.job =
        some j ∧ j.status = .processing ∧ j.assignedWorker = some ctx.worker ∧
        j.startedAt = some now := by
  have hstart := (execute_eq_ok.mp hclaim).lease_of_claim hq
  have hrun : (program D).run (calls₁ ++ ⟨now, .claimJob ctx n s⟩ :: calls₂) =
      (program D).runFrom r.1 calls₂ := Machine.run_append_cons_of_ok hclaim
  -- from the claim on, along the calls that commit
  have hkept := Machine.runFrom_induction_of_log (M := program D)
    (P := fun σ => Lease σ ctx.job ctx.worker now ∧ σ.TimeoutAt ctx.job q.jobTimeoutSecs)
    (Q := fun e => e.call.now.toInt ≤ now.toInt + q.jobTimeoutSecs.toInt ∧
      ∀ op, Entry.opOn ctx.job e = some op → op.reporter ≠ some ctx.worker)
    (fun σ c σ' o ⟨hlease, htimeout⟩ hok ⟨hnow, hreport⟩ =>
      hlease.step htimeout (execute_eq_ok.mp hok) hnow hreport)
    hstart calls₂ fun e he => ⟨hclock _ (Machine.call_mem_of_mem_logFrom he),
      fun op hop => hreport op (List.mem_filterMap.mpr ⟨e, he, hop⟩)⟩
  obtain ⟨⟨j, hj, hheld, hstarted⟩, -⟩ := hkept
  rw [hrun]
  exact ⟨j, hj, hheld.processing, hheld.assigned, hstarted⟩

/-- A minute's lease claimed at 2 outlasts an attempt to expire it at 62. -/
theorem lease_exclusive_minute :
    ∃ j, ((program Derivation.free).run
        [Sample.create 2 60, Sample.register Sample.worker, Sample.enqueue Sample.producer 0 none,
          Sample.claim 2 Sample.worker 0, Sample.expire 62 0]).jobs.lookup (Sample.job 0) = some j ∧
      j.status = .processing ∧ j.assignedWorker = some Sample.worker ∧ j.startedAt = some 2 := by
  have hclaim : execute Derivation.free ((program Derivation.free).run
      [Sample.create 2 60, Sample.register Sample.worker, Sample.enqueue Sample.producer 0 none])
      (Sample.claim 2 Sample.worker 0) = .ok _ := rfl
  have hclock : ∀ c ∈ [Sample.expire 62 0],
      c.now.toInt ≤ (2 : Int64).toInt + (60 : Int64).toInt := by
    decide
  exact lease_exclusive hclaim rfl hclock (by decide +kernel)

/-! ## After the lease -/

/-- At some clock, anybody can expire the job `j` at `a` and so return it to Pending. -/
def Expirable (D : Derivation Pubkey) (σ : Ledger Pubkey) (a : Pubkey) (j : Job Pubkey) : Prop :=
  ∃ now : Int64, ∀ caller : Pubkey, ∃ n s σ' o j',
    execute D σ ⟨now, .expireJob ⟨caller, j.queue, a⟩ n s⟩ = .ok (σ', o) ∧
      σ'.jobs.lookup a = some j' ∧ j'.status = .pending

/-- The start time of a job is the clock of a call of the run. -/
theorem startedAt_run (calls : List (Call Pubkey)) {a : Pubkey} {j : Job Pubkey} {t : Int64}
    (hj : ((program D).run calls).jobs.lookup a = some j) (ht : j.startedAt = some t) :
    ∃ c ∈ calls, c.now = t := by
  have hlog := step_induction (D := D)
    (P := fun log (σ : Ledger Pubkey) => ∀ a j t, σ.jobs.lookup a = some j →
      j.startedAt = some t → ∃ e ∈ log, e.call.now = t) (fun a j t hj => nomatch hj) ?_ calls
  · obtain ⟨e, he, rfl⟩ := hlog a j t hj ht
    exact ⟨e.call, Machine.call_mem_of_mem_logFrom he, rfl⟩
  · intro log σ c σ' o _ ih hstep a j' t hj' ht
    have hchange := hstep.jobChange a
    rw [hj'] at hchange
    have hold {j : Job Pubkey} (hj : σ.jobs.lookup a = some j) (ht : j.startedAt = some t) :
        ∃ e ∈ log ++ [⟨σ, c, o, σ'⟩], e.call.now = t := by
      obtain ⟨e, he, hnow⟩ := ih a j t hj ht
      exact ⟨e, List.mem_append_left _ he, hnow⟩
    -- only a claim sets the start time, to its own clock
    generalize hfound : σ.jobs.lookup a = old at hchange
    generalize Entry.opOn a ⟨σ, c, o, σ'⟩ = op at hchange
    cases hchange with
    | keep => exact hold hfound ht
    | enqueue | failRetry | expire => cases ht
    | claim pending active =>
      exact ⟨⟨σ, c, o, σ'⟩, List.mem_append_right _ List.mem_cons_self, Option.some.inj ht⟩
    | complete | failPermanent => exact hold hfound ht

/-- With clocks that are not negative, a Processing job can be expired at some clock exactly when
the exact deadline, its start plus the timeout of its queue, is below the last clock. -/
theorem expirable_iff_deadline (calls : List (Call Pubkey)) (hclock : ∀ c ∈ calls, 0 ≤ c.now.toInt)
    {a : Pubkey} {j : Job Pubkey} (hj : ((program D).run calls).jobs.lookup a = some j)
    (hstatus : j.status = .processing) :
    Expirable D ((program D).run calls) a j ↔
      ∃ t q, j.startedAt = some t ∧
        ((program D).run calls).queueConfigs.lookup j.queue = some q ∧
        t.toInt + q.jobTimeoutSecs.toInt < 2 ^ 63 - 1 := by
  obtain ⟨n, s, q, hfind, hq⟩ := (addressed_run calls).job a j hj
  obtain ⟨w, t, -, ht⟩ := (wellFormed_run calls hj).held hstatus
  constructor
  · rintro ⟨now, h⟩
    obtain ⟨n', s', σ', o, j', hok, -⟩ := h default
    cases execute_eq_ok.mp hok with
    | expireJob queue job processing expired =>
      obtain rfl := Option.some.inj (hj.symm.trans job.lookup)
      obtain ⟨-, t', ht', -, hpast⟩ := Job.isExpired_eq_ok_true.mp expired
      exact ⟨t', _, ht', queue.lookup, by have := now.toInt_lt; omega⟩
  · rintro ⟨t', q', ht', hq', hdeadline⟩
    obtain rfl : t = t' := Option.some.inj (ht.symm.trans ht')
    obtain rfl : q = q' := Option.some.inj (hq.lookup.symm.trans hq')
    -- the start is not negative, so the deadline does not underflow and has a next clock
    have hstart : 0 ≤ t.toInt := by
      obtain ⟨c, hc, rfl⟩ := startedAt_run calls hj ht
      exact hclock c hc
    have htimeout := q.jobTimeoutSecs.le_toInt
    obtain ⟨now, hnow⟩ : ∃ now : Int64, now.toInt = t.toInt + q.jobTimeoutSecs.toInt + 1 :=
      exists_toInt_eq_int64.mpr ⟨by omega, by omega⟩
    have hexpired : j.isExpired now q.jobTimeoutSecs = .ok true :=
      Job.isExpired_eq_ok_true.mpr ⟨hstatus, t, ht, by omega, by omega⟩
    -- one second past the deadline, whoever calls
    refine ⟨now, fun caller => ?_⟩
    have hstep : Step D ((program D).run calls) ⟨now, .expireJob ⟨caller, j.queue, a⟩ n s⟩ _ _ :=
      .expireJob hq ⟨hj, D.create_of_find hfind, rfl⟩ hstatus hexpired
    exact ⟨n, s, _, _, j.expired, execute_eq_ok.mpr hstep, Finmap.lookup_insert _, rfl⟩

/-- A job claimed at 2 on a queue with a minute's timeout can be expired. -/
theorem expirable_iff_deadline_minute :
    ∃ j, ((program Derivation.free).run [Sample.create 2 60, Sample.register Sample.worker,
        Sample.enqueue Sample.producer 0 none, Sample.claim 2 Sample.worker 0]).jobs.lookup
          (Sample.job 0) = some j ∧
      Expirable Derivation.free ((program Derivation.free).run [Sample.create 2 60,
        Sample.register Sample.worker, Sample.enqueue Sample.producer 0 none,
        Sample.claim 2 Sample.worker 0]) (Sample.job 0) j := by
  refine ⟨_, rfl, ?_⟩
  exact (expirable_iff_deadline [Sample.create 2 60, Sample.register Sample.worker,
    Sample.enqueue Sample.producer 0 none, Sample.claim 2 Sample.worker 0] (by decide) rfl
      rfl).mpr ⟨2, _, rfl, rfl, by decide⟩

/-- On a queue with the largest timeout, a job claimed at 2 can never be expired. -/
theorem not_expirable_of_max_timeout :
    ¬∀ calls : List (Call Key), (∀ c ∈ calls, 0 ≤ c.now.toInt) → ∀ a j,
      ((program Derivation.free).run calls).jobs.lookup a = some j → j.status = .processing →
      Expirable Derivation.free ((program Derivation.free).run calls) a j := by
  intro h
  obtain ⟨now, hnow⟩ := h [Sample.create 2 Int64.maxValue, Sample.register Sample.worker,
    Sample.enqueue Sample.producer 0 none, Sample.claim 2 Sample.worker 0] (by decide)
    (Sample.job 0) _ rfl rfl
  obtain ⟨n, s, σ', o, j', hok, -⟩ := hnow Sample.producer
  cases execute_eq_ok.mp hok with
  | expireJob queue job processing expired =>
    obtain rfl := Option.some.inj (show some _ = some _ from job.lookup)
    obtain rfl := Option.some.inj (show some _ = some _ from queue.lookup)
    obtain ⟨-, t, ht, -, hpast⟩ := Job.isExpired_eq_ok_true.mp expired
    obtain rfl : 2 = t := Option.some.inj ht
    have hlast := now.toInt_lt
    have hdeadline : (2 : Int64).toInt + Int64.maxValue.toInt = 2 ^ 63 + 1 := by decide
    change (2 : Int64).toInt + Int64.maxValue.toInt < now.toInt at hpast
    omega

end Runs

end SolQueue
