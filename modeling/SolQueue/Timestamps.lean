import SolQueue.Lease

/-!
# Timestamps

The times a job stores follow its life as long as the clock does not go back, and an expiry is later
than the claim it undoes as long as the timeout of the queue is not negative.

* `Job.Timely`, `timely_run`: the times of a job agree with its status and are in order.
* `claimTimes`, `startedAt_eq_getLast?`: a Processing job started at its last claim.
* `timestamps_follow_lifecycle`: both, and the durations that completions report.
* `expiry_after_claim`: when an expiry is later than the claim it undoes.
-/

namespace SolQueue

variable {Pubkey : Type}

/-! ## The times of a job -/

/-- The times of a job agree with its status, are in order and are not after `now`. -/
structure Job.Timely (j : Job Pubkey) (now : Int64) : Prop where
  started_iff : j.startedAt = none ↔ j.status = .pending
  completed_iff : j.completedAt.isSome ↔ j.status = .completed ∨ j.status = .failed
  enqueued_le : j.enqueuedAt.toInt ≤ now.toInt
  started_le : ∀ t, j.startedAt = some t → j.enqueuedAt.toInt ≤ t.toInt ∧ t.toInt ≤ now.toInt
  completed_le : ∀ t, j.completedAt = some t →
    (∃ s, j.startedAt = some s ∧ s.toInt ≤ t.toInt) ∧ t.toInt ≤ now.toInt

/-- Times in order stay so as the clock goes on. -/
theorem Job.Timely.mono {j : Job Pubkey} {now now' : Int64} (h : j.Timely now)
    (hnow : now.toInt ≤ now'.toInt) : j.Timely now' where
  started_iff := h.started_iff
  completed_iff := h.completed_iff
  enqueued_le := h.enqueued_le.trans hnow
  started_le t ht := ⟨(h.started_le t ht).1, (h.started_le t ht).2.trans hnow⟩
  completed_le t ht := ⟨(h.completed_le t ht).1, (h.completed_le t ht).2.trans hnow⟩

/-- Short of an outcome, no completion time is stored. -/
theorem Job.Timely.completedAt_eq_none {j : Job Pubkey} {now : Int64} (h : j.Timely now)
    (hstatus : j.status = .pending ∨ j.status = .processing) : j.completedAt = none := by
  rw [← Option.not_isSome_iff_eq_none, h.completed_iff]
  rcases hstatus with hstatus | hstatus <;> simp [hstatus]

/-- A Processing job has a start time. -/
theorem Job.Timely.exists_startedAt {j : Job Pubkey} {now : Int64} (h : j.Timely now)
    (hstatus : j.status = .processing) : ∃ t, j.startedAt = some t := by
  rw [← Option.ne_none_iff_exists', ne_eq, h.started_iff, hstatus]
  decide

variable [DecidableEq Pubkey]

/-- An operation at a time that is not before the times stored leaves the times in order. -/
theorem JobChange.timely {D : Derivation Pubkey} {σ : Ledger Pubkey} {now : Int64} {a : Pubkey}
    {op : Option (JobOp Pubkey)} {old : Option (Job Pubkey)} {j' : Job Pubkey}
    (h : JobChange D σ now a op old (some j')) (hold : ∀ j, old = some j → j.Timely now) :
    j'.Timely now := by
  cases h with
  | keep => exact hold _ rfl
  | enqueue => exact ⟨by simp [EnqueueJob.newJob], by simp [EnqueueJob.newJob], le_rfl,
      by rintro _ ⟨⟩, by rintro _ ⟨⟩⟩
  | @claim j w pending active =>
    have htimely := hold j rfl
    have hnone := htimely.completedAt_eq_none (.inl pending)
    refine ⟨by simp [Job.claimed], by simp [Job.claimed, hnone], htimely.enqueued_le, ?_, ?_⟩
    · rintro t ht
      obtain rfl : now = t := Option.some.inj ht
      exact ⟨htimely.enqueued_le, le_rfl⟩
    · intro t ht
      cases hnone.symm.trans ht
  | @complete j w result held active length =>
    have htimely := hold j rfl
    obtain ⟨s, hs⟩ := htimely.exists_startedAt held.processing
    refine ⟨by simp [Job.completedWith, hs], by simp [Job.completedWith], htimely.enqueued_le,
      htimely.started_le, ?_⟩
    rintro t ht
    obtain rfl : now = t := Option.some.inj ht
    exact ⟨⟨s, hs, (htimely.started_le s hs).2⟩, le_rfl⟩
  | @failPermanent j w reason retries held active retries_eq exhausted =>
    have htimely := hold j rfl
    obtain ⟨s, hs⟩ := htimely.exists_startedAt held.processing
    refine ⟨by simp [Job.failedFor, Job.withFailure, hs], by simp [Job.failedFor],
      htimely.enqueued_le, htimely.started_le, ?_⟩
    rintro t ht
    obtain rfl : now = t := Option.some.inj ht
    exact ⟨⟨s, hs, (htimely.started_le s hs).2⟩, le_rfl⟩
  | @failRetry j w reason retries held active retries_eq left =>
    have htimely := hold j rfl
    have hnone := htimely.completedAt_eq_none (.inr held.processing)
    exact ⟨by simp [Job.retried], by simp [Job.retried, Job.withFailure, hnone],
      htimely.enqueued_le, by rintro _ ⟨⟩, fun t ht => by cases hnone.symm.trans ht⟩
  | @expire j caller q queue processing expired =>
    have htimely := hold j rfl
    have hnone := htimely.completedAt_eq_none (.inr processing)
    exact ⟨by simp [Job.expired], by simp [Job.expired, hnone], htimely.enqueued_le,
      by rintro _ ⟨⟩, fun t ht => by cases hnone.symm.trans ht⟩

/-! ## Claims -/

/-- The time of a committed claim of the job at `a`, if the call is one. -/
def Entry.claimTime (a : Pubkey) (e : Entry Pubkey) : Option Int64 :=
  match e.opOn a with
  | some (.claim _) => some e.call.now
  | _ => none

/-- The times of the claims of the job at `a`, in the order they committed. -/
def claimTimes (a : Pubkey) (log : List (Entry Pubkey)) : List Int64 :=
  log.filterMap (Entry.claimTime a)

theorem claimTimes_snoc {a : Pubkey} {log : List (Entry Pubkey)} {e : Entry Pubkey} :
    claimTimes a (log ++ [e]) = claimTimes a log ++ (e.claimTime a).toList := by
  rw [claimTimes, List.filterMap_append, List.filterMap_cons, List.filterMap_nil]
  cases e.claimTime a <;> rfl

/-- The clock of the calls does not go back. -/
def ClockNondecreasing (calls : List (Call Pubkey)) : Prop :=
  calls.Pairwise fun c d => c.now.toInt ≤ d.now.toInt

/-- Whether the clock of the calls never goes back is decidable. -/
instance (calls : List (Call Pubkey)) : Decidable (ClockNondecreasing calls) := by
  unfold ClockNondecreasing
  infer_instance

section Runs

variable [Inhabited Pubkey] {D : Derivation Pubkey}

/-- In every run whose clock does not go back, the times of every job are in order. -/
theorem timely_run {calls : List (Call Pubkey)} (hclock : ClockNondecreasing calls) {now : Int64}
    (hnow : ∀ c ∈ calls, c.now.toInt ≤ now.toInt) {a : Pubkey} {j : Job Pubkey}
    (hj : ((program D).run calls).jobs.lookup a = some j) : j.Timely now := by
  -- the calls before the last one are not after it, and the last one is not after `now`
  induction calls using List.reverseRecOn generalizing now j with
  | nil => cases hj
  | append_singleton calls c ih =>
    rw [ClockNondecreasing, List.pairwise_append] at hclock
    obtain ⟨hclock, -, hlast⟩ := hclock
    have hc : c.now.toInt ≤ now.toInt := hnow c (by simp)
    cases hok : execute D ((program D).run calls) c with
    | error e =>
      rw [Machine.run_snoc_of_error hok] at hj
      exact ih hclock (fun d hd => hnow d (by simp [hd])) hj
    | ok r =>
      have hchange := (execute_eq_ok.mp hok).jobChange a
      rw [Machine.run_snoc_of_ok hok] at hj
      rw [hj] at hchange
      refine (hchange.timely fun i hi => ?_).mono hc
      exact ih hclock (fun d hd => hlast d hd c (by simp)) hi

/-- In every run, a Processing job started at its last claim. -/
theorem startedAt_eq_getLast? (calls : List (Call Pubkey)) :
    ∀ a j, ((program D).run calls).jobs.lookup a = some j → j.status = .processing →
      ∃ t, j.startedAt = some t ∧ (claimTimes a ((program D).log calls)).getLast? = some t := by
  refine step_induction (D := D)
    (P := fun log (σ : Ledger Pubkey) => ∀ a j, σ.jobs.lookup a = some j →
      j.status = .processing →
      ∃ t, j.startedAt = some t ∧ (claimTimes a log).getLast? = some t)
    (fun a j hj => nomatch hj) ?_ calls
  intro log σ c σ' o _ ih hstep a j' hj' hprocessing
  have hchange := hstep.jobChange a
  rw [hj'] at hchange
  rw [claimTimes_snoc, Entry.claimTime]
  -- a job is Processing after the step if it was claimed by it, or not touched
  generalize hfound : σ.jobs.lookup a = old at hchange
  generalize Entry.opOn a ⟨σ, c, o, σ'⟩ = op at hchange
  cases hchange with
  | keep => simpa using ih a j' hfound hprocessing
  | claim pending active => exact ⟨c.now, rfl, List.getLast?_concat⟩
  | enqueue | complete | failPermanent | failRetry | expire => cases hprocessing

/-- A committed completion whose job started no later than its clock reports no negative
duration. -/
theorem Step.duration_nonneg {σ σ' : Ledger Pubkey} {c : Call Pubkey} {o : Outcome Pubkey}
    (h : Step D σ c σ' o) (htimely : ∀ a j, σ.jobs.lookup a = some j → j.Timely c.now)
    {job worker : Pubkey} {seq : UInt64} {duration timestamp : Int64}
    (hevent : Event.jobCompleted job seq worker duration timestamp ∈ o.events) :
    0 ≤ duration.toInt := by
  cases h with
  | @completeJob _ _ _ _ _ _ _ j _ _ _ valid held length duration_eq =>
    cases List.mem_singleton.mp hevent
    have hj := htimely _ j valid.job.lookup
    obtain ⟨t, ht⟩ := hj.exists_startedAt held.processing
    have hle : t.toInt ≤ timestamp.toInt := (hj.started_le t ht).2
    rw [ht, Option.getD_some] at duration_eq
    omega
  | closeJob => cases hevent
  | _ => cases List.mem_singleton.mp hevent

/-- In every run whose clock does not go back: every live job has a start time unless it is Pending
and a completion time exactly if it is Completed or Failed, these times are in order and not after
any later clock, a Processing job started at its last claim, and no completion reports a negative
duration. -/
theorem timestamps_follow_lifecycle {calls : List (Call Pubkey)}
    (hclock : ClockNondecreasing calls) {now : Int64}
    (hnow : ∀ c ∈ calls, c.now.toInt ≤ now.toInt) :
    (∀ a j, ((program D).run calls).jobs.lookup a = some j →
      j.Timely now ∧ (j.status = .processing → ∃ t, j.startedAt = some t ∧
        (claimTimes a ((program D).log calls)).getLast? = some t)) ∧
    ∀ e ∈ (program D).log calls, ∀ job seq worker duration timestamp,
      Event.jobCompleted job seq worker duration timestamp ∈ e.out.events →
        0 ≤ duration.toInt := by
  refine ⟨fun a j hj => ⟨timely_run hclock hnow hj, startedAt_eq_getLast? calls a j hj⟩, ?_⟩
  intro e he job seq worker duration timestamp hevent
  obtain ⟨calls₁, hprefix, hbefore, -, hstep⟩ := step_of_mem_log he
  -- the calls before the completion are not after it
  have hclock₁ := hclock.sublist hprefix.sublist
  rw [List.pairwise_append] at hclock₁
  obtain ⟨hclock₁, -, hlast⟩ := hclock₁
  refine hstep.duration_nonneg (fun a j hj => ?_) hevent
  exact timely_run hclock₁ (fun c hc => hlast c hc e.call (by simp)) (hbefore ▸ hj)

/-- The third claim of the sample job is the one it has been processed since, and all that is stored
of it is in order at 71. -/
theorem timestamps_follow_lifecycle_day :
    ∃ j, ((program Derivation.free).run (Sample.day.take 8)).jobs.lookup (Sample.job 0) = some j ∧
      j.Timely 71 ∧ j.startedAt = some 70 ∧
      (claimTimes (Sample.job 0) ((program Derivation.free).log (Sample.day.take 8))).getLast? =
        some 70 := by
  obtain ⟨hjobs, -⟩ := timestamps_follow_lifecycle (D := Derivation.free)
    (show ClockNondecreasing (Sample.day.take 8) by decide)
    (show ∀ c ∈ Sample.day.take 8, c.now.toInt ≤ (71 : Int64).toInt by decide)
  obtain ⟨htimely, hclaim⟩ := hjobs (Sample.job 0) _ rfl
  obtain ⟨t, ht, hlast⟩ := hclaim rfl
  obtain rfl : 70 = t := Option.some.inj ht
  exact ⟨_, rfl, htimely, rfl, hlast⟩

/-! ## Expiries -/

/-- Somebody can expire the job at `a` at the clock `now`. -/
def ExpirableAt (D : Derivation Pubkey) (σ : Ledger Pubkey) (a : Pubkey) (now : Int64) : Prop :=
  ∃ (ctx : ExpireJob Pubkey) (n : String) (s : UInt64) (σ' : Ledger Pubkey) (o : Outcome Pubkey),
    ctx.job = a ∧ execute D σ ⟨now, .expireJob ctx n s⟩ = .ok (σ', o)

/-- A Processing job can be expired at the clocks past its deadline, if the deadline is in range. -/
theorem Addressed.expirableAt_iff {σ : Ledger Pubkey} (h : Addressed D σ) {a : Pubkey}
    {j : Job Pubkey} {q : QueueConfig Pubkey} {t now : Int64} (hj : σ.jobs.lookup a = some j)
    (hstatus : j.status = .processing) (ht : j.startedAt = some t)
    (hq : σ.queueConfigs.lookup j.queue = some q) :
    ExpirableAt D σ a now ↔ -2 ^ 63 ≤ t.toInt + q.jobTimeoutSecs.toInt ∧
      t.toInt + q.jobTimeoutSecs.toInt < now.toInt := by
  constructor
  · rintro ⟨ctx, n, s, σ', o, rfl, hok⟩
    cases execute_eq_ok.mp hok with
    | expireJob queue job processing expired =>
      obtain rfl := Option.some.inj (hj.symm.trans job.lookup)
      obtain rfl := Option.some.inj (hq.symm.trans (job.queue ▸ queue.lookup))
      obtain ⟨-, t', ht', hdeadline⟩ := Job.isExpired_eq_ok_true.mp expired
      obtain rfl : t = t' := Option.some.inj (ht.symm.trans ht')
      exact hdeadline
  · intro hdeadline
    obtain ⟨n, s, q', hfind, hq'⟩ := h.job a j hj
    obtain rfl := Option.some.inj (hq.symm.trans hq'.lookup)
    have hexpired : j.isExpired now q.jobTimeoutSecs = .ok true :=
      Job.isExpired_eq_ok_true.mpr ⟨hstatus, t, ht, hdeadline⟩
    have hstep : Step D σ ⟨now, .expireJob ⟨default, j.queue, a⟩ n s⟩ _ _ :=
      .expireJob hq' ⟨hj, D.create_of_find hfind, rfl⟩ hstatus hexpired
    exact ⟨_, n, s, _, _, rfl, execute_eq_ok.mpr hstep⟩

omit [Inhabited Pubkey] in
/-- An expiry whose queue has a timeout that is not negative is later than the start of the job it
returns. -/
theorem JobChange.startedAt_lt {σ : Ledger Pubkey} {now : Int64} {a caller : Pubkey}
    {old new : Option (Job Pubkey)} (h : JobChange D σ now a (some (.expire caller)) old new) :
    ∃ j q t, old = some j ∧ σ.queueConfigs.lookup j.queue = some q ∧ j.status = .processing ∧
      j.startedAt = some t ∧ (0 ≤ q.jobTimeoutSecs.toInt → t.toInt < now.toInt) := by
  cases h with
  | expire queue processing expired =>
    obtain ⟨-, t, ht, -, hpast⟩ := Job.isExpired_eq_ok_true.mp expired
    exact ⟨_, _, t, rfl, queue, processing, ht, fun hle => by omega⟩

/-- In every run: an expiry is later than the claim it undoes if the timeout of the queue is not
negative. A claim whose clock is not negative cannot be undone at that clock exactly if it is
not. -/
theorem expiry_after_claim (calls : List (Call Pubkey)) :
    (∀ (pre : List (Entry Pubkey)) (e : Entry Pubkey) (post : List (Entry Pubkey)),
      (program D).log calls = pre ++ e :: post → ∀ a caller, e.opOn a = some (.expire caller) →
        ∃ j q t, e.before.jobs.lookup a = some j ∧ e.before.queueConfigs.lookup j.queue = some q ∧
          (claimTimes a pre).getLast? = some t ∧
          (0 ≤ q.jobTimeoutSecs.toInt → t.toInt < e.call.now.toInt)) ∧
    ∀ (now : Int64) (ctx : WorkerJob Pubkey) (n : String) (s : UInt64) (σ' : Ledger Pubkey)
      (o : Outcome Pubkey) (q : QueueConfig Pubkey), 0 ≤ now.toInt →
      execute D ((program D).run calls) ⟨now, .claimJob ctx n s⟩ = .ok (σ', o) →
      ((program D).run calls).queueConfigs.lookup ctx.queueConfig = some q →
        (¬ExpirableAt D σ' ctx.job now ↔ 0 ≤ q.jobTimeoutSecs.toInt) := by
  constructor
  · intro pre e post hlog a caller hop
    obtain ⟨calls₁, calls₂, -, hpre, hbefore, hok, -⟩ := Machine.log_eq_append_cons hlog
    have hchange := (execute_eq_ok.mp hok).jobChange a
    rw [show Entry.opOn a ⟨e.before, e.call, e.out, e.after⟩ = _ from hop] at hchange
    obtain ⟨j, q, t, hj, hq, hprocessing, ht, hlt⟩ := hchange.startedAt_lt
    -- the start is the time of the last claim
    obtain ⟨t', ht', hlast⟩ := startedAt_eq_getLast? calls₁ a j (hbefore ▸ hj) hprocessing
    obtain rfl : t = t' := Option.some.inj (ht.symm.trans ht')
    exact ⟨j, q, t, hj, hq, hpre ▸ hlast, hlt⟩
  · intro now ctx n s σ' o q hnow hok hq
    obtain ⟨⟨j, hj, hheld, hstarted⟩, htimeout⟩ := (execute_eq_ok.mp hok).lease_of_claim hq
    obtain ⟨q', hq', hsecs⟩ := htimeout j hj
    have haddr : Addressed D σ' := (addressed_run calls).step (execute_eq_ok.mp hok)
    rw [haddr.expirableAt_iff hj hheld.processing hstarted hq', hsecs]
    have hle := q.jobTimeoutSecs.le_toInt
    omega

/-- On a queue with a minute's timeout, the sample job is not expired at the clock of a claim. -/
theorem expiry_after_claim_minute :
    ∃ σ' o, execute Derivation.free ((program Derivation.free).run (Sample.day.take 3))
        (Sample.claim 2 Sample.worker 0) = .ok (σ', o) ∧
      ¬ExpirableAt Derivation.free σ' (Sample.job 0) 2 := by
  have hclaim : execute Derivation.free ((program Derivation.free).run (Sample.day.take 3))
      (Sample.claim 2 Sample.worker 0) = .ok _ := rfl
  obtain ⟨-, hclaims⟩ := expiry_after_claim (D := Derivation.free) (Sample.day.take 3)
  exact ⟨_, _, hclaim, (hclaims 2 _ _ _ _ _ _ (by decide) hclaim rfl).mpr (by decide)⟩

/-- A job claimed on a queue with a timeout of `-1` and expired by the producer in the same
second. -/
def Sample.revoked : List (Call Key) :=
  [create 2 (-1), register worker, enqueue producer 0 none, claim 2 worker 0, expire 2 0]

/-- With a negative timeout, a claim is undone at the clock at which it was made. -/
theorem expired_at_claim_of_negative_timeout :
    ¬∀ calls : List (Call Key), ClockNondecreasing calls → (∀ c ∈ calls, 0 ≤ c.now.toInt) →
      ∀ (pre : List (Entry Key)) (e : Entry Key) (post : List (Entry Key)),
        (program Derivation.free).log calls = pre ++ e :: post →
        ∀ a caller, e.opOn a = some (.expire caller) → ∀ t,
          (claimTimes a pre).getLast? = some t → t.toInt < e.call.now.toInt := by
  intro h
  have hlast : ((program Derivation.free).log Sample.revoked)[4]?.map (fun e =>
      (Entry.opOn (Sample.job 0) e, e.call.now)) = some (some (.expire Sample.producer), 2) := by
    decide +kernel
  have hclaims : (claimTimes (Sample.job 0)
      (((program Derivation.free).log Sample.revoked).take 4)).getLast? = some 2 := by
    decide +kernel
  obtain ⟨e, he, hfields⟩ := Option.map_eq_some_iff.mp hlast
  obtain ⟨hop, hnow⟩ := Prod.mk.inj hfields
  have hlt := h Sample.revoked (by decide) (by decide) _ e _ (Machine.eq_take_append_cons he) _ _
    hop 2 hclaims
  rw [hnow] at hlt
  exact absurd hlt (by decide)

end Runs

end SolQueue
