import SolQueue.Lease
import SolQueue.WorkerStats

/-!
# When calls commit

A client derives the addresses of a queue, a job and a registry from a name, a number and a worker,
and passes them with the call. In every reachable ledger the call then commits exactly when the job
and the registry found there are as the instruction wants them: the checks of stored bumps, of
stored queue keys and of arithmetic never stand in the way.

* `Derived`: the keys a client derives; what is found at them passes the address checks.
* `Ledger.InRange`, `inRange_run`: no counter is about to overflow, as in every run of fewer than
  `2 ^ 64 - 1` calls.
* `success_conditions`: when claims, completions, expiries and closes commit.
-/

namespace SolQueue

open Checked

variable {Pubkey : Type} [DecidableEq Pubkey]

/-! ## Derived addresses -/

/-- The keys derived for the queue named `n`, the job `s` on it and the registry of `w` on it. -/
structure Derived (D : Derivation Pubkey) (n : String) (s : UInt64) (w k x a : Pubkey) :
    Prop where
  queue : ∃ b, D.findProgramAddress (.queue n.asBytes) = some (k, b)
  registry : ∃ b, D.findProgramAddress (.worker n.asBytes w) = some (x, b)
  job : ∃ b, D.findProgramAddress (.job n.asBytes s) = some (a, b)

section Addresses

variable {D : Derivation Pubkey} {σ : Ledger Pubkey} {n : String} {s : UInt64}
  {w k x a : Pubkey}

/-- A queue whose name has the bytes of `n` is found at the key derived for `n`. -/
theorem Derived.queueAt (h : Derived D n s w k x a) (haddr : Addressed D σ) {m : String}
    {k' : Pubkey} {q : QueueConfig Pubkey} (hq : QueueAt D σ m k' q)
    (hname : n.asBytes = m.asBytes) : k' = k ∧ QueueAt D σ n k q := by
  obtain ⟨b, hb⟩ := h.queue
  have hk := haddr.find_queue hq
  rw [← hname, hb] at hk
  obtain ⟨rfl, rfl⟩ := Prod.mk.inj (Option.some.inj hk)
  exact ⟨rfl, hq.lookup, D.create_of_find hb⟩

/-- A job found at the derived key passes the address checks. -/
theorem Derived.jobAt (h : Derived D n s w k x a) (haddr : Addressed D σ) {j : Job Pubkey}
    (hj : σ.jobs.lookup a = some j) : ∃ q, QueueAt D σ n k q ∧ JobAt D σ n s k a j := by
  obtain ⟨m, s', q, hfind, hq⟩ := haddr.job a j hj
  obtain ⟨b, hb⟩ := h.job
  obtain ⟨hname, rfl⟩ := Seeds.job.inj (D.find_injective hb hfind)
  obtain ⟨hk, hq⟩ := h.queueAt haddr hq hname
  exact ⟨q, hq, hj, hname ▸ D.create_of_find hfind, hk⟩

/-- A registry found at the derived key passes the address checks. -/
theorem Derived.registryAt (h : Derived D n s w k x a) (haddr : Addressed D σ)
    {r : WorkerRegistry Pubkey} (hr : σ.workerRegistries.lookup x = some r) :
    RegistryAt D σ n w k x r := by
  obtain ⟨m, q, hfind, hq⟩ := haddr.registry x r hr
  obtain ⟨b, hb⟩ := h.registry
  obtain ⟨hname, hworker⟩ := Seeds.worker.inj (D.find_injective hb hfind)
  obtain ⟨hk, -⟩ := h.queueAt haddr hq hname
  refine ⟨hr, ?_, hk⟩
  rw [hname, hworker]
  exact D.create_of_find hfind

end Addresses

/-! ## Counters in range -/

/-- No counter is about to overflow. -/
structure Ledger.InRange (σ : Ledger Pubkey) : Prop where
  queue : ∀ k q, σ.queueConfigs.lookup k = some q → ∀ x : QueueStat,
    (x.of q).toNat < 2 ^ 64 - 1
  worker : ∀ k r, σ.workerRegistries.lookup k = some r → ∀ x : WorkerStat,
    (x.of r).toNat < 2 ^ 64 - 1

section Runs

variable [Inhabited Pubkey] {D : Derivation Pubkey}

/-- A log has at most as many entries of any kind as there were calls. -/
theorem countOps_log_le (calls : List (Call Pubkey)) (p : Job Pubkey → JobOp Pubkey → Bool) :
    countOps p ((program D).log calls) ≤ calls.length := by
  have hlog : (((program D).log calls).map (·.call)).length ≤ calls.length :=
    Machine.map_call_logFrom_sublist.length_le
  rw [List.length_map] at hlog
  exact List.countP_le_length.trans hlog

/-- Counters are in range in every run short of the last `u64`. -/
theorem inRange_run (calls : List (Call Pubkey)) (h : calls.length < 2 ^ 64 - 1) :
    ((program D).run calls).InRange := by
  refine ⟨fun k q hq x => ?_, fun k r hr x => ?_⟩
  · rw [queueStat_of_run calls hq x]
    exact (countOps_log_le calls _).trans_lt h
  · rw [← workerStat_eq (addressed_run calls) x hr, workerStat_run]
    exact (countOps_log_le calls _).trans_lt h

end Runs

/-! ## Calls -/

section Calls

variable [Inhabited Pubkey] {D : Derivation Pubkey} {σ : Ledger Pubkey} {n : String} {s : UInt64}
  {w k x a : Pubkey} {now : Int64}

/-- The call commits. -/
def Commits (D : Derivation Pubkey) (σ : Ledger Pubkey) (c : Call Pubkey) : Prop :=
  ∃ r, execute D σ c = .ok r

/-- The registry at `x` is live and active. -/
def Ledger.ActiveAt (σ : Ledger Pubkey) (x : Pubkey) : Prop :=
  ∃ r, σ.workerRegistries.lookup x = some r ∧ r.isActive = true

/-- When a claim commits. -/
theorem claimJob_commits_iff (haddr : Addressed D σ) (hrange : σ.InRange)
    (h : Derived D n s w k x a) :
    Commits D σ ⟨now, .claimJob ⟨w, k, x, a⟩ n s⟩ ↔
      (∃ j, σ.jobs.lookup a = some j ∧ j.status = .pending) ∧ σ.ActiveAt x := by
  constructor
  · rintro ⟨⟨σ', o⟩, hok⟩
    cases execute_eq_ok.mp hok with
    | claimJob valid pending claimed_eq =>
      exact ⟨⟨_, valid.job.lookup, pending⟩, _, valid.registry.lookup, valid.active⟩
  · rintro ⟨⟨j, hj, hpending⟩, r, hr, hactive⟩
    obtain ⟨q, hq, hjobAt⟩ := h.jobAt haddr hj
    have hclaimed : r.jobsClaimed.toNat < 2 ^ 64 - 1 := hrange.worker x r hr .claimed
    obtain ⟨claimed, hclaimed⟩ :=
      exists_toNat_eq_uint64.mpr (show r.jobsClaimed.toNat + 1 < 2 ^ 64 by omega)
    exact ⟨_, execute_eq_ok.mpr
      (.claimJob ⟨hq, h.registryAt haddr hr, hactive, hjobAt⟩ hpending hclaimed)⟩

/-- When a completion commits. -/
theorem completeJob_commits_iff (haddr : Addressed D σ) (hrange : σ.InRange)
    (h : Derived D n s w k x a) (hnow : 0 ≤ now.toInt)
    (hstarted : ∀ j, σ.jobs.lookup a = some j → ∀ t, j.startedAt = some t → 0 ≤ t.toInt)
    {params : CompleteJobParams} :
    Commits D σ ⟨now, .completeJob ⟨w, k, x, a⟩ n s params⟩ ↔
      (∃ j, σ.jobs.lookup a = some j ∧ j.status = .processing ∧ j.assignedWorker = some w) ∧
        σ.ActiveAt x ∧ params.result.length ≤ 128 := by
  constructor
  · rintro ⟨⟨σ', o⟩, hok⟩
    cases execute_eq_ok.mp hok with
    | completeJob valid held length duration_eq total_eq completed_eq =>
      exact ⟨⟨_, valid.job.lookup, held.processing, held.assigned⟩,
        ⟨_, valid.registry.lookup, valid.active⟩, length⟩
  · rintro ⟨⟨j, hj, hprocessing, hassigned⟩, ⟨r, hr, hactive⟩, hlength⟩
    obtain ⟨q, hq, hjobAt⟩ := h.jobAt haddr hj
    have htotal : q.totalCompleted.toNat < 2 ^ 64 - 1 := hrange.queue k q hq.lookup .completed
    have hcompleted : r.jobsCompleted.toNat < 2 ^ 64 - 1 := hrange.worker x r hr .completed
    obtain ⟨total, htotal⟩ :=
      exists_toNat_eq_uint64.mpr (show q.totalCompleted.toNat + 1 < 2 ^ 64 by omega)
    obtain ⟨completed, hcompleted⟩ :=
      exists_toNat_eq_uint64.mpr (show r.jobsCompleted.toNat + 1 < 2 ^ 64 by omega)
    -- the difference of two times that are not negative is in range
    have hstart : 0 ≤ (j.startedAt.getD now).toInt := by
      cases ht : j.startedAt with
      | none => exact hnow
      | some t => exact hstarted j hj t ht
    have hlast := now.toInt_lt
    have hlast' := (j.startedAt.getD now).toInt_lt
    obtain ⟨duration, hduration⟩ : ∃ duration : Int64,
        duration.toInt = now.toInt - (j.startedAt.getD now).toInt :=
      exists_toInt_eq_int64.mpr ⟨by omega, by omega⟩
    exact ⟨_, execute_eq_ok.mpr (.completeJob ⟨hq, h.registryAt haddr hr, hactive, hjobAt⟩
      ⟨hprocessing, hassigned⟩ hlength hduration htotal hcompleted)⟩

/-- When an expiry commits. -/
theorem expireJob_commits_iff (haddr : Addressed D σ) (h : Derived D n s w k x a)
    (hstarted : ∀ j, σ.jobs.lookup a = some j → ∀ t, j.startedAt = some t → 0 ≤ t.toInt) :
    Commits D σ ⟨now, .expireJob ⟨w, k, a⟩ n s⟩ ↔
      ∃ j q t, σ.jobs.lookup a = some j ∧ j.status = .processing ∧
        σ.queueConfigs.lookup k = some q ∧ j.startedAt = some t ∧
        t.toInt + q.jobTimeoutSecs.toInt < now.toInt := by
  constructor
  · rintro ⟨⟨σ', o⟩, hok⟩
    cases execute_eq_ok.mp hok with
    | expireJob queue job processing expired =>
      obtain ⟨-, t, ht, -, hpast⟩ := Job.isExpired_eq_ok_true.mp expired
      exact ⟨_, _, t, job.lookup, processing, queue.lookup, ht, hpast⟩
  · rintro ⟨j, q, t, hj, hprocessing, hq, ht, hpast⟩
    obtain ⟨q', hq', hjobAt⟩ := h.jobAt haddr hj
    obtain rfl : q = q' := Option.some.inj (hq.symm.trans hq'.lookup)
    -- a start that is not negative keeps the deadline from underflowing
    have hstart := hstarted j hj t ht
    have htimeout := q.jobTimeoutSecs.le_toInt
    have hexpired : j.isExpired now q.jobTimeoutSecs = .ok true :=
      Job.isExpired_eq_ok_true.mpr ⟨hprocessing, t, ht, by omega, hpast⟩
    exact ⟨_, execute_eq_ok.mpr (.expireJob hq' hjobAt hprocessing hexpired)⟩

/-- When a close commits. -/
theorem closeJob_commits_iff (haddr : Addressed D σ) (h : Derived D n s w k x a) :
    Commits D σ ⟨now, .closeJob ⟨w, k, a⟩ n s⟩ ↔
      ∃ j, σ.jobs.lookup a = some j ∧ (j.status = .completed ∨ j.status = .failed) ∧
        j.creator = w := by
  constructor
  · rintro ⟨⟨σ', o⟩, hok⟩
    cases execute_eq_ok.mp hok with
    | closeJob queue job creator finished => exact ⟨_, job.lookup, finished, creator⟩
  · rintro ⟨j, hj, hfinished, hcreator⟩
    obtain ⟨q, hq, hjobAt⟩ := h.jobAt haddr hj
    exact ⟨_, execute_eq_ok.mpr (.closeJob hq hjobAt hcreator hfinished)⟩

/-- In every reachable ledger with counters in range and clocks that are not negative, and with the
keys derived for the queue `n`, the job `s` and the signer `w`: a claim commits exactly when the
job is Pending and the signer's registry active; a completion exactly when the signer holds the
job, their registry is active and the result fits; an expiry exactly when the job is Processing and
the exact deadline has passed; and a close exactly when the job is finished and the signer created
it. -/
theorem success_conditions (calls : List (Call Pubkey)) (hclock : ∀ c ∈ calls, 0 ≤ c.now.toInt)
    (hrange : ((program D).run calls).InRange) (h : Derived D n s w k x a)
    (hnow : 0 ≤ now.toInt) :
    (Commits D ((program D).run calls) ⟨now, .claimJob ⟨w, k, x, a⟩ n s⟩ ↔
      (∃ j, ((program D).run calls).jobs.lookup a = some j ∧ j.status = .pending) ∧
        ((program D).run calls).ActiveAt x) ∧
    (∀ params, Commits D ((program D).run calls) ⟨now, .completeJob ⟨w, k, x, a⟩ n s params⟩ ↔
      (∃ j, ((program D).run calls).jobs.lookup a = some j ∧ j.status = .processing ∧
          j.assignedWorker = some w) ∧
        ((program D).run calls).ActiveAt x ∧ params.result.length ≤ 128) ∧
    (Commits D ((program D).run calls) ⟨now, .expireJob ⟨w, k, a⟩ n s⟩ ↔
      ∃ j q t, ((program D).run calls).jobs.lookup a = some j ∧ j.status = .processing ∧
        ((program D).run calls).queueConfigs.lookup k = some q ∧ j.startedAt = some t ∧
        t.toInt + q.jobTimeoutSecs.toInt < now.toInt) ∧
    (Commits D ((program D).run calls) ⟨now, .closeJob ⟨w, k, a⟩ n s⟩ ↔
      ∃ j, ((program D).run calls).jobs.lookup a = some j ∧
        (j.status = .completed ∨ j.status = .failed) ∧ j.creator = w) := by
  have haddr : Addressed D ((program D).run calls) := addressed_run calls
  have hstarted : ∀ j, ((program D).run calls).jobs.lookup a = some j →
      ∀ t, j.startedAt = some t → 0 ≤ t.toInt := by
    intro j hj t ht
    obtain ⟨c, hc, rfl⟩ := startedAt_run calls hj ht
    exact hclock c hc
  exact ⟨claimJob_commits_iff haddr hrange h,
    fun params => completeJob_commits_iff haddr hrange h hnow hstarted,
    expireJob_commits_iff haddr h hstarted, closeJob_commits_iff haddr h⟩

/-- The sample worker can claim the job the sample producer has just enqueued. -/
theorem success_conditions_claim :
    Commits Derivation.free ((program Derivation.free).run
      [Sample.create 2 60, Sample.register Sample.worker, Sample.enqueue Sample.producer 0 none])
      (Sample.claim 2 Sample.worker 0) := by
  have hderived : Derived Derivation.free Sample.name 0 Sample.worker Sample.queue
      (Sample.registry Sample.worker) (Sample.job 0) := ⟨⟨255, rfl⟩, ⟨255, rfl⟩, ⟨255, rfl⟩⟩
  have hnow : 0 ≤ (2 : Int64).toInt := by decide
  refine (success_conditions _ ?_ (inRange_run _ ?_) hderived hnow).1.mpr
    ⟨⟨_, rfl, rfl⟩, _, rfl, rfl⟩
  all_goals decide

end Calls

end SolQueue
