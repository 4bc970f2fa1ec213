import SolQueue.Lifecycle
import Mathlib.Data.List.DropRight

/-!
# Retries

A job counts its failures in a `u8` and carries its limit in another. In every run the count is the
number of `failJob` calls that committed since the job was enqueued, and the job is Failed exactly
when the count has passed the limit by one. The holder of a job can report a failure whenever the
limit is not the last `u8`, which the log line of `failJob` cannot be incremented from.

* `failuresSinceEnqueue`: the failures reported on a job in its current life.
* `RetryAccount`, `retry_accounting`: the count, the limit and the status agree with them.
* `ReportsFailure`, `failJob_ok_iff_maxRetries`: when the holder of a job can report a failure.
-/

namespace SolQueue

open Checked

/-! ## Failures of a job -/

section Failures

variable {W : Type}

/-- The operation reports a failure. -/
def JobOp.isFail : JobOp W → Bool
  | .fail _ _ => true
  | _ => false

/-- The failures reported since the last enqueue. -/
def failuresSinceEnqueue (ops : List (JobOp W)) : ℕ :=
  (ops.rtakeWhile fun op => !op.isEnqueue).countP JobOp.isFail

variable {ops : List (JobOp W)} {op : JobOp W}

/-- A job starts without failures. -/
theorem failuresSinceEnqueue_enqueue (h : op.isEnqueue) :
    failuresSinceEnqueue (ops ++ [op]) = 0 := by
  rw [failuresSinceEnqueue, List.rtakeWhile_concat_neg _ _ _ (by simp [h]), List.countP_nil]

/-- Every later operation counts if it is a failure. -/
theorem failuresSinceEnqueue_snoc (h : op.isEnqueue = false) :
    failuresSinceEnqueue (ops ++ [op]) = failuresSinceEnqueue ops + op.isFail.toNat := by
  rw [failuresSinceEnqueue, List.rtakeWhile_concat_pos _ _ _ (by simp [h]), List.countP_append,
    List.countP_singleton, failuresSinceEnqueue]
  cases op.isFail <;> rfl

end Failures

variable {Pubkey : Type} [DecidableEq Pubkey]

/-- The retry count of the job `j`, its limit and its status agree with the operations on it. -/
structure RetryAccount (ops : List (JobOp Pubkey)) (j : Job Pubkey) : Prop where
  retries_eq : j.retryCount.toNat = failuresSinceEnqueue ops
  retries_le : j.retryCount.toNat ≤ j.maxRetries.toNat + 1
  failed_iff : j.status = .failed ↔ j.retryCount.toNat = j.maxRetries.toNat + 1
  retries_le_max : j.status ≠ .failed → j.retryCount.toNat ≤ j.maxRetries.toNat

namespace JobChange

variable {D : Derivation Pubkey} {σ : Ledger Pubkey} {now : Int64} {a : Pubkey}
  {op : Option (JobOp Pubkey)} {old : Option (Job Pubkey)} {j' : Job Pubkey}

/-- Every operation keeps the retry count equal to the failures since the enqueue. -/
theorem retries_eq (h : JobChange D σ now a op old (some j')) {ops : List (JobOp Pubkey)}
    (hold : ∀ j, old = some j → j.retryCount.toNat = failuresSinceEnqueue ops) :
    j'.retryCount.toNat = failuresSinceEnqueue (ops ++ op.toList) := by
  cases h with
  | keep => simpa using hold _ rfl
  | enqueue => exact (failuresSinceEnqueue_enqueue rfl).symm
  | claim | complete | expire =>
    rw [Option.toList_some, failuresSinceEnqueue_snoc rfl, ← hold _ rfl]
    rfl
  | failPermanent held active retries_eq | failRetry held active retries_eq =>
    -- permanent or not, a failure adds one to both
    rw [Option.toList_some, failuresSinceEnqueue_snoc rfl, ← hold _ rfl]
    exact retries_eq

/-- Only a failure changes the retry count of a job. -/
theorem retryCount_of_not_fail {j : Job Pubkey} (h : JobChange D σ now a op (some j) (some j'))
    (hop : ∀ w p, op ≠ some (.fail w p)) : j'.retryCount = j.retryCount := by
  cases h with
  | keep | claim | complete | expire => rfl
  | failPermanent | failRetry => exact absurd rfl (hop _ _)

/-- A job becomes Failed only by a failure. -/
theorem fail_of_failed (h : JobChange D σ now a op old (some j')) (hfailed : j'.status = .failed)
    (hold : old.map (·.status) ≠ some .failed) : ∃ w p, op = some (.fail w p) := by
  cases h with
  | keep => exact absurd (congrArg some hfailed) hold
  | failPermanent => exact ⟨_, _, rfl⟩
  | enqueue | claim | complete | failRetry | expire => cases hfailed

/-- A failure finds a job that is not Failed. -/
theorem not_failed_of_fail {w : Pubkey} {p : Bool}
    (h : JobChange D σ now a (some (.fail w p)) old (some j')) :
    old.map (·.status) ≠ some .failed := by
  cases h with
  | failPermanent held | failRetry held =>
    rw [Option.map_some, held.processing]
    decide

end JobChange

section Runs

variable [Inhabited Pubkey] {D : Derivation Pubkey}

/-- In every run, the retry count of a job is the number of failures since its enqueue. -/
theorem retries_run (calls : List (Call Pubkey)) :
    ∀ a j, ((program D).run calls).jobs.lookup a = some j →
      j.retryCount.toNat = failuresSinceEnqueue (opsOn a ((program D).log calls)) := by
  refine step_induction (D := D)
    (P := fun log (σ : Ledger Pubkey) => ∀ a j, σ.jobs.lookup a = some j →
      j.retryCount.toNat = failuresSinceEnqueue (opsOn a log)) (fun a j hj => nomatch hj) ?_ calls
  intro log σ c σ' o _ ih hstep a j' hj'
  have hchange := hstep.jobChange a
  rw [hj'] at hchange
  rw [opsOn_snoc]
  exact hchange.retries_eq (ih a)

/-- The accounts of every run are in order. -/
theorem retryAccount_run (calls : List (Call Pubkey)) {a : Pubkey} {j : Job Pubkey}
    (hj : ((program D).run calls).jobs.lookup a = some j) :
    RetryAccount (opsOn a ((program D).log calls)) j := by
  have hwf := wellFormed_run calls hj
  exact ⟨retries_run calls a j hj, hwf.retries_le, hwf.failed_iff, hwf.retries_le_max⟩

/-- In every run: the retry count of a live job is the number of failures reported since it was
enqueued, at most one more than its limit, which it exceeds exactly when the job is Failed. Among
the calls that committed only failures change the count, and a job becomes Failed exactly by the
failure that is one more than its limit allows. -/
theorem retry_accounting (calls : List (Call Pubkey)) :
    (∀ a j, ((program D).run calls).jobs.lookup a = some j →
      RetryAccount (opsOn a ((program D).log calls)) j) ∧
    ∀ (pre : List (Entry Pubkey)) (e : Entry Pubkey) (post : List (Entry Pubkey)),
      (program D).log calls = pre ++ e :: post → ∀ a j, e.after.jobs.lookup a = some j →
        (∀ j₀, e.before.jobs.lookup a = some j₀ → (∀ w p, e.opOn a ≠ some (.fail w p)) →
          j.retryCount = j₀.retryCount) ∧
        (j.status = .failed ∧ e.before.statusAt a ≠ some .failed ↔
          (∃ w p, e.opOn a = some (.fail w p)) ∧
            failuresSinceEnqueue (opsOn a (pre ++ [e])) = j.maxRetries.toNat + 1) := by
  refine ⟨fun a j hj => retryAccount_run calls hj, fun pre e post hlog a j hj => ?_⟩
  obtain ⟨calls₁, calls₂, -, hpre, hbefore, hstep, -⟩ := Machine.log_eq_append_cons hlog
  have hchange := (execute_eq_ok.mp hstep).jobChange a
  rw [hj] at hchange
  -- the failures up to and with this call, as counted in the job it leaves
  have hcount : j.retryCount.toNat = failuresSinceEnqueue (opsOn a (pre ++ [e])) := by
    rw [opsOn_snoc, ← hpre]
    exact hchange.retries_eq (hbefore ▸ retries_run calls₁ a)
  have hfailed : j.status = .failed ↔ j.retryCount.toNat = j.maxRetries.toNat + 1 := by
    refine (hchange.wellFormed fun j₀ hj₀ => ?_).failed_iff
    exact wellFormed_run calls₁ (hbefore ▸ hj₀)
  rw [← hcount, ← hfailed]
  refine ⟨fun j₀ hj₀ hop => ?_, ?_, ?_⟩
  · rw [hj₀] at hchange
    exact hchange.retryCount_of_not_fail hop
  · rintro ⟨hstatus, hold⟩
    exact ⟨hchange.fail_of_failed hstatus hold, hstatus⟩
  · rintro ⟨⟨w, p, hop⟩, hstatus⟩
    exact ⟨hstatus, JobChange.not_failed_of_fail (hop ▸ hchange)⟩

/-- A job that fails, expires and fails for good. -/
def Sample.twoFailures : List (Call Key) :=
  [create 1 60, register worker, enqueue producer 0 none, claim 2 worker 0, fail 3 worker 0,
    claim 4 worker 0, expire 65 0, claim 70 worker 0, fail 71 worker 0]

/-- With one retry, the sample job is Failed by its second failure. -/
theorem retry_accounting_twoFailures :
    (∃ j, ((program Derivation.free).run Sample.twoFailures).jobs.lookup (Sample.job 0) = some j ∧
      RetryAccount (opsOn (Sample.job 0) ((program Derivation.free).log Sample.twoFailures)) j) ∧
    ∃ pre e post, (program Derivation.free).log Sample.twoFailures = pre ++ e :: post ∧
      (∃ w p, Entry.opOn (Sample.job 0) e = some (.fail w p)) ∧
      failuresSinceEnqueue (opsOn (Sample.job 0) (pre ++ [e])) = 2 := by
  obtain ⟨haccount, hentry⟩ := retry_accounting (D := Derivation.free) Sample.twoFailures
  refine ⟨⟨_, rfl, haccount (Sample.job 0) _ rfl⟩, ?_⟩
  have hlast : ((program Derivation.free).log Sample.twoFailures)[8]?.map (fun e =>
      (Ledger.statusAt e.before (Sample.job 0),
        (e.after.jobs.lookup (Sample.job 0)).map fun j => (j.status, j.maxRetries))) =
      some (some .processing, some (.failed, 1)) := by decide +kernel
  obtain ⟨e, he, hfields⟩ := Option.map_eq_some_iff.mp hlast
  obtain ⟨hbefore, hafter⟩ := Prod.mk.inj hfields
  obtain ⟨j, hj, hfields⟩ := Option.map_eq_some_iff.mp hafter
  obtain ⟨hstatus, hmax⟩ := Prod.mk.inj hfields
  obtain ⟨pre, post, hlog⟩ := List.append_of_mem (List.mem_of_getElem? he)
  obtain ⟨-, hfailed⟩ := hentry pre e post hlog (Sample.job 0) j hj
  rw [hmax] at hfailed
  exact ⟨pre, e, post, hlog, hfailed.mp ⟨hstatus, by rw [hbefore]; decide⟩⟩

/-! ## Reporting a failure -/

/-- At time `now` the worker `w`, with the registry at `k`, can report a failure of the job `j` at
`a` for the given reason: the call commits, counts one failure and leaves the job Pending or
Failed. -/
def ReportsFailure (D : Derivation Pubkey) (σ : Ledger Pubkey) (now : Int64) (reason : String)
    (w k a : Pubkey) (j : Job Pubkey) : Prop :=
  ∃ n s σ' o j', execute D σ ⟨now, .failJob ⟨w, j.queue, k, a⟩ n s ⟨reason⟩⟩ = .ok (σ', o) ∧
    σ'.jobs.lookup a = some j' ∧ (j'.status = .pending ∨ j'.status = .failed) ∧
      j'.retryCount.toNat = j.retryCount.toNat + 1

/-- No failure commits on a job whose limit is the last `u8`: either the count or the number of
attempts in the log line would overflow. -/
theorem Step.maxRetries_ne {σ σ' : Ledger Pubkey} {o : Outcome Pubkey} {now : Int64}
    {ctx : WorkerJob Pubkey} {n : String} {s : UInt64} {params : FailJobParams} {j : Job Pubkey}
    (h : Step D σ ⟨now, .failJob ctx n s params⟩ σ' o) (hj : σ.jobs.lookup ctx.job = some j) :
    j.maxRetries ≠ 255 := by
  intro hmax
  have hlimit : j.maxRetries.toNat = 255 := congrArg UInt8.toNat hmax
  cases h with
  -- the count has passed the limit, but no `u8` is above 255
  | @failJobPermanent _ _ _ _ _ _ _ _ retries _ _ valid held retries_eq failed_eq exhausted =>
    obtain rfl := Option.some.inj (hj.symm.trans valid.job.lookup)
    have hlt := retries.toNat_lt
    omega
  -- the log line has printed the limit plus one
  | failJobRetry valid held retries_eq failed_eq left attempts =>
    obtain rfl := Option.some.inj (hj.symm.trans valid.job.lookup)
    omega

/-- In every run, the worker that holds a job and is active on its queue can report a failure of it
exactly when the retry limit of the job is not 255. -/
theorem failJob_ok_iff_maxRetries (calls : List (Call Pubkey)) {a k w : Pubkey} {j : Job Pubkey}
    {r : WorkerRegistry Pubkey} {q : QueueConfig Pubkey}
    (hj : ((program D).run calls).jobs.lookup a = some j) (hheld : j.HeldBy w)
    (hr : ((program D).run calls).workerRegistries.lookup k = some r) (hqueue : r.queue = j.queue)
    (hworker : r.worker = w) (hactive : r.isActive = true)
    (hq : ((program D).run calls).queueConfigs.lookup j.queue = some q)
    (hfailed : r.jobsFailed.toNat < 2 ^ 64 - 1) (htotal : q.totalFailed.toNat < 2 ^ 64 - 1)
    (now : Int64) (reason : String) :
    ReportsFailure D ((program D).run calls) now reason w k a j ↔ j.maxRetries ≠ 255 := by
  constructor
  · rintro ⟨n, s, σ', o, j', hok, -⟩
    exact (execute_eq_ok.mp hok).maxRetries_ne hj
  · intro hmax
    have hlimit : j.maxRetries.toNat < 255 := by
      have hne : j.maxRetries.toNat ≠ 255 := fun h => hmax (UInt8.toNat_inj.mp h)
      have := j.maxRetries.toNat_lt
      omega
    -- the job is not Failed, so its count is within its limit and both sums fit a `u8`
    have hle : j.retryCount.toNat ≤ j.maxRetries.toNat :=
      (wellFormed_run calls hj).retries_le_max (by simp [hheld.processing])
    obtain ⟨n, s, hvalid⟩ := (addressed_run calls).exists_valid hj hq hr hqueue hactive
    rw [hworker] at hvalid
    obtain ⟨retries, hretries⟩ : ∃ retries : UInt8, retries.toNat = j.retryCount.toNat + 1 :=
      exists_toNat_eq_uint8.mpr (by omega)
    obtain ⟨failed, hfailed_eq⟩ : ∃ failed : UInt64, failed.toNat = r.jobsFailed.toNat + 1 :=
      exists_toNat_eq_uint64.mpr (by omega)
    by_cases hleft : retries.toNat ≤ j.maxRetries.toNat
    · have hstep : Step D ((program D).run calls) ⟨now, .failJob _ n s ⟨reason⟩⟩ _ _ :=
        .failJobRetry hvalid hheld hretries hfailed_eq hleft (by omega)
      exact ⟨n, s, _, _, _, execute_eq_ok.mpr hstep, Finmap.lookup_insert _, .inl rfl, hretries⟩
    · obtain ⟨total, htotal_eq⟩ : ∃ total : UInt64, total.toNat = q.totalFailed.toNat + 1 :=
        exists_toNat_eq_uint64.mpr (by omega)
      have hstep : Step D ((program D).run calls) ⟨now, .failJob _ n s ⟨reason⟩⟩ _ _ :=
        .failJobPermanent hvalid hheld hretries hfailed_eq (by omega) htotal_eq
      exact ⟨n, s, _, _, _, execute_eq_ok.mpr hstep, Finmap.lookup_insert _, .inr rfl, hretries⟩

/-- A job of the sample queue, held by the sample worker. -/
def Sample.held (maxRetries : UInt8) : List (Call Key) :=
  [create maxRetries 60, register worker, enqueue producer 0 none, claim 2 worker 0]

theorem Sample.exists_held {m : UInt8} (hm : m ∈ [2, 255]) :
    ∃ j r q, ((program Derivation.free).run (held m)).jobs.lookup (job 0) = some j ∧
      ((program Derivation.free).run (held m)).workerRegistries.lookup (registry worker) =
        some r ∧
      ((program Derivation.free).run (held m)).queueConfigs.lookup j.queue = some q ∧
      j.HeldBy worker ∧ j.maxRetries = m ∧ r.queue = j.queue ∧ r.worker = worker ∧
      r.isActive = true ∧ r.jobsFailed = 0 ∧ q.totalFailed = 0 := by
  have hjob : ∀ m ∈ [2, 255],
      (((program Derivation.free).run (held m)).jobs.lookup (job 0)).map
        (fun j => (j.status, j.assignedWorker, j.maxRetries, j.queue)) =
      some (.processing, some worker, m, queue) := by decide +kernel
  have hregistry : ∀ m ∈ [2, 255],
      (((program Derivation.free).run (held m)).workerRegistries.lookup (registry worker)).map
        (fun r => (r.queue, r.worker, r.isActive, r.jobsFailed)) =
      some (queue, worker, true, 0) := by decide +kernel
  have hqueue : ∀ m ∈ [2, 255],
      (((program Derivation.free).run (held m)).queueConfigs.lookup queue).map (·.totalFailed) =
      some 0 := by decide +kernel
  obtain ⟨j, hj, hfields⟩ := Option.map_eq_some_iff.mp (hjob m hm)
  obtain ⟨r, hr, hfields'⟩ := Option.map_eq_some_iff.mp (hregistry m hm)
  obtain ⟨q, hq, htotal⟩ := Option.map_eq_some_iff.mp (hqueue m hm)
  simp only [Prod.mk.injEq] at hfields hfields'
  obtain ⟨hstatus, hassigned, hmax, hjqueue⟩ := hfields
  obtain ⟨hrqueue, hworker, hactive, hfailed⟩ := hfields'
  exact ⟨j, r, q, hj, hr, hjqueue ▸ hq, ⟨hstatus, hassigned⟩, hmax, hrqueue.trans hjqueue.symm,
    hworker, hactive, hfailed, htotal⟩

/-- With two retries, the sample worker can report a failure. -/
theorem failJob_ok_iff_maxRetries_two :
    ∃ j, ((program Derivation.free).run (Sample.held 2)).jobs.lookup (Sample.job 0) = some j ∧
      ReportsFailure Derivation.free ((program Derivation.free).run (Sample.held 2)) 3 "boom"
        Sample.worker (Sample.registry Sample.worker) (Sample.job 0) j := by
  obtain ⟨j, r, q, hj, hr, hq, hheld, hmax, hqueue, hworker, hactive, hfailed, htotal⟩ :=
    Sample.exists_held (m := 2) (by decide)
  refine ⟨j, hj, ?_⟩
  exact (failJob_ok_iff_maxRetries (Sample.held 2) hj hheld hr hqueue hworker hactive hq
    (by rw [hfailed]; decide) (by rw [htotal]; decide) 3 "boom").mpr (by rw [hmax]; decide)

/-- On a queue created with 255 retries, the holder of a job cannot report a failure. -/
theorem not_failJob_ok_of_last_limit :
    ¬∀ (calls : List (Call Key)) (a k w : Key) (j : Job Key) (r : WorkerRegistry Key)
        (q : QueueConfig Key),
      ((program Derivation.free).run calls).jobs.lookup a = some j → j.HeldBy w →
      ((program Derivation.free).run calls).workerRegistries.lookup k = some r →
      r.queue = j.queue → r.worker = w → r.isActive = true →
      ((program Derivation.free).run calls).queueConfigs.lookup j.queue = some q →
      r.jobsFailed.toNat < 2 ^ 64 - 1 → q.totalFailed.toNat < 2 ^ 64 - 1 →
      ∀ (now : Int64) (reason : String),
        ReportsFailure Derivation.free ((program Derivation.free).run calls) now reason w k a
          j := by
  intro h
  obtain ⟨j, r, q, hj, hr, hq, hheld, hmax, hqueue, hworker, hactive, hfailed, htotal⟩ :=
    Sample.exists_held (m := 255) (by decide)
  obtain ⟨n, s, σ', o, j', hok, -⟩ := h (Sample.held 255) (Sample.job 0)
    (Sample.registry Sample.worker) Sample.worker j r q hj hheld hr hqueue hworker hactive hq
    (by rw [hfailed]; decide) (by rw [htotal]; decide) 3 "boom"
  exact (execute_eq_ok.mp hok).maxRetries_ne hj hmax

end Runs

end SolQueue
