import SolQueue.Retries

/-!
# Retry budgets

A producer asks for a number of retries when a job is enqueued. The job gets them unless the
producer asks for the default of the queue by an override of `0`, which is taken for no retries.

* `requestedRetries`: the retries asked for, as the parameter is documented.
* `FailsJob`: a call reports a failure of a job in the life it is in.
* `RetriesGranted`, `retriesGranted_of_stored`: the first failures return the job, the next one is
  permanent.
* `retriesGranted_iff`: when the job gets the retries asked for.
-/

namespace SolQueue

variable {Pubkey : Type}

/-- The retries a producer asks for: an override of `0`, like none, stands for the default of the
queue. -/
def requestedRetries (maxRetriesOverride : Option UInt8) (queueDefault : UInt8) : UInt8 :=
  match maxRetriesOverride with
  | some k => if k = 0 then queueDefault else k
  | none => queueDefault

/-- The limit stored is the one asked for, unless an override of `0` stands for another default. -/
theorem requestedRetries_eq_getD {maxRetriesOverride : Option UInt8} {queueDefault : UInt8}
    (h : maxRetriesOverride = some 0 → queueDefault = 0) :
    requestedRetries maxRetriesOverride queueDefault =
      maxRetriesOverride.getD queueDefault := by
  unfold requestedRetries
  split
  next k =>
    rw [Option.getD_some]
    split_ifs with hzero
    · rw [hzero, h (congrArg some hzero)]
    · rfl
  next => rw [Option.getD_none]

variable [DecidableEq Pubkey]

/-- The call `e`, after the calls `pre`, reports a failure of the job at `a`, which none of them has
closed. -/
structure FailsJob (a : Pubkey) (pre : List (Entry Pubkey)) (e : Entry Pubkey) : Prop where
  fail : ∃ w permanent, e.opOn a = some (.fail w permanent)
  open_before : ∀ op ∈ opsOn a pre, op.kind ≠ .close

/-- The first `m` failures of the job at `a` return it to Pending, and the next one leaves it
Failed. -/
def RetriesGranted (m : ℕ) (a : Pubkey) (log : List (Entry Pubkey)) : Prop :=
  ∀ (pre : List (Entry Pubkey)) (e : Entry Pubkey) (post : List (Entry Pubkey)),
    log = pre ++ e :: post → FailsJob a pre e →
      ((opsOn a pre).countP JobOp.isFail + 1 ≤ m ∧ e.after.statusAt a = some .pending) ∨
        ((opsOn a pre).countP JobOp.isFail + 1 = m + 1 ∧ e.after.statusAt a = some .failed)

/-- A job that is granted no retry as well as some has no failure reported. -/
theorem RetriesGranted.not_failsJob {m : ℕ} {a : Pubkey} {log pre post : List (Entry Pubkey)}
    {e : Entry Pubkey} (h : RetriesGranted m a log) (hzero : RetriesGranted 0 a log) (hm : 0 < m)
    (hlog : log = pre ++ e :: post) : ¬FailsJob a pre e := by
  intro hfails
  -- the first failure of all is permanent, but was to be one of several
  rcases hzero pre e post hlog hfails with ⟨hle, -⟩ | ⟨hfirst, hfailed⟩
  · omega
  · rcases h pre e post hlog hfails with ⟨-, hpending⟩ | ⟨hcount, -⟩
    · cases hfailed.symm.trans hpending
    · omega

/-- The job has the limit `m` and has failed as often as the operations say. -/
structure Job.Budgeted (j : Job Pubkey) (m : UInt8) (ops : List (JobOp Pubkey)) : Prop where
  wellFormed : j.WellFormed
  maxRetries_eq : j.maxRetries = m
  retries_eq : j.retryCount.toNat = ops.countP JobOp.isFail

namespace JobChange

variable {D : Derivation Pubkey} {σ : Ledger Pubkey} {now : Int64} {a : Pubkey}
  {op : Option (JobOp Pubkey)} {new : Option (Job Pubkey)} {j : Job Pubkey} {m : UInt8}
  {ops : List (JobOp Pubkey)}

/-- A failure within the limit returns the job, the one past it is permanent. -/
theorem status_of_fail {w : Pubkey} {p : Bool}
    (h : JobChange D σ now a (some (.fail w p)) (some j) new) (hj : j.Budgeted m ops) :
    (ops.countP JobOp.isFail + 1 ≤ m.toNat ∧ new.map (·.status) = some .pending) ∨
      (ops.countP JobOp.isFail + 1 = m.toNat + 1 ∧ new.map (·.status) = some .failed) := by
  have hmax : j.maxRetries.toNat = m.toNat := congrArg UInt8.toNat hj.maxRetries_eq
  have hcount := hj.retries_eq
  cases h with
  | failPermanent held active retries_eq exhausted =>
    -- it was Processing, so its failures were within the limit
    have hle := hj.wellFormed.retries_le_max (by simp [held.processing])
    exact .inr ⟨by omega, rfl⟩
  | failRetry held active retries_eq left => exact .inl ⟨by omega, rfl⟩

variable [Inhabited Pubkey]

/-- Short of a close, every operation keeps the limit and counts its failure. -/
theorem budgeted (h : JobChange D σ now a op (some j) new) (hj : j.Budgeted m ops)
    (hop : ∀ op' ∈ op, op'.kind ≠ .close) :
    ∃ j', new = some j' ∧ j'.Budgeted m (ops ++ op.toList) := by
  obtain ⟨j', rfl⟩ : ∃ j', new = some j' := by
    cases h with
    | close => exact absurd rfl (hop _ rfl)
    | keep | claim | complete | failPermanent | failRetry | expire => exact ⟨_, rfl⟩
  refine ⟨j', rfl, h.wellFormed fun i hi => Option.some.inj hi ▸ hj.wellFormed, ?_, ?_⟩
  · rcases h.origin with ⟨hnone, -⟩ | ⟨i, hi, hsame⟩
    · cases hnone
    · rw [hsame.maxRetries, ← Option.some.inj hi, hj.maxRetries_eq]
  · rw [List.countP_append, ← hj.retries_eq]
    cases h with
    | keep | claim | complete | expire => rfl
    | failPermanent held active retries_eq | failRetry held active retries_eq => exact retries_eq

end JobChange

section Runs

variable [Inhabited Pubkey] {D : Derivation Pubkey} {σ σ' : Ledger Pubkey}

/-- A job enqueued with the limit `m` has it until it is closed, and counts its failures. -/
theorem budgeted_logFrom {a : Pubkey} {j : Job Pubkey} {m : UInt8}
    (hj : σ.jobs.lookup a = some j) (hbudget : j.Budgeted m []) (calls : List (Call Pubkey))
    (hopen : ∀ op ∈ opsOn a ((program D).logFrom σ calls), op.kind ≠ .close) :
    ∃ j', ((program D).runFrom σ calls).jobs.lookup a = some j' ∧
      j'.Budgeted m (opsOn a ((program D).logFrom σ calls)) := by
  refine Machine.logFrom_induction (M := program D)
    (P := fun log σ => (∀ op ∈ opsOn a log, op.kind ≠ .close) →
      ∃ j', σ.jobs.lookup a = some j' ∧ j'.Budgeted m (opsOn a log))
    ?_ calls [] σ (fun _ => ⟨j, hj, hbudget⟩) hopen
  intro log σ c σ' o ih hok hopen
  rw [opsOn_snoc] at hopen ⊢
  obtain ⟨i, hi, hbudget⟩ := ih fun op hop => hopen op (List.mem_append_left _ hop)
  have hchange := (execute_eq_ok.mp hok).jobChange a
  rw [hi] at hchange
  exact hchange.budgeted hbudget fun op hop =>
    hopen op (List.mem_append_right _ (Option.mem_toList.mpr hop))

/-- A job with the limit `m` is granted `m` retries. -/
theorem retriesGranted_of_stored {a : Pubkey} {j : Job Pubkey} {m : UInt8}
    (hj : σ.jobs.lookup a = some j) (hbudget : j.Budgeted m []) (calls : List (Call Pubkey)) :
    RetriesGranted m.toNat a ((program D).logFrom σ calls) := by
  intro pre e post hlog hfails
  obtain ⟨calls₁, calls₂, -, hpre, hbefore, hok, -⟩ := Machine.logFrom_eq_append_cons hlog
  obtain ⟨i, hi, hbudget'⟩ := budgeted_logFrom hj hbudget calls₁ (hpre ▸ hfails.open_before)
  obtain ⟨w, p, hop⟩ := hfails.fail
  have hchange := (execute_eq_ok.mp hok).jobChange a
  rw [← hbefore, hi] at hchange
  rw [← hpre]
  exact JobChange.status_of_fail (hop ▸ hchange) hbudget'

/-- A committed `enqueueJob` call leaves a job that has not failed, with the override, or else the
default of its queue, as its limit. -/
theorem Step.budgeted_of_enqueue {now : Int64} {ctx : EnqueueJob Pubkey} {n : String} {s : UInt64}
    {params : EnqueueJobParams} {q : QueueConfig Pubkey} {o : Outcome Pubkey}
    (h : Step D σ ⟨now, .enqueueJob ctx n s params⟩ σ' o)
    (hq : σ.queueConfigs.lookup ctx.queueConfig = some q) :
    ∃ j, σ'.jobs.lookup ctx.job = some j ∧
      j.Budgeted (params.maxRetriesOverride.getD q.maxRetries) [] := by
  cases h with
  | enqueueJob queue fresh unpaused payload jobType next_eq total_eq =>
    obtain rfl := Option.some.inj (hq.symm.trans queue.lookup)
    refine ⟨_, Finmap.lookup_insert _, ⟨?_, ?_, ?_⟩, rfl, rfl⟩
    all_goals simp [EnqueueJob.newJob]

/-- After a committed `enqueueJob` call, in every continuation, the job gets the retries asked for
exactly if the override is not `0`, or the default of the queue is, or no failure of the job is
reported. -/
theorem retriesGranted_iff {now : Int64} {ctx : EnqueueJob Pubkey} {n : String} {s : UInt64}
    {params : EnqueueJobParams} {q : QueueConfig Pubkey} {o : Outcome Pubkey}
    (hok : execute D σ ⟨now, .enqueueJob ctx n s params⟩ = .ok (σ', o))
    (hq : σ.queueConfigs.lookup ctx.queueConfig = some q) (calls : List (Call Pubkey)) :
    RetriesGranted (requestedRetries params.maxRetriesOverride q.maxRetries).toNat ctx.job
        ((program D).logFrom σ' calls) ↔
      params.maxRetriesOverride ≠ some 0 ∨ q.maxRetries = 0 ∨
        ∀ (pre : List (Entry Pubkey)) (e : Entry Pubkey) (post : List (Entry Pubkey)),
          (program D).logFrom σ' calls = pre ++ e :: post → ¬FailsJob ctx.job pre e := by
  obtain ⟨j, hj, hbudget⟩ := (execute_eq_ok.mp hok).budgeted_of_enqueue hq
  have hstored := retriesGranted_of_stored (D := D) hj hbudget calls
  by_cases hasked : params.maxRetriesOverride = some 0 → q.maxRetries = 0
  · -- the limit stored is the one asked for
    rw [requestedRetries_eq_getD hasked]
    refine iff_of_true hstored ?_
    by_cases hoverride : params.maxRetriesOverride = some 0
    · exact .inr (.inl (hasked hoverride))
    · exact .inl hoverride
  · obtain ⟨hoverride, hdefault⟩ := Classical.not_imp.mp hasked
    have hpos : 0 < q.maxRetries.toNat := by
      rw [Nat.pos_iff_ne_zero]
      exact fun h => hdefault (UInt8.toNat_inj.mp h)
    rw [hoverride] at hstored ⊢
    constructor
    · intro hgranted
      refine .inr (.inr fun pre e post hlog => ?_)
      exact hgranted.not_failsJob hstored hpos hlog
    · rintro (h | h | h)
      · exact absurd rfl h
      · exact absurd h hdefault
      · exact fun pre e post hlog hfails => absurd hfails (h pre e post hlog)

/-- A job is claimed and fails twice. -/
def Sample.failTwice : List (Call Key) :=
  [claim 2 worker 0, fail 3 worker 0, claim 4 worker 0, fail 5 worker 0]

/-- A sample job enqueued with an override of `1` is granted one retry. -/
theorem retriesGranted_iff_one :
    ∃ σ' o, execute Derivation.free ((program Derivation.free).run
        [Sample.create 2 60, Sample.register Sample.worker])
        (Sample.enqueue Sample.producer 0 (some 1)) = .ok (σ', o) ∧
      RetriesGranted 1 (Sample.job 0) ((program Derivation.free).logFrom σ' Sample.failTwice) := by
  have hok : execute Derivation.free ((program Derivation.free).run
      [Sample.create 2 60, Sample.register Sample.worker])
      (Sample.enqueue Sample.producer 0 (some 1)) = .ok _ := rfl
  exact ⟨_, _, hok, (retriesGranted_iff hok rfl Sample.failTwice).mpr (.inl (by decide))⟩

/-- A job is enqueued with an override of `0` on a queue whose default is two retries. -/
def Sample.zeroOverride : List (Call Key) :=
  [create 2 60, register worker, enqueue producer 0 (some 0)]

/-- A sample job enqueued with an override of `0` on a queue whose default is two retries is Failed
by its first failure. -/
theorem not_retriesGranted_of_zero :
    ¬∀ (calls calls' : List (Call Key)) (now : Int64) (ctx : EnqueueJob Key) (n : String)
      (s : UInt64) (params : EnqueueJobParams) (q : QueueConfig Key) (σ' : Ledger Key)
      (o : Outcome Key), execute Derivation.free ((program Derivation.free).run calls)
          ⟨now, .enqueueJob ctx n s params⟩ = .ok (σ', o) →
        ((program Derivation.free).run calls).queueConfigs.lookup ctx.queueConfig = some q →
        RetriesGranted (requestedRetries params.maxRetriesOverride q.maxRetries).toNat ctx.job
          ((program Derivation.free).logFrom σ' calls') := by
  intro h
  let M := program Derivation.free
  have hok : execute Derivation.free (M.run (Sample.zeroOverride.take 2))
      (Sample.enqueue Sample.producer 0 (some 0)) = .ok (M.run Sample.zeroOverride, _) := rfl
  have hgranted : RetriesGranted 2 (Sample.job 0)
      (M.logFrom (M.run Sample.zeroOverride) Sample.failTwice) :=
    h _ Sample.failTwice _ _ _ _ _ _ _ _ hok rfl
  -- a claim and a permanent failure
  have hfirst : opsOn (Sample.job 0)
      ((M.logFrom (M.run Sample.zeroOverride) Sample.failTwice).take 1) =
        [.claim Sample.worker] := by
    decide +kernel
  have hsecond : (M.logFrom (M.run Sample.zeroOverride) Sample.failTwice)[1]?.map (fun e =>
      (Entry.opOn (Sample.job 0) e, e.after.statusAt (Sample.job 0))) =
        some (some (.fail Sample.worker true), some .failed) := by
    decide +kernel
  obtain ⟨e, he, hfields⟩ := Option.map_eq_some_iff.mp hsecond
  obtain ⟨hop, hstatus⟩ := Prod.mk.inj hfields
  have hfails : FailsJob (Sample.job 0) _ e := ⟨⟨_, _, hop⟩, by rw [hfirst]; decide⟩
  rcases hgranted _ e _ (Machine.eq_take_append_cons he) hfails with ⟨-, hpending⟩ | ⟨hcount, -⟩
  · cases hstatus.symm.trans hpending
  · rw [hfirst] at hcount
    exact absurd hcount (by decide)

end Runs

end SolQueue
