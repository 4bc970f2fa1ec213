import SolQueue.Representation

/-!
# The program computes its specification

A call whose accounts are the derived ones is a request to the store that the ledger holds and gets
its answer, down to the error it is refused with; any other call is rejected.

* `Tells`: the events and transfers of a call against the notices and payments of a reply.
* `Answers`: what a call leaves against what its request leaves.
* `Instruction.Canonical`, `Call.request`: the request a call makes, if its accounts are derived.
* `execute_agrees`: one call against its request.
* `refines_specification`: every run against its requests.
-/

namespace SolQueue

open Checked Except
open Spec.QueueName (queueSeeds workerSeeds jobSeeds)

variable {Pubkey : Type} [DecidableEq Pubkey]

/-! ## Answers -/

/-- The seeds of the address of an item. -/
def Spec.Item.seeds : Spec.Item Pubkey → Seeds Pubkey
  | .queue n => queueSeeds n
  | .worker n w => workerSeeds (n, w)
  | .job n s => jobSeeds (n, s)

/-- The space of the account of an item. -/
def Spec.Item.space : Spec.Item Pubkey → ℕ
  | .queue _ => QueueConfig.LEN
  | .worker _ _ => WorkerRegistry.LEN
  | .job _ _ => Job.LEN

/-- The event says what the notice does, with addresses for names. -/
inductive Announces (D : Derivation Pubkey) : Event Pubkey → Spec.Notice Pubkey → Prop where
  | pauseToggled {n : Spec.QueueName} {k authority : Pubkey} {paused : Bool} {t : Int64}
      (hk : D.addressOf (queueSeeds n) = some k) :
      Announces D (.queuePauseToggled k paused authority t)
        (.pauseToggled n paused authority t.toInt)
  | registered {n : Spec.QueueName} {k w : Pubkey} {t : Int64}
      (hk : D.addressOf (queueSeeds n) = some k) :
      Announces D (.workerRegistered k w t) (.registered n w t.toInt)
  | deactivated {n : Spec.QueueName} {k w authority : Pubkey} {t : Int64}
      (hk : D.addressOf (queueSeeds n) = some k) :
      Announces D (.workerDeactivated k w authority t) (.deactivated n w authority t.toInt)
  | enqueued {n : Spec.QueueName} {s seq : UInt64} {k a creator : Pubkey} {jobType : String}
      {priority : UInt8} {t : Int64} (hk : D.addressOf (queueSeeds n) = some k)
      (ha : D.addressOf (jobSeeds (n, s)) = some a) :
      Announces D (.jobEnqueued k a seq jobType priority creator t)
        (.enqueued n s seq.toNat jobType priority creator t.toInt)
  | claimed {n : Spec.QueueName} {s seq : UInt64} {a w : Pubkey} {t : Int64}
      (ha : D.addressOf (jobSeeds (n, s)) = some a) :
      Announces D (.jobClaimed a seq w t) (.claimed n s seq.toNat w t.toInt)
  | completed {n : Spec.QueueName} {s seq : UInt64} {a w : Pubkey} {duration t : Int64}
      (ha : D.addressOf (jobSeeds (n, s)) = some a) :
      Announces D (.jobCompleted a seq w duration t)
        (.completed n s seq.toNat w duration.toInt t.toInt)
  | failed {n : Spec.QueueName} {s seq : UInt64} {a w : Pubkey} {retryCount : UInt8}
      {permanent : Bool} {t : Int64} (ha : D.addressOf (jobSeeds (n, s)) = some a) :
      Announces D (.jobFailed a seq w retryCount permanent t)
        (.failed n s seq.toNat w retryCount.toNat permanent t.toInt)
  | expired {n : Spec.QueueName} {s seq : UInt64} {a w : Pubkey} {t : Int64}
      (ha : D.addressOf (jobSeeds (n, s)) = some a) :
      Announces D (.jobExpired a seq w t) (.expired n s seq.toNat w t.toInt)

omit [DecidableEq Pubkey] in
/-- One event says what a notice does: names have one address each, and a number or a time is that
of one word. -/
theorem Announces.event_unique {D : Derivation Pubkey} {e e' : Event Pubkey}
    {notice notice' : Spec.Notice Pubkey} (h : Announces D e notice) (h' : Announces D e' notice')
    (hsame : notice = notice') : e = e' := by
  cases h <;> cases h' <;> simp_all [Int64.toInt_inj, UInt64.toNat_inj, UInt8.toNat_inj]

/-- The transfer moves the lamports of the payment: a deposit is the rent of an account. -/
inductive Moves (D : Derivation Pubkey) : Transfer Pubkey → Spec.Payment Pubkey → Prop where
  | deposit {k payer : Pubkey} (item : Spec.Item Pubkey) (hk : D.addressOf item.seeds = some k) :
      Moves D (.rent payer k item.space) (.deposit payer item)
  | refund {k receiver : Pubkey} (item : Spec.Item Pubkey) (hk : D.addressOf item.seeds = some k) :
      Moves D (.close k receiver) (.refund item receiver)

/-- The events of a committed call are the notices of the reply, and its transfers the payments. -/
structure Tells (D : Derivation Pubkey) (o : Outcome Pubkey) (reply : Spec.Reply Pubkey) :
    Prop where
  events : List.Forall₂ (Announces D) o.events reply.notices
  transfers : List.Forall₂ (Moves D) o.transfers reply.payments

namespace Tells

variable {D : Derivation Pubkey}

omit [DecidableEq Pubkey]

/-- One event tells one notice. -/
theorem emit {event : Event Pubkey} {notice : Spec.Notice Pubkey}
    (h : Announces D event notice) : Tells D (.emit event) (.notice notice) :=
  ⟨.cons h .nil, .nil⟩

/-- A reply leaves nothing of the outcome open. -/
theorem leftUnique : Relator.LeftUnique (Tells D) := by
  have hevent : Relator.LeftUnique (Announces D) := fun e notice e' he he' =>
    he.event_unique he' rfl
  have htransfer : Relator.LeftUnique (Moves D) := by
    intro e payment e' he he'
    cases he <;> cases he' <;> simp_all
  rintro ⟨events, transfers⟩ reply ⟨events', transfers'⟩ h h'
  obtain rfl := hevent.forall₂ h.events h'.events
  obtain rfl := htransfer.forall₂ h.transfers h'.transfers
  rfl

end Tells

/-- A length of at most 128 fits the stored length. -/
theorem toNat_ofNat_of_le_128 {m : ℕ} (h : m ≤ 128) : (UInt8.ofNat m).toNat = m := by
  simp
  omega

/-- A call leaves what its request leaves, with the same notices and payments. -/
def Answers (D : Derivation Pubkey) (r : Ledger Pubkey × Outcome Pubkey)
    (r' : Spec.Store Pubkey × Spec.Reply Pubkey) : Prop :=
  Represents D r'.1 r.1 ∧ Tells D r.2 r'.2

section Instructions

variable {D : Derivation Pubkey} {S : Spec.Store Pubkey} {σ : Ledger Pubkey}
  {n : Spec.QueueName} {s : UInt64} {now : Int64}

/-- The queue, the registry and the job of a worker instruction. -/
theorem WorkerJob.tryAccounts_agrees (h : Represents D S σ) (haddr : Addressed D σ)
    {ctx : WorkerJob Pubkey} (hk : D.addressOf (queueSeeds n) = some ctx.queueConfig)
    (hx : D.addressOf (workerSeeds (n, ctx.worker)) = some ctx.workerRegistry)
    (ha : D.addressOf (jobSeeds (n, s)) = some ctx.job) :
    Agree Eq (fun r r' => StoresQueue D n r'.1 r.1 ∧ StoresWorker D (n, ctx.worker) r'.2.1 r.2.1 ∧
        StoresJob D (n, s) r'.2.2 r.2.2)
      (ctx.tryAccounts D σ n.1 s) (S.assignment n ctx.worker s) := by
  unfold WorkerJob.tryAccounts Spec.Store.assignment
  refine (h.loadQueue haddr hk).bind fun q queue hq => ?_
  refine (h.loadWorker haddr hx).bind fun r worker hr => ?_
  refine (h.loadJob haddr ha).bind fun j job hj => ?_
  -- what is found at derived addresses passes all constraints but the flag of the worker
  refine .seq_left (Derivation.checkSeeds_of_addressOf hk hq.bump) ?_
  refine .seq_left (Derivation.checkSeeds_of_addressOf hx hr.bump) ?_
  refine .require_left (Option.some.inj (hr.queue.symm.trans hk)) ?_
  refine .require (by rw [hr.active]) rfl fun _ _ => ?_
  refine .seq_left (Derivation.checkSeeds_of_addressOf ha hj.bump) ?_
  refine .require_left (Option.some.inj (hj.queue.symm.trans hk)) ?_
  exact .pure ⟨hq, hr, hj⟩

theorem initializeQueue_agrees (h : Represents D S σ) (haddr : Addressed D σ)
    {ctx : InitializeQueue Pubkey} {params : InitializeQueueParams}
    (hname : params.queueName = n.1)
    (hk : D.addressOf (queueSeeds n) = some ctx.queueConfig) :
    Agree Eq (Answers D) (initializeQueue D σ now ctx params)
      (S.create now.toInt n ctx.authority params.maxRetries.toNat params.jobTimeoutSecs.toInt) := by
  unfold initializeQueue Spec.Store.create
  rw [hname]
  refine (h.initQueue haddr hk).bind fun b _ hb => ?_
  simp only [InitializeQueue.handler, nameToBytes, hname, bind_assoc, pure_bind]
  -- a name with an address is short enough
  refine .require_left n.2 ?_
  refine .pure ⟨h.setQueue hk ?_, .cons (.pauseToggled hk) .nil,
    .cons (.deposit (.queue n) hk) .nil⟩
  exact ⟨hb, rfl, rfl, rfl, rfl, rfl, rfl, rfl, rfl, rfl⟩

theorem setQueuePaused_agrees (h : Represents D S σ) (haddr : Addressed D σ)
    {ctx : PauseQueue Pubkey} {pause : Bool}
    (hk : D.addressOf (queueSeeds n) = some ctx.queueConfig) :
    Agree Eq (Answers D) (setQueuePaused D σ now ctx n.1 pause)
      (S.setPaused now.toInt n ctx.authority pause) := by
  simp only [setQueuePaused, PauseQueue.tryAccounts, bind_assoc, pure_bind, Spec.Store.setPaused]
  refine (h.loadQueue haddr hk).bind fun q queue hq => ?_
  refine .seq_left (Derivation.checkSeeds_of_addressOf hk hq.bump) ?_
  refine .require (by rw [hq.authority]) rfl fun _ _ => ?_
  exact .pure ⟨h.setQueue hk { hq with paused := rfl }, .emit (.pauseToggled hk)⟩

theorem registerWorker_agrees (h : Represents D S σ) (haddr : Addressed D σ)
    {ctx : RegisterWorker Pubkey} (hk : D.addressOf (queueSeeds n) = some ctx.queueConfig)
    (hx : D.addressOf (workerSeeds (n, ctx.worker)) = some ctx.workerRegistry) :
    Agree Eq (Answers D) (registerWorker D σ now ctx n.1)
      (S.register now.toInt n ctx.authority ctx.worker) := by
  simp only [registerWorker, RegisterWorker.tryAccounts, bind_assoc, pure_bind,
    Spec.Store.register]
  refine (h.loadQueue haddr hk).bind fun q queue hq => ?_
  refine (h.initWorker haddr hx).bind fun b _ hb => ?_
  refine .seq_left (Derivation.checkSeeds_of_addressOf hk hq.bump) ?_
  refine .require (by rw [hq.authority]) rfl fun _ _ => ?_
  exact .pure ⟨h.setWorker hx ⟨hb, hk, rfl, rfl, rfl, rfl, rfl, rfl⟩, .cons (.registered hk) .nil,
    .cons (.deposit (.worker n ctx.worker) hx) .nil⟩

theorem deactivateWorker_agrees (h : Represents D S σ) (haddr : Addressed D σ)
    {ctx : DeactivateWorker Pubkey} (hk : D.addressOf (queueSeeds n) = some ctx.queueConfig)
    (hx : D.addressOf (workerSeeds (n, ctx.worker)) = some ctx.workerRegistry) :
    Agree Eq (Answers D) (deactivateWorker D σ now ctx n.1)
      (S.deactivate now.toInt n ctx.authority ctx.worker) := by
  simp only [deactivateWorker, DeactivateWorker.tryAccounts, bind_assoc, pure_bind,
    Spec.Store.deactivate]
  refine (h.loadQueue haddr hk).bind fun q queue hq => ?_
  refine (h.loadWorker haddr hx).bind fun r worker hr => ?_
  refine .seq_left (Derivation.checkSeeds_of_addressOf hk hq.bump) ?_
  refine .require (by rw [hq.authority]) rfl fun _ _ => ?_
  refine .seq_left (Derivation.checkSeeds_of_addressOf hx hr.bump) ?_
  refine .require_left (Option.some.inj (hr.queue.symm.trans hk)) ?_
  exact .pure ⟨h.setWorker hx { hr with active := rfl }, .emit (.deactivated hk)⟩

theorem enqueueJob_agrees (h : Represents D S σ) (haddr : Addressed D σ)
    {ctx : EnqueueJob Pubkey} {params : EnqueueJobParams}
    (hk : D.addressOf (queueSeeds n) = some ctx.queueConfig)
    (ha : D.addressOf (jobSeeds (n, s)) = some ctx.job) :
    Agree Eq (Answers D) (enqueueJob D σ now ctx n.1 s params)
      (S.enqueue now.toInt n ctx.creator s params) := by
  simp only [enqueueJob, EnqueueJob.tryAccounts, EnqueueJob.handler, jobTypeToBytes, bind_assoc,
    pure_bind, Spec.Store.enqueue]
  refine (h.loadQueue haddr hk).bind fun q queue hq => ?_
  refine (h.initJob haddr ha).bind fun b _ hb => ?_
  refine .seq_left (Derivation.checkSeeds_of_addressOf hk hq.bump) ?_
  refine .require (by rw [hq.paused]) rfl fun _ _ => ?_
  refine .require Iff.rfl rfl fun _ _ => ?_
  refine .require Iff.rfl rfl fun _ _ => ?_
  refine (add_agrees_uint64 hq.next).bind ?_
  rintro next _ ⟨hnext, rfl⟩
  -- the total is the same number as the counter, so it is in range too
  have htotal : add Error.overflow q.totalEnqueued 1 = .ok next :=
    add_eq_ok_uint64.mpr (by rw [hnext, hq.enqueued]; rfl)
  refine .seq_left htotal (.pure ⟨(h.setQueue hk ?_).setJob ha ?_, ?_⟩)
  · exact { hq with next := hnext, enqueued := hnext }
  · refine ⟨hb, hk, hq.next, rfl, rfl, rfl, rfl, ?_, rfl, .pending, rfl, rfl, rfl⟩
    simp only [EnqueueJob.newJob, Spec.Store.newJob]
    cases params.maxRetriesOverride with
    | none => exact hq.maxRetries
    | some retries => rfl
  · exact ⟨.cons (hq.next ▸ .enqueued hk ha) .nil, .cons (.deposit (.job n s) ha) .nil⟩

theorem claimJob_agrees (h : Represents D S σ) (haddr : Addressed D σ) {ctx : WorkerJob Pubkey}
    (hk : D.addressOf (queueSeeds n) = some ctx.queueConfig)
    (hx : D.addressOf (workerSeeds (n, ctx.worker)) = some ctx.workerRegistry)
    (ha : D.addressOf (jobSeeds (n, s)) = some ctx.job) :
    Agree Eq (Answers D) (claimJob D σ now ctx n.1 s) (S.claim now.toInt n ctx.worker s) := by
  unfold claimJob Spec.Store.claim
  refine (WorkerJob.tryAccounts_agrees h haddr hk hx ha).bind ?_
  rintro ⟨q, r, j⟩ ⟨queue, worker, job⟩ ⟨hq, hr, hj⟩
  simp only [ClaimJob.handler, bind_assoc, pure_bind] at hq hr hj ⊢
  -- a Pending job has no end, so the claim leaves none behind
  refine .require hj.stage.pending_iff rfl fun hpending _ => ?_
  refine (add_agrees_uint64 hr.claimed).bind ?_
  rintro claimed _ ⟨hclaimed, rfl⟩
  refine .pure ⟨(h.setWorker hx ?_).setJob ha ?_, ?_⟩
  · exact { hr with claimed := hclaimed }
  · refine { hj with stage := ?_ }
    simp only [Job.claimed, hj.stage.completedAt_of_pending hpending]
    exact .processing
  · exact hj.number ▸ .emit (.claimed ha)

theorem completeJob_agrees (h : Represents D S σ) (haddr : Addressed D σ) {ctx : WorkerJob Pubkey}
    {params : CompleteJobParams} (hk : D.addressOf (queueSeeds n) = some ctx.queueConfig)
    (hx : D.addressOf (workerSeeds (n, ctx.worker)) = some ctx.workerRegistry)
    (ha : D.addressOf (jobSeeds (n, s)) = some ctx.job) :
    Agree Eq (Answers D) (completeJob D σ now ctx n.1 s params)
      (S.complete now.toInt n ctx.worker s params.result) := by
  unfold completeJob Spec.Store.complete
  refine (WorkerJob.tryAccounts_agrees h haddr hk hx ha).bind ?_
  rintro ⟨q, r, j⟩ ⟨queue, worker, job⟩ ⟨hq, hr, hj⟩
  simp only [CompleteJob.handler, bind_assoc, pure_bind] at hq hr hj ⊢
  refine hj.stage.holder_agrees.bind ?_
  rintro _ ⟨holder, started⟩ ⟨t, hstage, hstatus, hworker, hstarted, hnone, rfl⟩
  refine .require (by rw [hworker]; exact Option.some_inj) rfl fun _ hsigner => ?_
  refine .require Iff.rfl rfl fun hlength _ => ?_
  -- the holder has a start, which the duration is counted from
  have hsub : sub Error.overflow now (j.startedAt.getD now) =
      narrow Error.overflow (now.toInt - t.toInt) := by rw [hstarted]; rfl
  rw [hsub]
  refine narrow_agrees_int64.bind ?_
  rintro duration _ ⟨hduration, rfl⟩
  refine (add_agrees_uint64 hq.completed).bind ?_
  rintro total _ ⟨htotal, rfl⟩
  refine (add_agrees_uint64 hr.completed).bind ?_
  rintro completed _ ⟨hcompleted, rfl⟩
  refine .pure ⟨((h.setQueue hk ?_).setWorker hx ?_).setJob ha ?_, ?_⟩
  · exact { hq with completed := htotal }
  · exact { hr with completed := hcompleted }
  · refine { hj with stage := ?_, result := rfl, resultLen := ?_ }
    · simp only [Job.completedWith, hworker, hstarted, ← hsigner]
      exact .completed
    · exact toNat_ofNat_of_le_128 hlength
  · exact hj.number ▸ hduration ▸ .emit (.completed ha)

omit [DecidableEq Pubkey] in
/-- A failure is stored with its reason cut at 128 bytes. -/
theorem StoresJob.withFailure {job : Spec.Job Pubkey} {j : Job Pubkey}
    (h : StoresJob D (n, s) job j) {reason : String} {retries : UInt8}
    (hretries : retries.toNat = job.failures + 1) :
    StoresJob D (n, s)
      { job with failures := job.failures + 1, result := reason.asBytes.take 128 }
      (j.withFailure reason retries) := by
  have htake : reason.asBytes.take (min reason.asBytes.length 128) = reason.asBytes.take 128 := by
    rw [min_comm, ← List.take_eq_take_min]
  refine { h with failures := hretries, result := ?_, resultLen := ?_ }
  · simp only [Job.withFailure, htake]
  · rw [List.length_take, min_comm]
    exact toNat_ofNat_of_le_128 (min_le_right _ _)

theorem failJob_agrees (h : Represents D S σ) (haddr : Addressed D σ) {ctx : WorkerJob Pubkey}
    {params : FailJobParams} (hk : D.addressOf (queueSeeds n) = some ctx.queueConfig)
    (hx : D.addressOf (workerSeeds (n, ctx.worker)) = some ctx.workerRegistry)
    (ha : D.addressOf (jobSeeds (n, s)) = some ctx.job) :
    Agree Eq (Answers D) (failJob D σ now ctx n.1 s params)
      (S.fail now.toInt n ctx.worker s params.reason) := by
  unfold failJob Spec.Store.fail
  -- a retry writes back the queue it found
  refine ((WorkerJob.tryAccounts_agrees h haddr hk hx ha).imp fun r r' hok _ hrel =>
    And.intro (WorkerJob.tryAccounts_eq_ok.mp hok) hrel).bind ?_
  rintro ⟨q, r, j⟩ ⟨queue, worker, job⟩ ⟨hvalid, hq, hr, hj⟩
  simp only [FailJob.handler, bind_assoc] at hq hr hj ⊢
  refine hj.stage.holder_agrees.bind ?_
  rintro _ ⟨holder, started⟩ ⟨t, hstage, hstatus, hworker, hstarted, hnone, rfl⟩
  refine .require (by rw [hworker]; exact Option.some_inj) rfl fun _ hsigner => ?_
  refine (add_agrees_uint8 hj.failures).bind ?_
  rintro retries _ ⟨hretries, rfl⟩
  refine (add_agrees_uint64 hr.failed).bind ?_
  rintro failed _ ⟨hfailed, rfl⟩
  have hlt : retries > j.maxRetries ↔ job.maxRetries < job.failures + 1 := by
    rw [← hretries, ← hj.maxRetries, gt_iff_lt, UInt8.lt_iff_toNat_lt]
  by_cases hpermanent : retries > j.maxRetries
  -- for good: the queue counts the failure
  · rw [if_pos hpermanent, if_pos (hlt.mp hpermanent)]
    simp only [bind_assoc, pure_bind]
    refine (add_agrees_uint64 hq.failed).bind ?_
    rintro total _ ⟨htotal, rfl⟩
    refine .pure ⟨((h.setWorker hx ?_).setQueue hk ?_).setJob ha ?_, ?_⟩
    · exact { hr with failed := hfailed }
    · exact { hq with failed := htotal }
    · refine { hj.withFailure hretries with stage := ?_ }
      simp only [Job.failedFor, Job.withFailure, hworker, hstarted, ← hsigner]
      exact .failed
    · exact hj.number ▸ hretries ▸ .emit (.failed ha)
  -- another attempt: the queue stays as it was
  · rw [if_neg hpermanent, if_neg (mt hlt.mpr hpermanent)]
    simp only [bind_assoc, pure_bind]
    refine (add_agrees_uint8 hj.maxRetries).bind ?_
    rintro _ _ -
    rw [Finmap.insert_of_lookup hvalid.queue.lookup]
    refine .pure ⟨(h.setWorker hx ?_).setJob ha ?_, ?_⟩
    · exact { hr with failed := hfailed }
    · refine { hj.withFailure hretries with stage := ?_ }
      simp only [Job.retried, Job.withFailure, hnone]
      exact .pending
    · exact hj.number ▸ hretries ▸ .emit (.failed ha)

theorem expireJob_agrees [Inhabited Pubkey] (h : Represents D S σ) (haddr : Addressed D σ)
    {ctx : ExpireJob Pubkey} (hk : D.addressOf (queueSeeds n) = some ctx.queueConfig)
    (ha : D.addressOf (jobSeeds (n, s)) = some ctx.job) :
    Agree Eq (Answers D) (expireJob D σ now ctx n.1 s) (S.expire now.toInt n s) := by
  simp only [expireJob, ExpireJob.tryAccounts, ExpireJob.handler, bind_assoc, pure_bind,
    Spec.Store.expire]
  refine (h.loadQueue haddr hk).bind fun q queue hq => ?_
  refine (h.loadJob haddr ha).bind fun j job hj => ?_
  refine .seq_left (Derivation.checkSeeds_of_addressOf hk hq.bump) ?_
  refine .seq_left (Derivation.checkSeeds_of_addressOf ha hj.bump) ?_
  refine .require_left (Option.some.inj (hj.queue.symm.trans hk)) ?_
  refine hj.stage.holder_agrees.bind ?_
  rintro _ ⟨holder, started⟩ ⟨t, hstage, hstatus, hworker, hstarted, hnone, rfl⟩
  -- the deadline is checked arithmetic, the comparison is not
  have hexpired : j.isExpired now q.jobTimeoutSecs = (do
      let deadline ← narrow .overflow (t.toInt + q.jobTimeoutSecs.toInt)
      return decide (now > deadline)) := by
    simp only [Job.isExpired, hstatus, hstarted, ne_eq, not_true_eq_false, ↓reduceIte]
    rfl
  simp only [hexpired, bind_assoc, pure_bind, hq.timeout]
  refine narrow_agrees_int64.bind ?_
  rintro deadline _ ⟨hdeadline, rfl⟩
  refine .require ?_ rfl fun _ _ => ?_
  · rw [decide_eq_true_iff, gt_iff_lt, Int64.lt_iff_toInt_lt, hdeadline]
  · refine .pure ⟨h.setJob ha ?_, ?_⟩
    · refine { hj with stage := ?_, result := rfl, resultLen := ?_ }
      · simp only [Job.expired, hnone]
        exact .pending
      · exact toNat_ofNat_of_le_128 (by decide)
    · rw [hworker, Option.getD_some]
      exact hj.number ▸ .emit (.expired ha)

theorem closeJob_agrees (h : Represents D S σ) (haddr : Addressed D σ) {ctx : CloseJob Pubkey}
    (hk : D.addressOf (queueSeeds n) = some ctx.queueConfig)
    (ha : D.addressOf (jobSeeds (n, s)) = some ctx.job) :
    Agree Eq (Answers D) (closeJob D σ ctx n.1 s) (S.close n ctx.creator s) := by
  simp only [closeJob, CloseJob.tryAccounts, bind_assoc, pure_bind, Spec.Store.close]
  refine (h.loadQueue haddr hk).bind fun q queue hq => ?_
  refine (h.loadJob haddr ha).bind fun j job hj => ?_
  refine .seq_left (Derivation.checkSeeds_of_addressOf hk hq.bump) ?_
  refine .seq_left (Derivation.checkSeeds_of_addressOf ha hj.bump) ?_
  refine .require_left (Option.some.inj (hj.queue.symm.trans hk)) ?_
  -- the creator first, then the status
  refine .require (by rw [hj.creator]) rfl fun _ _ => ?_
  refine .require hj.stage.finished_iff rfl fun _ _ => ?_
  exact .pure ⟨h.eraseJob ha, .nil, .cons (.refund (.job n s) ha) .nil⟩

end Instructions

/-! ## Calls and requests -/

/-- The accounts of the instruction are the derived ones. -/
def Instruction.Canonical (D : Derivation Pubkey) : Instruction Pubkey → Prop
  | .initializeQueue ctx params =>
    D.addressOf (.queue params.queueName.asBytes) = some ctx.queueConfig
  | .setQueuePaused ctx n _ => D.addressOf (.queue n.asBytes) = some ctx.queueConfig
  | .registerWorker ctx n =>
    D.addressOf (.queue n.asBytes) = some ctx.queueConfig ∧
      D.addressOf (.worker n.asBytes ctx.worker) = some ctx.workerRegistry
  | .deactivateWorker ctx n =>
    D.addressOf (.queue n.asBytes) = some ctx.queueConfig ∧
      D.addressOf (.worker n.asBytes ctx.worker) = some ctx.workerRegistry
  | .enqueueJob ctx n s _ =>
    D.addressOf (.queue n.asBytes) = some ctx.queueConfig ∧
      D.addressOf (.job n.asBytes s) = some ctx.job
  | .claimJob ctx n s | .completeJob ctx n s _ | .failJob ctx n s _ =>
    D.addressOf (.queue n.asBytes) = some ctx.queueConfig ∧
      D.addressOf (.worker n.asBytes ctx.worker) = some ctx.workerRegistry ∧
      D.addressOf (.job n.asBytes s) = some ctx.job
  | .expireJob ctx n s =>
    D.addressOf (.queue n.asBytes) = some ctx.queueConfig ∧
      D.addressOf (.job n.asBytes s) = some ctx.job
  | .closeJob ctx n s =>
    D.addressOf (.queue n.asBytes) = some ctx.queueConfig ∧
      D.addressOf (.job n.asBytes s) = some ctx.job

/-- Whether an instruction lists the canonical addresses is decidable. -/
instance (D : Derivation Pubkey) :
    (instruction : Instruction Pubkey) → Decidable (instruction.Canonical D)
  | .initializeQueue .. | .setQueuePaused .. => decEq (D.addressOf _) (some _)
  | .registerWorker .. | .deactivateWorker .. | .enqueueJob .. | .claimJob .. | .completeJob ..
  | .failJob .. | .expireJob .. | .closeJob .. => instDecidableAnd

omit [DecidableEq Pubkey] in
/-- The name of derived accounts fits a seed. -/
theorem Instruction.Canonical.length_le {D : Derivation Pubkey} {instruction : Instruction Pubkey}
    (h : instruction.Canonical D) : instruction.queueName.asBytes.length ≤ 32 := by
  cases instruction with
  | initializeQueue | setQueuePaused => exact Derivation.length_le_of_addressOf h
  | registerWorker | deactivateWorker | enqueueJob | claimJob | completeJob | failJob | expireJob
  | closeJob => exact Derivation.length_le_of_addressOf h.1

/-- Who signs an instruction. -/
def Instruction.signer : Instruction Pubkey → Pubkey
  | .initializeQueue ctx _ => ctx.authority
  | .setQueuePaused ctx _ _ => ctx.authority
  | .registerWorker ctx _ => ctx.authority
  | .deactivateWorker ctx _ => ctx.authority
  | .enqueueJob ctx _ _ _ => ctx.creator
  | .claimJob ctx _ _ | .completeJob ctx _ _ _ | .failJob ctx _ _ _ => ctx.worker
  | .expireJob ctx _ _ => ctx.caller
  | .closeJob ctx _ _ => ctx.creator

/-- What an instruction asks for. -/
def Instruction.action : Instruction Pubkey → Spec.Action Pubkey
  | .initializeQueue _ params => .create params.maxRetries.toNat params.jobTimeoutSecs.toInt
  | .setQueuePaused _ _ pause => .setPaused pause
  | .registerWorker ctx _ => .register ctx.worker
  | .deactivateWorker ctx _ => .deactivate ctx.worker
  | .enqueueJob _ _ s params => .enqueue s params
  | .claimJob _ _ s => .claim s
  | .completeJob _ _ s params => .complete s params.result
  | .failJob _ _ s params => .fail s params.reason
  | .expireJob _ _ s => .expire s
  | .closeJob _ _ s => .close s

/-- The request a call makes, if its accounts are the derived ones. -/
def Call.request (D : Derivation Pubkey) (c : Call Pubkey) : Option (Spec.Request Pubkey) :=
  if h : c.instruction.Canonical D then
    some ⟨c.now.toInt, ⟨c.instruction.queueName, h.length_le⟩, c.instruction.signer,
      c.instruction.action⟩
  else none

section Calls

variable [Inhabited Pubkey] {D : Derivation Pubkey} {S : Spec.Store Pubkey} {σ σ' : Ledger Pubkey}
  {c : Call Pubkey} {o : Outcome Pubkey}

/-- A call that makes a request gets the answer of the store. -/
theorem execute_agrees (h : Represents D S σ) (haddr : Addressed D σ) {r : Spec.Request Pubkey}
    (hr : c.request D = some r) : Agree Eq (Answers D) (execute D σ c) (S.serve r) := by
  unfold Call.request at hr
  split_ifs at hr with hcanonical
  -- one lemma for each instruction, with its derived accounts
  obtain rfl := Option.some.inj hr
  obtain ⟨now, instruction⟩ := c
  generalize hcanonical.length_le = hlength
  cases instruction with
  | initializeQueue ctx params =>
    exact initializeQueue_agrees (n := ⟨_, hlength⟩) h haddr rfl hcanonical
  | setQueuePaused ctx n pause => exact setQueuePaused_agrees (n := ⟨n, hlength⟩) h haddr hcanonical
  | registerWorker ctx n =>
    exact registerWorker_agrees (n := ⟨n, hlength⟩) h haddr hcanonical.1 hcanonical.2
  | deactivateWorker ctx n =>
    exact deactivateWorker_agrees (n := ⟨n, hlength⟩) h haddr hcanonical.1 hcanonical.2
  | enqueueJob ctx n s params =>
    exact enqueueJob_agrees (n := ⟨n, hlength⟩) h haddr hcanonical.1 hcanonical.2
  | claimJob ctx n s =>
    exact claimJob_agrees (n := ⟨n, hlength⟩) h haddr hcanonical.1 hcanonical.2.1 hcanonical.2.2
  | completeJob ctx n s params =>
    exact completeJob_agrees (n := ⟨n, hlength⟩) h haddr hcanonical.1 hcanonical.2.1 hcanonical.2.2
  | failJob ctx n s params =>
    exact failJob_agrees (n := ⟨n, hlength⟩) h haddr hcanonical.1 hcanonical.2.1 hcanonical.2.2
  | expireJob ctx n s =>
    exact expireJob_agrees (n := ⟨n, hlength⟩) h haddr hcanonical.1 hcanonical.2
  | closeJob ctx n s =>
    exact closeJob_agrees (n := ⟨n, hlength⟩) h haddr hcanonical.1 hcanonical.2

omit [Inhabited Pubkey] in
/-- A loaded queue sits at its derived address. -/
theorem QueueAt.addressOf (h : Addressed D σ) {n : String} {k : Pubkey} {q : QueueConfig Pubkey}
    (hq : QueueAt D σ n k q) : D.addressOf (.queue n.asBytes) = some k :=
  Derivation.addressOf_eq_some.mpr ⟨_, h.find_queue hq⟩

omit [Inhabited Pubkey] in
/-- A loaded registry sits at its derived address. -/
theorem RegistryAt.addressOf (h : Addressed D σ) {n : String} {w queue x : Pubkey}
    {r : WorkerRegistry Pubkey} (hr : RegistryAt D σ n w queue x r) :
    D.addressOf (.worker n.asBytes w) = some x := by
  obtain ⟨m, _, hfind, -⟩ := h.registry x r hr.lookup
  obtain ⟨hseeds, -⟩ := D.find_of_create hfind hr.seeds
  exact Derivation.addressOf_eq_some.mpr ⟨_, hseeds ▸ hfind⟩

omit [Inhabited Pubkey] in
/-- A loaded job sits at its derived address. -/
theorem JobAt.addressOf (h : Addressed D σ) {n : String} {s : UInt64} {queue a : Pubkey}
    {j : Job Pubkey} (hj : JobAt D σ n s queue a j) :
    D.addressOf (.job n.asBytes s) = some a := by
  obtain ⟨m, s', _, hfind, -⟩ := h.job a j hj.lookup
  obtain ⟨hseeds, -⟩ := D.find_of_create hfind hj.seeds
  exact Derivation.addressOf_eq_some.mpr ⟨_, hseeds ▸ hfind⟩

/-- Only calls with derived accounts commit. -/
theorem Step.canonical (h : Step D σ c σ' o) (haddr : Addressed D σ) :
    c.instruction.Canonical D := by
  cases h with
  | initializeQueue fresh length => exact Derivation.addressOf_eq_some.mpr ⟨_, fresh.find⟩
  | setQueuePaused queue authority => exact queue.addressOf haddr
  | registerWorker queue authority fresh =>
    exact ⟨queue.addressOf haddr, Derivation.addressOf_eq_some.mpr ⟨_, fresh.find⟩⟩
  | deactivateWorker queue authority registry =>
    exact ⟨queue.addressOf haddr, registry.addressOf haddr⟩
  | enqueueJob queue fresh unpaused payload jobType next_eq total_eq =>
    exact ⟨queue.addressOf haddr, Derivation.addressOf_eq_some.mpr ⟨_, fresh.find⟩⟩
  | claimJob valid pending claimed_eq =>
    exact ⟨valid.queue.addressOf haddr, valid.registry.addressOf haddr,
      valid.job.addressOf haddr⟩
  | completeJob valid held length duration_eq total_eq completed_eq =>
    exact ⟨valid.queue.addressOf haddr, valid.registry.addressOf haddr,
      valid.job.addressOf haddr⟩
  | failJobPermanent valid held retries_eq failed_eq exhausted total_eq =>
    exact ⟨valid.queue.addressOf haddr, valid.registry.addressOf haddr,
      valid.job.addressOf haddr⟩
  | failJobRetry valid held retries_eq failed_eq left attempts =>
    exact ⟨valid.queue.addressOf haddr, valid.registry.addressOf haddr,
      valid.job.addressOf haddr⟩
  | expireJob queue job processing expired => exact ⟨queue.addressOf haddr, job.addressOf haddr⟩
  | closeJob queue job creator finished => exact ⟨queue.addressOf haddr, job.addressOf haddr⟩

/-- A call that makes no request is rejected. -/
theorem execute_eq_error_of_request_eq_none (haddr : Addressed D σ) (hc : c.request D = none) :
    ∃ e, execute D σ c = .error e := by
  cases hexecute : execute D σ c with
  | error e => exact ⟨e, rfl⟩
  | ok r =>
    -- a call that commits has derived accounts, and would make a request
    unfold Call.request at hc
    rw [dif_pos ((execute_eq_ok.mp hexecute).canonical haddr)] at hc
    cases hc

/-- The program refines its specification. -/
theorem program_refines :
    (program D).Refines Spec.machine (Call.request D)
      (fun σ S => Addressed D σ ∧ Represents D S σ) (Tells D) Eq where
  init := ⟨addressed_run [], .empty, .empty, .empty⟩
  reject h hc := execute_eq_error_of_request_eq_none h.1 hc
  answer := by
    rintro σ S c r ⟨haddr, h⟩ hr
    refine (execute_agrees h haddr hr).imp fun x y hok _ hanswers => ?_
    exact ⟨⟨haddr.step (execute_eq_ok.mp hok), hanswers.1⟩, hanswers.2⟩

/-- In every run, whatever accounts its calls pass, the ledger holds what the store of names holds
after the requests of the run, and the committed calls are the requests granted, in order and with
the same replies. The events and transfers of the run are the only ones that these replies tell. -/
theorem refines_specification (calls : List (Call Pubkey)) :
    let requests := calls.filterMap (Call.request D)
    Represents D (Spec.machine.run requests) ((program D).run calls) ∧
      List.Forall₂
        (Machine.Matches (Call.request D) (fun σ S => Represents D S σ) (Tells D))
        ((program D).log calls) (Spec.machine.log requests) ∧
      ∀ outcomes : List (Outcome Pubkey),
        List.Forall₂ (Tells D) outcomes ((Spec.machine.log requests).map Machine.Entry.out) ↔
          outcomes = ((program D).log calls).map Machine.Entry.out := by
  intro requests
  have hlog := (program_refines (D := D)).log calls
  have hout : List.Forall₂ (Tells D) (((program D).log calls).map Machine.Entry.out)
      ((Spec.machine.log requests).map Machine.Entry.out) := by
    rw [List.forall₂_map_left_iff, List.forall₂_map_right_iff]
    exact hlog.imp fun e e' h => h.out
  refine ⟨(program_refines.run calls).2, hlog.imp ?_, fun outcomes => ⟨fun h => ?_, ?_⟩⟩
  · intro e e' h
    exact ⟨h.call, h.before.2, h.after.2, h.out⟩
  · exact Tells.leftUnique.forall₂ h hout
  · rintro rfl
    exact hout

/-- After every run, the next call is rejected if its accounts are not the derived ones, and is
otherwise answered as its request is, down to the error it is refused with. -/
theorem answers_as_specified (calls : List (Call Pubkey)) (c : Call Pubkey) :
    match c.request D with
    | none => ∃ e, execute D ((program D).run calls) c = .error e
    | some r => Agree Eq (Answers D) (execute D ((program D).run calls) c)
        ((Spec.machine.run (calls.filterMap (Call.request D))).serve r) := by
  obtain ⟨haddr, h⟩ := (program_refines (D := D)).run calls
  split
  next hc => exact execute_eq_error_of_request_eq_none haddr hc
  next r hc => exact execute_agrees h haddr hc

-- the calls of an honest client are requests
example : (Sample.day.filterMap (Call.request .free)).length = Sample.day.length := by
  decide +kernel

end Calls

end SolQueue
