import SolQueue.Bookkeeping
import Mathlib.Data.Set.Card
import Mathlib.Data.FinEnum

/-!
# Conservation of jobs

The counters of a queue live in one account, its jobs in as many others. In every run the counters
account for every job: the jobs enqueued are those completed, those failed and those still live and
unfinished.

* `unfinished_run`: enqueues are outcomes plus live unfinished jobs; `totalEnqueued_of_run`: the
  same for the counters.
* `everIn`: the numbers of the jobs of a queue that ever had a given status.
* `ncard_everIn`: as many jobs ever became Completed, or Failed, as outcomes were recorded.
* `queue_conservation`: the law for the counters of a queue.
-/

namespace SolQueue

variable {Pubkey : Type} [DecidableEq Pubkey]

/-- The job is still to be finished. -/
def Job.Unfinished (j : Job Pubkey) : Prop :=
  j.status = .pending ∨ j.status = .processing

/-- Whether a job is unfinished is decidable. -/
instance (j : Job Pubkey) : Decidable j.Unfinished := by
  unfold Job.Unfinished
  infer_instance

/-- The number of live jobs of the queue at `k` that are still to be finished. -/
def Ledger.unfinished (σ : Ledger Pubkey) (k : Pubkey) : ℕ :=
  Finmap.tally (fun _ j => if j.queue = k ∧ j.Unfinished then 1 else 0) σ.jobs

/-- The kind of operations that give a job its final status. -/
def JobStatus.outcomeKind : JobStatus → Option JobOpKind
  | .completed => some .complete
  | .failed => some .permanentFail
  | .pending | .processing => none

/-! ## Enqueues, outcomes and live jobs -/

/-- Every operation trades unfinished jobs for enqueues and outcomes. -/
theorem JobChange.unfinished {D : Derivation Pubkey} {σ : Ledger Pubkey} {now : Int64}
    {a k : Pubkey} {op : JobOp Pubkey} {old new : Option (Job Pubkey)} {j : Job Pubkey}
    (h : JobChange D σ now a (some op) old new) (hj : old.or new = some j) :
    (if op.kind = .enqueue ∧ j.queue = k then 1 else 0) +
        Finmap.weigh (fun _ j => if j.queue = k ∧ j.Unfinished then 1 else 0) a old =
      (if op.isOutcome ∧ j.queue = k then 1 else 0) +
        Finmap.weigh (fun _ j => if j.queue = k ∧ j.Unfinished then 1 else 0) a new := by
  cases h with
  | enqueue =>
    obtain rfl := Option.some.inj hj
    simp [JobOp.kind, JobOp.isOutcome, Job.Unfinished, EnqueueJob.newJob]
  | claim pending active =>
    obtain rfl := Option.some.inj hj
    simp [JobOp.kind, JobOp.isOutcome, Job.Unfinished, pending, Job.claimed]
  | complete held active length =>
    obtain rfl := Option.some.inj hj
    simp [JobOp.kind, JobOp.isOutcome, Job.Unfinished, held.processing, Job.completedWith]
  | failPermanent held active retries_eq exhausted =>
    obtain rfl := Option.some.inj hj
    simp [JobOp.kind, JobOp.isOutcome, Job.Unfinished, held.processing, Job.failedFor]
  | failRetry held active retries_eq left =>
    obtain rfl := Option.some.inj hj
    simp [JobOp.kind, JobOp.isOutcome, Job.Unfinished, held.processing, Job.retried,
      Job.withFailure]
  | expire queue processing expired =>
    obtain rfl := Option.some.inj hj
    simp [JobOp.kind, JobOp.isOutcome, Job.Unfinished, processing, Job.expired]
  | close finished =>
    obtain rfl := Option.some.inj hj
    rcases finished with h | h <;> simp [JobOp.kind, JobOp.isOutcome, Job.Unfinished, h]

section Runs

variable [Inhabited Pubkey] {D : Derivation Pubkey}

/-- In every run, the jobs enqueued on a queue are those finished and those live and unfinished. -/
theorem unfinished_run (calls : List (Call Pubkey)) (k : Pubkey) :
    countOps (fun j op => op.kind = .enqueue ∧ j.queue = k) ((program D).log calls) =
      countOps (fun j op => op.isOutcome ∧ j.queue = k) ((program D).log calls) +
        ((program D).run calls).unfinished k := by
  refine balance_run _ _ _ ?_ calls
  intro σ now a op old new j hchange hj
  simpa using hchange.unfinished hj

omit [Inhabited Pubkey] in
/-- Outcomes are completions and permanent failures. -/
theorem countOps_outcome (log : List (Entry Pubkey)) (k : Pubkey) :
    countOps (fun j op => op.isOutcome ∧ j.queue = k) log =
      countOps (fun j op => op.kind = .complete ∧ j.queue = k) log +
        countOps (fun j op => op.kind = .permanentFail ∧ j.queue = k) log := by
  refine countOps_add fun j op => ?_
  cases op with
  | fail w permanent => cases permanent <;> simp [JobOp.isOutcome, JobOp.kind]
  | _ => simp [JobOp.isOutcome, JobOp.kind]

end Runs

/-! ## Jobs that ever had a status -/

/-- The numbers of the live jobs of the queue at `k` with status `st`. -/
def Ledger.numbersIn (σ : Ledger Pubkey) (k : Pubkey) (st : JobStatus) : Set UInt64 :=
  {s | ∃ a j, σ.jobs.lookup a = some j ∧ j.queue = k ∧ j.status = st ∧ j.seq = s}

/-- The numbers of the jobs of the queue at `k` that had status `st` at some point of a run. -/
def everIn [Inhabited Pubkey] (D : Derivation Pubkey) (calls : List (Call Pubkey)) (k : Pubkey)
    (st : JobStatus) : Set UInt64 :=
  {s | ∃ calls₁, calls₁ <+: calls ∧ s ∈ ((program D).run calls₁).numbersIn k st}

/-- A job found with a final status had it before, or has just been given it by an outcome. -/
theorem JobChange.of_final {D : Derivation Pubkey} {σ : Ledger Pubkey} {now : Int64} {a : Pubkey}
    {op : Option (JobOp Pubkey)} {old : Option (Job Pubkey)} {j' : Job Pubkey} {kind : JobOpKind}
    (h : JobChange D σ now a op old (some j')) (hkind : j'.status.outcomeKind = some kind) :
    old = some j' ∨ ∃ op' j, op = some op' ∧ op'.kind = kind ∧ old = some j ∧
      j'.queue = j.queue ∧ j'.seq = j.seq := by
  cases h with
  | keep => exact .inl rfl
  | enqueue | claim | failRetry | expire => cases hkind
  | complete held active length =>
    exact .inr ⟨_, _, rfl, Option.some.inj hkind, rfl, rfl, rfl⟩
  | failPermanent held active retries_eq exhausted =>
    exact .inr ⟨_, _, rfl, Option.some.inj hkind, rfl, rfl, rfl⟩

/-- An outcome finds an unfinished job and gives it its final status. -/
theorem JobChange.to_final {D : Derivation Pubkey} {σ : Ledger Pubkey} {now : Int64} {a : Pubkey}
    {op : JobOp Pubkey} {old new : Option (Job Pubkey)} {j : Job Pubkey} {st : JobStatus}
    (h : JobChange D σ now a (some op) old new) (hj : old.or new = some j)
    (hkind : st.outcomeKind = some op.kind) :
    old = some j ∧ j.Unfinished ∧
      ∃ j', new = some j' ∧ j'.queue = j.queue ∧ j'.status = st ∧ j'.seq = j.seq := by
  cases st with
  | pending | processing => cases hkind
  | completed =>
    cases h with
    | complete held active length =>
      obtain rfl := Option.some.inj hj
      exact ⟨rfl, .inr held.processing, _, rfl, rfl, rfl, rfl⟩
    | _ => cases hkind
  | failed =>
    cases h with
    | failPermanent held active retries_eq exhausted =>
      obtain rfl := Option.some.inj hj
      exact ⟨rfl, .inr held.processing, _, rfl, rfl, rfl, rfl⟩
    | _ => cases hkind

section Runs

variable [Inhabited Pubkey] {D : Derivation Pubkey} {σ σ' : Ledger Pubkey} {c : Call Pubkey}
  {o : Outcome Pubkey} {k : Pubkey} {st : JobStatus} {kind : JobOpKind}

/-- The one job a step finishes with status `st` on the queue at `k`, or none. -/
theorem Step.numbersIn (h : Step D σ c σ' o) (hkind : st.outcomeKind = some kind) :
    (Entry.gain (fun j op => op.kind = kind ∧ j.queue = k) ⟨σ, c, o, σ'⟩ = 0 ∧
        σ'.numbersIn k st ⊆ σ.numbersIn k st) ∨
      (Entry.gain (fun j op => op.kind = kind ∧ j.queue = k) ⟨σ, c, o, σ'⟩ = 1 ∧
        ∃ a j, σ.jobs.lookup a = some j ∧ j.queue = k ∧ j.Unfinished ∧
          j.seq ∈ σ'.numbersIn k st ∧ σ'.numbersIn k st ⊆ insert j.seq (σ.numbersIn k st)) := by
  cases hop : Entry.jobOp ⟨σ, c, o, σ'⟩ with
  | none =>
    -- no job changes
    refine .inl ⟨Entry.gain_of_none (by rw [Entry.subject, hop]), ?_⟩
    rw [Ledger.numbersIn, Ledger.numbersIn, h.jobs_of_no_subject hop]
  | some s =>
    obtain ⟨a, op⟩ := s
    obtain ⟨hchange, hothers⟩ := h.jobs_of_subject hop
    obtain ⟨j, hj⟩ := hchange.exists_subject
    have hsub : Entry.subject ⟨σ, c, o, σ'⟩ = some (j, op) := by simp [Entry.subject, hop, hj]
    rw [Entry.gain_of_some hsub]
    -- a number found after the step was found before it, or is that of the job just finished
    have hnumbers : ∀ s ∈ σ'.numbersIn k st,
        s ∈ σ.numbersIn k st ∨ (op.kind = kind ∧ j.queue = k ∧ s = j.seq) := by
      rintro s ⟨x, j', hj', hqueue, hstatus, rfl⟩
      by_cases hx : x = a
      · subst hx
        rw [hj'] at hchange hj
        rcases hchange.of_final (hstatus ▸ hkind) with hold | ⟨op', j₀, hop', hk, hold, hq, hs⟩
        · exact .inl ⟨x, j', hold, hqueue, hstatus, rfl⟩
        · cases hop'
          rw [hold] at hj
          cases hj
          exact .inr ⟨hk, hq.symm.trans hqueue, hs⟩
      · exact .inl ⟨x, j', (hothers x hx) ▸ hj', hqueue, hstatus, rfl⟩
    -- the step finishes a job of the queue with this status, or none
    by_cases hcounts : op.kind = kind ∧ j.queue = k
    · obtain ⟨hold, hunfinished, j', hnew, hqueue, hstatus, hseq⟩ :=
        hchange.to_final hj (hcounts.1 ▸ hkind)
      refine .inr ⟨by simp [hcounts], a, j, hold, hcounts.2, hunfinished, ?_, ?_⟩
      · exact ⟨a, j', hnew, hqueue.trans hcounts.2, hstatus, hseq⟩
      · intro s hs
        rcases hnumbers s hs with hold' | ⟨-, -, rfl⟩
        · exact Set.mem_insert_of_mem _ hold'
        · exact Set.mem_insert _ _
    · refine .inl ⟨by simpa using hcounts, fun s hs => ?_⟩
      rcases hnumbers s hs with hold | ⟨hk, hq, -⟩
      · exact hold
      · exact absurd ⟨hk, hq⟩ hcounts

omit [Inhabited Pubkey] in
/-- An unfinished job was unfinished before, unless it has just been created. -/
theorem JobChange.unfinished_before {now : Int64} {a : Pubkey} {op : Option (JobOp Pubkey)}
    {j j' : Job Pubkey} (h : JobChange D σ now a op (some j) (some j'))
    (hj' : j'.Unfinished) : j.Unfinished := by
  cases h with
  | keep => exact hj'
  | claim pending active => exact .inl pending
  | complete held | failPermanent held | failRetry held => exact .inr held.processing
  | expire queue processing expired => exact .inr processing

theorem everIn_snoc (calls : List (Call Pubkey)) (c : Call Pubkey) :
    everIn D (calls ++ [c]) k st =
      everIn D calls k st ∪ ((program D).run (calls ++ [c])).numbersIn k st := by
  ext s
  constructor
  · rintro ⟨calls₁, hcalls, hs⟩
    rcases List.prefix_concat_iff.mp hcalls with rfl | hcalls
    · exact .inr hs
    · exact .inl ⟨calls₁, hcalls, hs⟩
  · rintro (⟨calls₁, hcalls, hs⟩ | hs)
    · exact ⟨calls₁, hcalls.trans (List.prefix_append _ _), hs⟩
    · exact ⟨_, List.prefix_rfl, hs⟩

theorem numbersIn_subset_everIn (calls : List (Call Pubkey)) :
    ((program D).run calls).numbersIn k st ⊆ everIn D calls k st :=
  fun _ hs => ⟨calls, List.prefix_rfl, hs⟩

/-- What ties the numbers of the jobs that ever had a final status to the log and the ledger. -/
structure Tracked (D : Derivation Pubkey) (calls : List (Call Pubkey)) (k : Pubkey)
    (st : JobStatus) (kind : JobOpKind) : Prop where
  card : (everIn D calls k st).ncard =
    countOps (fun j op => op.kind = kind ∧ j.queue = k) ((program D).log calls)
  fresh : ∀ a j, ((program D).run calls).jobs.lookup a = some j → j.queue = k → j.Unfinished →
    j.seq ∉ everIn D calls k st
  lt : ∀ s ∈ everIn D calls k st, ∃ q, ((program D).run calls).queueConfigs.lookup k = some q ∧
    s.toNat < q.nextJobSeq.toNat

omit [Inhabited Pubkey] in
/-- The number of a live job is below the counter of its queue. -/
theorem Sound.number_lt (h : Sound D σ) {s : UInt64} (hs : s ∈ σ.numbersIn k st) :
    ∃ q, σ.queueConfigs.lookup k = some q ∧ s.toNat < q.nextJobSeq.toNat := by
  obtain ⟨a, j, hj, rfl, -, rfl⟩ := hs
  obtain ⟨n, s, q, -, hq⟩ := h.addressed.job a j hj
  exact ⟨q, hq.lookup, h.numbered.lt a j q hj hq.lookup⟩

/-- An unfinished job after a step has a number that no job of its queue finished with. -/
theorem Tracked.fresh_step {calls : List (Call Pubkey)} (h : Tracked D calls k st kind)
    (hkind : st.outcomeKind = some kind) (hstep : Step D ((program D).run calls) c σ' o)
    (hsound : Sound D σ') {a : Pubkey} {j' : Job Pubkey} (hj' : σ'.jobs.lookup a = some j')
    (hqueue : j'.queue = k) (hunfinished : j'.Unfinished) :
    j'.seq ∉ everIn D calls k st ∪ σ'.numbersIn k st := by
  rintro (hever | ⟨a', j'', hj'', hqueue', hstatus, hseq⟩)
  · rcases hstep.job_origin hj' with ⟨ctx, n, s, params, hc, rfl⟩ | ⟨j, hj, hsame⟩
    · -- a new job has the counter as its number
      obtain ⟨now, _⟩ := c
      obtain rfl : _ = _ := hc
      obtain ⟨q, hq, -, ⟨j, hj, hseq, hk⟩, -⟩ := hstep.enqueued
      obtain rfl : j' = j := Option.some.inj (hj'.symm.trans hj)
      obtain ⟨q₀, hq₀, hlt⟩ := h.lt _ hever
      rw [← hqueue, hk, hq.lookup] at hq₀
      rw [hseq, ← Option.some.inj hq₀] at hlt
      exact lt_irrefl _ hlt
    · have hchange := hstep.jobChange a
      rw [hj, hj'] at hchange
      have hbefore := hchange.unfinished_before hunfinished
      rw [hsame.seq] at hever
      exact h.fresh a j hj (hsame.queue.symm.trans hqueue) hbefore hever
  · -- a finished job with this number is another job, but numbers are distinct
    have ha := hsound.numbered.injective a' a j'' j' hj'' hj' (hqueue'.trans hqueue.symm) hseq
    rw [ha, hj'] at hj''
    cases hj''
    rcases hunfinished with hpending | hprocessing
    · rw [← hstatus, hpending] at hkind
      cases hkind
    · rw [← hstatus, hprocessing] at hkind
      cases hkind

/-- A committed call keeps the numbers tracked. -/
theorem Tracked.step {calls : List (Call Pubkey)} (h : Tracked D calls k st kind)
    (hkind : st.outcomeKind = some kind)
    (hok : execute D ((program D).run calls) c = .ok (σ', o)) :
    Tracked D (calls ++ [c]) k st kind := by
  have hstep := execute_eq_ok.mp hok
  have hsound : Sound D σ' := (sound_run calls).step hstep
  have hrun : (program D).run (calls ++ [c]) = σ' := Machine.run_snoc_of_ok hok
  have hlog : (program D).log (calls ++ [c]) =
      (program D).log calls ++ [⟨(program D).run calls, c, o, σ'⟩] := Machine.log_snoc_of_ok hok
  have hever : everIn D (calls ++ [c]) k st = everIn D calls k st ∪ σ'.numbersIn k st := by
    rw [everIn_snoc, hrun]
  refine ⟨?_, ?_, ?_⟩
  · -- the number of the job just finished is new, as the job was unfinished until now
    rw [hever, hlog, countOps_snoc, ← h.card]
    rcases hstep.numbersIn hkind with ⟨hgain, hsub⟩ | ⟨hgain, a, j, hj, hqueue, hunf, hmem, hsub⟩
    · rw [hgain, Set.union_eq_left.mpr (hsub.trans (numbersIn_subset_everIn calls)),
        Nat.add_zero]
    · have hinsert : everIn D calls k st ∪ σ'.numbersIn k st =
          insert j.seq (everIn D calls k st) := by
        apply Set.Subset.antisymm
        · refine Set.union_subset (Set.subset_insert _ _) (hsub.trans ?_)
          exact Set.insert_subset_insert (numbersIn_subset_everIn calls)
        · exact Set.insert_subset (.inr hmem) Set.subset_union_left
      rw [hgain, hinsert, Set.ncard_insert_of_notMem (h.fresh a j hj hqueue hunf)]
  · intro a j' hj' hqueue hunfinished
    rw [hrun] at hj'
    rw [hever]
    exact h.fresh_step hkind hstep hsound hj' hqueue hunfinished
  · intro s hs
    rw [hever] at hs
    rw [hrun]
    rcases hs with hs | hs
    · obtain ⟨q, hq, hlt⟩ := h.lt s hs
      have hchange := hstep.queueChange k
      rw [hq] at hchange
      obtain ⟨q', hq', -, hle⟩ := hchange.persists
      exact ⟨q', hq', lt_of_lt_of_le hlt hle⟩
    · exact hsound.number_lt hs

/-- In every run the numbers are tracked. -/
theorem tracked_run (calls : List (Call Pubkey)) (k : Pubkey)
    (hkind : st.outcomeKind = some kind) : Tracked D calls k st kind := by
  induction calls using List.reverseRecOn with
  | nil =>
    have hempty : everIn D [] k st = ∅ := by
      apply Set.eq_empty_of_forall_notMem
      rintro s ⟨calls₁, hcalls, a, j, hj, -⟩
      -- no job was there at the start
      rw [List.prefix_nil.mp hcalls] at hj
      cases hj
    refine ⟨by rw [hempty]; exact Set.ncard_empty _, fun a j hj => (nomatch hj), ?_⟩
    rw [hempty]
    intro s hs
    cases hs
  | append_singleton calls c ih =>
    cases hok : execute D ((program D).run calls) c with
    | error e =>
      -- a rejected call adds nothing to the log and no new ledger
      have hrun : (program D).run (calls ++ [c]) = (program D).run calls :=
        Machine.run_snoc_of_error hok
      have hlog : (program D).log (calls ++ [c]) = (program D).log calls :=
        Machine.log_snoc_of_error hok
      have hever : everIn D (calls ++ [c]) k st = everIn D calls k st := by
        rw [everIn_snoc, hrun]
        exact Set.union_eq_left.mpr (numbersIn_subset_everIn calls)
      refine ⟨?_, ?_, ?_⟩
      · rw [hever, hlog]
        exact ih.card
      · rw [hever, hrun]
        exact ih.fresh
      · rw [hever, hrun]
        exact ih.lt
    | ok r => exact ih.step hkind hok

/-- As many jobs of a queue ever got a final status as outcomes gave it to one of them. -/
theorem ncard_everIn (calls : List (Call Pubkey)) (k : Pubkey)
    (hkind : st.outcomeKind = some kind) : (everIn D calls k st).ncard =
      countOps (fun j op => op.kind = kind ∧ j.queue = k) ((program D).log calls) :=
  (tracked_run calls k hkind).card

/-- An `enqueueJob` call gives its job a number that no job of the queue had before, so the number
tells the jobs of a queue apart. -/
theorem number_ne_of_earlier {calls : List (Call Pubkey)} {pre post : List (Entry Pubkey)}
    {e e' : Entry Pubkey} {a a' creator : Pubkey} {j j' : Job Pubkey}
    (hlog : (program D).log calls = pre ++ e :: post) (hop : e.opOn a = some (.enqueue creator))
    (hj : e.after.jobs.lookup a = some j) (he' : e' ∈ pre)
    (hj' : e'.after.jobs.lookup a' = some j') (hqueue : j'.queue = j.queue) : j'.seq ≠ j.seq := by
  obtain ⟨calls₁, _, -, hpre, hbefore, hcommit, -⟩ := Machine.log_eq_append_cons hlog
  have hstep : Step D e.before e.call e.after e.out := execute_eq_ok.mp hcommit
  obtain ⟨ctx, n, s, params, hc, rfl⟩ := hstep.created_by_enqueue hop
  obtain ⟨before, ⟨now, _⟩, out, after⟩ := e
  obtain rfl : _ = _ := hc
  obtain ⟨q, hq, -, ⟨j₀, hj₀, hseq, hk⟩, -⟩ := hstep.enqueued
  obtain rfl : j = j₀ := Option.some.inj (hj.symm.trans hj₀)
  -- the other job's number was below the counter, which has only grown since
  obtain ⟨calls₂, ⟨calls₃, hcalls⟩, -, hafter, -⟩ := step_of_mem_log (hpre ▸ he')
  have hsound : Sound D e'.after := hafter ▸ sound_run _
  obtain ⟨m, s', q₁, hfind, hq₁⟩ := hsound.addressed.job a' j' hj'
  have hlt := hsound.numbered.lt a' j' q₁ hj' hq₁.lookup
  obtain ⟨q₂, hq₂, -, hle⟩ := queueAt_runFrom calls₃ hq₁
  rw [← hafter, ← Machine.run_append, hcalls, hbefore, hqueue, hk] at hq₂
  obtain rfl : q = q₂ := Option.some.inj (hq.lookup.symm.trans hq₂.lookup)
  intro heq
  rw [heq, hseq] at hlt
  omega

/-- In every run the jobs enqueued on a queue are those completed, those failed and those live and
unfinished, by the counters of the queue. -/
theorem totalEnqueued_of_run (calls : List (Call Pubkey)) {k : Pubkey} {q : QueueConfig Pubkey}
    (hq : ((program D).run calls).queueConfigs.lookup k = some q) :
    q.totalCompleted.toNat + q.totalFailed.toNat + ((program D).run calls).unfinished k =
      q.totalEnqueued.toNat := by
  have hcompleted := queueStat_of_run calls hq .completed
  have hfailed := queueStat_of_run calls hq .failed
  calc q.totalCompleted.toNat + q.totalFailed.toNat + ((program D).run calls).unfinished k
    _ = countOps (fun j op => op.isOutcome ∧ j.queue = k) ((program D).log calls) +
          ((program D).run calls).unfinished k := by
      rw [countOps_outcome]
      exact congrArg₂ (· + · + _) hcompleted hfailed
    _ = q.totalEnqueued.toNat := by
      rw [← unfinished_run]
      exact (queueStat_of_run calls hq .enqueued).symm

/-- In every run and for every queue, the jobs enqueued are those completed, those failed and those
live and unfinished; the jobs that ever became Completed, and those that ever became Failed, are as
many as the counters say. Jobs are told apart by their numbers, none of which is given twice. -/
theorem queue_conservation (calls : List (Call Pubkey)) {k : Pubkey} {q : QueueConfig Pubkey}
    (hq : ((program D).run calls).queueConfigs.lookup k = some q) :
    q.totalCompleted.toNat + q.totalFailed.toNat + ((program D).run calls).unfinished k =
        q.totalEnqueued.toNat ∧
      q.totalCompleted.toNat = (everIn D calls k .completed).ncard ∧
      q.totalFailed.toNat = (everIn D calls k .failed).ncard ∧
      ∀ pre e post a creator j, (program D).log calls = pre ++ e :: post →
        Entry.opOn a e = some (.enqueue creator) → e.after.jobs.lookup a = some j → j.queue = k →
        ∀ e' ∈ pre, ∀ a' j', e'.after.jobs.lookup a' = some j' → j'.queue = k →
          j'.seq ≠ j.seq := by
  have hcompleted := queueStat_of_run calls hq .completed
  have hfailed := queueStat_of_run calls hq .failed
  refine ⟨totalEnqueued_of_run calls hq, hcompleted.trans (ncard_everIn calls k rfl).symm,
    hfailed.trans (ncard_everIn calls k rfl).symm, ?_⟩
  intro pre e post a creator j hlog hop hj hqueue e' he' a' j' hj' hqueue'
  exact number_ne_of_earlier hlog hop hj he' hj' (hqueue'.trans hqueue.symm)

/-- The sample run: its one job was completed, then closed. -/
theorem queue_conservation_day :
    (everIn Derivation.free Sample.day Sample.queue .completed).ncard = 1 ∧
      (everIn Derivation.free Sample.day Sample.queue .failed).ncard = 0 := by
  have hlookup : (((program Derivation.free).run Sample.day).queueConfigs.lookup
      Sample.queue).map (fun q => (q.totalCompleted, q.totalFailed)) = some (1, 0) := by
    decide +kernel
  obtain ⟨q, hq, hcounters⟩ := Option.map_eq_some_iff.mp hlookup
  obtain ⟨hcompleted, hfailed⟩ := Prod.mk.inj hcounters
  obtain ⟨-, hever_completed, hever_failed, -⟩ := queue_conservation Sample.day hq
  rw [← hever_completed, ← hever_failed, hcompleted, hfailed]
  decide

end Runs

end SolQueue
