import SolQueue.Lifecycle

/-!
# Job numbers and job addresses

A job's address comes from the `seq` argument of the `enqueueJob` call that creates it, its stored
number from the counter of the queue. The instruction never compares the two, so they agree only
as far as its callers pass the counter.

* `SeqAgrees`, `seqAgrees_iff_passesCounter`: addresses and stored numbers agree throughout a run
  exactly when every committed `enqueueJob` passed the counter.
* `enqueueJob_ok_iff_allClosed`: an `enqueueJob` call that passes the counter is blocked exactly by
  a job created ahead of the counter at that address and not closed since.
-/

namespace SolQueue

open Checked

variable {Pubkey : Type} [DecidableEq Pubkey] [Inhabited Pubkey] {D : Derivation Pubkey}
  {σ σ' : Ledger Pubkey} {c : Call Pubkey} {o : Outcome Pubkey}

/-! ## Agreement of addresses and stored numbers -/

/-- Every job stores the number its address is derived from, and that number is below the counter
of its queue. -/
def SeqAgrees (D : Derivation Pubkey) (σ : Ledger Pubkey) : Prop :=
  ∀ (n : String) (s : UInt64) (a : Pubkey) (b : UInt8) (j : Job Pubkey),
    D.findProgramAddress (.job n.asBytes s) = some (a, b) → σ.jobs.lookup a = some j →
    j.seq = s ∧ ∃ q, QueueAt D σ n j.queue q ∧ s.toNat < q.nextJobSeq.toNat

/-- If the call is an `enqueueJob`, its `seq` argument is the counter of its queue. -/
def Entry.PassesCounter (e : Entry Pubkey) : Prop :=
  ∀ ctx n s params, e.call.instruction = .enqueueJob ctx n s params →
    ∀ q, e.before.queueConfigs.lookup ctx.queueConfig = some q → s = q.nextJobSeq

/-- A job that was there agrees with its address after any step. -/
theorem SeqAgrees.kept (h : SeqAgrees D σ) (hstep : Step D σ c σ' o) {n : String} {s : UInt64}
    {a : Pubkey} {b : UInt8} {j j' : Job Pubkey}
    (hfind : D.findProgramAddress (.job n.asBytes s) = some (a, b))
    (hj : σ.jobs.lookup a = some j) (hsame : SameIdentity j j') :
    j'.seq = s ∧ ∃ q', QueueAt D σ' n j'.queue q' ∧ s.toNat < q'.nextJobSeq.toNat := by
  obtain ⟨hseq, q, hq, hlt⟩ := h n s a b j hfind hj
  obtain ⟨q', hq', -, hle⟩ := hstep.queueAt hq
  rw [hsame.seq, hsame.queue]
  exact ⟨hseq, q', hq', lt_of_lt_of_le hlt hle⟩

/-- A call that passes the counter keeps addresses and stored numbers in agreement. -/
theorem SeqAgrees.step (h : SeqAgrees D σ) (hstep : Step D σ c σ' o)
    (hcounter : Entry.PassesCounter ⟨σ, c, o, σ'⟩) : SeqAgrees D σ' := by
  intro n s a b j' hfind hj'
  rcases hstep.job_origin hj' with ⟨ctx, n', s', params, hc, rfl⟩ | ⟨j, hj, hsame⟩
  · obtain ⟨now, _⟩ := c
    obtain rfl : _ = _ := hc
    obtain ⟨q, hq, ⟨b', hfind'⟩, ⟨j, hj, hseq, hqueue⟩, ⟨q', hq', hnext⟩⟩ := hstep.enqueued
    obtain rfl : j' = j := Option.some.inj (hj'.symm.trans hj)
    obtain ⟨hname, rfl⟩ := Seeds.job.inj (D.find_injective hfind hfind')
    -- the new job: its address comes from the argument, its number from the counter
    have hs : s = q.nextJobSeq := hcounter _ _ _ _ rfl q hq.lookup
    refine ⟨hseq.trans hs.symm, q', ?_, by rw [hnext, hs]; exact Nat.lt_succ_self _⟩
    rw [hqueue]
    exact ⟨hq'.lookup, hname ▸ hq'.seeds⟩
  · exact h.kept hstep hfind hj hsame

/-- If every committed `enqueueJob` of a run passed the counter, addresses and stored numbers agree
at its end. -/
theorem seqAgrees_run (calls : List (Call Pubkey))
    (h : ∀ e ∈ (program D).log calls, Entry.PassesCounter e) :
    SeqAgrees D ((program D).run calls) := by
  refine Machine.runFrom_induction_of_log (M := program D) (P := SeqAgrees D)
    (fun σ c σ' o ih hok hcounter => ih.step (execute_eq_ok.mp hok) hcounter) ?_ calls h
  intro n s a b j _ hj
  cases hj

/-- Addresses and stored numbers agree in every state of a run exactly when every `enqueueJob` that
committed in it passed the counter of its queue. -/
theorem seqAgrees_iff_passesCounter (calls : List (Call Pubkey)) :
    (∀ calls₁, calls₁ <+: calls → SeqAgrees D ((program D).run calls₁)) ↔
      ∀ e ∈ (program D).log calls, Entry.PassesCounter e := by
  constructor
  · intro h e he ctx n s params hc q hq
    obtain ⟨calls₁, hprefix, -, hafter, hstep⟩ := step_of_mem_log he
    have hagrees : SeqAgrees D e.after := hafter ▸ h _ hprefix
    obtain ⟨before, ⟨now, _⟩, out, after⟩ := e
    obtain rfl : _ = _ := hc
    -- agreement right after the call compares its argument with the counter it found
    obtain ⟨q', hq', ⟨b, hfind⟩, ⟨j, hj, hseq, -⟩, -⟩ := hstep.enqueued
    obtain rfl : q = q' := Option.some.inj (hq.symm.trans hq'.lookup)
    exact ((hagrees n s ctx.job b j hfind hj).1).symm.trans hseq
  · intro h calls₁ hprefix
    exact seqAgrees_run calls₁ fun e he => h e (Machine.mem_log_of_prefix hprefix he)

/-- A producer who passes 1 while the counter is 0 gets the job numbered 0 at the address of 1. -/
theorem not_seqAgrees_of_ahead :
    ¬∀ calls : List (Call Key),
      SeqAgrees Derivation.free ((program Derivation.free).run calls) := by
  intro h
  have hseq : (((program Derivation.free).run
      [Sample.create 3 60, Sample.enqueue Sample.producer 1 none]).jobs.lookup (Sample.job 1)).map
        (·.seq) = some 0 := by decide +kernel
  obtain ⟨j, hj, hzero⟩ := Option.map_eq_some_iff.mp hseq
  have hone := (h _ Sample.name 1 (Sample.job 1) 255 j (by decide +kernel) hj).1
  rw [hzero] at hone
  exact absurd hone (by decide)

/-! ## Blocked producers -/

omit [Inhabited Pubkey] in
/-- An address derived for a job can hold nothing but a job. -/
theorem Addressed.not_owned (h : Addressed D σ) {n : String} {s : UInt64} {a : Pubkey} {b : UInt8}
    (hfind : D.findProgramAddress (.job n.asBytes s) = some (a, b))
    (hjob : σ.jobs.lookup a = none) : ¬σ.Owned a := by
  -- a queue or a registry there would be derived from other seeds
  rintro (hqueue | hregistry | hjob')
  · obtain ⟨q, hq⟩ := Finmap.mem_iff.mp hqueue
    obtain ⟨m, hm⟩ := h.queue a q hq
    cases D.find_injective hfind hm
  · obtain ⟨r, hr⟩ := Finmap.mem_iff.mp hregistry
    obtain ⟨m, _, hm, -⟩ := h.registry a r hr
    cases D.find_injective hfind hm
  · exact Finmap.lookup_eq_none.mp hjob hjob'

/-- On an unpaused queue with counters in range, an `enqueueJob` call with a payload and job type
that fit commits exactly when the address of its `seq` argument holds no job. -/
theorem enqueueJob_ok_iff_lookup (haddr : Addressed D σ) {n : String} {k a creator : Pubkey}
    {s : UInt64} {b : UInt8} {q : QueueConfig Pubkey} {now : Int64} {params : EnqueueJobParams}
    (hq : QueueAt D σ n k q) (hunpaused : q.isPaused = false)
    (hnext : q.nextJobSeq.toNat < 2 ^ 64 - 1) (htotal : q.totalEnqueued.toNat < 2 ^ 64 - 1)
    (hfind : D.findProgramAddress (.job n.asBytes s) = some (a, b))
    (hpayload : params.payload.length ≤ 512) (hjobType : params.jobType.asBytes.length ≤ 32) :
    (∃ r, execute D σ ⟨now, .enqueueJob ⟨creator, k, a⟩ n s params⟩ = .ok r) ↔
      σ.jobs.lookup a = none := by
  constructor
  · rintro ⟨⟨σ', o⟩, hstep⟩
    cases execute_eq_ok.mp hstep with
    | enqueueJob queue fresh => exact (Ledger.lookup_eq_none_of_not_owned fresh.free).2.2
  · intro hfree
    -- the counters are in range and the arguments fit, so nothing else rejects the call
    obtain ⟨next, hnext⟩ :=
      exists_toNat_eq_uint64.mpr (show q.nextJobSeq.toNat + 1 < 2 ^ 64 by omega)
    obtain ⟨total, htotal⟩ :=
      exists_toNat_eq_uint64.mpr (show q.totalEnqueued.toNat + 1 < 2 ^ 64 by omega)
    have hfresh : Fresh D σ (.job n.asBytes s) a b := ⟨hfind, haddr.not_owned hfind hfree⟩
    exact ⟨_, execute_eq_ok.mpr (.enqueueJob hq hfresh hunpaused hpayload
      hjobType hnext htotal)⟩

/-- A job enqueued at the address of a number the counter has not passed was enqueued ahead of the
counter: with that number, while the counter was below it. -/
theorem ahead_of_enqueue {calls : List (Call Pubkey)} {n : String} {k a creator : Pubkey}
    {q : QueueConfig Pubkey} {b : UInt8} (hq : QueueAt D ((program D).run calls) n k q)
    (hfind : D.findProgramAddress (.job n.asBytes q.nextJobSeq) = some (a, b))
    {e : Entry Pubkey} (he : e ∈ (program D).log calls) (hop : e.opOn a = some (.enqueue creator)) :
    ∃ ctx m params q₀, e.call.instruction = .enqueueJob ctx m q.nextJobSeq params ∧
      e.before.queueConfigs.lookup k = some q₀ ∧ q₀.nextJobSeq.toNat < q.nextJobSeq.toNat := by
  obtain ⟨calls₁, ⟨calls₂, hcalls⟩, hbefore, hafter, hstep⟩ := step_of_mem_log he
  have haddr : Addressed D e.before := hbefore ▸ addressed_run calls₁
  obtain ⟨ctx, m, s, params, hc, rfl⟩ := hstep.created_by_enqueue hop
  obtain ⟨before, ⟨now, _⟩, out, after⟩ := e
  obtain rfl : _ = _ := hc
  obtain ⟨q₀, hq₀, ⟨b', hfind'⟩, -, ⟨q', hq', hnext⟩⟩ := hstep.enqueued
  obtain ⟨hname, rfl⟩ := Seeds.job.inj (D.find_injective hfind' hfind)
  -- the call was on the same queue, whose counter has not decreased since
  obtain rfl := haddr.queue_unique (addressed_run calls) hq₀ hq hname
  obtain ⟨q₁, hq₁, -, hle⟩ := queueAt_runFrom calls₂ hq'
  rw [← hafter, ← Machine.run_append, hcalls] at hq₁
  obtain rfl : q = q₁ := Option.some.inj (hq.lookup.symm.trans hq₁.lookup)
  exact ⟨ctx, m, params, q₀, rfl, hq₀.lookup, by omega⟩

/-- In every reachable ledger, an `enqueueJob` call that passes the counter of an unpaused queue
commits exactly when every job enqueued at that address before has been closed. Such a job was
created by a caller who passed that number ahead of the counter. -/
theorem enqueueJob_ok_iff_allClosed (calls : List (Call Pubkey)) {n : String} {k : Pubkey}
    {q : QueueConfig Pubkey} (hq : QueueAt D ((program D).run calls) n k q)
    (hunpaused : q.isPaused = false) (hnext : q.nextJobSeq.toNat < 2 ^ 64 - 1)
    (htotal : q.totalEnqueued.toNat < 2 ^ 64 - 1) :
    ∃ a b, D.findProgramAddress (.job n.asBytes q.nextJobSeq) = some (a, b) ∧
      (∀ (creator : Pubkey) (now : Int64) (params : EnqueueJobParams),
        params.payload.length ≤ 512 → params.jobType.asBytes.length ≤ 32 →
        ((∃ r, execute D ((program D).run calls)
            ⟨now, .enqueueJob ⟨creator, k, a⟩ n q.nextJobSeq params⟩ = .ok r) ↔
          Phase.AllClosed (opsOn a ((program D).log calls)))) ∧
      ∀ e ∈ (program D).log calls, ∀ creator, Entry.opOn a e = some (.enqueue creator) →
        ∃ ctx m params q₀, e.call.instruction = .enqueueJob ctx m q.nextJobSeq params ∧
          e.before.queueConfigs.lookup k = some q₀ ∧
          q₀.nextJobSeq.toNat < q.nextJobSeq.toNat := by
  have hname : n.asBytes.length ≤ 32 := D.length_le_of_create hq.seeds
  obtain ⟨⟨a, b⟩, hfind⟩ := D.find_of_length_le (s := .job n.asBytes q.nextJobSeq) hname
  refine ⟨a, b, hfind, fun creator now params hpayload hjobType => ?_,
    fun e he creator hop => ahead_of_enqueue hq hfind he hop⟩
  rw [← lookup_eq_none_iff]
  exact enqueueJob_ok_iff_lookup (addressed_run calls) hq hunpaused hnext htotal hfind hpayload
    hjobType

/-- A job is enqueued at the address of 1 while the counter is 0, completed and closed. -/
def Sample.ahead : List (Call Key) :=
  [create 3 60, register worker, enqueue (.wallet 9) 1 none, claim 2 worker 1,
    complete 3 worker 1, ⟨4, .closeJob ⟨.wallet 9, queue, job 1⟩ name 1⟩]

/-- The counter is 1 then, and the next call commits: the job that was ahead of it is closed. -/
theorem enqueueJob_ok_iff_allClosed_sample :
    ∃ r, execute Derivation.free ((program Derivation.free).run Sample.ahead)
      (Sample.enqueue Sample.producer 1 none) = .ok r := by
  obtain ⟨q, hq, hnext, htotal, hunpaused⟩ : ∃ q, QueueAt Derivation.free
      ((program Derivation.free).run Sample.ahead) Sample.name Sample.queue q ∧
      q.nextJobSeq = 1 ∧ q.totalEnqueued = 1 ∧ q.isPaused = false :=
    ⟨_, ⟨rfl, rfl⟩, rfl, rfl, rfl⟩
  obtain ⟨a, b, hfind, hiff, -⟩ := enqueueJob_ok_iff_allClosed Sample.ahead hq hunpaused
    (by rw [hnext]; decide) (by rw [htotal]; decide)
  rw [hnext] at hfind hiff
  obtain rfl : Sample.job 1 = a := (Prod.mk.inj (Option.some.inj hfind)).1
  refine (hiff Sample.producer 1 (Sample.params none) (by decide) (by decide +kernel)).mpr ?_
  have hops : opsOn (Sample.job 1) ((program Derivation.free).log Sample.ahead) =
      [.enqueue (.wallet 9), .claim Sample.worker, .complete Sample.worker,
        .close (.wallet 9)] := by
    decide +kernel
  rw [hops]
  rintro (_ | ⟨op, l⟩) creator r h
  · obtain ⟨-, rfl⟩ := List.cons.inj h
    exact ⟨.wallet 9, by simp⟩
  · -- no job is enqueued there later
    have henqueue : JobOp.enqueue creator ∈ l ++ .enqueue creator :: r := by simp
    rw [List.cons_append, List.cons.injEq] at h
    rw [← h.2] at henqueue
    simp at henqueue

/-- A producer who passes 1 while the counter is 0 blocks the next call, which passes 1 as it
should. -/
theorem not_enqueueJob_ok_of_ahead :
    ¬∀ (calls : List (Call Key)) (n : String) (k : Key) (q : QueueConfig Key),
      QueueAt Derivation.free ((program Derivation.free).run calls) n k q → q.isPaused = false →
      q.nextJobSeq.toNat < 2 ^ 64 - 1 → q.totalEnqueued.toNat < 2 ^ 64 - 1 →
      ∀ a b, Derivation.free.findProgramAddress (.job n.asBytes q.nextJobSeq) = some (a, b) →
      ∀ (creator : Key) (now : Int64) (params : EnqueueJobParams),
        params.payload.length ≤ 512 → params.jobType.asBytes.length ≤ 32 →
        ∃ r, execute Derivation.free ((program Derivation.free).run calls)
          ⟨now, .enqueueJob ⟨creator, k, a⟩ n q.nextJobSeq params⟩ = .ok r := by
  intro h
  obtain ⟨r, hr⟩ := h [Sample.create 3 60, Sample.enqueue (.wallet 9) 1 none] Sample.name
    Sample.queue _ ⟨rfl, rfl⟩ rfl (by decide) (by decide) (Sample.job 1) 255 (by decide +kernel)
    Sample.producer 1 (Sample.params none) (by decide) (by decide +kernel)
  have hblocked : (execute Derivation.free ((program Derivation.free).run
      [Sample.create 3 60, Sample.enqueue (.wallet 9) 1 none])
      (Sample.enqueue Sample.producer 1 none)).toOption.isSome = false := by decide +kernel
  rw [show execute _ _ (Sample.enqueue Sample.producer 1 none) = .ok r from hr] at hblocked
  cases hblocked

end SolQueue
