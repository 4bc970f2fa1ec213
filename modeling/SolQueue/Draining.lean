import SolQueue.Lib.Progress
import SolQueue.Correctness
import SolQueue.SuccessConditions

/-!
# Queues can be drained

Once the leases on a queue are over, no job of it is stuck: one active worker can finish all its
jobs, whatever has happened before and whether or not the queue is paused. Jobs of workers who are
gone are expired, the jobs are claimed and completed, and their creators close them. A lease is over
when `is_expired` says so. Under a timeout so long that the deadline overflows it never does, and a
job claimed there leaves only through its worker.

* `Ready`: the leases on a queue are over, and a worker is active on it, with room in the counters
  for a number of jobs.
* `Ready.finish`: the worker can finish any one job of the queue, with at most four calls.
* `live_le_length`: a queue has at most as many live jobs as there were calls.
* `queue_drainable`: in every reachable ledger all jobs of the queue can be finished.
-/

namespace SolQueue

open Checked

variable {Pubkey : Type} [DecidableEq Pubkey]

/-- At time `now` every lease on the queue at `k` is over. -/
def LeasesOver (σ : Ledger Pubkey) (k : Pubkey) (now timeoutSecs : Int64) : Prop :=
  ∀ a j, σ.jobs.lookup a = some j → j.queue = k → j.status = .processing →
    j.isExpired now timeoutSecs = .ok true

/-- The worker `w` can work on the queue named `n` at time `now`, and the counters have room for `m`
more jobs. -/
structure Ready (D : Derivation Pubkey) (σ : Ledger Pubkey) (n : String) (w k x : Pubkey)
    (now timeoutSecs : Int64) (m : ℕ) : Prop where
  addressed : Addressed D σ
  queue : ∃ q, QueueAt D σ n k q ∧ q.jobTimeoutSecs = timeoutSecs ∧
    q.totalCompleted.toNat + m < 2 ^ 64
  registry : ∃ r, RegistryAt D σ n w k x r ∧ r.isActive = true ∧
    r.jobsClaimed.toNat + m < 2 ^ 64 ∧ r.jobsCompleted.toNat + m < 2 ^ 64
  leases : LeasesOver σ k now timeoutSecs

/-- The call is made at time `now` under the name `n`, by the worker `w` or by `creator`. -/
structure Call.Serves (now : Int64) (n : String) (w creator : Pubkey) (c : Call Pubkey) :
    Prop where
  now : c.now = now
  name : c.instruction.queueName = n
  signer : c.instruction.signer = w ∨ c.instruction.signer = creator

/-- Writing a job that is not Processing starts no lease. -/
theorem LeasesOver.insert {σ σ' : Ledger Pubkey} {k a : Pubkey} {now timeoutSecs : Int64}
    {j : Job Pubkey} (h : LeasesOver σ k now timeoutSecs) (hσ' : σ'.jobs = σ.jobs.insert a j)
    (hstatus : j.status ≠ .processing) : LeasesOver σ' k now timeoutSecs := by
  intro b j' hj' hqueue hprocessing
  rw [hσ', Finmap.lookup_insert_eq_ite] at hj'
  split_ifs at hj' with hb
  · obtain rfl := Option.some.inj hj'
    exact absurd hprocessing hstatus
  · exact h b j' hj' hqueue hprocessing

namespace Ready

variable [Inhabited Pubkey] {D : Derivation Pubkey} {σ : Ledger Pubkey} {n : String}
  {w k x a : Pubkey} {now timeoutSecs : Int64} {m : ℕ} {j : Job Pubkey}

omit [Inhabited Pubkey] in
/-- Room for more jobs is room for fewer. -/
theorem mono (h : Ready D σ n w k x now timeoutSecs (m + 1)) :
    Ready D σ n w k x now timeoutSecs m := by
  obtain ⟨q, hq, htimeout, htotal⟩ := h.queue
  obtain ⟨r, hr, hactive, hclaimed, hcompleted⟩ := h.registry
  exact { h with
    queue := ⟨q, hq, htimeout, by omega⟩
    registry := ⟨r, hr, hactive, by omega, by omega⟩ }

omit [Inhabited Pubkey] in
/-- A job of the queue passes the address checks under the name of the queue. -/
theorem jobAt (h : Ready D σ n w k x now timeoutSecs m) (hj : σ.jobs.lookup a = some j)
    (hqueue : j.queue = k) : ∃ s, JobAt D σ n s k a j := by
  obtain ⟨n', s, q', hfind, hq'⟩ := h.addressed.job a j hj
  obtain ⟨q, hq, -⟩ := h.queue
  rw [hqueue] at hq'
  have hname : n'.asBytes = n.asBytes :=
    Seeds.queue.inj (D.create_injective hq'.seeds hq.seeds).1
  exact ⟨s, hj, hname ▸ D.create_of_find hfind, hqueue⟩

/-- A Processing job is expired, by the worker as by anyone. -/
theorem expire (h : Ready D σ n w k x now timeoutSecs m) (hj : σ.jobs.lookup a = some j)
    (hqueue : j.queue = k) (hprocessing : j.status = .processing) :
    (program D).Reaches (Call.Serves now n w j.creator) 1 σ
        { σ with jobs := σ.jobs.insert a j.expired } ∧
      Ready D { σ with jobs := σ.jobs.insert a j.expired } n w k x now timeoutSecs m := by
  obtain ⟨s, hjobAt⟩ := h.jobAt hj hqueue
  obtain ⟨q, hq, rfl, htotal⟩ := h.queue
  have hstep : Step D σ ⟨now, .expireJob ⟨w, k, a⟩ n s⟩ _ _ :=
    .expireJob hq hjobAt hprocessing (h.leases a j hj hqueue hprocessing)
  refine ⟨.one (execute_eq_ok.mpr hstep) ⟨rfl, rfl, .inl rfl⟩, ?_⟩
  obtain ⟨r, hr, hrest⟩ := h.registry
  exact ⟨h.addressed.step hstep, ⟨q, ⟨hq.lookup, hq.seeds⟩, rfl, htotal⟩,
    ⟨r, ⟨hr.lookup, hr.seeds, hr.queue⟩, hrest⟩, h.leases.insert rfl (by simp [Job.expired])⟩

/-- A Pending job is claimed and completed. -/
theorem work (h : Ready D σ n w k x now timeoutSecs (m + 1)) (hj : σ.jobs.lookup a = some j)
    (hqueue : j.queue = k) (hpending : j.status = .pending) :
    ∃ σ' j', (program D).Reaches (Call.Serves now n w j.creator) 2 σ σ' ∧
      Ready D σ' n w k x now timeoutSecs m ∧ σ'.jobs = σ.jobs.insert a j' ∧
      j'.status = .completed ∧ j'.queue = k ∧ j'.creator = j.creator := by
  obtain ⟨s, hjobAt⟩ := h.jobAt hj hqueue
  obtain ⟨q, hq, htimeout, htotal⟩ := h.queue
  obtain ⟨r, hr, hactive, hclaimed, hcompleted⟩ := h.registry
  obtain ⟨total, htotal'⟩ :=
    exists_toNat_eq_uint64.mpr (show q.totalCompleted.toNat + 1 < 2 ^ 64 by omega)
  obtain ⟨claimed, hclaimed'⟩ :=
    exists_toNat_eq_uint64.mpr (show r.jobsClaimed.toNat + 1 < 2 ^ 64 by omega)
  obtain ⟨completed, hcompleted'⟩ :=
    exists_toNat_eq_uint64.mpr (show r.jobsCompleted.toNat + 1 < 2 ^ 64 by omega)
  have hclaim : Step D σ ⟨now, .claimJob ⟨w, k, x, a⟩ n s⟩ _ _ :=
    .claimJob ⟨hq, hr, hactive, hjobAt⟩ hpending hclaimed'
  -- the completion finds the registry and the job as the claim left them
  have hcomplete : Step D
      { σ with
        workerRegistries := σ.workerRegistries.insert x { r with jobsClaimed := claimed }
        jobs := σ.jobs.insert a (j.claimed w now) }
      ⟨now, .completeJob ⟨w, k, x, a⟩ n s ⟨[]⟩⟩ _ _ :=
    .completeJob
      ⟨⟨hq.lookup, hq.seeds⟩, ⟨Finmap.lookup_insert _, hr.seeds, hr.queue⟩, hactive,
        ⟨Finmap.lookup_insert _, hjobAt.seeds, hjobAt.queue⟩⟩
      ⟨rfl, rfl⟩ (Nat.zero_le _) (show (0 : Int64).toInt = _ by simp [Job.claimed]) htotal'
      hcompleted'
  have hclaims := Machine.Reaches.one (M := program D) (S := Call.Serves now n w j.creator)
    (execute_eq_ok.mpr hclaim) ⟨rfl, rfl, .inl rfl⟩
  refine ⟨_, (j.claimed w now).completedWith [] now,
    hclaims.trans (.one (execute_eq_ok.mpr hcomplete) ⟨rfl, rfl, .inl rfl⟩),
    ⟨(h.addressed.step hclaim).step hcomplete, ?_, ?_, ?_⟩, Finmap.insert_insert _, rfl, hqueue,
    rfl⟩
  · exact ⟨_, ⟨Finmap.lookup_insert _, hq.seeds⟩, htimeout, by simp only [htotal']; omega⟩
  · exact ⟨_, ⟨Finmap.lookup_insert _, hr.seeds, hr.queue⟩, hactive,
      by simp only [hclaimed']; omega, by simp only [hcompleted']; omega⟩
  · exact h.leases.insert (Finmap.insert_insert _) (by simp [Job.completedWith])

/-- A finished job is closed by its creator. -/
theorem close (h : Ready D σ n w k x now timeoutSecs m) (hj : σ.jobs.lookup a = some j)
    (hqueue : j.queue = k) (hfinished : j.status = .completed ∨ j.status = .failed) :
    (program D).Reaches (Call.Serves now n w j.creator) 1 σ { σ with jobs := σ.jobs.erase a } ∧
      Ready D { σ with jobs := σ.jobs.erase a } n w k x now timeoutSecs m := by
  obtain ⟨s, hjobAt⟩ := h.jobAt hj hqueue
  obtain ⟨q, hq, hqrest⟩ := h.queue
  obtain ⟨r, hr, hrrest⟩ := h.registry
  have hstep : Step D σ ⟨now, .closeJob ⟨j.creator, k, a⟩ n s⟩ _ _ :=
    .closeJob hq hjobAt rfl hfinished
  refine ⟨.one (execute_eq_ok.mpr hstep) ⟨rfl, rfl, .inr rfl⟩, h.addressed.step hstep,
    ⟨q, ⟨hq.lookup, hq.seeds⟩, hqrest⟩, ⟨r, ⟨hr.lookup, hr.seeds, hr.queue⟩, hrrest⟩, ?_⟩
  -- the leases of the other jobs are over as before
  intro b j' hj' hqueue' hprocessing
  rw [Finmap.lookup_erase_eq_ite] at hj'
  split_ifs at hj' with hb
  exact h.leases b j' hj' hqueue' hprocessing

/-- A Pending job is claimed, completed and closed. -/
theorem finish_pending (h : Ready D σ n w k x now timeoutSecs (m + 1))
    (hj : σ.jobs.lookup a = some j) (hqueue : j.queue = k) (hpending : j.status = .pending) :
    ∃ σ', (program D).Reaches (Call.Serves now n w j.creator) 3 σ σ' ∧
      Ready D σ' n w k x now timeoutSecs m ∧ σ'.jobs = σ.jobs.erase a := by
  obtain ⟨σ₁, j', hreach, hready, hσ₁, hstatus, hqueue', hcreator⟩ := h.work hj hqueue hpending
  have hj' : σ₁.jobs.lookup a = some j' := by
    rw [hσ₁, Finmap.lookup_insert]
  obtain ⟨hclose, hready⟩ := hready.close hj' hqueue' (.inl hstatus)
  rw [hcreator] at hclose
  exact ⟨_, hreach.trans hclose, hready, by rw [hσ₁, Finmap.erase_insert_self]⟩

/-- Any job of the queue can be finished. -/
theorem finish (h : Ready D σ n w k x now timeoutSecs (m + 1)) (hj : σ.jobs.lookup a = some j)
    (hqueue : j.queue = k) :
    ∃ σ', (program D).Reaches (Call.Serves now n w j.creator) 4 σ σ' ∧
      Ready D σ' n w k x now timeoutSecs m ∧ σ'.jobs = σ.jobs.erase a := by
  cases hstatus : j.status with
  | pending =>
    obtain ⟨σ', hreach, hrest⟩ := h.finish_pending hj hqueue hstatus
    exact ⟨σ', hreach.mono (by omega) fun _ hc => hc, hrest⟩
  | processing =>
    -- the worker who holds it need not come back
    obtain ⟨hexpire, hready⟩ := h.expire hj hqueue hstatus
    obtain ⟨σ', hreach, hready, hjobs⟩ :=
      hready.finish_pending (Finmap.lookup_insert _) hqueue rfl
    exact ⟨σ', hexpire.trans hreach, hready, by rw [hjobs, Finmap.erase_insert_self]⟩
  | completed =>
    obtain ⟨hclose, hready⟩ := h.close hj hqueue (.inl hstatus)
    exact ⟨_, hclose.mono (by omega) fun _ hc => hc, hready.mono, rfl⟩
  | failed =>
    obtain ⟨hclose, hready⟩ := h.close hj hqueue (.inr hstatus)
    exact ⟨_, hclose.mono (by omega) fun _ hc => hc, hready.mono, rfl⟩

end Ready

/-! ## Whole queues -/

/-- The number of live jobs of the queue at `k`. -/
def Ledger.live (σ : Ledger Pubkey) (k : Pubkey) : ℕ :=
  Finmap.tally (fun _ j => if j.queue = k then 1 else 0) σ.jobs

/-- The call is made at time `now` under the name `n`, by the worker `w` or by the creator of a job
of the queue at `k`. -/
def Ledger.Serves (σ : Ledger Pubkey) (now : Int64) (n : String) (w k : Pubkey) (c : Call Pubkey) :
    Prop :=
  ∃ a j, σ.jobs.lookup a = some j ∧ j.queue = k ∧ Call.Serves now n w j.creator c

/-- A job counts among the live ones from its enqueue to its close. -/
theorem JobChange.live {D : Derivation Pubkey} {σ : Ledger Pubkey} {now : Int64} {a k : Pubkey}
    {op : JobOp Pubkey} {old new : Option (Job Pubkey)} {j : Job Pubkey}
    (h : JobChange D σ now a (some op) old new) (hj : old.or new = some j) :
    (if op.kind = .enqueue ∧ j.queue = k then 1 else 0) +
        Finmap.weigh (fun _ j => if j.queue = k then 1 else 0) a old =
      (if op.kind = .close ∧ j.queue = k then 1 else 0) +
        Finmap.weigh (fun _ j => if j.queue = k then 1 else 0) a new := by
  cases h with
  | enqueue | close =>
    obtain rfl := Option.some.inj hj
    simp [JobOp.kind]
  | claim | complete | failPermanent | failRetry | expire =>
    obtain rfl := Option.some.inj hj
    rfl

section Runs

variable [Inhabited Pubkey] {D : Derivation Pubkey} {n : String} {w k x : Pubkey}
  {now timeoutSecs : Int64}

/-- A queue has at most as many live jobs as there were calls. -/
theorem live_le_length (calls : List (Call Pubkey)) (k : Pubkey) :
    ((program D).run calls).live k ≤ calls.length := by
  have hbalance := balance_run (D := D) (fun j => if j.queue = k then 1 else 0)
    (fun j op => op.kind = .enqueue ∧ j.queue = k) (fun j op => op.kind = .close ∧ j.queue = k)
    ?_ calls
  · have hle := countOps_log_le (D := D) calls fun j op => op.kind = .enqueue ∧ j.queue = k
    rw [Ledger.live]
    omega
  · intro σ now a op old new j hchange hj
    simpa using hchange.live hj

omit [Inhabited Pubkey] in
/-- Erasing a job of the queue leaves one live job less. -/
theorem Ledger.live_erase {σ σ' : Ledger Pubkey} {a : Pubkey} {j : Job Pubkey}
    (hj : σ.jobs.lookup a = some j) (hqueue : j.queue = k) (hσ' : σ'.jobs = σ.jobs.erase a) :
    σ'.live k + 1 = σ.live k := by
  have htally := Finmap.tally_erase (f := fun _ j => if j.queue = k then 1 else 0) hj
  rw [if_pos hqueue] at htally
  rw [live, live, hσ', htally]

omit [Inhabited Pubkey] in
/-- A queue that has live jobs has one. -/
theorem Ledger.exists_of_live_ne_zero {σ : Ledger Pubkey} (h : σ.live k ≠ 0) :
    ∃ a j, σ.jobs.lookup a = some j ∧ j.queue = k := by
  by_contra hnone
  refine h (Finmap.tally_eq_zero fun a j hj => if_neg fun hqueue => ?_)
  exact hnone ⟨a, j, hj, hqueue⟩

/-- Some of the jobs of `σ` are gone in `σ'`, all of them jobs of the queue at `k`. -/
structure Ledger.DrainedTo (σ : Ledger Pubkey) (k : Pubkey) (σ' : Ledger Pubkey) : Prop where
  le : ∀ a j, σ'.jobs.lookup a = some j → σ.jobs.lookup a = some j
  others : ∀ a j, σ.jobs.lookup a = some j → j.queue ≠ k → σ'.jobs.lookup a = some j

omit [Inhabited Pubkey] in
/-- One more job of the queue is gone. -/
theorem Ledger.DrainedTo.erase {σ σ₁ σ₂ : Ledger Pubkey} {a : Pubkey} {j : Job Pubkey}
    (h : σ.DrainedTo k σ₁) (hj : σ₁.jobs.lookup a = some j) (hqueue : j.queue = k)
    (hσ₂ : σ₂.jobs = σ₁.jobs.erase a) : σ.DrainedTo k σ₂ := by
  refine ⟨fun b j' hj' => ?_, fun b j' hj' hqueue' => ?_⟩
  · rw [hσ₂, Finmap.lookup_erase_eq_ite] at hj'
    split_ifs at hj'
    exact h.le b j' hj'
  · rw [hσ₂, Finmap.lookup_erase_eq_ite]
    split_ifs with hb
    · rw [hb, h.le a j hj] at hj'
      exact absurd (Option.some.inj hj' ▸ hqueue) hqueue'
    · exact h.others b j' hj' hqueue'

omit [Inhabited Pubkey] in
/-- When no job of the queue is left, the jobs of the other queues are. -/
theorem Ledger.DrainedTo.lookup_iff {σ σ' : Ledger Pubkey} (h : σ.DrainedTo k σ')
    (hzero : σ'.live k = 0) (a : Pubkey) (j : Job Pubkey) :
    σ'.jobs.lookup a = some j ↔ σ.jobs.lookup a = some j ∧ j.queue ≠ k := by
  refine ⟨fun hj => ⟨h.le a j hj, fun hqueue => ?_⟩, fun ⟨hj, hqueue⟩ => h.others a j hj hqueue⟩
  have hweight := Finmap.tally_eq_zero_iff.mp hzero a j hj
  simp [hqueue] at hweight

/-- A queue that a worker can work on can be drained. -/
theorem Ready.drain {σ : Ledger Pubkey} (h : Ready D σ n w k x now timeoutSecs (σ.live k)) :
    ∃ σ', (program D).Reaches (σ.Serves now n w k) (4 * σ.live k) σ σ' ∧
      σ.DrainedTo k σ' ∧ σ'.live k = 0 := by
  -- one job after the other
  have hlower (σ₁ : Ledger Pubkey)
      (hσ₁ : Ready D σ₁ n w k x now timeoutSecs (σ₁.live k) ∧ σ.DrainedTo k σ₁)
      (hne : σ₁.live k ≠ 0) :
      ∃ σ₂, (program D).Reaches (σ.Serves now n w k) 4 σ₁ σ₂ ∧
        (Ready D σ₂ n w k x now timeoutSecs (σ₂.live k) ∧ σ.DrainedTo k σ₂) ∧
        σ₂.live k < σ₁.live k := by
    obtain ⟨hready, hdrained⟩ := hσ₁
    -- finishing any one of them leaves one live job less
    obtain ⟨a, j, hj, hqueue⟩ := Ledger.exists_of_live_ne_zero hne
    obtain ⟨m, hm⟩ := Nat.exists_eq_succ_of_ne_zero hne
    rw [hm] at hready
    obtain ⟨σ₂, hreach, hready, hσ₂⟩ := hready.finish hj hqueue
    have hlive := Ledger.live_erase hj hqueue hσ₂
    obtain rfl : σ₂.live k = m := by omega
    exact ⟨σ₂, hreach.mono le_rfl fun c hc => ⟨a, j, hdrained.le a j hj, hqueue, hc⟩,
      ⟨hready, hdrained.erase hj hqueue hσ₂⟩, by omega⟩
  obtain ⟨σ', hreach, hσ', hzero⟩ :=
    Machine.Reaches.exhaust hlower ⟨h, fun a j hj => hj, fun a j hj _ => hj⟩
  exact ⟨σ', hreach, hσ'.2, hzero⟩

/-- In every ledger reached by fewer calls than a counter could overflow in, once the leases on a
queue are over, any worker who is active on it can finish all its jobs: at most four calls for each
live job, made by the worker and the creators of the jobs, all commit and leave exactly the jobs of
the other queues, as they were. -/
theorem queue_drainable (calls : List (Call Pubkey)) (hlength : calls.length < 2 ^ 63)
    {q : QueueConfig Pubkey} {r : WorkerRegistry Pubkey}
    (hq : QueueAt D ((program D).run calls) n k q)
    (hr : RegistryAt D ((program D).run calls) n w k x r) (hactive : r.isActive = true)
    (hleases : LeasesOver ((program D).run calls) k now q.jobTimeoutSecs) :
    ∃ σ', (program D).Reaches (((program D).run calls).Serves now n w k)
        (4 * ((program D).run calls).live k) ((program D).run calls) σ' ∧
      ∀ a j, σ'.jobs.lookup a = some j ↔
        ((program D).run calls).jobs.lookup a = some j ∧ j.queue ≠ k := by
  have haddr : Addressed D ((program D).run calls) := addressed_run calls
  -- the counters count calls
  have hlive := live_le_length (D := D) calls k
  have htotal : q.totalCompleted.toNat ≤ calls.length :=
    (queueStat_of_run calls hq.lookup .completed).trans_le (countOps_log_le calls _)
  have hcount (s : WorkerStat) : (s.of r).toNat ≤ calls.length := by
    rw [← workerStat_eq haddr s hr.lookup, workerStat_run]
    exact countOps_log_le calls _
  have hclaimed : r.jobsClaimed.toNat ≤ calls.length := hcount .claimed
  have hcompleted : r.jobsCompleted.toNat ≤ calls.length := hcount .completed
  obtain ⟨σ', hreach, hdrained, hzero⟩ := Ready.drain (k := k) ⟨haddr, ⟨q, hq, rfl, by omega⟩,
    ⟨r, hr, hactive, by omega, by omega⟩, hleases⟩
  exact ⟨σ', hreach, hdrained.lookup_iff hzero⟩

/-- The sample worker claims a job and does not come back; a second worker is registered. -/
def Sample.abandoned : List (Call Key) :=
  [create 2 60, register worker, register (.wallet 4), enqueue producer 0 none, claim 2 worker 0]

/-- The second worker finishes the job once the lease of the first one is over. -/
theorem queue_drainable_abandoned :
    ∃ σ', (program Derivation.free).Reaches (((program Derivation.free).run
        Sample.abandoned).Serves 63 Sample.name (.wallet 4) Sample.queue) 4
          ((program Derivation.free).run Sample.abandoned) σ' ∧
      σ'.jobs.lookup (Sample.job 0) = none := by
  have hleases :
      LeasesOver ((program Derivation.free).run Sample.abandoned) Sample.queue 63 60 := by
    intro a j hj _ hprocessing
    obtain ⟨w, t, -, ht⟩ := (wellFormed_run _ hj).held hprocessing
    obtain ⟨c, hc, rfl⟩ := startedAt_run _ hj ht
    -- every lease was given by second 2
    have hnow : ∀ c ∈ Sample.abandoned, 0 ≤ c.now.toInt ∧ c.now.toInt ≤ 2 := by decide
    have htimeout : (60 : Int64).toInt = 60 := rfl
    have hclock : (63 : Int64).toInt = 63 := rfl
    have hstart := hnow c hc
    exact Job.isExpired_eq_ok_true.mpr ⟨hprocessing, _, ht, by omega, by omega⟩
  obtain ⟨q, hq, htimeout⟩ : ∃ q, QueueAt Derivation.free
      ((program Derivation.free).run Sample.abandoned) Sample.name Sample.queue q ∧
      q.jobTimeoutSecs = 60 := ⟨_, ⟨rfl, rfl⟩, rfl⟩
  obtain ⟨r, hr, hactive⟩ : ∃ r, RegistryAt Derivation.free
      ((program Derivation.free).run Sample.abandoned) Sample.name (.wallet 4) Sample.queue
        (Sample.registry (.wallet 4)) r ∧ r.isActive = true := ⟨_, ⟨rfl, rfl, rfl⟩, rfl⟩
  have hlive : ((program Derivation.free).run Sample.abandoned).live Sample.queue = 1 := rfl
  obtain ⟨σ', hreach, hjobs⟩ := queue_drainable Sample.abandoned (by decide) hq hr hactive
    (htimeout ▸ hleases)
  rw [hlive] at hreach
  refine ⟨σ', hreach, Option.eq_none_iff_forall_not_mem.mpr fun j hj => ?_⟩
  -- the one job of the sample is on the queue
  obtain ⟨j₀, hj₀, hqueue⟩ : ∃ j₀, ((program Derivation.free).run Sample.abandoned).jobs.lookup
      (Sample.job 0) = some j₀ ∧ j₀.queue = Sample.queue := ⟨_, rfl, rfl⟩
  obtain ⟨hj, hne⟩ := (hjobs _ j).mp hj
  rw [hj₀] at hj
  exact hne (Option.some.inj hj ▸ hqueue)

end Runs

end SolQueue
