import SolQueue.Lifecycle

/-!
# Deactivation is final

A deactivated worker stays on the queue for good, with the counts it had: its registry keeps its
address occupied, so nobody can register it again, and no instruction sets it active. The jobs it
still holds are lost to it; only an expiry returns them.

* `Instruction.workerJob`: the accounts of a worker instruction.
* `RegistryChange.eq_of_inactive`: a step changes nothing of a registry that is not active.
* `JobChange.assigned_before`, `JobChange.held_by_inactive`: what a step does to the jobs of a
  worker that is not active.
* `Retired`, `deactivation_final`: what any calls after a deactivation can do.
-/

namespace SolQueue

variable {Pubkey : Type} [DecidableEq Pubkey]

/-- The accounts of an instruction that a worker signs. -/
def Instruction.workerJob : Instruction Pubkey → Option (WorkerJob Pubkey)
  | .claimJob ctx _ _ | .completeJob ctx _ _ _ | .failJob ctx _ _ _ => some ctx
  | _ => none

/-- What the calls of `log`, made since the worker `w` with the registry `r` at `x` was deactivated
on the queue at `k`, have done about it. -/
structure Retired (k w x : Pubkey) (r : WorkerRegistry Pubkey) (log : List (Entry Pubkey))
    (σ : Ledger Pubkey) : Prop where
  /-- The registry is live, as it was but not active. -/
  registry : σ.workerRegistries.lookup x = some { r with isActive := false }
  /-- The worker is not active on the queue, by whatever registry. -/
  inactive : ¬σ.HasActiveWorker k w
  /-- The worker has not claimed, completed or failed a job of the queue. -/
  no_work : ∀ e ∈ log, ∀ ctx, e.call.instruction.workerJob = some ctx → ctx.worker = w →
    ctx.queueConfig ≠ k
  /-- The jobs of the queue assigned to the worker were so before. -/
  no_assignment : ∀ e ∈ log, ∀ a j', e.after.jobs.lookup a = some j' → j'.queue = k →
    j'.assignedWorker = some w →
    ∃ j, e.before.jobs.lookup a = some j ∧ SameIdentity j j' ∧ j.assignedWorker = some w
  /-- A job of the queue that the worker holds stays as it is until somebody expires it. -/
  only_expiry : ∀ e ∈ log, ∀ a j, e.before.jobs.lookup a = some j → j.queue = k → j.HeldBy w →
    e.after.jobs.lookup a = some j ∨ e.after.jobs.lookup a = some j.expired ∧
      ∃ ctx n s, e.call.instruction = .expireJob ctx n s ∧ ctx.job = a

/-! ## One step -/

section Changes

variable {D : Derivation Pubkey} {σ : Ledger Pubkey} {k a w : Pubkey} {now : Int64}

/-- A registry that is not active stays as it is. -/
theorem RegistryChange.eq_of_inactive {r : WorkerRegistry Pubkey}
    {new : Option (WorkerRegistry Pubkey)} (h : RegistryChange D σ k (some r) new)
    (hr : r.isActive = false) : new = some r := by
  cases h with
  | keep => rfl
  | deactivate => rw [← hr]
  | claim active | complete active | fail active => cases hr.symm.trans active

/-- A worker whose registry is not active has no active registry on the queue. -/
theorem Addressed.not_hasActiveWorker (h : Addressed D σ) {x : Pubkey}
    {r : WorkerRegistry Pubkey} (hr : σ.workerRegistries.lookup x = some r) (hqueue : r.queue = k)
    (hworker : r.worker = w) (hinactive : r.isActive = false) : ¬σ.HasActiveWorker k w := by
  rintro ⟨x', r', hr', hqueue', hworker', hactive⟩
  obtain rfl := h.registry_unique hr' hr (hqueue'.trans hqueue.symm) (hworker'.trans hworker.symm)
  obtain rfl := Option.some.inj (hr'.symm.trans hr)
  cases hinactive.symm.trans hactive

/-- A job is assigned to a worker that is not active only if it was so before. -/
theorem JobChange.assigned_before {op : Option (JobOp Pubkey)} {old : Option (Job Pubkey)}
    {j' : Job Pubkey} (h : JobChange D σ now a op old (some j'))
    (hw : j'.assignedWorker = some w) (hinactive : ¬ActiveOn D σ j'.queue w) :
    ∃ j, old = some j ∧ SameIdentity j j' ∧ j.assignedWorker = some w := by
  cases h with
  | keep => exact ⟨j', rfl, .refl j', hw⟩
  | enqueue | failRetry | expire => cases hw
  | claim pending active => exact absurd (Option.some.inj hw ▸ active) hinactive
  | complete | failPermanent =>
    exact ⟨_, rfl, ⟨rfl, rfl, rfl, rfl, rfl, rfl, rfl, rfl, rfl⟩, hw⟩

/-- A job held by a worker that is not active stays as it is or is expired. -/
theorem JobChange.held_by_inactive {op : Option (JobOp Pubkey)} {j : Job Pubkey}
    {new : Option (Job Pubkey)} (h : JobChange D σ now a op (some j) new) (hheld : j.HeldBy w)
    (hinactive : ¬ActiveOn D σ j.queue w) :
    new = some j ∨ new = some j.expired ∧ ∃ caller, op = some (.expire caller) := by
  have hholder {w' : Pubkey} (hheld' : j.HeldBy w') : w' = w :=
    Option.some.inj (hheld'.assigned.symm.trans hheld.assigned)
  cases h with
  | keep => exact .inl rfl
  | claim pending active => cases pending.symm.trans hheld.processing
  | complete held active | failPermanent held active | failRetry held active =>
    exact absurd (hholder held ▸ active) hinactive
  | expire => exact .inr ⟨rfl, _, rfl⟩
  | close finished => rcases finished with h | h <;> cases h.symm.trans hheld.processing

end Changes

section Runs

variable [Inhabited Pubkey] {D : Derivation Pubkey} {σ σ' : Ledger Pubkey} {c : Call Pubkey}
  {o : Outcome Pubkey}

/-- A call that deactivates a worker finds the registry of that worker on that queue. -/
theorem Step.deactivateWorker_registry {now : Int64} {ctx : DeactivateWorker Pubkey} {n : String}
    (h : Step D σ ⟨now, .deactivateWorker ctx n⟩ σ' o) (haddr : Addressed D σ) :
    ∃ r, σ.workerRegistries.lookup ctx.workerRegistry = some r ∧ r.queue = ctx.queueConfig ∧
      r.worker = ctx.worker ∧
      σ'.workerRegistries.lookup ctx.workerRegistry = some { r with isActive := false } := by
  cases h with
  | deactivateWorker queue authority registry =>
    exact ⟨_, registry.lookup, registry.queue, haddr.worker_of_registryAt registry,
      Finmap.lookup_insert _⟩

/-- The signer of a worker instruction is active on the queue it names. -/
theorem Step.activeOn_of_workerJob (h : Step D σ c σ' o) {ctx : WorkerJob Pubkey}
    (hctx : c.instruction.workerJob = some ctx) : ActiveOn D σ ctx.queueConfig ctx.worker := by
  cases h with
  | claimJob valid | completeJob valid | failJobPermanent valid | failJobRetry valid =>
    cases hctx
    exact ⟨_, _, _, valid.registry, valid.active⟩
  | _ => cases hctx

/-- Only an `expireJob` call operates on a job by expiring it. -/
theorem Step.expired_by_expire (h : Step D σ c σ' o) {a caller : Pubkey}
    (hop : Entry.opOn a ⟨σ, c, o, σ'⟩ = some (.expire caller)) :
    ∃ ctx n s, c.instruction = .expireJob ctx n s ∧ ctx.job = a := by
  have hjob := Entry.jobOp_of_opOn hop
  cases h with
  | expireJob =>
    cases hjob
    exact ⟨_, _, _, rfl, rfl⟩
  | _ => cases hjob

/-! ## Whole runs -/

/-- No calls change a registry that is not active. -/
theorem inactive_runFrom (calls : List (Call Pubkey)) {x : Pubkey} {r : WorkerRegistry Pubkey}
    (hr : σ.workerRegistries.lookup x = some r) (hinactive : r.isActive = false) :
    ((program D).runFrom σ calls).workerRegistries.lookup x = some r := by
  refine Machine.runFrom_induction (M := program D)
    (P := fun σ => σ.workerRegistries.lookup x = some r) ?_ hr calls
  intro σ c σ' o hr hstep
  have hchange := (execute_eq_ok.mp hstep).registryChange x
  rw [hr] at hchange
  exact hchange.eq_of_inactive hinactive

/-- After a worker has been deactivated, it is retired from the queue whatever calls are made. -/
theorem deactivation_final {calls₁ : List (Call Pubkey)} {now : Int64}
    {ctx : DeactivateWorker Pubkey} {n : String} {res : Ledger Pubkey × Outcome Pubkey}
    (hdeactivate : execute D ((program D).run calls₁) ⟨now, .deactivateWorker ctx n⟩ = .ok res)
    (calls₂ : List (Call Pubkey)) :
    ∃ r, ((program D).run calls₁).workerRegistries.lookup ctx.workerRegistry = some r ∧
      r.queue = ctx.queueConfig ∧ r.worker = ctx.worker ∧
      Retired ctx.queueConfig ctx.worker ctx.workerRegistry r ((program D).logFrom res.1 calls₂)
        ((program D).run (calls₁ ++ ⟨now, .deactivateWorker ctx n⟩ :: calls₂)) := by
  have hrun (l : List (Call Pubkey)) :
      (program D).run (calls₁ ++ ⟨now, .deactivateWorker ctx n⟩ :: l) =
        (program D).runFrom res.1 l := Machine.run_append_cons_of_ok hdeactivate
  obtain ⟨r, hr, hqueue, hworker, hr'⟩ :=
    (execute_eq_ok.mp hdeactivate).deactivateWorker_registry (addressed_run calls₁)
  refine ⟨r, hr, hqueue, hworker, ?_⟩
  -- after any calls the ledger is addressed, and the registry is where and as it was left
  have haddr (l : List (Call Pubkey)) : Addressed D ((program D).runFrom res.1 l) :=
    hrun l ▸ addressed_run _
  have hkept (l : List (Call Pubkey)) := inactive_runFrom (D := D) l hr' rfl
  have hinactive (l : List (Call Pubkey)) :
      ¬((program D).runFrom res.1 l).HasActiveWorker ctx.queueConfig ctx.worker :=
    (haddr l).not_hasActiveWorker (hkept l) hqueue hworker rfl
  have hnot {e : Entry Pubkey} {l : List (Call Pubkey)}
      (hbefore : (program D).runFrom res.1 l = e.before) :
      ¬ActiveOn D e.before ctx.queueConfig ctx.worker := fun hactive =>
    hinactive l (hbefore ▸ hactive.hasActiveWorker (hbefore ▸ haddr l))
  rw [hrun]
  refine ⟨hkept calls₂, hinactive calls₂, fun e he ctx' hctx' hw hk => ?_,
    fun e he a j' hj' hk hw => ?_, fun e he a j hj hk hheld => ?_⟩
  all_goals obtain ⟨l, -, hbefore, -, hstep⟩ := step_of_mem_logFrom he
  · exact hnot hbefore (hk ▸ hw ▸ hstep.activeOn_of_workerJob hctx')
  · have hchange := hstep.jobChange a
    rw [hj'] at hchange
    exact hchange.assigned_before hw (hk ▸ hnot hbefore)
  · have hchange := hstep.jobChange a
    rw [hj] at hchange
    rcases hchange.held_by_inactive hheld (hk ▸ hnot hbefore) with hsame | ⟨hexpired, _, hop⟩
    · exact .inl hsame
    · exact .inr ⟨hexpired, hstep.expired_by_expire hop⟩

/-- A worker deactivated while it holds a job: neither its report nor a registration commits, and
the job is expired. -/
theorem deactivation_final_day :
    ∃ r, Retired Sample.queue Sample.worker (Sample.registry Sample.worker) r
      ((program Derivation.free).logFrom ((program Derivation.free).run
        (Sample.day.take 4 ++ [Sample.deactivate 3 Sample.worker]))
        [Sample.complete 4 Sample.worker 0, Sample.register Sample.worker, Sample.expire 65 0])
      ((program Derivation.free).run (Sample.day.take 4 ++ Sample.deactivate 3 Sample.worker ::
        [Sample.complete 4 Sample.worker 0, Sample.register Sample.worker,
          Sample.expire 65 0])) := by
  have hdeactivate : execute Derivation.free ((program Derivation.free).run (Sample.day.take 4))
      (Sample.deactivate 3 Sample.worker) = .ok _ := rfl
  obtain ⟨r, -, -, -, hretired⟩ := deactivation_final hdeactivate
    [Sample.complete 4 Sample.worker 0, Sample.register Sample.worker, Sample.expire 65 0]
  exact ⟨r, hretired⟩

end Runs

end SolQueue
