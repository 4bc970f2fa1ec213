import SolQueue.Invariants
import SolQueue.Lib.Symmetry

/-!
# The circuit breaker

Pausing a queue stops producers and nothing else. As long as the queue is paused no job of it is
created, and every instruction but those that enqueue on it or switch its breaker does the same
whether the queue is paused or not, errors included.

* `Step.staysPaused`, `JobChange.of_paused`: what a step can do while a queue is paused.
* `Ledger.togglePaused`: the ledger with the breaker of one queue switched.
* `execute_togglePaused`: switching a breaker commutes with every instruction that does not heed
  it.
* `circuit_breaker`: both for whatever calls follow a reachable ledger.
-/

namespace SolQueue

variable {Pubkey : Type} [DecidableEq Pubkey]

/-! ## While a queue is paused -/

/-- The call resumes the queue at `k`. -/
def Entry.Resumes (k : Pubkey) (e : Entry Pubkey) : Prop :=
  ∃ ctx n, e.call.instruction = .setQueuePaused ctx n false ∧ ctx.queueConfig = k

/-- A queue that was paused is still paused and has enqueued no job. -/
def StaysPaused (old new : Option (QueueConfig Pubkey)) : Prop :=
  ∀ q, old = some q → q.isPaused = true → ∃ q', new = some q' ∧ q'.isPaused = true ∧
    q'.nextJobSeq = q.nextJobSeq ∧ q'.totalEnqueued = q.totalEnqueued

/-- A job of a paused queue has been there before, with the same identity. -/
theorem JobChange.of_paused {D : Derivation Pubkey} {σ : Ledger Pubkey} {now : Int64} {a : Pubkey}
    {op : Option (JobOp Pubkey)} {old : Option (Job Pubkey)} {j' : Job Pubkey}
    {q : QueueConfig Pubkey} (h : JobChange D σ now a op old (some j'))
    (hq : σ.queueConfigs.lookup j'.queue = some q) (hpaused : q.isPaused = true) :
    ∃ j, old = some j ∧ SameIdentity j j' := by
  cases h with
  | enqueue queue unpaused find =>
    obtain rfl := Option.some.inj (hq.symm.trans queue.lookup)
    cases hpaused.symm.trans unpaused
  | keep | claim | complete | failPermanent | failRetry | expire =>
    exact ⟨_, rfl, rfl, rfl, rfl, rfl, rfl, rfl, rfl, rfl, rfl⟩

section Runs

variable [Inhabited Pubkey] {D : Derivation Pubkey} {σ σ' : Ledger Pubkey} {c : Call Pubkey}
  {o : Outcome Pubkey} {k : Pubkey} {q : QueueConfig Pubkey}

/-- A paused queue stays paused and enqueues no job unless the call resumes it. -/
theorem Step.staysPaused (h : Step D σ c σ' o) (hresumes : ¬Entry.Resumes k ⟨σ, c, o, σ'⟩) :
    StaysPaused (σ.queueConfigs.lookup k) (σ'.queueConfigs.lookup k) := by
  -- it is enough to look at the queue written, if that is the one at `k`
  have hwrite {x : Pubkey} {q₂ : QueueConfig Pubkey}
      (h : x = k → StaysPaused (σ.queueConfigs.lookup x) (some q₂)) :
      StaysPaused (σ.queueConfigs.lookup k) ((σ.queueConfigs.insert x q₂).lookup k) := by
    rw [Finmap.lookup_insert_eq_ite]
    split_ifs with hx
    · exact hx ▸ h hx.symm
    · exact fun q hq hpaused => ⟨q, hq, hpaused, rfl, rfl⟩
  cases h with
  | initializeQueue fresh length =>
    refine hwrite fun _ q hq => ?_
    cases hq.symm.trans (lookup_of_fresh fresh).1
  | @setQueuePaused _ ctx n pause _ queue authority =>
    refine hwrite fun hk q hq hpaused => ?_
    obtain rfl := Option.some.inj (hq.symm.trans queue.lookup)
    cases pause with
    | true => exact ⟨_, rfl, rfl, rfl, rfl⟩
    | false => exact absurd ⟨ctx, n, rfl, hk⟩ hresumes
  | enqueueJob queue fresh unpaused =>
    refine hwrite fun _ q hq hpaused => ?_
    obtain rfl := Option.some.inj (hq.symm.trans queue.lookup)
    cases hpaused.symm.trans unpaused
  | completeJob valid | failJobPermanent valid =>
    refine hwrite fun _ q hq hpaused => ?_
    obtain rfl := Option.some.inj (hq.symm.trans valid.queue.lookup)
    exact ⟨_, rfl, hpaused, rfl, rfl⟩
  | registerWorker | deactivateWorker | claimJob | failJobRetry | expireJob | closeJob =>
    exact fun q hq hpaused => ⟨q, hq, hpaused, rfl, rfl⟩

/-- A paused queue stays paused and enqueues no job as long as no call resumes it. -/
theorem staysPaused_runFrom (calls : List (Call Pubkey))
    (hresumes : ∀ e ∈ (program D).logFrom σ calls, ¬Entry.Resumes k e) :
    StaysPaused (σ.queueConfigs.lookup k)
      (((program D).runFrom σ calls).queueConfigs.lookup k) := by
  refine Machine.runFrom_induction_of_log (M := program D)
    (P := fun σ' => StaysPaused (σ.queueConfigs.lookup k) (σ'.queueConfigs.lookup k))
    (Q := fun e => ¬Entry.Resumes k e) ?_ (fun q hq hpaused => ⟨q, hq, hpaused, rfl, rfl⟩) calls
    hresumes
  intro σ₁ c σ₂ o ih hok hresumes q hq hpaused
  obtain ⟨q₁, hq₁, hpaused₁, hnext₁, htotal₁⟩ := ih q hq hpaused
  obtain ⟨q₂, hq₂, hpaused₂, hnext₂, htotal₂⟩ :=
    (execute_eq_ok.mp hok).staysPaused hresumes q₁ hq₁ hpaused₁
  exact ⟨q₂, hq₂, hpaused₂, hnext₂.trans hnext₁, htotal₂.trans htotal₁⟩

/-- No job of a paused queue is created as long as no call resumes the queue. -/
theorem no_job_of_paused (calls : List (Call Pubkey))
    (hresumes : ∀ e ∈ (program D).logFrom σ calls, ¬Entry.Resumes k e)
    (hq : σ.queueConfigs.lookup k = some q) (hpaused : q.isPaused = true) {e : Entry Pubkey}
    (he : e ∈ (program D).logFrom σ calls) {a : Pubkey} {j' : Job Pubkey}
    (hj' : e.after.jobs.lookup a = some j') (hk : j'.queue = k) :
    ∃ j, e.before.jobs.lookup a = some j ∧ SameIdentity j j' := by
  obtain ⟨l, hprefix, hbefore, -, hstep⟩ := step_of_mem_logFrom he
  -- the queue is still paused before the call
  have hl : l <+: calls := (List.prefix_append _ _).trans hprefix
  obtain ⟨q', hq', hpaused', -⟩ := staysPaused_runFrom l
    (fun e' he' => hresumes e' (Machine.mem_logFrom_of_prefix hl he')) q hq hpaused
  rw [hbefore, ← hk] at hq'
  have hchange := hstep.jobChange a
  rw [hj'] at hchange
  exact hchange.of_paused hq' hpaused'

end Runs

/-! ## Switching the breaker -/

/-- The instruction enqueues on the queue at `k` or switches its breaker. -/
def Instruction.HeedsBreaker (k : Pubkey) : Instruction Pubkey → Prop
  | .setQueuePaused ctx _ _ => ctx.queueConfig = k
  | .enqueueJob ctx _ _ _ => ctx.queueConfig = k
  | _ => False

/-- The queue with its breaker switched: paused if it was not, resumed if it was. -/
def QueueConfig.togglePaused (q : QueueConfig Pubkey) : QueueConfig Pubkey :=
  { q with isPaused := !q.isPaused }

/-- The ledger with the breaker of the queue at `k` switched. -/
def Ledger.togglePaused (σ : Ledger Pubkey) (k : Pubkey) : Ledger Pubkey :=
  { σ with queueConfigs := σ.queueConfigs.modify k QueueConfig.togglePaused }

/-- The queue at `x` as it is once the breaker of the queue at `k` is switched. All fields but the
flag are those of the queue by definition, wherever it is. -/
def QueueConfig.togglePausedAt (k x : Pubkey) (q : QueueConfig Pubkey) : QueueConfig Pubkey :=
  { q with isPaused := if x = k then !q.isPaused else q.isPaused }

section Accounts

variable {D : Derivation Pubkey} {σ : Ledger Pubkey} {k x : Pubkey} {q : QueueConfig Pubkey}
  {n : String} {s : UInt64}

/-- The breaker is switched at one address only. -/
theorem QueueConfig.togglePausedAt_eq_ite :
    q.togglePausedAt k x = if x = k then q.togglePaused else q := by
  unfold togglePausedAt
  split_ifs <;> rfl

/-- The other queues stay as they are. -/
theorem QueueConfig.togglePausedAt_of_ne (h : x ≠ k) : q.togglePausedAt k x = q := by
  rw [togglePausedAt_eq_ite, if_neg h]

namespace Ledger

/-- What is found once a breaker is switched. -/
theorem lookup_togglePaused : (σ.togglePaused k).queueConfigs.lookup x =
    (σ.queueConfigs.lookup x).map (·.togglePausedAt k x) := by
  simp only [QueueConfig.togglePausedAt_eq_ite]
  exact Finmap.lookup_modify

/-- Writing a queue and switching a breaker can be done in either order. -/
theorem insert_togglePausedAt :
    (σ.togglePaused k).queueConfigs.insert x (q.togglePausedAt k x) =
      (σ.queueConfigs.insert x q).modify k QueueConfig.togglePaused := by
  rw [QueueConfig.togglePausedAt_eq_ite]
  exact Finmap.modify_insert.symm

/-- Writing a queue other than the one switched needs no switch. -/
theorem insert_togglePaused_of_ne (h : x ≠ k) :
    (σ.togglePaused k).queueConfigs.insert x q =
      (σ.queueConfigs.insert x q).modify k QueueConfig.togglePaused := by
  rw [← insert_togglePausedAt, QueueConfig.togglePausedAt_of_ne h]

/-- Switching a breaker takes up and frees no address. -/
theorem owned_togglePaused : (σ.togglePaused k).Owned x ↔ σ.Owned x := by
  have hqueue : x ∈ (σ.togglePaused k).queueConfigs ↔ x ∈ σ.queueConfigs := by
    simp [Finmap.mem_iff, lookup_togglePaused]
  exact or_congr hqueue Iff.rfl

/-- Loading a queue finds it with its breaker switched, or fails as before. -/
theorem loadQueueConfig_togglePaused :
    (σ.togglePaused k).loadQueueConfig x = (·.togglePausedAt k x) <$> σ.loadQueueConfig x := by
  simp only [loadQueueConfig, load, lookup_togglePaused, owned_togglePaused]
  cases σ.queueConfigs.lookup x with
  | none =>
    dsimp only [Option.map_none]
    split_ifs <;> rfl
  | some q => rfl

/-- Loading a registry does not look at queues. -/
theorem loadWorkerRegistry_togglePaused :
    (σ.togglePaused k).loadWorkerRegistry x = σ.loadWorkerRegistry x := by
  simp only [loadWorkerRegistry, load, owned_togglePaused]
  rfl

/-- Neither does loading a job. -/
theorem loadJob_togglePaused : (σ.togglePaused k).loadJob x = σ.loadJob x := by
  simp only [loadJob, load, owned_togglePaused]
  rfl

end Ledger

/-- An address is free or not whether or not a queue is paused. -/
theorem Derivation.initAccount_togglePaused {x : Seeds Pubkey} {k' : Pubkey} :
    D.initAccount (σ.togglePaused k) x k' = D.initAccount σ x k' := by
  simp only [Derivation.initAccount, Ledger.owned_togglePaused]

/-! ### The accounts of each instruction

The checks of an enqueue read the breaker of its queue, and those of no other instruction read
any. -/

theorem PauseQueue.tryAccounts_togglePaused {ctx : PauseQueue Pubkey} (h : ctx.queueConfig ≠ k) :
    ctx.tryAccounts D (σ.togglePaused k) n = ctx.tryAccounts D σ n := by
  simp only [PauseQueue.tryAccounts, Ledger.loadQueueConfig_togglePaused, bind_map_left,
    QueueConfig.togglePausedAt_of_ne h]

theorem RegisterWorker.tryAccounts_togglePaused {ctx : RegisterWorker Pubkey} :
    ctx.tryAccounts D (σ.togglePaused k) n = ctx.tryAccounts D σ n := by
  simp only [RegisterWorker.tryAccounts, Ledger.loadQueueConfig_togglePaused,
    Derivation.initAccount_togglePaused, bind_map_left]
  rfl

theorem DeactivateWorker.tryAccounts_togglePaused {ctx : DeactivateWorker Pubkey} :
    ctx.tryAccounts D (σ.togglePaused k) n = ctx.tryAccounts D σ n := by
  simp only [DeactivateWorker.tryAccounts, Ledger.loadQueueConfig_togglePaused,
    Ledger.loadWorkerRegistry_togglePaused, bind_map_left]
  rfl

theorem EnqueueJob.tryAccounts_togglePaused {ctx : EnqueueJob Pubkey} (h : ctx.queueConfig ≠ k) :
    ctx.tryAccounts D (σ.togglePaused k) n s = ctx.tryAccounts D σ n s := by
  simp only [EnqueueJob.tryAccounts, Ledger.loadQueueConfig_togglePaused,
    Derivation.initAccount_togglePaused, bind_map_left, QueueConfig.togglePausedAt_of_ne h]

theorem WorkerJob.tryAccounts_togglePaused {ctx : WorkerJob Pubkey} :
    ctx.tryAccounts D (σ.togglePaused k) n s =
      Prod.map (·.togglePausedAt k ctx.queueConfig) id <$> ctx.tryAccounts D σ n s := by
  simp only [WorkerJob.tryAccounts, Ledger.loadQueueConfig_togglePaused,
    Ledger.loadWorkerRegistry_togglePaused, Ledger.loadJob_togglePaused, bind_map_left, map_bind,
    map_pure]
  rfl

theorem ExpireJob.tryAccounts_togglePaused {ctx : ExpireJob Pubkey} :
    ctx.tryAccounts D (σ.togglePaused k) n s =
      Prod.map (·.togglePausedAt k ctx.queueConfig) id <$> ctx.tryAccounts D σ n s := by
  simp only [ExpireJob.tryAccounts, Ledger.loadQueueConfig_togglePaused,
    Ledger.loadJob_togglePaused, bind_map_left, map_bind, map_pure]
  rfl

theorem CloseJob.tryAccounts_togglePaused {ctx : CloseJob Pubkey} :
    ctx.tryAccounts D (σ.togglePaused k) n s = ctx.tryAccounts D σ n s := by
  simp only [CloseJob.tryAccounts, Ledger.loadQueueConfig_togglePaused,
    Ledger.loadJob_togglePaused, bind_map_left]
  rfl

end Accounts

/-! ### The instructions

Each one fails with the same error or leaves the same ledger, up to the breaker. -/

section Instructions

variable {D : Derivation Pubkey} {σ : Ledger Pubkey} {k : Pubkey} {now : Int64} {n : String}
  {s : UInt64}

/-- The name of a live queue is taken, whether or not the queue is paused. -/
theorem initializeQueue_togglePaused {ctx : InitializeQueue Pubkey}
    {params : InitializeQueueParams} {q : QueueConfig Pubkey}
    (hq : σ.queueConfigs.lookup k = some q) :
    initializeQueue D (σ.togglePaused k) now ctx params =
      Prod.map (·.togglePaused k) id <$> initializeQueue D σ now ctx params := by
  refine Except.bind_eq_map (g := id) ?_ fun b hb => ?_
  · rw [Derivation.initAccount_togglePaused, id_map]
  · refine Except.bind_eq_map (g := id) (id_map _).symm fun ⟨q', e⟩ _ => ?_
    have hne : ctx.queueConfig ≠ k := by
      rintro rfl
      cases hq.symm.trans (Step.lookup_of_fresh (Derivation.initAccount_eq_ok.mp hb)).1
    simp only [id, Ledger.insert_togglePaused_of_ne hne]
    rfl

theorem setQueuePaused_togglePaused {ctx : PauseQueue Pubkey} {pause : Bool}
    (h : ctx.queueConfig ≠ k) :
    setQueuePaused D (σ.togglePaused k) now ctx n pause =
      Prod.map (·.togglePaused k) id <$> setQueuePaused D σ now ctx n pause := by
  refine Except.bind_eq_map (g := id) ?_ fun q _ => ?_
  · rw [PauseQueue.tryAccounts_togglePaused h, id_map]
  · simp only [id, Ledger.insert_togglePaused_of_ne h]
    rfl

theorem registerWorker_togglePaused {ctx : RegisterWorker Pubkey} :
    registerWorker D (σ.togglePaused k) now ctx n =
      Prod.map (·.togglePaused k) id <$> registerWorker D σ now ctx n := by
  refine Except.bind_eq_map (g := id) ?_ fun b _ => rfl
  rw [RegisterWorker.tryAccounts_togglePaused, id_map]

theorem deactivateWorker_togglePaused {ctx : DeactivateWorker Pubkey} :
    deactivateWorker D (σ.togglePaused k) now ctx n =
      Prod.map (·.togglePaused k) id <$> deactivateWorker D σ now ctx n := by
  refine Except.bind_eq_map (g := id) ?_ fun r _ => rfl
  rw [DeactivateWorker.tryAccounts_togglePaused, id_map]

theorem enqueueJob_togglePaused {ctx : EnqueueJob Pubkey} {params : EnqueueJobParams}
    (h : ctx.queueConfig ≠ k) :
    enqueueJob D (σ.togglePaused k) now ctx n s params =
      Prod.map (·.togglePaused k) id <$> enqueueJob D σ now ctx n s params := by
  refine Except.bind_eq_map (g := id) ?_ fun ⟨q, b⟩ _ => ?_
  · rw [EnqueueJob.tryAccounts_togglePaused h, id_map]
  · refine Except.bind_eq_map (g := id) (id_map _).symm fun ⟨q', j, e⟩ _ => ?_
    simp only [id, Ledger.insert_togglePaused_of_ne h]
    rfl

theorem claimJob_togglePaused {ctx : WorkerJob Pubkey} :
    claimJob D (σ.togglePaused k) now ctx n s =
      Prod.map (·.togglePaused k) id <$> claimJob D σ now ctx n s := by
  refine Except.bind_eq_map WorkerJob.tryAccounts_togglePaused fun ⟨q, r, j⟩ _ => ?_
  exact Except.bind_eq_map (g := id) (id_map _).symm fun ⟨r', j', e⟩ _ => rfl

/-- A completion writes the breaker back as it was. -/
theorem CompleteJob.handler_togglePausedAt {ctx : WorkerJob Pubkey} {q : QueueConfig Pubkey}
    {r : WorkerRegistry Pubkey} {j : Job Pubkey} {params : CompleteJobParams} {x : Pubkey} :
    CompleteJob.handler ctx (q.togglePausedAt k x) r j now params =
      Prod.map (·.togglePausedAt k x) id <$> CompleteJob.handler ctx q r j now params := by
  simp only [CompleteJob.handler, map_bind, map_pure]
  rfl

theorem completeJob_togglePaused {ctx : WorkerJob Pubkey} {params : CompleteJobParams} :
    completeJob D (σ.togglePaused k) now ctx n s params =
      Prod.map (·.togglePaused k) id <$> completeJob D σ now ctx n s params := by
  refine Except.bind_eq_map WorkerJob.tryAccounts_togglePaused fun ⟨q, r, j⟩ _ => ?_
  refine Except.bind_eq_map CompleteJob.handler_togglePausedAt fun ⟨q', r', j', e⟩ _ => ?_
  simp only [Prod.map, Ledger.insert_togglePausedAt]
  rfl

/-- A failure does so on both of its branches. -/
theorem FailJob.handler_togglePausedAt {ctx : WorkerJob Pubkey} {q : QueueConfig Pubkey}
    {r : WorkerRegistry Pubkey} {j : Job Pubkey} {params : FailJobParams} {x : Pubkey} :
    FailJob.handler ctx (q.togglePausedAt k x) r j now params =
      Prod.map (·.togglePausedAt k x) id <$> FailJob.handler ctx q r j now params := by
  simp only [FailJob.handler, map_bind, map_pure, apply_ite]
  rfl

theorem failJob_togglePaused {ctx : WorkerJob Pubkey} {params : FailJobParams} :
    failJob D (σ.togglePaused k) now ctx n s params =
      Prod.map (·.togglePaused k) id <$> failJob D σ now ctx n s params := by
  refine Except.bind_eq_map WorkerJob.tryAccounts_togglePaused fun ⟨q, r, j⟩ _ => ?_
  refine Except.bind_eq_map FailJob.handler_togglePausedAt fun ⟨q', r', j', e⟩ _ => ?_
  simp only [Prod.map, Ledger.insert_togglePausedAt]
  rfl

theorem expireJob_togglePaused [Inhabited Pubkey] {ctx : ExpireJob Pubkey} :
    expireJob D (σ.togglePaused k) now ctx n s =
      Prod.map (·.togglePaused k) id <$> expireJob D σ now ctx n s := by
  refine Except.bind_eq_map ExpireJob.tryAccounts_togglePaused fun ⟨q, j⟩ _ => ?_
  exact Except.bind_eq_map (g := id) (id_map _).symm fun ⟨j', e⟩ _ => rfl

theorem closeJob_togglePaused {ctx : CloseJob Pubkey} :
    closeJob D (σ.togglePaused k) ctx n s =
      Prod.map (·.togglePaused k) id <$> closeJob D σ ctx n s := by
  refine Except.bind_eq_map (g := id) ?_ fun j _ => rfl
  rw [CloseJob.tryAccounts_togglePaused, id_map]

end Instructions

section Runs

variable [Inhabited Pubkey] {D : Derivation Pubkey} {σ : Ledger Pubkey} {k : Pubkey}

/-- Whether a live queue is paused makes no difference to an instruction that does not heed its
breaker: it fails with the same error, or it commits with the same outcome and leaves the breaker
as it is. -/
theorem execute_togglePaused {c : Call Pubkey} {q : QueueConfig Pubkey}
    (hq : σ.queueConfigs.lookup k = some q) (hc : ¬c.instruction.HeedsBreaker k) :
    execute D (σ.togglePaused k) c = Prod.map (·.togglePaused k) id <$> execute D σ c := by
  obtain ⟨now, instruction⟩ := c
  cases instruction with
  | initializeQueue ctx params => exact initializeQueue_togglePaused hq
  | setQueuePaused ctx n pause => exact setQueuePaused_togglePaused hc
  | registerWorker ctx n => exact registerWorker_togglePaused
  | deactivateWorker ctx n => exact deactivateWorker_togglePaused
  | enqueueJob ctx n s params => exact enqueueJob_togglePaused hc
  | claimJob ctx n s => exact claimJob_togglePaused
  | completeJob ctx n s params => exact completeJob_togglePaused
  | failJob ctx n s params => exact failJob_togglePaused
  | expireJob ctx n s => exact expireJob_togglePaused
  | closeJob ctx n s => exact closeJob_togglePaused

/-! ## Whole runs -/

/-- Switching the breaker of a live queue is a symmetry for the calls that do not heed it. -/
theorem togglePaused_symmetry (k : Pubkey) :
    (program D).Symmetry (·.togglePaused k) (fun σ => ∃ q, σ.queueConfigs.lookup k = some q)
      (fun c => ¬c.instruction.HeedsBreaker k) where
  keep := by
    rintro σ c σ' o ⟨q, hq⟩ hok
    have hchange := (execute_eq_ok.mp hok).queueChange k
    rw [hq] at hchange
    obtain ⟨q', hq', -⟩ := hchange.persists
    exact ⟨q', hq'⟩
  step := by
    rintro σ c ⟨q, hq⟩ hc
    exact execute_togglePaused hq hc

/-- From a reachable ledger in which a queue is paused, calls that do not resume it create no job of
it and leave its counters as they are. From a reachable ledger with a queue and from the same one
with its breaker switched, calls that do not heed the breaker give the same results one by one and
lead to ledgers that differ only in the breaker. -/
theorem circuit_breaker (calls : List (Call Pubkey)) {q : QueueConfig Pubkey}
    (hq : ((program D).run calls).queueConfigs.lookup k = some q) (calls' : List (Call Pubkey)) :
    (q.isPaused = true →
      (∀ e ∈ (program D).logFrom ((program D).run calls) calls', ¬Entry.Resumes k e) →
      (∃ q', ((program D).run (calls ++ calls')).queueConfigs.lookup k = some q' ∧
        q'.isPaused = true ∧ q'.nextJobSeq = q.nextJobSeq ∧
        q'.totalEnqueued = q.totalEnqueued) ∧
      ∀ e ∈ (program D).logFrom ((program D).run calls) calls', ∀ a j',
        e.after.jobs.lookup a = some j' → j'.queue = k →
        ∃ j, e.before.jobs.lookup a = some j ∧ SameIdentity j j') ∧
    ((∀ c ∈ calls', ¬c.instruction.HeedsBreaker k) →
      (program D).results (((program D).run calls).togglePaused k) calls' =
        (program D).results ((program D).run calls) calls' ∧
      (program D).runFrom (((program D).run calls).togglePaused k) calls' =
        ((program D).run (calls ++ calls')).togglePaused k) := by
  rw [Machine.run_append]
  refine ⟨fun hpaused hresumes => ⟨staysPaused_runFrom calls' hresumes q hq hpaused,
    fun e he a j' hj' hk => no_job_of_paused calls' hresumes hq hpaused he hj' hk⟩,
    fun hcalls => ⟨?_, ?_⟩⟩
  · exact (togglePaused_symmetry k).results_map ⟨q, hq⟩ hcalls
  · exact (togglePaused_symmetry k).runFrom_map ⟨q, hq⟩ hcalls

/-- The sample job is enqueued and its queue is paused. -/
def Sample.shut : List (Call Key) := Sample.day.take 3 ++ [Sample.setPaused true]

/-- The sample job is claimed and completed. -/
def Sample.work : List (Call Key) :=
  [Sample.claim 2 Sample.worker 0, Sample.complete 3 Sample.worker 0]

/-- A job enqueued before its queue is paused is claimed and completed all the same. -/
theorem circuit_breaker_shut :
    (∃ q', ((program Derivation.free).run (Sample.shut ++ Sample.work)).queueConfigs.lookup
        Sample.queue = some q' ∧ q'.isPaused = true ∧ q'.nextJobSeq = 1) ∧
      (program Derivation.free).results
          (((program Derivation.free).run Sample.shut).togglePaused Sample.queue) Sample.work =
        (program Derivation.free).results ((program Derivation.free).run Sample.shut)
          Sample.work := by
  have hwork {c : Call Key} (hc : c ∈ Sample.work) :
      c = Sample.claim 2 Sample.worker 0 ∨ c = Sample.complete 3 Sample.worker 0 := by
    simpa [Sample.work] using hc
  obtain ⟨hshut, hopen⟩ := circuit_breaker (D := Derivation.free) (k := Sample.queue) Sample.shut
    rfl Sample.work
  refine ⟨?_, (hopen fun c hc => ?_).1⟩
  · have hresumes : ∀ e ∈ (program Derivation.free).logFrom ((program Derivation.free).run
        Sample.shut) Sample.work, ¬Entry.Resumes Sample.queue e := by
      rintro e he ⟨ctx, n, hcall, -⟩
      rcases hwork (Machine.call_mem_of_mem_logFrom he) with h | h <;>
        cases hcall.symm.trans (congrArg Call.instruction h)
    obtain ⟨⟨q', hq', hpaused, hnext, -⟩, -⟩ := hshut rfl hresumes
    exact ⟨q', hq', hpaused, hnext⟩
  · rcases hwork hc with rfl | rfl <;> exact id

end Runs

end SolQueue
